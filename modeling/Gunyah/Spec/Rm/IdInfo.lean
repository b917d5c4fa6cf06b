import Gunyah.Impl.Rm.IdInfo
import Gunyah.Spec.Rm.Replies

/-!
# Strings of an identification

The RM sends a string by its bytes and their number, the drivers look for a NUL: a copy is right if
there is one behind the bytes, in the buffer that is allocated. Then `gh_get_vm_name` sees
the string that was sent.
-/

namespace GH.Spec.Rm.IdInfo

open GH.Impl GH.Impl.Rm GH.Spec.Rm.Replies

/-- The copy holds the bytes that were sent, and a NUL behind them. -/
def Terminated (e : IdEntry) (info : List Byte) : Prop := e.idInfo ++ [0] <+: info

/-- The VM that a string names. -/
def vmNamed (name : List Byte) : VmName := ((vmNameMap.find? fun x => x.2 = name).map (·.1)).getD .max

/-- Whatever is behind the copy, `gh_get_vm_name` stays inside it and goes by the bytes that were sent. -/
def NameSeen (e : IdEntry) (info : List Byte) : Prop :=
  ∀ behind, (∀ i ∈ ghGetVmName.reads (info ++ behind), i < info.length) ∧
    ghGetVmName.val (info ++ behind) = vmNamed e.idInfo

/-- The copies are right, and the one that is taken for the VM's name is not left. -/
structure CopiesRight (es : List IdEntry) (r : IdInfoRes) : Prop where
  copies : ∀ (k : Nat) (e : IdEntry) (info : List Byte), es[k]? = some e → r.info.infos[k]? = some info → Terminated e info ∧ NameSeen e info
  compared : ∀ a ∈ r.info.vmProp.name, ∀ i ∈ r.compared, i < (r.info.infos.getD a []).length

end GH.Spec.Rm.IdInfo
