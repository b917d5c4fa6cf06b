import Gunyah.Impl.Rm.Replies

/-!
# Who a VM is

`gh_rm_get_vm_id_info` of `gh_rm_core.c`, which asks the RM for the identification of a VM, copies each
piece of it, and gives the VM a name by `vm_name_map`. A copy is a buffer of the size that is allocated; its
address is its number. What is behind a buffer is in the same memory, so a string without an end
is read on from there.
-/

namespace GH.Impl.Rm

open GH.Impl GH.Impl.Rm.Replies

/-! ## Names -/

/-- The bytes of a literal, without its NUL. -/
def strBytes (s : String) : List Byte := s.toList.map fun c => BitVec.ofNat 8 c.toNat

/-- `vm_name_map`, without the names of the images. -/
def vmNameMap : List (VmName × List Byte) :=
  [(.primaryVm, strBytes ""), (.trustedVm, strBytes "qcom,trustedvm"), (.cpusysVm, strBytes "qcom,cpusysvm"),
    (.oemVm, strBytes "qcom,oemvm"), (.autoVm, strBytes "qcom,autoghgvm"), (.autoVmLv, strBytes "qcom,autoghgvmlv")]

/-- `!strcmp` of the string at an offset and a literal. -/
def strEq : List Byte → Nat → ReadM Bool
  | [], off => do return (← readU8 off) == 0
  | c :: cs, off => do if (← readU8 off) = c then strEq cs (off + 1) else return false

/-- The loop of `gh_get_vm_name`. -/
def findVmName : List (VmName × List Byte) → ReadM VmName
  | [] => return .max
  | (val, vmName) :: rest => do if ← strEq vmName 0 then return val else findVmName rest

/-- `gh_get_vm_name`. -/
def ghGetVmName : ReadM VmName := findVmName vmNameMap

/-! ## Pieces of an identification -/

/-- The types of an entry of the reply. -/
def GH_RM_ID_TYPE_GUID : Byte := 0
def GH_RM_ID_TYPE_URI : Byte := 1
def GH_RM_ID_TYPE_NAME : Byte := 2
def GH_RM_ID_TYPE_SIGN_AUTH : Byte := 3

/-- What the kernel decides: whether `kmemdup` and the `kzalloc` of a copy succeed, and what is behind the
copied entries and behind a copy. -/
structure IdInfoEnv where
  kmemdup : Bool := true
  alloc : Nat → Bool := fun _ => true
  behindEntries : List Byte := []
  behindInfo : Nat → List Byte := fun _ => []

/-- The variables of `gh_rm_get_vm_id_info`, and the copies that it has made. -/
structure IdInfo where
  vmProp : VmProperty := {}
  ret : Int := 0
  infos : List (List Byte) := []

/-- The size that is allocated for a copy. -/
def infoSize (idSize : Nat) : Nat := if idSize % 4 ≠ 0 then idSize + 1 else idSize

/-- The `switch` over the type, for a copy that is made. -/
def IdInfo.add (s : IdInfo) (idType : Byte) (info : List Byte) : IdInfo :=
  let a := s.infos.length
  let s := { s with infos := s.infos ++ [info] }
  if idType = GH_RM_ID_TYPE_GUID then { s with vmProp := { s.vmProp with guid := some a } }
  else if idType = GH_RM_ID_TYPE_URI then { s with vmProp := { s.vmProp with uri := some a } }
  else if idType = GH_RM_ID_TYPE_NAME then { s with vmProp := { s.vmProp with name := some a } }
  else if idType = GH_RM_ID_TYPE_SIGN_AUTH then { s with vmProp := { s.vmProp with signAuth := some a } }
  else { s with ret := -EINVAL }

/-- The loop over `n` entries, the first of which is at `off`. -/
def idInfoLoop (alloc : Nat → Bool) : Nat → Nat → IdInfo → ReadM IdInfo
  | 0, _, s => return s
  | n + 1, off, s => do
    let idType ← readU8 off
    let idSize ← readU16 (off + 2)
    match kzalloc (alloc s.infos.length) (infoSize idSize.toNat) with
    | none => return { s with ret := -ENOMEM }
    | some buf =>
      let src ← readBytes (off + 4) idSize.toNat
      idInfoLoop alloc n (off + 4 + roundUp4 idSize.toNat) (s.add idType (src ++ buf.drop src.length))

/-! ## `gh_rm_get_vm_id_info` -/

/-- What `gh_rm_get_vm_id_info` does: what it returns, the table (`none` is an access behind its end), the
copies, and what it reads of the entries and of the copy with the name. -/
structure IdInfoRes where
  ret : Int
  table : Option VmTable
  info : IdInfo := {}
  walked : List Nat := []
  compared : List Nat := []

/-- The name's copy, with what is behind it. -/
def IdInfo.nameMem (s : IdInfo) (env : IdInfoEnv) (a : Addr) : List Byte := s.infos.getD a [] ++ env.behindInfo a

/-- `gh_rm_get_vm_id_info` from the entries on. -/
def getVmIdInfoReply (t : VmTable) (vmid : VmId) (env : IdInfoEnv) : Except Int (BitVec 32 × List Byte) → IdInfoRes
  | .error e => { ret := e, table := some t }
  | .ok (nId, idEntries) =>
    let mem := idEntries ++ env.behindEntries
    let s := (idInfoLoop env.alloc nId.toNat 0 {}).val mem
    let walked := (idInfoLoop env.alloc nId.toNat 0 {}).reads mem
    if s.ret ≠ 0 then { ret := s.ret, table := some t, info := s, walked }
    else
      match s.vmProp.name with
      | none => { ret := -EINVAL, table := some t, info := s, walked }
      | some a =>
        let vmName := ghGetVmName.val (s.nameMem env a)
        let compared := ghGetVmName.reads (s.nameMem env a)
        if vmName = .max then { ret := -EINVAL, table := some t, info := s, walked, compared }
        else
          match ghUpdateVmPropTable t vmName (some { s.vmProp with vmid }) with
          | none => { ret := 0, table := none, info := s, walked, compared }
          | some (t, ret) => { ret, table := some t, info := s, walked, compared }

/-- `gh_rm_get_vm_id_info`. -/
def ghRmGetVmIdInfo (t : VmTable) (vmid : VmId) (env : IdInfoEnv) (o : Out) : RmCall IdInfoRes :=
  (ghRmVmGetId vmid true env.kmemdup o).map fun x => getVmIdInfoReply t vmid env x.1

end GH.Impl.Rm
