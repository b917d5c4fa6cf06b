import Gunyah.Impl.Rm.Payloads
import Gunyah.Spec.Rm.MemReq

/-!
# What a length field tells

Where each of the requests has its number of bytes or elements, and when that number is the
one of what follows it in the payload.
-/

namespace GH.Spec.Rm

open GH.Impl GH.Impl.Rm

/-- A call of one of the functions. -/
inductive CountedCall where
  | consoleWrite (vmid : VmId) (buf : List Byte)
  | lookup (type : VmLookupType) (data : Option (List Byte)) (vmid : Bool)
  | authImage (vmid : VmId) (nEntries : Int) (entry : Nat → AuthParamEntry)
  | irqNotify (vmids : List VmId) (flags : BitVec 16) (virqHandle : BitVec 32)
  | memAppend (handle : BitVec 32) (flags : BitVec 8) (sglEntries : List SglEntry) (heap : Nat → Byte)
  | memNotify (handle : BitVec 32) (flags : BitVec 8) (memInfoTag : BitVec 32) (vmidDesc : Option NotifyVmidDesc)
  | minidumpRegisterRange (baseIpa regionSize : BitVec 64) (name : Option (List Byte)) (heap : Nat → Byte)

/-- The request that it passes to `gh_rm_call`. -/
def CountedCall.sends (alloc : Bool) (o : Out) : CountedCall → Option CallArgs
  | .consoleWrite vmid buf => first (ghRmConsoleWrite vmid buf alloc o.respPayloadSize)
  | .lookup type data vmid => first (ghRmVmLookup type data vmid alloc o)
  | .authImage vmid nEntries entry => first (ghRmVmAuthImage vmid nEntries entry alloc o.respPayloadSize)
  | .irqNotify vmids flags virqHandle => first (ghRmVmIrqNotify vmids flags virqHandle alloc o)
  | .memAppend handle flags sglEntries heap => first (ghRmMemAppend handle flags sglEntries heap alloc o .ret)
  | .memNotify handle flags memInfoTag vmidDesc =>
    match ghRmMemNotify handle flags memInfoTag vmidDesc alloc o with
    | .ret _ => none
    | .call args _ => some args
  | .minidumpRegisterRange baseIpa regionSize name heap =>
    first (ghRmMinidumpRegisterRange baseIpa regionSize name heap alloc o)

/-- A field with a number of elements, and the elements: each has `size` bytes, and after the last there is padding
up to a multiple of `align`. -/
structure CountField where
  off : Nat
  wide : Bool := true
  first : Nat
  size : Nat
  align : Nat := 1
  /-- The number of elements that the caller gives, where it gives them in a list. -/
  number : Option Nat := none

/-- What is in the field, which has 16 or 8 bits. -/
def CountField.value (f : CountField) (payload : List Byte) : Nat :=
  if f.wide then (getU16 payload f.off).toNat else (payload.getD f.off 0).toNat

/-- The bytes that elements take, with the padding behind them. -/
def padded (align n : Nat) : Nat := (n + align - 1) / align * align

/-- The elements that the field tells of are those that follow: as many as the caller gives, and there is nothing
behind them but their padding. -/
structure CountField.Tells (f : CountField) (payload : List Byte) : Prop where
  length : payload.length = f.first + padded f.align (f.size * f.value payload)
  given : ∀ n ∈ f.number, f.value payload = n

/-- The field of the request. There is none where the part with the elements is left out. -/
def CountedCall.field : CountedCall → Option CountField
  | .consoleWrite _ buf => some { off := 2, first := 4, size := 1, number := some buf.length }
  | .lookup _ data _ => some { off := 0, first := 4, size := 1, align := 4, number := data.map List.length }
  | .authImage .. => some { off := 2, first := 4, size := 8 }
  | .irqNotify vmids flags _ =>
    if flags &&& GH_VM_IRQ_NOTIFY_FLAGS_LENT != 0 then
      some { off := 8, first := 12, size := 4, number := some vmids.length }
    else none
  | .memAppend _ _ sglEntries _ => some { off := 8, first := 12, size := 16, number := some sglEntries.length }
  | .memNotify _ flags _ vmidDesc =>
    if flags &&& GH_RM_MEM_NOTIFY_RECIPIENT_SHARED != 0 then
      some { off := 12, first := 16, size := 4, number := vmidDesc.map fun d => d.vmidEntries.length }
    else none
  | .minidumpRegisterRange _ _ name _ =>
    some { off := 16, wide := false, first := 20, size := 1, number := name.map List.length }

/-- The number fits its field. -/
def CountedCall.NumberFits : CountedCall → Prop
  | .minidumpRegisterRange _ _ (some name) _ => name.length < 2 ^ 8
  | _ => True

/-- The arguments that `gh_rm_mem_append` takes. -/
def Appends (flags : BitVec 8) (sglEntries : List SglEntry) : Prop :=
  flags &&& ~~~GH_RM_MEM_APPEND_VALID_FLAGS = 0 ∧ sglEntries.length ≤ GH_RM_MEM_MAX_SGL_ENTRIES

end GH.Spec.Rm
