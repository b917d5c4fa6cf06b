import Gunyah.Proof.Rm.Payloads
import Gunyah.Spec.Rm.Api

/-!
# The wire format of requests

Every layout reads back what the driver writes by it (`decodes_*`), and the message ids tell the kinds of
requests apart (`kindOf_messageId`), so each call carries what it asks (`Conveys`).
-/

namespace GH.Proof.Rm

open GH.Impl GH.Impl.Rm GH.Impl.Irq GH.Spec.Rm
open GH.Impl.Rm.Replies (LookupType)

/-! ## Layouts -/

theorem decodes_vmidPair (v : VmId) : Decodes vmidPair (u16Bytes v ++ u16Bytes 0) v := by
  unfold vmidPair
  exact (decodes_u16 v).bind ((Decodes.skip (by rfl)).bind_pure rfl)

/-- Whatever is in the reserved half. -/
theorem decodes_vmidList {vmids : List VmId} (h : vmids.length < 2 ^ 16) :
    Decodes vmidList (u16Of vmids.length ++ ([0, 0] ++ vmids.flatMap fun v => u16Bytes v ++ u16Bytes 0)) vmids := by
  unfold vmidList
  exact (decodes_u16 _).bind ((Decodes.skip (by rfl)).bind (decodes_count decodes_vmidPair h))

theorem decodes_optional {α : Type} {d : Decoder Byte α} {bs : List Byte} {a : α} (h : Decodes d bs a) (has : Bool) :
    Decodes (optional has d) (if has then bs else []) (if has then some a else none) := by
  cases has with
  | false => exact .pure none
  | true => exact h.bind_pure rfl

theorem decodes_configImage (vmid : VmId) (c : ImageConfig) :
    Decodes configImage (u16Bytes vmid ++ (u16Bytes c.authMech ++ (u32Bytes c.memHandle ++ (u64Bytes c.imageOffset ++
      (u64Bytes c.imageSize ++ (u64Bytes c.dtbOffset ++ u64Bytes c.dtbSize)))))) (.configImage vmid c) := by
  unfold configImage
  exact (decodes_u16 _).bind ((decodes_u16 _).bind ((decodes_u32 _).bind ((decodes_u64 _).bind ((decodes_u64 _).bind
    ((decodes_u64 _).bind ((decodes_u64 _).bind_pure rfl))))))

theorem decodes_authParam (e : AuthParamEntry) :
    Decodes authParam (u32Bytes e.authParamType ++ u32Bytes e.authParam) e := by
  unfold authParam
  exact (decodes_u32 _).bind ((decodes_u32 _).bind_pure rfl)

theorem decodes_authImage (vmid : VmId) {params : List AuthParamEntry} (h : params.length < 2 ^ 16) :
    Decodes authImage (u16Bytes vmid ++ (u16Of params.length ++
      params.flatMap fun e => u32Bytes e.authParamType ++ u32Bytes e.authParam)) (.authImage vmid params) := by
  unfold authImage
  exact (decodes_u16 _).bind ((decodes_u16 _).bind ((decodes_count decodes_authParam h).bind_pure rfl))

theorem decodes_stop (vmid : VmId) (flags : BitVec 8) (stopReason : BitVec 32) :
    Decodes stop (u16Bytes vmid ++ ([flags] ++ ([0] ++ u32Bytes stopReason))) (.stop vmid flags stopReason) := by
  unfold stop
  exact (decodes_u16 _).bind ((decodes_u8 _).bind (skip_zero.bind ((decodes_u32 _).bind_pure rfl)))

theorem decodes_setTimeBase (vmid : VmId) (timeBase archTimerRef : BitVec 64) :
    Decodes setTimeBase ((u16Bytes vmid ++ u16Bytes 0) ++ (u64Bytes timeBase ++ u64Bytes archTimerRef))
      (.setTimeBase vmid timeBase archTimerRef) := by
  unfold setTimeBase
  exact (decodes_vmidPair _).bind ((decodes_u64 _).bind ((decodes_u64 _).bind_pure rfl))

theorem decodes_setStatus (st : VmStatus) :
    Decodes setStatus ([st.vmStatus] ++ ([st.osStatus] ++ u16Bytes st.appStatus)) (.setStatus st) := by
  unfold setStatus
  exact (decodes_u8 _).bind ((decodes_u8 _).bind ((decodes_u16 _).bind_pure rfl))

theorem decodes_guid {data : List Byte} (h : data.length = 16) : Decodes (lookup .guid) data (.lookup .guid data) := by
  show Decodes (do return Ask.lookup .guid (← Decoder.take 16)) data (.lookup .guid data)
  exact (Decodes.take h).bind_pure rfl

/-- A name or a URI with its padding. -/
theorem decodes_lookup {type : LookupType} (ht : type ≠ .guid) {data : List Byte} (h : data.length < 2 ^ 16) :
    Decodes (lookup type) (u16Of data.length ++ ([0, 0] ++ (data ++ zeros (roundUp4 data.length - data.length))))
      (.lookup type data) := by
  have hn : (BitVec.ofNat 16 data.length).toNat = data.length := by
    rw [BitVec.toNat_ofNat, Nat.mod_eq_of_lt h]
  have htext : Decodes (do
      let size ← u16
      Decoder.skip 2
      let data ← Decoder.take size.toNat
      Decoder.skip (roundUp4 size.toNat - size.toNat)
      return Ask.lookup type data)
      (u16Of data.length ++ ([0, 0] ++ (data ++ zeros (roundUp4 data.length - data.length)))) (.lookup type data) := by
    refine (decodes_u16 _).bind ((Decodes.skip (by rfl)).bind ((Decodes.take hn.symm).bind
      ((Decodes.skip ?_).bind_pure rfl)))
    rw [hn, List.length_replicate]
  cases type with
  | guid => exact absurd rfl ht
  | name => exact htext
  | uri => exact htext

theorem decodes_irqLend (vmid : VmId) (virq label : BitVec 32) :
    Decodes irqLend ((u16Bytes vmid ++ u16Bytes 0) ++ (u32Bytes virq ++ u32Bytes label)) (.irqLend vmid virq label) := by
  unfold irqLend
  exact (decodes_vmidPair _).bind ((decodes_u32 _).bind ((decodes_u32 _).bind_pure rfl))

theorem decodes_irqAccept (handle virq : BitVec 32) :
    Decodes irqAccept (u32Bytes handle ++ u32Bytes virq) (.irqAccept handle virq) := by
  unfold irqAccept
  exact (decodes_u32 _).bind ((decodes_u32 _).bind_pure rfl)

theorem decodes_irqNotify (handle : VirqHandle) (flags : BitVec 8) {vmids : List VmId} (h : vmids.length < 2 ^ 16) :
    Decodes irqNotify (u32Bytes handle ++ ([flags] ++ ([0, 0, 0] ++ if flags.getLsbD 0 then
      u16Of vmids.length ++ ([0, 0] ++ vmids.flatMap fun v => u16Bytes v ++ u16Bytes 0) else [])))
      (.irqNotify handle flags (if flags.getLsbD 0 then some vmids else none)) := by
  unfold irqNotify
  exact (decodes_u32 _).bind ((decodes_u8 _).bind ((Decodes.skip (by rfl)).bind
    ((decodes_optional (decodes_vmidList h) _).bind_pure rfl)))

theorem decodes_consoleWrite (vmid : VmId) {data : List Byte} (h : data.length < 2 ^ 16) :
    Decodes consoleWrite (u16Bytes vmid ++ (u16Of data.length ++ data)) (.consoleWrite vmid data) := by
  have hn : data.length = (BitVec.ofNat 16 data.length).toNat := by
    rw [BitVec.toNat_ofNat, Nat.mod_eq_of_lt h]
  unfold consoleWrite
  exact (decodes_u16 _).bind ((decodes_u16 _).bind ((Decodes.take hn).bind_pure rfl))

/-- The bytes of a request to accept a memory parcel. -/
def acceptBytes (m : MemAccept) : List Byte :=
  u32Bytes m.handle ++ ([m.memType] ++ ([m.transType] ++ ([m.flags] ++ ([0] ++ (u32Bytes m.label ++
    (aclBytes m.acl ++ (sglBytes (u16Bytes m.mapVmid) m.sgl ++ memAttrBytes m.attr)))))))

theorem decodes_memAccept {m : MemAccept} (hacl : m.acl.length < 2 ^ 32) (hsgl : m.sgl.length < 2 ^ 16)
    (hattr : m.attr.length < 2 ^ 16) : Decodes memAccept (acceptBytes m) (.memAccept m) := by
  unfold memAccept acceptBytes sglBytes
  simp only [List.append_assoc]
  exact (decodes_u32 _).bind ((decodes_u8 _).bind ((decodes_u8 _).bind ((decodes_u8 _).bind (skip_zero.bind
    ((decodes_u32 _).bind ((decodes_aclList hacl).bind ((decodes_u16 _).bind ((decodes_u16 _).bind
      ((decodes_count decodes_sglEntry hsgl).bind ((decodes_memAttrList hattr).bind_pure rfl))))))))))

theorem decodes_handleFlags (handle : BitVec 32) (flags : BitVec 8) :
    Decodes handleFlags (u32Bytes handle ++ ([flags] ++ [0, 0, 0])) (handle, flags) := by
  unfold handleFlags
  exact (decodes_u32 _).bind ((decodes_u8 _).bind ((Decodes.skip (by rfl)).bind_pure rfl))

theorem decodes_memNotify (handle : BitVec 32) (flags : BitVec 8) (memInfoTag : BitVec 32) {vmids : List VmId}
    (h : vmids.length < 2 ^ 16) :
    Decodes memNotify ((u32Bytes handle ++ ([flags] ++ [0, 0, 0])) ++ (u32Bytes memInfoTag ++ if flags.getLsbD 0 then
      u16Of vmids.length ++ ([0, 0] ++ vmids.flatMap fun v => u16Bytes v ++ u16Bytes 0) else []))
      (.memNotify handle flags memInfoTag (if flags.getLsbD 0 then some vmids else none)) := by
  unfold memNotify
  exact (decodes_handleFlags _ _).bind ((decodes_u32 _).bind ((decodes_optional (decodes_vmidList h) _).bind_pure rfl))

/-- The name that is read has the bytes that the field tells of. -/
theorem decodes_minidumpRegister (baseIpa regionSize : BitVec 64) (x : BitVec 8) {reserved name : List Byte}
    (hres : reserved.length = 2) (h : name.length = x.toNat) :
    Decodes minidumpRegister (u64Bytes baseIpa ++ (u64Bytes regionSize ++ ([x] ++ ([28] ++ (reserved ++ name)))))
      (.minidumpRegister baseIpa regionSize name) := by
  have hskip : Decodes (Decoder.skip ((28 : BitVec 8).toNat - (HDR_SIZE + 20))) ([] : List Byte) ⟨⟩ := .skip rfl
  unfold minidumpRegister
  exact (decodes_u64 _).bind ((decodes_u64 _).bind ((decodes_u8 _).bind ((decodes_u8 _).bind ((Decodes.skip hres).bind
    (hskip.bind ((Decodes.take h).bind_pure rfl))))))

/-! ## Kinds -/

/-- The message ids are all different. -/
theorem kindOf_messageId (k : Kind) : kindOf k.messageId = some k := by
  cases k with
  | vm op => cases op <;> decide
  | lookup type => cases type <;> decide
  | irq op => cases op <;> decide
  | memory op => cases op <;> decide
  | memFree op => cases op <;> decide
  | _ => decide

end GH.Proof.Rm
