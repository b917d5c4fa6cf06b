import Gunyah.Proof.Rm.Reads
import Gunyah.Proof.Rm.Share
import Gunyah.Spec.Rm.Payloads

/-!
# Length fields

What is transmitted has at most `63 * 232` bytes, so there are fewer elements behind a field of 16 bits than it
can tell of; each request is split into what is before its elements, where the field is, and
the elements (`payload_parts`). The one field of 8 bits can be too narrow (`tells_iff_fits`).
-/

namespace GH.Proof.Rm

open GH.Impl GH.Impl.Rm GH.Spec.Rm

/-! ## Fields -/

/-- A request: what is before its elements, and they. -/
theorem payload_parts {ws hs vs : List (Write Byte)} {buf payload : List Byte} {k : Nat} (hws : ws = hs ++ atOffset k vs)
    (hhs : ∀ w ∈ hs, w.Inside k) (hk : k ≤ buf.length) (h : stores ws buf = some payload) :
    ∃ as cs, stores hs (buf.take k) = some as ∧ payload = as ++ cs ∧ payload.length = buf.length := by
  have hlen : (buf.take k).length = k := List.length_take_of_le hk
  subst hws
  have hlength := length_stores h
  rw [← List.take_append_drop k buf] at h
  obtain ⟨as, cs, has, -, rfl⟩ := stores_parts hlen hhs h
  exact ⟨as, cs, has, rfl, hlength⟩

theorem kmalloc_some {heap : Nat → Byte} {ok : Bool} {n : Nat} {buf : List Byte} (h : kmalloc heap ok n = some buf) :
    buf = (List.range n).map heap ∧ n ≤ KMALLOC_MAX_SIZE := by
  simp only [kmalloc, Option.ite_none_right_eq_some, Option.some.injEq] at h
  exact ⟨h.2.symm, h.1.2⟩

theorem take_zeros {k n : Nat} (h : k ≤ n) : (zeros n).take k = zeros k := by
  rw [List.take_replicate, Nat.min_eq_left h]

theorem transmits_le {args : CallArgs} {payload : List Byte} (h : Transmits args payload)
    (hmax : payload.length ≤ KMALLOC_MAX_SIZE) : payload.length ≤ 63 * 232 := by
  have hlt : payload.length < 2 ^ 32 := Nat.lt_of_le_of_lt hmax (by decide)
  exact ((transmits_iff hlt).mp h).2.2

/-- A field that is wide enough for a number below `2 ^ 16`. -/
theorem toNat_ofNat16 {n : Nat} (h : n ≤ 63 * 232) : (BitVec.ofNat 16 n).toNat = n := by
  rw [BitVec.toNat_ofNat, Nat.mod_eq_of_lt (by omega)]

/-- Memory of a request that is transmitted. -/
theorem transmitted_size {ws : List (Write Byte)} {n : Nat} {args : CallArgs} {payload : List Byte}
    (h : stores ws (zeros n) = some payload) (hmax : n ≤ KMALLOC_MAX_SIZE) (ht : Transmits args payload) :
    n ≤ 63 * 232 := by
  have hlength := length_stores h
  rw [List.length_replicate] at hlength
  rw [← hlength] at hmax ⊢
  exact transmits_le ht hmax

@[simp] theorem padded_one (n : Nat) : padded 1 n = n := by
  rw [padded, Nat.add_sub_cancel, Nat.div_one, Nat.mul_one]

/-- A field of 16 bits, in what is before the elements. -/
theorem wide_tells {f : CountField} (pre post : List Byte) (x : BitVec 16) (hwide : f.wide = true)
    {ws hs vs : List (Write Byte)} {n : Nat} {payload : List Byte} (hws : ws = hs ++ atOffset f.first vs)
    (hhs : ∀ w ∈ hs, w.Inside f.first) (h : stores ws (zeros n) = some payload) (hoff : pre.length = f.off)
    (has : stores hs (zeros f.first) = some (pre ++ (u16Bytes x ++ post)))
    (hlen : n = f.first + padded f.align (f.size * x.toNat)) (hgiven : ∀ m ∈ f.number, x.toNat = m) :
    f.Tells payload := by
  have hfirst : f.first ≤ n := by omega
  obtain ⟨as, cs, has', rfl, hlength⟩ := payload_parts hws hhs (by rwa [List.length_replicate]) h
  rw [take_zeros hfirst, has, Option.some.injEq] at has'
  subst has'
  have hvalue : f.value (pre ++ (u16Bytes x ++ post) ++ cs) = x.toNat := by
    rw [CountField.value, if_pos hwide, List.append_assoc, List.append_assoc, ← hoff, getU16_append]
  exact ⟨by rw [hvalue, hlength, List.length_replicate, hlen], by rwa [hvalue]⟩

/-! ## Requests -/

section

variable {alloc : Bool} {req : MemReq} {payload : List Byte} {args : CallArgs}

theorem consoleWrite_tells {vmid : VmId} {buf : List Byte} (h : consoleWriteRequest vmid buf alloc = .ok req)
    (hbytes : req.bytes = some payload) (ht : Transmits args payload) :
    CountField.Tells { off := 2, first := 4, size := 1, number := some buf.length } payload := by
  unfold consoleWriteRequest at h
  split at h
  · cases h
  · rename_i hsize
    split at h
    · cases h
    · rename_i reqBuf hbuf
      cases h
      obtain ⟨rfl, hmax⟩ := kzalloc_some hbuf
      have hadd : sizeAdd 4 buf.length = 4 + buf.length := by
        rw [sizeAdd, if_pos]
        simp only [U32_MAX] at hsize
        omega
      have hle := transmitted_size hbytes hmax ht
      have hinside : ∀ w ∈ [⟨0, u16Bytes vmid⟩, ⟨2, u16Of buf.length⟩], Write.Inside w 4 := by
        simp [Write.Inside, u16Of, u16Bytes]
      have hhdr : stores [⟨0, u16Bytes vmid⟩, ⟨2, u16Of buf.length⟩] (zeros 4) =
          some (u16Bytes vmid ++ (u16Of buf.length ++ [])) := rfl
      have hvalue := toNat_ofNat16 (n := buf.length) (by omega)
      refine wide_tells (u16Bytes vmid) [] (BitVec.ofNat 16 buf.length) rfl rfl hinside hbytes rfl hhdr ?_
        fun m hm => hvalue.trans (Option.some.inj hm)
      rw [hvalue, hadd, padded_one, Nat.one_mul]

/-- A size that wraps leaves no room for the data. -/
theorem lookup_size {n : Nat} (hmin : 2 ≤ sizeAdd 4 (roundUp4 n)) (hin : n = 0 ∨ 4 + n ≤ sizeAdd 4 (roundUp4 n))
    (hle : sizeAdd 4 (roundUp4 n) ≤ 63 * 232) : sizeAdd 4 (roundUp4 n) = 4 + (n + 3) / 4 * 4 := by
  have hround : roundUp4 n = (n + 3) / 4 * 4 % 2 ^ 64 := rfl
  by_cases hlt : 4 + roundUp4 n < 2 ^ 64
  · have hadd : sizeAdd 4 (roundUp4 n) = 4 + roundUp4 n := if_pos hlt
    omega
  · have hadd : sizeAdd 4 (roundUp4 n) = 4 + roundUp4 n - 2 ^ 64 := if_neg hlt
    omega

theorem lookup_tells {data : Option (List Byte)} {vmid : Bool} (h : lookupNameUriRequest data vmid alloc = .ok req)
    (hbytes : req.bytes = some payload) (ht : Transmits args payload) :
    CountField.Tells { off := 0, first := 4, size := 1, align := 4, number := data.map List.length } payload := by
  unfold lookupNameUriRequest at h
  split at h
  · cases h
  · rename_i data
    split at h
    · cases h
    split at h
    · cases h
    · rename_i reqBuf hbuf
      cases h
      obtain ⟨rfl, hmax⟩ := kzalloc_some hbuf
      have hle := transmitted_size hbytes hmax ht
      have hin := stores_some_iff.mp ⟨_, hbytes⟩ ⟨4, data⟩ (by simp [atOffset, Write.shift])
      have hmin := stores_some_iff.mp ⟨_, hbytes⟩ ⟨0, u16Of data.length⟩ (by simp)
      simp only [List.length_replicate, Write.Inside, u16Of, u16Bytes, List.length_cons, List.length_nil] at hin hmin
      have hsize := lookup_size (n := data.length) (by omega) hin (by omega)
      have hinside : ∀ w ∈ [⟨0, u16Of data.length⟩], Write.Inside w 4 := by simp [Write.Inside, u16Of, u16Bytes]
      have hhdr : stores [⟨0, u16Of data.length⟩] (zeros 4) = some ([] ++ (u16Of data.length ++ [0, 0])) := rfl
      have hvalue := toNat_ofNat16 (n := data.length) (by omega)
      refine wide_tells [] [0, 0] (BitVec.ofNat 16 data.length) rfl rfl hinside hbytes rfl hhdr ?_
        fun m hm => hvalue.trans (Option.some.inj hm)
      rw [hvalue, hsize, Nat.one_mul]
      rfl

theorem authImage_tells {vmid : VmId} {nEntries : Int} {entry : Nat → AuthParamEntry}
    (h : authImageRequest vmid nEntries entry alloc = .ok req) (hbytes : req.bytes = some payload)
    (ht : Transmits args payload) : CountField.Tells { off := 2, first := 4, size := 8 } payload := by
  unfold authImageRequest at h
  split at h
  · cases h
  · rename_i reqBuf hbuf
    cases h
    obtain ⟨rfl, hmax⟩ := kzalloc_some hbuf
    have hle := transmitted_size hbytes hmax ht
    have hinside : ∀ w ∈ [⟨0, u16Bytes vmid⟩, ⟨2, u16Bytes (BitVec.ofInt 16 nEntries)⟩], Write.Inside w 4 := by
      simp [Write.Inside, u16Bytes]
    have hhdr : stores [⟨0, u16Bytes vmid⟩, ⟨2, u16Bytes (BitVec.ofInt 16 nEntries)⟩] (zeros 4) =
        some (u16Bytes vmid ++ (u16Bytes (BitVec.ofInt 16 nEntries) ++ [])) := rfl
    refine wide_tells (u16Bytes vmid) [] (BitVec.ofInt 16 nEntries) rfl rfl hinside hbytes rfl hhdr ?_
      fun m hm => absurd hm (Option.not_mem_none m)
    rw [BitVec.toNat_ofInt, padded_one]
    show _ = 4 + 8 * _
    omega

/-- The writes of a list of VMIDs behind its number, as those before the elements and those of the elements. -/
theorem vmids_writes (hdr : List (Write Byte)) (k : Nat) (vmids : List VmId) :
    hdr ++ atOffset k (⟨0, u16Of vmids.length⟩ :: atOffset 4 (each 4 vmidElem vmids)) =
      (hdr ++ [⟨k, u16Of vmids.length⟩]) ++ atOffset (k + 4) (each 4 vmidElem vmids) := by
  rw [List.append_assoc, ← atOffset_atOffset]
  rfl

theorem irqNotify_tells {vmids : List VmId} {flags : BitVec 16} {virqHandle : BitVec 32}
    (h : irqNotifyRequest vmids flags virqHandle alloc = .ok req)
    (hlent : (flags &&& GH_VM_IRQ_NOTIFY_FLAGS_LENT != 0) = true) (hbytes : req.bytes = some payload) :
    CountField.Tells { off := 8, first := 12, size := 4, number := some vmids.length } payload := by
  unfold irqNotifyRequest at h
  simp only [hlent, if_true] at h
  split at h
  · cases h
  split at h
  · cases h
  · rename_i hle
    split at h
    · cases h
    · rename_i reqBuf hbuf
      cases h
      obtain ⟨rfl, hmax⟩ := kzalloc_some hbuf
      have hinside : ∀ w ∈ [⟨0, u32Bytes virqHandle⟩, ⟨4, [flags.setWidth 8]⟩] ++ [⟨8, u16Of vmids.length⟩],
          Write.Inside w 12 := by
        simp [Write.Inside, u16Of, u16Bytes, u32Bytes]
      have hhdr : stores ([⟨0, u32Bytes virqHandle⟩, ⟨4, [flags.setWidth 8]⟩] ++ [⟨8, u16Of vmids.length⟩]) (zeros 12) =
          some (u32Bytes virqHandle ++ [flags.setWidth 8, 0, 0, 0] ++ (u16Of vmids.length ++ [0, 0])) := rfl
      have hvalue : (BitVec.ofNat 16 vmids.length).toNat = vmids.length := by
        simp only [U16_MAX] at hle
        rw [BitVec.toNat_ofNat, Nat.mod_eq_of_lt (by omega)]
      refine wide_tells (u32Bytes virqHandle ++ [flags.setWidth 8, 0, 0, 0]) [0, 0] (BitVec.ofNat 16 vmids.length) rfl
        (vmids_writes _ 8 vmids) hinside hbytes rfl hhdr ?_ fun m hm => hvalue.trans (Option.some.inj hm)
      rw [hvalue, padded_one]
      show _ = 12 + 4 * vmids.length
      omega

theorem length_appendBytes (handle : BitVec 32) (flags : BitVec 8) (es : List SglEntry) (heap : Nat → Byte) :
    (appendBytes handle flags es heap).length = 12 + 16 * es.length := by
  have hes : (es.flatMap (·.bytes)).length = 16 * es.length := length_entries SglEntry.bytes (fun _ => rfl) es
  simp only [appendBytes, sglBytes, List.length_append, hes, u32Bytes, u16Bytes, List.length_cons, List.length_nil]
  omega

theorem appendRequest_bytes {handle : BitVec 32} {flags : BitVec 8} {es : List SglEntry} {heap : Nat → Byte}
    (h : appendRequest handle flags es heap alloc = .ok req) :
    Appends flags es ∧ alloc = true ∧ req.bytes = some (appendBytes handle flags es heap) := by
  have hok : Appends flags es := by
    unfold appendRequest at h
    split at h
    · cases h
    · rename_i hok
      rw [not_or, not_not, Nat.not_lt] at hok
      exact hok
  rw [appendRequest_eq hok.1 hok.2] at h
  cases alloc with
  | false => cases h
  | true =>
    cases h
    exact ⟨hok, rfl, append_stores heap handle flags es⟩

theorem memAppend_tells {handle : BitVec 32} {flags : BitVec 8} {es : List SglEntry} {heap : Nat → Byte}
    (h : appendRequest handle flags es heap alloc = .ok req) (hbytes : req.bytes = some payload) :
    CountField.Tells { off := 8, first := 12, size := 16, number := some es.length } payload := by
  obtain ⟨⟨-, hlen⟩, -, hreq⟩ := appendRequest_bytes h
  rw [hreq, Option.some.injEq] at hbytes
  subst hbytes
  have hvalue : getU16 (appendBytes handle flags es heap) 8 = BitVec.ofNat 16 es.length := by
    have happ := getU16_append (u32Bytes handle ++ [flags] ++ [heap 5, heap 6, heap 7])
      ([heap 10, heap 11] ++ es.flatMap (·.bytes)) (BitVec.ofNat 16 es.length)
    rwa [← List.append_assoc (u16Bytes _)] at happ
  simp only [GH_RM_MEM_MAX_SGL_ENTRIES] at hlen
  have hnumber : (getU16 (appendBytes handle flags es heap) 8).toNat = es.length := by
    rw [hvalue, toNat_ofNat16 (by omega)]
  refine ⟨?_, fun m hm => hnumber.trans (Option.some.inj hm)⟩
  show _ = 12 + padded 1 (16 * (getU16 (appendBytes handle flags es heap) 8).toNat)
  rw [hnumber, length_appendBytes, padded_one]

/-- The elements of a list of VMIDs. -/
theorem vmidElems_stores (vmids : List VmId) :
    stores (each 4 vmidElem vmids) (zeros (4 * vmids.length)) =
      some (vmids.flatMap fun v => u16Bytes v ++ u16Bytes 0) := by
  have helem (v : VmId) : stores (vmidElem v) (zeros 4) = some (u16Bytes v ++ u16Bytes 0) := rfl
  have helems := stores_each rfl helem vmids
  rwa [List.flatten_replicate_replicate, Nat.mul_comm] at helems

theorem notify_desc {flags : BitVec 8} {vmidDesc : Option NotifyVmidDesc} (hvalid : notifyInvalid flags vmidDesc = false)
    (hshared : (flags &&& GH_RM_MEM_NOTIFY_RECIPIENT_SHARED != 0) = true) : ∃ d, vmidDesc = some d := by
  cases vmidDesc with
  | none =>
    simp only [notifyInvalid, hshared, Option.all_none, Bool.and_self, Bool.or_true, Bool.true_or] at hvalid
    cases hvalid
  | some d => exact ⟨d, rfl⟩

theorem memNotify_tells {handle : BitVec 32} {flags : BitVec 8} {memInfoTag : BitVec 32}
    {vmidDesc : Option NotifyVmidDesc} (hvalid : notifyInvalid flags vmidDesc = false)
    (hshared : (flags &&& GH_RM_MEM_NOTIFY_RECIPIENT_SHARED != 0) = true) :
    CountField.Tells
      { off := 12, first := 16, size := 4, number := vmidDesc.map fun d => d.vmidEntries.length }
      (notifyReq handle flags memInfoTag vmidDesc) := by
  have hs : flags &&& GH_RM_MEM_NOTIFY_RECIPIENT_SHARED ≠ 0 := by simpa using hshared
  obtain ⟨d, rfl⟩ := notify_desc hvalid hshared
  have hlength : (d.vmidEntries.flatMap fun v => u16Bytes v ++ u16Bytes 0).length = 4 * d.vmidEntries.length :=
    length_entries (fun v => u16Bytes v ++ u16Bytes 0) (fun _ => rfl) _
  have hvalue : getU16 (notifyReq handle flags memInfoTag (some d)) 12 = BitVec.ofNat 16 d.vmidEntries.length := by
    rw [notifyReq, if_pos hs]
    simp only [List.append_assoc (u16Bytes _)]
    exact getU16_append (u32Bytes handle ++ [flags, 0, 0, 0] ++ u32Bytes memInfoTag) _ _
  have hnumber : (getU16 (notifyReq handle flags memInfoTag (some d)) 12).toNat = d.vmidEntries.length := by
    rw [hvalue, BitVec.toNat_ofNat, Nat.mod_eq_of_lt d.length_lt]
  refine ⟨?_, fun m hm => hnumber.trans (Option.some.inj hm)⟩
  show _ = 16 + padded 1 (4 * (getU16 (notifyReq handle flags memInfoTag (some d)) 12).toNat)
  rw [hnumber, padded_one, notifyReq, if_pos hs]
  simp only [List.length_append, hlength]
  simp only [u32Bytes, u16Bytes, List.length_cons, List.length_nil]
  omega

/-- The bytes of a request for a minidump: the memory that it is built in shows in the reserved field. -/
def minidumpBytes (baseIpa regionSize : BitVec 64) (name : List Byte) (heap : Nat → Byte) : List Byte :=
  u64Bytes baseIpa ++ u64Bytes regionSize ++ [BitVec.ofNat 8 name.length, 28] ++ [heap 18, heap 19] ++ name

theorem length_minidumpBytes (baseIpa regionSize : BitVec 64) (name : List Byte) (heap : Nat → Byte) :
    (minidumpBytes baseIpa regionSize name heap).length = 20 + name.length := by
  simp only [minidumpBytes, u64Bytes, u32Bytes, List.length_append, List.length_cons, List.length_nil]

theorem minidump_stores (baseIpa regionSize : BitVec 64) (name : List Byte) (heap : Nat → Byte) :
    stores ([⟨0, u64Bytes baseIpa⟩, ⟨8, u64Bytes regionSize⟩, ⟨16, [BitVec.ofNat 8 name.length]⟩, ⟨17, [20 + 8]⟩] ++
      atOffset 20 [⟨0, name⟩]) ((List.range (20 + name.length)).map heap) =
      some (minidumpBytes baseIpa regionSize name heap) := by
  have hhdr : stores [⟨0, u64Bytes baseIpa⟩, ⟨8, u64Bytes regionSize⟩, ⟨16, [BitVec.ofNat 8 name.length]⟩, ⟨17, [20 + 8]⟩]
      ((List.range 20).map heap) =
      some (u64Bytes baseIpa ++ u64Bytes regionSize ++ [BitVec.ofNat 8 name.length, 28] ++ [heap 18, heap 19]) := rfl
  rw [List.range_add, List.map_append, List.map_map]
  exact stores_block (by rw [List.length_map, List.length_range]) hhdr
    (stores_whole (by rw [List.length_map, List.length_range]))

theorem minidumpRequest_bytes {baseIpa regionSize : BitVec 64} {name : Option (List Byte)} {heap : Nat → Byte}
    (h : minidumpRequest baseIpa regionSize name heap alloc = .ok req) (hbytes : req.bytes = some payload) :
    ∃ name', name = some name' ∧ alloc = true ∧ payload = minidumpBytes baseIpa regionSize name' heap ∧
      payload.length ≤ KMALLOC_MAX_SIZE := by
  cases name with
  | none => cases h
  | some name =>
    simp only [minidumpRequest] at h
    split at h
    · cases h
    · rename_i reqBuf hbuf
      cases h
      have halloc : alloc = true := by
        cases alloc with
        | false => simp [kmalloc] at hbuf
        | true => rfl
      obtain ⟨rfl, hmax⟩ := kmalloc_some hbuf
      have hlength := length_stores hbytes
      have hin := stores_some_iff.mp ⟨_, hbytes⟩ ⟨20, name⟩ (by simp [atOffset, Write.shift])
      have hoff := stores_some_iff.mp ⟨_, hbytes⟩ ⟨17, [20 + 8]⟩ (by simp)
      simp only [Write.Inside, List.length_map, List.length_range, List.length_cons, List.length_nil] at hin hoff hlength
      -- A size that wraps leaves no room for the name.
      have hadd : sizeAdd 20 name.length = 20 + name.length := by
        refine if_pos ?_
        by_contra hlt
        have hwrap : sizeAdd 20 name.length = 20 + name.length - 2 ^ 64 := if_neg hlt
        omega
      have hstores := minidump_stores baseIpa regionSize name heap
      rw [← hadd] at hstores
      have hpayload := Option.some.inj (hbytes.symm.trans hstores)
      exact ⟨name, rfl, halloc, hpayload, by omega⟩

theorem minidump_tells_iff (baseIpa regionSize : BitVec 64) (name : List Byte) (heap : Nat → Byte) :
    CountField.Tells { off := 16, wide := false, first := 20, size := 1, number := some name.length }
      (minidumpBytes baseIpa regionSize name heap) ↔ name.length < 2 ^ 8 := by
  have hvalue : ((minidumpBytes baseIpa regionSize name heap).getD 16 0).toNat = name.length % 2 ^ 8 :=
    BitVec.toNat_ofNat _ _
  constructor
  · intro htells
    have hgiven : ((minidumpBytes baseIpa regionSize name heap).getD 16 0).toNat = name.length := htells.given _ rfl
    omega
  · intro hlt
    have hnumber := hvalue.trans (Nat.mod_eq_of_lt hlt)
    refine ⟨?_, fun m hm => hnumber.trans (Option.some.inj hm)⟩
    show _ = 20 + padded 1 (1 * ((minidumpBytes baseIpa regionSize name heap).getD 16 0).toNat)
    rw [hnumber, padded_one, Nat.one_mul, length_minidumpBytes]

/-! ## All requests -/

/-- Of what is transmitted, the length fields tell the truth exactly if the numbers fit them. -/
theorem tells_iff_fits (c : CountedCall) (alloc : Bool) (o : Out) (args : CallArgs) (payload : List Byte)
    (h : c.sends alloc o = some args) (ht : Transmits args payload) :
    (∀ f, c.field = some f → f.Tells payload) ↔ c.NumberFits := by
  have hfirst {α : Type} {fnId : BitVec 32} {req : Except Int MemReq} {err : Int → RmCalls α} {cont : CallRet → RmCalls α}
      (herr : ∀ e, first (err e) = none) (h : first (sendRequest fnId req err cont) = some args) :
      ∃ r, req = .ok r ∧ r.bytes = some payload := by
    obtain ⟨r, payload', hreq, hbytes, rfl⟩ := sendRequest_first herr h
    cases ht.1
    exact ⟨r, hreq, hbytes⟩
  cases c with
  | consoleWrite vmid buf =>
    obtain ⟨r, hreq, hbytes⟩ := hfirst (fun _ => rfl) h
    refine iff_of_true (fun f hf => ?_) trivial
    cases hf
    exact consoleWrite_tells hreq hbytes ht
  | lookup type data vmid =>
    obtain ⟨r, hreq, hbytes⟩ := hfirst (fun _ => rfl) h
    refine iff_of_true (fun f hf => ?_) trivial
    cases hf
    exact lookup_tells hreq hbytes ht
  | authImage vmid nEntries entry =>
    obtain ⟨r, hreq, hbytes⟩ := hfirst (fun _ => rfl) h
    refine iff_of_true (fun f hf => ?_) trivial
    cases hf
    exact authImage_tells hreq hbytes ht
  | irqNotify vmids flags virqHandle =>
    obtain ⟨r, hreq, hbytes⟩ := hfirst (fun _ => rfl) h
    refine iff_of_true (fun f hf => ?_) trivial
    simp only [CountedCall.field, Option.ite_none_right_eq_some, Option.some.injEq] at hf
    obtain ⟨hlent, rfl⟩ := hf
    exact irqNotify_tells hreq hlent hbytes
  | memAppend handle flags sglEntries heap =>
    obtain ⟨r, hreq, hbytes⟩ := hfirst (fun _ => rfl) h
    refine iff_of_true (fun f hf => ?_) trivial
    cases hf
    exact memAppend_tells hreq hbytes
  | memNotify handle flags memInfoTag vmidDesc =>
    refine iff_of_true (fun f hf => ?_) trivial
    simp only [CountedCall.field, Option.ite_none_right_eq_some, Option.some.injEq] at hf
    obtain ⟨hshared, rfl⟩ := hf
    simp only [CountedCall.sends, ghRmMemNotify] at h
    cases hvalid : notifyInvalid flags vmidDesc with
    | true =>
      rw [if_pos hvalid] at h
      cases h
    | false =>
      rw [if_neg (by rw [hvalid]; decide)] at h
      cases hbuf : kzalloc alloc (notifyReq handle flags memInfoTag vmidDesc).length with
      | none =>
        rw [hbuf] at h
        cases h
      | some buf =>
        rw [hbuf] at h
        cases h
        cases ht.1
        exact memNotify_tells hvalid hshared
  | minidumpRegisterRange baseIpa regionSize name heap =>
    obtain ⟨r, hreq, hbytes⟩ := hfirst (fun _ => rfl) h
    obtain ⟨name, rfl, -, rfl, -⟩ := minidumpRequest_bytes hreq hbytes
    refine Iff.trans ?_ (minidump_tells_iff baseIpa regionSize name heap)
    simp only [CountedCall.field, Option.some.injEq, forall_eq', Option.map_some]

end

/-- A request for a minidump that can be allocated. -/
theorem minidumpRequest_some (baseIpa regionSize : BitVec 64) {name : List Byte} (heap : Nat → Byte)
    (h : 20 + name.length ≤ KMALLOC_MAX_SIZE) :
    ∃ req, minidumpRequest baseIpa regionSize (some name) heap true = .ok req ∧
      req.bytes = some (minidumpBytes baseIpa regionSize name heap) := by
  have hadd : sizeAdd 20 name.length = 20 + name.length := by
    refine if_pos ?_
    simp only [KMALLOC_MAX_SIZE] at h
    omega
  have hbuf : kmalloc heap true (sizeAdd 20 name.length) = some ((List.range (20 + name.length)).map heap) := by
    rw [hadd]
    exact if_pos ⟨rfl, h⟩
  refine ⟨⟨(List.range (20 + name.length)).map heap, _, _⟩, ?_, minidump_stores baseIpa regionSize name heap⟩
  unfold minidumpRequest
  simp only [hbuf]
  rfl

theorem tells_iff_fits_console :
    CountField.Tells { off := 2, first := 4, size := 1, number := some 2 } [3, 0, 2, 0, 72, 105] :=
  (tells_iff_fits (.consoleWrite 3 [72, 105]) true ⟨0, 0⟩
    ⟨GH_RM_RPC_MSG_ID_CALL_VM_CONSOLE_WRITE, some [3, 0, 2, 0, 72, 105], true⟩ _ rfl (by decide)).mpr trivial _ rfl

/-- The size of a name of 256 bytes is sent as 0. -/
theorem long_name_lies :
    ¬ ∀ (c : CountedCall) (o : Out) (args : CallArgs) (payload : List Byte), c.sends true o = some args →
      Transmits args payload → ∀ f, c.field = some f → f.Tells payload := by
  intro hall
  obtain ⟨req, hreq, hbytes⟩ := minidumpRequest_some 0 0 (fun _ => 0)
    (show 20 + (List.replicate 256 (0 : Byte)).length ≤ KMALLOC_MAX_SIZE by rw [List.length_replicate]; decide)
  have hsends : (CountedCall.minidumpRegisterRange 0 0 (some (List.replicate 256 0)) fun _ => 0).sends true ⟨0, 0⟩ =
      some ⟨GH_RM_RPC_MSG_ID_CALL_VM_MINIDUMP_REGISTER_RANGE,
        some (minidumpBytes 0 0 (List.replicate 256 0) fun _ => 0), true⟩ := by
    simp only [CountedCall.sends, ghRmMinidumpRegisterRange, sendRequest, hreq, hbytes, first]
  have hlength := length_minidumpBytes 0 0 (List.replicate 256 0) fun _ => 0
  rw [List.length_replicate] at hlength
  have ht : Transmits ⟨GH_RM_RPC_MSG_ID_CALL_VM_MINIDUMP_REGISTER_RANGE,
      some (minidumpBytes 0 0 (List.replicate 256 0) fun _ => 0), true⟩ _ :=
    (transmits_iff (by omega)).mpr ⟨rfl, by omega, by omega⟩
  have htells := (minidump_tells_iff 0 0 (List.replicate 256 0) fun _ => 0).mp (hall _ _ _ _ hsends ht _ rfl)
  rw [List.length_replicate] at htells
  omega

end GH.Proof.Rm
