import Gunyah.Proof.Rm.Overrun

/-!
# What is heard of a request

Every call carries what it asks (`conveys`), unless a number in it does not fit, or the request is written behind
its end (`Whole`): then the other end reads something else (`read_iff`). With the fragments put together
again (`requestOf_series`) that is what it hears.
-/

namespace GH.Proof.Rm

open GH.Impl GH.Impl.Rm GH.Impl.Irq GH.Spec.Rm
open GH.Impl.Rm.Replies (LookupType)

theorem readAsk_eq {k : Kind} {payload rest : List Byte} {ask : Ask} (h : k.layout payload = some (ask, rest)) :
    readAsk k.messageId payload = if rest = [] then some ask else none := by
  simp only [readAsk, kindOf_messageId, Option.bind_eq_bind, Option.bind_some, h]
  cases rest with
  | nil => rfl
  | cons b bs => rfl

/-- A request of a kind, from which `ask` is read if it is short enough to be transmitted. -/
def Conveys (k : Kind) (ask : Ask) (args : CallArgs) : Prop :=
  ∃ payload, args = ⟨k.messageId, some payload, true⟩ ∧ payload.length ≤ KMALLOC_MAX_SIZE ∧
    (payload.length ≤ 63 * 232 → Decodes k.layout payload ask)

theorem Conveys.fixed {k : Kind} {ask : Ask} {payload : List Byte} (h : Decodes k.layout payload ask)
    (hlen : payload.length ≤ KMALLOC_MAX_SIZE) : Conveys k ask ⟨k.messageId, some payload, true⟩ :=
  ⟨payload, rfl, hlen, fun _ => h⟩

theorem Conveys.vm (op : VmOp) (vmid : VmId) :
    Conveys (.vm op) (.vm op vmid) ⟨(Kind.vm op).messageId, some (u16Bytes vmid ++ u16Bytes 0), true⟩ :=
  .fixed ((decodes_vmidPair vmid).bind_pure rfl) (by simp [u16Bytes, KMALLOC_MAX_SIZE])

/-! ## Requests with a number in a field -/

section

variable {alloc : Bool} {req : MemReq} {payload : List Byte}

/-- The writes of a list of authentication parameters end with it. -/
theorem authImage_room {vmid : VmId} {n : Int} {entry : Nat → AuthParamEntry}
    (h : authImageRequest vmid n entry alloc = .ok req) (hbytes : req.bytes = some payload) :
    ∃ size : Nat, (size : Int) = (4 + n * 8) % (2 ^ 64 : Nat) ∧ 4 + 8 * n.toNat ≤ size ∧ size ≤ KMALLOC_MAX_SIZE ∧
      req = ⟨zeros size, [⟨0, u16Bytes vmid⟩, ⟨2, u16Bytes (BitVec.ofInt 16 n)⟩], atOffset 4 (each 8
        (fun i => [⟨0, u32Bytes (entry i).authParamType⟩, ⟨4, u32Bytes (entry i).authParam⟩]) (List.range n.toNat))⟩ := by
  unfold authImageRequest at h
  split at h
  · cases h
  · rename_i reqBuf hbuf
    cases h
    obtain ⟨rfl, hmax⟩ := kzalloc_some hbuf
    have hinside := stores_some_iff.mp ⟨_, hbytes⟩
    rw [List.length_replicate] at hinside
    have hhdr := (hinside ⟨2, u16Bytes (BitVec.ofInt 16 n)⟩ (by simp)).resolve_left (by simp [u16Bytes])
    simp only [u16Bytes, List.length_cons, List.length_nil] at hhdr
    generalize hsize : ((4 + n * 8) % (2 ^ 64 : Nat)).toNat = size at *
    have heach : ∀ w ∈ each 8 (fun i => [⟨0, u32Bytes (entry i).authParamType⟩, ⟨4, u32Bytes (entry i).authParam⟩])
        (List.range n.toNat), w.Inside (size - 4) := by
      intro w hw
      have hin := hinside (w.shift 4) (List.mem_append_right _ (List.mem_map_of_mem hw))
      rw [show size = 4 + (size - 4) by omega] at hin
      exact inside_of_shift hin
    have hle := each_le (fun i => ⟨⟨4, u32Bytes (entry i).authParam⟩, by simp, by simp [u32Bytes], rfl⟩) heach
    rw [List.length_range] at hle
    refine ⟨size, ?_, ?_, hmax, rfl⟩
    · omega
    · have h8 : (8 : Nat) * n.toNat ≤ size - 4 := hle
      omega

theorem authImage_bytes {vmid : VmId} {n : Int} {entry : Nat → AuthParamEntry}
    (h : authImageRequest vmid n entry alloc = .ok req) (hbytes : req.bytes = some payload) (hn : 0 ≤ n) :
    payload = u16Bytes vmid ++ (u16Of n.toNat ++
      ((List.range n.toNat).map entry).flatMap fun e => u32Bytes e.authParamType ++ u32Bytes e.authParam) := by
  obtain ⟨size, hsize, hle, hmax, rfl⟩ := authImage_room h hbytes
  have hwhole : size = 4 + 8 * n.toNat := by omega
  have hnum : BitVec.ofInt 16 n = BitVec.ofNat 16 n.toNat := by
    rw [← BitVec.ofInt_natCast, Int.toNat_of_nonneg hn]
  have helem (i : Nat) : stores [⟨0, u32Bytes (entry i).authParamType⟩, ⟨4, u32Bytes (entry i).authParam⟩] (zeros 8) =
      some (u32Bytes (entry i).authParamType ++ u32Bytes (entry i).authParam) := rfl
  have helems := stores_each rfl helem (List.range n.toNat)
  rw [List.flatten_replicate_replicate, Nat.mul_comm, List.length_range] at helems
  have hhdr : stores [⟨0, u16Bytes vmid⟩, ⟨2, u16Bytes (BitVec.ofInt 16 n)⟩] (zeros 4) =
      some (u16Bytes vmid ++ u16Bytes (BitVec.ofInt 16 n)) := rfl
  have hall := stores_block rfl hhdr helems
  rw [← zeros_add, ← hwhole] at hall
  have heq := Option.some.inj (hbytes.symm.trans hall)
  rw [heq, hnum, List.append_assoc, List.flatMap_map]
  rfl

/-- A number below 0 is sent as one of entries that are all 0. -/
theorem authImage_negative {vmid : VmId} {n : Int} {entry : Nat → AuthParamEntry}
    (h : authImageRequest vmid n entry alloc = .ok req) (hbytes : req.bytes = some payload) (hn : n < 0)
    (hlen : payload.length ≤ 63 * 232) :
    ∃ k < 2 ^ 16, payload = u16Bytes vmid ++ (u16Of k ++
      (List.replicate k (⟨0, 0⟩ : AuthParamEntry)).flatMap fun e => u32Bytes e.authParamType ++ u32Bytes e.authParam) := by
  obtain ⟨size, hsize, hle, -, rfl⟩ := authImage_room h hbytes
  have hlength := length_stores hbytes
  rw [List.length_replicate] at hlength
  obtain ⟨k, hk⟩ : ∃ k : Nat, size = 4 + 8 * k := ⟨(size - 4) / 8, by omega⟩
  have hnum : BitVec.ofInt 16 n = BitVec.ofNat 16 k := by
    apply BitVec.eq_of_toNat_eq
    rw [BitVec.toNat_ofInt, BitVec.toNat_ofNat]
    omega
  have hzero : n.toNat = 0 := Int.toNat_of_nonpos (by omega)
  have hzeros : zeros (8 * k) =
      (List.replicate k (⟨0, 0⟩ : AuthParamEntry)).flatMap fun e => u32Bytes e.authParamType ++ u32Bytes e.authParam := by
    rw [List.flatMap_replicate]
    show zeros (8 * k) = (List.replicate k (zeros 8)).flatten
    rw [List.flatten_replicate_replicate, Nat.mul_comm]
  have hhdr : stores [⟨0, u16Bytes vmid⟩, ⟨2, u16Bytes (BitVec.ofInt 16 n)⟩] (zeros 4) =
      some (u16Bytes vmid ++ u16Bytes (BitVec.ofInt 16 n)) := rfl
  have hall := stores_left hhdr (zeros (8 * k))
  rw [← zeros_add, ← hk] at hall
  have heq := Option.some.inj (hbytes.symm.trans (by rw [MemReq.bytes, hzero]; exact hall))
  exact ⟨k, by omega, by rw [heq, hnum, hzeros, List.append_assoc]; rfl⟩

theorem consoleWrite_bytes {vmid : VmId} {buf : List Byte} (h : consoleWriteRequest vmid buf alloc = .ok req) :
    req.bytes = some (u16Bytes vmid ++ (u16Of buf.length ++ buf)) ∧ req.reqBuf.length ≤ KMALLOC_MAX_SIZE := by
  unfold consoleWriteRequest at h
  split at h
  · cases h
  · rename_i hsize
    split at h
    · cases h
    · rename_i reqBuf hbuf
      cases h
      obtain ⟨rfl, hmax⟩ := kzalloc_some hbuf
      have hadd : sizeAdd 4 buf.length = 4 + buf.length := by
        rw [sizeAdd, if_pos]
        simp only [U32_MAX] at hsize
        omega
      have hhdr : stores [⟨0, u16Bytes vmid⟩, ⟨2, u16Of buf.length⟩] (zeros 4) =
          some (u16Bytes vmid ++ u16Of buf.length) := rfl
      have hdata : stores [⟨0, buf⟩] (zeros buf.length) = some buf := stores_whole (by rw [List.length_replicate])
      have hall := stores_block rfl hhdr hdata
      rw [← zeros_add, ← hadd] at hall
      exact ⟨by rw [← List.append_assoc]; exact hall, by rwa [List.length_replicate]⟩

/-- A name or a URI, with its padding. -/
theorem lookup_text_bytes {data : Option (List Byte)} {vmid : Bool} (h : lookupNameUriRequest data vmid alloc = .ok req)
    (hbytes : req.bytes = some payload) (hlen : payload.length ≤ 63 * 232) :
    ∃ text, data = some text ∧ text.length < 2 ^ 16 ∧
      payload = u16Of text.length ++ ([0, 0] ++ (text ++ zeros (roundUp4 text.length - text.length))) := by
  unfold lookupNameUriRequest at h
  split at h
  · cases h
  · rename_i text
    split at h
    · cases h
    split at h
    · cases h
    · rename_i reqBuf hbuf
      cases h
      obtain ⟨rfl, hmax⟩ := kzalloc_some hbuf
      have hlength := length_stores hbytes
      have hin := stores_some_iff.mp ⟨_, hbytes⟩ ⟨4, text⟩ (by simp [atOffset, Write.shift])
      have hmin := stores_some_iff.mp ⟨_, hbytes⟩ ⟨0, u16Of text.length⟩ (by simp)
      simp only [List.length_replicate, Write.Inside, u16Of, u16Bytes, List.length_cons, List.length_nil] at hin hmin hlength
      have hsize := lookup_size (n := text.length) (by omega) hin (by omega)
      have hround : roundUp4 text.length = (text.length + 3) / 4 * 4 := by
        unfold roundUp4
        rw [Nat.mod_eq_of_lt (by omega)]
      have hroom : sizeAdd 4 (roundUp4 text.length) = 4 + (text.length + (roundUp4 text.length - text.length)) := by omega
      have hhdr : stores [⟨0, u16Of text.length⟩] (zeros 4) = some (u16Of text.length ++ [0, 0]) := rfl
      have hdata : stores [⟨0, text⟩] (zeros text.length) = some text := stores_whole (by rw [List.length_replicate])
      have hall := stores_block rfl hhdr (stores_left hdata (zeros (roundUp4 text.length - text.length)))
      rw [← zeros_add, ← zeros_add, ← hroom] at hall
      refine ⟨text, rfl, by omega, ?_⟩
      have heq := Option.some.inj (hbytes.symm.trans hall)
      rw [heq, List.append_assoc]

theorem lent_eq (flags : BitVec 16) : (flags &&& GH_VM_IRQ_NOTIFY_FLAGS_LENT != 0) = (flags.setWidth 8).getLsbD 0 := by
  rw [show GH_VM_IRQ_NOTIFY_FLAGS_LENT = 1#16 from rfl, BitVec.and_one_eq_setWidth_ofBool_getLsbD,
    BitVec.getLsbD_setWidth]
  cases flags.getLsbD 0 <;> decide

theorem shared_eq (flags : BitVec 8) : (flags &&& GH_RM_MEM_NOTIFY_RECIPIENT_SHARED != 0) = flags.getLsbD 0 := by
  rw [show GH_RM_MEM_NOTIFY_RECIPIENT_SHARED = 1#8 from rfl, BitVec.and_one_eq_setWidth_ofBool_getLsbD]
  cases flags.getLsbD 0 <;> decide

theorem irqNotify_bytes {vmids : List VmId} {flags : BitVec 16} {handle : VirqHandle}
    (h : irqNotifyRequest vmids flags handle alloc = .ok req) :
    vmids.length < 2 ^ 16 ∧ req.reqBuf.length ≤ KMALLOC_MAX_SIZE ∧
    req.bytes = some (u32Bytes handle ++ ([flags.setWidth 8] ++ ([0, 0, 0] ++ if (flags.setWidth 8).getLsbD 0 then
      u16Of vmids.length ++ ([0, 0] ++ vmids.flatMap fun v => u16Bytes v ++ u16Bytes 0) else []))) := by
  unfold irqNotifyRequest at h
  simp only [lent_eq] at h
  split at h
  · cases h
  split at h
  · cases h
  · rename_i hle
    split at h
    · cases h
    · rename_i reqBuf hbuf
      cases h
      obtain ⟨rfl, hmax⟩ := kzalloc_some hbuf
      have hlt : vmids.length < 2 ^ 16 := by
        simp only [U16_MAX] at hle
        omega
      have hhdr : stores [⟨0, u32Bytes handle⟩, ⟨4, [flags.setWidth 8]⟩] (zeros 8) =
          some (u32Bytes handle ++ [flags.setWidth 8, 0, 0, 0]) := rfl
      refine ⟨hlt, by rwa [List.length_replicate], ?_⟩
      unfold MemReq.bytes
      simp only
      cases (flags.setWidth 8).getLsbD 0 with
      | false => exact stores_left hhdr []
      | true =>
        have hn : stores [⟨0, u16Of vmids.length⟩] (zeros 4) = some (u16Of vmids.length ++ [0, 0]) := rfl
        have hlist := stores_block rfl hn (vmidElems_stores vmids)
        have hall := stores_block rfl hhdr hlist
        rw [← zeros_add, ← zeros_add] at hall
        rw [List.append_assoc (u16Of vmids.length)] at hall
        exact hall

/-! ## Requests about memory -/

/-- A request to accept with the flags that are given. -/
theorem accept_bytes {a : AcceptArgs} (h : ghRmMemAcceptPrepareRequest a alloc = .ok req) (hbytes : req.bytes = some payload) :
    payload = acceptBytes { (ApiCall.acceptOf a) with flags := a.flags } := by
  have hfits := (accept_fits_iff h).mp (fits_of_bytes hbytes)
  obtain ⟨hvalid, rfl⟩ := prepareRequest_ok h
  have hsgl : min GH_RM_MEM_MAX_SGL_ENTRIES (sglOf a.sglDesc).length = (sglOf a.sglDesc).length := by
    simp only [AcceptArgs.invalid, Bool.or_eq_false_iff, decide_eq_false_iff_not, not_lt] at hvalid
    exact min_eq_right hvalid.1.2
  have htake : (sglOf a.sglDesc).take GH_RM_MEM_MAX_SGL_ENTRIES = sglOf a.sglDesc := by
    rw [List.take_eq_take_min, hsgl, List.take_length]
  have hacl : validated a (aclOf a.aclDesc).length = (aclOf a.aclDesc).length := by
    rcases hfits with hv | ⟨hnil, -⟩
    · exact if_pos hv
    · rw [hnil, validated, List.length_nil, ite_self]
  have hattr : validated a (attrOf a.memAttrDesc).length = (attrOf a.memAttrDesc).length := by
    rcases hfits with hv | ⟨-, hnil⟩
    · exact if_pos hv
    · rw [hnil, validated, List.length_nil, ite_self]
  have hhdr : stores ([⟨0, u32Bytes a.handle⟩, ⟨4, [a.memType]⟩, ⟨5, [a.transType]⟩, ⟨6, [a.flags]⟩] ++
      if a.has GH_RM_MEM_ACCEPT_VALIDATE_LABEL then [⟨8, u32Bytes a.label⟩] else []) (zeros 12) =
      some (u32Bytes a.handle ++ [a.memType, a.transType, a.flags, 0] ++ u32Bytes (ApiCall.acceptOf a).label) := by
    show _ = some (_ ++ u32Bytes (if a.has GH_RM_MEM_ACCEPT_VALIDATE_LABEL then a.label else 0))
    split <;> rfl
  have hfn : reqHdrSize GH_RM_RPC_MSG_ID_CALL_MEM_ACCEPT =
      some (u32Bytes a.handle ++ [a.memType, a.transType, a.flags, 0] ++ u32Bytes (ApiCall.acceptOf a).label).length := rfl
  have hlists := populate_stores hfn a.aclDesc a.sglDesc a.mapVmid a.memAttrDesc []
  rw [hsgl, htake, List.append_nil, List.append_nil] at hlists
  simp only [MemReq.bytes, hacl, hattr, zeros_add, List.append_assoc (zeros _)] at hbytes
  rw [stores_append, stores_left hhdr, Option.bind_some, hlists, Option.some.injEq] at hbytes
  rw [← hbytes]
  simp only [acceptBytes, List.append_assoc]
  rfl

theorem setFlags_acceptBytes (flags : BitVec 8) (m : MemAccept) :
    setFlags flags (acceptBytes m) = acceptBytes { m with flags } := rfl

end

/-! ## What each call conveys -/

section

variable {args : CallArgs} {env : ApiEnv}

/-- A request that is built in a buffer. -/
theorem Conveys.built {α : Type} {k : Kind} {ask : Ask} {req : Except Int MemReq} {err : Int → RmCalls α}
    {cont : CallRet → RmCalls α} (h : first (sendRequest k.messageId req err cont) = some args)
    (herr : ∀ e, first (err e) = none) (hle : ∀ r, req = .ok r → r.reqBuf.length ≤ KMALLOC_MAX_SIZE)
    (hread : ∀ r payload, req = .ok r → r.bytes = some payload → payload.length ≤ 63 * 232 →
      Decodes k.layout payload ask) : Conveys k ask args := by
  obtain ⟨r, payload, hreq, hbytes, rfl⟩ := sendRequest_first herr h
  exact ⟨payload, rfl, by rw [length_stores hbytes]; exact hle r hreq, hread r payload hreq hbytes⟩

theorem consoleWrite_conveys {vmid : VmId} {buf : List Byte}
    (h : (ApiCall.consoleWrite vmid buf).sends env = some args) : Conveys .consoleWrite (.consoleWrite vmid buf) args := by
  refine Conveys.built (k := .consoleWrite) h (fun _ => rfl) (fun r hr => (consoleWrite_bytes hr).2)
    fun r payload hr hbytes hlen => ?_
  rw [(consoleWrite_bytes hr).1, Option.some.injEq] at hbytes
  subst hbytes
  rw [List.length_append, List.length_append] at hlen
  exact decodes_consoleWrite vmid (by omega)

theorem authImage_conveys {vmid : VmId} {n : Int} {entry : Nat → AuthParamEntry} (hn : 0 ≤ n)
    (h : (ApiCall.authImage vmid n entry).sends env = some args) :
    Conveys .authImage (.authImage vmid ((List.range n.toNat).map entry)) args := by
  obtain ⟨r, payload, hreq, hbytes, rfl⟩ := sendRequest_first (fun _ => rfl) h
  obtain ⟨size, -, -, hmax, hr⟩ := authImage_room hreq hbytes
  have hlength := length_stores hbytes
  rw [hr, List.length_replicate] at hlength
  refine ⟨payload, rfl, by omega, fun hlen => ?_⟩
  have hwhole := authImage_bytes hreq hbytes hn
  have hparams : ((List.range n.toNat).map entry).length = n.toNat := by rw [List.length_map, List.length_range]
  have hcount : ((List.range n.toNat).map entry).length < 2 ^ 16 := by
    have hents := length_entries (k := 8) (fun e : AuthParamEntry => u32Bytes e.authParamType ++ u32Bytes e.authParam)
      (fun _ => rfl) ((List.range n.toNat).map entry)
    rw [hwhole, List.length_append, List.length_append, hents] at hlen
    omega
  have hread := decodes_authImage vmid hcount
  rw [hparams] at hread
  rw [hwhole]
  exact hread

theorem lookup_conveys {type : LookupType} {data : Option (List Byte)} {vmid : Bool}
    (h : (ApiCall.lookup type data vmid).sends env = some args) :
    Conveys (.lookup type) (.lookup type (data.getD [])) args := by
  have htext (t : LookupType) (ht : t ≠ .guid)
      (h : first (sendRequest (Kind.lookup t).messageId (lookupNameUriRequest data vmid env.alloc)
        (fun e => .ret ((e, none), [])) fun r => .ret (Replies.readReply (·, none) env.out r fun _ => Replies.lookupReply)) =
        some args) : Conveys (.lookup t) (.lookup t (data.getD [])) args := by
    refine Conveys.built h (fun _ => rfl) (fun r hr => ?_) fun r payload hr hbytes hlen => ?_
    · unfold lookupNameUriRequest at hr
      split at hr <;> [cases hr; skip]
      split at hr <;> [cases hr; skip]
      split at hr <;> [cases hr; skip]
      rename_i reqBuf hbuf
      cases hr
      obtain ⟨rfl, hmax⟩ := kzalloc_some hbuf
      rwa [List.length_replicate]
    · obtain ⟨text, rfl, hlt, rfl⟩ := lookup_text_bytes hr hbytes hlen
      exact decodes_lookup ht hlt
  cases type with
  | name => exact htext .name (by decide) h
  | uri => exact htext .uri (by decide) h
  | guid =>
    simp only [ApiCall.sends, Replies.ghRmVmLookup, Replies.ghRmVmLookupGuid] at h
    split at h
    · cases h
    · rename_i hlen
      rw [not_not] at hlen
      cases data with
      | none => cases h
      | some data =>
        simp only at h
        split at h
        · cases h
        · cases h
          have htake : data.take 16 = data := by
            rw [← hlen]
            exact List.take_length
          rw [htake]
          refine .fixed (decodes_guid hlen) ?_
          have hl : data.length = 16 := hlen
          rw [hl]
          decide

theorem irqNotify_conveys {vmids : List VmId} {flags : BitVec 16} {handle : VirqHandle}
    (h : (ApiCall.irqNotify vmids flags handle).sends env = some args) :
    Conveys .irqNotify (.irqNotify handle (flags.setWidth 8) (if flags.getLsbD 0 then some vmids else none)) args := by
  have hflag : (flags.setWidth 8).getLsbD 0 = flags.getLsbD 0 := by
    rw [BitVec.getLsbD_setWidth]
    simp
  refine Conveys.built (k := .irqNotify) h (fun _ => rfl) (fun r hr => (irqNotify_bytes hr).2.1)
    fun r payload hr hbytes _ => ?_
  obtain ⟨hlt, -, hbytes'⟩ := irqNotify_bytes hr
  rw [hbytes', Option.some.injEq] at hbytes
  subst hbytes
  rw [← hflag]
  exact decodes_irqNotify handle (flags.setWidth 8) hlt

theorem share_conveys {op : MemOp} {fnId : BitVec 32} (hop : (Kind.memory op).messageId = fnId) (hfn : ShareId fnId)
    {a : MemArgs} {env : ShareEnv} (h : first (ghRmMemShareLendHelper fnId a env) = some args) :
    Conveys (.memory op) (.memory op (ApiCall.sharePart a)) args := by
  subst hop
  refine Conveys.built h (fun _ => rfl) (fun r hr => shareRequest_le hr) fun r payload hr hbytes _ => ?_
  have hacl := (share_fits_iff hfn hr).mp (fits_of_bytes hbytes)
  rw [share_bytes hfn hr hacl, Option.some.injEq] at hbytes
  subst hbytes
  have hflags : shareFlags a = (ApiCall.sharePart a).flags := by
    unfold shareFlags
    rfl
  exact (decodes_parcel (shareFlags a) (acl_lt a.aclDesc)).bind_pure (by rw [hflags]; rfl)

theorem donate_conveys {a : MemArgs} (h : (ApiCall.memDonate a).sends env = some args) :
    Conveys (.memory .donate) (.memory .donate (ApiCall.sharePart a)) args := by
  simp only [ApiCall.sends, ghRmMemDonate] at h
  split at h
  · cases h
  · split at h
    · cases h
    · exact share_conveys rfl (.inr (.inr rfl)) h

theorem lookupSgl_conveys {a : MemArgs} (hw : (sglOf a.sglDesc).length ≤ GH_RM_MEM_MAX_SGL_ENTRIES)
    (h : (ApiCall.memLookupSgl a).sends env = some args) :
    Conveys (.memory .lookupSgl) (.memory .lookupSgl (parcel a 0)) args := by
  refine Conveys.built (k := .memory .lookupSgl) h (fun _ => rfl) (fun r hr => lookupRequest_le hr)
    fun r payload hr hbytes _ => ?_
  rw [lookup_bytes hr, Nat.sub_eq_zero_of_le hw, Option.some.injEq] at hbytes
  subst hbytes
  have hread := decodes_parcel (a := a) 0 (acl_lt a.aclDesc)
  rw [List.take_of_length_le hw] at hread
  show Decodes _ (parcelBytes a 0 ++ []) _
  rw [List.append_nil]
  exact hread.bind_pure rfl

theorem memAppend_conveys {handle : BitVec 32} {flags : BitVec 8} {es : List SglEntry}
    (h : (ApiCall.memAppend handle flags es).sends env = some args) :
    Conveys .memAppend (.memAppend ⟨handle, flags, es⟩) args := by
  have hes (r : MemReq) (hr : appendRequest handle flags es env.heap env.alloc = .ok r) : es.length ≤ 512 :=
    (appendRequest_bytes hr).1.2
  refine Conveys.built (k := .memAppend) h (fun _ => rfl) (fun r hr => ?_) fun r payload hr hbytes _ => ?_
  · rw [← length_stores (appendRequest_bytes hr).2.2, length_appendBytes]
    have hle := hes r hr
    simp only [KMALLOC_MAX_SIZE]
    omega
  · rw [(appendRequest_bytes hr).2.2, Option.some.injEq] at hbytes
    subst hbytes
    have hle := hes r hr
    exact (decodes_append handle flags env.heap (by omega)).bind_pure rfl

theorem memAccept_conveys {a : AcceptArgs} (h : (ApiCall.memAccept a).sends env = some args) :
    Conveys .memAccept (.memAccept (ApiCall.acceptOf a)) args := by
  have hsgl : (sglOf a.sglDesc).length < 2 ^ 16 := sgl_lt _
  have hattr : (attrOf a.memAttrDesc).length < 2 ^ 16 := attr_lt _
  simp only [ApiCall.sends, Accept.start] at h
  cases hreq : ghRmMemAcceptPrepareRequest a env.alloc with
  | error e =>
    rw [hreq] at h
    cases h
  | ok req =>
    rw [hreq] at h
    simp only at h
    cases hbytes : req.bytes with
    | none =>
      rw [hbytes] at h
      cases h
    | some payload =>
      rw [hbytes] at h
      cases h
      have hpayload := accept_bytes hreq hbytes
      have hle : payload.length ≤ KMALLOC_MAX_SIZE := by
        rw [length_stores hbytes]
        exact acceptRequest_le hreq
      have hsent : (if a.multiCall then setFlags (a.flags &&& ~~~GH_RM_MEM_ACCEPT_DONE) payload else payload) =
          acceptBytes (ApiCall.acceptOf a) := by
        rw [hpayload, setFlags_acceptBytes]
        unfold ApiCall.acceptOf
        cases a.multiCall <;> rfl
      have hlength : (acceptBytes (ApiCall.acceptOf a)).length = payload.length := by
        rw [hpayload]
        rfl
      show Conveys _ _ ⟨_, some (if a.multiCall then setFlags (a.flags &&& ~~~GH_RM_MEM_ACCEPT_DONE) payload else payload), true⟩
      rw [hsent]
      exact .fixed (decodes_memAccept (acl_lt a.aclDesc) hsgl hattr) (by rw [hlength]; exact hle)

theorem memNotify_conveys {handle : BitVec 32} {flags : BitVec 8} {memInfoTag : BitVec 32}
    {vmidDesc : Option NotifyVmidDesc} (h : (ApiCall.memNotify handle flags memInfoTag vmidDesc).sends env = some args) :
    Conveys .memNotify (.memNotify handle flags memInfoTag
      (if flags.getLsbD 0 then vmidDesc.map (·.vmidEntries) else none)) args := by
  simp only [ApiCall.sends, ghRmMemNotify] at h
  cases hvalid : notifyInvalid flags vmidDesc with
  | true =>
    rw [if_pos hvalid] at h
    cases h
  | false =>
    rw [if_neg (by rw [hvalid]; decide)] at h
    cases hbuf : kzalloc env.alloc (notifyReq handle flags memInfoTag vmidDesc).length with
    | none =>
      rw [hbuf] at h
      cases h
    | some buf =>
      rw [hbuf] at h
      cases h
      refine .fixed ?_ (kzalloc_some hbuf).2
      have hshared : (flags &&& GH_RM_MEM_NOTIFY_RECIPIENT_SHARED ≠ 0) ↔ flags.getLsbD 0 = true := by
        rw [← shared_eq, bne_iff_ne]
      unfold notifyReq
      by_cases hs : flags &&& GH_RM_MEM_NOTIFY_RECIPIENT_SHARED ≠ 0
      · obtain ⟨d, rfl⟩ := notify_desc hvalid (by rw [shared_eq]; exact hshared.mp hs)
        have hread := decodes_memNotify handle flags memInfoTag d.length_lt
        rw [hshared.mp hs] at hread ⊢
        rw [if_pos hs, List.append_assoc]
        exact hread
      · have hf : flags.getLsbD 0 = false := by
          rw [← Bool.not_eq_true, ← hshared]
          exact hs
        have hread := decodes_memNotify handle flags memInfoTag (show ([] : List VmId).length < 2 ^ 16 by decide)
        rw [hf] at hread ⊢
        rw [if_neg hs, List.append_assoc]
        exact hread

theorem minidumpRegister_conveys {baseIpa regionSize : BitVec 64} {name : Option (List Byte)}
    (hw : (name.getD []).length < 2 ^ 8) (h : (ApiCall.minidumpRegisterRange baseIpa regionSize name).sends env = some args) :
    Conveys .minidumpRegister (.minidumpRegister baseIpa regionSize (name.getD [])) args := by
  obtain ⟨r, payload, hreq, hbytes, rfl⟩ := sendRequest_first (fun _ => rfl) h
  obtain ⟨name, rfl, -, rfl, hle⟩ := minidumpRequest_bytes hreq hbytes
  refine .fixed ?_ hle
  have hname : name.length = (BitVec.ofNat 8 name.length).toNat := by
    rw [BitVec.toNat_ofNat]
    exact (Nat.mod_eq_of_lt hw).symm
  have hres : [env.heap 18, env.heap 19].length = 2 := rfl
  have hread := decodes_minidumpRegister baseIpa regionSize (BitVec.ofNat 8 name.length) hres hname
  simp only [minidumpBytes, List.append_assoc]
  exact hread

/-- Requests of a fixed size. -/
theorem fixed_conveys {k : Kind} {ask : Ask} {payload : List Byte} (h : some ⟨k.messageId, some payload, true⟩ = some args)
    (hread : Decodes k.layout payload ask) (hlen : Nat.ble payload.length 64 = true) : Conveys k ask args := by
  cases h
  exact .fixed hread (Nat.le_trans (Nat.le_of_ble_eq_true hlen) (by decide))

theorem vm_conveys (op : VmOp) {vmid : VmId}
    (h : some ⟨(Kind.vm op).messageId, some (u16Bytes vmid ++ u16Bytes 0), true⟩ = some args) :
    Conveys (.vm op) (.vm op vmid) args := by
  cases h
  exact .vm op vmid

theorem allocVmid_conveys {t : VmTable} {vmName : VmName} {vmid : Int}
    (h : (ApiCall.allocVmid t vmName vmid).sends env = some args) :
    Conveys (.vm .allocate) (.vm .allocate (BitVec.ofInt 16 vmid)) args := by
  simp only [ApiCall.sends, ghRmVmAllocVmid] at h
  split at h
  · cases h
  · split at h
    · cases h
    · exact vm_conveys .allocate h

theorem stop_conveys {vmid : VmId} {stopReason : BitVec 32} {flags : BitVec 8}
    (h : (ApiCall.stop vmid stopReason flags).sends env = some args) : Conveys .stop (.stop vmid flags stopReason) args := by
  simp only [ApiCall.sends, ghRmVmStop] at h
  split at h
  · cases h
  · exact fixed_conveys (k := .stop) h (decodes_stop vmid flags stopReason) rfl

theorem irqAccept_conveys {handle : VirqHandle} {virq : Int} (h : (ApiCall.irqAccept handle virq).sends env = some args) :
    Conveys .irqAccept (.irqAccept handle (BitVec.ofInt 32 virq)) args := by
  simp only [ApiCall.sends, ghRmVmIrqAccept] at h
  split at h
  · cases h
  · exact fixed_conveys (k := .irqAccept) h (decodes_irqAccept handle _) rfl

theorem memFree_conveys (op : FreeOp) {handle : BitVec 32} {flags : BitVec 8}
    (h : callOfRm (ghRmMemReleaseHelper (Kind.memFree op).messageId handle flags env.out) = some args) :
    Conveys (.memFree op) (.memFree op handle flags) args := by
  unfold ghRmMemReleaseHelper at h
  split at h
  · cases h
  · split at h
    · cases h
    · exact fixed_conveys h ((decodes_handleFlags handle flags).bind_pure rfl) rfl

/-- Every request conveys what is asked, if it says all of it. -/
theorem conveys (c : ApiCall) (h : c.sends env = some args) (hw : c.Whole) :
    ∃ k ask, c.asks = some ask ∧ Conveys k ask args := by
  cases c with
  | allocVmid t vmName vmid => exact ⟨_, _, rfl, allocVmid_conveys h⟩
  | deallocVmid t vmid => exact ⟨_, _, rfl, vm_conveys .deallocate h⟩
  | configImage vmid config =>
    exact ⟨_, _, rfl, fixed_conveys (k := .configImage) h
      (decodes_configImage vmid config) rfl⟩
  | authImage vmid nEntries entry => exact ⟨_, _, if_pos hw, authImage_conveys hw h⟩
  | init vmid => exact ⟨_, _, rfl, vm_conveys .init h⟩
  | start vmid => exact ⟨_, _, rfl, vm_conveys .start h⟩
  | stop vmid stopReason flags => exact ⟨_, _, rfl, stop_conveys h⟩
  | reset vmid => exact ⟨_, _, rfl, vm_conveys .reset h⟩
  | getId vmid => exact ⟨_, _, rfl, vm_conveys .getId h⟩
  | lookup type data vmid => exact ⟨_, _, rfl, lookup_conveys h⟩
  | getStatus vmid => exact ⟨_, _, rfl, vm_conveys .getState h⟩
  | setStatus status => exact ⟨_, _, rfl, fixed_conveys (k := .setStatus) h (decodes_setStatus status) rfl⟩
  | getHypRes vmid => exact ⟨_, _, rfl, vm_conveys .getHypRes h⟩
  | setTimeBase vmid tsNsRef qtimeRef =>
    exact ⟨_, _, rfl, fixed_conveys (k := .setTimeBase) h
      (decodes_setTimeBase vmid tsNsRef qtimeRef) rfl⟩
  | irqLend vmid virq label =>
    exact ⟨_, _, rfl, fixed_conveys (k := .irqLend) h
      (decodes_irqLend vmid virq label) rfl⟩
  | irqAccept handle virq => exact ⟨_, _, rfl, irqAccept_conveys h⟩
  | irqRelease handle =>
    exact ⟨_, _, rfl, fixed_conveys (k := .irq .release) h ((decodes_u32 handle).bind_pure rfl) rfl⟩
  | irqReclaim handle =>
    exact ⟨_, _, rfl, fixed_conveys (k := .irq .reclaim) h ((decodes_u32 handle).bind_pure rfl) rfl⟩
  | irqNotify vmids flags handle => exact ⟨_, _, rfl, irqNotify_conveys h⟩
  | consoleOpen vmid => exact ⟨_, _, rfl, vm_conveys .consoleOpen h⟩
  | consoleClose vmid => exact ⟨_, _, rfl, vm_conveys .consoleClose h⟩
  | consoleFlush vmid => exact ⟨_, _, rfl, vm_conveys .consoleFlush h⟩
  | consoleWrite vmid buf => exact ⟨_, _, rfl, consoleWrite_conveys h⟩
  | memShare a => exact ⟨_, _, rfl, share_conveys rfl (.inl rfl) h⟩
  | memLend a => exact ⟨_, _, rfl, share_conveys rfl (.inr (.inl rfl)) h⟩
  | memDonate a => exact ⟨_, _, rfl, donate_conveys h⟩
  | memLookupSgl a => exact ⟨_, _, rfl, lookupSgl_conveys hw h⟩
  | memAppend handle flags sglEntries => exact ⟨_, _, rfl, memAppend_conveys h⟩
  | memAccept a => exact ⟨_, _, rfl, memAccept_conveys h⟩
  | memRelease handle flags => exact ⟨_, _, rfl, memFree_conveys .release h⟩
  | memReclaim handle flags => exact ⟨_, _, rfl, memFree_conveys .reclaim h⟩
  | memNotify handle flags memInfoTag vmidDesc => exact ⟨_, _, rfl, memNotify_conveys h⟩
  | minidumpGetInfo =>
    exact ⟨_, _, rfl, fixed_conveys (k := .minidumpGetInfo) h ((Decodes.skip (by rfl)).bind_pure rfl) rfl⟩
  | minidumpRegisterRange baseIpa regionSize name => exact ⟨_, _, rfl, minidumpRegister_conveys hw h⟩
  | minidumpDeregisterSlot slotNum =>
    exact ⟨_, _, rfl, fixed_conveys (k := .minidumpDeregister) h ((decodes_vmidPair slotNum).bind_pure rfl) rfl⟩

/-! ## What is read -/

/-- A request that is all there is accounted for. -/
theorem accounted_of_sends {c : ApiCall} {m : MemCall} (hc : c.describes = some m) (h : c.sends env = some args) :
    m.Accounted := by
  have hshare {fnId : BitVec 32} (hfn : ShareId fnId) {a : MemArgs} {e : ShareEnv}
      (h : first (ghRmMemShareLendHelper fnId a e) = some args) : (aclOf a.aclDesc).length < 2 ^ 16 := by
    obtain ⟨r, payload, hreq, hbytes, -⟩ := sendRequest_first (fun _ => rfl) h
    exact (share_fits_iff hfn hreq).mp (fits_of_bytes hbytes)
  cases c with
  | memShare a =>
    cases hc
    exact hshare (.inl rfl) h
  | memLend a =>
    cases hc
    exact hshare (.inr (.inl rfl)) h
  | memDonate a =>
    cases hc
    simp only [ApiCall.sends, ghRmMemDonate] at h
    split at h
    · cases h
    · split at h
      · cases h
      · exact hshare (.inr (.inr rfl)) h
  | memAccept a =>
    cases hc
    simp only [ApiCall.sends, Accept.start] at h
    split at h
    · cases h
    · rename_i req hreq
      split at h
      · cases h
      · rename_i payload hbytes
        exact (accept_fits_iff hreq).mp (fits_of_bytes hbytes)
  | memLookupSgl a =>
    cases hc
    trivial
  | _ => cases hc

/-- No request is longer than memory that is allocated can be. -/
theorem sends_le (c : ApiCall) {payload : List Byte} (h : c.sends env = some args) (hbuf : args.reqBuff = some payload) :
    payload.length ≤ KMALLOC_MAX_SIZE := by
  have hwhole (hw : c.Whole) : payload.length ≤ KMALLOC_MAX_SIZE := by
    obtain ⟨k, ask, -, payload', rfl, hle, -⟩ := conveys c h hw
    cases hbuf
    exact hle
  cases c with
  | authImage vmid nEntries entry =>
    obtain ⟨r, payload', hreq, hbytes, rfl⟩ := sendRequest_first (fun _ => rfl) h
    cases hbuf
    obtain ⟨size, -, -, hmax, rfl⟩ := authImage_room hreq hbytes
    rw [length_stores hbytes, List.length_replicate]
    exact hmax
  | memLookupSgl a =>
    obtain ⟨r, payload', hreq, hbytes, rfl⟩ := sendRequest_first (fun _ => rfl) h
    cases hbuf
    rw [length_stores hbytes]
    exact lookupRequest_le hreq
  | minidumpRegisterRange baseIpa regionSize name =>
    obtain ⟨r, payload', hreq, hbytes, rfl⟩ := sendRequest_first (fun _ => rfl) h
    cases hbuf
    obtain ⟨-, -, -, -, hle⟩ := minidumpRequest_bytes hreq hbytes
    exact hle
  | memShare a | memLend a | memDonate a | memAccept a =>
    have hacc := accounted_of_sends rfl h
    exact hwhole hacc
  | _ => exact hwhole trivial

theorem read_whole (c : ApiCall) {payload : List Byte} (h : c.sends env = some args) (hbuf : args.reqBuff = some payload)
    (hlen : payload.length ≤ 63 * 232) (hw : c.Whole) : readAsk args.messageId payload = c.asks := by
  obtain ⟨k, ask, hask, payload', rfl, -, hread⟩ := conveys c h hw
  cases hbuf
  rw [hask]
  exact readAsk_eq (hread hlen).exact

/-- What is read of a part of a payload leaves the rest. -/
theorem read_rest {k : Kind} {ask : Ask} {bs rest : List Byte} (h : Decodes k.layout bs ask) (hne : rest ≠ []) :
    readAsk k.messageId (bs ++ rest) = none := by
  rw [readAsk_eq (h rest), if_neg hne]

theorem read_ne (c : ApiCall) {payload : List Byte} (h : c.sends env = some args) (hbuf : args.reqBuff = some payload)
    (hlen : payload.length ≤ 63 * 232) (hw : ¬ c.Whole) : readAsk args.messageId payload ≠ c.asks := by
  cases c with
  | authImage vmid nEntries entry =>
    obtain ⟨r, payload', hreq, hbytes, rfl⟩ := sendRequest_first (fun _ => rfl) h
    cases hbuf
    obtain ⟨k, hk, rfl⟩ := authImage_negative hreq hbytes (Int.not_le.mp hw) hlen
    have hparams : (List.replicate k (⟨0, 0⟩ : AuthParamEntry)).length < 2 ^ 16 := by rwa [List.length_replicate]
    have hread := decodes_authImage vmid hparams
    rw [List.length_replicate] at hread
    rw [show (ApiCall.authImage vmid nEntries entry).asks = none from if_neg hw]
    intro hnone
    have hsome := readAsk_eq (k := .authImage) hread.exact
    exact absurd (hsome.symm.trans hnone) (by simp)
  | memLookupSgl a =>
    obtain ⟨r, payload', hreq, hbytes, rfl⟩ := sendRequest_first (fun _ => rfl) h
    cases hbuf
    rw [lookup_bytes hreq, Option.some.injEq] at hbytes
    subst hbytes
    have hread : Decodes (Kind.memory .lookupSgl).layout (parcelBytes a 0) _ :=
      (decodes_parcel 0 (acl_lt a.aclDesc)).bind_pure rfl
    have hpos : 0 < (sglOf a.sglDesc).length - GH_RM_MEM_MAX_SGL_ENTRIES := Nat.sub_pos_of_lt (Nat.lt_of_not_le hw)
    have hne : zeros (16 * ((sglOf a.sglDesc).length - GH_RM_MEM_MAX_SGL_ENTRIES)) ≠ [] := by
      rw [ne_eq, List.replicate_eq_nil_iff]
      omega
    show readAsk (Kind.memory .lookupSgl).messageId _ ≠ _
    rw [read_rest hread hne]
    exact (Option.some_ne_none _).symm
  | minidumpRegisterRange baseIpa regionSize name =>
    obtain ⟨r, payload', hreq, hbytes, rfl⟩ := sendRequest_first (fun _ => rfl) h
    cases hbuf
    obtain ⟨name, rfl, -, rfl, -⟩ := minidumpRequest_bytes hreq hbytes
    have hlong : ¬ name.length < 2 ^ 8 := hw
    have htold : (BitVec.ofNat 8 name.length).toNat = name.length % 2 ^ 8 := BitVec.toNat_ofNat _ _
    have htake : (name.take (name.length % 2 ^ 8)).length = (BitVec.ofNat 8 name.length).toNat := by
      rw [List.length_take, htold]
      omega
    have hres : [env.heap 18, env.heap 19].length = 2 := rfl
    have hread : Decodes Kind.minidumpRegister.layout _ _ := decodes_minidumpRegister baseIpa regionSize _ hres htake
    have hne : name.drop (name.length % 2 ^ 8) ≠ [] := by
      rw [ne_eq, List.drop_eq_nil_iff]
      omega
    have hsplit : minidumpBytes baseIpa regionSize name env.heap =
        u64Bytes baseIpa ++ (u64Bytes regionSize ++ ([BitVec.ofNat 8 name.length] ++ ([28] ++
          ([env.heap 18, env.heap 19] ++ name.take (name.length % 2 ^ 8))))) ++ name.drop (name.length % 2 ^ 8) := by
      simp only [minidumpBytes, List.append_assoc, List.take_append_drop]
      rfl
    show readAsk Kind.minidumpRegister.messageId _ ≠ _
    rw [hsplit, read_rest hread hne]
    exact (Option.some_ne_none _).symm
  | memShare a | memLend a | memDonate a | memAccept a =>
    have hacc := accounted_of_sends rfl h
    exact absurd hacc hw
  | _ => exact absurd trivial hw

theorem not_whole {c : ApiCall} {m : MemCall} (hc : c.describes = some m) (hw : ¬ m.Accounted) : ¬ c.Whole := by
  cases c with
  | memShare a | memLend a | memDonate a | memAccept a =>
    cases hc
    exact hw
  | memLookupSgl a =>
    cases hc
    exact absurd trivial hw
  | _ => cases hc

theorem sent_le (c : ApiCall) {payload : List Byte} (h : c.sent env = some args) (hbuf : args.reqBuff = some payload) :
    payload.length ≤ KMALLOC_MAX_SIZE := by
  rcases sent_cases h with h | ⟨m, req, -, -, hreq, rfl⟩
  · exact sends_le c h hbuf
  · cases hbuf
    rw [length_reflag, MemReq.kept, length_overwrites]
    exact request_le hreq

/-- What is asked is read of a request exactly if it says all of it. -/
theorem read_iff (c : ApiCall) {payload : List Byte} (h : c.sent env = some args) (hbuf : args.reqBuff = some payload)
    (hlen : payload.length ≤ 63 * 232) : readAsk args.messageId payload = c.asks ↔ c.Whole := by
  rcases sent_cases h with h | ⟨m, req, hc, hw, hreq, rfl⟩
  · by_cases hw : c.Whole
    · exact iff_of_true (read_whole c h hbuf hlen hw) hw
    · exact iff_of_false (read_ne c h hbuf hlen hw) hw
  · cases hbuf
    have hsize : (m.reflag req.kept).length = req.reqBuf.length := by
      rw [length_reflag, MemReq.kept, length_overwrites]
    exact iff_of_false (read_unaccounted hc hreq hsize hlen hw) (not_whole hc hw)

end

/-! ## What is heard -/

section

variable {r : Request}

/-- The messages of a request, put together. -/
theorem requestOf_series (h : 1 ≤ r.reqBuff.length) (h' : r.reqBuff.length ≤ 63 * 232) :
    requestOf ((List.range (numMessages r.reqBuff.length)).map fun i => ((loopAt r i).tx r).msg) =
      some (r.seq, r.messageId, r.reqBuff) := by
  obtain ⟨k, hk⟩ : ∃ k, numMessages r.reqBuff.length = k + 1 :=
    ⟨numMessages r.reqBuff.length - 1, by rw [numMessages]; omega⟩
  have hlt : ∀ i, i < k + 1 → 232 * i < r.reqBuff.length := fun i hi => lt_of_lt_numMessages (hk ▸ hi)
  have hhdr : ∀ i, i < k + 1 → rpcHdr ((loopAt r i).tx r).msg = (loopAt r i).hdr r := fun i hi => by
    rw [tx_msg (hlt i hi), rpcHdr_bytes]
  have hpay : ∀ i ∈ List.range (k + 1), contPayload ((loopAt r i).tx r).msg = chunk r i := fun i hi => by
    rw [contPayload, tx_msg (hlt i (List.mem_range.mp hi)), drop_bytes]
  have hnum : ((loopAt r 0).hdr r).fragments.toNat = k := by
    show (r.numFragments.setWidth 6).toNat = k
    rw [BitVec.toNat_setWidth, numFragments_toNat h (by omega), hk]
    rw [numMessages] at hk
    omega
  have hwhole : ((List.range (k + 1)).map fun i => ((loopAt r i).tx r).msg).flatMap contPayload = r.reqBuff := by
    rw [List.flatMap_map, List.flatMap_congr hpay, flatMap_chunk]
    exact List.take_of_length_le (by rw [numMessages] at hk; omega)
  rw [hk]
  rw [List.range_succ_eq_map, List.map_cons, List.map_map] at hwhole ⊢
  rw [requestOf, hwhole, if_pos, hhdr 0 (Nat.succ_pos k)]
  · rfl
  · refine ⟨?_, ?_, fun m hm => ?_⟩
    · rw [hhdr 0 (Nat.succ_pos k)]
      rfl
    · rw [hhdr 0 (Nat.succ_pos k), hnum, List.length_map, List.length_range]
    · obtain ⟨i, hi, rfl⟩ := List.mem_map.mp hm
      show rpcHdr ((loopAt r (i + 1)).tx r).msg = _
      rw [hhdr (i + 1) (Nat.succ_lt_succ (List.mem_range.mp hi)), hhdr 0 (Nat.succ_pos k)]
      simp only [SendLoop.hdr, loopAt_i]
      rfl

theorem hears_series (h : 1 ≤ r.reqBuff.length) (h' : r.reqBuff.length ≤ 63 * 232) :
    hears (((List.range (numMessages r.reqBuff.length)).map fun i => (loopAt r i).tx r).map (·.msg)) =
      (readAsk r.messageId r.reqBuff).map fun ask => (r.seq, ask) := by
  have hseries : requestOf (((List.range (numMessages r.reqBuff.length)).map fun i => (loopAt r i).tx r).map (·.msg)) =
      some (r.seq, r.messageId, r.reqBuff) := by
    rw [List.map_map]
    exact requestOf_series h h'
  unfold hears
  rw [hseries]
  cases hread : readAsk r.messageId r.reqBuff <;> simp [hread]

/-- A turn whose message is not taken ends the loop with an error. -/
theorem sendFragments_zero {send : Nat → Int} {turns : Nat} {v : SendLoop} {txs : List Tx}
    (h : sendFragments r send turns v = (txs, 0)) : sendFragments r (fun _ => 0) turns v = (txs, 0) := by
  induction turns generalizing v txs with
  | zero => exact h
  | succ turns ih =>
    rw [sendFragments] at h ⊢
    split at h
    · rename_i hne
      rw [Prod.mk.injEq] at h
      exact absurd h.2 hne
    · rw [if_neg (by simp)]
      simp only [Prod.mk.injEq] at h ⊢
      obtain ⟨htxs, hret⟩ := h
      have hrest := ih (Prod.ext rfl hret)
      rw [hrest]
      exact ⟨htxs, rfl⟩

/-- The sizes of the requests that are not refused. -/
theorem length_of_fits (h : r.numFragments.toNat ≤ GH_RM_MAX_NUM_FRAGMENTS) (hlt : r.reqBuff.length < 2 ^ 32) :
    1 ≤ r.reqBuff.length ∧ r.reqBuff.length ≤ 63 * 232 := by
  have hpos : 1 ≤ r.reqBuff.length := by
    by_contra h0
    have hz : r.numFragments = 0xFFFFFFFF := by
      rw [Request.numFragments, show r.reqBuff.length = 0 by omega]
      decide
    rw [hz] at h
    exact absurd h (by decide)
  refine ⟨hpos, ?_⟩
  rw [numFragments_toNat hpos hlt, numMessages, GH_RM_MAX_NUM_FRAGMENTS] at h
  omega

/-- Where `gh_rm_send_request` returns 0, all of the request has been handed over. -/
theorem sendRequest_zero {env : SendEnv} {send : Nat → Int} {txs : List Tx} (h : ghRmSendRequest env send r = (txs, 0))
    (hlt : r.reqBuff.length < 2 ^ 32) : 1 ≤ r.reqBuff.length ∧ r.reqBuff.length ≤ 63 * 232 ∧
      txs = (List.range (numMessages r.reqBuff.length)).map fun i => (loopAt r i).tx r := by
  unfold ghRmSendRequest at h
  split at h <;> [cases h; skip]
  rename_i hdesc
  split at h <;> [cases h; skip]
  rename_i hfrag
  split at h <;> [cases h; skip]
  split at h <;> [cases h; skip]
  have hsend := sendFragments_zero h
  obtain ⟨hpos, hle⟩ := length_of_fits (Nat.le_of_not_gt hfrag) hlt
  refine ⟨hpos, hle, ?_⟩
  have hm : 1 ≤ numMessages r.reqBuff.length := by
    rw [numMessages]
    omega
  rw [numFragments_toNat hpos hlt, show SendLoop.init r = loopAt r 0 from rfl, sendFragments_ok, Nat.sub_add_cancel hm,
    Prod.mk.injEq] at hsend
  simpa only [Nat.zero_add] using hsend.1.symm

end

/-- Of the first request that a function sends, the other end hears what is asked, exactly if the request says all of
it. -/
theorem hears_iff_whole (c : ApiCall) (env : ApiEnv) (args : CallArgs) (payload : List Byte) (seq : BitVec 16)
    (sendEnv : SendEnv) (send : Nat → Int) (txs : List Tx) (h : c.sent env = some args)
    (hbuf : args.reqBuff = some payload)
    (hsend : ghRmSendRequest sendEnv send ⟨args.messageId, payload, seq⟩ = (txs, 0)) :
    hears (txs.map (·.msg)) = c.asks.map (fun ask => (seq, ask)) ↔ c.Whole := by
  have hmax := sent_le c h hbuf
  obtain ⟨hpos, hlen, rfl⟩ := sendRequest_zero hsend (Nat.lt_of_le_of_lt hmax (by decide))
  have hinj : Function.Injective (Option.map fun ask : Ask => (seq, ask)) :=
    Option.map_injective fun _ _ heq => (Prod.mk.inj heq).2
  rw [hears_series hpos hlen, hinj.eq_iff]
  exact read_iff c h hbuf hlen

/-- The request for an ACL of one entry, with the room that there is for it if it is to be validated. -/
def aclRequest (flags : BitVec 8) (room : List Byte) : List Byte :=
  [5, 0, 0, 0, 0, 2, flags, 0, 0, 0, 0, 0, 1, 0, 0, 0, 1, 0, 7, 0] ++ room

/-- An ACL is heard if it is to be validated, and is not heard if it is not, since the attributes are left out. -/
theorem hears_iff_whole_accept :
    hears ((ghRmSendRequest {} (fun _ => 0) ⟨0x51000011, aclRequest 2 [0, 0, 0, 0, 0, 0, 0, 0], 9⟩).1.map (·.msg)) =
        some (9, .memAccept (ApiCall.acceptOf (acceptAcl GH_RM_MEM_ACCEPT_VALIDATE_ACL_ATTRS))) ∧
      hears ((ghRmSendRequest {} (fun _ => 0) ⟨0x51000011, aclRequest 0 [0, 0, 0, 0], 9⟩).1.map (·.msg)) ≠
        some (9, .memAccept (ApiCall.acceptOf (acceptAcl 0))) :=
  ⟨(hears_iff_whole (.memAccept (acceptAcl GH_RM_MEM_ACCEPT_VALIDATE_ACL_ATTRS)) {} ⟨0x51000011, some _, true⟩ _ 9 {}
      (fun _ => 0) _ rfl rfl rfl).mpr (.inl rfl),
    mt (hears_iff_whole (.memAccept (acceptAcl 0)) {} ⟨0x51000011, some _, true⟩ _ 9 {} (fun _ => 0) _ rfl rfl rfl).mp
      (by unfold ApiCall.Whole MemCall.Accounted; decide)⟩

end GH.Proof.Rm
