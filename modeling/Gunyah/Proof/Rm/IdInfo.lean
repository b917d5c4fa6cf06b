import Gunyah.Proof.Rm.Replies
import Gunyah.Spec.Rm.IdInfo

/-!
# Strings of an identification

`strcmp` stops at the NUL of a string that has one, so `gh_get_vm_name` sees a copy with a NUL behind
its bytes as the string that was sent (`nameSeen`). The loop makes a copy of each entry up to the first
allocation that fails (`idInfoLoop_spec`), with one byte more than the string has if the length of the
string is no multiple of 4, which is where the NUL is (`terminated_iff`).
-/

namespace GH.Proof.Rm

open GH.Impl GH.Impl.Rm GH.Impl.Rm.Replies GH.Spec.Rm GH.Spec.Rm.Replies GH.Spec.Rm.IdInfo

/-! ## `strcmp` -/

theorem readU8_head {m : List Byte} {off : Nat} {b : Byte} {tl : List Byte} (h : m.drop off = b :: tl) :
    (readU8 off).val m = b := by
  have hget : m[off]? = some b := by
    rw [← Nat.add_zero off, ← List.getElem?_drop, h]
    rfl
  show m.getD off 0 = b
  rw [List.getD_eq_getElem?_getD, hget, Option.getD_some]

/-- A string with a NUL behind it is compared as it is, and not beyond the NUL. -/
theorem strEq_spec {m name s behind : List Byte} (off : Nat) (hname : 0 ∉ name) (hs : 0 ∉ s)
    (h : m.drop off = s ++ 0 :: behind) :
    (strEq name off).val m = decide (name = s) ∧ Below m (off + s.length + 1) (strEq name off) := by
  induction name generalizing off s with
  | nil =>
    rw [strEq, below_bind, below_readU8, ReadM.val_bind]
    refine ⟨?_, by omega, below_pure _ _ _⟩
    cases s with
    | nil =>
      rw [readU8_head h]
      rfl
    | cons d s =>
      rw [readU8_head h]
      have hd : d ≠ 0 := fun hd => hs (hd ▸ List.mem_cons_self)
      simpa using hd
  | cons c name ih =>
    have hc : c ≠ 0 := fun hc => hname (hc ▸ List.mem_cons_self)
    rw [strEq, below_bind, below_readU8, ReadM.val_bind]
    cases s with
    | nil =>
      rw [readU8_head h, if_neg (Ne.symm hc)]
      exact ⟨by simp, by simp, below_pure _ _ _⟩
    | cons d s =>
      rw [readU8_head h]
      by_cases hd : d = c
      · have hdrop : m.drop (off + 1) = s ++ 0 :: behind := by
          rw [← List.drop_drop, h, List.cons_append, List.drop_succ_cons, List.drop_zero]
        obtain ⟨hval, hbelow⟩ := ih (off + 1) (fun h0 => hname (List.mem_cons_of_mem _ h0))
          (fun h0 => hs (List.mem_cons_of_mem _ h0)) hdrop
        rw [if_pos hd, hval, List.length_cons]
        refine ⟨by simp [hd], by omega, ?_⟩
        rwa [Nat.add_assoc off 1, Nat.add_comm 1] at hbelow
      · rw [if_neg hd, List.length_cons]
        exact ⟨by simp [Ne.symm hd], by omega, below_pure _ _ _⟩

theorem findVmName_spec {m s behind : List Byte} (names : List (VmName × List Byte)) (hnames : ∀ x ∈ names, 0 ∉ x.2)
    (hs : 0 ∉ s) (h : m = s ++ 0 :: behind) :
    (findVmName names).val m = ((names.find? fun x => x.2 = s).map (·.1)).getD .max ∧
      Below m (s.length + 1) (findVmName names) := by
  induction names with
  | nil => exact ⟨rfl, below_pure _ _ _⟩
  | cons x names ih =>
    obtain ⟨hval, hbelow⟩ := strEq_spec 0 (hnames x List.mem_cons_self) hs h
    rw [Nat.zero_add] at hbelow
    obtain ⟨ihval, ihbelow⟩ := ih fun y hy => hnames y (List.mem_cons_of_mem _ hy)
    rw [findVmName, below_bind, ReadM.val_bind, hval, List.find?_cons]
    by_cases hx : x.2 = s
    · simp only [hx, decide_true, if_true]
      exact ⟨rfl, hx ▸ hbelow, below_pure _ _ _⟩
    · simp only [hx, decide_false]
      exact ⟨ihval, hbelow, ihbelow⟩

theorem vmNameMap_no_nul : ∀ x ∈ vmNameMap, (0 : Byte) ∉ x.2 := by decide

/-- A copy that is terminated is seen as the string that was sent. -/
theorem nameSeen {e : IdEntry} {info : List Byte} (hnul : 0 ∉ e.idInfo) (h : Terminated e info) : NameSeen e info := by
  obtain ⟨rest, rfl⟩ := h
  intro behind
  have hmem : e.idInfo ++ [0] ++ rest ++ behind = e.idInfo ++ 0 :: (rest ++ behind) := by simp
  obtain ⟨hval, hbelow⟩ := findVmName_spec vmNameMap vmNameMap_no_nul hnul hmem
  refine ⟨fun i hi => ?_, hval⟩
  have := hbelow i hi
  simp only [List.length_append, List.length_cons]
  omega

/-! ## The copies -/

/-- The copy of an entry. -/
def copyOf (e : IdEntry) : List Byte := e.idInfo ++ (List.replicate (infoSize e.idInfo.length) 0).drop e.idInfo.length

theorem copyOf_length (e : IdEntry) : (copyOf e).length = infoSize e.idInfo.length := by
  have hle : e.idInfo.length ≤ infoSize e.idInfo.length := by
    unfold infoSize
    split <;> omega
  rw [copyOf, List.length_append, List.length_drop, List.length_replicate]
  omega

theorem terminated_iff (e : IdEntry) : Terminated e (copyOf e) ↔ e.idInfo.length % 4 ≠ 0 := by
  constructor
  · intro h hmod
    have hle := h.length_le
    rw [copyOf_length, infoSize, if_neg (not_not.mpr hmod), List.length_append, List.length_singleton] at hle
    omega
  · intro hmod
    rw [Terminated, copyOf, infoSize, if_pos hmod, List.drop_replicate, Nat.add_sub_cancel_left]
    exact List.prefix_rfl

/-- The copies that are made of entries: up to the first allocation that fails. -/
def copies (alloc : Nat → Bool) : Nat → List IdEntry → List (List Byte)
  | _, [] => []
  | i, e :: es => if alloc i then copyOf e :: copies alloc (i + 1) es else []

theorem copies_getElem? (alloc : Nat → Bool) (i : Nat) (es : List IdEntry) (k : Nat) (info : List Byte) :
    (copies alloc i es)[k]? = some info ↔ (∀ j ≤ k, alloc (i + j)) ∧ ∃ e, es[k]? = some e ∧ info = copyOf e := by
  induction es generalizing i k with
  | nil => simp [copies]
  | cons e es ih =>
    by_cases hi : alloc i
    · rw [copies, if_pos hi]
      cases k with
      | zero =>
        have hall : ∀ j ≤ 0, alloc (i + j) := fun j hj => by rwa [Nat.le_zero.mp hj]
        rw [and_iff_right hall]
        simp [eq_comm]
      | succ k =>
        rw [List.getElem?_cons_succ, List.getElem?_cons_succ, ih]
        refine and_congr_left fun _ => ⟨fun h j hj => ?_, fun h j hj => ?_⟩
        · cases j with
          | zero => exact hi
          | succ j => exact (congrArg alloc (by omega)).trans (h j (by omega))
        · exact (congrArg alloc (by omega)).trans (h (j + 1) (by omega))
    · rw [copies, if_neg hi]
      exact iff_of_false nofun fun h => hi (h.1 0 (Nat.zero_le k))

/-! ## The loop -/

section Loop

variable (pre : List Byte) (e : IdEntry) (rest : List Byte)

theorem entry_idType : (readU8 pre.length).val (pre ++ (e.bytes ++ rest)) = e.idType := by
  apply readU8_head
  rw [List.drop_left]
  rfl

theorem entry_idSize : (readU16 (pre.length + 2)).val (pre ++ (e.bytes ++ rest)) = BitVec.ofNat 16 e.idInfo.length := by
  have happ := getU16_append (pre ++ [e.idType, e.reserved]) (e.idInfo ++ (e.padding ++ rest)) (BitVec.ofNat 16 e.idInfo.length)
  have hm : pre ++ (e.bytes ++ rest) = pre ++ [e.idType, e.reserved] ++
      (u16Bytes (BitVec.ofNat 16 e.idInfo.length) ++ (e.idInfo ++ (e.padding ++ rest))) := by
    simp [IdEntry.bytes, u16Of]
  rwa [List.length_append, ← hm] at happ

theorem entry_idInfo : (readBytes (pre.length + 4) e.idInfo.length).val (pre ++ (e.bytes ++ rest)) = e.idInfo := by
  show ((pre ++ (e.bytes ++ rest)).drop (pre.length + 4)).take e.idInfo.length = e.idInfo
  rw [← List.drop_drop, List.drop_left]
  simp [IdEntry.bytes, u16Of, u16Bytes]

/-- What is allocated for a copy is never too large. -/
theorem kzalloc_info (ok : Bool) : kzalloc ok (infoSize e.idInfo.length) =
    if ok then some (List.replicate (infoSize e.idInfo.length) 0) else none := by
  have hlt := e.length_lt
  have hle : infoSize e.idInfo.length ≤ KMALLOC_MAX_SIZE := by
    unfold infoSize KMALLOC_MAX_SIZE
    split <;> omega
  cases ok <;> simp [kzalloc, hle]

end Loop

theorem add_infos (s : IdInfo) (idType : Byte) (info : List Byte) : (s.add idType info).infos = s.infos ++ [info] := by
  unfold IdInfo.add
  split_ifs <;> rfl

/-- The name is one of the copies. -/
def NameCopied (s : IdInfo) : Prop := ∀ a ∈ s.vmProp.name, a < s.infos.length

theorem add_name (s : IdInfo) (idType : Byte) (info : List Byte) :
    (s.add idType info).vmProp.name = some s.infos.length ∨ (s.add idType info).vmProp.name = s.vmProp.name := by
  unfold IdInfo.add
  split_ifs <;> simp

theorem nameCopied_add {s : IdInfo} (h : NameCopied s) (idType : Byte) (info : List Byte) : NameCopied (s.add idType info) := by
  intro a ha
  rw [add_infos, List.length_append, List.length_singleton]
  rcases add_name s idType info with hnew | hold
  · rw [hnew] at ha
    cases ha
    exact Nat.lt_succ_self _
  · exact Nat.lt_succ_of_lt (h a (hold ▸ ha))

/-- The loop stays inside the entries, and copies them up to the first allocation that fails. -/
theorem idInfoLoop_spec (alloc : Nat → Bool) (es : List IdEntry) (pre behind : List Byte) (s : IdInfo) (hname : NameCopied s) :
    let m := pre ++ (es.flatMap IdEntry.bytes ++ behind)
    let s' := (idInfoLoop alloc es.length pre.length s).val m
    Below m (pre.length + (es.flatMap IdEntry.bytes).length) (idInfoLoop alloc es.length pre.length s) ∧
      s'.infos = s.infos ++ copies alloc s.infos.length es ∧ NameCopied s' := by
  induction es generalizing pre s with
  | nil => exact ⟨below_pure _ _ _, (List.append_nil _).symm, hname⟩
  | cons e es ih =>
    have hlen := idEntry_length e
    have hpadded := e.padded
    have hm : pre ++ ((e :: es).flatMap IdEntry.bytes ++ behind) =
        pre ++ (e.bytes ++ (es.flatMap IdEntry.bytes ++ behind)) := by
      rw [List.flatMap_cons, List.append_assoc]
    have hoff : pre.length + 4 + roundUp4 e.idInfo.length = (pre ++ e.bytes).length := by
      rw [List.length_append]
      omega
    have hsize : (BitVec.ofNat 16 e.idInfo.length).toNat = e.idInfo.length := by
      rw [BitVec.toNat_ofNat, Nat.mod_eq_of_lt e.length_lt]
    dsimp only
    rw [hm]
    simp only [List.flatMap_cons, List.length_append, List.length_cons, idInfoLoop, below_bind, below_readU8,
      below_readU16, ReadM.val_bind, entry_idType, entry_idSize, hsize, hoff, kzalloc_info]
    by_cases hok : alloc s.infos.length
    · simp only [hok, if_true, below_bind, ReadM.val_bind, entry_idInfo]
      obtain ⟨hbelow, hinfos, hcopied⟩ := ih (pre ++ e.bytes) (s.add e.idType (copyOf e)) (nameCopied_add hname _ _)
      rw [List.append_assoc, List.length_append, Nat.add_assoc] at hbelow
      rw [List.append_assoc, List.length_append] at hinfos hcopied
      rw [add_infos, List.length_append, List.length_singleton, List.append_assoc] at hinfos
      refine ⟨⟨by omega, by omega, below_readBytes _ _ (by omega), hbelow⟩, ?_, hcopied⟩
      rw [copies, if_pos hok]
      exact hinfos
    · simp only [hok, Bool.false_eq_true, if_false]
      refine ⟨⟨by omega, by omega, below_pure _ _ _⟩, ?_, hname⟩
      rw [copies, if_neg hok, List.append_nil]
      rfl

/-! ## `gh_rm_get_vm_id_info` -/

section Reply

variable (t : VmTable) (vmid : VmId) (env : IdInfoEnv) (n : BitVec 32) (entries : List Byte)

/-- Where the function compares a name, it is that of the copy. -/
theorem getVmIdInfoReply_parts : let r := getVmIdInfoReply t vmid env (.ok (n, entries))
    let s := (idInfoLoop env.alloc n.toNat 0 {}).val (entries ++ env.behindEntries)
    r.info = s ∧ r.walked = (idInfoLoop env.alloc n.toNat 0 {}).reads (entries ++ env.behindEntries) ∧
      ∀ a ∈ s.vmProp.name, ∀ i ∈ r.compared, i ∈ ghGetVmName.reads (s.nameMem env a) := by
  simp only [getVmIdInfoReply]
  split
  · exact ⟨rfl, rfl, fun a _ => nofun⟩
  · split
    · exact ⟨rfl, rfl, fun a _ => nofun⟩
    · rename_i a ha
      have hname : ∀ b ∈ ((idInfoLoop env.alloc n.toNat 0 {}).val (entries ++ env.behindEntries)).vmProp.name, b = a := by
        intro b hb
        rw [ha] at hb
        exact (Option.some.inj hb).symm
      split
      · exact ⟨rfl, rfl, fun b hb i hi => hname b hb ▸ hi⟩
      · split <;> exact ⟨rfl, rfl, fun b hb i hi => hname b hb ▸ hi⟩

end Reply

/-- The copies of entries that the function has got. -/
theorem id_info_of_entries (t : VmTable) (vmid : VmId) (env : IdInfoEnv) (o : Out) (r : CallRet) (n : BitVec 32) (es : List IdEntry)
    (hacc : ((ghRmVmGetId vmid true env.kmemdup o).run r).1 = .ok (n, es.flatMap IdEntry.bytes)) (hlen : es.length = n.toNat)
    (hnul : ∀ e ∈ es, 0 ∉ e.idInfo) :
    (∀ i ∈ ((ghRmGetVmIdInfo t vmid env o).run r).walked, i < (es.flatMap IdEntry.bytes).length) ∧
      (CopiesRight es ((ghRmGetVmIdInfo t vmid env o).run r) ↔
        ∀ (k : Nat) (e : IdEntry), es[k]? = some e → (∀ j ≤ k, env.alloc j) → e.idInfo.length % 4 ≠ 0) := by
  have hrun : (ghRmGetVmIdInfo t vmid env o).run r = getVmIdInfoReply t vmid env (.ok (n, es.flatMap IdEntry.bytes)) :=
    congrArg (getVmIdInfoReply t vmid env) hacc
  rw [hrun]
  obtain ⟨hinfo, hwalked, hcompared⟩ := getVmIdInfoReply_parts t vmid env n (es.flatMap IdEntry.bytes)
  rw [← hlen] at hinfo hwalked hcompared
  obtain ⟨hbelow, hinfos, hcopied⟩ := idInfoLoop_spec env.alloc es [] env.behindEntries {} nofun
  rw [List.nil_append, List.length_nil, Nat.zero_add] at hbelow
  rw [List.nil_append, List.length_nil] at hinfos hcopied
  have hcopy : ∀ (k : Nat) (info : List Byte),
      (getVmIdInfoReply t vmid env (.ok (n, es.flatMap IdEntry.bytes))).info.infos[k]? = some info ↔
        (∀ j ≤ k, env.alloc j) ∧ ∃ e, es[k]? = some e ∧ info = copyOf e := by
    intro k info
    rw [hinfo, hinfos]
    show (copies env.alloc 0 es)[k]? = some info ↔ _
    rw [copies_getElem?]
    simp only [Nat.zero_add]
  refine ⟨fun i hi => hbelow i (hwalked ▸ hi), fun h k e hk hok => ?_, fun h => ?_⟩
  · exact (terminated_iff e).mp (h.copies k e (copyOf e) hk ((hcopy k _).mpr ⟨hok, e, hk, rfl⟩)).1
  · have hright : ∀ (k : Nat) (e : IdEntry) (info : List Byte), es[k]? = some e →
        (getVmIdInfoReply t vmid env (.ok (n, es.flatMap IdEntry.bytes))).info.infos[k]? = some info →
        Terminated e info ∧ NameSeen e info := by
      intro k e info hk hinfo'
      obtain ⟨hok, e', hk', rfl⟩ := (hcopy k info).mp hinfo'
      cases hk.symm.trans hk'
      have hterm := (terminated_iff e).mpr (h k e hk hok)
      exact ⟨hterm, nameSeen (hnul e (List.mem_of_getElem? hk)) hterm⟩
    refine ⟨hright, fun a ha i hi => ?_⟩
    -- The name is one of the copies, which `gh_get_vm_name` does not leave.
    rw [hinfo] at ha ⊢
    have hget := List.getElem?_eq_getElem (hcopied a ha)
    obtain ⟨-, e, he, -⟩ := (hcopy a _).mp (by rw [hinfo]; exact hget)
    have hseen := (hright a e _ he (by rw [hinfo]; exact hget)).2 (env.behindInfo a)
    have hread := hcompared a ha i hi
    rw [IdInfo.nameMem, List.getD_eq_getElem?_getD, hget, Option.getD_some] at hread
    rw [List.getD_eq_getElem?_getD, hget, Option.getD_some]
    exact hseen.1 i hread

/-- What `gh_rm_vm_get_id` accepts of a reply are entries. The walk over them stays inside, and the copies are terminated
and seen as the strings that were sent exactly where no string that is copied has a length that is a multiple of 4. -/
theorem id_info_iff (t : VmTable) (vmid : VmId) (env : IdInfoEnv) (o : Out) (p : Option (List Byte)) (behind : List Byte)
    (n : BitVec 32) (entries : List Byte)
    (hacc : ((ghRmVmGetId vmid true env.kmemdup o).run (reply p behind).callRet).1 = .ok (n, entries)) :
    IdEntries n.toNat entries ∧ ∀ es : List IdEntry, es.length = n.toNat → entries = es.flatMap IdEntry.bytes →
      (∀ e ∈ es, 0 ∉ e.idInfo) →
        (∀ i ∈ ((ghRmGetVmIdInfo t vmid env o).run (reply p behind).callRet).walked, i < entries.length) ∧
          (CopiesRight es ((ghRmGetVmIdInfo t vmid env o).run (reply p behind).callRet) ↔
            ∀ (k : Nat) (e : IdEntry), es[k]? = some e → (∀ j ≤ k, env.alloc j) → e.idInfo.length % 4 ≠ 0) := by
  constructor
  · cases p with
    | none => nomatch hacc
    | some q => exact getIdReply_ok env.kmemdup q behind hacc
  · intro es hlen hes hnul
    subst hes
    exact id_info_of_entries t vmid env o _ n es hacc hlen hnul

/-- A name of 10 bytes. -/
def oemEntry : IdEntry where
  idType := GH_RM_ID_TYPE_NAME
  reserved := 0
  idInfo := strBytes "qcom,oemvm"
  padding := [0, 0]
  length_lt := by decide
  padded := by decide

/-- A name of 16 bytes. -/
def autoLvEntry : IdEntry where
  idType := GH_RM_ID_TYPE_NAME
  reserved := 0
  idInfo := strBytes "qcom,autoghgvmlv"
  padding := []
  length_lt := by decide
  padded := by decide

theorem id_info_iff_oem : CopiesRight [oemEntry]
    ((ghRmGetVmIdInfo ghInitVmPropTable 5 {} ⟨0, 0⟩).run (reply (some (u32Bytes 1 ++ oemEntry.bytes)) []).callRet) := by
  refine ((id_info_iff ghInitVmPropTable 5 {} ⟨0, 0⟩ _ [] 1 oemEntry.bytes ?_).2 [oemEntry] rfl rfl ?_).2.mpr ?_
  · decide
  · decide
  · intro k e hk _
    obtain rfl := List.mem_singleton.mp (List.mem_of_getElem? hk)
    decide

/-- A name of `vm_name_map` that is not terminated: `gh_get_vm_name` takes the byte behind the copy for a part of
it, and the VM gets no name. -/
theorem autoLv_unterminated :
    ¬ CopiesRight [autoLvEntry] ((ghRmGetVmIdInfo ghInitVmPropTable 5 { behindInfo := fun _ => [120] } ⟨0, 0⟩).run
        (reply (some (u32Bytes 1 ++ autoLvEntry.bytes)) []).callRet) ∧
      ((ghRmGetVmIdInfo ghInitVmPropTable 5 { behindInfo := fun _ => [120] } ⟨0, 0⟩).run
        (reply (some (u32Bytes 1 ++ autoLvEntry.bytes)) []).callRet).ret = -EINVAL := by
  constructor
  · intro h
    have hterm := (h.copies 0 autoLvEntry autoLvEntry.idInfo rfl (by decide)).1
    exact absurd hterm.length_le (by decide)
  · decide

end GH.Proof.Rm
