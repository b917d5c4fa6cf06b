import Gunyah.Proof.Rm.Api
import Gunyah.Proof.Rm.Tx
import Gunyah.Spec.Rm.Listen

/-!
# What the resource manager hears of many threads

The queue has taken blocks, one for each thread that was in the loop of `gh_rm_send_request`
(`Sim`), and a thread that gives up has not written all of its block (`short_of_error`,
`Told`). So the reader at the other end passes its block over, and hears the others as
`Proof.Rm.Api` says (`heard_once`).
-/

namespace GH.Proof.Rm

open GH.Impl GH.Impl.Rm GH.Impl.Msgq GH.Spec.Rm

variable {reqs : Nat → Request} {s t : TxState} {c c' : Blocks Nat Tx} {k : Nat} {act : TxAct}

/-- A thread that has returned stays where it is. -/
theorem ret_stays {ret : Int} (hs : txStep reqs s act = some t) (hk : s.threads k = .ret ret) :
    t.threads k = .ret ret := by
  have hmove : ∀ {j : Nat} {pc : TxPc}, (∀ ret, s.threads j ≠ .ret ret) →
      Function.update s.threads j pc k = .ret ret := by
    intro j pc hj
    rw [Function.update_of_ne, hk]
    rintro rfl
    exact hj ret hk
  cases txStep_does hs with
  | other => exact hk
  | refuse hj | wait hj | interrupted hj | take hj | call hj | finish hj | run hj | hcall hj | store hj | giveUp hj
  | next hj => exact hmove (by simp [hj])

/-- The thread with the lock is in the loop. -/
theorem Sim.inLoop (h : Sim reqs s c) (hl : s.sendLock = some k) :
    (∃ v, s.threads k = .turn v) ∨ ∃ v pc, s.threads k = .send v pc ∧ v.i < (series (reqs k)).length := by
  have hk := h.thread k
  cases hp : s.threads k with
  | idle | lock | ret => rw [hp] at hk; simp [ThreadOk, hl] at hk
  | turn v => exact .inl ⟨v, rfl⟩
  | send v pc =>
    rw [hp] at hk
    obtain ⟨-, hnum, -, hi⟩ := hk
    exact .inr ⟨v, pc, rfl, by rw [length_series hnum]; omega⟩

/-- A thread that gives up has not written all of its request. -/
theorem short_of_error {ret : Int} (h : Sim reqs s c) (hs : txStep reqs s act = some t) (hl : s.sendLock = some k)
    (hk : t.threads k = .ret ret) (hret : ret ≠ 0) : written (s.threads k) < (series (reqs k)).length := by
  have hloop := h.inLoop hl
  have hstay : s.threads k ≠ .ret ret := by
    rcases hloop with ⟨v, e⟩ | ⟨v, pc, e, -⟩ <;> rw [e] <;> exact TxPc.noConfusion
  -- only the step of the thread itself ends the loop
  have hother : ∀ {j : Nat} {pc : TxPc}, Function.update s.threads j pc k = .ret ret → j = k ∧ pc = .ret ret := by
    intro j pc e
    by_cases hj : j = k
    · subst hj
      rw [Function.update_self] at e
      exact ⟨rfl, e⟩
    · rw [Function.update_of_ne (Ne.symm hj)] at e
      exact absurd e hstay
  cases txStep_does hs with
  | other => exact absurd hk hstay
  | refuse hj =>
    obtain ⟨rfl, -⟩ := hother hk
    rcases hloop with ⟨v, e⟩ | ⟨v, pc, e, -⟩ <;> rw [hj] at e <;> cases e
  | interrupted hj =>
    obtain ⟨rfl, -⟩ := hother hk
    rcases hloop with ⟨v, e⟩ | ⟨v, pc, e, -⟩ <;> rw [hj] at e <;> cases e
  | wait | take | call | run | hcall | store | next => cases (hother hk).2
  | finish =>
    cases (hother hk).2
    exact absurd rfl hret
  | giveUp hj =>
    obtain ⟨rfl, e⟩ := hother hk
    cases e
    rcases hloop with ⟨v', e⟩ | ⟨v', pc, e, hi⟩
    · rw [hj] at e
      cases e
    · rw [hj] at e
      cases e
      rw [hj, written, taken, decide_eq_false hret]
      exact hi

/-! ## Over a run -/

/-- The threads that have been in the loop. -/
structure Told (reqs : Nat → Request) (s : TxState) (c : Blocks Nat Tx) : Prop where
  fits : ∀ b ∈ c.past, (reqs b.1).numFragments.toNat ≤ GH_RM_MAX_NUM_FRAGMENTS
  short : ∀ b ∈ c.past, ∀ ret, s.threads b.1 = .ret ret → ret ≠ 0 → b.2 < (series (reqs b.1)).length

theorem Sim.holder_fits (h : Sim reqs s c) {n : Nat} (hc : c.holder = some (k, n)) :
    s.sendLock = some k ∧ n = written (s.threads k) ∧ (reqs k).numFragments.toNat ≤ GH_RM_MAX_NUM_FRAGMENTS := by
  rw [h.holder, Option.map_eq_some_iff] at hc
  obtain ⟨j, hl, e⟩ := hc
  cases e
  refine ⟨hl, rfl, ?_⟩
  have hk := h.thread k
  cases hp : s.threads k with
  | idle | lock | ret => rw [hp] at hk; simp [ThreadOk, hl] at hk
  | turn v => rw [hp] at hk; exact hk.2.1
  | send v pc => rw [hp] at hk; exact hk.2.1

theorem Told.step (h : Told reqs s c) (hsim : Sim reqs s c) (hs : txStep reqs s act = some t)
    (hw : Writes reqs c c') : Told reqs t c' := by
  have hkeep : ∀ b ∈ c.past, ∀ ret, t.threads b.1 = .ret ret → ret ≠ 0 → b.2 < (series (reqs b.1)).length := by
    intro b hb ret hret hne
    obtain ⟨ret', hret'⟩ := hsim.past b hb
    have := ret_stays hs hret'
    rw [hret] at this
    cases this
    exact h.short b hb ret hret' hne
  rcases hw with rfl | hw
  · exact ⟨h.fits, hkeep⟩
  · cases hw with
    | take | write => exact ⟨h.fits, hkeep⟩
    | release k n hc =>
      obtain ⟨hl, rfl, hfits⟩ := hsim.holder_fits hc
      refine ⟨fun b hb => ?_, fun b hb ret hret hne => ?_⟩
      · rcases List.mem_append.mp hb with hb | hb
        · exact h.fits b hb
        · rw [List.mem_singleton.mp hb]
          exact hfits
      · rcases List.mem_append.mp hb with hb | hb
        · exact hkeep b hb ret hret hne
        · rw [List.mem_singleton.mp hb] at hret ⊢
          exact short_of_error hsim hs hl hret hne

/-- What the writers are for the threads. -/
structure Taking (reqs : Nat → Request) (s : TxState) (c : Blocks Nat Tx) : Prop where
  blocks : Blocks.Inv (fun k => series (reqs k)) c
  sim : Sim reqs s c
  told : Told reqs s c

theorem Taking.init (entry : CapTable) (desc : Option Addr) : Taking reqs (.init entry desc) .init :=
  ⟨.init _, .init entry desc, nofun, nofun⟩

theorem Taking.step (h : Taking reqs s c) (hs : txStep reqs s act = some t) :
    ∃ c', Writes reqs c c' ∧ Taking reqs t c' := by
  obtain ⟨c', hw, hsim⟩ := sim_step h.sim hs
  have htold := h.told.step h.sim hs hw
  refine ⟨c', hw, ?_, hsim, htold⟩
  obtain rfl | hstep := hw
  · exact h.blocks
  · exact h.blocks.step hstep

/-! ## What is heard -/

/-- The threads whose whole request the queue has taken. -/
def heardBy (reqs : Nat → Request) (c : Blocks Nat Tx) : List Nat :=
  (c.blocks.filter fun b => (series (reqs b.1)).length ≤ b.2).map (·.1)

theorem Taking.nodup (h : Taking reqs s c) : (heardBy reqs c).Nodup :=
  h.blocks.nodup.sublist (List.filter_sublist.map _)

theorem Taking.heard_iff {ret : Int} (h : Taking reqs s c) (hk : s.threads k = .ret ret) :
    k ∈ heardBy reqs c ↔ ret = 0 := by
  constructor
  · intro hmem
    obtain ⟨b, hb, rfl⟩ := List.mem_map.mp hmem
    obtain ⟨hb, hlen⟩ := List.mem_filter.mp hb
    rw [decide_eq_true_eq] at hlen
    rcases List.mem_append.mp hb with hb | hb
    · by_contra hret
      exact absurd (h.told.short b hb ret hk hret) (Nat.not_lt.mpr hlen)
    · have hl := (h.sim.holder_fits (Option.mem_toList.mp hb)).1
      rcases h.sim.inLoop hl with ⟨v, e⟩ | ⟨v, pc, e, -⟩ <;> rw [hk] at e <;> cases e
  · rintro rfl
    refine List.mem_map.mpr ⟨(k, (series (reqs k)).length), List.mem_filter.mpr ⟨?_, ?_⟩, rfl⟩
    · exact List.mem_append_left _ (h.sim.whole k hk)
    · simp

theorem block_msgs (bs : List (Nat × Nat)) :
    (bs.flatMap (Blocks.block fun k => series (reqs k))).map (·.msg) =
      bs.flatMap (Blocks.block fun k => (series (reqs k)).map (·.msg)) := by
  rw [List.map_flatMap]
  congr 1
  funext b
  exact List.map_take ..

theorem Taking.fits_block (h : Taking reqs s c) {b : Nat × Nat} (hb : b ∈ c.blocks) :
    (reqs b.1).numFragments.toNat ≤ GH_RM_MAX_NUM_FRAGMENTS := by
  rcases List.mem_append.mp hb with hb | hb
  · exact h.told.fits b hb
  · exact (h.sim.holder_fits (Option.mem_toList.mp hb)).2.2

theorem Taking.fits (h : Taking reqs s c) (hk : k ∈ heardBy reqs c) :
    (reqs k).numFragments.toNat ≤ GH_RM_MAX_NUM_FRAGMENTS := by
  obtain ⟨b, hb, rfl⟩ := List.mem_map.mp hk
  exact h.fits_block (List.mem_of_mem_filter hb)

/-- A reader that understands the whole requests hears those. -/
theorem Taking.listen {β : Type} {rd : Reader (List Byte) β} {value : Nat → β} (h : Taking reqs s c)
    (hvalue : ∀ k, (reqs k).numFragments.toNat ≤ GH_RM_MAX_NUM_FRAGMENTS →
      rd.frame ((series (reqs k)).map (·.msg)) = some (value k)) :
    rd.listen (s.accepted.map (·.msg)) = (heardBy reqs c).map value := by
  have hlisten := @Reader.listen_blocks _ _ _ rd (fun k => (series (reqs k)).map (·.msg)) value c.blocks
    fun b hb => hvalue b.1 (h.fits_block hb)
  rw [← block_msgs, show c.blocks.flatMap (Blocks.block fun k => series (reqs k)) = s.accepted from
    h.blocks.log.symm.trans h.sim.log] at hlisten
  rw [hlisten, heardBy, List.map_map]
  simp only [List.length_map]
  rfl

/-- A request that is sent has a payload, and fits. -/
theorem series_of_fits {r : Request} (hlt : r.reqBuff.length < 2 ^ 32)
    (hfits : r.numFragments.toNat ≤ GH_RM_MAX_NUM_FRAGMENTS) :
    1 ≤ r.reqBuff.length ∧ r.reqBuff.length ≤ 63 * 232 ∧
      series r = (List.range (numMessages r.reqBuff.length)).map fun i => (loopAt r i).tx r := by
  obtain ⟨hpos, hle⟩ := length_of_fits hfits hlt
  have hm : 1 ≤ numMessages r.reqBuff.length := by
    rw [numMessages]
    omega
  refine ⟨hpos, hle, ?_⟩
  rw [series_range hfits, numFragments_toNat hpos hlt, Nat.sub_add_cancel hm]

/-- What is heard of a whole request. -/
theorem hears_of_fits {call : ApiCall} {r : Request} (hw : call.Whole) (hm : Makes call r)
    (hfits : r.numFragments.toNat ≤ GH_RM_MAX_NUM_FRAGMENTS) :
    ∃ x, rmReader.frame ((series r).map (·.msg)) = some x ∧ call.asks.map (r.seq, ·) = some x := by
  obtain ⟨env, args, hsends, hbuf, hid⟩ := hm
  obtain ⟨hpos, hle, hseries⟩ := series_of_fits (Nat.lt_of_le_of_lt (sends_le call hsends hbuf) (by decide)) hfits
  have hread := read_whole call hsends hbuf hle hw
  rw [hid] at hread
  obtain ⟨-, ask, hask, -⟩ := conveys call hsends hw
  refine ⟨(r.seq, ask), ?_, by rw [hask]; rfl⟩
  show hears _ = _
  rw [hseries, hears_series hpos hle, hread, hask]
  rfl

/-- Of the requests of any number of threads, the other end hears those that are reported as sent,
each once, whatever else breaks off in between. -/
theorem heard_once (calls : Nat → ApiCall) (reqs : Nat → Request)
    (hcalls : ∀ k, (calls k).Whole ∧ Makes (calls k) (reqs k)) (entry : CapTable) (desc : Option Addr) (as : List TxAct) :
    Always (txStep reqs) (HeardOnce calls reqs) (.init entry desc) as := by
  intro bs cs t _ ht
  obtain ⟨c, h⟩ : ∃ c, Taking reqs t c := by
    refine inv_exec (I := fun s => ∃ c, Taking reqs s c) (fun s act t h hs => ?_) ⟨.init, .init entry desc⟩ ht
    obtain ⟨c, h⟩ := h
    obtain ⟨c', -, h'⟩ := h.step hs
    exact ⟨c', h'⟩
  have hheard : ∀ k, ∃ x, (reqs k).numFragments.toNat ≤ GH_RM_MAX_NUM_FRAGMENTS →
      rmReader.frame ((series (reqs k)).map (·.msg)) = some x ∧ (calls k).asks.map ((reqs k).seq, ·) = some x := by
    intro k
    by_cases hk : (reqs k).numFragments.toNat ≤ GH_RM_MAX_NUM_FRAGMENTS
    · obtain ⟨x, hx⟩ := hears_of_fits (hcalls k).1 (hcalls k).2 hk
      exact ⟨x, fun _ => hx⟩
    · exact ⟨(0, .minidumpGetInfo), fun h => absurd h hk⟩
  choose value hvalue using hheard
  refine ⟨heardBy reqs c, ?_, h.nodup, fun k ret hk => h.heard_iff hk⟩
  rw [h.listen fun k hk => (hvalue k hk).1, List.map_map]
  refine List.map_congr_left fun k hk => ?_
  exact (hvalue k (h.fits hk)).2.symm

/-- A line for a console, which each thread writes under its own number. -/
def consoleLine (k : Nat) : Request := ⟨0x56000083, [3, 0, 2, 0, 72, 105], BitVec.ofNat 16 k⟩

/-- One thread sends its line, and another is interrupted. -/
theorem heard_once_console :
    ∃ s, exec (txStep consoleLine) (.init { label := 0, clientDesc := some 1, txCapId := 4, txIrq := 9 } (some 1))
        ([.start 0 true, .start 1 true, .lock 0 false, .turn 0] ++ List.replicate 5 (.run 0 false) ++
          [.hcall 0 ⟨GH_ERROR_OK, true⟩, .store 0, .sent 0, .turn 0, .lock 1 true]) = some s ∧
      HeardOnce (fun _ => .consoleWrite 3 [72, 105]) consoleLine s := by
  obtain ⟨s, hs⟩ := Option.isSome_iff_exists.mp (by decide : (exec (txStep consoleLine)
    (.init { label := 0, clientDesc := some 1, txCapId := 4, txIrq := 9 } (some 1))
    ([.start 0 true, .start 1 true, .lock 0 false, .turn 0] ++ List.replicate 5 (.run 0 false) ++
      [.hcall 0 ⟨GH_ERROR_OK, true⟩, .store 0, .sent 0, .turn 0, .lock 1 true])).isSome = true)
  exact ⟨s, hs, heard_once (fun _ => .consoleWrite 3 [72, 105]) consoleLine
    (fun _ => ⟨trivial, {}, ⟨0x56000083, some [3, 0, 2, 0, 72, 105], true⟩, rfl, rfl, rfl⟩) _ _ _ _ [] s
    (List.append_nil _).symm hs⟩

end GH.Proof.Rm
