import Gunyah.Framework.Run
import Gunyah.Spec.Virtio.Config

/-!
# A device's configuration

The loop over the words copies the bytes below the last whole word
(`copyWords_apply`), so a configuration comes back exactly if the page already
holds the bytes behind it (`round_trip_iff`). The commands check the size of the
configuration against the shared page and not against the page of
`config_data`, and the size of an input device's data not at all, so they keep
to their objects exactly where these sizes fit (`stays_inside_iff`).
-/

namespace GH.Proof.Config

open GH.Impl GH.Impl.Config GH.Spec.Config
open GH.Impl.Virtio (VirtioConfigData)
open GH.Impl.Vm (PAGE_SIZE)

/-! ## Words -/

theorem word_byte (x : Nat → Byte) (i : Nat) {k : Nat} (h : 4 * i ≤ k) (h' : k < 4 * i + 4) :
    (word x i).extractLsb' (8 * (k - 4 * i)) 8 = x k := by
  obtain ⟨j, rfl⟩ := Nat.exists_eq_add_of_le h
  rw [Nat.add_sub_cancel_left]
  have hj : j = 0 ∨ j = 1 ∨ j = 2 ∨ j = 3 := by omega
  unfold word
  rcases hj with rfl | rfl | rfl | rfl
  · rw [BitVec.extractLsb'_append_eq_right]
    rfl
  all_goals
    simp only [BitVec.extractLsb'_append_eq_ite]
    simp

/-- Below the last word written stands what is copied, and behind it what was there. -/
theorem copyWords_apply (p x : Nat → Byte) (n k : Nat) : copyWords p x n k = if k < 4 * n then x k else p k := by
  induction n with
  | zero =>
    rw [if_neg (by omega)]
    rfl
  | succ n ih =>
    rw [copyWords, writelRelaxed]
    by_cases h : 4 * n ≤ k ∧ k < 4 * n + 4
    · rw [if_pos h, word_byte x n h.1 h.2, if_pos (by omega)]
    · rw [if_neg h, ih]
      exact if_congr (by omega) rfl rfl

/-! ## The round trip -/

variable {d : ConfigDev} {c : VirtioConfigData} {m : Mapping}

/-- What a successful `GH_SET_DEVICE_CONFIG_DATA` leaves. -/
theorem set_ok {page : Bool} {user : Nat → Byte} {left : Nat}
    (h : (setDeviceConfigData d c page user left).2.2 = 0) :
    ¬ ConfigRefused d c ∧ (setDeviceConfigData d c page user left).1 =
      { d.modifyShared fun p => copyWords p (configPage user c.configSize.toNat) (c.configSize.toNat / 4) with
        configData := some (configPage user c.configSize.toNat), configSize := c.configSize } := by
  unfold setDeviceConfigData at h ⊢
  simp only at h ⊢
  split at h
  · exact absurd h (by decide : (-EINVAL : Int) ≠ 0)
  rename_i hrefused
  split at h
  · exact absurd h (by decide : (-EBUSY : Int) ≠ 0)
  rename_i hdata
  split at h
  · exact absurd h (by decide : (-EINVAL : Int) ≠ 0)
  rename_i hshared
  split at h
  · exact absurd h (by decide : (-ENOMEM : Int) ≠ 0)
  rename_i hpage
  split at h
  · exact absurd h (by decide : (-EFAULT : Int) ≠ 0)
  rename_i hleft
  rw [if_neg hrefused, if_neg hdata, if_neg hshared, if_neg hpage, if_neg hleft]
  exact ⟨hrefused, rfl⟩

/-- The bytes of a string, followed by zeros. -/
def bytesOf (s : List Byte) : Nat → Byte := fun i => s.getD i 0

theorem bytesOf_apply {s : List Byte} {i : Nat} (h : i < s.length) : bytesOf s i = s.get ⟨i, h⟩ := by
  rw [bytesOf, List.getD_eq_getElem?_getD, List.getElem?_eq_getElem h]
  rfl

theorem range_map_eq_iff {s : List Byte} {f : Nat → Byte} :
    (List.range s.length).map f = s ↔ ∀ i < s.length, f i = bytesOf s i := by
  constructor
  · intro h i hi
    have hget := congrArg (fun l => l[i]?) h
    simp only [List.getElem?_map, List.getElem?_range hi, Option.map_some, List.getElem?_eq_getElem hi,
      Option.some.injEq] at hget
    rw [bytesOf_apply hi]
    exact hget
  · intro h
    refine List.ext_getElem (by simp) fun i hi hi' => ?_
    rw [List.getElem_map, List.getElem_range, h i hi', bytesOf_apply hi']
    rfl

/-- The configuration that has been set comes back exactly if the shared page
holds the bytes behind its last whole word before it is set. -/
theorem round_trip_iff {s : List Byte} {page : Bool} {left : Nat} {ptr : BitVec 64}
    (hm : d.configSharedBuf = some m) (hsize : c.configSize.toNat = s.length)
    (hset : (setDeviceConfigData d c page (bytesOf s) left).2.2 = 0) (hptr : ptr ≠ 0) :
    (getDriverConfigData (setDeviceConfigData d c page (bytesOf s) left).1 { c with configData := ptr } 0).1 = s ↔
      ∀ i, 4 * (s.length / 4) ≤ i → i < s.length → m.bytes i = bytesOf s i := by
  obtain ⟨hrefused, hd⟩ := set_ok hset
  have hget : ¬ ConfigRefused (setDeviceConfigData d c page (bytesOf s) left).1 { c with configData := ptr } := by
    rintro (h | h | h | h)
    · exact hrefused (.inl h)
    · refine hrefused (.inr (.inl ?_))
      rw [hd] at h
      exact h
    · exact hrefused (.inr (.inr (.inl h)))
    · exact hptr h
  have hbuf : (setDeviceConfigData d c page (bytesOf s) left).1.configSharedBuf =
      some { m with bytes := copyWords m.bytes (configPage (bytesOf s) s.length) (s.length / 4) } := by
    rw [hd, hsize]
    simp only [ConfigDev.modifyShared, hm, Option.map_some]
  rw [getDriverConfigData, if_neg hget]
  simp only [hbuf, hsize, Nat.sub_zero, range_map_eq_iff, copyWords_apply, configPage]
  refine forall_congr' fun i => ?_
  by_cases hi : i < 4 * (s.length / 4)
  · rw [if_pos hi]
    refine iff_of_true (fun h => if_pos h) fun h => ?_
    omega
  · rw [if_neg hi]
    exact ⟨fun h _ => h, fun h => h (Nat.le_of_not_lt hi)⟩

/-- A device whose shared page is empty. -/
def emptyPage : ConfigDev where
  configSharedBuf := some ⟨4096, fun _ => 0⟩
  configSharedSize := 4096
  mapped m h := by
    cases h
    rfl

/-- A request for `n` bytes. -/
def request (n : BitVec 32) : VirtioConfigData where
  label := 1
  configSize := n
  configData := 0x1000

/-- Four bytes come back. -/
theorem round_trip_four :
    (setDeviceConfigData emptyPage (request 4) true (bytesOf [1, 2, 3, 4]) 0).2.2 = 0 ∧
      (getDriverConfigData (setDeviceConfigData emptyPage (request 4) true (bytesOf [1, 2, 3, 4]) 0).1
        { request 4 with configData := 0x2000 } 0).1 = [1, 2, 3, 4] := by
  have hset : (setDeviceConfigData emptyPage (request 4) true (bytesOf [1, 2, 3, 4]) 0).2.2 = 0 := by decide
  refine ⟨hset, (round_trip_iff (m := ⟨4096, fun _ => 0⟩) rfl rfl hset (by decide)).mpr fun i hi hi' => ?_⟩
  exact absurd hi (Nat.not_le.mpr hi')

/-- Of three bytes none do. -/
theorem round_trip_three :
    (setDeviceConfigData emptyPage (request 3) true (bytesOf [1, 2, 3]) 0).2.2 = 0 ∧
      (getDriverConfigData (setDeviceConfigData emptyPage (request 3) true (bytesOf [1, 2, 3]) 0).1
        { request 3 with configData := 0x2000 } 0) = ([0, 0, 0], [⟨.configSharedBuf, 0, 3⟩], 0) := by
  decide

/-! ## Accesses -/

theorem pageSize : PAGE_SIZE.toNat = 4096 := rfl

theorem configSize_le (h : ¬ ConfigRefused d c) : c.configSize.toNat ≤ d.configSharedSize.toNat := by
  have hle : ¬ c.configSize.zeroExtend 64 > d.configSharedSize := fun hc => h (.inr (.inl hc))
  rw [gt_iff_lt, BitVec.lt_def, BitVec.toNat_setWidth_of_le (by omega)] at hle
  omega

/-- The shared page holds as much as a request that is not refused is for. -/
theorem objSize_shared (h : ¬ ConfigRefused d c) (hm : d.configSharedBuf = some m) :
    c.configSize.toNat ≤ objSize d .configSharedBuf := by
  rw [objSize, hm, Option.map_some, Option.getD_some, d.mapped m hm]
  exact configSize_le h

theorem get_inside (d : ConfigDev) (c : VirtioConfigData) (left : Nat) : StaysInside d (.get c left) := by
  intro a ha
  simp only [ConfigAct.result, getDriverConfigData] at ha
  split at ha
  · cases ha
  rename_i hrefused
  split at ha
  · cases ha
  rename_i m hm
  rw [List.mem_singleton] at ha
  rw [ha, Access.Inside, Nat.zero_add]
  exact objSize_shared hrefused hm

theorem setAccesses_inside {n : Nat} (hpage : 4 * (n / 4) ≤ PAGE_SIZE.toNat) (hshared : n ≤ objSize d .configSharedBuf) :
    ∀ a ∈ setAccesses (n / 4), Access.Inside d a := by
  intro a ha
  simp only [setAccesses, List.mem_append, List.mem_map, List.mem_flatMap, List.mem_range, List.mem_cons,
    List.not_mem_nil, or_false] at ha
  rcases ha with (⟨i, hi, rfl⟩ | ⟨i, hi, rfl | rfl⟩) | ⟨i, hi, rfl⟩
  all_goals
    simp only [Access.Inside, objSize] at hpage hshared ⊢
    rw [pageSize] at *
    omega

theorem copies_iff {page : Bool} : Copies d c page ↔
    ¬(ConfigRefused d c ∨ d.configData.isSome ∨ d.configSharedBuf.isNone ∨ page = false) := by
  unfold Copies
  cases d.configData <;> cases d.configSharedBuf <;> cases page <;> simp

/-- Without the copy, `GH_SET_DEVICE_CONFIG_DATA` makes no access. -/
theorem set_accesses_none {page : Bool} {user : Nat → Byte} {left : Nat} (h : ¬ Copies d c page) :
    (setDeviceConfigData d c page user left).2.1 = [] := by
  rw [copies_iff, not_not] at h
  unfold setDeviceConfigData
  simp only
  split
  · rfl
  rename_i h₁
  split
  · rfl
  rename_i h₂
  split
  · rfl
  rename_i h₃
  rw [if_pos (((h.resolve_left h₁).resolve_left h₂).resolve_left h₃)]

theorem set_accesses {page : Bool} {user : Nat → Byte} {left : Nat} (h : Copies d c page) :
    (setDeviceConfigData d c page user left).2.1 = ⟨.configData, 0, c.configSize.toNat⟩ ::
      if left = 0 then setAccesses (c.configSize.toNat / 4) else [] := by
  rw [copies_iff] at h
  push Not at h
  obtain ⟨h₁, h₂, h₃, h₄⟩ := h
  unfold setDeviceConfigData
  simp only
  rw [if_neg h₁, if_neg h₂, if_neg h₃, if_neg h₄]
  by_cases hleft : left = 0
  · rw [if_neg (not_not.mpr hleft), if_pos hleft]
  · rw [if_pos hleft, if_neg hleft]

theorem set_inside_iff (page : Bool) (user : Nat → Byte) (left : Nat) :
    StaysInside d (.set c page user left) ↔ Fits d (.set c page user left) := by
  by_cases h : Copies d c page
  · have hcopy : Access.Inside d ⟨.configData, 0, c.configSize.toNat⟩ ↔ c.configSize.toNat ≤ PAGE_SIZE.toNat := by
      rw [Access.Inside, Nat.zero_add]
      rfl
    have hall : StaysInside d (.set c page user left) ↔ Access.Inside d ⟨.configData, 0, c.configSize.toNat⟩ ∧
        ∀ a ∈ (if left = 0 then setAccesses (c.configSize.toNat / 4) else []), Access.Inside d a := by
      rw [StaysInside, ConfigAct.result, set_accesses h, List.forall_mem_cons]
    rw [hall, hcopy]
    refine ⟨fun hin _ => hin.1, fun hfits => ⟨hfits h, fun a ha => ?_⟩⟩
    have hle := hfits h
    obtain ⟨hrefused, -, hshared, -⟩ := h
    obtain ⟨m, hm⟩ := Option.isSome_iff_exists.mp hshared
    split at ha
    · exact setAccesses_inside (Nat.le_trans (Nat.mul_div_le _ 4) hle) (objSize_shared hrefused hm) a ha
    · cases ha
  · refine iff_of_true (fun a ha => ?_) fun hc => absurd hc h
    rw [ConfigAct.result, set_accesses_none h] at ha
    cases ha

theorem input_inside_iff (idd : VirtioInputDeviceData) (ret : Int) :
    StaysInside d (.input idd ret) ↔ Fits d (.input idd ret) := by
  unfold StaysInside Fits
  simp only [ConfigAct.result, setInputDeviceData]
  split
  · rename_i h
    exact iff_of_true (fun a ha => by cases ha) fun hc => absurd h hc
  · rename_i h
    rw [List.forall_mem_singleton, Access.Inside, Nat.zero_add]
    exact ⟨fun hin _ => hin, fun hfits => hfits h⟩

theorem step_inside_iff (d : ConfigDev) (act : ConfigAct) : StaysInside d act ↔ Fits d act := by
  cases act with
  | mmioInit size bytes => exact iff_of_true (fun a ha => by cases ha) trivial
  | mmioExit => exact iff_of_true (fun a ha => by cases ha) trivial
  | guest bytes => exact iff_of_true (fun a ha => by cases ha) trivial
  | get c left => exact iff_of_true (get_inside d c left) trivial
  | set c page user left => exact set_inside_iff page user left
  | input idd ret => exact input_inside_iff idd ret

/-- In a run from the probe of a device on, all accesses are inside their objects
exactly if the configurations that are copied fit a page, and the sizes of input
data the payload. -/
theorem stays_inside_iff (as : List ConfigAct) :
    Each configStep (fun d act _ => StaysInside d act) .new as ↔ Each configStep (fun d act _ => Fits d act) .new as :=
  each_iff (I := fun _ => True) (fun _ _ _ _ _ _ => trivial) (fun d act _ _ _ => step_inside_iff d act) trivial

/-- A device with two shared pages. -/
def twoPages : ConfigDev := initConfig .new 0x2000 (some fun _ => 0)

/-- Input data of 200 bytes. -/
def longInput : VirtioInputDeviceData where
  label := 1
  sel := 1
  subsel := 0
  size := 200
  payload := fun _ => 0

/-- The RM hands over two pages, and user space sets a configuration of two pages,
or input data of 200 bytes. -/
theorem two_pages_outside :
    ¬ Each configStep (fun d act _ => StaysInside d act) .new
      [.mmioInit 0x2000 (some fun _ => 0), .set (request 0x2000) true (fun _ => 0) 0] ∧
    ¬ Each configStep (fun d act _ => StaysInside d act) .new
      [.mmioInit 0x2000 (some fun _ => 0), .input longInput 0] := by
  have hcopies : Copies twoPages (request 0x2000) true := ⟨by decide, rfl, rfl, rfl⟩
  constructor
  · intro h
    have hset := h [.mmioInit 0x2000 (some fun _ => 0)] (.set (request 0x2000) true (fun _ => 0) 0) [] twoPages _
      rfl rfl rfl
    exact absurd ((step_inside_iff ..).mp hset hcopies) (by decide)
  · intro h
    have hinput := h [.mmioInit 0x2000 (some fun _ => 0)] (.input longInput 0) [] twoPages _ rfl rfl rfl
    exact absurd ((step_inside_iff ..).mp hinput (by decide)) (by decide)

/-! ## The commands of the backend -/

open GH.Impl.Virtio (VbDev)

/-- A device of the backend with the configuration. -/
def view (d : ConfigDev) (v : VbDev) : VbDev :=
  { v with
    configData := d.configData.isSome
    configSize := d.configSize
    configSharedBuf := d.configSharedBuf.isSome
    configSharedSize := d.configSharedSize }

/-- `setConfigSection` does to the device what `setDeviceConfigData` does. -/
theorem setConfigSection_agrees (d : ConfigDev) (v : VbDev) (c : VirtioConfigData) (page : Bool) (user : Nat → Byte)
    (left : Nat) : Virtio.setConfigSection (view d v) c page (left = 0) =
      (Virtio.vbDevPut (view (setDeviceConfigData d c page user left).1 v),
        (setDeviceConfigData d c page user left).2.2) := by
  have hrefused : Virtio.configRefused (view d v) c ↔ ConfigRefused d c := Iff.rfl
  unfold Virtio.setConfigSection setDeviceConfigData
  simp only [hrefused]
  split
  · rfl
  have hdata : (view d v).configData = d.configData.isSome := rfl
  rw [hdata]
  split
  · rfl
  rename_i h₂
  cases hs : d.configSharedBuf with
  | none => simp [view, hs]
  | some m =>
    have hshared : ¬ (view d v).configSharedBuf = false := by simp [view, hs]
    have hsome : ¬ (some m).isNone = true := by simp
    simp only [if_neg hshared, if_neg hsome]
    split
    · rfl
    by_cases hleft : left = 0
    · rw [if_neg (by simp [hleft]), if_neg (not_not.mpr hleft)]
      simp [view, ConfigDev.modifyShared, hs]
    · rw [if_pos (by simp [hleft]), if_pos hleft]
      simp [view, Option.not_isSome_iff_eq_none.mp h₂]

theorem getDriverConfigData_agrees (d : ConfigDev) (v : VbDev) (c : VirtioConfigData) (left : Nat) :
    Virtio.Cmd.body (view d v) (.getDriverConfigData (some c) left) =
      (Virtio.vbDevPut (view d v), (getDriverConfigData d c left).2.2) := by
  have hrefused : Virtio.configRefused (view d v) c ↔ ConfigRefused d c := Iff.rfl
  unfold Virtio.Cmd.body getDriverConfigData
  simp only [hrefused]
  split
  · rfl
  cases hs : d.configSharedBuf with
  | none => simp [view, hs]
  | some m => simp [view, hs]

end GH.Proof.Config
