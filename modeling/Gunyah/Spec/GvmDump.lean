import Gunyah.Impl.GvmDump.Text

/-!
# What the dumps of a guest's memory must give

The file of a region gives that region of the device tree (`DumpsRegion`), the
accesses to the context's arrays are within what is allocated for them
(`AllWithin`), and the texts about the regions are given whole or not at all
(`ReadsRight`).
-/

namespace GH.Spec.GvmDump

open GH.Impl GH.Impl.GvmDump

/-! ## The regions -/

/-- A region of the device tree. -/
def regionOf (dev : Device) (idx : Nat) : Option Resource :=
  match ofParsePhandle dev idx with
  | .missing => none
  | .node address => address

/-- A file whose name has the region's number gives what is in the region, once it is open. -/
structure DumpsRegion (dev : Device) (c : GvmRamdumpCtx) (file : Dentry) (idx : Nat) : Prop where
  id : getRamdumpId file c.numMemRegions = idx
  dumped : ∀ res memremap mem req, regionOf dev idx = some res → memremap res.start (resourceSize res) ≠ 0 →
    c.lock = false → ∃ t, c.gvmDebugfsOpen file memremap = some (0, t) ∧
      (t.gvmDebugfsRead file mem req).1 = readFrom (mem (memremap res.start (resourceSize res)) (resourceSize res)) req

/-! ## The arrays -/

/-- The element is within what is allocated. -/
def Within (c : GvmRamdumpCtx) (a : Access) : Prop := (a.idx + 1) * elemSize a.arr ≤ c.allocated a.arr

/-- No access is outside of its array. -/
def AllWithin (c : GvmRamdumpCtx) : Prop := ∀ a ∈ c.accesses, Within c a

instance (c : GvmRamdumpCtx) (a : Access) : Decidable (Within c a) := inferInstanceAs (Decidable (_ ≤ _))
instance (c : GvmRamdumpCtx) : Decidable (AllWithin c) := inferInstanceAs (Decidable (∀ a ∈ c.accesses, Within c a))

/-! ## The texts -/

/-- What a reader gives is an error, or from a buffer with the whole text; the reader keeps
to its buffer, and to the length of the text in it. -/
structure ReadsRight (size : Nat) (ops : List TextOp) (read : Req → Option (Int × List Char)) (text : List Char) :
    Prop where
  inside : ∀ req, read req ≠ none
  counted : ∀ done todo t, ops = done ++ todo → (Text.empty size).run size done = .next t →
    t.currBufLen < size → strlen NUL t.buf = some t.currBufLen
  complete : ∀ req r, read req = some r →
    r.1 < 0 ∨ text.length < size ∧ r = readFrom (text ++ List.replicate (size - text.length) NUL) req

/-- The end of the buffer is in the last piece of the text. -/
def EndsInLast (size : Nat) (text last : List Char) : Prop := size ≤ text.length ∧ text.length < size + last.length

instance (size : Nat) (text last : List Char) : Decidable (EndsInLast size text last) :=
  inferInstanceAs (Decidable (_ ∧ _))

open GvmRamdumpCtx

/-- The row of a region in `dump_info`. -/
def dumpInfoRow (c : GvmRamdumpCtx) (idx : Nat) : List Char :=
  dInfoPref ++ ("0x".toList ++ hex (c.ramdumpStartAddr idx).toNat ++ "\t".toList) ++
    (decimal (c.ramdumpSize idx).toNat ++ "\t".toList) ++ regName ++ (fileName idx ++ "\n".toList)

/-- The text of `dump_info.txt`: a line for each region. -/
def dumpInfoText (c : GvmRamdumpCtx) : List Char :=
  header ++ dotLine ++ (List.range c.numMemRegions.toNat).flatMap (dumpInfoRow c)

/-- The last piece: the name of the last region's file. -/
def dumpInfoLast (c : GvmRamdumpCtx) : List Char := fileName (c.numMemRegions.toNat - 1) ++ "\n".toList

/-- The line of a region in `load_cmm`. -/
def loadCmmRow (c : GvmRamdumpCtx) (idx : Nat) : List Char :=
  cmmCmd ++ (fileName idx ++ " ".toList) ++ ("0x".toList ++ hex (c.ramdumpStartAddr idx).toNat ++ " ".toList) ++ cmmCmd2

/-- The text of `load.cmm`: a line for each region. -/
def loadCmmText (c : GvmRamdumpCtx) : List Char := (List.range c.numMemRegions.toNat).flatMap (loadCmmRow c)

/-- `dump_info_read` gives the text of the whole context, at any offset. -/
def DumpInfoRight (c : GvmRamdumpCtx) : Prop :=
  ReadsRight DUMP_INFO_BUFFER_SIZE c.dumpInfoOps c.dumpInfoRead (dumpInfoText c)

/-- `load_cmm_read` gives the text of the whole context, at any offset. -/
def LoadCmmRight (c : GvmRamdumpCtx) : Prop :=
  ReadsRight LOAD_CMM_BUFFER_SIZE c.loadCmmOps c.loadCmmRead (loadCmmText c)

end GH.Spec.GvmDump
