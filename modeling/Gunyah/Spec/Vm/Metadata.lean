import Gunyah.Impl.Vm.Metadata

/-!
# Where metadata may be put

The image and its metadata over the integers: the end of the region, as long as
the metadata rounded up to pages, is the place of the metadata (`offset`), and
each segment has a place that depends on whether the image is relocatable
(`Overlaps`). `placing` is `placeMetadata` with a log of its additions and
subtractions.
-/

namespace GH.Spec.Metadata

open GH.Impl GH.Impl.Vm

/-- A size in bytes, rounded up to pages. -/
def roundUp (n : Nat) : Nat := (n + 4095) / 4096 * 4096

/-- The sum of all `p_memsz`. -/
def imageSize (md : Metadata) : Nat := (md.phdrs.map fun p => p.memsz.toNat).sum

/-- A program header is marked as relocatable. -/
def Relocatable (md : Metadata) : Prop := ∃ p ∈ md.phdrs, p.flags &&& QCOM_MDT_RELOCATABLE ≠ 0

instance (md : Metadata) : Decidable (Relocatable md) := inferInstanceAs (Decidable (∃ p ∈ md.phdrs, _))

/-- The address that the code takes for the start of the image. -/
def startAddr (r : FwMem) (md : Metadata) : Nat := if Relocatable md then 0 else r.phys.toNat

/-- The metadata's place ends with the region. -/
def offset (r : FwMem) (md : Metadata) : Nat := r.size.toNat - roundUp md.size.toNat

/-- The smallest `p_paddr`. -/
def minPaddr (md : Metadata) : Nat := (md.phdrs.map fun p => p.paddr.toNat).min?.getD 0

/-- The address that is at the start of the region. -/
def origin (r : FwMem) (md : Metadata) : Int := if Relocatable md then minPaddr md else r.phys.toNat

/-- A segment, in its place, intersects the metadata at offset `off`. -/
def Overlaps (r : FwMem) (md : Metadata) (off : Nat) (p : Phdr) : Prop :=
  ∃ x : Int, p.paddr.toNat - origin r md ≤ x ∧ x < p.paddr.toNat - origin r md + p.memsz.toNat ∧
    off ≤ x ∧ x < off + roundUp md.size.toNat

/-- The sizes and addresses are such that the metadata can be put at its place. -/
structure Fits (r : FwMem) (md : Metadata) : Prop where
  round : md.size.toNat + 4095 < 2 ^ 64
  size : imageSize md + roundUp md.size.toNat ≤ r.size.toNat
  start : startAddr r md + offset r md < 2 ^ 64
  virt : r.virt.toNat + offset r md < 2 ^ 64

/-- The first of the headers with the largest address, which is not 0. -/
def IsTop (phdrs : List Phdr) (t : Phdr) : Prop :=
  t.paddr ≠ 0 ∧ ∃ a b, phdrs = a ++ t :: b ∧ (∀ p ∈ a, p.paddr < t.paddr) ∧ ∀ p ∈ b, p.paddr ≤ t.paddr

/-- The end of a segment, in 32 bits. -/
def end32 (p : Phdr) : Nat := (p.paddr + p.memsz).toNat

/-- No segment intersects the metadata. -/
def NeverOverlaps (r : FwMem) (md : Metadata) : Prop :=
  ∀ stack, ghSecLoadMetadata r md stack ≠ 0 →
    ∀ p ∈ md.phdrs, ¬ Overlaps r md (ghSecLoadMetadata r md stack).toNat p

/-- What `image_end_addr` holds before it is set makes no difference. -/
def IgnoresStack (r : FwMem) (md : Metadata) : Prop := ∀ s s', placeMetadata r md s = placeMetadata r md s'

/-- Where the metadata can be put at its place, there is an address that is not 0
(or no end of an image is too large), and a segment intersects the metadata only
if the first of those with the largest address ends, in 32 bits, behind its
start. -/
def TopEndsLast (r : FwMem) (md : Metadata) : Prop :=
  Fits r md →
    ((∃ p ∈ md.phdrs, p.paddr ≠ 0) ∨ startAddr r md + offset r md = 2 ^ 64 - 1) ∧
    (offset r md ≠ 0 → (∃ p ∈ md.phdrs, Overlaps r md (offset r md) p) →
      ∃ t, IsTop md.phdrs t ∧ startAddr r md + offset r md < end32 t)

/-! ## The log -/

/-- An addition or a subtraction of the function. -/
inductive Arith
  | add {w : Nat} (x y : BitVec w)
  | sub {w : Nat} (x y : BitVec w)

/-- The result is not that of the integers. -/
def Arith.Wraps : Arith → Prop
  | @add w x y => 2 ^ w ≤ x.toNat + y.toNat
  | sub x y => x.toNat < y.toNat

/-- A run, which may fail and logs its additions and subtractions. -/
abbrev Run (α : Type) : Type := StateT (List Arith) Option α

/-- An addition, which is noted. -/
def add {w : Nat} (x y : BitVec w) : Run (BitVec w) := fun log => some (x + y, log ++ [.add x y])

/-- A subtraction, which is noted. -/
def sub {w : Nat} (x y : BitVec w) : Run (BitVec w) := fun log => some (x - y, log ++ [.sub x y])

/-- The function returns an error. -/
def refuse (c : Prop) [Decidable c] : Run Unit := fun log => if c then none else some ((), log)

/-- A turn of the loop over the program headers. -/
def turnRun (m : Image) (p : Phdr) : Run Image := do
  let m := { m with relocatable := m.relocatable || decide (p.flags &&& QCOM_MDT_RELOCATABLE ≠ 0) }
  if p.paddr > m.maxPaddr then
    let rest ← sub (BitVec.allOnes 64) (p.paddr.zeroExtend 64)
    refuse (p.memsz.zeroExtend 64 > rest)
    let last ← add p.paddr p.memsz
    let size ← add m.size (p.memsz.zeroExtend 64)
    pure { m with endAddr := last.zeroExtend 64, maxPaddr := p.paddr, size := size }
  else
    let size ← add m.size (p.memsz.zeroExtend 64)
    pure { m with size := size }

/-- `placeMetadata`, logged. -/
def placing (r : FwMem) (md : Metadata) (stack : BitVec 64) : Run (BitVec 64) := do
  let up ← add md.size (PAGE_SIZE - 1)
  let mdataSize := up / PAGE_SIZE * PAGE_SIZE
  refuse (mdataSize < md.size)
  let m ← md.phdrs.foldlM turnRun { endAddr := stack }
  let rest ← sub (BitVec.allOnes 64) mdataSize
  refuse (m.size > rest)
  let both ← add m.size mdataSize
  refuse (r.size < both)
  let startAddr := if m.relocatable then 0 else r.phys
  let moffset ← sub r.size mdataSize
  refuse (moffset > r.size)
  let rest ← sub (BitVec.allOnes 64) moffset
  refuse (startAddr > rest)
  let rest ← sub (BitVec.allOnes 64) moffset
  refuse (r.virt > rest)
  let start ← add startAddr moffset
  refuse (start < m.endAddr)
  let _ ← add r.virt moffset
  pure moffset

/-- The copy at `off` fills the end of the region, and leaves room for all segments. -/
structure Exact (r : FwMem) (md : Metadata) (off : BitVec 64) : Prop where
  ends : off.toNat + roundUp md.size.toNat = r.size.toNat
  room : imageSize md + roundUp md.size.toNat ≤ r.size.toNat
  inside (k : Nat) : k < md.size.toNat →
    r.virt.toNat ≤ (r.virt + off).toNat + k ∧ (r.virt + off).toNat + k < r.virt.toNat + r.size.toNat

/-- Each header with an address larger than all before it ends below 2^32. -/
def RisersFit (md : Metadata) : Prop :=
  ∀ a p b, md.phdrs = a ++ p :: b → (∀ q ∈ a, q.paddr < p.paddr) → p.paddr.toNat + p.memsz.toNat < 2 ^ 32

end GH.Spec.Metadata
