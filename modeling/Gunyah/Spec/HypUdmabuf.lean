import Gunyah.Impl.HypUdmabuf
import Gunyah.Spec.Vm.Metadata

/-!
# What a dma-buf of guest memory is

A dma-buf is its regions one after the other (`addrAt`): this decides its size
(`SizeExact`) and what a mapping of a part of it shows (`Faithful`). The list of
the regions is on the heap, where it is freed once, and not accessed afterwards
(`FreedOnce`).
-/

namespace GH.Spec.HypUdmabuf

open GH.Impl GH.Impl.HypUdmabuf
open GH.Spec.Metadata (roundUp)

/-! ## Size -/

/-- The sum of the lengths. -/
def total (list : List GuestMemRegion) : Nat := (list.map fun r => r.len.toNat).sum

/-- Only the last region may end inside a page. -/
def Aligned (list : List GuestMemRegion) : Prop :=
  ∀ a r b, list = a ++ r :: b → 4096 ∣ r.addr.toNat ∧ (b ≠ [] → 4096 ∣ r.len.toNat)

/-- The arguments, the regions and the kernel's answers are such that a dma-buf is exported. -/
structure Accepts (a : CreateAnswers) (head : HypUdmabufCreate) (list : List GuestMemRegion) : Prop where
  flags : head.flags = O_RDONLY ∨ head.flags = O_WRONLY ∨ head.flags = O_RDWR
  ubuf : a.ubuf = true
  aligned : Aligned list
  exported : 0 ≤ a.exported
  fd : 0 ≤ a.dmabufFd

/-- The sizes that are reported and exported are those of the regions, which are aligned. -/
structure SizeExact (list : List GuestMemRegion) (head : HypUdmabufCreate) (buf : DmaBuf) : Prop where
  head : head.size.toNat = total list
  exported : buf.size.toNat = roundUp (total list)
  aligned : Aligned list

/-! ## Mapping -/

/-- The address of the byte at a position of the dma-buf. -/
def addrAt : List GuestMemRegion → Nat → Option Nat
  | [], _ => none
  | r :: rest, o => if o < r.len.toNat then some (r.addr.toNat + o) else addrAt rest (o - r.len.toNat)

/-- The length of the mapping. -/
def Vma.len (vma : Vma) : Nat := vma.vmEnd.toNat - vma.vmStart.toNat

/-- A VMA of pages, inside the dma-buf. -/
structure InBuffer (vma : Vma) (buf : DmaBuf) : Prop where
  start : 4096 ∣ vma.vmStart.toNat
  stop : 4096 ∣ vma.vmEnd.toNat
  lt : vma.vmStart.toNat < vma.vmEnd.toNat
  inside : vma.vmPgoff.toNat * 4096 + Vma.len vma ≤ buf.size.toNat

/-- What calls of `remap_pfn_range` map: the pages of each, one after the other. -/
def Maps (calls : List RemapCall) (x pfn : Nat) : Prop :=
  ∃ c ∈ calls, ∃ k, k * 4096 < c.len.toNat ∧ x = c.start.toNat + k * 4096 ∧ pfn = c.pfn.toNat + k

/-- Each page of the VMA is mapped, nothing else is, and the page at an offset is
that of the dma-buf at the offset from `vm_pgoff` on. -/
structure Faithful (list : List GuestMemRegion) (vma : Vma) (calls : List RemapCall) : Prop where
  every (o : Nat) : 4096 ∣ o → o < Vma.len vma → ∃ pfn, Maps calls (vma.vmStart.toNat + o) pfn
  right (x pfn : Nat) : Maps calls x pfn → ∃ o, 4096 ∣ o ∧ o < Vma.len vma ∧ x = vma.vmStart.toNat + o ∧
    (addrAt list (vma.vmPgoff.toNat * 4096 + o)).map (· / 4096) = some pfn

/-- What a mapping that succeeds shows is right, and it succeeds where
`remap_pfn_range` does. -/
structure MapsRight (list : List GuestMemRegion) (buf : DmaBuf) (vma : Vma) : Prop where
  faithful (remap : Nat → Int) :
    (hypUdmabufMmap remap buf list vma).1 = 0 → Faithful list vma (hypUdmabufMmap remap buf list vma).2.1
  succeeds (remap : Nat → Int) : (∀ i, 0 ≤ remap i) → (hypUdmabufMmap remap buf list vma).1 = 0

/-- Each region with a byte starts before the end of the VMA, as if it were mapped
from the start of the dma-buf on. -/
def EachStarts (list : List GuestMemRegion) (vma : Vma) : Prop :=
  ∀ a r b, list = a ++ r :: b → r.len ≠ 0 → total a < Vma.len vma

/-! ## Ownership -/

/-- An array is accessed after it has been freed. -/
def AccessedAfterFree (log : List HeapEv) (p : Addr) : Prop :=
  ∃ l l', log = l ++ .kvfree p :: l' ∧ .access p ∈ l'

/-- Freed exactly once, and not used after it was. -/
structure FreedOnce (log : List HeapEv) (p : Addr) : Prop where
  once : log.count (.kvfree p) = 1
  after : ¬ AccessedAfterFree log p

/-- The list is read, and a dma-buf of it is exported. -/
structure Exports (a : IoctlAnswers) (head : HypUdmabufCreate) : Prop where
  read : a.head = some head
  count : head.count ≠ 0 ∧ head.count ≤ listLimit
  list : a.list = true
  copied : a.copied = true
  accepts : Accepts a.toCreateAnswers head ((List.range head.count.toNat).map a.regions)

/-- The arguments cannot be copied back where a dma-buf has been exported. -/
def LosesList (a : IoctlAnswers) : Prop := (∃ head, Exports a head) ∧ a.copiedBack = false

end GH.Spec.HypUdmabuf
