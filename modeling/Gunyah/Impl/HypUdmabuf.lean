import Gunyah.Impl.Kernel

/-!
# dma-bufs of guest memory

`hyp_udmabuf.c`: `HYP_UDMABUF_CREATE` makes a dma-buf of a list of regions of
guest memory, which user space maps (`mmap`) and devices use (`map_dma_buf`)
until it is released.

What the kernel answers is part of an operation's arguments. Of the list of
regions an operation has the contents and the address, and the allocations of
lists, the accesses to them and their frees are what happens to the heap
(`HeapEv`); accesses in a row are one event.
-/

namespace GH.Impl.HypUdmabuf

/-- `PAGE_ALIGNED`. -/
def PageAligned (x : BitVec 64) : Prop := x &&& 0xfff = 0

instance (x : BitVec 64) : Decidable (PageAligned x) := inferInstanceAs (Decidable (_ = _))

/-- `PAGE_ALIGN`. -/
def pageAlign (x : BitVec 64) : BitVec 64 := (x + 0xfff) &&& ~~~0xfff

/-- Pages of 4 KiB. -/
def PAGE_SHIFT : Nat := 12

/-- `list_limit` -/
def listLimit : BitVec 32 := 1024 * 1024 * 4

/-- The access modes of a file. -/
def O_RDONLY : BitVec 32 := 0
def O_WRONLY : BitVec 32 := 1
def O_RDWR : BitVec 32 := 2

/-- `struct guest_mem_region`. -/
structure GuestMemRegion where
  addr : BitVec 64
  len : BitVec 64
  deriving DecidableEq, Repr

/-- `struct hyp_udmabuf_create`, without the list. -/
structure HypUdmabufCreate where
  flags : BitVec 32
  count : BitVec 32
  fd : Int
  size : BitVec 64
  deriving DecidableEq, Repr

/-- `struct udmabuf`; `list` is `NULL` or an address. -/
structure Udmabuf where
  dmabufFd : Int := 0
  size : BitVec 64 := 0
  nregions : BitVec 32 := 0
  list : Option Addr := none
  deriving DecidableEq, Repr

/-- Of `struct dma_buf` what `exp_info` sets. -/
structure DmaBuf where
  size : BitVec 64
  flags : BitVec 32
  priv : Udmabuf
  deriving DecidableEq, Repr

/-- What happens to the array of the regions. -/
inductive HeapEv where
  | kvzalloc (p : Addr)
  | access (p : Addr)
  | kvfree (p : Addr)
  deriving DecidableEq, Repr

/-- `kvfree`, of a pointer that may be `NULL`. -/
def kvfree (p : Option Addr) : List HeapEv := p.toList.map .kvfree

/-- The accesses of a loop to the regions at a pointer. -/
def accesses (p : Option Addr) : List HeapEv := p.toList.map .access

/-! ## `hyp_udmabuf_mmap` -/

/-- Of `struct vm_area_struct`. -/
structure Vma where
  vmStart : BitVec 64
  vmEnd : BitVec 64
  vmPgoff : BitVec 64
  deriving DecidableEq, Repr

/-- A call of `remap_pfn_range`. -/
structure RemapCall where
  start : BitVec 64
  pfn : BitVec 64
  len : BitVec 64
  deriving DecidableEq, Repr

/-- How much of a region is mapped at `start`: `none` where that is out of range. -/
def mmapLen (vma : Vma) (start : BitVec 64) (region : GuestMemRegion) : Option (BitVec 64) :=
  if vma.vmEnd - start < region.len then
    if start < vma.vmEnd then some (vma.vmEnd - start) else none
  else some region.len

/-- The loop of `hyp_udmabuf_mmap`, from region `i` on. `remap` has the answers of
`remap_pfn_range`. -/
def mmapLoop (remap : Nat → Int) (vma : Vma) : Nat → BitVec 64 → List GuestMemRegion → Int × List RemapCall
  | _, _, [] => (0, [])
  | i, start, region :: rest =>
    match mmapLen vma start region with
    | none => (-EINVAL, [])
    | some len =>
      let call : RemapCall := ⟨start, region.addr >>> PAGE_SHIFT, len⟩
      if remap i < 0 then (remap i, [call])
      else
        let r := mmapLoop remap vma (i + 1) (start + len) rest
        (r.1, call :: r.2)

/-- `hyp_udmabuf_mmap`: what it returns, its calls of `remap_pfn_range`, and what
happens to the heap. -/
def hypUdmabufMmap (remap : Nat → Int) (buf : DmaBuf) (list : List GuestMemRegion) (vma : Vma) :
    Int × List RemapCall × List HeapEv :=
  if buf.priv.nregions = 0 then (-EINVAL, [], [])
  else
    let r := mmapLoop remap vma 0 vma.vmStart (list.take buf.priv.nregions.toNat)
    (r.1, r.2, accesses buf.priv.list)

/-! ## `hyp_udmabuf_map` -/

/-- An entry of a scatterlist; its length is an `unsigned int`. -/
structure SgEntry where
  pfn : BitVec 64
  len : BitVec 32
  offset : BitVec 32
  deriving DecidableEq, Repr

/-- The answers to `hyp_udmabuf_get_sgt`. -/
structure SgtAnswers where
  sgt : Bool
  table : Int
  dmaMap : Int

/-- `hyp_udmabuf_get_sgt`: the table, and what happens to the heap. -/
def hypUdmabufGetSgt (a : SgtAnswers) (ubuf : Udmabuf) (list : List GuestMemRegion) :
    Except Int (List SgEntry) × List HeapEv :=
  if a.sgt = false then (.error (-ENOMEM), [])
  else if a.table < 0 then (.error a.table, [])
  else
    let sgl := (list.take ubuf.nregions.toNat).map fun region =>
      { pfn := region.addr >>> PAGE_SHIFT, len := region.len.setWidth 32, offset := (region.addr &&& 0xfff).setWidth 32 }
    if a.dmaMap < 0 then (.error a.dmaMap, accesses ubuf.list)
    else (.ok sgl, accesses ubuf.list)

/-- `hyp_udmabuf_map`. -/
def hypUdmabufMap (a : SgtAnswers) (buf : DmaBuf) (list : List GuestMemRegion) :
    Except Int (List SgEntry) × List HeapEv :=
  hypUdmabufGetSgt a buf.priv list

/-- `hyp_udmabuf_release`. -/
def hypUdmabufRelease (buf : DmaBuf) : List HeapEv := kvfree buf.priv.list

/-! ## `hyp_udmabuf_create` -/

/-- The answers to `hyp_udmabuf_create`: `exported` is 0 or an error. -/
structure CreateAnswers where
  ubuf : Bool
  exported : Int
  dmabufFd : Int

/-- The loop over the regions, from region `i` on. -/
def createLoop (count : BitVec 32) : BitVec 32 → BitVec 64 → List GuestMemRegion → Option (BitVec 64)
  | _, guestSize, [] => some guestSize
  | i, guestSize, region :: rest =>
    if PageAligned region.addr ∧ (PageAligned region.len ∨ i = count - 1) then
      createLoop count (i + 1) (guestSize + region.len) rest
    else none

/-- What `hyp_udmabuf_create` leaves. -/
structure Created where
  ret : Int
  head : HypUdmabufCreate
  buf : Option DmaBuf := none
  heap : List HeapEv := []

/-- `hyp_udmabuf_create`. `dma_buf_put` puts the only reference to the dma-buf,
which releases it. -/
def hypUdmabufCreate (a : CreateAnswers) (head : HypUdmabufCreate) (p : Addr) (list : List GuestMemRegion) : Created :=
  if head.flags ≠ O_RDONLY ∧ head.flags ≠ O_WRONLY ∧ head.flags ≠ O_RDWR then { ret := -EINVAL, head := head }
  else if a.ubuf = false then { ret := -ENOMEM, head := head }
  else
    let head := { head with fd := -1, size := 0 }
    let ubuf : Udmabuf := { nregions := head.count, list := some p }
    let heap := accesses ubuf.list
    match createLoop head.count 0 0 list with
    | none => { ret := -EINVAL, head := head, heap := heap }
    | some guestSize =>
      let buf : DmaBuf := { size := pageAlign guestSize, flags := head.flags, priv := ubuf }
      if a.exported < 0 then { ret := a.exported, head := head, heap := heap }
      else if a.dmabufFd < 0 then
        let buf := { buf with priv := { ubuf with list := none } }
        { ret := a.dmabufFd, head := head, heap := heap ++ hypUdmabufRelease buf }
      else
        { ret := 0
          head := { head with size := guestSize, fd := a.dmabufFd }
          buf := some { buf with priv := { ubuf with size := guestSize, dmabufFd := a.dmabufFd } }
          heap := heap }

/-! ## `hyp_udmabuf_ioctl_create` -/

/-- The answers to `hyp_udmabuf_ioctl_create`: the arguments as they are copied,
`none` where they cannot be; if there is memory for the list, and if it can be
copied; and if the arguments can be copied back. -/
structure IoctlAnswers extends CreateAnswers where
  head : Option HypUdmabufCreate
  list : Bool
  copied : Bool
  regions : Nat → GuestMemRegion
  copiedBack : Bool

/-- What `hyp_udmabuf_ioctl_create` leaves: the arguments that it has copied back,
and the dma-buf that it has exported, with the list of its regions. -/
structure Ioctl where
  ret : Int
  out : Option HypUdmabufCreate := none
  buf : Option DmaBuf := none
  list : List GuestMemRegion := []
  heap : List HeapEv := []

/-- `hyp_udmabuf_ioctl_create`; `p` is where the list is. -/
def hypUdmabufIoctlCreate (a : IoctlAnswers) (p : Addr) : Ioctl :=
  match a.head with
  | none => { ret := -EFAULT }
  | some head =>
    if head.count = 0 ∨ head.count > listLimit then { ret := -EINVAL }
    else if a.list = false then { ret := -ENOMEM }
    else if a.copied = false then { ret := -EFAULT, heap := [.kvzalloc p, .access p] ++ kvfree (some p) }
    else
      let list := (List.range head.count.toNat).map a.regions
      let c := hypUdmabufCreate a.toCreateAnswers head p list
      let heap := [.kvzalloc p, .access p] ++ c.heap
      if c.ret ≠ 0 then { ret := c.ret, buf := c.buf, list := list, heap := heap ++ kvfree (some p) }
      else if a.copiedBack = false then
        { ret := -EFAULT, buf := c.buf, list := list, heap := heap ++ kvfree (some p) }
      else { ret := 0, out := some c.head, buf := c.buf, list := list, heap := heap }

/-! ## The driver -/

/-- The calls of `HYP_UDMABUF_CREATE` are numbered: the number is the address of
the list, and names the dma-buf, if there is one. -/
structure Sys where
  next : Addr := 0
  bufs : Addr → Option DmaBuf := fun _ => none
  lists : Addr → List GuestMemRegion := fun _ => []
  log : List HeapEv := []

/-- What is called on the device and on its buffers. -/
inductive Op where
  | create (a : IoctlAnswers)
  | mmap (b : Addr) (remap : Nat → Int) (vma : Vma)
  | map (b : Addr) (a : SgtAnswers)
  | release (b : Addr)

/-- An operation on the driver. One on a dma-buf needs a reference to it, and
`release` puts the last one; `hyp_udmabuf_unmap` does nothing to the list. -/
def Sys.step (s : Sys) : Op → Option Sys
  | .create a =>
    let r := hypUdmabufIoctlCreate a s.next
    some { next := s.next + 1
           bufs := Function.update s.bufs s.next r.buf
           lists := Function.update s.lists s.next r.list
           log := s.log ++ r.heap }
  | .mmap b remap vma =>
    (s.bufs b).map fun buf => { s with log := s.log ++ (hypUdmabufMmap remap buf (s.lists b) vma).2.2 }
  | .map b a => (s.bufs b).map fun buf => { s with log := s.log ++ (hypUdmabufMap a buf (s.lists b)).2 }
  | .release b =>
    (s.bufs b).map fun buf => { s with bufs := Function.update s.bufs b none, log := s.log ++ hypUdmabufRelease buf }

end GH.Impl.HypUdmabuf
