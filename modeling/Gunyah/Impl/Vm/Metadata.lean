import Gunyah.Impl.Kernel

/-!
# Metadata of a firmware image

`gh_sec_load_metadata` of `gh_secure_vm_loader.c`: where the metadata of a
firmware image is put in the memory region that the image is loaded to. The
metadata starts with an ELF header and its program headers. All arithmetic is
as the code does it: of 64 bits but for the end of the image, where the
address and the size of a program header are added in 32.
-/

namespace GH.Impl.Vm

/-- The size of a page, and the flag of a relocatable program header. -/
def PAGE_SIZE : BitVec 64 := 4096
def QCOM_MDT_RELOCATABLE : BitVec 32 := 1 <<< 27

/-- `struct elf32_phdr`. -/
structure Phdr where
  flags : BitVec 32
  paddr : BitVec 32
  memsz : BitVec 32

/-- The metadata: its program headers, and its size in bytes. -/
structure Metadata where
  phdrs : List Phdr
  size : BitVec 64

/-- `struct gh_sec_vm_fw_mem`. -/
structure FwMem where
  phys : BitVec 64
  virt : BitVec 64
  size : BitVec 64
  isStatic : Bool

/-- `PAGE_ROUND_UP`. -/
def pageRoundUp (x : BitVec 64) : BitVec 64 := (x + (PAGE_SIZE - 1)) / PAGE_SIZE * PAGE_SIZE

/-- What the loop over the program headers gathers. -/
structure Image where
  relocatable : Bool := false
  maxPaddr : BitVec 32 := 0
  endAddr : BitVec 64
  size : BitVec 64 := 0

/-- A turn of the loop: `none` where an overflow is found. -/
def Image.add (m : Image) (p : Phdr) : Option Image :=
  let m := { m with relocatable := m.relocatable || decide (p.flags &&& QCOM_MDT_RELOCATABLE ≠ 0) }
  if p.paddr > m.maxPaddr then
    if p.memsz.zeroExtend 64 > BitVec.allOnes 64 - p.paddr.zeroExtend 64 then none
    else
      some { m with endAddr := (p.paddr + p.memsz).zeroExtend 64, maxPaddr := p.paddr,
                    size := m.size + p.memsz.zeroExtend 64 }
  else some { m with size := m.size + p.memsz.zeroExtend 64 }

/-- The offset that the metadata is copied to, in `gh_sec_load_metadata`. `stack`
is what `image_end_addr` holds before the loop. -/
def placeMetadata (r : FwMem) (md : Metadata) (stack : BitVec 64) : Option (BitVec 64) :=
  let mdataSize := pageRoundUp md.size
  if mdataSize < md.size then none
  else
    match md.phdrs.foldlM Image.add { endAddr := stack } with
    | none => none
    | some m =>
      if m.size > BitVec.allOnes 64 - mdataSize ∨ r.size < m.size + mdataSize then none
      else
        let startAddr := if m.relocatable then 0 else r.phys
        let moffset := r.size - mdataSize
        if moffset > r.size ∨ startAddr > BitVec.allOnes 64 - moffset ∨ r.virt > BitVec.allOnes 64 - moffset then none
        else if m.endAddr ≤ startAddr + moffset then some moffset
        else none

/-- `gh_sec_load_metadata`: 0 where the metadata does not fit. -/
def ghSecLoadMetadata (r : FwMem) (md : Metadata) (stack : BitVec 64) : BitVec 64 := (placeMetadata r md stack).getD 0

end GH.Impl.Vm
