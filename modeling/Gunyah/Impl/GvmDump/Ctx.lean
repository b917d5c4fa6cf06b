import Gunyah.Impl.Kernel

/-!
# Dumps of a guest's memory

`gvm_dump_debugfs.c`: a directory in debugfs with one file for each memory
region of a guest, which gives what is in the region, and two files that list the
regions (their texts are in `Impl/GvmDump/Text.lean`).

The context's arrays are the memory from their pointers on, and each access to
them is recorded, with the bytes that are allocated for them. What the kernel answers
is part of an operation's arguments.
-/

namespace GH.Impl.GvmDump

/-- The sizes of the text buffers and of a file name, and an error number of Linux. -/
def DUMP_INFO_BUFFER_SIZE : Nat := 512
def LOAD_CMM_BUFFER_SIZE : Nat := 512
def SZ_16 : Nat := 16
def ENOENT : Int := 2

/-- `%d` or `%lu`, and `%lx`, of a number that is not negative. -/
def decimal (n : Nat) : List Char := Nat.toDigits 10 n
/-- `%llx` -/
def hex (n : Nat) : List Char := Nat.toDigits 16 n

/-- `VMDDRCS%d.bin`. -/
def fileName (idx : Nat) : List Char := "VMDDRCS".toList ++ decimal idx ++ ".bin".toList

/-- The name of a region's file, which `scnprintf` cuts. -/
def ramdumpName (idx : Nat) : List Char := (fileName idx).take (SZ_16 - 1)

/-- `simple_strtoull` to the base 10, which does not look for an overflow. -/
def simpleStrtoull (s : List Char) : BitVec 64 :=
  (s.takeWhile Char.isDigit).foldl (fun res ch => res * 10 + BitVec.ofNat 64 (ch.toNat - 48)) 0

/-- `simple_strtol`. -/
def simpleStrtol (s : List Char) : BitVec 64 :=
  if s.head? = some '-' then -simpleStrtoull s.tail else simpleStrtoull s

/-- What a reader asks for, and the bytes that `copy_to_user` does not copy. -/
structure Req where
  count : Nat
  ppos : Int
  uncopied : Nat := 0

/-- `simple_read_from_buffer`: what it returns, and what it gives. -/
def simpleReadFromBuffer {α : Type} (src : List α) (req : Req) : Int × List α :=
  let available := src.length
  if req.ppos < 0 then (-EINVAL, [])
  else if req.ppos ≥ available ∨ req.count = 0 then (0, [])
  else
    let count := min req.count (available - req.ppos.toNat)
    let ret := min req.uncopied count
    if ret = count then (-EFAULT, []) else ((count - ret : Nat), (src.drop req.ppos.toNat).take (count - ret))

/-- The readers return -1 where `simple_read_from_buffer` fails. -/
def readFrom {α : Type} (src : List α) (req : Req) : Int × List α :=
  let r := simpleReadFromBuffer src req
  if r.1 < 0 then (-1, r.2) else r

/-! ## The device -/

/-- `struct resource`. -/
structure Resource where
  start : BitVec 64
  last : BitVec 64
  deriving DecidableEq, Repr

/-- `resource_size`. -/
def resourceSize (res : Resource) : BitVec 64 := res.last - res.start + 1

/-- An entry of `memory-region`: what `of_parse_phandle` finds, and the node's address. -/
inductive Phandle where
  | missing
  | node (address : Option Resource)
  deriving DecidableEq, Repr

/-- The device node: the properties that are read. -/
structure Device where
  enableGvmDump : Bool := true
  vmid : Option Int
  memoryRegion : Option (List Phandle)
  /-- The name, or what `of_property_read_string` returns instead. -/
  firmwareName : Except Int (List Char)

/-- `of_count_phandle_with_args`, of cells without arguments. -/
def ofCountPhandleWithArgs (dev : Device) : Int :=
  match dev.memoryRegion with
  | none => -ENOENT
  | some phandles => phandles.length

/-- `of_parse_phandle`. -/
def ofParsePhandle (dev : Device) (idx : Nat) : Phandle := ((dev.memoryRegion.getD [])[idx]?).getD .missing

/-! ## The context -/

/-- The arrays of the context that are indexed by the memory region. -/
inductive Arr where
  | ramdumpStartAddr
  | ramdumpSize
  | mappedAddr
  deriving DecidableEq, Repr

/-- An access to an element of an array. -/
structure Access where
  arr : Arr
  idx : Nat
  deriving DecidableEq, Repr

/-- `sizeof` of an element: `phys_addr_t`, `size_t` or a pointer. -/
def elemSize : Arr → Nat
  | .ramdumpStartAddr => 8
  | .ramdumpSize => 8
  | .mappedAddr => 8

/-- The `file_operations` of the files that are created. -/
inductive FileOps where
  | gvmRamdumpOps
  | dumpInfoOps
  | loadCmmOps
  deriving DecidableEq, Repr

/-- What `debugfs_create_file_size` is called with. -/
structure File where
  name : List Char
  fops : FileOps
  size : BitVec 64
  deriving DecidableEq, Repr

/-- `struct gvm_ramdump_ctx`. -/
structure GvmRamdumpCtx where
  vmid : Int := 0
  numMemRegions : Int := 0
  ramdumpStartAddr : Nat → BitVec 64 := fun _ => 0
  ramdumpSize : Nat → BitVec 64 := fun _ => 0
  mappedAddr : Nat → BitVec 64 := fun _ => 0
  gvmRamdumpDir : Option (List File) := none
  lock : Bool := false
  /-- The bytes that are allocated for an array. -/
  allocated : Arr → Nat := fun _ => 0
  accesses : List Access := []

namespace GvmRamdumpCtx

/-- Accesses are made. -/
def touch (c : GvmRamdumpCtx) (accesses : List Access) : GvmRamdumpCtx :=
  { c with accesses := c.accesses ++ accesses }

/-- `devm_kzalloc` of an array. -/
def alloc (c : GvmRamdumpCtx) (arr : Arr) (size : Nat) : GvmRamdumpCtx :=
  { c with allocated := Function.update c.allocated arr size }

/-- `ramdump_start_addr[idx]` and `ramdump_size[idx]` are set. -/
def setRegion (c : GvmRamdumpCtx) (idx : Nat) (res : Resource) : GvmRamdumpCtx :=
  { c with
    ramdumpStartAddr := Function.update c.ramdumpStartAddr idx res.start
    ramdumpSize := Function.update c.ramdumpSize idx (resourceSize res) }

/-- `mapped_addr[idx]` is set. -/
def setMapped (c : GvmRamdumpCtx) (idx : Nat) (addr : BitVec 64) : GvmRamdumpCtx :=
  { c with mappedAddr := Function.update c.mappedAddr idx addr }

/-- The loop of `get_gvm_resource`. -/
def resourceLoop (dev : Device) : List Nat → GvmRamdumpCtx → Int × GvmRamdumpCtx
  | [], c => (0, c)
  | idx :: idxs, c =>
    match ofParsePhandle dev idx with
    | .missing => (-EINVAL, c)
    | .node none => (-EINVAL, c)
    | .node (some res) =>
      resourceLoop dev idxs ((c.setRegion idx res).touch [⟨.ramdumpStartAddr, idx⟩, ⟨.ramdumpSize, idx⟩])

/-- `get_gvm_resource`; `mem` says for which arrays there is memory. -/
def getGvmResource (c : GvmRamdumpCtx) (dev : Device) (mem : Arr → Bool) : Int × GvmRamdumpCtx :=
  if dev.enableGvmDump = false then (-EINVAL, c)
  else
    match dev.vmid with
    | none => (-EINVAL, c)
    | some vmid =>
      let c := { c with vmid := vmid, numMemRegions := ofCountPhandleWithArgs dev }
      if c.numMemRegions = 0 then (-EINVAL, c)
      else if mem .ramdumpStartAddr = false then (-ENOMEM, c)
      else
        let c := c.alloc .ramdumpStartAddr (elemSize .ramdumpStartAddr)
        if mem .ramdumpSize = false then (-ENOMEM, c)
        else
          let c := c.alloc .ramdumpSize (elemSize .ramdumpSize)
          if mem .mappedAddr = false then (-ENOMEM, c)
          else
            let c := c.alloc .mappedAddr (elemSize .mappedAddr)
            resourceLoop dev (List.range c.numMemRegions.toNat) c

/-- The files of the regions, and the reads of their sizes. -/
def createFiles (c : GvmRamdumpCtx) : GvmRamdumpCtx :=
  let idxs := List.range c.numMemRegions.toNat
  { c.touch (idxs.map fun idx => ⟨.ramdumpSize, idx⟩) with
    gvmRamdumpDir := some ((idxs.map fun idx => ⟨ramdumpName idx, .gvmRamdumpOps, c.ramdumpSize idx⟩) ++
      [⟨"dump_info.txt".toList, .dumpInfoOps, BitVec.ofNat 64 DUMP_INFO_BUFFER_SIZE⟩,
        ⟨"load.cmm".toList, .loadCmmOps, BitVec.ofNat 64 LOAD_CMM_BUFFER_SIZE⟩]) }

end GvmRamdumpCtx

/-- `create_gvm_ramdump_debugfs`: what it returns, and the context that it puts in the list.
`memCtx` says if there is memory for the context, and `dir` if `debugfs_create_dir` makes
the directory. -/
def createGvmRamdumpDebugfs (dev : Device) (memCtx : Bool) (mem : Arr → Bool) (dir : Bool) :
    Int × Option GvmRamdumpCtx :=
  if memCtx = false then (-ENOMEM, none)
  else
    let r := GvmRamdumpCtx.getGvmResource {} dev mem
    if r.1 ≠ 0 then (r.1, none)
    else
      match dev.firmwareName with
      | .error ret => (ret, none)
      | .ok _ => if dir = false then (-EINVAL, none) else (0, some r.2.createFiles)

/-! ## The files of the regions -/

/-- A name in a `struct dentry`, and the byte before it. -/
structure Dentry where
  before : Char
  dIname : List Char

/-- `get_ramdump_id`: the number is read from the character before the first dot on. -/
def getRamdumpId (file : Dentry) (numMemRegions : Int) : Int :=
  match file.dIname.findIdx? (· = '.') with
  | none => -EINVAL
  | some dot =>
    let name := (file.before :: file.dIname).drop dot
    if (name.headD (Char.ofNat 0)).isDigit = false then -EINVAL
    else
      let ramdumpId := ((simpleStrtol name).setWidth 32).toInt
      if ramdumpId ≥ numMemRegions then -EINVAL else ramdumpId

namespace GvmRamdumpCtx

/-- `cleanup_single_gvm`, which waits for the lock. -/
def cleanupSingleGvm (c : GvmRamdumpCtx) : Option GvmRamdumpCtx :=
  if c.lock = true then none else some { c with gvmRamdumpDir := none }

/-- A round of the loop of `sanitize_gvm_region`. -/
def sanitizeOne (memremap : BitVec 64 → BitVec 64 → BitVec 64) (c : GvmRamdumpCtx) (idx : Nat) : GvmRamdumpCtx :=
  let addr := memremap (c.ramdumpStartAddr idx) (c.ramdumpSize idx)
  let c := (c.setMapped idx addr).touch
    [⟨.ramdumpStartAddr, idx⟩, ⟨.ramdumpSize, idx⟩, ⟨.mappedAddr, idx⟩, ⟨.mappedAddr, idx⟩]
  if addr = 0 then c else c.touch [⟨.mappedAddr, idx⟩, ⟨.ramdumpSize, idx⟩, ⟨.mappedAddr, idx⟩]

/-- `sanitize_gvm_region`, where it is configured; `memremap` returns 0 where it fails. -/
def sanitizeGvmRegion (c : GvmRamdumpCtx) (memremap : BitVec 64 → BitVec 64 → BitVec 64) : Option GvmRamdumpCtx :=
  if c.lock = true then none else some ((List.range c.numMemRegions.toNat).foldl (sanitizeOne memremap) c)

/-- `gvm_debugfs_open`: the lock stays held. -/
def gvmDebugfsOpen (c : GvmRamdumpCtx) (file : Dentry) (memremap : BitVec 64 → BitVec 64 → BitVec 64) :
    Option (Int × GvmRamdumpCtx) :=
  let ramdumpId := getRamdumpId file c.numMemRegions
  if ramdumpId < 0 then c.cleanupSingleGvm.map fun t => (-EFAULT, t)
  else if c.lock = true then none
  else
    let idx := ramdumpId.toNat
    let addr := memremap (c.ramdumpStartAddr idx) (c.ramdumpSize idx)
    let c := (c.setMapped idx addr).touch
      [⟨.ramdumpStartAddr, idx⟩, ⟨.ramdumpSize, idx⟩, ⟨.mappedAddr, idx⟩, ⟨.mappedAddr, idx⟩]
    if addr = 0 then c.cleanupSingleGvm.map fun t => (-EFAULT, t) else some (0, { c with lock := true })

/-- `gvm_debugfs_read`; `mem` is what is in memory, from an address on. -/
def gvmDebugfsRead (c : GvmRamdumpCtx) (file : Dentry) (mem : BitVec 64 → BitVec 64 → List Byte) (req : Req) :
    (Int × List Byte) × GvmRamdumpCtx :=
  let ramdumpId := getRamdumpId file c.numMemRegions
  if ramdumpId < 0 then ((-1, []), c)
  else
    let idx := ramdumpId.toNat
    (readFrom (mem (c.mappedAddr idx) (c.ramdumpSize idx)) req, c.touch [⟨.mappedAddr, idx⟩, ⟨.ramdumpSize, idx⟩])

/-- `gvm_debugfs_release`. -/
def gvmDebugfsRelease (c : GvmRamdumpCtx) (file : Dentry) : Int × GvmRamdumpCtx :=
  let ramdumpId := getRamdumpId file c.numMemRegions
  if ramdumpId < 0 then (-1, c)
  else
    let idx := ramdumpId.toNat
    let c := c.touch [⟨.mappedAddr, idx⟩]
    let c := if c.mappedAddr idx = 0 then c else c.touch [⟨.mappedAddr, idx⟩]
    (0, { c with lock := false })

end GvmRamdumpCtx

end GH.Impl.GvmDump
