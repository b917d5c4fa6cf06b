import Gunyah.Impl.GvmDump.Ctx
import Gunyah.Framework.CString

/-!
# The texts about a guest's memory

`dump_info_read` and `load_cmm_read` build a text in a buffer of 512 characters: a
line for each region, made of several pieces, where some of them are preceded by a
check that there is room. `curr_buf_len` is where the next piece that is printed goes.

An access outside the buffer is `fault`.
-/

namespace GH.Impl.GvmDump

/-- The end of a string, and the longest length of `snprintf`. -/
def NUL : Char := Char.ofNat 0
def INT_MAX : Nat := 2 ^ 31 - 1

/-- `strlcpy`. -/
def strlcpy (buf s : List Char) (size : Nat) : Option (List Char) := putCut NUL buf 0 size s

/-- `strlcat`, which must find the end of the string before `size`. -/
def strlcat (buf s : List Char) (size : Nat) : Option (List Char) :=
  match strlen NUL buf with
  | none => none
  | some dsize => if dsize ≥ size then none else putCut NUL buf dsize (size - dsize) s

/-- `snprintf` of a text, to `buf + off`: the buffer, and what it returns, which is the
length of the text, cut or not. It refuses sizes above `INT_MAX`. -/
def snprintf (buf : List Char) (off size : Nat) (s : List Char) : Option (List Char) × Nat :=
  if size > INT_MAX then (some buf, 0) else (putCut NUL buf off size s, s.length)

/-- The locals of a reader. -/
structure Text where
  buf : List Char
  currBufLen : Nat
  deriving DecidableEq

/-- What a reader does; `room n` is its check for room, for 0 or more characters, and an
append adds to `curr_buf_len`. -/
inductive TextOp where
  | room (n : Nat)
  | strlcpy (s : List Char)
  | strlcat (s : List Char)
  | snprintf (s : List Char) (reads : List Access)

/-- What one operation on the text leads to: the next one, a return, or an access outside of an array. -/
inductive Outcome where
  | next (t : Text)
  | ret (err : Int)
  | fault

/-- The accesses to the context's arrays. -/
def TextOp.reads : TextOp → List Access
  | .snprintf _ reads => reads
  | _ => []

namespace Text

/-- The buffer, all NULs. -/
def empty (size : Nat) : Text := ⟨List.replicate size NUL, 0⟩

/-- A text is appended, if the accesses are in the buffer. -/
def append (t : Text) (r : Option (List Char)) (len : Nat) : Outcome :=
  match r with
  | none => .fault
  | some buf => .next ⟨buf, t.currBufLen + len⟩

/-- An operation, in a buffer of `size` characters. -/
def step (size : Nat) (t : Text) : TextOp → Outcome
  | .room n => if t.currBufLen ≥ size ∨ t.currBufLen + n ≥ size then .ret (-1) else .next t
  | .strlcpy s => t.append (GvmDump.strlcpy t.buf s size) s.length
  | .strlcat s => t.append (GvmDump.strlcat t.buf s size) s.length
  | .snprintf s _ =>
    let r := GvmDump.snprintf t.buf t.currBufLen (sizeSub size t.currBufLen) s
    t.append r.1 r.2

/-- Operations, up to the first that returns. -/
def run (size : Nat) : Text → List TextOp → Outcome
  | t, [] => .next t
  | t, op :: ops =>
    match t.step size op with
    | .next u => u.run size ops
    | .ret err => .ret err
    | .fault => .fault

/-- The accesses of the operations that are done. -/
def reads (size : Nat) : Text → List TextOp → List Access
  | _, [] => []
  | t, op :: ops =>
    match t.step size op with
    | .next u => op.reads ++ u.reads size ops
    | _ => op.reads

end Text

/-- What a reader returns and gives: `none` where it accesses memory outside its buffer. -/
def readText (size : Nat) (ops : List TextOp) (req : Req) : Option (Int × List Char) :=
  match (Text.empty size).run size ops with
  | .next t => some (readFrom t.buf req)
  | .ret err => some (err, [])
  | .fault => none

namespace GvmRamdumpCtx

/-! ## `dump_info_read` -/

/-- The constant parts of a row, and what stands above the rows. -/
def header : List Char := "pref\t\tbase\t\tlength\t\tregion\t\tfile name\t\t\n".toList
def dotLine : List Char := "--------------------------------------------------------------------------\n".toList
def dInfoPref : List Char := "1\t\t".toList
def regName : List Char := "DDR\t\t".toList

/-- A turn of the loop of `dump_info_read`. -/
def dumpInfoLine (c : GvmRamdumpCtx) (idx : Nat) : List TextOp :=
  [.room dInfoPref.length,
    .strlcat dInfoPref,
    .snprintf ("0x".toList ++ hex (c.ramdumpStartAddr idx).toNat ++ "\t".toList) [⟨.ramdumpStartAddr, idx⟩],
    .room 0,
    .snprintf (decimal (c.ramdumpSize idx).toNat ++ "\t".toList) [⟨.ramdumpSize, idx⟩],
    .room regName.length,
    .strlcat regName,
    .snprintf (fileName idx ++ "\n".toList) []]

/-- The operations of `dump_info_read`. -/
def dumpInfoOps (c : GvmRamdumpCtx) : List TextOp :=
  -- the source sets curr_buf_len once, to the length of both
  [.strlcpy header, .strlcat dotLine] ++ (List.range c.numMemRegions.toNat).flatMap c.dumpInfoLine

/-- The function of the source. -/
def dumpInfoRead (c : GvmRamdumpCtx) (req : Req) : Option (Int × List Char) :=
  readText DUMP_INFO_BUFFER_SIZE c.dumpInfoOps req

/-! ## `load_cmm_read` -/

/-- The constant parts of a line. -/
def cmmCmd : List Char := "d.load.binary ".toList
def cmmCmd2 : List Char := "/noclear\n".toList

/-- A turn of the loop of `load_cmm_read`. -/
def loadCmmLine (c : GvmRamdumpCtx) (idx : Nat) : List TextOp :=
  [.room cmmCmd.length,
    .strlcat cmmCmd,
    .snprintf (fileName idx ++ " ".toList) [],
    .room 0,
    .snprintf ("0x".toList ++ hex (c.ramdumpStartAddr idx).toNat ++ " ".toList) [⟨.ramdumpStartAddr, idx⟩],
    .room 0,
    .strlcat cmmCmd2]

/-- The operations of `load_cmm_read`. -/
def loadCmmOps (c : GvmRamdumpCtx) : List TextOp :=
  (List.range c.numMemRegions.toNat).flatMap c.loadCmmLine

/-- The function of the source. -/
def loadCmmRead (c : GvmRamdumpCtx) (req : Req) : Option (Int × List Char) :=
  readText LOAD_CMM_BUFFER_SIZE c.loadCmmOps req

/-! ## All the files -/

/-- A call of one of the files, or the context's part in a restart of the guest. -/
inductive Op where
  | createFiles
  | sanitize (memremap : BitVec 64 → BitVec 64 → BitVec 64)
  | cleanup
  | openFile (file : Dentry) (memremap : BitVec 64 → BitVec 64 → BitVec 64)
  | read (file : Dentry) (mem : BitVec 64 → BitVec 64 → List Byte) (req : Req)
  | release (file : Dentry)
  | dumpInfo (req : Req)
  | loadCmm (req : Req)

/-- What a call does to the context: `none` where it waits for the lock. -/
def step (c : GvmRamdumpCtx) : Op → Option GvmRamdumpCtx
  | .createFiles => some c.createFiles
  | .sanitize memremap => c.sanitizeGvmRegion memremap
  | .cleanup => c.cleanupSingleGvm
  | .openFile file memremap => (c.gvmDebugfsOpen file memremap).map Prod.snd
  | .read file mem req => some (c.gvmDebugfsRead file mem req).2
  | .release file => some (c.gvmDebugfsRelease file).2
  | .dumpInfo _ => some (c.touch ((Text.empty DUMP_INFO_BUFFER_SIZE).reads DUMP_INFO_BUFFER_SIZE c.dumpInfoOps))
  | .loadCmm _ => some (c.touch ((Text.empty LOAD_CMM_BUFFER_SIZE).reads LOAD_CMM_BUFFER_SIZE c.loadCmmOps))

end GvmRamdumpCtx

end GH.Impl.GvmDump
