import Mathlib.Algebra.Ring.Nat
import Mathlib.Logic.Function.Basic

/-!
# What the drivers use of the kernel

Error numbers, pointers that may hold an error (`ERR_PTR`), allocation and
copying of bytes, and the hypervisor's error numbers with their translation
(`gh_errno.h`). An allocation's outcome is an input: `kzalloc` fails where
its caller is told so, and for sizes above `KMALLOC_MAX_SIZE`.
-/

namespace GH.Impl

/-- A byte of a message or of memory. -/
abbrev Byte := BitVec 8

/-- Addresses of objects. -/
abbrev Addr := Nat

/-- The error numbers of Linux. -/
def EPERM : Int := 1
/-- `EIO`. -/
def EIO_ERR : Int := 5
def ENXIO : Int := 6
def E2BIG : Int := 7
def EAGAIN : Int := 11
def ENOMEM : Int := 12
def EACCES : Int := 13
def EFAULT : Int := 14
def EBUSY : Int := 16
def EEXIST : Int := 17
def ENODEV : Int := 19
def EINVAL : Int := 22
def ENOSPC : Int := 28
def EOPNOTSUPP : Int := 95
def ERESTARTSYS : Int := 512
def EPROBE_DEFER : Int := 517

/-- A pointer: `NULL`, an error (`ERR_PTR`), or the address of an object. -/
inductive Ptr where
  | null
  | err (e : Int)
  | obj (a : Addr)
  deriving DecidableEq, Repr

/-- Addition and subtraction of `size_t` (values below `2^64`), which wrap. -/
def sizeAdd (a b : Nat) : Nat := if a + b < 2 ^ 64 then a + b else a + b - 2 ^ 64
/-- A difference of two `size_t`, which wraps around. -/
def sizeSub (a b : Nat) : Nat := if b ≤ a then a - b else 2 ^ 64 + a - b

/-- The largest size `kmalloc` serves (4 KiB pages). -/
def KMALLOC_MAX_SIZE : Nat := 2 ^ 22

/-- `n` zero bytes, or `NULL`. -/
def kzalloc (ok : Bool) (n : Nat) : Option (List Byte) :=
  if ok ∧ n ≤ KMALLOC_MAX_SIZE then some (List.replicate n 0) else none

/-- `memcpy(buf + off, src, |src|)`: `none` where it would run over the end. -/
def memcpy (buf : List Byte) (off : Nat) (src : List Byte) : Option (List Byte) :=
  if off + src.length ≤ buf.length then
    some (buf.take off ++ src ++ buf.drop (off + src.length))
  else none

/-! ## `gh_errno.h` -/

/-- The answers of the hypervisor, `enum gh_error`. -/
def GH_ERROR_OK : Int := 0
def GH_ERROR_UNIMPLEMENTED : Int := -1
def GH_ERROR_RETRY : Int := -2
def GH_ERROR_ARG_INVAL : Int := 1
def GH_ERROR_ARG_SIZE : Int := 2
def GH_ERROR_ARG_ALIGN : Int := 3
def GH_ERROR_NOMEM : Int := 10
def GH_ERROR_ADDR_OVFL : Int := 20
def GH_ERROR_ADDR_UNFL : Int := 21
def GH_ERROR_ADDR_INVAL : Int := 22
def GH_ERROR_DENIED : Int := 30
def GH_ERROR_BUSY : Int := 31
def GH_ERROR_IDLE : Int := 32
def GH_ERROR_IRQ_BOUND : Int := 40
def GH_ERROR_IRQ_UNBOUND : Int := 41
def GH_ERROR_CSPACE_CAP_NULL : Int := 50
def GH_ERROR_CSPACE_CAP_REVOKED : Int := 51
def GH_ERROR_CSPACE_WRONG_OBJ_TYPE : Int := 52
def GH_ERROR_CSPACE_INSUF_RIGHTS : Int := 53
def GH_ERROR_CSPACE_FULL : Int := 54
def GH_ERROR_MSGQUEUE_EMPTY : Int := 60
def GH_ERROR_MSGQUEUE_FULL : Int := 61

/-- `gh_remap_error`. -/
def ghRemapError (ghError : Int) : Int :=
  if ghError = GH_ERROR_OK then 0
  else if ghError = GH_ERROR_NOMEM then -ENOMEM
  else if ghError ∈ [GH_ERROR_DENIED, GH_ERROR_CSPACE_CAP_NULL, GH_ERROR_CSPACE_CAP_REVOKED,
    GH_ERROR_CSPACE_WRONG_OBJ_TYPE, GH_ERROR_CSPACE_INSUF_RIGHTS, GH_ERROR_CSPACE_FULL] then -EACCES
  else if ghError ∈ [GH_ERROR_BUSY, GH_ERROR_IDLE] then -EBUSY
  else if ghError ∈ [GH_ERROR_IRQ_BOUND, GH_ERROR_IRQ_UNBOUND, GH_ERROR_MSGQUEUE_FULL,
    GH_ERROR_MSGQUEUE_EMPTY] then -EPERM
  else if ghError ∈ [GH_ERROR_UNIMPLEMENTED, GH_ERROR_ARG_INVAL, GH_ERROR_ARG_SIZE, GH_ERROR_ARG_ALIGN,
    GH_ERROR_ADDR_OVFL, GH_ERROR_ADDR_UNFL, GH_ERROR_ADDR_INVAL] then -EINVAL
  else -EINVAL

end GH.Impl
