import Mathlib.Tactic.Ring
import Mathlib.Tactic.Linarith

/-!
# Constants, error codes and machine integers

The kernel headers (`config.h`, `mm/mm.h`, `mm/page.h`, `errno.h`) are not in the source tree.
Their constants are parameters here (`Consts`); the error codes are an enumeration, since only
their names matter to the code.

`size_t` arithmetic wraps modulo `2 ^ 64`; the helpers below say so where the code can
underflow, and `ssize` is the conversion of a `size_t` to `ssize_t`.
-/

namespace Weenix

/-- The error codes the modelled code returns (negated, as `-EINVAL`). -/
inductive Errno
  | EPERM
  | ENOENT
  | EINTR
  | ENXIO
  | EBADF
  | ECHILD
  | ENOMEM
  | EACCES
  | EFAULT
  | EEXIST
  | ENODEV
  | ENOTDIR
  | EISDIR
  | EINVAL
  | EMFILE
  | ENAMETOOLONG
  | ENOTEMPTY
  | ENOTSUP
  deriving DecidableEq, Repr

/-- The constants of the missing headers: `PAGE_SIZE`, `USER_MEM_LOW`, `USER_MEM_HIGH`,
`NFILES`, `PROC_MAX_COUNT`. -/
structure Consts where
  pageSize : Nat
  userMemLow : Nat
  userMemHigh : Nat
  nfiles : Nat
  procMaxCount : Nat

/-- A configuration with 4 KiB pages, user memory `[0x400000, 0x800000000000)`, 32 descriptors
and 65536 process ids. -/
def sampleConsts : Consts := ⟨4096, 0x400000, 0x800000000000, 32, 65536⟩

/-! ## `size_t` -/

/-- `2 ^ 64`, the modulus of `size_t` and `uintptr_t`. -/
def wordMod : Nat := 2 ^ 64

/-- `a - b` on `size_t`. -/
def sizeSub (a b : Nat) : Nat := (a + wordMod - b % wordMod) % wordMod

/-- `a + b` on `size_t`. -/
def sizeAdd (a b : Nat) : Nat := (a + b) % wordMod

/-- A `size_t` read as `ssize_t`. -/
def ssize (n : Nat) : Int := if n < 2 ^ 63 then n else (n : Int) - wordMod

namespace Consts

variable (K : Consts)

/-- `ADDR_TO_PN`. -/
def addrToPn (a : Nat) : Nat := a / K.pageSize

/-- `PN_TO_ADDR`. -/
def pnToAddr (p : Nat) : Nat := p * K.pageSize

/-- `PAGE_ALIGN_UP`, which wraps to zero past the last page of the address space. -/
def pageAlignUp (a : Nat) : Nat := (a + K.pageSize - 1) / K.pageSize * K.pageSize % wordMod

/-- `PAGE_ALIGN_DOWN`. -/
def pageAlignDown (a : Nat) : Nat := a / K.pageSize * K.pageSize

/-- `PAGE_ALIGNED`. -/
def pageAligned (a : Nat) : Bool := a % K.pageSize = 0

/-- `ADDR_TO_PN(USER_MEM_LOW)`. -/
def lowPn : Nat := K.addrToPn K.userMemLow

/-- `ADDR_TO_PN(USER_MEM_HIGH)`. -/
def highPn : Nat := K.addrToPn K.userMemHigh

end Consts

end Weenix
