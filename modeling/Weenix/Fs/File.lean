import Weenix.Basic

/-!
# Vnodes and open files

The parts of `vnode_t` and `file_t` (`fs/vnode.h`, `fs/file.h`) that the modelled code reads,
and the `O_*` flags of `do_open`. A vnode's operation table is recorded by which operations the
filesystem provides; what path resolution and an operation answer is the oracle `Fs`, shared by
the file system calls of `Weenix.Fs.Vfs` and the process system of `Weenix.Proc.System`.
-/

namespace Weenix

/-- The file types of `vn_mode`. -/
inductive VType
  | reg
  | dir
  | chr
  | blk
  | lnk
  deriving DecidableEq, Repr

/-- Which entries of `vn_ops` are non-`NULL`. -/
structure VnodeOps where
  read : Bool
  write : Bool
  mkdir : Bool
  rmdir : Bool
  link : Bool
  unlink : Bool
  rename : Bool
  readdir : Bool
  stat : Bool
  truncateFile : Bool
  mmap : Bool
  deriving DecidableEq, Repr

/-- `vnode_t`: its type, length, whether `vn_dev` points at a device, its operations, and the
memory object its `mmap` operation hands out. -/
structure Vnode where
  vnMode : VType
  vnLen : Nat
  vnDev : Bool
  vnOps : VnodeOps
  vnMobj : Nat
  deriving DecidableEq, Repr

/-- `FMODE_READ`, `FMODE_WRITE`, `FMODE_APPEND`. -/
structure FMode where
  fmodeRead : Bool
  fmodeWrite : Bool
  fmodeAppend : Bool
  deriving DecidableEq, Repr

/-- `file_t`: the vnode (by address), the mode, the position and the reference count. -/
structure File where
  fVnode : Nat
  fMode : FMode
  fPos : Nat
  fRefcount : Nat
  deriving DecidableEq, Repr

/-- The `O_*` flags `do_open` and `namev_open` read. -/
structure OFlags where
  oWronly : Bool
  oRdwr : Bool
  oAppend : Bool
  oTrunc : Bool
  oCreat : Bool
  deriving DecidableEq, Repr

/-- `O_CREAT` alone, as `do_mknod` passes it. -/
def OFlags.creat : OFlags := ⟨false, false, false, false, true⟩

/-- `O_RDONLY`, which is zero. -/
def OFlags.rdonly : OFlags := ⟨false, false, false, false, false⟩

/-- The `FMODE_*` bits `do_open` derives from the flags: `O_RDWR` reads and writes, `O_WRONLY`
writes, `O_RDONLY` (zero) reads. -/
def OFlags.fmode (o : OFlags) : FMode := ⟨o.oRdwr || !o.oWronly, o.oRdwr || o.oWronly, o.oAppend⟩

/-- Modelled from the spec: the answers of path resolution and of the filesystem's vnode
operations, by their arguments. -/
structure Fs where
  namevResolve : Option Nat → String → Except Errno Nat
  namevDir : Option Nat → String → Except Errno (Nat × String)
  namevOpen : Option Nat → String → OFlags → VType → Nat → Except Errno Nat
  namevLookup : Nat → String → Except Errno Nat
  read : Nat → Nat → Nat → Except Errno Nat
  write : Nat → Nat → Nat → Except Errno Nat
  mkdir : Nat → String → Except Errno Nat
  rmdir : Nat → String → Except Errno Unit
  unlink : Nat → String → Except Errno Unit
  link : Nat → String → Nat → Except Errno Unit
  rename : Nat → String → Nat → String → Except Errno Unit
  readdir : Nat → Nat → Except Errno Nat
  stat : Nat → Except Errno Unit

end Weenix
