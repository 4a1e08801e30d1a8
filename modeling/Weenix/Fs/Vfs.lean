import Weenix.Proc.Proc

/-!
# The file system calls

`do_open`, `do_read`, `do_write`, `do_close`, `do_dup`, `do_dup2`, `do_mknod`, `do_mkdir`,
`do_rmdir`, `do_unlink`, `do_link`, `do_rename`, `do_chdir`, `do_getdent`, `do_lseek` and
`do_stat` (`fs/open.c` and `fs/vfs_syscall.c`), called by `curproc` on the process table of
`Weenix.Proc.Proc`: its open files, descriptor tables, working directories and vnode counts.

What the calls use and the source tree lacks is modelled from the spec:
1. Path resolution (`namev_resolve`, `namev_dir`, `namev_open`, `namev_lookup`) and the
   filesystem's vnode operations are an oracle (`Fs`) that answers each call. A vnode a
   `namev_*` call or `mkdir` answers with comes with a reference the caller then holds.
2. `fget`, `fref`, `fput` and `fcreate` (`fs/file.c`); `fcreate` installs the new file in the
   descriptor slot and takes its own reference on the vnode.
3. `vref` and `vput` (`fs/vnode.c`); `vput` takes the vnode's mutex to drop the count, as in
   `Weenix.Proc.System`.
4. `vlock`, `vunlock` and their `_in_order` pair, over the vnode mutexes the calling thread
   holds. Taking one it holds is the `KASSERT` of `kmutex_lock`; a mutex another thread holds
   only delays the call, which is not modelled.

A vnode's attributes (type, length, device, operations) are the filesystem's and fixed during a
call. A crash (a failed `KASSERT`, a `NULL` dereference) is `none`.
-/

namespace Weenix

open Function

/-- What a file system call acts on: the process table, the vnodes' attributes, the vnode
mutexes the calling thread holds, and `curproc`. -/
structure Vfs where
  table : ProcTable
  vnodes : Nat → Vnode
  held : Nat → Bool
  curproc : Option Nat

namespace Vfs

/-! ## Vnodes and files -/

/-- Modelled from the spec: `vref`. -/
def vref (s : Vfs) (v : Nat) : Vfs := { s with table := vnodeRef s.table v }

/-- Modelled from the spec: `vlock`, of a mutex the thread does not hold. -/
def vlock (s : Vfs) (v : Nat) : Option Vfs :=
  if s.held v then none else some { s with held := update s.held v true }

/-- Modelled from the spec: `vunlock`, of a mutex the thread holds. -/
def vunlock (s : Vfs) (v : Nat) : Option Vfs :=
  if s.held v then some { s with held := update s.held v false } else none

/-- Modelled from the spec: `vput` drops the count under the vnode's mutex. -/
def vput (s : Vfs) (v : Nat) : Option Vfs := do
  let s ← s.vlock v
  let t ← vnodePutLocked s.table v
  Vfs.vunlock { s with table := t } v

/-- Modelled from the spec: `vlock_in_order` takes both mutexes in a fixed order, the one mutex
when the two vnodes are the same. -/
def vlockInOrder (s : Vfs) (a b : Nat) : Option Vfs :=
  if a = b then s.vlock a else do (← s.vlock (min a b)).vlock (max a b)

/-- Modelled from the spec: `vunlock_in_order`. -/
def vunlockInOrder (s : Vfs) (a b : Nat) : Option Vfs :=
  if a = b then s.vunlock a else do (← s.vunlock a).vunlock b

/-- Modelled from the spec: `fref`. -/
def fref (s : Vfs) (f : Nat) : Option Vfs := do
  let t ← fileRef s.table f
  some { s with table := t }

/-- Modelled from the spec: `fput`; the last reference frees the file and puts its vnode. -/
def fput (s : Vfs) (f : Nat) : Option Vfs := do
  let (vn, t) ← filePut s.table f
  match vn with
  | some v => Vfs.vput { s with table := t } v
  | none => some { s with table := t }

/-- `curproc`, dereferenced: its address and descriptor; `none` (a crash) if it is `NULL` or
freed. -/
def proc (s : Vfs) : Option (Nat × Proc) := do
  let c ← s.curproc
  some (c, ← s.table.procs c)

/-- Replace the process at `c`. -/
def setProc (s : Vfs) (c : Nat) (x : Proc) : Vfs := { s with table := s.table.setProc c x }

/-- Modelled from the spec: `fget`, the file of a descriptor of `curproc` with a new
reference. -/
def fget (s : Vfs) (fd : Nat) : Option (Option Nat × Vfs) := do
  let (_, x) ← s.proc
  match x.pFiles fd with
  | none => some (none, s)
  | some f => do some (some f, ← s.fref f)

/-- Modelled from the spec: `fcreate`, a new file on vnode `v` with one reference, installed at
descriptor `fd` of `curproc`, with a reference of its own on `v`; `NULL` if the allocation
fails. -/
def fcreate (s : Vfs) (fd v : Nat) (mode : FMode) : Option (Option Nat × Vfs) :=
  match s.table.slab.alloc with
  | (none, sl) => some (none, { s with table := { s.table with slab := sl } })
  | (some f, sl) => do
    let (c, x) ← s.proc
    let file : File := ⟨v, mode, 0, 1⟩
    let t := vnodeRef { s.table with slab := sl, files := update s.table.files f (some file) } v
    some (some f, { s with table := t.setProc c { x with pFiles := update x.pFiles fd (some f) } })

/-- Set the position of the file `x` at `f`. -/
def setPos (s : Vfs) (f : Nat) (x : File) (pos : Nat) : Vfs :=
  { s with table := { s.table with files := update s.table.files f (some { x with fPos := pos }) } }

end Vfs

/-! ## The calls -/

variable (K : Consts) (fs : Fs)

/-- `do_open`. Its test of `curproc` against `NULL` comes after `get_empty_fd` has read
`curproc`'s table, and cannot fail. -/
def doOpen (s : Vfs) (filename : String) (oflags : OFlags) : Option (Except Errno Nat × Vfs) := do
  if oflags.oWronly ∧ oflags.oRdwr then return (.error .EINVAL, s)
  let (_, x) ← s.proc
  match getEmptyFd K x with
  | .error e => return (.error e, s)
  | .ok fd =>
    match fs.namevOpen x.pCwd filename oflags .reg 0 with
    | .error e => return (.error e, s)
    | .ok v =>
      let s := s.vref v
      let vn := s.vnodes v
      if vn.vnMode = .dir ∧ (oflags.oWronly ∨ oflags.oRdwr) then
        return (.error .EISDIR, ← s.vput v)
      if (vn.vnMode = .chr ∨ vn.vnMode = .blk) ∧ !vn.vnDev then
        return (.error Errno.ENXIO, ← s.vput v)
      let s ← (if oflags.oTrunc ∧ vn.vnMode = .reg ∧ oflags.fmode.fmodeWrite ∧
          vn.vnOps.truncateFile then (s.vlock v).bind fun s => s.vunlock v else some s)
      match ← s.fcreate fd v oflags.fmode with
      | (none, s) => return (.error .ENOMEM, ← s.vput v)
      | (some _, s) => return (.ok fd, ← s.vput v)

/-- `do_read`: the read operation under the vnode's mutex, from the file's position, which
advances by what was read. -/
def doRead (s : Vfs) (fd : Int) (len : Nat) : Option (Except Errno Nat × Vfs) := do
  if fd < 0 ∨ K.nfiles ≤ fd then return (.error .EBADF, s)
  match ← s.fget fd.toNat with
  | (none, s) => return (.error .EBADF, s)
  | (some f, s) =>
    let x ← s.table.files f
    if !x.fMode.fmodeRead then return (.error .EBADF, ← s.fput f)
    let vn := s.vnodes x.fVnode
    if vn.vnMode = .dir then return (.error .EISDIR, ← s.fput f)
    if !vn.vnOps.read then return (.error .EBADF, ← s.fput f)
    let s ← s.vlock x.fVnode
    let r := fs.read x.fVnode x.fPos len
    let s := match r with
      | .ok n => if 0 < n then s.setPos f x (x.fPos + n) else s
      | .error _ => s
    let s ← s.vunlock x.fVnode
    return (r, ← s.fput f)

/-- `do_write`: the write operation under the vnode's mutex, at the end of the file for
`FMODE_APPEND`, else at the file's position. -/
def doWrite (s : Vfs) (fd : Int) (len : Nat) : Option (Except Errno Nat × Vfs) := do
  if fd < 0 ∨ K.nfiles ≤ fd then return (.error .EBADF, s)
  match ← s.fget fd.toNat with
  | (none, s) => return (.error .EBADF, s)
  | (some f, s) =>
    let x ← s.table.files f
    if !x.fMode.fmodeWrite then return (.error .EBADF, ← s.fput f)
    let vn := s.vnodes x.fVnode
    if !vn.vnOps.write then return (.error .EBADF, ← s.fput f)
    let s ← s.vlock x.fVnode
    let pos := if x.fMode.fmodeAppend then vn.vnLen else x.fPos
    let r := fs.write x.fVnode pos len
    let s := match r with
      | .ok n => if 0 < n then s.setPos f x (if x.fMode.fmodeAppend then pos + n else x.fPos + n)
        else s
      | .error _ => s
    let s ← s.vunlock x.fVnode
    return (r, ← s.fput f)

/-- `do_close`: clear the slot, then `fput`. -/
def doClose (s : Vfs) (fd : Int) : Option (Except Errno Nat × Vfs) := do
  if fd < 0 ∨ K.nfiles ≤ fd then return (.error .EBADF, s)
  let (c, x) ← s.proc
  match x.pFiles fd.toNat with
  | none => return (.error .EBADF, s)
  | some f => return (.ok 0, ← (s.setProc c { x with pFiles := update x.pFiles fd.toNat none }).fput f)

/-- `do_dup`: the file of `fd` also at the lowest free descriptor, with a new reference. -/
def doDup (s : Vfs) (fd : Int) : Option (Except Errno Nat × Vfs) := do
  if fd < 0 ∨ K.nfiles ≤ fd then return (.error .EBADF, s)
  let (c, x) ← s.proc
  match x.pFiles fd.toNat with
  | none => return (.error .EBADF, s)
  | some f =>
    match getEmptyFd K x with
    | .error e => return (.error e, s)
    | .ok nfd =>
      return (.ok nfd, (← s.fref f).setProc c { x with pFiles := update x.pFiles nfd (some f) })

/-- `do_dup2`: the file of `ofd` also at `nfd`, closing `nfd` first if it is open. -/
def doDup2 (s : Vfs) (ofd nfd : Int) : Option (Except Errno Nat × Vfs) := do
  if ofd < 0 ∨ K.nfiles ≤ ofd then return (.error .EBADF, s)
  if nfd < 0 ∨ K.nfiles ≤ nfd then return (.error .EBADF, s)
  let (_, x) ← s.proc
  match x.pFiles ofd.toNat with
  | none => return (.error .EBADF, s)
  | some f =>
    if ofd = nfd then return (.ok nfd.toNat, s)
    let s ← (if (x.pFiles nfd.toNat).isSome then (doClose K s nfd).map Prod.snd else some s)
    let s ← s.fref f
    let (c, x) ← s.proc
    return (.ok nfd.toNat, s.setProc c { x with pFiles := update x.pFiles nfd.toNat (some f) })

/-- `do_mknod`: `namev_open` with `O_CREAT`, and the reference it returns put back. -/
def doMknod (s : Vfs) (path : String) (mode : VType) (devid : Nat) :
    Option (Except Errno Nat × Vfs) := do
  if mode ≠ .chr ∧ mode ≠ .blk ∧ mode ≠ .reg then return (.error .EINVAL, s)
  if s.curproc.isNone then return (.error .ENOENT, s)
  let (_, x) ← s.proc
  match fs.namevOpen x.pCwd path .creat mode devid with
  | .error e => return (.error e, s)
  | .ok v => return (.ok 0, ← (s.vref v).vput v)

variable (nameLen : Nat)

/-- `do_mkdir`: the parent from `namev_dir`, locked while `namev_lookup` checks that the name is
free and its `mkdir` operation runs. -/
def doMkdir (s : Vfs) (path : String) : Option (Except Errno Nat × Vfs) := do
  let (_, x) ← s.proc
  match fs.namevDir x.pCwd path with
  | .error e => return (.error e, s)
  | .ok (d, name) =>
    let s := s.vref d
    if nameLen ≤ name.length then return (.error .ENAMETOOLONG, ← s.vput d)
    if name.length = 0 then return (.error .EEXIST, ← s.vput d)
    if (s.vnodes d).vnMode ≠ .dir then return (.error .ENOTDIR, ← s.vput d)
    let s ← s.vlock d
    match fs.namevLookup d name with
    | .ok e => return (.error .EEXIST, ← (← (← (s.vref e).vput e).vunlock d).vput d)
    | .error er =>
      if er ≠ .ENOENT then return (.error er, ← (← s.vunlock d).vput d)
      if !(s.vnodes d).vnOps.mkdir then return (.error .ENOTDIR, ← (← s.vunlock d).vput d)
      match fs.mkdir d name with
      | .error e => return (.error e, ← (← s.vunlock d).vput d)
      | .ok nd => return (.ok 0, ← (← (← (s.vref nd).vunlock d).vput d).vput nd)

/-- `do_rmdir`: the parent from `namev_dir`, locked while its `rmdir` operation runs. -/
def doRmdir (s : Vfs) (path : String) : Option (Except Errno Nat × Vfs) := do
  let (_, x) ← s.proc
  match fs.namevDir x.pCwd path with
  | .error e => return (.error e, s)
  | .ok (d, name) =>
    let s := s.vref d
    if nameLen ≤ name.length then return (.error .ENAMETOOLONG, ← s.vput d)
    if (s.vnodes d).vnMode ≠ .dir then return (.error .ENOTDIR, ← s.vput d)
    if name = "." then return (.error .EINVAL, ← s.vput d)
    if name = ".." then return (.error .ENOTEMPTY, ← s.vput d)
    let s ← s.vlock d
    if !(s.vnodes d).vnOps.rmdir then return (.error .ENOTDIR, ← (← s.vunlock d).vput d)
    let r := fs.rmdir d name
    return (r.map fun _ => 0, ← (← s.vunlock d).vput d)

/-- `do_unlink`: the parent from `namev_dir`, locked while `namev_lookup` rules out a directory
and its `unlink` operation runs. -/
def doUnlink (s : Vfs) (path : String) : Option (Except Errno Nat × Vfs) := do
  if s.curproc.isNone then return (.error .ENOENT, s)
  let (_, x) ← s.proc
  match fs.namevDir x.pCwd path with
  | .error e => return (.error e, s)
  | .ok (d, name) =>
    let s := s.vref d
    if nameLen ≤ name.length then return (.error .ENAMETOOLONG, ← s.vput d)
    if (s.vnodes d).vnMode ≠ .dir then return (.error .ENOTDIR, ← s.vput d)
    let s ← s.vlock d
    if !(s.vnodes d).vnOps.unlink then return (.error .ENOTDIR, ← (← s.vunlock d).vput d)
    let s ← match fs.namevLookup d name with
      | .ok t => do
        let s := s.vref t
        if (s.vnodes t).vnMode = .dir then
          return (.error .EPERM, ← (← (← s.vput t).vunlock d).vput d)
        s.vput t
      | .error _ => some s
    let r := fs.unlink d name
    return (r.map fun _ => 0, ← (← s.vunlock d).vput d)

/-- `do_link`: the target from `namev_resolve`, not a directory, and the new name's parent from
`namev_dir`, both locked while the parent's `link` operation runs. -/
def doLink (s : Vfs) (oldpath newpath : String) : Option (Except Errno Nat × Vfs) := do
  let (_, x) ← s.proc
  match fs.namevResolve x.pCwd oldpath with
  | .error e => return (.error e, s)
  | .ok t =>
    let s := s.vref t
    if (s.vnodes t).vnMode = .dir then return (.error .EPERM, ← s.vput t)
    match fs.namevDir x.pCwd newpath with
    | .error e => return (.error e, ← s.vput t)
    | .ok (d, name) =>
      let s := s.vref d
      if nameLen ≤ name.length then return (.error .ENAMETOOLONG, ← (← s.vput t).vput d)
      if (s.vnodes d).vnMode ≠ .dir then return (.error .ENOTDIR, ← (← s.vput t).vput d)
      if !(s.vnodes d).vnOps.link then return (.error .ENOTDIR, ← (← s.vput t).vput d)
      let s ← s.vlockInOrder d t
      let r := fs.link d name t
      let s ← s.vunlockInOrder d t
      return (r.map fun _ => 0, ← (← s.vput t).vput d)

/-- `do_rename`: both parents from `namev_dir`, locked while the old parent's `rename` operation
runs. -/
def doRename (s : Vfs) (oldpath newpath : String) : Option (Except Errno Nat × Vfs) := do
  let (_, x) ← s.proc
  match fs.namevDir x.pCwd oldpath with
  | .error e => return (.error e, s)
  | .ok (od, oname) =>
    let s := s.vref od
    if nameLen ≤ oname.length then return (.error .ENAMETOOLONG, ← s.vput od)
    if (s.vnodes od).vnMode ≠ .dir then return (.error .ENOTDIR, ← s.vput od)
    match fs.namevDir x.pCwd newpath with
    | .error e => return (.error e, ← s.vput od)
    | .ok (nd, nname) =>
      let s := s.vref nd
      if nameLen ≤ nname.length then return (.error .ENAMETOOLONG, ← (← s.vput od).vput nd)
      if (s.vnodes nd).vnMode ≠ .dir then return (.error .ENOTDIR, ← (← s.vput od).vput nd)
      if !(s.vnodes od).vnOps.rename then return (.error .ENOTDIR, ← (← s.vput od).vput nd)
      let s ← s.vlockInOrder od nd
      let r := fs.rename od oname nd nname
      let s ← s.vunlockInOrder od nd
      return (r.map fun _ => 0, ← (← s.vput od).vput nd)

/-- `do_chdir`: the new directory from `namev_resolve` becomes `p_cwd`, and the old one is
put. -/
def doChdir (s : Vfs) (path : String) : Option (Except Errno Nat × Vfs) := do
  if s.curproc.isNone then return (.error .ENOENT, s)
  let (c, x) ← s.proc
  match fs.namevResolve x.pCwd path with
  | .error e => return (.error e, s)
  | .ok v =>
    let s := s.vref v
    if (s.vnodes v).vnMode ≠ .dir then return (.error .ENOTDIR, ← s.vput v)
    let old ← x.pCwd
    return (.ok 0, ← (s.setProc c { x with pCwd := some v }).vput old)

/-- `do_getdent`: the `readdir` operation under the vnode's mutex; a positive answer advances
the position by it and returns `sizeof(dirent_t)`. -/
def doGetdent (direntSize : Nat) (s : Vfs) (fd : Int) : Option (Except Errno Nat × Vfs) := do
  if fd < 0 ∨ K.nfiles ≤ fd then return (.error .EBADF, s)
  let (_, x) ← s.proc
  match x.pFiles fd.toNat with
  | none => return (.error .EBADF, s)
  | some f =>
    let y ← s.table.files f
    let vn := s.vnodes y.fVnode
    if vn.vnMode ≠ .dir then return (.error .ENOTDIR, s)
    if !vn.vnOps.readdir then return (.error .EBADF, s)
    let s ← s.vlock y.fVnode
    let (r, s) : Except Errno Nat × Vfs := match fs.readdir y.fVnode y.fPos with
      | .ok n => if 0 < n then (.ok direntSize, s.setPos f y (y.fPos + n)) else (.ok n, s)
      | .error e => (.error e, s)
    return (r, ← s.vunlock y.fVnode)

/-- `SEEK_SET`, `SEEK_CUR`, `SEEK_END`. -/
def seekSet : Int := 0
def seekCur : Int := 1
def seekEnd : Int := 2

/-- The `switch` of `do_lseek`: the new position, read under the vnode's mutex for `SEEK_END`;
`none` for another `whence`. -/
def lseekTarget (s : Vfs) (y : File) (offset whence : Int) : Option (Option (Int × Vfs)) :=
  if whence = seekSet then some (some (offset, s))
  else if whence = seekCur then some (some (y.fPos + offset, s))
  else if whence = seekEnd then do
    let s ← s.vlock y.fVnode
    some (some ((s.vnodes y.fVnode).vnLen + offset, ← s.vunlock y.fVnode))
  else some none

/-- `do_lseek`. -/
def doLseek (s : Vfs) (fd offset whence : Int) : Option (Except Errno Nat × Vfs) := do
  if fd < 0 ∨ K.nfiles ≤ fd then return (.error .EBADF, s)
  let (_, x) ← s.proc
  match x.pFiles fd.toNat with
  | none => return (.error .EBADF, s)
  | some f =>
    let y ← s.table.files f
    match ← lseekTarget s y offset whence with
    | none => return (.error .EINVAL, s)
    | some (pos, s) =>
      if pos < 0 then return (.error .EINVAL, s)
      return (.ok pos.toNat, s.setPos f y pos.toNat)

/-- `do_stat`: the `stat` operation under the vnode's mutex. -/
def doStat (s : Vfs) (path : String) : Option (Except Errno Nat × Vfs) := do
  if s.curproc.isNone then return (.error .ENOENT, s)
  let (_, x) ← s.proc
  match fs.namevResolve x.pCwd path with
  | .error e => return (.error e, s)
  | .ok v =>
    let s := s.vref v
    if !(s.vnodes v).vnOps.stat then return (.error .EBADF, ← s.vput v)
    let s ← s.vlock v
    let r := fs.stat v
    let s ← s.vunlock v
    return (r.map fun _ => 0, ← s.vput v)

/-- The file system calls, with their arguments. -/
inductive VfsCall
  | open_ (filename : String) (oflags : OFlags)
  | read (fd : Int) (len : Nat)
  | write (fd : Int) (len : Nat)
  | close (fd : Int)
  | dup (fd : Int)
  | dup2 (ofd nfd : Int)
  | mknod (path : String) (mode : VType) (devid : Nat)
  | mkdir (path : String)
  | rmdir (path : String)
  | unlink (path : String)
  | link (oldpath newpath : String)
  | rename (oldpath newpath : String)
  | chdir (path : String)
  | getdent (fd : Int)
  | lseek (fd offset whence : Int)
  | stat (path : String)

/-- One call by `curproc`, with `NAME_LEN` and `sizeof(dirent_t)`. -/
def vfsCall (direntSize : Nat) (s : Vfs) : VfsCall → Option (Except Errno Nat × Vfs)
  | .open_ filename oflags => doOpen K fs s filename oflags
  | .read fd len => doRead K fs s fd len
  | .write fd len => doWrite K fs s fd len
  | .close fd => doClose K s fd
  | .dup fd => doDup K s fd
  | .dup2 ofd nfd => doDup2 K s ofd nfd
  | .mknod path mode devid => doMknod fs s path mode devid
  | .mkdir path => doMkdir fs nameLen s path
  | .rmdir path => doRmdir fs nameLen s path
  | .unlink path => doUnlink fs nameLen s path
  | .link oldpath newpath => doLink fs nameLen s oldpath newpath
  | .rename oldpath newpath => doRename fs nameLen s oldpath newpath
  | .chdir path => doChdir fs s path
  | .getdent fd => doGetdent K fs direntSize s fd
  | .lseek fd offset whence => doLseek K s fd offset whence
  | .stat path => doStat fs s path

end Weenix
