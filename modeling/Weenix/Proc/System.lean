import Weenix.Proc.Proc
import Weenix.Proc.Sched

/-!
# Processes, threads and the scheduler together

The process calls of `proc/proc.c`, `proc/kthread.c` and `do_fork`, and `do_open` and `do_read`
of `fs/open.c`, as steps of the current thread, over the process table and the scheduler state.
A call runs without interruption until it returns or sleeps (the kernel is not preemptive); a
thread that sleeps inside a call records where it is (`Pc`) and continues from there once it is
dispatched again (`ProcOp.resume`).

Calls that sleep:
- `do_waitpid` sleeps on the caller's `p_wait` until a child is dead;
- `vlock` sleeps on the vnode's mutex while another thread holds it, and `kmutex_unlock` hands
  the mutex to the thread it wakes. `vput` takes the mutex to drop the count, in `proc_cleanup`,
  `proc_destroy`, `do_open` and the last `fput` of `do_read`; `do_open` holds it around
  `truncate_file`, `do_read` around the read operation;
- the read operation of a character device sleeps on the device's queue, still holding the
  vnode's mutex, until the device's interrupt wakes it, as a terminal with no complete line does
  (`ldisc_wait_read`); input already waiting is not modelled.

Path resolution and the read operation's answer come from the oracle `Fs`, and the vnodes'
attributes are fixed, as in `Weenix.Fs.Vfs`. `kthread_clone` is the unimplemented stub of the
source and returns `NULL`.
-/

namespace Weenix

open Function

/-! ## Queue addresses -/

/-- `kt_runq`. -/
def runqAddr : Nat := 0

/-- The `p_wait` queue of the process at `p`. -/
def pWaitAddr (p : Nat) : Nat := 3 * p + 1

/-- The wait queue of the mutex of the vnode at `v`. -/
def vnodeWaitAddr (v : Nat) : Nat := 3 * v + 2

/-- The wait queue of the device behind the vnode at `v`. -/
def deviceWaitAddr (v : Nat) : Nat := 3 * v + 3

/-! ## State -/

/-- What a thread blocked in `vput` does once it has the mutex: the rest of `proc_cleanup`, or
the rest of `proc_destroy`. -/
inductive AfterRelease
  | cleanup
  | destroy
  deriving DecidableEq, Repr

/-- Where a thread is in the modelled code. -/
inductive Pc
  /-- Not inside a modelled call. -/
  | run
  /-- `do_waitpid(pid > 0)`, asleep until the child at `c` is dead. -/
  | waitChild (c : Nat)
  /-- `do_waitpid(-1)`, asleep until some child is dead. -/
  | waitAny
  /-- Blocked in `vlock(v)` while releasing slot `fd` of the process at `p` (`NFILES`: its cwd). -/
  | release (p fd v : Nat) (after : AfterRelease)
  /-- Blocked in `vlock(v)` in the `vput` that ends a call: `do_open`'s, or that of the last
  `fput` of `do_read`. -/
  | vput (v : Nat)
  /-- Blocked in `do_open`'s `vlock(v)` before `truncate_file`, for descriptor `fd`. -/
  | openTrunc (fd v : Nat) (oflags : OFlags)
  /-- Blocked in `do_read`'s `vlock(v)`, reading `len` bytes through the file at `f`. -/
  | readLock (f v len : Nat)
  /-- Inside the read operation of the character device vnode `v`, holding its mutex, asleep on
  the device: a read of `len` bytes at position `pos` of the file at `f`. -/
  | vop (f v pos len : Nat)
  deriving DecidableEq, Repr

/-- The system: the process table, the scheduler, each thread's place in the code, the holder of
each vnode mutex, whether `initproc_finish` has halted the machine, the vnodes' attributes and
the file system's answers. -/
structure ProcSys where
  table : ProcTable
  sched : Sched
  pc : Nat → Pc
  holder : Nat → Option Nat
  halted : Bool
  vnodes : Nat → Vnode
  fs : Fs

namespace ProcSys

/-- `curproc`: the process of `curthr`, or `idleproc` while the core idles. -/
def curproc (s : ProcSys) : Nat :=
  match s.sched.curthr.bind s.sched.threads with
  | some x => x.ktProc
  | none => idleAddr

/-- Replace the process at `a`. -/
def setProc (s : ProcSys) (a : Nat) (p : Proc) : ProcSys := { s with table := s.table.setProc a p }

/-- Set the place of thread `t`. -/
def setPc (s : ProcSys) (t : Nat) (c : Pc) : ProcSys := { s with pc := update s.pc t c }

@[simp] theorem setProc_table (s : ProcSys) (a : Nat) (p : Proc) :
    (s.setProc a p).table = s.table.setProc a p := rfl
@[simp] theorem setProc_pc (s : ProcSys) (a : Nat) (p : Proc) : (s.setProc a p).pc = s.pc := rfl
@[simp] theorem setPc_table (s : ProcSys) (t : Nat) (c : Pc) : (s.setPc t c).table = s.table := rfl
@[simp] theorem setPc_pc (s : ProcSys) (t : Nat) (c : Pc) :
    (s.setPc t c).pc = update s.pc t c := rfl

end ProcSys

/-! ## Vnode mutexes -/

/-- `vlock`, by thread `t`: take the free mutex (`true`), or sleep on it (`false`).
`KASSERT(curthr != mtx->km_holder)`. -/
def vlock (s : ProcSys) (t v : Nat) : Option (Bool × ProcSys) :=
  match s.holder v with
  | none => some (true, { s with holder := update s.holder v (some t) })
  | some h => if h = t then none else do
    some (false, { s with sched := ← schedSleepOn s.sched (vnodeWaitAddr v) })

/-- `vunlock`, by its holder `t`: hand the mutex to the thread `sched_wakeup_on` wakes, if any. -/
def vunlock (s : ProcSys) (t v : Nat) : Option ProcSys := do
  if s.holder v ≠ some t then none
  let (w, sched) ← schedWakeupOn s.sched (vnodeWaitAddr v)
  some { s with sched := sched, holder := update s.holder v w }

/-! ## Releasing descriptors and the cwd -/

variable (K : Consts)

/-- Clear slot `fd` of the process at `p` (`NFILES`: its cwd) and return the vnode whose
reference must then be dropped by `vput`: the file's, if `fput` dropped its last reference, or
the cwd. -/
def releaseSlot (s : ProcSys) (p fd : Nat) : Option (Option Nat × ProcSys) := do
  let x ← s.table.procs p
  if fd < K.nfiles then
    match x.pFiles fd with
    | none => some (none, s)
    | some f => do
      let (vn, table) ← filePut s.table f
      some (vn, { s with table := table }.setProc p { x with pFiles := update x.pFiles fd none })
  else
    match x.pCwd with
    | none => some (none, s)
    | some v => some (some v, s.setProc p { x with pCwd := none })

/-- The release loop shared by `proc_cleanup` and `proc_destroy`, run by thread `t` over the
slots of the process at `p` from `fd`, at most `n` of them: `fput` every open file, then `vput`
the cwd. Each `vput` locks the vnode; if the mutex is held the thread sleeps, recording where it
is. Returns whether the loop finished. -/
def releaseLoop (after : AfterRelease) (t p : Nat) : Nat → Nat → ProcSys → Option (Bool × ProcSys)
  | 0, _, s => some (true, s)
  | n + 1, fd, s => do
    let (vn, s) ← releaseSlot K s p fd
    match vn with
    | none => releaseLoop after t p n (fd + 1) s
    | some v => do
      let (got, s) ← vlock s t v
      if got then
        let s ← vunlock { s with table := ← vnodePutLocked s.table v } t v
        releaseLoop after t p n (fd + 1) s
      else some (false, s.setPc t (.release p fd v after))

/-! ## Threads -/

/-- `kthread_destroy`: `KASSERT(thr != curthr)`, `panic` unless the thread is `KT_EXITED`, then
unlink it from its process's `p_threads` and free it. -/
def kthreadDestroy (s : ProcSys) (th : Nat) : Option ProcSys := do
  if s.sched.curthr = some th then none
  let x ← s.sched.threads th
  if x.ktState ≠ .exited then none
  let s := match s.table.procs x.ktProc with
    | some p => s.setProc x.ktProc { p with pThreads := p.pThreads.erase th }
    | none => s
  some { s with sched := { s.sched with threads := update s.sched.threads th none } }

/-- `kthread_destroy` of each thread in `ths`, in order. -/
def kthreadDestroyAll : List Nat → ProcSys → Option ProcSys
  | [], s => some s
  | th :: ths, s => do kthreadDestroyAll ths (← kthreadDestroy s th)

/-! ## `proc_destroy` and `proc_cleanup` -/

/-- `proc_destroy` of the process at `c`, by thread `t`: unlink it from `proc_list`, destroy its
threads, release its descriptors and cwd, free it. If a `vput` sleeps, the rest happens when
the thread resumes. -/
def procDestroy (s : ProcSys) (t c : Nat) : Option ProcSys := do
  let s := { s with table := procUnlist s.table c }
  let x ← s.table.procs c
  let s ← kthreadDestroyAll x.pThreads s
  let (done, s) ← releaseLoop K .destroy t c (K.nfiles + 1) 0 s
  if done then some { s with table := procFree s.table c } else some s

/-- The end of `proc_cleanup` and of `proc_thread_exiting` for the process at `p`: `init` halts
the machine (`initproc_finish`); any other process hands its children to `proc_initproc`,
broadcasts on its parent's `p_wait`, and its thread exits with the process status. -/
def cleanupFinish (s : ProcSys) (p : Nat) : Option ProcSys := do
  let x ← s.table.procs p
  if x.pPid = pidInit then return { s with halted := true }
  let reparent (s : ProcSys) (c : Nat) : Option ProcSys := do
    let y ← s.table.procs c
    let s := s.setProc c { y with pPproc := s.table.initproc }
    match s.table.initproc with
    | some i => do
      let z ← s.table.procs i
      some (s.setProc i { z with pChildren := z.pChildren ++ [c] })
    | none => some s
  let s ← x.pChildren.foldlM reparent (s.setProc p { x with pChildren := [] })
  let sched ← match x.pPproc with
    | some pp => schedBroadcastOn s.sched (pWaitAddr pp)
    | none => some s.sched
  some { s with sched := ← threadExit sched x.pStatus }

/-! ## `do_waitpid` -/

/-- Reap the child at `c` of the process at `p`: unlink it from `p_children`, `proc_destroy`. -/
def reap (s : ProcSys) (t p c : Nat) : Option ProcSys := do
  let x ← s.table.procs p
  procDestroy K (s.setProc p { x with pChildren := x.pChildren.erase c }) t c

/-- The loop of `do_waitpid(pid > 0)` for the child at `c`: reap it if dead, else sleep. -/
def waitChildStep (s : ProcSys) (t p c : Nat) : Option ProcSys := do
  let y ← s.table.procs c
  if y.pState = .dead then reap K (s.setPc t .run) t p c
  else some { s.setPc t (.waitChild c) with sched := ← schedSleepOn s.sched (pWaitAddr p) }

/-- The loop of `do_waitpid(-1)`: reap the first dead child, else sleep. -/
def waitAnyStep (s : ProcSys) (t p : Nat) : Option ProcSys := do
  let x ← s.table.procs p
  let dead ← x.pChildren.findM? fun c => (s.table.procs c).map (·.pState = .dead)
  match dead with
  | some c => reap K (s.setPc t .run) t p c
  | none => some { s.setPc t .waitAny with sched := ← schedSleepOn s.sched (pWaitAddr p) }

/-- `do_waitpid(pid, status, 0)` by thread `t` of the process at `p`: `-ENOTSUP` for `0` and
pids below `-1`, `-ECHILD` without a matching child, else the loops above. -/
def doWaitpid (s : ProcSys) (t p : Nat) (pid : Int) : Option ProcSys := do
  if pid = 0 ∨ pid < -1 then return s
  let x ← s.table.procs p
  if 0 < pid then
    let child ← x.pChildren.findM? fun c => (s.table.procs c).map (·.pPid = pid.toNat)
    match child with
    | none => some s
    | some c => waitChildStep K s t p c
  else if x.pChildren = [] then some s
  else waitAnyStep K s t p

/-! ## `do_open` and `do_read` -/

/-- `vput(v)` by thread `t` as the last act of its call: lock the vnode, drop the count, unlock;
if the mutex is held, the thread sleeps and does the rest when it resumes. -/
def vputLast (s : ProcSys) (t v : Nat) : Option ProcSys := do
  let (got, s) ← vlock s t v
  if got then vunlock { s with table := ← vnodePutLocked s.table v } t v
  else some (s.setPc t (.vput v))

/-- `fput` by thread `t` as the last act of its call; the last reference frees the file, whose
vnode is then put. -/
def fputLast (s : ProcSys) (t f : Nat) : Option ProcSys := do
  let (vn, table) ← filePut s.table f
  match vn with
  | some v => vputLast { s with table := table } t v
  | none => some { s with table := table }

/-- `fcreate` and the end of `do_open`, by thread `t` of the process at `p`, for descriptor `fd`
and the vnode `v` that `namev_open` returned: a new file with one reference and its own
reference on `v`, installed in the slot, or `NULL` (`-ENOMEM`) if the allocation fails; then
`vput(v)`. -/
def openCreate (s : ProcSys) (t p fd v : Nat) (oflags : OFlags) : Option ProcSys :=
  match s.table.slab.alloc with
  | (none, sl) => vputLast { s with table := { s.table with slab := sl } } t v
  | (some f, sl) => do
    let x ← s.table.procs p
    let file : File := ⟨v, oflags.fmode, 0, 1⟩
    let table := vnodeRef { s.table with slab := sl, files := update s.table.files f (some file) } v
    vputLast ({ s with table := table }.setProc p { x with pFiles := update x.pFiles fd (some f) })
      t v

/-- `do_open(filename, oflags)` by thread `t` of the process at `p`: `Weenix.doOpen` with
mutexes that block. `-EINVAL` for `O_WRONLY | O_RDWR`; `get_empty_fd`; `namev_open` from the
cwd; a directory opened for writing (`-EISDIR`) or a device vnode with no device (`-ENXIO`) is
put back; `O_TRUNC` of a regular file truncates it under the vnode's mutex; then `fcreate`. -/
def ProcSys.doOpen (s : ProcSys) (t p : Nat) (filename : String) (oflags : OFlags) :
    Option ProcSys :=
  if oflags.oWronly ∧ oflags.oRdwr then some s else do
  let x ← s.table.procs p
  match getEmptyFd K x with
  | .error _ => some s
  | .ok fd =>
    match s.fs.namevOpen x.pCwd filename oflags .reg 0 with
    | .error _ => some s
    | .ok v =>
      let s := { s with table := vnodeRef s.table v }
      let vn := s.vnodes v
      if vn.vnMode = .dir ∧ (oflags.oWronly ∨ oflags.oRdwr) then vputLast s t v
      else if (vn.vnMode = .chr ∨ vn.vnMode = .blk) ∧ !vn.vnDev then vputLast s t v
      else if oflags.oTrunc ∧ vn.vnMode = .reg ∧ oflags.fmode.fmodeWrite ∧ vn.vnOps.truncateFile
      then do
        let (got, s) ← vlock s t v
        if got then openCreate (← vunlock s t v) t p fd v oflags
        else some (s.setPc t (.openTrunc fd v oflags))
      else openCreate s t p fd v oflags

/-- `f_pos += result` for the file `x` at `f`, once the operation has answered `r`, if that is a
positive count. -/
def ProcSys.advancePos (s : ProcSys) (f : Nat) (x : File) (r : Except Errno Nat) : ProcSys :=
  match r with
  | .ok n =>
    if 0 < n then
      { s with table := { s.table with files := update s.table.files f (some { x with fPos := x.fPos + n }) } }
    else s
  | .error _ => s

/-- The end of `do_read` by thread `t`, once the read operation of vnode `v` through the file at
`f` has answered `r`: the position advances, then `vunlock` and `fput`. -/
def readDone (s : ProcSys) (t f v : Nat) (r : Except Errno Nat) : Option ProcSys := do
  let x ← s.table.files f
  fputLast (← vunlock (s.advancePos f x r) t v) t f

/-- The read operation of vnode `v` through the file at `f`, by thread `t` holding `v`'s mutex:
a character device sleeps on its queue, cancellably, until its interrupt; any other vnode
answers at once. -/
def readOp (s : ProcSys) (t f v len : Nat) : Option ProcSys := do
  let x ← s.table.files f
  if (s.vnodes v).vnMode = .chr then
    some { s.setPc t (.vop f v x.fPos len) with
      sched := ← schedCancellableSleepOn s.sched (deviceWaitAddr v) }
  else readDone s t f v (s.fs.read v x.fPos len)

/-- `do_read(fd, buf, len)` by thread `t` of the process at `p`: `Weenix.doRead` with mutexes
that block. `-EBADF` for a descriptor out of range or closed; `fget`; a file not open for
reading (`-EBADF`), a directory (`-EISDIR`) or a vnode with no read operation (`-EBADF`) is put
back before any lock; otherwise the read operation under the vnode's mutex. -/
def ProcSys.doRead (s : ProcSys) (t p : Nat) (fd : Int) (len : Nat) : Option ProcSys :=
  if fd < 0 ∨ K.nfiles ≤ fd then some s else do
  let x ← s.table.procs p
  match x.pFiles fd.toNat with
  | none => some s
  | some f => do
    let s := { s with table := ← fileRef s.table f }
    let y ← s.table.files f
    let vn := s.vnodes y.fVnode
    if !y.fMode.fmodeRead then fputLast s t f
    else if vn.vnMode = .dir then fputLast s t f
    else if !vn.vnOps.read then fputLast s t f
    else do
      let (got, s) ← vlock s t y.fVnode
      if got then readOp s t f y.fVnode len else some (s.setPc t (.readLock f y.fVnode len))

/-- Thread `t` continues where it slept in `do_open` or `do_read`. A character device read that
was cancelled answers `-EINTR`. -/
def resumeFileCall (s : ProcSys) (t : Nat) : Pc → Option ProcSys
  | .vput v => do vunlock { s.setPc t .run with table := ← vnodePutLocked s.table v } t v
  | .openTrunc fd v oflags => do
    openCreate (← vunlock (s.setPc t .run) t v) t s.curproc fd v oflags
  | .readLock f v len => readOp (s.setPc t .run) t f v len
  | .vop f v pos len => do
    let x ← s.sched.threads t
    readDone (s.setPc t .run) t f v (if x.ktCancelled then .error .EINTR else s.fs.read v pos len)
  | _ => none

/-! ## Operations -/

/-- The steps of the system. `spawn` is `proc_create`, `kthread_create` and
`sched_make_runnable` of the new thread, as `initproc_start` (from the boot context) and the
kshell loop of `initproc_run` do; `exit` is `do_exit`; `open_` and `read` are `do_open` and
`do_read`; `resume` continues the current thread where it slept; `interrupt v` is the interrupt
handler of the device behind vnode `v` waking a reader. -/
inductive ProcOp
  | dispatch
  | spawn
  | fork
  | exit (status : Int)
  | waitpid (pid : Int)
  | yield
  | open_ (filename : String) (oflags : OFlags)
  | read (fd : Int) (len : Nat)
  | resume
  | interrupt (v : Nat)
  deriving DecidableEq, Repr

/-- `proc_create`, `kthread_create` and `sched_make_runnable` by the process at `cur`. A failure
crashes the caller: `initproc_start` asserts success and the kshell loop does not check. -/
def spawn (s : ProcSys) (cur : Nat) : Option ProcSys := do
  let (some a, table) ← procCreate K s.table cur | none
  let (some th, slab) := table.slab.alloc | none
  let x ← table.procs a
  let s := { s with table := { table with slab := slab } }.setProc a
    { x with pThreads := x.pThreads ++ [th] }
  let s := { s.setPc th .run with sched := kthreadCreate s.sched th a }
  some { s with sched := ← schedMakeRunnable s.sched th }

/-- `do_fork` by thread `t` of the process at `p`: `proc_create`, then `kthread_clone`, which
returns `NULL`, so `proc_destroy` of the new process and `-ENOMEM`. -/
def doFork (s : ProcSys) (t p : Nat) : Option ProcSys := do
  let (c, table) ← procCreate K s.table p
  let s := { s with table := table }
  match c with
  | none => some s
  | some c => procDestroy K s t c

/-- `do_exit` by thread `t` of the process at `p`: `proc_cleanup` marks the process dead with
the status and releases its descriptors and cwd; then `cleanupFinish`. -/
def doExit (s : ProcSys) (t p : Nat) (status : Int) : Option ProcSys := do
  let x ← s.table.procs p
  let s := s.setProc p { x with pState := .dead, pStatus := status }
  let (done, s) ← releaseLoop K .cleanup t p (K.nfiles + 1) 0 s
  if done then cleanupFinish s p else some s

/-- The current thread `t` continues where it slept. -/
def resume (s : ProcSys) (t : Nat) : Option ProcSys :=
  match s.pc t with
  | .run => none
  | .waitChild c => waitChildStep K s t s.curproc c
  | .waitAny => waitAnyStep K s t s.curproc
  | .release p fd v after => do
    let s := s.setPc t .run
    let s ← vunlock { s with table := ← vnodePutLocked s.table v } t v
    let (done, s) ← releaseLoop K after t p (K.nfiles - fd) (fd + 1) s
    if !done then return s
    match after with
    | .cleanup => cleanupFinish s p
    | .destroy => some { s with table := procFree s.table p }
  | c => resumeFileCall s t c

/-- One step. A thread's call needs the thread to be running and not inside another call. -/
def procStep (s : ProcSys) : ProcOp → Option ProcSys
  | .dispatch => do some { s with sched := ← coreSwitchDispatch s.sched }
  | .spawn => spawn K s s.curproc
  | .fork => s.sched.curthr.bind fun t => doFork K s t s.curproc
  | .exit status => s.sched.curthr.bind fun t => doExit K s t s.curproc status
  | .waitpid pid => s.sched.curthr.bind fun t => doWaitpid K s t s.curproc pid
  | .yield => do some { s with sched := ← schedYield s.sched }
  | .open_ filename oflags => s.sched.curthr.bind fun t => ProcSys.doOpen K s t s.curproc filename oflags
  | .read fd len => s.sched.curthr.bind fun t => ProcSys.doRead K s t s.curproc fd len
  | .resume => s.sched.curthr.bind fun t => resume K s t
  | .interrupt v => do
    let (_, sched) ← schedWakeupOn s.sched (deviceWaitAddr v)
    some { s with sched := sched }

/-- When a step can be taken: not after the machine halted; the core dispatches only when no
thread runs; the boot context spawns `init` before any thread exists; a thread makes a call only
from outside any other call, and resumes only from inside one. -/
def ProcOp.enabled (s : ProcSys) : ProcOp → Bool
  | .dispatch => !s.halted && s.sched.curthr.isNone
  | .spawn => !s.halted && (s.sched.curthr.isNone && s.table.procList.isEmpty ||
      s.sched.curthr.any fun t => s.pc t == .run)
  | .resume => !s.halted && s.sched.curthr.any fun t => s.pc t != .run
  | .interrupt _ => !s.halted
  | _ => !s.halted && s.sched.curthr.any fun t => s.pc t == .run

/-- The machine after boot: the idle process, whose cwd is the root vnode `root` with one
reference, no other process, no thread, the file system `fs` with vnodes `vnodes`. Allocation
attempts fail where `oom` says. -/
def ProcSys.boot (root : Nat) (vnodes : Nat → Vnode) (fs : Fs) (oom : Nat → Bool) : ProcSys where
  table := ⟨update (fun _ => none) idleAddr
      (some ⟨pidIdle, none, [], [], .running, 0, fun _ => none, some root⟩),
    [], 1, none, ⟨1, oom⟩, fun _ => none, update (fun _ => 0) root 1⟩
  sched := Sched.init runqAddr
  pc := fun _ => .run
  holder := fun _ => none
  halted := false
  vnodes := vnodes
  fs := fs

/-- The states reachable from boot. -/
inductive ProcReachable : ProcSys → Prop
  | boot (root : Nat) (vnodes : Nat → Vnode) (fs : Fs) (oom : Nat → Bool) :
      ProcReachable (ProcSys.boot root vnodes fs oom)
  | step {s s' : ProcSys} (op : ProcOp) :
      ProcReachable s → op.enabled s = true → procStep K s op = some s' → ProcReachable s'

/-- Replay a list of steps, each of which must be enabled. -/
def procRun : ProcSys → List ProcOp → Option ProcSys
  | s, [] => some s
  | s, op :: ops => if op.enabled s then (procStep K s op).bind (procRun · ops) else none

theorem ProcReachable.run {s s' : ProcSys} (h : ProcReachable K s) (ops : List ProcOp)
    (hr : procRun K s ops = some s') : ProcReachable K s' := by
  induction ops generalizing s with
  | nil => cases hr; exact h
  | cons op ops ih =>
    simp only [procRun] at hr
    split at hr
    · obtain ⟨s₁, h₁, hr⟩ := Option.bind_eq_some.1 hr
      exact ih (.step op h ‹_› h₁) hr
    · cases hr

/-! ## A file system to run on -/

/-- A directory with the directory operations. -/
def rootVnode : Vnode :=
  ⟨.dir, 0, false, ⟨false, false, true, true, true, true, true, true, true, false, false⟩, 0⟩

/-- A terminal: a character device vnode with its device, and read and write operations. -/
def ttyVnode : Vnode :=
  ⟨.chr, 0, true, ⟨true, true, false, false, false, false, false, false, true, false, false⟩, 0⟩

/-- The root directory at every address but `50`, where the terminal is. -/
def sampleVnodes (v : Nat) : Vnode := if v = 50 then ttyVnode else rootVnode

/-- A file system whose only name is `tty`, the terminal; a read answers with the count asked
for. -/
def sampleFs : Fs where
  namevResolve _ _ := .error .ENOENT
  namevDir _ _ := .error .ENOENT
  namevOpen _ name _ _ _ := if name = "tty" then .ok 50 else .error .ENOENT
  namevLookup _ _ := .error .ENOENT
  read _ _ len := .ok len
  write _ _ len := .ok len
  mkdir _ _ := .error .ENOTSUP
  rmdir _ _ := .error .ENOTSUP
  unlink _ _ := .error .ENOTSUP
  link _ _ _ := .error .ENOTSUP
  rename _ _ _ _ := .error .ENOTSUP
  readdir _ _ := .error .ENOTSUP
  stat _ := .ok ()

/-- `do_waitpid` can reap a child that is dead but still inside `proc_cleanup`. `init` spawns a
reader `K` and a child `C`. `C` opens the terminal; `K` opens it too and reads, and sleeps in the
terminal's read operation holding the vnode's mutex. `C` exits: its `fput` drops the file's last
reference and the `vput` of the terminal sleeps on the mutex, `C` already `PROC_DEAD`. `init`
waits for any child, finds `C` dead, and `kthread_destroy` of `C`'s sleeping thread panics. -/
theorem waitpid_reaps_child_asleep_in_cleanup :
    ∃ s, ProcReachable sampleConsts s ∧ s.curproc = 1 ∧
      (s.table.procs 1).map (·.pChildren) = some [4, 7] ∧
      (s.table.procs 4).map (·.pState) = some .running ∧
      (s.table.procs 7).map (·.pState) = some .dead ∧
      (s.table.procs 7).map (·.pThreads) = some [9] ∧
      (s.vnodes 50).vnMode = .chr ∧ s.holder 50 = some 6 ∧ s.pc 6 = .vop 11 50 0 1 ∧
      s.pc 9 = .release 7 0 50 .cleanup ∧ (s.sched.threads 9).map (·.ktState) = some .sleep ∧
      kthreadDestroy s 9 = none ∧
      procStep sampleConsts s (.waitpid (-1)) = none :=
  -- the kernel runs the steps, and evaluates each fact on the state they end in
  ⟨_, (ProcReachable.boot 100 sampleVnodes sampleFs fun _ => false).run sampleConsts _
    (Option.some_get (by decide! : (procRun sampleConsts
      (ProcSys.boot 100 sampleVnodes sampleFs fun _ => false)
      [.spawn, .dispatch, .spawn, .spawn, .yield, .dispatch, .yield, .dispatch, .open_ "tty" .rdonly,
        .yield, .dispatch, .yield, .dispatch, .open_ "tty" .rdonly, .read 0 1, .dispatch, .exit 7,
        .dispatch]).isSome)).symm, by decide!, by decide!, by decide!, by decide!, by decide!,
    by decide!, by decide!, by decide!, by decide!, by decide!, Option.isNone_iff_eq_none.1 (by decide!),
    Option.isNone_iff_eq_none.1 (by decide!)⟩

/-- A fork by `init` creates the child, fails at `kthread_clone`, and destroys the child, which
leaves `proc_list` and is freed but stays on `init`'s `p_children`. -/
theorem fork_leaves_freed_child :
    ∃ s, ProcReachable sampleConsts s ∧ (s.table.procs 1).map (·.pChildren) = some [4] ∧
      s.table.procList = [1] ∧ s.table.procs 4 = none :=
  ⟨_, (ProcReachable.boot 100 sampleVnodes sampleFs fun _ => false).run sampleConsts
    [.spawn, .dispatch, .fork] rfl,
    rfl, rfl, rfl⟩

end Weenix
