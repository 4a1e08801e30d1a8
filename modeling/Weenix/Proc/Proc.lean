import Mathlib.Data.Nat.Find
import Weenix.Vm.Mobj
import Weenix.Fs.File

/-!
# Processes

The process table of `proc/proc.c`: `proc_list`, the pid counter `next_pid` of `_proc_getid`,
`proc_initproc`, and what `proc_create` touches besides: the parent's `p_children`, and the
reference counts of the open files and vnodes a new process inherits.

Processes live at slab addresses; the idle process is the static `idleproc`, at address `0`, which
the allocator never hands out. `fref`, `fput`, `vref` and `vput` belong to `fs/file.c` and
`fs/vnode.c`, which are not in the source tree; they are modelled from the spec ("reference
counted", "reaches 0 ⇒ destroyed exactly once"). A page table from `pt_create` is an allocation
that may fail; its contents are not modelled, nor is the address space (`vm/`).
-/

namespace Weenix

open Function

/-- `PID_IDLE`. -/
def pidIdle : Nat := 0

/-- `PID_INIT`: the spec reserves pid 1 for init. -/
def pidInit : Nat := 1

/-- The address of `idleproc`. -/
def idleAddr : Nat := 0

/-- `proc_state_t`. -/
inductive ProcState
  | running
  | dead
  deriving DecidableEq, Repr

/-- `proc_t`: pid, parent, children and threads (as addresses, in list order), state, exit
status, the descriptor table (`NFILES` slots, as file addresses) and the cwd vnode. -/
structure Proc where
  pPid : Nat
  pPproc : Option Nat
  pChildren : List Nat
  pThreads : List Nat
  pState : ProcState
  pStatus : Int
  pFiles : Nat → Option Nat
  pCwd : Option Nat

/-- The process table, the slab allocator it draws on, the open files and the vnode reference
counts. -/
structure ProcTable where
  procs : Nat → Option Proc
  procList : List Nat
  nextPid : Nat
  initproc : Option Nat
  slab : Slab
  files : Nat → Option File
  vrefs : Nat → Nat

namespace ProcTable

/-- Replace the process at `a`. -/
def setProc (t : ProcTable) (a : Nat) (p : Proc) : ProcTable :=
  { t with procs := update t.procs a (some p) }

@[simp] theorem setProc_procs (t : ProcTable) (a : Nat) (p : Proc) :
    (t.setProc a p).procs = update t.procs a (some p) := rfl
@[simp] theorem setProc_procList (t : ProcTable) (a : Nat) (p : Proc) :
    (t.setProc a p).procList = t.procList := rfl
@[simp] theorem setProc_nextPid (t : ProcTable) (a : Nat) (p : Proc) :
    (t.setProc a p).nextPid = t.nextPid := rfl
@[simp] theorem setProc_initproc (t : ProcTable) (a : Nat) (p : Proc) :
    (t.setProc a p).initproc = t.initproc := rfl
@[simp] theorem setProc_slab (t : ProcTable) (a : Nat) (p : Proc) :
    (t.setProc a p).slab = t.slab := rfl
@[simp] theorem setProc_files (t : ProcTable) (a : Nat) (p : Proc) :
    (t.setProc a p).files = t.files := rfl
@[simp] theorem setProc_vrefs (t : ProcTable) (a : Nat) (p : Proc) :
    (t.setProc a p).vrefs = t.vrefs := rfl

/-- The pid of the process at `a`, if there is one. -/
def pidAt (t : ProcTable) (a : Nat) : Option Nat := (t.procs a).map (·.pPid)

theorem pidAt_of_procs {t : ProcTable} {a : Nat} {x : Proc} (h : t.procs a = some x) :
    t.pidAt a = some x.pPid := by
  rw [pidAt, h]; rfl

/-- The pids of the processes on `proc_list`, in list order; `none` if the list holds a freed
process. -/
def pids (t : ProcTable) : Option (List Nat) := t.procList.mapM t.pidAt

@[simp] theorem pidAt_setProc (t : ProcTable) (a : Nat) (p : Proc) :
    (t.setProc a p).pidAt = update t.pidAt a (some p.pPid) := by
  funext b
  by_cases h : b = a
  · subst h; simp [pidAt]
  · simp [pidAt, h]

end ProcTable

/-! ## Pids -/

/-- `pid + 1 == PROC_MAX_COUNT ? 1 : pid + 1`. -/
def pidSucc (maxCount pid : Nat) : Nat := if pid + 1 = maxCount then 1 else pid + 1

/-- The `goto restart` loop of `_proc_getid`, with at most `fuel` passes over `proc_list`, which
holds the processes with pids `pids`. `pid` is the candidate. Returns the result and the new
`next_pid`. -/
def getidLoop (maxCount nextPid : Nat) (pids : List Nat) : Nat → Nat → Option (Int × Nat)
  | 0, _ => none
  | fuel + 1, pid =>
    if pid ∈ pids then
      let pid' := pidSucc maxCount pid
      if pid' = nextPid then some (-1, nextPid) else getidLoop maxCount nextPid pids fuel pid'
    else if pid = 0 then none
    else some (pid, pidSucc maxCount pid)

/-- `_proc_getid`: each pass tries a new pid, so `PROC_MAX_COUNT` passes are enough (see
`procGetid_spec`). -/
def procGetid (maxCount nextPid : Nat) (pids : List Nat) : Option (Int × Nat) :=
  getidLoop maxCount nextPid pids maxCount nextPid

/-- The `k`-th pid in cyclic order over `[1, PROC_MAX_COUNT)` from `next_pid`. -/
def cyclicPid (maxCount nextPid k : Nat) : Nat := (nextPid - 1 + k) % (maxCount - 1) + 1

section Getid

variable {maxCount nextPid : Nat} (hn1 : 1 ≤ nextPid) (hn : nextPid < maxCount)
include hn1 hn

theorem cyclicPid_zero : cyclicPid maxCount nextPid 0 = nextPid := by
  unfold cyclicPid; rw [Nat.add_zero, Nat.mod_eq_of_lt (by omega)]; omega

theorem cyclicPid_mem (k : Nat) :
    1 ≤ cyclicPid maxCount nextPid k ∧ cyclicPid maxCount nextPid k < maxCount := by
  unfold cyclicPid
  have := Nat.mod_lt (nextPid - 1 + k) (show 0 < maxCount - 1 by omega)
  omega

theorem pidSucc_cyclicPid (k : Nat) :
    pidSucc maxCount (cyclicPid maxCount nextPid k) = cyclicPid maxCount nextPid (k + 1) := by
  unfold pidSucc cyclicPid
  rw [show nextPid - 1 + (k + 1) = nextPid - 1 + k + 1 by omega]
  generalize nextPid - 1 + k = a
  have hlt := Nat.mod_lt a (show 0 < maxCount - 1 by omega)
  rcases Nat.lt_or_ge (a % (maxCount - 1) + 1) (maxCount - 1) with h | h
  · have : (a + 1) % (maxCount - 1) = a % (maxCount - 1) + 1 := by
      rw [Nat.add_mod, Nat.mod_eq_of_lt (show 1 < maxCount - 1 by omega), Nat.mod_eq_of_lt h]
    rw [if_neg (by omega), this]
  · have : (a + 1) % (maxCount - 1) = 0 := by
      rw [← Nat.mod_add_mod, show a % (maxCount - 1) + 1 = maxCount - 1 by omega, Nat.mod_self]
    rw [if_pos (by omega), this]

theorem cyclicPid_eq_start {j : Nat} (hj : 0 < j) (hjm : j ≤ maxCount - 1) :
    cyclicPid maxCount nextPid j = nextPid ↔ j = maxCount - 1 := by
  unfold cyclicPid
  by_cases h : nextPid - 1 + j < maxCount - 1
  · rw [Nat.mod_eq_of_lt h]; omega
  · rw [Nat.mod_eq_sub_mod (by omega), Nat.mod_eq_of_lt (by omega)]; omega

theorem cyclicPid_surj {p : Nat} (hp1 : 1 ≤ p) (hp : p < maxCount) :
    cyclicPid maxCount nextPid ((p + (maxCount - 1) - nextPid) % (maxCount - 1)) = p := by
  unfold cyclicPid
  rw [Nat.add_mod_mod,
    show nextPid - 1 + (p + (maxCount - 1) - nextPid) = p - 1 + (maxCount - 1) by omega,
    Nat.add_mod_right, Nat.mod_eq_of_lt (by omega)]
  omega

theorem getidLoop_cyclic (pids : List Nat) : ∀ f i, i < maxCount - 1 → maxCount - 1 ≤ i + f →
    (∀ k, i ≤ k → k < maxCount - 1 → cyclicPid maxCount nextPid k ∉ pids →
      (∀ j, i ≤ j → j < k → cyclicPid maxCount nextPid j ∈ pids) →
      getidLoop maxCount nextPid pids f (cyclicPid maxCount nextPid i) =
        some ((cyclicPid maxCount nextPid k : Int),
          pidSucc maxCount (cyclicPid maxCount nextPid k))) ∧
    ((∀ j, i ≤ j → j < maxCount - 1 → cyclicPid maxCount nextPid j ∈ pids) →
      getidLoop maxCount nextPid pids f (cyclicPid maxCount nextPid i) = some (-1, nextPid))
  | 0, i, hi, hf => absurd hf (by omega)
  | f + 1, i, hi, hf => by
    have hpos := (cyclicPid_mem hn1 hn i).1
    by_cases hp : cyclicPid maxCount nextPid i ∈ pids
    · have hstep : getidLoop maxCount nextPid pids (f + 1) (cyclicPid maxCount nextPid i) =
          if cyclicPid maxCount nextPid (i + 1) = nextPid then some (-1, nextPid)
          else getidLoop maxCount nextPid pids f (cyclicPid maxCount nextPid (i + 1)) := by
        simp only [getidLoop, if_pos hp, pidSucc_cyclicPid hn1 hn]
      rw [hstep]
      by_cases he : cyclicPid maxCount nextPid (i + 1) = nextPid
      · have hi1 : i + 1 = maxCount - 1 := (cyclicPid_eq_start hn1 hn (by omega) (by omega)).1 he
        rw [if_pos he]
        refine ⟨fun k hik hk hnk _ => ?_, fun _ => rfl⟩
        obtain rfl : k = i := by omega
        exact absurd hp hnk
      · have hi1 : i + 1 < maxCount - 1 := by
          have := mt (cyclicPid_eq_start hn1 hn (j := i + 1) (by omega) (by omega)).2 he
          omega
        rw [if_neg he]
        obtain ⟨ih₁, ih₂⟩ := getidLoop_cyclic pids f (i + 1) hi1 (by omega)
        refine ⟨fun k hik hk hnk hj => ?_, fun hall => ih₂ fun j hj hjk => hall j (by omega) hjk⟩
        have : k ≠ i := fun e => hnk (e ▸ hp)
        exact ih₁ k (by omega) hk hnk fun j hij hjk => hj j (by omega) hjk
    · have hstep : getidLoop maxCount nextPid pids (f + 1) (cyclicPid maxCount nextPid i) =
          some ((cyclicPid maxCount nextPid i : Int), pidSucc maxCount (cyclicPid maxCount nextPid i)) := by
        simp only [getidLoop, if_neg hp, if_neg (show cyclicPid maxCount nextPid i ≠ 0 by omega)]
      rw [hstep]
      refine ⟨fun k hik hk hnk hj => ?_, fun hall => absurd (hall i le_rfl hi) hp⟩
      obtain rfl : k = i := by
        by_contra e
        exact hp (hj i le_rfl (by omega))
      rfl

/-- `_proc_getid` returns `-1` when every pid is taken, and otherwise the first free pid in
cyclic order from `next_pid`, moving `next_pid` past it. -/
theorem procGetid_spec (pids : List Nat) :
    ((∀ p, 1 ≤ p → p < maxCount → p ∈ pids) →
      procGetid maxCount nextPid pids = some (-1, nextPid)) ∧
    ∀ k, k < maxCount - 1 → cyclicPid maxCount nextPid k ∉ pids →
      (∀ j < k, cyclicPid maxCount nextPid j ∈ pids) →
      procGetid maxCount nextPid pids =
        some ((cyclicPid maxCount nextPid k : Int), pidSucc maxCount (cyclicPid maxCount nextPid k)) := by
  have h := getidLoop_cyclic hn1 hn pids maxCount 0 (by omega) (by omega)
  rw [cyclicPid_zero hn1 hn] at h
  exact ⟨fun hall => h.2 fun j _ _ => hall _ (cyclicPid_mem hn1 hn j).1 (cyclicPid_mem hn1 hn j).2,
    fun k hk hnk hj => h.1 k (Nat.zero_le _) hk hnk fun j _ => hj j⟩

/-- When some pid is free, `_proc_getid` returns the first free one in cyclic order, and
`next_pid` becomes the pid after it. -/
theorem procGetid_first_free {pids : List Nat} (hall : ¬∀ p, 1 ≤ p → p < maxCount → p ∈ pids) :
    ∃ k, cyclicPid maxCount nextPid k ∉ pids ∧ procGetid maxCount nextPid pids =
      some ((cyclicPid maxCount nextPid k : Int), cyclicPid maxCount nextPid (k + 1)) := by
  obtain ⟨p, hp1, hp, hnp⟩ : ∃ p, 1 ≤ p ∧ p < maxCount ∧ p ∉ pids := by
    simpa using hall
  have hex : ∃ k, k < maxCount - 1 ∧ cyclicPid maxCount nextPid k ∉ pids :=
    ⟨_, Nat.mod_lt _ (by omega), (cyclicPid_surj hn1 hn hp1 hp).symm ▸ hnp⟩
  have hk := Nat.find_spec hex
  have hmin : ∀ j < Nat.find hex, cyclicPid maxCount nextPid j ∈ pids := fun j hj => by
    have := Nat.find_min hex hj
    simp only [not_and, not_not] at this
    exact this (by omega)
  refine ⟨_, hk.2, ?_⟩
  rw [(procGetid_spec hn1 hn pids).2 _ hk.1 hk.2 hmin, pidSucc_cyclicPid hn1 hn]

/-- `_proc_getid` terminates for every `proc_list`, and returns `-1` exactly when every pid is
taken. -/
theorem procGetid_total (pids : List Nat) :
    ∃ r, procGetid maxCount nextPid pids = some r ∧
      (r.1 = -1 ↔ ∀ p, 1 ≤ p → p < maxCount → p ∈ pids) := by
  by_cases hall : ∀ p, 1 ≤ p → p < maxCount → p ∈ pids
  · exact ⟨_, (procGetid_spec hn1 hn pids).1 hall, iff_of_true rfl hall⟩
  · obtain ⟨k, -, hk⟩ := procGetid_first_free hn1 hn hall
    refine ⟨_, hk, iff_of_false ?_ hall⟩
    have := (cyclicPid_mem hn1 hn k).1
    simp only
    omega

/-- A pid other than `-1` from `_proc_getid` is free, and so is in range, as is the new
`next_pid`. -/
theorem procGetid_fresh {pids : List Nat} {pid : Int} {n' : Nat}
    (h : procGetid maxCount nextPid pids = some (pid, n')) (hp : pid ≠ -1) :
    pid = pid.toNat ∧ pid.toNat ∉ pids ∧ 1 ≤ pid.toNat ∧ pid.toNat < maxCount ∧
      1 ≤ n' ∧ n' < maxCount := by
  by_cases hall : ∀ p, 1 ≤ p → p < maxCount → p ∈ pids
  · rw [(procGetid_spec hn1 hn pids).1 hall] at h
    cases h
    exact absurd rfl hp
  · obtain ⟨k, hk, hg⟩ := procGetid_first_free hn1 hn hall
    rw [hg, Option.some.injEq, Prod.mk.injEq] at h
    obtain ⟨rfl, rfl⟩ := h
    rw [Int.toNat_natCast]
    exact ⟨rfl, hk, (cyclicPid_mem hn1 hn k).1, (cyclicPid_mem hn1 hn k).2,
      cyclicPid_mem hn1 hn (k + 1)⟩

end Getid

/-! ## Reference counts -/

/-- Modelled from the spec: `fref` adds a reference to an open file. -/
def fileRef (t : ProcTable) (f : Nat) : Option ProcTable := do
  let x ← t.files f
  some { t with files := update t.files f (some { x with fRefcount := x.fRefcount + 1 }) }

/-- Modelled from the spec: `fput` drops a reference; the last one frees the file and hands its
vnode to the caller, who drops that reference with `vput`. -/
def filePut (t : ProcTable) (f : Nat) : Option (Option Nat × ProcTable) := do
  let x ← t.files f
  if x.fRefcount = 0 then none
  if x.fRefcount = 1 then some (some x.fVnode, { t with files := update t.files f none })
  else some (none, { t with files := update t.files f (some { x with fRefcount := x.fRefcount - 1 }) })

/-- Modelled from the spec: `vref`. -/
def vnodeRef (t : ProcTable) (v : Nat) : ProcTable :=
  { t with vrefs := update t.vrefs v (t.vrefs v + 1) }

/-- Modelled from the spec: the count update `vput` makes once it holds the vnode's mutex. -/
def vnodePutLocked (t : ProcTable) (v : Nat) : Option ProcTable :=
  if t.vrefs v = 0 then none else some { t with vrefs := update t.vrefs v (t.vrefs v - 1) }

/-- `fref` on every open descriptor among `fds`, in order. -/
def refFiles (files : Nat → Option Nat) : List Nat → ProcTable → Option ProcTable
  | [], t => some t
  | fd :: fds, t => match files fd with
    | none => refFiles files fds t
    | some f => do refFiles files fds (← fileRef t f)

theorem refFiles_eq {files : Nat → Option Nat} :
    ∀ {fds : List Nat} {t t' : ProcTable}, refFiles files fds t = some t' →
      t'.procs = t.procs ∧ t'.procList = t.procList ∧ t'.nextPid = t.nextPid ∧
        t'.slab = t.slab ∧ t'.initproc = t.initproc
  | [], _, _, h => by cases h; exact ⟨rfl, rfl, rfl, rfl, rfl⟩
  | fd :: fds, t, t', h => by
    simp only [refFiles] at h
    split at h
    · exact refFiles_eq h
    · simp only [Option.bind_eq_bind, Option.bind_eq_some, fileRef, Option.some.injEq] at h
      obtain ⟨_, ⟨x, -, rfl⟩, h⟩ := h
      have := refFiles_eq h
      exact this

/-! ## `proc_create` -/

variable (K : Consts)

/-- The new process of `proc_create`: its pid, its parent `cur`, no children or threads,
running, the parent's first `NFILES` descriptors and its cwd. -/
def newProc (pid cur : Nat) (parent : Proc) : Proc :=
  ⟨pid, some cur, [], [], .running, 0, fun i => if i < K.nfiles then parent.pFiles i else none,
    parent.pCwd⟩

/-- `get_empty_fd`: the lowest descriptor below `NFILES` whose slot is free. -/
def getEmptyFd (x : Proc) : Except Errno Nat :=
  match (List.range K.nfiles).find? fun fd => x.pFiles fd = none with
  | some fd => .ok fd
  | none => .error .EMFILE

/-- The VFS part of `proc_create`: a reference on the parent's cwd and on each of its open
files. -/
def inheritRefs (t : ProcTable) (parent : Proc) : Option ProcTable :=
  refFiles parent.pFiles (List.range K.nfiles) <| match parent.pCwd with
    | some v => vnodeRef t v
    | none => t

theorem inheritRefs_eq {t t' : ProcTable} {parent : Proc} (h : inheritRefs K t parent = some t') :
    t'.procs = t.procs ∧ t'.procList = t.procList ∧ t'.nextPid = t.nextPid ∧ t'.slab = t.slab ∧
      t'.initproc = t.initproc := by
  unfold inheritRefs at h
  split at h <;> exact (refFiles_eq h :)

/-- The end of `proc_create`: the new process at the tail of `proc_list` and of its parent's
`p_children`, and `proc_initproc` if its pid is `PID_INIT`. -/
def linkProc (t : ProcTable) (a cur : Nat) (p : Proc) : Option ProcTable := do
  let t := { t.setProc a p with procList := t.procList ++ [a] }
  let parent ← t.procs cur
  let t := t.setProc cur { parent with pChildren := parent.pChildren ++ [a] }
  return if p.pPid = pidInit then { t with initproc := some a } else t

theorem linkProc_eq {t t' : ProcTable} {a cur : Nat} {p : Proc} (h : linkProc t a cur p = some t') :
    ∃ x, update t.procs a (some p) cur = some x ∧ t'.procList = t.procList ++ [a] ∧
      t'.procs = update (update t.procs a (some p)) cur
        (some { x with pChildren := x.pChildren ++ [a] }) ∧
      t'.nextPid = t.nextPid ∧ t'.slab = t.slab ∧
      t'.initproc = if p.pPid = pidInit then some a else t.initproc := by
  simp only [linkProc, Option.bind_eq_bind, Option.bind_eq_some, pure, Option.some.injEq] at h
  obtain ⟨x, hx, rfl⟩ := h
  refine ⟨x, hx, ?_⟩
  split <;> simp

theorem pidAt_link {t t' : ProcTable} {a cur : Nat} {p y : Proc}
    (hy : update t.procs a (some p) cur = some y)
    (ht : t'.procs = update (update t.procs a (some p)) cur
      (some { y with pChildren := y.pChildren ++ [a] })) :
    t'.pidAt = update t.pidAt a (some p.pPid) := by
  have hnew : ∀ b, (update t.procs a (some p) b).map (·.pPid) = update t.pidAt a (some p.pPid) b :=
    fun b => by
      by_cases hba : b = a
      · subst hba; simp
      · simp [hba, ProcTable.pidAt]
  funext b
  rw [← hnew]
  by_cases hb : b = cur
  · subst hb; simp [ProcTable.pidAt, ht, hy]
  · simp [ProcTable.pidAt, ht, update_noteq hb]

/-- `proc_create`, called by the process at `cur`: a pid from `_proc_getid`, then the process
descriptor and a page table from the allocator (`NULL` if either fails, with the pid already
taken), the references of the VFS part, and the links. -/
def procCreate (t : ProcTable) (cur : Nat) : Option (Option Nat × ProcTable) := do
  let (pid, nextPid) ← procGetid K.procMaxCount t.nextPid (← t.pids)
  if pid = -1 then return (none, t)
  let t := { t with nextPid := nextPid }
  match t.slab.alloc with
  | (none, s) => return (none, { t with slab := s })
  | (some a, s) =>
    match s.alloc with
    | (none, s) => return (none, { t with slab := s })
    | (some _, s) => do
      let parent ← t.procs cur
      let t ← inheritRefs K { t with slab := s } parent
      let t ← linkProc t a cur (newProc K pid.toNat cur parent)
      return (some a, t)

/-- The three ends of `proc_create`: no pid; a pid and a failed allocation; or a new linked
process at the next slab address. -/
theorem procCreate_eq_some {t t' : ProcTable} {cur : Nat} {r : Option Nat}
    (h : procCreate K t cur = some (r, t')) :
    ∃ ps pid n', t.pids = some ps ∧ procGetid K.procMaxCount t.nextPid ps = some (pid, n') ∧
      (pid = -1 ∧ r = none ∧ t' = t ∨
       pid ≠ -1 ∧ t'.nextPid = n' ∧ t.slab.next < t'.slab.next ∧
        (r = none ∧ t'.procList = t.procList ∧ t'.procs = t.procs ∧ t'.initproc = t.initproc ∨
         ∃ x y, r = some t.slab.next ∧ t.procs cur = some x ∧
          update t.procs t.slab.next (some (newProc K pid.toNat cur x)) cur = some y ∧
          t'.procList = t.procList ++ [t.slab.next] ∧
          t'.procs = update (update t.procs t.slab.next (some (newProc K pid.toNat cur x))) cur
            (some { y with pChildren := y.pChildren ++ [t.slab.next] }) ∧
          t'.initproc = if pid.toNat = pidInit then some t.slab.next else t.initproc)) := by
  simp only [procCreate, Option.bind_eq_bind, Option.bind_eq_some] at h
  obtain ⟨ps, hps, ⟨pid, n'⟩, hg, h⟩ := h
  refine ⟨ps, pid, n', hps, hg, ?_⟩
  by_cases hp : pid = -1
  · simp only [hp, if_true, pure, Option.some.injEq, Prod.mk.injEq] at h
    exact .inl ⟨hp, h.1.symm, h.2.symm⟩
  refine .inr ⟨hp, ?_⟩
  simp only [hp, if_false, pure, Option.some_bind] at h
  rcases ha : t.slab.alloc with ⟨_ | a, s₁⟩
  · rw [ha] at h
    simp only [Option.some.injEq, Prod.mk.injEq] at h
    obtain ⟨rfl, rfl⟩ := h
    exact ⟨rfl, by simp [Slab.alloc_next ha], .inl ⟨rfl, rfl, rfl, rfl⟩⟩
  obtain ⟨rfl, hs₁⟩ := Slab.alloc_eq_some ha
  rw [ha] at h
  rcases hb : s₁.alloc with ⟨_ | b, s₂⟩
  · simp only [hb, Option.some.injEq, Prod.mk.injEq] at h
    obtain ⟨rfl, rfl⟩ := h
    exact ⟨rfl, by simp only [Slab.alloc_next hb, hs₁]; omega, .inl ⟨rfl, rfl, rfl, rfl⟩⟩
  obtain ⟨-, hs₂⟩ := Slab.alloc_eq_some hb
  simp only [hb, Option.bind_eq_some, Option.some.injEq, Prod.mk.injEq] at h
  obtain ⟨x, hx, t₁, h₁, t₂, h₂, rfl, rfl⟩ := h
  obtain ⟨hp₁, hl₁, hn₁, hs₁', hi₁⟩ := inheritRefs_eq K h₁
  obtain ⟨y, hy, hl₂, hp₂, hn₂, hs₂', hi₂⟩ := linkProc_eq h₂
  rw [hp₁] at hy hp₂
  refine ⟨hn₂.trans hn₁, by rw [hs₂', hs₁']; simp only; omega, .inr ⟨x, y, rfl, hx, hy,
    hl₂.trans (by rw [hl₁]), hp₂, hi₂.trans (by rw [hi₁]; rfl)⟩⟩

/-- Unlink a process from `proc_list` (the first step of `proc_destroy`). -/
def procUnlist (t : ProcTable) (a : Nat) : ProcTable :=
  { t with procList := t.procList.erase a }

/-- `slab_obj_free` of a process descriptor (the last step of `proc_destroy`). -/
def procFree (t : ProcTable) (a : Nat) : ProcTable :=
  { t with procs := update t.procs a none }

@[simp] theorem procFree_pidAt (t : ProcTable) (a : Nat) :
    (procFree t a).pidAt = update t.pidAt a none := by
  funext b
  by_cases h : b = a
  · subst h; simp [procFree, ProcTable.pidAt]
  · simp [procFree, ProcTable.pidAt, h]

end Weenix
