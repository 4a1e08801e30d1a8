import Mathlib.Logic.Relation
import Weenix.Proc.Pids
import Weenix.Proc.SchedInv

/-!
# The scheduler under the process calls

`Weenix.Proc.SchedInv` proves the scheduler invariant over any sequence of scheduler calls whose
callers keep the scheduler's contract (`SchedOp.Enabled`). This module shows that the process
calls of `Weenix.Proc.System` keep that contract, so the invariant holds in every state the whole
system reaches from boot, over every interleaving of `spawn`, `do_fork`, `do_exit`,
`do_waitpid`, `do_open`, `do_read`, interrupts, dispatches and resumptions.

1. Each process call changes the scheduler by scheduler calls its callers may make, and by
   `kthread_destroy`'s removal of an exited thread that is not running (`SchedMove`): a new
   thread gets an address the allocator has just handed out, every sleep and wake-up is on a
   `p_wait`, vnode or device queue, never on `kt_runq`, and the core dispatches only between
   threads.
2. A removal keeps the scheduler invariant (`SchedInv.destroy`); so does every move
   (`SchedMove.inv`), no move but a creation gives an address a thread (`SchedMove.fresh`), and
   no move leaves a sleeping thread off every queue (`SchedMove.sleepQueued`).
3. So every reachable state of the system satisfies the scheduler invariant
   (`ProcReachable.sysSchedInv`).
-/

namespace Weenix

open Function Relation

/-! ## What a scheduler call touches -/

/-- `s'` has the run queue of `s`, no thread at an address where `s` has none, and every thread
of `s`, still with its process. -/
structure Sched.Within (s s' : Sched) : Prop where
  runq : s'.runq = s.runq
  none_kept : ∀ a, s.threads a = none → s'.threads a = none
  proc_kept : ∀ a x, s.threads a = some x → ∃ y, s'.threads a = some y ∧ y.ktProc = x.ktProc

namespace Sched.Within

variable {s s' s'' : Sched} {t : Nat} {x : Kthread}

theorem refl (s : Sched) : s.Within s := ⟨rfl, fun _ h => h, fun _ x h => ⟨x, h, rfl⟩⟩

theorem trans (h₁ : s.Within s') (h₂ : s'.Within s'') : s.Within s'' :=
  ⟨h₂.runq.trans h₁.runq, fun a h => h₂.none_kept a (h₁.none_kept a h), fun a x h =>
    let ⟨y, hy, hyx⟩ := h₁.proc_kept a x h
    let ⟨z, hz, hzy⟩ := h₂.proc_kept a y hy
    ⟨z, hz, hzy.trans hyx⟩⟩

theorem setThread (hx : s.threads t = some x) (y : Kthread) (hp : y.ktProc = x.ktProc) :
    s.Within (s.setThread t y) := by
  refine ⟨rfl, fun a ha => ?_, fun a z hz => ?_⟩
  · rw [Sched.setThread_threads, update_noteq (by rintro rfl; rw [hx] at ha; cases ha)]
    exact ha
  · by_cases e : a = t
    · subst e
      rw [hx] at hz
      cases hz
      exact ⟨y, update_same _ _ _, hp⟩
    · exact ⟨z, by rw [Sched.setThread_threads, update_noteq e, hz], rfl⟩

theorem setQueue (q : Nat) (k : Ktqueue) : s.Within (s.setQueue q k) :=
  ⟨rfl, fun _ h => h, fun _ x h => ⟨x, h, rfl⟩⟩

theorem setQueueThread (hx : s.threads t = some x) (q : Nat) (k : Ktqueue) (y : Kthread)
    (hp : y.ktProc = x.ktProc) : s.Within ((s.setQueue q k).setThread t y) :=
  (setQueue q k).trans (setThread (x := x) (by simpa using hx) y hp)

theorem switchOut (k c : Option Nat) : s.Within { s with kcQueue := k, curthr := c } :=
  ⟨rfl, fun _ h => h, fun _ x h => ⟨x, h, rfl⟩⟩

end Sched.Within

section Within

variable {s s' : Sched} {q t : Nat}

theorem ktqueueDequeue_within {r : Option Nat} (h : ktqueueDequeue s q = some (r, s')) :
    s.Within s' := by
  rcases ktqueueDequeue_eq_some h with ⟨-, -, rfl⟩ | ⟨t, x, -, -, hx, rfl⟩
  exacts [.refl _, .setQueueThread hx _ _ _ (by rfl)]

theorem schedMakeRunnable_within (h : schedMakeRunnable s t = some s') : s.Within s' := by
  obtain ⟨-, x, hx, -, rfl⟩ := schedMakeRunnable_eq_some h
  exact .setQueueThread hx _ _ _ (by rfl)

theorem schedSwitch_within {queue : Option Nat} (h : schedSwitch s queue = some s') :
    s.Within s' := by
  obtain ⟨t, x, -, hx, -, ⟨-, rfl⟩ | ⟨q, -, -, rfl⟩⟩ := schedSwitch_eq_some h
  · exact .switchOut _ _
  · exact (Sched.Within.setQueueThread hx _ _ _ (by rfl)).trans (.switchOut _ _)

theorem setThread_switch_within {x y : Kthread} {queue : Option Nat} (hx : s.threads t = some x)
    (h : schedSwitch (s.setThread t y) queue = some s') (hp : y.ktProc = x.ktProc) : s.Within s' :=
  (Sched.Within.setThread hx y hp).trans (schedSwitch_within h)

theorem schedWakeupOn_within {r : Option Nat} (h : schedWakeupOn s q = some (r, s')) :
    s.Within s' := by
  rcases schedWakeupOn_eq_some h with ⟨-, -, rfl⟩ | ⟨t, s₁, -, hd, hm⟩
  exacts [.refl _, (ktqueueDequeue_within hd).trans (schedMakeRunnable_within hm)]

theorem broadcastLoop_within : ∀ {n : Nat} {s s' : Sched}, broadcastLoop q n s = some s' →
    s.Within s'
  | 0, _, _, h => by cases h
  | n + 1, s, s', h => by
    rcases broadcastLoop_succ_eq_some h with ⟨s₁, hd, rfl⟩ | ⟨t, s₁, s₂, hd, hm, h⟩
    · exact ktqueueDequeue_within hd
    · exact ((ktqueueDequeue_within hd).trans (schedMakeRunnable_within hm)).trans
        (broadcastLoop_within h)

theorem schedCancel_within (h : schedCancel s t = some s') : s.Within s' := by
  obtain ⟨x, hx, ⟨-, rfl⟩ | ⟨-, q, s₁, -, hr, hm⟩⟩ := schedCancel_eq_some h
  · exact .setThread hx _ (by rfl)
  · obtain ⟨y, hy, -, rfl⟩ := ktqueueRemove_eq_some hr
    exact ((Sched.Within.setThread hx _ (by rfl)).trans (.setQueueThread hy _ _ _ (by rfl))).trans
      (schedMakeRunnable_within hm)

/-- Every scheduler call but `kthread_create` keeps the run queue and creates no thread. -/
theorem schedStep_within {op : SchedOp} (h : schedStep s op = some s') :
    s.Within s' ∨ ∃ t p, op = .kthreadCreate t p ∧ s' = kthreadCreate s t p := by
  cases op with
  | kthreadCreate t p => exact .inr ⟨t, p, rfl, (Option.some.inj h).symm⟩
  | makeRunnable t => exact .inl (schedMakeRunnable_within h)
  | yield =>
    obtain ⟨t, x, -, hx, -, h⟩ := schedYield_eq_some h
    exact .inl (setThread_switch_within hx h rfl)
  | sleepOn q =>
    obtain ⟨t, x, -, hx, h⟩ := schedSleepOn_eq_some h
    exact .inl (setThread_switch_within hx h rfl)
  | cancellableSleepOn q =>
    obtain ⟨t, x, -, hx, ⟨-, rfl⟩ | ⟨-, h⟩⟩ := schedCancellableSleepOn_eq_some h
    exacts [.inl (.refl _), .inl (setThread_switch_within hx h rfl)]
  | wakeupOn q =>
    obtain ⟨⟨r, s₁⟩, hw, rfl⟩ := Option.map_eq_some'.1 h
    exact .inl (schedWakeupOn_within hw)
  | broadcastOn q => exact .inl (broadcastLoop_within h)
  | cancel t => exact .inl (schedCancel_within h)
  | kthreadCancel t r =>
    obtain ⟨-, x, hx, h⟩ := kthreadCancel_eq_some h
    exact .inl ((Sched.Within.setThread hx _ (by rfl)).trans (schedCancel_within h))
  | exit r =>
    obtain ⟨t, x, -, hx, h⟩ := threadExit_eq_some h
    exact .inl (setThread_switch_within hx h rfl)
  | dispatch =>
    rcases coreSwitchDispatch_eq_some h with ⟨-, rfl⟩ | ⟨t, x, -, hx, -, rfl⟩
    · exact .inl (.refl _)
    · exact .inl ((Sched.Within.setQueueThread hx _ _ _ (by rfl)).trans (.switchOut s.kcQueue _))

end Within

/-! ## Sleeping threads are queued -/

/-- A sleeping thread is on a wait queue. -/
def Kthread.SleepQueued (x : Kthread) : Prop :=
  x.ktState = .sleep ∨ x.ktState = .sleepCancellable → x.ktWchan ≠ none

/-- Every sleeping thread is on a wait queue, where a wake-up can reach it. -/
def Sched.SleepQueued (s : Sched) : Prop := ∀ t x, s.threads t = some x → x.SleepQueued

namespace Kthread.SleepQueued

variable {y : Kthread}

theorem of_wchan (h : y.ktWchan ≠ none) : y.SleepQueued := fun _ => h

theorem of_state (h : y.ktState ≠ .sleep ∧ y.ktState ≠ .sleepCancellable) : y.SleepQueued :=
  fun hs => (hs.elim h.1 h.2).elim

end Kthread.SleepQueued

namespace Sched.SleepQueued

open Kthread.SleepQueued

variable {s s' : Sched} {t : Nat} {x y : Kthread}

theorem only (h : s.SleepQueued) (t : Nat) (ho : ∀ t', t' ≠ t → s'.threads t' = s.threads t')
    (ht : ∀ y, s'.threads t = some y → y.SleepQueued) : s'.SleepQueued := fun t' y hy => by
  by_cases e : t' = t
  · subst e; exact ht y hy
  · rw [ho t' e] at hy; exact h t' y hy

theorem setThread (h : s.SleepQueued) (hy : y.SleepQueued) : (s.setThread t y).SleepQueued :=
  h.only t (fun t' e => by simp [update_noteq e]) fun y' hy' => by
    simp only [Sched.setThread_threads, update_same, Option.some.injEq] at hy'
    exact hy' ▸ hy

/-- `sched_switch` after the caller set the current thread's new state `y`: onto `queue`, or
off every queue in a state that is not a sleep. -/
theorem switch {queue : Option Nat} (h : s.SleepQueued) (hc : s.curthr = some t)
    (hs : schedSwitch (s.setThread t y) queue = some s') (hy : queue = none → y.SleepQueued) :
    s'.SleepQueued := by
  obtain ⟨t', y', hc', hy', -, hsw⟩ := schedSwitch_eq_some hs
  obtain rfl : t = t' := by simpa [hc] using hc'
  obtain rfl : y = y' := by simpa using hy'
  rcases hsw with ⟨rfl, rfl⟩ | ⟨q, rfl, -, rfl⟩
  · exact h.setThread (hy rfl)
  · exact h.only t (fun t' e => by simp [update_noteq e]) fun y' hy' => by
      simp only [Sched.setThread_threads, update_same, Option.some.injEq] at hy'
      exact of_wchan (by simp [← hy'])

theorem wakeOne {q : Nat} (h : s.SleepQueued) {s₁ : Sched}
    (hd : ktqueueDequeue s q = some (some t, s₁)) (hm : schedMakeRunnable s₁ t = some s') :
    s'.SleepQueued := by
  rcases ktqueueDequeue_eq_some hd with ⟨-, h0, -⟩ | ⟨t₁, x, ht, -, -, rfl⟩
  · cases h0
  obtain rfl := Option.some.inj ht
  obtain ⟨-, x₁, -, -, rfl⟩ := schedMakeRunnable_eq_some hm
  exact h.only t (fun t' e => by simp [update_noteq e]) fun y hy => by
    simp only [Sched.setThread_threads, update_same, Option.some.injEq] at hy
    exact of_state (by simp [← hy])

theorem broadcastLoop {q : Nat} : ∀ {n : Nat} {s s' : Sched}, s.SleepQueued →
    Weenix.broadcastLoop q n s = some s' → s'.SleepQueued
  | 0, _, _, _, hb => by cases hb
  | n + 1, s, s', h, hb => by
    rcases broadcastLoop_succ_eq_some hb with ⟨s₁, hd, rfl⟩ | ⟨t, s₁, s₂, hd, hm, hb⟩
    · rcases ktqueueDequeue_eq_some hd with ⟨-, -, rfl⟩ | ⟨_, _, h0, -⟩
      exacts [h, by cases h0]
    · exact broadcastLoop (h.wakeOne hd hm) hb

theorem cancel (h : s.SleepQueued) (hc : schedCancel s t = some s') : s'.SleepQueued := by
  obtain ⟨x, hx, ⟨-, rfl⟩ | ⟨-, q, s₁, -, hr, hm⟩⟩ := schedCancel_eq_some hc
  · exact h.setThread fun hsl => h t x hx hsl
  · obtain ⟨y, -, -, rfl⟩ := ktqueueRemove_eq_some hr
    obtain ⟨-, x₁, -, -, rfl⟩ := schedMakeRunnable_eq_some hm
    exact h.only t (fun t' e => by simp [update_noteq e]) fun y hy => by
      simp only [Sched.setThread_threads, update_same, Option.some.injEq] at hy
      exact of_state (by simp [← hy])

end Sched.SleepQueued

/-- Every scheduler call keeps every sleeping thread on a queue. -/
theorem schedStep_sleepQueued {s s' : Sched} {op : SchedOp} (h : s.SleepQueued)
    (hs : schedStep s op = some s') : s'.SleepQueued := by
  cases op with
  | kthreadCreate t p =>
    cases hs
    exact h.setThread (Kthread.SleepQueued.of_state (by simp))
  | makeRunnable t =>
    obtain ⟨-, x, -, -, rfl⟩ := schedMakeRunnable_eq_some hs
    exact h.only t (fun t' e => by simp [update_noteq e]) fun y hy => by
      simp only [Sched.setThread_threads, update_same, Option.some.injEq] at hy
      exact .of_state (by simp [← hy])
  | yield =>
    obtain ⟨t, x, hc, -, -, hsw⟩ := schedYield_eq_some hs
    exact h.switch hc hsw nofun
  | sleepOn q =>
    obtain ⟨t, x, hc, -, hsw⟩ := schedSleepOn_eq_some hs
    exact h.switch hc hsw nofun
  | cancellableSleepOn q =>
    obtain ⟨t, x, hc, -, ⟨-, rfl⟩ | ⟨-, hsw⟩⟩ := schedCancellableSleepOn_eq_some hs
    exacts [h, h.switch hc hsw nofun]
  | wakeupOn q =>
    obtain ⟨⟨r, s₁⟩, hw, rfl⟩ := Option.map_eq_some'.1 hs
    rcases schedWakeupOn_eq_some hw with ⟨-, -, rfl⟩ | ⟨t, s₂, -, hd, hm⟩
    exacts [h, h.wakeOne hd hm]
  | broadcastOn q => exact Sched.SleepQueued.broadcastLoop h hs
  | cancel t => exact h.cancel hs
  | kthreadCancel t r =>
    obtain ⟨-, x, hx, hc⟩ := kthreadCancel_eq_some hs
    exact (h.setThread (y := { x with ktRetval := r }) fun hsl => h t x hx hsl).cancel hc
  | exit r =>
    obtain ⟨t, x, hc, -, hsw⟩ := threadExit_eq_some hs
    exact h.switch hc hsw fun _ => .of_state (by simp)
  | dispatch =>
    rcases coreSwitchDispatch_eq_some hs with ⟨-, rfl⟩ | ⟨t, x, -, -, -, rfl⟩
    · exact h
    · exact h.only t (fun t' e => by simp [update_noteq e]) fun y hy => by
        simp only [Sched.setThread_threads, update_same, Option.some.injEq] at hy
        exact .of_state (by simp [← hy])

/-! ## Removing an exited thread -/

/-- `kthread_destroy`'s removal of an exited thread that is not running keeps the scheduler
invariant: such a thread is on no queue. -/
theorem SchedInv.destroy {s : Sched} {t : Nat} {x : Kthread} (h : SchedInv s)
    (hx : s.threads t = some x) (he : x.ktState = .exited) (hc : s.curthr ≠ some t) :
    SchedInv { s with threads := update s.threads t none } := by
  have hw : x.ktWchan = none := by
    cases hq : x.ktWchan with
    | none => rfl
    | some q =>
      have := h.state.wchan_state t x q hx hq
      unfold QueueStateOk at this
      split at this <;> simp [he] at this
  refine ⟨⟨h.queue.size_eq, h.queue.nodup, fun q t' => ?_⟩, ⟨fun t' y q hy => ?_,
    fun t' y hy => ?_, fun t' ht' => ?_⟩⟩
  · show _ ↔ ∃ y, update s.threads t none t' = some y ∧ _
    by_cases ht : t' = t
    · subst ht
      simp only [update_same, reduceCtorEq, false_and, exists_false, iff_false]
      exact h.queue.not_mem hx hw q
    · rw [h.queue.mem_iff, update_noteq ht]
  · change update s.threads t none t' = some y at hy
    by_cases ht : t' = t
    · subst ht; simp at hy
    · rw [update_noteq ht] at hy; exact h.state.wchan_state t' y q hy
  · change update s.threads t none t' = some y at hy
    by_cases ht : t' = t
    · subst ht; simp at hy
    · rw [update_noteq ht] at hy; exact h.state.onCpu_cur t' y hy
  · show ∃ y, update s.threads t none t' = some y ∧ _
    rw [update_noteq (by rintro rfl; exact hc ht')]
    exact h.state.cur_onCpu t' ht'

/-! ## Moves -/

/-- One change a process call makes to the scheduler: a scheduler call its callers may make, whose
new thread, if any, is at an address below `n`; or `kthread_destroy`'s removal of an exited
thread that is not running. -/
inductive SchedMove (n : Nat) : Sched → Sched → Prop
  | call {s s' : Sched} (op : SchedOp) : op.Enabled s → (∀ t p, op = .kthreadCreate t p → t < n) →
      schedStep s op = some s' → SchedMove n s s'
  | destroy {s : Sched} {t : Nat} {x : Kthread} : s.threads t = some x → x.ktState = .exited →
      s.curthr ≠ some t → SchedMove n s { s with threads := update s.threads t none }

namespace SchedMove

variable {n n' : Nat} {s s' : Sched}

theorem mono (hn : n ≤ n') : SchedMove n s s' → SchedMove n' s s'
  | call op he hc hs => call op he (fun t p h => (hc t p h).trans_le hn) hs
  | destroy hx he hc => destroy hx he hc

theorem inv (h : SchedInv s) : SchedMove n s s' → SchedInv s'
  | call _ he _ hs => (schedStep_inv h he hs).1
  | destroy hx he hc => h.destroy hx he hc

theorem runq : SchedMove n s s' → s'.runq = s.runq
  | call _ _ _ hs => by
    rcases schedStep_within hs with hw | ⟨t, p, -, rfl⟩
    exacts [hw.runq, rfl]
  | destroy _ _ _ => rfl

/-- No move gives a thread to an address at or above `n` that had none. -/
theorem fresh {a : Nat} (ha : n ≤ a) : SchedMove n s s' → s.threads a = none → s'.threads a = none
  | call op _ hc hs, h => by
    rcases schedStep_within hs with hw | ⟨t, p, rfl, rfl⟩
    · exact hw.none_kept a h
    · have := hc t p rfl
      simpa [kthreadCreate, update_noteq (show a ≠ t by omega)] using h
  | @destroy _ _ t _ _ _ _, h => by
    show update s.threads t none a = none
    by_cases hat : a = t
    · subst hat; exact update_same _ _ _
    · rw [update_noteq hat]; exact h

theorem sleepQueued (h : s.SleepQueued) : SchedMove n s s' → s'.SleepQueued
  | call _ _ _ hs => schedStep_sleepQueued h hs
  | @destroy _ _ t _ _ _ _ => h.only t (fun t' e => by simp [update_noteq e]) fun _ hy => by
    simp at hy

end SchedMove

namespace SchedMoves

variable {n : Nat} {s s' : Sched}

theorem inv (h : SchedInv s) (hm : ReflTransGen (SchedMove n) s s') : SchedInv s' := by
  induction hm with
  | refl => exact h
  | tail _ hm ih => exact hm.inv ih

theorem runq (hm : ReflTransGen (SchedMove n) s s') : s'.runq = s.runq := by
  induction hm with
  | refl => rfl
  | tail _ hm ih => exact hm.runq.trans ih

theorem fresh {a : Nat} (ha : n ≤ a) (hm : ReflTransGen (SchedMove n) s s')
    (h : s.threads a = none) : s'.threads a = none := by
  induction hm with
  | refl => exact h
  | tail _ hm ih => exact hm.fresh ha ih

theorem sleepQueued (h : s.SleepQueued) (hm : ReflTransGen (SchedMove n) s s') :
    s'.SleepQueued := by
  induction hm with
  | refl => exact h
  | tail _ hm ih => exact hm.sleepQueued ih

end SchedMoves

/-! ## The moves of a process call -/

section WaitQueues

variable {s : Sched} (hr : s.runq = runqAddr)
include hr

theorem pWaitAddr_ne_runq (p : Nat) : pWaitAddr p ≠ s.runq := by
  rw [hr]; unfold pWaitAddr runqAddr; omega

theorem vnodeWaitAddr_ne_runq (v : Nat) : vnodeWaitAddr v ≠ s.runq := by
  rw [hr]; unfold vnodeWaitAddr runqAddr; omega

theorem deviceWaitAddr_ne_runq (d : Nat) : deviceWaitAddr d ≠ s.runq := by
  rw [hr]; unfold deviceWaitAddr runqAddr; omega

end WaitQueues

theorem schedStep_wakeupOn {s s' : Sched} {q : Nat} {w : Option Nat}
    (h : schedWakeupOn s q = some (w, s')) : schedStep s (.wakeupOn q) = some s' := by
  simp only [schedStep, h, Option.map_some']

/-- The scheduler of `s'` is reached from that of `s` by moves whose new threads lie below the
allocator's next address in `s'`, and the allocator has not gone back. -/
structure ProcSys.Moves (s s' : ProcSys) : Prop where
  moves : ReflTransGen (SchedMove s'.table.slab.next) s.sched s'.sched
  slab : s.table.slab.next ≤ s'.table.slab.next

namespace ProcSys.Moves

variable {s s' s'' : ProcSys}

theorem refl (s : ProcSys) : Moves s s := ⟨.refl, le_rfl⟩

theorem trans (h₁ : Moves s s') (h₂ : Moves s' s'') : Moves s s'' :=
  ⟨(h₁.moves.mono fun _ _ h => h.mono h₂.slab).trans h₂.moves, h₁.slab.trans h₂.slab⟩

theorem of_sched (hs : s'.sched = s.sched) (hn : s.table.slab.next ≤ s'.table.slab.next) :
    Moves s s' :=
  ⟨hs ▸ .refl, hn⟩

theorem setProc {a : Nat} {x : Proc} : Moves s (s.setProc a x) := of_sched rfl le_rfl

theorem setPc {t : Nat} {c : Pc} : Moves s (s.setPc t c) := of_sched rfl le_rfl

theorem call (op : SchedOp) (he : op.Enabled s.sched)
    (hc : ∀ t p, op = .kthreadCreate t p → t < s'.table.slab.next)
    (hs : schedStep s.sched op = some s'.sched) (hn : s.table.slab.next ≤ s'.table.slab.next) :
    Moves s s' :=
  ⟨.single (.call op he hc hs), hn⟩

theorem setTable {tb : ProcTable} (hn : s.table.slab.next ≤ tb.slab.next) :
    Moves s { s with table := tb } :=
  of_sched rfl hn

theorem runq (h : Moves s s') : s'.sched.runq = s.sched.runq := SchedMoves.runq h.moves

end ProcSys.Moves

open ProcSys (Moves)

section Calls

variable {K : Consts} {s s' : ProcSys} {t : Nat}

theorem vlock_moves {v : Nat} {b : Bool} (hr : s.sched.runq = runqAddr)
    (h : vlock s t v = some (b, s')) : Moves s s' := by
  unfold vlock at h
  split at h
  · cases h; exact .of_sched rfl le_rfl
  · split at h
    · cases h
    · simp only [Option.bind_eq_bind, Option.bind_eq_some, Option.some.injEq] at h
      obtain ⟨_, hs, h⟩ := h
      cases h
      exact .call (.sleepOn _) (vnodeWaitAddr_ne_runq hr v) nofun hs le_rfl

theorem vunlock_moves {v : Nat} (hr : s.sched.runq = runqAddr) (h : vunlock s t v = some s') :
    Moves s s' := by
  simp only [vunlock, Option.bind_eq_bind] at h
  split at h
  · simp at h
  · simp only [Option.pure_def, Option.some_bind, Option.bind_eq_some, Option.some.injEq] at h
    obtain ⟨⟨_, _⟩, hw, rfl⟩ := h
    exact .call (.wakeupOn _) (vnodeWaitAddr_ne_runq hr v) nofun (schedStep_wakeupOn hw) le_rfl

theorem releaseSlot_sched {p fd : Nat} {vn : Option Nat}
    (h : releaseSlot K s p fd = some (vn, s')) : s'.sched = s.sched := by
  simp only [releaseSlot, Option.bind_eq_bind, Option.bind_eq_some] at h
  obtain ⟨x, -, h⟩ := h
  split at h
  · split at h
    · cases h; rfl
    · simp only [Option.bind_eq_some, Option.some.injEq, Prod.mk.injEq] at h
      obtain ⟨_, -, -, rfl⟩ := h; rfl
  · split at h <;> cases h <;> rfl

theorem releaseLoop_moves {after : AfterRelease} {t p : Nat} :
    ∀ {n fd : Nat} {s s' : ProcSys} {b : Bool}, s.sched.runq = runqAddr →
      releaseLoop K after t p n fd s = some (b, s') → Moves s s'
  | 0, _, _, _, _, _, h => by cases h; exact .refl _
  | n + 1, fd, s, s', b, hr, h => by
    simp only [releaseLoop, Option.bind_eq_bind, Option.bind_eq_some] at h
    obtain ⟨⟨vn, s₁⟩, h₁, h⟩ := h
    have m₁ : Moves s s₁ :=
      .of_sched (releaseSlot_sched h₁) (releaseSlot_frame (N := fun _ => False) h₁).table.slab
    split at h
    · exact m₁.trans (releaseLoop_moves (m₁.runq.trans hr) h)
    · simp only [Option.bind_eq_some] at h
      obtain ⟨⟨got, s₂⟩, h₂, h⟩ := h
      have m₂ := m₁.trans (vlock_moves (m₁.runq.trans hr) h₂)
      split at h
      · simp only [Option.bind_eq_some] at h
        obtain ⟨tb, htb, s₃, h₃, h⟩ := h
        have m₃ := m₂.trans ((Moves.setTable (vnodePutLocked_keeps htb).slab).trans
          (vunlock_moves (m₂.runq.trans hr) h₃))
        exact m₃.trans (releaseLoop_moves (m₃.runq.trans hr) h)
      · cases h; exact m₂.trans .setPc

theorem kthreadDestroy_moves {th : Nat} (h : kthreadDestroy s th = some s') : Moves s s' := by
  unfold kthreadDestroy at h
  split at h
  · simp at h
  rename_i hc
  simp only [Option.pure_def, Option.some_bind, Option.bind_eq_bind, Option.bind_eq_some] at h
  obtain ⟨x, hx, h⟩ := h
  split at h
  · simp at h
  rename_i he
  simp only [Option.pure_def, Option.some_bind, Option.some.injEq] at h
  subst h
  split <;> exact ⟨.single (.destroy hx (not_not.1 he) hc), le_rfl⟩

theorem kthreadDestroyAll_moves : ∀ {ths : List Nat} {s s' : ProcSys},
    kthreadDestroyAll ths s = some s' → Moves s s'
  | [], _, _, h => by cases h; exact .refl _
  | th :: ths, s, s', h => by
    simp only [kthreadDestroyAll, Option.bind_eq_bind, Option.bind_eq_some] at h
    obtain ⟨s₁, h₁, h⟩ := h
    exact (kthreadDestroy_moves h₁).trans (kthreadDestroyAll_moves h)

theorem foldlM_moves {α : Type} {f : ProcSys → α → Option ProcSys}
    (hf : ∀ s a s', f s a = some s' → Moves s s') :
    ∀ {l : List α} {s s' : ProcSys}, l.foldlM f s = some s' → Moves s s'
  | [], _, _, h => by cases h; exact .refl _
  | a :: l, s, s', h => by
    simp only [List.foldlM_cons, Option.bind_eq_bind, Option.bind_eq_some] at h
    obtain ⟨s₁, h₁, h⟩ := h
    exact (hf _ _ _ h₁).trans (foldlM_moves hf h)

/-- The end of `proc_cleanup`: a broadcast on the parent's `p_wait`, and the thread's exit. -/
theorem cleanupFinish_moves {p : Nat} (hr : s.sched.runq = runqAddr)
    (h : cleanupFinish s p = some s') : Moves s s' := by
  simp only [cleanupFinish, Option.bind_eq_bind, Option.bind_eq_some] at h
  obtain ⟨x, hx, h⟩ := h
  split at h
  · simp only [Option.pure_def, Option.some.injEq] at h
    subst h; exact .of_sched rfl le_rfl
  simp only [Option.pure_def, Option.some_bind, Option.bind_eq_some] at h
  obtain ⟨s₁, h₁, h⟩ := h
  have m₁ : Moves s s₁ := by
    refine Moves.setProc.trans (foldlM_moves (fun s c s' h => ?_) h₁)
    simp only [Option.bind_eq_bind, Option.bind_eq_some] at h
    obtain ⟨y, -, h⟩ := h
    split at h
    · simp only [Option.bind_eq_some, Option.some.injEq] at h
      obtain ⟨z, -, rfl⟩ := h
      exact Moves.setProc.trans .setProc
    · cases h; exact .setProc
  have hr₁ := m₁.runq.trans hr
  split at h <;> simp only [Option.some_bind, Option.bind_eq_some, Option.some.injEq] at h
  · rename_i pp _
    obtain ⟨sc, hb, _, he, rfl⟩ := h
    have m₂ : Moves s₁ { s₁ with sched := sc } :=
      .call (.broadcastOn (pWaitAddr pp)) (pWaitAddr_ne_runq hr₁ pp) nofun hb le_rfl
    exact (m₁.trans m₂).trans (.call (.exit x.pStatus) trivial nofun he le_rfl)
  · obtain ⟨_, he, rfl⟩ := h
    exact m₁.trans (.call (.exit x.pStatus) trivial nofun he le_rfl)

theorem procDestroy_moves {c : Nat} (hr : s.sched.runq = runqAddr)
    (h : procDestroy K s t c = some s') : Moves s s' := by
  simp only [procDestroy, Option.bind_eq_bind, Option.bind_eq_some] at h
  obtain ⟨x, -, s₂, h₂, ⟨done, s₃⟩, h₃, h⟩ := h
  have m₁ : Moves s { s with table := procUnlist s.table c } := .setTable le_rfl
  have m₂ := m₁.trans (kthreadDestroyAll_moves h₂)
  have m₃ := m₂.trans (releaseLoop_moves (m₂.runq.trans hr) h₃)
  split at h <;> cases h
  exacts [m₃.trans (.setTable le_rfl), m₃]

theorem reap_moves {p c : Nat} (hr : s.sched.runq = runqAddr) (h : reap K s t p c = some s') :
    Moves s s' := by
  simp only [reap, Option.bind_eq_bind, Option.bind_eq_some] at h
  obtain ⟨x, -, h⟩ := h
  exact Moves.setProc.trans (procDestroy_moves hr h)

theorem waitChildStep_moves {p c : Nat} (hr : s.sched.runq = runqAddr)
    (h : waitChildStep K s t p c = some s') : Moves s s' := by
  simp only [waitChildStep, Option.bind_eq_bind, Option.bind_eq_some] at h
  obtain ⟨y, -, h⟩ := h
  split at h
  · exact Moves.setPc.trans (reap_moves hr h)
  · simp only [Option.bind_eq_some, Option.some.injEq] at h
    obtain ⟨_, hs, rfl⟩ := h
    exact .call (.sleepOn (pWaitAddr p)) (pWaitAddr_ne_runq hr p) nofun hs le_rfl

theorem waitAnyStep_moves {p : Nat} (hr : s.sched.runq = runqAddr)
    (h : waitAnyStep K s t p = some s') : Moves s s' := by
  simp only [waitAnyStep, Option.bind_eq_bind, Option.bind_eq_some] at h
  obtain ⟨x, -, d, -, h⟩ := h
  split at h
  · exact Moves.setPc.trans (reap_moves hr h)
  · simp only [Option.bind_eq_some, Option.some.injEq] at h
    obtain ⟨_, hs, rfl⟩ := h
    exact .call (.sleepOn (pWaitAddr p)) (pWaitAddr_ne_runq hr p) nofun hs le_rfl

theorem doWaitpid_moves {p : Nat} {pid : Int} (hr : s.sched.runq = runqAddr)
    (h : doWaitpid K s t p pid = some s') : Moves s s' := by
  unfold doWaitpid at h
  by_cases h0 : pid = 0 ∨ pid < -1
  · rw [if_pos h0] at h; cases h; exact .refl _
  rw [if_neg h0] at h
  simp only [Option.pure_def, Option.some_bind, Option.bind_eq_bind, Option.bind_eq_some] at h
  obtain ⟨x, -, h⟩ := h
  split at h
  · simp only [Option.bind_eq_some] at h
    obtain ⟨c, -, h⟩ := h
    split at h
    · cases h; exact .refl _
    · exact waitChildStep_moves hr h
  · split at h
    · cases h; exact .refl _
    · exact waitAnyStep_moves hr h

theorem procCreate_slab_le {tb tb' : ProcTable} {cur : Nat} {r : Option Nat}
    (h : procCreate K tb cur = some (r, tb')) : tb.slab.next ≤ tb'.slab.next := by
  obtain ⟨-, -, -, -, -, ⟨-, -, rfl⟩ | ⟨-, -, h, -⟩⟩ := procCreate_eq_some K h
  exacts [le_rfl, h.le]

/-- `proc_create`, `kthread_create` and `sched_make_runnable`: the new thread's address is the
one the allocator hands out next, where no thread is yet. -/
theorem spawn_moves {cur : Nat} (hf : ∀ a, s.table.slab.next ≤ a → s.sched.threads a = none)
    (h : spawn K s cur = some s') : Moves s s' := by
  simp only [spawn, Option.bind_eq_bind, Option.bind_eq_some] at h
  obtain ⟨⟨_ | a, tb⟩, hc, h⟩ := h
  · cases h
  rcases hal : tb.slab.alloc with ⟨_ | th, sl⟩ <;> simp only [hal] at h
  · cases h
  simp only [Option.bind_eq_some, Option.some.injEq] at h
  obtain ⟨x, -, sc, hm, rfl⟩ := h
  obtain ⟨rfl, hsl⟩ := Slab.alloc_eq_some hal
  have hle := procCreate_slab_le hc
  let s₁ := ({ s with table := { tb with slab := sl } }.setProc a
    { x with pThreads := x.pThreads ++ [tb.slab.next] }).setPc tb.slab.next .run
  have m₁ : Moves s s₁ := .of_sched rfl (show s.table.slab.next ≤ sl.next by omega)
  have m₂ : Moves s₁ { s₁ with sched := kthreadCreate s.sched tb.slab.next a } :=
    .call (.kthreadCreate tb.slab.next a) (hf _ hle)
      (fun t p h => by cases h; show _ < sl.next; omega) rfl le_rfl
  exact (m₁.trans m₂).trans (.call (.makeRunnable tb.slab.next)
    ⟨_, update_same _ _ _, rfl⟩ nofun hm le_rfl)

theorem doFork_moves {p : Nat} (hr : s.sched.runq = runqAddr) (h : doFork K s t p = some s') :
    Moves s s' := by
  simp only [doFork, Option.bind_eq_bind, Option.bind_eq_some] at h
  obtain ⟨⟨c, tb⟩, hc, h⟩ := h
  have m : Moves s { s with table := tb } := .setTable (procCreate_slab_le hc)
  split at h
  · cases h; exact m
  · exact m.trans (procDestroy_moves hr h)

theorem doExit_moves {p : Nat} {status : Int} (hr : s.sched.runq = runqAddr)
    (h : doExit K s t p status = some s') : Moves s s' := by
  simp only [doExit, Option.bind_eq_bind, Option.bind_eq_some] at h
  obtain ⟨x, -, ⟨done, s₂⟩, h₂, h⟩ := h
  have m₂ := Moves.setProc.trans (releaseLoop_moves hr h₂)
  split at h
  · exact m₂.trans (cleanupFinish_moves (m₂.runq.trans hr) h)
  · cases h; exact m₂

/-- A move of the file calls: a table step, a mutex, a place, or a device sleep off `kt_runq`. -/
theorem fileMove_moves (hr : s.sched.runq = runqAddr) (h : ProcSys.FileMove s s') : Moves s s' := by
  cases h with
  | file h => exact .of_sched h.sched h.slab
  | vlock h => exact vlock_moves hr h
  | vunlock h => exact vunlock_moves hr h
  | setPc _ => exact .setPc
  | @sleep _ v hs =>
    exact .call (.cancellableSleepOn (deviceWaitAddr v)) (deviceWaitAddr_ne_runq hr v) nofun hs le_rfl

theorem fileMoves_moves (hr : s.sched.runq = runqAddr) (h : ReflTransGen ProcSys.FileMove s s') :
    Moves s s' := by
  induction h with
  | refl => exact .refl _
  | tail _ hm ih => exact ih.trans (fileMove_moves (ih.runq.trans hr) hm)

theorem resume_moves (hr : s.sched.runq = runqAddr) (h : resume K s t = some s') : Moves s s' := by
  unfold resume at h
  split at h
  · cases h
  · exact waitChildStep_moves hr h
  · exact waitAnyStep_moves hr h
  · simp only [Option.bind_eq_bind, Option.bind_eq_some] at h
    obtain ⟨tb, htb, s₂, h₂, ⟨done, s₃⟩, h₃, h⟩ := h
    have m₁ : Moves s { s.setPc t .run with table := tb } :=
      Moves.setPc.trans (.setTable (vnodePutLocked_keeps htb).slab)
    have m₂ := m₁.trans (vunlock_moves hr h₂)
    have m₃ := m₂.trans (releaseLoop_moves (m₂.runq.trans hr) h₃)
    split at h
    · cases h; exact m₃
    · split at h
      · exact m₃.trans (cleanupFinish_moves (m₃.runq.trans hr) h)
      · cases h; exact m₃.trans (.setTable le_rfl)
  · exact fileMoves_moves hr (resumeFileCall_moves h)

/-- Every step of the system changes the scheduler by moves, given the run queue's address and
that no thread sits at an address the allocator has not handed out. -/
theorem procStep_moves {op : ProcOp} (hr : s.sched.runq = runqAddr)
    (hf : ∀ a, s.table.slab.next ≤ a → s.sched.threads a = none) (he : op.enabled s = true)
    (h : procStep K s op = some s') : Moves s s' := by
  cases op with
  | dispatch =>
    simp only [procStep, Option.bind_eq_bind, Option.bind_eq_some, Option.some.injEq] at h
    obtain ⟨_, hs, rfl⟩ := h
    have hc : s.sched.curthr = none := (by simpa [ProcOp.enabled] using he : _ ∧ _).2
    exact .call .dispatch hc nofun hs le_rfl
  | yield =>
    simp only [procStep, Option.bind_eq_bind, Option.bind_eq_some, Option.some.injEq] at h
    obtain ⟨_, hs, rfl⟩ := h
    exact .call .yield trivial nofun hs le_rfl
  | interrupt d =>
    simp only [procStep, Option.bind_eq_bind, Option.bind_eq_some, Option.some.injEq] at h
    obtain ⟨⟨_, _⟩, hw, rfl⟩ := h
    exact .call (.wakeupOn (deviceWaitAddr d)) (deviceWaitAddr_ne_runq hr d) nofun
      (schedStep_wakeupOn hw) le_rfl
  | spawn => exact spawn_moves hf h
  | fork => obtain ⟨t, -, h⟩ := Option.bind_eq_some.1 h; exact doFork_moves hr h
  | exit status => obtain ⟨t, -, h⟩ := Option.bind_eq_some.1 h; exact doExit_moves hr h
  | waitpid pid => obtain ⟨t, -, h⟩ := Option.bind_eq_some.1 h; exact doWaitpid_moves hr h
  | open_ filename oflags =>
    obtain ⟨t, -, h⟩ := Option.bind_eq_some.1 h; exact fileMoves_moves hr (ProcSys.doOpen_moves h)
  | read fd len =>
    obtain ⟨t, -, h⟩ := Option.bind_eq_some.1 h; exact fileMoves_moves hr (ProcSys.doRead_moves h)
  | resume => obtain ⟨t, -, h⟩ := Option.bind_eq_some.1 h; exact resume_moves hr h

end Calls

/-! ## The invariant over every run -/

/-- The scheduler invariant, the run queue at `kt_runq`'s address, and no thread at an address
the allocator has not handed out yet. -/
structure SysSchedInv (s : ProcSys) : Prop where
  sched : SchedInv s.sched
  runq : s.sched.runq = runqAddr
  fresh : ∀ a, s.table.slab.next ≤ a → s.sched.threads a = none
  queued : s.sched.SleepQueued

namespace SysSchedInv

variable {K : Consts} {s s' : ProcSys}

theorem moves (hs : SysSchedInv s) (hm : Moves s s') : SysSchedInv s' where
  sched := SchedMoves.inv hs.sched hm.moves
  runq := hm.runq.trans hs.runq
  fresh a ha := SchedMoves.fresh ha hm.moves (hs.fresh a (hm.slab.trans ha))
  queued := SchedMoves.sleepQueued hs.queued hm.moves

theorem boot (root : Nat) (vnodes : Nat → Vnode) (fs : Fs) (oom : Nat → Bool) :
    SysSchedInv (ProcSys.boot root vnodes fs oom) :=
  ⟨SchedInv.init runqAddr, rfl, fun _ _ => rfl, fun _ _ h => by cases h⟩

theorem procStep {op : ProcOp} (hs : SysSchedInv s) (he : op.enabled s = true)
    (h : procStep K s op = some s') : SysSchedInv s' :=
  hs.moves (procStep_moves hs.runq hs.fresh he h)

end SysSchedInv

theorem ProcReachable.sysSchedInv {K : Consts} {s : ProcSys} (h : ProcReachable K s) :
    SysSchedInv s := by
  induction h with
  | boot root vnodes fs oom => exact .boot root vnodes fs oom
  | step _ _ he hs ih => exact ih.procStep he hs

/-- In every state the system reaches from boot, over every interleaving of the process calls,
the scheduler has properties (1) to (5) of `SchedSafe`, every sleeping thread is on a wait queue,
and every thread sits at an address the allocator has handed out; and every step from it changes
the scheduler only by moves: scheduler calls that keep their callers' contract (never a sleep or
wake-up on `kt_runq`, a dispatch only while no thread runs, `sched_make_runnable` only of a thread
just created, a new thread only at an address where there is none and that the allocator has
handed out), and `kthread_destroy` of exited threads other than `curthr`. -/
theorem proc_reachable_sched_safe {K : Consts} {s : ProcSys} (h : ProcReachable K s) :
    SchedSafe s.sched ∧ s.sched.SleepQueued ∧
      (∀ a x, s.sched.threads a = some x → a < s.table.slab.next) ∧
      ∀ op s', op.enabled s = true → procStep K s op = some s' →
        ReflTransGen (SchedMove s'.table.slab.next) s.sched s'.sched := by
  have hi := h.sysSchedInv
  refine ⟨hi.sched.safe, hi.queued, fun a x hx => Nat.lt_of_not_le fun ha => ?_,
    fun _ _ he hs => (procStep_moves hi.runq hi.fresh he hs).moves⟩
  rw [hi.fresh a ha] at hx
  cases hx

/-- After `init` spawns a child, `init`'s thread runs in a state the theorem covers. -/
theorem proc_reachable_sched_safe_spawned :
    ∃ s, ProcReachable sampleConsts s ∧ s.sched.curthr = some 3 ∧
      (SchedSafe s.sched ∧ s.sched.SleepQueued ∧
        (∀ a x, s.sched.threads a = some x → a < s.table.slab.next) ∧
        ∀ op s', op.enabled s = true → procStep sampleConsts s op = some s' →
          ReflTransGen (SchedMove s'.table.slab.next) s.sched s'.sched) :=
  have hr := (ProcReachable.boot 100 sampleVnodes sampleFs fun _ => false).run sampleConsts
    [.spawn, .dispatch, .spawn] rfl
  ⟨_, hr, rfl, proc_reachable_sched_safe hr⟩

end Weenix
