import Mathlib.Data.List.Basic
import Mathlib.Logic.Function.Basic

/-!
# The scheduler

`proc/sched.c` (in `proc.c`): thread queues, the run queue, sleeping, waking, cancelling and
the switch into the core's idle loop `core_switch`, on one core.

A queue is `tq_list` read from its head (`l_next`) to its tail (`l_prev`), and `tq_size`.
`ktqueue_enqueue` inserts at the head and `ktqueue_dequeue` removes the tail. Threads and queues
are addressed by their kernel addresses; every address has a queue, empty until used.

`sched_switch` ends in a context switch to the core, whose loop `core_switch` first puts the
outgoing thread on the queue saved in `kc_queue` and then picks the next thread. The model
splits the loop at that point: `schedSwitch` is everything up to the choice of the next thread,
`coreSwitchDispatch` the choice. Each operation is one step; `Weenix.Proc.Intr` follows the
interrupt state through them. A call that would fail a `KASSERT` returns `none`.
-/

namespace Weenix

/-- `kthread_state_t`. -/
inductive KtState
  | noState
  | runnable
  | onCpu
  | sleep
  | sleepCancellable
  | exited
  deriving DecidableEq, Repr

/-- The scheduler fields of `kthread_t`. -/
structure Kthread where
  ktState : KtState
  ktWchan : Option Nat
  ktCancelled : Bool
  ktRetval : Int
  ktProc : Nat
  deriving DecidableEq, Repr

/-- `ktqueue_t`: `tq_list` from head to tail, and `tq_size`. -/
structure Ktqueue where
  tqList : List Nat
  tqSize : Nat
  deriving DecidableEq, Repr

/-- The scheduler state of the core: the threads, the queues, the address of `kt_runq`,
`curthr` and `curcore.kc_queue`. -/
structure Sched where
  threads : Nat → Option Kthread
  queues : Nat → Ktqueue
  runq : Nat
  curthr : Option Nat
  kcQueue : Option Nat

namespace Sched

/-- Replace the thread at `t`. -/
def setThread (s : Sched) (t : Nat) (x : Kthread) : Sched :=
  { s with threads := Function.update s.threads t (some x) }

/-- Replace the queue at `q`. -/
def setQueue (s : Sched) (q : Nat) (k : Ktqueue) : Sched :=
  { s with queues := Function.update s.queues q k }

@[simp] theorem setThread_threads (s : Sched) (t : Nat) (x : Kthread) :
    (s.setThread t x).threads = Function.update s.threads t (some x) := rfl
@[simp] theorem setThread_queues (s : Sched) (t : Nat) (x : Kthread) :
    (s.setThread t x).queues = s.queues := rfl
@[simp] theorem setThread_runq (s : Sched) (t : Nat) (x : Kthread) :
    (s.setThread t x).runq = s.runq := rfl
@[simp] theorem setThread_curthr (s : Sched) (t : Nat) (x : Kthread) :
    (s.setThread t x).curthr = s.curthr := rfl
@[simp] theorem setQueue_threads (s : Sched) (q : Nat) (k : Ktqueue) :
    (s.setQueue q k).threads = s.threads := rfl
@[simp] theorem setQueue_queues (s : Sched) (q : Nat) (k : Ktqueue) :
    (s.setQueue q k).queues = Function.update s.queues q k := rfl
@[simp] theorem setQueue_runq (s : Sched) (q : Nat) (k : Ktqueue) :
    (s.setQueue q k).runq = s.runq := rfl
@[simp] theorem setQueue_curthr (s : Sched) (q : Nat) (k : Ktqueue) :
    (s.setQueue q k).curthr = s.curthr := rfl
@[simp] theorem setThread_setThread (s : Sched) (t : Nat) (x y : Kthread) :
    (s.setThread t x).setThread t y = s.setThread t y := by
  simp [setThread, Function.update_idem]
@[simp] theorem setThread_setQueue (s : Sched) (t q : Nat) (x : Kthread) (k : Ktqueue) :
    (s.setThread t x).setQueue q k = (s.setQueue q k).setThread t x := rfl

/-- `sched_init`: no threads, every queue empty, no current thread. -/
def init (runq : Nat) : Sched := ⟨fun _ => none, fun _ => ⟨[], 0⟩, runq, none, none⟩

end Sched

variable {s s' : Sched} {q t : Nat}

/-! ## Queues -/

/-- `ktqueue_enqueue`: `KASSERT(!thr->kt_wchan)`, insert at the head, record the wait channel. -/
def ktqueueEnqueue (s : Sched) (q t : Nat) : Option Sched := do
  let x ← s.threads t
  if x.ktWchan.isSome then none
  let k := s.queues q
  some ((s.setQueue q ⟨t :: k.tqList, k.tqSize + 1⟩).setThread t { x with ktWchan := some q })

theorem ktqueueEnqueue_eq_some (h : ktqueueEnqueue s q t = some s') :
    ∃ x, s.threads t = some x ∧ x.ktWchan = none ∧
      s' = (s.setQueue q ⟨t :: (s.queues q).tqList, (s.queues q).tqSize + 1⟩).setThread t
        { x with ktWchan := some q } := by
  simp only [ktqueueEnqueue, Option.bind_eq_bind, Option.bind_eq_some] at h
  obtain ⟨x, hx, h⟩ := h
  cases hw : x.ktWchan <;> simp_all

/-- `ktqueue_dequeue`: `NULL` when `tq_size` is zero, else the tail of the list. -/
def ktqueueDequeue (s : Sched) (q : Nat) : Option (Option Nat × Sched) :=
  let k := s.queues q
  if k.tqSize = 0 then some (none, s) else do
    let t ← k.tqList.getLast?
    let x ← s.threads t
    some (some t, (s.setQueue q ⟨k.tqList.dropLast, k.tqSize - 1⟩).setThread t
      { x with ktWchan := none })

theorem ktqueueDequeue_eq_some {r : Option Nat} (h : ktqueueDequeue s q = some (r, s')) :
    (s.queues q).tqSize = 0 ∧ r = none ∧ s' = s ∨
    ∃ t x, r = some t ∧ (s.queues q).tqList.getLast? = some t ∧ s.threads t = some x ∧
      s' = (s.setQueue q ⟨(s.queues q).tqList.dropLast, (s.queues q).tqSize - 1⟩).setThread t
        { x with ktWchan := none } := by
  dsimp only [ktqueueDequeue] at h
  split at h
  · simp_all
  · simp only [Option.bind_eq_bind, Option.bind_eq_some, Option.some.injEq, Prod.mk.injEq] at h
    obtain ⟨t, ht, x, hx, rfl, rfl⟩ := h
    exact .inr ⟨t, x, rfl, ht, hx, rfl⟩

/-- `ktqueue_remove`: unlinks the thread from the list that holds it, `KASSERT`ing that it is
linked; under `kt_wchan == queue` that list is `queue`'s. -/
def ktqueueRemove (s : Sched) (q t : Nat) : Option Sched := do
  let x ← s.threads t
  let k := s.queues q
  if t ∉ k.tqList then none
  some ((s.setQueue q ⟨k.tqList.erase t, k.tqSize - 1⟩).setThread t { x with ktWchan := none })

theorem ktqueueRemove_eq_some (h : ktqueueRemove s q t = some s') :
    ∃ x, s.threads t = some x ∧ t ∈ (s.queues q).tqList ∧
      s' = (s.setQueue q ⟨(s.queues q).tqList.erase t, (s.queues q).tqSize - 1⟩).setThread t
        { x with ktWchan := none } := by
  simp only [ktqueueRemove, Option.bind_eq_bind, Option.bind_eq_some] at h
  obtain ⟨x, hx, h⟩ := h
  by_cases hm : t ∈ (s.queues q).tqList <;> simp_all

/-! ## Scheduler operations -/

/-- `sched_make_runnable`: `KASSERT(thr != curthr)`, state `KT_RUNNABLE`, onto the run queue. -/
def schedMakeRunnable (s : Sched) (t : Nat) : Option Sched := do
  if s.curthr = some t then none
  let x ← s.threads t
  ktqueueEnqueue (s.setThread t { x with ktState := .runnable }) s.runq t

theorem schedMakeRunnable_eq_some (h : schedMakeRunnable s t = some s') :
    s.curthr ≠ some t ∧ ∃ x, s.threads t = some x ∧ x.ktWchan = none ∧
      s' = (s.setQueue s.runq ⟨t :: (s.queues s.runq).tqList,
        (s.queues s.runq).tqSize + 1⟩).setThread t
          { x with ktState := .runnable, ktWchan := some s.runq } := by
  by_cases hc : s.curthr = some t
  · simp [schedMakeRunnable, hc] at h
  simp only [schedMakeRunnable, hc, if_false, Option.bind_eq_bind, Option.pure_def,
    Option.some_bind, Option.bind_eq_some] at h
  obtain ⟨x, hx, h⟩ := h
  obtain ⟨_, hx', hw, rfl⟩ := ktqueueEnqueue_eq_some h
  simp only [Sched.setThread_threads, Function.update_same, Option.some.injEq] at hx'
  subst hx'
  exact ⟨hc, x, hx, hw, by simp⟩

/-- `sched_switch` and the top of the `core_switch` loop: `KASSERT(curthr->kt_state !=
KT_ON_CPU)`, save `queue` in `kc_queue`, put the outgoing thread on it, clear `curthr`. -/
def schedSwitch (s : Sched) (queue : Option Nat) : Option Sched := do
  let t ← s.curthr
  let x ← s.threads t
  if x.ktState = .onCpu then none
  let s := { s with kcQueue := queue }
  let s ← match queue with
    | some q => ktqueueEnqueue s q t
    | none => some s
  some { s with curthr := none }

theorem schedSwitch_eq_some {queue : Option Nat} (h : schedSwitch s queue = some s') :
    ∃ t x, s.curthr = some t ∧ s.threads t = some x ∧ x.ktState ≠ .onCpu ∧
      (queue = none ∧ s' = { s with kcQueue := none, curthr := none } ∨
       ∃ q, queue = some q ∧ x.ktWchan = none ∧
        s' = { (s.setQueue q ⟨t :: (s.queues q).tqList, (s.queues q).tqSize + 1⟩).setThread t
          { x with ktWchan := some q } with kcQueue := some q, curthr := none }) := by
  simp only [schedSwitch, Option.bind_eq_bind, Option.bind_eq_some] at h
  obtain ⟨t, ht, x, hx, h⟩ := h
  by_cases hs : x.ktState = .onCpu
  · simp [hs] at h
  simp only [hs, if_false, Option.pure_def, Option.some_bind] at h
  refine ⟨t, x, ht, hx, hs, ?_⟩
  cases queue with
  | none => simp_all
  | some q =>
    simp only [Option.bind_eq_some, Option.some.injEq] at h
    obtain ⟨_, he, rfl⟩ := h
    obtain ⟨_, hx', hw, rfl⟩ := ktqueueEnqueue_eq_some he
    simp only [hx, Option.some.injEq] at hx'
    subst hx'
    exact .inr ⟨q, rfl, hw, rfl⟩

/-- The rest of the `core_switch` loop: dequeue the next thread from the run queue,
`KASSERT(next_thread->kt_state == KT_RUNNABLE)`, run it. With an empty run queue the core waits
for an interrupt and nothing changes. -/
def coreSwitchDispatch (s : Sched) : Option Sched := do
  let (next, s) ← ktqueueDequeue s s.runq
  match next with
  | none => some s
  | some t => do
    let x ← s.threads t
    if x.ktState ≠ .runnable then none
    some { s.setThread t { x with ktState := .onCpu } with curthr := some t }

theorem coreSwitchDispatch_eq_some (h : coreSwitchDispatch s = some s') :
    (s.queues s.runq).tqSize = 0 ∧ s' = s ∨
    ∃ t x, (s.queues s.runq).tqList.getLast? = some t ∧ s.threads t = some x ∧
      x.ktState = .runnable ∧
      s' = { (s.setQueue s.runq ⟨(s.queues s.runq).tqList.dropLast,
          (s.queues s.runq).tqSize - 1⟩).setThread t { x with ktWchan := none, ktState := .onCpu }
        with curthr := some t } := by
  simp only [coreSwitchDispatch, Option.bind_eq_bind, Option.bind_eq_some] at h
  obtain ⟨⟨r, s₁⟩, hd, h⟩ := h
  rcases ktqueueDequeue_eq_some hd with ⟨h0, rfl, rfl⟩ | ⟨t, x, rfl, hl, hx, rfl⟩
  · simp_all
  · simp only [Sched.setThread_threads, Function.update_same, Option.some_bind] at h
    by_cases hs : x.ktState = .runnable
    · simp only [hs, ne_eq, not_true_eq_false, if_false, Option.pure_def, Option.some_bind,
        Option.some.injEq] at h
      exact .inr ⟨t, x, hl, hx, hs, by rw [← h]; simp⟩
    · simp [hs] at h

/-- `sched_yield`. -/
def schedYield (s : Sched) : Option Sched := do
  let t ← s.curthr
  let x ← s.threads t
  if x.ktState ≠ .onCpu then none
  schedSwitch (s.setThread t { x with ktState := .runnable }) (some s.runq)

theorem schedYield_eq_some (h : schedYield s = some s') :
    ∃ t x, s.curthr = some t ∧ s.threads t = some x ∧ x.ktState = .onCpu ∧
      schedSwitch (s.setThread t { x with ktState := .runnable }) (some s.runq) = some s' := by
  simp only [schedYield, Option.bind_eq_bind, Option.bind_eq_some] at h
  obtain ⟨t, ht, x, hx, h⟩ := h
  by_cases hs : x.ktState = .onCpu
  · simp only [hs, ne_eq, not_true_eq_false, if_false, Option.pure_def, Option.some_bind] at h
    exact ⟨t, x, ht, hx, hs, h⟩
  · simp [hs] at h

/-- `sched_sleep_on`. -/
def schedSleepOn (s : Sched) (q : Nat) : Option Sched := do
  let t ← s.curthr
  let x ← s.threads t
  schedSwitch (s.setThread t { x with ktState := .sleep }) (some q)

theorem schedSleepOn_eq_some (h : schedSleepOn s q = some s') :
    ∃ t x, s.curthr = some t ∧ s.threads t = some x ∧
      schedSwitch (s.setThread t { x with ktState := .sleep }) (some q) = some s' := by
  simp only [schedSleepOn, Option.bind_eq_bind, Option.bind_eq_some] at h
  obtain ⟨t, ht, x, hx, h⟩ := h
  exact ⟨t, x, ht, hx, h⟩

/-- `sched_cancellable_sleep_on` up to the switch: a cancelled thread returns `-EINTR` at once.
On resumption it returns `-EINTR` iff it has been cancelled meanwhile. -/
def schedCancellableSleepOn (s : Sched) (q : Nat) : Option Sched := do
  let t ← s.curthr
  let x ← s.threads t
  if x.ktCancelled then some s
  else schedSwitch (s.setThread t { x with ktState := .sleepCancellable }) (some q)

theorem schedCancellableSleepOn_eq_some (h : schedCancellableSleepOn s q = some s') :
    ∃ t x, s.curthr = some t ∧ s.threads t = some x ∧
      (x.ktCancelled = true ∧ s' = s ∨ x.ktCancelled = false ∧
        schedSwitch (s.setThread t { x with ktState := .sleepCancellable }) (some q) =
          some s') := by
  simp only [schedCancellableSleepOn, Option.bind_eq_bind, Option.bind_eq_some] at h
  obtain ⟨t, ht, x, hx, h⟩ := h
  refine ⟨t, x, ht, hx, ?_⟩
  cases hc : x.ktCancelled <;> simp_all

/-- `sched_wakeup_on`: dequeue one thread and make it runnable; returns it (`*ktp`). -/
def schedWakeupOn (s : Sched) (q : Nat) : Option (Option Nat × Sched) := do
  let (t, s) ← ktqueueDequeue s q
  match t with
  | none => some (none, s)
  | some t => do some (some t, ← schedMakeRunnable s t)

theorem schedWakeupOn_eq_some {r : Option Nat} (h : schedWakeupOn s q = some (r, s')) :
    (s.queues q).tqSize = 0 ∧ r = none ∧ s' = s ∨
    ∃ t s₁, r = some t ∧ ktqueueDequeue s q = some (some t, s₁) ∧
      schedMakeRunnable s₁ t = some s' := by
  simp only [schedWakeupOn, Option.bind_eq_bind, Option.bind_eq_some] at h
  obtain ⟨⟨r', s₁⟩, hd, h⟩ := h
  cases r' with
  | none =>
    rcases ktqueueDequeue_eq_some hd with ⟨h0, -, rfl⟩ | ⟨_, _, h1, -⟩
    · simp_all
    · cases h1
  | some t =>
    simp only [Option.bind_eq_some, Option.some.injEq, Prod.mk.injEq] at h
    obtain ⟨s₂, hm, rfl, rfl⟩ := h
    exact .inr ⟨t, s₁, rfl, hd, hm⟩

/-- The loop of `sched_broadcast_on`, with at most `fuel` iterations. -/
def broadcastLoop (q : Nat) : Nat → Sched → Option Sched
  | 0, _ => none
  | fuel + 1, s => do
    match ← ktqueueDequeue s q with
    | (none, s) => some s
    | (some t, s) => broadcastLoop q fuel (← schedMakeRunnable s t)

theorem broadcastLoop_succ_eq_some {n : Nat} (h : broadcastLoop q (n + 1) s = some s') :
    (∃ s₁, ktqueueDequeue s q = some (none, s₁) ∧ s' = s₁) ∨
    ∃ t s₁ s₂, ktqueueDequeue s q = some (some t, s₁) ∧ schedMakeRunnable s₁ t = some s₂ ∧
      broadcastLoop q n s₂ = some s' := by
  simp only [broadcastLoop, Option.bind_eq_bind, Option.bind_eq_some] at h
  obtain ⟨⟨r, s₁⟩, hd, h⟩ := h
  cases r with
  | none => exact .inl ⟨s₁, hd, (Option.some.inj h).symm⟩
  | some t =>
    simp only [Option.bind_eq_some] at h
    obtain ⟨s₂, hm, h⟩ := h
    exact .inr ⟨t, s₁, s₂, hd, hm, h⟩

/-- `sched_broadcast_on`: dequeue and make runnable until the queue is empty. Each iteration
but the last shortens the queue, so `tq_size + 1` iterations suffice. -/
def schedBroadcastOn (s : Sched) (q : Nat) : Option Sched :=
  broadcastLoop q ((s.queues q).tqSize + 1) s

/-- `sched_cancel`: mark the thread cancelled; a thread in cancellable sleep is removed from its
wait channel (`KASSERT(thr->kt_wchan)`) and made runnable. -/
def schedCancel (s : Sched) (t : Nat) : Option Sched := do
  let x ← s.threads t
  let s := s.setThread t { x with ktCancelled := true }
  if x.ktState = .sleepCancellable then
    let q ← x.ktWchan
    schedMakeRunnable (← ktqueueRemove s q t) t
  else some s

theorem schedCancel_eq_some (h : schedCancel s t = some s') :
    ∃ x, s.threads t = some x ∧
      (x.ktState ≠ .sleepCancellable ∧ s' = s.setThread t { x with ktCancelled := true } ∨
       x.ktState = .sleepCancellable ∧ ∃ q s₁, x.ktWchan = some q ∧
        ktqueueRemove (s.setThread t { x with ktCancelled := true }) q t = some s₁ ∧
        schedMakeRunnable s₁ t = some s') := by
  simp only [schedCancel, Option.bind_eq_bind, Option.bind_eq_some] at h
  obtain ⟨x, hx, h⟩ := h
  refine ⟨x, hx, ?_⟩
  by_cases hs : x.ktState = .sleepCancellable
  · rw [if_pos hs] at h
    simp only [Option.bind_eq_some] at h
    obtain ⟨q, hq, s₁, hr, hm⟩ := h
    exact .inr ⟨hs, q, s₁, hq, hr, hm⟩
  · rw [if_neg hs, Option.some.injEq] at h
    exact .inl ⟨hs, h.symm⟩

/-- `kthread_cancel`: `KASSERT(thr != curthr)`, set the return value, `sched_cancel`. -/
def kthreadCancel (s : Sched) (t : Nat) (retval : Int) : Option Sched := do
  if s.curthr = some t then none
  let x ← s.threads t
  schedCancel (s.setThread t { x with ktRetval := retval }) t

theorem kthreadCancel_eq_some {r : Int} (h : kthreadCancel s t r = some s') :
    s.curthr ≠ some t ∧ ∃ x, s.threads t = some x ∧
      schedCancel (s.setThread t { x with ktRetval := r }) t = some s' := by
  by_cases hc : s.curthr = some t
  · simp [kthreadCancel, hc] at h
  simp only [kthreadCancel, hc, if_false, Option.bind_eq_bind, Option.pure_def,
    Option.some_bind, Option.bind_eq_some] at h
  exact ⟨hc, h⟩

/-- The scheduler part of `proc_thread_exiting`, after `proc_cleanup`: state `KT_EXITED`, the
return value, and `sched_switch(NULL)`. -/
def threadExit (s : Sched) (retval : Int) : Option Sched := do
  let t ← s.curthr
  let x ← s.threads t
  schedSwitch (s.setThread t { x with ktState := .exited, ktRetval := retval }) none

theorem threadExit_eq_some {r : Int} (h : threadExit s r = some s') :
    ∃ t x, s.curthr = some t ∧ s.threads t = some x ∧
      schedSwitch (s.setThread t { x with ktState := .exited, ktRetval := r }) none = some s' := by
  simp only [threadExit, Option.bind_eq_bind, Option.bind_eq_some] at h
  obtain ⟨t, ht, x, hx, h⟩ := h
  exact ⟨t, x, ht, hx, h⟩

/-- The scheduler part of `kthread_create`: a new thread at the fresh address `t`, in
`KT_NO_STATE`, on no queue, not cancelled. -/
def kthreadCreate (s : Sched) (t p : Nat) : Sched :=
  s.setThread t ⟨.noState, none, false, 0, p⟩

end Weenix
