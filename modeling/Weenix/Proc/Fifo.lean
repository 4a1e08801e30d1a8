import Weenix.Proc.SchedInv

/-!
# The thread queues as FIFOs

`ktqueue_t` (`proc/proc.c`) against the FIFO of the spec. The FIFO is `tq_list` read from its
tail (`l_prev`) to its head, the thread that has waited longest first: `ktqueue_enqueue` inserts
at the head and `ktqueue_dequeue` takes the tail.

1. Each queue primitive is the FIFO operation on that list: enqueue appends, dequeue removes and
   returns the first thread, or `NULL` from an empty FIFO, and remove erases the thread; the
   queue invariant, `tq_size` the list length among it, is kept (`KtqueueOp.run_refines`). So
   any sequence of calls on a queue returns what the FIFO returns (`ktqueueRun_refines`). Each
   call returns when its thread is where the call needs it: dequeue always, enqueue of a thread
   on no queue, remove of a queued thread (`ktqueueEnqueue_fifo`, `ktqueueRemove_fifo`).
2. On a wait queue, `sched_wakeup_on` moves the oldest thread to the back of the run queue
   (`wakeOne_fifo`), and the loop of `sched_broadcast_on` moves the whole FIFO there in order
   and stops with the queue empty (`broadcastLoop_fifo`).
-/

namespace Weenix

open List

/-- The FIFO a queue stands for: `tq_list` from its tail to its head. -/
def Ktqueue.fifo (k : Ktqueue) : List Nat := k.tqList.reverse

/-- The calls on one queue. -/
inductive KtqueueOp
  | enqueue (t : Nat)
  | dequeue
  | remove (t : Nat)
  deriving DecidableEq, Repr

/-- A call on the queue `q` of the scheduler: the thread it returns (`ktqueue_dequeue`'s), and
the new state. -/
def KtqueueOp.run (s : Sched) (q : Nat) : KtqueueOp → Option (Option Nat × Sched)
  | .enqueue t => (ktqueueEnqueue s q t).map fun s => (none, s)
  | .dequeue => ktqueueDequeue s q
  | .remove t => (ktqueueRemove s q t).map fun s => (none, s)

/-- The same call on the FIFO, in the spec's words. -/
def KtqueueOp.fifo : KtqueueOp → List Nat → Option Nat × List Nat
  | .enqueue t, L => (none, L ++ [t])
  | .dequeue, [] => (none, [])
  | .dequeue, t :: L => (some t, L)
  | .remove t, L => (none, L.erase t)

/-- A sequence of calls on the queue `q`, with what each returns. -/
def ktqueueRun (q : Nat) : Sched → List KtqueueOp → Option (List (Option Nat) × Sched)
  | s, [] => some ([], s)
  | s, op :: ops => do
    let (r, s) ← op.run s q
    let (rs, s) ← ktqueueRun q s ops
    some (r :: rs, s)

/-- The same sequence on the FIFO. -/
def fifoRun : List Nat → List KtqueueOp → List (Option Nat) × List Nat
  | L, [] => ([], L)
  | L, op :: ops =>
    let (r, L) := op.fifo L
    let (rs, L) := fifoRun L ops
    (r :: rs, L)

/-! ## Each call, and any sequence of calls -/

section Refinement

variable {s s' : Sched} {q t : Nat} {op : KtqueueOp} {r : Option Nat}

theorem Ktqueue.fifo_eq_nil (h : QueueInv s.threads s.queues) (h0 : (s.queues q).tqSize = 0) :
    (s.queues q).fifo = [] := by
  rw [h.size_eq, length_eq_zero] at h0
  simp [Ktqueue.fifo, h0]

theorem ktqueueDequeue_of_nil (h : QueueInv s.threads s.queues) (hL : (s.queues q).fifo = []) :
    ktqueueDequeue s q = some (none, s) := by
  have : (s.queues q).tqSize = 0 := by simpa [h.size_eq, Ktqueue.fifo] using hL
  simp [ktqueueDequeue, this]

/-- `ktqueue_dequeue` never crashes on a queue whose threads are live. -/
theorem ktqueueDequeue_total (h : QueueInv s.threads s.queues) (q : Nat) :
    (ktqueueDequeue s q).isSome := by
  rcases hl : (s.queues q).tqList.getLast? with _ | t
  · have : (s.queues q).tqSize = 0 := by simp_all [h.size_eq]
    simp [ktqueueDequeue, this]
  · obtain ⟨x, hx, -⟩ := (h.mem_iff q t).1 (mem_of_getLast?_eq_some hl)
    by_cases h0 : (s.queues q).tqSize = 0 <;> simp [ktqueueDequeue, h0, hl, hx]

/-- Each call on a queue is the FIFO call on its list, and keeps the queue invariant. -/
theorem KtqueueOp.run_refines (h : QueueInv s.threads s.queues) (hr : op.run s q = some (r, s')) :
    QueueInv s'.threads s'.queues ∧ op.fifo (s.queues q).fifo = (r, (s'.queues q).fifo) := by
  cases op with
  | enqueue t =>
    obtain ⟨s₁, he, hs⟩ := Option.map_eq_some'.1 hr
    cases hs
    obtain ⟨x, hx, hw, rfl⟩ := ktqueueEnqueue_eq_some he
    exact ⟨by simpa using h.enqueue (h.not_mem hx hw) (y := { x with ktWchan := some q }) rfl,
      by simp [KtqueueOp.fifo, Ktqueue.fifo]⟩
  | dequeue =>
    rcases ktqueueDequeue_eq_some hr with ⟨h0, rfl, rfl⟩ | ⟨t, x, rfl, hl, hx, rfl⟩
    · exact ⟨h, by rw [Ktqueue.fifo_eq_nil h h0]; rfl⟩
    · obtain ⟨d, hd⟩ := getLast?_eq_some_iff.1 hl
      exact ⟨by simpa using h.dequeue hl (y := { x with ktWchan := none }) rfl,
        by simp [KtqueueOp.fifo, Ktqueue.fifo, hd]⟩
  | remove t =>
    obtain ⟨s₁, he, hs⟩ := Option.map_eq_some'.1 hr
    cases hs
    obtain ⟨x, hx, hm, rfl⟩ := ktqueueRemove_eq_some he
    have hn := h.nodup q
    refine ⟨by simpa using h.remove hm (y := { x with ktWchan := none }) rfl, ?_⟩
    simp [KtqueueOp.fifo, Ktqueue.fifo, hn.erase_eq_filter, (nodup_reverse.2 hn).erase_eq_filter,
      filter_reverse]

/-- `ktqueue_enqueue` of a live thread on no queue returns, and appends it to the FIFO. -/
theorem ktqueueEnqueue_fifo (h : QueueInv s.threads s.queues) {x : Kthread}
    (hx : s.threads t = some x) (hw : x.ktWchan = none) :
    ∃ s', ktqueueEnqueue s q t = some s' ∧ (s'.queues q).fifo = (s.queues q).fifo ++ [t] := by
  obtain ⟨s', hs'⟩ : ∃ s', ktqueueEnqueue s q t = some s' :=
    Option.isSome_iff_exists.1 (by simp [ktqueueEnqueue, hx, hw])
  have hf := (KtqueueOp.run_refines h
    (show KtqueueOp.run s q (.enqueue t) = some (none, s') by simp [KtqueueOp.run, hs'])).2
  exact ⟨s', hs', by simpa [KtqueueOp.fifo] using hf.symm⟩

/-- `ktqueue_remove` of a thread on the queue returns, and erases it from the FIFO. -/
theorem ktqueueRemove_fifo (h : QueueInv s.threads s.queues) (ht : t ∈ (s.queues q).fifo) :
    ∃ s', ktqueueRemove s q t = some s' ∧ (s'.queues q).fifo = (s.queues q).fifo.erase t := by
  have hm : t ∈ (s.queues q).tqList := mem_reverse.1 ht
  obtain ⟨x, hx, -⟩ := (h.mem_iff q t).1 hm
  obtain ⟨s', hs'⟩ : ∃ s', ktqueueRemove s q t = some s' :=
    Option.isSome_iff_exists.1 (by simp [ktqueueRemove, hx, hm])
  have hf := (KtqueueOp.run_refines h
    (show KtqueueOp.run s q (.remove t) = some (none, s') by simp [KtqueueOp.run, hs'])).2
  exact ⟨s', hs', by simpa [KtqueueOp.fifo] using hf.symm⟩

/-- A sequence of calls on a queue returns what the FIFO returns, and leaves the queue standing
for what the FIFO is left with. -/
theorem ktqueueRun_refines : ∀ {s s' : Sched} {ops : List KtqueueOp} {rs : List (Option Nat)},
    QueueInv s.threads s.queues → ktqueueRun q s ops = some (rs, s') →
    QueueInv s'.threads s'.queues ∧ fifoRun (s.queues q).fifo ops = (rs, (s'.queues q).fifo)
  | _, _, [], _, h, hr => by
    simp only [ktqueueRun, Option.some.injEq, Prod.mk.injEq] at hr
    obtain ⟨rfl, rfl⟩ := hr
    exact ⟨h, rfl⟩
  | s, s', op :: ops, rs, h, hr => by
    simp only [ktqueueRun, Option.bind_eq_bind, Option.bind_eq_some, Option.some.injEq] at hr
    obtain ⟨⟨r, s₁⟩, h₁, ⟨rs', s₂⟩, h₂, hrs⟩ := hr
    cases hrs
    obtain ⟨hi₁, hf₁⟩ := KtqueueOp.run_refines h h₁
    obtain ⟨hi₂, hf₂⟩ := ktqueueRun_refines hi₁ h₂
    exact ⟨hi₂, by simp only [fifoRun, hf₁, hf₂]⟩

end Refinement

/-! ## Waking the threads of a wait queue -/

section Wake

variable {s s' : Sched} {q t : Nat} {x : Kthread}

theorem schedMakeRunnable_of_live (hc : s.curthr ≠ some t) (hx : s.threads t = some x)
    (hw : x.ktWchan = none) :
    schedMakeRunnable s t = some ((s.setQueue s.runq ⟨t :: (s.queues s.runq).tqList,
      (s.queues s.runq).tqSize + 1⟩).setThread t
        { x with ktState := .runnable, ktWchan := some s.runq }) := by
  simp [schedMakeRunnable, ktqueueEnqueue, hc, hx, hw]

/-- One round of `sched_wakeup_on` or of the `sched_broadcast_on` loop on a wait queue: the oldest
thread leaves the front of its FIFO for the back of the run queue's. -/
theorem wakeOne_fifo (h : SchedInv s) (hq : q ≠ s.runq) {L : List Nat}
    (hL : (s.queues q).fifo = t :: L) :
    ∃ s₁ s', ktqueueDequeue s q = some (some t, s₁) ∧ schedMakeRunnable s₁ t = some s' ∧
      SchedInv s' ∧ s'.runq = s.runq ∧ (s'.queues q).fifo = L ∧
      (s'.queues s.runq).fifo = (s.queues s.runq).fifo ++ [t] := by
  have hl : (s.queues q).tqList = L.reverse ++ [t] := reverse_eq_cons_iff.1 hL
  have hlast : (s.queues q).tqList.getLast? = some t := by simp [hl]
  have hsz : (s.queues q).tqSize ≠ 0 := by simp [h.queue.size_eq, hl]
  obtain ⟨x, hx, hst⟩ := h.wchan_state (mem_of_getLast?_eq_some hlast)
  have hc : s.curthr ≠ some t := fun hc => hst.ne_onCpu ((h.state.onCpu_iff hx).2 hc)
  set s₁ := (s.setQueue q ⟨(s.queues q).tqList.dropLast, (s.queues q).tqSize - 1⟩).setThread t
    { x with ktWchan := none }
  have hd : ktqueueDequeue s q = some (some t, s₁) := by
    simp [s₁, ktqueueDequeue, hsz, hlast, hx]
  have hm := schedMakeRunnable_of_live (s := s₁) (x := { x with ktWchan := none })
    (by simpa [s₁] using hc) (by simp [s₁]) rfl
  refine ⟨_, _, hd, hm, (h.dequeue hd).makeRunnable hm, rfl, ?_, ?_⟩
  · simp [s₁, Ktqueue.fifo, hq, hl]
  · simp [s₁, Ktqueue.fifo, Ne.symm hq]

/-- The loop of `sched_broadcast_on`, given enough rounds: it empties the wait queue onto the
back of the run queue, in order. -/
theorem broadcastLoop_fifo : ∀ (n : Nat) {s : Sched}, SchedInv s → q ≠ s.runq →
    (s.queues q).tqList.length < n → ∃ s', broadcastLoop q n s = some s' ∧ SchedInv s' ∧
      s'.runq = s.runq ∧ (s'.queues q).fifo = [] ∧
      (s'.queues s.runq).fifo = (s.queues s.runq).fifo ++ (s.queues q).fifo
  | 0, _, _, _, hn => absurd hn (Nat.not_lt_zero _)
  | n + 1, s, h, hq, hn => by
    rcases hL : (s.queues q).fifo with _ | ⟨t, L⟩
    · exact ⟨s, by simp [broadcastLoop, ktqueueDequeue_of_nil h.queue hL], h, rfl, hL, by simp⟩
    · obtain ⟨s₁, s₂, hd, hm, h₂, hr, hq₂, hrun⟩ := wakeOne_fifo h hq hL
      have hlen : (s₂.queues q).tqList.length < n := by
        have h1 := congrArg List.length hL
        have h2 := congrArg List.length hq₂
        simp only [Ktqueue.fifo, length_reverse, length_cons] at h1 h2
        omega
      obtain ⟨s', hb, h', hr', hq', hrun'⟩ := broadcastLoop_fifo n h₂ (hr ▸ hq) hlen
      refine ⟨s', by simp [broadcastLoop, hd, hm, hb], h', hr'.trans hr, hq', ?_⟩
      rw [← hr, hrun', hr, hrun, hq₂, append_assoc, singleton_append]

theorem SchedInv.runnable_of_runq (h : SchedInv s) (ht : t ∈ (s.queues s.runq).fifo) :
    ∃ x, s.threads t = some x ∧ x.ktState = .runnable := by
  obtain ⟨x, hx, hst⟩ := h.wchan_state (mem_reverse.1 ht)
  exact ⟨x, hx, by simpa [QueueStateOk] using hst⟩

/-- The queues are FIFOs. Any sequence of calls on a queue returns what the FIFO returns, with
`tq_size` the FIFO's length throughout; `ktqueue_dequeue` never crashes, `ktqueue_enqueue` of a
thread on no queue appends it, and `ktqueue_remove` of a queued thread erases it. On a wait queue,
`sched_wakeup_on` wakes the thread that has waited longest, and `sched_broadcast_on` stops, with
the queue empty and every thread that was on it `KT_RUNNABLE`, appended once each, oldest first,
to the run queue. -/
theorem ktqueue_fifo_order :
    (∀ (s s' : Sched) q ops rs, QueueInv s.threads s.queues →
      ktqueueRun q s ops = some (rs, s') →
      fifoRun (s.queues q).fifo ops = (rs, (s'.queues q).fifo) ∧
        (s'.queues q).tqSize = (s'.queues q).fifo.length) ∧
    (∀ (s : Sched) q, QueueInv s.threads s.queues → (ktqueueDequeue s q).isSome) ∧
    (∀ (s : Sched) q t x, QueueInv s.threads s.queues → s.threads t = some x → x.ktWchan = none →
      ∃ s', ktqueueEnqueue s q t = some s' ∧ (s'.queues q).fifo = (s.queues q).fifo ++ [t]) ∧
    (∀ (s : Sched) q t, QueueInv s.threads s.queues → t ∈ (s.queues q).fifo →
      ∃ s', ktqueueRemove s q t = some s' ∧ (s'.queues q).fifo = (s.queues q).fifo.erase t) ∧
    (∀ (s : Sched) q, SchedInv s → q ≠ s.runq → ∃ r s', schedWakeupOn s q = some (r, s') ∧
      r = (s.queues q).fifo.head? ∧ (s'.queues q).fifo = (s.queues q).fifo.tail ∧
      (s'.queues s.runq).fifo = (s.queues s.runq).fifo ++ r.toList) ∧
    (∀ (s : Sched) q, SchedInv s → q ≠ s.runq → ∃ s', schedBroadcastOn s q = some s' ∧
      (s'.queues q).fifo = [] ∧
      (s'.queues s.runq).fifo = (s.queues s.runq).fifo ++ (s.queues q).fifo ∧
      ∀ t ∈ (s.queues q).fifo, ∃ x, s'.threads t = some x ∧ x.ktState = .runnable) := by
  refine ⟨fun s s' q ops rs h hr => ?_, fun s q h => ktqueueDequeue_total h q,
    fun s q t x h hx hw => ktqueueEnqueue_fifo h hx hw, fun s q t h ht => ktqueueRemove_fifo h ht,
    fun s q h hq => ?_, fun s q h hq => ?_⟩
  · obtain ⟨hi, hf⟩ := ktqueueRun_refines h hr
    exact ⟨hf, by rw [hi.size_eq, Ktqueue.fifo, length_reverse]⟩
  · rcases hL : (s.queues q).fifo with _ | ⟨t, L⟩
    · exact ⟨none, s, by simp [schedWakeupOn, ktqueueDequeue_of_nil h.queue hL], rfl, hL,
        by simp⟩
    · obtain ⟨s₁, s', hd, hm, -, -, hq', hrun⟩ := wakeOne_fifo h hq hL
      exact ⟨some t, s', by simp [schedWakeupOn, hd, hm], rfl, hq', hrun⟩
  · obtain ⟨s', hb, h', hr, hq', hrun⟩ :=
      broadcastLoop_fifo ((s.queues q).tqSize + 1) h hq (by rw [h.queue.size_eq]; omega)
    refine ⟨s', hb, hq', hrun, fun t ht => h'.runnable_of_runq ?_⟩
    rw [hr, hrun]
    exact mem_append_right _ ht

/-- A new thread 5, enqueued on queue 1 and dequeued; waking and broadcasting queue 1. -/
theorem ktqueue_fifo_order_thread_five :
    (∃ rs s', ktqueueRun 1 (kthreadCreate (Sched.init 0) 5 0) [.enqueue 5, .dequeue] =
        some (rs, s') ∧
      fifoRun ((kthreadCreate (Sched.init 0) 5 0).queues 1).fifo [.enqueue 5, .dequeue] =
        (rs, (s'.queues 1).fifo) ∧ (s'.queues 1).tqSize = (s'.queues 1).fifo.length) ∧
    (ktqueueDequeue (kthreadCreate (Sched.init 0) 5 0) 1).isSome ∧
    (∀ x, (kthreadCreate (Sched.init 0) 5 0).threads 5 = some x → x.ktWchan = none →
      ∃ s', ktqueueEnqueue (kthreadCreate (Sched.init 0) 5 0) 1 5 = some s' ∧
        (s'.queues 1).fifo = ((kthreadCreate (Sched.init 0) 5 0).queues 1).fifo ++ [5]) ∧
    (5 ∈ ((kthreadCreate (Sched.init 0) 5 0).queues 1).fifo →
      ∃ s', ktqueueRemove (kthreadCreate (Sched.init 0) 5 0) 1 5 = some s' ∧
        (s'.queues 1).fifo = ((kthreadCreate (Sched.init 0) 5 0).queues 1).fifo.erase 5) ∧
    (∃ r s', schedWakeupOn (kthreadCreate (Sched.init 0) 5 0) 1 = some (r, s') ∧
      r = ((kthreadCreate (Sched.init 0) 5 0).queues 1).fifo.head? ∧
      (s'.queues 1).fifo = ((kthreadCreate (Sched.init 0) 5 0).queues 1).fifo.tail ∧
      (s'.queues 0).fifo = ((kthreadCreate (Sched.init 0) 5 0).queues 0).fifo ++ r.toList) ∧
    (∃ s', schedBroadcastOn (kthreadCreate (Sched.init 0) 5 0) 1 = some s' ∧
      (s'.queues 1).fifo = [] ∧
      (s'.queues 0).fifo = ((kthreadCreate (Sched.init 0) 5 0).queues 0).fifo ++
        ((kthreadCreate (Sched.init 0) 5 0).queues 1).fifo ∧
      ∀ t ∈ ((kthreadCreate (Sched.init 0) 5 0).queues 1).fifo,
        ∃ x, s'.threads t = some x ∧ x.ktState = .runnable) :=
  have h₀ : SchedInv (kthreadCreate (Sched.init 0) 5 0) := (SchedInv.init 0).create rfl 0
  have hr : ktqueueRun 1 (kthreadCreate (Sched.init 0) 5 0) [.enqueue 5, .dequeue] =
      some (_, _) := rfl
  ⟨⟨_, _, hr, ktqueue_fifo_order.1 _ _ _ _ _ h₀.queue hr⟩, ktqueue_fifo_order.2.1 _ _ h₀.queue,
    fun _ hx hw => ktqueue_fifo_order.2.2.1 _ _ _ _ h₀.queue hx hw,
    ktqueue_fifo_order.2.2.2.1 _ _ _ h₀.queue, ktqueue_fifo_order.2.2.2.2.1 _ _ h₀ (by decide),
    ktqueue_fifo_order.2.2.2.2.2 _ _ h₀ (by decide)⟩

end Wake

end Weenix
