import Mathlib.Data.List.Nodup
import Weenix.Proc.Sched

/-!
# Scheduler invariants

The scheduler as a system: from the state after `sched_init`, any interleaving of thread
creation and the scheduler calls, each with what its callers guarantee. Every reachable state
keeps the queue bookkeeping and the thread states consistent, and every step moves thread states
along the edges of the thread state machine.

1. The queue invariants (`QueueInv`): `kt_wchan` names exactly the queue a thread is on, lists
   have no duplicates, `tq_size` is the list length.
2. The state invariants (`StateInv`): a thread's state matches the kind of queue it is on, and
   `KT_ON_CPU` is exactly `curthr`.
3. Each queue primitive keeps both (a dequeued or removed thread keeps its state but leaves the
   queue), and each scheduler call is assembled from the primitives.
4. Thread states evolve along `KtState.Next`; a `KT_SLEEP` thread leaves its queue only when that
   queue is woken.
-/

namespace Weenix

open Function

/-! ## Operations -/

/-- The calls that drive the scheduler. `cancel` is `sched_cancel` called directly, as the tests
do; `dispatch` is the part of the `core_switch` loop that runs the next thread. -/
inductive SchedOp
  | kthreadCreate (t p : Nat)
  | makeRunnable (t : Nat)
  | yield
  | sleepOn (q : Nat)
  | cancellableSleepOn (q : Nat)
  | wakeupOn (q : Nat)
  | broadcastOn (q : Nat)
  | cancel (t : Nat)
  | kthreadCancel (t : Nat) (retval : Int)
  | exit (retval : Int)
  | dispatch
  deriving DecidableEq, Repr

/-- One scheduler call. -/
def schedStep (s : Sched) : SchedOp → Option Sched
  | .kthreadCreate t p => some (kthreadCreate s t p)
  | .makeRunnable t => schedMakeRunnable s t
  | .yield => schedYield s
  | .sleepOn q => schedSleepOn s q
  | .cancellableSleepOn q => schedCancellableSleepOn s q
  | .wakeupOn q => (schedWakeupOn s q).map Prod.snd
  | .broadcastOn q => schedBroadcastOn s q
  | .cancel t => schedCancel s t
  | .kthreadCancel t r => kthreadCancel s t r
  | .exit r => threadExit s r
  | .dispatch => coreSwitchDispatch s

/-- What the callers guarantee: a new thread gets a fresh address, `sched_make_runnable` is
called on a thread just created, `kt_runq` is static to the scheduler so no caller sleeps or
wakes on it, and the core picks a thread only once the current one has switched out. -/
def SchedOp.Enabled (s : Sched) : SchedOp → Prop
  | .kthreadCreate t _ => s.threads t = none
  | .makeRunnable t => ∃ x, s.threads t = some x ∧ x.ktState = .noState
  | .sleepOn q | .cancellableSleepOn q | .wakeupOn q | .broadcastOn q => q ≠ s.runq
  | .dispatch => s.curthr = none
  | _ => True

/-- The queue whose sleepers an operation wakes. -/
def SchedOp.wakes : SchedOp → Option Nat
  | .wakeupOn q | .broadcastOn q => some q
  | _ => none

/-- The states reachable from `sched_init` by calls their callers may make. -/
inductive SchedReachable : Sched → Prop
  | init (runq : Nat) : SchedReachable (Sched.init runq)
  | step {s s' : Sched} (op : SchedOp) :
      SchedReachable s → op.Enabled s → schedStep s op = some s' → SchedReachable s'

/-! ## The thread state machine -/

/-- The edges of the thread state machine. -/
inductive KtState.Next : KtState → KtState → Prop
  | start : Next .noState .runnable
  | run : Next .runnable .onCpu
  | yield : Next .onCpu .runnable
  | sleep : Next .onCpu .sleep
  | sleepCancellable : Next .onCpu .sleepCancellable
  | exit : Next .onCpu .exited
  | wake : Next .sleep .runnable
  | wakeCancellable : Next .sleepCancellable .runnable

theorem KtState.not_next_exited {b : KtState} : ¬ KtState.Next .exited b := nofun

/-- A state change allowed by the state machine: none, or along an edge. -/
def KtState.Follows (a b : KtState) : Prop := b = a ∨ KtState.Next a b

theorem KtState.Follows.exited {b : KtState} (h : KtState.Follows .exited b) : b = .exited :=
  h.resolve_right KtState.not_next_exited

/-- The state change of a waking thread: none, or from a sleep state to `KT_RUNNABLE`. Unlike
`Follows`, it composes, so it describes a whole broadcast. -/
def KtState.Wakes (a b : KtState) : Prop :=
  b = a ∨ (a = .sleep ∨ a = .sleepCancellable) ∧ b = .runnable

theorem KtState.Wakes.trans {a b c : KtState} (h₁ : KtState.Wakes a b) (h₂ : KtState.Wakes b c) :
    KtState.Wakes a c := by
  unfold KtState.Wakes at *
  rcases h₁ with rfl | ⟨ha, rfl⟩ <;> rcases h₂ with rfl | ⟨hb, rfl⟩ <;> simp_all

theorem KtState.Wakes.follows {a b : KtState} (h : KtState.Wakes a b) : KtState.Follows a b := by
  rcases h with rfl | ⟨rfl | rfl, rfl⟩
  exacts [.inl rfl, .inr .wake, .inr .wakeCancellable]

/-! ## Invariants -/

/-- The states a thread on queue `q` may be in: `KT_RUNNABLE` on the run queue, a sleep state on
any other queue. -/
def QueueStateOk (runq q : Nat) (st : KtState) : Prop :=
  if q = runq then st = .runnable else st = .sleep ∨ st = .sleepCancellable

theorem QueueStateOk.ne_onCpu {runq q : Nat} {st : KtState} (h : QueueStateOk runq q st) :
    st ≠ .onCpu := by
  unfold QueueStateOk at h; split at h <;> rintro rfl <;> simp at h

/-- Queue bookkeeping: `tq_size` is the list length, a thread is on a list at most once, and
`kt_wchan` is exactly the queue whose list holds the thread. -/
structure QueueInv (ths : Nat → Option Kthread) (qs : Nat → Ktqueue) : Prop where
  size_eq : ∀ q, (qs q).tqSize = (qs q).tqList.length
  nodup : ∀ q, (qs q).tqList.Nodup
  mem_iff : ∀ q t, t ∈ (qs q).tqList ↔ ∃ x, ths t = some x ∧ x.ktWchan = some q

/-- Thread states: a queued thread's state matches its queue, and a thread is `KT_ON_CPU` iff it
is `curthr`. -/
structure StateInv (ths : Nat → Option Kthread) (runq : Nat) (cur : Option Nat) : Prop where
  wchan_state : ∀ t x q, ths t = some x → x.ktWchan = some q → QueueStateOk runq q x.ktState
  onCpu_cur : ∀ t x, ths t = some x → x.ktState = .onCpu → cur = some t
  cur_onCpu : ∀ t, cur = some t → ∃ x, ths t = some x ∧ x.ktState = .onCpu

/-- The scheduler invariant. -/
structure SchedInv (s : Sched) : Prop where
  queue : QueueInv s.threads s.queues
  state : StateInv s.threads s.runq s.curthr

section Queues

variable {ths : Nat → Option Kthread} {qs : Nat → Ktqueue} {t q : Nat} {x y : Kthread}

theorem dropLast_eq_erase {l : List Nat} (hn : l.Nodup) (hl : l.getLast? = some t) :
    l.dropLast = l.erase t := by
  obtain ⟨d, rfl⟩ := List.getLast?_eq_some_iff.1 hl
  have ht : t ∉ d := fun h => List.disjoint_of_nodup_append hn h (List.mem_singleton_self t)
  simp [List.erase_append_right _ ht]

theorem QueueInv.not_mem (h : QueueInv ths qs) (ht : ths t = some x) (hw : x.ktWchan = none)
    (q : Nat) : t ∉ (qs q).tqList := by
  simp [h.mem_iff, ht, hw]

theorem QueueInv.queue_unique (h : QueueInv ths qs) {q q' : Nat} (h₁ : t ∈ (qs q).tqList)
    (h₂ : t ∈ (qs q').tqList) : q = q' := by
  obtain ⟨x, hx, hw⟩ := (h.mem_iff q t).1 h₁
  obtain ⟨x', hx', hw'⟩ := (h.mem_iff q' t).1 h₂
  rw [hx] at hx'
  cases hx'
  exact Option.some.inj (hw.symm.trans hw')

theorem QueueInv.update_thread (h : QueueInv ths qs)
    (hy : ∀ q, y.ktWchan = some q ↔ t ∈ (qs q).tqList) : QueueInv (update ths t (some y)) qs :=
  ⟨h.size_eq, h.nodup, fun q t' => by
    by_cases e : t' = t
    · subst e; simp [hy]
    · simp [update_noteq e, h.mem_iff]⟩

/-- `ktqueue_enqueue`'s list and size update keeps the bookkeeping. -/
theorem QueueInv.enqueue (h : QueueInv ths qs) (hx : ∀ q, t ∉ (qs q).tqList)
    (hy : y.ktWchan = some q) :
    QueueInv (update ths t (some y)) (update qs q ⟨t :: (qs q).tqList, (qs q).tqSize + 1⟩) where
  size_eq q' := by
    by_cases e : q' = q
    · subst e; simp [h.size_eq]
    · simp [e, h.size_eq]
  nodup q' := by
    by_cases e : q' = q
    · subst e; simp [hx, h.nodup]
    · simp [e, h.nodup]
  mem_iff q' t' := by
    by_cases e : t' = t
    · subst e
      by_cases e' : q' = q
      · subst e'; simp [hy]
      · simp [update_noteq e', hx, hy, Ne.symm e']
    · by_cases e' : q' = q
      · subst e'; simp [update_noteq e, e, h.mem_iff]
      · simp [update_noteq e, update_noteq e', h.mem_iff]

/-- `ktqueue_remove`'s list and size update keeps the bookkeeping. -/
theorem QueueInv.remove (h : QueueInv ths qs) (hm : t ∈ (qs q).tqList) (hy : y.ktWchan = none) :
    QueueInv (update ths t (some y)) (update qs q ⟨(qs q).tqList.erase t, (qs q).tqSize - 1⟩) where
  size_eq q' := by
    by_cases e : q' = q
    · subst e; simp [h.size_eq, hm]
    · simp [e, h.size_eq]
  nodup q' := by
    by_cases e : q' = q
    · subst e; simpa using (h.nodup q').erase t
    · simp [e, h.nodup]
  mem_iff q' t' := by
    by_cases e : t' = t
    · subst e
      by_cases e' : q' = q
      · subst e'; simp [hy, (h.nodup q').mem_erase_iff]
      · simpa [update_noteq e', hy] using fun hm' => e' (h.queue_unique hm' hm)
    · by_cases e' : q' = q
      · subst e'; simp [update_noteq e, (h.nodup q').mem_erase_iff, e, h.mem_iff]
      · simp [update_noteq e, update_noteq e', h.mem_iff]

theorem QueueInv.dequeue (h : QueueInv ths qs) (hl : (qs q).tqList.getLast? = some t)
    (hy : y.ktWchan = none) :
    QueueInv (update ths t (some y)) (update qs q ⟨(qs q).tqList.dropLast, (qs q).tqSize - 1⟩) := by
  rw [dropLast_eq_erase (h.nodup q) hl]
  exact h.remove (List.mem_of_getLast?_eq_some hl) hy

end Queues

section States

variable {ths : Nat → Option Kthread} {runq t : Nat} {cur : Option Nat} {x y : Kthread}

theorem StateInv.onCpu_iff (h : StateInv ths runq cur) (hx : ths t = some x) :
    x.ktState = .onCpu ↔ cur = some t :=
  ⟨h.onCpu_cur t x hx, fun hc => by
    obtain ⟨x', hx', hs⟩ := h.cur_onCpu t hc
    rw [hx] at hx'
    cases hx'
    exact hs⟩

theorem StateInv.wchan_of_onCpu (h : StateInv ths runq cur) (hx : ths t = some x)
    (hs : x.ktState = .onCpu) : x.ktWchan = none := by
  cases hw : x.ktWchan with
  | none => rfl
  | some q => exact absurd hs (h.wchan_state t x q hx hw).ne_onCpu

/-- Replacing one thread keeps the state invariant when the new thread fits its queue, runs iff
it is the new current thread, and the current thread changes at most to or from it. -/
theorem StateInv.replace (h : StateInv ths runq cur) {c : Option Nat}
    (hw : ∀ q, y.ktWchan = some q → QueueStateOk runq q y.ktState)
    (hon : y.ktState = .onCpu ↔ c = some t)
    (hc : ∀ t', t' ≠ t → (c = some t' ↔ cur = some t')) :
    StateInv (update ths t (some y)) runq c where
  wchan_state t' x q hx hq := by
    by_cases e : t' = t
    · subst e; simp only [update_same, Option.some.injEq] at hx; subst hx; exact hw q hq
    · rw [update_noteq e] at hx; exact h.wchan_state t' x q hx hq
  onCpu_cur t' x hx hs := by
    by_cases e : t' = t
    · subst e; simp only [update_same, Option.some.injEq] at hx; subst hx; exact hon.1 hs
    · rw [update_noteq e] at hx; exact (hc t' e).2 (h.onCpu_cur t' x hx hs)
  cur_onCpu t' hc' := by
    by_cases e : t' = t
    · subst e; exact ⟨y, by simp, hon.2 hc'⟩
    · rw [update_noteq e]; exact h.cur_onCpu t' ((hc t' e).1 hc')

theorem StateInv.unqueue (h : StateInv ths runq cur) (hx : ths t = some x)
    (hs : y.ktState = x.ktState) (hw : y.ktWchan = none) :
    StateInv (update ths t (some y)) runq cur :=
  h.replace (by simp [hw]) (hs ▸ h.onCpu_iff hx) (fun _ _ => Iff.rfl)

end States

/-! ## Each call keeps the invariant -/

section Steps

variable {s s' : Sched} {t q : Nat} {x y : Kthread}

theorem SchedInv.dequeue {r : Option Nat} (h : SchedInv s) (hd : ktqueueDequeue s q = some (r, s')) :
    SchedInv s' := by
  rcases ktqueueDequeue_eq_some hd with ⟨-, -, rfl⟩ | ⟨t, x, -, hl, hx, rfl⟩
  · exact h
  · exact ⟨h.queue.dequeue hl rfl, h.state.unqueue (y := { x with ktWchan := none }) hx rfl rfl⟩

theorem SchedInv.remove (h : SchedInv s) (hr : ktqueueRemove s q t = some s') : SchedInv s' := by
  obtain ⟨x, hx, hm, rfl⟩ := ktqueueRemove_eq_some hr
  exact ⟨h.queue.remove hm rfl, h.state.unqueue (y := { x with ktWchan := none }) hx rfl rfl⟩

theorem SchedInv.setThread (h : SchedInv s) (hx : s.threads t = some x)
    (hw : y.ktWchan = x.ktWchan) (hs : y.ktState = x.ktState) : SchedInv (s.setThread t y) :=
  ⟨h.queue.update_thread fun q => by rw [hw, h.queue.mem_iff]; simp [hx],
    h.state.replace (fun q hq => hs ▸ h.state.wchan_state t x q hx (hw ▸ hq))
      (hs ▸ h.state.onCpu_iff hx) fun _ _ => Iff.rfl⟩

theorem SchedInv.create (h : SchedInv s) (ht : s.threads t = none) (p : Nat) :
    SchedInv (kthreadCreate s t p) := by
  have hc : s.curthr ≠ some t := fun hc => by
    obtain ⟨x, hx, -⟩ := h.state.cur_onCpu t hc
    simp [ht] at hx
  refine ⟨h.queue.update_thread fun q => ?_, h.state.replace (by simp) ?_ fun _ _ => Iff.rfl⟩
  · simp [h.queue.mem_iff, ht]
  · simpa [kthreadCreate] using hc

theorem SchedInv.makeRunnable (h : SchedInv s) (hm : schedMakeRunnable s t = some s') :
    SchedInv s' := by
  obtain ⟨hc, x, hx, hw, rfl⟩ := schedMakeRunnable_eq_some hm
  refine ⟨h.queue.enqueue (h.queue.not_mem hx hw) rfl, h.state.replace ?_ ?_ fun _ _ => Iff.rfl⟩
  · simp [QueueStateOk]
  · simpa using hc

theorem SchedInv.dispatch (h : SchedInv s) (hc : s.curthr = none)
    (hd : coreSwitchDispatch s = some s') : SchedInv s' := by
  rcases coreSwitchDispatch_eq_some hd with ⟨-, rfl⟩ | ⟨t, x, hl, hx, hs, rfl⟩
  · exact h
  · refine ⟨?_, ?_⟩
    · simpa using h.queue.dequeue (y := { x with ktWchan := none, ktState := .onCpu }) hl rfl
    · simpa using h.state.replace (y := { x with ktWchan := none, ktState := .onCpu })
        (c := some t) (by simp) (by simp) (fun t' e => by simp [hc, Ne.symm e])

end Steps

/-! ## How a call moves threads between queues and states -/

/-- Every thread of `ths` is still in `ths'`, its state related by `R`. -/
def Evolves (R : KtState → KtState → Prop) (ths ths' : Nat → Option Kthread) : Prop :=
  ∀ t x, ths t = some x → ∃ y, ths' t = some y ∧ R x.ktState y.ktState

/-- No queue but `woken` loses a thread. -/
def QueueKept (woken : Option Nat) (qs qs' : Nat → Ktqueue) : Prop :=
  ∀ q, woken ≠ some q → ∀ t ∈ (qs q).tqList, t ∈ (qs' q).tqList

section Frames

variable {R R' : KtState → KtState → Prop} {ths ths₁ ths₂ : Nat → Option Kthread}
  {qs qs₁ qs₂ : Nat → Ktqueue} {w : Option Nat} {t : Nat} {y : Kthread}

theorem Evolves.rfl (hR : ∀ a, R a a) : Evolves R ths ths := fun _ x hx => ⟨x, hx, hR _⟩

theorem Evolves.update (hR : ∀ a, R a a) (hy : ∀ x, ths t = some x → R x.ktState y.ktState) :
    Evolves R ths (update ths t (some y)) := by
  intro t' x hx
  by_cases e : t' = t
  · subst e; exact ⟨y, by simp, hy x hx⟩
  · exact ⟨x, by simp [update_noteq e, hx], hR _⟩

theorem Evolves.trans {R₁ R₂ : KtState → KtState → Prop} (h₁ : Evolves R₁ ths ths₁)
    (h₂ : Evolves R₂ ths₁ ths₂) (hR : ∀ a b c, R₁ a b → R₂ b c → R a c) : Evolves R ths ths₂ :=
  fun t x hx =>
    let ⟨y, hy, hxy⟩ := h₁ t x hx
    let ⟨z, hz, hyz⟩ := h₂ t y hy
    ⟨z, hz, hR _ _ _ hxy hyz⟩

theorem Evolves.mono (h : Evolves R ths ths₁) (hR : ∀ a b, R a b → R' a b) : Evolves R' ths ths₁ :=
  fun t x hx => let ⟨y, hy, hxy⟩ := h t x hx; ⟨y, hy, hR _ _ hxy⟩

theorem QueueKept.rfl : QueueKept w qs qs := fun _ _ _ h => h

theorem QueueKept.trans (h₁ : QueueKept w qs qs₁) (h₂ : QueueKept w qs₁ qs₂) :
    QueueKept w qs qs₂ :=
  fun q hq t ht => h₂ q hq t (h₁ q hq t ht)

theorem QueueKept.weaken (h : QueueKept none qs qs₁) : QueueKept w qs qs₁ :=
  fun q _ => h q nofun

theorem QueueKept.push {q : Nat} :
    QueueKept none qs (update qs q ⟨t :: (qs q).tqList, (qs q).tqSize + 1⟩) := by
  intro q' _ t' ht'
  by_cases e : q' = q
  · subst e; simp [ht']
  · simpa [update_noteq e] using ht'

end Frames

section Calls

variable {s s' s₁ : Sched} {t q : Nat} {x y : Kthread}

theorem SchedInv.wchan_state (h : SchedInv s) (hm : t ∈ (s.queues q).tqList) :
    ∃ x, s.threads t = some x ∧ QueueStateOk s.runq q x.ktState := by
  obtain ⟨x, hx, hw⟩ := (h.queue.mem_iff q t).1 hm
  exact ⟨x, hx, h.state.wchan_state t x q hx hw⟩

/-- A dequeue keeps the invariant and every state, and takes a thread only from its own queue;
the thread it returns is in a state that fits that queue. -/
theorem dequeue_step {r : Option Nat} (h : SchedInv s) (hd : ktqueueDequeue s q = some (r, s')) :
    SchedInv s' ∧ QueueKept (some q) s.queues s'.queues ∧ Evolves (· = ·) s.threads s'.threads ∧
      s'.runq = s.runq ∧ s'.curthr = s.curthr ∧
      ∀ t, r = some t → ∃ x, s'.threads t = some x ∧ QueueStateOk s.runq q x.ktState := by
  refine ⟨h.dequeue hd, ?_⟩
  rcases ktqueueDequeue_eq_some hd with ⟨-, rfl, rfl⟩ | ⟨t, x, rfl, hl, hx, rfl⟩
  · exact ⟨QueueKept.rfl, Evolves.rfl fun _ => rfl, rfl, rfl, nofun⟩
  · refine ⟨fun q' hq' t' ht' => ?_, Evolves.update (fun _ => rfl) (by simp [hx]), rfl, rfl, ?_⟩
    · have e : q' ≠ q := fun e => hq' (e ▸ rfl)
      simpa [update_noteq e] using ht'
    · rintro _ ⟨⟩
      obtain ⟨x', hx', hfit⟩ := h.wchan_state (List.mem_of_getLast?_eq_some hl)
      rw [hx] at hx'
      cases hx'
      exact ⟨{ x with ktWchan := none }, by simp, hfit⟩

/-- `sched_make_runnable` keeps the invariant, loses no queued thread, and moves only its thread,
to `KT_RUNNABLE`. -/
theorem makeRunnable_step {R : KtState → KtState → Prop} (h : SchedInv s)
    (hm : schedMakeRunnable s t = some s') (hR : ∀ a, R a a)
    (hx : ∀ x, s.threads t = some x → R x.ktState .runnable) :
    SchedInv s' ∧ QueueKept none s.queues s'.queues ∧ Evolves R s.threads s'.threads ∧
      s'.runq = s.runq ∧ s'.curthr = s.curthr := by
  refine ⟨h.makeRunnable hm, ?_⟩
  obtain ⟨-, x, hx', -, rfl⟩ := schedMakeRunnable_eq_some hm
  exact ⟨QueueKept.push, Evolves.update hR (by simpa using hx), rfl, rfl⟩

theorem wakeOne (h : SchedInv s) (hq : q ≠ s.runq) (hd : ktqueueDequeue s q = some (some t, s₁))
    (hm : schedMakeRunnable s₁ t = some s') :
    SchedInv s' ∧ QueueKept (some q) s.queues s'.queues ∧
      Evolves KtState.Wakes s.threads s'.threads ∧ s'.runq = s.runq := by
  obtain ⟨h₁, hk₁, he₁, hr₁, -, hfit⟩ := dequeue_step h hd
  obtain ⟨x, hx, hst⟩ := hfit t rfl
  simp only [QueueStateOk, if_neg hq] at hst
  obtain ⟨h₂, hk₂, he₂, hr₂, -⟩ := makeRunnable_step (R := KtState.Wakes) h₁ hm (fun _ => .inl rfl)
    fun x' hx' => by rw [hx] at hx'; cases hx'; exact .inr ⟨hst, rfl⟩
  exact ⟨h₂, hk₁.trans hk₂.weaken, he₁.trans he₂ fun a b c hab hbc => hab ▸ hbc,
    hr₂.trans hr₁⟩

theorem broadcastLoop_step {n : Nat} (h : SchedInv s) (hq : q ≠ s.runq)
    (hb : broadcastLoop q n s = some s') :
    SchedInv s' ∧ QueueKept (some q) s.queues s'.queues ∧
      Evolves KtState.Wakes s.threads s'.threads := by
  induction n generalizing s with
  | zero => cases hb
  | succ n ih =>
    rcases broadcastLoop_succ_eq_some hb with ⟨s₁, hd, rfl⟩ | ⟨t, s₁, s₂, hd, hm, hb⟩
    · obtain ⟨h₁, hk, he, -⟩ := dequeue_step h hd
      exact ⟨h₁, hk, he.mono fun a b hab => .inl hab.symm⟩
    · obtain ⟨h₂, hk₂, he₂, hr₂⟩ := wakeOne h hq hd hm
      obtain ⟨h', hk', he'⟩ := ih h₂ (hr₂ ▸ hq) hb
      exact ⟨h', hk₂.trans hk', he₂.trans he' fun _ _ _ => KtState.Wakes.trans⟩

/-- `sched_switch` after the caller has set the current thread's new state `y`: the thread
leaves the CPU along an edge of the state machine and goes onto `queue`, if any. -/
theorem switch_step {queue : Option Nat} (h : SchedInv s) (hc : s.curthr = some t)
    (hx : s.threads t = some x) (hy : y.ktWchan = x.ktWchan)
    (hn : KtState.Next .onCpu y.ktState)
    (hq : ∀ q, queue = some q → QueueStateOk s.runq q y.ktState)
    (hs : schedSwitch (s.setThread t y) queue = some s') :
    SchedInv s' ∧ QueueKept none s.queues s'.queues ∧
      Evolves KtState.Follows s.threads s'.threads := by
  obtain ⟨t', y', hc', hy', hst, hsw⟩ := schedSwitch_eq_some hs
  obtain rfl : t = t' := by simpa [hc] using hc'
  obtain rfl : y = y' := by simpa using hy'
  have hon : x.ktState = .onCpu := (h.state.onCpu_iff hx).2 hc
  have hxw : x.ktWchan = none := h.state.wchan_of_onCpu hx hon
  have hother : ∀ t', t' ≠ t → (none = some t' ↔ s.curthr = some t') := fun t' e => by
    simp [hc, Ne.symm e]
  have hev : ∀ z : Kthread, z.ktState = y.ktState →
      Evolves KtState.Follows s.threads (update s.threads t (some z)) := fun z hz =>
    Evolves.update (fun _ => .inl rfl) fun x' hx' => by
      rw [hx] at hx'; cases hx'; exact .inr (hz ▸ hon ▸ hn)
  rcases hsw with ⟨rfl, rfl⟩ | ⟨q, rfl, -, rfl⟩
  · refine ⟨⟨h.queue.update_thread ?_, h.state.replace (by simp [hy, hxw]) (by simp [hst])
      hother⟩, QueueKept.rfl, hev y rfl⟩
    simp [hy, hxw, h.queue.not_mem hx hxw]
  · refine ⟨⟨?_, ?_⟩, by simpa using QueueKept.push, by simpa using hev { y with ktWchan := some q } rfl⟩
    · simpa using h.queue.enqueue (y := { y with ktWchan := some q }) (h.queue.not_mem hx hxw) rfl
    · simpa using h.state.replace (y := { y with ktWchan := some q }) (c := none)
        (by simpa using hq q rfl) (by simp [hst]) hother

end Calls

/-! ## Every call keeps the invariant and moves threads legally -/

/-- A `KT_SLEEP` thread on a queue other than `woken` is still on it afterwards. -/
def SleepKept (woken : Option Nat) (s s' : Sched) : Prop :=
  ∀ t x q, s.threads t = some x → x.ktState = .sleep → t ∈ (s.queues q).tqList →
    woken ≠ some q → t ∈ (s'.queues q).tqList

/-- Properties (6) and (7) of one step: `KT_SLEEP` threads leave only the queue the step wakes,
every thread's state stays or follows an edge of the state machine, and `KT_EXITED` is kept. -/
structure StepOk (s : Sched) (op : SchedOp) (s' : Sched) : Prop where
  sleep_kept : SleepKept op.wakes s s'
  follows : Evolves KtState.Follows s.threads s'.threads
  exited_kept : ∀ t x, s.threads t = some x → x.ktState = .exited →
    ∃ y, s'.threads t = some y ∧ y.ktState = .exited

section Ops

variable {s s' s₁ : Sched} {t q : Nat} {x y : Kthread} {op : SchedOp}

theorem QueueKept.sleepKept {w : Option Nat} (h : QueueKept w s.queues s'.queues) :
    SleepKept w s s' :=
  fun t _ q _ _ hm hw => h q hw t hm

theorem StepOk.of (hk : SleepKept op.wakes s s') (he : Evolves KtState.Follows s.threads s'.threads) :
    StepOk s op s' :=
  ⟨hk, he, fun t x hx hs =>
    let ⟨y, hy, hf⟩ := he t x hx
    ⟨y, hy, KtState.Follows.exited (hs ▸ hf)⟩⟩

/-- `sched_cancel`, after the caller may have changed the thread's return value (`y`). -/
theorem cancel_step (h : SchedInv s) (hx : s.threads t = some x) (hyw : y.ktWchan = x.ktWchan)
    (hys : y.ktState = x.ktState) (hs : schedCancel (s.setThread t y) t = some s') :
    SchedInv s' ∧ SleepKept none s s' ∧ Evolves KtState.Follows s.threads s'.threads := by
  have h₁ := h.setThread hx hyw hys
  obtain ⟨y', hy', hcase⟩ := schedCancel_eq_some hs
  obtain rfl : y = y' := by simpa using hy'
  have hev : ∀ z : Kthread, z.ktState = x.ktState →
      Evolves (· = ·) s.threads (update s.threads t (some z)) := fun z hz =>
    Evolves.update (fun _ => rfl) fun x' hx' => by rw [hx] at hx'; cases hx'; exact hz.symm
  rcases hcase with ⟨-, rfl⟩ | ⟨hsc, q, s₂, -, hr, hm⟩
  · refine ⟨h₁.setThread (t := t) (x := y) (by simp) rfl rfl, fun _ _ _ _ _ hm _ => by simpa using hm, ?_⟩
    simpa using (hev { y with ktCancelled := true } hys).mono fun a b hab => .inl hab.symm
  · have h₂ := h₁.setThread (t := t) (x := y) (y := { y with ktCancelled := true }) (by simp) rfl rfl
    obtain ⟨y₂, hy₂, -, rfl⟩ := ktqueueRemove_eq_some hr
    simp only [Sched.setThread_setThread, Sched.setThread_threads, update_same,
      Option.some.injEq] at hy₂
    subst hy₂
    obtain ⟨h₄, hk, he, -⟩ := makeRunnable_step (R := KtState.Follows) (h₂.remove hr) hm
      (fun _ => .inl rfl) fun x' hx' => by
        simp only [Sched.setThread_threads, update_same, Option.some.injEq] at hx'
        subst hx'
        show KtState.Follows y.ktState _
        rw [hsc]
        exact .inr .wakeCancellable
    refine ⟨h₄, fun t' x' q' hx' hsl hm' _ => hk q' nofun t' ?_, ?_⟩
    · have e : t' ≠ t := by rintro rfl; rw [hx] at hx'; cases hx'; simp [← hys, hsc] at hsl
      by_cases e' : q' = q
      · subst e'; simpa [update_noteq e, (h.queue.nodup q').mem_erase_iff, e] using hm'
      · simpa [update_noteq e'] using hm'
    · exact ((by simpa using hev { y with ktCancelled := true, ktWchan := none } hys) :
        Evolves (· = ·) s.threads _).trans he fun a b c hab hbc => hab ▸ hbc

/-- The core picks the next thread, which goes from `KT_RUNNABLE` to `KT_ON_CPU`. -/
theorem dispatch_step (h : SchedInv s) (hc : s.curthr = none)
    (hd : coreSwitchDispatch s = some s') :
    SchedInv s' ∧ SleepKept none s s' ∧ Evolves KtState.Follows s.threads s'.threads := by
  refine ⟨h.dispatch hc hd, ?_⟩
  rcases coreSwitchDispatch_eq_some hd with ⟨-, rfl⟩ | ⟨t, x, hl, hx, hs, rfl⟩
  · exact ⟨QueueKept.rfl.sleepKept, Evolves.rfl fun _ => .inl rfl⟩
  · refine ⟨fun t' x' q' hx' hsl hm _ => ?_, ?_⟩
    · have e : q' ≠ s.runq := by
        rintro rfl
        obtain ⟨x'', hx'', hfit⟩ := h.wchan_state hm
        rw [hx'] at hx''
        cases hx''
        simp [QueueStateOk, hsl] at hfit
      simpa [update_noteq e] using hm
    · simpa using Evolves.update (fun _ => .inl rfl) fun x' hx' => by
        rw [hx] at hx'; cases hx'; rw [hs]; exact .inr .run

/-- One scheduler call, as its callers make it, keeps the invariant and moves threads only as
(6) and (7) allow. -/
theorem schedStep_inv (h : SchedInv s) (he : op.Enabled s) (hs : schedStep s op = some s') :
    SchedInv s' ∧ StepOk s op s' := by
  cases op with
  | kthreadCreate t p =>
    cases hs
    refine ⟨h.create he p, .of QueueKept.rfl.sleepKept (Evolves.update (fun _ => .inl rfl) ?_)⟩
    simp [SchedOp.Enabled] at he
    simp [he]
  | makeRunnable t =>
    obtain ⟨x, hx, hns⟩ := he
    obtain ⟨h', hk, he', -⟩ := makeRunnable_step (R := KtState.Follows) h hs (fun _ => .inl rfl)
      fun x' hx' => by
      rw [hx] at hx'; cases hx'; rw [hns]; exact .inr .start
    exact ⟨h', .of hk.sleepKept he'⟩
  | yield =>
    obtain ⟨t, x, hc, hx, -, hsw⟩ := schedYield_eq_some hs
    obtain ⟨h', hk, he'⟩ := switch_step (y := { x with ktState := .runnable }) h hc hx rfl .yield
      (fun q hq => by obtain rfl := Option.some.inj hq; simp [QueueStateOk]) hsw
    exact ⟨h', .of hk.sleepKept he'⟩
  | sleepOn q =>
    obtain ⟨t, x, hc, hx, hsw⟩ := schedSleepOn_eq_some hs
    obtain ⟨h', hk, he'⟩ := switch_step (y := { x with ktState := .sleep }) h hc hx rfl .sleep
      (fun q' hq' => by obtain rfl := Option.some.inj hq'; simpa [QueueStateOk] using he) hsw
    exact ⟨h', .of hk.sleepKept he'⟩
  | cancellableSleepOn q =>
    obtain ⟨t, x, hc, hx, ⟨-, rfl⟩ | ⟨-, hsw⟩⟩ := schedCancellableSleepOn_eq_some hs
    · exact ⟨h, .of QueueKept.rfl.sleepKept (Evolves.rfl fun _ => .inl rfl)⟩
    · obtain ⟨h', hk, he'⟩ := switch_step (y := { x with ktState := .sleepCancellable }) h hc hx
        rfl .sleepCancellable
        (fun q' hq' => by obtain rfl := Option.some.inj hq'; simpa [QueueStateOk] using he) hsw
      exact ⟨h', .of hk.sleepKept he'⟩
  | wakeupOn q =>
    obtain ⟨⟨r, s''⟩, hw, rfl⟩ := Option.map_eq_some'.1 hs
    rcases schedWakeupOn_eq_some hw with ⟨-, -, rfl⟩ | ⟨t, s₁, -, hd, hm⟩
    · exact ⟨h, .of QueueKept.rfl.sleepKept (Evolves.rfl fun _ => .inl rfl)⟩
    · obtain ⟨h', hk, he', -⟩ := wakeOne h he hd hm
      exact ⟨h', .of hk.sleepKept (he'.mono fun _ _ => KtState.Wakes.follows)⟩
  | broadcastOn q =>
    obtain ⟨h', hk, he'⟩ := broadcastLoop_step h he hs
    exact ⟨h', .of hk.sleepKept (he'.mono fun _ _ => KtState.Wakes.follows)⟩
  | cancel t =>
    obtain ⟨x, hx, -⟩ := schedCancel_eq_some hs
    have hself : s.setThread t x = s := by
      cases s; simp only [Sched.setThread, Sched.mk.injEq, and_true]; rw [← hx, update_eq_self]
    obtain ⟨h', hk, he'⟩ := cancel_step h hx rfl rfl (hself.symm ▸ hs)
    exact ⟨h', .of hk he'⟩
  | kthreadCancel t r =>
    obtain ⟨-, x, hx, hc⟩ := kthreadCancel_eq_some hs
    obtain ⟨h', hk, he'⟩ := cancel_step (y := { x with ktRetval := r }) h hx rfl rfl hc
    exact ⟨h', .of hk he'⟩
  | exit r =>
    obtain ⟨t, x, hc, hx, hsw⟩ := threadExit_eq_some hs
    obtain ⟨h', hk, he'⟩ := switch_step (y := { x with ktState := .exited, ktRetval := r }) h hc hx
      rfl .exit (by intro _ h; cases h) hsw
    exact ⟨h', .of hk.sleepKept he'⟩
  | dispatch =>
    obtain ⟨h', hk, he'⟩ := dispatch_step h he hs
    exact ⟨h', .of hk he'⟩

end Ops

/-! ## Reachable states -/

theorem SchedInv.init (runq : Nat) : SchedInv (Sched.init runq) :=
  ⟨⟨fun _ => rfl, fun _ => List.nodup_nil, fun _ _ => by simp [Sched.init]⟩,
    ⟨fun _ _ _ h => (by cases h), fun _ _ h => (by cases h), fun _ h => (by cases h)⟩⟩

theorem SchedReachable.inv {s : Sched} (h : SchedReachable s) : SchedInv s := by
  induction h with
  | init runq => exact SchedInv.init runq
  | step _ _ he hs ih => exact (schedStep_inv ih he hs).1

/-- Properties (1) to (5) of a scheduler state: each thread is on at most one queue and at most
once, only threads are queued and `kt_wchan` names their queue, `tq_size` is the list length,
the run queue holds `KT_RUNNABLE` threads and the wait queues sleeping ones, and the one
`KT_ON_CPU` thread, if any, is `curthr`. -/
structure SchedSafe (s : Sched) : Prop where
  one_queue : ∀ t q q', t ∈ (s.queues q).tqList → t ∈ (s.queues q').tqList → q = q'
  nodup : ∀ q, (s.queues q).tqList.Nodup
  queued_live : ∀ q t, t ∈ (s.queues q).tqList → ∃ x, s.threads t = some x
  wchan_iff : ∀ t x, s.threads t = some x → ∀ q, x.ktWchan = some q ↔ t ∈ (s.queues q).tqList
  size_eq : ∀ q, (s.queues q).tqSize = (s.queues q).tqList.length
  runq_runnable : ∀ t ∈ (s.queues s.runq).tqList,
    ∃ x, s.threads t = some x ∧ x.ktState = .runnable
  wait_sleeping : ∀ q, q ≠ s.runq → ∀ t ∈ (s.queues q).tqList,
    ∃ x, s.threads t = some x ∧ (x.ktState = .sleep ∨ x.ktState = .sleepCancellable)
  one_onCpu : ∀ t t' x x', s.threads t = some x → s.threads t' = some x' →
    x.ktState = .onCpu → x'.ktState = .onCpu → t = t'
  onCpu_curthr : ∀ t x, s.threads t = some x → x.ktState = .onCpu → s.curthr = some t

theorem SchedInv.safe {s : Sched} (h : SchedInv s) : SchedSafe s where
  one_queue _ _ _ := h.queue.queue_unique
  nodup := h.queue.nodup
  queued_live q t hm := let ⟨x, hx, _⟩ := (h.queue.mem_iff q t).1 hm; ⟨x, hx⟩
  wchan_iff t x hx q := by rw [h.queue.mem_iff]; simp [hx]
  size_eq := h.queue.size_eq
  runq_runnable _ hm :=
    let ⟨x, hx, hf⟩ := h.wchan_state hm
    ⟨x, hx, by simpa [QueueStateOk] using hf⟩
  wait_sleeping _ hq _ hm :=
    let ⟨x, hx, hf⟩ := h.wchan_state hm
    ⟨x, hx, by simpa [QueueStateOk, hq] using hf⟩
  one_onCpu t t' x x' hx hx' hs hs' :=
    Option.some.inj ((h.state.onCpu_cur t x hx hs).symm.trans (h.state.onCpu_cur t' x' hx' hs'))
  onCpu_curthr := h.state.onCpu_cur

theorem sched_reachable_safe {s : Sched} (h : SchedReachable s) :
    SchedSafe s ∧ ∀ op s', op.Enabled s → schedStep s op = some s' → StepOk s op s' :=
  ⟨h.inv.safe, fun _ _ he hs => (schedStep_inv h.inv he hs).2⟩

/-- A thread created, made runnable and dispatched runs in a state the theorem covers. -/
theorem sched_safe_running_thread :
    ∃ s, SchedReachable s ∧ s.curthr = some 1 ∧ SchedSafe s ∧
      ∀ op s', op.Enabled s → schedStep s op = some s' → StepOk s op s' :=
  have h : SchedReachable _ :=
    .step .dispatch (.step (.makeRunnable 1) (.step (.kthreadCreate 1 0) (.init 0) rfl rfl)
      ⟨_, rfl, rfl⟩ rfl) rfl rfl
  ⟨_, h, rfl, sched_reachable_safe h⟩

end Weenix
