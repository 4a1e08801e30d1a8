import Weenix.Proc.Threads

/-!
# The process tree

`proc_create` links a new process into its parent's `p_children` and points its `p_pproc` at the
parent; `proc_cleanup` hands the children of an exiting process to `proc_initproc`; `do_waitpid`
unlinks a reaped child and `proc_destroy` frees it. The links stay sound over every run of the
system from boot.

1. `TreeInv`: every thread belongs to a process on `proc_list` whose `p_threads` holds it; each
   process on the list has a parent, the idle process or one on the list, whose `p_children`
   holds it, and whose every child names it as parent; a parent other than `idle` and `init`
   has a thread that has not exited; the idle process's only child is `init`.
2. The calls that change no link keep it (`ProcSys.KeepsTree`); `proc_create`, `proc_destroy`,
   the end of `proc_cleanup` and `kthread_create` have their own lemmas. The key case is a reap:
   `kthread_destroy` panics on a thread that has not exited, so a process `proc_destroy` gets
   through has no child on the list (`TreeInv.destroyThreads`). An exiting process hands every
   child to `init` first (`TreeInv.reparent`), so its thread may exit (`TreeInv.threadExit`).
3. So every step keeps `TreeInv` (`TreeInv.procStep`), which holds in every reachable state
   (`ProcReachable.treeInv`, `proc_reachable_tree`).
-/

namespace Weenix

open Function

/-! ## Threads that have not exited -/

/-- Every thread of `s` that has not exited is still in `s'`, not exited. -/
def Sched.KeepsLive (s s' : Sched) : Prop :=
  ∀ a x, s.threads a = some x → x.ktState ≠ .exited →
    ∃ y, s'.threads a = some y ∧ y.ktState ≠ .exited

namespace Sched.KeepsLive

variable {s s' s'' : Sched} {t : Nat} {x y : Kthread}

theorem refl (s : Sched) : s.KeepsLive s := fun _ x h hx => ⟨x, h, hx⟩

theorem trans (h₁ : s.KeepsLive s') (h₂ : s'.KeepsLive s'') : s.KeepsLive s'' := fun a x h hx =>
  let ⟨y, hy, hy'⟩ := h₁ a x h hx
  h₂ a y hy hy'

theorem of_threads (h : s'.threads = s.threads) : s.KeepsLive s' :=
  fun _ x hx hs => ⟨x, h ▸ hx, hs⟩

theorem of_update (h : s'.threads = update s.threads t (some y))
    (hy : ∀ x, s.threads t = some x → x.ktState ≠ .exited → y.ktState ≠ .exited) :
    s.KeepsLive s' := fun a x hx hs => by
  rw [h]
  by_cases e : a = t
  · subst e; exact ⟨y, update_same _ _ _, hy x hx hs⟩
  · exact ⟨x, by rw [update_noteq e, hx], hs⟩

theorem same (h : s'.threads = update s.threads t (some y)) (hx : s.threads t = some x)
    (hy : y.ktState = x.ktState) : s.KeepsLive s' :=
  of_update h fun x' hx' hs => by rw [hx, Option.some.injEq] at hx'; rwa [hy, hx']

theorem state (h : s'.threads = update s.threads t (some y)) (hy : y.ktState ≠ .exited) :
    s.KeepsLive s' :=
  of_update h fun _ _ _ => hy

end Sched.KeepsLive

section Live

variable {s s' : Sched} {q t : Nat}

theorem ktqueueDequeue_keepsLive {r : Option Nat} (h : ktqueueDequeue s q = some (r, s')) :
    s.KeepsLive s' := by
  rcases ktqueueDequeue_eq_some h with ⟨-, -, rfl⟩ | ⟨t, x, -, -, hx, rfl⟩
  exacts [.refl _, .same rfl hx rfl]

theorem schedMakeRunnable_keepsLive (h : schedMakeRunnable s t = some s') : s.KeepsLive s' := by
  obtain ⟨-, x, -, -, rfl⟩ := schedMakeRunnable_eq_some h
  exact .state rfl nofun

theorem schedSwitch_keepsLive {queue : Option Nat} (h : schedSwitch s queue = some s') :
    s.KeepsLive s' := by
  obtain ⟨t, x, -, hx, -, ⟨-, rfl⟩ | ⟨q, -, -, rfl⟩⟩ := schedSwitch_eq_some h
  exacts [.of_threads rfl, .same rfl hx rfl]

theorem coreSwitchDispatch_keepsLive (h : coreSwitchDispatch s = some s') : s.KeepsLive s' := by
  rcases coreSwitchDispatch_eq_some h with ⟨-, rfl⟩ | ⟨t, x, -, -, -, rfl⟩
  exacts [.refl _, .state rfl nofun]

theorem schedYield_keepsLive (h : schedYield s = some s') : s.KeepsLive s' := by
  obtain ⟨t, x, -, -, -, h⟩ := schedYield_eq_some h
  have h₁ : s.KeepsLive (s.setThread t { x with ktState := .runnable }) := .state rfl nofun
  exact h₁.trans (schedSwitch_keepsLive h)

theorem schedSleepOn_keepsLive (h : schedSleepOn s q = some s') : s.KeepsLive s' := by
  obtain ⟨t, x, -, -, h⟩ := schedSleepOn_eq_some h
  have h₁ : s.KeepsLive (s.setThread t { x with ktState := .sleep }) := .state rfl nofun
  exact h₁.trans (schedSwitch_keepsLive h)

theorem schedCancellableSleepOn_keepsLive (h : schedCancellableSleepOn s q = some s') :
    s.KeepsLive s' := by
  obtain ⟨t, x, -, -, ⟨-, rfl⟩ | ⟨-, h⟩⟩ := schedCancellableSleepOn_eq_some h
  · exact .refl _
  have h₁ : s.KeepsLive (s.setThread t { x with ktState := .sleepCancellable }) := .state rfl nofun
  exact h₁.trans (schedSwitch_keepsLive h)

theorem schedWakeupOn_keepsLive {r : Option Nat} (h : schedWakeupOn s q = some (r, s')) :
    s.KeepsLive s' := by
  rcases schedWakeupOn_eq_some h with ⟨-, -, rfl⟩ | ⟨t, s₁, -, hd, hm⟩
  exacts [.refl _, (ktqueueDequeue_keepsLive hd).trans (schedMakeRunnable_keepsLive hm)]

theorem broadcastLoop_keepsLive : ∀ {n : Nat} {s s' : Sched}, broadcastLoop q n s = some s' →
    s.KeepsLive s'
  | 0, _, _, h => by cases h
  | n + 1, s, s', h => by
    rcases broadcastLoop_succ_eq_some h with ⟨s₁, hd, rfl⟩ | ⟨t, s₁, s₂, hd, hm, h⟩
    · exact ktqueueDequeue_keepsLive hd
    · exact ((ktqueueDequeue_keepsLive hd).trans (schedMakeRunnable_keepsLive hm)).trans
        (broadcastLoop_keepsLive h)

end Live

theorem Sched.Within.of_some {s s' : Sched} (hw : s.Within s') {a : Nat} {x' : Kthread}
    (hx' : s'.threads a = some x') : ∃ x, s.threads a = some x ∧ x'.ktProc = x.ktProc := by
  rcases hs : s.threads a with _ | x
  · rw [hw.none_kept a hs] at hx'; cases hx'
  · obtain ⟨y, hy, hyp⟩ := hw.proc_kept a x hs
    rw [hy, Option.some.injEq] at hx'
    exact ⟨x, rfl, hx' ▸ hyp⟩

/-! ## The invariant -/

/-- The links of a process that the tree reads: its pid, parent, children and threads. -/
def Proc.links (p : Proc) : Nat × Option Nat × List Nat × List Nat :=
  (p.pPid, p.pPproc, p.pChildren, p.pThreads)

theorem Proc.links_eq {x y : Proc} : x.links = y.links ↔
    x.pPid = y.pPid ∧ x.pPproc = y.pPproc ∧ x.pChildren = y.pChildren ∧ x.pThreads = y.pThreads := by
  simp [Proc.links]

/-- What a thread's place in the code says about the tree: a thread asleep in `proc_cleanup`
releases its own process, one asleep in `proc_destroy` does not destroy the idle process, and the
child a thread waits for in `do_waitpid` is neither `idle` nor `init`, at an address the
allocator has handed out. -/
def PcOk (s : ProcSys) (t : Nat) : Pc → Prop
  | .release q _ _ .cleanup => ∀ w, s.sched.threads t = some w → w.ktProc = q
  | .release q _ _ .destroy => q ≠ idleAddr
  | .waitChild c => c ≠ idleAddr ∧ s.table.initproc ≠ some c ∧ c < s.table.slab.next
  | _ => True

/-- The process tree. Every thread belongs to a process on `proc_list` that lists it. The idle
process has pid `0`, no parent, and `init` for its only child once `init` exists. Every process
on the list has a parent, the idle process or one on the list, that lists it among its children;
every child of a process names it as parent and was handed out by the allocator. A parent other
than `idle` and `init` has a thread that has not exited. Every thread's place is `PcOk`. Before
`init` there is no process and `next_pid` is still `PID_INIT`; after, `init` is on the list with
pid `PID_INIT`, child of idle. -/
structure TreeInv (s : ProcSys) : Prop where
  listed : ∀ th x, s.sched.threads th = some x →
    ∃ p, s.table.procs x.ktProc = some p ∧ th ∈ p.pThreads
  proc_listed : ∀ th x, s.sched.threads th = some x → x.ktProc ∈ s.table.procList
  idle : ∃ ι, s.table.procs idleAddr = some ι ∧ ι.pPid = pidIdle ∧ ι.pPproc = none ∧
    ι.pChildren = s.table.initproc.toList
  parent : ∀ a ∈ s.table.procList, ∀ x, s.table.procs a = some x →
    ∃ pp y, x.pPproc = some pp ∧ s.table.procs pp = some y ∧ a ∈ y.pChildren ∧
      (pp = idleAddr ∨ pp ∈ s.table.procList)
  child : ∀ q y c z, s.table.procs q = some y → c ∈ y.pChildren → s.table.procs c = some z →
    z.pPproc = some q
  allocated : ∀ q y, s.table.procs q = some y → ∀ c ∈ y.pChildren, c < s.table.slab.next
  active : ∀ a ∈ s.table.procList, ∀ x pp, s.table.procs a = some x → x.pPproc = some pp →
    pp ≠ idleAddr → s.table.initproc ≠ some pp →
    ∃ th w, s.sched.threads th = some w ∧ w.ktProc = pp ∧ w.ktState ≠ .exited
  pc_ok : ∀ t, PcOk s t (s.pc t)
  boot : s.table.initproc = none → s.table.procList = [] ∧ s.table.nextPid = pidInit
  init : ∀ i, s.table.initproc = some i → i ∈ s.table.procList ∧
    ∃ z, s.table.procs i = some z ∧ z.pPid = pidInit ∧ z.pPproc = some idleAddr

/-- A place that is `PcOk` stays so while the thread keeps its process, no address the allocator
had handed out becomes `proc_initproc`, and the allocator does not go back. -/
theorem PcOk.mono {s s' : ProcSys} {t : Nat} {c : Pc}
    (hw : ∀ x', s'.sched.threads t = some x' → ∃ x, s.sched.threads t = some x ∧ x'.ktProc = x.ktProc)
    (hi : ∀ a, s'.table.initproc = some a → a < s.table.slab.next → s.table.initproc = some a)
    (hn : s.table.slab.next ≤ s'.table.slab.next) (h : PcOk s t c) : PcOk s' t c := by
  unfold PcOk at h ⊢
  split at h
  · intro w' hw'
    obtain ⟨w, hw, hp⟩ := hw w' hw'
    exact hp.trans (h w hw)
  · exact h
  · exact ⟨h.1, fun e => h.2.1 (hi _ e h.2.2), h.2.2.trans_le hn⟩
  · trivial

/-- `s'` keeps the links of `s`: `proc_list`, `proc_initproc`, each process's links and, before
`init`, `next_pid`; the allocator does not go back; every thread stays with its process and, if it had not
exited, does not exit; and a thread's place in `s'` is its place in `s`, or `PcOk`. -/
structure ProcSys.KeepsTree (s s' : ProcSys) : Prop where
  list : s'.table.procList = s.table.procList
  initproc : s'.table.initproc = s.table.initproc
  nextPid : s'.table.initproc = none → s'.table.nextPid = s.table.nextPid
  slab : s.table.slab.next ≤ s'.table.slab.next
  links : ∀ a, (s'.table.procs a).map Proc.links = (s.table.procs a).map Proc.links
  within : s.sched.Within s'.sched
  live : s.sched.KeepsLive s'.sched
  pc : ∀ t, s'.pc t = s.pc t ∨ PcOk s' t (s'.pc t)

namespace ProcSys.KeepsTree

variable {s s' s'' : ProcSys}

theorem refl (s : ProcSys) : KeepsTree s s :=
  ⟨rfl, rfl, fun _ => rfl, le_rfl, fun _ => rfl, .refl _, .refl _, fun _ => .inl rfl⟩

theorem pcOk (h : KeepsTree s s') {t : Nat} {c : Pc} : PcOk s t c → PcOk s' t c :=
  PcOk.mono (fun _ => h.within.of_some) (fun _ e _ => h.initproc ▸ e) h.slab

theorem trans (h₁ : KeepsTree s s') (h₂ : KeepsTree s' s'') : KeepsTree s s'' where
  list := h₂.list.trans h₁.list
  initproc := h₂.initproc.trans h₁.initproc
  nextPid hn := (h₂.nextPid hn).trans (h₁.nextPid (h₂.initproc ▸ hn))
  slab := h₁.slab.trans h₂.slab
  links a := (h₂.links a).trans (h₁.links a)
  within := h₁.within.trans h₂.within
  live := h₁.live.trans h₂.live
  pc t := by
    rcases h₂.pc t with e | h
    · rcases h₁.pc t with e' | h'
      · exact .inl (e.trans e')
      · exact .inr (e ▸ h₂.pcOk h')
    · exact .inr h

theorem of_sched (hw : s.sched.Within s'.sched) (hl : s.sched.KeepsLive s'.sched)
    (ht : s'.table = s.table) (hpc : s'.pc = s.pc) : KeepsTree s s' :=
  ⟨by rw [ht], by rw [ht], fun _ => by rw [ht], by rw [ht], fun _ => by rw [ht], hw, hl,
    fun _ => .inl (by rw [hpc])⟩

theorem of_table (hp : ∀ a, (s'.table.procs a).map Proc.links = (s.table.procs a).map Proc.links)
    (hl : s'.table.procList = s.table.procList) (hi : s'.table.initproc = s.table.initproc)
    (hn : s'.table.nextPid = s.table.nextPid) (hsl : s'.table.slab = s.table.slab)
    (hs : s'.sched = s.sched) (hpc : s'.pc = s.pc) : KeepsTree s s' :=
  ⟨hl, hi, fun _ => hn, by rw [hsl], hp, hs ▸ .refl _, hs ▸ .refl _, fun _ => .inl (by rw [hpc])⟩

theorem setProc {a : Nat} {x y : Proc} (hx : s.table.procs a = some x) (hy : y.links = x.links) :
    KeepsTree s (s.setProc a y) := by
  refine of_table (fun b => ?_) rfl rfl rfl rfl rfl rfl
  by_cases e : b = a
  · subst e; simp [hx, hy]
  · simp [e]

theorem setPc {t : Nat} {c : Pc} (hc : PcOk s t c) : KeepsTree s (s.setPc t c) := by
  refine ⟨rfl, rfl, fun _ => rfl, le_rfl, fun _ => rfl, .refl _, .refl _, fun t' => ?_⟩
  by_cases e : t' = t
  · subst e
    rw [setPc_pc, update_same]
    exact .inr hc
  · rw [setPc_pc, update_noteq e]
    exact .inl rfl

theorem setPc_run {t : Nat} : KeepsTree s (s.setPc t .run) := setPc trivial

end ProcSys.KeepsTree

open ProcSys (KeepsTree)

theorem TreeInv.keeps {s s' : ProcSys} (h : TreeInv s) (hk : KeepsTree s s') : TreeInv s' := by
  have back : ∀ {a : Nat} {x' : Proc}, s'.table.procs a = some x' →
      ∃ x, s.table.procs a = some x ∧ x'.links = x.links := fun {a x'} hx' => by
    have e := hk.links a
    rw [hx'] at e
    rcases hx : s.table.procs a with _ | x <;> rw [hx] at e
    · cases e
    · exact ⟨x, rfl, Option.some.inj e⟩
  have forth : ∀ {a : Nat} {x : Proc}, s.table.procs a = some x →
      ∃ x', s'.table.procs a = some x' ∧ x'.links = x.links := fun {a x} hx => by
    have e := hk.links a
    rw [hx] at e
    rcases hx' : s'.table.procs a with _ | x' <;> rw [hx'] at e
    · cases e
    · exact ⟨x', rfl, Option.some.inj e⟩
  have alive : ∀ th w, s.sched.threads th = some w → w.ktState ≠ .exited →
      ∃ w', s'.sched.threads th = some w' ∧ w'.ktProc = w.ktProc ∧ w'.ktState ≠ .exited :=
    fun th w hw hs => by
      obtain ⟨w', hw', hs'⟩ := hk.live th w hw hs
      obtain ⟨y, hy, hyp⟩ := hk.within.proc_kept th w hw
      rw [hw', Option.some.injEq] at hy
      exact ⟨w', hw', hy ▸ hyp, hs'⟩
  constructor
  · intro th x' hx'
    obtain ⟨x, hx, hp⟩ := hk.within.of_some hx'
    obtain ⟨p, hp', hm⟩ := h.listed th x hx
    obtain ⟨p', hp'', hl⟩ := forth hp'
    exact ⟨p', hp ▸ hp'', (Proc.links_eq.1 hl).2.2.2 ▸ hm⟩
  · intro th x' hx'
    obtain ⟨x, hx, hp⟩ := hk.within.of_some hx'
    rw [hk.list, hp]
    exact h.proc_listed th x hx
  · obtain ⟨ι, hι, h0, hn, hc⟩ := h.idle
    obtain ⟨ι', hι', hl⟩ := forth hι
    obtain ⟨h0', hn', hc', -⟩ := Proc.links_eq.1 hl
    exact ⟨ι', hι', h0' ▸ h0, hn' ▸ hn, by rw [hc', hc, hk.initproc]⟩
  · intro a ha x' hx'
    rw [hk.list] at ha
    obtain ⟨x, hx, hl⟩ := back hx'
    obtain ⟨pp, y, hpp, hy, hm, hpl⟩ := h.parent a ha x hx
    obtain ⟨y', hy', hl'⟩ := forth hy
    exact ⟨pp, y', (Proc.links_eq.1 hl).2.1 ▸ hpp, hy', (Proc.links_eq.1 hl').2.2.1 ▸ hm,
      hk.list ▸ hpl⟩
  · intro q y' c z' hy' hc hz'
    obtain ⟨y, hy, hl⟩ := back hy'
    obtain ⟨z, hz, hl'⟩ := back hz'
    rw [(Proc.links_eq.1 hl').2.1]
    exact h.child q y c z hy ((Proc.links_eq.1 hl).2.2.1 ▸ hc) hz
  · intro q y' hy' c hc
    obtain ⟨y, hy, hl⟩ := back hy'
    exact (h.allocated q y hy c ((Proc.links_eq.1 hl).2.2.1 ▸ hc)).trans_le hk.slab
  · intro a ha x' pp hx' hpp hi hni
    rw [hk.list] at ha
    obtain ⟨x, hx, hl⟩ := back hx'
    obtain ⟨th, w, hw, hwp, hws⟩ :=
      h.active a ha x pp hx ((Proc.links_eq.1 hl).2.1 ▸ hpp) hi (hk.initproc ▸ hni)
    obtain ⟨w', hw', hwp', hws'⟩ := alive th w hw hws
    exact ⟨th, w', hw', hwp'.trans hwp, hws'⟩
  · intro t
    rcases hk.pc t with e | hp
    exacts [e ▸ hk.pcOk (h.pc_ok t), hp]
  · intro hn
    rw [hk.list, hk.nextPid hn]
    exact h.boot (hk.initproc ▸ hn)
  · intro i hi
    rw [hk.initproc] at hi
    obtain ⟨hil, z, hz, hzp, hzq⟩ := h.init i hi
    obtain ⟨z', hz', hl⟩ := forth hz
    obtain ⟨hp', hq', -⟩ := Proc.links_eq.1 hl
    exact ⟨hk.list ▸ hil, z', hz', hp' ▸ hzp, hq' ▸ hzq⟩

/-! ## Calls that keep every link -/

namespace ProcSys.KeepsTree

variable {s : ProcSys}

theorem files (fs : Nat → Option File) : KeepsTree s { s with table := { s.table with files := fs } } :=
  of_table (fun _ => rfl) rfl rfl rfl rfl rfl rfl

theorem vrefs (vs : Nat → Nat) : KeepsTree s { s with table := { s.table with vrefs := vs } } :=
  of_table (fun _ => rfl) rfl rfl rfl rfl rfl rfl

end ProcSys.KeepsTree

section Keeps

variable {K : Consts} {s s' : ProcSys} {t : Nat}

theorem vlock_keepsTree {v : Nat} {b : Bool} (h : vlock s t v = some (b, s')) : KeepsTree s s' := by
  unfold vlock at h
  split at h
  · cases h; exact .of_sched (.refl _) (.refl _) rfl rfl
  · split at h
    · cases h
    · simp only [Option.bind_eq_bind, Option.bind_eq_some, Option.some.injEq] at h
      obtain ⟨_, hs, h⟩ := h
      cases h
      exact .of_sched (.of_call (.sleepOn _) hs nofun) (schedSleepOn_keepsLive hs) rfl rfl

theorem vunlock_keepsTree {v : Nat} (h : vunlock s t v = some s') : KeepsTree s s' := by
  simp only [vunlock, Option.bind_eq_bind] at h
  split at h
  · simp at h
  · simp only [Option.pure_def, Option.some_bind, Option.bind_eq_some, Option.some.injEq] at h
    obtain ⟨⟨_, _⟩, hw, rfl⟩ := h
    exact .of_sched (schedWakeupOn_within hw) (schedWakeupOn_keepsLive hw) rfl rfl

theorem releaseSlot_keepsTree {p fd : Nat} {vn : Option Nat}
    (h : releaseSlot K s p fd = some (vn, s')) : KeepsTree s s' := by
  simp only [releaseSlot, Option.bind_eq_bind, Option.bind_eq_some] at h
  obtain ⟨x, hx, h⟩ := h
  split at h
  · split at h
    · cases h; exact .refl _
    · simp only [Option.bind_eq_some, Option.some.injEq, Prod.mk.injEq] at h
      obtain ⟨⟨vn', tb⟩, hf, -, rfl⟩ := h
      rw [filePut_files hf]
      exact (KeepsTree.files _).trans (.setProc hx rfl)
  · split at h <;> cases h
    · exact .refl _
    · exact .setProc hx rfl

/-- The release loop, by a thread whose sleeping place in it is `PcOk`. -/
theorem releaseLoop_keepsTree {after : AfterRelease} {t p : Nat} :
    ∀ {n fd : Nat} {s s' : ProcSys} {b : Bool}, (∀ fd v, PcOk s t (.release p fd v after)) →
      releaseLoop K after t p n fd s = some (b, s') → KeepsTree s s'
  | 0, _, _, _, _, _, h => by cases h; exact .refl _
  | n + 1, fd, s, s', b, hj, h => by
    simp only [releaseLoop, Option.bind_eq_bind, Option.bind_eq_some] at h
    obtain ⟨⟨vn, s₁⟩, h₁, h⟩ := h
    have k₁ := releaseSlot_keepsTree h₁
    split at h
    · exact k₁.trans (releaseLoop_keepsTree (fun fd v => k₁.pcOk (hj fd v)) h)
    · simp only [Option.bind_eq_some] at h
      obtain ⟨⟨got, s₂⟩, h₂, h⟩ := h
      have k₂ := k₁.trans (vlock_keepsTree h₂)
      split at h
      · simp only [Option.bind_eq_some] at h
        obtain ⟨tb, htb, s₃, h₃, h⟩ := h
        have k₃ : KeepsTree s₂ { s₂ with table := tb } := by
          rw [vnodePutLocked_vrefs htb]; exact .vrefs _
        have k₄ := (k₂.trans k₃).trans (vunlock_keepsTree h₃)
        exact k₄.trans (releaseLoop_keepsTree (fun fd v => k₄.pcOk (hj fd v)) h)
      · cases h; exact k₂.trans (.setPc (k₂.pcOk (hj _ _)))

theorem Pc.InFileCall.pcOk {c : Pc} (hc : c.InFileCall) : PcOk s t c := by
  cases c <;> trivial

/-- A move of the file calls changes no link, and a place it sets is one of the file calls'. -/
theorem fileMove_keepsTree (h : ProcSys.FileMove s s') : KeepsTree s s' := by
  cases h with
  | file h =>
    refine ⟨h.procList, h.initproc, fun _ => h.nextPid, h.slab, h.map_procs fun _ => rfl, ?_, ?_,
      fun _ => .inl (by rw [h.pc])⟩ <;> rw [h.sched]
    exacts [.refl _, .refl _]
  | vlock h => exact vlock_keepsTree h
  | vunlock h => exact vunlock_keepsTree h
  | setPc hc => exact .setPc hc.pcOk
  | sleep hs =>
    exact .of_sched (.of_call (.cancellableSleepOn _) hs nofun) (schedCancellableSleepOn_keepsLive hs)
      rfl rfl

theorem fileMoves_keepsTree (h : Relation.ReflTransGen ProcSys.FileMove s s') : KeepsTree s s' := by
  induction h with
  | refl => exact .refl _
  | tail _ hm ih => exact ih.trans (fileMove_keepsTree hm)

end Keeps

/-! ## `proc_create` -/

section Create

variable {K : Consts} {s : ProcSys}

theorem TreeInv.idle_not_mem (h : TreeInv s) (hp : PidInv K s.table) :
    idleAddr ∉ s.table.procList := fun hm => by
  obtain ⟨p, hpa, h1, -⟩ := hp.live _ hm
  obtain ⟨ι, hι, h0, -⟩ := h.idle
  rw [ProcTable.pidAt_of_procs hι, h0, Option.some.injEq] at hpa
  rw [← hpa] at h1
  exact absurd h1 (by decide)

theorem TreeInv.initproc_ne_none (h : TreeInv s) {a : Nat} (ha : a ∈ s.table.procList) :
    s.table.initproc ≠ none := fun hn => by
  rw [(h.boot hn).1] at ha; cases ha

/-- A created process: at the allocator's next address, with an unused pid, at the tail of
`proc_list` and of `cur`'s children; every other process as it was. -/
theorem procCreate_some {t tb : ProcTable} {cur a : Nat} (hp : PidInv K t)
    (h : procCreate K t cur = some (some a, tb)) :
    ∃ x pid, a = t.slab.next ∧ t.procs a = none ∧ t.procs cur = some x ∧
      pid ∉ t.procList.map (fun b => (t.pidAt b).getD 0) ∧
      tb.procs a = some (newProc K pid cur x) ∧
      tb.procs cur = some { x with pChildren := x.pChildren ++ [a] } ∧
      (∀ b, b ≠ a → b ≠ cur → tb.procs b = t.procs b) ∧
      tb.procList = t.procList ++ [a] ∧ t.slab.next < tb.slab.next ∧
      tb.initproc = if pid = pidInit then some a else t.initproc := by
  obtain ⟨ps, pid, n', hps, hg, ⟨-, h, -⟩ | ⟨hpid, -, hslab, ⟨h, -⟩ | ⟨x, y, ha, hx, hy, hl, hpr, hi⟩⟩⟩ :=
    procCreate_eq_some K h
  · cases h
  · cases h
  obtain rfl := Option.some.inj ha
  rw [hp.pids_eq, Option.some.injEq] at hps
  subst hps
  obtain ⟨-, hfree, -⟩ := procGetid_fresh hp.next_pos hp.next_lt hg hpid
  have hna : t.procs t.slab.next = none := by
    rcases e : t.procs t.slab.next with _ | z
    · rfl
    · exact absurd (hp.allocated _ (by simp [ProcTable.pidAt, e])) (lt_irrefl _)
  have hca : cur ≠ t.slab.next := by rintro rfl; rw [hna] at hx; cases hx
  rw [update_noteq hca, hx, Option.some.injEq] at hy
  subst hy
  refine ⟨x, pid.toNat, rfl, hna, hx, hfree, ?_, ?_, fun b h₁ h₂ => ?_, hl, hslab, hi⟩
  · rw [hpr, update_noteq hca.symm, update_same]
  · rw [hpr, update_same]
  · rw [hpr, update_noteq h₂, update_noteq h₁]

/-- `proc_create` by the boot context, which creates `init`, or by a process that has a thread
that has not exited. -/
theorem TreeInv.procCreate (h : TreeInv s) (hp : PidInv K s.table) (hK : 2 ≤ K.procMaxCount)
    {cur : Nat} {r : Option Nat} {tb : ProcTable}
    (hcur : cur = idleAddr ∧ s.table.procList = [] ∧ r.isSome ∨
      ∃ th w, s.sched.threads th = some w ∧ w.ktProc = cur ∧ w.ktState ≠ .exited)
    (hc : procCreate K s.table cur = some (r, tb)) : TreeInv { s with table := tb } := by
  cases r with
  | none =>
    obtain ⟨ps, pid, n', -, -, ⟨-, -, rfl⟩ | ⟨-, -, hslab, ⟨-, hl, hpr, hi⟩ | ⟨_, _, h', -⟩⟩⟩ :=
      procCreate_eq_some K hc
    · exact h
    · have hni : s.table.initproc ≠ none := by
        rcases hcur with ⟨-, -, hr⟩ | ⟨th, w, hw, -, -⟩
        · cases hr
        · exact h.initproc_ne_none (h.proc_listed th w hw)
      exact h.keeps ⟨hl, hi, fun hn => absurd (hi.symm.trans hn) hni, hslab.le,
        fun b => by rw [hpr], .refl _, .refl _, fun _ => .inl rfl⟩
    · cases h'
  | some a =>
  obtain ⟨x, pid, rfl, ha, hx, hfree, hna, hnc, hold, hl, hslab, hi⟩ := procCreate_some hp hc
  have hal : s.table.slab.next ∉ s.table.procList := fun hm => by
    obtain ⟨_, hpa, -⟩ := hp.live _ hm
    rw [ProcTable.pidAt, ha] at hpa; cases hpa
  have hcurl : cur = idleAddr ∨ cur ∈ s.table.procList := by
    rcases hcur with ⟨hc0, -⟩ | ⟨th, w, hw, hwp, -⟩
    exacts [.inl hc0, .inr (hwp ▸ h.proc_listed th w hw)]
  have hboot : s.table.initproc = none →
      cur = idleAddr ∧ tb.initproc = some s.table.slab.next ∧ pid = pidInit := fun hn => by
    obtain ⟨hl0, hn0⟩ := h.boot hn
    obtain ⟨hpa, hia⟩ := procCreate_first hK hl0 hn0 hc
    rw [ProcTable.pidAt, hna, Option.map_some', Option.some.injEq] at hpa
    exact ⟨hcurl.resolve_right (by rw [hl0]; exact List.not_mem_nil _), hia, hpa⟩
  have hinit : s.table.initproc ≠ none → tb.initproc = s.table.initproc := fun hn => by
    obtain ⟨i, hi'⟩ := Option.ne_none_iff_exists'.1 hn
    obtain ⟨hil, z, hz, hz1, -⟩ := h.init i hi'
    have hne : pid ≠ pidInit := by
      rintro rfl
      exact hfree (List.mem_map.2 ⟨i, hil, by rw [ProcTable.pidAt_of_procs hz, hz1]; rfl⟩)
    rw [hi, if_neg hne]
  -- every process that was there keeps its pid, parent and threads, and its children or `cur`'s
  -- with the new one appended
  have old : ∀ b p, s.table.procs b = some p → ∃ p', tb.procs b = some p' ∧ p'.pPid = p.pPid ∧
      p'.pPproc = p.pPproc ∧ p'.pThreads = p.pThreads ∧
      (p'.pChildren = p.pChildren ∨ b = cur ∧ p'.pChildren = p.pChildren ++ [s.table.slab.next]) :=
    fun b p hp' => by
      have hba : b ≠ s.table.slab.next := by rintro rfl; rw [ha] at hp'; cases hp'
      by_cases hbc : b = cur
      · subst hbc
        rw [hx, Option.some.injEq] at hp'
        subst hp'
        exact ⟨_, hnc, rfl, rfl, rfl, .inr ⟨rfl, rfl⟩⟩
      · exact ⟨p, (hold b hba hbc).trans hp', rfl, rfl, rfl, .inl rfl⟩
  have new : ∀ b p', tb.procs b = some p' →
      b = s.table.slab.next ∧ p' = newProc K pid cur x ∨ ∃ p, s.table.procs b = some p ∧
        p'.pPid = p.pPid ∧ p'.pPproc = p.pPproc ∧ p'.pThreads = p.pThreads ∧
        (p'.pChildren = p.pChildren ∨ b = cur ∧ p'.pChildren = p.pChildren ++ [s.table.slab.next]) :=
    fun b p' hp' => by
      by_cases hba : b = s.table.slab.next
      · subst hba
        rw [hna, Option.some.injEq] at hp'
        exact .inl ⟨rfl, hp'.symm⟩
      by_cases hbc : b = cur
      · subst hbc
        rw [hnc, Option.some.injEq] at hp'
        subst hp'
        exact .inr ⟨x, hx, rfl, rfl, rfl, .inr ⟨rfl, rfl⟩⟩
      · rw [hold b hba hbc] at hp'
        exact .inr ⟨p', hp', rfl, rfl, rfl, .inl rfl⟩
  have hio : ∀ c, tb.initproc = some c → c < s.table.slab.next → s.table.initproc = some c :=
    fun c hc' hlt => by
      by_cases hn : s.table.initproc = none
      · rw [(hboot hn).2.1, Option.some.injEq] at hc'
        exact absurd hc' hlt.ne'
      · rwa [hinit hn] at hc'
  constructor
  · intro th w hw
    obtain ⟨p, hp', hm⟩ := h.listed th w hw
    obtain ⟨p', hp'', -, -, ht, -⟩ := old _ p hp'
    exact ⟨p', hp'', ht ▸ hm⟩
  · intro th w hw
    exact hl ▸ List.mem_append_left _ (h.proc_listed th w hw)
  · obtain ⟨ι, hι, h0, hn, hc'⟩ := h.idle
    by_cases hci : cur = idleAddr
    · subst hci
      have hn0 : s.table.initproc = none := by
        by_contra hne
        rcases hcur with ⟨-, hl0, -⟩ | ⟨th, w, hw, hwp, -⟩
        · obtain ⟨i, hi'⟩ := Option.ne_none_iff_exists'.1 hne
          have := (h.init i hi').1
          rw [hl0] at this; cases this
        · exact h.idle_not_mem hp (hwp ▸ h.proc_listed th w hw)
      rw [hx, Option.some.injEq] at hι
      subst hι
      refine ⟨_, hnc, h0, hn, ?_⟩
      rw [hc', hn0, (hboot hn0).2.1]; rfl
    · have hn0 : s.table.initproc ≠ none := fun hn0 => hci (hboot hn0).1
      have hia : idleAddr ≠ s.table.slab.next := fun e => by rw [e, ha] at hι; cases hι
      exact ⟨ι, (hold _ hia (Ne.symm hci)).trans hι, h0, hn, by rw [hc', hinit hn0]⟩
  · intro b hb p' hp'
    rw [hl] at hb ⊢
    rcases List.mem_append.1 hb with hb | hb
    · rcases new b p' hp' with ⟨rfl, -⟩ | ⟨p, hp'', -, hpp', -, -⟩
      · exact absurd hb hal
      obtain ⟨pp, y, hpp, hy, hm, hpl⟩ := h.parent b hb p hp''
      obtain ⟨y', hy', -, -, -, hch⟩ := old pp y hy
      refine ⟨pp, y', hpp' ▸ hpp, hy', ?_, hpl.imp_right (List.mem_append_left _)⟩
      rcases hch with e | ⟨-, e⟩ <;> rw [e]
      exacts [hm, List.mem_append_left _ hm]
    · rw [List.mem_singleton.1 hb, hna, Option.some.injEq] at hp'
      subst hp'
      rw [List.mem_singleton.1 hb]
      exact ⟨cur, _, rfl, hnc, List.mem_append_right _ (List.mem_singleton_self _),
        hcurl.imp_right (List.mem_append_left _)⟩
  · intro q y' c z' hy' hc' hz'
    rcases new q y' hy' with ⟨-, rfl⟩ | ⟨y, hy, -, -, -, hch⟩
    · cases hc'
    have hc'' : c ∈ y.pChildren ∨ q = cur ∧ c = s.table.slab.next := by
      rcases hch with e | ⟨hq, e⟩
      · exact .inl (e ▸ hc')
      · rw [e, List.mem_append, List.mem_singleton] at hc'
        exact hc'.imp_right fun hc' => ⟨hq, hc'⟩
    rcases hc'' with hc'' | ⟨rfl, rfl⟩
    · rcases new c z' hz' with ⟨rfl, -⟩ | ⟨z, hz, -, hzp, -⟩
      · exact absurd (h.allocated q y hy _ hc'') (lt_irrefl _)
      · rw [hzp]; exact h.child q y c z hy hc'' hz
    · rw [hna, Option.some.injEq] at hz'
      rw [← hz']; rfl
  · intro q y' hy' c hc'
    rcases new q y' hy' with ⟨-, rfl⟩ | ⟨y, hy, -, -, -, hch⟩
    · cases hc'
    rcases hch with e | ⟨-, e⟩ <;> rw [e] at hc'
    · exact (h.allocated q y hy c hc').trans hslab
    · rcases List.mem_append.1 hc' with hc' | hc'
      · exact (h.allocated q y hy c hc').trans hslab
      · rw [List.mem_singleton.1 hc']; exact hslab
  · intro b hb p' pp hp' hpp hpi hpn
    rw [hl] at hb
    rcases List.mem_append.1 hb with hb | hb
    · rcases new b p' hp' with ⟨rfl, -⟩ | ⟨p, hp'', -, hpp', -, -⟩
      · exact absurd hb hal
      rw [hinit (h.initproc_ne_none hb)] at hpn
      exact h.active b hb p pp hp'' (hpp' ▸ hpp) hpi hpn
    · rw [List.mem_singleton.1 hb, hna, Option.some.injEq] at hp'
      rw [← hp'] at hpp
      cases hpp
      rcases hcur with ⟨hc0, -⟩ | hw
      exacts [absurd hc0 hpi, hw]
  · exact fun t => PcOk.mono (s := s) (fun x hx => ⟨x, hx, rfl⟩) hio hslab.le (h.pc_ok t)
  · intro hn'
    by_cases hn : s.table.initproc = none
    · rw [(hboot hn).2.1] at hn'; cases hn'
    · rw [hinit hn] at hn'; exact absurd hn' hn
  · intro i hi'
    by_cases hn : s.table.initproc = none
    · obtain ⟨hc0, hia, hp1⟩ := hboot hn
      rw [hia, Option.some.injEq] at hi'
      subst hi' hc0
      exact ⟨hl ▸ List.mem_append_right _ (List.mem_singleton_self _), _, hna, hp1, rfl⟩
    · rw [hinit hn] at hi'
      obtain ⟨hil, z, hz, hz1, hz2⟩ := h.init i hi'
      obtain ⟨z', hz', hp', hq', -⟩ := old i z hz
      exact ⟨hl ▸ List.mem_append_left _ hil, z', hz', hp' ▸ hz1, hq' ▸ hz2⟩

end Create

/-! ## `proc_destroy` -/

/-- `kthread_destroy` of each thread of `ths`: each had exited and is gone, every other thread is
as it was, and each process keeps its pid, parent and children, and every thread it listed that
is not among `ths`. -/
structure ProcSys.Destroys (ths : List Nat) (s s' : ProcSys) : Prop where
  exited : ∀ th ∈ ths, ∃ w, s.sched.threads th = some w ∧ w.ktState = .exited
  gone : ∀ th ∈ ths, s'.sched.threads th = none
  kept : ∀ th, th ∉ ths → s'.sched.threads th = s.sched.threads th
  list : s'.table.procList = s.table.procList
  initproc : s'.table.initproc = s.table.initproc
  nextPid : s'.table.nextPid = s.table.nextPid
  slab : s'.table.slab = s.table.slab
  pc : s'.pc = s.pc
  procs : ∀ a p', s'.table.procs a = some p' → ∃ p, s.table.procs a = some p ∧
    p'.pPid = p.pPid ∧ p'.pPproc = p.pPproc ∧ p'.pChildren = p.pChildren ∧
    ∀ th ∈ p.pThreads, th ∉ ths → th ∈ p'.pThreads
  procs_some : ∀ a p, s.table.procs a = some p → ∃ p', s'.table.procs a = some p'

namespace ProcSys.Destroys

variable {ths : List Nat} {s s₁ s' : ProcSys}

theorem nil (s : ProcSys) : Destroys [] s s :=
  ⟨nofun, nofun, fun _ _ => rfl, rfl, rfl, rfl, rfl, rfl,
    fun _ p h => ⟨p, h, rfl, rfl, rfl, fun _ hm _ => hm⟩, fun _ p h => ⟨p, h⟩⟩

theorem cons {th : Nat} (h₁ : Destroys [th] s s₁) (h₂ : Destroys ths s₁ s') :
    Destroys (th :: ths) s s' where
  exited th' hm := by
    rcases List.mem_cons.1 hm with rfl | hm
    · exact h₁.exited th' (List.mem_singleton_self _)
    obtain ⟨w, hw, hex⟩ := h₂.exited th' hm
    have hne : th' ∉ [th] := fun e => by
      rw [h₁.gone th' e] at hw; cases hw
    exact ⟨w, (h₁.kept th' hne).symm.trans hw, hex⟩
  gone th' hm := by
    by_cases e : th' ∈ ths
    · exact h₂.gone th' e
    · rw [h₂.kept th' e]
      exact h₁.gone th' (List.mem_singleton.2 ((List.mem_cons.1 hm).resolve_right e))
  kept th' hm := by
    rw [List.mem_cons, not_or] at hm
    rw [h₂.kept th' hm.2, h₁.kept th' (mt List.mem_singleton.1 hm.1)]
  list := h₂.list.trans h₁.list
  initproc := h₂.initproc.trans h₁.initproc
  nextPid := h₂.nextPid.trans h₁.nextPid
  slab := h₂.slab.trans h₁.slab
  pc := h₂.pc.trans h₁.pc
  procs a p' hp' := by
    obtain ⟨p₁, hp₁, e₁, e₂, e₃, ht⟩ := h₂.procs a p' hp'
    obtain ⟨p, hp, f₁, f₂, f₃, ht'⟩ := h₁.procs a p₁ hp₁
    refine ⟨p, hp, e₁.trans f₁, e₂.trans f₂, e₃.trans f₃, fun th' hm hn => ?_⟩
    rw [List.mem_cons, not_or] at hn
    exact ht th' (ht' th' hm (mt List.mem_singleton.1 hn.1)) hn.2
  procs_some a p hp := by
    obtain ⟨p₁, hp₁⟩ := h₁.procs_some a p hp
    exact h₂.procs_some a p₁ hp₁

end ProcSys.Destroys

open ProcSys (Destroys)

section Destroy

variable {K : Consts} {s s' : ProcSys} {t c : Nat}

theorem kthreadDestroy_destroys {th : Nat} (h : kthreadDestroy s th = some s') :
    Destroys [th] s s' := by
  unfold kthreadDestroy at h
  split at h
  · simp at h
  simp only [Option.pure_def, Option.some_bind, Option.bind_eq_bind, Option.bind_eq_some] at h
  obtain ⟨x, hx, h⟩ := h
  split at h
  · simp at h
  rename_i hex
  simp only [Option.pure_def, Option.some_bind, Option.some.injEq] at h
  subst h
  have hkept : ∀ th', th' ∉ [th] → update s.sched.threads th none th' = s.sched.threads th' :=
    fun th' hn => update_noteq (fun e => hn (List.mem_singleton.2 e)) _ _
  have hex' : ∀ th' ∈ [th], ∃ w, s.sched.threads th' = some w ∧ w.ktState = .exited :=
    fun th' hm => by rw [List.mem_singleton.1 hm]; exact ⟨x, hx, not_not.1 hex⟩
  have hgone : ∀ th' ∈ [th], update s.sched.threads th none th' = none :=
    fun th' hm => by rw [List.mem_singleton.1 hm, update_same]
  split
  · rename_i p hp
    refine ⟨hex', hgone, hkept, rfl, rfl, rfl, rfl, rfl, fun a p' hp' => ?_, fun a q hq => ?_⟩
    · by_cases e : a = x.ktProc
      · subst e
        simp only [ProcSys.setProc_table, ProcTable.setProc_procs, update_same,
          Option.some.injEq] at hp'
        subst hp'
        exact ⟨p, hp, rfl, rfl, rfl, fun th' hm hn =>
          (List.mem_erase_of_ne fun e => hn (List.mem_singleton.2 e)).2 hm⟩
      · simp only [ProcSys.setProc_table, ProcTable.setProc_procs, update_noteq e] at hp'
        exact ⟨p', hp', rfl, rfl, rfl, fun _ hm _ => hm⟩
    · by_cases e : a = x.ktProc
      · subst e; exact ⟨_, update_same _ _ _⟩
      · exact ⟨q, by simpa [e] using hq⟩
  · exact ⟨hex', hgone, hkept, rfl, rfl, rfl, rfl, rfl,
      fun _ p' hp' => ⟨p', hp', rfl, rfl, rfl, fun _ hm _ => hm⟩, fun _ q hq => ⟨q, hq⟩⟩

theorem kthreadDestroyAll_destroys : ∀ {ths : List Nat} {s s' : ProcSys},
    kthreadDestroyAll ths s = some s' → Destroys ths s s'
  | [], _, _, h => by cases h; exact .nil _
  | th :: ths, s, s', h => by
    simp only [kthreadDestroyAll, Option.bind_eq_bind, Option.bind_eq_some] at h
    obtain ⟨s₁, h₁, h⟩ := h
    exact (kthreadDestroy_destroys h₁).cons (kthreadDestroyAll_destroys h)

/-- `s'` is `s` with `c` unlinked from the children of some processes, as `do_waitpid` does
before `proc_destroy`. -/
structure ProcSys.Prunes (c : Nat) (s s' : ProcSys) : Prop where
  sched : s'.sched = s.sched
  pc : s'.pc = s.pc
  list : s'.table.procList = s.table.procList
  initproc : s'.table.initproc = s.table.initproc
  nextPid : s'.table.nextPid = s.table.nextPid
  slab : s'.table.slab = s.table.slab
  procs : ∀ a p', s'.table.procs a = some p' → ∃ p, s.table.procs a = some p ∧
    p'.pPid = p.pPid ∧ p'.pPproc = p.pPproc ∧ p'.pThreads = p.pThreads ∧
    (p'.pChildren = p.pChildren ∨ p'.pChildren = p.pChildren.erase c)
  procs_some : ∀ a p, s.table.procs a = some p → ∃ p', s'.table.procs a = some p'

theorem ProcSys.Prunes.refl (c : Nat) (s : ProcSys) : ProcSys.Prunes c s s :=
  ⟨rfl, rfl, rfl, rfl, rfl, rfl, fun _ p h => ⟨p, h, rfl, rfl, rfl, .inl rfl⟩,
    fun _ p h => ⟨p, h⟩⟩

theorem ProcSys.Prunes.erase {p : Nat} {y : Proc} (hy : s.table.procs p = some y) :
    ProcSys.Prunes c s (s.setProc p { y with pChildren := y.pChildren.erase c }) := by
  refine ⟨rfl, rfl, rfl, rfl, rfl, rfl, fun a p' hp' => ?_, fun a q hq => ?_⟩
  · by_cases e : a = p
    · subst e
      simp only [ProcSys.setProc_table, ProcTable.setProc_procs, update_same,
        Option.some.injEq] at hp'
      exact ⟨y, hy, by rw [← hp'], by rw [← hp'], by rw [← hp'], .inr (by rw [← hp'])⟩
    · simp only [ProcSys.setProc_table, ProcTable.setProc_procs, update_noteq e] at hp'
      exact ⟨p', hp', rfl, rfl, rfl, .inl rfl⟩
  · by_cases e : a = p
    · subst e; exact ⟨_, update_same _ _ _⟩
    · exact ⟨q, by simpa [e] using hq⟩

/-- After `proc_destroy` has unlinked `c` and destroyed its threads, no process on the list is a
child of `c`: such a child means a thread of `c` that has not exited, where `kthread_destroy`
panics. -/
theorem TreeInv.destroyThreads (h : TreeInv s) (hp : PidInv K s.table) (hc : c ≠ idleAddr)
    (hci : s.table.initproc ≠ some c) {s₀ s₂ : ProcSys} {x : Proc} (hr : ProcSys.Prunes c s s₀)
    (hx : s₀.table.procs c = some x)
    (hD : Destroys x.pThreads { s₀ with table := procUnlist s₀.table c } s₂) : TreeInv s₂ := by
  obtain ⟨x₀, hx₀, -, -, hxt, -⟩ := hr.procs c x hx
  have hsched : s₀.sched = s.sched := hr.sched
  have procs2 : ∀ a p', s₂.table.procs a = some p' → ∃ p, s.table.procs a = some p ∧
      p'.pPid = p.pPid ∧ p'.pPproc = p.pPproc ∧
      (p'.pChildren = p.pChildren ∨ p'.pChildren = p.pChildren.erase c) ∧
      ∀ th ∈ p.pThreads, th ∉ x.pThreads → th ∈ p'.pThreads := fun a p' hp' => by
    obtain ⟨p₁, hp₁, e₁, e₂, e₃, ht⟩ := hD.procs a p' hp'
    obtain ⟨p, hp, f₁, f₂, f₃, f₄⟩ := hr.procs a p₁ hp₁
    exact ⟨p, hp, e₁.trans f₁, e₂.trans f₂, e₃ ▸ f₄, fun th hm hn => ht th (f₃ ▸ hm) hn⟩
  have procs2_some : ∀ a p, s.table.procs a = some p → ∃ p', s₂.table.procs a = some p' :=
    fun a p hp' => by
      obtain ⟨p₁, hp₁⟩ := hr.procs_some a p hp'
      exact hD.procs_some a p₁ hp₁
  have threads2 : ∀ th w, s₂.sched.threads th = some w →
      th ∉ x.pThreads ∧ s.sched.threads th = some w := fun th w hw => by
    have hn : th ∉ x.pThreads := fun hm => by rw [hD.gone th hm] at hw; cases hw
    exact ⟨hn, by rw [← hsched, ← hw, hD.kept th hn]⟩
  have mem2 : ∀ a, a ∈ s₂.table.procList ↔ a ≠ c ∧ a ∈ s.table.procList := fun a => by
    rw [hD.list]
    show a ∈ s₀.table.procList.erase c ↔ _
    rw [hr.list]
    exact hp.procList_nodup.mem_erase_iff
  have hi2 : s₂.table.initproc = s.table.initproc := hD.initproc.trans hr.initproc
  have hsl2 : s₂.table.slab = s.table.slab := hD.slab.trans hr.slab
  have sub : ∀ {l l' : List Nat}, (l' = l ∨ l' = l.erase c) → ∀ b ∈ l', b ∈ l := by
    rintro l l' (rfl | rfl) b hb
    exacts [hb, List.mem_of_mem_erase hb]
  have sup : ∀ {l l' : List Nat}, (l' = l ∨ l' = l.erase c) → ∀ b ∈ l, b ≠ c → b ∈ l' := by
    rintro l l' (rfl | rfl) b hb hbc
    exacts [hb, (List.mem_erase_of_ne hbc).2 hb]
  -- a process on the list whose parent is `c` would make `kthread_destroy` panic
  have nochild : ∀ a ∈ s.table.procList, ∀ xa, s.table.procs a = some xa → xa.pPproc ≠ some c := by
    intro a ha xa hxa hpc
    obtain ⟨th, w, hw, hwp, hws⟩ := h.active a ha xa c hxa hpc hc hci
    obtain ⟨p, hp', hm⟩ := h.listed th w hw
    rw [hwp, hx₀, Option.some.injEq] at hp'
    subst hp'
    obtain ⟨w', hw', hex⟩ := hD.exited th (hxt ▸ hm)
    change s₀.sched.threads th = some w' at hw'
    rw [hsched, hw, Option.some.injEq] at hw'
    exact hws (hw' ▸ hex)
  constructor
  · intro th w hw
    obtain ⟨hth, hw0⟩ := threads2 th w hw
    obtain ⟨p, hp', hm⟩ := h.listed th w hw0
    obtain ⟨p', hp''⟩ := procs2_some _ p hp'
    obtain ⟨p0, hp0, -, -, -, hthr⟩ := procs2 _ p' hp''
    rw [hp', Option.some.injEq] at hp0
    subst hp0
    exact ⟨p', hp'', hthr th hm hth⟩
  · intro th w hw
    obtain ⟨hth, hw0⟩ := threads2 th w hw
    refine (mem2 _).2 ⟨fun e => hth ?_, h.proc_listed th w hw0⟩
    obtain ⟨p, hp', hm⟩ := h.listed th w hw0
    rw [e, hx₀, Option.some.injEq] at hp'
    subst hp'
    exact hxt ▸ hm
  · obtain ⟨ι, hι, h0, hn, hch⟩ := h.idle
    obtain ⟨ι', hι'⟩ := procs2_some _ ι hι
    obtain ⟨ι0, hι0, hp0, hq0, hc0, -⟩ := procs2 _ ι' hι'
    rw [hι, Option.some.injEq] at hι0
    subst hι0
    refine ⟨ι', hι', hp0 ▸ h0, hq0 ▸ hn, ?_⟩
    rw [hi2]
    rcases hc0 with e | e <;> rw [e, hch]
    exact List.erase_of_not_mem fun hm => hci (Option.mem_toList.1 hm)
  · intro a ha x' hx'
    obtain ⟨hac, ha0⟩ := (mem2 a).1 ha
    obtain ⟨xa, hxa, -, hq, -, -⟩ := procs2 a x' hx'
    obtain ⟨pp, y, hpp, hy, hm, hpl⟩ := h.parent a ha0 xa hxa
    have hppc : pp ≠ c := fun e => nochild a ha0 xa hxa (e ▸ hpp)
    obtain ⟨y', hy'⟩ := procs2_some pp y hy
    obtain ⟨y0, hy0, -, -, hch, -⟩ := procs2 pp y' hy'
    rw [hy, Option.some.injEq] at hy0
    subst hy0
    exact ⟨pp, y', hq ▸ hpp, hy', sup hch a hm hac, hpl.imp_right fun hl => (mem2 pp).2 ⟨hppc, hl⟩⟩
  · intro q y' b z' hy' hb hz'
    obtain ⟨y, hy, -, -, hch, -⟩ := procs2 q y' hy'
    obtain ⟨z, hz, -, hzq, -, -⟩ := procs2 b z' hz'
    rw [hzq]
    exact h.child q y b z hy (sub hch b hb) hz
  · intro q y' hy' b hb
    obtain ⟨y, hy, -, -, hch, -⟩ := procs2 q y' hy'
    rw [hsl2]
    exact h.allocated q y hy b (sub hch b hb)
  · intro a ha x' pp hx' hpp hpi hpn
    obtain ⟨-, ha0⟩ := (mem2 a).1 ha
    obtain ⟨xa, hxa, -, hq, -, -⟩ := procs2 a x' hx'
    obtain ⟨th, w, hw, hwp, hws⟩ := h.active a ha0 xa pp hxa (hq ▸ hpp) hpi (hi2 ▸ hpn)
    have hth : th ∉ x.pThreads := fun hm => by
      obtain ⟨w', hw', hex⟩ := hD.exited th hm
      change s₀.sched.threads th = some w' at hw'
      rw [hsched, hw, Option.some.injEq] at hw'
      exact hws (hw' ▸ hex)
    refine ⟨th, w, ?_, hwp, hws⟩
    rw [hD.kept th hth]
    show s₀.sched.threads th = some w
    rw [hsched, hw]
  · intro t'
    rw [hD.pc]
    show PcOk s₂ t' (s₀.pc t')
    rw [hr.pc]
    exact PcOk.mono (s := s) (fun w hw => let ⟨_, hw0⟩ := threads2 _ w hw; ⟨w, hw0, rfl⟩)
      (fun _ e _ => hi2 ▸ e) (by rw [hsl2]) (h.pc_ok t')
  · intro hn
    obtain ⟨hl0, hn0⟩ := h.boot (hi2 ▸ hn)
    refine ⟨?_, by rw [hD.nextPid]; exact hr.nextPid.trans hn0⟩
    rw [hD.list]
    show s₀.table.procList.erase c = []
    rw [hr.list, hl0]; rfl
  · intro i hi
    rw [hi2] at hi
    obtain ⟨hil, z, hz, hz1, hz2⟩ := h.init i hi
    obtain ⟨z', hz'⟩ := procs2_some i z hz
    obtain ⟨z0, hz0, hp1, hq1, -, -⟩ := procs2 i z' hz'
    rw [hz, Option.some.injEq] at hz0
    subst hz0
    exact ⟨(mem2 i).2 ⟨fun e => hci (e ▸ hi), hil⟩, z', hz', hp1 ▸ hz1, hq1 ▸ hz2⟩

/-- `slab_obj_free` of a process off the list other than `idle`. -/
theorem TreeInv.free (h : TreeInv s) (hc : c ∉ s.table.procList) (hci : c ≠ idleAddr) :
    TreeInv { s with table := procFree s.table c } := by
  have hfree : ∀ a, a ≠ c → (procFree s.table c).procs a = s.table.procs a :=
    fun a e => update_noteq e _ _
  have back : ∀ a p, (procFree s.table c).procs a = some p → a ≠ c ∧ s.table.procs a = some p :=
    fun a p hp' => by
      have e : a ≠ c := by rintro rfl; simp [procFree] at hp'
      exact ⟨e, (hfree a e).symm.trans hp'⟩
  have hne : ∀ a ∈ s.table.procList, a ≠ c := fun a ha e => hc (e ▸ ha)
  refine ⟨fun th w hw => ?_, h.proc_listed, ?_, fun a ha x hx => ?_, fun q y b z hy hb hz => ?_,
    fun q y hy => ?_, fun a ha x pp hx => ?_, fun t => ?_, h.boot, fun i hi => ?_⟩
  · rw [hfree _ (hne _ (h.proc_listed th w hw))]
    exact h.listed th w hw
  · obtain ⟨ι, hι, hrest⟩ := h.idle
    exact ⟨ι, (hfree _ (Ne.symm hci)).trans hι, hrest⟩
  · obtain ⟨pp, y, hpp, hy, hrest⟩ := h.parent a ha x (back a x hx).2
    have hpc : pp ≠ c := by
      rcases hrest.2 with e | e
      · rw [e]; exact Ne.symm hci
      · exact hne pp e
    exact ⟨pp, y, hpp, (hfree pp hpc).trans hy, hrest⟩
  · exact h.child q y b z (back q y hy).2 hb (back b z hz).2
  · exact h.allocated q y (back q y hy).2
  · exact h.active a ha x pp (back a x hx).2
  · exact PcOk.mono (s := s) (fun x hx => ⟨x, hx, rfl⟩) (fun _ e _ => e) le_rfl (h.pc_ok t)
  · obtain ⟨hil, z, hz, hrest⟩ := h.init i hi
    exact ⟨hil, z, (hfree i (hne i hil)).trans hz, hrest⟩

/-- `proc_destroy` of a process other than `idle` and `init`, after its parent may have unlinked
it from its children. -/
theorem TreeInv.procDestroy (h : TreeInv s) (hp : PidInv K s.table) (hc : c ≠ idleAddr)
    (hci : s.table.initproc ≠ some c) {s₀ : ProcSys} (hr : ProcSys.Prunes c s s₀)
    (hd : procDestroy K s₀ t c = some s') : TreeInv s' := by
  simp only [Weenix.procDestroy, Option.bind_eq_bind, Option.bind_eq_some] at hd
  obtain ⟨x, hx, s₂, h₂, ⟨done, s₃⟩, h₃, hd⟩ := hd
  have h₂' := h.destroyThreads hp hc hci hr hx (kthreadDestroyAll_destroys h₂)
  have k₃ := releaseLoop_keepsTree (fun _ _ => by exact hc) h₃
  have h₃' := h₂'.keeps k₃
  split at hd <;> cases hd
  · refine h₃'.free ?_ hc
    rw [k₃.list, (kthreadDestroyAll_destroys h₂).list]
    show c ∉ s₀.table.procList.erase c
    rw [hr.list]
    exact hp.procList_nodup.not_mem_erase
  · exact h₃'

end Destroy

/-! ## The end of `proc_cleanup` -/

/-- The reparent loop of `proc_cleanup` over the children `l`, handing each to `init` at `i`:
each of `l` gets `i` for parent and is appended to `i`'s children; nothing else changes. -/
structure ProcSys.Reparents (i : Nat) (l : List Nat) (s s' : ProcSys) : Prop where
  sched : s'.sched = s.sched
  pc : s'.pc = s.pc
  list : s'.table.procList = s.table.procList
  initproc : s'.table.initproc = s.table.initproc
  nextPid : s'.table.nextPid = s.table.nextPid
  slab : s'.table.slab = s.table.slab
  procs : ∀ a r', s'.table.procs a = some r' → ∃ r, s.table.procs a = some r ∧
    r'.pPid = r.pPid ∧ r'.pThreads = r.pThreads ∧
    r'.pPproc = (if a ∈ l then some i else r.pPproc) ∧
    r'.pChildren = (if a = i then r.pChildren ++ l else r.pChildren)
  procs_some : ∀ a r, s.table.procs a = some r → ∃ r', s'.table.procs a = some r'

open ProcSys (Reparents)

section Reparent

variable {K : Consts} {s s' : ProcSys} {i : Nat}

theorem ProcSys.Reparents.nil (i : Nat) (s : ProcSys) : Reparents i [] s s :=
  ⟨rfl, rfl, rfl, rfl, rfl, rfl, fun a r h => ⟨r, h, rfl, rfl, by simp, by simp⟩,
    fun _ r h => ⟨r, h⟩⟩

/-- One child handed to `init`, then the rest. -/
theorem ProcSys.Reparents.step {l : List Nat} {c : Nat} {y z : Proc} {u : ProcSys}
    (hy : s.table.procs c = some y) (hz : s.table.procs i = some z) (hci : c ≠ i)
    (h : Reparents i l ((s.setProc c { y with pPproc := some i }).setProc i
      { z with pChildren := z.pChildren ++ [c] }) u) : Reparents i (c :: l) s u := by
  have hu : ∀ a r₁, ((s.setProc c { y with pPproc := some i }).setProc i
      { z with pChildren := z.pChildren ++ [c] }).table.procs a = some r₁ →
      ∃ r, s.table.procs a = some r ∧ r₁.pPid = r.pPid ∧ r₁.pThreads = r.pThreads ∧
        r₁.pPproc = (if a = c then some i else r.pPproc) ∧
        r₁.pChildren = (if a = i then r.pChildren ++ [c] else r.pChildren) := fun a r₁ hr₁ => by
    simp only [ProcSys.setProc_table, ProcTable.setProc_procs] at hr₁
    by_cases e : a = i
    · subst e
      rw [update_same, Option.some.injEq] at hr₁
      subst hr₁
      exact ⟨z, hz, rfl, rfl, by simp [Ne.symm hci], by simp⟩
    rw [update_noteq e] at hr₁
    by_cases e' : a = c
    · subst e'
      rw [update_same, Option.some.injEq] at hr₁
      subst hr₁
      exact ⟨y, hy, rfl, rfl, by simp, by simp [e]⟩
    · rw [update_noteq e'] at hr₁
      exact ⟨r₁, hr₁, rfl, rfl, by simp [e'], by simp [e]⟩
  refine ⟨h.sched, h.pc, h.list, h.initproc, h.nextPid, h.slab, fun a r' hr' => ?_,
    fun a r hr => ?_⟩
  · obtain ⟨r₁, hr₁, e₁, e₂, e₃, e₄⟩ := h.procs a r' hr'
    obtain ⟨r, hr, f₁, f₂, f₃, f₄⟩ := hu a r₁ hr₁
    refine ⟨r, hr, e₁.trans f₁, e₂.trans f₂, ?_, ?_⟩
    · rw [e₃, f₃]
      by_cases ha : a ∈ l <;> by_cases hac : a = c <;> simp [ha, hac]
    · rw [e₄, f₄]
      by_cases hai : a = i <;> simp [hai]
  · by_cases e : a = i
    · subst e; exact h.procs_some _ _ (update_same _ _ _)
    by_cases e' : a = c
    · subst e'
      exact h.procs_some _ { y with pPproc := some i } (by simp [e])
    · exact h.procs_some _ r (by simpa [e, e'] using hr)

/-- The reparent loop, given what one step of it does while `proc_initproc` is `i`. -/
theorem reparent_fold {f : ProcSys → Nat → Option ProcSys}
    (hf : ∀ u c u', f u c = some u' → u.table.initproc = some i → ∃ y z,
      u.table.procs c = some y ∧ (u.setProc c { y with pPproc := some i }).table.procs i = some z ∧
      u' = (u.setProc c { y with pPproc := some i }).setProc i
        { z with pChildren := z.pChildren ++ [c] }) :
    ∀ {l : List Nat} {u u' : ProcSys}, i ∉ l → u.table.initproc = some i →
      l.foldlM f u = some u' → Reparents i l u u'
  | [], u, _, _, _, h => by cases h; exact .nil i u
  | c :: l, u, u', hil, hi, h => by
    simp only [List.foldlM_cons, Option.bind_eq_bind, Option.bind_eq_some] at h
    obtain ⟨u₁, h₁, h⟩ := h
    obtain ⟨y, z, hy, hz, rfl⟩ := hf u c u₁ h₁ hi
    rw [List.mem_cons, not_or] at hil
    have hz' : u.table.procs i = some z := by
      rwa [ProcSys.setProc_table, ProcTable.setProc_procs, update_noteq hil.1] at hz
    exact .step hy hz' (Ne.symm hil.1) (reparent_fold hf hil.2 hi h)

theorem TreeInv.init_not_child (h : TreeInv s) {p : Nat} {x : Proc} (hx : s.table.procs p = some x)
    (hp : p ≠ idleAddr) (hi : s.table.initproc = some i) : i ∉ x.pChildren := fun hm => by
  obtain ⟨-, z, hz, -, hzp⟩ := h.init i hi
  rw [h.child p x i z hx hm hz, Option.some.injEq] at hzp
  exact hp hzp

/-- After `proc_cleanup` of the process at `p`, on the list and not `init`, has handed every child
to `init`, the tree holds and no process on the list is a child of `p`. -/
theorem TreeInv.reparent (h : TreeInv s) (hidle : idleAddr ∉ s.table.procList) {p : Nat} {x : Proc}
    (hx : s.table.procs p = some x) (hpl : p ∈ s.table.procList) (hi : s.table.initproc = some i)
    (hpi : p ≠ i) {s₂ : ProcSys}
    (hR : Reparents i x.pChildren (s.setProc p { x with pChildren := [] }) s₂) :
    TreeInv s₂ ∧ ∀ a ∈ s₂.table.procList, ∀ xa, s₂.table.procs a = some xa → xa.pPproc ≠ some p := by
  set l := x.pChildren
  obtain ⟨hil, z, hz, hz1, hz2⟩ := h.init i hi
  have hip : p ≠ idleAddr := fun e => hidle (e ▸ hpl)
  have hli : i ∉ l := h.init_not_child hx hip hi
  have procs2 : ∀ a r₂, s₂.table.procs a = some r₂ → ∃ r, s.table.procs a = some r ∧
      r₂.pPid = r.pPid ∧ r₂.pThreads = r.pThreads ∧
      r₂.pPproc = (if a ∈ l then some i else r.pPproc) ∧
      r₂.pChildren = (if a = i then r.pChildren ++ l else if a = p then [] else r.pChildren) :=
    fun a r₂ hr₂ => by
      obtain ⟨r₁, hr₁, e₁, e₂, e₃, e₄⟩ := hR.procs a r₂ hr₂
      simp only [ProcSys.setProc_table, ProcTable.setProc_procs] at hr₁
      by_cases e : a = p
      · subst e
        rw [update_same, Option.some.injEq] at hr₁
        subst hr₁
        exact ⟨x, hx, e₁, e₂, e₃, by rw [e₄]; simp [hpi]⟩
      · rw [update_noteq e] at hr₁
        exact ⟨r₁, hr₁, e₁, e₂, e₃, by rw [e₄]; simp [e]⟩
  have procs2_some : ∀ a r, s.table.procs a = some r → ∃ r₂, s₂.table.procs a = some r₂ :=
    fun a r hr => by
      by_cases e : a = p
      · subst e; exact hR.procs_some _ _ (update_same _ _ _)
      · exact hR.procs_some a r (by simpa [e] using hr)
  -- a child of `p` names `p` as parent
  have hlp : ∀ c ∈ l, ∀ zc, s.table.procs c = some zc → zc.pPproc = some p :=
    fun c hc zc hzc => h.child p x c zc hx hc hzc
  have hlist : s₂.table.procList = s.table.procList := hR.list
  have hinit : s₂.table.initproc = s.table.initproc := hR.initproc
  have hchild2 : ∀ q y₂, s₂.table.procs q = some y₂ → ∀ b ∈ y₂.pChildren, ∃ y,
      s.table.procs q = some y ∧ (b ∈ l ∧ q = i ∨ b ∈ y.pChildren ∧ q ≠ p) := by
    intro q y₂ hy₂ b hb
    obtain ⟨y, hy, -, -, -, hc⟩ := procs2 q y₂ hy₂
    refine ⟨y, hy, ?_⟩
    rw [hc] at hb
    by_cases hq : q = i
    · rw [if_pos hq, List.mem_append] at hb
      exact hb.elim (fun hb => .inr ⟨hb, hq ▸ Ne.symm hpi⟩) (fun hb => .inl ⟨hb, hq⟩)
    · rw [if_neg hq] at hb
      by_cases hqp : q = p
      · rw [if_pos hqp] at hb; cases hb
      · rw [if_neg hqp] at hb; exact .inr ⟨hb, hqp⟩
  have h₂ : TreeInv s₂ := by
    constructor
    · intro th w hw
      obtain ⟨r, hr, hm⟩ := h.listed th w (hR.sched ▸ hw)
      obtain ⟨r₂, hr₂⟩ := procs2_some _ r hr
      obtain ⟨r0, hr0, -, ht, -⟩ := procs2 _ r₂ hr₂
      rw [hr, Option.some.injEq] at hr0
      subst hr0
      exact ⟨r₂, hr₂, ht ▸ hm⟩
    · intro th w hw
      rw [hlist]; exact h.proc_listed th w (hR.sched ▸ hw)
    · obtain ⟨ι, hι, h0, hn, hc⟩ := h.idle
      obtain ⟨ι₂, hι₂⟩ := procs2_some _ ι hι
      obtain ⟨ι0, hι0, hp0, -, hq0, hc0⟩ := procs2 _ ι₂ hι₂
      rw [hι, Option.some.injEq] at hι0
      subst hι0
      have hnl : idleAddr ∉ l := fun hm => by rw [hlp _ hm ι hι] at hn; cases hn
      have hni : idleAddr ≠ i := fun e => hidle (e ▸ hil)
      refine ⟨ι₂, hι₂, hp0 ▸ h0, by rw [hq0, if_neg hnl, hn], ?_⟩
      rw [hc0, if_neg hni, if_neg (Ne.symm hip), hc, hinit]
    · intro a ha r₂ hr₂
      rw [hlist] at ha
      obtain ⟨r, hr, -, -, hq, -⟩ := procs2 a r₂ hr₂
      by_cases hal : a ∈ l
      · obtain ⟨z₂, hz₂⟩ := procs2_some i z hz
        obtain ⟨z0, hz0, -, -, -, hc⟩ := procs2 i z₂ hz₂
        rw [hz, Option.some.injEq] at hz0
        subst hz0
        refine ⟨i, z₂, by rw [hq, if_pos hal], hz₂, ?_, .inr (hlist ▸ hil)⟩
        rw [hc, if_pos rfl]
        exact List.mem_append_right _ hal
      obtain ⟨pp, y, hpp, hy, hm, hpl'⟩ := h.parent a ha r hr
      have hppp : pp ≠ p := by rintro rfl; rw [hx, Option.some.injEq] at hy; subst hy; exact hal hm
      obtain ⟨y₂, hy₂⟩ := procs2_some pp y hy
      obtain ⟨y0, hy0, -, -, -, hc⟩ := procs2 pp y₂ hy₂
      rw [hy, Option.some.injEq] at hy0
      subst hy0
      refine ⟨pp, y₂, by rw [hq, if_neg hal, hpp], hy₂, ?_, hlist ▸ hpl'⟩
      rw [hc, if_neg hppp]
      split_ifs
      exacts [List.mem_append_left _ hm, hm]
    · intro q y₂ b z₂ hy₂ hb hz₂
      obtain ⟨y, hy, hcase⟩ := hchild2 q y₂ hy₂ b hb
      obtain ⟨zb, hzb, -, -, hq, -⟩ := procs2 b z₂ hz₂
      rcases hcase with ⟨hbl, rfl⟩ | ⟨hby, hqp⟩
      · rw [hq, if_pos hbl]
      · have hbl : b ∉ l := fun hbl => by
          have hbp := h.child q y b zb hy hby hzb
          rw [hlp b hbl zb hzb, Option.some.injEq] at hbp
          exact hqp hbp.symm
        rw [hq, if_neg hbl]
        exact h.child q y b zb hy hby hzb
    · intro q y₂ hy₂ b hb
      obtain ⟨y, hy, hcase⟩ := hchild2 q y₂ hy₂ b hb
      rw [hR.slab]
      rcases hcase with ⟨hbl, -⟩ | ⟨hby, -⟩
      · exact h.allocated p x hx b hbl
      · exact h.allocated q y hy b hby
    · intro a ha r₂ pp hr₂ hpp hpi' hpn
      rw [hlist] at ha
      obtain ⟨r, hr, -, -, hq, -⟩ := procs2 a r₂ hr₂
      by_cases hal : a ∈ l
      · rw [hq, if_pos hal] at hpp
        exact absurd (hinit ▸ hpp ▸ hi) hpn
      rw [hq, if_neg hal] at hpp
      obtain ⟨th, w, hw, hwp, hws⟩ := h.active a ha r pp hr hpp hpi' (hinit ▸ hpn)
      exact ⟨th, w, hR.sched ▸ hw, hwp, hws⟩
    · intro t
      rw [hR.pc]
      exact PcOk.mono (s := s) (fun w hw => ⟨w, hR.sched ▸ hw, rfl⟩) (fun _ e _ => hinit ▸ e)
        (by rw [hR.slab]; rfl) (h.pc_ok t)
    · intro hn
      rw [hinit, hi] at hn
      cases hn
    · intro i' hi'
      rw [hinit, hi, Option.some.injEq] at hi'
      subst hi'
      obtain ⟨z₂, hz₂⟩ := procs2_some _ z hz
      obtain ⟨z0, hz0, hp0, -, hq0, -⟩ := procs2 _ z₂ hz₂
      rw [hz, Option.some.injEq] at hz0
      subst hz0
      exact ⟨hlist ▸ hil, z₂, hz₂, hp0 ▸ hz1, by rw [hq0, if_neg hli, hz2]⟩
  refine ⟨h₂, fun a ha xa hxa hpa => ?_⟩
  obtain ⟨pp, y₂, hpp, hy₂, hm, -⟩ := h₂.parent a ha xa hxa
  rw [hpa, Option.some.injEq] at hpp
  subst hpp
  obtain ⟨y, hy, -, -, -, hc⟩ := procs2 _ y₂ hy₂
  rw [hc, if_neg hpi, if_pos rfl] at hm
  cases hm

end Reparent

/-! ## The current thread -/

section Curthr

variable {K : Consts} {s s' : Sched} {q t : Nat}

theorem ktqueueDequeue_curthr {r : Option Nat} (h : ktqueueDequeue s q = some (r, s')) :
    s'.curthr = s.curthr := by
  rcases ktqueueDequeue_eq_some h with ⟨-, -, rfl⟩ | ⟨t, x, -, -, -, rfl⟩ <;> rfl

theorem schedMakeRunnable_curthr (h : schedMakeRunnable s t = some s') : s'.curthr = s.curthr := by
  obtain ⟨-, x, -, -, rfl⟩ := schedMakeRunnable_eq_some h
  rfl

theorem schedWakeupOn_curthr {r : Option Nat} (h : schedWakeupOn s q = some (r, s')) :
    s'.curthr = s.curthr := by
  rcases schedWakeupOn_eq_some h with ⟨-, -, rfl⟩ | ⟨t, s₁, -, hd, hm⟩
  · rfl
  · rw [schedMakeRunnable_curthr hm, ktqueueDequeue_curthr hd]

theorem broadcastLoop_curthr : ∀ {n : Nat} {s s' : Sched}, broadcastLoop q n s = some s' →
    s'.curthr = s.curthr
  | 0, _, _, h => by cases h
  | n + 1, s, s', h => by
    rcases broadcastLoop_succ_eq_some h with ⟨s₁, hd, rfl⟩ | ⟨t, s₁, s₂, hd, hm, h⟩
    · exact ktqueueDequeue_curthr hd
    · rw [broadcastLoop_curthr h, schedMakeRunnable_curthr hm, ktqueueDequeue_curthr hd]

theorem vunlock_curthr {u u' : ProcSys} {v : Nat} (h : vunlock u t v = some u') :
    u'.sched.curthr = u.sched.curthr := by
  simp only [vunlock, Option.bind_eq_bind] at h
  split at h
  · cases h
  simp only [Option.pure_def, Option.some_bind, Option.bind_eq_some, Option.some.injEq] at h
  obtain ⟨⟨_, _⟩, hw, rfl⟩ := h
  exact schedWakeupOn_curthr hw

/-- A release loop that finished never slept: `curthr` is still the thread that ran it. -/
theorem releaseLoop_curthr {after : AfterRelease} {p : Nat} :
    ∀ {n fd : Nat} {s s' : ProcSys}, releaseLoop K after t p n fd s = some (true, s') →
      s'.sched.curthr = s.sched.curthr
  | 0, _, _, _, h => by cases h; rfl
  | n + 1, fd, s, s', h => by
    simp only [releaseLoop, Option.bind_eq_bind, Option.bind_eq_some] at h
    obtain ⟨⟨vn, s₁⟩, h₁, h⟩ := h
    rw [← releaseSlot_sched h₁]
    split at h
    · exact releaseLoop_curthr h
    simp only [Option.bind_eq_some] at h
    obtain ⟨⟨got, s₂⟩, h₂, h⟩ := h
    split at h
    · simp only [Option.bind_eq_some] at h
      obtain ⟨tb, -, s₃, h₃, h⟩ := h
      have e₂ : s₂.sched = s₁.sched := by
        unfold vlock at h₂
        split at h₂
        · cases h₂; rfl
        · split at h₂
          · cases h₂
          · simp only [Option.bind_eq_bind, Option.bind_eq_some, Option.some.injEq,
              Prod.mk.injEq] at h₂
            obtain ⟨_, -, rfl, -⟩ := h₂
            contradiction
      rw [releaseLoop_curthr h, vunlock_curthr h₃, e₂]
    · cases h

end Curthr

/-! ## The end of `proc_thread_exiting` -/

section Exit

variable {K : Consts} {s s' : ProcSys}

/-- The current thread, of the process at `p`, exits. Only its own state changes to `KT_EXITED`,
so the tree holds as long as no process on the list is a child of `p`. -/
theorem TreeInv.threadExit (h : TreeInv s) {p : Nat} {sc : Sched} {r : Int}
    (hcur : ∀ t w, s.sched.curthr = some t → s.sched.threads t = some w → w.ktProc = p)
    (hnone : ∀ a ∈ s.table.procList, ∀ xa, s.table.procs a = some xa → xa.pPproc ≠ some p)
    (he : threadExit s.sched r = some sc) : TreeInv { s with sched := sc } := by
  obtain ⟨t, w, ht, hw, hsw⟩ := threadExit_eq_some he
  have hwp := hcur t w ht hw
  have hW : s.sched.Within sc := setThread_switch_within hw hsw rfl
  refine { h with
    listed := fun th x hx => ?_
    proc_listed := fun th x hx => ?_
    active := fun a ha x pp hx hpp hpi hpn => ?_
    pc_ok := fun t' => PcOk.mono (s := s) (fun _ hx => hW.of_some hx) (fun _ e _ => e) le_rfl
      (h.pc_ok t') }
  · obtain ⟨y, hy, e⟩ := hW.of_some hx
    exact e ▸ h.listed th y hy
  · obtain ⟨y, hy, e⟩ := hW.of_some hx
    exact e ▸ h.proc_listed th y hy
  · obtain ⟨th, w', hw', hwp', hws⟩ := h.active a ha x pp hx hpp hpi hpn
    have hth : th ≠ t := by
      rintro rfl
      rw [hw, Option.some.injEq] at hw'
      subst hw'
      exact hnone a ha x hx (hwp'.symm.trans hwp ▸ hpp)
    obtain ⟨y, hy, hys⟩ := schedSwitch_keepsLive hsw th w'
      (by rw [Sched.setThread_threads, update_noteq hth, hw']) hws
    obtain ⟨z, hz, e⟩ := hW.of_some hy
    rw [hw', Option.some.injEq] at hz
    subst hz
    exact ⟨th, y, hy, e.trans hwp', hys⟩

/-- The end of `proc_cleanup`: `init` halts the machine; any other process hands its children to
`init`, wakes its parent, and exits. -/
theorem TreeInv.cleanupFinish (h : TreeInv s) (hidle : idleAddr ∉ s.table.procList) {t p : Nat}
    (ht : s.sched.curthr = some t) (hpl : p ∈ s.table.procList)
    (hwp : ∀ w, s.sched.threads t = some w → w.ktProc = p) (hd : cleanupFinish s p = some s') :
    TreeInv s' := by
  simp only [Weenix.cleanupFinish, Option.bind_eq_bind, Option.bind_eq_some] at hd
  obtain ⟨x, hx, hd⟩ := hd
  split at hd
  · cases hd; exact h.keeps (.of_sched (.refl _) (.refl _) rfl rfl)
  rename_i hxi
  simp only [Option.pure_def, Option.some_bind, Option.bind_eq_some] at hd
  obtain ⟨s₂, h₂, hd⟩ := hd
  obtain ⟨i, hi⟩ := Option.ne_none_iff_exists'.1 (h.initproc_ne_none hpl)
  have hpi : p ≠ i := by
    rintro rfl
    obtain ⟨-, z, hz, hz1, -⟩ := h.init p hi
    rw [hx, Option.some.injEq] at hz
    exact hxi (hz ▸ hz1)
  have hip : p ≠ idleAddr := fun e => hidle (e ▸ hpl)
  have hR : Reparents i x.pChildren (s.setProc p { x with pChildren := [] }) s₂ := by
    refine reparent_fold (fun u c u' hu hui => ?_) (h.init_not_child hx hip hi) hi h₂
    obtain ⟨y, hy, hu⟩ := Option.bind_eq_some.1 hu
    rw [ProcSys.setProc_table, ProcTable.setProc_initproc, hui] at hu
    obtain ⟨z, hz, hu⟩ := Option.bind_eq_some.1 hu
    exact ⟨y, z, hy, hz, (Option.some.inj hu).symm⟩
  obtain ⟨h₂', hnone⟩ := h.reparent hidle hx hpl hi hpi hR
  -- the broadcast on the parent's `p_wait` keeps the tree and `curthr`
  obtain ⟨sc, ⟨hW, hL, hc⟩, sc', he, rfl⟩ : ∃ sc, (s₂.sched.Within sc ∧ s₂.sched.KeepsLive sc ∧
      sc.curthr = s₂.sched.curthr) ∧ ∃ sc', Weenix.threadExit sc x.pStatus = some sc' ∧
        s' = { s₂ with sched := sc' } := by
    split at hd <;> simp only [Option.bind_eq_some, Option.some.injEq] at hd
    · obtain ⟨sc, hsc, sc', he, rfl⟩ := hd
      exact ⟨sc, ⟨broadcastLoop_within hsc, broadcastLoop_keepsLive hsc, broadcastLoop_curthr hsc⟩,
        sc', he, rfl⟩
    · obtain ⟨sc', he, rfl⟩ := hd
      exact ⟨_, ⟨.refl _, .refl _, rfl⟩, sc', he, rfl⟩
  have h₃ : TreeInv { s₂ with sched := sc } := h₂'.keeps (.of_sched hW hL rfl rfl)
  have hs₂ : s₂.sched = s.sched := hR.sched
  refine h₃.threadExit (fun t' w ht' hw => ?_) hnone he
  rw [hc, hs₂, ht, Option.some.injEq] at ht'
  subst ht'
  obtain ⟨w₀, hw₀, e⟩ := hW.of_some hw
  exact e.trans (hwp w₀ (hs₂ ▸ hw₀))

end Exit

/-! ## The process calls -/

theorem findM_some {α : Type} {f : α → Option Bool} : ∀ {l : List α} {c : α},
    l.findM? f = some (some c) → c ∈ l ∧ f c = some true
  | [], c, h => by simp [List.findM?] at h
  | a :: l, c, h => by
    simp only [List.findM?, Option.bind_eq_bind, Option.bind_eq_some] at h
    obtain ⟨b, hb, h⟩ := h
    cases b
    · obtain ⟨hm, hf⟩ := findM_some h
      exact ⟨List.mem_cons_of_mem a hm, hf⟩
    · cases h
      exact ⟨List.mem_cons_self _ _, hb⟩

theorem PcOk.release {s : ProcSys} {t p fd v fd' v' : Nat} {a : AfterRelease}
    (h : PcOk s t (.release p fd v a)) : PcOk s t (.release p fd' v' a) := by
  cases a <;> exact h

section Calls

variable {K : Consts} {s s' : ProcSys} {t : Nat}

/-- A child of a process other than `idle` is neither `idle` nor `init`, at an address the
allocator has handed out: a thread may wait for it. -/
theorem TreeInv.pcOk_waitChild (h : TreeInv s) {p c : Nat} {x z : Proc}
    (hx : s.table.procs p = some x) (hp : p ≠ idleAddr) (hc : c ∈ x.pChildren)
    (hz : s.table.procs c = some z) : PcOk s t (.waitChild c) := by
  have hzp := h.child p x c z hx hc hz
  refine show _ ∧ _ ∧ _ from ⟨?_, fun e => ?_, h.allocated p x hx c hc⟩
  · rintro rfl
    obtain ⟨ι, hι, -, hn, -⟩ := h.idle
    rw [hz, Option.some.injEq] at hι
    rw [hι, hn] at hzp
    cases hzp
  · obtain ⟨-, z', hz', -, hz2⟩ := h.init c e
    rw [hz, Option.some.injEq] at hz'
    subst hz'
    rw [hz2, Option.some.injEq] at hzp
    exact hp hzp.symm

theorem TreeInv.reap (h : TreeInv s) (hp : PidInv K s.table) {p c : Nat}
    (hc : PcOk s t (.waitChild c)) (hd : reap K s t p c = some s') : TreeInv s' := by
  simp only [Weenix.reap, Option.bind_eq_bind, Option.bind_eq_some] at hd
  obtain ⟨x, hx, hd⟩ := hd
  exact h.procDestroy hp hc.1 hc.2.1 (.erase hx) hd

theorem TreeInv.waitChildStep (h : TreeInv s) (hp : PidInv K s.table) {p c : Nat}
    (hc : PcOk s t (.waitChild c)) (hw : waitChildStep K s t p c = some s') : TreeInv s' := by
  simp only [Weenix.waitChildStep, Option.bind_eq_bind, Option.bind_eq_some] at hw
  obtain ⟨y, -, hw⟩ := hw
  split at hw
  · exact (h.keeps .setPc_run).reap hp hc hw
  · simp only [Option.bind_eq_some, Option.some.injEq] at hw
    obtain ⟨_, hs, rfl⟩ := hw
    exact h.keeps ((KeepsTree.setPc hc).trans
      (.of_sched (.of_call (.sleepOn _) hs nofun) (schedSleepOn_keepsLive hs) rfl rfl))

theorem TreeInv.waitAnyStep (h : TreeInv s) (hp : PidInv K s.table) {p : Nat}
    (hpi : p ≠ idleAddr) (hw : waitAnyStep K s t p = some s') : TreeInv s' := by
  simp only [Weenix.waitAnyStep, Option.bind_eq_bind, Option.bind_eq_some] at hw
  obtain ⟨x, hx, d, hd, hw⟩ := hw
  split at hw
  · obtain ⟨hm, hf⟩ := findM_some hd
    obtain ⟨z, hz, -⟩ := Option.map_eq_some'.1 hf
    exact (h.keeps .setPc_run).reap hp (h.pcOk_waitChild (t := t) hx hpi hm hz) hw
  · simp only [Option.bind_eq_some, Option.some.injEq] at hw
    obtain ⟨_, hs, rfl⟩ := hw
    exact h.keeps ((KeepsTree.setPc (c := .waitAny) trivial).trans
      (.of_sched (.of_call (.sleepOn _) hs nofun) (schedSleepOn_keepsLive hs) rfl rfl))

/-- `do_waitpid` by a process other than `idle`: the child it reaps or waits for is one of its
children. -/
theorem TreeInv.doWaitpid (h : TreeInv s) (hp : PidInv K s.table) {p : Nat} {pid : Int}
    (hpi : p ≠ idleAddr) (hw : doWaitpid K s t p pid = some s') : TreeInv s' := by
  unfold Weenix.doWaitpid at hw
  by_cases h0 : pid = 0 ∨ pid < -1
  · rw [if_pos h0] at hw; cases hw; exact h
  rw [if_neg h0] at hw
  simp only [Option.pure_def, Option.some_bind, Option.bind_eq_bind, Option.bind_eq_some] at hw
  obtain ⟨x, hx, hw⟩ := hw
  split at hw
  · simp only [Option.bind_eq_some] at hw
    obtain ⟨c, hc, hw⟩ := hw
    split at hw
    · cases hw; exact h
    · obtain ⟨hm, hf⟩ := findM_some hc
      obtain ⟨z, hz, -⟩ := Option.map_eq_some'.1 hf
      exact h.waitChildStep hp (h.pcOk_waitChild (t := t) hx hpi hm hz) hw
  · split at hw
    · cases hw; exact h
    · exact h.waitAnyStep hp hpi hw

/-- Once `init` exists, `proc_create` makes neither `idle` nor a second `init`: the new pid is
no pid on the list, and `init` is on the list. -/
theorem TreeInv.procCreate_ne (h : TreeInv s) (hp : PidInv K s.table) {cur a : Nat}
    {tb : ProcTable} (hi : s.table.initproc ≠ none)
    (hc : Weenix.procCreate K s.table cur = some (some a, tb)) :
    a ≠ idleAddr ∧ tb.initproc ≠ some a := by
  obtain ⟨x, pid, rfl, -, -, hfree, -, -, -, -, -, hti⟩ := procCreate_some hp hc
  obtain ⟨i, hi⟩ := Option.ne_none_iff_exists'.1 hi
  obtain ⟨hil, z, hz, hz1, -⟩ := h.init i hi
  have alloc : ∀ b y, s.table.procs b = some y → b < s.table.slab.next := fun b y hy =>
    hp.allocated b (by rw [ProcTable.pidAt_of_procs hy]; rfl)
  have hpid : pid ≠ pidInit := by
    rintro rfl
    exact hfree (List.mem_map.2 ⟨i, hil, by rw [ProcTable.pidAt_of_procs hz, hz1]; rfl⟩)
  obtain ⟨ι, hι, -⟩ := h.idle
  refine ⟨(alloc _ _ hι).ne', ?_⟩
  rw [hti, if_neg hpid, hi, Ne, Option.some.injEq]
  exact (alloc _ _ hz).ne

/-- `kthread_create` of a thread at `th`, where there is none, for the process at `a` on the
list: the thread joins `p_threads` and starts outside any call. -/
theorem TreeInv.link (h : TreeInv s) {a th : Nat} {x : Proc} (hx : s.table.procs a = some x)
    (ha : a ∈ s.table.procList) (hth : s.sched.threads th = none) :
    TreeInv { (s.setProc a { x with pThreads := x.pThreads ++ [th] }).setPc th .run with
      sched := kthreadCreate s.sched th a } := by
  set x' : Proc := { x with pThreads := x.pThreads ++ [th] }
  set u : ProcSys := { (s.setProc a x').setPc th .run with sched := kthreadCreate s.sched th a }
  have hthr : ∀ b, b ≠ th → u.sched.threads b = s.sched.threads b := fun b e => update_noteq e _ _
  have hprocs : ∀ b, u.table.procs b = if b = a then some x' else s.table.procs b := fun b => by
    by_cases e : b = a
    · subst e; simp [u]
    · simp [u, e]
  -- every process keeps its pid, parent and children
  have fwd : ∀ b y, s.table.procs b = some y → ∃ y', u.table.procs b = some y' ∧
      y'.pPid = y.pPid ∧ y'.pPproc = y.pPproc ∧ y'.pChildren = y.pChildren := fun b y hy => by
    rw [hprocs]
    split_ifs with e
    · subst e; rw [hx, Option.some.injEq] at hy; subst hy; exact ⟨x', rfl, rfl, rfl, rfl⟩
    · exact ⟨y, hy, rfl, rfl, rfl⟩
  have back : ∀ b y', u.table.procs b = some y' → ∃ y, s.table.procs b = some y ∧
      y'.pPid = y.pPid ∧ y'.pPproc = y.pPproc ∧ y'.pChildren = y.pChildren := fun b y' hy' => by
    rw [hprocs] at hy'
    split_ifs at hy' with e
    · subst e; rw [Option.some.injEq] at hy'; subst hy'; exact ⟨x, hx, rfl, rfl, rfl⟩
    · exact ⟨y', hy', rfl, rfl, rfl⟩
  constructor
  · intro b w hw
    by_cases e : b = th
    · subst e
      simp only [u, kthreadCreate, Sched.setThread_threads, update_same, Option.some.injEq] at hw
      subst hw
      exact ⟨x', by rw [hprocs, if_pos rfl], List.mem_append_right _ (List.mem_singleton_self _)⟩
    · rw [hthr b e] at hw
      obtain ⟨y, hy, hm⟩ := h.listed b w hw
      rw [hprocs]
      split_ifs with e'
      · rw [e', hx, Option.some.injEq] at hy
        subst hy
        exact ⟨x', rfl, List.mem_append_left _ hm⟩
      · exact ⟨y, hy, hm⟩
  · intro b w hw
    by_cases e : b = th
    · subst e
      simp only [u, kthreadCreate, Sched.setThread_threads, update_same, Option.some.injEq] at hw
      subst hw
      exact ha
    · exact h.proc_listed b w (hthr b e ▸ hw)
  · obtain ⟨ι, hι, h0, hn, hc⟩ := h.idle
    obtain ⟨ι', hι', e₁, e₂, e₃⟩ := fwd _ ι hι
    exact ⟨ι', hι', e₁ ▸ h0, e₂ ▸ hn, e₃ ▸ hc⟩
  · intro b hb y' hy'
    obtain ⟨y, hy, -, e₂, -⟩ := back b y' hy'
    obtain ⟨pp, z, hpp, hz, hm, hpl⟩ := h.parent b hb y hy
    obtain ⟨z', hz', -, -, e₃⟩ := fwd pp z hz
    exact ⟨pp, z', e₂ ▸ hpp, hz', e₃ ▸ hm, hpl⟩
  · intro q y' c z' hy' hc hz'
    obtain ⟨y, hy, -, -, e₃⟩ := back q y' hy'
    obtain ⟨z, hz, -, e₂, -⟩ := back c z' hz'
    exact e₂ ▸ h.child q y c z hy (e₃ ▸ hc) hz
  · intro q y' hy'
    obtain ⟨y, hy, -, -, e₃⟩ := back q y' hy'
    exact e₃ ▸ h.allocated q y hy
  · intro b hb y' pp hy' hpp hpi hpn
    obtain ⟨y, hy, -, e₂, -⟩ := back b y' hy'
    obtain ⟨th', w, hw, hwp, hws⟩ := h.active b hb y pp hy (e₂ ▸ hpp) hpi hpn
    have e : th' ≠ th := by rintro rfl; rw [hth] at hw; cases hw
    exact ⟨th', w, (hthr th' e).trans hw, hwp, hws⟩
  · intro t'
    by_cases e : t' = th
    · subst e; simp only [u, ProcSys.setPc_pc, update_same]; trivial
    · have hpc : u.pc t' = s.pc t' := by simp only [u, ProcSys.setPc_pc, update_noteq e]; rfl
      rw [hpc]
      exact PcOk.mono (fun w hw => ⟨w, (hthr t' e).symm.trans hw, rfl⟩) (fun _ e _ => e) le_rfl
        (h.pc_ok t')
  · exact h.boot
  · intro i hi
    obtain ⟨hil, z, hz, hrest⟩ := h.init i hi
    obtain ⟨z', hz', e₁, e₂, -⟩ := fwd i z hz
    exact ⟨hil, z', hz', e₁ ▸ hrest.1, e₂ ▸ hrest.2⟩

/-- `proc_create`, `kthread_create` and `sched_make_runnable`, by the boot context before any
process exists or by a process with a thread that has not exited. -/
theorem TreeInv.spawn (h : TreeInv s) (hp : PidInv K s.table) (hK : 2 ≤ K.procMaxCount)
    (hf : ∀ a, s.table.slab.next ≤ a → s.sched.threads a = none) {cur : Nat}
    (hcur : cur = idleAddr ∧ s.table.procList = [] ∨
      ∃ th w, s.sched.threads th = some w ∧ w.ktProc = cur ∧ w.ktState ≠ .exited)
    (hd : spawn K s cur = some s') : TreeInv s' := by
  simp only [Weenix.spawn, Option.bind_eq_bind, Option.bind_eq_some] at hd
  obtain ⟨⟨_ | a, tb⟩, hc, hd⟩ := hd
  · cases hd
  have h₁ := h.procCreate hp hK (hcur.imp (fun ⟨e, l⟩ => ⟨e, l, rfl⟩) id) hc
  obtain ⟨-, -, -, -, -, -, -, -, -, hl, -, -⟩ := procCreate_some hp hc
  rcases hal : tb.slab.alloc with ⟨_ | th, sl⟩ <;> simp only [hal] at hd
  · cases hd
  simp only [Option.bind_eq_some, Option.some.injEq] at hd
  obtain ⟨x, hx, sc, hm, rfl⟩ := hd
  obtain ⟨rfl, hsl⟩ := Slab.alloc_eq_some hal
  have h₂ : TreeInv { s with table := { tb with slab := sl } } :=
    h₁.keeps ⟨rfl, rfl, fun _ => rfl, by show tb.slab.next ≤ sl.next; omega, fun _ => rfl,
      .refl _, .refl _, fun _ => .inl rfl⟩
  have ha : a ∈ tb.procList := by rw [hl]; exact List.mem_append_right _ (List.mem_singleton_self a)
  exact (h₂.link hx ha (hf _ (procCreate_slab_le hc))).keeps
    (.of_sched (schedMakeRunnable_within hm) (schedMakeRunnable_keepsLive hm) rfl rfl)

theorem TreeInv.doFork (h : TreeInv s) (hp : PidInv K s.table) (hK : 2 ≤ K.procMaxCount)
    {p : Nat} (hcur : ∃ th w, s.sched.threads th = some w ∧ w.ktProc = p ∧ w.ktState ≠ .exited)
    (hd : doFork K s t p = some s') : TreeInv s' := by
  simp only [Weenix.doFork, Option.bind_eq_bind, Option.bind_eq_some] at hd
  obtain ⟨⟨c, tb⟩, hc, hd⟩ := hd
  have h₁ := h.procCreate hp hK (.inr hcur) hc
  cases c with
  | none => cases hd; exact h₁
  | some c =>
    obtain ⟨th, w, hw, -, -⟩ := hcur
    obtain ⟨hne, hni⟩ := h.procCreate_ne hp (h.initproc_ne_none (h.proc_listed th w hw)) hc
    exact h₁.procDestroy (hp.procCreate hc).1 hne hni (.refl _ _) hd

theorem TreeInv.doExit (h : TreeInv s) (hidle : idleAddr ∉ s.table.procList) {p : Nat}
    {status : Int} (ht : s.sched.curthr = some t) (hpl : p ∈ s.table.procList)
    (hwp : ∀ w, s.sched.threads t = some w → w.ktProc = p) (hd : doExit K s t p status = some s') :
    TreeInv s' := by
  simp only [Weenix.doExit, Option.bind_eq_bind, Option.bind_eq_some] at hd
  obtain ⟨x, hx, ⟨done, s₂⟩, h₂, hd⟩ := hd
  have k₁ : KeepsTree s (s.setProc p { x with pState := .dead, pStatus := status }) :=
    .setProc hx rfl
  have k₂ := k₁.trans (releaseLoop_keepsTree (fun _ _ => by exact hwp) h₂)
  split at hd
  · rename_i hdone
    subst hdone
    exact (h.keeps k₂).cleanupFinish (by rw [k₂.list]; exact hidle) ((releaseLoop_curthr h₂).trans ht)
      (by rw [k₂.list]; exact hpl) (k₂.pcOk (c := .release p 0 0 .cleanup) hwp) hd
  · cases hd; exact h.keeps k₂

/-- The current thread `t` resumes where it slept. -/
theorem TreeInv.resume (h : TreeInv s) (hs : SysPidInv K s) (ht : s.sched.curthr = some t)
    {w : Kthread} (hw : s.sched.threads t = some w) (hr : resume K s t = some s') : TreeInv s' := by
  have hidle := h.idle_not_mem hs.table
  have hcp : s.curproc = w.ktProc := by simp [ProcSys.curproc, ht, hw]
  have hpc := h.pc_ok t
  unfold Weenix.resume at hr
  split at hr
  · cases hr
  · rename_i c e
    rw [e] at hpc
    exact h.waitChildStep hs.table hpc hr
  · exact h.waitAnyStep hs.table (by rw [hcp]; exact fun e => hidle (e ▸ h.proc_listed t w hw)) hr
  · rename_i p fd v after e
    rw [e] at hpc
    simp only [Option.bind_eq_bind, Option.bind_eq_some] at hr
    obtain ⟨tb, htb, s₂, h₂, ⟨done, s₃⟩, h₃, hr⟩ := hr
    have k₁ : KeepsTree s { s.setPc t .run with table := tb } :=
      KeepsTree.setPc_run.trans (by rw [vnodePutLocked_vrefs htb]; exact .vrefs _)
    have k₂ := k₁.trans (vunlock_keepsTree h₂)
    have k₃ := k₂.trans (releaseLoop_keepsTree (fun _ _ => (k₂.pcOk hpc).release) h₃)
    split at hr
    · cases hr; exact h.keeps k₃
    rename_i hdone
    simp only [Bool.not_eq_true', Bool.not_eq_false] at hdone
    subst hdone
    split at hr
    · have hpl : p ∈ s.table.procList := hpc w hw ▸ h.proc_listed t w hw
      exact (h.keeps k₃).cleanupFinish (by rw [k₃.list]; exact hidle)
        (((releaseLoop_curthr h₃).trans (vunlock_curthr h₂)).trans ht) (by rw [k₃.list]; exact hpl)
        (k₃.pcOk hpc) hr
    · cases hr
      exact (h.keeps k₃).free (by rw [k₃.list]; exact (hs.destroying p ⟨t, fd, v, e⟩).1) hpc
  · exact h.keeps (fileMoves_keepsTree (resumeFileCall_moves hr))

end Calls

/-! ## Every run -/

section Run

variable {K : Consts} {s s' : ProcSys}

/-- Every step keeps the tree. -/
theorem TreeInv.procStep (h : TreeInv s) (hp : SysPidInv K s) (hs : SysSchedInv s)
    (hK : 2 ≤ K.procMaxCount) {op : ProcOp} (he : op.enabled s = true)
    (hd : procStep K s op = some s') : TreeInv s' := by
  have hidle := h.idle_not_mem hp.table
  -- the current thread is on the CPU, and its process is `curproc`
  have hcur : ∀ t, s.sched.curthr = some t → ∃ w, s.sched.threads t = some w ∧
      w.ktState ≠ .exited ∧ s.curproc = w.ktProc := fun t ht => by
    obtain ⟨w, hw, hon⟩ := hs.sched.state.cur_onCpu t ht
    exact ⟨w, hw, by rw [hon]; decide, by simp [ProcSys.curproc, ht, hw]⟩
  cases op with
  | dispatch =>
    simp only [Weenix.procStep, Option.bind_eq_bind, Option.bind_eq_some, Option.some.injEq] at hd
    obtain ⟨_, hsc, rfl⟩ := hd
    exact h.keeps (.of_sched (.of_call .dispatch hsc nofun) (coreSwitchDispatch_keepsLive hsc) rfl rfl)
  | yield =>
    simp only [Weenix.procStep, Option.bind_eq_bind, Option.bind_eq_some, Option.some.injEq] at hd
    obtain ⟨_, hsc, rfl⟩ := hd
    exact h.keeps (.of_sched (.of_call .yield hsc nofun) (schedYield_keepsLive hsc) rfl rfl)
  | interrupt d =>
    simp only [Weenix.procStep, Option.bind_eq_bind, Option.bind_eq_some, Option.some.injEq] at hd
    obtain ⟨⟨_, _⟩, hw, rfl⟩ := hd
    exact h.keeps (.of_sched (schedWakeupOn_within hw) (schedWakeupOn_keepsLive hw) rfl rfl)
  | spawn =>
    refine h.spawn hp.table hK hs.fresh ?_ hd
    rcases hc : s.sched.curthr with _ | t
    · refine .inl ⟨by simp [ProcSys.curproc, hc], ?_⟩
      exact (by simpa [ProcOp.enabled, hc] using he : _ ∧ _).2
    · obtain ⟨w, hw, hwe, hcp⟩ := hcur t hc
      exact .inr ⟨t, w, hw, hcp.symm, hwe⟩
  | fork =>
    obtain ⟨t, ht, hd⟩ := Option.bind_eq_some.1 hd
    obtain ⟨w, hw, hwe, hcp⟩ := hcur t ht
    exact h.doFork hp.table hK ⟨t, w, hw, hcp.symm, hwe⟩ hd
  | exit status =>
    obtain ⟨t, ht, hd⟩ := Option.bind_eq_some.1 hd
    obtain ⟨w, hw, -, hcp⟩ := hcur t ht
    refine h.doExit hidle ht (hcp ▸ h.proc_listed t w hw) (fun w' hw' => ?_) hd
    rw [hw, Option.some.injEq] at hw'
    rw [← hw', hcp]
  | waitpid pid =>
    obtain ⟨t, ht, hd⟩ := Option.bind_eq_some.1 hd
    obtain ⟨w, hw, -, hcp⟩ := hcur t ht
    exact h.doWaitpid hp.table (hcp ▸ fun e => hidle (e ▸ h.proc_listed t w hw)) hd
  | open_ filename oflags =>
    obtain ⟨t, -, hd⟩ := Option.bind_eq_some.1 hd
    exact h.keeps (fileMoves_keepsTree (ProcSys.doOpen_moves hd))
  | read fd len =>
    obtain ⟨t, -, hd⟩ := Option.bind_eq_some.1 hd
    exact h.keeps (fileMoves_keepsTree (ProcSys.doRead_moves hd))
  | resume =>
    obtain ⟨t, ht, hd⟩ := Option.bind_eq_some.1 hd
    obtain ⟨w, hw, -⟩ := hcur t ht
    exact h.resume hp ht hw hd

theorem TreeInv.of_boot (root : Nat) (vnodes : Nat → Vnode) (fs : Fs) (oom : Nat → Bool) :
    TreeInv (ProcSys.boot root vnodes fs oom) := by
  have hb : ∀ q y, (ProcSys.boot root vnodes fs oom).table.procs q = some y → y.pChildren = [] :=
    fun q y hy => by
      by_cases e : q = idleAddr
      · subst e
        simp only [ProcSys.boot, update_same, Option.some.injEq] at hy
        rw [← hy]
      · simp [ProcSys.boot, e] at hy
  refine ⟨fun _ _ h => Option.noConfusion h, fun _ _ h => Option.noConfusion h,
    ⟨_, rfl, rfl, rfl, rfl⟩, fun _ h => absurd h (List.not_mem_nil _), fun q y c _ hy hc _ => ?_,
    fun q y hy c hc => ?_, fun _ h => absurd h (List.not_mem_nil _), fun _ => trivial,
    fun _ => ⟨rfl, rfl⟩, fun _ h => Option.noConfusion h⟩
  · rw [hb q y hy] at hc; cases hc
  · rw [hb q y hy] at hc; cases hc

theorem ProcReachable.treeInv {K : Consts} (hK : 2 ≤ K.procMaxCount) {s : ProcSys}
    (h : ProcReachable K s) : TreeInv s := by
  induction h with
  | boot root vnodes fs oom => exact .of_boot root vnodes fs oom
  | step op hr he hs ih => exact ih.procStep (hr.sysPidInv hK) hr.sysSchedInv hK he hs

end Run

/-! ## The pids of every run -/

/-- `_proc_getid` terminates, returns `-1` exactly when every pid is taken, and otherwise the
first free pid in cyclic order from `next_pid`, moving `next_pid` past it. In every run from
boot the pids on `proc_list` are distinct and in `[1, PROC_MAX_COUNT)`, and the first process
created gets `PID_INIT`: while no process exists `next_pid` is still `PID_INIT`, so a
`proc_create` from such a state creates `init`. -/
theorem procGetid_pids_distinct (K : Consts) (hK : 2 ≤ K.procMaxCount) :
    (∀ nextPid pids, 1 ≤ nextPid → nextPid < K.procMaxCount →
      (∃ r, procGetid K.procMaxCount nextPid pids = some r ∧
        (r.1 = -1 ↔ ∀ p, 1 ≤ p → p < K.procMaxCount → p ∈ pids)) ∧
      ∀ k, k < K.procMaxCount - 1 → cyclicPid K.procMaxCount nextPid k ∉ pids →
        (∀ j < k, cyclicPid K.procMaxCount nextPid j ∈ pids) →
        procGetid K.procMaxCount nextPid pids = some ((cyclicPid K.procMaxCount nextPid k : Int),
          pidSucc K.procMaxCount (cyclicPid K.procMaxCount nextPid k))) ∧
    (∀ s, ProcReachable K s →
      ∃ ps, s.table.pids = some ps ∧ ps.Nodup ∧ ∀ p ∈ ps, 1 ≤ p ∧ p < K.procMaxCount) ∧
    ∀ s cur a t', ProcReachable K s → s.table.procList = [] →
      procCreate K s.table cur = some (some a, t') → t'.pidAt a = some pidInit ∧ t'.initproc = some a :=
  ⟨fun _ pids hn1 hn => ⟨procGetid_total hn1 hn pids, (procGetid_spec hn1 hn pids).2⟩,
    fun _ hs => (hs.sysPidInv hK).table.pids, fun s _ _ _ hs hl h => by
      have hT := hs.treeInv hK
      have hi : s.table.initproc = none :=
        Option.eq_none_iff_forall_not_mem.2 fun i e => by simpa [hl] using (hT.init i e).1
      exact procCreate_first hK hl (hT.boot hi).2 h⟩

/-- At boot, the first `proc_create` creates `init` at the first slab address. -/
theorem procGetid_pids_distinct_boot :
    2 ≤ sampleConsts.procMaxCount ∧
      ProcReachable sampleConsts (ProcSys.boot 100 sampleVnodes sampleFs fun _ => false) ∧
      (ProcSys.boot 100 sampleVnodes sampleFs fun _ => false).table.procList = [] ∧
      ∃ t', procCreate sampleConsts (ProcSys.boot 100 sampleVnodes sampleFs fun _ => false).table
        idleAddr = some (some 1, t') ∧ t'.pidAt 1 = some pidInit ∧ t'.initproc = some 1 :=
  have hb := ProcReachable.boot (K := sampleConsts) 100 sampleVnodes sampleFs fun _ => false
  ⟨by decide, hb, rfl, _, rfl,
    (procGetid_pids_distinct sampleConsts (by decide)).2.2 _ idleAddr 1 _ hb rfl rfl⟩

end Weenix
