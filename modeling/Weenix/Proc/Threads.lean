import Weenix.Proc.SysSched

/-!
# Threads and their processes

`kthread_create` puts a new thread on its process's `p_threads`, and `kthread_destroy` takes it
off; `proc_destroy` destroys every thread on the list, and `proc_kill` cancels every thread on
it with `kthread_cancel`, which asserts that the thread is not `curthr`. The lists stay exact over
every run of the system.

1. `ThreadInv`: no `p_threads` holds a thread twice, and each thread on one exists with `kt_proc`
   the process.
2. Scheduler calls keep every thread with its process (`Sched.Within.proc_kept`), and the process
   calls change the lists only by the append of `spawn` and the unlink of `kthread_destroy`
   (`ProcSys.KeepsThreads`), so every step keeps `ThreadInv` (`ThreadInv.procStep`).
3. So `ThreadInv` holds in every reachable state (`ProcReachable.threadInv`,
   `proc_reachable_threads_listed`).
4. `proc_kill` of a process other than `curproc` therefore never cancels `curthr`; a thread in a
   cancellable sleep is on the queue its `kt_wchan` names (`Sched.SleepQueued`), so every
   `kthread_cancel` returns; every thread of the process ends cancelled with the status, and one
   that slept cancellably ends runnable on the run queue alone (`Kthread.Cancelled`,
   `procKill_spec`).
-/

namespace Weenix

open Function

/-! ## The invariant -/

/-- Every process lists each of its threads once, and each listed thread exists and belongs to
the process. -/
structure ThreadInv (s : ProcSys) : Prop where
  nodup : ∀ a p, s.table.procs a = some p → p.pThreads.Nodup
  owned : ∀ a p, s.table.procs a = some p → ∀ th ∈ p.pThreads,
    ∃ x, s.sched.threads th = some x ∧ x.ktProc = a

/-- `s'` keeps every thread of `s` with its process, and each process of `s'` lists no thread or
the threads it listed in `s`. -/
structure ProcSys.KeepsThreads (s s' : ProcSys) : Prop where
  threads : ∀ th x, s.sched.threads th = some x →
    ∃ y, s'.sched.threads th = some y ∧ y.ktProc = x.ktProc
  lists : ∀ a p', s'.table.procs a = some p' →
    p'.pThreads = [] ∨ ∃ p, s.table.procs a = some p ∧ p'.pThreads = p.pThreads

namespace ProcSys.KeepsThreads

variable {s s' s'' : ProcSys}

theorem refl (s : ProcSys) : KeepsThreads s s :=
  ⟨fun _ x h => ⟨x, h, rfl⟩, fun _ p h => .inr ⟨p, h, rfl⟩⟩

theorem trans (h₁ : KeepsThreads s s') (h₂ : KeepsThreads s' s'') : KeepsThreads s s'' where
  threads th x hx :=
    let ⟨y, hy, hyx⟩ := h₁.threads th x hx
    let ⟨z, hz, hzy⟩ := h₂.threads th y hy
    ⟨z, hz, hzy.trans hyx⟩
  lists a p'' hp'' := by
    rcases h₂.lists a p'' hp'' with he | ⟨p', hp', he⟩
    · exact .inl he
    rcases h₁.lists a p' hp' with he' | ⟨p, hp, he'⟩
    · exact .inl (he.trans he')
    · exact .inr ⟨p, hp, he.trans he'⟩

theorem of_within (hs : s.sched.Within s'.sched) (hp : s'.table.procs = s.table.procs) :
    KeepsThreads s s' :=
  ⟨hs.proc_kept, fun _ p h => .inr ⟨p, hp ▸ h, rfl⟩⟩

theorem of_procs (hs : s'.sched = s.sched) (hp : s'.table.procs = s.table.procs) :
    KeepsThreads s s' :=
  of_within (hs ▸ .refl _) hp

theorem setPc {t : Nat} {c : Pc} : KeepsThreads s (s.setPc t c) := of_procs rfl rfl

theorem setProc {a : Nat} {p y : Proc} (hp : s.table.procs a = some p)
    (hy : y.pThreads = p.pThreads) : KeepsThreads s (s.setProc a y) := by
  refine ⟨fun _ x h => ⟨x, h, rfl⟩, fun b p' h => .inr ?_⟩
  by_cases e : b = a
  · subst e
    simp only [ProcSys.setProc_table, ProcTable.setProc_procs, update_same,
      Option.some.injEq] at h
    exact ⟨p, hp, h ▸ hy⟩
  · exact ⟨p', by simpa [e] using h, rfl⟩

theorem free {c : Nat} : KeepsThreads s { s with table := procFree s.table c } := by
  refine ⟨fun _ x h => ⟨x, h, rfl⟩, fun a p' h => .inr ⟨p', ?_, rfl⟩⟩
  by_cases e : a = c
  · subst e; simp [Weenix.procFree] at h
  · simpa [Weenix.procFree, e] using h

end ProcSys.KeepsThreads

open ProcSys (KeepsThreads)

theorem ThreadInv.keeps {s s' : ProcSys} (h : ThreadInv s) (hk : KeepsThreads s s') :
    ThreadInv s' where
  nodup a p' hp' := by
    rcases hk.lists a p' hp' with he | ⟨p, hp, he⟩
    · rw [he]; exact List.nodup_nil
    · rw [he]; exact h.nodup a p hp
  owned a p' hp' th hth := by
    rcases hk.lists a p' hp' with he | ⟨p, hp, he⟩
    · rw [he] at hth; cases hth
    obtain ⟨x, hx, hxa⟩ := h.owned a p hp th (he ▸ hth)
    obtain ⟨y, hy, hyx⟩ := hk.threads th x hx
    exact ⟨y, hy, hyx.trans hxa⟩

theorem ThreadInv.not_mem {s : ProcSys} (h : ThreadInv s) {a th : Nat} {p : Proc}
    (hp : s.table.procs a = some p) (hth : s.sched.threads th = none) : th ∉ p.pThreads :=
  fun hm => by
    obtain ⟨x, hx, -⟩ := h.owned a p hp th hm
    rw [hth] at hx
    cases hx

/-! ## Scheduler calls and table updates -/

theorem Sched.Within.of_call {s s' : Sched} (op : SchedOp) (h : schedStep s op = some s')
    (hc : ∀ t p, op ≠ .kthreadCreate t p) : s.Within s' :=
  (schedStep_within h).resolve_right fun ⟨t, p, he, _⟩ => hc t p he

theorem filePut_procs {t t' : ProcTable} {f : Nat} {vn : Option Nat}
    (h : filePut t f = some (vn, t')) : t'.procs = t.procs := by
  simp only [filePut, Option.bind_eq_bind, Option.bind_eq_some] at h
  obtain ⟨x, -, h⟩ := h
  split at h
  · cases h
  · split at h <;>
    · simp only [Option.pure_def, Option.some_bind, Option.some.injEq, Prod.mk.injEq] at h
      rw [← h.2]

theorem vnodePutLocked_procs {t t' : ProcTable} {v : Nat} (h : vnodePutLocked t v = some t') :
    t'.procs = t.procs := by
  unfold vnodePutLocked at h
  split at h
  · cases h
  · rw [← Option.some.inj h]

/-- `proc_create` adds a process with no threads and changes no process's threads. -/
theorem procCreate_lists {K : Consts} {t t' : ProcTable} {cur : Nat} {r : Option Nat}
    (h : procCreate K t cur = some (r, t')) (a : Nat) (p' : Proc) (hp' : t'.procs a = some p') :
    p'.pThreads = [] ∨ ∃ p, t.procs a = some p ∧ p'.pThreads = p.pThreads := by
  obtain ⟨-, pid, -, -, -, ⟨-, -, he⟩ | ⟨-, -, -, ⟨-, -, hp, -⟩ | ⟨x, y, -, -, hy, -, hp, -⟩⟩⟩ :=
    procCreate_eq_some K h
  · exact .inr ⟨p', he ▸ hp', rfl⟩
  · exact .inr ⟨p', hp ▸ hp', rfl⟩
  have hnew : ∀ b z, update t.procs t.slab.next (some (newProc K pid.toNat cur x)) b = some z →
      z.pThreads = [] ∨ ∃ p, t.procs b = some p ∧ z.pThreads = p.pThreads := fun b z hz => by
    by_cases e : b = t.slab.next
    · subst e; simp only [update_same, Option.some.injEq] at hz; subst hz; exact .inl rfl
    · rw [update_noteq e] at hz; exact .inr ⟨z, hz, rfl⟩
  rw [hp] at hp'
  by_cases e : a = cur
  · subst e
    simp only [update_same, Option.some.injEq] at hp'
    subst hp'
    exact hnew a y hy
  · rw [update_noteq e] at hp'
    exact hnew a p' hp'

/-! ## The calls -/

section Calls

variable {K : Consts} {s s' : ProcSys} {t : Nat}

theorem vlock_keepsThreads {v : Nat} {b : Bool} (h : vlock s t v = some (b, s')) :
    KeepsThreads s s' := by
  unfold vlock at h
  split at h
  · cases h; exact .of_procs rfl rfl
  · split at h
    · cases h
    · simp only [Option.bind_eq_bind, Option.bind_eq_some, Option.some.injEq] at h
      obtain ⟨_, hs, h⟩ := h
      cases h
      exact .of_within (.of_call (.sleepOn _) hs nofun) rfl

theorem vunlock_keepsThreads {v : Nat} (h : vunlock s t v = some s') : KeepsThreads s s' := by
  simp only [vunlock, Option.bind_eq_bind] at h
  split at h
  · simp at h
  · simp only [Option.pure_def, Option.some_bind, Option.bind_eq_some, Option.some.injEq] at h
    obtain ⟨⟨_, _⟩, hw, rfl⟩ := h
    exact .of_within (.of_call (.wakeupOn _) (schedStep_wakeupOn hw) nofun) rfl

theorem releaseSlot_keepsThreads {p fd : Nat} {vn : Option Nat}
    (h : releaseSlot K s p fd = some (vn, s')) : KeepsThreads s s' := by
  simp only [releaseSlot, Option.bind_eq_bind, Option.bind_eq_some] at h
  obtain ⟨x, hx, h⟩ := h
  split at h
  · split at h
    · cases h; exact .refl _
    · simp only [Option.bind_eq_some, Option.some.injEq, Prod.mk.injEq] at h
      obtain ⟨⟨vn', tb⟩, hf, -, rfl⟩ := h
      have k : KeepsThreads s { s with table := tb } := .of_procs rfl (filePut_procs hf)
      exact k.trans (.setProc ((congrFun (filePut_procs hf) p).trans hx) rfl)
  · split at h <;> cases h
    · exact .refl _
    · exact .setProc hx rfl

theorem releaseLoop_keepsThreads {after : AfterRelease} {t p : Nat} :
    ∀ {n fd : Nat} {s s' : ProcSys} {b : Bool},
      releaseLoop K after t p n fd s = some (b, s') → KeepsThreads s s'
  | 0, _, _, _, _, h => by cases h; exact .refl _
  | n + 1, fd, s, s', b, h => by
    simp only [releaseLoop, Option.bind_eq_bind, Option.bind_eq_some] at h
    obtain ⟨⟨vn, s₁⟩, h₁, h⟩ := h
    have k₁ := releaseSlot_keepsThreads h₁
    split at h
    · exact k₁.trans (releaseLoop_keepsThreads h)
    · simp only [Option.bind_eq_some] at h
      obtain ⟨⟨got, s₂⟩, h₂, h⟩ := h
      have k₂ := k₁.trans (vlock_keepsThreads h₂)
      split at h
      · simp only [Option.bind_eq_some] at h
        obtain ⟨tb, htb, s₃, h₃, h⟩ := h
        have k₃ : KeepsThreads s₂ { s₂ with table := tb } := .of_procs rfl (vnodePutLocked_procs htb)
        exact ((k₂.trans k₃).trans (vunlock_keepsThreads h₃)).trans (releaseLoop_keepsThreads h)
      · cases h; exact k₂.trans .setPc

/-- `kthread_destroy` unlinks the thread from its process's list as it frees it. -/
theorem ThreadInv.kthreadDestroy (h : ThreadInv s) {th : Nat} (hd : kthreadDestroy s th = some s') :
    ThreadInv s' := by
  unfold Weenix.kthreadDestroy at hd
  split at hd
  · simp at hd
  simp only [Option.pure_def, Option.some_bind, Option.bind_eq_bind, Option.bind_eq_some] at hd
  obtain ⟨x, hx, hd⟩ := hd
  split at hd
  · simp at hd
  simp only [Option.pure_def, Option.some_bind, Option.some.injEq] at hd
  subst hd
  have hthr : ∀ th' y, s.sched.threads th' = some y → th' ≠ th →
      update s.sched.threads th none th' = some y := fun th' y hy e => by rwa [update_noteq e]
  have hother : ∀ a p, s.table.procs a = some p → a ≠ x.ktProc → th ∉ p.pThreads :=
    fun a p hp ha hm => by
      obtain ⟨y, hy, hya⟩ := h.owned a p hp th hm
      rw [hx] at hy; cases hy; exact ha hya.symm
  split
  · rename_i p hp
    constructor
    · intro a p' hp'
      by_cases e : a = x.ktProc
      · subst e
        simp only [ProcSys.setProc_table, ProcTable.setProc_procs, update_same, Option.some.injEq] at hp'
        subst hp'
        exact (h.nodup _ p hp).erase th
      · simp only [ProcSys.setProc_table, ProcTable.setProc_procs, update_noteq e] at hp'
        exact h.nodup a p' hp'
    · intro a p' hp' th' hth'
      by_cases e : a = x.ktProc
      · subst e
        simp only [ProcSys.setProc_table, ProcTable.setProc_procs, update_same, Option.some.injEq] at hp'
        subst hp'
        have hm := ((h.nodup _ p hp).mem_erase_iff).1 hth'
        obtain ⟨y, hy, hya⟩ := h.owned _ p hp th' hm.2
        exact ⟨y, hthr th' y hy hm.1, hya⟩
      · simp only [ProcSys.setProc_table, ProcTable.setProc_procs, update_noteq e] at hp'
        obtain ⟨y, hy, hya⟩ := h.owned a p' hp' th' hth'
        exact ⟨y, hthr th' y hy (by rintro rfl; exact hother a p' hp' e hth'), hya⟩
  · rename_i hp
    refine ⟨h.nodup, fun a p' hp' th' hth' => ?_⟩
    obtain ⟨y, hy, hya⟩ := h.owned a p' hp' th' hth'
    refine ⟨y, hthr th' y hy ?_, hya⟩
    rintro rfl
    rw [hx] at hy
    cases hy
    rw [← hya, hp] at hp'
    cases hp'
theorem ThreadInv.kthreadDestroyAll : ∀ {ths : List Nat} {s s' : ProcSys}, ThreadInv s →
    kthreadDestroyAll ths s = some s' → ThreadInv s'
  | [], _, _, h, hd => by cases hd; exact h
  | th :: ths, s, s', h, hd => by
    simp only [Weenix.kthreadDestroyAll, Option.bind_eq_bind, Option.bind_eq_some] at hd
    obtain ⟨s₁, h₁, hd⟩ := hd
    exact (h.kthreadDestroy h₁).kthreadDestroyAll hd

theorem foldlM_keepsThreads {α : Type} {f : ProcSys → α → Option ProcSys}
    (hf : ∀ s a s', f s a = some s' → KeepsThreads s s') :
    ∀ {l : List α} {s s' : ProcSys}, l.foldlM f s = some s' → KeepsThreads s s'
  | [], _, _, h => by cases h; exact .refl _
  | a :: l, s, s', h => by
    simp only [List.foldlM_cons, Option.bind_eq_bind, Option.bind_eq_some] at h
    obtain ⟨s₁, h₁, h⟩ := h
    exact (hf _ _ _ h₁).trans (foldlM_keepsThreads hf h)

/-- The end of `proc_cleanup` moves children between processes and leaves every thread list. -/
theorem cleanupFinish_keepsThreads {p : Nat} (h : cleanupFinish s p = some s') :
    KeepsThreads s s' := by
  simp only [cleanupFinish, Option.bind_eq_bind, Option.bind_eq_some] at h
  obtain ⟨x, hx, h⟩ := h
  split at h
  · simp only [Option.pure_def, Option.some.injEq] at h
    subst h; exact .of_procs rfl rfl
  simp only [Option.pure_def, Option.some_bind, Option.bind_eq_some] at h
  obtain ⟨s₁, h₁, h⟩ := h
  have k₁ : KeepsThreads s s₁ := by
    refine (KeepsThreads.setProc hx (by rfl)).trans (foldlM_keepsThreads (fun s c s' h => ?_) h₁)
    simp only [Option.bind_eq_bind, Option.bind_eq_some] at h
    obtain ⟨y, hy, h⟩ := h
    have k : KeepsThreads s (s.setProc c { y with pPproc := s.table.initproc }) := .setProc hy rfl
    split at h
    · simp only [Option.bind_eq_some, Option.some.injEq] at h
      obtain ⟨z, hz, rfl⟩ := h
      exact k.trans (.setProc hz rfl)
    · cases h; exact k
  split at h <;> simp only [Option.some_bind, Option.bind_eq_some, Option.some.injEq] at h
  · obtain ⟨sc, hb, _, he, rfl⟩ := h
    exact k₁.trans (.of_within ((Sched.Within.of_call (.broadcastOn _) hb nofun).trans
      (.of_call (.exit _) he nofun)) rfl)
  · obtain ⟨_, he, rfl⟩ := h
    exact k₁.trans (.of_within (.of_call (.exit _) he nofun) rfl)

/-- `proc_destroy` destroys the threads on the process's list before it frees the process. -/
theorem ThreadInv.procDestroy (h : ThreadInv s) {c : Nat} (hd : procDestroy K s t c = some s') :
    ThreadInv s' := by
  simp only [Weenix.procDestroy, Option.bind_eq_bind, Option.bind_eq_some] at hd
  obtain ⟨x, -, s₂, h₂, ⟨done, s₃⟩, h₃, hd⟩ := hd
  have h₁ : ThreadInv { s with table := procUnlist s.table c } := h.keeps (.of_procs rfl rfl)
  have h₃' := (h₁.kthreadDestroyAll h₂).keeps (releaseLoop_keepsThreads h₃)
  split at hd <;> cases hd
  exacts [h₃'.keeps .free, h₃']

theorem ThreadInv.reap (h : ThreadInv s) {p c : Nat} (hd : reap K s t p c = some s') :
    ThreadInv s' := by
  simp only [Weenix.reap, Option.bind_eq_bind, Option.bind_eq_some] at hd
  obtain ⟨x, hx, hd⟩ := hd
  exact (h.keeps (.setProc hx (by rfl))).procDestroy hd

theorem ThreadInv.waitChildStep (h : ThreadInv s) {p c : Nat}
    (hw : waitChildStep K s t p c = some s') : ThreadInv s' := by
  simp only [Weenix.waitChildStep, Option.bind_eq_bind, Option.bind_eq_some] at hw
  obtain ⟨y, -, hw⟩ := hw
  split at hw
  · exact (h.keeps .setPc).reap hw
  · simp only [Option.bind_eq_some, Option.some.injEq] at hw
    obtain ⟨_, hs, rfl⟩ := hw
    exact h.keeps (.of_within (.of_call (.sleepOn _) hs nofun) rfl)

theorem ThreadInv.waitAnyStep (h : ThreadInv s) {p : Nat} (hw : waitAnyStep K s t p = some s') :
    ThreadInv s' := by
  simp only [Weenix.waitAnyStep, Option.bind_eq_bind, Option.bind_eq_some] at hw
  obtain ⟨x, -, d, -, hw⟩ := hw
  split at hw
  · exact (h.keeps .setPc).reap hw
  · simp only [Option.bind_eq_some, Option.some.injEq] at hw
    obtain ⟨_, hs, rfl⟩ := hw
    exact h.keeps (.of_within (.of_call (.sleepOn _) hs nofun) rfl)

theorem ThreadInv.doWaitpid (h : ThreadInv s) {p : Nat} {pid : Int}
    (hw : doWaitpid K s t p pid = some s') : ThreadInv s' := by
  unfold Weenix.doWaitpid at hw
  by_cases h0 : pid = 0 ∨ pid < -1
  · rw [if_pos h0] at hw; cases hw; exact h
  rw [if_neg h0] at hw
  simp only [Option.pure_def, Option.some_bind, Option.bind_eq_bind, Option.bind_eq_some] at hw
  obtain ⟨x, -, hw⟩ := hw
  split at hw
  · simp only [Option.bind_eq_some] at hw
    obtain ⟨c, -, hw⟩ := hw
    split at hw
    · cases hw; exact h
    · exact h.waitChildStep hw
  · split at hw
    · cases hw; exact h
    · exact h.waitAnyStep hw

/-- `kthread_create`: a thread at an address where the scheduler has none, appended to the list
of the process at `a`. -/
theorem ThreadInv.link (h : ThreadInv s) {a th : Nat} {x : Proc} (hx : s.table.procs a = some x)
    (hth : s.sched.threads th = none) :
    ThreadInv { s.setProc a { x with pThreads := x.pThreads ++ [th] } with
      sched := kthreadCreate s.sched th a } := by
  have hne : ∀ th' y, s.sched.threads th' = some y → th' ≠ th := by
    rintro th' y hy rfl; rw [hth] at hy; cases hy
  have hkeep : ∀ th' y, s.sched.threads th' = some y →
      (kthreadCreate s.sched th a).threads th' = some y := fun th' y hy => by
    rw [kthreadCreate, Sched.setThread_threads, update_noteq (hne th' y hy), hy]
  constructor
  · intro b p' hp'
    by_cases e : b = a
    · subst e
      simp only [ProcSys.setProc_table, ProcTable.setProc_procs, update_same,
        Option.some.injEq] at hp'
      subst hp'
      exact List.concat_eq_append _ _ ▸ (h.nodup b x hx).concat (h.not_mem hx hth)
    · simp only [ProcSys.setProc_table, ProcTable.setProc_procs, update_noteq e] at hp'
      exact h.nodup b p' hp'
  · intro b p' hp' th' hth'
    by_cases e : b = a
    · subst e
      simp only [ProcSys.setProc_table, ProcTable.setProc_procs, update_same,
        Option.some.injEq] at hp'
      subst hp'
      rcases List.mem_append.1 hth' with hm | hm
      · obtain ⟨y, hy, hya⟩ := h.owned b x hx th' hm
        exact ⟨y, hkeep th' y hy, hya⟩
      · rw [List.mem_singleton.1 hm]
        exact ⟨_, update_same _ _ _, rfl⟩
    · simp only [ProcSys.setProc_table, ProcTable.setProc_procs, update_noteq e] at hp'
      obtain ⟨y, hy, hya⟩ := h.owned b p' hp' th' hth'
      exact ⟨y, hkeep th' y hy, hya⟩

/-- `spawn`: `proc_create` adds a process with no threads, and `kthread_create` puts the new
thread, at the address the allocator hands out next, on its list. -/
theorem ThreadInv.spawn (h : ThreadInv s)
    (hf : ∀ a, s.table.slab.next ≤ a → s.sched.threads a = none) {cur : Nat}
    (hs : spawn K s cur = some s') : ThreadInv s' := by
  simp only [Weenix.spawn, Option.bind_eq_bind, Option.bind_eq_some] at hs
  obtain ⟨⟨_ | a, tb⟩, hc, hs⟩ := hs
  · cases hs
  rcases hal : tb.slab.alloc with ⟨_ | th, sl⟩ <;> simp only [hal] at hs
  · cases hs
  simp only [Option.bind_eq_some, Option.some.injEq] at hs
  obtain ⟨x, hx, sc, hm, rfl⟩ := hs
  obtain ⟨rfl, -⟩ := Slab.alloc_eq_some hal
  have h₁ : ThreadInv { s with table := { tb with slab := sl } } :=
    h.keeps ⟨fun _ y hy => ⟨y, hy, rfl⟩, fun a p' hp' => procCreate_lists hc a p' hp'⟩
  have h₂ := h₁.link hx (hf _ (procCreate_slab_le hc))
  exact (h₂.keeps (.of_procs rfl rfl)).keeps (.of_within (.of_call (.makeRunnable _) hm nofun) rfl)

theorem ThreadInv.doFork (h : ThreadInv s) {p : Nat} (hd : doFork K s t p = some s') :
    ThreadInv s' := by
  simp only [Weenix.doFork, Option.bind_eq_bind, Option.bind_eq_some] at hd
  obtain ⟨⟨c, tb⟩, hc, hd⟩ := hd
  have h₁ : ThreadInv { s with table := tb } :=
    h.keeps ⟨fun _ y hy => ⟨y, hy, rfl⟩, procCreate_lists hc⟩
  split at hd
  · cases hd; exact h₁
  · exact h₁.procDestroy hd

theorem doExit_keepsThreads {p : Nat} {status : Int} (hd : doExit K s t p status = some s') :
    KeepsThreads s s' := by
  simp only [doExit, Option.bind_eq_bind, Option.bind_eq_some] at hd
  obtain ⟨x, hx, ⟨done, s₂⟩, h₂, hd⟩ := hd
  have k := (KeepsThreads.setProc hx (by rfl)).trans (releaseLoop_keepsThreads h₂)
  split at hd
  · exact k.trans (cleanupFinish_keepsThreads hd)
  · cases hd; exact k

/-- A move of the file calls changes no thread list and keeps every thread with its process. -/
theorem fileMove_keepsThreads (h : ProcSys.FileMove s s') : KeepsThreads s s' := by
  cases h with
  | file h =>
    refine ⟨fun _ x hx => ⟨x, h.sched ▸ hx, rfl⟩, fun a p' hp' => .inr ?_⟩
    have e := h.map_procs (g := Proc.pThreads) (fun _ => rfl) a
    rw [hp', Option.map_some'] at e
    obtain ⟨p, hp, he⟩ := Option.map_eq_some'.1 e.symm
    exact ⟨p, hp, he.symm⟩
  | vlock h => exact vlock_keepsThreads h
  | vunlock h => exact vunlock_keepsThreads h
  | setPc _ => exact .setPc
  | sleep hs => exact .of_within (.of_call (.cancellableSleepOn _) hs nofun) rfl

theorem fileMoves_keepsThreads (h : Relation.ReflTransGen ProcSys.FileMove s s') :
    KeepsThreads s s' := by
  induction h with
  | refl => exact .refl _
  | tail _ hm ih => exact ih.trans (fileMove_keepsThreads hm)

theorem ThreadInv.resume (h : ThreadInv s) (hr : resume K s t = some s') : ThreadInv s' := by
  unfold Weenix.resume at hr
  split at hr
  · cases hr
  · exact h.waitChildStep hr
  · exact h.waitAnyStep hr
  · rename_i p fd v after _
    simp only [Option.bind_eq_bind, Option.bind_eq_some] at hr
    obtain ⟨tb, htb, s₂, h₂, ⟨done, s₃⟩, h₃, hr⟩ := hr
    have k₁ : KeepsThreads s { s.setPc t .run with table := tb } :=
      KeepsThreads.setPc.trans (.of_procs rfl (vnodePutLocked_procs htb))
    have h₃' := h.keeps ((k₁.trans (vunlock_keepsThreads h₂)).trans (releaseLoop_keepsThreads h₃))
    split at hr
    · cases hr; exact h₃'
    · split at hr
      · exact h₃'.keeps (cleanupFinish_keepsThreads hr)
      · cases hr; exact h₃'.keeps .free
  · exact h.keeps (fileMoves_keepsThreads (resumeFileCall_moves hr))

/-- Every step keeps the threads' lists exact, given that no thread sits at an address the
allocator has not handed out. -/
theorem ThreadInv.procStep (h : ThreadInv s)
    (hf : ∀ a, s.table.slab.next ≤ a → s.sched.threads a = none) {op : ProcOp}
    (hs : procStep K s op = some s') : ThreadInv s' := by
  cases op with
  | dispatch =>
    simp only [Weenix.procStep, Option.bind_eq_bind, Option.bind_eq_some, Option.some.injEq] at hs
    obtain ⟨_, hd, rfl⟩ := hs
    exact h.keeps (.of_within (.of_call .dispatch hd nofun) rfl)
  | yield =>
    simp only [Weenix.procStep, Option.bind_eq_bind, Option.bind_eq_some, Option.some.injEq] at hs
    obtain ⟨_, hd, rfl⟩ := hs
    exact h.keeps (.of_within (.of_call .yield hd nofun) rfl)
  | interrupt d =>
    simp only [Weenix.procStep, Option.bind_eq_bind, Option.bind_eq_some, Option.some.injEq] at hs
    obtain ⟨⟨_, _⟩, hw, rfl⟩ := hs
    exact h.keeps (.of_within (.of_call (.wakeupOn _) (schedStep_wakeupOn hw) nofun) rfl)
  | spawn => exact h.spawn hf hs
  | fork => obtain ⟨t, -, hs⟩ := Option.bind_eq_some.1 hs; exact h.doFork hs
  | exit status => obtain ⟨t, -, hs⟩ := Option.bind_eq_some.1 hs; exact h.keeps (doExit_keepsThreads hs)
  | waitpid pid => obtain ⟨t, -, hs⟩ := Option.bind_eq_some.1 hs; exact h.doWaitpid hs
  | open_ filename oflags =>
    obtain ⟨t, -, hs⟩ := Option.bind_eq_some.1 hs
    exact h.keeps (fileMoves_keepsThreads (ProcSys.doOpen_moves hs))
  | read fd len =>
    obtain ⟨t, -, hs⟩ := Option.bind_eq_some.1 hs
    exact h.keeps (fileMoves_keepsThreads (ProcSys.doRead_moves hs))
  | resume => obtain ⟨t, -, hs⟩ := Option.bind_eq_some.1 hs; exact h.resume hs

end Calls

/-! ## Every run -/

theorem ThreadInv.boot (root : Nat) (vnodes : Nat → Vnode) (fs : Fs) (oom : Nat → Bool) :
    ThreadInv (ProcSys.boot root vnodes fs oom) := by
  have hb : ∀ a p, (ProcSys.boot root vnodes fs oom).table.procs a = some p → p.pThreads = [] := by
    intro a p hp
    by_cases e : a = idleAddr
    · subst e; simp only [ProcSys.boot, update_same, Option.some.injEq] at hp; rw [← hp]
    · simp [ProcSys.boot, update_noteq e] at hp
  exact ⟨fun a p hp => hb a p hp ▸ List.nodup_nil, fun a p hp th hth => by
    rw [hb a p hp] at hth; cases hth⟩

theorem ProcReachable.threadInv {K : Consts} {s : ProcSys} (h : ProcReachable K s) : ThreadInv s := by
  induction h with
  | boot root vnodes fs oom => exact .boot root vnodes fs oom
  | step _ hr _ hs ih => exact ih.procStep hr.sysSchedInv.fresh hs

/-- In every state the system reaches from boot, over every interleaving of the process calls,
each process lists each of its threads once, and every thread it lists exists with `kt_proc` the
process. -/
theorem proc_reachable_threads_listed {K : Consts} {s : ProcSys} (h : ProcReachable K s) :
    ∀ a p, s.table.procs a = some p → p.pThreads.Nodup ∧
      ∀ th ∈ p.pThreads, ∃ x, s.sched.threads th = some x ∧ x.ktProc = a :=
  fun a p hp => ⟨h.threadInv.nodup a p hp, h.threadInv.owned a p hp⟩

/-- After `init` spawns a child, the child lists its one thread, in a state the theorem
covers. -/
theorem threads_listed_spawned :
    ∃ s, ProcReachable sampleConsts s ∧ (s.table.procs 4).map (·.pThreads) = some [6] ∧
      ∀ a p, s.table.procs a = some p → p.pThreads.Nodup ∧
        ∀ th ∈ p.pThreads, ∃ x, s.sched.threads th = some x ∧ x.ktProc = a :=
  have hr := (ProcReachable.boot 100 sampleVnodes sampleFs fun _ => false).run sampleConsts
    [.spawn, .dispatch, .spawn] rfl
  ⟨_, hr, rfl, proc_reachable_threads_listed hr⟩

/-! ## `proc_kill` -/

/-- `proc_kill(proc, status)` by the current thread, on the process at `p`:
`KASSERT(proc != curproc)`, then `kthread_cancel(thr, (void *)status)` on each thread of its
`p_threads`. -/
def procKill (s : ProcSys) (p : Nat) (status : Int) : Option ProcSys := do
  if p = s.curproc then none
  let x ← s.table.procs p
  some { s with sched := ← x.pThreads.foldlM (fun sc th => kthreadCancel sc th status) s.sched }

/-- What `kthread_cancel` with return value `r` makes of a thread that was `x`: `y` is marked and
carries `r`; a thread in a cancellable sleep has left its queue for the run queue `runq`,
`KT_RUNNABLE`, and any other keeps its state and its queue. -/
structure Kthread.Cancelled (runq : Nat) (r : Int) (x y : Kthread) : Prop where
  cancelled : y.ktCancelled = true
  retval : y.ktRetval = r
  woken : x.ktState = .sleepCancellable → y.ktState = .runnable ∧ y.ktWchan = some runq
  kept : x.ktState ≠ .sleepCancellable → y.ktState = x.ktState ∧ y.ktWchan = x.ktWchan

namespace Kthread.Cancelled

variable {q : Nat} {r : Int} {x y z : Kthread}

theorem not_sleep (h : Cancelled q r x y) : y.ktState ≠ .sleepCancellable := by
  by_cases hx : x.ktState = .sleepCancellable
  · rw [(h.woken hx).1]; exact nofun
  · rw [(h.kept hx).1]; exact hx

theorem again (h : Cancelled q r x y) (h' : Cancelled q r y z) : Cancelled q r x z where
  cancelled := h'.cancelled
  retval := h'.retval
  woken hx := by rw [(h'.kept h.not_sleep).1, (h'.kept h.not_sleep).2]; exact h.woken hx
  kept hx := by rw [(h'.kept h.not_sleep).1, (h'.kept h.not_sleep).2]; exact h.kept hx

end Kthread.Cancelled

section Cancel

variable {s s' : Sched} {th : Nat} {r : Int}

theorem kthreadCancel_frame (h : kthreadCancel s th r = some s') :
    s'.curthr = s.curthr ∧ s'.runq = s.runq ∧ ∀ t, t ≠ th → s'.threads t = s.threads t := by
  obtain ⟨-, x, -, hc⟩ := kthreadCancel_eq_some h
  obtain ⟨y, -, ⟨-, rfl⟩ | ⟨-, q, s₁, -, hr, hm⟩⟩ := schedCancel_eq_some hc
  · exact ⟨rfl, rfl, fun t e => by simp [update_noteq e]⟩
  · obtain ⟨z, -, -, rfl⟩ := ktqueueRemove_eq_some hr
    obtain ⟨-, w, -, -, rfl⟩ := schedMakeRunnable_eq_some hm
    exact ⟨rfl, rfl, fun t e => by simp [update_noteq e]⟩

theorem kthreadCancel_thread (h : kthreadCancel s th r = some s') :
    ∃ x y, s.threads th = some x ∧ s'.threads th = some y ∧ Kthread.Cancelled s.runq r x y := by
  obtain ⟨-, x, hx, hc⟩ := kthreadCancel_eq_some h
  obtain ⟨y, hy, ⟨hs, rfl⟩ | ⟨hs, q, s₁, -, hr, hm⟩⟩ := schedCancel_eq_some hc
  · simp only [Sched.setThread_threads, update_same, Option.some.injEq] at hy
    subst hy
    exact ⟨x, _, hx, update_same _ _ _, ⟨rfl, rfl, fun e => absurd e hs, fun _ => ⟨rfl, rfl⟩⟩⟩
  · simp only [Sched.setThread_threads, update_same, Option.some.injEq] at hy
    subst hy
    obtain ⟨z, hz, -, rfl⟩ := ktqueueRemove_eq_some hr
    obtain ⟨-, w, hw, -, rfl⟩ := schedMakeRunnable_eq_some hm
    simp only [Sched.setThread_threads, update_same, Option.some.injEq] at hz hw
    subst hz hw
    exact ⟨x, _, hx, update_same _ _ _, ⟨rfl, rfl, fun _ => ⟨rfl, rfl⟩, fun e => absurd hs e⟩⟩

/-- `kthread_cancel` of a thread that is not `curthr` returns: a thread in a cancellable sleep is
on the queue its `kt_wchan` names, and leaves it for the run queue. -/
theorem kthreadCancel_total (hi : SchedInv s) (hq : s.SleepQueued) (hc : s.curthr ≠ some th)
    {x : Kthread} (hx : s.threads th = some x) : ∃ s', kthreadCancel s th r = some s' := by
  have hxr : (s.setThread th { x with ktRetval := r }).threads th = some { x with ktRetval := r } :=
    by simp
  simp only [kthreadCancel, hc, if_false, hx, Option.bind_eq_bind, Option.pure_def,
    Option.some_bind, schedCancel, hxr, Sched.setThread_setThread]
  by_cases hs : x.ktState = .sleepCancellable
  · obtain ⟨q, hw⟩ := Option.ne_none_iff_exists'.1 (hq th x hx (.inr hs))
    have hm : th ∈ (s.queues q).tqList := (hi.queue.mem_iff q th).2 ⟨x, hx, hw⟩
    simp [hs, hw, ktqueueRemove, hm, schedMakeRunnable, hc, ktqueueEnqueue]
  · simp [hs]

/-- The loop of `proc_kill` over live threads other than `curthr` returns, keeps the scheduler
invariant, and cancels exactly the threads of the list. -/
theorem cancelLoop_spec (r : Int) : ∀ (ths : List Nat) {s : Sched}, SchedInv s → s.SleepQueued →
    (∀ th ∈ ths, s.curthr ≠ some th ∧ ∃ x, s.threads th = some x) →
    ∃ s', ths.foldlM (fun sc th => kthreadCancel sc th r) s = some s' ∧ SchedInv s' ∧
      s'.SleepQueued ∧ s'.curthr = s.curthr ∧ s'.runq = s.runq ∧
      (∀ th ∈ ths, ∃ x y, s.threads th = some x ∧ s'.threads th = some y ∧
        Kthread.Cancelled s.runq r x y) ∧
      ∀ t, t ∉ ths → s'.threads t = s.threads t
  | [], s, hi, hq, _ => ⟨s, rfl, hi, hq, rfl, rfl, nofun, fun _ _ => rfl⟩
  | th :: ths, s, hi, hq, hl => by
    obtain ⟨hc, x, hx⟩ := hl th (List.mem_cons_self _ _)
    obtain ⟨s₁, h₁⟩ := kthreadCancel_total (r := r) hi hq hc hx
    obtain ⟨hcur, hrq, hfr⟩ := kthreadCancel_frame h₁
    obtain ⟨x', y, hx', hy, hyc⟩ := kthreadCancel_thread h₁
    have hl₁ : ∀ th' ∈ ths, s₁.curthr ≠ some th' ∧ ∃ x, s₁.threads th' = some x := fun th' hm => by
      obtain ⟨hc', x', hx'⟩ := hl th' (List.mem_cons_of_mem _ hm)
      refine ⟨hcur ▸ hc', ?_⟩
      by_cases e : th' = th
      · exact ⟨y, e ▸ hy⟩
      · exact ⟨x', (hfr th' e).trans hx'⟩
    have hstep : schedStep s (.kthreadCancel th r) = some s₁ := h₁
    obtain ⟨s', h', hi', hq', hc', hrq', hth', hfr'⟩ := cancelLoop_spec r ths
      (schedStep_inv hi (by trivial) hstep).1 (schedStep_sleepQueued hq hstep) hl₁
    refine ⟨s', by simp only [List.foldlM_cons, h₁, Option.bind_eq_bind, Option.some_bind, h'],
      hi', hq', hc'.trans hcur, hrq'.trans hrq, fun th' hm => ?_, fun t ht => ?_⟩
    · by_cases hm' : th' ∈ ths
      · obtain ⟨x₁, z, hx₁, hz, hzc⟩ := hth' th' hm'
        by_cases e : th' = th
        · subst e
          obtain rfl := Option.some.inj (hy.symm.trans hx₁)
          exact ⟨x', z, hx', hz, hyc.again (hrq ▸ hzc)⟩
        · exact ⟨x₁, z, (hfr th' e).symm.trans hx₁, hz, hrq ▸ hzc⟩
      · obtain rfl := (List.mem_cons.1 hm).resolve_right hm'
        exact ⟨x', y, hx', (hfr' th' hm').trans hy, hyc⟩
    · rw [List.mem_cons, not_or] at ht
      exact (hfr' t ht.2).trans (hfr t ht.1)

/-- `proc_kill` of a live process other than `curproc`, from any state the system reaches: no
`kthread_cancel` fails its assertion; every thread of the process ends cancelled with the status;
one in a cancellable sleep ends `KT_RUNNABLE`, off its wait queue and on the run queue, and no
other queue; any other keeps its state and its queue; no other thread changes, and the scheduler
invariant holds. -/
theorem procKill_spec {K : Consts} {s : ProcSys} (hr : ProcReachable K s) {p : Nat} {x : Proc}
    (hp : p ≠ s.curproc) (hx : s.table.procs p = some x) (status : Int) :
    ∃ s', procKill s p status = some s' ∧ SchedInv s'.sched ∧
      (∀ th ∈ x.pThreads, ∃ w y, s.sched.threads th = some w ∧ s'.sched.threads th = some y ∧
        y.ktCancelled = true ∧ y.ktRetval = status ∧
        (w.ktState = .sleepCancellable → y.ktState = .runnable ∧
          ∀ q, th ∈ (s'.sched.queues q).tqList ↔ q = s'.sched.runq) ∧
        (w.ktState ≠ .sleepCancellable → y.ktState = w.ktState ∧ y.ktWchan = w.ktWchan)) ∧
      ∀ t, t ∉ x.pThreads → s'.sched.threads t = s.sched.threads t := by
  have hs := hr.sysSchedInv
  have ht := hr.threadInv
  have hl : ∀ th ∈ x.pThreads, s.sched.curthr ≠ some th ∧ ∃ y, s.sched.threads th = some y :=
    fun th hm => by
      obtain ⟨y, hy, hyp⟩ := ht.owned p x hx th hm
      refine ⟨fun hc => hp ?_, y, hy⟩
      simp only [ProcSys.curproc, hc, Option.some_bind, hy]
      exact hyp.symm
  obtain ⟨sc, h, hi, -, -, hrq, hth, hfr⟩ := cancelLoop_spec status x.pThreads hs.sched hs.queued hl
  refine ⟨{ s with sched := sc }, ?_, hi, fun th hm => ?_, hfr⟩
  · simp only [procKill, if_neg hp, hx, h, Option.bind_eq_bind, Option.some_bind, Option.pure_def]
  obtain ⟨w, y, hw, hy, hc⟩ := hth th hm
  refine ⟨w, y, hw, hy, hc.cancelled, hc.retval, fun hws => ⟨(hc.woken hws).1, fun q => ?_⟩, hc.kept⟩
  rw [hi.queue.mem_iff q th]
  constructor
  · rintro ⟨z, hz, hzq⟩
    rw [hy, Option.some.injEq] at hz
    subst hz
    rw [(hc.woken hws).2, Option.some.injEq] at hzq
    exact hzq.symm.trans hrq.symm
  · rintro rfl
    exact ⟨y, hy, (hc.woken hws).2.trans (by rw [hrq])⟩

end Cancel

/-- After `init` spawns a child, `proc_kill` of the child by `init` cancels the child's thread. -/
theorem procKill_spec_child :
    ∃ s x, ProcReachable sampleConsts s ∧ 4 ≠ s.curproc ∧ s.table.procs 4 = some x ∧
      ∃ s', procKill s 4 (-1) = some s' ∧ SchedInv s'.sched ∧
        (∀ th ∈ x.pThreads, ∃ w y, s.sched.threads th = some w ∧ s'.sched.threads th = some y ∧
          y.ktCancelled = true ∧ y.ktRetval = -1 ∧
          (w.ktState = .sleepCancellable → y.ktState = .runnable ∧
            ∀ q, th ∈ (s'.sched.queues q).tqList ↔ q = s'.sched.runq) ∧
          (w.ktState ≠ .sleepCancellable → y.ktState = w.ktState ∧ y.ktWchan = w.ktWchan)) ∧
        ∀ t, t ∉ x.pThreads → s'.sched.threads t = s.sched.threads t := by
  have hr := (ProcReachable.boot 100 sampleVnodes sampleFs fun _ => false).run sampleConsts
    [.spawn, .dispatch, .spawn] rfl
  refine ⟨_, ?x, hr, ?hp, ?hx, procKill_spec hr ?hp ?hx (-1)⟩
  case hx => refine (Option.some_get ?_).symm; rfl
  case hp => decide

end Weenix
