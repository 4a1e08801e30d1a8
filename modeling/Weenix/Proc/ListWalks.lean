import Weenix.Proc.Tree

/-!
# The walks of `proc_list`: `proc_lookup` and `proc_kill_all`

`proc_lookup` returns `idleproc` for pid `0` and otherwise the first process on `proc_list` with
the pid. `proc_kill_all` walks `proc_list`, skips `curproc` and every process whose `p_pproc` has
pid `PID_IDLE`, calls `proc_kill(proc, -1)` on the others, and ends with `do_exit(-1)`. From every
state the system reaches both do what their comments say.

1. The pids on the list are distinct and positive, so `proc_lookup` finds exactly the process
   with a pid (`procLookup_eq_some`, `proc_lookup_spec`).
2. `procKillAllStep` is one iteration of `proc_kill_all`; the processes it kills are those on the
   list other than `curproc` and `init` (`ProcSys.Killed`). The tree makes the read of
   `p_pproc->p_pid` safe and the test for `PID_IDLE` true exactly for `init`
   (`TreeInv.parent_pid`); the thread lists make every `kthread_cancel` legal
   (`procKillAllStep_spec`), and two iterations never touch the same thread (`killAllLoop_spec`).
3. `procKillAll_spec`: the loop returns, cancels with `-1` every thread of every process it kills,
   changes no thread of `curproc` or `init`, nor the table or a thread's place, and
   `proc_kill_all` is `do_exit(-1)` from the state the loop leaves.
-/

namespace Weenix

open Function

/-! ## `proc_lookup` -/

/-- `proc_lookup(pid)`: `&idleproc` for pid `0`, else the first process on `proc_list` with the
pid, or `NULL`. -/
def procLookup (t : ProcTable) (pid : Nat) : Option Nat :=
  if pid = 0 then some idleAddr else t.procList.find? fun a => t.pidAt a == some pid

section Lookup

variable {K : Consts} {t : ProcTable}

/-- Under the pid invariant, a pid other than `0` names the process on the list that has it. -/
theorem procLookup_eq_some (hp : PidInv K t) {pid a : Nat} (hpid : pid ≠ 0) :
    procLookup t pid = some a ↔ a ∈ t.procList ∧ t.pidAt a = some pid := by
  rw [procLookup, if_neg hpid]
  constructor
  · intro h
    exact ⟨List.mem_of_find?_eq_some h, by simpa using List.find?_some h⟩
  · rintro ⟨ha, hpa⟩
    rcases e : t.procList.find? (fun b => t.pidAt b == some pid) with _ | b
    · exact absurd (by simpa using hpa) (List.find?_eq_none.1 e a ha)
    · have hpb : t.pidAt b = some pid := by simpa using List.find?_some e
      rw [List.inj_on_of_nodup_map hp.distinct (List.mem_of_find?_eq_some e) ha
        (hpb.trans hpa.symm)]

end Lookup

/-- In every state the system reaches, `proc_lookup(pid)` returns `idleproc` for pid `PID_IDLE`
and otherwise the process on `proc_list` with the pid, or `NULL` if there is none. -/
theorem proc_lookup_spec {K : Consts} (hK : 2 ≤ K.procMaxCount) {s : ProcSys}
    (hr : ProcReachable K s) (pid a : Nat) :
    procLookup s.table pid = some a ↔
      pid = pidIdle ∧ a = idleAddr ∨ a ∈ s.table.procList ∧ s.table.pidAt a = some pid := by
  have hp := (hr.sysPidInv hK).table
  by_cases hpid : pid = 0
  · subst hpid
    have hn : ¬(a ∈ s.table.procList ∧ s.table.pidAt a = some 0) := fun ⟨ha, hpa⟩ => by
      obtain ⟨q, hq, hq1, -⟩ := hp.live a ha
      rw [hpa, Option.some.injEq] at hq
      omega
    rw [procLookup, if_pos rfl, Option.some.injEq]
    simp only [hn, or_false, pidIdle, true_and]
    exact eq_comm
  · rw [procLookup_eq_some hp hpid]
    simp [hpid, pidIdle]

/-- After `init` spawns a child with pid `2` at `4`, `proc_lookup(2)` finds it, in a state the
theorem covers. -/
theorem proc_lookup_spec_child :
    ∃ s, ProcReachable sampleConsts s ∧ procLookup s.table 2 = some 4 ∧
      (procLookup s.table 2 = some 4 ↔
        2 = pidIdle ∧ 4 = idleAddr ∨ 4 ∈ s.table.procList ∧ s.table.pidAt 4 = some 2) :=
  have hr := (ProcReachable.boot 100 sampleVnodes sampleFs fun _ => false).run sampleConsts
    [.spawn, .dispatch, .spawn] rfl
  ⟨_, hr, rfl, proc_lookup_spec (by decide) hr 2 4⟩

/-! ## `proc_kill_all` -/

/-- One iteration of the loop of `proc_kill_all`, on the process at `a`: skip `curproc`; skip a
process whose `p_pproc` has pid `PID_IDLE`, read through the pointer; else `proc_kill(proc, -1)`. -/
def procKillAllStep (s : ProcSys) (a : Nat) : Option ProcSys := do
  if a = s.curproc then return s
  let x ← s.table.procs a
  match x.pPproc with
  | some pp => do
    let y ← s.table.procs pp
    if y.pPid = pidIdle then some s else procKill s a (-1)
  | none => procKill s a (-1)

/-- `proc_kill_all` by the current thread: the loop over `proc_list`, then `do_exit(-1)`. -/
def procKillAll (K : Consts) (s : ProcSys) : Option ProcSys := do
  let s ← s.table.procList.foldlM procKillAllStep s
  s.sched.curthr.bind fun t => doExit K s t s.curproc (-1)

/-- The processes `proc_kill_all` is meant to kill, read in the state it starts from: those on
`proc_list` other than `curproc` and `init`. -/
def ProcSys.Killed (s : ProcSys) (a : Nat) : Prop :=
  a ∈ s.table.procList ∧ a ≠ s.curproc ∧ s.table.initproc ≠ some a

instance (s : ProcSys) (a : Nat) : Decidable (s.Killed a) :=
  inferInstanceAs (Decidable (_ ∧ _ ∧ _))

/-- A state of the loop begun at `s`: the table, the threads' places, `curthr` and `curproc` as
in `s`, the scheduler invariant, and every sleeping thread queued. -/
structure KillAllFrame (s u : ProcSys) : Prop where
  table : u.table = s.table
  pc : u.pc = s.pc
  curthr : u.sched.curthr = s.sched.curthr
  curproc : u.curproc = s.curproc
  sched : SchedInv u.sched
  queued : u.sched.SleepQueued

section Loop

variable {K : Consts} {s : ProcSys}

theorem ThreadInv.eq_of_mem (h : ThreadInv s) {a b th : Nat} {x y : Proc}
    (hx : s.table.procs a = some x) (hy : s.table.procs b = some y) (ha : th ∈ x.pThreads)
    (hb : th ∈ y.pThreads) : a = b := by
  obtain ⟨w, hw, hwa⟩ := h.owned a x hx th ha
  obtain ⟨w', hw', hwb⟩ := h.owned b y hy th hb
  rw [hw, Option.some.injEq] at hw'
  subst hw'
  exact hwa.symm.trans hwb

/-- The parent of a process on the list has pid `PID_IDLE` exactly when the process is `init`. -/
theorem TreeInv.parent_pid (h : TreeInv s) (hp : PidInv K s.table) {a : Nat} {x : Proc}
    (ha : a ∈ s.table.procList) (hx : s.table.procs a = some x) :
    ∃ pp y, x.pPproc = some pp ∧ s.table.procs pp = some y ∧
      (y.pPid = pidIdle ↔ s.table.initproc = some a) := by
  obtain ⟨pp, y, hpp, hy, hm, hpl⟩ := h.parent a ha x hx
  obtain ⟨ι, hι, hι0, -, hιc⟩ := h.idle
  refine ⟨pp, y, hpp, hy, fun hid => ?_, fun hi => ?_⟩
  · rcases hpl with rfl | hpl
    · rw [hι, Option.some.injEq] at hy
      subst hy
      rw [hιc] at hm
      exact Option.mem_toList.1 hm
    · obtain ⟨q, hq, hq1, -⟩ := hp.live pp hpl
      rw [ProcTable.pidAt_of_procs hy, hid, Option.some.injEq] at hq
      exact absurd hq1 (by rw [← hq]; decide)
  · obtain ⟨-, z, hz, -, hz2⟩ := h.init a hi
    rw [hx, Option.some.injEq] at hz
    subst hz
    rw [hz2, Option.some.injEq] at hpp
    subst hpp
    rw [hι, Option.some.injEq] at hy
    exact hy ▸ hι0

/-- One iteration: it cancels with `-1` every thread of `a` if `a` is to be killed, and no other
thread. -/
theorem procKillAllStep_spec (ht : ThreadInv s) (hT : TreeInv s) (hp : PidInv K s.table)
    {u : ProcSys} (hu : KillAllFrame s u) {a : Nat} (ha : a ∈ s.table.procList)
    (hun : ∀ x, s.table.procs a = some x → ∀ th ∈ x.pThreads,
      u.sched.threads th = s.sched.threads th) :
    ∃ u', procKillAllStep u a = some u' ∧ KillAllFrame s u' ∧
      (∀ th, (s.Killed a → ∀ x, s.table.procs a = some x → th ∉ x.pThreads) →
        u'.sched.threads th = u.sched.threads th) ∧
      (s.Killed a → ∀ x, s.table.procs a = some x → ∀ th ∈ x.pThreads, ∃ y,
        u'.sched.threads th = some y ∧ y.ktCancelled = true ∧ y.ktRetval = -1 ∧
          y.ktState ≠ .sleepCancellable) := by
  by_cases hc : a = s.curproc
  · exact ⟨u, by simp [procKillAllStep, hu.curproc, hc], hu, fun _ _ => rfl,
      fun hk => absurd hc hk.2.1⟩
  obtain ⟨q, hq, -⟩ := hp.live a ha
  obtain ⟨x, hx, -⟩ := Option.map_eq_some'.1 hq
  obtain ⟨pp, y, hpp, hy, hiff⟩ := hT.parent_pid hp ha hx
  have hux : u.table.procs a = some x := by rw [hu.table]; exact hx
  have huy : u.table.procs pp = some y := by rw [hu.table]; exact hy
  by_cases hi : s.table.initproc = some a
  · exact ⟨u, by simp [procKillAllStep, hu.curproc, hc, hux, hpp, huy, hiff.2 hi], hu,
      fun _ _ => rfl, fun hk => absurd hi hk.2.2⟩
  -- `a` is killed: `proc_kill` cancels its threads, none of which is `curthr`
  have hl : ∀ th ∈ x.pThreads, u.sched.curthr ≠ some th ∧ ∃ w, u.sched.threads th = some w :=
    fun th hm => by
      obtain ⟨w, hw, hwp⟩ := ht.owned a x hx th hm
      refine ⟨fun e => hc ?_, w, (hun x hx th hm).trans hw⟩
      rw [hu.curthr] at e
      simp only [ProcSys.curproc, e, Option.some_bind, hw]
      exact hwp.symm
  obtain ⟨sc, hsc, hi', hq', hc', -, hth, hfr⟩ :=
    cancelLoop_spec (-1) x.pThreads hu.sched hu.queued hl
  have hcp : ({ u with sched := sc } : ProcSys).curproc = u.curproc := by
    unfold ProcSys.curproc
    rcases e : u.sched.curthr with _ | t
    · simp [hc', e]
    · simp [hc', e, hfr t fun hm => (hl t hm).1 e]
  refine ⟨{ u with sched := sc }, ?_, ⟨hu.table, hu.pc, hc'.trans hu.curthr, hcp.trans hu.curproc,
    hi', hq'⟩, fun th hth' => hfr th (hth' ⟨ha, hc, hi⟩ x hx), fun _ x' hx' => ?_⟩
  · simp [procKillAllStep, procKill, hu.curproc, hc, hux, hpp, huy, mt hiff.1 hi, hsc]
  · rw [hx, Option.some.injEq] at hx'
    subst hx'
    intro th hm
    obtain ⟨_, y, -, hy, hyc⟩ := hth th hm
    exact ⟨y, hy, hyc.cancelled, hyc.retval, hyc.not_sleep⟩

/-- The loop over processes of the list, none twice, from a state of the loop in which their
threads are as in `s`. -/
theorem killAllLoop_spec (ht : ThreadInv s) (hT : TreeInv s) (hp : PidInv K s.table) :
    ∀ (l : List Nat) {u : ProcSys}, (∀ a ∈ l, a ∈ s.table.procList) → l.Nodup →
      KillAllFrame s u → (∀ a ∈ l, ∀ x, s.table.procs a = some x → ∀ th ∈ x.pThreads,
        u.sched.threads th = s.sched.threads th) →
      ∃ u', l.foldlM procKillAllStep u = some u' ∧ KillAllFrame s u' ∧
        (∀ th, (∀ a ∈ l, s.Killed a → ∀ x, s.table.procs a = some x → th ∉ x.pThreads) →
          u'.sched.threads th = u.sched.threads th) ∧
        (∀ a ∈ l, s.Killed a → ∀ x, s.table.procs a = some x → ∀ th ∈ x.pThreads, ∃ y,
          u'.sched.threads th = some y ∧ y.ktCancelled = true ∧ y.ktRetval = -1 ∧
            y.ktState ≠ .sleepCancellable)
  | [], u, _, _, hu, _ => ⟨u, rfl, hu, fun _ _ => rfl, nofun⟩
  | a :: l, u, hl, hn, hu, hun => by
    rw [List.nodup_cons] at hn
    obtain ⟨u₁, h₁, hu₁, hfr₁, hk₁⟩ := procKillAllStep_spec ht hT hp hu
      (hl a (List.mem_cons_self _ _)) (hun a (List.mem_cons_self _ _))
    -- the first iteration touches only threads of `a`, which no later process lists
    have hdis : ∀ b ∈ l, ∀ x y th, s.table.procs a = some y → th ∈ y.pThreads →
        s.table.procs b = some x → th ∉ x.pThreads := fun b hb x y th hy hmy hx hm =>
      hn.1 (ht.eq_of_mem hy hx hmy hm ▸ hb)
    have hun₁ : ∀ b ∈ l, ∀ x, s.table.procs b = some x → ∀ th ∈ x.pThreads,
        u₁.sched.threads th = s.sched.threads th := fun b hb x hx th hm => by
      rw [hfr₁ th fun _ y hy hmy => hdis b hb x y th hy hmy hx hm]
      exact hun b (List.mem_cons_of_mem _ hb) x hx th hm
    obtain ⟨u', h', hu', hfr', hk'⟩ := killAllLoop_spec ht hT hp l
      (fun b hb => hl b (List.mem_cons_of_mem _ hb)) hn.2 hu₁ hun₁
    refine ⟨u', by simp only [List.foldlM_cons, h₁, Option.bind_eq_bind, Option.some_bind, h'], hu',
      fun th hth => ?_, fun b hb hkb x hx th hm => ?_⟩
    · rw [hfr' th fun b hb => hth b (List.mem_cons_of_mem _ hb),
        hfr₁ th (hth a (List.mem_cons_self _ _))]
    · rcases List.mem_cons.1 hb with rfl | hb
      · obtain ⟨y, hy, hy'⟩ := hk₁ hkb x hx th hm
        exact ⟨y, (hfr' th fun c hc _ z hz => hdis c hc z x th hx hm hz).trans hy, hy'⟩
      · exact hk' b hb hkb x hx th hm

end Loop

/-- `proc_kill_all` by the current thread `t`, from any state the system reaches: the loop over
`proc_list` returns; it cancels with `-1`, and takes out of any cancellable sleep, every thread of
every process on the list other than `curproc` and `init`; it changes no thread of `curproc` or
`init`, nor the table, a thread's place or `curthr`, and keeps the scheduler invariant; and
`proc_kill_all` is `do_exit(-1)` by `t` from the state the loop leaves. -/
theorem procKillAll_spec {K : Consts} (hK : 2 ≤ K.procMaxCount) {s : ProcSys}
    (hr : ProcReachable K s) {t : Nat} (ht : s.sched.curthr = some t) :
    ∃ s₁, s.table.procList.foldlM procKillAllStep s = some s₁ ∧ s₁.table = s.table ∧
      s₁.pc = s.pc ∧ s₁.sched.curthr = some t ∧ SchedInv s₁.sched ∧
      (∀ a ∈ s.table.procList, a ≠ s.curproc → s.table.initproc ≠ some a →
        ∀ x, s.table.procs a = some x → ∀ th ∈ x.pThreads, ∃ y, s₁.sched.threads th = some y ∧
          y.ktCancelled = true ∧ y.ktRetval = -1 ∧ y.ktState ≠ .sleepCancellable) ∧
      (∀ th, (∀ x, s.sched.threads th = some x →
          x.ktProc = s.curproc ∨ s.table.initproc = some x.ktProc) →
        s₁.sched.threads th = s.sched.threads th) ∧
      procKillAll K s = doExit K s₁ t s.curproc (-1) := by
  have hs := hr.sysSchedInv
  have hti := hr.threadInv
  have hp := (hr.sysPidInv hK).table
  obtain ⟨s₁, h₁, hu, hfr, hk⟩ := killAllLoop_spec hti (hr.treeInv hK) hp s.table.procList
    (fun _ h => h) hp.procList_nodup ⟨rfl, rfl, rfl, rfl, hs.sched, hs.queued⟩
    (fun _ _ _ _ _ _ => rfl)
  refine ⟨s₁, h₁, hu.table, hu.pc, hu.curthr.trans ht, hu.sched,
    fun a ha hc hi => hk a ha ⟨ha, hc, hi⟩, fun th hth => hfr th fun a _ hka x hx hm => ?_, ?_⟩
  · obtain ⟨w, hw, hwp⟩ := hti.owned a x hx th hm
    rcases hth w hw with e | e
    · exact hka.2.1 (hwp ▸ e)
    · exact hka.2.2 (hwp ▸ e)
  · simp only [procKillAll, h₁, Option.bind_eq_bind, Option.some_bind, hu.curthr, ht, hu.curproc]

/-- `init`, at `1` with thread `3`, having spawned a child at `4`, calls `proc_kill_all`, in a
state the theorem covers. -/
theorem procKillAll_spec_init :
    ∃ s, ProcReachable sampleConsts s ∧ s.sched.curthr = some 3 ∧
      ∃ s₁, s.table.procList.foldlM procKillAllStep s = some s₁ ∧ s₁.table = s.table ∧
        s₁.pc = s.pc ∧ s₁.sched.curthr = some 3 ∧ SchedInv s₁.sched ∧
        (∀ a ∈ s.table.procList, a ≠ s.curproc → s.table.initproc ≠ some a →
          ∀ x, s.table.procs a = some x → ∀ th ∈ x.pThreads, ∃ y, s₁.sched.threads th = some y ∧
            y.ktCancelled = true ∧ y.ktRetval = -1 ∧ y.ktState ≠ .sleepCancellable) ∧
        (∀ th, (∀ x, s.sched.threads th = some x →
            x.ktProc = s.curproc ∨ s.table.initproc = some x.ktProc) →
          s₁.sched.threads th = s.sched.threads th) ∧
        procKillAll sampleConsts s = doExit sampleConsts s₁ 3 s.curproc (-1) :=
  have hr := (ProcReachable.boot 100 sampleVnodes sampleFs fun _ => false).run sampleConsts
    [.spawn, .dispatch, .spawn] rfl
  ⟨_, hr, rfl, procKillAll_spec (by decide) hr rfl⟩

end Weenix
