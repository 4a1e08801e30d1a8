import Weenix.Proc.Tree

/-!
# `do_fork` over every run

`kthread_clone` is the unimplemented stub of the source and returns `NULL`, so a `do_fork` that
gets past `proc_create` destroys the new process with `proc_destroy` and returns `-ENOMEM`. From
any state the system reaches:
1. a fork leaves `proc_list` as it was and gives no new address a thread: `do_fork` never
   creates a child, and the copy-on-write code after `kthread_clone` is never reached
   (`fork_creates_no_child`);
2. once `proc_create` has succeeded, the new process stays on the caller's `p_children`, off
   `proc_list`: `proc_destroy` does not unlink it from its parent (`fork_failure_keeps_child`).
-/

namespace Weenix

open Function

section Fork

variable {K : Consts} {s s' : ProcSys} {t : Nat}

/-- `proc_destroy` of a process with no thread, other than `idle`: it unlinks the process from
`proc_list`, keeps the links of every other process, and gives no address a thread. -/
theorem procDestroy_unthreaded {c : Nat} {x : Proc} (hx : s.table.procs c = some x)
    (hth : x.pThreads = []) (hc : c ≠ idleAddr) (h : procDestroy K s t c = some s') :
    s'.table.procList = s.table.procList.erase c ∧
      (∀ a, a ≠ c → (s'.table.procs a).map Proc.links = (s.table.procs a).map Proc.links) ∧
      ∀ th, s.sched.threads th = none → s'.sched.threads th = none := by
  simp only [procDestroy, Option.bind_eq_bind, Option.bind_eq_some] at h
  obtain ⟨x', hx', s₂, h₂, ⟨done, s₃⟩, h₃, h⟩ := h
  obtain rfl : x' = x := Option.some.inj (hx'.symm.trans hx)
  rw [hth] at h₂
  cases h₂
  have k := releaseLoop_keepsTree
    (show ∀ fd v, PcOk _ t (.release c fd v .destroy) from fun _ _ => hc) h₃
  have hl : s₃.table.procList = s.table.procList.erase c := k.list
  split at h <;> cases h
  · refine ⟨hl, fun a ha => ?_, k.within.none_kept⟩
    simpa [procFree, update_noteq ha] using k.links a
  · exact ⟨hl, fun a _ => k.links a, k.within.none_kept⟩

/-- A fork whose `proc_create` made the process at `c`: `c` ends on `p`'s children, off an
unchanged `proc_list`, and no address gets a thread. -/
theorem doFork_created (hp : PidInv K s.table) {p c : Nat} {tb : ProcTable}
    (hc : procCreate K s.table p = some (some c, tb)) (hci : c ≠ idleAddr)
    (hd : doFork K s t p = some s') :
    (∃ x x', s.table.procs p = some x ∧ s'.table.procs p = some x' ∧
      x'.pChildren = x.pChildren ++ [c]) ∧
    s'.table.procList = s.table.procList ∧ ∀ th, s.sched.threads th = none →
      s'.sched.threads th = none := by
  obtain ⟨x, pid, rfl, hfree, hx, -, hnew, hcur, -, hl, -⟩ := procCreate_some hp hc
  simp only [doFork, hc, Option.bind_eq_bind, Option.some_bind] at hd
  obtain ⟨hl', hlinks, hth⟩ := procDestroy_unthreaded hnew rfl hci hd
  have hpc : p ≠ s.table.slab.next := by rintro rfl; rw [hfree] at hx; cases hx
  have e := hlinks p hpc
  rw [hcur] at e
  obtain ⟨x', hx', he⟩ := Option.map_eq_some'.1 e
  refine ⟨⟨x, x', hx, hx', (Proc.links_eq.1 he).2.2.1⟩, ?_, hth⟩
  rw [hl', hl, List.erase_append_right _ hp.next_not_mem, List.erase_cons_head, List.append_nil]

/-- A fork from a state the system reaches is `do_fork` by the current thread, once `init`
exists. -/
theorem procStep_fork (hK : 2 ≤ K.procMaxCount) (hr : ProcReachable K s)
    (h : procStep K s .fork = some s') :
    ∃ t, doFork K s t s.curproc = some s' ∧ TreeInv s ∧ PidInv K s.table ∧
      s.table.initproc ≠ none := by
  obtain ⟨t, ht, hd⟩ := Option.bind_eq_some.1 h
  have hT := hr.treeInv hK
  obtain ⟨w, hw, -⟩ := hr.sysSchedInv.sched.state.cur_onCpu t ht
  exact ⟨t, hd, hT, (hr.sysPidInv hK).table, hT.initproc_ne_none (hT.proc_listed t w hw)⟩

end Fork

/-- A failed `do_fork` is not undone: from any state the system reaches, once `proc_create` has
made the process at `c`, the fork leaves `c` appended to the caller's `p_children`, where it was
not, and off `proc_list`. -/
theorem fork_failure_keeps_child {K : Consts} (hK : 2 ≤ K.procMaxCount) {s s' : ProcSys}
    (hr : ProcReachable K s) {c : Nat} {tb : ProcTable}
    (hc : procCreate K s.table s.curproc = some (some c, tb))
    (h : procStep K s .fork = some s') :
    ∃ x x', s.table.procs s.curproc = some x ∧ s'.table.procs s.curproc = some x' ∧
      x'.pChildren = x.pChildren ++ [c] ∧ c ∉ x.pChildren ∧ c ∉ s'.table.procList := by
  obtain ⟨t, hd, hT, hp, hi⟩ := procStep_fork hK hr h
  obtain ⟨⟨x, x', hx, hx', hch⟩, hl, -⟩ := doFork_created hp hc (hT.procCreate_ne hp hi hc).1 hd
  obtain ⟨-, -, rfl, -⟩ := procCreate_some hp hc
  exact ⟨x, x', hx, hx', hch, fun hm => lt_irrefl _ (hT.allocated _ x hx _ hm),
    hl ▸ hp.next_not_mem⟩

/-- `init` forks and its new process `4` stays on its `p_children`, in a state the theorem
covers. -/
theorem fork_failure_keeps_child_init :
    2 ≤ sampleConsts.procMaxCount ∧ ∃ s s' tb, ProcReachable sampleConsts s ∧
      procCreate sampleConsts s.table s.curproc = some (some 4, tb) ∧
      procStep sampleConsts s .fork = some s' ∧
      ∃ x x', s.table.procs s.curproc = some x ∧ s'.table.procs s.curproc = some x' ∧
        x'.pChildren = x.pChildren ++ [4] ∧ 4 ∉ x.pChildren ∧ 4 ∉ s'.table.procList :=
  have hr := (ProcReachable.boot 100 sampleVnodes sampleFs fun _ => false).run sampleConsts
    [.spawn, .dispatch] rfl
  ⟨by decide, _, _, _, hr, rfl, rfl, fork_failure_keeps_child (by decide) hr rfl rfl⟩

end Weenix
