import Mathlib.Data.List.Nodup
import Weenix.Proc.FileSteps

/-!
# Process ids over every run

The pids of the processes on `proc_list` stay distinct and in `[1, PROC_MAX_COUNT)` over every
run of the system from boot. `_proc_getid` (specified in `Weenix.Proc.Proc`) only hands out a
pid that no process on the list uses; `proc_destroy` unlinks a process before it frees it, and a
thread that sleeps inside `proc_destroy` frees only a process that is no longer on the list.

The table invariant is `PidInv`; the system invariant `SysPidInv` adds that every process a
sleeping `proc_destroy` will free is already off `proc_list`. The calls that change neither
`proc_list` nor any pid are frames (`ProcSys.Frame`); `proc_create`, `proc_destroy` and the
free at the end of a resumed `proc_destroy` have their own lemmas.
-/

namespace Weenix

open Function

/-! ## `mapM` in `Option` -/

theorem mapM_option_eq_some {α β : Type} {f : α → Option β} :
    ∀ {l : List α} {bs : List β}, l.mapM f = some bs ↔ l.map f = bs.map some
  | [], bs => by
    rw [List.mapM_nil]
    cases bs <;> simp [Option.pure_def]
  | a :: l, bs => by
    rw [List.mapM_cons]
    cases bs with
    | nil => simp [Option.bind_eq_some, Option.pure_def]
    | cons b bs =>
      simp only [Option.bind_eq_bind, Option.bind_eq_some, List.map_cons,
        List.cons.injEq, Option.pure_def, Option.some.injEq, ← mapM_option_eq_some]
      constructor
      · rintro ⟨b', hb, bs', hbs, rfl, rfl⟩
        exact ⟨hb, hbs⟩
      · rintro ⟨hb, hbs⟩
        exact ⟨b, hb, bs, hbs, rfl, rfl⟩

/-! ## The table invariant -/

variable (K : Consts)

/-- The pid invariant of the process table: `next_pid` in range, each process on `proc_list`
live with a pid in `[1, PROC_MAX_COUNT)`, no pid twice on the list, and each process below the
allocator's next address. -/
structure PidInv (t : ProcTable) : Prop where
  next_pos : 1 ≤ t.nextPid
  next_lt : t.nextPid < K.procMaxCount
  live : ∀ a ∈ t.procList, ∃ p, t.pidAt a = some p ∧ 1 ≤ p ∧ p < K.procMaxCount
  distinct : (t.procList.map t.pidAt).Nodup
  allocated : ∀ a, (t.pidAt a).isSome → a < t.slab.next

variable {K}

namespace PidInv

variable {t : ProcTable}

theorem procList_nodup (h : PidInv K t) : t.procList.Nodup := h.distinct.of_map _

theorem next_not_mem (h : PidInv K t) : t.slab.next ∉ t.procList := fun hm => by
  obtain ⟨q, hq, -⟩ := h.live _ hm
  exact lt_irrefl _ (h.allocated _ (by simp [hq]))

theorem pids_eq (h : PidInv K t) :
    t.pids = some (t.procList.map fun a => (t.pidAt a).getD 0) := by
  refine mapM_option_eq_some.2 ?_
  rw [List.map_map]
  refine List.map_congr_left fun a ha => ?_
  obtain ⟨p, hp, -⟩ := h.live a ha
  simp [hp]

/-- The pids on `proc_list`, as `_proc_getid` reads them, are distinct, non-zero and below
`PROC_MAX_COUNT`. -/
theorem pids (h : PidInv K t) :
    ∃ ps, t.pids = some ps ∧ ps.Nodup ∧ ∀ p ∈ ps, 1 ≤ p ∧ p < K.procMaxCount := by
  refine ⟨_, h.pids_eq, ?_, ?_⟩
  · refine List.Nodup.of_map some ?_
    rw [← mapM_option_eq_some.1 h.pids_eq]
    exact h.distinct
  · simp only [List.mem_map]
    rintro _ ⟨a, ha, rfl⟩
    obtain ⟨p, hp, hp1, hp2⟩ := h.live a ha
    simpa [hp] using ⟨hp1, hp2⟩

theorem unlist (h : PidInv K t) (c : Nat) : PidInv K (procUnlist t c) where
  next_pos := h.next_pos
  next_lt := h.next_lt
  live a ha := h.live a (List.mem_of_mem_erase ha)
  distinct := h.distinct.sublist ((List.erase_sublist _ _).map _)
  allocated := h.allocated

theorem free (h : PidInv K t) {c : Nat} (hc : c ∉ t.procList) : PidInv K (procFree t c) :=
  have hq : ∀ a ∈ t.procList, (procFree t c).pidAt a = t.pidAt a := fun a ha => by
    rw [procFree_pidAt, update_noteq (ne_of_mem_of_not_mem ha hc)]
  { next_pos := h.next_pos
    next_lt := h.next_lt
    live := fun a ha => hq a ha ▸ h.live a ha
    distinct := by
      rw [show (procFree t c).procList = t.procList from rfl, List.map_congr_left hq]
      exact h.distinct
    allocated := fun a ha => by
      by_cases hac : a = c
      · subst hac; simp at ha
      · rw [procFree_pidAt, update_noteq hac] at ha
        exact h.allocated a ha }

end PidInv

/-! ## Table frames -/

/-- `t'` has the `proc_list`, the `next_pid` and the pid at every address of `t`, and its
allocator has not gone back. -/
structure ProcTable.Keeps (t t' : ProcTable) : Prop where
  procList : t'.procList = t.procList
  nextPid : t'.nextPid = t.nextPid
  pidAt : t'.pidAt = t.pidAt
  slab : t.slab.next ≤ t'.slab.next

namespace ProcTable.Keeps

variable {t t' t'' : ProcTable}

theorem refl (t : ProcTable) : t.Keeps t := ⟨rfl, rfl, rfl, le_rfl⟩

theorem trans (h₁ : t.Keeps t') (h₂ : t'.Keeps t'') : t.Keeps t'' :=
  ⟨h₂.procList.trans h₁.procList, h₂.nextPid.trans h₁.nextPid, h₂.pidAt.trans h₁.pidAt,
    h₁.slab.trans h₂.slab⟩

theorem of_refs (hp : t'.procs = t.procs) (hl : t'.procList = t.procList)
    (hn : t'.nextPid = t.nextPid) (hs : t'.slab = t.slab) : t.Keeps t' :=
  ⟨hl, hn, by unfold ProcTable.pidAt; rw [hp], by rw [hs]⟩

theorem setProc {a : Nat} {y : Proc} (h : t.pidAt a = some y.pPid) : t.Keeps (t.setProc a y) :=
  ⟨rfl, rfl, by rw [ProcTable.pidAt_setProc, update_eq_self_iff, h], le_rfl⟩

end ProcTable.Keeps

theorem PidInv.keeps {t t' : ProcTable} (h : PidInv K t) (hk : t.Keeps t') : PidInv K t' where
  next_pos := hk.nextPid ▸ h.next_pos
  next_lt := hk.nextPid ▸ h.next_lt
  live := by rw [hk.procList, hk.pidAt]; exact h.live
  distinct := by rw [hk.procList, hk.pidAt]; exact h.distinct
  allocated a ha := (h.allocated a (hk.pidAt ▸ ha)).trans_le hk.slab

theorem filePut_keeps {t t' : ProcTable} {f : Nat} {vn : Option Nat}
    (h : filePut t f = some (vn, t')) : t.Keeps t' := by
  simp only [filePut, Option.bind_eq_bind, Option.bind_eq_some] at h
  obtain ⟨x, -, h⟩ := h
  split at h
  · cases h
  · split at h <;> (cases h; exact .of_refs rfl rfl rfl rfl)

theorem vnodePutLocked_keeps {t t' : ProcTable} {v : Nat} (h : vnodePutLocked t v = some t') :
    t.Keeps t' := by
  unfold vnodePutLocked at h
  split at h
  · cases h
  · cases h; exact .of_refs rfl rfl rfl rfl

/-! ## `proc_create` -/

/-- `proc_create` keeps the invariant: a pid other than `-1` is in range and unused. -/
theorem PidInv.procCreate {t t' : ProcTable} {cur : Nat} {r : Option Nat} (h : PidInv K t)
    (hc : procCreate K t cur = some (r, t')) :
    PidInv K t' ∧ t.slab.next ≤ t'.slab.next ∧
      (t'.procList = t.procList ∨ t'.procList = t.procList ++ [t.slab.next]) := by
  obtain ⟨ps, pid, n', hps, hg, hc⟩ := procCreate_eq_some K hc
  rcases hc with ⟨-, -, rfl⟩ | ⟨hp, hn', hslab, hc⟩
  · exact ⟨h, le_rfl, .inl rfl⟩
  rw [h.pids_eq, Option.some.injEq] at hps
  subst hps
  obtain ⟨-, hfree, hp1, hp2, hn1, hn2⟩ := procGetid_fresh h.next_pos h.next_lt hg hp
  rcases hc with ⟨-, hl, hpr, -⟩ | ⟨x, y, -, -, hy, hl, hpr, -⟩
  · have hpid : t'.pidAt = t.pidAt := by unfold ProcTable.pidAt; rw [hpr]
    refine ⟨⟨hn' ▸ hn1, hn' ▸ hn2, ?_, ?_, ?_⟩, hslab.le, .inl hl⟩
    · rw [hl, hpid]; exact h.live
    · rw [hl, hpid]; exact h.distinct
    · exact fun a ha => (h.allocated a (hpid ▸ ha)).trans hslab
  · -- the new process is at `a`, the allocator's old next address
    set a := t.slab.next
    have hpid : t'.pidAt = update t.pidAt a (some pid.toNat) := pidAt_link hy hpr
    have hna : a ∉ t.procList := fun ha => by
      obtain ⟨p, hp, -⟩ := h.live a ha
      exact lt_irrefl _ (h.allocated a (by simp [hp]))
    have hold : ∀ b ∈ t.procList, t'.pidAt b = t.pidAt b := fun b hb => by
      rw [hpid, update_noteq (ne_of_mem_of_not_mem hb hna)]
    refine ⟨⟨hn' ▸ hn1, hn' ▸ hn2, ?_, ?_, ?_⟩, hslab.le, .inr hl⟩
    · rw [hl]
      intro b hb
      rcases List.mem_append.1 hb with hb | hb
      · rw [hold b hb]; exact h.live b hb
      · rw [List.mem_singleton.1 hb, hpid, update_same]
        exact ⟨_, rfl, hp1, hp2⟩
    · rw [hl, List.map_append, List.map_congr_left hold, List.nodup_append]
      refine ⟨h.distinct, List.nodup_singleton _, ?_⟩
      simp only [List.map_cons, List.map_nil, hpid, update_same, List.disjoint_singleton]
      intro hm
      obtain ⟨b, hb, hbp⟩ := List.mem_map.1 hm
      exact hfree (List.mem_map.2 ⟨b, hb, by simp [hbp]⟩)
    · intro b hb
      rw [hpid] at hb
      by_cases hba : b = a
      · omega
      · rw [update_noteq hba] at hb
        exact (h.allocated b hb).trans hslab

/-! ## System frames -/

/-- A thread asleep inside `proc_destroy` of the process at `p`, which frees it once it
resumes. -/
def ProcSys.Destroying (s : ProcSys) (p : Nat) : Prop :=
  ∃ th fd v, s.pc th = .release p fd v .destroy

/-- `s'` keeps the table frame of `s`, and a thread of `s'` asleep in `proc_destroy` was so in
`s`, or destroys a process that `N` allows. -/
structure ProcSys.Frame (N : Nat → Prop) (s s' : ProcSys) : Prop where
  table : s.table.Keeps s'.table
  destroying : ∀ p, s'.Destroying p → s.Destroying p ∨ N p

namespace ProcSys.Frame

variable {N : Nat → Prop} {s s' s'' : ProcSys}

theorem refl (s : ProcSys) : Frame N s s := ⟨.refl _, fun _ h => .inl h⟩

theorem trans (h₁ : Frame N s s') (h₂ : Frame N s' s'') : Frame N s s'' :=
  ⟨h₁.table.trans h₂.table, fun p hp => (h₂.destroying p hp).elim (h₁.destroying p) .inr⟩

theorem of_eq (ht : s'.table = s.table) (hpc : s'.pc = s.pc) : Frame N s s' :=
  ⟨ht ▸ .refl _, fun _ ⟨th, fd, v, h⟩ => .inl ⟨th, fd, v, hpc ▸ h⟩⟩

theorem of_table {t : ProcTable} (hk : s.table.Keeps t) : Frame N s { s with table := t } :=
  ⟨hk, fun _ h => .inl h⟩

theorem setProc {a : Nat} {y : Proc} (h : s.table.pidAt a = some y.pPid) :
    Frame N s (s.setProc a y) :=
  ⟨.setProc h, fun _ h => .inl h⟩

theorem setPc {t : Nat} {c : Pc} (hc : ∀ p fd v, c = .release p fd v .destroy → N p) :
    Frame N s (s.setPc t c) := by
  refine ⟨.refl _, fun p ⟨th, fd, v, h⟩ => ?_⟩
  by_cases hth : th = t
  · subst hth
    rw [setPc_pc, update_same] at h
    exact .inr (hc p fd v h)
  · rw [setPc_pc, update_noteq hth] at h
    exact .inl ⟨th, fd, v, h⟩

theorem setPc_run {t : Nat} : Frame N s (s.setPc t .run) := setPc fun _ _ _ h => nomatch h

end ProcSys.Frame

open ProcSys (Frame)

section Frames

variable {N : Nat → Prop} {s s' : ProcSys}

theorem vlock_frame {t v : Nat} {b : Bool} (h : vlock s t v = some (b, s')) : Frame N s s' := by
  unfold vlock at h
  split at h
  · cases h; exact .of_eq rfl rfl
  · split at h
    · cases h
    · simp only [Option.bind_eq_bind, Option.bind_eq_some, Option.some.injEq] at h
      obtain ⟨_, -, h⟩ := h
      cases h; exact .of_eq rfl rfl

theorem vunlock_frame {t v : Nat} (h : vunlock s t v = some s') : Frame N s s' := by
  simp only [vunlock, Option.bind_eq_bind] at h
  split at h
  · simp at h
  · simp only [Option.pure_def, Option.some_bind, Option.bind_eq_some, Option.some.injEq] at h
    obtain ⟨_, -, rfl⟩ := h
    exact .of_eq rfl rfl

theorem releaseSlot_frame {p fd : Nat} {vn : Option Nat}
    (h : releaseSlot K s p fd = some (vn, s')) : Frame N s s' := by
  simp only [releaseSlot, Option.bind_eq_bind, Option.bind_eq_some] at h
  obtain ⟨x, hx, h⟩ := h
  have hpid := ProcTable.pidAt_of_procs hx
  split at h
  · split at h
    · cases h; exact .refl _
    · simp only [Option.bind_eq_some, Option.some.injEq, Prod.mk.injEq] at h
      obtain ⟨⟨vn', tb⟩, hf, -, rfl⟩ := h
      have hk := filePut_keeps hf
      exact (Frame.of_table hk).trans (.setProc (by rw [hk.pidAt]; exact hpid))
  · split at h <;> cases h
    · exact .refl _
    · exact .setProc hpid

/-- The release loop touches only reference counts, descriptor slots and the cwd; a thread it
leaves asleep in `proc_destroy` destroys the process at `p`. -/
theorem releaseLoop_frame {after : AfterRelease} {t p : Nat} :
    ∀ {n fd : Nat} {s s' : ProcSys} {b : Bool}, releaseLoop K after t p n fd s = some (b, s') →
      Frame (fun q => after = .destroy ∧ q = p) s s'
  | 0, _, _, _, _, h => by cases h; exact .refl _
  | n + 1, fd, s, s', b, h => by
    simp only [releaseLoop, Option.bind_eq_bind, Option.bind_eq_some] at h
    obtain ⟨⟨vn, s₁⟩, h₁, h⟩ := h
    have f₁ : Frame (fun q => after = .destroy ∧ q = p) s s₁ := releaseSlot_frame h₁
    split at h
    · exact f₁.trans (releaseLoop_frame h)
    · simp only [Option.bind_eq_some] at h
      obtain ⟨⟨got, s₂⟩, h₂, h⟩ := h
      have f₂ := f₁.trans (vlock_frame h₂)
      split at h
      · simp only [Option.bind_eq_some] at h
        obtain ⟨tb, htb, s₃, h₃, h⟩ := h
        exact f₂.trans (((Frame.of_table (vnodePutLocked_keeps htb)).trans
          (vunlock_frame h₃)).trans (releaseLoop_frame h))
      · cases h
        exact f₂.trans (.setPc fun q fd' v' hc => by cases hc; exact ⟨rfl, rfl⟩)

theorem kthreadDestroy_frame {th : Nat} (h : kthreadDestroy s th = some s') : Frame N s s' := by
  unfold kthreadDestroy at h
  split at h
  · simp at h
  simp only [Option.pure_def, Option.some_bind, Option.bind_eq_bind, Option.bind_eq_some] at h
  obtain ⟨x, -, h⟩ := h
  split at h
  · simp at h
  simp only [Option.pure_def, Option.some_bind, Option.some.injEq] at h
  subst h
  split
  · exact (Frame.setProc (by simp [ProcTable.pidAt, *])).trans (.of_eq rfl rfl)
  · exact .of_eq rfl rfl

theorem kthreadDestroyAll_frame : ∀ {ths : List Nat} {s s' : ProcSys},
    kthreadDestroyAll ths s = some s' → Frame N s s'
  | [], _, _, h => by cases h; exact .refl _
  | th :: ths, s, s', h => by
    simp only [kthreadDestroyAll, Option.bind_eq_bind, Option.bind_eq_some] at h
    obtain ⟨s₁, h₁, h⟩ := h
    exact (kthreadDestroy_frame h₁).trans (kthreadDestroyAll_frame h)

theorem foldlM_frame {α : Type} {f : ProcSys → α → Option ProcSys}
    (hf : ∀ s a s', f s a = some s' → Frame N s s') :
    ∀ {l : List α} {s s' : ProcSys}, l.foldlM f s = some s' → Frame N s s'
  | [], _, _, h => by cases h; exact .refl _
  | a :: l, s, s', h => by
    simp only [List.foldlM_cons, Option.bind_eq_bind, Option.bind_eq_some] at h
    obtain ⟨s₁, h₁, h⟩ := h
    exact (hf _ _ _ h₁).trans (foldlM_frame hf h)

/-- A move of the file calls changes no pid, no list and no place in `proc_destroy`. -/
theorem fileMove_frame (h : ProcSys.FileMove s s') : Frame N s s' := by
  cases h with
  | file h =>
    exact ⟨⟨h.procList, h.nextPid, funext (h.map_procs fun _ => rfl), h.slab⟩,
      fun _ ⟨th, fd, v, hp⟩ => .inl ⟨th, fd, v, h.pc ▸ hp⟩⟩
  | vlock h => exact vlock_frame h
  | vunlock h => exact vunlock_frame h
  | setPc hc => exact .setPc fun _ _ _ e => by subst e; exact hc.elim
  | sleep _ => exact .of_eq rfl rfl

theorem fileMoves_frame (h : Relation.ReflTransGen ProcSys.FileMove s s') : Frame N s s' := by
  induction h with
  | refl => exact .refl _
  | tail _ hm ih => exact ih.trans (fileMove_frame hm)

/-- The end of `proc_cleanup` changes parent and child links, never a pid. -/
theorem cleanupFinish_frame {p : Nat} (h : cleanupFinish s p = some s') : Frame N s s' := by
  simp only [cleanupFinish, Option.bind_eq_bind, Option.bind_eq_some] at h
  obtain ⟨x, hx, h⟩ := h
  split at h
  · simp only [Option.pure_def, Option.some.injEq] at h
    subst h; exact .of_eq rfl rfl
  simp only [Option.pure_def, Option.some_bind, Option.bind_eq_some] at h
  obtain ⟨s₁, h₁, h⟩ := h
  have hs' : s'.table = s₁.table ∧ s'.pc = s₁.pc := by
    split at h <;> simp only [Option.some_bind, Option.bind_eq_some, Option.some.injEq] at h
    · obtain ⟨_, -, _, -, rfl⟩ := h; exact ⟨rfl, rfl⟩
    · obtain ⟨_, -, rfl⟩ := h; exact ⟨rfl, rfl⟩
  refine ((Frame.setProc ?_).trans (foldlM_frame ?_ h₁)).trans (.of_eq hs'.1 hs'.2)
  · exact (ProcTable.pidAt_of_procs hx :)
  intro s c s' h
  simp only [Option.bind_eq_bind, Option.bind_eq_some] at h
  obtain ⟨y, hy, h⟩ := h
  have f : Frame N s (s.setProc c { y with pPproc := s.table.initproc }) :=
    .setProc (ProcTable.pidAt_of_procs hy :)
  split at h
  · simp only [Option.bind_eq_some, Option.some.injEq] at h
    obtain ⟨z, hz, rfl⟩ := h
    exact f.trans (.setProc (ProcTable.pidAt_of_procs hz :))
  · cases h; exact f

end Frames

/-! ## The system invariant -/

/-- The pid invariant of the table, and every process that a thread asleep in `proc_destroy`
will free is off `proc_list` and below the allocator's next address. -/
structure SysPidInv (K : Consts) (s : ProcSys) : Prop where
  table : PidInv K s.table
  destroying : ∀ p, s.Destroying p → p ∉ s.table.procList ∧ p < s.table.slab.next

namespace SysPidInv

variable {s s' : ProcSys} {t : Nat}

theorem frame {N : Nat → Prop} (hs : SysPidInv K s) (hf : Frame N s s')
    (hN : ∀ p, N p → p ∉ s.table.procList ∧ p < s.table.slab.next) : SysPidInv K s' where
  table := hs.table.keeps hf.table
  destroying p hp := by
    rw [hf.table.procList]
    have h := (hf.destroying p hp).elim (hs.destroying p) (hN p)
    exact ⟨h.1, h.2.trans_le hf.table.slab⟩

theorem keep (hs : SysPidInv K s) (hf : Frame (fun _ => False) s s') : SysPidInv K s' :=
  hs.frame hf fun _ h => h.elim

theorem create {cur : Nat} {r : Option Nat} {t' : ProcTable} (hs : SysPidInv K s)
    (h : procCreate K s.table cur = some (r, t')) : SysPidInv K { s with table := t' } := by
  obtain ⟨hi, hsl, hl⟩ := hs.table.procCreate h
  refine ⟨hi, fun p hp => ?_⟩
  obtain ⟨hnp, hlt⟩ := hs.destroying p hp
  refine ⟨?_, hlt.trans_le hsl⟩
  rcases hl with hl | hl <;> simp only [hl, List.mem_append, List.mem_singleton, not_or]
  · exact hnp
  · exact ⟨hnp, hlt.ne⟩

/-- `proc_destroy`: the process is unlinked first, so the free, now or when a `vput` that
slept is over, is of a process off the list. -/
theorem procDestroy (hs : SysPidInv K s) {c : Nat} (h : procDestroy K s t c = some s') :
    SysPidInv K s' := by
  simp only [Weenix.procDestroy, Option.bind_eq_bind, Option.bind_eq_some] at h
  obtain ⟨x, hx, s₂, h₂, ⟨done, s₃⟩, h₃, h⟩ := h
  have hc : c ∉ (procUnlist s.table c).procList := hs.table.procList_nodup.not_mem_erase
  have hcn : c < s.table.slab.next :=
    hs.table.allocated c (by rw [ProcTable.pidAt_of_procs (t := s.table) hx]; rfl)
  have h₁ : SysPidInv K { s with table := procUnlist s.table c } :=
    ⟨hs.table.unlist c, fun p hp => ⟨fun hm => (hs.destroying p hp).1 (List.mem_of_mem_erase hm),
      (hs.destroying p hp).2⟩⟩
  have f := (kthreadDestroyAll_frame h₂).trans (releaseLoop_frame h₃)
  have h₃' := h₁.frame f fun p ⟨_, hp⟩ => by subst hp; exact ⟨hc, hcn⟩
  split at h <;> cases h
  · exact ⟨h₃'.table.free (f.table.procList ▸ hc), h₃'.destroying⟩
  · exact h₃'

theorem reap (hs : SysPidInv K s) {p c : Nat} (h : reap K s t p c = some s') : SysPidInv K s' := by
  simp only [Weenix.reap, Option.bind_eq_bind, Option.bind_eq_some] at h
  obtain ⟨x, hx, h⟩ := h
  refine (hs.keep (.setProc ?_)).procDestroy h
  exact (ProcTable.pidAt_of_procs hx :)

theorem waitChildStep (hs : SysPidInv K s) {p c : Nat} (h : waitChildStep K s t p c = some s') :
    SysPidInv K s' := by
  simp only [Weenix.waitChildStep, Option.bind_eq_bind, Option.bind_eq_some] at h
  obtain ⟨y, -, h⟩ := h
  split at h
  · exact (hs.keep .setPc_run).reap h
  · simp only [Option.bind_eq_some, Option.some.injEq] at h
    obtain ⟨_, -, rfl⟩ := h
    exact hs.keep ((Frame.setPc fun _ _ _ h => nomatch h).trans (.of_eq rfl rfl))

theorem waitAnyStep (hs : SysPidInv K s) {p : Nat} (h : waitAnyStep K s t p = some s') :
    SysPidInv K s' := by
  simp only [Weenix.waitAnyStep, Option.bind_eq_bind, Option.bind_eq_some] at h
  obtain ⟨x, -, d, -, h⟩ := h
  split at h
  · exact (hs.keep .setPc_run).reap h
  · simp only [Option.bind_eq_some, Option.some.injEq] at h
    obtain ⟨_, -, rfl⟩ := h
    exact hs.keep ((Frame.setPc fun _ _ _ h => nomatch h).trans (.of_eq rfl rfl))

theorem doWaitpid (hs : SysPidInv K s) {p : Nat} {pid : Int} (h : doWaitpid K s t p pid = some s') :
    SysPidInv K s' := by
  unfold Weenix.doWaitpid at h
  by_cases h0 : pid = 0 ∨ pid < -1
  · rw [if_pos h0] at h; cases h; exact hs
  rw [if_neg h0] at h
  simp only [Option.pure_def, Option.some_bind, Option.bind_eq_bind, Option.bind_eq_some] at h
  obtain ⟨x, -, h⟩ := h
  split at h
  · simp only [Option.bind_eq_some] at h
    obtain ⟨c, -, h⟩ := h
    split at h
    · cases h; exact hs
    · exact hs.waitChildStep h
  · split at h
    · cases h; exact hs
    · exact hs.waitAnyStep h

theorem spawn (hs : SysPidInv K s) {cur : Nat} (h : spawn K s cur = some s') : SysPidInv K s' := by
  simp only [Weenix.spawn, Option.bind_eq_bind, Option.bind_eq_some] at h
  obtain ⟨⟨_ | a, tb⟩, hc, h⟩ := h
  · cases h
  have h₁ := hs.create hc
  rcases hal : tb.slab.alloc with ⟨_ | th, sl⟩ <;> simp only [hal] at h
  · cases h
  simp only [Option.bind_eq_some, Option.some.injEq] at h
  obtain ⟨x, hx, _, -, rfl⟩ := h
  have hk : tb.Keeps { tb with slab := sl } := ⟨rfl, rfl, rfl, by simp [Slab.alloc_next hal]⟩
  refine h₁.keep ((((Frame.of_table hk).trans (.setProc ?_)).trans .setPc_run).trans
    (.of_eq rfl rfl))
  exact (ProcTable.pidAt_of_procs hx :)

theorem doFork (hs : SysPidInv K s) {p : Nat} (h : doFork K s t p = some s') : SysPidInv K s' := by
  simp only [Weenix.doFork, Option.bind_eq_bind, Option.bind_eq_some] at h
  obtain ⟨⟨c, tb⟩, hc, h⟩ := h
  split at h
  · cases h; exact hs.create hc
  · exact (hs.create hc).procDestroy h

theorem doExit (hs : SysPidInv K s) {p : Nat} {status : Int} (h : doExit K s t p status = some s') :
    SysPidInv K s' := by
  simp only [Weenix.doExit, Option.bind_eq_bind, Option.bind_eq_some] at h
  obtain ⟨x, hx, ⟨done, s₂⟩, h₂, h⟩ := h
  have h₁ : SysPidInv K (s.setProc p { x with pState := .dead, pStatus := status }) :=
    hs.keep (.setProc (ProcTable.pidAt_of_procs hx :))
  have f := releaseLoop_frame h₂
  have h₂' := h₁.frame f fun _ h => nomatch h.1
  split at h
  · exact h₂'.keep (cleanupFinish_frame h)
  · cases h; exact h₂'

/-- A thread resumed inside `proc_destroy` frees a process that was already off the list when
it went to sleep. -/
theorem resume (hs : SysPidInv K s) (h : resume K s t = some s') : SysPidInv K s' := by
  unfold Weenix.resume at h
  split at h
  · cases h
  · exact hs.waitChildStep h
  · exact hs.waitAnyStep h
  · rename_i p fd v after hpc
    simp only [Option.bind_eq_bind, Option.bind_eq_some] at h
    obtain ⟨tb, htb, s₂, h₂, ⟨done, s₃⟩, h₃, h⟩ := h
    have f : Frame (fun q => after = .destroy ∧ q = p) s s₃ :=
      ((Frame.setPc_run.trans (Frame.of_table (vnodePutLocked_keeps htb))).trans
        (vunlock_frame h₂)).trans (releaseLoop_frame h₃)
    have hN : ∀ q, after = .destroy ∧ q = p → q ∉ s.table.procList ∧ q < s.table.slab.next :=
      fun q ⟨ha, hq⟩ => hs.destroying q ⟨t, fd, v, by rw [hpc, ha, hq]⟩
    have h₃' := hs.frame f hN
    split at h
    · cases h; exact h₃'
    · split at h
      · exact h₃'.keep (cleanupFinish_frame h)
      · cases h
        exact ⟨h₃'.table.free (f.table.procList ▸ (hN p ⟨rfl, rfl⟩).1), h₃'.destroying⟩
  · exact hs.keep (fileMoves_frame (resumeFileCall_moves h))

/-- Every step keeps the invariant. -/
theorem procStep (hs : SysPidInv K s) {op : ProcOp} (h : procStep K s op = some s') :
    SysPidInv K s' := by
  cases op with
  | dispatch | yield =>
    simp only [Weenix.procStep, Option.bind_eq_bind, Option.bind_eq_some, Option.some.injEq] at h
    obtain ⟨_, -, rfl⟩ := h
    exact hs.keep (.of_eq rfl rfl)
  | interrupt d =>
    simp only [Weenix.procStep, Option.bind_eq_bind, Option.bind_eq_some, Option.some.injEq] at h
    obtain ⟨_, -, rfl⟩ := h
    exact hs.keep (.of_eq rfl rfl)
  | spawn => exact hs.spawn h
  | fork => obtain ⟨t, -, h⟩ := Option.bind_eq_some.1 h; exact hs.doFork h
  | exit status => obtain ⟨t, -, h⟩ := Option.bind_eq_some.1 h; exact hs.doExit h
  | waitpid pid => obtain ⟨t, -, h⟩ := Option.bind_eq_some.1 h; exact hs.doWaitpid h
  | open_ filename oflags =>
    obtain ⟨t, -, h⟩ := Option.bind_eq_some.1 h; exact hs.keep (fileMoves_frame (ProcSys.doOpen_moves h))
  | read fd len =>
    obtain ⟨t, -, h⟩ := Option.bind_eq_some.1 h; exact hs.keep (fileMoves_frame (ProcSys.doRead_moves h))
  | resume => obtain ⟨t, -, h⟩ := Option.bind_eq_some.1 h; exact hs.resume h

theorem boot (hK : 2 ≤ K.procMaxCount) (root : Nat) (vnodes : Nat → Vnode) (fs : Fs)
    (oom : Nat → Bool) : SysPidInv K (ProcSys.boot root vnodes fs oom) where
  table :=
    { next_pos := le_rfl
      next_lt := hK
      live := nofun
      distinct := List.nodup_nil
      allocated := fun a ha => by
        by_cases h : a = idleAddr
        · subst h; exact Nat.one_pos
        · simp [ProcTable.pidAt, ProcSys.boot, h] at ha }
  destroying := fun _ ⟨_, _, _, h⟩ => nomatch h

end SysPidInv

theorem ProcReachable.sysPidInv (hK : 2 ≤ K.procMaxCount) {s : ProcSys} (h : ProcReachable K s) :
    SysPidInv K s := by
  induction h with
  | boot root vnodes fs oom => exact .boot hK root vnodes fs oom
  | step _ _ _ hs ih => exact ih.procStep hs

/-- `proc_create` from a table with no process and `next_pid` still `PID_INIT` creates `init`. -/
theorem procCreate_first {t t' : ProcTable} {cur a : Nat} (hK : 2 ≤ K.procMaxCount)
    (hl : t.procList = []) (hn : t.nextPid = pidInit)
    (h : procCreate K t cur = some (some a, t')) : t'.pidAt a = some pidInit ∧ t'.initproc = some a := by
  obtain ⟨ps, pid, n', hps, hg, h⟩ := procCreate_eq_some K h
  rw [ProcTable.pids, hl, List.mapM_nil, Option.pure_def, Option.some.injEq] at hps
  have hg' := (procGetid_spec le_rfl hK []).2 0 (by omega) (List.not_mem_nil _) nofun
  rw [cyclicPid_zero le_rfl hK] at hg'
  rw [hn, ← hps, pidInit, hg', Option.some.injEq, Prod.mk.injEq] at hg
  obtain ⟨rfl, -⟩ := hg
  rcases h with ⟨-, h, -⟩ | ⟨-, -, -, ⟨h, -⟩ | ⟨x, y, ha, -, hy, -, hpr, hi⟩⟩
  · cases h
  · cases h
  · cases ha
    simp [pidAt_link hy hpr, hi, newProc, pidInit]

end Weenix
