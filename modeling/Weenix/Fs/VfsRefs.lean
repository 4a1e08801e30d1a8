import Mathlib.Algebra.BigOperators.Group.Finset
import Mathlib.Tactic.Abel
import Weenix.Fs.Vfs

/-!
# References and locks of the file system calls

What the calls of `Weenix.Fs.Vfs` do to reference counts and vnode mutexes:
1. every vnode reference a call takes is put back, or is held by a new open file or by the new
   cwd, whose predecessor's is put: `vDebt`, the references on each vnode beyond those its open
   files and cwds hold, is the same after the call;
2. every vnode mutex the call takes is released: the mutexes held are the same after;
3. `fDebt`, each file's count beyond the descriptor slots over all processes that hold it, is
   the same after;
4. a call that fails leaves every descriptor table and cwd as it was.

`Vfs.Moves` records what a step does to the three counts; each primitive of `Weenix.Fs.Vfs` has
its lemma, and a call's effect is their sum (`vfsCall_moves`).
-/

namespace Weenix

open Function

theorem sum_range_update {β : Type} {n i : Nat} (hi : i < n) (g : Nat → β) (b : β)
    (c : β → Nat) :
    ∑ j ∈ Finset.range n, c (update g i b j) + c (g i) = ∑ j ∈ Finset.range n, c (g j) + c b := by
  have hmem := Finset.mem_range.2 hi
  rw [Finset.sum_congr rfl fun j _ => apply_update (fun _ y => c y) g i b j,
    Finset.sum_update_of_mem hmem, Finset.sum_eq_add_sum_diff_singleton hmem (fun j => c (g j))]
  omega

theorem sum_range_succ_of_zero {n : Nat} {g : Nat → Nat} (h : g n = 0) :
    ∑ j ∈ Finset.range (n + 1), g j = ∑ j ∈ Finset.range n, g j := by
  rw [Finset.sum_range_succ, h, Nat.add_zero]

/-- `Pi.single a 1`, or nothing for `NULL`. -/
def optSingle : Option Nat → Nat → Int
  | some a => Pi.single a 1
  | none => 0

@[simp] theorem optSingle_some (a : Nat) : optSingle (some a) = Pi.single a 1 := rfl
@[simp] theorem optSingle_none : optSingle none = 0 := rfl

theorem optSingle_apply (o : Option Nat) (a : Nat) :
    optSingle o a = if o = some a then 1 else 0 := by
  cases o with
  | none => simp
  | some b => by_cases h : a = b <;> simp [Pi.single_apply, h, eq_comm]

namespace ProcTable

variable (K : Consts)

/-- Nothing lives at or above the allocator's next address. -/
def Fresh (t : ProcTable) : Prop := ∀ a, t.slab.next ≤ a → t.procs a = none ∧ t.files a = none

/-- The count of the file at `f`; zero when there is none. -/
def fileRefs (t : ProcTable) (f : Nat) : Nat := ((t.files f).map (·.fRefcount)).getD 0

/-- The descriptors below `NFILES` of the table `fds` that hold file `f`. -/
def fdCount (fds : Nat → Option Nat) (f : Nat) : Nat :=
  ∑ i ∈ Finset.range K.nfiles, if fds i = some f then 1 else 0

/-- The descriptor slots, over all processes, that hold file `f`. -/
def slots (t : ProcTable) (f : Nat) : Nat :=
  ∑ a ∈ Finset.range t.slab.next, ((t.procs a).map fun x => fdCount K x.pFiles f).getD 0

/-- The open files on vnode `v`. -/
def filesOn (t : ProcTable) (v : Nat) : Nat :=
  ∑ a ∈ Finset.range t.slab.next, if (t.files a).map (·.fVnode) = some v then 1 else 0

/-- The processes whose cwd is vnode `v`. -/
def cwdsOn (t : ProcTable) (v : Nat) : Nat :=
  ∑ a ∈ Finset.range t.slab.next, if (t.procs a).bind (·.pCwd) = some v then 1 else 0

/-- The references on each vnode beyond those its open files and cwds hold. -/
def vDebt (t : ProcTable) (v : Nat) : Int := t.vrefs v - t.filesOn v - t.cwdsOn v

/-- Each file's count beyond the descriptor slots that hold it. -/
def fDebt (t : ProcTable) (f : Nat) : Int := t.fileRefs f - t.slots K f

variable {K} {t : ProcTable}

theorem Fresh.lt_of_files (hf : t.Fresh) {f : Nat} {x : File} (h : t.files f = some x) :
    f < t.slab.next := by
  by_contra hn
  rw [(hf f (by omega)).2] at h
  cases h

theorem Fresh.lt_of_procs (hf : t.Fresh) {a : Nat} {x : Proc} (h : t.procs a = some x) :
    a < t.slab.next := by
  by_contra hn
  rw [(hf a (by omega)).1] at h
  cases h

/-! ### One slot, one file, one process -/

theorem fdCount_update {d : Nat → Option Nat} {i : Nat} (hi : i < K.nfiles) (o : Option Nat)
    (f : Nat) : fdCount K (update d i o) f + (if d i = some f then 1 else 0) =
      fdCount K d f + if o = some f then 1 else 0 :=
  sum_range_update hi d o fun y => if y = some f then 1 else 0

theorem filesOn_update {f : Nat} (hn : f < t.slab.next) (o : Option File) (v : Nat) :
    filesOn { t with files := update t.files f o } v +
        (if (t.files f).map (·.fVnode) = some v then 1 else 0) =
      t.filesOn v + if o.map (·.fVnode) = some v then 1 else 0 :=
  sum_range_update hn t.files o fun y => if y.map (·.fVnode) = some v then 1 else 0

theorem cwdsOn_setProc (hf : t.Fresh) {a : Nat} {x : Proc} (hx : t.procs a = some x) (y : Proc)
    (v : Nat) : (t.setProc a y).cwdsOn v + (if x.pCwd = some v then 1 else 0) =
      t.cwdsOn v + if y.pCwd = some v then 1 else 0 := by
  have := sum_range_update (hf.lt_of_procs hx) t.procs (some y)
    fun z => if z.bind (·.pCwd) = some v then 1 else 0
  simpa [cwdsOn, hx] using this

theorem slots_setProc (hf : t.Fresh) {a : Nat} {x : Proc} (hx : t.procs a = some x) (y : Proc)
    (f : Nat) : (t.setProc a y).slots K f + fdCount K x.pFiles f =
      t.slots K f + fdCount K y.pFiles f := by
  have := sum_range_update (hf.lt_of_procs hx) t.procs (some y)
    fun z => (z.map fun x => fdCount K x.pFiles f).getD 0
  simpa [slots, hx] using this

/-! ### The table's primitives -/

theorem vDebt_vnodeRef (t : ProcTable) (v : Nat) :
    (vnodeRef t v).vDebt = t.vDebt + Pi.single v 1 := by
  funext w
  show ((update t.vrefs v (t.vrefs v + 1) w : Nat) : Int) - t.filesOn w - t.cwdsOn w =
    t.vDebt w + (Pi.single v 1 : Nat → Int) w
  by_cases h : w = v
  · subst h; simp only [update_same, Pi.single_eq_same, vDebt]; push_cast; ring
  · simp only [update_noteq h, Pi.single_eq_of_ne h, vDebt, add_zero]

theorem vnodePutLocked_eq_some {v : Nat} {t' : ProcTable} (h : vnodePutLocked t v = some t') :
    0 < t.vrefs v ∧ t' = { t with vrefs := update t.vrefs v (t.vrefs v - 1) } := by
  unfold vnodePutLocked at h
  split at h
  · cases h
  · exact ⟨by omega, (Option.some.inj h).symm⟩

theorem vDebt_vnodePutLocked {v : Nat} {t' : ProcTable} (h : vnodePutLocked t v = some t') :
    t'.vDebt = t.vDebt - Pi.single v 1 := by
  obtain ⟨hv, rfl⟩ := vnodePutLocked_eq_some h
  funext w
  show ((update t.vrefs v (t.vrefs v - 1) w : Nat) : Int) - t.filesOn w - t.cwdsOn w =
    t.vDebt w - (Pi.single v 1 : Nat → Int) w
  by_cases hw : w = v
  · subst hw; simp only [update_same, Pi.single_eq_same, vDebt]; omega
  · simp only [update_noteq hw, Pi.single_eq_of_ne hw, vDebt, sub_zero]

theorem fileRef_eq_some {f : Nat} {t' : ProcTable} (h : fileRef t f = some t') :
    ∃ x, t.files f = some x ∧
      t' = { t with files := update t.files f (some { x with fRefcount := x.fRefcount + 1 }) } := by
  simp only [fileRef, Option.bind_eq_bind, Option.bind_eq_some, Option.some.injEq] at h
  obtain ⟨x, hx, rfl⟩ := h
  exact ⟨x, hx, rfl⟩

theorem vDebt_setFile (hf : t.Fresh) {f : Nat} {x y : File} (hx : t.files f = some x)
    (hy : y.fVnode = x.fVnode) : { t with files := update t.files f (some y) }.vDebt = t.vDebt := by
  funext v
  have := filesOn_update (hf.lt_of_files hx) (some y) v
  simp only [hx, Option.map_some', hy, Option.some.injEq] at this
  simp only [vDebt, cwdsOn] at *
  omega

theorem fileRefs_setFile {f : Nat} (o : Option File) (g : Nat) :
    ({ t with files := update t.files f o } : ProcTable).fileRefs g =
      if g = f then (o.map (·.fRefcount)).getD 0 else t.fileRefs g := by
  by_cases h : g = f
  · subst h; simp [fileRefs]
  · simp [fileRefs, h]

theorem fDebt_setFile {f : Nat} {x y : File} (hx : t.files f = some x) :
    ({ t with files := update t.files f (some y) } : ProcTable).fDebt K =
      t.fDebt K + Pi.single f ((y.fRefcount : Int) - x.fRefcount) := by
  funext g
  by_cases h : g = f
  · subst h; simp [fDebt, fileRefs_setFile, slots, fileRefs, hx]
  · simp [fDebt, fileRefs_setFile, slots, h]

theorem fresh_setFile (hf : t.Fresh) {f : Nat} {x y : File} (hx : t.files f = some x) :
    ({ t with files := update t.files f (some y) } : ProcTable).Fresh := fun a ha => by
  have hne : a ≠ f := fun h => by have := hf.lt_of_files hx; simp only at ha; omega
  simpa [hne] using hf a ha

theorem filePut_eq_some {f : Nat} {vn : Option Nat} {t' : ProcTable}
    (h : filePut t f = some (vn, t')) : ∃ x, t.files f = some x ∧ 0 < x.fRefcount ∧
      (x.fRefcount = 1 ∧ vn = some x.fVnode ∧ t' = { t with files := update t.files f none } ∨
       1 < x.fRefcount ∧ vn = none ∧
        t' = { t with files := update t.files f (some { x with fRefcount := x.fRefcount - 1 }) }) := by
  simp only [filePut, Option.bind_eq_bind, Option.bind_eq_some] at h
  obtain ⟨x, hx, h⟩ := h
  refine ⟨x, hx, ?_⟩
  by_cases h0 : x.fRefcount = 0
  · simp [h0] at h
  rw [if_neg h0, Option.pure_def, Option.some_bind] at h
  by_cases h1 : x.fRefcount = 1
  · rw [if_pos h1, Option.some.injEq, Prod.mk.injEq] at h
    exact ⟨by omega, .inl ⟨h1, h.1.symm, h.2.symm⟩⟩
  · rw [if_neg h1, Option.some.injEq, Prod.mk.injEq] at h
    exact ⟨by omega, .inr ⟨by omega, h.1.symm, h.2.symm⟩⟩

/-- `fput` drops one count of the file; when it frees the file, the file's reference on its vnode
passes to the caller, who must put it. -/
theorem filePut_debts (hf : t.Fresh) {f : Nat} {vn : Option Nat} {t' : ProcTable}
    (h : filePut t f = some (vn, t')) : t'.Fresh ∧ t'.vDebt = t.vDebt + optSingle vn ∧
      t'.fDebt K = t.fDebt K - Pi.single f 1 ∧ t'.procs = t.procs ∧ t'.vrefs = t.vrefs := by
  obtain ⟨x, hx, hx0, ⟨h1, rfl, rfl⟩ | ⟨h1, rfl, rfl⟩⟩ := filePut_eq_some h
  · have hn := hf.lt_of_files hx
    refine ⟨fun a ha => ?_, funext fun v => ?_, funext fun g => ?_, rfl, rfl⟩
    · have hne : a ≠ f := by simp only at ha; omega
      simpa [hne] using hf a ha
    · have := filesOn_update hn none v
      simp only [hx, Option.map_some', Option.some.injEq, Option.map_none', reduceCtorEq,
        if_false] at this
      by_cases hv : x.fVnode = v <;> simp [vDebt, cwdsOn, optSingle_apply, hv] at this ⊢ <;> omega
    · by_cases hg : g = f
      · subst hg; simp [fDebt, fileRefs_setFile, slots, fileRefs, hx, h1]
      · simp [fDebt, fileRefs_setFile, slots, hg]
  · refine ⟨fresh_setFile hf hx,
      by rw [vDebt_setFile hf hx (y := { x with fRefcount := x.fRefcount - 1 }) rfl]; simp, ?_,
      rfl, rfl⟩
    rw [fDebt_setFile hx]
    funext g
    by_cases hg : g = f
    · subst hg; simp; omega
    · simp [hg]

theorem fresh_setProc (hf : t.Fresh) {a : Nat} {x : Proc} (hx : t.procs a = some x) (y : Proc) :
    (t.setProc a y).Fresh := fun b hb => by
  have hne : b ≠ a := fun h => by have := hf.lt_of_procs hx; simp only [setProc_slab] at hb; omega
  simpa [hne] using hf b hb

theorem debts_bump (hf : t.Fresh) {sl : Slab} (hsl : sl.next = t.slab.next + 1) :
    ({ t with slab := sl } : ProcTable).Fresh ∧ ({ t with slab := sl } : ProcTable).vDebt = t.vDebt ∧
      ({ t with slab := sl } : ProcTable).fDebt K = t.fDebt K := by
  obtain ⟨hp, hfl⟩ := hf t.slab.next le_rfl
  refine ⟨fun a ha => hf a (by simp only at ha; omega), funext fun v => ?_, funext fun f => ?_⟩
  · simp only [vDebt, filesOn, cwdsOn, hsl]
    rw [sum_range_succ_of_zero (by simp [hfl]), sum_range_succ_of_zero (by simp [hp])]
  · simp only [fDebt, fileRefs, slots, hsl]
    rw [sum_range_succ_of_zero (by simp [hp])]

/-- A new file at a free address below the allocator's next one. -/
theorem debts_newFile (hf : t.Fresh) {f : Nat} (hn : f < t.slab.next) (hnone : t.files f = none)
    (y : File) : ({ t with files := update t.files f (some y) } : ProcTable).Fresh ∧
      ({ t with files := update t.files f (some y) } : ProcTable).vDebt =
        t.vDebt - Pi.single y.fVnode 1 ∧
      ({ t with files := update t.files f (some y) } : ProcTable).fDebt K =
        t.fDebt K + Pi.single f y.fRefcount := by
  refine ⟨fun a ha => ?_, funext fun v => ?_, funext fun g => ?_⟩
  · have hne : a ≠ f := by simp only at ha; omega
    simpa [hne] using hf a ha
  · have := filesOn_update hn (some y) v
    simp only [hnone, Option.map_none', Option.map_some', Option.some.injEq, reduceCtorEq,
      if_false, Nat.add_zero] at this
    by_cases hv : y.fVnode = v
    · subst hv; simp only [if_true] at this; simp [vDebt, cwdsOn]; omega
    · simp only [hv, if_false, Nat.add_zero] at this
      simp [vDebt, cwdsOn, Pi.single_apply, Ne.symm hv]; omega
  · by_cases hg : g = f
    · subst hg; simp [fDebt, fileRefs_setFile, slots, fileRefs, hnone]; omega
    · simp [fDebt, fileRefs_setFile, slots, hg]

end ProcTable

namespace Vfs

variable (K : Consts)

/-- The mutexes the thread holds, as a count per vnode. -/
def heldCount (s : Vfs) (v : Nat) : Int := if s.held v then 1 else 0

/-- What a step from `s` to `s'` did: the process table stays fresh, and the references on
vnodes beyond files and cwds, the file counts beyond slots, and the mutexes held change by
`dv`, `df` and `dh`. -/
structure Moves (s s' : Vfs) (dv df dh : Nat → Int) : Prop where
  fresh : s'.table.Fresh
  vnode : s'.table.vDebt = s.table.vDebt + dv
  file : s'.table.fDebt K = s.table.fDebt K + df
  lock : s'.heldCount = s.heldCount + dh

/-- A step that also leaves every process as it was. -/
structure Keeps (s s' : Vfs) (dv df dh : Nat → Int) extends Moves K s s' dv df dh : Prop where
  procs : s'.table.procs = s.table.procs
  curproc : s'.curproc = s.curproc

variable {K} {s s' s'' : Vfs} {dv df dh dv' df' dh' : Nat → Int}

theorem Moves.refl (hf : s.table.Fresh) : Moves K s s 0 0 0 := ⟨hf, by simp, by simp, by simp⟩

theorem Keeps.refl (hf : s.table.Fresh) : Keeps K s s 0 0 0 := ⟨.refl hf, rfl, rfl⟩

theorem Moves.trans (h₁ : Moves K s s' dv df dh) (h₂ : Moves K s' s'' dv' df' dh') :
    Moves K s s'' (dv + dv') (df + df') (dh + dh') :=
  ⟨h₂.fresh, by rw [h₂.vnode, h₁.vnode, add_assoc], by rw [h₂.file, h₁.file, add_assoc],
    by rw [h₂.lock, h₁.lock, add_assoc]⟩

theorem Keeps.trans (h₁ : Keeps K s s' dv df dh) (h₂ : Keeps K s' s'' dv' df' dh') :
    Keeps K s s'' (dv + dv') (df + df') (dh + dh') :=
  ⟨h₁.toMoves.trans h₂.toMoves, h₂.procs.trans h₁.procs, h₂.curproc.trans h₁.curproc⟩

theorem Moves.congr (h : Moves K s s' dv df dh) (hv : dv = dv') (hf : df = df') (hh : dh = dh') :
    Moves K s s' dv' df' dh' := hv ▸ hf ▸ hh ▸ h

theorem Keeps.congr (h : Keeps K s s' dv df dh) (hv : dv = dv') (hf : df = df') (hh : dh = dh') :
    Keeps K s s' dv' df' dh' := hv ▸ hf ▸ hh ▸ h

/-! ### The primitives -/

variable {v f : Nat}

theorem vref_keeps (hf : s.table.Fresh) : Keeps K s (s.vref v) (Pi.single v 1) 0 0 :=
  ⟨⟨hf, ProcTable.vDebt_vnodeRef _ _, by simp; rfl, by simp; rfl⟩, rfl, rfl⟩

theorem vlock_eq_some (h : s.vlock v = some s') :
    s.held v = false ∧ s' = { s with held := update s.held v true } := by
  unfold vlock at h
  by_cases hv : s.held v = true
  · rw [if_pos hv] at h; cases h
  · rw [if_neg hv] at h
    exact ⟨by simpa using hv, (Option.some.inj h).symm⟩

theorem vunlock_eq_some (h : s.vunlock v = some s') :
    s.held v = true ∧ s' = { s with held := update s.held v false } := by
  unfold vunlock at h
  split at h
  · exact ⟨‹_›, (Option.some.inj h).symm⟩
  · cases h

theorem heldCount_update (s : Vfs) (b : Bool) :
    ({ s with held := update s.held v b } : Vfs).heldCount =
      s.heldCount + Pi.single v ((if b then 1 else 0) - s.heldCount v) := by
  funext w
  by_cases h : w = v
  · subst h; simp [heldCount]
  · simp [heldCount, h]

theorem vlock_keeps (hf : s.table.Fresh) (h : s.vlock v = some s') :
    Keeps K s s' 0 0 (Pi.single v 1) := by
  obtain ⟨hv, rfl⟩ := vlock_eq_some h
  exact ⟨⟨hf, by simp, by simp, by rw [heldCount_update]; simp [heldCount, hv]⟩, rfl, rfl⟩

theorem vunlock_keeps (hf : s.table.Fresh) (h : s.vunlock v = some s') :
    Keeps K s s' 0 0 (-Pi.single v 1) := by
  obtain ⟨hv, rfl⟩ := vunlock_eq_some h
  refine ⟨⟨hf, by simp, by simp, ?_⟩, rfl, rfl⟩
  rw [heldCount_update]
  simp [heldCount, hv, sub_eq_add_neg, Pi.single_neg]

theorem vput_keeps (hf : s.table.Fresh) (h : s.vput v = some s') :
    Keeps K s s' (-Pi.single v 1) 0 0 := by
  simp only [vput, Option.bind_eq_bind, Option.bind_eq_some] at h
  obtain ⟨s₁, h₁, t, ht, h₂⟩ := h
  have k₁ := vlock_keeps (K := K) hf h₁
  obtain ⟨-, ht'⟩ := ProcTable.vnodePutLocked_eq_some ht
  have k₂ : Keeps K s₁ { s₁ with table := t } (-Pi.single v 1) 0 0 :=
    ⟨⟨by subst ht'; exact k₁.fresh, (ProcTable.vDebt_vnodePutLocked ht).trans (sub_eq_add_neg _ _),
      by subst ht'; simp; rfl, by simp; rfl⟩, by subst ht'; rfl, rfl⟩
  exact ((k₁.trans k₂).trans (vunlock_keeps k₂.fresh h₂)).congr (by simp) (by simp) (by simp)

theorem fref_keeps (hf : s.table.Fresh) (h : s.fref f = some s') :
    Keeps K s s' 0 (Pi.single f 1) 0 := by
  simp only [fref, Option.bind_eq_bind, Option.bind_eq_some, Option.some.injEq] at h
  obtain ⟨t, ht, rfl⟩ := h
  obtain ⟨x, hx, rfl⟩ := ProcTable.fileRef_eq_some ht
  refine ⟨⟨ProcTable.fresh_setFile hf hx, ?_, ?_, by simp; rfl⟩, rfl, rfl⟩
  · exact (ProcTable.vDebt_setFile hf hx (y := { x with fRefcount := x.fRefcount + 1 }) rfl).trans
      (add_zero _).symm
  · rw [ProcTable.fDebt_setFile hx]; simp

theorem fput_keeps (hf : s.table.Fresh) (h : s.fput f = some s') :
    Keeps K s s' 0 (-Pi.single f 1) 0 := by
  simp only [fput, Option.bind_eq_bind, Option.bind_eq_some] at h
  obtain ⟨⟨vn, t⟩, ht, h⟩ := h
  obtain ⟨hft, hv, hfd, hp, -⟩ := ProcTable.filePut_debts (K := K) hf ht
  have k₁ : Keeps K s { s with table := t } (optSingle vn) (-Pi.single f 1) 0 :=
    ⟨⟨hft, hv, hfd.trans (sub_eq_add_neg _ _), by simp; rfl⟩, hp, rfl⟩
  cases vn with
  | none =>
    cases h
    exact k₁.congr (by simp) rfl rfl
  | some v => exact (k₁.trans (vput_keeps hft h)).congr (by simp) (by simp) (by simp)

theorem fget_keeps {fd : Nat} {o : Option Nat} (hf : s.table.Fresh)
    (h : s.fget fd = some (o, s')) : Keeps K s s' 0 (optSingle o) 0 := by
  simp only [fget, Option.bind_eq_bind, Option.bind_eq_some] at h
  obtain ⟨⟨c, x⟩, -, h⟩ := h
  split at h
  · cases h
    exact Keeps.refl hf
  · obtain ⟨s₁, h₁, h⟩ := Option.bind_eq_some.1 h
    cases h
    exact fref_keeps hf h₁

theorem setPos_keeps {x : File} (hf : s.table.Fresh) (hx : s.table.files f = some x) (pos : Nat) :
    Keeps K s (s.setPos f x pos) 0 0 0 := by
  refine ⟨⟨ProcTable.fresh_setFile hf hx, ?_, ?_, by simp; rfl⟩, rfl, rfl⟩
  · exact (ProcTable.vDebt_setFile hf hx (y := { x with fPos := pos }) rfl).trans (add_zero _).symm
  · rw [setPos, ProcTable.fDebt_setFile hx]; simp

variable {c : Nat} {x : Proc}

theorem setSlot_moves (hf : s.table.Fresh) (hx : s.table.procs c = some x) {i : Nat}
    (hi : i < K.nfiles) (o : Option Nat) :
    Moves K s (s.setProc c { x with pFiles := update x.pFiles i o }) 0
      (optSingle (x.pFiles i) - optSingle o) 0 := by
  refine ⟨ProcTable.fresh_setProc hf hx _, funext fun v => ?_, funext fun g => ?_, by simp; rfl⟩
  · have := ProcTable.cwdsOn_setProc hf hx { x with pFiles := update x.pFiles i o } v
    simp only [ProcTable.vDebt, ProcTable.filesOn, setProc, ProcTable.setProc_slab,
      ProcTable.setProc_files, ProcTable.setProc_vrefs, Pi.add_apply, Pi.zero_apply, add_zero] at *
    omega
  · have h₁ := ProcTable.slots_setProc (K := K) hf hx { x with pFiles := update x.pFiles i o } g
    have h₂ := ProcTable.fdCount_update (K := K) (d := x.pFiles) hi o g
    simp only [ProcTable.fDebt, ProcTable.fileRefs, setProc, ProcTable.setProc_files,
      Pi.add_apply, Pi.sub_apply, optSingle_apply] at h₁ h₂ ⊢
    split_ifs at h₂ ⊢ <;> omega

theorem setCwd_moves (hf : s.table.Fresh) (hx : s.table.procs c = some x) (v : Nat) :
    Moves K s (s.setProc c { x with pCwd := some v }) (optSingle x.pCwd - Pi.single v 1) 0 0 := by
  refine ⟨ProcTable.fresh_setProc hf hx _, funext fun w => ?_, funext fun g => ?_, by simp; rfl⟩
  · have := ProcTable.cwdsOn_setProc hf hx { x with pCwd := some v } w
    simp only [ProcTable.vDebt, ProcTable.filesOn, setProc, ProcTable.setProc_slab,
      ProcTable.setProc_files, ProcTable.setProc_vrefs, Pi.add_apply, Pi.sub_apply,
      optSingle_apply, Option.some.injEq, Pi.single_apply, @eq_comm _ v w] at this ⊢
    split_ifs at this ⊢ <;> omega
  · have := ProcTable.slots_setProc (K := K) hf hx { x with pCwd := some v } g
    simp only [ProcTable.fDebt, ProcTable.fileRefs, setProc, ProcTable.setProc_files,
      Pi.add_apply, Pi.zero_apply] at *
    omega

theorem proc_eq_some : s.proc = some (c, x) ↔ s.curproc = some c ∧ s.table.procs c = some x := by
  constructor
  · intro h
    simp only [proc, Option.bind_eq_bind, Option.bind_eq_some, Option.some.injEq,
      Prod.mk.injEq] at h
    obtain ⟨c', hc, x', hx, rfl, rfl⟩ := h
    exact ⟨hc, hx⟩
  · rintro ⟨hc, hx⟩
    simp [proc, hc, hx]

/-- `fcreate` into a free descriptor keeps every count: the new file holds the vnode reference
it takes, and the slot holds the file's one count. -/
theorem fcreate_moves {fd v : Nat} {mode : FMode} {o : Option Nat} (hf : s.table.Fresh)
    (hp : s.proc = some (c, x)) (hi : fd < K.nfiles) (hfd : x.pFiles fd = none)
    (h : s.fcreate fd v mode = some (o, s')) :
    Moves K s s' 0 0 0 ∧ (o = none → s'.table.procs = s.table.procs) := by
  unfold fcreate at h
  rcases hal : s.table.slab.alloc with ⟨_ | f, sl⟩ <;> rw [hal] at h
  · simp only [Option.some.injEq, Prod.mk.injEq] at h
    obtain ⟨rfl, rfl⟩ := h
    obtain ⟨h₁, h₂, h₃⟩ := ProcTable.debts_bump (K := K) hf (Slab.alloc_next hal)
    exact ⟨⟨h₁, h₂.trans (add_zero _).symm, h₃.trans (add_zero _).symm, by simp; rfl⟩,
      fun _ => rfl⟩
  obtain ⟨rfl, hsl⟩ := Slab.alloc_eq_some hal
  simp only [hp, Option.bind_eq_bind, Option.some_bind, Option.some.injEq, Prod.mk.injEq] at h
  obtain ⟨rfl, rfl⟩ := h
  refine ⟨?_, fun h => nomatch h⟩
  have hx := (proc_eq_some.1 hp).2
  obtain ⟨hb₁, hb₂, hb₃⟩ := ProcTable.debts_bump (K := K) hf hsl
  obtain ⟨hn₁, hn₂, hn₃⟩ := ProcTable.debts_newFile (K := K) hb₁
    (show s.table.slab.next < sl.next by omega) (hf _ le_rfl).2 ⟨v, mode, 0, 1⟩
  let s₂ : Vfs :=
    { s with
      table :=
        { s.table with
          slab := sl
          files := update s.table.files s.table.slab.next (some ⟨v, mode, 0, 1⟩) } }
  have k₂ : Moves K s s₂ (-Pi.single v 1) (Pi.single s.table.slab.next 1) 0 :=
    ⟨hn₁, by rw [← hb₂]; exact hn₂.trans (sub_eq_add_neg _ _),
      by rw [← hb₃]; exact hn₃.trans (by simp), by simp; rfl⟩
  have k₃ := k₂.trans (vref_keeps (v := v) k₂.fresh).toMoves
  have k₄ := k₃.trans (setSlot_moves (s := s₂.vref v) k₃.fresh hx hi (some s.table.slab.next))
  exact k₄.congr (by simp) (by simp [hfd]) (by simp)

/-- The mutexes `vlock_in_order` takes. -/
def lockPair (a b : Nat) : Nat → Int :=
  if a = b then Pi.single a 1 else Pi.single a 1 + Pi.single b 1

theorem vlockInOrder_keeps {a b : Nat} (hf : s.table.Fresh) (h : s.vlockInOrder a b = some s') :
    Keeps K s s' 0 0 (lockPair a b) := by
  unfold vlockInOrder at h
  by_cases hab : a = b
  · rw [if_pos hab] at h
    exact (vlock_keeps hf h).congr rfl rfl (by simp [lockPair, hab])
  rw [if_neg hab, Option.bind_eq_bind] at h
  obtain ⟨s₁, h₁, h₂⟩ := Option.bind_eq_some.1 h
  have k₁ := vlock_keeps (K := K) hf h₁
  refine (k₁.trans (vlock_keeps k₁.fresh h₂)).congr (by simp) (by simp) ?_
  simp only [lockPair, if_neg hab]
  rcases le_total a b with hle | hle
  · rw [min_eq_left hle, max_eq_right hle]
  · rw [min_eq_right hle, max_eq_left hle, add_comm]

theorem vunlockInOrder_keeps {a b : Nat} (hf : s.table.Fresh)
    (h : s.vunlockInOrder a b = some s') : Keeps K s s' 0 0 (-lockPair a b) := by
  unfold vunlockInOrder at h
  by_cases hab : a = b
  · rw [if_pos hab] at h
    exact (vunlock_keeps hf h).congr rfl rfl (by simp [lockPair, hab])
  rw [if_neg hab, Option.bind_eq_bind] at h
  obtain ⟨s₁, h₁, h₂⟩ := Option.bind_eq_some.1 h
  have k₁ := vunlock_keeps (K := K) hf h₁
  exact (k₁.trans (vunlock_keeps k₁.fresh h₂)).congr (by simp) (by simp)
    (by simp [lockPair, hab]; exact add_comm _ _)

/-! ### Steps in sequence -/

section Chain

variable {s₀ : Vfs} {a b c' : Nat}

theorem Keeps.vref (hk : Keeps K s₀ s dv df dh) (v : Nat) :
    Keeps K s₀ (s.vref v) (dv + Pi.single v 1) df dh :=
  (hk.trans (vref_keeps hk.fresh)).congr rfl (add_zero _) (add_zero _)

theorem Keeps.vput (hk : Keeps K s₀ s dv df dh) (h : s.vput v = some s') :
    Keeps K s₀ s' (dv + -Pi.single v 1) df dh :=
  (hk.trans (vput_keeps hk.fresh h)).congr rfl (add_zero _) (add_zero _)

theorem Keeps.vlock (hk : Keeps K s₀ s dv df dh) (h : s.vlock v = some s') :
    Keeps K s₀ s' dv df (dh + Pi.single v 1) :=
  (hk.trans (vlock_keeps hk.fresh h)).congr (add_zero _) (add_zero _) rfl

theorem Keeps.vunlock (hk : Keeps K s₀ s dv df dh) (h : s.vunlock v = some s') :
    Keeps K s₀ s' dv df (dh + -Pi.single v 1) :=
  (hk.trans (vunlock_keeps hk.fresh h)).congr (add_zero _) (add_zero _) rfl

theorem Keeps.vlockInOrder (hk : Keeps K s₀ s dv df dh) (h : s.vlockInOrder a b = some s') :
    Keeps K s₀ s' dv df (dh + lockPair a b) :=
  (hk.trans (vlockInOrder_keeps hk.fresh h)).congr (add_zero _) (add_zero _) rfl

theorem Keeps.vunlockInOrder (hk : Keeps K s₀ s dv df dh) (h : s.vunlockInOrder a b = some s') :
    Keeps K s₀ s' dv df (dh + -lockPair a b) :=
  (hk.trans (vunlockInOrder_keeps hk.fresh h)).congr (add_zero _) (add_zero _) rfl

theorem Keeps.fput (hk : Keeps K s₀ s dv df dh) (h : s.fput f = some s') :
    Keeps K s₀ s' dv (df + -Pi.single f 1) dh :=
  (hk.trans (fput_keeps hk.fresh h)).congr (add_zero _) rfl (add_zero _)

theorem Keeps.setPos {y : File} (hk : Keeps K s₀ s dv df dh) (hy : s.table.files f = some y)
    (pos : Nat) : Keeps K s₀ (s.setPos f y pos) dv df dh :=
  (hk.trans (setPos_keeps hk.fresh hy pos)).congr (add_zero _) (add_zero _) (add_zero _)

end Chain

/-! ## The calls -/

/-- The contract every call keeps, from `s` to `s'` with the result `r`: the references on
vnodes beyond files and cwds, the file counts beyond slots and the mutexes held are as before,
and a failure leaves every process as it was. -/
structure CallOk (K : Consts) (s s' : Vfs) (r : Except Errno Nat) : Prop where
  moves : Moves K s s' 0 0 0
  error : ∀ e, r = .error e → s'.table.procs = s.table.procs

variable {r : Except Errno Nat} {s₁ : Vfs} {d : Nat} {e : Except Errno Nat}

theorem CallOk.of_keeps (h : Keeps K s s' dv df dh) (hv : dv = 0) (hf : df = 0) (hh : dh = 0) :
    CallOk K s s' r :=
  ⟨h.toMoves.congr hv hf hh, fun _ _ => h.procs⟩

theorem CallOk.of_moves {n : Nat} (h : Moves K s s' dv df dh) (hv : dv = 0) (hf : df = 0)
    (hh : dh = 0) : CallOk K s s' (.ok n) :=
  ⟨h.congr hv hf hh, fun _ h => nomatch h⟩

theorem bind_pair_eq_some {α : Type} {o : Option Vfs} {a r : α}
    (h : (o.bind fun y => some (a, y)) = some (r, s')) : o = some s' ∧ r = a := by
  obtain ⟨y, hy, h⟩ := Option.bind_eq_some.1 h
  cases h
  exact ⟨hy, rfl⟩

theorem callOk_vput (hk : Keeps K s s₁ dv df dh)
    (h : (s₁.vput d).bind (fun y => some (e, y)) = some (r, s'))
    (hv : dv + -Pi.single d 1 = 0) (hf : df = 0) (hh : dh = 0) : CallOk K s s' r := by
  obtain ⟨h', rfl⟩ := bind_pair_eq_some h
  exact .of_keeps (hk.vput h') hv hf hh

theorem callOk_vunlock_vput (hk : Keeps K s s₁ dv df dh)
    (h : (s₁.vunlock d).bind (fun y => (y.vput d).bind fun z => some (e, z)) = some (r, s'))
    (hv : dv + -Pi.single d 1 = 0) (hf : df = 0) (hh : dh + -Pi.single d 1 = 0) :
    CallOk K s s' r := by
  obtain ⟨s₂, h₂, h⟩ := Option.bind_eq_some.1 h
  exact callOk_vput (hk.vunlock h₂) h hv hf hh

theorem callOk_vput_vput {a b : Nat} (hk : Keeps K s s₁ dv df dh)
    (h : (s₁.vput a).bind (fun y => (y.vput b).bind fun z => some (e, z)) = some (r, s'))
    (hv : dv + -Pi.single a 1 + -Pi.single b 1 = 0) (hf : df = 0) (hh : dh = 0) :
    CallOk K s s' r := by
  obtain ⟨s₂, h₂, h⟩ := Option.bind_eq_some.1 h
  exact callOk_vput (hk.vput h₂) h hv hf hh

theorem callOk_fput (hk : Keeps K s s₁ dv df dh)
    (h : (s₁.fput f).bind (fun y => some (e, y)) = some (r, s'))
    (hv : dv = 0) (hf : df + -Pi.single f 1 = 0) (hh : dh = 0) : CallOk K s s' r := by
  obtain ⟨h', rfl⟩ := bind_pair_eq_some h
  exact .of_keeps (hk.fput h') hv hf hh

variable (fs : Fs) (nameLen : Nat)

theorem doMkdir_ok (hf : s.table.Fresh) {path : String}
    (h : doMkdir fs nameLen s path = some (r, s')) : CallOk K s s' r := by
  simp only [doMkdir, Option.bind_eq_bind, Option.pure_def, Option.some_bind] at h
  obtain ⟨⟨c, x⟩, -, h⟩ := Option.bind_eq_some.1 h
  split at h
  · cases h; exact .of_keeps (.refl hf) rfl rfl rfl
  rename_i d name _
  have k₀ := (Keeps.refl (K := K) hf).vref d
  obtain ⟨_, h⟩ | ⟨_, h⟩ := ite_eq_iff.1 h
  · exact callOk_vput k₀ h (by abel) rfl rfl
  obtain ⟨_, h⟩ | ⟨_, h⟩ := ite_eq_iff.1 h
  · exact callOk_vput k₀ h (by abel) rfl rfl
  obtain ⟨_, h⟩ | ⟨_, h⟩ := ite_eq_iff.1 h
  · exact callOk_vput k₀ h (by abel) rfl rfl
  obtain ⟨s₁, h₁, h⟩ := Option.bind_eq_some.1 h
  have k₁ := k₀.vlock h₁
  split at h
  · obtain ⟨s₂, h₂, h⟩ := Option.bind_eq_some.1 h
    exact callOk_vunlock_vput ((k₁.vref _).vput h₂) h (by abel) rfl (by abel)
  obtain ⟨_, h⟩ | ⟨_, h⟩ := ite_eq_iff.1 h
  · exact callOk_vunlock_vput k₁ h (by abel) rfl (by abel)
  obtain ⟨_, h⟩ | ⟨_, h⟩ := ite_eq_iff.1 h
  · exact callOk_vunlock_vput k₁ h (by abel) rfl (by abel)
  split at h
  · exact callOk_vunlock_vput k₁ h (by abel) rfl (by abel)
  · obtain ⟨s₂, h₂, h⟩ := Option.bind_eq_some.1 h
    exact callOk_vput_vput ((k₁.vref _).vunlock h₂) h (by abel) rfl (by abel)

/-- When `namev_lookup` answers `do_mkdir` with the parent itself, as the lookup of `.` does,
`vput(&existing_vnode)` takes the mutex `do_mkdir` already holds: the `KASSERT` of
`kmutex_lock` fails where `-EEXIST` is due, with the parent locked and two references held. -/
theorem doMkdir_lookup_parent {path name : String} {c d : Nat} {x : Proc}
    (hp : s.proc = some (c, x)) (hd : fs.namevDir x.pCwd path = .ok (d, name))
    (hlen : name.length < nameLen) (hne : 0 < name.length) (hdir : (s.vnodes d).vnMode = .dir)
    (hfree : s.held d = false) (hself : fs.namevLookup d name = .ok d) :
    doMkdir fs nameLen s path = none := by
  have hlock : (s.vref d).vlock d = some { s.vref d with held := update s.held d true } := by
    simp [vlock, vref, hfree]
  have hrelock : ({ s.vref d with held := update s.held d true }.vref d).vput d = none := by
    simp [vput, vlock, vref]
  simp only [doMkdir, hp, hd, hself, hlock, hrelock, Option.bind_eq_bind, Option.some_bind,
    Option.none_bind, Nat.not_le.2 hlen, Nat.pos_iff_ne_zero.1 hne, if_false]
  simp [vref, hdir]

/-- The cwd of `dotProc`: a directory with a `mkdir` operation. -/
def dotDir : Vnode :=
  ⟨.dir, 0, false, ⟨true, true, true, true, true, true, true, true, true, false, false⟩, 0⟩

/-- A process whose cwd is the vnode at 5. -/
def dotProc : Proc := ⟨1, none, [], [], .running, 0, fun _ => none, some 5⟩

/-- `dotProc` at address 1 as `curproc`, holding the one reference on the cwd. -/
def dotVfs : Vfs where
  table := ⟨update (fun _ => none) 1 (some dotProc), [1], 2, some 1, ⟨2, fun _ => false⟩,
    fun _ => none, update (fun _ => 0) 5 1⟩
  vnodes _ := dotDir
  held _ := false
  curproc := some 1

/-- A file system whose `namev_dir` resolves every path in the directory at 5 and whose
`lookup` of `.` is the directory itself. -/
def dotFs : Fs where
  namevResolve _ _ := .error .ENOENT
  namevDir _ p := .ok (5, p)
  namevOpen _ _ _ _ _ := .error .ENOENT
  namevLookup d _ := .ok d
  read _ _ _ := .error .EBADF
  write _ _ _ := .error .EBADF
  mkdir _ _ := .error .ENOMEM
  rmdir _ _ := .error .ENOTEMPTY
  unlink _ _ := .error .ENOENT
  link _ _ _ := .error .ENOENT
  rename _ _ _ _ := .error .ENOENT
  readdir _ _ := .error .ENOTDIR
  stat _ := .error .ENOENT

theorem mkdir_dot_relocks_cwd :
    dotVfs.proc = some (1, dotProc) ∧ dotFs.namevDir dotProc.pCwd "." = .ok (5, ".") ∧
      doMkdir dotFs 256 dotVfs "." = none :=
  ⟨rfl, rfl, doMkdir_lookup_parent dotFs 256 rfl rfl (by decide) (by decide) rfl rfl rfl⟩

theorem doRmdir_ok (hf : s.table.Fresh) {path : String}
    (h : doRmdir fs nameLen s path = some (r, s')) : CallOk K s s' r := by
  simp only [doRmdir, Option.bind_eq_bind, Option.pure_def, Option.some_bind] at h
  obtain ⟨⟨c, x⟩, -, h⟩ := Option.bind_eq_some.1 h
  split at h
  · cases h; exact .of_keeps (.refl hf) rfl rfl rfl
  rename_i d name _
  have k₀ := (Keeps.refl (K := K) hf).vref d
  obtain ⟨_, h⟩ | ⟨_, h⟩ := ite_eq_iff.1 h
  · exact callOk_vput k₀ h (by abel) rfl rfl
  obtain ⟨_, h⟩ | ⟨_, h⟩ := ite_eq_iff.1 h
  · exact callOk_vput k₀ h (by abel) rfl rfl
  obtain ⟨_, h⟩ | ⟨_, h⟩ := ite_eq_iff.1 h
  · exact callOk_vput k₀ h (by abel) rfl rfl
  obtain ⟨_, h⟩ | ⟨_, h⟩ := ite_eq_iff.1 h
  · exact callOk_vput k₀ h (by abel) rfl rfl
  obtain ⟨s₁, h₁, h⟩ := Option.bind_eq_some.1 h
  have k₁ := k₀.vlock h₁
  obtain ⟨_, h⟩ | ⟨_, h⟩ := ite_eq_iff.1 h
  · exact callOk_vunlock_vput k₁ h (by abel) rfl (by abel)
  · exact callOk_vunlock_vput k₁ h (by abel) rfl (by abel)

theorem doUnlink_ok (hf : s.table.Fresh) {path : String}
    (h : doUnlink fs nameLen s path = some (r, s')) : CallOk K s s' r := by
  simp only [doUnlink, Option.bind_eq_bind, Option.pure_def, Option.some_bind] at h
  obtain ⟨_, h⟩ | ⟨_, h⟩ := ite_eq_iff.1 h
  · cases h; exact .of_keeps (.refl hf) rfl rfl rfl
  obtain ⟨⟨c, x⟩, -, h⟩ := Option.bind_eq_some.1 h
  split at h
  · cases h; exact .of_keeps (.refl hf) rfl rfl rfl
  rename_i d name _
  have k₀ := (Keeps.refl (K := K) hf).vref d
  obtain ⟨_, h⟩ | ⟨_, h⟩ := ite_eq_iff.1 h
  · exact callOk_vput k₀ h (by abel) rfl rfl
  obtain ⟨_, h⟩ | ⟨_, h⟩ := ite_eq_iff.1 h
  · exact callOk_vput k₀ h (by abel) rfl rfl
  obtain ⟨s₁, h₁, h⟩ := Option.bind_eq_some.1 h
  have k₁ := k₀.vlock h₁
  obtain ⟨_, h⟩ | ⟨_, h⟩ := ite_eq_iff.1 h
  · exact callOk_vunlock_vput k₁ h (by abel) rfl (by abel)
  split at h
  · split_ifs at h
    · obtain ⟨s₂, h₂, h⟩ := Option.bind_eq_some.1 h
      exact callOk_vunlock_vput ((k₁.vref _).vput h₂) h (by abel) rfl (by abel)
    · obtain ⟨s₂, h₂, h⟩ := Option.bind_eq_some.1 h
      exact callOk_vunlock_vput ((k₁.vref _).vput h₂) h (by abel) rfl (by abel)
  · exact callOk_vunlock_vput k₁ h (by abel) rfl (by abel)

theorem doLink_ok (hf : s.table.Fresh) {oldpath newpath : String}
    (h : doLink fs nameLen s oldpath newpath = some (r, s')) : CallOk K s s' r := by
  simp only [doLink, Option.bind_eq_bind, Option.pure_def, Option.some_bind] at h
  obtain ⟨⟨c, x⟩, -, h⟩ := Option.bind_eq_some.1 h
  split at h
  · cases h; exact .of_keeps (.refl hf) rfl rfl rfl
  rename_i t _
  have k₀ := (Keeps.refl (K := K) hf).vref t
  obtain ⟨_, h⟩ | ⟨_, h⟩ := ite_eq_iff.1 h
  · exact callOk_vput k₀ h (by abel) rfl rfl
  split at h
  · exact callOk_vput k₀ h (by abel) rfl rfl
  rename_i d name _
  have k₁ := k₀.vref d
  obtain ⟨_, h⟩ | ⟨_, h⟩ := ite_eq_iff.1 h
  · exact callOk_vput_vput k₁ h (by abel) rfl rfl
  obtain ⟨_, h⟩ | ⟨_, h⟩ := ite_eq_iff.1 h
  · exact callOk_vput_vput k₁ h (by abel) rfl rfl
  obtain ⟨_, h⟩ | ⟨_, h⟩ := ite_eq_iff.1 h
  · exact callOk_vput_vput k₁ h (by abel) rfl rfl
  obtain ⟨s₁, h₁, h⟩ := Option.bind_eq_some.1 h
  obtain ⟨s₂, h₂, h⟩ := Option.bind_eq_some.1 h
  exact callOk_vput_vput ((k₁.vlockInOrder h₁).vunlockInOrder h₂) h (by abel) rfl (by abel)

theorem doRename_ok (hf : s.table.Fresh) {oldpath newpath : String}
    (h : doRename fs nameLen s oldpath newpath = some (r, s')) : CallOk K s s' r := by
  simp only [doRename, Option.bind_eq_bind, Option.pure_def, Option.some_bind] at h
  obtain ⟨⟨c, x⟩, -, h⟩ := Option.bind_eq_some.1 h
  split at h
  · cases h; exact .of_keeps (.refl hf) rfl rfl rfl
  rename_i od oname _
  have k₀ := (Keeps.refl (K := K) hf).vref od
  obtain ⟨_, h⟩ | ⟨_, h⟩ := ite_eq_iff.1 h
  · exact callOk_vput k₀ h (by abel) rfl rfl
  obtain ⟨_, h⟩ | ⟨_, h⟩ := ite_eq_iff.1 h
  · exact callOk_vput k₀ h (by abel) rfl rfl
  split at h
  · exact callOk_vput k₀ h (by abel) rfl rfl
  rename_i nd nname _
  have k₁ := k₀.vref nd
  obtain ⟨_, h⟩ | ⟨_, h⟩ := ite_eq_iff.1 h
  · exact callOk_vput_vput k₁ h (by abel) rfl rfl
  obtain ⟨_, h⟩ | ⟨_, h⟩ := ite_eq_iff.1 h
  · exact callOk_vput_vput k₁ h (by abel) rfl rfl
  obtain ⟨_, h⟩ | ⟨_, h⟩ := ite_eq_iff.1 h
  · exact callOk_vput_vput k₁ h (by abel) rfl rfl
  obtain ⟨s₁, h₁, h⟩ := Option.bind_eq_some.1 h
  obtain ⟨s₂, h₂, h⟩ := Option.bind_eq_some.1 h
  exact callOk_vput_vput ((k₁.vlockInOrder h₁).vunlockInOrder h₂) h (by abel) rfl (by abel)

theorem doStat_ok (hf : s.table.Fresh) {path : String}
    (h : doStat fs s path = some (r, s')) : CallOk K s s' r := by
  simp only [doStat, Option.bind_eq_bind, Option.pure_def, Option.some_bind] at h
  obtain ⟨_, h⟩ | ⟨_, h⟩ := ite_eq_iff.1 h
  · cases h; exact .of_keeps (.refl hf) rfl rfl rfl
  obtain ⟨⟨c, x⟩, -, h⟩ := Option.bind_eq_some.1 h
  split at h
  · cases h; exact .of_keeps (.refl hf) rfl rfl rfl
  rename_i v _
  have k₀ := (Keeps.refl (K := K) hf).vref v
  obtain ⟨_, h⟩ | ⟨_, h⟩ := ite_eq_iff.1 h
  · exact callOk_vput k₀ h (by abel) rfl rfl
  obtain ⟨s₁, h₁, h⟩ := Option.bind_eq_some.1 h
  obtain ⟨s₂, h₂, h⟩ := Option.bind_eq_some.1 h
  exact callOk_vput ((k₀.vlock h₁).vunlock h₂) h (by abel) rfl (by abel)

theorem doMknod_ok (hf : s.table.Fresh) {path : String} {mode : VType} {devid : Nat}
    (h : doMknod fs s path mode devid = some (r, s')) : CallOk K s s' r := by
  simp only [doMknod, Option.bind_eq_bind, Option.pure_def, Option.some_bind] at h
  obtain ⟨_, h⟩ | ⟨_, h⟩ := ite_eq_iff.1 h
  · cases h; exact .of_keeps (.refl hf) rfl rfl rfl
  obtain ⟨_, h⟩ | ⟨_, h⟩ := ite_eq_iff.1 h
  · cases h; exact .of_keeps (.refl hf) rfl rfl rfl
  obtain ⟨⟨c, x⟩, -, h⟩ := Option.bind_eq_some.1 h
  split at h
  · cases h; exact .of_keeps (.refl hf) rfl rfl rfl
  · exact callOk_vput ((Keeps.refl (K := K) hf).vref _) h (by abel) rfl rfl

theorem Keeps.proc (hk : Keeps K s s' dv df dh) : s'.proc = s.proc := by
  simp only [Vfs.proc, hk.curproc, hk.procs]

theorem doChdir_ok (hf : s.table.Fresh) {path : String}
    (h : doChdir fs s path = some (r, s')) : CallOk K s s' r := by
  simp only [doChdir, Option.bind_eq_bind, Option.pure_def, Option.some_bind] at h
  obtain ⟨_, h⟩ | ⟨_, h⟩ := ite_eq_iff.1 h
  · cases h; exact .of_keeps (.refl hf) rfl rfl rfl
  obtain ⟨⟨c, x⟩, hp, h⟩ := Option.bind_eq_some.1 h
  split at h
  · cases h; exact .of_keeps (.refl hf) rfl rfl rfl
  rename_i v _
  have k₀ := (Keeps.refl (K := K) hf).vref v
  obtain ⟨_, h⟩ | ⟨_, h⟩ := ite_eq_iff.1 h
  · exact callOk_vput k₀ h (by abel) rfl rfl
  obtain ⟨old, hold, h⟩ := Option.bind_eq_some.1 h
  obtain ⟨h', rfl⟩ := bind_pair_eq_some h
  have m₁ := k₀.toMoves.trans (setCwd_moves (s := s.vref v) k₀.fresh (proc_eq_some.1 hp).2 v)
  exact .of_moves (m₁.trans (vput_keeps m₁.fresh h').toMoves) (by rw [hold]; simp)
    (by simp) (by simp)

theorem getEmptyFd_ok {x : Proc} {fd : Nat} (h : getEmptyFd K x = .ok fd) :
    fd < K.nfiles ∧ x.pFiles fd = none := by
  unfold getEmptyFd at h
  split at h
  · rename_i hfd
    cases h
    exact ⟨List.mem_range.1 (List.mem_of_find?_eq_some hfd), by simpa using List.find?_some hfd⟩
  · cases h

theorem doClose_ok (hf : s.table.Fresh) {fd : Int} (h : doClose K s fd = some (r, s')) :
    CallOk K s s' r := by
  simp only [doClose, Option.bind_eq_bind, Option.pure_def, Option.some_bind] at h
  obtain ⟨_, h⟩ | ⟨_, h⟩ := ite_eq_iff.1 h
  · cases h; exact .of_keeps (.refl hf) rfl rfl rfl
  obtain ⟨⟨c, x⟩, hp, h⟩ := Option.bind_eq_some.1 h
  split at h
  · cases h; exact .of_keeps (.refl hf) rfl rfl rfl
  rename_i f hx
  dsimp only at hx
  obtain ⟨h', rfl⟩ := bind_pair_eq_some h
  have m₁ := setSlot_moves (K := K) hf (proc_eq_some.1 hp).2 (i := fd.toNat) (by omega) none
  exact .of_moves (m₁.trans (fput_keeps m₁.fresh h').toMoves) (by simp) (by simp [hx]) (by simp)

theorem doDup_ok (hf : s.table.Fresh) {fd : Int} (h : doDup K s fd = some (r, s')) :
    CallOk K s s' r := by
  simp only [doDup, Option.bind_eq_bind, Option.pure_def, Option.some_bind] at h
  obtain ⟨_, h⟩ | ⟨_, h⟩ := ite_eq_iff.1 h
  · cases h; exact .of_keeps (.refl hf) rfl rfl rfl
  obtain ⟨⟨c, x⟩, hp, h⟩ := Option.bind_eq_some.1 h
  split at h
  · cases h; exact .of_keeps (.refl hf) rfl rfl rfl
  rename_i f hx
  split at h
  · cases h; exact .of_keeps (.refl hf) rfl rfl rfl
  rename_i nfd hnfd
  dsimp only at hnfd
  obtain ⟨hi, hnone⟩ := getEmptyFd_ok hnfd
  obtain ⟨s₁, h₁, h⟩ := Option.bind_eq_some.1 h
  cases h
  have k₁ := fref_keeps (K := K) hf h₁
  have m₂ := k₁.toMoves.trans
    (setSlot_moves k₁.fresh (by rw [k₁.procs]; exact (proc_eq_some.1 hp).2) hi (some f))
  exact .of_moves m₂ (by simp) (by simp [hnone]) (by simp)

theorem doDup2_ok (hf : s.table.Fresh) {ofd nfd : Int} (h : doDup2 K s ofd nfd = some (r, s')) :
    CallOk K s s' r := by
  simp only [doDup2, Option.bind_eq_bind, Option.pure_def, Option.some_bind] at h
  obtain ⟨-, h⟩ | ⟨-, h⟩ := ite_eq_iff.1 h
  · cases h; exact .of_keeps (.refl hf) rfl rfl rfl
  obtain ⟨-, h⟩ | ⟨h₂, h⟩ := ite_eq_iff.1 h
  · cases h; exact .of_keeps (.refl hf) rfl rfl rfl
  obtain ⟨⟨c, x⟩, hp, h⟩ := Option.bind_eq_some.1 h
  split at h
  · cases h; exact .of_keeps (.refl hf) rfl rfl rfl
  rename_i f hx
  dsimp only at hx
  obtain ⟨-, h⟩ | ⟨-, h⟩ := ite_eq_iff.1 h
  · cases h; exact .of_keeps (.refl hf) rfl rfl rfl
  obtain ⟨s₁, h₁, h⟩ := Option.bind_eq_some.1 h
  dsimp only at h₁
  -- after the `do_close` of an open `nfd`, or none, `nfd` is free in `curproc`
  obtain ⟨m₁, x₁, hp₁, hn⟩ : Moves K s s₁ 0 0 0 ∧ ∃ x₁, s₁.proc = some (c, x₁) ∧
      x₁.pFiles nfd.toNat = none := by
    split_ifs at h₁ with hsome
    · obtain ⟨⟨r₁, s₂⟩, hc, rfl⟩ := Option.map_eq_some'.1 h₁
      obtain ⟨g, hg⟩ := Option.isSome_iff_exists.1 hsome
      simp only [doClose, Option.bind_eq_bind, Option.pure_def, Option.some_bind, if_neg h₂, hp,
        hg] at hc
      obtain ⟨hc, -⟩ := bind_pair_eq_some hc
      have m := setSlot_moves (K := K) hf (proc_eq_some.1 hp).2 (i := nfd.toNat) (by omega) none
      have k := fput_keeps (K := K) m.fresh hc
      refine ⟨(m.trans k.toMoves).congr (by simp) (by simp [hg]) (by simp),
        { x with pFiles := update x.pFiles nfd.toNat none }, ?_, update_same _ _ _⟩
      rw [k.proc]
      simp [Vfs.proc, setProc, (proc_eq_some.1 hp).1]
    · cases h₁
      exact ⟨.refl hf, x, hp, by simpa using hsome⟩
  obtain ⟨s₂, h₂, h⟩ := Option.bind_eq_some.1 h
  have k₂ := fref_keeps (K := K) m₁.fresh h₂
  rw [k₂.proc, hp₁, Option.some_bind, Option.some.injEq, Prod.mk.injEq] at h
  obtain ⟨rfl, rfl⟩ := h
  have m₃ := (m₁.trans k₂.toMoves).trans (setSlot_moves k₂.fresh
    (by rw [k₂.procs]; exact (proc_eq_some.1 hp₁).2) (i := nfd.toNat) (by omega) (some f))
  exact .of_moves m₃ (by simp) (by simp [hn]) (by simp)

theorem doOpen_ok (hf : s.table.Fresh) {filename : String} {oflags : OFlags}
    (h : doOpen K fs s filename oflags = some (r, s')) : CallOk K s s' r := by
  simp only [doOpen, Option.bind_eq_bind, Option.pure_def, Option.some_bind] at h
  obtain ⟨_, h⟩ | ⟨_, h⟩ := ite_eq_iff.1 h
  · cases h; exact .of_keeps (.refl hf) rfl rfl rfl
  obtain ⟨⟨c, x⟩, hp, h⟩ := Option.bind_eq_some.1 h
  split at h
  · cases h; exact .of_keeps (.refl hf) rfl rfl rfl
  rename_i fd hfd
  dsimp only at hfd
  obtain ⟨hi, hnone⟩ := getEmptyFd_ok hfd
  split at h
  · cases h; exact .of_keeps (.refl hf) rfl rfl rfl
  rename_i v _
  have k₀ := (Keeps.refl (K := K) hf).vref v
  obtain ⟨_, h⟩ | ⟨_, h⟩ := ite_eq_iff.1 h
  · exact callOk_vput k₀ h (by abel) rfl rfl
  obtain ⟨_, h⟩ | ⟨_, h⟩ := ite_eq_iff.1 h
  · exact callOk_vput k₀ h (by abel) rfl rfl
  obtain ⟨s₁, h₁, h⟩ := Option.bind_eq_some.1 h
  -- `O_TRUNC` locks and unlocks the vnode, or does nothing
  have k₁ : Keeps K s s₁ (Pi.single v 1) 0 0 := by
    split_ifs at h₁
    · obtain ⟨s₂, h₂, h₃⟩ := Option.bind_eq_some.1 h₁
      exact ((k₀.vlock h₂).vunlock h₃).congr (by simp) rfl (by simp)
    · cases h₁; exact k₀.congr (zero_add _) rfl rfl
  obtain ⟨⟨o, s₂⟩, h₂, h⟩ := Option.bind_eq_some.1 h
  obtain ⟨m₂, hnull⟩ := fcreate_moves k₁.fresh (k₁.proc.trans hp) hi hnone h₂
  cases o with
  | none =>
    obtain ⟨h', rfl⟩ := bind_pair_eq_some h
    have k₃ := vput_keeps (K := K) m₂.fresh h'
    exact ⟨((k₁.toMoves.trans m₂).trans k₃.toMoves).congr (by simp) (by simp) (by simp),
      fun _ _ => k₃.procs.trans ((hnull rfl).trans k₁.procs)⟩
  | some _ =>
    obtain ⟨h', rfl⟩ := bind_pair_eq_some h
    exact .of_moves ((k₁.toMoves.trans m₂).trans (vput_keeps m₂.fresh h').toMoves) (by simp)
      (by simp) (by simp)

theorem doRead_ok (hf : s.table.Fresh) {fd : Int} {len : Nat}
    (h : doRead K fs s fd len = some (r, s')) : CallOk K s s' r := by
  simp only [doRead, Option.bind_eq_bind, Option.pure_def, Option.some_bind] at h
  obtain ⟨_, h⟩ | ⟨_, h⟩ := ite_eq_iff.1 h
  · cases h; exact .of_keeps (.refl hf) rfl rfl rfl
  obtain ⟨⟨_ | f, s₁⟩, h₁, h⟩ := Option.bind_eq_some.1 h
  · cases h; exact .of_keeps (fget_keeps (K := K) hf h₁) rfl rfl rfl
  have k₁ := fget_keeps (K := K) hf h₁
  dsimp only at h
  obtain ⟨y, hy, h⟩ := Option.bind_eq_some.1 h
  obtain ⟨_, h⟩ | ⟨_, h⟩ := ite_eq_iff.1 h
  · exact callOk_fput k₁ h rfl (by simp) rfl
  obtain ⟨_, h⟩ | ⟨_, h⟩ := ite_eq_iff.1 h
  · exact callOk_fput k₁ h rfl (by simp) rfl
  obtain ⟨_, h⟩ | ⟨_, h⟩ := ite_eq_iff.1 h
  · exact callOk_fput k₁ h rfl (by simp) rfl
  obtain ⟨s₂, h₂, h⟩ := Option.bind_eq_some.1 h
  have hy₂ : s₂.table.files f = some y := by rw [(vlock_eq_some h₂).2]; exact hy
  have k₂ := k₁.vlock h₂
  obtain ⟨s₃, h₃, h⟩ := Option.bind_eq_some.1 h
  -- a positive count advances the position under the mutex
  have k₃ : Keeps K s s₃ 0 (optSingle (some f))
      (0 + Pi.single y.fVnode 1 + -Pi.single y.fVnode 1) := by
    split at h₃
    · split_ifs at h₃
      · exact (k₂.setPos hy₂ _).vunlock h₃
      · exact k₂.vunlock h₃
    · exact k₂.vunlock h₃
  exact callOk_fput k₃ h rfl (by simp) (by simp)

theorem doWrite_ok (hf : s.table.Fresh) {fd : Int} {len : Nat}
    (h : doWrite K fs s fd len = some (r, s')) : CallOk K s s' r := by
  simp only [doWrite, Option.bind_eq_bind, Option.pure_def, Option.some_bind] at h
  obtain ⟨_, h⟩ | ⟨_, h⟩ := ite_eq_iff.1 h
  · cases h; exact .of_keeps (.refl hf) rfl rfl rfl
  obtain ⟨⟨_ | f, s₁⟩, h₁, h⟩ := Option.bind_eq_some.1 h
  · cases h; exact .of_keeps (fget_keeps (K := K) hf h₁) rfl rfl rfl
  have k₁ := fget_keeps (K := K) hf h₁
  dsimp only at h
  obtain ⟨y, hy, h⟩ := Option.bind_eq_some.1 h
  obtain ⟨_, h⟩ | ⟨_, h⟩ := ite_eq_iff.1 h
  · exact callOk_fput k₁ h rfl (by simp) rfl
  obtain ⟨_, h⟩ | ⟨_, h⟩ := ite_eq_iff.1 h
  · exact callOk_fput k₁ h rfl (by simp) rfl
  obtain ⟨s₂, h₂, h⟩ := Option.bind_eq_some.1 h
  have hy₂ : s₂.table.files f = some y := by rw [(vlock_eq_some h₂).2]; exact hy
  have k₂ := k₁.vlock h₂
  obtain ⟨s₃, h₃, h⟩ := Option.bind_eq_some.1 h
  have k₃ : Keeps K s s₃ 0 (optSingle (some f))
      (0 + Pi.single y.fVnode 1 + -Pi.single y.fVnode 1) := by
    split at h₃
    · split_ifs at h₃
      · exact (k₂.setPos hy₂ _).vunlock h₃
      · exact (k₂.setPos hy₂ _).vunlock h₃
      · exact k₂.vunlock h₃
    · exact k₂.vunlock h₃
  exact callOk_fput k₃ h rfl (by simp) (by simp)

theorem doGetdent_ok (direntSize : Nat) (hf : s.table.Fresh) {fd : Int}
    (h : doGetdent K fs direntSize s fd = some (r, s')) : CallOk K s s' r := by
  simp only [doGetdent, Option.bind_eq_bind, Option.pure_def, Option.some_bind] at h
  obtain ⟨_, h⟩ | ⟨_, h⟩ := ite_eq_iff.1 h
  · cases h; exact .of_keeps (.refl hf) rfl rfl rfl
  obtain ⟨⟨c, x⟩, hp, h⟩ := Option.bind_eq_some.1 h
  split at h
  · cases h; exact .of_keeps (.refl hf) rfl rfl rfl
  rename_i f _
  obtain ⟨y, hy, h⟩ := Option.bind_eq_some.1 h
  obtain ⟨_, h⟩ | ⟨_, h⟩ := ite_eq_iff.1 h
  · cases h; exact .of_keeps (.refl hf) rfl rfl rfl
  obtain ⟨_, h⟩ | ⟨_, h⟩ := ite_eq_iff.1 h
  · cases h; exact .of_keeps (.refl hf) rfl rfl rfl
  obtain ⟨s₂, h₂, h⟩ := Option.bind_eq_some.1 h
  have hy₂ : s₂.table.files f = some y := by rw [(vlock_eq_some h₂).2]; exact hy
  have k₂ := vlock_keeps (K := K) hf h₂
  split at h
  · split_ifs at h
    · exact .of_keeps ((k₂.setPos hy₂ _).vunlock (bind_pair_eq_some h).1) rfl rfl (by simp)
    · exact .of_keeps (k₂.vunlock (bind_pair_eq_some h).1) rfl rfl (by simp)
  · exact .of_keeps (k₂.vunlock (bind_pair_eq_some h).1) rfl rfl (by simp)

/-- The `switch` of `do_lseek` gives back the state it was called in: for `SEEK_END` the mutex
is released as it was taken. -/
theorem lseekTarget_state {y : File} {offset whence pos : Int}
    (h : lseekTarget s y offset whence = some (some (pos, s'))) : s' = s := by
  unfold lseekTarget at h
  split at h
  · cases h; rfl
  split at h
  · cases h; rfl
  split at h
  · obtain ⟨s₁, h₁, h⟩ := Option.bind_eq_some.1 h
    obtain ⟨s₂, h₂, h⟩ := Option.bind_eq_some.1 h
    cases h
    obtain ⟨hv, rfl⟩ := vlock_eq_some h₁
    obtain ⟨-, rfl⟩ := vunlock_eq_some h₂
    simp only [update_idem]
    rw [← hv, update_eq_self]
  · cases h

theorem doLseek_ok (hf : s.table.Fresh) {fd offset whence : Int}
    (h : doLseek K s fd offset whence = some (r, s')) : CallOk K s s' r := by
  simp only [doLseek, Option.bind_eq_bind, Option.pure_def, Option.some_bind] at h
  obtain ⟨_, h⟩ | ⟨_, h⟩ := ite_eq_iff.1 h
  · cases h; exact .of_keeps (.refl hf) rfl rfl rfl
  obtain ⟨⟨c, x⟩, hp, h⟩ := Option.bind_eq_some.1 h
  split at h
  · cases h; exact .of_keeps (.refl hf) rfl rfl rfl
  rename_i f _
  obtain ⟨y, hy, h⟩ := Option.bind_eq_some.1 h
  obtain ⟨_ | ⟨pos, s₁⟩, h₁, h⟩ := Option.bind_eq_some.1 h
  · cases h; exact .of_keeps (.refl hf) rfl rfl rfl
  obtain rfl := lseekTarget_state h₁
  dsimp only at h
  obtain ⟨_, h⟩ | ⟨_, h⟩ := ite_eq_iff.1 h
  · cases h; exact .of_keeps (.refl hf) rfl rfl rfl
  · cases h; exact .of_keeps (setPos_keeps hf hy _) rfl rfl rfl

variable (direntSize : Nat)

/-- Every file system call that returns, whatever it returns, keeps the counts of `CallOk`:
each vnode reference it took is put back or held by a new file or the new cwd, each vnode it
locked is unlocked, each file's count matches its descriptor slots as before, and an error
leaves every process as it was. -/
theorem vfsCall_ok (hf : s.table.Fresh) {call : VfsCall}
    (h : vfsCall K fs nameLen direntSize s call = some (r, s')) : CallOk K s s' r := by
  cases call with
  | open_ => exact doOpen_ok fs hf h
  | read => exact doRead_ok fs hf h
  | write => exact doWrite_ok fs hf h
  | close => exact doClose_ok hf h
  | dup => exact doDup_ok hf h
  | dup2 => exact doDup2_ok hf h
  | mknod => exact doMknod_ok fs hf h
  | mkdir => exact doMkdir_ok fs nameLen hf h
  | rmdir => exact doRmdir_ok fs nameLen hf h
  | unlink => exact doUnlink_ok fs nameLen hf h
  | link => exact doLink_ok fs nameLen hf h
  | rename => exact doRename_ok fs nameLen hf h
  | chdir => exact doChdir_ok fs hf h
  | getdent => exact doGetdent_ok fs direntSize hf h
  | lseek => exact doLseek_ok hf h
  | stat => exact doStat_ok fs hf h

theorem vfsCall_ok_close_unopened :
    dotVfs.table.Fresh ∧
      vfsCall sampleConsts dotFs 256 24 dotVfs (.close 0) = some (.error .EBADF, dotVfs) ∧
      CallOk sampleConsts dotVfs dotVfs (.error .EBADF) :=
  have hf : dotVfs.table.Fresh := fun a ha =>
    ⟨update_noteq (f := fun _ => none) (show a ≠ 1 by rintro rfl; exact absurd ha (by decide)) _,
      rfl⟩
  have hc : vfsCall sampleConsts dotFs 256 24 dotVfs (.close 0) = some (.error .EBADF, dotVfs) :=
    rfl
  ⟨hf, hc, vfsCall_ok dotFs 256 24 hf hc⟩

end Vfs

end Weenix
