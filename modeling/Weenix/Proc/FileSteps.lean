import Mathlib.Logic.Relation
import Weenix.Proc.System

/-!
# What the file calls do to the system

`do_open`, `do_read` and the resumption of a thread asleep in one of them are sequences of five
kinds of move (`ProcSys.FileMove`):
1. a change of the open files, the vnode counts, the descriptor slots and the allocator alone,
   the allocator going forward (`ProcSys.FileStep`);
2. `vlock`, which may sleep on the vnode's mutex;
3. `vunlock`, which hands the mutex to the thread it wakes;
4. a thread entering one of the places of these calls (`Pc.InFileCall`), or leaving it;
5. the cancellable sleep of a character device read on its device's queue.

`ProcSys.doOpen_moves`, `ProcSys.doRead_moves` and `resumeFileCall_moves` say so; each invariant
of the system then needs one lemma per kind of move.
-/

namespace Weenix

open Function Relation

/-- A process with its descriptor table cleared: what a file call leaves of it. -/
def Proc.withoutFiles (x : Proc) : Proc := { x with pFiles := fun _ => none }

/-- The places a thread can be in inside `do_open` and `do_read`, and outside any call. -/
def Pc.InFileCall : Pc → Prop
  | .run | .vput _ | .openTrunc _ _ _ | .readLock _ _ _ | .vop _ _ _ _ => True
  | _ => False

/-- `s'` differs from `s` only in open files, vnode counts, descriptor slots and the allocator,
which has not gone back. -/
structure ProcSys.FileStep (s s' : ProcSys) : Prop where
  procs : ∀ a, (s'.table.procs a).map Proc.withoutFiles = (s.table.procs a).map Proc.withoutFiles
  procList : s'.table.procList = s.table.procList
  nextPid : s'.table.nextPid = s.table.nextPid
  initproc : s'.table.initproc = s.table.initproc
  slab : s.table.slab.next ≤ s'.table.slab.next
  sched : s'.sched = s.sched
  pc : s'.pc = s.pc

/-- The moves of the file calls. -/
inductive ProcSys.FileMove : ProcSys → ProcSys → Prop
  | file {s s' : ProcSys} : FileStep s s' → FileMove s s'
  | vlock {s s' : ProcSys} {t v : Nat} {b : Bool} : vlock s t v = some (b, s') → FileMove s s'
  | vunlock {s s' : ProcSys} {t v : Nat} : vunlock s t v = some s' → FileMove s s'
  | setPc {s : ProcSys} {t : Nat} {c : Pc} : c.InFileCall → FileMove s (s.setPc t c)
  | sleep {s : ProcSys} {sc : Sched} {v : Nat} :
      schedCancellableSleepOn s.sched (deviceWaitAddr v) = some sc → FileMove s { s with sched := sc }

namespace ProcSys.FileStep

variable {s : ProcSys}

theorem of_table {tb : ProcTable}
    (hp : ∀ a, (tb.procs a).map Proc.withoutFiles = (s.table.procs a).map Proc.withoutFiles)
    (hl : tb.procList = s.table.procList) (hn : tb.nextPid = s.table.nextPid)
    (hi : tb.initproc = s.table.initproc) (hs : s.table.slab.next ≤ tb.slab.next) :
    FileStep s { s with table := tb } :=
  ⟨hp, hl, hn, hi, hs, rfl, rfl⟩

theorem files (fs : Nat → Option File) : FileStep s { s with table := { s.table with files := fs } } :=
  of_table (fun _ => rfl) rfl rfl rfl le_rfl

theorem vrefs (vs : Nat → Nat) : FileStep s { s with table := { s.table with vrefs := vs } } :=
  of_table (fun _ => rfl) rfl rfl rfl le_rfl

theorem map_procs {s' : ProcSys} (h : FileStep s s') {α : Type} {g : Proc → α}
    (hg : ∀ x, g x.withoutFiles = g x) (a : Nat) :
    (s'.table.procs a).map g = (s.table.procs a).map g := by
  simpa only [Option.map_map, comp_def, hg] using congrArg (Option.map g) (h.procs a)

theorem setFiles {a : Nat} {x : Proc} (hx : s.table.procs a = some x) (fs : Nat → Option Nat) :
    FileStep s (s.setProc a { x with pFiles := fs }) := by
  refine ⟨fun b => ?_, rfl, rfl, rfl, le_rfl, rfl, rfl⟩
  by_cases e : b = a
  · subst e; simp [hx, Proc.withoutFiles]
  · simp [e]

end ProcSys.FileStep

open ProcSys (FileMove FileStep)

theorem fileRef_files {t t' : ProcTable} {f : Nat} (h : fileRef t f = some t') :
    t' = { t with files := t'.files } := by
  simp only [fileRef, Option.bind_eq_bind, Option.bind_eq_some, Option.some.injEq] at h
  obtain ⟨x, -, rfl⟩ := h
  rfl

theorem filePut_files {t t' : ProcTable} {f : Nat} {vn : Option Nat}
    (h : filePut t f = some (vn, t')) : t' = { t with files := t'.files } := by
  simp only [filePut, Option.bind_eq_bind, Option.bind_eq_some] at h
  obtain ⟨x, -, h⟩ := h
  split at h
  · cases h
  · split at h <;>
    · simp only [Option.pure_def, Option.some_bind, Option.some.injEq, Prod.mk.injEq] at h
      rw [← h.2]

theorem vnodePutLocked_vrefs {t t' : ProcTable} {v : Nat} (h : vnodePutLocked t v = some t') :
    t' = { t with vrefs := t'.vrefs } := by
  unfold vnodePutLocked at h
  split at h
  · cases h
  · rw [← Option.some.inj h]

section Moves

variable {K : Consts} {s s' : ProcSys} {t : Nat}

theorem vnodePutLocked_move {v : Nat} {tb : ProcTable} (h : vnodePutLocked s.table v = some tb) :
    FileMove s { s with table := tb } := by
  rw [vnodePutLocked_vrefs h]; exact .file (.vrefs _)

theorem vputLast_moves {v : Nat} (h : vputLast s t v = some s') : ReflTransGen FileMove s s' := by
  simp only [vputLast, Option.bind_eq_bind, Option.bind_eq_some] at h
  obtain ⟨⟨got, s₁⟩, h₁, h⟩ := h
  split at h
  · obtain ⟨tb, htb, h⟩ := Option.bind_eq_some.1 h
    exact ((ReflTransGen.single (.vlock h₁)).tail (vnodePutLocked_move htb)).tail (.vunlock h)
  · cases h; exact (ReflTransGen.single (.vlock h₁)).tail (.setPc trivial)

theorem fputLast_moves {f : Nat} (h : fputLast s t f = some s') : ReflTransGen FileMove s s' := by
  simp only [fputLast, Option.bind_eq_bind, Option.bind_eq_some] at h
  obtain ⟨⟨vn, tb⟩, htb, h⟩ := h
  have m : FileMove s { s with table := tb } := by rw [filePut_files htb]; exact .file (.files _)
  split at h
  · exact (ReflTransGen.single m).trans (vputLast_moves h)
  · cases h; exact .single m

theorem openCreate_moves {p fd v : Nat} {oflags : OFlags} (h : openCreate s t p fd v oflags = some s') :
    ReflTransGen FileMove s s' := by
  unfold openCreate at h
  rcases hal : s.table.slab.alloc with ⟨_ | f, sl⟩ <;> rw [hal] at h
  · have m : FileMove s { s with table := { s.table with slab := sl } } :=
      .file (.of_table (fun _ => rfl) rfl rfl rfl (by simp [Slab.alloc_next hal]))
    exact (ReflTransGen.single m).trans (vputLast_moves h)
  · obtain ⟨x, hx, h⟩ := Option.bind_eq_some.1 h
    set file : File := ⟨v, oflags.fmode, 0, 1⟩
    set u : ProcSys :=
      { s with table := vnodeRef { s.table with slab := sl, files := update s.table.files f (some file) } v }
    have m₁ : FileMove s u := .file (.of_table (fun _ => rfl) rfl rfl rfl
      (by simp [u, vnodeRef, Slab.alloc_next hal]))
    have m₂ : FileMove u (u.setProc p { x with pFiles := update x.pFiles fd (some f) }) :=
      .file (.setFiles (show u.table.procs p = some x from hx) _)
    exact ((ReflTransGen.single m₁).tail m₂).trans (vputLast_moves h)

theorem advancePos_moves {f : Nat} {x : File} {r : Except Errno Nat} :
    ReflTransGen FileMove s (s.advancePos f x r) := by
  unfold ProcSys.advancePos
  split
  · split
    · exact .single (.file (.files _))
    · exact .refl
  · exact .refl

theorem readDone_moves {f v : Nat} {r : Except Errno Nat} (h : readDone s t f v r = some s') :
    ReflTransGen FileMove s s' := by
  simp only [readDone, Option.bind_eq_bind, Option.bind_eq_some] at h
  obtain ⟨x, -, s₁, h₁, h⟩ := h
  exact (advancePos_moves.tail (.vunlock h₁)).trans (fputLast_moves h)

theorem readOp_moves {f v len : Nat} (h : readOp s t f v len = some s') :
    ReflTransGen FileMove s s' := by
  simp only [readOp, Option.bind_eq_bind, Option.bind_eq_some] at h
  obtain ⟨x, -, h⟩ := h
  split at h
  · obtain ⟨sc, hs, h⟩ := Option.bind_eq_some.1 h
    cases h
    exact (ReflTransGen.single (.setPc trivial)).tail (.sleep hs)
  · exact readDone_moves h

theorem ProcSys.doOpen_moves {p : Nat} {filename : String} {oflags : OFlags}
    (h : ProcSys.doOpen K s t p filename oflags = some s') : ReflTransGen FileMove s s' := by
  unfold ProcSys.doOpen at h
  obtain ⟨-, h⟩ | ⟨-, h⟩ := ite_eq_iff.1 h
  · cases h; exact .refl
  obtain ⟨x, -, h⟩ := Option.bind_eq_some.1 h
  split at h
  · cases h; exact .refl
  rename_i fd _
  split at h
  · cases h; exact .refl
  rename_i v _
  have m : ReflTransGen FileMove s { s with table := vnodeRef s.table v } := .single (.file (.vrefs _))
  obtain ⟨-, h⟩ | ⟨-, h⟩ := ite_eq_iff.1 h
  · exact m.trans (vputLast_moves h)
  obtain ⟨-, h⟩ | ⟨-, h⟩ := ite_eq_iff.1 h
  · exact m.trans (vputLast_moves h)
  obtain ⟨-, h⟩ | ⟨-, h⟩ := ite_eq_iff.1 h
  · obtain ⟨⟨got, s₁⟩, h₁, h⟩ := Option.bind_eq_some.1 h
    have m₁ := m.tail (.vlock h₁)
    obtain ⟨-, h⟩ | ⟨-, h⟩ := ite_eq_iff.1 h
    · obtain ⟨s₂, h₂, h⟩ := Option.bind_eq_some.1 h
      exact (m₁.tail (.vunlock h₂)).trans (openCreate_moves h)
    · cases h; exact m₁.tail (.setPc trivial)
  · exact m.trans (openCreate_moves h)

theorem ProcSys.doRead_moves {p : Nat} {fd : Int} {len : Nat}
    (h : ProcSys.doRead K s t p fd len = some s') : ReflTransGen FileMove s s' := by
  unfold ProcSys.doRead at h
  obtain ⟨-, h⟩ | ⟨-, h⟩ := ite_eq_iff.1 h
  · cases h; exact .refl
  obtain ⟨x, -, h⟩ := Option.bind_eq_some.1 h
  rcases hf : x.pFiles fd.toNat with _ | f <;>
    simp only [hf, Option.bind_eq_bind, Option.bind_eq_some] at h
  · cases h; exact .refl
  obtain ⟨tb, htb, y, -, h⟩ := h
  have m : ReflTransGen FileMove s { s with table := tb } := by
    rw [fileRef_files htb]; exact .single (.file (.files _))
  obtain ⟨-, h⟩ | ⟨-, h⟩ := ite_eq_iff.1 h
  · exact m.trans (fputLast_moves h)
  obtain ⟨-, h⟩ | ⟨-, h⟩ := ite_eq_iff.1 h
  · exact m.trans (fputLast_moves h)
  obtain ⟨-, h⟩ | ⟨-, h⟩ := ite_eq_iff.1 h
  · exact m.trans (fputLast_moves h)
  obtain ⟨⟨got, s₁⟩, h₁, h⟩ := Option.bind_eq_some.1 h
  have m₁ := m.tail (.vlock h₁)
  obtain ⟨-, h⟩ | ⟨-, h⟩ := ite_eq_iff.1 h
  · exact m₁.trans (readOp_moves h)
  · cases h; exact m₁.tail (.setPc trivial)

theorem resumeFileCall_moves {c : Pc} (h : resumeFileCall s t c = some s') :
    ReflTransGen FileMove s s' := by
  have m₀ : FileMove s (s.setPc t .run) := .setPc trivial
  unfold resumeFileCall at h
  split at h
  · obtain ⟨tb, htb, h⟩ := Option.bind_eq_some.1 h
    exact ((ReflTransGen.single m₀).tail (vnodePutLocked_move htb)).tail (.vunlock h)
  · obtain ⟨s₁, h₁, h⟩ := Option.bind_eq_some.1 h
    exact ((ReflTransGen.single m₀).tail (.vunlock h₁)).trans (openCreate_moves h)
  · exact (ReflTransGen.single m₀).trans (readOp_moves h)
  · obtain ⟨x, -, h⟩ := Option.bind_eq_some.1 h
    exact (ReflTransGen.single m₀).trans (readDone_moves h)
  · cases h

end Moves

end Weenix
