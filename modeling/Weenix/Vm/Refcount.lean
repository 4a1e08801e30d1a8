import Mathlib.Algebra.Order.BigOperators.Group.Finset
import Weenix.Vm.Mobj

/-!
# Reference counts and the shape of shadow chains

The two invariants of the memory-object heap, and what `mobj_ref` and `mobj_put` (with
`shadow_destructor`) do to them.

`Counted` is the reference-count discipline: the references held on an object, by its users
outside the heap (vmareas, vnodes) and by the live shadow objects, are at most its count. So an
object that a live shadow points at is never freed. `ChainInv` is the shape of `vm/shadow.c`: a
live shadow shadows an older object, and its bottom, also older, is the one `shadow_create`
computes from that object. An object whose count has reached zero is being destroyed and is
exempt from both.
-/

namespace Weenix

/-- The references an object holds, which its destructor puts: for a shadow object its
`shadowed` and `bottom_mobj` (`shadow_destructor`), for the other types none. -/
def Mobj.heldRefs (x : Mobj) : List Nat :=
  match x.moType with
  | .shadow => x.shadowed.toList ++ x.bottomMobj.toList
  | _ => []

/-- `x` with `n` more references. -/
def Mobj.addRefs (x : Mobj) (n : Nat) : Mobj := { x with moRefcount := x.moRefcount + n }

@[simp] theorem Mobj.addRefs_moRefcount (x : Mobj) (n : Nat) :
    (x.addRefs n).moRefcount = x.moRefcount + n := rfl

@[simp] theorem Mobj.addRefs_moType (x : Mobj) (n : Nat) : (x.addRefs n).moType = x.moType := rfl

@[simp] theorem Mobj.addRefs_shadowed (x : Mobj) (n : Nat) :
    (x.addRefs n).shadowed = x.shadowed := rfl

@[simp] theorem Mobj.addRefs_bottomMobj (x : Mobj) (n : Nat) :
    (x.addRefs n).bottomMobj = x.bottomMobj := rfl

@[simp] theorem Mobj.addRefs_heldRefs (x : Mobj) (n : Nat) :
    (x.addRefs n).heldRefs = x.heldRefs := rfl

@[simp] theorem Mobj.addRefs_zero (x : Mobj) : x.addRefs 0 = x := rfl

@[simp] theorem Mobj.addRefs_addRefs (x : Mobj) (i j : Nat) :
    (x.addRefs i).addRefs j = x.addRefs (i + j) := by
  simp only [Mobj.addRefs, Nat.add_assoc]

theorem Mobj.heldRefs_of_ne {x : Mobj} (h : x.moType ≠ .shadow) : x.heldRefs = [] := by
  unfold Mobj.heldRefs
  split <;> simp_all

/-- The references held by the object in a heap cell. An object whose count has reached zero is
being destroyed, and its references are being put. -/
def cellRefs : Option Mobj → List Nat
  | some x => if x.moRefcount = 0 then [] else x.heldRefs
  | none => []

theorem cellRefs_addRefs {x : Mobj} (hx : 0 < x.moRefcount) (n : Nat) :
    cellRefs (some (x.addRefs n)) = cellRefs (some x) := by
  simp [cellRefs, Nat.pos_iff_ne_zero.1 hx]

namespace Mem

/-- The count of the object at `a`, zero at a free address. -/
def refcount (m : Mem) (a : Nat) : Nat := ((m.mobjs a).map (·.moRefcount)).getD 0

/-- How many references the heap's objects hold on `a`. -/
def inRefs (m : Mem) (a : Nat) : Nat :=
  ∑ x ∈ Finset.range m.slab.next, (cellRefs (m.mobjs x)).count a

variable {m : Mem} {o a : Nat} {x : Mobj}

theorem refcount_of_mobjs (h : m.mobjs a = some x) : m.refcount a = x.moRefcount := by
  simp [refcount, h]

@[simp] theorem refcount_set (m : Mem) (o : Nat) (x : Mobj) (a : Nat) :
    (m.set o x).refcount a = if a = o then x.moRefcount else m.refcount a := by
  by_cases h : a = o <;> simp [refcount, h]

@[simp] theorem refcount_free (m : Mem) (o a : Nat) :
    (m.free o).refcount a = if a = o then 0 else m.refcount a := by
  by_cases h : a = o <;> simp [refcount, h]

theorem live_of_refcount_pos (h : 0 < m.refcount a) : ∃ x, m.mobjs a = some x ∧ 0 < x.moRefcount := by
  cases hx : m.mobjs a with
  | none => simp [refcount, hx] at h
  | some x => exact ⟨x, rfl, by simpa [refcount, hx] using h⟩

theorem refcount_eq_zero_cellRefs (h : m.refcount a = 0) : cellRefs (m.mobjs a) = [] := by
  cases hx : m.mobjs a with
  | none => rfl
  | some x => simp [cellRefs, ← refcount_of_mobjs hx, h]

/-- Replacing the cell at `o`, below the allocator's next address, moves the references held
from the old cell's to the new cell's. -/
theorem inRefs_update (m : Mem) (ho : o < m.slab.next) (v : Option Mobj) (a : Nat) :
    ({ m with mobjs := Function.update m.mobjs o v } : Mem).inRefs a +
        (cellRefs (m.mobjs o)).count a = m.inRefs a + (cellRefs v).count a := by
  have hmem : o ∈ Finset.range m.slab.next := Finset.mem_range.2 ho
  have hsum := Finset.sum_update_of_mem hmem (fun x => (cellRefs (m.mobjs x)).count a)
    ((cellRefs v).count a)
  simp only [inRefs, Finset.sum_eq_add_sum_diff_singleton hmem (fun x => (cellRefs (m.mobjs x)).count a)]
  rw [Finset.sum_congr rfl fun x _ =>
    Function.apply_update (fun _ c => (cellRefs c).count a) m.mobjs o v x, hsum]
  omega

theorem inRefs_set (ho : o < m.slab.next) (y : Mobj) (a : Nat) :
    (m.set o y).inRefs a + (cellRefs (m.mobjs o)).count a = m.inRefs a + (cellRefs (some y)).count a :=
  m.inRefs_update ho _ a

theorem inRefs_update_of_cellRefs {v : Option Mobj} (h : cellRefs v = cellRefs (m.mobjs o)) :
    ({ m with mobjs := Function.update m.mobjs o v } : Mem).inRefs = m.inRefs := by
  funext a
  refine Finset.sum_congr rfl fun x _ => ?_
  by_cases hx : x = o
  · subst hx; simp [h]
  · simp [hx]

theorem count_le_inRefs (ho : o < m.slab.next) (a : Nat) :
    (cellRefs (m.mobjs o)).count a ≤ m.inRefs a :=
  Finset.single_le_sum (fun x _ => Nat.zero_le ((cellRefs (m.mobjs x)).count a))
    (Finset.mem_range.2 ho)

end Mem

/-- The bottom `shadow_create` gives a new shadow of `s`: the bottom of `s` if `s` is a shadow
object, otherwise `s` itself. -/
def bottomOf (m : Mem) (s : Nat) : Option Nat := do
  let sx ← m.mobjs s
  if sx.moType = .shadow then sx.bottomMobj else some s

theorem bottomOf_update_ne {m : Mem} {o s : Nat} (v : Option Mobj) (h : s ≠ o) :
    bottomOf { m with mobjs := Function.update m.mobjs o v } s = bottomOf m s := by
  simp [bottomOf, h]

theorem bottomOf_live {m : Mem} {s b : Nat} (h : bottomOf m s = some b) : ∃ sx, m.mobjs s = some sx := by
  cases hs : m.mobjs s with
  | none => simp [bottomOf, hs] at h
  | some sx => exact ⟨sx, rfl⟩

/-- The references of `hs`, held outside the heap, together with those the heap's live objects
hold, are at most each object's count. -/
def Counted (m : Mem) (hs : List Nat) : Prop := ∀ a, hs.count a + m.inRefs a ≤ m.refcount a

/-- Nothing lives at or above the allocator's next address. -/
def Mem.Fresh (m : Mem) : Prop := ∀ a, m.slab.next ≤ a → m.mobjs a = none

theorem Mem.Fresh.lt_next {m : Mem} {o : Nat} {x : Mobj} (hf : m.Fresh) (hx : m.mobjs o = some x) :
    o < m.slab.next := by
  by_contra h
  rw [hf o (by omega)] at hx
  cases hx

/-- The shape of the heap: the heap is `Fresh`, and a live shadow object shadows an older object
and has the bottom `shadow_create` computes from it, also older. An object being destroyed
(count zero) is exempt. -/
structure ChainInv (m : Mem) : Prop where
  fresh : m.Fresh
  chain : ∀ x y, m.mobjs x = some y → y.moType = .shadow → 0 < y.moRefcount →
    ∃ s b, y.shadowed = some s ∧ s < x ∧ y.bottomMobj = some b ∧ b < x ∧ bottomOf m s = some b

/-- What `mobj_put` can do to a heap: counts only go down, and an object it leaves with count
zero had count zero before. -/
structure Shrinks (m m' : Mem) : Prop where
  slab : m'.slab = m.slab
  refcount : ∀ a, m'.refcount a ≤ m.refcount a
  zero : ∀ a y, m'.mobjs a = some y → y.moRefcount = 0 → ∃ x, m.mobjs a = some x ∧ x.moRefcount = 0

theorem Shrinks.refl (m : Mem) : Shrinks m m := ⟨rfl, fun _ => le_rfl, fun _ y h h0 => ⟨y, h, h0⟩⟩

theorem Shrinks.trans {m₁ m₂ m₃ : Mem} (h₁ : Shrinks m₁ m₂) (h₂ : Shrinks m₂ m₃) : Shrinks m₁ m₃ :=
  ⟨h₂.slab.trans h₁.slab, fun a => (h₂.refcount a).trans (h₁.refcount a), fun a y h h0 =>
    let ⟨_, hx, hx0⟩ := h₂.zero a y h h0
    h₁.zero a _ hx hx0⟩

section Invariants

variable {m : Mem} {hs : List Nat} {o a : Nat} {x : Mobj}

theorem ChainInv.lt_next (hc : ChainInv m) (hx : m.mobjs o = some x) : o < m.slab.next :=
  hc.fresh.lt_next hx

theorem Counted.live (hn : Counted m hs) (ha : a ∈ hs) : ∃ x, m.mobjs a = some x ∧ 0 < x.moRefcount :=
  Mem.live_of_refcount_pos (by have := hn a; have := List.count_pos_iff.2 ha; omega)

theorem Counted.held (hc : ChainInv m) (hn : Counted m hs) (hx : m.mobjs o = some x)
    (hx0 : 0 < x.moRefcount) (ha : a ∈ x.heldRefs) : ∃ z, m.mobjs a = some z ∧ 0 < z.moRefcount := by
  have h1 := m.count_le_inRefs (hc.lt_next hx) a
  have h2 : 0 < (cellRefs (m.mobjs o)).count a := by
    simpa [hx, cellRefs, Nat.pos_iff_ne_zero.1 hx0] using ha
  exact Mem.live_of_refcount_pos (by have := hn a; omega)

theorem shadow_heldRefs {y : Mobj} {s b : Nat} (ht : y.moType = .shadow) (hs : y.shadowed = some s)
    (hb : y.bottomMobj = some b) : y.heldRefs = [s, b] := by
  simp [Mobj.heldRefs, ht, hs, hb]

theorem bottomOf_set_shape {y : Mobj} (hx : m.mobjs o = some x) (ht : y.moType = x.moType)
    (hb : y.bottomMobj = x.bottomMobj) : bottomOf (m.set o y) = bottomOf m := by
  funext s
  by_cases h : s = o
  · subst h; simp [bottomOf, hx, ht, hb]
  · exact bottomOf_update_ne _ h

/-- Replacing a live object by one of the same type and bottom keeps the shape, provided the new
one, when it is a live shadow, is linked as the invariant asks. -/
theorem ChainInv.set {y : Mobj} (hc : ChainInv m) (hx : m.mobjs o = some x)
    (ht : y.moType = x.moType) (hb : y.bottomMobj = x.bottomMobj)
    (hy : y.moType = .shadow → 0 < y.moRefcount → ∃ s b, y.shadowed = some s ∧ s < o ∧
      y.bottomMobj = some b ∧ b < o ∧ bottomOf m s = some b) : ChainInv (m.set o y) := by
  have ho := hc.lt_next hx
  refine ⟨fun a ha => ?_, fun x' y' hx' ht' hy' => ?_⟩
  · rw [Mem.set_slab] at ha
    simp [show a ≠ o by omega, hc.fresh a ha]
  · rw [bottomOf_set_shape hx ht hb]
    by_cases h : x' = o
    · subst h
      simp only [Mem.set_mobjs, Function.update_same, Option.some.injEq] at hx'
      subst hx'
      exact hy ht' hy'
    · simp only [Mem.set_mobjs, Function.update_noteq h] at hx'
      exact hc.chain x' y' hx' ht' hy'

/-- Setting a new count on an object keeps the shape, provided it does not revive an object
being destroyed. -/
theorem ChainInv.setCount (hc : ChainInv m) (hx : m.mobjs o = some x) (k : Nat)
    (hk : 0 < k → 0 < x.moRefcount) : ChainInv (m.set o { x with moRefcount := k }) :=
  hc.set hx rfl rfl fun ht hy => hc.chain o x hx ht (hk hy)

/-- Freeing an object whose count is zero keeps both invariants: nobody points at it. -/
theorem ChainInv.free (hc : ChainInv m) (hn : Counted m hs) (h0 : m.refcount o = 0) :
    ChainInv (m.free o) ∧ Counted (m.free o) hs := by
  have hin : (m.free o).inRefs = m.inRefs :=
    Mem.inRefs_update_of_cellRefs (by rw [Mem.refcount_eq_zero_cellRefs h0]; rfl)
  refine ⟨⟨fun a ha => ?_, fun x' y' hx' ht hy => ?_⟩, fun a => ?_⟩
  · by_cases h : a = o
    · simp [h]
    · simpa [h] using hc.fresh a ha
  · have hne : x' ≠ o := by rintro rfl; simp at hx'
    simp only [Mem.free_mobjs, Function.update_noteq hne] at hx'
    obtain ⟨s, b, hs, hsx, hb, hbx, hsb⟩ := hc.chain x' y' hx' ht hy
    obtain ⟨z, hz, hz0⟩ := hn.held hc hx' hy (a := s) (by simp [shadow_heldRefs ht hs hb])
    have hso : s ≠ o := by
      rintro rfl
      rw [Mem.refcount_of_mobjs hz] at h0
      omega
    exact ⟨s, b, hs, hsx, hb, hbx, by rw [Mem.free, bottomOf_update_ne _ hso, hsb]⟩
  · have := hn a
    by_cases h : a = o <;> simp_all

end Invariants

/-! ## `mobj_ref` and `mobj_put` -/

section RefPut

variable {m m' : Mem} {hs : List Nat} {o a : Nat} {x : Mobj}

theorem mobjRef_eq_some (h : mobjRef m a = some m') :
    ∃ x, m.mobjs a = some x ∧ m' = m.set a (x.addRefs 1) := by
  simp only [mobjRef, Option.bind_eq_bind, Option.bind_eq_some, Option.some.injEq] at h
  obtain ⟨x, hx, rfl⟩ := h
  exact ⟨x, hx, rfl⟩

theorem Counted.addRef (hn : Counted m hs) (hx : m.mobjs a = some x) (hx0 : 0 < x.moRefcount) :
    Counted (m.set a (x.addRefs 1)) (a :: hs) := by
  have hin : (m.set a (x.addRefs 1)).inRefs = m.inRefs :=
    Mem.inRefs_update_of_cellRefs (by rw [hx, cellRefs_addRefs hx0])
  intro c
  have := hn c
  by_cases h : c = a
  · subst h
    rw [Mem.refcount_of_mobjs hx] at this
    simp [hin]
    omega
  · simpa [hin, h, Ne.symm h] using this

theorem mobjRef_inv (hc : ChainInv m) (hn : Counted m hs) (ha : a ∈ hs) (h : mobjRef m a = some m') :
    ChainInv m' ∧ Counted m' (a :: hs) ∧ ∀ c y, m'.mobjs c = some y → ∃ x, m.mobjs c = some x ∧ y = x.addRefs (if c = a then 1 else 0) := by
  obtain ⟨x, hx, rfl⟩ := mobjRef_eq_some h
  obtain ⟨z, hz, hz0⟩ := hn.live ha
  rw [hx] at hz
  cases hz
  refine ⟨hc.setCount hx _ fun _ => hz0, hn.addRef hx hz0, fun c y hy => ?_⟩
  by_cases hca : c = a
  · subst hca
    simp only [Mem.set_mobjs, Function.update_same, Option.some.injEq] at hy
    exact ⟨x, hx, by simp [hy]⟩
  · simp only [Mem.set_mobjs, Function.update_noteq hca] at hy
    exact ⟨y, hy, by simp [hca]⟩

/-- `mobj_put` on a live object: at one, the object's count is set to zero, the references it
holds are put in turn (`shadow_destructor`: `shadowed`, then `bottom_mobj`) and it is freed. -/
theorem mobjPut_succ {fuel : Nat} (hx : m.mobjs o = some x) :
    mobjPut (fuel + 1) m o =
      if x.moRefcount = 0 then none
      else if x.moRefcount = 1 then
        (x.heldRefs.foldlM (mobjPut fuel) (m.set o { x with moRefcount := 0 })).map (·.free o)
      else some (m.set o { x with moRefcount := x.moRefcount - 1 }) := by
  simp only [mobjPut, hx, Option.bind_eq_bind, Option.some_bind]
  by_cases h0 : x.moRefcount = 0
  · simp [h0]
  by_cases h1 : x.moRefcount = 1
  · simp only [h0, h1, if_false, if_true]
    cases ht : x.moType <;> simp only [Mobj.heldRefs, ht, List.foldlM_nil] <;> try rfl
    rcases x.shadowed with _ | s <;> rcases x.bottomMobj with _ | b <;>
      simp [Option.toList, Option.map_eq_bind, Option.bind_eq_bind, Option.bind_assoc]
  · simp [h0, h1]

/-- `mobj_put` with fuel: it drops the count, or at one sets it to zero, puts every reference the
object holds and frees it. -/
theorem mobjPut_succ_eq_some {fuel : Nat} (h : mobjPut (fuel + 1) m o = some m') :
    ∃ x, m.mobjs o = some x ∧
      (1 < x.moRefcount ∧ m' = m.set o { x with moRefcount := x.moRefcount - 1 } ∨
        x.moRefcount = 1 ∧ ∃ m₁, x.heldRefs.foldlM (mobjPut fuel)
          (m.set o { x with moRefcount := 0 }) = some m₁ ∧ m' = m₁.free o) := by
  cases hx : m.mobjs o with
  | none => simp [mobjPut, hx] at h
  | some x =>
    rw [mobjPut_succ hx] at h
    refine ⟨x, rfl, ?_⟩
    by_cases h0 : x.moRefcount = 0
    · simp [h0] at h
    by_cases h1 : x.moRefcount = 1
    · simp only [h1, one_ne_zero, if_false, if_true, Option.map_eq_some'] at h
      obtain ⟨m₁, h₁, rfl⟩ := h
      exact .inr ⟨h1, m₁, h₁, rfl⟩
    · simp only [h0, h1, if_false, Option.some.injEq] at h
      exact .inl ⟨by omega, h.symm⟩

theorem foldlM_put_inv {fuel : Nat}
    (ih : ∀ {m m' : Mem} {o : Nat} {hs : List Nat}, ChainInv m → Counted m (o :: hs) →
      mobjPut fuel m o = some m' → ChainInv m' ∧ Counted m' hs ∧ Shrinks m m')
    {l : List Nat} (hc : ChainInv m) (hn : Counted m (l ++ hs))
    (h : l.foldlM (mobjPut fuel) m = some m') : ChainInv m' ∧ Counted m' hs ∧ Shrinks m m' := by
  induction l generalizing m with
  | nil => cases h; exact ⟨hc, hn, .refl _⟩
  | cons a l ihl =>
    simp only [List.foldlM_cons, Option.bind_eq_bind, Option.bind_eq_some] at h
    obtain ⟨m₁, h₁, h⟩ := h
    obtain ⟨hc₁, hn₁, hs₁⟩ := ih hc hn h₁
    obtain ⟨hc₂, hn₂, hs₂⟩ := ihl hc₁ hn₁ h
    exact ⟨hc₂, hn₂, hs₁.trans hs₂⟩

/-- Dropping a reference from a count above one. -/
theorem mobjPut_dec_inv (hc : ChainInv m) (hn : Counted m (o :: hs)) (hx : m.mobjs o = some x)
    (h1 : 1 < x.moRefcount) :
    ChainInv (m.set o { x with moRefcount := x.moRefcount - 1 }) ∧
      Counted (m.set o { x with moRefcount := x.moRefcount - 1 }) hs ∧
      Shrinks m (m.set o { x with moRefcount := x.moRefcount - 1 }) := by
  have hin : (m.set o { x with moRefcount := x.moRefcount - 1 }).inRefs = m.inRefs :=
    Mem.inRefs_update_of_cellRefs (by
      rw [hx]
      simp only [cellRefs, show x.moRefcount - 1 ≠ 0 by omega, show x.moRefcount ≠ 0 by omega,
        if_false]
      rfl)
  refine ⟨hc.setCount hx _ fun _ => by omega, fun c => ?_, rfl, fun c => ?_, fun c y hy hy0 => ?_⟩
  · have := hn c
    by_cases h : c = o
    · subst h; rw [Mem.refcount_of_mobjs hx] at this; simp [hin] at this ⊢; omega
    · simpa [hin, h, Ne.symm h] using this
  · by_cases h : c = o
    · subst h; simp [Mem.refcount_of_mobjs hx]
    · simp [h]
  · by_cases h : c = o
    · subst h; simp at hy; rw [← hy] at hy0; simp at hy0; omega
    · simp only [Mem.set_mobjs, Function.update_noteq h] at hy; exact ⟨y, hy, hy0⟩

/-- Dropping the last reference: the object's references are put, then it is freed. -/
theorem mobjPut_last_inv (hc : ChainInv m) (hn : Counted m (o :: hs)) (hx : m.mobjs o = some x)
    (h1 : x.moRefcount = 1) :
    ChainInv (m.set o { x with moRefcount := 0 }) ∧
      Counted (m.set o { x with moRefcount := 0 }) (x.heldRefs ++ hs) := by
  have ho := hc.lt_next hx
  refine ⟨hc.setCount hx 0 fun h => absurd h (lt_irrefl 0), fun c => ?_⟩
  have h₁ := hn c
  have h₂ := m.inRefs_set ho { x with moRefcount := 0 } c
  simp only [hx, cellRefs, h1, one_ne_zero, if_false, if_true, List.count_nil] at h₂
  rw [List.count_append]
  by_cases h : c = o
  · subst h
    rw [Mem.refcount_of_mobjs hx, h1] at h₁
    simp only [List.count_cons_self] at h₁
    simp
    omega
  · simp only [List.count_cons, beq_iff_eq, Ne.symm h, if_false, Nat.add_zero] at h₁
    simp only [Mem.refcount_set, h, if_false]
    omega

theorem Shrinks.free_last (hx : m.mobjs o = some x)
    (h : Shrinks (m.set o { x with moRefcount := 0 }) m') : Shrinks m (m'.free o) := by
  refine ⟨by simp [h.slab], fun c => ?_, fun c y hy hy0 => ?_⟩
  · by_cases hc : c = o
    · simp [hc]
    · simpa [hc] using h.refcount c
  · have hc : c ≠ o := by rintro rfl; simp at hy
    simp only [Mem.free_mobjs, Function.update_noteq hc] at hy
    obtain ⟨z, hz, hz0⟩ := h.zero c y hy hy0
    simp only [Mem.set_mobjs, Function.update_noteq hc] at hz
    exact ⟨z, hz, hz0⟩

/-- `mobj_put` by a holder of a reference keeps both invariants, gives the reference up, and only
lowers counts. -/
theorem mobjPut_inv {fuel : Nat} (hc : ChainInv m) (hn : Counted m (o :: hs))
    (h : mobjPut fuel m o = some m') : ChainInv m' ∧ Counted m' hs ∧ Shrinks m m' := by
  induction fuel generalizing m m' o hs with
  | zero => cases h
  | succ fuel ih =>
    obtain ⟨x, hx, ⟨h1, rfl⟩ | ⟨h1, m₁, hput, rfl⟩⟩ := mobjPut_succ_eq_some h
    · exact mobjPut_dec_inv hc hn hx h1
    · obtain ⟨hc₀, hn₀⟩ := mobjPut_last_inv hc hn hx h1
      obtain ⟨hc₁, hn₁, hs₁⟩ := foldlM_put_inv ih hc₀ hn₀ hput
      have h0 : m₁.refcount o = 0 := Nat.le_zero.1 ((hs₁.refcount o).trans (by simp))
      obtain ⟨hc', hn'⟩ := hc₁.free hn₁ h0
      exact ⟨hc', hn', hs₁.free_last hx⟩

theorem mobjRef_mobjs (h : mobjRef m a = some m') (c : Nat) :
    m'.mobjs c = (m.mobjs c).map (·.addRefs ([a].count c)) := by
  obtain ⟨x, hx, rfl⟩ := mobjRef_eq_some h
  by_cases hc : c = a
  · subst hc; simp [hx]
  · simp [hc, Ne.symm hc]

theorem mobjRef_slab (h : mobjRef m a = some m') : m'.slab = m.slab := by
  obtain ⟨x, -, rfl⟩ := mobjRef_eq_some h
  rfl

theorem bottomOf_map_addRefs {c k : Nat} (h : m'.mobjs c = (m.mobjs c).map (·.addRefs k)) :
    bottomOf m' c = bottomOf m c := by
  cases hm : m.mobjs c <;> simp [bottomOf, h, hm]

theorem mobjRef_of_live (hx : m.mobjs a = some x) : mobjRef m a = some (m.set a (x.addRefs 1)) := by
  simp [mobjRef, hx]
  rfl

end RefPut

end Weenix
