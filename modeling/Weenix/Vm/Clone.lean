import Weenix.Vm.Refcount
import Weenix.Vm.Vmmap

/-!
# `vmmap_insert` and `vmmap_clone`

The sorted insertion of `vmmap_insert` over every list, and the two outcomes of `vmmap_clone`
over every well-formed address space (`vm/vmmap.c`).

1. `vmmap_insert` puts the vmarea before the first one that starts later, or at the tail
   (`vmareaInsert_split`). The result holds every old vmarea once (`vmareaInsert_perm`), stays
   sorted (`vmareaInsert_sorted`), and its ranges stay pairwise disjoint when the old ones are
   and the new range meets none of them (`vmareaInsert_disjoint`); a well-formed address space
   stays well-formed (`WellFormed.insert`). The disjointness of the old ranges is needed: inserting
   into a sorted list of overlapping ranges leaves them overlapping.
   Its `KASSERT`s hold for a vmarea inside user memory, and only for one.
2. `vmmap_clone` copies the vmareas of a sorted list in order, each at the tail of the copy
   (`vmmapInsert_of_le`). It returns the copy, position by position the source's vmareas with the
   new map as back pointer, with one more reference on each object per vmarea using it; or, when
   an allocation fails, `NULL`, after `vmmap_destroy` has put back every reference the copy took
   and freed every vmarea of the copy and the map itself (`vmmapCloneList_outcome`).
-/

namespace Weenix

open List

/-! ## Sorted insertion -/

section Insert

variable {v : Vmarea}

/-- `vmmap_insert` inserts before the first vmarea that starts later, at the tail if none does. -/
theorem vmareaInsert_split (v : Vmarea) : ∀ l : List Vmarea, ∃ l₁ l₂, l = l₁ ++ l₂ ∧
    vmareaInsert v l = l₁ ++ v :: l₂ ∧ (∀ w ∈ l₁, w.vmaStart ≤ v.vmaStart) ∧
    ∀ w ∈ l₂.head?, v.vmaStart < w.vmaStart
  | [] => ⟨[], [], rfl, rfl, by simp, by simp⟩
  | w :: ws => by
    unfold vmareaInsert
    split
    · exact ⟨[], w :: ws, rfl, rfl, by simp, by simpa⟩
    · obtain ⟨l₁, l₂, rfl, h, h₁, h₂⟩ := vmareaInsert_split v ws
      refine ⟨w :: l₁, l₂, rfl, by rw [h]; rfl, ?_, h₂⟩
      rintro u (_ | ⟨_, hu⟩)
      · omega
      · exact h₁ u hu

theorem vmareaInsert_perm (v : Vmarea) (l : List Vmarea) : vmareaInsert v l ~ v :: l := by
  obtain ⟨l₁, l₂, rfl, h, -⟩ := vmareaInsert_split v l
  rw [h]
  exact perm_middle

theorem vmareaInsert_sorted : ∀ {l : List Vmarea}, l.Pairwise (·.vmaStart ≤ ·.vmaStart) →
    (vmareaInsert v l).Pairwise (·.vmaStart ≤ ·.vmaStart)
  | [], _ => pairwise_singleton _ _
  | w :: ws, h => by
    rw [pairwise_cons] at h
    unfold vmareaInsert
    split
    · refine pairwise_cons.2 ⟨fun u hu => ?_, pairwise_cons.2 h⟩
      rcases mem_cons.1 hu with rfl | hu
      · omega
      · exact Nat.le_of_lt (Nat.lt_of_lt_of_le ‹_› (h.1 u hu))
    · refine pairwise_cons.2 ⟨fun u hu => ?_, vmareaInsert_sorted h.2⟩
      rcases mem_vmareaInsert.1 hu with rfl | hu
      · omega
      · exact h.1 u hu

theorem RangeDisjoint.symm {w : Vmarea} (h : RangeDisjoint v w) : RangeDisjoint w v := Or.symm h

theorem vmareaInsert_disjoint {l : List Vmarea} (hl : l.Pairwise RangeDisjoint)
    (hv : ∀ w ∈ l, RangeDisjoint v w) : (vmareaInsert v l).Pairwise RangeDisjoint :=
  ((vmareaInsert_perm v l).pairwise_iff RangeDisjoint.symm).2 (pairwise_cons.2 ⟨hv, hl⟩)

variable (K : Consts)

theorem vmareaInsert_of_le {l : List Vmarea} (h : ∀ w ∈ l, w.vmaStart ≤ v.vmaStart) :
    vmareaInsert v l = l ++ [v] := by
  obtain ⟨l₁, l₂, rfl, hi, -, h₂⟩ := vmareaInsert_split v l
  cases l₂ with
  | nil => simpa using hi
  | cons u us =>
    have := h u (mem_append_right _ (mem_cons_self u us))
    have := h₂ u rfl
    omega

end Insert

/-! ## `vmmap_clone` -/

/-- The fields of a vmarea that `vmmap_clone` copies into the new map: all but its address and
back pointer. -/
def Vmarea.shape (v : Vmarea) : Nat × Nat × Nat × Prot × MapFlags × Option Nat :=
  (v.vmaStart, v.vmaEnd, v.vmaOff, v.vmaProt, v.vmaFlags, v.vmaObj)

/-- The objects the vmareas of a list reference, one entry per vmarea. -/
def objsOf (l : List Vmarea) : List Nat := l.filterMap (·.vmaObj)

theorem objsOf_subset {l₁ l₂ : List Vmarea} (h : l₁ <+ l₂) : objsOf l₁ ⊆ objsOf l₂ :=
  (h.filterMap _).subset

/-- The heap `m` is `m₀` with one more reference per entry of `os` on each object. -/
def Mem.Counts (m₀ m : Mem) (os : List Nat) : Prop :=
  ∀ c, m.mobjs c = (m₀.mobjs c).map (·.addRefs (os.count c))

section Clone

variable {m₀ m : Mem} {os : List Nat} {o : Nat} {x : Mobj}

theorem Mem.Counts.nil_iff : m₀.Counts m [] ↔ m.mobjs = m₀.mobjs := by
  simp only [Mem.Counts, count_nil, Mobj.addRefs_zero, Option.map_id']
  exact ⟨funext, fun h c => congrFun h c⟩

theorem Mem.Counts.ref (h : m₀.Counts m os) (hx : m₀.mobjs o = some x) :
    ∃ m', mobjRef m o = some m' ∧ m₀.Counts m' (os ++ [o]) ∧ m'.slab = m.slab ∧
      m'.freed = m.freed := by
  have hm : m.mobjs o = some (x.addRefs (os.count o)) := by rw [h o, hx]; rfl
  refine ⟨_, mobjRef_of_live hm, fun c => ?_, rfl, rfl⟩
  by_cases hc : c = o
  · subst hc; simp [hx, count_append]
  · simp [Function.update_noteq hc, h c, count_append, count_cons, Ne.symm hc]

/-- `mobj_put` of a reference the heap counts on an object with a reference of its own drops
that entry and frees nothing. -/
theorem Mem.Counts.put (h : m₀.Counts m (o :: os)) (hx : m₀.mobjs o = some x)
    (hx0 : 0 < x.moRefcount) :
    ∃ m', mobjPutAll m o = some m' ∧ m₀.Counts m' os ∧ m'.slab = m.slab ∧ m'.freed = m.freed := by
  have hm : m.mobjs o = some (x.addRefs (os.count o + 1)) := by rw [h o, hx]; simp
  have h1 : (x.addRefs (os.count o + 1)).moRefcount ≠ 1 := by simp; omega
  have hy : { x.addRefs (os.count o + 1) with
      moRefcount := (x.addRefs (os.count o + 1)).moRefcount - 1 } = x.addRefs (os.count o) := by
    simp only [Mobj.addRefs_moRefcount, Mobj.addRefs]
    congr 1
  have hput : mobjPutAll m o = some (m.set o (x.addRefs (os.count o))) := by
    rw [mobjPutAll, mobjPut_succ hm, if_neg (by simp), if_neg h1, hy]
  refine ⟨_, hput, fun c => ?_, rfl, rfl⟩
  by_cases hc : c = o
  · subst hc; simp [hx]
  · simp [Function.update_noteq hc, h c, count_cons, Ne.symm hc]

/-- The loop of `vmmap_destroy` over a copy whose references the heap counts, on objects each
with a reference of its own, puts them all back and frees every vmarea of the copy. -/
theorem vmareasFree_restores : ∀ {acc : List Vmarea} {m : Mem}, m₀.Counts m (objsOf acc) →
    (∀ o ∈ objsOf acc, ∃ x, m₀.mobjs o = some x ∧ 0 < x.moRefcount) →
    ∃ m', vmareasFree m acc = some m' ∧ m'.mobjs = m₀.mobjs ∧ m'.slab = m.slab ∧
      m'.freed = (acc.map (·.vmaId)).reverse ++ m.freed
  | [], m, h, _ => ⟨m, rfl, Mem.Counts.nil_iff.1 h, rfl, rfl⟩
  | v :: vs, m, h, hl => by
    have hvs : ∀ o ∈ objsOf vs, ∃ x, m₀.mobjs o = some x ∧ 0 < x.moRefcount :=
      fun o ho => hl o (objsOf_subset (sublist_cons_self v vs) ho)
    rcases hv : v.vmaObj with _ | o
    · have h' : m₀.Counts (m.slabObjFree v.vmaId) (objsOf vs) := fun c => by
        simpa [objsOf, hv] using h c
      obtain ⟨m', hf, hm', hs, hfr⟩ := vmareasFree_restores h' hvs
      exact ⟨m', by simp [vmareasFree, vmareaFree, hv, hf], hm', hs, by simp [hfr]⟩
    · have h' : m₀.Counts m (o :: objsOf vs) := by simpa [objsOf, hv] using h
      obtain ⟨x, hx, hx0⟩ := hl o (by simp [objsOf, hv])
      obtain ⟨m₁, hp, h₁, hs₁, hf₁⟩ := h'.put hx hx0
      obtain ⟨m', hf, hm', hs, hfr⟩ :=
        vmareasFree_restores (m := m₁.slabObjFree v.vmaId) h₁ hvs
      exact ⟨m', by simp [vmareasFree, vmareaFree, hv, hp, hf], hm', by simp [hs, hs₁],
        by simp [hfr, hf₁]⟩

variable (K : Consts)

theorem vmmapInsert_of_le {map : Vmmap} {v : Vmarea} (hv : InUserRange K v)
    (h : ∀ w ∈ map.vmmList, w.vmaStart ≤ v.vmaStart) :
    vmmapInsert K map v = some ⟨map.vmmId, map.vmmList ++ [{ v with vmaVmmap := map.vmmId }]⟩ := by
  rw [vmmapInsert, if_pos hv, vmareaInsert_of_le (v := { v with vmaVmmap := map.vmmId }) h]

/-- The loop of `vmmap_clone`: it copies the rest of the list with one reference more per copy;
or, when an allocation fails, frees what it allocated and restores every count. -/
theorem vmmapCloneList_outcome (lo : Nat) (oom : Nat → Bool) :
    ∀ (l : List Vmarea) (new : Vmmap) {m : Mem}, m₀.Counts m (objsOf new.vmmList) →
    (∀ o ∈ objsOf (new.vmmList ++ l), ∃ x, m₀.mobjs o = some x ∧ 0 < x.moRefcount) →
    (∀ w ∈ new.vmmList, w.vmaVmmap = new.vmmId) →
    ((new.vmmList ++ l).map (·.vmaStart)).Pairwise (· ≤ ·) → (∀ v ∈ l, InUserRange K v) →
    m.slab.oom = oom →
    (∀ a, lo ≤ a → a < m.slab.next → oom a = false →
      a = new.vmmId ∨ a ∈ new.vmmList.map (·.vmaId)) →
    ∃ r m', vmmapCloneList K m new l = some (r, m') ∧
      ((r = none ∧ m'.mobjs = m₀.mobjs ∧
          ∀ a, lo ≤ a → a < m'.slab.next → oom a = false → a ∈ m'.freed) ∨
        ∃ c, r = some c ∧ c.vmmId = new.vmmId ∧
          c.vmmList.map Vmarea.shape = (new.vmmList ++ l).map Vmarea.shape ∧
          (∀ w ∈ c.vmmList, w.vmaVmmap = new.vmmId) ∧ m₀.Counts m' (objsOf (new.vmmList ++ l)))
  | [], new, m, h, _, hid, _, _, _, _ =>
    ⟨_, _, rfl, .inr ⟨new, rfl, rfl, by simp, hid, by simpa using h⟩⟩
  | v :: vs, new, m, h, hl, hid, hs, hr, hoom, hout => by
    rcases hal : m.slab.alloc with ⟨_ | a, sl⟩
    · -- the allocation fails: `vmmap_destroy` of the new map
      have hacc : ∀ o ∈ objsOf new.vmmList, ∃ x, m₀.mobjs o = some x ∧ 0 < x.moRefcount :=
        fun o ho => hl o (objsOf_subset (sublist_append_left _ _) ho)
      obtain ⟨m', hf, hm', hs', hfr⟩ := vmareasFree_restores (m := { m with slab := sl }) h hacc
      refine ⟨none, m'.slabObjFree new.vmmId, by simp [vmmapCloneList, hal, vmmapDestroy, hf],
        .inl ⟨rfl, hm', ?_⟩⟩
      intro b hlo hb hb0
      have hnb : b ≠ m.slab.next := fun e => by
        rw [e, ← hoom, Slab.alloc_eq_none hal] at hb0; cases hb0
      have hb' : b < m.slab.next := by
        simp only [Mem.slabObjFree_slab, hs'] at hb
        have := Slab.alloc_next hal
        omega
      rcases hout b hlo hb' hb0 with rfl | hb''
      · exact mem_cons_self _ _
      · simp [hfr, hb'']
    -- the copy `v'` of `v` goes at the tail, after a reference on `v`'s object
    obtain ⟨rfl, hn⟩ := Slab.alloc_eq_some hal
    set v' : Vmarea := { v with vmaId := m.slab.next, vmaVmmap := new.vmmId }
    have hle : ∀ w ∈ new.vmmList, w.vmaStart ≤ v.vmaStart := fun w hw => by
      simp only [map_append, map_cons, pairwise_append, mem_map, mem_cons] at hs
      exact hs.2.2 _ ⟨w, hw, rfl⟩ _ (.inl rfl)
    have hins : vmmapInsert K new { v with vmaId := m.slab.next } =
        some ⟨new.vmmId, new.vmmList ++ [v']⟩ :=
      vmmapInsert_of_le K (hr v (mem_cons_self _ _)) hle
    have hstep : ∃ m₁, vmmapCloneList K m new (v :: vs) =
        vmmapCloneList K m₁ ⟨new.vmmId, new.vmmList ++ [v']⟩ vs ∧
        m₀.Counts m₁ (objsOf (new.vmmList ++ [v'])) ∧ m₁.slab = sl := by
      rw [vmmapCloneList, hal]
      dsimp only
      split
      · rename_i o hv
        obtain ⟨x, hx, -⟩ := hl o (by simp [objsOf, hv])
        obtain ⟨m₁, hr₁, h₁, hs₁, -⟩ := Mem.Counts.ref (m := { m with slab := sl }) h hx
        exact ⟨m₁, by simp only [hr₁, hins, Option.some_bind]; rfl,
          by simpa [objsOf, v', hv] using h₁, hs₁⟩
      · rename_i hv
        exact ⟨_, by simp only [hins, Option.some_bind]; rfl, by simpa [objsOf, v', hv] using h, rfl⟩
    obtain ⟨m₁, hstep, h₁, hs₁⟩ := hstep
    have hobj : objsOf (new.vmmList ++ [v'] ++ vs) = objsOf (new.vmmList ++ v :: vs) := by
      simp only [objsOf, append_assoc, singleton_append, filterMap_append, filterMap_cons]
    obtain ⟨r, m', hc, hres⟩ := vmmapCloneList_outcome lo oom vs
      ⟨new.vmmId, new.vmmList ++ [v']⟩ h₁ (hobj ▸ hl)
      (fun w hw => (mem_append.1 hw).elim (hid w) fun hw => by rw [mem_singleton.1 hw])
      (by simpa [v'] using hs) (fun w hw => hr w (mem_cons_of_mem _ hw))
      (by rw [hs₁, Slab.alloc_oom hal, hoom])
      (fun b hlo hb hb0 => by
        rw [hs₁, hn] at hb
        rcases Nat.lt_succ_iff_lt_or_eq.1 hb with hb | rfl
        · rcases hout b hlo hb hb0 with e | hb'
          · exact .inl e
          · exact .inr (by simp only [map_append, mem_append]; exact .inl hb')
        · exact .inr (by simp [v']))
    refine ⟨r, m', hstep.trans hc, ?_⟩
    rcases hres with hres | ⟨c, rfl, hcid, hsh, hid', hc'⟩
    · exact .inl hres
    · exact .inr ⟨c, rfl, hcid, by simpa [Vmarea.shape, v'] using hsh, hid', hobj ▸ hc'⟩

end Clone

/-! ## The two calls -/

/-- A private read-write vmarea at address `id` over pages `[start, end_)`, on object `o`. -/
def privateArea (id start end_ : Nat) (o : Option Nat) : Vmarea :=
  ⟨id, start, end_, 0, ⟨true, true, false⟩, ⟨false, true, false, false⟩, o, 0⟩

/-- `vmmap_insert` of a vmarea in user memory into a list sorted by `vma_start` passes its
`KASSERT`s: the vmarea, with the map as back pointer, goes before the first vmarea that starts
later, or at the tail; the list stays sorted and holds every old vmarea once; and when the old
ranges are pairwise disjoint and the new one meets none of them, the ranges stay pairwise
disjoint. -/
theorem vmmap_insert_sorted (K : Consts) (map : Vmmap) (v : Vmarea) (hv : InUserRange K v)
    (hl : map.vmmList.Pairwise (·.vmaStart ≤ ·.vmaStart)) :
    ∃ map', vmmapInsert K map v = some map' ∧ map'.vmmId = map.vmmId ∧
      (∃ l₁ l₂, map.vmmList = l₁ ++ l₂ ∧
        map'.vmmList = l₁ ++ { v with vmaVmmap := map.vmmId } :: l₂ ∧
        (∀ w ∈ l₁, w.vmaStart ≤ v.vmaStart) ∧ ∀ w ∈ l₂.head?, v.vmaStart < w.vmaStart) ∧
      map'.vmmList.Pairwise (·.vmaStart ≤ ·.vmaStart) ∧
      map'.vmmList ~ { v with vmaVmmap := map.vmmId } :: map.vmmList ∧
      (map.vmmList.Pairwise RangeDisjoint → (∀ w ∈ map.vmmList, RangeDisjoint v w) →
        map'.vmmList.Pairwise RangeDisjoint) :=
  ⟨_, if_pos hv, rfl, vmareaInsert_split _ _, vmareaInsert_sorted hl, vmareaInsert_perm _ _,
    fun hd hv => vmareaInsert_disjoint hd hv⟩

/-- Pages `[1026, 1027)` go between `[1024, 1025)` and `[1030, 1031)`. -/
theorem vmmap_insert_sorted_middle :
    InUserRange sampleConsts (privateArea 5 1026 1027 none) ∧
    [privateArea 1 1024 1025 none, privateArea 3 1030 1031 none].Pairwise
      (·.vmaStart ≤ ·.vmaStart) ∧
    ∃ map', vmmapInsert sampleConsts
        ⟨0, [privateArea 1 1024 1025 none, privateArea 3 1030 1031 none]⟩
        (privateArea 5 1026 1027 none) = some map' ∧ map'.vmmId = 0 ∧
      (∃ l₁ l₂, [privateArea 1 1024 1025 none, privateArea 3 1030 1031 none] = l₁ ++ l₂ ∧
        map'.vmmList = l₁ ++ privateArea 5 1026 1027 none :: l₂ ∧
        (∀ w ∈ l₁, w.vmaStart ≤ 1026) ∧ ∀ w ∈ l₂.head?, 1026 < w.vmaStart) ∧
      map'.vmmList.Pairwise (·.vmaStart ≤ ·.vmaStart) ∧
      map'.vmmList ~ privateArea 5 1026 1027 none ::
        [privateArea 1 1024 1025 none, privateArea 3 1030 1031 none] ∧
      ([privateArea 1 1024 1025 none, privateArea 3 1030 1031 none].Pairwise RangeDisjoint →
        (∀ w ∈ [privateArea 1 1024 1025 none, privateArea 3 1030 1031 none],
          RangeDisjoint (privateArea 5 1026 1027 none) w) →
        map'.vmmList.Pairwise RangeDisjoint) :=
  ⟨by decide, by decide, vmmap_insert_sorted sampleConsts
    ⟨0, [privateArea 1 1024 1025 none, privateArea 3 1030 1031 none]⟩
    (privateArea 5 1026 1027 none) (by decide) (by decide)⟩

/-- Two overlapping vmareas, sorted by start, and a range of user pages that meets neither: after
the insertion the ranges still overlap. -/
theorem vmmap_insert_keeps_overlap :
    InUserRange sampleConsts (privateArea 5 1040 1041 none) ∧
    [privateArea 1 1024 1030 none, privateArea 3 1025 1031 none].Pairwise
      (·.vmaStart ≤ ·.vmaStart) ∧
    (∀ w ∈ [privateArea 1 1024 1030 none, privateArea 3 1025 1031 none],
      RangeDisjoint (privateArea 5 1040 1041 none) w) ∧
    ∃ map', vmmapInsert sampleConsts
        ⟨0, [privateArea 1 1024 1030 none, privateArea 3 1025 1031 none]⟩
        (privateArea 5 1040 1041 none) = some map' ∧ ¬ map'.vmmList.Pairwise RangeDisjoint :=
  ⟨by decide, by decide, by decide, _, rfl, by decide⟩

/-- `vmmap_clone` of a well-formed address space whose vmareas each hold a reference on a live
object: either `NULL`, with every object as it was and every vmarea and map the call allocated
freed again; or a map whose vmareas are, position by position, the source's with the new map as
back pointer, and one more reference on each object per vmarea of the source using it. -/
theorem vmmap_clone_copies_or_restores (K : Consts) (m : Mem) (map : Vmmap)
    (hwf : WellFormed K map.vmmList)
    (hobj : ∀ v ∈ map.vmmList, ∀ o, v.vmaObj = some o →
      ∃ x, m.mobjs o = some x ∧ 0 < x.moRefcount) :
    ∃ r m', vmmapClone K m map = some (r, m') ∧
      ((r = none ∧ m'.mobjs = m.mobjs ∧
          ∀ a, m.slab.next ≤ a → a < m'.slab.next → m.slab.oom a = false → a ∈ m'.freed) ∨
        ∃ c, r = some c ∧ c.vmmList.map Vmarea.shape = map.vmmList.map Vmarea.shape ∧
          (∀ w ∈ c.vmmList, w.vmaVmmap = c.vmmId) ∧
          ∀ o, m'.mobjs o = (m.mobjs o).map (·.addRefs ((objsOf map.vmmList).count o))) := by
  rcases hal : m.slab.alloc with ⟨_ | n, sl⟩
  · refine ⟨none, { m with slab := sl }, by simp [vmmapClone, hal], .inl ⟨rfl, rfl, ?_⟩⟩
    intro a hlo ha ha0
    have : a = m.slab.next := by have := Slab.alloc_next hal; simp only at ha; omega
    rw [this, Slab.alloc_eq_none hal] at ha0
    cases ha0
  obtain ⟨rfl, hn⟩ := Slab.alloc_eq_some hal
  have hl : ∀ o ∈ objsOf ([] ++ map.vmmList), ∃ x, m.mobjs o = some x ∧ 0 < x.moRefcount :=
    fun o ho => by
      obtain ⟨v, hv, ho⟩ := mem_filterMap.1 (by simpa [objsOf] using ho)
      exact hobj v hv o ho
  obtain ⟨r, m', hc, hout⟩ := vmmapCloneList_outcome K m.slab.next m.slab.oom map.vmmList
    ⟨m.slab.next, []⟩ (show m.Counts { m with slab := sl } (objsOf []) from fun c => by simp [objsOf])
    hl (by simp)
    (by simpa [pairwise_map] using hwf.sorted.imp Nat.le_of_lt) hwf.inRange
    (Slab.alloc_oom hal)
    (fun a hlo ha _ => .inl (by simp only at ha ⊢; omega))
  refine ⟨r, m', by simp [vmmapClone, hal, hc], ?_⟩
  rcases hout with hout | ⟨c, rfl, hcid, hsh, hid, hc'⟩
  · exact .inl hout
  · exact .inr ⟨c, rfl, by simpa using hsh, by rw [hcid]; exact hid, by simpa using hc'⟩

/-- Cloning an address space of one vmarea on the anonymous object 1, which has one reference. -/
theorem vmmap_clone_copies_or_restores_one_area :
    WellFormed sampleConsts [privateArea 7 1024 1025 (some 1)] ∧
    (∀ v ∈ [privateArea 7 1024 1025 (some 1)], ∀ o, v.vmaObj = some o →
      ∃ x, (anonCreate (Mem.init fun _ => false)).2.mobjs o = some x ∧ 0 < x.moRefcount) ∧
    ∃ r m', vmmapClone sampleConsts (anonCreate (Mem.init fun _ => false)).2
        ⟨0, [privateArea 7 1024 1025 (some 1)]⟩ = some (r, m') ∧
      ((r = none ∧ m'.mobjs = (anonCreate (Mem.init fun _ => false)).2.mobjs ∧
          ∀ a, (anonCreate (Mem.init fun _ => false)).2.slab.next ≤ a → a < m'.slab.next →
            (anonCreate (Mem.init fun _ => false)).2.slab.oom a = false → a ∈ m'.freed) ∨
        ∃ c, r = some c ∧
          c.vmmList.map Vmarea.shape = [privateArea 7 1024 1025 (some 1)].map Vmarea.shape ∧
          (∀ w ∈ c.vmmList, w.vmaVmmap = c.vmmId) ∧
          ∀ o, m'.mobjs o = ((anonCreate (Mem.init fun _ => false)).2.mobjs o).map
            (·.addRefs ((objsOf [privateArea 7 1024 1025 (some 1)]).count o))) :=
  have hobj : ∀ v ∈ [privateArea 7 1024 1025 (some 1)], ∀ o, v.vmaObj = some o →
      ∃ x, (anonCreate (Mem.init fun _ => false)).2.mobjs o = some x ∧ 0 < x.moRefcount :=
    fun v hv o ho => by
      rw [mem_singleton.1 hv] at ho
      cases ho
      exact ⟨_, rfl, by decide⟩
  ⟨by decide, hobj, vmmap_clone_copies_or_restores sampleConsts _ ⟨0, _⟩ (by decide) hobj⟩

end Weenix
