import Weenix.Vm.Mmap
import Mathlib.Data.List.Pairwise

/-!
# `vmmap_remove` and `vmmap_find_range` against the spec

What the loop of `vmmap_remove` leaves of each vmarea, and what `vmmap_find_range` returns, over
every address space.

1. Each vmarea is replaced by pieces (`vmareaRemove`). Outside the removed range a piece maps only
   pages its vmarea mapped (`vmareaRemove_covers`); the pieces of the whole list come from the
   vmareas of the list (`vmmapRemoveList_mem`, `vmmapRemoveList_pieces`).
2. A vmarea that starts inside the range and ends above it is set to the range itself, not to
   the part above it: the removed pages stay mapped and the pages above the range are unmapped
   (`vmmapRemove_front_overlap`).
3. For `VMMAP_DIR_HILO`, `vmmap_find_range` first tries the top `npages` pages of user memory
   against the lowest vmarea only, so a second mapping can land on the first
   (`mmap_second_mapping_overlaps_first`).
-/

namespace Weenix

variable (K : Consts) {lo hi p : Nat} {m m' : Mem} {w u : Vmarea} {a l r : List Vmarea}

/-- A vmarea maps page `p`. -/
def Vmarea.Covers (v : Vmarea) (p : Nat) : Prop := v.vmaStart ≤ p ∧ p < v.vmaEnd

instance (v : Vmarea) (p : Nat) : Decidable (v.Covers p) := inferInstanceAs (Decidable (_ ∧ _))

theorem vmmapLookup_isSome_iff {l : List Vmarea} {vfn : Nat} :
    (vmmapLookup l vfn).isSome ↔ ∃ v ∈ l, v.Covers vfn := by
  simp [vmmapLookup, List.find?_isSome, Vmarea.Covers]

theorem vmmapLookup_eq_none_iff {l : List Vmarea} {vfn : Nat} :
    vmmapLookup l vfn = none ↔ ∀ v ∈ l, ¬ v.Covers vfn := by
  simp [vmmapLookup, List.find?_eq_none, Vmarea.Covers]

/-! ## The pieces of one vmarea -/

/-- Outside the removed range `[lo, hi)`, a piece of a vmarea maps only pages the vmarea
mapped. -/
theorem vmareaRemove_covers (h : vmareaRemove lo hi m w = some (a, m')) (hu : u ∈ a)
    (hp : u.Covers p) : w.Covers p ∧ (p < lo ∨ hi ≤ p) ∨ lo ≤ p ∧ p < hi := by
  unfold vmareaRemove at h
  simp only [Vmarea.Covers] at hp ⊢
  split_ifs at h with h₁ h₂ h₃ h₄
  · cases h
    rw [List.mem_singleton] at hu
    subst hu
    omega
  · split at h
    · cases h
    · cases h
      simp only [List.mem_cons, List.mem_singleton, List.not_mem_nil, or_false] at hu
      rcases hu with rfl | rfl <;> simp only at hp <;> omega
  · cases h
    rw [List.mem_singleton] at hu
    subst hu
    simp only at hp
    omega
  · cases h
    rw [List.mem_singleton] at hu
    subst hu
    simp only at hp
    omega
  · obtain ⟨m₁, -, h⟩ := Option.bind_eq_some.1 h
    cases h
    cases hu

/-- A vmarea that starts in `[lo, hi)` and ends above it becomes exactly `[lo, hi)`, with its
offset moved by `lo - vma_start`, whatever the heap. -/
theorem vmareaRemove_front (hlo : lo ≤ w.vmaStart) (hin : w.vmaStart < hi) (hend : hi < w.vmaEnd) :
    vmareaRemove lo hi m w = some ([{ w with
      vmaOff := sizeAdd w.vmaOff (sizeSub lo w.vmaStart)
      vmaStart := lo
      vmaEnd := hi }], m) := by
  rw [vmareaRemove, if_neg (by omega), if_neg (by omega), if_neg (by omega), if_pos hend]

/-! ## The loop -/

theorem vmmapRemoveList_mem : ∀ {m : Mem} {l r : List Vmarea},
    vmmapRemoveList lo hi m l = some (r, m') → u ∈ r →
      ∃ w ∈ l, ∃ m₁ m₂ a, vmareaRemove lo hi m₁ w = some (a, m₂) ∧ u ∈ a
  | m, [], r, h, hu => by
    cases h
    cases hu
  | m, v :: vs, r, h, hu => by
    obtain ⟨a, m₁, r', ha, hr, rfl⟩ := vmmapRemoveList_cons h
    rcases List.mem_append.1 hu with hu | hu
    · exact ⟨v, List.mem_cons_self _ _, m, m₁, a, ha, hu⟩
    · obtain ⟨w, hw, h⟩ := vmmapRemoveList_mem hr hu
      exact ⟨w, List.mem_cons_of_mem _ hw, h⟩

theorem vmmapRemoveList_pieces : ∀ {m : Mem} {l r : List Vmarea},
    vmmapRemoveList lo hi m l = some (r, m') → w ∈ l →
      ∃ m₁ m₂ a, vmareaRemove lo hi m₁ w = some (a, m₂) ∧ a ⊆ r
  | m, [], r, _, hw => by cases hw
  | m, v :: vs, r, h, hw => by
    obtain ⟨a, m₁, r', ha, hr, rfl⟩ := vmmapRemoveList_cons h
    rcases List.mem_cons.1 hw with rfl | hw
    · exact ⟨m, m₁, a, ha, List.subset_append_left _ _⟩
    · obtain ⟨m₂, m₃, b, hb, hs⟩ := vmmapRemoveList_pieces hr hw
      exact ⟨m₂, m₃, b, hb, hs.trans (List.subset_append_right _ _)⟩

/-! ## The front-overlap case -/

section Front

variable {map map' : Vmmap} {v : Vmarea} {n : Nat}

/-- Each vmarea `vmmap_remove` leaves is a piece of a vmarea of the map, and outside the removed
range maps only pages that vmarea mapped. -/
theorem vmmapRemove_pieces_covered (hn : n ≠ 0) (h : vmmapRemove m map lo n = some (map', m')) :
    ∀ u ∈ map'.vmmList, ∃ w ∈ map.vmmList, ∀ p, u.Covers p → p < lo ∨ lo + n ≤ p → w.Covers p := by
  simp only [vmmapRemove, hn, if_false, Option.bind_eq_bind, Option.bind_eq_some,
    Option.some.injEq] at h
  obtain ⟨⟨r, m₁⟩, hr, rfl, rfl⟩ := h
  intro u hu
  obtain ⟨w, hw, m₂, m₃, a, ha, hua⟩ := vmmapRemoveList_mem hr hu
  refine ⟨w, hw, fun p hp hout => ?_⟩
  rcases vmareaRemove_covers ha hua hp with ⟨hwc, -⟩ | hin
  · exact hwc
  · omega

/-- For a well-formed address space and a vmarea starting inside `[lo, lo + n)` and ending above
it, `vmmap_remove` leaves the vmarea's first page mapped, though it is in the removed range, and
unmaps the page `lo + n` just above the range, though no vmarea but this one maps it; outside the
range, every vmarea left maps only pages of the vmarea it is a piece of. -/
theorem vmmapRemove_front_overlap (hwf : WellFormed K map.vmmList) (hv : v ∈ map.vmmList)
    (hlo : lo ≤ v.vmaStart) (hin : v.vmaStart < lo + n) (hend : lo + n < v.vmaEnd)
    (h : vmmapRemove m map lo n = some (map', m')) :
    (vmmapLookup map'.vmmList v.vmaStart).isSome ∧ vmmapLookup map'.vmmList (lo + n) = none ∧
      ∀ u ∈ map'.vmmList, ∃ w ∈ map.vmmList,
        ∀ p, u.Covers p → p < lo ∨ lo + n ≤ p → w.Covers p := by
  have hn : n ≠ 0 := by omega
  have hpieces := vmmapRemove_pieces_covered hn h
  simp only [vmmapRemove, hn, if_false, Option.bind_eq_bind, Option.bind_eq_some,
    Option.some.injEq] at h
  obtain ⟨⟨r, m₁⟩, hr, rfl, rfl⟩ := h
  refine ⟨?_, ?_, hpieces⟩
  · obtain ⟨m₂, m₃, a, ha, hs⟩ := vmmapRemoveList_pieces hr hv
    rw [vmareaRemove_front hlo hin hend, Option.some.injEq, Prod.mk.injEq] at ha
    obtain ⟨rfl, -⟩ := ha
    exact vmmapLookup_isSome_iff.2
      ⟨_, hs (List.mem_singleton_self _), by simp only [Vmarea.Covers]; omega⟩
  · refine vmmapLookup_eq_none_iff.2 fun u hu hcov => ?_
    obtain ⟨w, hw, m₂, m₃, a, ha, hua⟩ := vmmapRemoveList_mem hr hu
    by_cases hwv : w = v
    · subst hwv
      rw [vmareaRemove_front hlo hin hend, Option.some.injEq, Prod.mk.injEq] at ha
      obtain ⟨rfl, -⟩ := ha
      rw [List.mem_singleton] at hua
      subst hua
      exact absurd hcov.2 (lt_irrefl _)
    · rcases vmareaRemove_covers ha hua hcov with ⟨hwc, -⟩ | hr'
      · have hd : RangeDisjoint w v :=
          hwf.disjoint.forall (fun _ _ h => Or.symm h) hw hv hwv
        unfold RangeDisjoint at hd
        simp only [Vmarea.Covers] at hwc
        omega
      · omega

theorem vmmapRemove_front_overlap_first_page :
    ∃ map' m', vmmapRemove (Mem.init fun _ => false)
        ⟨0, [⟨1, 1024, 1027, 0, ⟨true, true, false⟩, ⟨false, true, false, true⟩, none, 0⟩]⟩
        1024 1 = some (map', m') ∧
      (vmmapLookup map'.vmmList 1024).isSome ∧ vmmapLookup map'.vmmList 1025 = none ∧
      ∀ u ∈ map'.vmmList, ∃ w ∈
        [(⟨1, 1024, 1027, 0, ⟨true, true, false⟩, ⟨false, true, false, true⟩, none, 0⟩ : Vmarea)],
        ∀ p, u.Covers p → p < 1024 ∨ 1024 + 1 ≤ p → w.Covers p :=
  have h : vmmapRemove (Mem.init fun _ => false)
      ⟨0, [⟨1, 1024, 1027, 0, ⟨true, true, false⟩, ⟨false, true, false, true⟩, none, 0⟩]⟩ 1024 1 =
      some _ := rfl
  ⟨_, _, h, vmmapRemove_front_overlap sampleConsts (by decide) (List.mem_singleton_self _)
    (by decide) (by decide) (by decide) h⟩

end Front

/-- Unmapping the first page of a three-page anonymous mapping leaves that page mapped and
unmaps the second. -/
theorem munmap_first_page_stays_mapped :
    ∃ a p m p' m', doMmap sampleConsts (fun _ => none) (fun _ => none) (Mem.init fun _ => false)
        (VmProc.init 0) 0 (3 * 4096) ⟨true, true, false⟩ ⟨false, true, false, true⟩ (-1) 0 =
        some (.ok a, p, m) ∧
      doMunmap sampleConsts m p a 4096 = some (.ok (), p', m') ∧
      (vmmapLookup p'.pVmmap.vmmList (a / 4096)).isSome ∧
      vmmapLookup p'.pVmmap.vmmList (a / 4096 + 1) = none :=
  ⟨_, _, _, _, _, rfl, rfl, rfl, rfl⟩

/-- Two anonymous mappings, of one page and then of two: `do_mmap` places the second over the
first. -/
theorem mmap_second_mapping_overlaps_first :
    ∃ a p m b p' m', doMmap sampleConsts (fun _ => none) (fun _ => none) (Mem.init fun _ => false)
        (VmProc.init 0) 0 4096 ⟨true, true, false⟩ ⟨false, true, false, true⟩ (-1) 0 =
        some (.ok a, p, m) ∧
      doMmap sampleConsts (fun _ => none) (fun _ => none) m p 0 (2 * 4096) ⟨true, true, false⟩
        ⟨false, true, false, true⟩ (-1) 0 = some (.ok b, p', m') ∧
      a < b + 2 * 4096 ∧ b < a + 4096 ∧ ¬ WellFormed sampleConsts p'.pVmmap.vmmList :=
  ⟨_, _, _, _, _, _, rfl, rfl, by decide, by decide, by decide⟩

end Weenix
