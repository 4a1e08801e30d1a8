import Weenix.Vm.Cow

/-!
# What `shadow_collapse` does to the pages a shadow sees

`shadow_collapse(o)` splices the shadow `s` that `o` shadows out of the chain when nobody else
references it (`vm/shadow.c`). Its comment says that the pages `s` holds and `o` lacks should be
migrated into `o` first; the code migrates none.

1. `mobj_put` changes only the reference counts of the objects it leaves live
   (`mobjPut_recounts`).
2. So after the splice `o` holds the frames it held before, `s` is freed, and a read of a page
   that only `s` held resolves to a frame of another object (`shadowCollapse_drops_middle_page`).
3. On a chain built by `shadow_create`, a store through the middle shadow and a put of the
   vmarea's reference, that read sees other bytes (`collapse_loses_middle_page`).

These are the heap effects of the call. Its mutex calls (`shadowCollapseHeld`, in
`Weenix.Vm.Locks`) end in `mobj_unlock` of `s` after the `mobj_put` that freed it, so where the
heap layer here returns, the whole call crashes there instead.
-/

namespace Weenix

/-! ## What `mobj_put` leaves -/

/-- `x` with reference count `n`. -/
def Mobj.withRefcount (x : Mobj) (n : Nat) : Mobj := { x with moRefcount := n }

@[simp] theorem Mobj.withRefcount_withRefcount (x : Mobj) (i j : Nat) :
    (x.withRefcount i).withRefcount j = x.withRefcount j := rfl

/-- Every object live in `m'` was live in `m`, with at most its reference count changed. -/
def Mem.Recounts (m m' : Mem) : Prop :=
  ∀ c y, m'.mobjs c = some y → ∃ x n, m.mobjs c = some x ∧ y = x.withRefcount n

section Recounts

variable {m m₁ m₂ m' : Mem} {a : Nat} {x : Mobj}

theorem Mem.Recounts.refl (m : Mem) : m.Recounts m := fun _ y h => ⟨y, y.moRefcount, h, rfl⟩

theorem Mem.Recounts.trans (h₁ : m.Recounts m₁) (h₂ : m₁.Recounts m₂) : m.Recounts m₂ :=
  fun c y h =>
    let ⟨_, n, hx, e⟩ := h₂ c y h
    let ⟨z, _, hz, e'⟩ := h₁ c _ hx
    ⟨z, n, hz, by rw [e, e', Mobj.withRefcount_withRefcount]⟩

theorem Mem.Recounts.set (hx : m.mobjs a = some x) (n : Nat) :
    m.Recounts (m.set a (x.withRefcount n)) := fun c y h => by
  by_cases hc : c = a
  · subst hc
    simp only [Mem.set_mobjs, Function.update_same, Option.some.injEq] at h
    exact ⟨x, n, hx, h.symm⟩
  · rw [Mem.set_mobjs, Function.update_noteq hc] at h
    exact ⟨y, y.moRefcount, h, rfl⟩

theorem Mem.Recounts.free (m : Mem) (a : Nat) : m.Recounts (m.free a) := fun c y h => by
  by_cases hc : c = a
  · subst hc; simp at h
  · rw [Mem.free_mobjs, Function.update_noteq hc] at h
    exact ⟨y, y.moRefcount, h, rfl⟩

theorem mobjRef_recounts (h : mobjRef m a = some m') : m.Recounts m' := by
  simp only [mobjRef, Option.bind_eq_bind, Option.bind_eq_some, Option.some.injEq] at h
  obtain ⟨x, hx, rfl⟩ := h
  exact .set hx _

theorem foldlM_recounts {f : Mem → Nat → Option Mem}
    (hf : ∀ {m m' : Mem} {a : Nat}, f m a = some m' → m.Recounts m') {l : List Nat}
    (h : l.foldlM f m = some m') : m.Recounts m' := by
  induction l generalizing m with
  | nil => cases h; exact .refl _
  | cons b l ih =>
    simp only [List.foldlM_cons, Option.bind_eq_bind, Option.bind_eq_some] at h
    obtain ⟨m₁, h₁, h⟩ := h
    exact (hf h₁).trans (ih h)

/-- `mobj_put`, with the destructors it runs, frees objects and changes counts, nothing else. -/
theorem mobjPut_recounts {fuel : Nat} (h : mobjPut fuel m a = some m') : m.Recounts m' := by
  induction fuel generalizing m m' a with
  | zero => cases h
  | succ fuel ih =>
    obtain ⟨x, hx, ⟨-, rfl⟩ | ⟨-, m₁, h₁, rfl⟩⟩ := mobjPut_succ_eq_some h
    · exact .set hx _
    · exact ((Mem.Recounts.set hx 0).trans (foldlM_recounts ih h₁)).trans (.free _ a)

end Recounts

/-! ## Reads after a collapse -/

variable (fileData : Nat → Nat → Nat → UInt8)

theorem plainGetPframe_live {m m' : Mem} {o p : Nat} {pf : Pframe}
    (h : plainGetPframe fileData m o p = some (pf, m')) : (m.mobjs o).isSome := by
  cases hx : m.mobjs o
  · simp [plainGetPframe, hx] at h
  · rfl

/-- The object `mobj_get_pframe` returns a frame of is live in the heap it was called on. -/
theorem mobjGetPframe_owner_live {m m' : Mem} {o p c : Nat} {fw : Bool} {pf : Pframe}
    (h : mobjGetPframe fileData m o p fw = some (c, pf, m')) : (m.mobjs c).isSome := by
  simp only [mobjGetPframe, Option.bind_eq_bind, Option.bind_eq_some] at h
  obtain ⟨x, hx, h⟩ := h
  obtain ⟨-, h⟩ | ⟨-, h⟩ := ite_eq_iff.1 h
  · simp only [shadowGetPframe, hx, Option.bind_eq_bind, Option.some_bind] at h
    split at h
    · cases h; simp [hx]
    obtain ⟨-, h⟩ | ⟨-, h⟩ := ite_eq_iff.1 h
    · simp only [Option.bind_eq_some] at h
      obtain ⟨_, _, _, _, h⟩ := h
      cases h; simp [hx]
    obtain ⟨w, -, h⟩ := Option.bind_eq_some.1 h
    split at h
    · obtain ⟨cx, hcx, h⟩ := Option.bind_eq_some.1 h
      obtain ⟨_, _, h⟩ := Option.bind_eq_some.1 h
      cases h; simp [hcx]
    · obtain ⟨b, -, h⟩ := Option.bind_eq_some.1 h
      obtain ⟨⟨_, _⟩, hp, h⟩ := Option.bind_eq_some.1 h
      cases h; exact plainGetPframe_live fileData hp
  · obtain ⟨⟨_, _⟩, hp, h⟩ := Option.map_eq_some'.1 h
    cases h; exact plainGetPframe_live fileData hp

section Splice

variable {m m' : Mem} {o s t p : Nat} {x sx : Mobj} {pf : Pframe}

/-- When `o` shadows a shadow `s` with one reference, which shadows `t`, `shadow_collapse(o)` is
the splice: `o` points at `t` and takes a reference on it, then `s` is put. -/
theorem shadowCollapse_splice (hx : m.mobjs o = some x) (hxt : x.moType = .shadow)
    (hxs : x.shadowed = some s) (hsx : m.mobjs s = some sx) (hst : sx.moType = .shadow)
    (hsr : sx.moRefcount = 1) (ht : sx.shadowed = some t) (h : shadowCollapse m o = some m') :
    ∃ m₁, mobjRef (m.set o { x with shadowed := some t }) t = some m₁ ∧
      mobjPutAll m₁ s = some m' := by
  simpa [shadowCollapse, hx, hxt, hxs, hsx, hst, hsr, ht, Option.bind_eq_some] using h

/-- A collapse migrates nothing: before it, a read through `o` of a page `p` that `o` lacks and
`s` holds gets `s`'s frame; after it, `s` is freed, `o` holds the frames it held, and the read
gets a frame of another object. With its mutex calls the call does not get this far: it unlocks
`s` after freeing it (`shadowCollapseHeld`). -/
theorem shadowCollapse_drops_middle_page (hx : m.mobjs o = some x) (hxt : x.moType = .shadow)
    (hxs : x.shadowed = some s) (hsx : m.mobjs s = some sx) (hst : sx.moType = .shadow)
    (hsr : sx.moRefcount = 1) (ht : sx.shadowed = some t) (hso : s ≠ o) (hts : t ≠ s)
    (hnone : mobjFindPframe x p = none) (hpf : mobjFindPframe sx p = some pf)
    (hn : 0 < m.slab.next) (h : shadowCollapse m o = some m') :
    mobjGetPframe fileData m o p false = some (s, pf, m) ∧ m'.mobjs s = none ∧
      (∀ y, m'.mobjs o = some y → y.moPframes = x.moPframes) ∧
      ∀ c pf' m'', mobjGetPframe fileData m' o p false = some (c, pf', m'') → c ≠ s := by
  obtain ⟨m₁, h₁, h₂⟩ := shadowCollapse_splice hx hxt hxs hsx hst hsr ht h
  have hs₁ : m₁.mobjs s = some sx := by
    simp only [mobjRef, Option.bind_eq_bind, Option.bind_eq_some, Option.some.injEq] at h₁
    obtain ⟨_, -, rfl⟩ := h₁
    simp [Function.update_noteq hts.symm, Function.update_noteq hso, hsx]
  have hfree : m'.mobjs s = none := by
    obtain ⟨_, hx₁, ⟨h1, -⟩ | ⟨-, m₃, -, rfl⟩⟩ := mobjPut_succ_eq_some h₂
    · rw [hs₁] at hx₁; cases hx₁; omega
    · simp
  refine ⟨mobjGetPframe_read_through fileData hx hxt hnone hxs hsx hpf hn, hfree,
    fun y hy => ?_, fun c _ _ hc => ?_⟩
  · obtain ⟨z, n, hz, rfl⟩ := (mobjRef_recounts h₁).trans (mobjPut_recounts h₂) o y hy
    simp only [Mem.set_mobjs, Function.update_same, Option.some.injEq] at hz
    rw [← hz]; rfl
  · rintro rfl
    simpa [hfree] using mobjGetPframe_owner_live fileData hc

end Splice

/-! ## A page lost -/

/-- Anonymous object 1; its shadow 2, which a store has given its own page 0, with first byte
`0x41`; and a shadow 3 of 2, to which the one other reference on 2 has moved, as in a fork. -/
def middlePageHeap : Option Mem := do
  let m := (anonCreate (Mem.init fun _ => false)).2
  let (_, m) ← shadowCreate m 1
  let (_, _, m) ← mobjGetPframe (fun _ _ _ => 0) m 2 0 true
  let m ← m.storeByte 2 0 0 0x41
  let (_, m) ← shadowCreate m 2
  mobjPutAll m 2

/-- The general statement on the chain `3 → 2 → 1`. -/
theorem middle_shadow_collapse_drops_page :
    ∃ m m' x sx pf, middlePageHeap = some m ∧ m.mobjs 3 = some x ∧ m.mobjs 2 = some sx ∧
      mobjFindPframe sx 0 = some pf ∧ shadowCollapse m 3 = some m' ∧
      (mobjGetPframe (fun _ _ _ => 0) m 3 0 false = some (2, pf, m) ∧ m'.mobjs 2 = none ∧
        (∀ y, m'.mobjs 3 = some y → y.moPframes = x.moPframes) ∧
        ∀ c pf' m'', mobjGetPframe (fun _ _ _ => 0) m' 3 0 false = some (c, pf', m'') → c ≠ 2) :=
  ⟨_, _, _, _, _, rfl, rfl, rfl, rfl, rfl, shadowCollapse_drops_middle_page _ rfl rfl rfl rfl rfl
    rfl rfl (by decide) (by decide) rfl rfl (by decide) rfl⟩

/-- Collapsing 3 over 2: before, a read of page 0 through 3 gets 2's frame, which starts with
`0x41`; after, 2 is freed and the read gets the zero frame of 1. This is the heap layer; the call
with its mutex calls crashes at the `mobj_unlock` of the freed 2 (`shadowCollapseHeld`). -/
theorem collapse_loses_middle_page :
    ∃ m m', middlePageHeap = some m ∧ shadowCollapse m 3 = some m' ∧ shadowedOf m' 3 = some 1 ∧
      m'.mobjs 2 = none ∧
      (mobjGetPframe (fun _ _ _ => 0) m 3 0 false).map (fun r => (r.1, r.2.1.pfData 0)) =
        some (2, 0x41) ∧
      (mobjGetPframe (fun _ _ _ => 0) m' 3 0 false).map (fun r => (r.1, r.2.1.pfData 0)) =
        some (1, 0) :=
  ⟨_, _, rfl, rfl, rfl, rfl, rfl, rfl⟩

end Weenix
