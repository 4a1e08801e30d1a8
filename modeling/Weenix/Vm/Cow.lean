import Weenix.Vm.Mmap
import Weenix.Vm.Shadow

/-!
# Page frames and copy-on-write after `fork`

Which frame a fault on a page gets (`mobj_get_pframe`), and what the memory half of `do_fork`
does to the address spaces.

`shadow_get_pframe` and `shadow_fill_pframe` are translated from `vm/shadow.c`. The default path
of the other objects (`mobj_default_get_pframe`, a vnode's pages) is in `mm/mobj.c` and the file
systems, which are not in the source tree; it is modelled from the spec: a resident frame, or a
new one filled by the object's `fill_pframe`, zeros for an anonymous object (`anon_fill_pframe`,
`vm/anon.c`) and the file's bytes for a vnode's.
The walks down a chain get one iteration per allocated address, which `Weenix.Vm.Shadow` shows is
enough. On a shadow lacking a page, the walk of a read and that of `shadow_fill_pframe` stop at the
same frame, so a write fault's new frame starts with the bytes a read gets
(`shadow_fill_copies_read_frame`).

In the source, `handle_pagefault`, `vmmap_read` and `vmmap_write` pass `NULL` for the frame
pointer of `mobj_get_pframe` and take the call's status, zero on success, for the frame, so none
of them completes; the model shows what the frames they ask for hold.

The memory half of `do_fork` copies the parent's map with `vmmap_clone`, then moves each private
vmarea of the copy to a new shadow. It is modelled as the source has it (`doForkVm`), but no run
reaches it: the source's `kthread_clone` returns `NULL` first.
-/

namespace Weenix

/-! ## Frames -/

/-- The bytes a new frame of an object that is not a shadow starts with: zeros for an anonymous
object (`anon_fill_pframe`), and, modelled from the spec, the file's bytes (`fileData o pagenum`)
for a vnode's. -/
def plainFill (fileData : Nat → Nat → Nat → UInt8) (o : Nat) (x : Mobj) (pagenum : Nat) :
    Nat → UInt8 :=
  if x.moType = .anon then fun _ => 0 else fileData o pagenum

variable (fileData : Nat → Nat → Nat → UInt8)

/-- Modelled from the spec (`mobj_default_get_pframe`, for an object that is not a shadow): the
resident frame of the page, or a new one, filled as the object's type says and added to it. -/
def plainGetPframe (m : Mem) (o pagenum : Nat) : Option (Pframe × Mem) := do
  let x ← m.mobjs o
  match mobjFindPframe x pagenum with
  | some pf => some (pf, m)
  | none =>
    let pf : Pframe := { pfPagenum := pagenum, pfData := plainFill fileData o x pagenum }
    some (pf, m.set o { x with moPframes := pf :: x.moPframes })

/-- `shadow_fill_pframe`: the bytes of a new frame of page `pagenum` of shadow `o`, copied from
the first object down the chain that holds the page, else from the bottom's frame, which
`mobj_get_pframe` on the bottom may create. -/
def shadowFillPframe (m : Mem) (o pagenum : Nat) : Option ((Nat → UInt8) × Mem) := do
  let x ← m.mobjs o
  match ← shadowWalk m pagenum m.slab.next x.shadowed with
  | .found c => do
    let cx ← m.mobjs c
    let pf ← mobjFindPframe cx pagenum
    some (pf.pfData, m)
  | _ => do
    let b ← x.bottomMobj
    let (pf, m) ← plainGetPframe fileData m b pagenum
    some (pf.pfData, m)

/-- `shadow_get_pframe`: for writing, the default path, whose new frame `shadow_fill_pframe`
fills; for reading, the object's own frame, else the first one down the chain, else the bottom's.
Returns the object owning the frame. -/
def shadowGetPframe (m : Mem) (o pagenum : Nat) (forwrite : Bool) :
    Option (Nat × Pframe × Mem) := do
  let x ← m.mobjs o
  match mobjFindPframe x pagenum with
  | some pf => some (o, pf, m)
  | none =>
    if forwrite then do
      let (data, m) ← shadowFillPframe fileData m o pagenum
      let x ← m.mobjs o
      let pf : Pframe := { pfPagenum := pagenum, pfData := data }
      some (o, pf, m.set o { x with moPframes := pf :: x.moPframes })
    else match ← shadowWalk m pagenum m.slab.next x.shadowed with
      | .found c => do
        let cx ← m.mobjs c
        let pf ← mobjFindPframe cx pagenum
        some (c, pf, m)
      | _ => do
        let b ← x.bottomMobj
        let (pf, m) ← plainGetPframe fileData m b pagenum
        some (b, pf, m)

/-- `mobj_get_pframe`: the frame of page `pagenum` of object `o` and the object owning it. -/
def mobjGetPframe (m : Mem) (o pagenum : Nat) (forwrite : Bool) : Option (Nat × Pframe × Mem) := do
  let x ← m.mobjs o
  if x.moType = .shadow then shadowGetPframe fileData m o pagenum forwrite
  else (plainGetPframe fileData m o pagenum).map fun (pf, m) => (o, pf, m)

/-- A store of byte `v` at offset `off` of the resident frame of page `pagenum` of object `o`. -/
def Mem.storeByte (m : Mem) (o pagenum off : Nat) (v : UInt8) : Option Mem := do
  let x ← m.mobjs o
  some (m.set o { x with moPframes := x.moPframes.map fun pf =>
    if pf.pfPagenum = pagenum then
      { pf with pfData := Function.update pf.pfData off v, pfDirty := true }
    else pf })

/-! ## The memory half of `do_fork` -/

/-- The loop of `do_fork` over the vmareas of the child's map `cid` (`done` holds those already
passed): one that is not `MAP_SHARED` gets a new shadow of its object, on which one more reference
is taken. A failed `shadow_create` destroys the child's map (`vmmap_destroy`). -/
def forkShadowList (cid : Nat) : Mem → List Vmarea → List Vmarea → Option (Option (List Vmarea) × Mem)
  | m, done, [] => some (some done, m)
  | m, done, v :: vs =>
    if v.vmaFlags.mapShared then forkShadowList cid m (done ++ [v]) vs
    else do
      let o ← v.vmaObj
      match ← shadowCreate m o with
      | (none, m) => do
        let m ← vmmapDestroy m ⟨cid, done ++ v :: vs⟩
        some (none, m)
      | (some so, m) => do
        let m ← mobjRef m so
        forkShadowList cid m (done ++ [{ v with vmaObj := some so }]) vs

/-- The memory half of `do_fork`, from `vmmap_clone` on: the child's map, or `NULL`. The parent's
vmareas are left as they are. No run reaches it: `do_fork` gets here only once `kthread_clone`
has returned a thread, and the source's `kthread_clone` always returns `NULL` (`doFork`). -/
def doForkVm (K : Consts) (m : Mem) (map : Vmmap) : Option (Option Vmmap × Mem) := do
  match ← vmmapClone K m map with
  | (none, m) => some (none, m)
  | (some c, m) =>
    let (r, m) ← forkShadowList c.vmmId m [] c.vmmList
    some (r.map fun l => { c with vmmList := l }, m)

/-! ## Reading through a shadow -/

section Frames

variable {m : Mem} {S o p : Nat} {y ox : Mobj} {pf : Pframe}

/-- A read through a shadow that lacks the page gets the frame of the object it shadows, when
that object holds the page. -/
theorem mobjGetPframe_read_through (hS : m.mobjs S = some y) (ht : y.moType = .shadow)
    (hnone : mobjFindPframe y p = none) (hso : y.shadowed = some o) (ho : m.mobjs o = some ox)
    (hpf : mobjFindPframe ox p = some pf) (hn : 0 < m.slab.next) :
    mobjGetPframe fileData m S p false = some (o, pf, m) := by
  obtain ⟨f, hf⟩ : ∃ f, m.slab.next = f + 1 := ⟨m.slab.next - 1, by omega⟩
  simp [mobjGetPframe, shadowGetPframe, hS, ht, hnone, hso, hf, shadowWalk, ho, hpf]

end Frames

/-! ## The copy a write fault makes -/

section Fill

variable {m : Mem} {S p b : Nat} {y : Mobj} {l : List Nat}

/-- The objects of a chain are live, distinct and below the next address, so the walks, given one
iteration per address, have enough. -/
theorem ShadowChain.length_lt (hc : ShadowChain m S y b l) (hf : m.Fresh)
    (hS : m.mobjs S = some y) : l.length < m.slab.next := by
  have hsub : S :: (l ++ [b]) ⊆ List.range m.slab.next := fun c hc' => by
    rcases List.mem_cons.1 hc' with rfl | hc'
    · exact List.mem_range.2 (hf.lt_next hS)
    rcases List.mem_append.1 hc' with hc' | hc'
    · obtain ⟨z, hz, -⟩ := hc.shadows c hc'
      exact List.mem_range.2 (hf.lt_next hz)
    · obtain ⟨z, hz, -⟩ := hc.bottom_live
      rw [List.mem_singleton.1 hc']
      exact List.mem_range.2 (hf.lt_next hz)
  have hlen := (List.subperm_of_subset hc.nodup hsub).length_le
  simp only [List.length_cons, List.length_append, List.length_singleton,
    List.length_range] at hlen
  omega

theorem plainGetPframe_frame {z : Mobj} (hb : m.mobjs b = some z) (p : Nat) :
    ∃ pf m', plainGetPframe fileData m b p = some (pf, m') ∧ ∀ a ≠ b, m'.mobjs a = m.mobjs a := by
  simp only [plainGetPframe, hb, Option.bind_eq_bind, Option.some_bind]
  cases mobjFindPframe z p
  · exact ⟨_, _, rfl, fun a ha => Function.update_noteq ha _ _⟩
  · exact ⟨_, _, rfl, fun _ _ => rfl⟩

/-- For a shadow `S` holding no frame of page `p`, with chain `l` then bottom `b`: a read through
`shadow_get_pframe` gets the frame of the first object of the chain holding the page, else the
frame the bottom's `get_pframe` gives; `shadow_fill_pframe` copies that frame's bytes, with the
same heap after; and the new frame a write fault gets holds those bytes. -/
theorem shadow_fill_copies_read_frame (hf : m.Fresh) (hS : m.mobjs S = some y)
    (hc : ShadowChain m S y b l) (hnone : mobjFindPframe y p = none) :
    ∃ c pf m', shadowGetPframe fileData m S p false = some (c, pf, m') ∧
      shadowFillPframe fileData m S p = some (pf.pfData, m') ∧
      (∃ m'', shadowGetPframe fileData m S p true =
        some (S, { pfPagenum := p, pfData := pf.pfData }, m'')) ∧
      (((l ++ [b]).find? (hasPage m p) = some c ∧ m' = m ∧
          ∃ cx, m.mobjs c = some cx ∧ mobjFindPframe cx p = some pf) ∨
        (l ++ [b]).find? (hasPage m p) = none ∧ c = b ∧
          plainGetPframe fileData m b p = some (pf, m')) := by
  have hw := hc.walk p m.slab.next (hc.length_lt hf hS)
  rcases hfind : (l ++ [b]).find? (hasPage m p) with _ | c
  · -- no object of the chain holds the page: both ask the bottom
    obtain ⟨bz, hbz, -⟩ := hc.bottom_live
    obtain ⟨pf, m', hp, hm'⟩ := plainGetPframe_frame fileData hbz p
    have hSb : S ≠ b := fun h => (List.nodup_cons.1 hc.nodup).1 (by simp [h])
    have hfill : shadowFillPframe fileData m S p = some (pf.pfData, m') := by
      simp only [shadowFillPframe, hS, hw, hfind, hc.bottom, hp, Option.bind_eq_bind,
        Option.some_bind]
    refine ⟨b, pf, m', ?_, hfill, ?_, .inr ⟨rfl, rfl, hp⟩⟩
    · simp only [shadowGetPframe, hS, hnone, hw, hfind, hc.bottom, hp, Option.bind_eq_bind,
        Option.some_bind, Bool.false_eq_true, if_false]
    · simp only [shadowGetPframe, hS, hnone, hfill, hm' S hSb, Option.bind_eq_bind,
        Option.some_bind, if_true, Option.some.injEq, Prod.mk.injEq, true_and, exists_eq']
  · -- the first object of the chain holding the page
    have hcp : hasPage m p c = true := List.find?_some hfind
    obtain ⟨pf, hc⟩ := Option.isSome_iff_exists.1 hcp
    obtain ⟨cx, hcx, hpf⟩ := Option.bind_eq_some.1 hc
    have hfill : shadowFillPframe fileData m S p = some (pf.pfData, m) := by
      simp only [shadowFillPframe, hS, hw, hfind, hcx, hpf, Option.bind_eq_bind, Option.some_bind]
    refine ⟨c, pf, m, ?_, hfill, ?_, .inl ⟨rfl, rfl, cx, hcx, hpf⟩⟩
    · simp only [shadowGetPframe, hS, hnone, hw, hfind, hcx, hpf, Option.bind_eq_bind,
        Option.some_bind, Bool.false_eq_true, if_false]
    · simp only [shadowGetPframe, hS, hnone, hfill, Option.bind_eq_bind, Option.some_bind, if_true,
        Option.some.injEq, Prod.mk.injEq, true_and, exists_eq']

end Fill

/-- After two forks of an anonymous object, page 0 of the newest shadow, which holds no frame:
the write fault copies the frame a read gets. -/
theorem shadow_fill_copies_read_frame_two_forks :
    ∃ s, MobjReachable s ∧ ∃ y, s.mem.mobjs 3 = some y ∧ ∃ b l, ShadowChain s.mem 3 y b l ∧
      ∃ c pf m', shadowGetPframe (fun _ _ _ => 0) s.mem 3 0 false = some (c, pf, m') ∧
        shadowFillPframe (fun _ _ _ => 0) s.mem 3 0 = some (pf.pfData, m') ∧
        (∃ m'', shadowGetPframe (fun _ _ _ => 0) s.mem 3 0 true =
          some (3, { pfPagenum := 0, pfData := pf.pfData }, m'')) ∧
        (((l ++ [b]).find? (hasPage s.mem 0) = some c ∧ m' = s.mem ∧
            ∃ cx, s.mem.mobjs c = some cx ∧ mobjFindPframe cx 0 = some pf) ∨
          (l ++ [b]).find? (hasPage s.mem 0) = none ∧ c = b ∧
            plainGetPframe (fun _ _ _ => 0) s.mem b 0 = some (pf, m')) := by
  have h := (MobjReachable.init fun _ => false).run
    [.anonCreate, .shadowCreate 1, .shadowCreate 2] rfl
  obtain ⟨b, l, hc⟩ := shadow_chain_reaches_bottom h (x := 3) rfl rfl
  exact ⟨_, h, _, rfl, b, l, hc, shadow_fill_copies_read_frame _ h.inv.fresh rfl hc rfl⟩

end Weenix
