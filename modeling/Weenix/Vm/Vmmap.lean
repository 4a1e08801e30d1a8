import Weenix.Basic
import Weenix.Vm.Mobj

/-!
# Address spaces

`vm/vmmap.c`: an address space is the list `vmm_list` of vmareas, each a half-open range
`[vma_start, vma_end)` of page numbers backed by a memory object at page offset `vma_off`.

The list is kept in its C order. The loops of `vmmap_remove` and `vmmap_clone` are recursions
over it that thread the object heap, since freeing a vmarea puts its object and splitting one
allocates. A vmarea carries its slab address `vmaId`: `do_brk` holds a pointer to the heap vmarea
across `vmmap_remove`, and the struct copies `*high_vma = *vma` copy every field but the address.
-/

namespace Weenix

/-- The protection bits `PROT_READ`, `PROT_WRITE`, `PROT_EXEC` of `mm/mman.h`. -/
structure Prot where
  protRead : Bool
  protWrite : Bool
  protExec : Bool
  deriving DecidableEq, Repr

/-- The flags `MAP_SHARED`, `MAP_PRIVATE`, `MAP_FIXED`, `MAP_ANON` of `mm/mman.h`. -/
structure MapFlags where
  mapShared : Bool
  mapPrivate : Bool
  mapFixed : Bool
  mapAnon : Bool
  deriving DecidableEq, Repr

/-- `vmarea_t`. -/
structure Vmarea where
  vmaId : Nat
  vmaStart : Nat
  vmaEnd : Nat
  vmaOff : Nat
  vmaProt : Prot
  vmaFlags : MapFlags
  vmaObj : Option Nat
  vmaVmmap : Nat
  deriving DecidableEq, Repr

/-- `vmmap_t`: its slab address and `vmm_list`. -/
structure Vmmap where
  vmmId : Nat
  vmmList : List Vmarea
  deriving DecidableEq, Repr

/-- `VMMAP_DIR_LOHI` and `VMMAP_DIR_HILO`. -/
inductive Dir
  | lohi
  | hilo
  deriving DecidableEq, Repr

variable (K : Consts)

/-! ## Lookup and insertion -/

/-- `vmmap_lookup`: the first vmarea whose range holds page `vfn`. -/
def vmmapLookup (l : List Vmarea) (vfn : Nat) : Option Vmarea :=
  l.find? fun v => v.vmaStart ≤ vfn ∧ vfn < v.vmaEnd

/-- The list loop of `vmmap_insert`: before the first vmarea that starts later, else at the
tail. -/
def vmareaInsert (v : Vmarea) : List Vmarea → List Vmarea
  | [] => [v]
  | w :: ws => if v.vmaStart < w.vmaStart then v :: w :: ws else w :: vmareaInsert v ws

@[simp] theorem mem_vmareaInsert {v w : Vmarea} {l : List Vmarea} :
    w ∈ vmareaInsert v l ↔ w = v ∨ w ∈ l := by
  induction l with
  | nil => simp [vmareaInsert]
  | cons u us ih =>
    unfold vmareaInsert
    split <;> simp [ih, or_left_comm]

/-- `USER_LOW ≤ vma_start < vma_end ≤ USER_HIGH`, in pages. -/
def InUserRange (v : Vmarea) : Prop :=
  K.lowPn ≤ v.vmaStart ∧ v.vmaStart < v.vmaEnd ∧ v.vmaEnd ≤ K.highPn

instance (v : Vmarea) : Decidable (InUserRange K v) := inferInstanceAs (Decidable (_ ∧ _))

/-- `vmmap_insert`: its `KASSERT`s that the vmarea is a nonempty range of user pages, then the
back pointer and the sorted insertion. -/
def vmmapInsert (map : Vmmap) (v : Vmarea) : Option Vmmap :=
  if InUserRange K v then
    some { map with vmmList := vmareaInsert { v with vmaVmmap := map.vmmId } map.vmmList }
  else none

/-- `vmmap_is_range_empty`: no vmarea meets `[startvfn, startvfn + npages)`. -/
def vmmapIsRangeEmpty (l : List Vmarea) (startvfn npages : Nat) : Bool :=
  npages = 0 ∨ l.all fun v => startvfn + npages ≤ v.vmaStart ∨ v.vmaEnd ≤ startvfn

/-! ## Well-formed address spaces -/

/-- The page ranges of two vmareas do not meet. -/
def RangeDisjoint (v w : Vmarea) : Prop := v.vmaEnd ≤ w.vmaStart ∨ w.vmaEnd ≤ v.vmaStart

/-- The spec's invariant of an address space: every vmarea inside user memory, the list strictly
sorted by start, the ranges pairwise disjoint. -/
structure WellFormed (l : List Vmarea) : Prop where
  inRange : ∀ v ∈ l, InUserRange K v
  sorted : l.Pairwise fun v w => v.vmaStart < w.vmaStart
  disjoint : l.Pairwise RangeDisjoint

instance (v w : Vmarea) : Decidable (RangeDisjoint v w) := inferInstanceAs (Decidable (_ ∨ _))

instance (l : List Vmarea) : Decidable (WellFormed K l) :=
  decidable_of_iff ((∀ v ∈ l, InUserRange K v) ∧ (l.Pairwise fun v w => v.vmaStart < w.vmaStart) ∧
    l.Pairwise RangeDisjoint) ⟨fun ⟨a, b, c⟩ => ⟨a, b, c⟩, fun ⟨a, b, c⟩ => ⟨a, b, c⟩⟩

/-! ## `vmmap_find_range` -/

/-- The gap loop of `vmmap_find_range` for `VMMAP_DIR_HILO`: the first consecutive pair whose
gap holds `npages` gives its top `npages` pages, then the gap above the last vmarea. -/
def findGapHilo (npages : Nat) : Vmarea → List Vmarea → Int
  | prev, [] =>
    if npages ≤ sizeSub K.highPn prev.vmaEnd then ssize (sizeSub K.highPn npages) else -1
  | prev, v :: vs =>
    if npages ≤ sizeSub v.vmaStart prev.vmaEnd then ssize (sizeSub v.vmaStart npages)
    else findGapHilo npages v vs

/-- The gap loop of `vmmap_find_range` for `VMMAP_DIR_LOHI`: the start of the first gap that
holds `npages`, then the gap above the last vmarea. -/
def findGapLohi (npages : Nat) : Vmarea → List Vmarea → Int
  | prev, [] => if npages ≤ sizeSub K.highPn prev.vmaEnd then ssize prev.vmaEnd else -1
  | prev, v :: vs =>
    if npages ≤ sizeSub v.vmaStart prev.vmaEnd then ssize prev.vmaEnd
    else findGapLohi npages v vs

/-- `vmmap_find_range`. For `VMMAP_DIR_HILO` it first tries the top `npages` pages of user memory
against the lowest vmarea only, then the `npages` pages just below the lowest vmarea, then the
gap loop. -/
def vmmapFindRange (l : List Vmarea) (npages : Nat) (dir : Dir) : Int :=
  if npages = 0 then -1 else
  match l, dir with
  | [], .hilo => ssize (sizeSub K.highPn npages)
  | [], .lohi => ssize K.lowPn
  | v :: vs, .hilo =>
    if sizeSub K.highPn npages < v.vmaStart then ssize (sizeSub K.highPn npages)
    else if npages ≤ v.vmaStart then ssize (v.vmaStart - npages)
    else findGapHilo K npages v vs
  | v :: vs, .lohi =>
    if K.lowPn + npages ≤ v.vmaStart then ssize K.lowPn
    else findGapLohi K npages v vs

/-! ## Freeing, removing and cloning -/

/-- `vmarea_free`: puts the vmarea's object, if any, and frees the vmarea. -/
def vmareaFree (m : Mem) (v : Vmarea) : Option Mem := do
  let m ← match v.vmaObj with
    | some o => mobjPutAll m o
    | none => some m
  some (m.slabObjFree v.vmaId)

/-- The loop of `vmmap_destroy`: `vmarea_free` of each vmarea of a list. -/
def vmareasFree : Mem → List Vmarea → Option Mem
  | m, [] => some m
  | m, v :: vs => do vmareasFree (← vmareaFree m v) vs

/-- `vmmap_destroy`: frees the vmareas, then the map. -/
def vmmapDestroy (m : Mem) (map : Vmmap) : Option Mem := do
  some ((← vmareasFree m map.vmmList).slabObjFree map.vmmId)

/-- The body of the loop of `vmmap_remove` over `[lo, hi)`: what replaces the vmarea `v` in the
list. A vmarea strictly containing the range is split: the upper part, a copy at a new address,
goes before the truncated original, and a failed allocation fails `KASSERT(high_vma)`. One
overlapping the upper end only becomes `[lo, hi)` with its offset moved by `lo - vma_start`. One
inside the range is freed. -/
def vmareaRemove (lo hi : Nat) (m : Mem) (v : Vmarea) : Option (List Vmarea × Mem) :=
  if v.vmaEnd ≤ lo ∨ hi ≤ v.vmaStart then some ([v], m)
  else if v.vmaStart < lo ∧ hi < v.vmaEnd then
    match m.slab.alloc with
    | (none, _) => none
    | (some a, s) =>
      some ([{ v with vmaId := a, vmaStart := hi, vmaOff := v.vmaOff + (hi - v.vmaStart) },
        { v with vmaEnd := lo }], { m with slab := s })
  else if v.vmaStart < lo then some ([{ v with vmaEnd := lo }], m)
  else if hi < v.vmaEnd then
    let w := { v with vmaOff := sizeAdd v.vmaOff (sizeSub lo v.vmaStart), vmaStart := lo }
    some ([{ w with vmaEnd := hi }], m)
  else do
    let m ← vmareaFree m v
    some ([], m)

/-- The loop of `vmmap_remove`: `list_iterate` over the original vmareas, each replaced in place. -/
def vmmapRemoveList (lo hi : Nat) : Mem → List Vmarea → Option (List Vmarea × Mem)
  | m, [] => some ([], m)
  | m, v :: vs => do
    let (a, m) ← vmareaRemove lo hi m v
    let (r, m) ← vmmapRemoveList lo hi m vs
    some (a ++ r, m)

/-- `vmmap_remove`: always returns 0. -/
def vmmapRemove (m : Mem) (map : Vmmap) (lopage npages : Nat) : Option (Vmmap × Mem) :=
  if npages = 0 then some (map, m) else do
    let (l, m) ← vmmapRemoveList lopage (lopage + npages) m map.vmmList
    some ({ map with vmmList := l }, m)

theorem vmmapRemoveList_cons {lo hi : Nat} {m m' : Mem} {v : Vmarea} {vs r : List Vmarea}
    (h : vmmapRemoveList lo hi m (v :: vs) = some (r, m')) :
    ∃ a m₁ r', vmareaRemove lo hi m v = some (a, m₁) ∧
      vmmapRemoveList lo hi m₁ vs = some (r', m') ∧ r = a ++ r' := by
  rw [vmmapRemoveList] at h
  simp only [Option.bind_eq_bind, Option.bind_eq_some, Option.some.injEq] at h
  obtain ⟨⟨a, m₁⟩, h1, ⟨r', m₂⟩, h2, h3⟩ := h
  cases h3
  exact ⟨a, m₁, r', h1, h2, rfl⟩

/-- The loop of `vmmap_clone`: copies each vmarea into the new map with `vmmap_insert`, after a
reference on its object. A failed allocation destroys the new map (`vmmap_destroy`) and returns
`NULL`. -/
def vmmapCloneList : Mem → Vmmap → List Vmarea → Option (Option Vmmap × Mem)
  | m, new, [] => some (some new, m)
  | m, new, v :: vs =>
    match m.slab.alloc with
    | (none, s) => do
      let m ← vmmapDestroy { m with slab := s } new
      some (none, m)
    | (some a, s) => do
      let m ← match v.vmaObj with
        | some o => mobjRef { m with slab := s } o
        | none => some { m with slab := s }
      vmmapCloneList m (← vmmapInsert K new { v with vmaId := a }) vs

/-- `vmmap_clone`. -/
def vmmapClone (m : Mem) (map : Vmmap) : Option (Option Vmmap × Mem) :=
  match m.slab.alloc with
  | (none, s) => some (none, { m with slab := s })
  | (some n, s) => vmmapCloneList K { m with slab := s } ⟨n, []⟩ map.vmmList

/-! ## `vmmap_map` -/

/-- The part of a vnode that `vmmap_map` uses. Modelled from the spec: the vnode's `mmap`
operation, when the filesystem has one, hands out the vnode's memory object with a new
reference. -/
structure MmapVnode where
  vnMmapObj : Option Nat
  deriving DecidableEq, Repr

/-- `vmmap_map`: finds a range with `vmmap_find_range` (ignoring `lopage`), allocates the vmarea,
backs it by a new anonymous object or by the file's `mmap` object, and inserts it; on a failure
after the allocation the vmarea is freed. Returns the new vmarea. -/
def vmmapMap (m : Mem) (map : Vmmap) (file : Option MmapVnode) (npages : Nat) (prot : Prot)
    (flags : MapFlags) (off : Nat) (dir : Dir) : Option (Except Errno Vmarea × Vmmap × Mem) := do
  if npages = 0 then return (.error .EINVAL, map, m)
  let startVfn := vmmapFindRange K map.vmmList npages dir
  if startVfn < 0 then return (.error .ENOMEM, map, m)
  match m.slab.alloc with
  | (none, s) => return (.error .ENOMEM, map, { m with slab := s })
  | (some a, s) =>
    let v : Vmarea := ⟨a, startVfn.toNat, startVfn.toNat + npages, K.addrToPn off, prot, flags,
      none, map.vmmId⟩
    let m := { m with slab := s }
    if flags.mapAnon then
      match anonCreate m with
      | (none, m) => return (.error .ENOMEM, map, m.slabObjFree a)
      | (some o, m) =>
        let v := { v with vmaObj := some o }
        return (.ok v, ← vmmapInsert K map v, m)
    else match file with
      | some f => match f.vnMmapObj with
        | none => return (.error .ENODEV, map, m.slabObjFree a)
        | some o =>
          let m ← mobjRef m o
          let v := { v with vmaObj := some o }
          return (.ok v, ← vmmapInsert K map v, m)
      | none => return (.error .EINVAL, map, m.slabObjFree a)

end Weenix
