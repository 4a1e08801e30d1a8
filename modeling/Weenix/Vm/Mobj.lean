import Mathlib.Logic.Function.Basic
import Mathlib.Data.List.Basic

/-!
# Memory objects

The page providers of `mm/mobj.h`: anonymous, file, shadow and block-device objects, each with a
reference count and its resident page frames. A shadow object (`vm/shadow.c`) also points at the
object it shadows and at the non-shadow bottom of its chain.

Objects live in a heap addressed by slab addresses (`Mem`). A freed object is absent. The slab
allocator hands out fresh addresses and may fail; which attempts fail is part of the state, so
every run is a function of it. The vmareas and maps of `vm/vmmap.c` are values, not heap cells;
the heap records the addresses `slab_obj_free` has taken back from them.

`mobj_ref`, `mobj_put` and the default frame lookup belong to `mm/mobj.c`, which is not in the
source tree; they are modelled from the spec ("reference-counted memory objects", "destruction
runs a type-specific destructor"). The destructors of `vm/anon.c` and `vm/shadow.c` are
translated from the source. A call the C code would crash on (a freed object, a zero reference
count under `KASSERT`) makes the model return `none`.
-/

namespace Weenix

/-- A resident page frame: its page number in the owning object and its bytes. -/
structure Pframe where
  pfPagenum : Nat
  pfData : Nat → UInt8
  pfDirty : Bool := false

/-- `mo_type`. -/
inductive MobjType
  | anon
  | file
  | shadow
  | blockdev
  deriving DecidableEq, Repr

/-- `mobj_t`, with the two pointers of `mobj_shadow_t` (unused by the other types). -/
structure Mobj where
  moType : MobjType
  moRefcount : Nat
  moPframes : List Pframe := []
  shadowed : Option Nat := none
  bottomMobj : Option Nat := none

/-- The slab allocator: the next address to hand out, and which attempts fail. -/
structure Slab where
  next : Nat
  oom : Nat → Bool

/-- `slab_obj_alloc`: a fresh address, or `NULL` when this attempt fails. -/
def Slab.alloc (a : Slab) : Option Nat × Slab :=
  (if a.oom a.next then none else some a.next, { a with next := a.next + 1 })

theorem Slab.alloc_next {a : Slab} {b : Option Nat} {s : Slab} (h : a.alloc = (b, s)) :
    s.next = a.next + 1 := by
  simp only [Slab.alloc, Prod.mk.injEq] at h
  rw [← h.2]

theorem Slab.alloc_oom {a : Slab} {b : Option Nat} {s : Slab} (h : a.alloc = (b, s)) :
    s.oom = a.oom := by
  simp only [Slab.alloc, Prod.mk.injEq] at h
  rw [← h.2]

theorem Slab.alloc_eq_none {a : Slab} {s : Slab} (h : a.alloc = (none, s)) : a.oom a.next = true := by
  unfold Slab.alloc at h
  split at h
  · assumption
  · cases h

theorem Slab.alloc_eq_some {a : Slab} {b : Nat} {s : Slab} (h : a.alloc = (some b, s)) :
    b = a.next ∧ s.next = a.next + 1 := by
  unfold Slab.alloc at h
  split at h
  · simp at h
  · simp only [Prod.mk.injEq, Option.some.injEq] at h
    exact ⟨h.1.symm, by rw [← h.2]⟩

/-- The object heap, the allocator, and the addresses of the freed vmareas and maps. -/
structure Mem where
  mobjs : Nat → Option Mobj
  slab : Slab
  freed : List Nat := []

namespace Mem

/-- The empty heap, with the first slab address 1 (0 is `NULL`). -/
def init (oom : Nat → Bool) : Mem := ⟨fun _ => none, ⟨1, oom⟩, []⟩

/-- Replace the object at `o`. -/
def set (m : Mem) (o : Nat) (x : Mobj) : Mem :=
  { m with mobjs := Function.update m.mobjs o (some x) }

/-- `slab_obj_free` of the object at `o`. -/
def free (m : Mem) (o : Nat) : Mem :=
  { m with mobjs := Function.update m.mobjs o none }

/-- `slab_obj_free` of the vmarea or map at `a`. -/
def slabObjFree (m : Mem) (a : Nat) : Mem := { m with freed := a :: m.freed }

@[simp] theorem set_mobjs (m : Mem) (o : Nat) (x : Mobj) :
    (m.set o x).mobjs = Function.update m.mobjs o (some x) := rfl

@[simp] theorem free_mobjs (m : Mem) (o : Nat) :
    (m.free o).mobjs = Function.update m.mobjs o none := rfl

@[simp] theorem set_slab (m : Mem) (o : Nat) (x : Mobj) : (m.set o x).slab = m.slab := rfl

@[simp] theorem free_slab (m : Mem) (o : Nat) : (m.free o).slab = m.slab := rfl

@[simp] theorem set_freed (m : Mem) (o : Nat) (x : Mobj) : (m.set o x).freed = m.freed := rfl

@[simp] theorem free_freed (m : Mem) (o : Nat) : (m.free o).freed = m.freed := rfl

@[simp] theorem slabObjFree_mobjs (m : Mem) (a : Nat) : (m.slabObjFree a).mobjs = m.mobjs := rfl

@[simp] theorem slabObjFree_slab (m : Mem) (a : Nat) : (m.slabObjFree a).slab = m.slab := rfl

@[simp] theorem slabObjFree_freed (m : Mem) (a : Nat) :
    (m.slabObjFree a).freed = a :: m.freed := rfl

end Mem

/-! ## Reference counting -/

/-- Modelled from the spec: `mobj_ref` adds one reference to a live object. -/
def mobjRef (m : Mem) (o : Nat) : Option Mem := do
  let x ← m.mobjs o
  some (m.set o { x with moRefcount := x.moRefcount + 1 })

/-- Modelled from the spec: `mobj_put` drops one reference and runs the type's destructor when the
count reaches zero. The destructor of a shadow object (`shadow_destructor`) puts its shadowed and
bottom objects first; the other destructors (`anon_destructor`, the vnode's) free the frames and
the object. The recursion follows `shadowed` pointers; `fuel` bounds its depth. -/
def mobjPut : Nat → Mem → Nat → Option Mem
  | 0, _, _ => none
  | fuel + 1, m, o => do
    let x ← m.mobjs o
    if x.moRefcount = 0 then none
    else if x.moRefcount = 1 then
      let m := m.set o { x with moRefcount := 0 }
      match x.moType with
      | .shadow => do
        let m ← match x.shadowed with
          | some s => mobjPut fuel m s
          | none => some m
        let m ← match x.bottomMobj with
          | some b => mobjPut fuel m b
          | none => some m
        some (m.free o)
      | _ => some (m.free o)
    else some (m.set o { x with moRefcount := x.moRefcount - 1 })

/-- `mobj_put` with a recursion bound of one level per allocation made so far. -/
def mobjPutAll (m : Mem) (o : Nat) : Option Mem := mobjPut (m.slab.next + 1) m o

/-! ## Creating objects -/

/-- `anon_create` (`vm/anon.c`): a fresh anonymous object with one reference, or `NULL`. -/
def anonCreate (m : Mem) : Option Nat × Mem :=
  match m.slab.alloc with
  | (none, a) => (none, { m with slab := a })
  | (some o, a) => (some o, { m with slab := a }.set o { moType := .anon, moRefcount := 1 })

theorem anonCreate_none {m m' : Mem} (h : anonCreate m = (none, m')) : m'.mobjs = m.mobjs := by
  unfold anonCreate at h
  split at h <;> cases h
  rfl

/-- `shadow_create` (`vm/shadow.c`): a fresh shadow of `s` with one reference, holding a
reference on `s` and one on the bottom of the chain (the bottom of `s` if `s` is a shadow,
otherwise `s` itself). The inner `none` is the `NULL` return of a failed allocation. -/
def shadowCreate (m : Mem) (s : Nat) : Option (Option Nat × Mem) := do
  match m.slab.alloc with
  | (none, a) => some (none, { m with slab := a })
  | (some o, a) =>
    let m := { m with slab := a }.set o { moType := .shadow, moRefcount := 1, shadowed := some s }
    let m ← mobjRef m s
    let sx ← m.mobjs s
    let b ← if sx.moType = .shadow then sx.bottomMobj else some s
    let x ← m.mobjs o
    let m := m.set o { x with bottomMobj := some b }
    let m ← mobjRef m b
    some (some o, m)

/-- `shadow_collapse` (`vm/shadow.c`): when the shadowed object `s` of `o` is itself a shadow
that nobody else references, `o` skips over it (taking a reference on `s`'s shadowed object) and
drops its reference on `s`, which destroys `s`. No frame of `s` is migrated into `o`. The mutex
calls are not part of this model. -/
def shadowCollapse (m : Mem) (o : Nat) : Option Mem := do
  let x ← m.mobjs o
  if x.moType ≠ .shadow then none
  let s ← x.shadowed
  let sx ← m.mobjs s
  if sx.moType ≠ .shadow then some m
  else if sx.moRefcount > 1 then some m
  else
    let t ← sx.shadowed
    let m := m.set o { x with shadowed := some t }
    let m ← mobjRef m t
    mobjPutAll m s

/-! ## Frames -/

/-- `mobj_find_pframe`: the resident frame of page `pagenum`, if any. -/
def mobjFindPframe (x : Mobj) (pagenum : Nat) : Option Pframe :=
  x.moPframes.find? (·.pfPagenum = pagenum)

/-- Where the chain walk of `shadow_get_pframe` and `shadow_fill_pframe` stops: at an object
holding the page, at a non-shadow object without it (the `break`), or at a `NULL` pointer. -/
inductive WalkEnd
  | found (o : Nat)
  | broke (o : Nat)
  | null
  deriving DecidableEq, Repr

/-- The loop `while (current) { find; if shadow then current = shadowed else break }` of
`shadow_get_pframe` and `shadow_fill_pframe`, started at `current`. `fuel` counts iterations;
`none` is a loop that has not stopped within them, or a visit to a freed object. -/
def shadowWalk (m : Mem) (pagenum : Nat) : Nat → Option Nat → Option WalkEnd
  | _, none => some .null
  | 0, some _ => none
  | fuel + 1, some c => do
    let x ← m.mobjs c
    if (mobjFindPframe x pagenum).isSome then some (.found c)
    else if x.moType = .shadow then shadowWalk m pagenum fuel x.shadowed
    else some (.broke c)

end Weenix
