import Weenix.Vm.Vmmap
import Weenix.Fs.File

/-!
# `mmap`, `munmap` and `brk`

`vm/mmap.c` and `vm/brk.c` over the VM part of the current process: its address space and its
break. `do_mmap` reads the process's open files and their vnodes; the `fget`/`fput` pair around a
file mapping leaves the file's reference count as it was and is not modelled. TLB flushes have no
effect on this state.
-/

namespace Weenix

/-- The VM fields of `proc_t`. -/
structure VmProc where
  pVmmap : Vmmap
  pStartBrk : Nat
  pBrk : Nat
  deriving DecidableEq, Repr

/-- A process's VM fields after `proc_create`: the empty map `id`, no break. -/
def VmProc.init (id : Nat) : VmProc := ⟨⟨id, []⟩, 0, 0⟩

variable (K : Consts)

/-- `do_mmap`: validates the arguments, then maps `ceil(len / PAGE_SIZE)` pages with
`vmmap_map` in the `VMMAP_DIR_HILO` direction (`addr` and `MAP_FIXED` choose no placement).
Returns the address of the new mapping. -/
def doMmap (files : Nat → Option File) (vnodes : Nat → Option Vnode) (m : Mem) (p : VmProc)
    (addr len : Nat) (prot : Prot) (flags : MapFlags) (fd off : Int) :
    Option (Except Errno Nat × VmProc × Mem) := do
  if len = 0 ∨ off < 0 then return (.error .EINVAL, p, m)
  if !flags.mapPrivate ∧ !flags.mapShared then return (.error .EINVAL, p, m)
  if flags.mapFixed ∧ (!K.pageAligned addr ∨ addr < K.userMemLow ∨ K.userMemHigh ≤ addr) then
    return (.error .EINVAL, p, m)
  if !K.pageAligned off.toNat then return (.error .EINVAL, p, m)
  let npages := K.addrToPn (K.pageAlignUp len)
  let finish : Except Errno Vmarea × Vmmap × Mem → Except Errno Nat × VmProc × Mem
    | (.error e, map, m) => (.error e, { p with pVmmap := map }, m)
    | (.ok v, map, m) => (.ok (K.pnToAddr v.vmaStart), { p with pVmmap := map }, m)
  if flags.mapAnon then
    if fd ≠ -1 then return (.error .EINVAL, p, m)
    return finish (← vmmapMap K m p.pVmmap none npages prot flags off.toNat .hilo)
  if fd < 0 ∨ K.nfiles ≤ fd then return (.error .EBADF, p, m)
  let some f := files fd.toNat | return (.error .EBADF, p, m)
  if prot.protRead ∧ !f.fMode.fmodeRead then return (.error .EACCES, p, m)
  if prot.protWrite then
    if flags.mapShared ∧ !f.fMode.fmodeWrite then return (.error .EACCES, p, m)
    if f.fMode.fmodeAppend then return (.error .EACCES, p, m)
  let some vn := vnodes f.fVnode | none
  if !vn.vnOps.mmap then return (.error .ENODEV, p, m)
  return finish (← vmmapMap K m p.pVmmap (some ⟨some vn.vnMobj⟩) npages prot flags off.toNat .hilo)

/-- `do_munmap`: validates the start address and removes `ceil(len / PAGE_SIZE)` pages. -/
def doMunmap (m : Mem) (p : VmProc) (addr len : Nat) : Option (Except Errno Unit × VmProc × Mem) :=
  if len = 0 ∨ !K.pageAligned addr ∨ addr < K.userMemLow ∨ K.userMemHigh ≤ addr then
    some (.error .EINVAL, p, m)
  else do
    let (map, m) ← vmmapRemove m p.pVmmap (K.addrToPn addr) (K.addrToPn (K.pageAlignUp len))
    some (.ok (), { p with pVmmap := map }, m)

/-- Mapping three anonymous pages and unmapping the middle one leaves the address space unsorted:
`vmmap_remove` puts the upper part before the lower one. -/
theorem munmap_middle_page_unsorted :
    ∃ a p m p' m', doMmap sampleConsts (fun _ => none) (fun _ => none) (Mem.init fun _ => false)
        (VmProc.init 0) 0 (3 * 4096) ⟨true, true, false⟩ ⟨false, true, false, true⟩ (-1) 0 =
        some (.ok a, p, m) ∧
      doMunmap sampleConsts m p (a + 4096) 4096 = some (.ok (), p', m') ∧
      ¬ WellFormed sampleConsts p'.pVmmap.vmmList :=
  ⟨_, _, _, _, _, rfl, rfl, by decide⟩

/-- In the same run, the two parts share the anonymous object, which still has one reference:
the split takes none for the copy. -/
theorem munmap_middle_page_refcount_short :
    ∃ a p m p' m' o x, doMmap sampleConsts (fun _ => none) (fun _ => none)
        (Mem.init fun _ => false) (VmProc.init 0) 0 (3 * 4096) ⟨true, true, false⟩
        ⟨false, true, false, true⟩ (-1) 0 = some (.ok a, p, m) ∧
      doMunmap sampleConsts m p (a + 4096) 4096 = some (.ok (), p', m') ∧
      m'.mobjs o = some x ∧ x.moRefcount < (p'.pVmmap.vmmList.filter (·.vmaObj = some o)).length :=
  ⟨_, _, _, _, _, 2, _, rfl, rfl, rfl, by decide⟩

/-- Set the end of the vmarea at address `id` in the list. -/
def setVmaEnd (l : List Vmarea) (id e : Nat) : List Vmarea :=
  l.map fun v => if v.vmaId = id then { v with vmaEnd := e } else v

/-- The store `vma->vma_end = e` through a pointer to the vmarea at address `id`: into the list
while the vmarea is live, undefined once `slab_obj_free` has taken it back. -/
def storeVmaEnd (m : Mem) (l : List Vmarea) (id e : Nat) : Option (List Vmarea) :=
  if id ∈ m.freed then none else some (setVmaEnd l id e)

/-- The heap vmarea of `do_brk`: `PROT_READ | PROT_WRITE`, `MAP_PRIVATE | MAP_ANON`. -/
def heapVmarea (id start stop obj mapId : Nat) : Vmarea :=
  ⟨id, start, stop, 0, ⟨true, true, false⟩, ⟨false, true, false, true⟩, some obj, mapId⟩

/-- `do_brk`. An unset `p_start_brk` or `p_brk` is first set to `USER_MEM_LOW`, on every path
past the `NULL` case. The heap vmarea is the first one starting at the page of `p_start_brk`;
`do_brk` keeps a pointer to it across `vmmap_remove`. -/
def doBrk (m : Mem) (p : VmProc) (addr : Nat) : Option (Except Errno Nat × VmProc × Mem) := do
  if addr = 0 then
    let p := if p.pBrk = 0 then { p with pStartBrk := K.userMemLow, pBrk := K.userMemLow } else p
    return (.ok p.pBrk, p, m)
  let p := if p.pStartBrk = 0 then { p with pStartBrk := K.userMemLow } else p
  let p := if p.pBrk = 0 then { p with pBrk := p.pStartBrk } else p
  let newBrk := addr
  let startBrk := p.pStartBrk
  let currentBrk := p.pBrk
  if newBrk < startBrk ∨ K.userMemHigh < newBrk then return (.error .ENOMEM, p, m)
  let startPage := K.addrToPn (K.pageAlignUp startBrk)
  let newPage := K.addrToPn (K.pageAlignUp newBrk)
  let heapVma := p.pVmmap.vmmList.find? (·.vmaStart = startPage)
  if newBrk = currentBrk then return (.ok newBrk, p, m)
  let done (map : Vmmap) (m : Mem) : Except Errno Nat × VmProc × Mem :=
    (.ok newBrk, { p with pVmmap := map, pBrk := newBrk }, m)
  if currentBrk < newBrk then
    let expandStart := K.pageAlignUp currentBrk
    let expandPages := K.addrToPn (sizeSub (K.pageAlignUp newBrk) expandStart)
    if expandPages = 0 then return done p.pVmmap m
    if !vmmapIsRangeEmpty p.pVmmap.vmmList (K.addrToPn expandStart) expandPages then
      return (.error .ENOMEM, p, m)
    match heapVma with
    | some h =>
      return done { p.pVmmap with
        vmmList := ← storeVmaEnd m p.pVmmap.vmmList h.vmaId newPage } m
    | none =>
      match m.slab.alloc with
      | (none, s) => return (.error .ENOMEM, p, { m with slab := s })
      | (some a, s) =>
        match anonCreate { m with slab := s } with
        | (none, m) => return (.error .ENOMEM, p, m.slabObjFree a)
        | (some o, m) =>
          return done
            (← vmmapInsert K p.pVmmap (heapVmarea a startPage newPage o p.pVmmap.vmmId)) m
  else
    match heapVma with
    | none => return done p.pVmmap m
    | some h =>
      let shrinkStart := K.pageAlignUp newBrk
      let shrinkPages := K.addrToPn (sizeSub (K.pageAlignUp currentBrk) shrinkStart)
      if shrinkPages = 0 then return done p.pVmmap m
      let (map, m) ← vmmapRemove m p.pVmmap (K.addrToPn shrinkStart) shrinkPages
      return done { map with vmmList := ← storeVmaEnd m map.vmmList h.vmaId newPage } m

end Weenix
