import Weenix.Vm.Mmap

/-!
# What `do_brk` and `do_mmap` return

Runs of the system calls of `vm/brk.c` and `vm/mmap.c` (`Weenix.Vm.Mmap`) against what their
callers expect of them.

1. A `brk` that shrinks the heap back to its first page frees the heap vmarea in `vmmap_remove`
   and then stores its new end through the freed pointer
   (`brk_shrink_to_start_stores_to_freed_vmarea`). Every call that does return keeps the
   contract: an error leaves the process and every memory object as they were, and a success
   moves the break to `addr` (`doBrk_cases`).
2. `MAP_FIXED` chooses no placement: the mapping lands where `vmmap_find_range` puts it, not at
   `addr` (`mmap_fixed_lands_elsewhere`).
3. The argument checks of `do_mmap` let a write-only descriptor be mapped, and accept flags with
   both `MAP_PRIVATE` and `MAP_SHARED` (`mmap_write_only_fd_accepted`).
4. In general, `do_mmap` uses `addr` only to check it (`doMmap_addr_irrelevant`), and an error
   return leaves the address space and every memory object as they were (`doMmap_error`).
-/

namespace Weenix

/-! ## `do_brk` -/

/-- From a fresh process, `brk(USER_MEM_LOW + 2 * PAGE_SIZE)` creates the heap vmarea `h` over
pages `[1024, 1026)`, and `brk(USER_MEM_LOW)` then removes those pages: `vmmap_remove` frees `h`,
which `do_brk` found before the call, and the store `heap_vma->vma_end = new_page` that follows
goes through the freed pointer, so the call has no defined result. -/
theorem brk_shrink_to_start_stores_to_freed_vmarea :
    ∃ p₁ m₁ p₂ m₂ h map m',
      doBrk sampleConsts (Mem.init fun _ => false) (VmProc.init 0) 0x400000 =
        some (.ok 0x400000, p₁, m₁) ∧
      doBrk sampleConsts m₁ p₁ 0x402000 = some (.ok 0x402000, p₂, m₂) ∧
      p₂.pVmmap.vmmList.find? (·.vmaStart = 1024) = some h ∧ h.vmaEnd = 1026 ∧
      h.vmaId ∉ m₂.freed ∧
      vmmapRemove m₂ p₂.pVmmap 1024 2 = some (map, m') ∧ map.vmmList = [] ∧ h.vmaId ∈ m'.freed ∧
      storeVmaEnd m' map.vmmList h.vmaId 1024 = none ∧
      doBrk sampleConsts m₂ p₂ 0x400000 = none :=
  ⟨_, _, _, _, _, _, _, rfl, rfl, rfl, rfl, by decide, rfl, rfl, by decide, rfl, rfl⟩

section Brk

variable (K : Consts) {m m' : Mem} {p p' : VmProc} {addr : Nat} {r : Except Errno Nat}

/-- From a process whose break is set, `do_brk(NULL)` returns `p_brk` and changes nothing; every
error is `-ENOMEM` and leaves the process and every memory object as they were; every success
sets `p_brk` to `addr`. -/
theorem doBrk_cases (hs : p.pStartBrk ≠ 0) (hb : p.pBrk ≠ 0)
    (h : doBrk K m p addr = some (r, p', m')) :
    addr = 0 ∧ r = .ok p.pBrk ∧ p' = p ∧ m' = m ∨
      addr ≠ 0 ∧ r = .error .ENOMEM ∧ p' = p ∧ m'.mobjs = m.mobjs ∨
      addr ≠ 0 ∧ r = .ok addr ∧ p'.pBrk = addr := by
  simp only [doBrk, hs, hb, if_false, Option.bind_eq_bind, Option.pure_def, Option.some_bind] at h
  obtain ⟨h0, h⟩ | ⟨h0, h⟩ := ite_eq_iff.1 h
  · cases h
    exact .inl ⟨h0, rfl, rfl, rfl⟩
  -- the bounds, then a break that does not move
  obtain ⟨-, h⟩ | ⟨-, h⟩ := ite_eq_iff.1 h
  · cases h; exact .inr (.inl ⟨h0, rfl, rfl, rfl⟩)
  obtain ⟨he, h⟩ | ⟨-, h⟩ := ite_eq_iff.1 h
  · cases h; exact .inr (.inr ⟨h0, rfl, he.symm⟩)
  obtain ⟨-, h⟩ | ⟨-, h⟩ := ite_eq_iff.1 h
  · -- the heap grows
    obtain ⟨-, h⟩ | ⟨-, h⟩ := ite_eq_iff.1 h
    · cases h; exact .inr (.inr ⟨h0, rfl, rfl⟩)
    obtain ⟨-, h⟩ | ⟨-, h⟩ := ite_eq_iff.1 h
    · cases h; exact .inr (.inl ⟨h0, rfl, rfl, rfl⟩)
    split at h
    · obtain ⟨_, -, h⟩ := Option.bind_eq_some.1 h
      cases h; exact .inr (.inr ⟨h0, rfl, rfl⟩)
    rcases hal : m.slab.alloc with ⟨_ | a, s⟩ <;> rw [hal] at h
    · cases h; exact .inr (.inl ⟨h0, rfl, rfl, rfl⟩)
    dsimp only at h
    rcases han : anonCreate { m with slab := s } with ⟨_ | o, m₁⟩ <;> rw [han] at h
    · cases h; exact .inr (.inl ⟨h0, rfl, rfl, (anonCreate_none han).trans rfl⟩)
    · obtain ⟨_, -, h⟩ := Option.bind_eq_some.1 h
      cases h; exact .inr (.inr ⟨h0, rfl, rfl⟩)
  · -- the heap shrinks
    split at h
    · cases h; exact .inr (.inr ⟨h0, rfl, rfl⟩)
    obtain ⟨-, h⟩ | ⟨-, h⟩ := ite_eq_iff.1 h
    · cases h; exact .inr (.inr ⟨h0, rfl, rfl⟩)
    obtain ⟨_, -, h⟩ := Option.bind_eq_some.1 h
    obtain ⟨_, -, h⟩ := Option.bind_eq_some.1 h
    cases h; exact .inr (.inr ⟨h0, rfl, rfl⟩)

/-- Growing by two pages the heap of a process whose break is `USER_MEM_LOW`. -/
theorem doBrk_cases_grow :
    ∃ r p' m', doBrk sampleConsts (Mem.init fun _ => false) ⟨⟨0, []⟩, 0x400000, 0x400000⟩
        0x402000 = some (r, p', m') ∧
      (0x402000 = 0 ∧ r = .ok 0x400000 ∧ p' = ⟨⟨0, []⟩, 0x400000, 0x400000⟩ ∧
          m' = Mem.init (fun _ => false) ∨
        0x402000 ≠ 0 ∧ r = .error .ENOMEM ∧ p' = ⟨⟨0, []⟩, 0x400000, 0x400000⟩ ∧
          m'.mobjs = (Mem.init fun _ => false).mobjs ∨
        0x402000 ≠ 0 ∧ r = .ok 0x402000 ∧ p'.pBrk = 0x402000) :=
  have h : doBrk sampleConsts (Mem.init fun _ => false) ⟨⟨0, []⟩, 0x400000, 0x400000⟩
      0x402000 = some (_, _, _) := rfl
  ⟨_, _, _, h, doBrk_cases sampleConsts (by decide) (by decide) h⟩

end Brk

/-! ## `do_mmap` -/

/-- `mmap(USER_MEM_LOW, PAGE_SIZE, PROT_READ | PROT_WRITE, MAP_PRIVATE | MAP_FIXED | MAP_ANON)`
into an empty address space succeeds at the top page of user memory. -/
theorem mmap_fixed_lands_elsewhere :
    ∃ r p' m', doMmap sampleConsts (fun _ => none) (fun _ => none) (Mem.init fun _ => false)
        (VmProc.init 0) 0x400000 4096 ⟨true, true, false⟩ ⟨false, true, true, true⟩ (-1) 0 =
        some (.ok r, p', m') ∧ r = 0x800000000000 - 4096 ∧ r ≠ 0x400000 :=
  ⟨_, _, _, rfl, rfl, by decide⟩

/-- Descriptor 3, open write-only on vnode 7. -/
def writeOnlyFiles (fd : Nat) : Option File :=
  if fd = 3 then some ⟨7, ⟨false, true, false⟩, 0, 1⟩ else none

/-- Vnode 7, a regular file whose `mmap` operation hands out object 1. -/
def mmapVnodes (vn : Nat) : Option Vnode :=
  if vn = 7 then
    some ⟨.reg, 4096, false, ⟨true, true, false, false, false, false, false, false, true, true,
      true⟩, 1⟩
  else none

/-- A heap holding object 1. -/
def fileHeap : Mem := (anonCreate (Mem.init fun _ => false)).2

/-- A file mapping with `PROT_WRITE` and `MAP_PRIVATE` of a descriptor that is not open for
reading succeeds, and so does an anonymous mapping with both `MAP_PRIVATE` and `MAP_SHARED`. -/
theorem mmap_write_only_fd_accepted :
    (writeOnlyFiles 3).map (·.fMode.fmodeRead) = some false ∧
      (∃ r p' m', doMmap sampleConsts writeOnlyFiles mmapVnodes fileHeap (VmProc.init 0) 0 4096
        ⟨false, true, false⟩ ⟨false, true, false, false⟩ 3 0 = some (.ok r, p', m')) ∧
      ∃ r p' m', doMmap sampleConsts (fun _ => none) (fun _ => none) (Mem.init fun _ => false)
        (VmProc.init 0) 0 4096 ⟨true, true, false⟩ ⟨true, true, false, true⟩ (-1) 0 =
        some (.ok r, p', m') :=
  ⟨rfl, ⟨_, _, _, rfl⟩, ⟨_, _, _, rfl⟩⟩

/-! ## The address, and what an error leaves -/

section General

variable (K : Consts) {m m' : Mem} {files : Nat → Option File} {vnodes : Nat → Option Vnode}
  {p p' : VmProc} {len : Nat} {prot : Prot} {flags : MapFlags} {fd off : Int} {e : Errno}

/-- `do_mmap` uses `addr` only in the check of `MAP_FIXED`: two addresses that pass it, or any two
without `MAP_FIXED`, give the same run. -/
theorem doMmap_addr_irrelevant {addr addr' : Nat}
    (h : flags.mapFixed = true →
      (K.pageAligned addr = true ∧ K.userMemLow ≤ addr ∧ addr < K.userMemHigh) ∧
        (K.pageAligned addr' = true ∧ K.userMemLow ≤ addr' ∧ addr' < K.userMemHigh)) :
    doMmap K files vnodes m p addr len prot flags fd off =
      doMmap K files vnodes m p addr' len prot flags fd off := by
  have hc : ∀ a, (flags.mapFixed = true →
      K.pageAligned a = true ∧ K.userMemLow ≤ a ∧ a < K.userMemHigh) →
      ¬ (flags.mapFixed = true ∧
        ((!K.pageAligned a) = true ∨ a < K.userMemLow ∨ K.userMemHigh ≤ a)) := by
    rintro a ha ⟨hf, hb⟩
    obtain ⟨h1, h2, h3⟩ := ha hf
    simp only [h1, Bool.not_true, Bool.false_eq_true, false_or] at hb
    omega
  simp only [doMmap]
  rw [if_neg (hc addr fun hf => (h hf).1), if_neg (hc addr' fun hf => (h hf).2)]

/-- `MAP_FIXED` at `USER_MEM_LOW` and at `0x800000`. -/
theorem doMmap_addr_irrelevant_fixed :
    ((⟨false, true, true, true⟩ : MapFlags).mapFixed = true →
      (sampleConsts.pageAligned 0x400000 = true ∧ sampleConsts.userMemLow ≤ 0x400000 ∧
        0x400000 < sampleConsts.userMemHigh) ∧
      (sampleConsts.pageAligned 0x800000 = true ∧ sampleConsts.userMemLow ≤ 0x800000 ∧
        0x800000 < sampleConsts.userMemHigh)) ∧
    doMmap sampleConsts (fun _ => none) (fun _ => none) (Mem.init fun _ => false) (VmProc.init 0)
        0x400000 4096 ⟨true, true, false⟩ ⟨false, true, true, true⟩ (-1) 0 =
      doMmap sampleConsts (fun _ => none) (fun _ => none) (Mem.init fun _ => false) (VmProc.init 0)
        0x800000 4096 ⟨true, true, false⟩ ⟨false, true, true, true⟩ (-1) 0 :=
  ⟨by decide, doMmap_addr_irrelevant _ (by decide)⟩

/-- An error of `vmmap_map` leaves the map and every memory object as they were. -/
theorem vmmapMap_error {map map' : Vmmap} {file : Option MmapVnode} {npages o : Nat} {dir : Dir}
    (h : vmmapMap K m map file npages prot flags o dir = some (.error e, map', m')) :
    map' = map ∧ m'.mobjs = m.mobjs := by
  simp only [vmmapMap, Option.bind_eq_bind, Option.pure_def, Option.some_bind] at h
  obtain ⟨-, h⟩ | ⟨-, h⟩ := ite_eq_iff.1 h
  · cases h; exact ⟨rfl, rfl⟩
  obtain ⟨-, h⟩ | ⟨-, h⟩ := ite_eq_iff.1 h
  · cases h; exact ⟨rfl, rfl⟩
  rcases hal : m.slab.alloc with ⟨_ | a, s⟩ <;> rw [hal] at h
  · cases h; exact ⟨rfl, rfl⟩
  dsimp only at h
  obtain ⟨-, h⟩ | ⟨-, h⟩ := ite_eq_iff.1 h
  · rcases han : anonCreate { m with slab := s } with ⟨_ | _, m₁⟩ <;> rw [han] at h
    · cases h; exact ⟨rfl, (anonCreate_none han).trans rfl⟩
    · obtain ⟨_, -, h⟩ := Option.bind_eq_some.1 h
      cases h
  · split at h
    · split at h
      · cases h; exact ⟨rfl, rfl⟩
      · obtain ⟨_, -, h⟩ := Option.bind_eq_some.1 h
        obtain ⟨_, -, h⟩ := Option.bind_eq_some.1 h
        cases h
    · cases h; exact ⟨rfl, rfl⟩

/-- Every error return of `do_mmap` leaves the address space and every memory object as they
were; only the allocator may have moved on. -/
theorem doMmap_error {addr : Nat}
    (h : doMmap K files vnodes m p addr len prot flags fd off = some (.error e, p', m')) :
    p' = p ∧ m'.mobjs = m.mobjs := by
  have direct : ∀ {x : Errno},
      (some (.error x, p, m) : Option (Except Errno Nat × VmProc × Mem)) =
        some (.error e, p', m') → p' = p ∧ m'.mobjs = m.mobjs := by
    intro _ h; cases h; exact ⟨rfl, rfl⟩
  have finish : ∀ {file : Option MmapVnode} {r : Except Errno Vmarea × Vmmap × Mem},
      vmmapMap K m p.pVmmap file (K.addrToPn (K.pageAlignUp len)) prot flags off.toNat .hilo =
        some r →
      (some (match r with
        | (.error e, map, m) => (Except.error e, { p with pVmmap := map }, m)
        | (.ok v, map, m) => (.ok (K.pnToAddr v.vmaStart), { p with pVmmap := map }, m)) :
        Option (Except Errno Nat × VmProc × Mem)) = some (.error e, p', m') →
      p' = p ∧ m'.mobjs = m.mobjs := by
    rintro _ ⟨_ | _, map₁, m₁⟩ hr h <;> cases h
    obtain ⟨rfl, hm⟩ := vmmapMap_error K hr
    exact ⟨rfl, hm⟩
  simp only [doMmap, Option.bind_eq_bind, Option.pure_def, Option.some_bind] at h
  -- the four checks of the arguments
  iterate 4
    obtain ⟨-, h⟩ | ⟨-, h⟩ := ite_eq_iff.1 h
    · exact direct h
  obtain ⟨-, h⟩ | ⟨-, h⟩ := ite_eq_iff.1 h
  · -- `MAP_ANON`
    obtain ⟨-, h⟩ | ⟨-, h⟩ := ite_eq_iff.1 h
    · exact direct h
    obtain ⟨_, hr, h⟩ := Option.bind_eq_some.1 h
    exact finish hr h
  -- a file mapping
  obtain ⟨-, h⟩ | ⟨-, h⟩ := ite_eq_iff.1 h
  · exact direct h
  rcases hf : files fd.toNat with _ | f <;> rw [hf] at h
  · exact direct h
  dsimp only at h
  obtain ⟨-, h⟩ | ⟨-, h⟩ := ite_eq_iff.1 h
  · exact direct h
  obtain ⟨-, h⟩ | ⟨-, h⟩ := ite_eq_iff.1 h
  on_goal 1 =>
    obtain ⟨-, h⟩ | ⟨-, h⟩ := ite_eq_iff.1 h
    · exact direct h
    obtain ⟨-, h⟩ | ⟨-, h⟩ := ite_eq_iff.1 h
    · exact direct h
  -- the vnode's `mmap`, with `PROT_WRITE` and without
  all_goals
    rcases hv : vnodes f.fVnode with _ | vn <;> simp only [hv] at h
    · cases h
    obtain ⟨-, h⟩ | ⟨-, h⟩ := ite_eq_iff.1 h
    · exact direct h
    obtain ⟨_, hr, h⟩ := Option.bind_eq_some.1 h
    exact finish hr h

/-- An anonymous mapping whose vmarea allocation fails. -/
theorem doMmap_error_oom :
    ∃ p' m', doMmap sampleConsts (fun _ => none) (fun _ => none) (Mem.init fun n => n == 1)
        (VmProc.init 0) 0 4096 ⟨true, true, false⟩ ⟨false, true, false, true⟩ (-1) 0 =
        some (.error .ENOMEM, p', m') ∧
      (p' = VmProc.init 0 ∧ m'.mobjs = (Mem.init fun n => n == 1).mobjs) :=
  have h : doMmap sampleConsts (fun _ => none) (fun _ => none) (Mem.init fun n => n == 1)
      (VmProc.init 0) 0 4096 ⟨true, true, false⟩ ⟨false, true, false, true⟩ (-1) 0 =
      some (.error .ENOMEM, _, _) := rfl
  ⟨_, _, h, doMmap_error sampleConsts h⟩

end General

end Weenix
