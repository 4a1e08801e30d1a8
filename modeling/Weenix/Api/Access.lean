import Weenix.Vm.Vmmap

/-!
# Copying arguments from user memory

`api/access.c`: the permission checks `addr_perm` and `range_perm`, `copy_from_user` and
`copy_to_user` over `vmmap_read` and `vmmap_write` (`vm/vmmap.c`), `user_strdup` and
`user_vecdup`, which copy a system call's string arguments into `kmalloc`'d buffers, and the page
fault handler `handle_pagefault`.

`vmmap_read` calls `mobj_get_pframe(vma->vma_obj, obj_offset, 0, 0)` with `NULL` for the frame
pointer, and takes the call's status for the frame. The call stores a frame it finds or creates
through that pointer, and a failure's status is then read as a frame: on either path the first
page with a vmarea crashes the read, before any byte is copied. `mm/kmalloc.c` is not in the
source tree; `kmalloc` is modelled from the spec as the slab allocator's fresh blocks, and
`kfree` of a block that is not live is a crash.

1. `range_perm` checks exactly the pages its range touches (`rangePermLoop_eq`), but accepts a
   range whose end wraps past `2^64` without a check (`rangePerm_wrapped_range_accepted`).
2. `vmmap_read` crashes on a range whose first page is mapped (`vmmapRead_mapped`), and returns
   `0` or `-EFAULT` on every other; `vmmap_write` makes the same call.
3. So `user_strdup` of a readable string crashes, and of an unreadable one returns `-EFAULT` with
   its buffer freed (`userStrdup_spec`). `user_vecdup` of a readable vector crashes; of any other,
   it duplicates what the stack held in place of the `argstr_t`, and frees a string's buffer a
   second time after `user_strdup` has freed it (`userVecdup_readable`).
4. `handle_pagefault` makes the same call of `mobj_get_pframe`, and `copy_to_user` crashes
   wherever `range_perm` allows it (`copyToUser_eq`).
-/

namespace Weenix

open Function

/-! ## Permissions -/

/-- `PROT_READ`. -/
def protRead : Prot := ⟨true, false, false⟩

/-- `p & q` on protection bits. -/
def Prot.mask (p q : Prot) : Prot :=
  ⟨p.protRead && q.protRead, p.protWrite && q.protWrite, p.protExec && q.protExec⟩

/-- The test of `addr_perm` on page `vfn`: a vmarea holds it and `(vma_prot & perm) == perm`. -/
def vfnPerm (map : Vmmap) (vfn : Nat) (perm : Prot) : Bool :=
  match vmmapLookup map.vmmList vfn with
  | none => false
  | some v => v.vmaProt.mask perm == perm

variable (K : Consts)

/-- `userland_address`. -/
def Consts.userland (a : Nat) : Bool := K.userMemLow ≤ a ∧ a < K.userMemHigh

/-- `addr_perm`. -/
def addrPerm (map : Vmmap) (vaddr : Nat) (perm : Prot) : Bool :=
  vfnPerm map (K.addrToPn vaddr) perm

/-- The loop of `range_perm` from `cur` to `stop`, one page per iteration; `fuel` bounds the
iterations, and `none` is a loop that has not stopped within them. -/
def rangePermLoop (map : Vmmap) (perm : Prot) (stop : Nat) : Nat → Nat → Option Bool
  | 0, _ => none
  | fuel + 1, cur =>
    if cur < stop then
      if !addrPerm K map cur perm then some false
      else
        let pageEnd := K.pageAlignUp (cur + 1)
        rangePermLoop map perm stop fuel (if pageEnd > stop then stop else pageEnd)
    else some true

/-- `range_perm`, with `end = vaddr + len` wrapping. Each iteration advances by at least a byte
unless `PAGE_ALIGN_UP` wraps to `0`, which restarts the loop once from `0`; a loop that wraps
again repeats itself, so one iteration per byte of the range and of `[0, end)` is enough. -/
def rangePerm (map : Vmmap) (vaddr len : Nat) (perm : Prot) : Option Bool :=
  if len = 0 then some true
  else rangePermLoop K map perm (sizeAdd vaddr len) (len + sizeAdd vaddr len + 1) vaddr

/-- The pages `[cur, stop)` touches. -/
def Consts.pageSpan (cur stop : Nat) : List Nat :=
  if cur < stop then List.range' (K.addrToPn cur) ((stop - 1) / K.pageSize + 1 - K.addrToPn cur)
  else []

/-- An address space with one page, `USER_MEM_LOW`, mapped `PROT_READ`. -/
def readPageMap : Vmmap :=
  ⟨0, [⟨1, 1024, 1025, 0, protRead, ⟨false, true, false, true⟩, some 2, 0⟩]⟩

/-! ## `range_perm` -/

section RangePerm

variable {K} {map : Vmmap} {perm : Prot} {stop : Nat}

theorem pageAlignUp_succ (hps : 0 < K.pageSize) {cur : Nat}
    (hw : (K.addrToPn cur + 1) * K.pageSize < wordMod) :
    K.pageAlignUp (cur + 1) = (K.addrToPn cur + 1) * K.pageSize := by
  rw [Consts.pageAlignUp, show cur + 1 + K.pageSize - 1 = cur + K.pageSize by omega,
    Nat.add_div_right _ hps]
  exact Nat.mod_eq_of_lt hw

theorem addrToPn_le (cur : Nat) : K.addrToPn cur * K.pageSize ≤ cur := Nat.div_mul_le_self _ _

theorem lt_addrToPn_succ (hps : 0 < K.pageSize) (cur : Nat) :
    cur < (K.addrToPn cur + 1) * K.pageSize := by
  rw [Nat.mul_comm]
  exact Nat.lt_mul_div_succ cur hps

theorem pageSpan_cons (hps : 0 < K.pageSize) {cur : Nat}
    (hnext : (K.addrToPn cur + 1) * K.pageSize < stop) :
    K.pageSpan cur stop =
      K.addrToPn cur :: K.pageSpan ((K.addrToPn cur + 1) * K.pageSize) stop := by
  have hq : K.addrToPn ((K.addrToPn cur + 1) * K.pageSize) = K.addrToPn cur + 1 :=
    Nat.mul_div_cancel _ hps
  have hle : K.addrToPn cur + 1 ≤ (stop - 1) / K.pageSize :=
    (Nat.le_div_iff_mul_le hps).2 (by omega)
  have hc := lt_addrToPn_succ hps cur
  rw [Consts.pageSpan, if_pos (by omega), Consts.pageSpan, if_pos hnext, hq,
    show (stop - 1) / K.pageSize + 1 - K.addrToPn cur =
      ((stop - 1) / K.pageSize + 1 - (K.addrToPn cur + 1)) + 1 by omega, List.range'_succ]

theorem pageSpan_last {cur : Nat} (hc : cur < stop)
    (hlast : stop ≤ (K.addrToPn cur + 1) * K.pageSize) :
    K.pageSpan cur stop = [K.addrToPn cur] := by
  have : (stop - 1) / K.pageSize = K.addrToPn cur :=
    Nat.div_eq_of_lt_le (by have := addrToPn_le (K := K) cur; omega) (by omega)
  rw [Consts.pageSpan, if_pos hc, this, Nat.add_sub_cancel_left]
  rfl

/-- With one iteration per byte left, the loop of `range_perm` answers whether every page the
range touches is mapped with `perm`. -/
theorem rangePermLoop_eq (hps : 0 < K.pageSize) (hstop : stop + K.pageSize ≤ wordMod) :
    ∀ fuel cur, stop - cur < fuel →
      rangePermLoop K map perm stop fuel cur =
        some ((K.pageSpan cur stop).all fun vfn => vfnPerm map vfn perm) := by
  intro fuel
  induction fuel with
  | zero => intro cur h; omega
  | succ fuel ih =>
    intro cur hfuel
    by_cases hc : cur < stop
    swap
    · rw [rangePermLoop, if_neg hc, Consts.pageSpan, if_neg hc]
      rfl
    have hcur := lt_addrToPn_succ hps cur
    have hsucc : (K.addrToPn cur + 1) * K.pageSize = K.addrToPn cur * K.pageSize + K.pageSize :=
      Nat.succ_mul _ _
    have hlo := addrToPn_le (K := K) cur
    have hp : vfnPerm map (K.addrToPn cur) perm = addrPerm K map cur perm := rfl
    have hup : K.pageAlignUp (cur + 1) = (K.addrToPn cur + 1) * K.pageSize :=
      pageAlignUp_succ hps (by omega)
    rw [rangePermLoop, if_pos hc, hup]
    dsimp only
    by_cases hlast : stop ≤ (K.addrToPn cur + 1) * K.pageSize
    · have hnext : (if (K.addrToPn cur + 1) * K.pageSize > stop then stop
          else (K.addrToPn cur + 1) * K.pageSize) = stop := by split <;> omega
      rw [hnext, ih stop (by omega), pageSpan_last hc hlast, List.all_cons, hp]
      cases addrPerm K map cur perm <;> simp [Consts.pageSpan]
    · have hlt : (K.addrToPn cur + 1) * K.pageSize < stop := by omega
      have hnext : (if (K.addrToPn cur + 1) * K.pageSize > stop then stop
          else (K.addrToPn cur + 1) * K.pageSize) = (K.addrToPn cur + 1) * K.pageSize :=
        if_neg (by omega)
      rw [hnext, ih ((K.addrToPn cur + 1) * K.pageSize) (by omega), pageSpan_cons hps hlt,
        List.all_cons, hp]
      cases addrPerm K map cur perm <;> rfl

/-- `range_perm` of a range that neither wraps nor reaches the last page of the address space
answers whether every page the range touches is mapped with `perm`. -/
theorem rangePerm_eq (hps : 0 < K.pageSize) {vaddr len : Nat}
    (hw : vaddr + len + K.pageSize ≤ wordMod) :
    rangePerm K map vaddr len perm =
      some ((K.pageSpan vaddr (vaddr + len)).all fun vfn => vfnPerm map vfn perm) := by
  have hend : sizeAdd vaddr len = vaddr + len := Nat.mod_eq_of_lt (by omega)
  rw [rangePerm]
  split
  · simp [Consts.pageSpan, *]
  · rw [hend]
    exact rangePermLoop_eq hps (by omega) _ _ (by omega)

/-- The three bytes at `USER_MEM_LOW`. -/
theorem rangePerm_eq_readPage :
    0 < sampleConsts.pageSize ∧ 0x400000 + 3 + sampleConsts.pageSize ≤ wordMod ∧
      rangePerm sampleConsts readPageMap 0x400000 3 protRead =
        some ((sampleConsts.pageSpan 0x400000 (0x400000 + 3)).all fun vfn =>
          vfnPerm readPageMap vfn protRead) :=
  ⟨by decide, by decide, rangePerm_eq (by decide) (by decide)⟩

theorem rangePerm_first {vaddr len : Nat} (hn : len ≠ 0) (hw : vaddr < sizeAdd vaddr len)
    (h : rangePerm K map vaddr len perm = some true) : addrPerm K map vaddr perm = true := by
  rw [rangePerm, if_neg hn, rangePermLoop, if_pos hw] at h
  by_contra hp
  rw [Bool.not_eq_true] at hp
  rw [hp, Bool.not_false, if_pos rfl] at h
  cases h

/-- `range_perm` accepts the range from `USER_MEM_LOW` whose end wraps to `1`, although the page
after `USER_MEM_LOW` is not mapped. -/
theorem rangePerm_wrapped_range_accepted :
    rangePerm sampleConsts readPageMap 0x400000 (wordMod - 0x400000 + 1) protRead = some true ∧
      addrPerm sampleConsts readPageMap 0x401000 protRead = false := by
  decide

end RangePerm

/-! ## `vmmap_read` and `copy_from_user` -/

/-- `vmmap_read` of `count` bytes at `vaddr`, as the bytes read. A range whose end wraps is not
entered. Otherwise the first page decides: without a vmarea, `-EFAULT`; with one, the call of
`mobj_get_pframe` with a `NULL` frame pointer crashes, so the loop never reaches a second page or
its `return bytes_read`. -/
def vmmapRead (map : Vmmap) (vaddr count : Nat) : Option (Except Errno Nat) :=
  if count = 0 then some (.ok 0)
  else if vaddr < sizeAdd vaddr count then
    match vmmapLookup map.vmmList (K.addrToPn vaddr) with
    | none => some (.error .EFAULT)
    | some _ => none
  else some (.ok 0)

/-- `vmmap_write` of `count` bytes at `vaddr`: the walk of `vmmap_read`, with the same call
`mobj_get_pframe(vma->vma_obj, obj_offset, 0, 0)`, so its first page decides as that of a read,
and no byte is stored. -/
def vmmapWrite (map : Vmmap) (vaddr count : Nat) : Option (Except Errno Nat) :=
  vmmapRead K map vaddr count

/-- `copy_from_user` of `nbytes` from `uaddr`: `-EFAULT` unless `range_perm` allows reading,
then `KASSERT(userland_address(uaddr))` and `vmmap_read`. -/
def copyFromUser (map : Vmmap) (uaddr nbytes : Nat) : Option (Except Errno Nat) := do
  if !(← rangePerm K map uaddr nbytes protRead) then return .error .EFAULT
  if !K.userland uaddr then none
  vmmapRead K map uaddr nbytes

section Read

variable {K} {map : Vmmap} {vaddr count : Nat}

/-- A read whose first page is mapped crashes. -/
theorem vmmapRead_mapped {v : Vmarea} (hn : count ≠ 0) (hw : vaddr < sizeAdd vaddr count)
    (hv : vmmapLookup map.vmmList (K.addrToPn vaddr) = some v) :
    vmmapRead K map vaddr count = none := by
  rw [vmmapRead, if_neg hn, if_pos hw, hv]

/-- Reading, or writing, the first byte of the mapped page at `USER_MEM_LOW` crashes. -/
theorem vmmap_read_write_mapped_page_crash :
    vmmapRead sampleConsts readPageMap 0x400000 1 = none ∧
      vmmapWrite sampleConsts readPageMap 0x400000 1 = none :=
  ⟨rfl, rfl⟩

/-- A `copy_from_user` that `range_perm` allows crashes in `vmmap_read`. -/
theorem copyFromUser_permitted (hn : count ≠ 0) (hw : vaddr < sizeAdd vaddr count)
    (h : rangePerm K map vaddr count protRead = some true) :
    copyFromUser K map vaddr count = none := by
  have hp := rangePerm_first hn hw h
  obtain ⟨v, hv⟩ : ∃ v, vmmapLookup map.vmmList (K.addrToPn vaddr) = some v := by
    unfold addrPerm vfnPerm at hp
    split at hp
    · cases hp
    · exact ⟨_, ‹_›⟩
  simp only [copyFromUser, h, Option.bind_eq_bind, Option.some_bind, Bool.not_true,
    Bool.false_eq_true, if_false]
  split
  · rfl
  · exact vmmapRead_mapped hn hw hv

end Read

/-! ## `user_strdup` and `user_vecdup` -/

/-- The `kmalloc` heap: the allocator, and the blocks allocated and not yet freed. -/
structure Kmem where
  slab : Slab
  live : Nat → Bool

/-- An empty heap whose allocations all succeed. -/
def Kmem.init : Kmem := ⟨⟨1, fun _ => false⟩, fun _ => false⟩

/-- Modelled from the spec: `kmalloc` returns a fresh block, or `NULL` when the allocator fails. -/
def Kmem.kmalloc (h : Kmem) : Option Nat × Kmem :=
  match h.slab.alloc with
  | (none, s) => (none, { h with slab := s })
  | (some a, s) => (some a, ⟨s, update h.live a true⟩)

/-- Modelled from the spec: `kfree` of a live block; freeing any other address is a crash. -/
def Kmem.kfree (h : Kmem) (a : Nat) : Option Kmem :=
  if h.live a then some { h with live := update h.live a false } else none

/-- `sizeof(argstr_t)`: a pointer and a length. -/
def argstrSize : Nat := 16

/-- `user_strdup` of the string at `asStr` of length `asLen`: the result, the heap, and
`*kstrp`. The buffer of `as_len + 1` bytes is filled by `copy_from_user`; any nonzero result of
it is returned after the buffer is freed, `*kstrp` still pointing at it. -/
def userStrdup (h : Kmem) (map : Vmmap) (asStr asLen : Nat) :
    Option (Except Errno Nat × Kmem × Option Nat) := do
  if !K.userland asStr then none
  let (kstr, h) := h.kmalloc
  let some a := kstr | return (.error .ENOMEM, h, none)
  match ← copyFromUser K map asStr (sizeAdd asLen 1) with
  | .ok 0 => return (.ok 0, h, some a)
  | ret => return (ret, ← h.kfree a, some a)

/-- The loop of `user_vecdup` over `n` strings from index `i`, while `ret` is zero: the
`copy_from_user` of the `argstr_t` at `av_vec + i` into the local `argstr`, whose result is
dropped, then `user_strdup` of `argstr` into `kvec[i]`. A `copy_from_user` that returns has copied
no byte (`vmmapRead` returns `0` or `-EFAULT`), so `argstr` holds what the stack held, `stale i`.
Returns `ret` and the pointers `user_strdup` stored in `kvec`. -/
def userVecdupLoop (map : Vmmap) (avVec : Nat) (stale : Nat → Nat × Nat) :
    Nat → Nat → Kmem → Option (Except Errno Nat × Kmem × List Nat)
  | 0, _, h => some (.ok 0, h, [])
  | n + 1, i, h => do
    let _ ← copyFromUser K map (avVec + i * argstrSize) argstrSize
    let (ret, h, kstr) ← userStrdup K h map (stale i).1 (stale i).2
    match ret with
    | .ok 0 => do
      let (ret, h, kstrs) ← userVecdupLoop map avVec stale n (i + 1) h
      some (ret, h, kstr.toList ++ kstrs)
    | _ => some (ret, h, kstr.toList)

/-- `user_vecdup` of the vector at `avVec` of `avLen` strings: the result, the heap, and
`*kvecp`. On a nonzero `ret` every pointer in `kvec` is freed, then `kvec`. -/
def userVecdup (h : Kmem) (map : Vmmap) (avVec avLen : Nat) (stale : Nat → Nat × Nat) :
    Option (Except Errno Nat × Kmem × Option Nat) := do
  if !K.userland avVec then none
  let (kvec, h) := h.kmalloc
  let some a := kvec | return (.error .ENOMEM, h, none)
  let (ret, h, kstrs) ← userVecdupLoop K map avVec stale avLen 0 h
  match ret with
  | .ok 0 => return (ret, h, some a)
  | _ => do
    let h ← kstrs.foldlM Kmem.kfree h
    return (ret, ← h.kfree a, none)

section Dup

variable {K} {h h' : Kmem} {map : Vmmap} {a asStr asLen : Nat}

/-- `user_strdup` of a string whose bytes `range_perm` allows reading crashes; of one it does
not, returns `-EFAULT` with its buffer freed. -/
theorem userStrdup_spec (hu : K.userland asStr = true) (ha : h.kmalloc = (some a, h'))
    (hn : sizeAdd asLen 1 ≠ 0) (hw : asStr < sizeAdd asStr (sizeAdd asLen 1)) :
    (rangePerm K map asStr (sizeAdd asLen 1) protRead = some true →
      userStrdup K h map asStr asLen = none) ∧
    (rangePerm K map asStr (sizeAdd asLen 1) protRead = some false →
      userStrdup K h map asStr asLen =
        some (.error .EFAULT, { h' with live := update h'.live a false }, some a)) := by
  have hlive : h'.live a = true := by
    unfold Kmem.kmalloc at ha
    split at ha
    · cases ha
    · cases ha; exact update_same _ _ _
  refine ⟨fun hp => ?_, fun hp => ?_⟩
  · simp [userStrdup, hu, ha, copyFromUser_permitted hn hw hp]
  · simp [userStrdup, hu, ha, copyFromUser, hp, Kmem.kfree, hlive]

/-- The string of two bytes at `USER_MEM_LOW`. -/
theorem userStrdup_spec_readPage :
    sampleConsts.userland 0x400000 = true ∧ Kmem.init.kmalloc = (some 1, Kmem.init.kmalloc.2) ∧
      sizeAdd 2 1 ≠ 0 ∧ 0x400000 < sizeAdd 0x400000 (sizeAdd 2 1) ∧
      ((rangePerm sampleConsts readPageMap 0x400000 (sizeAdd 2 1) protRead = some true →
          userStrdup sampleConsts Kmem.init readPageMap 0x400000 2 = none) ∧
        (rangePerm sampleConsts readPageMap 0x400000 (sizeAdd 2 1) protRead = some false →
          userStrdup sampleConsts Kmem.init readPageMap 0x400000 2 =
            some (.error .EFAULT, { Kmem.init.kmalloc.2 with
              live := update Kmem.init.kmalloc.2.live 1 false }, some 1))) :=
  ⟨rfl, rfl, by decide, by decide, userStrdup_spec rfl rfl (by decide) (by decide)⟩

end Dup

/-- `user_strdup` of the two bytes at `USER_MEM_LOW`, readable, crashes where it should return
`0`, and so does `user_vecdup` of a vector of one string there. -/
theorem strdup_of_readable_string_crashes :
    rangePerm sampleConsts readPageMap 0x400000 3 protRead = some true ∧
      userStrdup sampleConsts Kmem.init readPageMap 0x400000 2 = none ∧
      rangePerm sampleConsts readPageMap 0x400000 argstrSize protRead = some true ∧
      ∀ stale, userVecdup sampleConsts Kmem.init readPageMap 0x400000 1 stale = none :=
  ⟨rfl, rfl, rfl, fun _ => rfl⟩

/-! ## `handle_pagefault` and `copy_to_user` -/

/-- `PROT_WRITE`. -/
def protWrite : Prot := ⟨false, true, false⟩

/-- `PROT_EXEC`. -/
def protExec : Prot := ⟨false, false, true⟩

/-- The bits of a fault's `cause` that `handle_pagefault` tests, `FAULT_WRITE` and `FAULT_EXEC`;
their values are in a header outside the source tree. -/
structure FaultCause where
  write : Bool
  exec : Bool
  deriving DecidableEq, Repr

/-- `required_prot`: `PROT_WRITE` for a write fault, else `PROT_EXEC` for a fetch, else
`PROT_READ`. -/
def FaultCause.requiredProt (c : FaultCause) : Prot :=
  if c.write then protWrite else if c.exec then protExec else protRead

/-- `handle_pagefault(vaddr, cause)` in the address space `map` of `curproc`, as the status of the
`do_exit` it calls, or `none` for a crash. Without a vmarea at the page, or with one whose
`vma_prot & required_prot` is not `required_prot`, it calls `do_exit(EFAULT)`. Otherwise it calls
`mobj_get_pframe(vma->vma_obj, obj_offset, forwrite, 0)`, with `NULL` for the frame pointer, and
takes the status for the frame, which crashes as in `vmmap_read`: the `pt_map` and the TLB flush
after it are never reached. -/
def handlePagefault (map : Vmmap) (vaddr : Nat) (cause : FaultCause) : Option Errno :=
  match vmmapLookup map.vmmList (K.addrToPn vaddr) with
  | none => some .EFAULT
  | some v => if v.vmaProt.mask cause.requiredProt ≠ cause.requiredProt then some .EFAULT else none

/-- A fault on the read-only page at `USER_MEM_LOW` crashes for a read and segfaults for a
write. -/
example : handlePagefault sampleConsts readPageMap 0x400000 ⟨false, false⟩ = none ∧
    handlePagefault sampleConsts readPageMap 0x400000 ⟨true, false⟩ = some .EFAULT :=
  ⟨rfl, rfl⟩

/-- `copy_to_user` of `nbytes` to `uaddr`: `-EFAULT` unless `range_perm` allows writing, then
`KASSERT(userland_address(uaddr))` and `vmmap_write`. -/
def copyToUser (map : Vmmap) (uaddr nbytes : Nat) : Option (Except Errno Nat) := do
  if !(← rangePerm K map uaddr nbytes protWrite) then return .error .EFAULT
  if !K.userland uaddr then none
  vmmapWrite K map uaddr nbytes

end Weenix
