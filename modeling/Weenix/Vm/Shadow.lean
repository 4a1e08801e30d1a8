import Weenix.Vm.Refcount

/-!
# Shadow chains

The shape of the shadow chains of `vm/shadow.c` in every heap that `anon_create`, the vnodes'
objects, `mobj_ref`, `mobj_put` (with `shadow_destructor`), `shadow_create` and `shadow_collapse`
can build from the empty one.

Every operation keeps `Counted` and `ChainInv` (`Weenix.Vm.Refcount`). Addresses decrease along a
chain, so every chain is finite and acyclic, and it ends at its bottom, a live object that is not
a shadow; the loops of `shadow_get_pframe` and `shadow_fill_pframe` stop on it.

The mutex calls of `shadow_collapse` are not modelled, nor the frames it should migrate (it
migrates none): neither changes a chain.
-/

namespace Weenix

section Ops

variable {m m' : Mem} {hs : List Nat} {o s a : Nat} {x : Mobj}

/-! ## Every operation keeps the invariants -/

/-- The invariants of a reachable heap, `hs` listing the references held on its objects from
outside it. -/
structure MobjInv (m : Mem) (hs : List Nat) extends ChainInv m : Prop where
  counted : Counted m hs
  pos : ∀ a x, m.mobjs a = some x → 0 < x.moRefcount

theorem MobjInv.perm (hi : MobjInv m hs) {hs' : List Nat} (h : hs.Perm hs') : MobjInv m hs' :=
  { hi with counted := fun a => h.count_eq a ▸ hi.counted a }

theorem MobjInv.bottomOf_spec (hi : MobjInv m hs) (hs : m.mobjs s = some x) {b : Nat}
    (h : bottomOf m s = some b) : b ≤ s ∧ ∃ z, m.mobjs b = some z := by
  simp only [bottomOf, hs, Option.bind_eq_bind, Option.some_bind] at h
  split at h
  · obtain ⟨s', b', hs', -, hb', hbs, -⟩ := hi.chain s x hs ‹_› (hi.pos s x hs)
    cases h.symm.trans hb'
    obtain ⟨z, hz, -⟩ := hi.counted.held hi.toChainInv hs (hi.pos s x hs) (a := b)
      (by simp [shadow_heldRefs ‹_› hs' hb'])
    exact ⟨by omega, z, hz⟩
  · cases h
    exact ⟨le_rfl, x, hs⟩

theorem MobjInv.bump (hi : MobjInv m hs) {sl : Slab} (h : sl.next = m.slab.next + 1) :
    MobjInv { m with slab := sl } hs := by
  have hin : ({ m with slab := sl } : Mem).inRefs = m.inRefs := by
    funext c
    simp [Mem.inRefs, h, Finset.sum_range_succ, hi.fresh m.slab.next le_rfl, cellRefs]
  exact ⟨⟨fun c hc => hi.fresh c (by simp only [h] at hc; omega), hi.chain⟩,
    fun c => by rw [hin]; exact hi.counted c, hi.pos⟩

/-- A new object with one reference held from outside, at the allocator's next address. -/
theorem MobjInv.alloc (hi : MobjInv m hs) (hslab : m'.slab.next = m.slab.next + 1)
    (hnew : m'.mobjs m.slab.next = some y) (hy : y.moRefcount = 1)
    (hold : ∀ c, c ≠ m.slab.next → m'.mobjs c = (m.mobjs c).map (·.addRefs (y.heldRefs.count c)))
    (hlive : ∀ c ∈ y.heldRefs, ∃ z, m.mobjs c = some z)
    (hchain : y.moType = .shadow → ∃ s b, y.shadowed = some s ∧ y.bottomMobj = some b ∧ b ≤ s ∧
      bottomOf m s = some b) :
    MobjInv m' (m.slab.next :: hs) := by
  have hfree : m.mobjs m.slab.next = none := hi.fresh _ le_rfl
  have hdead : ∀ c, m.mobjs c = none → y.heldRefs.count c = 0 := fun c hc =>
    List.count_eq_zero.2 fun h => by obtain ⟨z, hz⟩ := hlive c h; simp [hc] at hz
  have hbot : ∀ c, c ≠ m.slab.next → bottomOf m' c = bottomOf m c := fun c hc =>
    bottomOf_map_addRefs (hold c hc)
  have hin : ∀ c, m'.inRefs c = m.inRefs c + y.heldRefs.count c := by
    intro c
    have hcy : cellRefs (some y) = y.heldRefs := by simp [cellRefs, hy]
    simp only [Mem.inRefs, hslab, Finset.sum_range_succ, hnew, hcy]
    refine congrArg (· + _) (Finset.sum_congr rfl fun x hx => ?_)
    rw [hold x (Finset.mem_range.1 hx).ne]
    cases hm : m.mobjs x with
    | none => rfl
    | some z => rw [Option.map_some', cellRefs_addRefs (hi.pos x z hm)]
  refine ⟨⟨fun c hc => ?_, fun x y' hx ht hy' => ?_⟩, fun c => ?_, fun c z hz => ?_⟩
  · rw [hslab] at hc
    rw [hold c (by omega), hi.fresh c (by omega)]
    rfl
  · by_cases hxn : x = m.slab.next
    · subst hxn
      rw [hnew] at hx
      cases hx
      obtain ⟨s, b, hs, hb, hbs, hsb⟩ := hchain ht
      obtain ⟨sx, hsx⟩ := bottomOf_live hsb
      have hsn := hi.lt_next hsx
      exact ⟨s, b, hs, hsn, hb, by omega, by rw [hbot s hsn.ne, hsb]⟩
    · rw [hold x hxn] at hx
      obtain ⟨z, hz, rfl⟩ := Option.map_eq_some'.1 hx
      obtain ⟨s, b, hs, hsx, hb, hbx, hsb⟩ := hi.chain x z hz ht (hi.pos x z hz)
      obtain ⟨sx, hsx'⟩ := bottomOf_live hsb
      exact ⟨s, b, hs, hsx, hb, hbx, by rw [hbot s (hi.lt_next hsx').ne, hsb]⟩
  · have h₁ := hi.counted c
    rw [hin c]
    by_cases hc : c = m.slab.next
    · subst hc
      have h₂ : hs.count m.slab.next = 0 := List.count_eq_zero.2 fun h => by
        obtain ⟨z, hz, -⟩ := hi.counted.live h
        simp [hfree] at hz
      simp only [Mem.refcount, hfree, Option.map_none', Option.getD_none] at h₁
      rw [Mem.refcount_of_mobjs hnew, hy, List.count_cons_self, hdead _ hfree]
      omega
    · rw [List.count_cons_of_ne hc]
      have hr : m'.refcount c = m.refcount c + y.heldRefs.count c := by
        cases hm : m.mobjs c with
        | none => simp [Mem.refcount, hold c hc, hm, hdead c hm]
        | some z => simp [Mem.refcount, hold c hc, hm]
      omega
  · by_cases hc : c = m.slab.next
    · subst hc
      rw [hnew] at hz
      cases hz
      omega
    · rw [hold c hc] at hz
      obtain ⟨z', hz', rfl⟩ := Option.map_eq_some'.1 hz
      have := hi.pos c z' hz'
      simp only [Mobj.addRefs_moRefcount]
      omega

theorem MobjInv.allocPlain (hi : MobjInv m hs) {t : MobjType} (ht : t ≠ .shadow) {sl : Slab}
    (hsl : sl.next = m.slab.next + 1) :
    MobjInv ({ m with slab := sl }.set m.slab.next { moType := t, moRefcount := 1 })
      (m.slab.next :: hs) := by
  have hh : ({ moType := t, moRefcount := 1 } : Mobj).heldRefs = [] := Mobj.heldRefs_of_ne ht
  exact hi.alloc (y := { moType := t, moRefcount := 1 }) hsl (by simp) rfl
    (fun c hc => by simp [hc, hh]) (by simp [hh]) (fun h => absurd h ht)

theorem MobjInv.put {fuel : Nat} (hi : MobjInv m (o :: hs)) (h : mobjPut fuel m o = some m') :
    MobjInv m' hs := by
  obtain ⟨hc, hn, hsh⟩ := mobjPut_inv hi.toChainInv hi.counted h
  refine ⟨hc, hn, fun a y hy => Nat.pos_of_ne_zero fun hy0 => ?_⟩
  obtain ⟨z, hz, hz0⟩ := hsh.zero a y hy hy0
  exact absurd (hi.pos a z hz) (by omega)

theorem MobjInv.ref (hi : MobjInv m hs) (ha : a ∈ hs) (h : mobjRef m a = some m') :
    MobjInv m' (a :: hs) := by
  obtain ⟨hc, hn, hm⟩ := mobjRef_inv hi.toChainInv hi.counted ha h
  refine ⟨hc, hn, fun c y hy => ?_⟩
  obtain ⟨z, hz, rfl⟩ := hm c y hy
  have := hi.pos c z hz
  simp only [Mobj.addRefs_moRefcount]
  omega

/-- What `shadow_create` did: on success a new shadow of `s`, with references taken on `s` and on
its bottom `b`. -/
theorem shadowCreate_eq_some {r : Option Nat} (h : shadowCreate m s = some (r, m')) :
    (r = none ∧ ∃ sl, m.slab.alloc = (none, sl) ∧ m' = { m with slab := sl }) ∨
      (r = some m.slab.next ∧ ∃ sl m₂ b x, m.slab.alloc = (some m.slab.next, sl) ∧
        mobjRef ({ m with slab := sl }.set m.slab.next
          { moType := .shadow, moRefcount := 1, shadowed := some s }) s = some m₂ ∧
        bottomOf m₂ s = some b ∧ m₂.mobjs m.slab.next = some x ∧
        mobjRef (m₂.set m.slab.next { x with bottomMobj := some b }) b = some m') := by
  unfold shadowCreate at h
  rcases hal : m.slab.alloc with ⟨_ | o, sl⟩ <;> simp only [hal] at h
  · simp only [Option.some.injEq, Prod.mk.injEq] at h
    exact .inl ⟨h.1.symm, sl, rfl, h.2.symm⟩
  obtain ⟨rfl, -⟩ := Slab.alloc_eq_some hal
  simp only [Option.bind_eq_bind, Option.bind_eq_some] at h
  obtain ⟨m₂, h₂, sx, hsx, h⟩ := h
  obtain ⟨b, hb, h⟩ : ∃ b, bottomOf m₂ s = some b ∧ ((m₂.mobjs m.slab.next).bind fun x =>
      (mobjRef (m₂.set m.slab.next { x with bottomMobj := some b }) b).bind fun m₃ =>
        some (some m.slab.next, m₃)) = some (r, m') := by
    split at h
    · obtain ⟨b, hb, h⟩ := Option.bind_eq_some.1 h
      exact ⟨b, by simp [bottomOf, hsx, *], h⟩
    · exact ⟨s, by simp [bottomOf, hsx, *], h⟩
  obtain ⟨x', hx', h⟩ := Option.bind_eq_some.1 h
  obtain ⟨m₃, h₃, h⟩ := Option.bind_eq_some.1 h
  simp only [Option.some.injEq, Prod.mk.injEq] at h
  obtain ⟨rfl, rfl⟩ := h
  exact .inr ⟨rfl, sl, m₂, b, x', rfl, h₂, hb, hx', h₃⟩

/-- `shadow_create` of an object its caller holds keeps the invariants; the new shadow's
reference is held by the caller. -/
theorem shadowCreate_inv {r : Option Nat} (hi : MobjInv m hs) (hsh : s ∈ hs)
    (h : shadowCreate m s = some (r, m')) : MobjInv m' (r.toList ++ hs) := by
  obtain ⟨rfl, sl, hal, rfl⟩ | ⟨rfl, sl, m₂, b, x', hal, h₂, hb, hx', h₃⟩ :=
    shadowCreate_eq_some h
  · exact hi.bump (Slab.alloc_next hal)
  have hsl := (Slab.alloc_eq_some hal).2
  obtain ⟨sx₀, hsx₀, -⟩ := hi.counted.live hsh
  have hso : s ≠ m.slab.next := (hi.lt_next hsx₀).ne
  have hm₂ := mobjRef_mobjs h₂
  have hm₃ := mobjRef_mobjs h₃
  rw [hm₂, Mem.set_mobjs, Function.update_same] at hx'
  simp only [Option.map_some', Option.some.injEq, List.count_singleton, beq_iff_eq, hso,
    if_false, Mobj.addRefs_zero] at hx'
  subst hx'
  have hms : ∀ c, c ≠ m.slab.next → m₂.mobjs c = (m.mobjs c).map (·.addRefs ([s].count c)) :=
    fun c hc => by rw [hm₂ c, Mem.set_mobjs, Function.update_noteq hc]
  have hsb : bottomOf m s = some b := (bottomOf_map_addRefs (hms s hso)).symm.trans hb
  obtain ⟨hbs, bx, hbx⟩ := hi.bottomOf_spec hsx₀ hsb
  have hbo : b ≠ m.slab.next := by have := hi.lt_next hsx₀; omega
  refine hi.alloc (y := ⟨.shadow, 1, [], some s, some b⟩) ?_ ?_ rfl (fun c hc => ?_) ?_
    fun _ => ⟨s, b, rfl, rfl, hbs, hsb⟩
  · rw [mobjRef_slab h₃, Mem.set_slab, mobjRef_slab h₂]
    exact hsl
  · rw [hm₃, Mem.set_mobjs, Function.update_same]
    simp [List.count_singleton, hbo]
  · rw [hm₃, Mem.set_mobjs, Function.update_noteq hc, hms c hc, Option.map_map]
    congr 1
    funext z
    simp only [Function.comp, Mobj.addRefs_addRefs, Mobj.heldRefs, Option.toList]
    rw [← List.count_append]
  · simp only [Mobj.heldRefs, Option.toList, List.singleton_append, List.mem_cons, List.mem_singleton]
    rintro c (rfl | rfl | h)
    exacts [⟨sx₀, hsx₀⟩, ⟨bx, hbx⟩, absurd h (List.not_mem_nil c)]

/-- What `shadow_collapse` does: nothing, or the splice of the singly referenced shadow `s` that
`o` shadows. -/
theorem shadowCollapse_eq_some (h : shadowCollapse m o = some m') :
    m' = m ∨ ∃ x s sx t m₁, m.mobjs o = some x ∧ x.moType = .shadow ∧ x.shadowed = some s ∧
      m.mobjs s = some sx ∧ sx.moType = .shadow ∧ sx.moRefcount ≤ 1 ∧ sx.shadowed = some t ∧
      mobjRef (m.set o { x with shadowed := some t }) t = some m₁ ∧ mobjPutAll m₁ s = some m' := by
  simp only [shadowCollapse, Option.bind_eq_bind, Option.bind_eq_some] at h
  obtain ⟨x, hx, h⟩ := h
  by_cases ht : x.moType = .shadow
  · simp only [ht, ne_eq, not_true_eq_false, if_false, Option.pure_def, Option.some_bind,
      Option.bind_eq_some] at h
    obtain ⟨s, hs, sx, hsx, h⟩ := h
    by_cases hst : sx.moType = .shadow
    · by_cases h1 : sx.moRefcount > 1
      · simp only [hst, h1, ne_eq, not_true_eq_false, if_false, if_true, Option.some.injEq] at h
        exact .inl h.symm
      · simp only [hst, h1, ne_eq, not_true_eq_false, if_false, Option.bind_eq_some] at h
        obtain ⟨t, ht', m₁, h₁, h⟩ := h
        exact .inr ⟨x, s, sx, t, m₁, hx, ht, hs, hsx, hst, by omega, ht', by rwa [ht], h⟩
    · simp only [hst, ne_eq, not_false_eq_true, if_true, Option.some.injEq] at h
      exact .inl h.symm
  · simp [ht] at h

/-- The splice of `shadow_collapse`: `o` now shadows `t`, the object its shadowed `s` shadows,
and holds a new reference on `t`; its reference on `s` is the one about to be put. -/
theorem MobjInv.splice {sx : Mobj} {t : Nat} (hi : MobjInv m hs) (hx : m.mobjs o = some x)
    (hxt : x.moType = .shadow) (hxs : x.shadowed = some s) (hsx : m.mobjs s = some sx)
    (hst : sx.moType = .shadow) (htx : sx.shadowed = some t) :
    ∃ tx, (m.set o { x with shadowed := some t }).mobjs t = some tx ∧
      MobjInv ((m.set o { x with shadowed := some t }).set t (tx.addRefs 1)) (s :: hs) := by
  have hx0 := hi.pos o x hx
  obtain ⟨s', b, hs', hso, hb, hbo, hsb⟩ := hi.chain o x hx hxt hx0
  cases hxs.symm.trans hs'
  obtain ⟨t', b', ht', hts, hb', -, htb⟩ := hi.chain s sx hsx hst (hi.pos s sx hsx)
  cases htx.symm.trans ht'
  obtain rfl : b' = b := by simpa [bottomOf, hsx, hst, hb'] using hsb
  obtain ⟨tx, htx₀, htx0⟩ := hi.counted.held hi.toChainInv hsx (hi.pos s sx hsx) (a := t)
    (by simp [shadow_heldRefs hst htx hb'])
  set y : Mobj := { x with shadowed := some t }
  have hto : t ≠ o := by omega
  have hty : (m.set o y).mobjs t = some tx := by simpa [hto] using htx₀
  have hc₀ : ChainInv (m.set o y) :=
    hi.set hx rfl rfl fun _ _ => ⟨t, b', rfl, by omega, hb, hbo, htb⟩
  have hin₁ : ((m.set o y).set t (tx.addRefs 1)).inRefs = (m.set o y).inRefs :=
    Mem.inRefs_update_of_cellRefs (by rw [hty, cellRefs_addRefs htx0])
  have hin₀ : ∀ c, (m.set o y).inRefs c + ([s].count c + [b'].count c) =
      m.inRefs c + ([t].count c + [b'].count c) := by
    intro c
    have h := m.inRefs_set (hi.lt_next hx) y c
    rwa [hx, cellRefs, if_neg (by omega), shadow_heldRefs hxt hxs hb, cellRefs,
      if_neg (show y.moRefcount ≠ 0 by simp only [y]; omega), shadow_heldRefs (y := y) hxt rfl hb,
      ← List.singleton_append, List.count_append, ← List.singleton_append (l := [b']),
      List.count_append] at h
  have hr : ∀ c, ((m.set o y).set t (tx.addRefs 1)).refcount c = m.refcount c + [t].count c := by
    intro c
    by_cases hct : c = t
    · subst hct
      simp [Mem.refcount_of_mobjs htx₀]
    · by_cases hco : c = o
      · subst hco
        simp [hct, Mem.refcount_of_mobjs hx, y]
      · simp [hct, hco]
  refine ⟨tx, hty, hc₀.setCount hty _ fun _ => htx0, fun c => ?_, fun c z hz => ?_⟩
  · have := hi.counted c
    have := hin₀ c
    rw [hin₁, hr, ← List.singleton_append, List.count_append]
    omega
  · by_cases hct : c = t
    · subst hct
      simp only [Mem.set_mobjs, Function.update_same, Option.some.injEq] at hz
      rw [← hz]
      exact Nat.succ_pos _
    · by_cases hco : c = o
      · subst hco
        simp only [Mem.set_mobjs, Function.update_noteq hct, Function.update_same,
          Option.some.injEq] at hz
        rw [← hz]
        exact hx0
      · simp only [Mem.set_mobjs, Function.update_noteq hct, Function.update_noteq hco] at hz
        exact hi.pos c z hz

theorem shadowCollapse_inv (hi : MobjInv m hs) (h : shadowCollapse m o = some m') :
    MobjInv m' hs := by
  obtain rfl | ⟨x, s, sx, t, m₁, hx, hxt, hxs, hsx, hst, -, htx, h₁, h₂⟩ :=
    shadowCollapse_eq_some h
  · exact hi
  obtain ⟨tx, hty, hi₁⟩ := hi.splice hx hxt hxs hsx hst htx
  rw [mobjRef_of_live hty, Option.some.injEq] at h₁
  subst h₁
  exact hi₁.put h₂

/-- Modelled from the spec: a vnode comes with its memory object (`FILE`, "vnode-backed"), which
starts with the vnode's one reference. -/
def vnodeMobjCreate (m : Mem) : Option Nat × Mem :=
  match m.slab.alloc with
  | (none, a) => (none, { m with slab := a })
  | (some o, a) => (some o, { m with slab := a }.set o { moType := .file, moRefcount := 1 })

/-- The object heap and the references held on it from outside: by vmareas (`vma_obj`), by
vnodes, by the callers of `shadow_create`. -/
structure MobjSys where
  mem : Mem
  held : List Nat

/-- No object and no reference yet. -/
def MobjSys.init (oom : Nat → Bool) : MobjSys := ⟨Mem.init oom, []⟩

/-- What the kernel does with memory objects: create an anonymous object (`anon_create`, for
`mmap` and `brk`) or a vnode's; and, on an object it holds, take another reference
(`vmmap_clone`, `do_fork`), give its reference up (`vmarea_free`), shadow it (`shadow_create`,
in `do_fork`) or collapse its chain (`vmmap_collapse`). -/
inductive MobjOp
  | anonCreate
  | vnodeCreate
  | ref (o : Nat)
  | put (o : Nat)
  | shadowCreate (o : Nat)
  | shadowCollapse (o : Nat)
  deriving DecidableEq, Repr

/-- One operation. A reference is used only by a holder of it. -/
def mobjStep (s : MobjSys) : MobjOp → Option MobjSys
  | .anonCreate => let (r, m) := anonCreate s.mem; some ⟨m, r.toList ++ s.held⟩
  | .vnodeCreate => let (r, m) := vnodeMobjCreate s.mem; some ⟨m, r.toList ++ s.held⟩
  | .ref o => if o ∈ s.held then (mobjRef s.mem o).map fun m => ⟨m, o :: s.held⟩ else none
  | .put o => if o ∈ s.held then (mobjPutAll s.mem o).map fun m => ⟨m, s.held.erase o⟩ else none
  | .shadowCreate o =>
    if o ∈ s.held then (shadowCreate s.mem o).map fun (r, m) => ⟨m, r.toList ++ s.held⟩ else none
  | .shadowCollapse o =>
    if o ∈ s.held then (shadowCollapse s.mem o).map fun m => ⟨m, s.held⟩ else none

/-- The heaps reachable from the empty one. -/
inductive MobjReachable : MobjSys → Prop
  | init (oom : Nat → Bool) : MobjReachable (MobjSys.init oom)
  | step {s s' : MobjSys} (op : MobjOp) : MobjReachable s → mobjStep s op = some s' →
      MobjReachable s'

/-- Replay a list of operations. -/
def mobjRun : MobjSys → List MobjOp → Option MobjSys
  | s, [] => some s
  | s, op :: ops => (mobjStep s op).bind (mobjRun · ops)

theorem MobjReachable.run {s s' : MobjSys} (h : MobjReachable s) (ops : List MobjOp)
    (hr : mobjRun s ops = some s') : MobjReachable s' := by
  induction ops generalizing s with
  | nil => cases hr; exact h
  | cons op ops ih =>
    obtain ⟨s₁, h₁, hr⟩ := Option.bind_eq_some.1 hr
    exact ih (.step op h h₁) hr

theorem MobjInv.init (oom : Nat → Bool) : MobjInv (Mem.init oom) [] :=
  ⟨⟨fun _ _ => rfl, fun _ _ h => by simp [Mem.init] at h⟩,
    fun a => by simp [Mem.inRefs, Mem.init, cellRefs], fun _ _ h => by simp [Mem.init] at h⟩

theorem MobjInv.createPlain {r : Option Nat} {t : MobjType} (hi : MobjInv m hs) (ht : t ≠ .shadow)
    (h : (match m.slab.alloc with
      | (none, a) => (none, { m with slab := a })
      | (some o, a) => (some o, { m with slab := a }.set o { moType := t, moRefcount := 1 })) =
        (r, m')) : MobjInv m' (r.toList ++ hs) := by
  rcases hal : m.slab.alloc with ⟨_ | o, sl⟩ <;> rw [hal] at h <;>
    simp only [Prod.mk.injEq] at h <;> obtain ⟨rfl, rfl⟩ := h
  · exact hi.bump (Slab.alloc_next hal)
  · obtain ⟨rfl, hsl⟩ := Slab.alloc_eq_some hal
    exact hi.allocPlain ht hsl

/-- Every operation keeps the invariants. -/
theorem MobjInv.step {s s' : MobjSys} {op : MobjOp} (hi : MobjInv s.mem s.held)
    (h : mobjStep s op = some s') : MobjInv s'.mem s'.held := by
  cases op with
  | anonCreate =>
    simp only [mobjStep, Option.some.injEq] at h
    subst h
    exact hi.createPlain (t := .anon) (by decide) rfl
  | vnodeCreate =>
    simp only [mobjStep, Option.some.injEq] at h
    subst h
    exact hi.createPlain (t := .file) (by decide) rfl
  | ref o =>
    simp only [mobjStep] at h
    split at h
    · obtain ⟨m, hm, rfl⟩ := Option.map_eq_some'.1 h
      exact hi.ref ‹_› hm
    · cases h
  | put o =>
    simp only [mobjStep] at h
    split at h
    · obtain ⟨m, hm, rfl⟩ := Option.map_eq_some'.1 h
      exact (hi.perm (List.perm_cons_erase ‹_›)).put hm
    · cases h
  | shadowCreate o =>
    simp only [mobjStep] at h
    split at h
    · obtain ⟨⟨r, m⟩, hm, rfl⟩ := Option.map_eq_some'.1 h
      exact shadowCreate_inv hi ‹_› hm
    · cases h
  | shadowCollapse o =>
    simp only [mobjStep] at h
    split at h
    · obtain ⟨m, hm, rfl⟩ := Option.map_eq_some'.1 h
      exact shadowCollapse_inv hi hm
    · cases h

theorem MobjReachable.inv {s : MobjSys} (h : MobjReachable s) : MobjInv s.mem s.held := by
  induction h with
  | init oom => exact MobjInv.init oom
  | step _ _ h ih => exact ih.step h

/-- When an operation may run: a reference is used by a holder of it, and only a shadow object
is collapsed (`vmmap_collapse` checks the type first). -/
def MobjOp.enabled (s : MobjSys) : MobjOp → Bool
  | .anonCreate | .vnodeCreate => true
  | .ref o | .put o | .shadowCreate o => decide (o ∈ s.held)
  | .shadowCollapse o => decide (o ∈ s.held) && (s.mem.mobjs o).any (·.moType == .shadow)

/-- The object `c` shadows, if `c` is a live shadow. -/
def shadowedOf (m : Mem) (c : Nat) : Option Nat := (m.mobjs c).bind (·.shadowed)

/-- Whether the live object `c` holds page `pagenum` (`mobj_find_pframe`). -/
def hasPage (m : Mem) (pagenum c : Nat) : Bool :=
  ((m.mobjs c).bind (mobjFindPframe · pagenum)).isSome

/-- The chain of a live shadow object `x` (`y`): the shadows `l` that follow it, then its bottom
`b`, live and not a shadow, each object shadowing the next, none met twice; the walk of
`shadow_get_pframe` and `shadow_fill_pframe` from `x`, given one iteration per object, stops at
the first object of the chain holding the page, or breaks at `b`. -/
structure ShadowChain (m : Mem) (x : Nat) (y : Mobj) (b : Nat) (l : List Nat) : Prop where
  bottom : y.bottomMobj = some b
  bottom_live : ∃ z, m.mobjs b = some z ∧ z.moType ≠ .shadow
  shadows : ∀ c ∈ l, ∃ z, m.mobjs c = some z ∧ z.moType = .shadow
  links : List.Chain (fun c d => shadowedOf m c = some d) x (l ++ [b])
  nodup : (x :: (l ++ [b])).Nodup
  walk : ∀ pagenum fuel, l.length < fuel → shadowWalk m pagenum fuel y.shadowed =
    some (match (l ++ [b]).find? (hasPage m pagenum) with
      | some c => .found c
      | none => .broke b)

/-- Following `shadowed` from a live shadow meets live shadows at ever lower addresses, then its
bottom. -/
theorem MobjInv.chain_bottom (hi : MobjInv m hs) (x : Nat) : ∀ y, m.mobjs x = some y →
    y.moType = .shadow → ∃ b l, y.bottomMobj = some b ∧
      (∃ z, m.mobjs b = some z ∧ z.moType ≠ .shadow) ∧
      (∀ c ∈ l, ∃ z, m.mobjs c = some z ∧ z.moType = .shadow) ∧
      List.Chain (fun c d => shadowedOf m c = some d) x (l ++ [b]) ∧
      List.Chain (· > ·) x (l ++ [b]) := by
  induction x using Nat.strong_induction_on with
  | _ x ih =>
    intro y hx ht
    obtain ⟨s, b, hs, hsx, hb, -, hsb⟩ := hi.chain x y hx ht (hi.pos x y hx)
    obtain ⟨sy, hsy, -⟩ := hi.counted.held hi.toChainInv hx (hi.pos x y hx) (a := s)
      (by simp [shadow_heldRefs ht hs hb])
    have hxs : shadowedOf m x = some s := by simp [shadowedOf, hx, hs]
    by_cases hst : sy.moType = .shadow
    · obtain ⟨b', l, hb', hbl, hl, hch, hdec⟩ := ih s hsx sy hsy hst
      obtain rfl : b' = b := by simpa [bottomOf, hsy, hst, hb'] using hsb
      refine ⟨b', s :: l, hb, hbl, ?_, .cons hxs hch, .cons hsx hdec⟩
      intro c hc
      rcases List.mem_cons.1 hc with rfl | hc
      exacts [⟨sy, hsy, hst⟩, hl c hc]
    · obtain rfl : s = b := by simpa [bottomOf, hsy, hst] using hsb
      exact ⟨s, [], hb, ⟨sy, hsy, hst⟩, by simp, List.chain_singleton.2 hxs,
        List.chain_singleton.2 hsx⟩

/-- The loop of `shadow_get_pframe` and `shadow_fill_pframe` along a chain of live shadows ending
at a live non-shadow `b`. -/
theorem shadowWalk_chain (pagenum : Nat) {b : Nat} {bz : Mobj} (hb : m.mobjs b = some bz)
    (hbt : bz.moType ≠ .shadow) (l : List Nat) :
    ∀ c fuel, (∀ d ∈ l, ∃ z, m.mobjs d = some z ∧ z.moType = .shadow) →
      List.Chain (fun c d => shadowedOf m c = some d) c (l ++ [b]) → l.length < fuel →
      shadowWalk m pagenum fuel (shadowedOf m c) =
        some (match (l ++ [b]).find? (hasPage m pagenum) with
          | some d => .found d
          | none => .broke b) := by
  induction l with
  | nil =>
    intro c fuel _ hch hf
    obtain ⟨f, rfl⟩ : ∃ f, fuel = f + 1 := ⟨fuel - 1, by simp at hf; omega⟩
    rw [List.chain_singleton.1 hch]
    simp only [shadowWalk, hb, Option.some_bind, List.nil_append, List.find?_cons, hasPage,
      Option.bind_eq_bind, List.find?_nil]
    cases (mobjFindPframe bz pagenum).isSome
    · exact if_neg hbt
    · rfl
  | cons d l ih =>
    intro c fuel hl hch hf
    obtain ⟨f, rfl⟩ : ∃ f, fuel = f + 1 := ⟨fuel - 1, by simp at hf; omega⟩
    obtain ⟨hcd, hch⟩ := List.chain_cons.1 hch
    obtain ⟨dz, hdz, hdt⟩ := hl d (List.mem_cons_self d l)
    rw [hcd]
    have hrest := ih d f (fun e he => hl e (List.mem_cons_of_mem d he)) hch
      (by simp at hf; omega)
    simp only [shadowedOf, hdz, Option.some_bind] at hrest
    simp only [shadowWalk, hdz, Option.bind_eq_bind, Option.some_bind, List.cons_append,
      List.find?_cons, hasPage, hdt, if_true, hrest]
    cases (mobjFindPframe dz pagenum).isSome <;> rfl

end Ops

/-- In every reachable heap, every live shadow object has a chain down to its bottom, and the
chain walks of `shadow_get_pframe` and `shadow_fill_pframe` stop on it. -/
theorem shadow_chain_reaches_bottom {s : MobjSys} (hs : MobjReachable s) {x : Nat} {y : Mobj}
    (hx : s.mem.mobjs x = some y) (ht : y.moType = .shadow) :
    ∃ b l, ShadowChain s.mem x y b l := by
  obtain ⟨b, l, hb, ⟨bz, hbz, hbt⟩, hl, hch, hdec⟩ := hs.inv.chain_bottom x y hx ht
  refine ⟨b, l, hb, ⟨bz, hbz, hbt⟩, hl, hch, (List.chain_iff_pairwise.1 hdec).imp ne_of_gt,
    fun p fuel hf => ?_⟩
  simpa [shadowedOf, hx] using shadowWalk_chain p hbz hbt l x fuel hl hch hf

/-- A shadow of a shadow of an anonymous object, as two forks build it. -/
theorem shadow_chain_of_two_forks :
    ∃ s, MobjReachable s ∧ ∃ y, s.mem.mobjs 3 = some y ∧ y.moType = .shadow ∧
      ∃ b l, ShadowChain s.mem 3 y b l :=
  have h := (MobjReachable.init fun _ => false).run
    [.anonCreate, .shadowCreate 1, .shadowCreate 2] rfl
  ⟨_, h, _, rfl, rfl, shadow_chain_reaches_bottom h rfl rfl⟩

end Weenix
