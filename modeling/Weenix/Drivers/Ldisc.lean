import Mathlib.Data.List.Basic
import Weenix.Basic

/-!
# The tty line discipline

`drivers/tty/ldisc.c`: a circular buffer of `LDISC_BUFFER_SIZE` characters with three indices.
The slots from `ldisc_tail` to `ldisc_cooked` hold the cooked characters, which `ldisc_read`
hands out; the slots from `ldisc_cooked` to `ldisc_head` hold the raw line being typed;
`ldisc_full` tells a full buffer from an empty one, where all three indices are equal.

The buffer refines an abstract line discipline (`LineDisc`: the cooked queue and the raw line)
for every key press and for every read but one: `ldisc_read` with a count of zero on a full
buffer clears `ldisc_full` while `ldisc_tail == ldisc_cooked`, and so drops the whole cooked
queue.

`LDISC_BUFFER_SIZE` is a parameter `N`, a power of two (`MOD_POW_2` masks with `N - 1`).
The echo to the virtual terminal and the wake-up of the read queue are left out: they do not
touch the buffer.
-/

namespace Weenix

open Function

/-! ## Characters and `MOD_POW_2` -/

/-- `BS`, backspace. -/
def bs : Char := '\x08'

/-- `ETX`, ctrl-c. -/
def etx : Char := '\x03'

/-- `EOT`, ctrl-d. -/
def eot : Char := '\x04'

/-- `LF`. -/
def lf : Char := '\n'

/-- `MOD_POW_2(x, n)` of `util/bits.h`: `x & (n - 1)`. -/
def modPow2 (x n : Nat) : Nat := x &&& (n - 1)

/-! ## The buffer -/

/-- The fields of `ldisc_t` that the line discipline reads and writes. -/
structure Ldisc where
  buffer : Nat → Char
  tail : Nat
  cooked : Nat
  head : Nat
  full : Bool

/-- `ldisc_init`: all indices zero, not full, the buffer cleared. -/
def ldiscInit : Ldisc := ⟨fun _ => '\x00', 0, 0, 0, false⟩

variable (N : Nat)

/-- The part of `ldisc_key_pressed` after the `BS` and `ETX` cases: a full buffer takes
nothing; with one slot left only `LF` and `EOT` go in; `LF` and `EOT` cook the line. -/
def putChar (l : Ldisc) (c : Char) : Ldisc :=
  if l.full then l
  else if modPow2 (l.head + 1) N = l.tail ∧ c ≠ lf ∧ c ≠ eot then l
  else
    let l := { l with buffer := update l.buffer l.head c, head := modPow2 (l.head + 1) N }
    let l := { l with full := decide (l.head = l.tail) }
    if c = lf ∨ c = eot then { l with cooked := l.head } else l

/-- `ldisc_key_pressed`. `BS` drops the last raw character, if any. `ETX` clears the raw line
and is then handled as `LF`. -/
def ldiscKeyPressed (l : Ldisc) (c : Char) : Ldisc :=
  if c = bs then
    if l.cooked ≠ l.head then { l with head := modPow2 (sizeSub l.head 1) N } else l
  else if c = etx then putChar N { l with head := l.cooked } lf
  else putChar N l c

/-- The copy loop of `ldisc_read`, with `n` characters still wanted: copy the character at
`ldisc_tail` and advance; an `EOT` is taken but not counted and ends the read; so does reaching
`ldisc_cooked`. -/
def readLoop (l : Ldisc) : Nat → List Char × Ldisc
  | 0 => ([], l)
  | n + 1 =>
    let ch := l.buffer l.tail
    let l := { l with tail := modPow2 (l.tail + 1) N }
    if ch = eot then ([], l)
    else if l.tail = l.cooked then ([ch], l)
    else
      let (cs, l) := readLoop l n
      (ch :: cs, l)

/-- `ldisc_read(ldisc, buf, count)`: the characters copied to `buf` and counted (their number
is the return value). Nothing when there is nothing cooked; otherwise the copy loop, and then
`ldisc_full = 0`. -/
def ldiscRead (l : Ldisc) (count : Nat) : List Char × Ldisc :=
  if l.tail = l.cooked ∧ l.full = false then ([], l)
  else
    let (cs, l) := readLoop N l count
    (cs, { l with full := false })

/-- `ldisc_get_current_line_raw`: the characters it copies (their number is the return value),
in one piece or, when the raw line wraps, in two. -/
def ldiscGetCurrentLineRaw (l : Ldisc) : List Char :=
  if modPow2 (sizeSub l.head l.cooked) N = 0 then []
  else if l.head > l.cooked then
    (List.range (l.head - l.cooked)).map fun i => l.buffer (l.cooked + i)
  else
    (List.range (N - l.cooked)).map (fun i => l.buffer (l.cooked + i)) ++
      (List.range l.head).map l.buffer

/-! ## The abstract line discipline -/

/-- The line discipline as the spec describes it: the cooked queue `Q` and the raw line `R`. -/
structure LineDisc where
  cooked : List Char
  raw : List Char

/-- The empty line discipline. -/
def LineDisc.init : LineDisc := ⟨[], []⟩

/-- A character other than `BS` and `ETX`, in the spec's words: when `|Q| + |R| = N` it is
ignored; otherwise a character other than `LF` and `EOT` is appended to `R` iff
`|Q| + |R| < N - 1`, and an `LF` or `EOT` is appended, after which `R` is appended to `Q` and
emptied. -/
def LineDisc.putChar (a : LineDisc) (c : Char) : LineDisc :=
  if a.cooked.length + a.raw.length = N then a
  else if c = lf ∨ c = eot then ⟨a.cooked ++ a.raw ++ [c], []⟩
  else if a.cooked.length + a.raw.length < N - 1 then { a with raw := a.raw ++ [c] }
  else a

/-- A key press, in the spec's words: `BS` removes the last raw character; `ETX` empties the raw
line and then acts as `LF`; the rest is `LineDisc.putChar`. -/
def LineDisc.keyPressed (a : LineDisc) (c : Char) : LineDisc :=
  if c = bs then { a with raw := a.raw.dropLast }
  else if c = etx then LineDisc.putChar N { a with raw := [] } lf
  else LineDisc.putChar N a c

/-- A read of `count` characters from the cooked queue `q`, in the spec's words: the first
`min(count, position of the first EOT, |q|)` characters, removed from `q` with that `EOT` if the
read stopped there. Returns the characters and what is left of `q`. -/
def readCooked (q : List Char) (count : Nat) : List Char × List Char :=
  let i := q.indexOf eot
  let k := min count (min i q.length)
  (q.take k, q.drop (if i < count ∧ i < q.length then k + 1 else k))

@[simp] theorem readCooked_zero (q : List Char) : readCooked q 0 = ([], q) := by
  simp [readCooked]

@[simp] theorem readCooked_nil (n : Nat) : readCooked [] n = ([], []) := by
  simp [readCooked]

theorem readCooked_eot (q : List Char) (n : Nat) : readCooked (eot :: q) (n + 1) = ([], q) := by
  simp only [readCooked, List.indexOf_cons_self, Nat.zero_min, Nat.min_zero, List.length_cons,
    Nat.zero_lt_succ, and_self, if_true]
  rfl

theorem readCooked_cons {c : Char} (hc : c ≠ eot) (q : List Char) (n : Nat) :
    readCooked (c :: q) (n + 1) = (c :: (readCooked q n).1, (readCooked q n).2) := by
  simp only [readCooked, List.indexOf_cons_ne q hc, List.length_cons, Nat.succ_eq_add_one,
    Nat.add_lt_add_iff_right, Nat.succ_min_succ, List.take_succ_cons, Prod.mk.injEq, true_and]
  split <;> rfl

/-- `ldisc_read`, abstractly. -/
def LineDisc.read (a : LineDisc) (count : Nat) : List Char × LineDisc :=
  ((readCooked a.cooked count).1, { a with cooked := (readCooked a.cooked count).2 })

/-! ## Slots around the ring -/

/-- The characters in the `n` slots of the ring of size `N` from slot `s`. -/
def slots (b : Nat → Char) (s n : Nat) : List Char := (List.range n).map fun i => b ((s + i) % N)

section Slots

variable {N} {b : Nat → Char} {s n : Nat}

@[simp] theorem length_slots : (slots N b s n).length = n := by simp [slots]

@[simp] theorem slots_zero : slots N b s 0 = [] := rfl

theorem slots_succ : slots N b s (n + 1) = slots N b s n ++ [b ((s + n) % N)] := by
  simp [slots, List.range_succ]

theorem slots_cons : slots N b s (n + 1) = b (s % N) :: slots N b (s + 1) n := by
  simp only [slots, List.range_succ_eq_map, List.map_cons, List.map_map, Nat.add_zero]
  congr 1
  exact List.map_congr_left fun i _ => by simp [Function.comp, Nat.add_assoc, Nat.add_comm 1]

theorem slots_add {m : Nat} : slots N b s (m + n) = slots N b s m ++ slots N b (s + m) n := by
  simp only [slots, List.range_add, List.map_append, List.map_map]
  congr 1
  exact List.map_congr_left fun i _ => by simp [Function.comp, Nat.add_assoc]

theorem slots_mod : slots N b (s % N) n = slots N b s n :=
  List.map_congr_left fun i _ => by rw [Nat.mod_add_mod]

theorem slots_update {p : Nat} {c : Char} (h : ∀ i < n, (s + i) % N ≠ p) :
    slots N (update b p c) s n = slots N b s n :=
  List.map_congr_left fun i hi => update_noteq (h i (List.mem_range.1 hi)) _ _

end Slots

/-! ## Arithmetic on the ring -/

section Ring

variable {N}

theorem modPow2_eq {k x : Nat} (hN : N = 2 ^ k) : modPow2 x N = x % N := by
  subst hN; exact Nat.and_pow_two_sub_one_eq_mod x k

/-- `MOD_POW_2` of a `size_t` difference: `size_t` wraps modulo `2 ^ 64`, a multiple of `N`. -/
theorem modPow2_sizeSub {k a c : Nat} (hN : N = 2 ^ k) (hk : k ≤ 64) (hc : c < N) :
    modPow2 (sizeSub a c) N = (a + N - c) % N := by
  obtain ⟨m, hm⟩ : N ∣ wordMod := hN ▸ Nat.pow_dvd_pow 2 hk
  obtain ⟨j, rfl⟩ := Nat.exists_eq_succ_of_ne_zero fun h : m = 0 => by simp [h, wordMod] at hm
  have hcw : c < wordMod := hm ▸ Nat.lt_of_lt_of_le hc (Nat.le_mul_of_pos_right N j.succ_pos)
  rw [modPow2_eq hN, sizeSub, Nat.mod_mod_of_dvd _ ⟨_, hm⟩, Nat.mod_eq_of_lt hcw, hm,
    Nat.mul_succ, ← Nat.add_assoc, Nat.add_right_comm, Nat.sub_add_comm (by omega : c ≤ a + N),
    Nat.add_mul_mod_self_left]

theorem add_mod_eq_self_iff {t j : Nat} (ht : t < N) (hj : j ≤ N) :
    (t + j) % N = t ↔ j = 0 ∨ j = N := by
  rcases Nat.lt_or_ge (t + j) N with h | h
  · rw [Nat.mod_eq_of_lt h]; omega
  · rw [Nat.mod_eq_sub_mod h, Nat.mod_eq_of_lt (by omega)]; omega

theorem add_mod_ne {t i j : Nat} (hij : i < j) (hj : j < N) : (t + i) % N ≠ (t + j) % N := by
  intro h
  have := Nat.sub_mod_eq_zero_of_mod_eq h.symm
  rw [show t + j - (t + i) = j - i by omega, Nat.mod_eq_of_lt (by omega)] at this
  omega

end Ring

/-! ## The refinement -/

/-- The buffer `l` holds the abstract line discipline `a`: the cooked queue in the slots from
`ldisc_tail` to `ldisc_cooked`, the raw line in the slots from `ldisc_cooked` to `ldisc_head`,
together at most `N` characters, a raw line only when there is room, and `ldisc_full` exactly
when they fill the buffer. -/
structure Refines (l : Ldisc) (a : LineDisc) : Prop where
  tail_lt : l.tail < N
  cooked_eq : l.cooked = (l.tail + a.cooked.length) % N
  head_eq : l.head = (l.cooked + a.raw.length) % N
  bound : a.cooked.length + a.raw.length ≤ N
  raw_room : a.raw = [] ∨ a.cooked.length + a.raw.length < N
  full_iff : l.full = true ↔ a.cooked.length + a.raw.length = N
  cooked_slots : a.cooked = slots N l.buffer l.tail a.cooked.length
  raw_slots : a.raw = slots N l.buffer l.cooked a.raw.length

namespace Refines

variable {N} {l : Ldisc} {a : LineDisc}

theorem init (hN : 0 < N) : Refines N ldiscInit LineDisc.init where
  tail_lt := hN
  cooked_eq := (Nat.zero_mod N).symm
  head_eq := (Nat.zero_mod N).symm
  bound := Nat.zero_le N
  raw_room := .inl rfl
  full_iff := by simp [ldiscInit, LineDisc.init]; omega
  cooked_slots := rfl
  raw_slots := rfl

theorem cooked_lt (h : Refines N l a) : l.cooked < N := by
  rw [h.cooked_eq]; exact Nat.mod_lt _ (by have := h.tail_lt; omega)

theorem head_eq_tail (h : Refines N l a) :
    l.head = (l.tail + (a.cooked.length + a.raw.length)) % N := by
  rw [h.head_eq, h.cooked_eq, Nat.mod_add_mod, Nat.add_assoc]

theorem raw_nil_of_full (h : Refines N l a) (hf : l.full = true) : a.raw = [] := by
  have := h.full_iff.1 hf
  rcases h.raw_room with hr | hr
  · exact hr
  · omega

theorem slots_line (h : Refines N l a) :
    a.cooked ++ a.raw = slots N l.buffer l.tail (a.cooked.length + a.raw.length) := by
  have hr : slots N l.buffer (l.tail + a.cooked.length) a.raw.length = a.raw := by
    rw [← slots_mod, ← h.cooked_eq, ← h.raw_slots]
  rw [slots_add, hr, ← h.cooked_slots]

/-- `ETX` first empties the raw line. -/
theorem dropRaw (h : Refines N l a) :
    Refines N { l with head := l.cooked } { a with raw := [] } where
  tail_lt := h.tail_lt
  cooked_eq := h.cooked_eq
  head_eq := (Nat.mod_eq_of_lt h.cooked_lt).symm
  bound := by have := h.bound; simp only [List.length_nil]; omega
  raw_room := .inl rfl
  full_iff := by
    simp only [List.length_nil, Nat.add_zero]
    constructor
    · intro hf
      have := h.full_iff.1 hf
      rw [h.raw_nil_of_full hf] at this
      simpa using this
    · intro hq
      exact h.full_iff.2 (by have := h.bound; omega)
  cooked_slots := h.cooked_slots
  raw_slots := rfl

variable {k : Nat} (hN : N = 2 ^ k) (hk : k ≤ 64)
include hN

/-- A character after the `BS` and `ETX` cases. -/
theorem putChar (h : Refines N l a) (c : Char) : Refines N (putChar N l c) (a.putChar N c) := by
  obtain ⟨Q, R⟩ := a
  have hb : Q.length + R.length ≤ N := h.bound
  have hhead : l.head = (l.tail + (Q.length + R.length)) % N := h.head_eq_tail
  unfold Weenix.putChar LineDisc.putChar
  dsimp only
  by_cases hf : Q.length + R.length = N
  · rw [if_pos (h.full_iff.2 hf), if_pos hf]
    exact h
  have hfl : l.full = false := Bool.eq_false_iff.2 fun ht => hf (h.full_iff.1 ht)
  have hs : Q.length + R.length < N := by omega
  have halmost : (l.head + 1) % N = l.tail ↔ Q.length + R.length + 1 = N := by
    rw [hhead, Nat.mod_add_mod, Nat.add_assoc, add_mod_eq_self_iff h.tail_lt (by omega)]
    omega
  -- the slot written is the one after the line, outside both windows
  have hout : ∀ i < Q.length + R.length, (l.tail + i) % N ≠ l.head := fun i hi => by
    rw [hhead]; exact add_mod_ne hi hs
  rw [if_neg (by simp [hfl]), if_neg hf, modPow2_eq hN]
  by_cases hc : c = lf ∨ c = eot
  · rw [if_neg (by tauto), if_pos hc, if_pos hc]
    refine ⟨h.tail_lt, ?_, ?_, ?_, .inl rfl, ?_, ?_, rfl⟩
    · simp only [List.length_append, List.length_singleton, hhead, Nat.mod_add_mod]
      rfl
    · simp
    · simp only [List.length_append, List.length_singleton, List.length_nil]; omega
    · simp only [decide_eq_true_eq, halmost, List.length_append, List.length_singleton,
        List.length_nil, Nat.add_zero]
    · simp only [List.length_append, List.length_singleton, slots_succ, update_same]
      rw [slots_update fun i hi => hhead ▸ hout i hi, ← h.slots_line, ← hhead, update_same]
  · by_cases hlast : Q.length + R.length + 1 = N
    · rw [if_pos ⟨halmost.2 hlast, by tauto⟩, if_neg hc, if_neg (by omega)]
      exact h
    rw [if_neg (fun h' => hlast (halmost.1 h'.1)), if_neg hc, if_neg hc, if_pos (by omega)]
    have hraw : ∀ i < R.length, (l.cooked + i) % N ≠ l.head := fun i hi => by
      rw [h.cooked_eq, Nat.mod_add_mod, Nat.add_assoc]; exact hout (Q.length + i) (by omega)
    refine ⟨h.tail_lt, h.cooked_eq, ?_, ?_, .inr ?_, ?_, ?_, ?_⟩
    · simp only [List.length_append, List.length_singleton, h.head_eq, Nat.mod_add_mod]
      simp only [Nat.add_assoc]
    · simp only [List.length_append, List.length_singleton]; omega
    · simp only [List.length_append, List.length_singleton]; omega
    · simp only [decide_eq_true_eq, halmost, List.length_append, List.length_singleton]
      omega
    · rw [slots_update fun i (hi : i < Q.length) => hout i (by omega)]; exact h.cooked_slots
    · simp only [List.length_append, List.length_singleton, slots_succ]
      rw [slots_update hraw, ← h.raw_slots, ← h.head_eq, update_same]

include hk

/-- `BS` drops the last raw character; `ldisc_head` steps back modulo `N`. -/
theorem backspace (h : Refines N l a) :
    Refines N (if l.cooked ≠ l.head then { l with head := modPow2 (sizeSub l.head 1) N } else l)
      { a with raw := a.raw.dropLast } := by
  obtain ⟨Q, R⟩ := a
  dsimp only
  rcases List.eq_nil_or_concat R with rfl | ⟨R, x, rfl⟩
  · have : l.cooked = l.head := by rw [h.head_eq]; exact (Nat.mod_eq_of_lt h.cooked_lt).symm
    simpa [this] using h
  rw [List.concat_eq_append] at h ⊢
  rw [List.dropLast_concat]
  have hbound : Q.length + (R.length + 1) ≤ N := by simpa using h.bound
  have hfull : l.full = true ↔ Q.length + (R.length + 1) = N := by simpa using h.full_iff
  have hroom : Q.length + R.length + 1 < N := by
    rcases h.raw_room with h' | h'
    · simp at h'
    · simp only [List.length_append, List.length_singleton] at h'; omega
  have hhead : l.head = (l.cooked + (R.length + 1)) % N := by simpa using h.head_eq
  have hne : l.cooked ≠ l.head := fun he => by
    have := (add_mod_eq_self_iff h.cooked_lt (show R.length + 1 ≤ N by omega)).1
      (hhead ▸ he).symm
    omega
  rw [if_pos hne]
  refine ⟨h.tail_lt, h.cooked_eq, ?_, ?_, .inr ?_, ?_, h.cooked_slots, ?_⟩
  · show modPow2 (sizeSub l.head 1) N = (l.cooked + R.length) % N
    rw [modPow2_sizeSub hN hk (by omega), hhead, Nat.add_sub_assoc (by omega), Nat.mod_add_mod,
      show l.cooked + (R.length + 1) + (N - 1) = l.cooked + R.length + N by omega,
      Nat.add_mod_right]
  · show Q.length + R.length ≤ N; omega
  · show Q.length + R.length < N; omega
  · show l.full = true ↔ Q.length + R.length = N
    rw [hfull]; omega
  · have := h.raw_slots
    simp only [List.length_append, List.length_singleton, slots_succ] at this
    exact List.append_inj_left' this rfl

omit hk in
/-- The copy loop hands out the cooked queue as the spec's read does, and moves `ldisc_tail`
past what it took: at least one character when any is wanted. -/
theorem readLoop_eq : ∀ (n : Nat) (l : Ldisc) (q : List Char), l.tail < N → q ≠ [] →
    q.length ≤ N → q = slots N l.buffer l.tail q.length → l.cooked = (l.tail + q.length) % N →
    ∃ m, m ≤ q.length ∧ (0 < n ↔ 0 < m) ∧ (readCooked q n).2 = q.drop m ∧
      readLoop N l n = ((readCooked q n).1, { l with tail := (l.tail + m) % N })
  | 0, l, q, ht, _, _, _, _ => ⟨0, Nat.zero_le _, by simp, by simp, by
      simp [readLoop, Nat.mod_eq_of_lt ht]⟩
  | n + 1, l, q, ht, hq, hlen, hs, hcook => by
    obtain ⟨c, q, rfl⟩ := List.exists_cons_of_ne_nil hq
    rw [List.length_cons, slots_cons, Nat.mod_eq_of_lt ht, List.cons.injEq] at hs
    have hN0 : 0 < N := by omega
    simp only [readLoop, ← hs.1, modPow2_eq hN]
    by_cases he : c = eot
    · subst he
      exact ⟨1, by simp, by simp, by simp [readCooked_eot], by simp [readCooked_eot]⟩
    rw [if_neg he]
    simp only [List.length_cons] at hlen hcook
    have htc : (l.tail + 1) % N = l.cooked ↔ q = [] := by
      have h1 : l.cooked = ((l.tail + 1) % N + q.length) % N := by
        rw [hcook, Nat.mod_add_mod]; congr 1; omega
      rw [h1, eq_comm, add_mod_eq_self_iff (Nat.mod_lt _ hN0) (by omega), ← List.length_eq_zero]
      omega
    by_cases hq' : q = []
    · subst hq'
      rw [if_pos (htc.2 rfl)]
      exact ⟨1, by simp, by simp, by simp [readCooked_cons he], by simp [readCooked_cons he]⟩
    rw [if_neg (mt htc.1 hq')]
    obtain ⟨m, hm, hnm, hrest, hloop⟩ := readLoop_eq n { l with tail := (l.tail + 1) % N } q
      (Nat.mod_lt _ hN0) hq' (by omega) (by rw [slots_mod]; exact hs.2)
      (by rw [hcook, Nat.mod_add_mod]; simp only [Nat.add_assoc, Nat.add_comm 1])
    rw [hloop]
    refine ⟨m + 1, by simp; omega, by simp, by simp [readCooked_cons he, hrest], ?_⟩
    simp only [readCooked_cons he, Nat.mod_add_mod, Nat.add_assoc, Nat.add_comm 1 m]

omit hk in
/-- A read keeps the refinement and returns what the spec's read returns, unless it asks for
nothing from a full buffer. -/
theorem read (h : Refines N l a) (count : Nat) (hc : 0 < count ∨ l.full = false) :
    (ldiscRead N l count).1 = (a.read count).1 ∧
      Refines N (ldiscRead N l count).2 (a.read count).2 := by
  obtain ⟨Q, R⟩ := a
  have hb : Q.length + R.length ≤ N := h.bound
  have hfull : l.full = true ↔ Q.length + R.length = N := h.full_iff
  have hN0 : 0 < N := by have := h.tail_lt; omega
  have hcook : l.cooked = (l.tail + Q.length) % N := h.cooked_eq
  have hslots : Q = slots N l.buffer l.tail Q.length := h.cooked_slots
  have hroom : R = [] ∨ Q.length + R.length < N := h.raw_room
  -- the cooked queue is empty exactly when the read finds nothing to do
  have hQ : Q = [] ↔ l.tail = l.cooked ∧ l.full = false := by
    rw [hcook, eq_comm (a := l.tail), add_mod_eq_self_iff h.tail_lt (by omega),
      ← List.length_eq_zero]
    constructor
    · intro h0
      refine ⟨.inl h0, Bool.eq_false_iff.2 fun ht => ?_⟩
      have := hfull.1 ht
      rcases hroom with hr | hr
      · simp [hr] at this; omega
      · omega
    · rintro ⟨h0 | h0, hf⟩
      · exact h0
      · exact absurd (hfull.2 (by omega)) (by simp [hf])
  unfold ldiscRead LineDisc.read
  by_cases he : l.tail = l.cooked ∧ l.full = false
  · rw [if_pos he, hQ.2 he, readCooked_nil]
    exact ⟨rfl, hQ.2 he ▸ h⟩
  rw [if_neg he]
  obtain ⟨m, hm, hnm, hrest, hloop⟩ := readLoop_eq hN count l Q h.tail_lt (mt hQ.1 he)
    (by omega) hslots hcook
  rw [hloop]
  refine ⟨rfl, ?_⟩
  dsimp only
  rw [hrest]
  refine ⟨Nat.mod_lt _ hN0, ?_, h.head_eq, ?_, ?_, ?_, ?_, h.raw_slots⟩
  · rw [List.length_drop, Nat.mod_add_mod, Nat.add_assoc, Nat.add_sub_cancel' hm]
    exact hcook
  · simp only [List.length_drop]; omega
  · rcases hroom with hr | hr
    · exact .inl hr
    · exact .inr (by simp only [List.length_drop]; omega)
  · simp only [List.length_drop, Bool.false_eq_true, false_iff]
    rcases hc with hc | hc
    · have := hnm.1 hc; omega
    · have := hnm.2; have : ¬(Q.length + R.length = N) := fun h' => by simp [hfull.2 h'] at hc
      omega
  · have hs := hslots
    rw [show Q.length = m + (Q.length - m) by omega, slots_add] at hs
    rw [List.length_drop, slots_mod]
    conv_lhs => rw [hs]
    exact List.drop_left' (length_slots)

theorem keyPressed (h : Refines N l a) (c : Char) :
    Refines N (ldiscKeyPressed N l c) (a.keyPressed N c) := by
  unfold ldiscKeyPressed LineDisc.keyPressed
  by_cases hb : c = bs
  · simp only [hb, if_true]; exact h.backspace hN hk
  by_cases he : c = Weenix.etx
  · simp only [hb, he, if_true, if_false]; exact h.dropRaw.putChar hN lf
  · simp only [hb, he, if_false]; exact h.putChar hN c

/-- `ldisc_get_current_line_raw` copies the raw line. -/
theorem getCurrentLineRaw (h : Refines N l a) : ldiscGetCurrentLineRaw N l = a.raw := by
  obtain ⟨Q, R⟩ := a
  have hhead : l.head = (l.cooked + R.length) % N := h.head_eq
  have hR : R = slots N l.buffer l.cooked R.length := h.raw_slots
  have hc := h.cooked_lt
  have hroom : R = [] ∨ Q.length + R.length < N := h.raw_room
  have hr : R.length < N := by
    rcases hroom with h' | h'
    · rw [h', List.length_nil]; omega
    · omega
  have hlen : modPow2 (sizeSub l.head l.cooked) N = R.length := by
    rw [modPow2_sizeSub hN hk hc, hhead]
    rcases Nat.lt_or_ge (l.cooked + R.length) N with hw | hw
    · rw [Nat.mod_eq_of_lt hw, show l.cooked + R.length + N - l.cooked = R.length + N by omega,
        Nat.add_mod_right, Nat.mod_eq_of_lt hr]
    · have e : (l.cooked + R.length) % N = l.cooked + R.length - N := by
        rw [Nat.mod_eq_sub_mod hw, Nat.mod_eq_of_lt (by omega)]
      rw [e, show l.cooked + R.length - N + N - l.cooked = R.length by omega,
        Nat.mod_eq_of_lt hr]
  unfold ldiscGetCurrentLineRaw
  rw [hlen]
  split_ifs with h0 hgt
  · exact (List.length_eq_zero.1 h0).symm
  · -- the raw line does not wrap
    have hw : l.cooked + R.length < N := by
      by_contra hw
      rw [hhead, Nat.mod_eq_sub_mod (by omega), Nat.mod_eq_of_lt (by omega)] at hgt
      omega
    rw [hhead, Nat.mod_eq_of_lt hw, Nat.add_sub_cancel_left]
    conv_rhs => rw [hR]
    exact List.map_congr_left fun i hi => by
      rw [Nat.mod_eq_of_lt (by have := List.mem_range.1 hi; omega)]
  · -- the raw line wraps past the end of the buffer
    have hw : N ≤ l.cooked + R.length := by
      by_contra hw
      rw [hhead, Nat.mod_eq_of_lt (by omega)] at hgt
      omega
    have hh : l.head = l.cooked + R.length - N := by
      rw [hhead, Nat.mod_eq_sub_mod hw, Nat.mod_eq_of_lt (by omega)]
    conv_rhs => rw [hR, show R.length = (N - l.cooked) + l.head by omega, slots_add]
    congr 1
    · exact List.map_congr_left fun i hi => by
        rw [Nat.mod_eq_of_lt (by have := List.mem_range.1 hi; omega)]
    · exact List.map_congr_left fun i hi => by
        rw [Nat.add_sub_cancel' hc.le, Nat.add_mod_left,
          Nat.mod_eq_of_lt (by have := List.mem_range.1 hi; omega)]

omit hN hk in
/-- A read of zero characters from a full buffer clears `ldisc_full` with `ldisc_tail` on
`ldisc_cooked`: the buffer then holds nothing, where the spec's read leaves all `N` cooked
characters in place. -/
theorem read_zero_of_full (h : Refines N l a) (hf : l.full = true) :
    a.cooked.length = N ∧ a.read 0 = ([], a) ∧ ldiscRead N l 0 = ([], { l with full := false }) ∧
      Refines N { l with full := false } LineDisc.init := by
  obtain ⟨Q, R⟩ := a
  have hR : R = [] := h.raw_nil_of_full hf
  subst hR
  have hQ : Q.length = N := by simpa using h.full_iff.1 hf
  have hcook : l.cooked = l.tail := by
    rw [(h.cooked_eq : l.cooked = (l.tail + Q.length) % N), hQ, Nat.add_mod_right]
    exact Nat.mod_eq_of_lt h.tail_lt
  refine ⟨hQ, by simp [LineDisc.read], by simp [ldiscRead, hf, readLoop], ?_⟩
  refine ⟨h.tail_lt, ?_, ?_, Nat.zero_le N, .inl rfl, ?_, rfl, rfl⟩
  · show l.cooked = (l.tail + 0) % N
    rw [hcook, Nat.add_zero, Nat.mod_eq_of_lt h.tail_lt]
  · simpa using h.head_eq
  · simp only [LineDisc.init, List.length_nil, Bool.false_eq_true, false_iff]
    have := h.tail_lt; omega

omit hN hk in
/-- `a`, `b`, `c` and `LF` fill a buffer of 4. -/
theorem read_zero_of_full_abc :
    ∃ l a, Refines 4 l a ∧ l.full = true ∧ a.cooked.length = 4 ∧ a.read 0 = ([], a) ∧
      ldiscRead 4 l 0 = ([], { l with full := false }) ∧
      Refines 4 { l with full := false } LineDisc.init :=
  have h4 : (4 : Nat) = 2 ^ 2 := rfl
  have h := ((((Refines.init (by decide : 0 < 4)).keyPressed h4 (by decide) 'a').keyPressed h4
    (by decide) 'b').keyPressed h4 (by decide) 'c').keyPressed h4 (by decide) lf
  ⟨_, _, h, rfl, read_zero_of_full h rfl⟩

end Refines

/-! ## Runs -/

/-- The calls a tty makes on its line discipline. -/
inductive LdiscOp
  | keyPressed (c : Char)
  | read (count : Nat)
  deriving DecidableEq, Repr

/-- A sequence of calls on the buffer, with what each read returns. -/
def ldiscRun : Ldisc → List LdiscOp → List (List Char) × Ldisc
  | l, [] => ([], l)
  | l, .keyPressed c :: ops => ldiscRun (ldiscKeyPressed N l c) ops
  | l, .read count :: ops =>
    let (cs, l) := ldiscRead N l count
    let (out, l) := ldiscRun l ops
    (cs :: out, l)

/-- The same sequence on the abstract line discipline. -/
def LineDisc.run : LineDisc → List LdiscOp → List (List Char) × LineDisc
  | a, [] => ([], a)
  | a, .keyPressed c :: ops => LineDisc.run (a.keyPressed N c) ops
  | a, .read count :: ops =>
    let (cs, a) := a.read count
    let (out, a) := LineDisc.run a ops
    (cs :: out, a)

section Runs

variable {N} {k : Nat} (hN : N = 2 ^ k) (hk : k ≤ 64)
include hN hk

/-- Over any run whose reads all ask for at least one character, the buffer returns what the
abstract line discipline returns, and still refines it. -/
theorem Refines.run : ∀ {l : Ldisc} {a : LineDisc} (ops : List LdiscOp), Refines N l a →
    (∀ count, LdiscOp.read count ∈ ops → 0 < count) →
    (ldiscRun N l ops).1 = (a.run N ops).1 ∧ Refines N (ldiscRun N l ops).2 (a.run N ops).2
  | _, _, [], h, _ => ⟨rfl, h⟩
  | _, _, .keyPressed c :: ops, h, hops =>
    Refines.run ops (h.keyPressed hN hk c) fun n hn => hops n (List.mem_cons_of_mem _ hn)
  | l, a, .read count :: ops, h, hops => by
    obtain ⟨hout, h'⟩ := h.read hN count (.inl (hops count (List.mem_cons_self _ _)))
    obtain ⟨hrest, h''⟩ := Refines.run ops h' fun n hn => hops n (List.mem_cons_of_mem _ hn)
    simp only [ldiscRun, LineDisc.run, hout, hrest, true_and]
    exact h''

/-- From `ldisc_init`, every run whose reads ask for at least one character returns what the
abstract line discipline returns, and `ldisc_get_current_line_raw` then returns its raw line. -/
theorem ldiscRun_refines (ops : List LdiscOp) (hops : ∀ count, LdiscOp.read count ∈ ops → 0 < count) :
    (ldiscRun N ldiscInit ops).1 = (LineDisc.init.run N ops).1 ∧
      ldiscGetCurrentLineRaw N (ldiscRun N ldiscInit ops).2 = (LineDisc.init.run N ops).2.raw :=
  have h := (Refines.init (hN ▸ Nat.two_pow_pos k)).run hN hk ops hops
  ⟨h.1, h.2.getCurrentLineRaw hN hk⟩

omit hN hk in
/-- With a buffer of 4: `a`, `LF`, then a read of 2. -/
theorem ldiscRun_refines_line :
    (∀ count, LdiscOp.read count ∈ [.keyPressed 'a', .keyPressed lf, .read 2] → 0 < count) ∧
      (ldiscRun 4 ldiscInit [.keyPressed 'a', .keyPressed lf, .read 2]).1 =
        (LineDisc.init.run 4 [.keyPressed 'a', .keyPressed lf, .read 2]).1 ∧
      ldiscGetCurrentLineRaw 4 (ldiscRun 4 ldiscInit [.keyPressed 'a', .keyPressed lf, .read 2]).2 =
        (LineDisc.init.run 4 [.keyPressed 'a', .keyPressed lf, .read 2]).2.raw :=
  have hops : ∀ count, LdiscOp.read count ∈ [.keyPressed 'a', .keyPressed lf, .read 2] →
      0 < count := by simp
  ⟨hops, ldiscRun_refines (k := 2) rfl (by decide) _ hops⟩

end Runs

/-- With a buffer of 4: `a`, `b`, `c` and `LF` fill it; a read of 0 characters returns nothing
but empties it, so that a read of 4 then returns nothing, where the spec returns `abc\n`. -/
theorem zero_count_read_drops_cooked_line :
    (ldiscRun 4 ldiscInit [.keyPressed 'a', .keyPressed 'b', .keyPressed 'c', .keyPressed lf,
        .read 0, .read 4]).1 = [[], []] ∧
      (LineDisc.init.run 4 [.keyPressed 'a', .keyPressed 'b', .keyPressed 'c', .keyPressed lf,
        .read 0, .read 4]).1 = [[], ['a', 'b', 'c', lf]] := by
  decide

end Weenix

