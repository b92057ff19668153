import Mathlib.Tactic

/-!
# Bathos — bit operations

`bitops.h` and `ffs.h`: bits addressed by number inside an array of
`unsigned long` words of `w` bits, and the search for the first bit set of one
word. `w` is `BITS_PER_LONG`, 32 or 64.

`bitSet` reads bit `nr` of an array as a mathematical predicate; the lemmas
connect the operations of the headers to it (`testBit_eq`, `bitSet_setBit`,
`bitSet_clearBit`) and say that `ffs` finds the lowest bit (`ffs_lowest`).
-/

namespace Bathos

/-- The word sizes the headers know about. -/
def IsWordSize (w : Nat) : Prop := w = 32 ∨ w = 64

theorem IsWordSize.pos {w : Nat} (h : IsWordSize w) : 0 < w := by
  rcases h with rfl | rfl <;> decide

/-! ## bitops.h -/

section Bitops

variable {w : Nat}

/-- `set_bit`: `addr[nr / w] |= 1UL << (nr % w)`. -/
def setBit (nr : Nat) (addr : List (BitVec w)) : List (BitVec w) :=
  addr.set (nr / w) (addr.getD (nr / w) 0 ||| (1#w <<< (nr % w)))

/-- `clear_bit`: `addr[nr / w] &= ~(1UL << (nr % w))`. -/
def clearBit (nr : Nat) (addr : List (BitVec w)) : List (BitVec w) :=
  addr.set (nr / w) (addr.getD (nr / w) 0 &&& ~~~(1#w <<< (nr % w)))

/-- `test_bit`: `1UL & (addr[nr / w] >> (nr & (w - 1)))`. -/
def testBit (nr : Nat) (addr : List (BitVec w)) : Bool :=
  decide ((addr.getD (nr / w) 0 >>> (nr &&& (w - 1))) &&& 1#w ≠ 0#w)

/-- Bit number `nr` of an array of words. -/
def bitSet (addr : List (BitVec w)) (nr : Nat) : Bool :=
  (addr.getD (nr / w) 0).getLsbD (nr % w)

@[simp] theorem setBit_length (nr : Nat) (addr : List (BitVec w)) :
    (setBit nr addr).length = addr.length := by
  simp [setBit]

@[simp] theorem clearBit_length (nr : Nat) (addr : List (BitVec w)) :
    (clearBit nr addr).length = addr.length := by
  simp [clearBit]

/-- The lowest bit of a word decides whether the word and `1` meet. -/
theorem and_one_ne_zero (hw : 0 < w) (x : BitVec w) :
    decide (x &&& 1#w ≠ 0#w) = x.getLsbD 0 := by
  cases hx : x.getLsbD 0 with
  | false =>
    rw [decide_eq_false_iff_not, not_not]
    apply BitVec.eq_of_getLsbD_eq
    intro i hi
    by_cases hi0 : i = 0
    · subst hi0
      simp [hx]
    · simp [hi0]
  | true =>
    rw [decide_eq_true_eq]
    intro hzero
    have hbit : (x &&& 1#w).getLsbD 0 = (0#w).getLsbD 0 := by rw [hzero]
    rw [BitVec.getLsbD_and, hx, BitVec.getLsbD_one] at hbit
    simp [hw] at hbit

theorem testBit_eq (hw : IsWordSize w) (nr : Nat) (addr : List (BitVec w)) :
    testBit nr addr = bitSet addr nr := by
  have hmask : nr &&& (w - 1) = nr % w := by
    rcases hw with rfl | rfl
    · exact Nat.and_two_pow_sub_one_eq_mod nr 5
    · exact Nat.and_two_pow_sub_one_eq_mod nr 6
  rw [testBit, and_one_ne_zero hw.pos, BitVec.getLsbD_ushiftRight, hmask, bitSet, Nat.add_zero]

/-- Two bits are the same bit when they have the same word and the same
position in it. -/
theorem word_bit_inj {a b : Nat} (hword : a / w = b / w) (hbit : a % w = b % w) : a = b := by
  rw [← Nat.div_add_mod a w, ← Nat.div_add_mod b w, hword, hbit]

theorem getD_set {l : List (BitVec w)} {i j : Nat} {x : BitVec w} (hi : i < l.length) :
    (l.set i x).getD j 0 = if i = j then x else l.getD j 0 := by
  rw [List.getD_eq_getElem?_getD, List.getElem?_set]
  split
  · simp [*]
  · rw [List.getD_eq_getElem?_getD]

theorem bitSet_setBit (hw : 0 < w) {nr : Nat} {addr : List (BitVec w)}
    (hnr : nr / w < addr.length) (n : Nat) :
    bitSet (setBit nr addr) n = (decide (n = nr) || bitSet addr n) := by
  have hlt : n % w < w := Nat.mod_lt _ hw
  rw [bitSet, setBit, getD_set hnr]
  by_cases hword : nr / w = n / w
  · rw [if_pos hword, BitVec.getLsbD_or, bitSet, hword, Bool.or_comm]
    congr 1
    by_cases hbit : nr % w = n % w
    · have := word_bit_inj hword hbit
      subst this
      simp [hlt]
    · have hne : n ≠ nr := fun h => hbit (by rw [h])
      have hsub : ¬ (n % w < nr % w) → n % w - nr % w ≠ 0 := by omega
      simp only [BitVec.getLsbD_shiftLeft, BitVec.getLsbD_one, hlt, hne, decide_true,
        Bool.true_and, decide_false, Bool.and_eq_false_iff, Bool.not_eq_false',
        decide_eq_true_eq, decide_eq_false_iff_not]
      by_cases hc : n % w < nr % w
      · exact Or.inl hc
      · exact Or.inr (Or.inr (hsub hc))
  · have hne : n ≠ nr := fun h => hword (by rw [h])
    rw [if_neg hword, bitSet]
    simp [hne]

theorem bitSet_clearBit (hw : 0 < w) {nr : Nat} {addr : List (BitVec w)}
    (hnr : nr / w < addr.length) (n : Nat) :
    bitSet (clearBit nr addr) n = (!decide (n = nr) && bitSet addr n) := by
  have hlt : n % w < w := Nat.mod_lt _ hw
  -- clearing a bit is setting the same bit of the complement
  have hset : bitSet (setBit nr (List.replicate addr.length 0#w)) n =
      (decide (n = nr) || bitSet (List.replicate addr.length 0#w) n) :=
    bitSet_setBit hw (by simpa using hnr) n
  rw [bitSet, setBit, getD_set (by simpa using hnr)] at hset
  rw [bitSet, clearBit, getD_set hnr]
  by_cases hword : nr / w = n / w
  · rw [if_pos hword] at hset ⊢
    rw [BitVec.getLsbD_and, BitVec.getLsbD_not, hword]
    have hzero : (List.replicate addr.length 0#w).getD (nr / w) 0 = 0#w := by
      simp [List.getD_eq_getElem?_getD, hnr]
    have hzero' : bitSet (List.replicate addr.length 0#w) n = false := by
      rw [bitSet, ← hword, hzero]
      simp
    rw [hzero, hzero', BitVec.zero_or, Bool.or_false] at hset
    rw [hset, bitSet, Bool.and_comm]
    simp [hlt]
  · have hne : n ≠ nr := fun h => hword (by rw [h])
    rw [if_neg hword, bitSet]
    simp [hne]

end Bitops

/-! ## ffs.h -/

/-- One narrowing step of `ffs`: `if (!(x & mask)) { x >>= k; r += k; }`. -/
def ffsStep (mask k : Nat) (p : Nat × Nat) : Nat × Nat :=
  if p.1 &&& mask = 0 then (p.1 >>> k, p.2 + k) else p

/-- `ffs(x)`: one plus the number of the first bit set, zero for a zero word. -/
def ffs (bitsPerLong x : Nat) : Nat :=
  if x = 0 then 0
  else
    let p := (x, 1)
    let p := if bitsPerLong = 64 then ffsStep 0xffffffff 32 p else p
    let p := ffsStep 0xffff 16 p
    let p := ffsStep 0xff 8 p
    let p := ffsStep 0xf 4 p
    let p := ffsStep 3 2 p
    let p := ffsStep 1 1 p
    p.2

/-- What `ffs` keeps while it narrows: the word has been shifted right over
zeroes only, and one of its `k` lowest bits is still set. -/
structure FfsInv (x0 k : Nat) (p : Nat × Nat) : Prop where
  pos : 1 ≤ p.2
  shifted : p.1 = x0 >>> (p.2 - 1)
  zeros : x0 % 2 ^ (p.2 - 1) = 0
  low : p.1 % 2 ^ k ≠ 0

theorem FfsInv.step {x0 k : Nat} {p : Nat × Nat} (h : FfsInv x0 (2 * k) p) :
    FfsInv x0 k (ffsStep (2 ^ k - 1) k p) := by
  obtain ⟨x, r⟩ := p
  obtain ⟨hpos, hshift, hzeros, hlow⟩ := h
  simp only at hpos hshift hzeros hlow
  rw [ffsStep, Nat.and_two_pow_sub_one_eq_mod]
  simp only
  split
  · rename_i hz
    have hsum : r + k - 1 = r - 1 + k := by omega
    refine ⟨by simp only; omega, ?_, ?_, ?_⟩
    · simp only
      rw [hsum, Nat.shiftRight_add, ← hshift]
    · simp only
      rw [hsum, Nat.pow_add, Nat.mod_mul, hzeros, ← Nat.shiftRight_eq_div_pow, ← hshift, hz]
      simp
    · simp only
      intro hzero
      apply hlow
      rw [Nat.two_mul, Nat.pow_add, Nat.mod_mul, hz, ← Nat.shiftRight_eq_div_pow, hzero]
      simp
  · rename_i hz
    exact ⟨hpos, hshift, hzeros, hz⟩

/-- The steps end on an odd word: the shift count is the lowest bit set. -/
theorem FfsInv.lowest {x0 : Nat} {p : Nat × Nat} (h : FfsInv x0 1 p) :
    x0.testBit (p.2 - 1) = true ∧ ∀ i < p.2 - 1, x0.testBit i = false := by
  have hodd : p.1 % 2 = 1 := by
    have := h.low
    rw [Nat.pow_one] at this
    omega
  constructor
  · rw [Nat.testBit_eq_decide_div_mod_eq, ← Nat.shiftRight_eq_div_pow, ← h.shifted, hodd]
    rfl
  · intro i hi
    have hbit : (x0 % 2 ^ (p.2 - 1)).testBit i = false := by
      rw [h.zeros]
      exact Nat.zero_testBit i
    rw [Nat.testBit_mod_two_pow] at hbit
    simpa [hi] using hbit

/-- **`ffs` finds the lowest bit set.** -/
theorem ffs_lowest {w x : Nat} (hw : IsWordSize w) (hx : x ≠ 0) (hlt : x < 2 ^ w) :
    1 ≤ ffs w x ∧ x.testBit (ffs w x - 1) = true ∧ ∀ i < ffs w x - 1, x.testBit i = false := by
  have hstart : FfsInv x w (x, 1) := by
    refine ⟨le_rfl, by simp, by simp [Nat.mod_one], ?_⟩
    simp only
    rw [Nat.mod_eq_of_lt hlt]
    exact hx
  -- after the step for 64-bit words both word sizes stand at 32 bits
  have h32 : FfsInv x 32 (if w = 64 then ffsStep 0xffffffff 32 (x, 1) else (x, 1)) := by
    rcases hw with rfl | rfl
    · exact hstart
    · exact hstart.step (k := 32)
  have h1 : FfsInv x 1 _ :=
    ((((h32.step (k := 16)).step (k := 8)).step (k := 4)).step (k := 2)).step (k := 1)
  have hr := h1.lowest
  have hp := h1.pos
  rw [ffs, if_neg hx]
  exact ⟨hp, hr⟩

end Bathos
