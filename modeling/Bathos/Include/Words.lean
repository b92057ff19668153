import Bathos.Include.Bitops

/-!
# Bathos — arrays of words, bit by bit

`uint32_t` arrays that `bitops.h`, word operations and byte pointers all work on.
An `unsigned long` has 32 bits and the byte order is little-endian, so bit `n` of
the array is bit `n % 32` of word `n / 32` and bit `n % 8` of byte `n / 8`.

A `Words n` is the memory behind a pointer to `n` words: they are there, and what
follows them may be too.
-/

namespace Bathos

structure Words (n : Nat) where
  words : List (BitVec 32)
  le_length : n ≤ words.length

namespace Words

variable {n : Nat}

def word (x : Words n) (k : Nat) : BitVec 32 := x.words.getD k 0

/-- Bit number `q`. -/
def bit (x : Words n) (q : Nat) : Bool := bitSet x.words q

/-- `x[k] = v`. -/
def setWord (x : Words n) (k : Nat) (v : BitVec 32) : Words n :=
  ⟨x.words.set k v, by rw [List.length_set]; exact x.le_length⟩

/-- `set_bit(nr, x)`. -/
def setBit (x : Words n) (nr : Nat) : Words n :=
  ⟨Bathos.setBit nr x.words, by rw [setBit_length]; exact x.le_length⟩

/-- `test_bit(nr, x)`. -/
def testBit (x : Words n) (nr : Nat) : Bool := Bathos.testBit nr x.words

/-- `((uint8_t *)x)[k]`. -/
def byte (x : Words n) (k : Nat) : UInt8 :=
  .ofBitVec ((x.word (k / 4)).extractLsb' (8 * (k % 4)) 8)

/-- `((uint8_t *)x)[k] = 0`. -/
def clearByte (x : Words n) (k : Nat) : Words n :=
  x.setWord (k / 4) (x.word (k / 4) &&& ~~~(0xff#32 <<< (8 * (k % 4))))

theorem bit_eq (x : Words n) (q : Nat) : x.bit q = (x.word (q / 32)).getLsbD (q % 32) := rfl

theorem testBit_eq (x : Words n) (nr : Nat) : x.testBit nr = x.bit nr :=
  Bathos.testBit_eq (Or.inl rfl) nr x.words

theorem word_setWord (x : Words n) {k j : Nat} (v : BitVec 32) (hk : k < n) :
    (x.setWord k v).word j = if k = j then v else x.word j :=
  getD_set (Nat.lt_of_lt_of_le hk x.le_length)

theorem bit_setWord (x : Words n) {k : Nat} (v : BitVec 32) (hk : k < n) (q : Nat) :
    (x.setWord k v).bit q = if q / 32 = k then v.getLsbD (q % 32) else x.bit q := by
  rw [bit_eq, word_setWord x v hk]
  by_cases hq : k = q / 32
  · rw [if_pos hq, if_pos hq.symm]
  · rw [if_neg hq, if_neg (fun h => hq h.symm), bit_eq]

theorem bit_setBit (x : Words n) {nr : Nat} (hnr : nr < 32 * n) (q : Nat) :
    (x.setBit nr).bit q = (decide (q = nr) || x.bit q) :=
  bitSet_setBit (by decide)
    (Nat.lt_of_lt_of_le (Nat.div_lt_of_lt_mul hnr) x.le_length) q

theorem byte_getLsbD (x : Words n) (k : Nat) {j : Nat} (hj : j < 8) :
    (x.byte k).toBitVec.getLsbD j = x.bit (8 * k + j) := by
  have hword : (8 * k + j) / 32 = k / 4 := by omega
  have hbit : (8 * k + j) % 32 = 8 * (k % 4) + j := by omega
  rw [bit_eq, hword, hbit]
  show (((x.word (k / 4)).extractLsb' (8 * (k % 4)) 8)).getLsbD j = _
  simp [hj]

theorem byte_ext {x y : Words n} {k : Nat} (h : ∀ j < 8, x.bit (8 * k + j) = y.bit (8 * k + j)) :
    x.byte k = y.byte k := by
  apply UInt8.toBitVec_inj.mp
  apply BitVec.eq_of_getLsbD_eq
  intro j hj
  rw [byte_getLsbD x k hj, byte_getLsbD y k hj, h j hj]

/-- `x[k] |= v`. -/
theorem bit_orWord (x : Words n) {k : Nat} (v : BitVec 32) (hk : k < n) (q : Nat) :
    (x.setWord k (x.word k ||| v)).bit q =
      (x.bit q || decide (q / 32 = k) && v.getLsbD (q % 32)) := by
  rw [bit_setWord x _ hk]
  by_cases hq : q / 32 = k
  · rw [if_pos hq, BitVec.getLsbD_or, bit_eq, hq, decide_eq_true rfl, Bool.true_and]
  · rw [if_neg hq, decide_eq_false hq, Bool.false_and, Bool.or_false]

theorem word_eq_zero_iff (x : Words n) (k : Nat) :
    x.word k = 0 ↔ ∀ q, q / 32 = k → x.bit q = false := by
  constructor
  · rintro h q rfl
    rw [bit_eq, h]
    exact BitVec.getLsbD_zero
  · intro h
    apply BitVec.eq_of_getLsbD_eq
    intro j hj
    have hbit := h (32 * k + j) (by omega)
    rw [bit_eq, show (32 * k + j) / 32 = k by omega, show (32 * k + j) % 32 = j by omega] at hbit
    rw [hbit]
    exact BitVec.getLsbD_zero.symm

/-- The bits of one byte of a word. -/
theorem getLsbD_byteMask {b : Nat} (hb : b < 32) (r : Nat) :
    (0xff#32 <<< (8 * r)).getLsbD b = decide (b / 8 = r) := by
  have hff : ∀ i, (0xff#32).getLsbD i = decide (i < 8) := by
    intro i
    rcases Nat.lt_or_ge i 32 with hi | hi
    · revert i
      decide
    · rw [BitVec.getLsbD_of_ge _ _ hi]
      exact (decide_eq_false (by omega)).symm
  rw [BitVec.getLsbD_shiftLeft, hff]
  simp only [hb, decide_true, Bool.true_and]
  by_cases hr : b / 8 = r
  · simp only [hr, decide_true, Bool.and_eq_true, Bool.not_eq_true', decide_eq_false_iff_not,
      decide_eq_true_eq]
    omega
  · simp only [hr, decide_false, Bool.and_eq_false_iff, Bool.not_eq_false', decide_eq_true_eq,
      decide_eq_false_iff_not]
    omega

theorem bit_clearByte (x : Words n) {k : Nat} (hk : k < 4 * n) (q : Nat) :
    (x.clearByte k).bit q = (!decide (q / 8 = k) && x.bit q) := by
  have hmod : q % 32 < 32 := Nat.mod_lt q (by decide)
  unfold clearByte
  rw [bit_setWord x _ (Nat.div_lt_of_lt_mul hk)]
  by_cases hword : q / 32 = k / 4
  · rw [if_pos hword, BitVec.getLsbD_and, BitVec.getLsbD_not, getLsbD_byteMask hmod, bit_eq, hword]
    have hbyte : q % 32 / 8 = k % 4 ↔ q / 8 = k := by omega
    simp only [hmod, decide_true, Bool.true_and, hbyte, Bool.and_comm]
  · rw [if_neg hword]
    have hbyte : q / 8 ≠ k := fun h => hword (by omega)
    simp [hbyte]

end Words

end Bathos
