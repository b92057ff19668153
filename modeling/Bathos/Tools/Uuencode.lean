import Mathlib.Tactic

/-!
# Bathos — uuencode

`tools/lpclib.c`, for the dialogue with the boot loader of the LPC parts: three bytes are
four characters of six bits each. The encoder subtracts one before it masks and adds it
again behind the mask, so that zero is written as a backquote instead of a space; the
decoder subtracts the space and masks.

Main results:

* `sextetOf_charOf` — what the decoder makes of a character is the six bits it was made of;
* `uudecode_uuencode` — the round trip, with the range and the number of the characters.
-/

namespace Bathos.Tools

-- ---------------------------------------------------------------------------
-- The code
-- ---------------------------------------------------------------------------

/-- `' ' + (((l >> n) - 1) & 0x3f) + 1`, as a `char`. -/
def charOf (l : BitVec 32) (n : Nat) : UInt8 :=
  UInt8.ofBitVec ((32 + (((l >>> n) - 1) &&& 0x3f) + 1).setWidth 8)

/-- `in[i]<<16 | in[i+1]<<8 | in[i+2]`. -/
def word (b₀ b₁ b₂ : UInt8) : BitVec 32 :=
  b₀.toBitVec.setWidth 32 <<< 16 ||| b₁.toBitVec.setWidth 32 <<< 8 ||| b₂.toBitVec.setWidth 32

/-- The loop of `lpc_uuencode` from `i` on: the characters written. -/
def uuencodeLoop (inp : Nat → UInt8) (c i : Nat) : List UInt8 :=
  if i < c then
    let l := word (inp i) (inp (i + 1)) (inp (i + 2))
    charOf l 18 :: charOf l 12 :: charOf l 6 :: charOf l 0 :: uuencodeLoop inp c (i + 3)
  else []
termination_by c - i

/-- `lpc_uuencode(in, c, out)`: what it writes from `out` on. -/
def uuencode (inp : Nat → UInt8) (c : Nat) : List UInt8 :=
  UInt8.ofNat (32 + c) :: uuencodeLoop inp c 0 ++ [0]

/-- `(in[j] - ' ') & 0x3f`, for a signed `char`. -/
def sextetOf (char : UInt8) : BitVec 32 := (char.toBitVec.signExtend 32 - 32) &&& 0x3f

/-- The loop of `lpc_uudecode`: the bytes written. -/
def uudecodeLoop (inp : Nat → UInt8) (c : Int) (i j : Nat) : List UInt8 :=
  if i < c then
    let l := sextetOf (inp j) <<< 18 ||| sextetOf (inp (j + 1)) <<< 12 |||
      sextetOf (inp (j + 2)) <<< 6 ||| sextetOf (inp (j + 3))
    UInt8.ofBitVec ((l >>> 16).setWidth 8) :: UInt8.ofBitVec (((l >>> 8) &&& 0xff).setWidth 8) ::
      UInt8.ofBitVec ((l &&& 0xff).setWidth 8) :: uudecodeLoop inp c (i + 3) (j + 4)
  else []
termination_by (c - i).toNat

/-- `lpc_uudecode(in, out)`: its result, and what it writes from `out` on. -/
def uudecode (inp : Nat → UInt8) : Int × List UInt8 :=
  let c := (inp 0).toInt8.toInt - 32
  (c, uudecodeLoop inp c 0 1)

-- ---------------------------------------------------------------------------
-- A character
-- ---------------------------------------------------------------------------

section Char

variable (l : BitVec 32) (n : Nat)

/-- The six bits as a number from 1 to 64, zero being the last. -/
theorem charOf_toNat : (charOf l n).toNat = 33 + ((l >>> n).toNat + 63) % 64 := by
  have hmask : ((l >>> n - 1) &&& 0x3f).toNat = ((l >>> n).toNat + 63) % 64 := by
    rw [BitVec.toNat_and]
    show _ &&& (2 ^ 6 - 1) = _
    rw [Nat.and_two_pow_sub_one_eq_mod, BitVec.toNat_sub]
    show (4294967296 - 1 + _) % 4294967296 % 2 ^ 6 = _
    omega
  unfold charOf
  rw [UInt8.toNat_ofBitVec, BitVec.toNat_setWidth, BitVec.toNat_add, BitVec.toNat_add, hmask]
  show ((32 + _) % 4294967296 + 1) % 4294967296 % 256 = _
  omega

/-- From `'!'` to the backquote. -/
theorem charOf_range : 33 ≤ (charOf l n).toNat ∧ (charOf l n).toNat ≤ 96 := by
  rw [charOf_toNat]
  omega

theorem sextetOf_charOf : sextetOf (charOf l n) = (l >>> n) &&& 0x3f := by
  have hchar := charOf_toNat l n
  have hmsb : (charOf l n).toBitVec.msb = false := by
    rw [BitVec.msb_eq_false_iff_two_mul_lt]
    show 2 * (charOf l n).toNat < 256
    omega
  apply BitVec.eq_of_toNat_eq
  unfold sextetOf
  rw [BitVec.signExtend_eq_setWidth_of_msb_false hmsb, BitVec.toNat_and, BitVec.toNat_and]
  show _ &&& (2 ^ 6 - 1) = _ &&& (2 ^ 6 - 1)
  rw [Nat.and_two_pow_sub_one_eq_mod, Nat.and_two_pow_sub_one_eq_mod, BitVec.toNat_sub,
    BitVec.toNat_setWidth]
  show (4294967296 - 32 + (charOf l n).toNat % 4294967296) % 4294967296 % 2 ^ 6 = _
  omega

end Char

-- ---------------------------------------------------------------------------
-- A group
-- ---------------------------------------------------------------------------

section Group

variable (b₀ b₁ b₂ : UInt8)

/-- The bits of the three bytes, from the last one up. -/
theorem word_getLsbD {i : Nat} (hi : i < 32) :
    (word b₀ b₁ b₂).getLsbD i =
      if i < 8 then b₂.toBitVec.getLsbD i
      else if i < 16 then b₁.toBitVec.getLsbD (i - 8)
      else b₀.toBitVec.getLsbD (i - 16) := by
  have hshift : ∀ (b : UInt8) (k : Nat), (b.toBitVec.setWidth 32 <<< k).getLsbD i =
      (!decide (i < k) && b.toBitVec.getLsbD (i - k)) := by
    intro b k
    rw [BitVec.getLsbD_shiftLeft, BitVec.getLsbD_setWidth, decide_eq_true hi,
      decide_eq_true (show i - k < 32 by omega), Bool.true_and, Bool.true_and]
  unfold word
  rw [BitVec.getLsbD_or, BitVec.getLsbD_or, hshift, hshift, BitVec.getLsbD_setWidth,
    decide_eq_true hi, Bool.true_and]
  split_ifs with h8 h16
  · have h16 : i < 16 := by omega
    simp [h8, h16]
  · simp [h8, h16, BitVec.getLsbD_of_ge b₂.toBitVec i (by omega)]
  · simp [h8, h16, BitVec.getLsbD_of_ge b₂.toBitVec i (by omega),
      BitVec.getLsbD_of_ge b₁.toBitVec (i - 8) (by omega)]

theorem mask_getLsbD (n i : Nat) :
    (BitVec.ofNat 32 (2 ^ n - 1)).getLsbD i = (decide (i < 32) && decide (i < n)) := by
  rw [BitVec.getLsbD_ofNat, Nat.testBit_two_pow_sub_one]

/-- Six bits taken out and put back. -/
theorem sextet_getLsbD (l : BitVec 32) (k : Nat) {i : Nat} (hi : i < 32) :
    (((l >>> k) &&& 0x3f) <<< k).getLsbD i =
      (l.getLsbD i && decide (k ≤ i ∧ i < k + 6)) := by
  have hmask : (0x3f : BitVec 32) = BitVec.ofNat 32 (2 ^ 6 - 1) := rfl
  rw [hmask, BitVec.getLsbD_shiftLeft, BitVec.getLsbD_and, BitVec.getLsbD_ushiftRight, mask_getLsbD,
    decide_eq_true hi, decide_eq_true (show i - k < 32 by omega), Bool.true_and, Bool.true_and]
  by_cases hk : i < k
  · simp [hk]
  · have hki : k + (i - k) = i := by omega
    have hsix : i - k < 6 ↔ k ≤ i ∧ i < k + 6 := by omega
    rw [hki, decide_eq_false hk, Bool.not_false, Bool.true_and, decide_eq_decide.mpr hsix]

/-- Four groups of six bits are all the bits there are. -/
theorem word_of_sextets :
    ((word b₀ b₁ b₂ >>> 18) &&& 0x3f) <<< 18 ||| ((word b₀ b₁ b₂ >>> 12) &&& 0x3f) <<< 12 |||
      ((word b₀ b₁ b₂ >>> 6) &&& 0x3f) <<< 6 ||| ((word b₀ b₁ b₂ >>> 0) &&& 0x3f) =
      word b₀ b₁ b₂ := by
  apply BitVec.eq_of_getLsbD_eq
  intro i hi
  have hlast := sextet_getLsbD (word b₀ b₁ b₂) 0 hi
  rw [BitVec.shiftLeft_zero] at hlast
  rw [BitVec.getLsbD_or, BitVec.getLsbD_or, BitVec.getLsbD_or, sextet_getLsbD _ 18 hi,
    sextet_getLsbD _ 12 hi, sextet_getLsbD _ 6 hi, hlast]
  by_cases h24 : i < 24
  · -- the bit is in one of the groups
    cases (word b₀ b₁ b₂).getLsbD i with
    | false => rfl
    | true =>
      simp only [Bool.true_and, ← Bool.decide_or, decide_eq_true_eq]
      omega
  · have hzero : (word b₀ b₁ b₂).getLsbD i = false := by
      rw [word_getLsbD _ _ _ hi, if_neg (by omega), if_neg (by omega)]
      exact BitVec.getLsbD_of_ge _ _ (by omega)
    rw [hzero]
    rfl

theorem bytes_of_word :
    UInt8.ofBitVec ((word b₀ b₁ b₂ >>> 16).setWidth 8) = b₀ ∧
      UInt8.ofBitVec (((word b₀ b₁ b₂ >>> 8) &&& 0xff).setWidth 8) = b₁ ∧
      UInt8.ofBitVec ((word b₀ b₁ b₂ &&& 0xff).setWidth 8) = b₂ := by
  have hmask : ∀ (l : BitVec 32) {i : Nat}, i < 8 →
      (l &&& 0xff).getLsbD i = l.getLsbD i := by
    intro l i hi
    have hff : (0xff : BitVec 32) = BitVec.ofNat 32 (2 ^ 8 - 1) := rfl
    rw [hff, BitVec.getLsbD_and, mask_getLsbD, decide_eq_true (show i < 32 by omega),
      decide_eq_true hi, Bool.true_and, Bool.and_true]
  refine ⟨?_, ?_, ?_⟩
  all_goals
    apply UInt8.toBitVec_inj.mp
    apply BitVec.eq_of_getLsbD_eq
    intro i hi
    show (BitVec.setWidth 8 _).getLsbD i = _
    rw [BitVec.getLsbD_setWidth, decide_eq_true hi, Bool.true_and]
  · rw [BitVec.getLsbD_ushiftRight, word_getLsbD _ _ _ (by omega), if_neg (by omega),
      if_neg (by omega), Nat.add_sub_cancel_left]
  · rw [hmask _ hi, BitVec.getLsbD_ushiftRight, word_getLsbD _ _ _ (by omega),
      if_neg (by omega), if_pos (by omega), Nat.add_sub_cancel_left]
  · rw [hmask _ hi, word_getLsbD _ _ _ (by omega), if_pos hi]

end Group

-- ---------------------------------------------------------------------------
-- All groups
-- ---------------------------------------------------------------------------

variable {inp src : Nat → UInt8}

theorem uuencodeLoop_of_lt {c i : Nat} (h : i < c) :
    uuencodeLoop inp c i =
      charOf (word (inp i) (inp (i + 1)) (inp (i + 2))) 18 ::
      charOf (word (inp i) (inp (i + 1)) (inp (i + 2))) 12 ::
      charOf (word (inp i) (inp (i + 1)) (inp (i + 2))) 6 ::
      charOf (word (inp i) (inp (i + 1)) (inp (i + 2))) 0 :: uuencodeLoop inp c (i + 3) := by
  rw [uuencodeLoop, if_pos h]

theorem uuencodeLoop_of_le {c i : Nat} (h : c ≤ i) : uuencodeLoop inp c i = [] := by
  rw [uuencodeLoop, if_neg (Nat.not_lt.mpr h)]

/-- Four characters a group. -/
theorem uuencodeLoop_length (inp : Nat → UInt8) (i n : Nat) :
    (uuencodeLoop inp (i + 3 * n) i).length = 4 * n := by
  induction n generalizing i with
  | zero => rw [uuencodeLoop_of_le (by omega), List.length_nil]
  | succ n ih =>
    rw [uuencodeLoop_of_lt (by omega), show i + 3 * (n + 1) = i + 3 + 3 * n by omega]
    simp only [List.length_cons, ih]
    omega

theorem uuencodeLoop_range (inp : Nat → UInt8) (i n : Nat) :
    ∀ char ∈ uuencodeLoop inp (i + 3 * n) i, 33 ≤ char.toNat ∧ char.toNat ≤ 96 := by
  induction n generalizing i with
  | zero =>
    rw [uuencodeLoop_of_le (by omega)]
    exact fun _ h => absurd h List.not_mem_nil
  | succ n ih =>
    rw [uuencodeLoop_of_lt (by omega), show i + 3 * (n + 1) = i + 3 + 3 * n by omega]
    intro char hchar
    simp only [List.mem_cons] at hchar
    rcases hchar with rfl | rfl | rfl | rfl | hrest
    · exact charOf_range _ _
    · exact charOf_range _ _
    · exact charOf_range _ _
    · exact charOf_range _ _
    · exact ih (i + 3) char hrest

/-- The decoder on the text of the last `n` groups. -/
theorem uudecodeLoop_uuencodeLoop (i j n : Nat)
    (hsrc : ∀ t < 4 * n, (uuencodeLoop inp (i + 3 * n) i)[t]? = some (src (j + t))) :
    uudecodeLoop src ((i + 3 * n : Nat) : Int) i j = (List.range (3 * n)).map fun t => inp (i + t) := by
  induction n generalizing i j with
  | zero =>
    rw [uudecodeLoop, if_neg (by omega)]
    rfl
  | succ n ih =>
    have hend : i + 3 * (n + 1) = i + 3 + 3 * n := by omega
    rw [uuencodeLoop_of_lt (by omega), hend] at hsrc
    have h₀ : _ = src j := Option.some_inj.mp (hsrc 0 (by omega))
    have h₁ : _ = src (j + 1) := Option.some_inj.mp (hsrc 1 (by omega))
    have h₂ : _ = src (j + 2) := Option.some_inj.mp (hsrc 2 (by omega))
    have h₃ : _ = src (j + 3) := Option.some_inj.mp (hsrc 3 (by omega))
    have hrest := ih (i + 3) (j + 4) fun t ht => by
      rw [show j + 4 + t = j + (t + 4) by omega]
      exact hsrc (t + 4) (by omega)
    obtain ⟨hb₀, hb₁, hb₂⟩ := bytes_of_word (inp i) (inp (i + 1)) (inp (i + 2))
    rw [uudecodeLoop, if_pos (by omega), ← h₀, ← h₁, ← h₂, ← h₃]
    simp only [sextetOf_charOf, word_of_sextets, hb₀, hb₁, hb₂]
    rw [hend, hrest, show 3 * (n + 1) = 3 * n + 1 + 1 + 1 by omega]
    simp only [List.range_succ_eq_map, List.map_cons, List.map_map]
    refine congrArg₂ _ rfl (congrArg₂ _ rfl (congrArg₂ _ rfl (List.map_congr_left fun t _ => ?_)))
    exact congrArg inp (by simp only [Function.comp_apply]; omega)

/-- The length character is not beyond the characters of seven bits. -/
theorem length_char {c : Nat} (h : c ≤ 63) :
    (UInt8.ofNat (32 + c)).toInt8.toInt - 32 = c ∧ 0 ≠ UInt8.ofNat (32 + c) := by
  interval_cases c <;> decide

/-- **The round trip.** Of any `c` bytes, a multiple of three up to 63, the decoder makes
the same bytes again; the text between is as long as it should be and without spaces behind
the length. -/
theorem uudecode_uuencode (inp : Nat → UInt8) (c : Nat) (h3 : 3 ∣ c) (h63 : c ≤ 63) :
    ∃ text, uuencode inp c = text ++ [0] ∧ 0 ∉ text ∧ text.length = 1 + 4 * c / 3 ∧
      (∀ char ∈ text.tail, 33 ≤ char.toNat ∧ char.toNat ≤ 96) ∧
      uudecode ((uuencode inp c).getD · 0) = ((c : Int), (List.range c).map inp) := by
  obtain ⟨n, rfl⟩ := h3
  obtain ⟨hlength, hne⟩ := length_char h63
  have hchars := uuencodeLoop_length inp 0 n
  have hrange := uuencodeLoop_range inp 0 n
  rw [Nat.zero_add] at hchars hrange
  refine ⟨UInt8.ofNat (32 + 3 * n) :: uuencodeLoop inp (3 * n) 0, rfl, fun hzero => ?_, ?_, hrange, ?_⟩
  · rcases List.mem_cons.mp hzero with hfirst | hrest
    · exact hne hfirst
    · exact absurd (hrange 0 hrest).1 (by decide)
  · rw [List.length_cons, hchars]
    omega
  · have hdecode := @uudecodeLoop_uuencodeLoop inp ((uuencode inp (3 * n)).getD · 0) 0 1 n
      fun t ht => by
        rw [Nat.zero_add, Nat.add_comm 1 t]
        unfold uuencode
        rw [List.cons_append, List.getD_cons_succ, List.getD_eq_getElem?_getD,
          List.getElem?_append_left (by omega), List.getElem?_eq_getElem (by omega)]
        rfl
    rw [Nat.zero_add] at hdecode
    have hfirst : (uuencode inp (3 * n)).getD 0 0 = UInt8.ofNat (32 + 3 * n) := rfl
    unfold uudecode
    simp only [hfirst, hlength, hdecode, Nat.zero_add]

/-- "Cat" is written `#0V%T`. -/
theorem uudecode_uuencode_cat :
    uudecode ((uuencode ([67, 97, 116].getD · 0) 3).getD · 0) = (3, [67, 97, 116]) := by
  obtain ⟨-, -, -, -, -, h⟩ := uudecode_uuencode ([67, 97, 116].getD · 0) 3 (dvd_refl 3) (by decide)
  exact h

end Bathos.Tools
