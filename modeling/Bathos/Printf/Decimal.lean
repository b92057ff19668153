import Bathos.Lib.Numeral
import Mathlib.Tactic

/-!
# Bathos — decimal conversion without a division

`put_dec`, `put_dec_full` and `put_dec_trunc` of `pp_printf/vsprintf-full.c`. A number is
cut into groups of five digits by division; in a group the four-bit parts of its binary form
are added up with weights, and divisions by ten are a multiplication and a shift.

The group goes through an `unsigned`, which has 16 bits on the AVR and holds no group from
65536 on.

Main results:

* `putDecTrunc_eq`, `putDecFull_eq` — the digits of one group;
* `putDec_iff` — the decimal digits come out exactly when every group fits into an `unsigned`.
-/

namespace Bathos.Printf

open Bathos.Lib

-- ---------------------------------------------------------------------------
-- The code
-- ---------------------------------------------------------------------------

/-- `d + '0'` in a `char`. -/
def digitOf {w : Nat} (d : BitVec w) : Char := Char.ofNat ((d + 48#w).toNat % 256)

section Code

variable {w : Nat} (q : BitVec w)

/-- `(x * 0xcd) >> 11`. -/
def tenth : BitVec w := (q * 0xcd#w) >>> 11

/-- `(x * 0xd) >> 7`. -/
def tenthShort : BitVec w := (q * 0xd#w) >>> 7

/-- `d1`, `d2` and `d3` as they are read from the group. -/
def low : BitVec w := (q >>> 4) &&& 0xf#w

def mid : BitVec w := (q >>> 8) &&& 0xf#w

def high : BitVec w := q >>> 12

/-- `d0` before its digit is taken. -/
def sum0 : BitVec w := 6#w * (high q + mid q + low q) + (q &&& 0xf#w)

/-- `d1` before its digit is taken, and so on. -/
def sum1 : BitVec w := tenth (sum0 q) + 9#w * high q + 5#w * mid q + low q

def sum2 : BitVec w := tenth (sum1 q) + 2#w * mid q

def sum3 : BitVec w := tenthShort (sum2 q) + 4#w * high q

/-- `put_dec_trunc`. -/
def putDecTrunc : List Char :=
  digitOf (sum0 q - 10#w * tenth (sum0 q)) ::
    if sum1 q ≠ 0#w then
      digitOf (sum1 q - 10#w * tenth (sum1 q)) ::
        if sum2 q ≠ 0#w ∨ high q ≠ 0#w then
          digitOf (sum2 q - 10#w * tenthShort (sum2 q)) ::
            if sum3 q ≠ 0#w then
              digitOf (sum3 q - 10#w * tenth (sum3 q)) ::
                if tenth (sum3 q) ≠ 0#w then [digitOf (tenth (sum3 q))] else []
            else []
        else []
    else []

/-- `put_dec_full`. -/
def putDecFull : List Char :=
  [digitOf (sum0 q - 10#w * tenth (sum0 q)), digitOf (sum1 q - 10#w * tenth (sum1 q)),
    digitOf (sum2 q - 10#w * tenthShort (sum2 q)), digitOf (sum3 q - 10#w * tenth (sum3 q)),
    digitOf (tenth (sum3 q))]

end Code

/-- `put_dec`, with an `unsigned` of `w` bits. -/
def putDec (w num : Nat) : List Char :=
  if num < 100000 then putDecTrunc (BitVec.ofNat w num)
  else putDecFull (BitVec.ofNat w (num % 100000)) ++ putDec w (num / 100000)
termination_by num

-- ---------------------------------------------------------------------------
-- Digits as characters
-- ---------------------------------------------------------------------------

/-- A digit as a character. -/
def decChar (d : Nat) : Char := Char.ofNat (d + 48)

theorem decChar_toNat : ∀ d < 10, (decChar d).toNat = d + 48 := by decide

theorem decChar_inj {ds es : List Nat} (hds : ∀ d ∈ ds, d < 10) (hes : ∀ e ∈ es, e < 10) :
    ds.map decChar = es.map decChar ↔ ds = es := by
  constructor
  · intro h
    have hread : ∀ l : List Nat, (∀ d ∈ l, d < 10) →
        (l.map decChar).map (fun c => c.toNat - 48) = l := by
      intro l hl
      rw [List.map_map]
      conv_rhs => rw [← List.map_id l]
      refine List.map_congr_left fun d hd => ?_
      show (decChar d).toNat - 48 = d
      rw [decChar_toNat d (hl d hd), Nat.add_sub_cancel]
    rw [← hread ds hds, h, hread es hes]
  · exact fun h => h ▸ rfl

-- ---------------------------------------------------------------------------
-- One group
-- ---------------------------------------------------------------------------

section Group

variable {w : Nat} {q : BitVec w}

/-- A group that an `unsigned` holds, and the room its sums have. -/
structure Fits (q : BitVec w) : Prop where
  lt : q.toNat < 100000
  width : 16 ≤ w

/-- Either 16 bits, or room for twice as much. -/
theorem Fits.room (h : Fits q) : q.toNat < 65536 ∧ 65536 ≤ 2 ^ w ∨ 131072 ≤ 2 ^ w := by
  rcases h.width.eq_or_lt with rfl | hw
  · exact .inl ⟨q.isLt, le_refl _⟩
  · exact .inr (Nat.pow_le_pow_right (by omega) hw : 2 ^ 17 ≤ 2 ^ w)

theorem Fits.pow (h : Fits q) : 65536 ≤ 2 ^ w :=
  (Nat.pow_le_pow_right (by omega) h.width : 2 ^ 16 ≤ 2 ^ w)

theorem tenth_toNat {x : BitVec w} (hw : 16 ≤ w) (hx : x.toNat * 205 < 2 ^ w)
    (hle : x.toNat ≤ 1000) : (tenth x).toNat = x.toNat / 10 := by
  have hpow : 2 ^ 16 ≤ 2 ^ w := Nat.pow_le_pow_right (by omega) hw
  unfold tenth
  rw [BitVec.toNat_ushiftRight, BitVec.toNat_mul, BitVec.toNat_ofNat,
    Nat.mod_eq_of_lt (by omega : 205 < 2 ^ w), Nat.mod_eq_of_lt hx, Nat.shiftRight_eq_div_pow]
  omega

theorem tenthShort_toNat {x : BitVec w} (hw : 16 ≤ w) (hle : x.toNat ≤ 68) :
    (tenthShort x).toNat = x.toNat / 10 := by
  have hpow : 2 ^ 16 ≤ 2 ^ w := Nat.pow_le_pow_right (by omega) hw
  unfold tenthShort
  rw [BitVec.toNat_ushiftRight, BitVec.toNat_mul, BitVec.toNat_ofNat,
    Nat.mod_eq_of_lt (by omega : 13 < 2 ^ w), Nat.mod_eq_of_lt (by omega),
    Nat.shiftRight_eq_div_pow]
  omega

theorem and_mask_toNat (hw : 16 ≤ w) (x : BitVec w) : (x &&& 0xf#w).toNat = x.toNat % 16 := by
  have hpow : 2 ^ 16 ≤ 2 ^ w := Nat.pow_le_pow_right (by omega) hw
  rw [BitVec.toNat_and, BitVec.toNat_ofNat, Nat.mod_eq_of_lt (by omega : 15 < 2 ^ w)]
  exact Nat.and_two_pow_sub_one_eq_mod x.toNat 4

theorem low_toNat (h : Fits q) : (low q).toNat = q.toNat / 16 % 16 := by
  unfold low
  rw [and_mask_toNat h.width, BitVec.toNat_ushiftRight, Nat.shiftRight_eq_div_pow]

theorem mid_toNat (h : Fits q) : (mid q).toNat = q.toNat / 256 % 16 := by
  unfold mid
  rw [and_mask_toNat h.width, BitVec.toNat_ushiftRight, Nat.shiftRight_eq_div_pow]

theorem high_toNat : (high q).toNat = q.toNat / 4096 := by
  unfold high
  rw [BitVec.toNat_ushiftRight, Nat.shiftRight_eq_div_pow]

/-- The group by its four-bit parts. -/
theorem parts (n : Nat) :
    n = 4096 * (n / 4096) + 256 * (n / 256 % 16) + 16 * (n / 16 % 16) + n % 16 := by
  omega

/-- What the parts add up to, ten times less of `n / 10` than there is. -/
theorem weights {n a b c r : Nat} (h : n = 4096 * a + 256 * b + 16 * c + r) :
    n / 10 = (6 * (a + b + c) + r) / 10 + 9 * a + 5 * b + c + 20 * b + 400 * a := by
  have hten : n = 6 * (a + b + c) + r + 10 * (409 * a + 25 * b + c) := by omega
  rw [hten, Nat.add_mul_div_left _ _ (by omega)]
  omega

theorem weights_mod {n a b c r : Nat} (h : n = 4096 * a + 256 * b + 16 * c + r) :
    n % 10 = (6 * (a + b + c) + r) % 10 := by
  have hten : n = 6 * (a + b + c) + r + 10 * (409 * a + 25 * b + c) := by omega
  rw [hten, Nat.add_mul_mod_self_left]

theorem sum0_toNat (h : Fits q) : (sum0 q).toNat =
    6 * (q.toNat / 4096 + q.toNat / 256 % 16 + q.toNat / 16 % 16) + q.toNat % 16 := by
  have hpow := h.pow
  have hlt := h.lt
  unfold sum0
  rw [BitVec.toNat_add, BitVec.toNat_mul, BitVec.toNat_add, BitVec.toNat_add, low_toNat h,
    mid_toNat h, high_toNat, and_mask_toNat h.width, BitVec.toNat_ofNat]
  simp (disch := omega) only [Nat.mod_eq_of_lt]

/-- The sums stay below the numbers whose tenths are right. -/
theorem sum0_le (h : Fits q) : (sum0 q).toNat * 205 < 2 ^ w ∧ (sum0 q).toNat ≤ 340 := by
  have hlt := h.lt
  rw [sum0_toNat h]
  rcases h.room with ⟨hsmall, hpow⟩ | hpow
  · have hhigh : q.toNat / 4096 ≤ 15 := by omega
    omega
  · have hhigh : q.toNat / 4096 ≤ 24 := by omega
    omega

theorem sum1_eq (h : Fits q) : (sum1 q).toNat =
    (sum0 q).toNat / 10 + 9 * (q.toNat / 4096) + 5 * (q.toNat / 256 % 16) + q.toNat / 16 % 16 := by
  have hpow := h.pow
  have hhigh : q.toNat / 4096 ≤ 24 := by
    have hlt := h.lt
    omega
  obtain ⟨hroom, hle⟩ := sum0_le h
  unfold sum1
  rw [BitVec.toNat_add, BitVec.toNat_add, BitVec.toNat_add, BitVec.toNat_mul, BitVec.toNat_mul,
    low_toNat h, mid_toNat h, high_toNat, BitVec.toNat_ofNat, BitVec.toNat_ofNat,
    tenth_toNat h.width hroom (by omega)]
  simp (disch := omega) only [Nat.mod_eq_of_lt]

theorem sum1_le (h : Fits q) : (sum1 q).toNat * 205 < 2 ^ w ∧ (sum1 q).toNat ≤ 340 := by
  have hlt := h.lt
  rw [sum1_eq h, sum0_toNat h]
  rcases h.room with ⟨hsmall, hpow⟩ | hpow
  · have hhigh : q.toNat / 4096 ≤ 15 := by omega
    omega
  · have hhigh : q.toNat / 4096 ≤ 24 := by omega
    omega

/-- The second sum has the tens, without the hundreds of the higher parts. -/
theorem sum1_tens (h : Fits q) : (sum1 q).toNat + 20 * (q.toNat / 256 % 16)
    + 400 * (q.toNat / 4096) = q.toNat / 10 := by
  rw [sum1_eq h, sum0_toNat h, weights (parts q.toNat)]

theorem sum2_eq (h : Fits q) :
    (sum2 q).toNat = (sum1 q).toNat / 10 + 2 * (q.toNat / 256 % 16) := by
  have hpow := h.pow
  obtain ⟨hroom, hle⟩ := sum1_le h
  unfold sum2
  rw [BitVec.toNat_add, BitVec.toNat_mul, mid_toNat h, BitVec.toNat_ofNat,
    tenth_toNat h.width hroom (by omega)]
  simp (disch := omega) only [Nat.mod_eq_of_lt]

/-- The third sum has the hundreds, without the thousands of the highest part. -/
theorem sum2_hundreds (h : Fits q) : (sum2 q).toNat + 40 * (q.toNat / 4096) = q.toNat / 100 := by
  have htens := sum1_tens h
  have heq := sum2_eq h
  have hdiv : q.toNat / 100 = q.toNat / 10 / 10 := by rw [Nat.div_div_eq_div_mul]
  omega

theorem sum2_le (h : Fits q) : (sum2 q).toNat ≤ 68 := by
  have hle := (sum1_le h).2
  rw [sum2_eq h]
  omega

theorem sum3_thousands (h : Fits q) : (sum3 q).toNat = q.toNat / 1000 := by
  have hpow := h.pow
  have hlt := h.lt
  have hhundreds := sum2_hundreds h
  have hdiv : q.toNat / 1000 = q.toNat / 100 / 10 := by rw [Nat.div_div_eq_div_mul]
  unfold sum3
  rw [BitVec.toNat_add, BitVec.toNat_mul, high_toNat, BitVec.toNat_ofNat,
    tenthShort_toNat h.width (sum2_le h)]
  simp (disch := omega) only [Nat.mod_eq_of_lt]
  omega

theorem sum3_le (h : Fits q) : (sum3 q).toNat * 205 < 2 ^ w ∧ (sum3 q).toNat ≤ 340 := by
  have hpow := h.pow
  have hlt := h.lt
  have h3 := sum3_thousands h
  omega

/-- A digit taken from a sum. -/
theorem digitOf_rest (hw : 16 ≤ w) {x t : BitVec w} (ht : t.toNat = x.toNat / 10) :
    digitOf (x - 10#w * t) = decChar (x.toNat % 10) := by
  have hpow : 2 ^ 16 ≤ 2 ^ w := Nat.pow_le_pow_right (by omega) hw
  have hmul : (10#w * t).toNat = 10 * (x.toNat / 10) := by
    rw [BitVec.toNat_mul, BitVec.toNat_ofNat, ht]
    simp (disch := omega) only [Nat.mod_eq_of_lt]
  have hsub : (x - 10#w * t).toNat = x.toNat % 10 := by
    rw [BitVec.toNat_sub_of_le (by rw [BitVec.le_def, hmul]; omega), hmul]
    omega
  unfold digitOf decChar
  rw [BitVec.toNat_add, hsub, BitVec.toNat_ofNat]
  simp (disch := omega) only [Nat.mod_eq_of_lt]

theorem digitOf_top (hw : 16 ≤ w) {t : BitVec w} (ht : t.toNat < 10) :
    digitOf t = decChar t.toNat := by
  have hpow : 2 ^ 16 ≤ 2 ^ w := Nat.pow_le_pow_right (by omega) hw
  unfold digitOf decChar
  rw [BitVec.toNat_add, BitVec.toNat_ofNat]
  simp (disch := omega) only [Nat.mod_eq_of_lt]

end Group

-- ---------------------------------------------------------------------------
-- The digits of a group
-- ---------------------------------------------------------------------------

/-- The digits written for a group, by their position. -/
structure GroupDigits {w : Nat} (q : BitVec w) : Prop where
  d0 : digitOf (sum0 q - 10#w * tenth (sum0 q)) = decChar (q.toNat % 10)
  d1 : digitOf (sum1 q - 10#w * tenth (sum1 q)) = decChar (q.toNat / 10 % 10)
  d2 : digitOf (sum2 q - 10#w * tenthShort (sum2 q)) = decChar (q.toNat / 100 % 10)
  d3 : digitOf (sum3 q - 10#w * tenth (sum3 q)) = decChar (q.toNat / 1000 % 10)
  d4 : digitOf (tenth (sum3 q)) = decChar (q.toNat / 10000)

section Digits

variable {w : Nat} {q : BitVec w}

theorem tenth_sum3 (h : Fits q) : (tenth (sum3 q)).toNat = q.toNat / 10000 := by
  rw [tenth_toNat h.width (sum3_le h).1 ((sum3_le h).2.trans (by omega)), sum3_thousands h,
    Nat.div_div_eq_div_mul]

theorem Fits.digits (h : Fits q) : GroupDigits q := by
  have hlt := h.lt
  have htens := sum1_tens h
  have hhundreds := sum2_hundreds h
  have hw := h.width
  constructor
  · rw [digitOf_rest hw (tenth_toNat hw (sum0_le h).1 ((sum0_le h).2.trans (by omega))),
      sum0_toNat h, ← weights_mod (parts q.toNat)]
  · rw [digitOf_rest hw (tenth_toNat hw (sum1_le h).1 ((sum1_le h).2.trans (by omega)))]
    congr 1
    omega
  · rw [digitOf_rest hw (tenthShort_toNat hw (sum2_le h))]
    congr 1
    omega
  · rw [digitOf_rest hw (tenth_toNat hw (sum3_le h).1 ((sum3_le h).2.trans (by omega))),
      sum3_thousands h]
  · have htop := tenth_sum3 h
    rw [digitOf_top hw (by omega), htop]

/-- **A full group.** -/
theorem putDecFull_eq (h : Fits q) : putDecFull q = (fixedDigits 10 5 q.toNat).map decChar := by
  have hd := h.digits
  have hlt := h.lt
  unfold putDecFull
  rw [hd.d0, hd.d1, hd.d2, hd.d3, hd.d4]
  simp only [fixedDigits, List.map_cons, List.map_nil, Nat.div_div_eq_div_mul]
  rw [Nat.mod_eq_of_lt (show q.toNat / (10 * 10 * 10 * 10) < 10 by omega)]

theorem sum1_eq_zero (h : Fits q) : sum1 q = 0#w ↔ q.toNat / 10 = 0 := by
  have htens := sum1_tens h
  have heq := sum1_eq h
  have heq0 := sum0_toNat h
  rw [BitVec.toNat_eq, BitVec.toNat_zero]
  omega

theorem sum2_eq_zero (h : Fits q) : sum2 q ≠ 0#w ∨ high q ≠ 0#w ↔ q.toNat / 100 ≠ 0 := by
  have hhundreds := sum2_hundreds h
  have hhigh := high_toNat (q := q)
  rw [BitVec.toNat_ne, BitVec.toNat_ne, BitVec.toNat_zero]
  omega

theorem sum3_eq_zero (h : Fits q) : sum3 q = 0#w ↔ q.toNat / 1000 = 0 := by
  rw [BitVec.toNat_eq, BitVec.toNat_zero, sum3_thousands h]

theorem tenth_eq_zero (h : Fits q) : tenth (sum3 q) = 0#w ↔ q.toNat / 10000 = 0 := by
  rw [BitVec.toNat_eq, BitVec.toNat_zero, tenth_sum3 h]

/-- **The last group.** -/
theorem putDecTrunc_eq (h : Fits q) : putDecTrunc q = (lowDigits 10 q.toNat).map decChar := by
  have hd := h.digits
  have hlt := h.lt
  unfold putDecTrunc
  simp only [ne_eq, sum1_eq_zero h, sum3_eq_zero h, tenth_eq_zero h]
  simp only [← ne_eq, sum2_eq_zero h]
  rw [hd.d0, hd.d1, hd.d2, hd.d3, hd.d4, lowDigits_cons (by omega), lowDigits_cons (by omega),
    lowDigits_cons (by omega), lowDigits_cons (by omega), lowDigits_of_lt (by omega)]
  simp only [Nat.div_div_eq_div_mul, ne_eq, List.map_cons, apply_ite (List.map decChar),
    List.map_nil]

end Digits

-- ---------------------------------------------------------------------------
-- All groups
-- ---------------------------------------------------------------------------

section Groups

variable {w : Nat}

theorem fits_ofNat (hw : 16 ≤ w) {n : Nat} (hn : n < 100000) : Fits (BitVec.ofNat w n) := by
  refine ⟨?_, hw⟩
  rw [BitVec.toNat_ofNat]
  exact (Nat.mod_le n (2 ^ w)).trans_lt hn

/-- What is written for a number: the digits of the number whose groups are those of `n` cut
down to an `unsigned`. -/
theorem putDec_digits (hw : 16 ≤ w) (n : Nat) :
    ∃ ds : List Nat, putDec w n = ds.map decChar ∧ (∀ d ∈ ds, d < 10) ∧
      Nat.ofDigits 10 ds = Nat.ofDigits 100000 ((lowDigits 100000 n).map (· % 2 ^ w)) := by
  induction n using Nat.strong_induction_on with
  | _ n ih =>
    unfold putDec
    split
    · next hn =>
      refine ⟨_, putDecTrunc_eq (fits_ofNat hw hn), fun d hd => lowDigits_lt (by omega) hd, ?_⟩
      rw [ofDigits_lowDigits, lowDigits_of_lt hn, List.map_singleton, Nat.ofDigits_singleton,
        BitVec.toNat_ofNat]
    · next hn =>
      have hmod : n % 100000 < 100000 := Nat.mod_lt _ (by omega)
      obtain ⟨ds, hds, hlt, hval⟩ := ih (n / 100000) (by omega)
      refine ⟨_ ++ ds, by rw [putDecFull_eq (fits_ofNat hw hmod), hds, List.map_append], ?_, ?_⟩
      · intro d hd
        exact (List.mem_append.mp hd).elim (fixedDigits_lt (by omega)) (hlt d)
      · have hsmall : n % 100000 % 2 ^ w < 10 ^ 5 := (Nat.mod_le _ _).trans_lt hmod
        rw [lowDigits_of_ge (n := n) (by omega) (by omega), List.map_cons, Nat.ofDigits_cons,
          Nat.ofDigits_append, fixedDigits_length, ofDigits_fixedDigits, hval, BitVec.toNat_ofNat,
          Nat.mod_eq_of_lt hsmall]
        norm_num

/-- Groups that an `unsigned` holds. -/
theorem putDec_eq (hw : 16 ≤ w) (n : Nat) (h : ∀ g ∈ lowDigits 100000 n, g < 2 ^ w) :
    putDec w n = (lowDigits 10 n).map decChar := by
  induction n using Nat.strong_induction_on with
  | _ n ih =>
    unfold putDec
    split
    · next hn =>
      rw [lowDigits_of_lt hn] at h
      rw [putDecTrunc_eq (fits_ofNat hw hn), BitVec.toNat_ofNat,
        Nat.mod_eq_of_lt (h n (List.mem_singleton.mpr rfl))]
    · next hn =>
      have hge : 100000 ≤ n := by omega
      rw [lowDigits_of_ge (by omega) hge] at h
      have hmod : n % 100000 < 100000 := Nat.mod_lt _ (by omega)
      have hgroup := h _ List.mem_cons_self
      have hrest := ih (n / 100000) (by omega) fun g hg => h g (List.mem_cons_of_mem _ hg)
      rw [putDecFull_eq (fits_ofNat hw hmod), hrest, BitVec.toNat_ofNat, Nat.mod_eq_of_lt hgroup,
        lowDigits_split (k := 5) (n := n) (by omega) (by omega), List.map_append]
      exact congrArg (fun l => List.map decChar l ++ _) (fixedDigits_mod 10 5 n)

/-- **Decimal conversion.** For every `unsigned long` the digits come out, from the lowest one
on and without a zero too much, exactly when its groups of five digits fit into an
`unsigned`. -/
theorem putDec_iff (hw : 16 ≤ w) (n : Nat) :
    putDec w n = (lowDigits 10 n).map decChar ↔ ∀ g ∈ lowDigits 100000 n, g < 2 ^ w := by
  refine ⟨fun h => ?_, putDec_eq hw n⟩
  obtain ⟨ds, hds, hlt, hval⟩ := putDec_digits hw n
  rw [hds, decChar_inj hlt (fun d hd => lowDigits_lt (by omega) hd)] at h
  rw [h, ofDigits_lowDigits] at hval
  conv_lhs at hval => rw [← ofDigits_lowDigits 100000 n]
  intro g hg
  have hfix := ofDigits_map_eq (by omega) (fun d => Nat.mod_le d (2 ^ w)) hval.symm g hg
  rw [← hfix]
  exact Nat.mod_lt g (Nat.two_pow_pos w)

/-- On the AVR, the first number that goes wrong. -/
theorem putDec_avr : putDec 16 65536 ≠ (lowDigits 10 65536).map decChar := by
  rw [ne_eq, putDec_iff (by decide), lowDigits_of_lt (by decide)]
  decide

/-- An `unsigned` of 17 bits or more holds every group. -/
theorem putDec_wide (hw : 17 ≤ w) (n : Nat) : putDec w n = (lowDigits 10 n).map decChar := by
  refine putDec_eq (by omega) n fun g hg => ?_
  have hpow : 2 ^ 17 ≤ 2 ^ w := Nat.pow_le_pow_right (by omega) hw
  have hlt : g < 100000 := lowDigits_lt (by omega) hg
  omega

end Groups

end Bathos.Printf
