import Mathlib.Data.Nat.Digits.Lemmas
import Mathlib.Tactic.Common

/-!
# Numerals

The digits of a number in a base, with at least one, and what reading them from the left
gives back. `lowDigits` has the lowest digit first, `numeral` the highest;
`fixedDigits b k` has exactly `k` of them.

Main results:

* `lowDigits_split` — the low digits and the rest of a number;
* `readDigits_numeral`, `readDigits_zeros` — reading a numeral, with zeros in front.
-/

namespace Bathos.Lib

variable {b n k : Nat}

-- ---------------------------------------------------------------------------
-- Lowest digit first
-- ---------------------------------------------------------------------------

/-- The digits, the lowest first; zero has one. -/
def lowDigits (b n : Nat) : List Nat := if n = 0 then [0] else Nat.digits b n

theorem lowDigits_of_lt (h : n < b) : lowDigits b n = [n] := by
  unfold lowDigits
  split
  · next hn => rw [hn]
  · next hn => exact Nat.digits_of_lt b n hn h

theorem lowDigits_of_ge (hb : 1 < b) (h : b ≤ n) :
    lowDigits b n = n % b :: lowDigits b (n / b) := by
  have hn : n ≠ 0 := by omega
  have hq : n / b ≠ 0 := Nat.div_ne_zero_iff.mpr ⟨by omega, h⟩
  unfold lowDigits
  rw [if_neg hn, if_neg hq, Nat.digits_def' hb (Nat.pos_of_ne_zero hn)]

/-- The lowest digit, and the others if there are any. -/
theorem lowDigits_cons (hb : 1 < b) (n : Nat) :
    lowDigits b n = n % b :: if n / b ≠ 0 then lowDigits b (n / b) else [] := by
  rcases Nat.lt_or_ge n b with h | h
  · rw [lowDigits_of_lt h, Nat.mod_eq_of_lt h, Nat.div_eq_of_lt h, if_neg (by simp)]
  · rw [lowDigits_of_ge hb h, if_pos (Nat.div_ne_zero_iff.mpr ⟨by omega, h⟩)]

theorem lowDigits_ne_nil (b n : Nat) : lowDigits b n ≠ [] := by
  unfold lowDigits
  split
  · exact List.cons_ne_nil _ _
  · next hn => exact Nat.digits_ne_nil_iff_ne_zero.mpr hn

theorem lowDigits_lt (hb : 1 < b) {d : Nat} (hd : d ∈ lowDigits b n) : d < b := by
  unfold lowDigits at hd
  split at hd
  · rw [List.mem_singleton] at hd
    omega
  · exact Nat.digits_lt_base hb hd

theorem ofDigits_lowDigits (b n : Nat) : Nat.ofDigits b (lowDigits b n) = n := by
  unfold lowDigits
  split
  · next hn => rw [hn, Nat.ofDigits_singleton]
  · exact Nat.ofDigits_digits b n

theorem lowDigits_length_le (hb : 1 < b) (hk : 0 < k) (h : n < b ^ k) :
    (lowDigits b n).length ≤ k := by
  unfold lowDigits
  split
  · exact hk
  · exact (Nat.digits_length_le_iff hb n).mpr h

theorem lowDigits_length_gt (hb : 1 < b) (h : b ^ k ≤ n) : k < (lowDigits b n).length := by
  have hn : n ≠ 0 := (lt_of_lt_of_le (Nat.pow_pos (by omega)) h).ne'
  unfold lowDigits
  rw [if_neg hn]
  exact (Nat.lt_digits_length_iff hb n).mpr h

/-- A number above zero has no zero in front. -/
theorem lowDigits_getLast (hn : n ≠ 0) (h : lowDigits b n ≠ []) :
    (lowDigits b n).getLast h ≠ 0 := by
  have heq : lowDigits b n = Nat.digits b n := if_neg hn
  simp only [heq]
  exact Nat.getLast_digit_ne_zero b hn

-- ---------------------------------------------------------------------------
-- A fixed number of digits
-- ---------------------------------------------------------------------------

/-- The `k` lowest digits, the lowest first. -/
def fixedDigits (b : Nat) : Nat → Nat → List Nat
  | 0, _ => []
  | k + 1, n => n % b :: fixedDigits b k (n / b)

@[simp] theorem fixedDigits_length (b k n : Nat) : (fixedDigits b k n).length = k := by
  induction k generalizing n with
  | zero => rfl
  | succ k ih => exact congrArg (· + 1) (ih (n / b))

theorem fixedDigits_lt (hb : 0 < b) {d : Nat} (hd : d ∈ fixedDigits b k n) : d < b := by
  induction k generalizing n with
  | zero => cases hd
  | succ k ih =>
    rcases List.mem_cons.mp hd with rfl | hd
    · exact Nat.mod_lt n hb
    · exact ih hd

/-- Higher digits do not matter. -/
theorem fixedDigits_mod (b k n : Nat) : fixedDigits b k (n % b ^ k) = fixedDigits b k n := by
  induction k generalizing n with
  | zero => rfl
  | succ k ih =>
    unfold fixedDigits
    have hlow : n % b ^ (k + 1) % b = n % b := by
      rw [Nat.pow_succ']
      exact Nat.mod_mul_right_mod n b (b ^ k)
    have hhigh : n % b ^ (k + 1) / b = n / b % b ^ k := by
      rw [Nat.pow_succ']
      exact Nat.mod_mul_right_div_self n b (b ^ k)
    rw [hlow, hhigh, ih]

theorem ofDigits_fixedDigits (b k n : Nat) : Nat.ofDigits b (fixedDigits b k n) = n % b ^ k := by
  induction k generalizing n with
  | zero => exact (Nat.mod_one n).symm
  | succ k ih =>
    unfold fixedDigits
    rw [Nat.ofDigits_cons, ih, Nat.pow_succ', Nat.mod_mul]

/-- **The low digits and the rest.** -/
theorem lowDigits_split (hb : 1 < b) (h : b ^ k ≤ n) :
    lowDigits b n = fixedDigits b k n ++ lowDigits b (n / b ^ k) := by
  induction k generalizing n with
  | zero => rw [Nat.pow_zero, Nat.div_one]; rfl
  | succ k ih =>
    have hpow : b ^ k * b ≤ n := by rwa [← Nat.pow_succ]
    have hbn : b ≤ n := (Nat.le_mul_of_pos_left b (Nat.pow_pos (by omega))).trans hpow
    have hrest : b ^ k ≤ n / b := (Nat.le_div_iff_mul_le (by omega)).mpr hpow
    rw [lowDigits_of_ge hb hbn, ih hrest, Nat.div_div_eq_div_mul, ← Nat.pow_succ']
    rfl

/-- Digits made smaller make the number smaller, unless none of them changes. -/
theorem ofDigits_map_eq (hb : 0 < b) {f : Nat → Nat} (hf : ∀ d, f d ≤ d) {ds : List Nat}
    (h : Nat.ofDigits b (ds.map f) = Nat.ofDigits b ds) : ∀ d ∈ ds, f d = d := by
  have hle : ∀ ds : List Nat, Nat.ofDigits b (ds.map f) ≤ Nat.ofDigits b ds := by
    intro ds
    induction ds with
    | nil => exact le_refl _
    | cons d ds ih =>
      rw [List.map_cons, Nat.ofDigits_cons, Nat.ofDigits_cons]
      exact Nat.add_le_add (hf d) (Nat.mul_le_mul_left b ih)
  induction ds with
  | nil => exact fun _ hd => absurd hd List.not_mem_nil
  | cons d ds ih =>
    rw [List.map_cons, Nat.ofDigits_cons, Nat.ofDigits_cons] at h
    have hrest := hle ds
    have hmul := Nat.mul_le_mul_left b hrest
    have hd := hf d
    have heq : b * Nat.ofDigits b (ds.map f) = b * Nat.ofDigits b ds := by omega
    intro e he
    rcases List.mem_cons.mp he with rfl | he
    · omega
    · exact ih (Nat.eq_of_mul_eq_mul_left hb heq) e he

-- ---------------------------------------------------------------------------
-- Highest digit first
-- ---------------------------------------------------------------------------

/-- The digits as they are written. -/
def numeral (b n : Nat) : List Nat := (lowDigits b n).reverse

theorem numeral_ne_nil (b n : Nat) : numeral b n ≠ [] :=
  List.reverse_ne_nil_iff.mpr (lowDigits_ne_nil b n)

theorem numeral_lt (hb : 1 < b) {d : Nat} (hd : d ∈ numeral b n) : d < b :=
  lowDigits_lt hb (List.mem_reverse.mp hd)

theorem numeral_of_lt (h : n < b) : numeral b n = [n] := by
  unfold numeral
  rw [lowDigits_of_lt h]
  rfl

/-- The last digit comes off the end. -/
theorem numeral_of_ge (hb : 1 < b) (h : b ≤ n) : numeral b n = numeral b (n / b) ++ [n % b] := by
  unfold numeral
  rw [lowDigits_of_ge hb h, List.reverse_cons]

/-- A number above zero is not written with a zero in front. -/
theorem numeral_head_ne_zero (hn : n ≠ 0) {d : Nat} {ds : List Nat} (h : numeral b n = d :: ds) :
    d ≠ 0 := by
  have hlow : lowDigits b n = ds.reverse ++ [d] := by
    rw [← List.reverse_cons, ← h]
    exact (List.reverse_reverse _).symm
  have hlast := lowDigits_getLast (b := b) hn (lowDigits_ne_nil b n)
  simpa [hlow] using hlast

/-- Digits read from the left, behind a number. -/
def readDigits (b a : Nat) (ds : List Nat) : Nat := ds.foldl (fun a d => a * b + d) a

theorem readDigits_append (b a : Nat) (ds es : List Nat) :
    readDigits b a (ds ++ es) = readDigits b (readDigits b a ds) es := List.foldl_append

theorem readDigits_numeral (hb : 1 < b) (n : Nat) : readDigits b 0 (numeral b n) = n := by
  induction n using Nat.strong_induction_on with
  | _ n ih =>
    rcases Nat.lt_or_ge n b with h | h
    · rw [numeral_of_lt h]
      show 0 * b + n = n
      omega
    · rw [numeral_of_ge hb h, readDigits_append, ih _ (Nat.div_lt_self (by omega) hb)]
      exact Nat.div_add_mod' n b

theorem readDigits_zeros (b k : Nat) (ds : List Nat) :
    readDigits b 0 (List.replicate k 0 ++ ds) = readDigits b 0 ds := by
  induction k with
  | zero => rfl
  | succ k ih =>
    have hstep : readDigits b 0 (List.replicate (k + 1) 0 ++ ds) =
        readDigits b (0 * b + 0) (List.replicate k 0 ++ ds) := rfl
    rw [hstep, Nat.zero_mul, ih]

end Bathos.Lib
