import Bathos.Lib.Bisection
import Mathlib.Data.Rat.Floor

/-!
# Bathos — delays of some microseconds

`lib/udelay.c`. `generic_udelay_init` counts how many turns of an empty loop fit into a
jiffy: it doubles a guess until the loop takes too long, halves it, and adds what still
fits. `generic_udelay` scales the count to microseconds, and waits in steps of 10 ms
"to prevent overflows".

The search starts from half of the guess that failed. That half has passed unless the
very first guess failed, in which case nothing is known about it. And a step of 10 ms is
small enough for the products of small counts only.

Main results:

* `calibrated_iff` — the count is found exactly if it is at least half of the first guess;
* `exactDelay_iff` — no product overflows, and the loops are as many as they should be, exactly
  for counts up to `214748`.
-/

namespace Bathos.Timer

open Bathos.Lib

-- ---------------------------------------------------------------------------
-- The code
-- ---------------------------------------------------------------------------

/-- The value of an `int` expression on numbers that are not negative; `none` if it
overflows. -/
def toInt (x : Nat) : Option Nat := if x < 2 ^ 31 then some x else none

/-- The value of an `unsigned` expression; `none` if it is reduced. -/
def toUnsigned (x : Nat) : Option Nat := if x < 2 ^ 32 then some x else none

/-- "Increase until we get over it": the loop of `generic_udelay_init` that doubles, for
`fuel` tests at most, with the final `lpj` and `step`. -/
def increase (verifyLpj : Nat → Int) : Nat → Nat → Nat → Option (Nat × Nat)
  | 0, _, _ => none
  | fuel + 1, lpj, step =>
    if verifyLpj lpj = 0 then
      (toInt (lpj + step)).bind fun lpj =>
        (toInt (step * 2)).bind fun step => increase verifyLpj fuel lpj step
    else some (lpj, step)

/-- The loop of `generic_udelay_init` that halves the step. -/
def restart (verifyLpj : Nat → Int) : Nat → Nat → Nat → Option Nat
  | 0, _, _ => none
  | fuel + 1, lpj, step =>
    if step = 0 then some lpj
    else
      (toInt (lpj + step)).bind fun testLpj =>
        restart verifyLpj fuel (if verifyLpj testLpj = 0 then testLpj else lpj) (step / 2)

/-- `generic_udelay_init`: the value of `udelay_lpj`, if both loops end within `fuel` tests
and nothing overflows. -/
def genericUdelayInit (verifyLpj : Nat → Int) (fuel : Nat) : Option Nat :=
  (increase verifyLpj fuel 512 512).bind fun r => restart verifyLpj fuel (r.1 / 2) (r.2 / 4)

/-- `usec_per_jiffy`. -/
def usecPerJiffy (HZ : Nat) : Nat := 1000 * 1000 / HZ

/-- The constant `step` of `generic_udelay`. -/
def udelayStep : Nat := 10 * 1000

theorem udelayStep_pos : 0 < udelayStep := by decide

/-- `count_per_step`. -/
def countPerStep (udelayLpj HZ : Nat) : Option Nat :=
  (toInt (udelayLpj * udelayStep)).map (· / usecPerJiffy HZ)

/-- The turns of `__delay(count)`, for a `count` converted from `unsigned`. -/
def delay (count : Nat) : Nat := if count < 2 ^ 31 then count else 0

/-- The loop of `generic_udelay`: the turns of `__delay`, and what is left of `usec`. -/
def steps {step : Nat} (hstep : 0 < step) (countPerStep usec : Nat) : Nat × Nat :=
  if step < usec then
    let rest := steps hstep countPerStep (usec - step)
    (delay countPerStep + rest.1, rest.2)
  else (0, usec)
termination_by usec

/-- `generic_udelay`: the turns of `__delay` in all, if no product overflows. -/
def genericUdelay (udelayLpj HZ usec : Nat) : Option Nat :=
  (countPerStep udelayLpj HZ).bind fun count =>
    let rest := steps udelayStep_pos count usec
    (toUnsigned (rest.2 * udelayLpj)).map fun product =>
      rest.1 + delay (product / usecPerJiffy HZ)

-- ---------------------------------------------------------------------------
-- The calibration
-- ---------------------------------------------------------------------------

section Init

variable {verifyLpj : Nat → Int} {T fuel lpj step : Nat}

theorem toInt_of_lt {x : Nat} (h : x < 2 ^ 31) : toInt x = some x := if_pos h

/-- From equal `lpj` and `step` the loop doubles both until the test fails. -/
theorem increase_eq (hT : HasThreshold (verifyLpj · = 0) T) {d : Nat} (hfuel : d < fuel)
    (hover : T < lpj * 2 ^ d) (hbelow : ∀ i < d, lpj * 2 ^ i ≤ T) (hfit : lpj * 2 ^ d < 2 ^ 31) :
    increase verifyLpj fuel lpj lpj = some (lpj * 2 ^ d, lpj * 2 ^ d) := by
  induction d generalizing fuel lpj with
  | zero =>
    obtain ⟨fuel, rfl⟩ := Nat.exists_eq_add_of_lt hfuel
    rw [Nat.pow_zero, Nat.mul_one] at hover ⊢
    unfold increase
    rw [if_neg fun hpass => Nat.not_le.mpr hover ((hT lpj).mp hpass)]
  | succ d ih =>
    obtain ⟨fuel, rfl⟩ := Nat.exists_eq_add_of_lt hfuel
    have hshift : ∀ i, lpj * 2 ^ (i + 1) = lpj * 2 * 2 ^ i := fun i => by
      rw [Nat.pow_succ', Nat.mul_assoc]
    rw [hshift] at hover hfit ⊢
    have hpass : lpj ≤ T := by simpa using hbelow 0 (Nat.succ_pos d)
    have hdouble : lpj * 2 < 2 ^ 31 := lt_of_le_of_lt (Nat.le_mul_of_pos_right _ (by positivity)) hfit
    unfold increase
    rw [if_pos ((hT lpj).mpr hpass), ← Nat.mul_two, toInt_of_lt hdouble]
    exact ih (by omega) hover (fun i hi => (hshift i).symm.trans_le (hbelow _ (by omega))) hfit

/-- The second loop takes the falling powers of two. -/
theorem restart_eq {k : Nat} (hfuel : k < fuel) (hfit : lpj + 2 ^ k ≤ 2 ^ 31) :
    restart verifyLpj fuel lpj (2 ^ k / 2) = some (descend (verifyLpj · = 0) k lpj) := by
  induction k generalizing fuel lpj with
  | zero =>
    obtain ⟨fuel, rfl⟩ := Nat.exists_eq_add_of_lt hfuel
    rfl
  | succ k ih =>
    obtain ⟨fuel, rfl⟩ := Nat.exists_eq_add_of_lt hfuel
    have hpos : 0 < 2 ^ k := by positivity
    rw [Nat.pow_succ] at hfit ⊢
    rw [Nat.mul_div_cancel _ two_pos]
    unfold restart
    rw [if_neg hpos.ne', toInt_of_lt (by omega)]
    refine ih (by omega) ?_
    split <;> omega

theorem le_increase {r : Nat × Nat} (h : increase verifyLpj fuel lpj step = some r) :
    lpj ≤ r.1 := by
  induction fuel generalizing lpj step with
  | zero => cases h
  | succ fuel ih =>
    unfold increase at h
    split at h
    · obtain ⟨lpj', hlpj, hrest⟩ := Option.bind_eq_some_iff.mp h
      obtain ⟨step', -, hrest⟩ := Option.bind_eq_some_iff.mp hrest
      unfold toInt at hlpj
      split at hlpj
      · obtain rfl := Option.some.inj hlpj
        exact (Nat.le_add_right _ _).trans (ih hrest)
      · cases hlpj
    · obtain rfl := Option.some.inj h
      exact le_rfl

theorem le_restart {r : Nat} (h : restart verifyLpj fuel lpj step = some r) : lpj ≤ r := by
  induction fuel generalizing lpj step with
  | zero => cases h
  | succ fuel ih =>
    unfold restart at h
    split at h
    · obtain rfl := Option.some.inj h
      exact le_rfl
    · obtain ⟨testLpj, htest, hrest⟩ := Option.bind_eq_some_iff.mp h
      refine le_trans ?_ (ih hrest)
      unfold toInt at htest
      split at htest
      · obtain rfl := Option.some.inj htest
        split
        · exact Nat.le_add_right _ _
        · exact le_rfl
      · cases htest

/-- No result is below half of the first guess. -/
theorem le_genericUdelayInit {r : Nat} (h : genericUdelayInit verifyLpj fuel = some r) :
    256 ≤ r := by
  obtain ⟨q, hincrease, hrestart⟩ := Option.bind_eq_some_iff.mp h
  have hfirst : 512 ≤ q.1 := le_increase hincrease
  have hsecond : q.1 / 2 ≤ r := le_restart hrestart
  omega

/-- A threshold not below that half is found, after at most 30 tests in each loop. -/
theorem genericUdelayInit_eq (hT : HasThreshold (verifyLpj · = 0) T) (hlow : 256 ≤ T)
    (hhigh : T < 2 ^ 30) : genericUdelayInit verifyLpj 32 = some T := by
  obtain ⟨d, hover, hbelow⟩ := exists_doubling (show 0 < 512 by decide) T
  have hd : d ≤ 21 := by
    by_contra hlarge
    have hle := hbelow 21 (by omega)
    omega
  have hpow : 2 ^ d ≤ 2 ^ 21 := Nat.pow_le_pow_right two_pos hd
  have hstart : 256 * 2 ^ d ≤ T := by
    cases d with
    | zero => simpa using hlow
    | succ d =>
      have hlast := hbelow d (Nat.lt_succ_self d)
      rw [Nat.pow_succ]
      omega
  have hstep : 512 * 2 ^ d / 4 = 2 ^ (8 + d) / 2 := by
    rw [Nat.pow_add]
    omega
  unfold genericUdelayInit
  rw [increase_eq hT (by omega) hover hbelow (by omega)]
  show restart verifyLpj 32 (512 * 2 ^ d / 2) (512 * 2 ^ d / 4) = some T
  rw [hstep, restart_eq (by omega) (by rw [Nat.pow_add]; omega)]
  exact congrArg some (descend_eq hT (by omega) (by rw [Nat.pow_add]; omega))

end Init

/-- **The calibration.** It ends without an overflow and finds the threshold of
`verify_lpj` exactly if that is not below 256. -/
theorem calibrated_iff (verifyLpj : Nat → Int) (T : Nat) (hhigh : T < 2 ^ 30)
    (hT : ∀ l, verifyLpj l = 0 ↔ l ≤ T) :
    (∃ fuel, genericUdelayInit verifyLpj fuel = some T) ↔ 256 ≤ T :=
  ⟨fun ⟨_, h⟩ => le_genericUdelayInit h, fun hlow => ⟨32, genericUdelayInit_eq hT hlow hhigh⟩⟩

/-- A machine that makes `T` turns in a jiffy. -/
def turns (T l : Nat) : Int := if l ≤ T then 0 else 1

theorem turns_eq_zero_iff (T l : Nat) : turns T l = 0 ↔ l ≤ T := by
  unfold turns
  split <;> simp_all

theorem calibrated_300 : ∃ fuel, genericUdelayInit (turns 300) fuel = some 300 :=
  (calibrated_iff (turns 300) 300 (by decide) (turns_eq_zero_iff 300)).mpr (by decide)

/-- A jiffy of 100 turns: the first guess fails, and so does its half, which is the result. -/
theorem not_calibrated_100 :
    ¬ ∀ (verifyLpj : Nat → Int) (T : Nat), 1 ≤ T → T < 2 ^ 30 →
      (∀ l, verifyLpj l = 0 ↔ l ≤ T) → ∃ fuel, genericUdelayInit verifyLpj fuel = some T := by
  intro hall
  obtain ⟨fuel, hfuel⟩ := hall (turns 100) 100 (by decide) (by decide) (turns_eq_zero_iff 100)
  exact absurd (le_genericUdelayInit hfuel) (by decide)

-- ---------------------------------------------------------------------------
-- The delay
-- ---------------------------------------------------------------------------

/-- The steps of 10 ms in `usec`, the last one may be shorter. -/
def stepCount (usec : Nat) : Nat := (usec + (udelayStep - 1)) / udelayStep

/-- No product overflows, and the turns differ from the exact number by at most one for
each step. -/
def ExactDelay (udelayLpj HZ usec : Nat) : Prop :=
  ∃ loops, genericUdelay udelayLpj HZ usec = some loops ∧
    |(loops : ℚ) - usec * udelayLpj / usecPerJiffy HZ| ≤ stepCount usec

/-- The loop takes as many steps as leave something of `usec`. -/
theorem steps_eq {step : Nat} (hstep : 0 < step) (count usec : Nat) :
    ∃ q r, steps hstep count usec = (q * delay count, r) ∧ usec = q * step + r ∧ r ≤ step ∧
      (0 < q → 0 < r) := by
  induction usec using Nat.strong_induction_on with
  | _ usec ih =>
    unfold steps
    by_cases hlong : step < usec
    · obtain ⟨q, r, hrest, husec, hr, hpos⟩ := ih (usec - step) (by omega)
      refine ⟨q + 1, r, ?_, ?_, hr, fun _ => ?_⟩
      · rw [if_pos hlong, hrest, Nat.succ_mul, Nat.add_comm]
      · rw [Nat.succ_mul]
        omega
      · rcases Nat.eq_zero_or_pos q with rfl | hq
        · omega
        · exact hpos hq
    · exact ⟨0, usec, by rw [if_neg hlong, Nat.zero_mul], by omega, by omega, nofun⟩

theorem usecPerJiffy_pos {HZ : Nat} (hHZ : 1 ≤ HZ ∧ HZ ≤ 1000) : 1000 ≤ usecPerJiffy HZ := by
  unfold usecPerJiffy
  exact (Nat.le_div_iff_mul_le hHZ.1).mpr (by omega)

/-- A division by `u` loses less than one. -/
theorem div_bounds (a : Nat) {u : Nat} (hu : 0 < u) :
    ((a / u : Nat) : ℚ) ≤ a / u ∧ (a : ℚ) / u - 1 < ((a / u : Nat) : ℚ) := by
  refine ⟨Nat.cast_div_le, ?_⟩
  have hlt : (a : ℚ) / u < ((a / u : Nat) : ℚ) + 1 := by
    rw [div_lt_iff₀ (by exact_mod_cast hu)]
    exact_mod_cast Nat.lt_mul_of_div_lt (Nat.lt_succ_self (a / u)) hu
  linarith

theorem stepCount_eq {q r : Nat} (hr : r ≤ udelayStep) (hpos : 0 < r) :
    stepCount (q * udelayStep + r) = q + 1 := by
  unfold stepCount
  have hsum : q * udelayStep + r + (udelayStep - 1) = r - 1 + (q + 1) * udelayStep := by
    rw [Nat.succ_mul]
    unfold udelayStep at *
    omega
  rw [hsum, Nat.add_mul_div_right _ _ udelayStep_pos, Nat.div_eq_of_lt (by omega), Nat.zero_add]

/-- The turns of `q` whole steps and of what is left, against the exact number. -/
theorem loops_error {u : Nat} (hu : 0 < u) (udelayLpj q r : Nat) :
    |((q * (udelayLpj * udelayStep / u) + r * udelayLpj / u : Nat) : ℚ) -
        ((q * udelayStep + r : Nat) : ℚ) * udelayLpj / u| ≤ q + 1 := by
  obtain ⟨hstepUp, hstepLow⟩ := div_bounds (udelayLpj * udelayStep) hu
  obtain ⟨hrestUp, hrestLow⟩ := div_bounds (r * udelayLpj) hu
  have hexact : ((q * udelayStep + r : Nat) : ℚ) * udelayLpj / u =
      q * (((udelayLpj * udelayStep : Nat) : ℚ) / u) + ((r * udelayLpj : Nat) : ℚ) / u := by
    push_cast
    ring
  have hq : (0 : ℚ) ≤ q := Nat.cast_nonneg q
  have hup := mul_le_mul_of_nonneg_left hstepUp hq
  have hlow := mul_le_mul_of_nonneg_left hstepLow.le hq
  rw [hexact, Nat.cast_add, Nat.cast_mul]
  refine abs_le.mpr ⟨?_, ?_⟩
  · linarith
  · linarith

theorem exactDelay_of_le {udelayLpj HZ : Nat} (hlpj : udelayLpj ≤ 214748)
    (hHZ : 1 ≤ HZ ∧ HZ ≤ 1000) (usec : Nat) : ExactDelay udelayLpj HZ usec := by
  have hjiffy := usecPerJiffy_pos hHZ
  have hupos : 0 < usecPerJiffy HZ := by omega
  have hcount : udelayLpj * udelayStep < 2 ^ 31 := by
    unfold udelayStep
    omega
  have hdelay : ∀ a < 2 ^ 32, delay (a / usecPerJiffy HZ) = a / usecPerJiffy HZ := fun a ha =>
    if_pos ((Nat.div_lt_iff_lt_mul hupos).mpr (by nlinarith))
  obtain ⟨q, r, hsteps, rfl, hr, hpos⟩ :=
    steps_eq udelayStep_pos (udelayLpj * udelayStep / usecPerJiffy HZ) usec
  have hproduct : r * udelayLpj < 2 ^ 32 := by
    unfold udelayStep at hr
    nlinarith
  refine ⟨q * (udelayLpj * udelayStep / usecPerJiffy HZ) + r * udelayLpj / usecPerJiffy HZ, ?_, ?_⟩
  · unfold genericUdelay countPerStep
    rw [toInt_of_lt hcount]
    simp only [Option.map_some, Option.bind_some, hsteps]
    rw [show toUnsigned (r * udelayLpj) = some (r * udelayLpj) from if_pos hproduct,
      Option.map_some, hdelay _ (by omega), hdelay _ hproduct]
  · rcases Nat.eq_zero_or_pos r with rfl | hrpos
    · -- nothing is left only if there was nothing at all
      obtain rfl : q = 0 := Nat.eq_zero_of_not_pos fun hq => Nat.lt_irrefl 0 (hpos hq)
      simp
    · rw [stepCount_eq hr hrpos]
      exact_mod_cast loops_error hupos udelayLpj q r

/-- **The delay.** For every setting of `HZ` and every time, no product overflows and each
step of 10 ms is exact up to one turn, exactly for counts up to `214748`. -/
theorem exactDelay_iff (udelayLpj HZ usec : Nat) (hHZ : 1 ≤ HZ ∧ HZ ≤ 1000) :
    ExactDelay udelayLpj HZ usec ↔ udelayLpj ≤ 214748 := by
  refine ⟨fun ⟨loops, hloops, _⟩ => ?_, fun hlpj => exactDelay_of_le hlpj hHZ usec⟩
  obtain ⟨count, hcount, -⟩ := Option.bind_eq_some_iff.mp hloops
  obtain ⟨product, hproduct, -⟩ := Option.map_eq_some_iff.mp hcount
  unfold toInt udelayStep at hproduct
  split at hproduct
  · omega
  · cases hproduct

theorem exactDelay_25ms : ExactDelay 1000 100 25000 :=
  (exactDelay_iff 1000 100 25000 (by decide)).mpr (by decide)

/-- A count the calibration finds on a machine with 214749 turns in a jiffy. -/
theorem overflow_214749 :
    ¬ ∀ udelayLpj HZ usec : Nat, (∃ verifyLpj fuel, genericUdelayInit verifyLpj fuel = some udelayLpj) →
      udelayLpj < 2 ^ 30 → 1 ≤ HZ ∧ HZ ≤ 1000 → usec < 2 ^ 32 → ExactDelay udelayLpj HZ usec := by
  intro hall
  have hinit := genericUdelayInit_eq (turns_eq_zero_iff 214749) (by decide) (by decide)
  obtain ⟨loops, hloops, -⟩ :=
    hall 214749 100 1 ⟨_, _, hinit⟩ (by decide) (by decide) (by decide)
  have hnone : genericUdelay 214749 100 1 = none := rfl
  rw [hnone] at hloops
  cases hloops

end Bathos.Timer
