import Mathlib.Tactic

/-!
# Searching for a threshold

A test on numbers that passes exactly up to a threshold. Doubling brackets the
threshold between a number and twice that number (`exists_doubling`); from the lower end,
steps of falling powers of two reach it (`descend_eq`).
-/

namespace Bathos.Lib

/-- `test` passes up to `T`, and not above. -/
def HasThreshold (test : Nat → Prop) (T : Nat) : Prop := ∀ l, test l ↔ l ≤ T

/-- The steps `2 ^ (k - 1)`, …, `2`, `1` from `lo` on, each taken if the test passes there. -/
def descend (test : Nat → Prop) [DecidablePred test] : Nat → Nat → Nat
  | 0, lo => lo
  | k + 1, lo => descend test k (if test (lo + 2 ^ k) then lo + 2 ^ k else lo)

variable {test : Nat → Prop} [DecidablePred test] {T lo k : Nat}

/-- **The search.** The threshold is found if it is not below the start and within reach. -/
theorem descend_eq (h : HasThreshold test T) (hlo : lo ≤ T) (hhi : T < lo + 2 ^ k) :
    descend test k lo = T := by
  induction k generalizing lo with
  | zero =>
    rw [Nat.pow_zero] at hhi
    exact Nat.le_antisymm hlo (Nat.lt_succ_iff.mp hhi)
  | succ k ih =>
    rw [Nat.pow_succ] at hhi
    show descend test k (if test (lo + 2 ^ k) then lo + 2 ^ k else lo) = T
    by_cases hpass : lo + 2 ^ k ≤ T
    · rw [if_pos ((h _).mpr hpass)]
      exact ih hpass (by omega)
    · rw [if_neg fun ht => hpass ((h _).mp ht)]
      exact ih hlo (by omega)

/-- The number of doublings that bring `a` above the threshold. -/
theorem exists_doubling {a : Nat} (ha : 0 < a) (T : Nat) :
    ∃ d, T < a * 2 ^ d ∧ ∀ i < d, a * 2 ^ i ≤ T := by
  have hsome : ∃ d, T < a * 2 ^ d :=
    ⟨T, lt_of_lt_of_le Nat.lt_two_pow_self (Nat.le_mul_of_pos_left _ ha)⟩
  exact ⟨Nat.find hsome, Nat.find_spec hsome, fun i hi => Nat.not_lt.mp (Nat.find_min hsome hi)⟩

end Bathos.Lib
