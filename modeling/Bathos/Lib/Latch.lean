import Mathlib.Tactic

/-!
# Latches in a row

A latch is a truth value over time, set by some events and cleared by others. Behind
it a second one may take over what the first holds. The lemmas say which event a
latch stands for at a time, without mentioning the states in between.

Main results:

* `Latch.iff` — a latch is set when an event has not been cleared since;
* `Latch.relay` — the second of two latches shows, when it is read, the events whose
  first hand-over and first read after it lead here: each one at one read only
  (`FirstAfter.unique`).
-/

namespace Bathos.Lib

variable {P : Nat → Prop}

/-- `k` is the first time after `t` at which `P` holds. -/
def FirstAfter (P : Nat → Prop) (t k : Nat) : Prop := t < k ∧ P k ∧ ∀ j, t < j → j < k → ¬P j

theorem FirstAfter.unique {t k k' : Nat} (h : FirstAfter P t k) (h' : FirstAfter P t k') :
    k = k' := by
  rcases Nat.lt_trichotomy k k' with hlt | heq | hgt
  · exact absurd h.2.1 (h'.2.2 k h.1 hlt)
  · exact heq
  · exact absurd h'.2.1 (h.2.2 k' h'.1 hgt)

/-- `L` is clear at first, set by `E` and cleared by `D`. An event that comes with a
clearing sets it. -/
structure Latch (E D L : Nat → Prop) : Prop where
  start : ¬L 0
  next : ∀ t, L (t + 1) ↔ E t ∨ (L t ∧ ¬D t)

namespace Latch

variable {E D R L L' : Nat → Prop}

/-- By induction on time. -/
protected theorem iff (h : Latch E D L) (t : Nat) :
    L t ↔ ∃ k < t, E k ∧ ∀ j, k < j → j < t → ¬D j := by
  induction t with
  | zero => exact iff_of_false h.start fun ⟨k, hk, _⟩ => absurd hk (Nat.not_lt_zero k)
  | succ t ih =>
    rw [h.next, ih]
    constructor
    · rintro (hset | ⟨⟨k, hk, hset, hkept⟩, hclear⟩)
      · exact ⟨t, Nat.lt_succ_self t, hset, fun j hj hjt => absurd hj (by omega)⟩
      · refine ⟨k, by omega, hset, fun j hj hjt => ?_⟩
        rcases Nat.lt_succ_iff_lt_or_eq.mp hjt with hlt | rfl
        · exact hkept j hj hlt
        · exact hclear
    · rintro ⟨k, hk, hset, hkept⟩
      rcases Nat.lt_succ_iff_lt_or_eq.mp hk with hlt | rfl
      · exact .inr ⟨⟨k, hlt, hset, fun j hj hjt => hkept j hj (by omega)⟩, hkept t hlt (by omega)⟩
      · exact .inl hset

/-- **Two latches.** The second takes over from the first at `D` and is cleared at
`R`. -/
theorem relay (h : Latch E D L) (h' : Latch (fun t => D t ∧ L t) R L') {t : Nat} (hR : R t) :
    L' t ↔ ∃ k, E k ∧ ∃ d, FirstAfter D k d ∧ FirstAfter R d t := by
  rw [h'.iff]
  constructor
  · rintro ⟨d, hdt, ⟨hD, hset⟩, hkept⟩
    obtain ⟨k, hkd, hE, hnone⟩ := (h.iff d).mp hset
    exact ⟨k, hE, d, ⟨hkd, hD, hnone⟩, hdt, hR, hkept⟩
  · rintro ⟨k, hE, d, ⟨hkd, hD, hnone⟩, hdt, -, hkept⟩
    exact ⟨d, hdt, ⟨hD, (h.iff d).mpr ⟨k, hkd, hE, hnone⟩⟩, hkept⟩

end Latch

end Bathos.Lib
