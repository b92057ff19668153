import Mathlib.Tactic

/-!
# Counting loops and the writes they make

`forLoop body n step` is `for (i = 0; i < n; i += step)`, with a bound on how often
the condition is tested: a loop that does not end has no result, whatever the
bound. What a body writes to an array is a list of pairs, applied by `writeAll`.

Main results:

* `forLoop_stuck` — with a step of 0 the loop does not end;
* `forLoop_once` — a step as large as the range gives one turn;
* `writeAll_range_iff` — what consecutive cells hold after one write to each.
-/

namespace Bathos.Lib

variable {α β ρ : Type*}

-- ---------------------------------------------------------------------------
-- Loops
-- ---------------------------------------------------------------------------

/-- What the loop writes, from `i` on, and the value it returns early with; the
condition is tested `fuel` times at most. -/
def forLoop (body : Nat → List α × Option ρ) (n step : Nat) :
    Nat → Nat → Option (List α × Option ρ)
  | 0, _ => none
  | fuel + 1, i =>
    if i < n then
      match body i with
      | (out, some r) => some (out, some r)
      | (out, none) =>
        (forLoop body n step fuel (i + step)).map fun rest => (out ++ rest.1, rest.2)
    else some ([], none)

section ForLoop

variable {body : Nat → List α × Option ρ} {n step i fuel : Nat} {out : List α} {r : ρ}

theorem forLoop_done (h : n ≤ i) : forLoop body n step (fuel + 1) i = some ([], none) := by
  unfold forLoop
  rw [if_neg (Nat.not_lt.mpr h)]

/-- A turn that returns ends the loop. -/
theorem forLoop_return (hi : i < n) (hbody : body i = (out, some r)) :
    forLoop body n step (fuel + 1) i = some (out, some r) := by
  unfold forLoop
  rw [if_pos hi, hbody]

theorem forLoop_turn (hi : i < n) (hbody : body i = (out, none)) :
    forLoop body n step (fuel + 1) i =
      (forLoop body n step fuel (i + step)).map fun rest => (out ++ rest.1, rest.2) := by
  conv_lhs => unfold forLoop
  rw [if_pos hi, hbody]

/-- A step of 0 comes back to the same turn. -/
theorem forLoop_stuck (hi : i < n) (hbody : body i = (out, none)) (fuel : Nat) :
    forLoop body n 0 fuel i = none := by
  induction fuel with
  | zero => rfl
  | succ fuel ih => rw [forLoop_turn hi hbody, Nat.add_zero, ih, Option.map_none]

/-- One turn covers the range; the condition is tested before and after it. -/
theorem forLoop_once (hi : i < n) (hstep : n ≤ i + step) (hbody : body i = (out, none)) :
    forLoop body n step fuel i = if 2 ≤ fuel then some (out, none) else none := by
  match fuel with
  | 0 => rfl
  | 1 =>
    rw [forLoop_turn hi hbody]
    rfl
  | fuel + 2 =>
    rw [forLoop_turn hi hbody, forLoop_done hstep, Option.map_some, List.append_nil,
      if_pos (Nat.le_add_left 2 fuel)]

/-- What holds of the result of a run that ends after a known number of tests. -/
theorem returns_iff {γ : Type*} {run : Nat → Option γ} {k : Nat} {x : γ}
    (h : ∀ fuel, run fuel = if k ≤ fuel then some x else none) {P : γ → Prop} :
    (∃ fuel res, run fuel = some res ∧ P res) ↔ P x := by
  constructor
  · rintro ⟨fuel, res, hrun, hres⟩
    rw [h] at hrun
    split at hrun
    · rwa [Option.some.inj hrun]
    · cases hrun
  · exact fun hx => ⟨k, x, by rw [h, if_pos le_rfl], hx⟩

end ForLoop

-- ---------------------------------------------------------------------------
-- Writes
-- ---------------------------------------------------------------------------

/-- An array after a list of writes. -/
def writeAll (f : Nat → β) (writes : List (Nat × β)) : Nat → β :=
  writes.foldl (fun f w => Function.update f w.1 w.2) f

@[simp] theorem writeAll_nil (f : Nat → β) : writeAll f [] = f := rfl

theorem writeAll_append (f : Nat → β) (ws vs : List (Nat × β)) :
    writeAll f (ws ++ vs) = writeAll (writeAll f ws) vs := List.foldl_append

/-- One write to each of `n` cells from `start` on. -/
theorem writeAll_range (f : Nat → β) (start n : Nat) (g : Nat → β) (q : Nat) :
    writeAll f ((List.range n).map fun j => (start + j, g j)) q =
      if start ≤ q ∧ q < start + n then g (q - start) else f q := by
  induction n with
  | zero =>
    rw [if_neg (by omega)]
    rfl
  | succ n ih =>
    rw [List.range_succ, List.map_append, writeAll_append]
    show Function.update (writeAll f ((List.range n).map fun j => (start + j, g j))) (start + n)
      (g n) q = _
    by_cases hq : q = start + n
    · rw [hq, Function.update_self, if_pos (by omega), Nat.add_sub_cancel_left]
    · rw [Function.update_of_ne hq, ih]
      congr 1
      exact propext (by omega)

/-- The cells written hold what they should, and the others held it before. -/
theorem writeAll_range_iff {f e : Nat → β} {start n : Nat} {g : Nat → β} :
    (∀ q, writeAll f ((List.range n).map fun j => (start + j, g j)) q = e q) ↔
      (∀ j < n, g j = e (start + j)) ∧ ∀ q, ¬(start ≤ q ∧ q < start + n) → f q = e q := by
  simp only [writeAll_range]
  constructor
  · intro h
    refine ⟨fun j hj => ?_, fun q hq => ?_⟩
    · have hcell := h (start + j)
      rwa [if_pos (by omega), Nat.add_sub_cancel_left] at hcell
    · have hcell := h q
      rwa [if_neg hq] at hcell
  · rintro ⟨hin, hout⟩ q
    split
    · rename_i hq
      rw [hin _ (by omega), Nat.add_sub_cancel' hq.1]
    · rename_i hq
      exact hout q hq

end Bathos.Lib
