import Bathos.Lib.Numeral
import Bathos.Lib.Run

/-!
# Messages over a clock and a data line

A listener at two lines. A bit comes with every rising edge of the clock; a rising edge of
the data line while the clock stays high starts a message. The bits of a message stand for
numbers of `w` bits, the lowest bit first, and a rest of less than `w` bits for none.

Main results:

* `see_self` — a listener that looks more often sees the same;
* `listen_start`, `listen_pulse` — how to send a start and a bit;
* `numbers_flatMap` — the numbers that were sent are read.
-/

namespace Bathos.Lib.TwoWire

-- ---------------------------------------------------------------------------
-- The listener
-- ---------------------------------------------------------------------------

/-- The levels of the two lines. -/
structure Lines where
  clock : Bool
  data : Bool

/-- What a listener has seen: the lines as they were last, and the bits of the messages, the
last message first. -/
structure Listener where
  lines : Lines
  messages : List (List Bool)

/-- A bit of the message that is coming. Before the first start it is lost. -/
def addBit (b : Bool) : List (List Bool) → List (List Bool)
  | [] => []
  | m :: ms => (m ++ [b]) :: ms

@[simp] theorem addBit_length (b : Bool) (ms : List (List Bool)) :
    (addBit b ms).length = ms.length := by
  cases ms <;> rfl

/-- One look at the lines. -/
def Listener.see (r : Listener) (l : Lines) : Listener where
  lines := l
  messages :=
    if r.lines.clock && l.clock && !r.lines.data && l.data then [] :: r.messages
    else if !r.lines.clock && l.clock then addBit l.data r.messages
    else r.messages

variable {r : Listener} {b : Bool}

@[simp] theorem see_lines (r : Listener) (l : Lines) : (r.see l).lines = l := rfl

/-- **Nothing has happened**: it does not matter how often the listener looks. -/
theorem see_self (r : Listener) : r.see r.lines = r := by
  obtain ⟨⟨clock, data⟩, ms⟩ := r
  cases clock <;> cases data <;> rfl

/-- Without a clock there are no bits. -/
theorem see_messages_of_clock {l : Lines} (h : l.clock = r.lines.clock) :
    (r.see l).messages = r.messages ∨ (r.see l).messages = [] :: r.messages := by
  unfold Listener.see
  rw [h]
  cases r.lines.clock <;> cases r.lines.data <;> cases l.data <;> simp

/-- Without changes of the data line there are no messages. -/
theorem see_messages_of_data {l : Lines} (h : l.data = r.lines.data) :
    (r.see l).messages.length = r.messages.length := by
  unfold Listener.see
  rw [h]
  cases r.lines.clock <;> cases r.lines.data <;> cases l.clock <;> simp

-- ---------------------------------------------------------------------------
-- Sending
-- ---------------------------------------------------------------------------

/-- **A start**, whatever the lines were before. If the clock was low, its rising edge is
still taken for a bit of the message before. -/
theorem listen_start (r : Listener) :
    runFrom Listener.see r [⟨true, r.lines.data⟩, ⟨true, false⟩, ⟨true, true⟩, ⟨true, false⟩,
        ⟨false, false⟩] =
      ⟨⟨false, false⟩,
        [] :: if r.lines.clock then r.messages else addBit r.lines.data r.messages⟩ := by
  obtain ⟨⟨clock, data⟩, ms⟩ := r
  cases clock <;> cases data <;> rfl

/-- A bit: the data line changes while the clock is low. -/
theorem listen_pulse (hclock : r.lines.clock = false) (b : Bool) :
    runFrom Listener.see r [⟨false, b⟩, ⟨true, b⟩, ⟨false, b⟩] =
      ⟨⟨false, b⟩, addBit b r.messages⟩ := by
  obtain ⟨⟨clock, data⟩, ms⟩ := r
  obtain rfl : clock = false := hclock
  cases data <;> cases b <;> rfl

-- ---------------------------------------------------------------------------
-- Numbers
-- ---------------------------------------------------------------------------

variable {w : Nat} {bits : List Bool}

/-- The `w` low bits, the lowest first. -/
def bitsOf (w n : Nat) : List Bool := (List.range w).map n.testBit

@[simp] theorem bitsOf_length (w n : Nat) : (bitsOf w n).length = w := by
  rw [bitsOf, List.length_map, List.length_range]

theorem bitsOf_succ (w n : Nat) : bitsOf (w + 1) n = n.testBit 0 :: bitsOf w (n / 2) := by
  unfold bitsOf
  rw [List.range_succ_eq_map, List.map_cons, List.map_map]
  congr 1
  exact List.map_congr_left fun i _ => Nat.testBit_succ n i

theorem bitsOf_digits (w n : Nat) : (bitsOf w n).map Bool.toNat = fixedDigits 2 w n := by
  induction w generalizing n with
  | zero => rfl
  | succ w ih =>
    rw [bitsOf_succ, List.map_cons, ih, fixedDigits, Nat.testBit_zero]
    congr 1
    rcases Nat.mod_two_eq_zero_or_one n with h | h <;> simp [h]

/-- The numbers that a message stands for. -/
def numbers (w : Nat) (bits : List Bool) : List Nat :=
  (List.range (bits.length / w)).map fun i =>
    Nat.ofDigits 2 (((bits.drop (i * w)).take w).map Bool.toNat)

theorem numbers_of_lt (h : bits.length < w) : numbers w bits = [] := by
  rw [numbers, Nat.div_eq_of_lt h]
  rfl

theorem numbers_cons (hw : 0 < w) (n : Nat) (bits : List Bool) :
    numbers w (bitsOf w n ++ bits) = n % 2 ^ w :: numbers w bits := by
  unfold numbers
  have hlen : (bitsOf w n ++ bits).length / w = bits.length / w + 1 := by
    rw [List.length_append, bitsOf_length, Nat.add_div_left _ hw]
  rw [hlen, List.range_succ_eq_map, List.map_cons, List.map_map]
  congr 1
  · rw [Nat.zero_mul, List.drop_zero, List.take_left' (bitsOf_length w n), bitsOf_digits,
      ofDigits_fixedDigits]
  · refine List.map_congr_left fun i _ => ?_
    have hdrop : (bitsOf w n ++ bits).drop (i.succ * w) = bits.drop (i * w) := by
      rw [Nat.succ_mul, Nat.add_comm (i * w) w, ← List.drop_drop,
        List.drop_left' (bitsOf_length w n)]
    exact congrArg (fun bs => Nat.ofDigits 2 ((List.take w bs).map Bool.toNat)) hdrop

/-- **The numbers that were sent.** -/
theorem numbers_flatMap (hw : 0 < w) (ns : List Nat) :
    numbers w (ns.flatMap (bitsOf w)) = ns.map (· % 2 ^ w) := by
  induction ns with
  | nil => exact numbers_of_lt hw
  | cons n ns ih => rw [List.flatMap_cons, numbers_cons hw, ih, List.map_cons]

/-- One bit more makes no number unless only that bit was missing. -/
theorem numbers_concat (h : bits.length % w + 1 < w) (b : Bool) :
    numbers w (bits ++ [b]) = numbers w bits := by
  have hw : 0 < w := by omega
  unfold numbers
  have hlen : (bits ++ [b]).length / w = bits.length / w := by
    rw [List.length_append, List.length_singleton]
    rw [Nat.add_div_eq_of_add_mod_lt (by rw [Nat.mod_eq_of_lt (show 1 < w by omega)]; exact h),
      Nat.div_eq_of_lt (show 1 < w by omega), Nat.add_zero]
  rw [hlen]
  refine List.map_congr_left fun i hi => ?_
  have hle : i * w + w ≤ bits.length := by
    have hmul := Nat.mul_le_mul_right w (Nat.succ_le_of_lt (List.mem_range.mp hi))
    rw [Nat.succ_mul] at hmul
    exact hmul.trans (Nat.div_mul_le_self _ _)
  rw [List.drop_append_of_le_length (by omega), List.take_append_of_le_length]
  rw [List.length_drop]
  omega

end Bathos.Lib.TwoWire
