import Bathos.Include.Headers
import Bathos.Include.Words

/-!
# Bathos — GPIO events of the ATmega

`arch-atmega/gpio.c`: at every tick of the timer the five ports are read and
compared with what they were at the tick before. The edges that somebody asked for
are collected in `events`, one bit a pin, and `gpio_evt` is triggered.

Pin `q` is bit `q % 8` of port `q / 8`.

Main results:

* `gpioSample_event`, `gpioSample_prev` — what one run of `gpio_sample` collects
  and remembers;
* `gpioRequestEvents_watches` — the edges a request asks for.
-/

namespace Bathos.Atmega

-- ---------------------------------------------------------------------------
-- State
-- ---------------------------------------------------------------------------

/-- The static variables of the file. -/
structure Sampler where
  ports : Nat → BitVec 8
  rising : Nat → BitVec 8
  falling : Nat → BitVec 8
  enable : Nat → BitVec 8
  initialized : BitVec 8
  events : Words 2

/-- Bit `q` of one of the arrays. -/
def pinBit (array : Nat → BitVec 8) (q : Nat) : Bool := (array (q / 8)).getLsbD (q % 8)

/-- `array[port] &= ~mask`, and `array[port] |= mask` on a condition. -/
def assignBits (array : Nat → BitVec 8) (port : Nat) (mask : BitVec 8) (on : Bool) :
    Nat → BitVec 8 :=
  let cleared := array port &&& ~~~mask
  Function.update array port (if on then cleared ||| mask else cleared)

/-- `gpio_request_events`. A level is watched by way of both edges. -/
def gpioRequestEvents (smp : Sampler) (gpio : Int) (flags : UInt8) : Int × Sampler :=
  if gpio < 0 ∨ 39 < gpio then (-EINVAL, smp)
  else
    let mask := 1#8 <<< (gpio.toNat % 8)
    let port := gpio.toNat / 8
    let level := hasFlag flags GPIO_EVT_LOW || hasFlag flags GPIO_EVT_HIGH
    (0, { smp with
      rising := assignBits smp.rising port mask (hasFlag flags GPIO_EVT_RISING || level)
      falling := assignBits smp.falling port mask (hasFlag flags GPIO_EVT_FALLING || level)
      enable := assignBits smp.enable port mask (hasFlag flags GPIO_EVT_ENABLE) })

-- ---------------------------------------------------------------------------
-- gpio_sample
-- ---------------------------------------------------------------------------

/-- One turn of the inner loop: `do_trigger` and the events so far. -/
def sampleBit (smp : Sampler) (i : Nat) (d : BitVec 8) (acc : Bool × Words 2) (j : Nat) :
    Bool × Words 2 :=
  if !(smp.enable i).getLsbD j || !d.getLsbD j then acc
  else
    let acc :=
      if (smp.rising i).getLsbD j && !(smp.ports i).getLsbD j then (true, acc.2.setBit (i * 8 + j))
      else acc
    if (smp.falling i).getLsbD j && (smp.ports i).getLsbD j then (true, acc.2.setBit (i * 8 + j))
    else acc

/-- One turn of the outer loop, with `sfr` the port registers. The first time a port
is only stored. -/
def samplePort (sfr : Nat → BitVec 8) (acc : Bool × Sampler) (i : Nat) : Bool × Sampler :=
  let smp := acc.2
  if smp.initialized &&& 1#8 <<< i = 0 then
    (acc.1, { smp with
      initialized := smp.initialized ||| 1#8 <<< i
      ports := Function.update smp.ports i (sfr i) })
  else
    let d := sfr i ^^^ smp.ports i
    let res := (List.range 8).foldl (sampleBit smp i d) (acc.1, smp.events)
    (res.1, { smp with events := res.2, ports := Function.update smp.ports i (sfr i) })

/-- `gpio_sample`: whether `gpio_evt` is triggered, and the variables afterwards. -/
def gpioSample (sfr : Nat → BitVec 8) (smp : Sampler) : Bool × Sampler :=
  (List.range 5).foldl (samplePort sfr) (false, smp)

-- ---------------------------------------------------------------------------
-- Edges
-- ---------------------------------------------------------------------------

/-- The pin has an edge that somebody asked for. -/
def Sampler.watches (smp : Sampler) (sfr : Nat → BitVec 8) (q : Nat) : Bool :=
  pinBit smp.enable q &&
    (pinBit smp.rising q && !pinBit smp.ports q && pinBit sfr q ||
      pinBit smp.falling q && pinBit smp.ports q && !pinBit sfr q)

/-- The edge is seen: the pin exists and its port has been read before. -/
def Sampler.detects (smp : Sampler) (sfr : Nat → BitVec 8) (q : Nat) : Bool :=
  decide (q < 40) && smp.initialized.getLsbD (q / 8) && smp.watches sfr q

section Sample

variable {smp : Sampler} {sfr : Nat → BitVec 8} {i n : Nat}

theorem sampleBit_event (acc : Bool × Words 2) {j : Nat} (hi : i < 5) (hj : j < 8) (q : Nat) :
    (sampleBit smp i (sfr i ^^^ smp.ports i) acc j).2.bit q =
      (acc.2.bit q || decide (q = i * 8 + j) && smp.watches sfr (i * 8 + j)) := by
  have hset : ∀ x : Words 2, (x.setBit (i * 8 + j)).bit q = (decide (q = i * 8 + j) || x.bit q) :=
    fun x => x.bit_setBit (by omega) q
  have hdiv : (i * 8 + j) / 8 = i := by omega
  have hmod : (i * 8 + j) % 8 = j := by omega
  unfold sampleBit Sampler.watches pinBit
  rw [hdiv, hmod, BitVec.getLsbD_xor]
  cases (smp.enable i).getLsbD j <;> cases (smp.rising i).getLsbD j <;>
    cases (smp.falling i).getLsbD j <;> cases (smp.ports i).getLsbD j <;>
    cases (sfr i).getLsbD j <;> simp [hset, Bool.or_comm]

/-- The inner loop, after `n` turns. -/
theorem sampleBits_event (acc : Bool × Words 2) (hi : i < 5) (hn : n ≤ 8) (q : Nat) :
    ((List.range n).foldl (sampleBit smp i (sfr i ^^^ smp.ports i)) acc).2.bit q =
      (acc.2.bit q || decide (q / 8 = i ∧ q % 8 < n) && smp.watches sfr q) := by
  induction n with
  | zero => simp
  | succ n ih =>
    rw [List.range_succ, List.foldl_append]
    show (sampleBit smp i _ _ n).2.bit q = _
    rw [sampleBit_event _ hi (by omega), ih (by omega)]
    by_cases hq : q = i * 8 + n
    · subst hq
      have hdiv : (i * 8 + n) / 8 = i := by omega
      have hmod : (i * 8 + n) % 8 = n := by omega
      simp [hdiv, hmod]
    · have hsame : (q / 8 = i ∧ q % 8 < n + 1) ↔ (q / 8 = i ∧ q % 8 < n) := by omega
      simp only [hq, hsame, decide_false, Bool.false_and, Bool.or_false]

/-- The outer loop after `n` turns: the ports behind are as they were. -/
structure SampledUpTo (smp : Sampler) (sfr : Nat → BitVec 8) (n : Nat) (smp' : Sampler) :
    Prop where
  rising : smp'.rising = smp.rising
  falling : smp'.falling = smp.falling
  enable : smp'.enable = smp.enable
  ports : ∀ i, smp'.ports i = if i < n then sfr i else smp.ports i
  initialized : ∀ i < 8, smp'.initialized.getLsbD i = (decide (i < n) || smp.initialized.getLsbD i)
  event : ∀ q, smp'.events.bit q = (smp.events.bit q ||
    decide (q / 8 < n) && (smp.initialized.getLsbD (q / 8) && smp.watches sfr q))

/-- `1 << i`. -/
theorem mask_getLsbD (hi : i < 8) (k : Nat) : (1#8 <<< i).getLsbD k = decide (k = i) := by
  rw [← BitVec.twoPow_eq, BitVec.getLsbD_twoPow, decide_eq_true hi, Bool.true_and]
  exact decide_eq_decide.mpr eq_comm

/-- `initialized & (1 << i)`. -/
theorem and_mask_eq_zero {x : BitVec 8} (hi : i < 8) :
    x &&& 1#8 <<< i = 0 ↔ x.getLsbD i = false := by
  constructor
  · intro h
    have hbit : (x &&& 1#8 <<< i).getLsbD i = x.getLsbD i := by
      rw [BitVec.getLsbD_and, mask_getLsbD hi, decide_eq_true rfl, Bool.and_true]
    rw [← hbit, h]
    exact BitVec.getLsbD_zero
  · intro h
    rw [← BitVec.twoPow_eq, BitVec.and_twoPow, h]
    rfl

theorem or_mask_getLsbD (x : BitVec 8) (hi : i < 8) (k : Nat) :
    (x ||| 1#8 <<< i).getLsbD k = (decide (k = i) || x.getLsbD k) := by
  rw [BitVec.getLsbD_or, mask_getLsbD hi, Bool.or_comm]

section Turn

variable {acc : Bool × Sampler} (h : SampledUpTo smp sfr n acc.2)

include h

theorem SampledUpTo.update_ports (i : Nat) :
    Function.update acc.2.ports n (sfr n) i = if i < n + 1 then sfr i else smp.ports i := by
  by_cases hin : i = n
  · rw [hin, Function.update_self, if_pos (Nat.lt_succ_self n)]
  · rw [Function.update_of_ne hin, h.ports]
    congr 1
    exact propext (by omega)

/-- The edges of the port whose turn it is. -/
theorem SampledUpTo.watches {q : Nat} (hq : q / 8 = n) : acc.2.watches sfr q = smp.watches sfr q := by
  unfold Sampler.watches pinBit
  rw [h.rising, h.falling, h.enable, hq, h.ports, if_neg (Nat.lt_irrefl n)]

/-- The first time of a port. -/
theorem SampledUpTo.next_first (hn : n < 5) (hzero : smp.initialized.getLsbD n = false) :
    SampledUpTo smp sfr (n + 1)
      { acc.2 with
        initialized := acc.2.initialized ||| 1#8 <<< n
        ports := Function.update acc.2.ports n (sfr n) } := by
  refine ⟨h.rising, h.falling, h.enable, h.update_ports, fun i hi => ?_, fun q => ?_⟩
  · rw [or_mask_getLsbD _ (by omega), h.initialized i hi, ← Bool.or_assoc, ← Bool.decide_or]
    congr 2
    exact propext (by omega)
  · rw [h.event]
    by_cases hq : q / 8 = n
    · simp [hq, hzero]
    · have hsame : q / 8 < n + 1 ↔ q / 8 < n := by omega
      simp [hsame]

/-- Every other time. -/
theorem SampledUpTo.next_compare (hn : n < 5) (hone : smp.initialized.getLsbD n = true) :
    SampledUpTo smp sfr (n + 1)
      { acc.2 with
        events := ((List.range 8).foldl (sampleBit acc.2 n (sfr n ^^^ acc.2.ports n))
          (acc.1, acc.2.events)).2
        ports := Function.update acc.2.ports n (sfr n) } := by
  refine ⟨h.rising, h.falling, h.enable, h.update_ports, fun i hi => ?_, fun q => ?_⟩
  · rw [h.initialized i hi]
    by_cases hin : i = n
    · simp [hin, hone]
    · have hsame : i < n + 1 ↔ i < n := by omega
      simp [hsame]
  · rw [sampleBits_event _ hn le_rfl, h.event]
    by_cases hq : q / 8 = n
    · rw [h.watches hq]
      simp [hq, hone, Nat.mod_lt]
    · have hsame : q / 8 < n + 1 ↔ q / 8 < n := by omega
      simp [hq, hsame]

theorem SampledUpTo.next (hn : n < 5) :
    SampledUpTo smp sfr (n + 1) (samplePort sfr acc n).2 := by
  have hinit : acc.2.initialized.getLsbD n = smp.initialized.getLsbD n := by
    rw [h.initialized n (by omega)]
    simp
  unfold samplePort
  dsimp only
  split
  · rename_i hzero
    rw [and_mask_eq_zero (by omega), hinit] at hzero
    exact h.next_first hn hzero
  · rename_i hone
    rw [and_mask_eq_zero (by omega), hinit, Bool.not_eq_false] at hone
    exact h.next_compare hn hone

end Turn

/-- **One sample.** -/
theorem gpioSample_spec (sfr : Nat → BitVec 8) (smp : Sampler) :
    SampledUpTo smp sfr 5 (gpioSample sfr smp).2 := by
  have hrun : ∀ n ≤ 5,
      SampledUpTo smp sfr n ((List.range n).foldl (samplePort sfr) (false, smp)).2 := by
    intro n
    induction n with
    | zero => exact fun _ => ⟨rfl, rfl, rfl, fun i => by simp, fun i _ => by simp, fun q => by simp⟩
    | succ n ih =>
      intro hn
      rw [List.range_succ, List.foldl_append]
      exact (ih (by omega)).next (by omega)
  exact hrun 5 le_rfl

/-- The events of a run of `gpio_sample` are the old ones and the edges it sees. -/
theorem gpioSample_event (q : Nat) :
    (gpioSample sfr smp).2.events.bit q = (smp.events.bit q || smp.detects sfr q) := by
  rw [(gpioSample_spec sfr smp).event, Sampler.detects, ← Bool.and_assoc]
  congr 4
  exact propext (by omega)

end Sample

-- ---------------------------------------------------------------------------
-- Requests
-- ---------------------------------------------------------------------------

section Request

variable {smp : Sampler} {q : Nat} {flags : UInt8}

theorem pinBit_assignBits (array : Nat → BitVec 8) (q : Nat) (on : Bool) (k : Nat) :
    pinBit (assignBits array (q / 8) (1#8 <<< (q % 8)) on) k =
      if k = q then on else pinBit array k := by
  have hk : k % 8 < 8 := Nat.mod_lt k (by decide)
  have hmask := mask_getLsbD (Nat.mod_lt q (by decide)) (k % 8)
  unfold pinBit assignBits
  by_cases hport : k / 8 = q / 8
  · rw [hport, Function.update_self]
    by_cases hkq : k = q
    · subst hkq
      cases on <;>
        simp only [if_true, Bool.false_eq_true, if_false, BitVec.getLsbD_or, BitVec.getLsbD_and,
          BitVec.getLsbD_not, hmask, decide_true, Bool.not_true, Bool.and_false, Bool.or_true]
    · have hbit : k % 8 ≠ q % 8 := by omega
      rw [if_neg hkq]
      cases on <;>
        simp only [if_true, Bool.false_eq_true, if_false, BitVec.getLsbD_or, BitVec.getLsbD_and,
          BitVec.getLsbD_not, hmask, hbit, hk, decide_false, decide_true, Bool.not_false,
          Bool.and_true, Bool.or_false]
  · rw [Function.update_of_ne hport, if_neg (fun h => hport (by rw [h]))]

theorem gpioRequestEvents_succeeds (hq : q < 40) : (gpioRequestEvents smp q flags).1 = 0 := by
  unfold gpioRequestEvents
  rw [if_neg (by omega)]

/-- **A request.** The edges watched at the pin are those of the flags, whatever they
were before, and those at the other pins stay. -/
theorem gpioRequestEvents_watches (hq : q < 40) (sfr : Nat → BitVec 8) (k : Nat) :
    (gpioRequestEvents smp q flags).2.watches sfr k =
      if k = q then
        hasFlag flags GPIO_EVT_ENABLE &&
          ((hasFlag flags GPIO_EVT_RISING || hasFlag flags GPIO_EVT_LOW ||
              hasFlag flags GPIO_EVT_HIGH) && !pinBit smp.ports q && pinBit sfr q ||
            (hasFlag flags GPIO_EVT_FALLING || hasFlag flags GPIO_EVT_LOW ||
              hasFlag flags GPIO_EVT_HIGH) && pinBit smp.ports q && !pinBit sfr q)
      else smp.watches sfr k := by
  unfold gpioRequestEvents Sampler.watches
  rw [if_neg (by omega)]
  simp only [Int.toNat_natCast, pinBit_assignBits]
  by_cases hk : k = q
  · simp only [hk, if_true, Bool.or_assoc]
  · simp only [hk, if_false]

end Request

end Bathos.Atmega
