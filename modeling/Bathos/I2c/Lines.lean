import Bathos.I2c.Engine

/-!
# Bathos — the bytes of the I2C bus on SDA

The trace of the bus names bytes. A slave that never stretches the clock too long
sees them as they are named, and sends them as they are named: the controller sets
the bits of a byte it sends on SDA, the highest first, and the byte it receives is
the eight levels that the slave has left there.

Main results:

* `sendBits_eq`, `recvBits_eq` — the two loops over the pulses of a byte;
* `step_extends` — whatever a step puts on the bus is so on SDA.
-/

namespace Bathos.I2c

open Bathos.Lib I2cData

-- ---------------------------------------------------------------------------
-- Statement
-- ---------------------------------------------------------------------------

/-- A slave that acknowledges every byte and never stretches the clock too long. -/
structure Slave.Responsive (sl : Slave) : Prop where
  acks : ∀ h driven, driven.length = 9 → sl.onSend h driven = .level false
  sends : ∀ h driven, sl.onSend h driven ≠ .timeout
  receives : ∀ h i, sl.onRecv h i ≠ .timeout

/-- The bits of a byte, the highest first. -/
def msbFirst (c : UInt8) : List Bool := (List.range 8).map c.toBitVec.getMsbD

/-- What an action is on SDA, after the actions `h`: a byte sent is its bits, set by
the controller, and an acknowledge; a byte received is eight levels left there by
the slave. -/
def Slave.OnSda (sl : Slave) (h : List BusAction) : BusAction → Prop
  | .byte c => sendBits (sl.onSend h) c 8 [] = (0, msbFirst c) ∧ sl.sendByte h c = 0
  | .recv c => ∀ j < 8, sl.onRecv h j = .level (c.toBitVec.getMsbD j)
  | _ => True

/-- The same of a list of actions, each after those before it. -/
def Slave.AllOnSda (sl : Slave) (h : List BusAction) : List BusAction → Prop
  | [] => True
  | act :: acts => sl.OnSda h act ∧ sl.AllOnSda (h ++ [act]) acts

/-- The trace goes from `h` to `h'` by such actions. -/
def Slave.Extends (sl : Slave) (h h' : List BusAction) : Prop :=
  ∃ acts, h' = h ++ acts ∧ sl.AllOnSda h acts

-- ---------------------------------------------------------------------------
-- The pulses of a byte
-- ---------------------------------------------------------------------------

/-- Without a timeout the loop that sends sets the `n` low bits, the highest first. -/
theorem sendBits_eq {pulse : List Bool → Pulse} (hpulse : ∀ driven, pulse driven ≠ .timeout)
    (c : UInt8) (n : Nat) (driven : List Bool) :
    sendBits pulse c n driven =
      (0, driven ++ (List.range n).map fun j => c.toBitVec.getLsbD (n - 1 - j)) := by
  induction n generalizing driven with
  | zero => simp [sendBits]
  | succ i ih =>
    have hbit : ((c.toNat >>> i) &&& 1 != 0) = c.toBitVec.getLsbD i := by
      show _ = c.toNat.testBit i
      rw [Nat.and_comm]
      rfl
    unfold sendBits
    cases hp : pulse (driven ++ [(c.toNat >>> i) &&& 1 != 0]) with
    | timeout => exact absurd hp (hpulse _)
    | level sda =>
      simp only [hp]
      rw [ih, hbit, List.range_succ_eq_map, List.append_assoc]
      simp [Function.comp_def, Nat.sub_sub, Nat.add_comm]

/-- One turn of the loop that receives: the bits move up and the level comes in below. -/
theorem shiftIn_getLsbD (out : UInt8) (b : Bool) {j : Nat} (hj : j < 8) :
    (out * 2 ||| if b then 0x01 else 0).toBitVec.getLsbD j =
      if j = 0 then b else out.toBitVec.getLsbD (j - 1) := by
  have hmul : (out * 2).toBitVec = out.toBitVec <<< 1 := by
    rw [BitVec.shiftLeft_eq_mul_twoPow]
    rfl
  rw [UInt8.toBitVec_or, hmul, BitVec.getLsbD_or, BitVec.getLsbD_shiftLeft]
  cases j with
  | zero => cases b <;> simp
  | succ j => cases b <;> simp [hj]

/-- After `n` levels the last one is the lowest bit, and what was in `*out` stands above
them. -/
theorem recvBits_eq {pulse : Nat → Pulse} {level : Nat → Bool}
    (hpulse : ∀ i, pulse i = .level (level i)) (n i : Nat) (out : UInt8) :
    ∃ c, recvBits pulse (List.range' i n) out = (0, c) ∧ ∀ j < 8, c.toBitVec.getLsbD j =
      if j < n then level (i + n - 1 - j) else out.toBitVec.getLsbD (j - n) := by
  induction n generalizing i out with
  | zero => exact ⟨out, rfl, fun j _ => by simp⟩
  | succ n ih =>
    obtain ⟨c, hc, hbits⟩ := ih (i + 1) (out * 2 ||| if level i then 0x01 else 0)
    refine ⟨c, ?_, fun j hj => ?_⟩
    · rw [List.range'_succ]
      unfold recvBits
      simp only [hpulse i]
      exact hc
    · rw [hbits j hj]
      by_cases hlt : j < n
      · rw [if_pos hlt, if_pos (by omega)]
        congr 1
        omega
      · rw [if_neg hlt, shiftIn_getLsbD _ _ (by omega)]
        by_cases heq : j = n
        · rw [if_pos (by omega), if_pos (by omega)]
          congr 1
          omega
        · rw [if_neg (by omega), if_neg (by omega), Nat.sub_sub]

namespace Slave

variable {sl : Slave} {h h' h'' acts : List BusAction}

theorem Responsive.sendBits (hsl : sl.Responsive) (h : List BusAction) (c : UInt8) :
    I2c.sendBits (sl.onSend h) c 8 [] = (0, msbFirst c) := by
  rw [sendBits_eq (hsl.sends h), List.nil_append]
  refine congrArg (Prod.mk 0) (List.map_congr_left fun j hj => ?_)
  rw [BitVec.getMsbD, decide_eq_true (List.mem_range.mp hj), Bool.true_and]

theorem Responsive.sendByte (hsl : sl.Responsive) (h : List BusAction) (c : UInt8) :
    sl.sendByte h c = 0 := by
  unfold Slave.sendByte
  rw [hsl.sendBits]
  simp only
  rw [hsl.acks h _ rfl]
  rfl

theorem Responsive.not_nak (hsl : sl.Responsive) (h : List BusAction) (c : UInt8) :
    ¬sl.sendByte h c < 0 := by
  rw [hsl.sendByte]
  decide

theorem Responsive.recvByte (hsl : sl.Responsive) (h : List BusAction) :
    sl.OnSda h (.recv (sl.recvByte h).2) := by
  have hlevel : ∀ i, ∃ b, sl.onRecv h i = .level b := by
    intro i
    cases hp : sl.onRecv h i with
    | timeout => exact absurd hp (hsl.receives h i)
    | level sda => exact ⟨sda, rfl⟩
  choose level hlevel using hlevel
  obtain ⟨c, hc, hbits⟩ := recvBits_eq hlevel 8 0 0
  have hrecv : (sl.recvByte h).2 = c := by
    unfold Slave.recvByte
    rw [List.range_eq_range', hc]
  intro j hj
  rw [hrecv, hlevel j, BitVec.getMsbD, hbits _ (by omega), if_pos (by omega)]
  congr 1
  rw [decide_eq_true hj, Bool.true_and]
  congr 1
  omega

-- ---------------------------------------------------------------------------
-- The trace
-- ---------------------------------------------------------------------------

theorem allOnSda_append {acts' : List BusAction} (ha : sl.AllOnSda h acts)
    (ha' : sl.AllOnSda (h ++ acts) acts') : sl.AllOnSda h (acts ++ acts') := by
  induction acts generalizing h with
  | nil => rwa [List.append_nil] at ha'
  | cons act acts ih =>
    refine ⟨ha.1, ih ha.2 ?_⟩
    rwa [List.append_assoc]

theorem extends_refl (sl : Slave) (h : List BusAction) : sl.Extends h h :=
  ⟨[], (List.append_nil h).symm, trivial⟩

theorem extends_one {act : BusAction} (ha : sl.OnSda h act) : sl.Extends h (h ++ [act]) :=
  ⟨[act], rfl, ha, trivial⟩

theorem Extends.trans (he : sl.Extends h h') (he' : sl.Extends h' h'') : sl.Extends h h'' := by
  obtain ⟨acts, rfl, ha⟩ := he
  obtain ⟨acts', rfl, ha'⟩ := he'
  exact ⟨acts ++ acts', List.append_assoc .., allOnSda_append ha ha'⟩

end Slave

-- ---------------------------------------------------------------------------
-- One call, one loop, one step
-- ---------------------------------------------------------------------------

namespace I2cData

open Slave

variable {w : Nat} {sl : Slave} {s : I2cData}

/-- An end adds the STOP to the actions before it. -/
theorem ended_extends {acts : List BusAction} (s : I2cData) (st : UInt8)
    (ha : sl.AllOnSda s.trace acts) : sl.Extends s.trace (s.ended acts st).trace := by
  have hstop : sl.AllOnSda (s.trace ++ acts) [.stop] := ⟨trivial, trivial⟩
  have htrace : (s.ended acts st).trace = s.trace ++ acts ++ [.stop] := rfl
  exact ⟨acts ++ [.stop], htrace.trans (List.append_assoc ..), allOnSda_append ha hstop⟩

/-- A byte received and answered. -/
theorem received_extends (hsl : sl.Responsive) : sl.Extends s.trace (s.received w sl).trace :=
  ⟨_, rfl, hsl.recvByte s.trace, trivial, trivial⟩

theorem GoStep.extends {r : Bool × I2cData} (hsl : sl.Responsive) (h : GoStep w sl s r) :
    sl.Extends s.trace r.2.trace := by
  have hbyte : ∀ c, sl.OnSda s.trace (.byte c) :=
    fun c => ⟨hsl.sendBits s.trace c, hsl.sendByte s.trace c⟩
  have hone : ∀ {act}, sl.OnSda s.trace act → sl.AllOnSda s.trace [act] := fun h => ⟨h, trivial⟩
  have hnone : sl.AllOnSda s.trace [] := trivial
  have hsent : sl.Extends s.trace s.sent.trace := extends_one (hbyte _)
  have hreceived : sl.Extends s.trace (s.received w sl).trace := received_extends hsl
  cases h with
  | start => exact extends_one trivial
  | addrNak => exact ended_extends s _ (hone (hbyte _))
  | addrAck => exact extends_one (hbyte _)
  | noOutput => exact extends_refl sl _
  | output => exact extends_refl sl _
  | dataNak => exact ended_extends { s with obufTail := s.obufHead } _ (hone (hbyte _))
  | dataDone => exact hsent
  | dataMore => exact hsent
  | dataAwait =>
    obtain ⟨st, q, hlow, -⟩ := lowWatermark_eq w s.sent
    rw [hlow]
    exact hsent
  | noInput => exact ended_extends s _ hnone
  | readOnly => exact extends_refl sl _
  | repStart => exact extends_one trivial
  | addr2Nak => exact ended_extends s _ (hone (hbyte _))
  | addr2Ack => exact extends_one (hbyte _)
  | input => exact extends_refl sl _
  | invalidLen =>
    exact ended_extends { s with buffer := blit s.buffer s.ibufHead [s.incoming sl] } _
      (hone (hsl.recvByte s.trace))
  | recvDone => exact hreceived
  | recvMore =>
    obtain ⟨st, q, hhigh, -⟩ := highWatermark_eq (s.received w sl)
    rw [hhigh]
    exact hreceived
  | recvAwait => exact hreceived
  | finish => exact ended_extends s _ hnone
  | ignore => exact extends_refl sl _

/-- The whole loop, by `goAll_rule`. -/
theorem goAll_extends (hsl : sl.Responsive) (s : I2cData) :
    sl.Extends s.trace (s.goAll w sl).trace := by
  refine goAll_rule w sl (P := fun s t => sl.Extends s.trace t.trace) ?_ ?_ s
  · exact fun s _ => (handleGo_step w sl s).extends hsl
  · exact fun s t _ ih => ((handleGo_step w sl s).extends hsl).trans ih

/-- The host's accesses put nothing on the bus. -/
theorem host_trace {op : Op} (hop : op ≠ .deliver) : (s.step w sl op).trace = s.trace := by
  cases op with
  | obufWr inp fill =>
    rw [step_obufWr]
    split
    · rfl
    · rcases resumeOutput_cases w (s.putOutput (offered inp fill)) with h | ⟨-, -, h⟩
      · rw [h]
        rfl
      · rw [h]
        rfl
  | ibufRd fill =>
    rw [step_ibufRd]
    split
    · rfl
    · rcases resumeInput_cases { s with ibufTail := mask (s.ibufTail + accessSize fill) } with
        h | ⟨-, h⟩
      · rw [h]
      · rw [h]
  | regRd addr fill =>
    rw [step_regRd]
    split
    · obtain ⟨q, hq⟩ := s.readStatus_frame
      rw [hq]
    · rfl
  | regWr addr in0 in1 fill => rw [(step_regWr w sl s addr in0 in1 fill).eq]
  | deliver => exact absurd rfl hop

/-- **One step**: what it adds to the trace is on SDA as the trace says. -/
theorem step_extends (hsl : sl.Responsive) (s : I2cData) (op : Op) :
    sl.Extends s.trace (s.step w sl op).trace := by
  by_cases hop : op = .deliver
  · subst hop
    cases hq : s.queue with
    | nil =>
      rw [step_deliver_nil w sl hq]
      exact extends_refl sl _
    | cons e q =>
      rw [step_deliver_cons w sl hq]
      cases e with
      | i2cReset => exact extends_refl sl _
      | mcuioIrq active => exact extends_refl sl _
      | i2cGo => exact goAll_extends hsl { s with queue := q }
  · rw [host_trace hop]
    exact extends_refl sl _

end I2cData

end Bathos.I2c
