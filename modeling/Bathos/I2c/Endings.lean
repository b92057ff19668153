import Bathos.I2c.Engine

/-!
# Bathos — what an I2C transaction leaves in the output window

Bytes the host wrote and a transaction did not send must not be sent by the next
one. Two of the exits of `__i2c_handle_go` discard them: a data byte that is not
acknowledged, and the last data byte (the host writes dwords, so up to three
bytes may be in excess). The others rely on one of these two having been passed:
an address that is not acknowledged, a transaction without output and bytes
written while input is received leave the window as it is.

Main results:

* `GoStep.draining` / `goAll_draining` — one call, and the whole loop, end a
  transaction with an empty window if its bytes are bound to be sent;
* `ends_clean` — in every run in which a start that finds bytes in the window
  has output to send and a slave that answers, and in which the host writes
  nothing while input is received, every end finds the window empty.
-/

namespace Bathos.I2c

open Bathos.Lib

namespace I2cData

variable {w : Nat} {sl : Slave} {s : I2cData}

-- ---------------------------------------------------------------------------
-- Statement
-- ---------------------------------------------------------------------------

/-- How often `__i2c_bitbang_end_transaction` ran: it is what sends a STOP. -/
def stops (s : I2cData) : Nat := s.trace.count .stop

/-- If the step ends a transaction, nothing is left in the output window. -/
def EndsClean (w : Nat) (sl : Slave) (s : I2cData) (op : Op) : Prop :=
  s.stops < (s.step w sl op).stops → (s.step w sl op).obufTail = (s.step w sl op).obufHead

instance (w : Nat) (sl : Slave) (s : I2cData) (op : Op) : Decidable (s.EndsClean w sl op) :=
  inferInstanceAs (Decidable (_ → _))

/-- A transaction that starts now has nothing in the output window, or has output
to send and a slave that acknowledges the address. -/
def WillDrain (sl : Slave) (s : I2cData) : Prop :=
  s.obufTail = s.obufHead ∨
    (s.obufLen ≠ 0 ∧ ¬sl.sendByte (s.trace ++ [.start]) (s.addrByte s.forceRd) < 0)

/-- Transactions start that way, and no byte is accepted from the host once the
data have been sent. -/
def Drains (sl : Slave) (s : I2cData) : Op → Prop
  | .deliver => s.state = .idle → s.queue.head? = some .i2cGo → s.WillDrain sl
  | .obufWr _ fill =>
    s.state = .receivingData ∨ s.state = .awaitingInputSpace → s.obufSpace < accessSize fill
  | _ => True

-- ---------------------------------------------------------------------------
-- One call, one loop
-- ---------------------------------------------------------------------------

/-- During a delivery: what is in the window is bound to be sent or discarded
before the end. -/
def Draining (sl : Slave) (s : I2cData) : Prop :=
  match s.state with
  | .idle => s.WillDrain sl
  | .startSent => s.obufTail = s.obufHead ∨
      (s.obufLen ≠ 0 ∧ ¬sl.sendByte s.trace (s.addrByte s.forceRd) < 0)
  | .addrSent => s.obufTail = s.obufHead ∨ s.obufLen ≠ 0
  | .sendingData | .awaitingOutputData | .error => True
  | _ => s.obufTail = s.obufHead

/-- Between deliveries. -/
def Settled (s : I2cData) : Prop :=
  match s.state with
  | .idle | .sendingData | .awaitingOutputData | .error => True
  | .receivingData | .awaitingInputSpace => s.obufTail = s.obufHead
  | _ => False

/-- The end of a transaction with an empty window. -/
theorem ended_settled (acts : List BusAction) (st : UInt8) (h : s.obufTail = s.obufHead) (n : Nat) :
    (s.ended acts st).Settled ∧
      (n < (s.ended acts st).stops → (s.ended acts st).obufTail = (s.ended acts st).obufHead) := by
  refine ⟨?_, fun _ => h⟩
  unfold Settled ended
  by_cases hst : st ≠ TRANSACTION_OK
  · simp only [if_pos hst]
  · simp only [if_neg hst]

theorem GoStep.draining {r : Bool × I2cData} (h : GoStep w sl s r) (hd : s.Draining sl) :
    (r.1 = true → r.2.Draining sl ∧ r.2.stops = s.stops) ∧
      (r.1 = false → r.2.Settled ∧ (s.stops < r.2.stops → r.2.obufTail = r.2.obufHead)) := by
  unfold Draining at hd
  cases h with
  | start hst =>
    rw [hst] at hd
    refine ⟨fun _ => ⟨hd, ?_⟩, nofun⟩
    simp [stops]
  | addrNak hst hnak =>
    rw [hst] at hd
    have hempty : s.obufTail = s.obufHead := hd.resolve_right fun h => h.2 hnak
    exact ⟨nofun, fun _ => ended_settled _ _ hempty _⟩
  | addrAck hst hack =>
    rw [hst] at hd
    refine ⟨fun _ => ⟨hd.imp id And.left, ?_⟩, nofun⟩
    simp [stops]
  | noOutput hst hlen =>
    rw [hst] at hd
    exact ⟨fun _ => ⟨hd.resolve_right fun h => h hlen, rfl⟩, nofun⟩
  | output hst hlen => exact ⟨fun _ => ⟨trivial, rfl⟩, nofun⟩
  | dataNak hst hnak =>
    exact ⟨nofun, fun _ => ended_settled _ _ rfl _⟩
  | dataDone hst hack hdone =>
    refine ⟨fun _ => ⟨rfl, ?_⟩, nofun⟩
    simp [stops, sent]
  | dataMore hst hack hdone hcnt =>
    refine ⟨fun _ => ⟨trivial, ?_⟩, nofun⟩
    simp [stops, sent]
  | dataAwait hst hack hdone hcnt =>
    obtain ⟨st, q, hlow, -⟩ := lowWatermark_eq w s.sent
    rw [hlow]
    refine ⟨nofun, fun _ => ⟨trivial, fun hlt => absurd hlt ?_⟩⟩
    simp [stops, sent]
  | noInput hst hlen =>
    rw [hst] at hd
    exact ⟨nofun, fun _ => ended_settled _ _ hd _⟩
  | readOnly hst hlen hout =>
    rw [hst] at hd
    exact ⟨fun _ => ⟨hd, rfl⟩, nofun⟩
  | repStart hst hlen hout =>
    rw [hst] at hd
    refine ⟨fun _ => ⟨hd, ?_⟩, nofun⟩
    simp [stops]
  | addr2Nak hst hnak =>
    rw [hst] at hd
    exact ⟨nofun, fun _ => ended_settled _ _ hd _⟩
  | addr2Ack hst hack =>
    rw [hst] at hd
    refine ⟨fun _ => ⟨hd, ?_⟩, nofun⟩
    simp [stops]
  | input hst =>
    rw [hst] at hd
    exact ⟨fun _ => ⟨hd, rfl⟩, nofun⟩
  | invalidLen hst hsmbus hbig =>
    rw [hst] at hd
    have hempty : { s with buffer := blit s.buffer s.ibufHead [s.incoming sl] }.obufTail =
        s.obufHead := hd
    exact ⟨nofun, fun _ => ended_settled _ _ hempty _⟩
  | recvDone hst hlen hdone =>
    rw [hst] at hd
    refine ⟨fun _ => ⟨hd, ?_⟩, nofun⟩
    simp [stops, received]
  | recvMore hst hlen hdone hspace =>
    rw [hst] at hd
    obtain ⟨st, q, hhigh, -⟩ := highWatermark_eq (s.received w sl)
    rw [hhigh]
    refine ⟨fun _ => ⟨hd, ?_⟩, nofun⟩
    simp [stops, received]
  | recvAwait hst hlen hdone hspace =>
    rw [hst] at hd
    refine ⟨nofun, fun _ => ⟨hd, fun _ => hd⟩⟩
  | finish hst =>
    rw [hst] at hd
    exact ⟨nofun, fun _ => ended_settled _ _ hd _⟩
  | ignore hst =>
    refine ⟨nofun, fun _ => ⟨?_, fun hlt => absurd hlt (Nat.lt_irrefl _)⟩⟩
    unfold Settled
    rcases hst with hst | hst | hst
    · rw [hst]
      trivial
    · rw [hst] at hd ⊢
      exact hd
    · rw [hst]
      trivial

/-- The whole loop, by `goAll_rule`: a transaction ends in its last call. -/
theorem goAll_draining (hd : s.Draining sl) :
    (s.goAll w sl).Settled ∧
      (s.stops < (s.goAll w sl).stops → (s.goAll w sl).obufTail = (s.goAll w sl).obufHead) := by
  refine goAll_rule w sl
    (P := fun s t => s.Draining sl → t.Settled ∧ (s.stops < t.stops → t.obufTail = t.obufHead))
    ?_ ?_ s hd
  · intro s hlast hd
    exact ((handleGo_step w sl s).draining hd).2 hlast
  · intro s t hmore ih hd
    obtain ⟨hd', hstops⟩ := ((handleGo_step w sl s).draining hd).1 hmore
    obtain ⟨hset, hend⟩ := ih hd'
    exact ⟨hset, fun hlt => hend (hstops ▸ hlt)⟩

-- ---------------------------------------------------------------------------
-- One step, one run
-- ---------------------------------------------------------------------------

/-- A step that leaves the bus alone ends nothing. -/
theorem endsClean_of_trace {op : Op} (h : (s.step w sl op).trace = s.trace) : s.EndsClean w sl op := by
  intro hlt
  unfold stops at hlt
  rw [h] at hlt
  exact absurd hlt (Nat.lt_irrefl _)

theorem obufWr_settled {inp : Vector UInt8 8} {fill : Bool} (hs : s.Settled)
    (hc : s.Drains sl (.obufWr inp fill)) :
    (s.step w sl (.obufWr inp fill)).Settled ∧ s.EndsClean w sl (.obufWr inp fill) := by
  have hstep := step_obufWr w sl s inp fill
  by_cases hsp : s.obufSpace < accessSize fill
  · rw [if_pos hsp] at hstep
    exact ⟨by rwa [hstep], endsClean_of_trace (by rw [hstep])⟩
  · rw [if_neg hsp] at hstep
    -- an accepted byte finds no reception under way
    have hno : ¬(s.state = .receivingData ∨ s.state = .awaitingInputSpace) := fun h => hsp (hc h)
    have hput : (s.putOutput (offered inp fill)).Settled := by
      have hstate : (s.putOutput (offered inp fill)).state = s.state := rfl
      unfold Settled at hs ⊢
      rw [hstate]
      cases hst : s.state <;> simp_all
    rcases resumeOutput_cases w (s.putOutput (offered inp fill)) with h | ⟨-, -, h⟩
    · rw [h] at hstep
      exact ⟨by rwa [hstep], endsClean_of_trace (by rw [hstep]; rfl)⟩
    · rw [h] at hstep
      exact ⟨by rw [hstep]; trivial, endsClean_of_trace (by rw [hstep]; rfl)⟩

theorem ibufRd_settled {fill : Bool} (hs : s.Settled) :
    (s.step w sl (.ibufRd fill)).Settled ∧ s.EndsClean w sl (.ibufRd fill) := by
  have hstep := step_ibufRd w sl s fill
  by_cases hcnt : s.ibufCnt < accessSize fill
  · rw [if_pos hcnt] at hstep
    exact ⟨by rwa [hstep], endsClean_of_trace (by rw [hstep])⟩
  · rw [if_neg hcnt] at hstep
    rcases resumeInput_cases { s with ibufTail := mask (s.ibufTail + accessSize fill) } with
      h | ⟨hawait, h⟩
    · rw [h] at hstep
      exact ⟨by rw [hstep]; exact hs, endsClean_of_trace (by rw [hstep])⟩
    · rw [h] at hstep
      refine ⟨?_, endsClean_of_trace (by rw [hstep])⟩
      rw [hstep]
      unfold Settled at hs
      rw [show s.state = .awaitingInputSpace from hawait] at hs
      exact hs

theorem deliver_settled (hs : s.Settled) (hc : s.Drains sl .deliver) :
    (s.step w sl .deliver).Settled ∧ s.EndsClean w sl .deliver := by
  unfold EndsClean step
  simp only
  unfold deliver
  cases hq : s.queue with
  | nil => exact ⟨hs, fun hlt => absurd hlt (Nat.lt_irrefl _)⟩
  | cons e q =>
    cases e with
    | i2cReset => exact ⟨trivial, fun hlt => absurd hlt (Nat.lt_irrefl _)⟩
    | mcuioIrq active => exact ⟨hs, fun hlt => absurd hlt (Nat.lt_irrefl _)⟩
    | i2cGo =>
      refine goAll_draining (s := { s with queue := q }) ?_
      unfold Draining
      unfold Settled at hs
      simp only
      cases hst : s.state <;> simp only [hst] at hs ⊢
      case idle => exact hc hst (by rw [hq]; rfl)
      all_goals exact hs

theorem step_settled {op : Op} (hs : s.Settled) (hc : s.Drains sl op) :
    (s.step w sl op).Settled ∧ s.EndsClean w sl op := by
  cases op with
  | obufWr inp fill => exact obufWr_settled hs hc
  | ibufRd fill => exact ibufRd_settled hs
  | deliver => exact deliver_settled hs hc
  | regRd addr fill =>
    have hstep := step_regRd w sl s addr fill
    obtain ⟨q, hq⟩ := s.readStatus_frame
    rw [hq] at hstep
    split at hstep
    · exact ⟨by rw [hstep]; exact hs, endsClean_of_trace (by rw [hstep])⟩
    · exact ⟨by rwa [hstep], endsClean_of_trace (by rw [hstep])⟩
  | regWr addr in0 in1 fill =>
    have hstep := (step_regWr w sl s addr in0 in1 fill).eq
    exact ⟨by rw [hstep]; exact hs, endsClean_of_trace (by rw [hstep])⟩

/-- **Endings.** From an idle controller with any bytes in the output window, in
every run whose starts and output accesses are as `Drains` says, every end of a
transaction leaves the output window empty. -/
theorem ends_clean {ops : List Op} (hidle : s.state = .idle)
    (hrun : EachStep (step w sl) (Drains sl) s ops) :
    EachStep (step w sl) (EndsClean w sl) s ops := by
  have hs : s.Settled := by
    unfold Settled
    rw [hidle]
    trivial
  exact EachStep.mono (fun (s : I2cData) op (h : s.Settled) hc => (step_settled h hc).1)
    (fun s op h hc => (step_settled h hc).2) hs hrun

/-- One output byte for slave 0x40, which is not there. -/
def absentSlaveRun : List Op :=
  [.regWr I2C_MCUIO_XFER_DATA 0x140 0 false, .obufWr (oneByte 0x55) false,
    .regWr I2C_MCUIO_CMD 1 0 false, .deliver]

/-- The address is not acknowledged, and the byte stays in the window. -/
theorem unsent_byte_left :
    ¬∀ (w : Nat) (sl : Slave) (s : I2cData) (ops : List Op), s.state = .idle →
      EachStep (step w sl) (EndsClean w sl) s ops := by
  intro h
  have hrun := h 32 .absent .init absentSlaveRun rfl
  exact absurd hrun.2.2.2.1 (by decide +kernel)

/-- The same with a slave that answers. -/
theorem ends_clean_steady :
    EachStep (step 32 (.steady 0)) (EndsClean 32 (.steady 0)) .init absentSlaveRun := by
  refine ends_clean rfl ⟨trivial, ?_, trivial, ?_, trivial⟩
  · exact fun h => absurd h (by decide +kernel)
  · exact fun _ _ => .inr (by decide +kernel)

end I2cData

end Bathos.I2c
