import Bathos.I2c.Definitions
import Bathos.Include.CircBuf

/-!
# Bathos — the I2C engine, call by call

What each function of `I2c/Definitions.lean` does, in terms of the contents of
the two windows rather than of their indexes:

* `window_push`, `window_pop`, `window_take` — the three ways a window changes or
  is read;
* `obufWrb_accepted`, `ibufRdb_accepted` — the host's accesses;
* `goAll_eq` — the loop of the event handler satisfies the equation of
  `while (__i2c_handle_go());`: 263 calls are always enough;
* `go_comes_to_rest` — the call it ends with leaves the machine idle, failed or
  waiting for the host.
-/

namespace Bathos.I2c

open Bathos.Lib

-- ---------------------------------------------------------------------------
-- Windows of the buffer
-- ---------------------------------------------------------------------------

theorem isRingSize_bufSize : IsRingSize bufSize := ⟨7, by decide, rfl⟩

theorem mask_val (n : Nat) : (mask n : Nat) = n % bufSize := isRingSize_bufSize.and_mask n

/-- The bytes between `tail` and `head`, oldest first. -/
def window (mem : Nat → UInt8) (head tail : BufIdx) : List UInt8 :=
  ringSlice mem bufSize tail (circCnt head tail bufSize)

section Window

variable {mem : Nat → UInt8} {head tail : BufIdx}

@[simp] theorem window_length : (window mem head tail).length = circCnt head tail bufSize :=
  ringSlice_length _ _ _ _

theorem circIdx (head tail : BufIdx) : CircIdx head tail bufSize :=
  ⟨isRingSize_bufSize, head.isLt, tail.isLt⟩

theorem cnt_lt (head tail : BufIdx) : circCnt head tail bufSize < bufSize :=
  (circIdx head tail).cnt_lt

theorem head_eq (head tail : BufIdx) :
    (head : Nat) = (tail + circCnt head tail bufSize) % bufSize := (circIdx head tail).head_eq

theorem space_eq (head tail : BufIdx) :
    circSpace head tail bufSize = 127 - circCnt head tail bufSize := (circIdx head tail).space_eq

theorem spaceToEnd_eq (head tail : BufIdx) :
    circSpaceToEnd head tail bufSize = min (circSpace head tail bufSize) (bufSize - head) :=
  (circIdx head tail).spaceToEnd_eq

theorem cntToEnd_eq (head tail : BufIdx) :
    circCntToEnd head tail bufSize = min (circCnt head tail bufSize) (bufSize - tail) :=
  (circIdx head tail).cntToEnd_eq

@[simp] theorem cnt_self (i : BufIdx) : circCnt i i bufSize = 0 := by
  have hw := circCnt_window isRingSize_bufSize i.isLt (show 0 < bufSize by decide)
  rwa [Nat.add_zero, Nat.mod_eq_of_lt (show (i : Nat) < bufSize from i.isLt)] at hw

@[simp] theorem window_self (i : BufIdx) : window mem i i = [] := by
  rw [← List.length_eq_zero_iff, window_length, cnt_self]

theorem cnt_eq_zero_iff : circCnt head tail bufSize = 0 ↔ tail = head := by
  refine ⟨fun h => ?_, fun h => by rw [h, cnt_self]⟩
  have hhead := head_eq head tail
  rw [h, Nat.add_zero, Nat.mod_eq_of_lt (show (tail : Nat) < bufSize from tail.isLt)] at hhead
  exact Fin.ext hhead.symm

theorem window_eq_nil_iff : window mem head tail = [] ↔ tail = head := by
  rw [← List.length_eq_zero_iff, window_length, cnt_eq_zero_iff]

/-- Advancing the head within the free space. -/
theorem cnt_push {n : Nat} (hn : n ≤ circSpace head tail bufSize) :
    circCnt (mask (head + n)) tail bufSize = circCnt head tail bufSize + n :=
  (circIdx head tail).cnt_push hn

/-- Advancing the tail within the window. -/
theorem cnt_pop {n : Nat} (hn : n ≤ circCnt head tail bufSize) :
    circCnt head (mask (tail + n)) bufSize = circCnt head tail bufSize - n :=
  (circIdx head tail).cnt_pop hn

/-- A block copied at the head, up to the end of the buffer at most. -/
theorem window_push_block {src : List UInt8} (hn : src.length ≤ circSpace head tail bufSize)
    (hend : head + src.length ≤ bufSize) :
    window (blit mem head src) (mask (head + src.length)) tail = window mem head tail ++ src :=
  (circIdx head tail).window_push hn hend

/-- **Insertion.** A list copied at the head in two blocks, the second one at the
start of the buffer. -/
theorem window_push {src : List UInt8} (hn : src.length ≤ circSpace head tail bufSize) :
    window
        (blit (blit mem head (src.take (min src.length (bufSize - head)))) 0
          (src.drop (min src.length (bufSize - head))))
        (mask (head + src.length)) tail = window mem head tail ++ src := by
  have hhead : (head : Nat) < bufSize := head.isLt
  rcases Nat.le_total src.length (bufSize - head) with hfit | hwrap
  · rw [Nat.min_eq_left hfit, List.take_length, List.drop_length, blit_nil]
    exact window_push_block hn (by omega)
  · -- the first block ends at the end of the buffer: the head wraps to 0
    rw [Nat.min_eq_right hwrap]
    have hlen : (src.take (bufSize - head)).length = bufSize - head := by
      rw [List.length_take, Nat.min_eq_left hwrap]
    have hfirst : window (blit mem head (src.take (bufSize - head)))
        (mask (head + (src.take (bufSize - head)).length)) tail =
          window mem head tail ++ src.take (bufSize - head) :=
      window_push_block (by omega) (by omega)
    rw [hlen, Nat.add_sub_cancel' hhead.le] at hfirst
    have hzero : (mask bufSize : Nat) = 0 := rfl
    have hspace : circSpace (mask bufSize) tail bufSize = circSpace head tail bufSize -
        (bufSize - head) := by
      have hc : circCnt (mask (head + (bufSize - head))) tail bufSize =
          circCnt head tail bufSize + (bufSize - head) := cnt_push (by omega)
      rw [Nat.add_sub_cancel' hhead.le] at hc
      rw [space_eq, space_eq, hc]
      omega
    have hlen2 : (src.drop (bufSize - head)).length = src.length - (bufSize - head) :=
      List.length_drop
    have hsmall := hn
    rw [space_eq] at hsmall
    have hsecond : window
        (blit (blit mem head (src.take (bufSize - head))) (mask bufSize) (src.drop (bufSize - head)))
        (mask ((mask bufSize : Nat) + (src.drop (bufSize - head)).length)) tail =
          window (blit mem head (src.take (bufSize - head))) (mask bufSize) tail ++
            src.drop (bufSize - head) := by
      refine window_push_block ?_ ?_
      · rw [hspace, hlen2]
        omega
      · rw [hzero, hlen2]
        unfold bufSize at *
        omega
    rw [hfirst, hzero, hlen2, List.append_assoc, List.take_append_drop, Nat.zero_add] at hsecond
    rw [← hsecond]
    congr 1
    apply Fin.ext
    rw [mask_val, mask_val]
    rw [show (head : Nat) + src.length = src.length - (bufSize - head) + bufSize by omega,
      Nat.add_mod_right]

/-- One byte written at the head. -/
theorem window_push_one {c : UInt8} (hn : 1 ≤ circSpace head tail bufSize) :
    window (blit mem head [c]) (mask (head + 1)) tail = window mem head tail ++ [c] :=
  window_push_block hn (show (head : Nat) + 1 ≤ 128 from head.isLt)

/-- **Removal.** Advancing the tail drops the oldest bytes. -/
theorem window_pop {n : Nat} (hn : n ≤ circCnt head tail bufSize) :
    window mem head (mask (tail + n)) = (window mem head tail).drop n :=
  (circIdx head tail).window_pop hn

/-- The oldest byte of a window. -/
theorem window_cons (h : tail ≠ head) :
    window mem head tail = mem tail :: window mem head (mask (tail + 1)) :=
  (circIdx head tail).window_cons fun h0 => h (cnt_eq_zero_iff.mp h0)

/-- **Reading.** The oldest bytes, copied in two blocks. -/
theorem window_take {n : Nat} (hn : n ≤ circCnt head tail bufSize) :
    ((List.range (min n (bufSize - tail))).map fun i => mem (tail + i)) ++
        ((List.range (n - min n (bufSize - tail))).map fun i => mem i) =
      (window mem head tail).take n := by
  have htail : (tail : Nat) < bufSize := tail.isLt
  have hlt := cnt_lt head tail
  unfold window
  rw [ringSlice_take _ _ _ hn]
  rcases Nat.le_total n (bufSize - tail) with hfit | hwrap
  · rw [Nat.min_eq_left hfit, Nat.sub_self, List.range_zero, List.map_nil, List.append_nil,
      ringSlice_block mem (by omega)]
  · rw [Nat.min_eq_right hwrap]
    conv_rhs => rw [show n = bufSize - tail + (n - (bufSize - tail)) by omega, ringSlice_add]
    rw [ringSlice_block mem (by omega), Nat.add_sub_cancel' htail.le, Nat.mod_self,
      ringSlice_block mem (by unfold bufSize at *; omega)]
    simp only [Nat.zero_add]

/-- Cells written outside a window. -/
theorem window_frame {mem' : Nat → UInt8}
    (h : ∀ i < circCnt head tail bufSize,
      mem' ((tail + i) % bufSize) = mem ((tail + i) % bufSize)) :
    window mem' head tail = window mem head tail :=
  ringSlice_congr h

/-- The tail of an empty window moved on: the window seems full. -/
theorem cnt_pop_empty (i : BufIdx) : circCnt i (mask (i + 1)) bufSize = 127 := by
  have hi : (i : Nat) < bufSize := i.isLt
  have hhead : (i : Nat) = ((mask (i + 1) : Nat) + 127) % bufSize := by
    rw [mask_val, Nat.mod_add_mod, Nat.add_assoc, show 1 + 127 = bufSize from rfl,
      Nat.add_mod_right, Nat.mod_eq_of_lt hi]
  have hw := circCnt_window isRingSize_bufSize (mask (i + 1)).isLt (show 127 < bufSize by decide)
  rwa [← hhead] at hw

/-- The head of a full window moved on: the window seems empty. -/
theorem cnt_push_full (h : circSpace head tail bufSize = 0) :
    circCnt (mask (head + 1)) tail bufSize = 0 := by
  have hlt := cnt_lt head tail
  rw [space_eq] at h
  have hcnt : circCnt head tail bufSize = 127 := by
    unfold bufSize at *
    omega
  have hhead := head_eq head tail
  rw [hcnt] at hhead
  rw [cnt_eq_zero_iff]
  apply Fin.ext
  rw [mask_val, hhead, Nat.mod_add_mod, Nat.add_assoc, show 127 + 1 = bufSize from rfl,
    Nat.add_mod_right, Nat.mod_eq_of_lt (show (tail : Nat) < bufSize from tail.isLt)]

end Window

-- ---------------------------------------------------------------------------
-- The host's accesses
-- ---------------------------------------------------------------------------

namespace I2cData

variable {w : Nat} {sl : Slave} {s : I2cData}

/-- The bytes accepted from the host and still in the output window. -/
def obuf (s : I2cData) : List UInt8 := window s.buffer s.obufHead s.obufTail

/-- The received bytes the host has not read. -/
def ibuf (s : I2cData) : List UInt8 := window s.buffer s.ibufHead s.ibufTail

@[simp] theorem obuf_length (s : I2cData) : s.obuf.length = s.obufCnt := window_length

@[simp] theorem ibuf_length (s : I2cData) : s.ibuf.length = s.ibufCnt := window_length

theorem obuf_eq_nil_iff : s.obuf = [] ↔ s.obufTail = s.obufHead := window_eq_nil_iff

theorem obufSpace_eq (s : I2cData) : s.obufSpace = 127 - s.obufCnt := space_eq _ _

theorem ibufSpace_eq (s : I2cData) : s.ibufSpace = 127 - s.ibufCnt := space_eq _ _

theorem obufCnt_le (s : I2cData) : s.obufCnt ≤ 127 := Nat.le_of_lt_succ (cnt_lt _ _)

theorem ibufCnt_le (s : I2cData) : s.ibufCnt ≤ 127 := Nat.le_of_lt_succ (cnt_lt _ _)

/-- The bytes of an accepted write, in the buffer. -/
def putOutput (s : I2cData) (src : List UInt8) : I2cData :=
  { s with
    buffer := blit (blit s.buffer s.obufHead (src.take (min src.length (bufSize - s.obufHead)))) 0
      (src.drop (min src.length (bufSize - s.obufHead)))
    obufHead := mask (s.obufHead + src.length) }

/-- The end of a write: data were awaited and there are enough of them now. -/
def resumeOutput (w : Nat) (s : I2cData) : I2cData :=
  if s.state = .awaitingOutputData ∧ s.enoughOutput w = true then
    { s with state := .sendingData, queue := s.queue ++ [.i2cGo] }
  else s

/-- The end of a read: space was awaited. -/
def resumeInput (s : I2cData) : I2cData :=
  if s.state = .awaitingInputSpace then
    { s with state := .receivingData, queue := s.queue ++ [.i2cGo] }
  else s

/-- The bytes a write offers. -/
def offered (inp : Vector UInt8 8) (fill : Bool) : List UInt8 := inp.toList.take (accessSize fill)

theorem accessSize_pos (fill : Bool) : 1 ≤ accessSize fill := by cases fill <;> decide

theorem accessSize_le (fill : Bool) : accessSize fill ≤ 8 := by cases fill <;> decide

@[simp] theorem offered_length (inp : Vector UInt8 8) (fill : Bool) :
    (offered inp fill).length = accessSize fill := by
  have := accessSize_le fill
  simp only [offered, List.length_take, Vector.length_toList]
  omega

theorem obufWrb_refused {inp : Vector UInt8 8} {fill : Bool} (h : s.obufSpace < accessSize fill) :
    s.obufWrb w inp fill = (-EINVAL, s) := by
  unfold obufWrb
  exact if_pos h

theorem obufWrb_accepted (inp : Vector UInt8 8) {fill : Bool} (h : accessSize fill ≤ s.obufSpace) :
    (s.obufWrb w inp fill).2 = (s.putOutput (offered inp fill)).resumeOutput w := by
  have hend : min (accessSize fill) (circSpaceToEnd s.obufHead s.obufTail bufSize) =
      min (accessSize fill) (bufSize - s.obufHead) := by
    rw [spaceToEnd_eq]
    unfold obufSpace at h
    omega
  have hrest : (if accessSize fill - min (accessSize fill) (bufSize - s.obufHead) > 0 then
      min (accessSize fill - min (accessSize fill) (bufSize - s.obufHead))
        (s.obufSpace - min (accessSize fill) (bufSize - s.obufHead)) else 0) =
      accessSize fill - min (accessSize fill) (bufSize - s.obufHead) := by
    split <;> omega
  have htake : (inp.toList.take (accessSize fill)).take (min (accessSize fill) (bufSize - s.obufHead)) =
      inp.toList.take (min (accessSize fill) (bufSize - s.obufHead)) := by
    rw [List.take_take]
    congr 1
    omega
  have hsum : min (accessSize fill) (bufSize - s.obufHead) +
      (accessSize fill - min (accessSize fill) (bufSize - s.obufHead)) = accessSize fill := by omega
  unfold obufWrb putOutput resumeOutput
  simp only [if_neg (Nat.not_lt.mpr h), hend, hrest, hsum, offered_length]
  unfold offered
  rw [htake, List.drop_take]
  rfl

/-- A negative value says that nothing was accepted. -/
theorem obufWrb_neg_iff {inp : Vector UInt8 8} {fill : Bool} :
    (s.obufWrb w inp fill).1 < 0 ↔ s.obufSpace < accessSize fill := by
  unfold obufWrb
  simp only
  split
  · rename_i h
    exact ⟨fun _ => h, fun _ => (by decide : -EINVAL < 0)⟩
  · rename_i h
    exact ⟨fun hneg => absurd hneg (Int.not_lt.mpr (Int.natCast_nonneg _)), fun hlt => absurd hlt h⟩

theorem ibufRdb_refused {fill : Bool} (h : s.ibufCnt < accessSize fill) :
    s.ibufRdb fill = (-EINVAL, [], s) := by
  unfold ibufRdb
  exact if_pos h

theorem ibufRdb_accepted {fill : Bool} (h : accessSize fill ≤ s.ibufCnt) :
    (s.ibufRdb fill).2 = (s.ibuf.take (accessSize fill),
      { s with ibufTail := mask (s.ibufTail + accessSize fill) }.resumeInput) := by
  have hend : min (accessSize fill) (circCntToEnd s.ibufHead s.ibufTail bufSize) =
      min (accessSize fill) (bufSize - s.ibufTail) := by
    rw [cntToEnd_eq]
    unfold ibufCnt at h
    omega
  have hrest : (if accessSize fill - min (accessSize fill) (bufSize - s.ibufTail) > 0 then
      min (accessSize fill - min (accessSize fill) (bufSize - s.ibufTail))
        (s.ibufCnt - min (accessSize fill) (bufSize - s.ibufTail)) else 0) =
      accessSize fill - min (accessSize fill) (bufSize - s.ibufTail) := by
    split <;> omega
  have hsum : min (accessSize fill) (bufSize - s.ibufTail) +
      (accessSize fill - min (accessSize fill) (bufSize - s.ibufTail)) = accessSize fill := by omega
  unfold ibufRdb resumeInput
  simp only [if_neg (Nat.not_lt.mpr h), hend, hrest, hsum]
  unfold ibuf
  rw [window_take h]
  rfl

theorem putOutput_obuf {src : List UInt8} (h : src.length ≤ s.obufSpace) :
    (s.putOutput src).obuf = s.obuf ++ src := window_push h

theorem putOutput_obufCnt {src : List UInt8} (h : src.length ≤ s.obufSpace) :
    (s.putOutput src).obufCnt = s.obufCnt + src.length := cnt_push h

-- ---------------------------------------------------------------------------
-- One call of `__i2c_handle_go`
-- ---------------------------------------------------------------------------

/-- A transaction ended with status `st`, after the actions `acts`. -/
def ended (s : I2cData) (acts : List BusAction) (st : UInt8) : I2cData :=
  { s with
    trace := s.trace ++ acts ++ [.stop]
    status := st
    state := if st ≠ TRANSACTION_OK then .error else .idle
    queue := s.queue ++ [.mcuioIrq true] }

/-- `ibuf_len && !obuf_len`. -/
def forceRd (s : I2cData) : Bool := decide (s.ibufLen ≠ 0 ∧ s.obufLen = 0)

/-- A data byte sent and acknowledged. -/
def sent (s : I2cData) : I2cData :=
  { s with
    trace := s.trace ++ [.byte (s.buffer s.obufTail)]
    dataCnt := (s.dataCnt + 1) % 2 ^ 16
    obufTail := mask (s.obufTail + 1) }

/-- The low watermark interrupt, when bytes are still to come. -/
def lowWatermark (w : Nat) (s : I2cData) : I2cData :=
  if 0 < subInt w s.obufLen s.dataCnt then
    { s with status := OBUF_LO_WM_REACHED, queue := s.queue ++ [.mcuioIrq true] }
  else s

/-- `data_cnt` and `ibuf_len` after the reception of `c`. -/
def counters (w : Nat) (s : I2cData) (c : UInt8) : Nat × Int :=
  if eqInt w s.dataCnt (-1) = true then (1, c.toNat) else ((s.dataCnt + 1) % 2 ^ 16, s.ibufLen)

/-- The byte the slave sends next. -/
def incoming (sl : Slave) (s : I2cData) : UInt8 := (sl.recvByte s.trace).2

/-- A data byte received and answered. -/
def received (w : Nat) (sl : Slave) (s : I2cData) : I2cData :=
  { s with
    trace := s.trace ++ [.recv (s.incoming sl),
      .acknak (!eqInt w (s.counters w (s.incoming sl)).1 (s.counters w (s.incoming sl)).2)]
    buffer := blit s.buffer s.ibufHead [s.incoming sl]
    dataCnt := (s.counters w (s.incoming sl)).1
    ibufLen := (s.counters w (s.incoming sl)).2
    ibufHead := mask (s.ibufHead + 1) }

/-- The high watermark interrupt. -/
def highWatermark (s : I2cData) : I2cData :=
  if s.ibufSpace = IBUF_HI_WATERMARK then
    { s with status := IBUF_HI_WM_REACHED, queue := s.queue ++ [.mcuioIrq true] }
  else s

/-- The watermark interrupts touch the status and the queue only. -/
theorem lowWatermark_eq (w : Nat) (s : I2cData) :
    ∃ st q, s.lowWatermark w = { s with status := st, queue := s.queue ++ q } ∧
      ∀ e ∈ q, e = .mcuioIrq true := by
  unfold lowWatermark
  split
  · exact ⟨_, [.mcuioIrq true], rfl, by simp⟩
  · exact ⟨s.status, [], by simp⟩

@[inherit_doc lowWatermark_eq]
theorem highWatermark_eq (s : I2cData) :
    ∃ st q, s.highWatermark = { s with status := st, queue := s.queue ++ q } ∧
      ∀ e ∈ q, e = .mcuioIrq true := by
  unfold highWatermark
  split
  · exact ⟨_, [.mcuioIrq true], rfl, by simp⟩
  · exact ⟨s.status, [], by simp⟩

/-- Everything one call can do, branch by branch, with what each branch tests. -/
inductive GoStep (w : Nat) (sl : Slave) (s : I2cData) : Bool × I2cData → Prop where
  | start (hst : s.state = .idle) :
      GoStep w sl s (true, { s with trace := s.trace ++ [.start], state := .startSent })
  | addrNak (hst : s.state = .startSent)
      (hnak : sl.sendByte s.trace (s.addrByte s.forceRd) < 0) :
      GoStep w sl s (false, s.ended [.byte (s.addrByte s.forceRd)] NAK_RECEIVED)
  | addrAck (hst : s.state = .startSent)
      (hack : ¬sl.sendByte s.trace (s.addrByte s.forceRd) < 0) :
      GoStep w sl s (true,
        { s with trace := s.trace ++ [.byte (s.addrByte s.forceRd)], state := .addrSent })
  | noOutput (hst : s.state = .addrSent) (hlen : s.obufLen = 0) :
      GoStep w sl s (true, { s with state := .dataSent })
  | output (hst : s.state = .addrSent) (hlen : s.obufLen ≠ 0) :
      GoStep w sl s (true, { s with dataCnt := 0, state := .sendingData })
  | dataNak (hst : s.state = .sendingData)
      (hnak : sl.sendByte s.trace (s.buffer s.obufTail) < 0) :
      GoStep w sl s (false,
        { s with obufTail := s.obufHead }.ended [.byte (s.buffer s.obufTail)] NAK_RECEIVED)
  | dataDone (hst : s.state = .sendingData)
      (hack : ¬sl.sendByte s.trace (s.buffer s.obufTail) < 0)
      (hdone : s.sent.dataCnt = s.obufLen) :
      GoStep w sl s (true, { s.sent with obufTail := s.obufHead, state := .dataSent })
  | dataMore (hst : s.state = .sendingData)
      (hack : ¬sl.sendByte s.trace (s.buffer s.obufTail) < 0)
      (hdone : s.sent.dataCnt ≠ s.obufLen) (hcnt : s.sent.obufCnt ≠ 0) :
      GoStep w sl s (true, { s.sent with state := .sendingData })
  | dataAwait (hst : s.state = .sendingData)
      (hack : ¬sl.sendByte s.trace (s.buffer s.obufTail) < 0)
      (hdone : s.sent.dataCnt ≠ s.obufLen) (hcnt : s.sent.obufCnt = 0) :
      GoStep w sl s (false, { s.sent.lowWatermark w with state := .awaitingOutputData })
  | noInput (hst : s.state = .dataSent) (hlen : s.ibufLen = 0) :
      GoStep w sl s (false, s.ended [] TRANSACTION_OK)
  | readOnly (hst : s.state = .dataSent) (hlen : s.ibufLen ≠ 0) (hout : s.obufLen = 0) :
      GoStep w sl s (true, { s with state := .receivingData, dataCnt := 0 })
  | repStart (hst : s.state = .dataSent) (hlen : s.ibufLen ≠ 0) (hout : s.obufLen ≠ 0) :
      GoStep w sl s (true,
        { s with trace := s.trace ++ [.repStart], state := .repeatedStartSent, dataCnt := 0 })
  | addr2Nak (hst : s.state = .repeatedStartSent)
      (hnak : sl.sendByte s.trace (s.addrByte true) < 0) :
      GoStep w sl s (false, s.ended [.byte (s.addrByte true)] NAK_RECEIVED)
  | addr2Ack (hst : s.state = .repeatedStartSent)
      (hack : ¬sl.sendByte s.trace (s.addrByte true) < 0) :
      GoStep w sl s (true,
        { s with trace := s.trace ++ [.byte (s.addrByte true)], state := .addrSent2 })
  | input (hst : s.state = .addrSent2) :
      GoStep w sl s (true,
        { s with dataCnt := if s.ibufLen = -1 then 2 ^ 16 - 1 else 0, state := .receivingData })
  | invalidLen (hst : s.state = .receivingData) (hsmbus : eqInt w s.dataCnt (-1) = true)
      (hbig : (s.incoming sl).toNat > s.ibufSpace) :
      GoStep w sl s (false,
        { s with buffer := blit s.buffer s.ibufHead [s.incoming sl] }.ended
          [.recv (s.incoming sl)] INVALID_LEN)
  | recvDone (hst : s.state = .receivingData)
      (hlen : ¬(eqInt w s.dataCnt (-1) = true ∧ (s.incoming sl).toNat > s.ibufSpace))
      (hdone : eqInt w (s.received w sl).dataCnt (s.received w sl).ibufLen = true) :
      GoStep w sl s (true, { s.received w sl with state := .dataReceived })
  | recvMore (hst : s.state = .receivingData)
      (hlen : ¬(eqInt w s.dataCnt (-1) = true ∧ (s.incoming sl).toNat > s.ibufSpace))
      (hdone : eqInt w (s.received w sl).dataCnt (s.received w sl).ibufLen = false)
      (hspace : (s.received w sl).ibufSpace ≠ 0) :
      GoStep w sl s (true, { (s.received w sl).highWatermark with state := .receivingData })
  | recvAwait (hst : s.state = .receivingData)
      (hlen : ¬(eqInt w s.dataCnt (-1) = true ∧ (s.incoming sl).toNat > s.ibufSpace))
      (hdone : eqInt w (s.received w sl).dataCnt (s.received w sl).ibufLen = false)
      (hspace : (s.received w sl).ibufSpace = 0) :
      GoStep w sl s (false, { s.received w sl with state := .awaitingInputSpace })
  | finish (hst : s.state = .dataReceived) :
      GoStep w sl s (false, s.ended [] TRANSACTION_OK)
  | ignore (hst : s.state = .awaitingOutputData ∨ s.state = .awaitingInputSpace ∨
        s.state = .error) :
      GoStep w sl s (false, s)

theorem endTransaction_eq (s : I2cData) (st : UInt8) :
    s.endTransaction st = s.ended [] st := by
  unfold ended
  rw [List.append_nil]
  rfl

/-- The end of `case SENDING_DATA`: the watermark is reached exactly when nothing
is left in the window. -/
theorem sending_rest (w : Nat) (s : I2cData) :
    (if s.obufCnt = OBUF_LOW_WATERMARK ∧ (s.obufCnt : Int) < subInt w s.obufLen s.dataCnt then
        { s with status := OBUF_LO_WM_REACHED }.triggerIrq
      else s).nextState (if s.obufCnt ≠ 0 then .sendingData else .awaitingOutputData) =
    if s.obufCnt = 0 then (false, { s.lowWatermark w with state := .awaitingOutputData })
    else (true, { s with state := .sendingData }) := by
  by_cases hcnt : s.obufCnt = 0
  · simp only [hcnt, OBUF_LOW_WATERMARK, true_and, Int.natCast_zero, if_true, ne_eq,
      not_true_eq_false, if_false]
    rfl
  · simp only [hcnt, OBUF_LOW_WATERMARK, false_and, if_false, ne_eq, not_false_eq_true, if_true]
    rfl

/-- The end of `case RECEIVING_DATA`; a window without space is not at the high
watermark. -/
theorem receiving_rest (s : I2cData) :
    (if s.ibufSpace = IBUF_HI_WATERMARK then
        { s with status := IBUF_HI_WM_REACHED }.triggerIrq
      else s).nextState (if s.ibufSpace ≠ 0 then .receivingData else .awaitingInputSpace) =
    if s.ibufSpace = 0 then (false, { s with state := .awaitingInputSpace })
    else (true, { s.highWatermark with state := .receivingData }) := by
  by_cases hspace : s.ibufSpace = 0
  · have hwm : s.ibufSpace ≠ IBUF_HI_WATERMARK := by
      rw [hspace]
      decide
    simp only [hspace, if_true, ne_eq, not_true_eq_false, if_false]
    rw [if_neg (by rwa [hspace] at hwm)]
    rfl
  · simp only [hspace, ne_eq, not_false_eq_true, if_true, if_false]
    rfl

theorem goSending_step (hst : s.state = .sendingData) : GoStep w sl s (s.goSending w sl) := by
  unfold goSending
  by_cases hnak : sl.sendByte s.trace (s.buffer s.obufTail) < 0
  · simp only [if_pos hnak]
    exact .dataNak hst hnak
  · simp only [if_neg hnak]
    by_cases hdone : s.sent.dataCnt = s.obufLen
    · rw [if_pos (by exact hdone)]
      exact .dataDone hst hnak hdone
    · rw [if_neg (by exact hdone)]
      have hrest := sending_rest w s.sent
      by_cases hcnt : s.sent.obufCnt = 0
      · rw [if_pos hcnt] at hrest
        have h := GoStep.dataAwait (w := w) hst hnak hdone hcnt
        rw [← hrest] at h
        exact h
      · rw [if_neg hcnt] at hrest
        have h := GoStep.dataMore (w := w) hst hnak hdone hcnt
        rw [← hrest] at h
        exact h

/-- A reception, with its data put together. -/
theorem goReceiving_eq (w : Nat) (sl : Slave) (s : I2cData) :
    s.goReceiving w sl =
      if eqInt w s.dataCnt (-1) = true ∧ (s.incoming sl).toNat > s.ibufSpace then
        (false, { s with buffer := blit s.buffer s.ibufHead [s.incoming sl] }.ended
          [.recv (s.incoming sl)] INVALID_LEN)
      else if eqInt w (s.received w sl).dataCnt (s.received w sl).ibufLen = true then
        (s.received w sl).nextState .dataReceived
      else if (s.received w sl).ibufSpace = 0 then
        (false, { s.received w sl with state := .awaitingInputSpace })
      else (true, { (s.received w sl).highWatermark with state := .receivingData }) := by
  rw [← receiving_rest]
  unfold goReceiving received counters bus
  by_cases hsmbus : eqInt w s.dataCnt (-1) = true
  · simp only [hsmbus, if_true, List.append_assoc, List.cons_append, List.nil_append]
    rfl
  · simp only [hsmbus, Bool.false_eq_true, false_and, if_false, List.append_assoc, List.cons_append,
      List.nil_append]
    rfl

theorem goReceiving_step (hst : s.state = .receivingData) : GoStep w sl s (s.goReceiving w sl) := by
  rw [goReceiving_eq]
  split
  · rename_i hbig
    exact .invalidLen hst hbig.1 hbig.2
  · rename_i hlen
    split
    · rename_i hdone
      exact .recvDone hst hlen hdone
    · rename_i hdone
      rw [Bool.not_eq_true] at hdone
      split
      · rename_i hspace
        exact .recvAwait hst hlen hdone hspace
      · rename_i hspace
        exact .recvMore hst hlen hdone hspace

theorem goDataSent_step (hst : s.state = .dataSent) : GoStep w sl s s.goDataSent := by
  unfold goDataSent
  split
  · rename_i hlen
    rw [endTransaction_eq]
    exact .noInput hst hlen
  · rename_i hlen
    by_cases hout : s.obufLen = 0
    · simp only [if_pos hout]
      exact .readOnly hst hlen hout
    · simp only [if_neg hout]
      exact .repStart hst hlen hout

/-- **Inversion.** Every call is one of the branches of `GoStep`. -/
theorem handleGo_step (w : Nat) (sl : Slave) (s : I2cData) : GoStep w sl s (s.handleGo w sl) := by
  unfold handleGo
  cases hst : s.state with
  | idle => exact .start hst
  | startSent =>
    show GoStep w sl s (if sl.sendByte s.trace (s.addrByte s.forceRd) < 0 then
        (false, s.ended [.byte (s.addrByte s.forceRd)] NAK_RECEIVED)
      else (s.bus (.byte (s.addrByte s.forceRd))).nextState .addrSent)
    split
    · rename_i hnak
      exact .addrNak hst hnak
    · rename_i hack
      exact .addrAck hst hack
  | addrSent =>
    by_cases hlen : s.obufLen = 0
    · simp only [if_pos hlen]
      exact .noOutput hst hlen
    · simp only [if_neg hlen]
      exact .output hst hlen
  | sendingData => exact goSending_step hst
  | awaitingOutputData => exact .ignore (.inl hst)
  | dataSent => exact goDataSent_step hst
  | repeatedStartSent =>
    show GoStep w sl s (if sl.sendByte s.trace (s.addrByte true) < 0 then
        (false, s.ended [.byte (s.addrByte true)] NAK_RECEIVED)
      else (s.bus (.byte (s.addrByte true))).nextState .addrSent2)
    split
    · rename_i hnak
      exact .addr2Nak hst hnak
    · rename_i hack
      exact .addr2Ack hst hack
  | addrSent2 => exact .input hst
  | receivingData => exact goReceiving_step hst
  | awaitingInputSpace => exact .ignore (.inr (.inl hst))
  | dataReceived =>
    simp only [endTransaction_eq]
    exact .finish hst
  | error => exact .ignore (.inr (.inr hst))

-- ---------------------------------------------------------------------------
-- The loop
-- ---------------------------------------------------------------------------

/-- A bound on the calls until one returns 0. A window that is entered empty (or
full) looks full (or empty) after one byte, so it takes one turn of the buffer
at most. -/
def callsLeft (s : I2cData) : Nat :=
  match s.state with
  | .idle => 263
  | .startSent => 262
  | .addrSent => 261
  | .sendingData => 132 + if s.obufCnt = 0 then 128 else s.obufCnt
  | .dataSent => 132
  | .repeatedStartSent => 131
  | .addrSent2 => 130
  | .receivingData => 1 + if s.ibufSpace = 0 then 128 else s.ibufSpace
  | .dataReceived | .awaitingOutputData | .awaitingInputSpace | .error => 1

theorem callsLeft_le (s : I2cData) : callsLeft s ≤ 263 := by
  have ho := s.obufCnt_le
  have hi := s.ibufSpace_eq
  unfold callsLeft
  cases s.state <;> simp only <;> first | omega | (split <;> omega)

theorem callsLeft_pos (s : I2cData) : 0 < callsLeft s := by
  unfold callsLeft
  cases s.state <;> simp only <;> omega

/-- Sending a byte moves the tail by one cell; what is left shrinks, unless there
was nothing. -/
theorem sent_obufCnt (s : I2cData) :
    s.sent.obufCnt = if s.obufCnt = 0 then 127 else s.obufCnt - 1 := by
  split
  · rename_i h0
    have htail : s.obufTail = s.obufHead := cnt_eq_zero_iff.mp h0
    unfold sent obufCnt
    simp only [htail]
    exact cnt_pop_empty s.obufHead
  · rename_i h0
    exact cnt_pop (Nat.one_le_iff_ne_zero.mpr h0)

/-- Receiving a byte moves the head by one cell; the space shrinks, unless there
was none. -/
theorem received_ibufSpace (w : Nat) (sl : Slave) (s : I2cData) :
    (s.received w sl).ibufSpace = if s.ibufSpace = 0 then 127 else s.ibufSpace - 1 := by
  have hcnt : (s.received w sl).ibufCnt = circCnt (mask (s.ibufHead + 1)) s.ibufTail bufSize := rfl
  rw [ibufSpace_eq, hcnt]
  split
  · rename_i h0
    rw [cnt_push_full h0]
  · rename_i h0
    rw [cnt_push (Nat.one_le_iff_ne_zero.mpr h0)]
    rw [ibufSpace_eq]
    unfold ibufCnt
    omega

/-- Each call that asks for another one leaves less to do. -/
theorem handleGo_callsLeft (hmore : (s.handleGo w sl).1 = true) :
    callsLeft (s.handleGo w sl).2 < callsLeft s := by
  have ho := s.obufCnt_le
  have hi := s.ibufSpace_eq
  have hsent := s.sent_obufCnt
  have hrecv := s.received_ibufSpace w sl
  generalize hr : s.handleGo w sl = r at hmore ⊢
  have hstep := handleGo_step w sl s
  rw [hr] at hstep
  cases hstep with
  | start hst => simp [callsLeft, hst]
  | addrAck hst _ => simp [callsLeft, hst]
  | noOutput hst _ => simp [callsLeft, hst]
  | output hst _ =>
    simp only [callsLeft, hst]
    show 132 + (if s.obufCnt = 0 then 128 else s.obufCnt) < 261
    split <;> omega
  | dataDone hst _ _ =>
    simp only [callsLeft, hst]
    split <;> omega
  | dataMore hst _ _ hcnt =>
    simp only [callsLeft, hst]
    show 132 + (if s.sent.obufCnt = 0 then 128 else s.sent.obufCnt) < _
    rw [if_neg hcnt, hsent]
    split <;> omega
  | readOnly hst _ _ =>
    simp only [callsLeft, hst]
    show 1 + (if s.ibufSpace = 0 then 128 else s.ibufSpace) < 132
    split <;> omega
  | repStart hst _ _ => simp [callsLeft, hst]
  | addr2Ack hst _ => simp [callsLeft, hst]
  | input hst =>
    simp only [callsLeft, hst]
    show 1 + (if s.ibufSpace = 0 then 128 else s.ibufSpace) < 130
    split <;> omega
  | recvDone hst _ _ =>
    simp only [callsLeft, hst]
    split <;> omega
  | recvMore hst _ _ hspace =>
    obtain ⟨st, q, hhigh, -⟩ := highWatermark_eq (s.received w sl)
    rw [hhigh]
    simp only [callsLeft, hst]
    show 1 + (if (s.received w sl).ibufSpace = 0 then 128 else (s.received w sl).ibufSpace) < _
    rw [if_neg hspace, hrecv]
    split <;> omega
  | _ => cases hmore

theorem goLoop_fuel : ∀ {f g : Nat} {s : I2cData}, callsLeft s ≤ f → callsLeft s ≤ g →
    goLoop w sl f s = goLoop w sl g s := by
  intro f
  induction f with
  | zero =>
    intro g s hf _
    have := callsLeft_pos s
    omega
  | succ f ih =>
    intro g s hf hg
    have hpos := callsLeft_pos s
    obtain ⟨g, rfl⟩ : ∃ k, g = k + 1 := ⟨g - 1, by omega⟩
    unfold goLoop
    by_cases hmore : (s.handleGo w sl).1 = true
    · have hlt := handleGo_callsLeft hmore
      simp only [hmore, if_true]
      exact ih (by omega) (by omega)
    · simp only [hmore, Bool.false_eq_true, if_false]

/-- **The loop ends.** `goAll` satisfies the equation of
`while (__i2c_handle_go());`. -/
theorem goAll_eq (w : Nat) (sl : Slave) (s : I2cData) :
    s.goAll w sl =
      if (s.handleGo w sl).1 then (s.handleGo w sl).2.goAll w sl else (s.handleGo w sl).2 := by
  have hunfold : s.goAll w sl =
      if (s.handleGo w sl).1 then goLoop w sl 262 (s.handleGo w sl).2 else (s.handleGo w sl).2 := rfl
  rw [hunfold]
  by_cases hmore : (s.handleGo w sl).1 = true
  · have hlt := handleGo_callsLeft hmore
    have hle := callsLeft_le s
    rw [if_pos hmore, if_pos hmore]
    exact goLoop_fuel (by omega) (callsLeft_le _)
  · rw [if_neg hmore, if_neg hmore]

/-- The rule for the loop: what holds of its last call, and is passed back from
each call to the one before it, holds of the whole loop. -/
theorem goAll_rule (w : Nat) (sl : Slave) {P : I2cData → I2cData → Prop}
    (hlast : ∀ s, (s.handleGo w sl).1 = false → P s (s.handleGo w sl).2)
    (hmore : ∀ s t, (s.handleGo w sl).1 = true → P (s.handleGo w sl).2 t → P s t) (s : I2cData) :
    P s (s.goAll w sl) := by
  induction hn : callsLeft s using Nat.strong_induction_on generalizing s with
  | _ n ih =>
    rw [goAll_eq]
    by_cases h : (s.handleGo w sl).1 = true
    · rw [if_pos h]
      refine hmore s _ h (ih _ ?_ _ rfl)
      rw [← hn]
      exact handleGo_callsLeft h
    · rw [if_neg h]
      exact hlast s (Bool.not_eq_true _ ▸ h)

/-- The states the loop can stop in. -/
def Resting (s : I2cData) : Prop :=
  s.state = .idle ∨ s.state = .awaitingOutputData ∨ s.state = .awaitingInputSpace ∨
    s.state = .error

theorem ended_resting (s : I2cData) (acts : List BusAction) (st : UInt8) :
    (s.ended acts st).Resting := by
  by_cases h : st ≠ TRANSACTION_OK
  · exact .inr (.inr (.inr (if_pos h)))
  · exact .inl (if_neg h)

/-- A call queues nothing but interrupts. -/
theorem GoStep.queue {r : Bool × I2cData} (h : GoStep w sl s r) :
    ∃ q, r.2.queue = s.queue ++ q ∧ ∀ e ∈ q, e = .mcuioIrq true := by
  cases h with
  | addrNak | dataNak | noInput | addr2Nak | invalidLen | finish =>
    exact ⟨[.mcuioIrq true], rfl, by simp⟩
  | dataAwait =>
    obtain ⟨st, q, hlow, hirq⟩ := lowWatermark_eq w s.sent
    rw [hlow]
    exact ⟨q, rfl, hirq⟩
  | recvMore =>
    obtain ⟨st, q, hhigh, hirq⟩ := highWatermark_eq (s.received w sl)
    rw [hhigh]
    exact ⟨q, rfl, hirq⟩
  | _ => exact ⟨[], (List.append_nil _).symm, by simp⟩

/-- The call that ends the loop leaves the machine at rest. -/
theorem GoStep.resting {r : Bool × I2cData} (h : GoStep w sl s r) (hlast : r.1 = false) :
    r.2.Resting := by
  cases h with
  | addrNak | dataNak | noInput | addr2Nak | invalidLen | finish => exact ended_resting _ _ _
  | dataAwait => exact .inr (.inl rfl)
  | recvAwait => exact .inr (.inr (.inl rfl))
  | ignore hst => exact .inr hst
  | _ => cases hlast

theorem goAll_resting (w : Nat) (sl : Slave) (s : I2cData) : (s.goAll w sl).Resting :=
  goAll_rule w sl (P := fun _ t => t.Resting) (fun s hlast => (handleGo_step w sl s).resting hlast)
    (fun _ _ _ h => h) s

/-- The data after `n` calls of `__i2c_handle_go`. -/
def afterCalls (w : Nat) (sl : Slave) (s : I2cData) : Nat → I2cData
  | 0 => s
  | n + 1 => (s.handleGo w sl).2.afterCalls w sl n

/-- The last call of the loop, counted from the first one. -/
theorem exists_lastCall (w : Nat) (sl : Slave) (s : I2cData) :
    ∃ n < callsLeft s, (∀ k < n, ((s.afterCalls w sl k).handleGo w sl).1 = true) ∧
      ((s.afterCalls w sl n).handleGo w sl).1 = false ∧
      s.goAll w sl = s.afterCalls w sl (n + 1) := by
  induction hm : callsLeft s using Nat.strong_induction_on generalizing s with
  | _ m ih =>
    rw [goAll_eq]
    by_cases h : (s.handleGo w sl).1 = true
    · have hless := handleGo_callsLeft h
      obtain ⟨n, hn, hmore, hlast, hall⟩ := ih _ (hm ▸ hless) (s.handleGo w sl).2 rfl
      refine ⟨n + 1, by omega, ?_, hlast, ?_⟩
      · intro k hk
        cases k with
        | zero => exact h
        | succ k => exact hmore k (by omega)
      · rw [if_pos h, hall]
        rfl
    · refine ⟨0, hm ▸ callsLeft_pos s, fun k hk => absurd hk (Nat.not_lt_zero k), ?_, ?_⟩
      · exact Bool.not_eq_true _ ▸ h
      · rw [if_neg h]
        rfl

/-- **Rest.** From any data, with any slave, one of the first 263 calls returns 0,
and leaves the machine at rest. -/
theorem go_comes_to_rest (w : Nat) (sl : Slave) (s : I2cData) :
    ∃ n < 263, (∀ k < n, ((s.afterCalls w sl k).handleGo w sl).1 = true) ∧
      ((s.afterCalls w sl n).handleGo w sl).1 = false ∧
      s.goAll w sl = s.afterCalls w sl (n + 1) ∧ (s.goAll w sl).Resting := by
  obtain ⟨n, hn, hmore, hlast, hall⟩ := exists_lastCall w sl s
  exact ⟨n, Nat.lt_of_lt_of_le hn (callsLeft_le s), hmore, hlast, hall, goAll_resting w sl s⟩

theorem goAll_queue (w : Nat) (sl : Slave) (s : I2cData) :
    ∃ q, (s.goAll w sl).queue = s.queue ++ q ∧ ∀ e ∈ q, e = .mcuioIrq true := by
  refine goAll_rule w sl
    (P := fun s t => ∃ q, t.queue = s.queue ++ q ∧ ∀ e ∈ q, e = .mcuioIrq true)
    (fun s _ => (handleGo_step w sl s).queue) ?_ s
  intro s t _ ih
  obtain ⟨q, hq, hirq⟩ := (handleGo_step w sl s).queue
  obtain ⟨q', hq', hirq'⟩ := ih
  refine ⟨q ++ q', ?_, ?_⟩
  · rw [hq', hq, List.append_assoc]
  · intro e he
    exact (List.mem_append.mp he).elim (hirq e) (hirq' e)

/-- A machine that waits, or has failed, ignores `I2C_GO`. -/
theorem goAll_ignored (h : s.state = .awaitingOutputData ∨ s.state = .awaitingInputSpace ∨
    s.state = .error) : s.goAll w sl = s := by
  have hgo : s.handleGo w sl = (false, s) := by
    unfold handleGo
    rcases h with h | h | h <;> rw [h]
  rw [goAll_eq, hgo]
  rfl

-- ---------------------------------------------------------------------------
-- The registers
-- ---------------------------------------------------------------------------

theorem rddwReg_data (s : I2cData) (reg : Nat) :
    (∃ out, s.rddwReg reg = some (out, if reg = I2C_MCUIO_STATUS then s.readStatus else s)) ∨
      (s.rddwReg reg = none ∧ reg ≠ I2C_MCUIO_STATUS ∧ reg ≠ I2C_MCUIO_XFER_DATA) := by
  unfold rddwReg
  by_cases hxfer : reg = I2C_MCUIO_XFER_DATA
  · subst hxfer
    exact .inl ⟨_, rfl⟩
  · by_cases hstatus : reg = I2C_MCUIO_STATUS
    · subst hstatus
      exact .inl ⟨_, rfl⟩
    · simp only [if_neg hxfer, if_neg hstatus]
      split
      · exact .inl ⟨_, rfl⟩
      · split
        · exact .inl ⟨_, rfl⟩
        · exact .inr ⟨rfl, hstatus, hxfer⟩

/-- Reading registers changes the data through the status register only. -/
theorem registersRddw_data (s : I2cData) (addr : Nat) (fill : Bool) :
    (s.registersRddw addr fill).2.2 =
      if I2C_MCUIO_STATUS ∈ accessRegs addr fill then s.readStatus else s := by
  have hone : ∀ (s : I2cData) (reg : Nat), (s.rddwRegs [reg]).2.2 =
      if reg = I2C_MCUIO_STATUS then s.readStatus else s := by
    intro s reg
    unfold rddwRegs
    rcases rddwReg_data s reg with ⟨out, h⟩ | ⟨h, hreg, -⟩
    · rw [h]
      rfl
    · rw [h, if_neg hreg]
  cases fill with
  | false =>
    refine (hone s addr).trans ?_
    simp only [accessRegs, Bool.false_eq_true, if_false, List.mem_singleton, eq_comm]
  | true =>
    show (s.rddwRegs [addr, addr + 4]).2.2 = _
    simp only [accessRegs, if_true, List.mem_cons, List.not_mem_nil, or_false]
    rw [rddwRegs]
    rcases rddwReg_data s addr with ⟨out, h⟩ | ⟨h, hstatus, hxfer⟩
    · rw [h]
      show (rddwRegs _ [addr + 4]).2.2 = _
      rw [hone]
      by_cases hfirst : addr = I2C_MCUIO_STATUS
      · subst hfirst
        rfl
      · by_cases hsecond : addr + 4 = I2C_MCUIO_STATUS
        · rw [if_neg hfirst, if_pos hsecond, if_pos (.inr hsecond.symm)]
        · rw [if_neg hfirst, if_neg hsecond, if_neg]
          exact fun h => h.elim (fun h => hfirst h.symm) fun h => hsecond h.symm
    · -- a failing first dword is not the one before the status register
      rw [h, if_neg]
      unfold I2C_MCUIO_STATUS I2C_MCUIO_XFER_DATA at *
      omega

/-- What a register write can change. -/
structure Written (s s' : I2cData) : Prop where
  eq : s' = { s with
    slaveAddress := s'.slaveAddress
    obufLen := s'.obufLen
    ibufLen := s'.ibufLen
    intEnable := s'.intEnable
    queue := s'.queue }
  queue : ∃ q, s'.queue = s.queue ++ q ∧ ∀ e ∈ q, e = .i2cGo

theorem wrdwReg_written {reg : Nat} {inp : BitVec 32} {s s' : I2cData}
    (h : s.wrdwReg reg inp = some s') : Written s s' := by
  unfold wrdwReg at h
  split at h
  · cases h
    exact ⟨rfl, [], by simp⟩
  · split at h
    · cases h
    · split at h
      · cases h
        exact ⟨rfl, [], by simp⟩
      · split at h
        · cases h
          split
          · exact ⟨rfl, [.i2cGo], rfl, by simp⟩
          · exact ⟨rfl, [], by simp⟩
        · cases h

theorem Written.trans {s s' s'' : I2cData} (h : Written s s') (h' : Written s' s'') :
    Written s s'' := by
  obtain ⟨q, hq, hgo⟩ := h.queue
  obtain ⟨q', hq', hgo'⟩ := h'.queue
  refine ⟨?_, q ++ q', ?_, ?_⟩
  · have h2 := h'.eq
    rw [h.eq] at h2
    exact h2
  · rw [hq', hq, List.append_assoc]
  · intro e he
    exact (List.mem_append.mp he).elim (hgo e) (hgo' e)

theorem wrdwRegs_written (regs : List (Nat × BitVec 32)) :
    ∀ s : I2cData, Written s (s.wrdwRegs regs).2 := by
  induction regs with
  | nil => exact fun s => ⟨rfl, [], by simp [wrdwRegs]⟩
  | cons reg regs ih =>
    intro s
    unfold wrdwRegs
    cases h : s.wrdwReg reg.1 reg.2 with
    | none => exact ⟨rfl, [], by simp⟩
    | some s' => exact (wrdwReg_written h).trans (ih s')

theorem registersWrdw_written (s : I2cData) (addr : Nat) (in0 in1 : BitVec 32) (fill : Bool) :
    Written s (s.registersWrdw addr in0 in1 fill).2 := wrdwRegs_written _ s

theorem readStatus_frame (s : I2cData) : ∃ q, s.readStatus = { s with queue := s.queue ++ q } := by
  unfold readStatus
  split
  · exact ⟨[], by rw [List.append_nil]⟩
  · simp only
    split
    · exact ⟨[.mcuioIrq false, .i2cReset], by simp [trigger]⟩
    · exact ⟨[.mcuioIrq false], rfl⟩

-- ---------------------------------------------------------------------------
-- One step of a run
-- ---------------------------------------------------------------------------

theorem step_obufWr (w : Nat) (sl : Slave) (s : I2cData) (inp : Vector UInt8 8) (fill : Bool) :
    s.step w sl (.obufWr inp fill) =
      if s.obufSpace < accessSize fill then s
      else (s.putOutput (offered inp fill)).resumeOutput w := by
  show (s.obufWrb w inp fill).2 = _
  split
  · rename_i h
    rw [obufWrb_refused h]
  · rename_i h
    exact obufWrb_accepted inp (Nat.not_lt.mp h)

theorem step_ibufRd (w : Nat) (sl : Slave) (s : I2cData) (fill : Bool) :
    s.step w sl (.ibufRd fill) =
      if s.ibufCnt < accessSize fill then s
      else { s with ibufTail := mask (s.ibufTail + accessSize fill) }.resumeInput := by
  show (s.ibufRdb fill).2.2 = _
  split
  · rename_i h
    rw [ibufRdb_refused h]
  · rename_i h
    rw [ibufRdb_accepted (Nat.not_lt.mp h)]

theorem step_regRd (w : Nat) (sl : Slave) (s : I2cData) (addr : Nat) (fill : Bool) :
    s.step w sl (.regRd addr fill) =
      if I2C_MCUIO_STATUS ∈ accessRegs addr fill then s.readStatus else s :=
  registersRddw_data s addr fill

theorem step_regWr (w : Nat) (sl : Slave) (s : I2cData) (addr : Nat) (in0 in1 : BitVec 32)
    (fill : Bool) : Written s (s.step w sl (.regWr addr in0 in1 fill)) :=
  registersWrdw_written s addr in0 in1 fill

theorem step_deliver_nil (w : Nat) (sl : Slave) (h : s.queue = []) : s.step w sl .deliver = s := by
  show s.deliver w sl = s
  unfold deliver
  rw [h]

theorem step_deliver_cons (w : Nat) (sl : Slave) {e : Event} {q : List Event}
    (h : s.queue = e :: q) :
    s.step w sl .deliver = { s with queue := q }.doTransaction w sl e := by
  show s.deliver w sl = _
  unfold deliver
  rw [h]

/-- A write that resumes the transaction only changes the state and the queue. -/
theorem resumeOutput_cases (w : Nat) (s : I2cData) :
    s.resumeOutput w = s ∨ (s.state = .awaitingOutputData ∧ s.enoughOutput w = true ∧
      s.resumeOutput w = { s with state := .sendingData, queue := s.queue ++ [.i2cGo] }) := by
  unfold resumeOutput
  split
  · rename_i h
    exact .inr ⟨h.1, h.2, rfl⟩
  · exact .inl rfl

theorem resumeInput_cases (s : I2cData) :
    s.resumeInput = s ∨ (s.state = .awaitingInputSpace ∧
      s.resumeInput = { s with state := .receivingData, queue := s.queue ++ [.i2cGo] }) := by
  unfold resumeInput
  split
  · rename_i h
    exact .inr ⟨h, rfl⟩
  · exact .inl rfl

end I2cData

end Bathos.I2c
