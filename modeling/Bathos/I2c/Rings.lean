import Bathos.I2c.Engine

/-!
# Bathos — the two windows of the I2C buffer

The output window and the input window are two pairs of indexes into the same
128 bytes. Nothing keeps them apart: a byte written by the host can land on a
received byte that has not been read, and a received byte on one that has not
been sent. Nor does the entry into `SENDING_DATA` and `RECEIVING_DATA` look at
the occupancy: the first byte is sent from an empty window and received into a
full one.

A run here is a sequence of calls, in any order; a run of host accesses and event
deliveries is one of them (`run_calls`).

Main results:

* `call_faithful` — one call that meets `NoClash` keeps the windows equal to the
  two FIFO queues of the host and the slave;
* `rings_faithful` — in every run of such calls, each data byte on the bus is
  the oldest one not sent or discarded, and each byte received is returned to
  the host.
-/

namespace Bathos.I2c

open Bathos.Lib

-- ---------------------------------------------------------------------------
-- Calls
-- ---------------------------------------------------------------------------

/-- The functions of the file that other code calls, the loop of the event handler
one call at a time. `dequeue` takes the event from the queue. -/
inductive Call where
  | obufWrb (inp : Vector UInt8 8) (fill : Bool)
  | ibufRdb (fill : Bool)
  | registersRddw (addr : Nat) (fill : Bool)
  | registersWrdw (addr : Nat) (in0 in1 : BitVec 32) (fill : Bool)
  | dequeue
  | handleGo
  | handleReset

namespace I2cData

variable {w : Nat} {sl : Slave} {s : I2cData}

def call (w : Nat) (sl : Slave) (s : I2cData) : Call → I2cData
  | .obufWrb inp fill => (s.obufWrb w inp fill).2
  | .ibufRdb fill => (s.ibufRdb fill).2.2
  | .registersRddw addr fill => (s.registersRddw addr fill).2.2
  | .registersWrdw addr in0 in1 fill => (s.registersWrdw addr in0 in1 fill).2
  | .dequeue => { s with queue := s.queue.tail }
  | .handleGo => (s.handleGo w sl).2
  | .handleReset => s.handleReset

theorem goAll_calls (w : Nat) (sl : Slave) (s : I2cData) :
    ∃ n, s.goAll w sl = runFrom (call w sl) s (List.replicate n .handleGo) := by
  refine goAll_rule w sl
    (P := fun s t => ∃ n, t = runFrom (call w sl) s (List.replicate n .handleGo)) ?_ ?_ s
  · exact fun s _ => ⟨1, rfl⟩
  · rintro s t - ⟨n, hn⟩
    exact ⟨n + 1, hn⟩

/-- Every step of a run is a sequence of calls. -/
theorem step_calls (w : Nat) (sl : Slave) (s : I2cData) (op : Op) :
    ∃ calls, s.step w sl op = runFrom (call w sl) s calls := by
  cases op with
  | obufWr inp fill => exact ⟨[.obufWrb inp fill], rfl⟩
  | ibufRd fill => exact ⟨[.ibufRdb fill], rfl⟩
  | regRd addr fill => exact ⟨[.registersRddw addr fill], rfl⟩
  | regWr addr in0 in1 fill => exact ⟨[.registersWrdw addr in0 in1 fill], rfl⟩
  | deliver =>
    cases hq : s.queue with
    | nil => exact ⟨[], step_deliver_nil w sl hq⟩
    | cons e q =>
      have hdeq : call w sl s .dequeue = { s with queue := q } := by
        unfold call
        rw [hq]
        rfl
      rw [step_deliver_cons w sl hq, ← hdeq]
      cases e with
      | i2cReset => exact ⟨[.dequeue, .handleReset], rfl⟩
      | mcuioIrq active => exact ⟨[.dequeue], rfl⟩
      | i2cGo =>
        obtain ⟨n, hn⟩ := goAll_calls w sl (call w sl s .dequeue)
        exact ⟨.dequeue :: List.replicate n .handleGo, hn⟩

/-- Every run is a sequence of calls. -/
theorem run_calls (w : Nat) (sl : Slave) (ops : List Op) (s : I2cData) :
    ∃ calls, runFrom (step w sl) s ops = runFrom (call w sl) s calls := by
  induction ops generalizing s with
  | nil => exact ⟨[], rfl⟩
  | cons op ops ih =>
    obtain ⟨calls, hcalls⟩ := step_calls w sl s op
    obtain ⟨rest, hrest⟩ := ih (s.step w sl op)
    exact ⟨calls ++ rest, by rw [runFrom_cons, hrest, runFrom_append, hcalls]⟩

end I2cData

-- ---------------------------------------------------------------------------
-- Statement
-- ---------------------------------------------------------------------------

/-- The controller with what the host and the slave know: the bytes accepted from
the host and neither sent nor discarded, and the bytes received and counted but
not read. -/
structure Rings where
  dev : I2cData
  pend : List UInt8
  unread : List UInt8

namespace Rings

variable {w : Nat} {sl : Slave} {t : Rings}

/-- Any controller with both windows empty. -/
def start (s : I2cData) : Rings := ⟨s, [], []⟩

/-- After a call, the bytes still to be sent. A data byte that is not acknowledged
and the last data byte discard the rest. -/
def pendAfter (w : Nat) (sl : Slave) (t : Rings) : Call → List UInt8
  | .obufWrb inp fill =>
    if (t.dev.obufWrb w inp fill).1 < 0 then t.pend else t.pend ++ I2cData.offered inp fill
  | .handleGo =>
    if t.dev.state = .sendingData then
      if (t.dev.handleGo w sl).2.state = .sendingData ∨
          (t.dev.handleGo w sl).2.state = .awaitingOutputData then t.pend.tail
      else []
    else t.pend
  | _ => t.pend

/-- After a call, the bytes still to be read. A block length that does not fit ends
the transaction without counting the byte. -/
def unreadAfter (w : Nat) (sl : Slave) (t : Rings) : Call → List UInt8
  | .ibufRdb fill => t.unread.drop (t.dev.ibufRdb fill).2.1.length
  | .handleGo =>
    if t.dev.state = .receivingData ∧ (t.dev.handleGo w sl).2.state ≠ .error then
      t.unread ++ [t.dev.incoming sl]
    else t.unread
  | _ => t.unread

def step (w : Nat) (sl : Slave) (t : Rings) (c : Call) : Rings where
  dev := t.dev.call w sl c
  pend := t.pendAfter w sl c
  unread := t.unreadAfter w sl c

/-- The windows hold what they should. -/
def Faithful (t : Rings) : Prop := t.dev.obuf = t.pend ∧ t.dev.ibuf = t.unread

/-- What the call puts on the bus, or returns to the host, is the oldest byte (or
bytes) of its queue, and both windows are faithful after it. -/
def CallOk (w : Nat) (sl : Slave) (t : Rings) (c : Call) : Prop :=
  (match c with
    | .handleGo => t.dev.state = .sendingData →
        ∃ b, t.pend.head? = some b ∧ t.dev.trace ++ [.byte b] <+: (t.dev.handleGo w sl).2.trace
    | .ibufRdb fill =>
        (t.dev.ibufRdb fill).2.1 = t.unread.take (t.dev.ibufRdb fill).2.1.length
    | _ => True) ∧
  (t.step w sl c).Faithful

/-- Cell `i` of the buffer belongs to the window. -/
def inWindow (head tail i : BufIdx) : Bool :=
  decide (circCnt i tail bufSize < circCnt head tail bufSize)

/-- A byte is sent from a window that is not empty, received into one that is not
full, and written only to cells the other window does not use. -/
def NoClash (t : Rings) : Call → Prop
  | .handleGo =>
    (t.dev.state = .sendingData → t.dev.obufCnt ≠ 0) ∧
    (t.dev.state = .receivingData → t.dev.ibufSpace ≠ 0 ∧
      inWindow t.dev.obufHead t.dev.obufTail t.dev.ibufHead = false)
  | .obufWrb _ fill => I2cData.accessSize fill ≤ t.dev.obufSpace →
      ∀ k < I2cData.accessSize fill,
        inWindow t.dev.ibufHead t.dev.ibufTail (mask (t.dev.obufHead + k)) = false
  | _ => True

-- ---------------------------------------------------------------------------
-- Frames
-- ---------------------------------------------------------------------------

section Frame

variable {mem : Nat → UInt8} {head tail : BufIdx}

/-- A cell outside the window is none of its cells. -/
theorem cell_ne {i : BufIdx} (h : inWindow head tail i = false) {j : Nat}
    (hj : j < circCnt head tail bufSize) : (tail + j) % bufSize ≠ (i : Nat) := by
  intro heq
  have hcnt : circCnt i tail bufSize = j := by
    rw [← heq]
    exact circCnt_window isRingSize_bufSize tail.isLt (hj.trans (cnt_lt head tail))
  have hnot := of_decide_eq_false h
  omega

theorem window_blit_one {i : BufIdx} {c : UInt8} (h : inWindow head tail i = false) :
    window (blit mem i [c]) head tail = window mem head tail := by
  refine window_frame fun j hj => blit_outside mem ?_
  have hne := cell_ne h hj
  simp only [List.length_singleton]
  omega

/-- The head of a window is outside it. -/
theorem head_outside : inWindow head tail head = false := by simp [inWindow]

/-- A list copied in two blocks touches the cells from its start on, around the
end of the buffer. -/
theorem putOutput_cell (s : I2cData) (src : List UInt8) {a : Nat} (ha : a < bufSize)
    (h : ∀ k < src.length, a ≠ (mask (s.obufHead + k) : Nat)) :
    (s.putOutput src).buffer a = s.buffer a := by
  have hhead : (s.obufHead : Nat) < bufSize := s.obufHead.isLt
  show blit (blit s.buffer _ _) 0 _ a = _
  rw [blit_outside, blit_outside]
  · -- the first block
    rw [List.length_take]
    by_contra hin
    push Not at hin
    refine h (a - s.obufHead) (by omega) ?_
    rw [mask_val, Nat.mod_eq_of_lt (by omega)]
    omega
  · -- the second block starts at 0
    right
    rw [List.length_drop, Nat.zero_add]
    by_contra hin
    push Not at hin
    refine h (bufSize - s.obufHead + a) (by omega) ?_
    rw [mask_val, show (s.obufHead : Nat) + (bufSize - s.obufHead + a) = a + bufSize by omega,
      Nat.add_mod_right, Nat.mod_eq_of_lt ha]

end Frame

-- ---------------------------------------------------------------------------
-- One call
-- ---------------------------------------------------------------------------

/-- What `__i2c_handle_go` has to do with the two queues, for the result `r` of a
call on `s`. -/
def GoOk (sl : Slave) (s : I2cData) (pend unread : List UInt8) (r : Bool × I2cData) : Prop :=
  (s.state = .sendingData →
    ∃ b, pend.head? = some b ∧ s.trace ++ [.byte b] <+: r.2.trace) ∧
  r.2.obuf = (if s.state = .sendingData then
      if r.2.state = .sendingData ∨ r.2.state = .awaitingOutputData then pend.tail else []
    else pend) ∧
  r.2.ibuf = (if s.state = .receivingData ∧ r.2.state ≠ .error then
      unread ++ [s.incoming sl]
    else unread)

variable {s : I2cData} {pend unread : List UInt8} {r : Bool × I2cData}

/-- A call in a state that touches neither window. -/
theorem goOk_other (hsend : s.state ≠ .sendingData) (hrecv : s.state ≠ .receivingData)
    (hobuf : r.2.obuf = pend) (hibuf : r.2.ibuf = unread) : GoOk sl s pend unread r := by
  refine ⟨fun h => absurd h hsend, ?_, ?_⟩
  · rw [if_neg hsend, hobuf]
  · rw [if_neg fun h => hrecv h.1, hibuf]

/-- A call in `SENDING_DATA` with a byte to send. -/
theorem goOk_sending (hst : s.state = .sendingData) (hcnt : s.obufCnt ≠ 0) (hobuf : s.obuf = pend)
    (htrace : s.trace ++ [.byte (s.buffer s.obufTail)] <+: r.2.trace)
    (hrest : r.2.obuf = if r.2.state = .sendingData ∨ r.2.state = .awaitingOutputData then
      pend.tail else [])
    (hibuf : r.2.ibuf = unread) : GoOk sl s pend unread r := by
  have htail : s.obufTail ≠ s.obufHead := fun h => hcnt (cnt_eq_zero_iff.mpr h)
  have hcons : pend = s.buffer s.obufTail :: _ := hobuf.symm.trans (window_cons htail)
  refine ⟨fun _ => ⟨_, by rw [hcons]; rfl, htrace⟩, ?_, ?_⟩
  · rw [if_pos hst, hrest]
  · rw [if_neg, hibuf]
    rw [hst]
    exact fun h => nomatch h.1

/-- A call in `RECEIVING_DATA` that counts the byte. -/
theorem goOk_receiving (hst : s.state = .receivingData) (hne : r.2.state ≠ .error)
    (hobuf : r.2.obuf = pend) (hibuf : r.2.ibuf = unread ++ [s.incoming sl]) :
    GoOk sl s pend unread r := by
  refine ⟨fun h => ?_, ?_, ?_⟩
  · rw [hst] at h
    cases h
  · rw [if_neg (by rw [hst]; nofun), hobuf]
  · rw [if_pos ⟨hst, hne⟩, hibuf]

/-- The window after a byte was taken from it. -/
theorem sent_obuf (hcnt : s.obufCnt ≠ 0) : s.sent.obuf = s.obuf.tail :=
  (window_pop (Nat.one_le_iff_ne_zero.mpr hcnt)).trans List.drop_one

/-- A byte received into a window with space, on a cell the other does not use. -/
theorem received_rings (w : Nat) (sl : Slave) (hspace : s.ibufSpace ≠ 0)
    (hout : inWindow s.obufHead s.obufTail s.ibufHead = false) :
    (s.received w sl).obuf = s.obuf ∧ (s.received w sl).ibuf = s.ibuf ++ [s.incoming sl] :=
  ⟨window_blit_one hout, window_push_one (Nat.one_le_iff_ne_zero.mpr hspace)⟩

theorem goStep_rings (h : I2cData.GoStep w sl s r) (hobuf : s.obuf = pend) (hibuf : s.ibuf = unread)
    (hsend : s.state = .sendingData → s.obufCnt ≠ 0)
    (hrecv : s.state = .receivingData → s.ibufSpace ≠ 0 ∧
      inWindow s.obufHead s.obufTail s.ibufHead = false) :
    GoOk sl s pend unread r := by
  have hother : ∀ st : TransactionState, s.state = st → st ≠ .sendingData → st ≠ .receivingData →
      r.2.obuf = s.obuf → r.2.ibuf = s.ibuf → GoOk sl s pend unread r := by
    rintro st rfl h1 h2 ho hi
    exact goOk_other h1 h2 (ho.trans hobuf) (hi.trans hibuf)
  cases h with
  | start hst => exact hother _ hst nofun nofun rfl rfl
  | addrNak hst | addrAck hst | noOutput hst | output hst | noInput hst | readOnly hst
  | repStart hst | addr2Nak hst | addr2Ack hst | input hst | finish hst =>
    exact hother _ hst nofun nofun rfl rfl
  | dataNak hst =>
    refine goOk_sending hst (hsend hst) hobuf ⟨[.stop], rfl⟩ ?_ hibuf
    rw [if_neg (by rintro (h | h) <;> cases h)]
    exact window_self _
  | dataDone hst =>
    refine goOk_sending hst (hsend hst) hobuf (List.prefix_rfl) ?_ hibuf
    rw [if_neg (by rintro (h | h) <;> cases h)]
    exact window_self _
  | dataMore hst =>
    refine goOk_sending hst (hsend hst) hobuf (List.prefix_rfl) ?_ hibuf
    rw [if_pos (.inl rfl), ← hobuf]
    exact sent_obuf (hsend hst)
  | dataAwait hst =>
    obtain ⟨st, q, hlow, -⟩ := I2cData.lowWatermark_eq w s.sent
    rw [hlow]
    refine goOk_sending hst (hsend hst) hobuf (List.prefix_rfl) ?_ hibuf
    rw [if_pos (.inr rfl), ← hobuf]
    exact sent_obuf (hsend hst)
  | invalidLen hst =>
    have hout := (hrecv hst).2
    refine ⟨fun h => ?_, ?_, ?_⟩
    · rw [hst] at h
      cases h
    · rw [if_neg (by rw [hst]; nofun), ← hobuf]
      exact window_blit_one hout
    · rw [if_neg fun h => h.2 rfl, ← hibuf]
      exact window_blit_one head_outside
  | recvDone hst | recvAwait hst =>
    obtain ⟨hspace, hout⟩ := hrecv hst
    obtain ⟨ho, hi⟩ := received_rings w sl hspace hout
    rw [hobuf] at ho
    rw [hibuf] at hi
    exact goOk_receiving hst nofun ho hi
  | recvMore hst =>
    obtain ⟨hspace, hout⟩ := hrecv hst
    obtain ⟨ho, hi⟩ := received_rings w sl hspace hout
    obtain ⟨st, q, hhigh, -⟩ := I2cData.highWatermark_eq (s.received w sl)
    rw [hobuf] at ho
    rw [hibuf] at hi
    rw [hhigh]
    exact goOk_receiving hst nofun ho hi
  | ignore hst => rcases hst with hst | hst | hst <;> exact hother _ hst nofun nofun rfl rfl

/-- An access to the output window that clashes with no received byte. -/
theorem obufWrb_rings {inp : Vector UInt8 8} {fill : Bool} (h : t.Faithful)
    (hc : t.NoClash (.obufWrb inp fill)) : (t.step w sl (.obufWrb inp fill)).Faithful := by
  obtain ⟨hobuf, hibuf⟩ := h
  by_cases hsp : t.dev.obufSpace < I2cData.accessSize fill
  · have hcall : (t.dev.obufWrb w inp fill).2 = t.dev := by rw [I2cData.obufWrb_refused hsp]
    refine ⟨?_, ?_⟩
    · show (t.dev.obufWrb w inp fill).2.obuf = if (t.dev.obufWrb w inp fill).1 < 0 then _ else _
      rw [hcall, if_pos (I2cData.obufWrb_neg_iff.mpr hsp)]
      exact hobuf
    · show (t.dev.obufWrb w inp fill).2.ibuf = t.unread
      rw [hcall]
      exact hibuf
  · have hpos : ¬(t.dev.obufWrb w inp fill).1 < 0 := fun h => hsp (I2cData.obufWrb_neg_iff.mp h)
    have hsp := Nat.not_lt.mp hsp
    have hcall := I2cData.obufWrb_accepted (w := w) inp hsp
    have hlen : (I2cData.offered inp fill).length ≤ t.dev.obufSpace := by
      rw [I2cData.offered_length]
      exact hsp
    have hres : ((t.dev.putOutput (I2cData.offered inp fill)).resumeOutput w).obuf =
        (t.dev.putOutput (I2cData.offered inp fill)).obuf ∧
        ((t.dev.putOutput (I2cData.offered inp fill)).resumeOutput w).ibuf =
          (t.dev.putOutput (I2cData.offered inp fill)).ibuf := by
      rcases I2cData.resumeOutput_cases w (t.dev.putOutput (I2cData.offered inp fill)) with
        hres | ⟨-, -, hres⟩ <;> rw [hres] <;> exact ⟨rfl, rfl⟩
    refine ⟨?_, ?_⟩
    · show (t.dev.obufWrb w inp fill).2.obuf = if (t.dev.obufWrb w inp fill).1 < 0 then _ else _
      rw [if_neg hpos, hcall, hres.1, ← hobuf]
      exact I2cData.putOutput_obuf hlen
    · show (t.dev.obufWrb w inp fill).2.ibuf = t.unread
      rw [hcall, hres.2, ← hibuf]
      refine window_frame fun j hj => putOutput_cell t.dev _ (Nat.mod_lt _ (by decide)) fun k hk => ?_
      rw [I2cData.offered_length] at hk
      exact cell_ne (hc hsp k hk) hj

theorem ibufRdb_rings {fill : Bool} (h : t.Faithful) : t.CallOk w sl (.ibufRdb fill) := by
  obtain ⟨hobuf, hibuf⟩ := h
  by_cases hcnt : t.dev.ibufCnt < I2cData.accessSize fill
  · have hcall := I2cData.ibufRdb_refused hcnt
    refine ⟨?_, ?_, ?_⟩
    · show (t.dev.ibufRdb fill).2.1 = t.unread.take (t.dev.ibufRdb fill).2.1.length
      rw [hcall]
      rfl
    · show (t.dev.ibufRdb fill).2.2.obuf = t.pend
      rw [hcall]
      exact hobuf
    · show (t.dev.ibufRdb fill).2.2.ibuf = t.unread.drop (t.dev.ibufRdb fill).2.1.length
      rw [hcall]
      exact hibuf
  · have hcnt := Nat.not_lt.mp hcnt
    have hcall := I2cData.ibufRdb_accepted hcnt
    have hlen : (t.dev.ibufRdb fill).2.1.length = I2cData.accessSize fill := by
      rw [hcall, List.length_take, I2cData.ibuf_length]
      exact Nat.min_eq_left hcnt
    have hres : (t.dev.ibufRdb fill).2.2.obuf = t.dev.obuf ∧
        (t.dev.ibufRdb fill).2.2.ibuf = t.dev.ibuf.drop (I2cData.accessSize fill) := by
      rw [hcall]
      have hpop : { t.dev with
          ibufTail := mask (t.dev.ibufTail + I2cData.accessSize fill) }.ibuf =
          t.dev.ibuf.drop (I2cData.accessSize fill) := window_pop hcnt
      rcases I2cData.resumeInput_cases
        { t.dev with ibufTail := mask (t.dev.ibufTail + I2cData.accessSize fill) } with
        hres | ⟨-, hres⟩ <;> rw [hres] <;> exact ⟨rfl, hpop⟩
    refine ⟨?_, ?_, ?_⟩
    · show (t.dev.ibufRdb fill).2.1 = t.unread.take (t.dev.ibufRdb fill).2.1.length
      rw [hlen, hcall, hibuf]
    · show (t.dev.ibufRdb fill).2.2.obuf = t.pend
      rw [hres.1, hobuf]
    · show (t.dev.ibufRdb fill).2.2.ibuf = t.unread.drop (t.dev.ibufRdb fill).2.1.length
      rw [hres.2, hlen, hibuf]

/-- **One call.** -/
theorem call_faithful {c : Call} (h : t.Faithful) (hc : t.NoClash c) : t.CallOk w sl c := by
  cases c with
  | obufWrb inp fill => exact ⟨trivial, obufWrb_rings h hc⟩
  | ibufRdb fill => exact ibufRdb_rings h
  | handleGo =>
    obtain ⟨hbyte, hobuf, hibuf⟩ :=
      goStep_rings (I2cData.handleGo_step w sl t.dev) h.1 h.2 hc.1 hc.2
    exact ⟨hbyte, hobuf, hibuf⟩
  | handleReset => exact ⟨trivial, h⟩
  | dequeue => exact ⟨trivial, h⟩
  | registersRddw addr fill =>
    obtain ⟨q, hq⟩ := t.dev.readStatus_frame
    have hdata := I2cData.registersRddw_data t.dev addr fill
    rw [hq] at hdata
    refine ⟨trivial, ?_⟩
    show (t.dev.registersRddw addr fill).2.2.obuf = t.pend ∧
      (t.dev.registersRddw addr fill).2.2.ibuf = t.unread
    rw [hdata]
    split <;> exact h
  | registersWrdw addr in0 in1 fill =>
    have hdata := (I2cData.registersWrdw_written t.dev addr in0 in1 fill).eq
    refine ⟨trivial, ?_⟩
    show (t.dev.registersWrdw addr in0 in1 fill).2.obuf = t.pend ∧
      (t.dev.registersWrdw addr in0 in1 fill).2.ibuf = t.unread
    rw [hdata]
    exact h

/-- **Runs.** From empty windows, in every sequence of calls that meet `NoClash`,
each data byte put on the bus is the oldest byte accepted from the host and
neither sent nor discarded, each read returns the oldest received bytes, and the
windows hold exactly the bytes still to be sent and still to be read. -/
theorem rings_faithful {s : I2cData} {calls : List Call} (hobuf : s.obufTail = s.obufHead)
    (hibuf : s.ibufTail = s.ibufHead)
    (hrun : EachStep (step w sl) NoClash (start s) calls) :
    EachStep (step w sl) (CallOk w sl) (start s) calls := by
  have hstart : (start s).Faithful := ⟨window_eq_nil_iff.mpr hobuf, window_eq_nil_iff.mpr hibuf⟩
  exact EachStep.mono (fun (t : Rings) c (h : t.Faithful) hc => (call_faithful h hc).2)
    (fun _ _ h hc => call_faithful h hc) hstart hrun

instance (t : Rings) : (c : Call) → Decidable (t.NoClash c)
  | .handleGo => inferInstanceAs (Decidable (_ ∧ _))
  | .obufWrb _ fill => inferInstanceAs (Decidable (_ → ∀ k < I2cData.accessSize fill, _))
  | .ibufRdb _ | .registersRddw _ _ | .registersWrdw _ _ _ _ | .dequeue | .handleReset =>
    inferInstanceAs (Decidable True)

/-- One output byte announced and none written; the event of the start handled. -/
def emptyStart : List Call :=
  [.registersWrdw I2cData.I2C_MCUIO_XFER_DATA 0x140 0 false,
    .registersWrdw I2cData.I2C_MCUIO_CMD 1 0 false,
    .dequeue, .handleGo, .handleGo, .handleGo, .handleGo]

/-- The byte sent is none the host wrote. -/
theorem byte_sent_from_empty_window :
    ¬∀ (w : Nat) (sl : Slave) (calls : List Call),
      EachStep (step w sl) (CallOk w sl) (start .init) calls := by
  intro h
  have hrun := h 32 (.steady 0) emptyStart
  obtain ⟨b, hb, -⟩ := hrun.2.2.2.2.2.2.1.1 (by decide +kernel)
  cases hb

/-- The byte is written before the start. -/
theorem rings_faithful_one_byte :
    EachStep (step 32 (.steady 0)) (CallOk 32 (.steady 0)) (start .init)
      (.obufWrb #v[0x55, 0, 0, 0, 0, 0, 0, 0] false :: emptyStart) := by
  refine rings_faithful rfl rfl ⟨?_, ?_, ?_, ?_, ?_, ?_, ?_, ?_, trivial⟩ <;> decide +kernel

end Rings

end Bathos.I2c
