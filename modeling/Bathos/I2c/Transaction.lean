import Bathos.I2c.Lines

/-!
# Bathos — one I2C transaction on the bus

A transaction of `n` output and `m` input bytes with a slave that acknowledges
every byte. The machine suspends when the output window runs empty and when the
input window runs full, as often as the transfer needs; the host resumes it by
writing or reading, and the queued `I2C_GO` is delivered some time later. What
happens on the bus does not depend on where the suspensions fall.

`Running` says where the transaction stands while the loop of the event handler
runs, `Waiting` where it can stand when the loop has left it.

Main results:

* `running_goStep` — one call moves the transaction on along its trace;
* `phase_step` — so does every step of a schedule;
* `transaction_trace` — at the end of every complete schedule the bus has seen
  exactly `busTrace`, byte by byte on SDA, the host has read, or still finds in the
  window, the bytes received, and the machine is idle again.
-/

namespace Bathos.I2c

open Bathos.Lib I2cData

-- ---------------------------------------------------------------------------
-- Statement
-- ---------------------------------------------------------------------------

/-- The receptions on the bus: the last one is not acknowledged. -/
def receptions : List UInt8 → List BusAction
  | [] => []
  | [c] => [.recv c, .acknak false]
  | c :: cs => .recv c :: .acknak true :: receptions cs

/-- START and the address byte, with the read bit when there is only input. -/
def headTrace (a : UInt8) (n m : Nat) : List BusAction :=
  [.start, .byte (if n = 0 ∧ m ≠ 0 then a ||| 1 else a)]

/-- The trace up to the first reception. -/
def outTrace (a : UInt8) (n m : Nat) (data : List UInt8) : List BusAction :=
  headTrace a n m ++ data.map .byte ++
    if n ≠ 0 ∧ m ≠ 0 then [.repStart, .byte (a ||| 1)] else []

/-- The whole trace of a transaction. -/
def busTrace (a : UInt8) (n m : Nat) (data input : List UInt8) : List BusAction :=
  outTrace a n m data ++ receptions input ++ [.stop]

/-- The value of XFER_DATA: slave address, output length, input length. -/
def xferWord (a : UInt8) (n m : Nat) : BitVec 32 :=
  BitVec.ofNat 32 (a.toNat + n * 2 ^ 8 + m * 2 ^ 20)

/-- The controller with the bytes accepted from the host and the bytes read by it
since the start. -/
structure Sched where
  dev : I2cData
  given : List UInt8
  got : List UInt8

namespace Sched

def start (s : I2cData) : Sched := ⟨s, [], []⟩

def givenAfter (w : Nat) (t : Sched) : Op → List UInt8
  | .obufWr inp fill =>
    if (t.dev.obufWrb w inp fill).1 < 0 then t.given else t.given ++ offered inp fill
  | _ => t.given

def gotAfter (t : Sched) : Op → List UInt8
  | .ibufRd fill => t.got ++ (t.dev.ibufRdb fill).2.1
  | _ => t.got

def step (w : Nat) (sl : Slave) (t : Sched) (op : Op) : Sched where
  dev := t.dev.step w sl op
  given := t.givenAfter w op
  got := t.gotAfter op

/-- What a schedule may do after the start: read input at any time, write output
while it is awaited, deliver events. -/
def InSchedule (t : Sched) : Op → Prop
  | .obufWr _ _ => t.dev.state = .awaitingOutputData
  | .ibufRd _ | .deliver => True
  | .regRd _ _ | .regWr _ _ _ _ => False

/-- The host's part before the start: the transfer register, some output, the
command. -/
def setup (a : UInt8) (n m : Nat) (writes : List (Vector UInt8 8 × Bool)) (cmd : BitVec 32) :
    List Op :=
  .regWr I2C_MCUIO_XFER_DATA (xferWord a n m) 0 false ::
    (writes.map fun x => .obufWr x.1 x.2) ++ [.regWr I2C_MCUIO_CMD cmd 0 false]

end Sched

-- ---------------------------------------------------------------------------
-- Slave, registers and traces
-- ---------------------------------------------------------------------------

theorem receptions_append (cs : List UInt8) (c : UInt8) :
    receptions (cs ++ [c]) =
      (cs.flatMap fun c => [.recv c, .acknak true]) ++ [.recv c, .acknak false] := by
  induction cs with
  | nil => rfl
  | cons b cs ih =>
    have hne : cs ++ [c] ≠ [] := by simp
    have hunfold : receptions (b :: (cs ++ [c])) =
        .recv b :: .acknak true :: receptions (cs ++ [c]) := by
      cases hcs : cs ++ [c] with
      | nil => exact absurd hcs hne
      | cons x xs => rfl
    rw [List.cons_append, hunfold, ih]
    rfl

section Arithmetic

variable {w n m d : Nat}

/-- Counters below 4096 never look like -1. -/
theorem eqInt_neg_one (hd : d < 4096) : eqInt w d (-1) = false := by
  unfold eqInt
  split
  · exact decide_eq_false (by omega)
  · exact decide_eq_false (by omega)

theorem eqInt_nat (hd : d ≤ 4096) (hm : m < 4096) : eqInt w d (m : Int) = decide (d = m) := by
  unfold eqInt
  split
  · exact decide_eq_decide.mpr (by omega)
  · exact decide_eq_decide.mpr (by omega)

theorem subInt_nat (hdn : d ≤ n) (hn : n < 4096) : subInt w n d = ((n - d : Nat) : Int) := by
  unfold subInt
  split
  · omega
  · rw [Int.bmod_eq_of_le] <;> omega

end Arithmetic

/-- The decoding of the transfer register. -/
theorem xferWord_fields {a : UInt8} {n m : Nat} (hn : n < 4096) (hm : m < 4096) :
    (xferWord a n m &&& 0xff).setWidth 16 = a.toBitVec.setWidth 16 ∧
      (xferWord a n m >>> 8 &&& 0xfff).toNat = n ∧
      (xferWord a n m >>> 20 &&& 0xfff).toNat = m := by
  have ha : a.toNat < 256 := a.toNat_lt
  have hword : (xferWord a n m).toNat = a.toNat + n * 2 ^ 8 + m * 2 ^ 20 := by
    unfold xferWord
    rw [BitVec.toNat_ofNat]
    exact Nat.mod_eq_of_lt (by omega)
  refine ⟨?_, ?_, ?_⟩
  · apply BitVec.eq_of_toNat_eq
    rw [BitVec.toNat_setWidth, BitVec.toNat_and, hword,
      show (0xff : BitVec 32).toNat = 2 ^ 8 - 1 from rfl, Nat.and_two_pow_sub_one_eq_mod,
      BitVec.toNat_setWidth]
    show _ = a.toNat % 2 ^ 16
    omega
  · rw [BitVec.toNat_and, BitVec.toNat_ushiftRight, hword, Nat.shiftRight_eq_div_pow,
      show (0xfff : BitVec 32).toNat = 2 ^ 12 - 1 from rfl, Nat.and_two_pow_sub_one_eq_mod]
    omega
  · rw [BitVec.toNat_and, BitVec.toNat_ushiftRight, hword, Nat.shiftRight_eq_div_pow,
      show (0xfff : BitVec 32).toNat = 2 ^ 12 - 1 from rfl, Nat.and_two_pow_sub_one_eq_mod]
    omega

-- ---------------------------------------------------------------------------
-- Where a transaction stands
-- ---------------------------------------------------------------------------

/-- What is asked for: the bus before the start, and the fields of XFER_DATA. -/
structure Transfer where
  before : List BusAction
  addr : UInt8
  outLen : Nat
  inLen : Nat
  outLen_lt : outLen < 4096
  inLen_lt : inLen < 4096

namespace Transfer

def head (x : Transfer) : List BusAction := headTrace x.addr x.outLen x.inLen

/-- The trace up to the first reception, `data` being the bytes given. -/
def out (x : Transfer) (given : List UInt8) : List BusAction :=
  outTrace x.addr x.outLen x.inLen (given.take x.outLen)

/-- The registers hold the transfer. -/
structure Regs (x : Transfer) (s : I2cData) : Prop where
  addr : s.slaveAddress = x.addr.toBitVec.setWidth 16
  obufLen : s.obufLen = x.outLen
  ibufLen : s.ibufLen = x.inLen

variable (x : Transfer) (given got : List UInt8)

/-- No data byte yet; `acts` are the actions so far. -/
structure Queued (s : I2cData) (acts : List BusAction) : Prop where
  trace : s.trace = x.before ++ acts
  obuf : s.obuf = given
  given_ne : x.outLen ≠ 0 → given ≠ []
  ibuf : s.ibuf = []
  got : got = []

/-- `d` data bytes sent, more to come. -/
structure Output (s : I2cData) (d : Nat) : Prop where
  lt : d < x.outLen
  cnt : s.dataCnt = d
  le : d ≤ given.length
  trace : s.trace = x.before ++ x.head ++ (given.take d).map .byte
  obuf : s.obuf = given.drop d
  ibuf : s.ibuf = []
  got : got = []

/-- All data bytes sent, and `acts` after them. -/
structure Sent (s : I2cData) (acts : List BusAction) : Prop where
  supply : x.outLen ≤ given.length
  trace : s.trace = x.before ++ x.head ++ (given.take x.outLen).map .byte ++ acts
  ibuf : s.ibuf = []
  got : got = []

/-- The bytes `rs` received, more to come. -/
structure Input (s : I2cData) (rs : List UInt8) : Prop where
  supply : x.outLen ≤ given.length
  trace : s.trace = x.before ++ x.out given ++ rs.flatMap fun c => [.recv c, .acknak true]
  cnt : s.dataCnt = rs.length
  lt : rs.length < x.inLen
  input : got ++ s.ibuf = rs

/-- All bytes transferred, and `acts` after them. -/
structure Complete (s : I2cData) (acts : List BusAction) (rs : List UInt8) : Prop where
  supply : x.outLen ≤ given.length
  trace : s.trace = x.before ++ x.out given ++ receptions rs ++ acts
  len : rs.length = x.inLen
  input : got ++ s.ibuf = rs

/-- While the loop runs. -/
def Running (s : I2cData) : Prop :=
  match s.state with
  | .idle => x.Queued given got s []
  | .startSent => x.Queued given got s [.start]
  | .addrSent => x.Queued given got s x.head
  | .sendingData => s.obuf ≠ [] ∧ ∃ d, x.Output given got s d
  | .dataSent => x.Sent given got s []
  | .repeatedStartSent => (x.outLen ≠ 0 ∧ x.inLen ≠ 0) ∧ x.Sent given got s [.repStart]
  | .addrSent2 => (x.outLen ≠ 0 ∧ x.inLen ≠ 0) ∧
      x.Sent given got s [.repStart, .byte (x.addr ||| 1)]
  | .receivingData => s.ibufSpace ≠ 0 ∧ ∃ rs, x.Input given got s rs
  | .dataReceived => ∃ rs, x.Complete given got s [] rs
  | .awaitingOutputData | .awaitingInputSpace | .error => False

/-- When the loop has left the machine: too few output bytes, no input space, or
the transaction over. -/
def Waiting (s : I2cData) : Prop :=
  match s.state with
  | .awaitingOutputData => ∃ d, x.Output given got s d ∧
      s.obufCnt < min (x.outLen - d) OBUF_HIGH_WATERMARK
  | .awaitingInputSpace => s.ibufSpace = 0 ∧ ∃ rs, x.Input given got s rs
  | .idle => s.status = TRANSACTION_OK ∧ ∃ rs, x.Complete given got s [.stop] rs
  | _ => False

-- ---------------------------------------------------------------------------
-- One call
-- ---------------------------------------------------------------------------

variable {w : Nat} {sl : Slave} {s : I2cData} {x given got}

theorem Regs.addrByte (h : x.Regs s) (forceRd : Bool) :
    s.addrByte forceRd = x.addr ||| if forceRd then 1 else 0 := by
  unfold I2cData.addrByte
  rw [h.addr]
  congr 1
  apply UInt8.toBitVec_inj.mp
  show ((x.addr.toBitVec.setWidth 16).setWidth 8) = x.addr.toBitVec
  apply BitVec.eq_of_toNat_eq
  have := x.addr.toBitVec.isLt
  rw [BitVec.toNat_setWidth, BitVec.toNat_setWidth]
  omega

theorem Regs.firstByte (h : x.Regs s) :
    [.start, .byte (s.addrByte s.forceRd)] = x.head := by
  have hrd : s.forceRd = decide (x.outLen = 0 ∧ x.inLen ≠ 0) := by
    unfold forceRd
    rw [h.obufLen, h.ibufLen]
    exact decide_eq_decide.mpr (by omega)
  rw [h.addrByte, hrd]
  unfold head headTrace
  by_cases hc : x.outLen = 0 ∧ x.inLen ≠ 0
  · simp [hc]
  · simp [hc]

/-- The data byte on the bus is the next one the host gave. -/
theorem Output.take_succ {d : Nat} (h : x.Output given got s d) (hne : s.obuf ≠ []) :
    d < given.length ∧ given.take (d + 1) = given.take d ++ [s.buffer s.obufTail] := by
  have hlen : d < given.length := by
    by_contra hge
    rw [h.obuf, List.drop_of_length_le (by omega)] at hne
    exact hne rfl
  have htail : s.obufTail ≠ s.obufHead := fun heq => hne (obuf_eq_nil_iff.mpr heq)
  have hcons : given.drop d = s.buffer s.obufTail :: _ := h.obuf.symm.trans (window_cons htail)
  refine ⟨hlen, ?_⟩
  rw [List.take_succ_eq_append_getElem hlen]
  rw [List.drop_eq_getElem_cons hlen] at hcons
  rw [(List.cons.inj hcons).1]

/-- Sending: what the next byte makes of the output phase. -/
theorem Output.sent {d : Nat} (h : x.Output given got s d) (hne : s.obuf ≠ []) :
    s.sent.dataCnt = d + 1 ∧ d + 1 ≤ given.length ∧
      s.sent.trace = x.before ++ x.head ++ (given.take (d + 1)).map .byte ∧
      s.sent.obuf = given.drop (d + 1) := by
  obtain ⟨hlen, htake⟩ := h.take_succ hne
  have hcnt : s.obufCnt ≠ 0 := by
    rw [← obuf_length]
    exact fun h0 => hne (List.length_eq_zero_iff.mp h0)
  have hd := h.lt
  have hn := x.outLen_lt
  refine ⟨?_, hlen, ?_, ?_⟩
  · show (s.dataCnt + 1) % 2 ^ 16 = d + 1
    rw [h.cnt]
    omega
  · show s.trace ++ [.byte (s.buffer s.obufTail)] = _
    rw [h.trace, htake, List.map_append, List.append_assoc]
    rfl
  · have hpop : s.sent.obuf = s.obuf.drop 1 := window_pop (Nat.one_le_iff_ne_zero.mpr hcnt)
    rw [hpop, h.obuf, List.drop_drop]

/-- Receiving: what the next byte makes of the input phase. -/
theorem Input.received {rs : List UInt8} (h : x.Input given got s rs) (hregs : x.Regs s)
    (hspace : s.ibufSpace ≠ 0) :
    (s.received w sl).dataCnt = rs.length + 1 ∧ (s.received w sl).ibufLen = x.inLen ∧
      (s.received w sl).trace = s.trace ++ [.recv (s.incoming sl),
        .acknak (!eqInt w (s.received w sl).dataCnt (s.received w sl).ibufLen)] ∧
      got ++ (s.received w sl).ibuf = rs ++ [s.incoming sl] := by
  have hd := h.lt
  have hm := x.inLen_lt
  have hcounters : s.counters w (s.incoming sl) = (rs.length + 1, (x.inLen : Int)) := by
    unfold counters
    rw [h.cnt, eqInt_neg_one (by omega), hregs.ibufLen]
    show ((rs.length + 1) % 2 ^ 16, _) = _
    rw [Nat.mod_eq_of_lt (by omega)]
  refine ⟨?_, ?_, rfl, ?_⟩
  · show (s.counters w (s.incoming sl)).1 = _
    rw [hcounters]
  · show (s.counters w (s.incoming sl)).2 = _
    rw [hcounters]
  · have hpush : (s.received w sl).ibuf = s.ibuf ++ [s.incoming sl] :=
      window_push_one (Nat.one_le_iff_ne_zero.mpr hspace)
    rw [hpush, ← List.append_assoc, h.input]

/-- A call leaves the registers of the transfer alone. -/
theorem Regs.goStep {r : Bool × I2cData} (hregs : x.Regs s) (hrun : x.Running given got s)
    (h : GoStep w sl s r) : x.Regs r.2 := by
  have hrecv : s.state = .receivingData → x.Regs (s.received w sl) := by
    intro hst
    unfold Running at hrun
    rw [hst] at hrun
    obtain ⟨hspace, rs, hin⟩ := hrun
    exact ⟨hregs.addr, hregs.obufLen, (hin.received hregs hspace).2.1⟩
  cases h with
  | dataAwait =>
    obtain ⟨st, q, hlow, -⟩ := lowWatermark_eq w s.sent
    rw [hlow]
    exact ⟨hregs.addr, hregs.obufLen, hregs.ibufLen⟩
  | recvDone hst =>
    have h := hrecv hst
    exact ⟨h.addr, h.obufLen, h.ibufLen⟩
  | recvMore hst =>
    have h := hrecv hst
    obtain ⟨st, q, hhigh, -⟩ := highWatermark_eq (s.received w sl)
    rw [hhigh]
    exact ⟨h.addr, h.obufLen, h.ibufLen⟩
  | recvAwait hst =>
    have h := hrecv hst
    exact ⟨h.addr, h.obufLen, h.ibufLen⟩
  | _ => exact ⟨hregs.addr, hregs.obufLen, hregs.ibufLen⟩

section Branches

theorem Queued.start (h : x.Queued given got s []) :
    x.Queued given got { s with trace := s.trace ++ [.start], state := .startSent } [.start] := by
  refine ⟨?_, h.obuf, h.given_ne, h.ibuf, h.got⟩
  show s.trace ++ [.start] = _
  rw [h.trace, List.append_nil]

theorem Queued.addrAck (h : x.Queued given got s [.start]) (hregs : x.Regs s) :
    x.Queued given got
      { s with trace := s.trace ++ [.byte (s.addrByte s.forceRd)], state := .addrSent } x.head := by
  refine ⟨?_, h.obuf, h.given_ne, h.ibuf, h.got⟩
  show s.trace ++ [.byte (s.addrByte s.forceRd)] = _
  rw [h.trace, List.append_assoc, ← hregs.firstByte]
  rfl

theorem Queued.noOutput (h : x.Queued given got s x.head) (hlen : x.outLen = 0) :
    x.Sent given got { s with state := .dataSent } [] := by
  refine ⟨by omega, ?_, h.ibuf, h.got⟩
  show s.trace = _
  rw [h.trace, hlen]
  simp

theorem Queued.output (h : x.Queued given got s x.head) (hlen : x.outLen ≠ 0) :
    s.obuf ≠ [] ∧ x.Output given got { s with dataCnt := 0, state := .sendingData } 0 := by
  refine ⟨?_, Nat.pos_of_ne_zero hlen, rfl, Nat.zero_le _, ?_, ?_, h.ibuf, h.got⟩
  · rw [h.obuf]
    exact h.given_ne hlen
  · show s.trace = _
    rw [h.trace]
    simp
  · show s.obuf = _
    rw [h.obuf, List.drop_zero]

theorem Output.done {d : Nat} (h : x.Output given got s d) (hne : s.obuf ≠ [])
    (hdone : d + 1 = x.outLen) :
    x.Sent given got { s.sent with obufTail := s.obufHead, state := .dataSent } [] := by
  obtain ⟨hcnt, hle, htrace, hobuf⟩ := h.sent hne
  refine ⟨by omega, ?_, h.ibuf, h.got⟩
  show s.sent.trace = _
  rw [htrace, hdone, List.append_nil]

/-- The state after a byte, whatever the interrupt leaves in `status` and `queue`. -/
theorem Output.next {d : Nat} (h : x.Output given got s d) (hne : s.obuf ≠ [])
    (hdone : d + 1 ≠ x.outLen) (st : UInt8) (q : List Event) (state : TransactionState) :
    x.Output given got { s.sent with status := st, queue := q, state := state } (d + 1) := by
  obtain ⟨hcnt, hle, htrace, hobuf⟩ := h.sent hne
  have hlt := h.lt
  exact ⟨by omega, hcnt, hle, htrace, hobuf, h.ibuf, h.got⟩

theorem Sent.noInput (h : x.Sent given got s []) (hm : x.inLen = 0) :
    x.Complete given got (s.ended [] TRANSACTION_OK) [.stop] [] := by
  refine ⟨h.supply, ?_, hm.symm, ?_⟩
  · show s.trace ++ [] ++ [.stop] = _
    rw [h.trace]
    unfold out outTrace
    rw [if_neg (by simp [hm])]
    simp [head, receptions]
  · show got ++ s.ibuf = []
    rw [h.got, h.ibuf]
    rfl

theorem Sent.repStart (h : x.Sent given got s []) :
    x.Sent given got
      { s with trace := s.trace ++ [.repStart], state := .repeatedStartSent, dataCnt := 0 }
      [.repStart] := by
  refine ⟨h.supply, ?_, h.ibuf, h.got⟩
  show s.trace ++ [.repStart] = _
  rw [h.trace, List.append_nil]

theorem Sent.addr2Ack (h : x.Sent given got s [.repStart]) (hregs : x.Regs s) :
    x.Sent given got { s with trace := s.trace ++ [.byte (s.addrByte true)], state := .addrSent2 }
      [.repStart, .byte (x.addr ||| 1)] := by
  refine ⟨h.supply, ?_, h.ibuf, h.got⟩
  show s.trace ++ [.byte (s.addrByte true)] = _
  rw [h.trace, hregs.addrByte, List.append_assoc]
  rfl

/-- The first reception, after a repeated start or without one. -/
theorem Sent.input {acts : List BusAction} (h : x.Sent given got s acts)
    (hacts : acts = if x.outLen ≠ 0 ∧ x.inLen ≠ 0 then [.repStart, .byte (x.addr ||| 1)] else [])
    (hm : x.inLen ≠ 0) :
    s.ibufSpace ≠ 0 ∧
      x.Input given got { s with dataCnt := 0, state := .receivingData } [] := by
  refine ⟨?_, h.supply, ?_, rfl, Nat.pos_of_ne_zero hm, ?_⟩
  · rw [ibufSpace_eq, ← ibuf_length, h.ibuf]
    decide
  · show s.trace = _
    rw [h.trace, hacts]
    unfold out outTrace
    simp [head]
  · show got ++ s.ibuf = []
    rw [h.got, h.ibuf]
    rfl

theorem Input.done {rs : List UInt8} (h : x.Input given got s rs) (hregs : x.Regs s)
    (hspace : s.ibufSpace ≠ 0)
    (hdone : eqInt w (s.received w sl).dataCnt (s.received w sl).ibufLen = true) :
    x.Complete given got { s.received w sl with state := .dataReceived } []
      (rs ++ [s.incoming sl]) := by
  obtain ⟨hcnt, hib, htrace, hinput⟩ := h.received hregs hspace
  have hlt := h.lt
  have hm := x.inLen_lt
  refine ⟨h.supply, ?_, ?_, hinput⟩
  · show (s.received w sl).trace = _
    rw [htrace, hdone, h.trace, receptions_append]
    simp
  · rw [hcnt, hib, eqInt_nat (by omega) hm, decide_eq_true_eq] at hdone
    rw [List.length_append, List.length_singleton, hdone]

theorem Input.next {rs : List UInt8} (h : x.Input given got s rs) (hregs : x.Regs s)
    (hspace : s.ibufSpace ≠ 0)
    (hdone : eqInt w (s.received w sl).dataCnt (s.received w sl).ibufLen = false)
    (st : UInt8) (q : List Event) (state : TransactionState) :
    x.Input given got { s.received w sl with status := st, queue := q, state := state }
      (rs ++ [s.incoming sl]) := by
  obtain ⟨hcnt, hib, htrace, hinput⟩ := h.received hregs hspace
  have hlt := h.lt
  have hm := x.inLen_lt
  refine ⟨h.supply, ?_, ?_, ?_, hinput⟩
  · show (s.received w sl).trace = _
    rw [htrace, hdone, h.trace]
    simp
  · show (s.received w sl).dataCnt = _
    rw [hcnt, List.length_append, List.length_singleton]
  · rw [hcnt, hib, eqInt_nat (by omega) hm, decide_eq_false_iff_not] at hdone
    rw [List.length_append, List.length_singleton]
    omega

theorem Complete.finish {rs : List UInt8} (h : x.Complete given got s [] rs) :
    x.Complete given got (s.ended [] TRANSACTION_OK) [.stop] rs := by
  refine ⟨h.supply, ?_, h.len, h.input⟩
  show s.trace ++ [] ++ [.stop] = _
  rw [h.trace]
  simp

end Branches

/-- **One call** moves the transaction on. -/
theorem running_goStep {r : Bool × I2cData} (hsl : sl.Responsive) (hregs : x.Regs s)
    (hrun : x.Running given got s) (h : GoStep w sl s r) :
    (r.1 = true → x.Running given got r.2) ∧ (r.1 = false → x.Waiting given got r.2) := by
  unfold Running at hrun
  have hob := hregs.obufLen
  have hib := hregs.ibufLen
  cases h with
  | start hst =>
    rw [hst] at hrun
    exact ⟨fun _ => hrun.start, nofun⟩
  | addrNak hst hnak => exact absurd hnak (hsl.not_nak _ _)
  | addrAck hst hack =>
    rw [hst] at hrun
    exact ⟨fun _ => hrun.addrAck hregs, nofun⟩
  | noOutput hst hlen =>
    rw [hst] at hrun
    exact ⟨fun _ => hrun.noOutput (hob ▸ hlen), nofun⟩
  | output hst hlen =>
    rw [hst] at hrun
    obtain ⟨hne, hout⟩ := hrun.output (hob ▸ hlen)
    exact ⟨fun _ => ⟨hne, 0, hout⟩, nofun⟩
  | dataNak hst hnak => exact absurd hnak (hsl.not_nak _ _)
  | dataDone hst hack hdone =>
    rw [hst] at hrun
    obtain ⟨hne, d, hout⟩ := hrun
    rw [(hout.sent hne).1, hob] at hdone
    exact ⟨fun _ => hout.done hne hdone, nofun⟩
  | dataMore hst hack hdone hcnt =>
    rw [hst] at hrun
    obtain ⟨hne, d, hout⟩ := hrun
    rw [(hout.sent hne).1, hob] at hdone
    refine ⟨fun _ => ⟨?_, d + 1, hout.next hne hdone _ _ _⟩, nofun⟩
    show s.sent.obuf ≠ []
    rw [← List.length_pos_iff, obuf_length]
    omega
  | dataAwait hst hack hdone hcnt =>
    rw [hst] at hrun
    obtain ⟨hne, d, hout⟩ := hrun
    rw [(hout.sent hne).1, hob] at hdone
    obtain ⟨st, q, hlow, -⟩ := lowWatermark_eq w s.sent
    rw [hlow]
    refine ⟨nofun, fun _ => ⟨d + 1, hout.next hne hdone st _ _, ?_⟩⟩
    show s.sent.obufCnt < _
    have hlt := hout.lt
    rw [hcnt]
    unfold OBUF_HIGH_WATERMARK bufSize
    omega
  | noInput hst hlen =>
    rw [hst] at hrun
    rw [hib] at hlen
    exact ⟨nofun, fun _ => ⟨rfl, [], hrun.noInput (by exact_mod_cast hlen)⟩⟩
  | readOnly hst hlen hout =>
    rw [hst] at hrun
    rw [hib] at hlen
    rw [hob] at hout
    obtain ⟨hspace, hin⟩ := hrun.input (by simp [hout]) (by exact_mod_cast hlen)
    exact ⟨fun _ => ⟨hspace, [], hin⟩, nofun⟩
  | repStart hst hlen hout =>
    rw [hst] at hrun
    rw [hib] at hlen
    rw [hob] at hout
    exact ⟨fun _ => ⟨⟨hout, by exact_mod_cast hlen⟩, hrun.repStart⟩, nofun⟩
  | addr2Nak hst hnak => exact absurd hnak (hsl.not_nak _ _)
  | addr2Ack hst hack =>
    rw [hst] at hrun
    exact ⟨fun _ => ⟨hrun.1, hrun.2.addr2Ack hregs⟩, nofun⟩
  | input hst =>
    rw [hst] at hrun
    obtain ⟨hboth, hsent⟩ := hrun
    have hneg : s.ibufLen ≠ -1 := by
      rw [hib]
      omega
    rw [if_neg hneg]
    obtain ⟨hspace, hin⟩ := hsent.input (by rw [if_pos hboth]) hboth.2
    exact ⟨fun _ => ⟨hspace, [], hin⟩, nofun⟩
  | invalidLen hst hsmbus hbig =>
    -- a count below 4096 is not the mark of a block read
    rw [hst] at hrun
    obtain ⟨hspace, rs, hin⟩ := hrun
    have hlt := hin.lt
    have hm := x.inLen_lt
    rw [hin.cnt, eqInt_neg_one (by omega)] at hsmbus
    cases hsmbus
  | recvDone hst hlen hdone =>
    rw [hst] at hrun
    obtain ⟨hspace, rs, hin⟩ := hrun
    exact ⟨fun _ => ⟨_, hin.done hregs hspace hdone⟩, nofun⟩
  | recvMore hst hlen hdone hmore =>
    rw [hst] at hrun
    obtain ⟨hspace, rs, hin⟩ := hrun
    obtain ⟨st, q, hhigh, -⟩ := highWatermark_eq (s.received w sl)
    rw [hhigh]
    exact ⟨fun _ => ⟨hmore, _, hin.next hregs hspace hdone st _ _⟩, nofun⟩
  | recvAwait hst hlen hdone hfull =>
    rw [hst] at hrun
    obtain ⟨hspace, rs, hin⟩ := hrun
    exact ⟨nofun, fun _ => ⟨hfull, _, hin.next hregs hspace hdone _ _ _⟩⟩
  | finish hst =>
    rw [hst] at hrun
    obtain ⟨rs, hdone⟩ := hrun
    exact ⟨nofun, fun _ => ⟨rfl, rs, hdone.finish⟩⟩
  | ignore hst =>
    rcases hst with hst | hst | hst <;> (rw [hst] at hrun; exact hrun.elim)

/-- **One delivery**: the loop runs until the transaction waits or is over. -/
theorem waiting_goAll (hsl : sl.Responsive) (hregs : x.Regs s) (hrun : x.Running given got s) :
    x.Regs (s.goAll w sl) ∧ x.Waiting given got (s.goAll w sl) := by
  refine goAll_rule w sl (P := fun s t => x.Regs s → x.Running given got s →
    x.Regs t ∧ x.Waiting given got t) ?_ ?_ s hregs hrun
  · intro s hlast hregs hrun
    have hstep := handleGo_step w sl s
    exact ⟨hregs.goStep hrun hstep, (running_goStep hsl hregs hrun hstep).2 hlast⟩
  · intro s t hmore ih hregs hrun
    have hstep := handleGo_step w sl s
    exact ih (hregs.goStep hrun hstep) ((running_goStep hsl hregs hrun hstep).1 hmore)

-- ---------------------------------------------------------------------------
-- The host's accesses
-- ---------------------------------------------------------------------------

section Frame

/-- Where the transaction stands does not depend on the queue. -/
theorem Running.setQueue (h : x.Running given got s) (q : List Event) :
    x.Running given got { s with queue := q } := by
  unfold Running at h ⊢
  cases hst : s.state with
  | idle | startSent | addrSent =>
    rw [hst] at h
    exact ⟨h.trace, h.obuf, h.given_ne, h.ibuf, h.got⟩
  | sendingData =>
    rw [hst] at h
    obtain ⟨hne, d, h⟩ := h
    exact ⟨hne, d, h.lt, h.cnt, h.le, h.trace, h.obuf, h.ibuf, h.got⟩
  | dataSent =>
    rw [hst] at h
    exact ⟨h.supply, h.trace, h.ibuf, h.got⟩
  | repeatedStartSent | addrSent2 =>
    rw [hst] at h
    exact ⟨h.1, h.2.supply, h.2.trace, h.2.ibuf, h.2.got⟩
  | receivingData =>
    rw [hst] at h
    obtain ⟨hspace, rs, h⟩ := h
    exact ⟨hspace, rs, h.supply, h.trace, h.cnt, h.lt, h.input⟩
  | dataReceived =>
    rw [hst] at h
    obtain ⟨rs, h⟩ := h
    exact ⟨rs, h.supply, h.trace, h.len, h.input⟩
  | awaitingOutputData | awaitingInputSpace | error =>
    rw [hst] at h
    exact h.elim

theorem Waiting.setQueue (h : x.Waiting given got s) (q : List Event) :
    x.Waiting given got { s with queue := q } := by
  unfold Waiting at h ⊢
  cases hst : s.state with
  | awaitingOutputData =>
    rw [hst] at h
    obtain ⟨d, h, hshort⟩ := h
    exact ⟨d, ⟨h.lt, h.cnt, h.le, h.trace, h.obuf, h.ibuf, h.got⟩, hshort⟩
  | awaitingInputSpace =>
    rw [hst] at h
    obtain ⟨hspace, rs, h⟩ := h
    exact ⟨hspace, rs, h.supply, h.trace, h.cnt, h.lt, h.input⟩
  | idle =>
    rw [hst] at h
    obtain ⟨hok, rs, h⟩ := h
    exact ⟨hok, rs, h.supply, h.trace, h.len, h.input⟩
  | _ =>
    rw [hst] at h
    exact h.elim

/-- Bytes read by the host move from the window to what it has got. -/
theorem take_read {n : Nat} {rs : List UInt8} (hn : n ≤ s.ibufCnt) (h : got ++ s.ibuf = rs) :
    (got ++ s.ibuf.take n) ++ { s with ibufTail := mask (s.ibufTail + n) }.ibuf = rs := by
  have hpop : { s with ibufTail := mask (s.ibufTail + n) }.ibuf = s.ibuf.drop n := window_pop hn
  rw [hpop, List.append_assoc, List.take_append_drop, h]

theorem Input.read {n : Nat} {rs : List UInt8} (hn : n ≤ s.ibufCnt) (h : x.Input given got s rs)
    (q : List Event) (state : TransactionState) :
    x.Input given (got ++ s.ibuf.take n)
      { s with ibufTail := mask (s.ibufTail + n), queue := q, state := state } rs :=
  ⟨h.supply, h.trace, h.cnt, h.lt, take_read hn h.input⟩

theorem Complete.read {n : Nat} {acts : List BusAction} {rs : List UInt8} (hn : n ≤ s.ibufCnt)
    (h : x.Complete given got s acts rs) (state : TransactionState) :
    x.Complete given (got ++ s.ibuf.take n)
      { s with ibufTail := mask (s.ibufTail + n), state := state } acts rs :=
  ⟨h.supply, h.trace, h.len, take_read hn h.input⟩

/-- Reading makes space. -/
theorem read_space {n : Nat} (hn : n ≤ s.ibufCnt) (q : List Event) (state : TransactionState) :
    { s with ibufTail := mask (s.ibufTail + n), queue := q, state := state }.ibufSpace =
      s.ibufSpace + n := by
  have hcnt : { s with ibufTail := mask (s.ibufTail + n), queue := q, state := state }.ibufCnt =
      s.ibufCnt - n := cnt_pop hn
  have hle := s.ibufCnt_le
  rw [ibufSpace_eq, ibufSpace_eq, hcnt]
  omega

/-- A read during the loop's pauses that finds bytes: the transaction is in its
input phase, or past it. -/
theorem Running.read {n : Nat} (hpos : 1 ≤ n) (hn : n ≤ s.ibufCnt) (h : x.Running given got s) :
    x.Running given (got ++ s.ibuf.take n) { s with ibufTail := mask (s.ibufTail + n) } := by
  have hne : s.ibuf ≠ [] := by
    rw [← List.length_pos_iff, ibuf_length]
    omega
  unfold Running at h ⊢
  cases hst : s.state with
  | idle | startSent | addrSent | dataSent =>
    rw [hst] at h
    exact absurd h.ibuf hne
  | sendingData =>
    rw [hst] at h
    obtain ⟨-, d, h⟩ := h
    exact absurd h.ibuf hne
  | repeatedStartSent | addrSent2 =>
    rw [hst] at h
    exact absurd h.2.ibuf hne
  | receivingData =>
    rw [hst] at h
    obtain ⟨hspace, rs, h⟩ := h
    refine ⟨?_, rs, h.read hn _ _⟩
    rw [read_space hn _ _]
    omega
  | dataReceived =>
    rw [hst] at h
    obtain ⟨rs, h⟩ := h
    exact ⟨rs, h.read hn _⟩
  | awaitingOutputData | awaitingInputSpace | error =>
    rw [hst] at h
    exact h.elim

/-- Bytes accepted from the host in the output phase. -/
theorem Output.write {d : Nat} {src : List UInt8} (h : x.Output given got s d)
    (hlen : src.length ≤ s.obufSpace) (q : List Event) (state : TransactionState) :
    x.Output (given ++ src) got { s.putOutput src with queue := q, state := state } d := by
  refine ⟨h.lt, h.cnt, ?_, ?_, ?_, ?_, h.got⟩
  · rw [List.length_append]
    exact h.le.trans (Nat.le_add_right _ _)
  · show s.trace = _
    rw [h.trace, List.take_append_of_le_length h.le]
  · show (s.putOutput src).obuf = _
    rw [putOutput_obuf hlen, h.obuf, List.drop_append_of_le_length h.le]
  · have hnil : s.ibufTail = s.ibufHead := window_eq_nil_iff.mp h.ibuf
    exact window_eq_nil_iff.mpr hnil

/-- The resume condition of `i2c_bitbang_obuf_wrb`, without machine integers. -/
theorem enoughOutput_iff {d : Nat} (hw : 16 ≤ w) (hregs : x.Regs s) (hcnt : s.dataCnt = d)
    (hd : d < x.outLen) :
    s.enoughOutput w = true ↔ min (x.outLen - d) OBUF_HIGH_WATERMARK ≤ s.obufCnt := by
  have hn := x.outLen_lt
  have hpow : 2 ^ 16 ≤ 2 ^ w := Nat.pow_le_pow_right (by decide) hw
  unfold enoughOutput
  rw [hregs.obufLen, hcnt, subInt_nat hd.le hn]
  have htogo : (((x.outLen - d : Nat) : Int) % 2 ^ w).toNat = x.outLen - d := by
    rw [Int.emod_eq_of_lt (by omega) (by exact_mod_cast (by omega : x.outLen - d < 2 ^ w))]
    rfl
  simp only [htogo, decide_eq_true_eq]
  split <;> omega

end Frame

end Transfer

-- ---------------------------------------------------------------------------
-- Schedules
-- ---------------------------------------------------------------------------

namespace Sched

variable {w : Nat} {sl : Slave} {t : Sched} {x : Transfer}

/-- The invariant of a schedule: one `I2C_GO` is queued exactly while the machine
can go on. -/
structure Phase (x : Transfer) (t : Sched) : Prop where
  regs : x.Regs t.dev
  noReset : .i2cReset ∉ t.dev.queue
  stands : (t.dev.queue.count .i2cGo = 1 ∧ x.Running t.given t.got t.dev) ∨
    (t.dev.queue.count .i2cGo = 0 ∧ x.Waiting t.given t.got t.dev)

/-- A machine that awaits output is not running. -/
theorem Phase.awaiting (h : t.Phase x) (hst : t.dev.state = .awaitingOutputData) :
    t.dev.queue.count .i2cGo = 0 ∧ ∃ d, x.Output t.given t.got t.dev d ∧
      t.dev.obufCnt < min (x.outLen - d) OBUF_HIGH_WATERMARK := by
  rcases h.stands with ⟨-, hrun⟩ | ⟨hgo, hwait⟩
  · unfold Transfer.Running at hrun
    rw [hst] at hrun
    exact hrun.elim
  · unfold Transfer.Waiting at hwait
    rw [hst] at hwait
    exact ⟨hgo, hwait⟩

theorem Phase.obufWr {inp : Vector UInt8 8} {fill : Bool} (hw : 16 ≤ w) (h : t.Phase x)
    (hst : t.dev.state = .awaitingOutputData) : (t.step w sl (.obufWr inp fill)).Phase x := by
  obtain ⟨hgo, d, hout, hshort⟩ := h.awaiting hst
  have hregs := h.regs
  have hle := t.dev.obufCnt_le
  have hsz := accessSize_le fill
  -- the window holds less than the high watermark, so any access fits
  have hspace : accessSize fill ≤ t.dev.obufSpace := by
    rw [obufSpace_eq]
    unfold OBUF_HIGH_WATERMARK bufSize at hshort
    omega
  have hpos : ¬(t.dev.obufWrb w inp fill).1 < 0 := by
    rw [obufWrb_neg_iff]
    omega
  have hlen : (offered inp fill).length ≤ t.dev.obufSpace := by
    rw [offered_length]
    exact hspace
  have hstep := step_obufWr w sl t.dev inp fill
  rw [if_neg (by omega)] at hstep
  have hgiven : (t.step w sl (.obufWr inp fill)).given = t.given ++ offered inp fill := if_neg hpos
  have hcnt : (t.dev.putOutput (offered inp fill)).obufCnt = t.dev.obufCnt + accessSize fill := by
    rw [putOutput_obufCnt hlen, offered_length]
  have hregs' : x.Regs (t.dev.putOutput (offered inp fill)) :=
    ⟨hregs.addr, hregs.obufLen, hregs.ibufLen⟩
  have henough := Transfer.enoughOutput_iff hw hregs' hout.cnt hout.lt
  have hone := accessSize_pos fill
  by_cases hresume : (t.dev.putOutput (offered inp fill)).enoughOutput w = true
  · have hdev : (t.step w sl (.obufWr inp fill)).dev =
        { t.dev.putOutput (offered inp fill) with
          state := .sendingData, queue := t.dev.queue ++ [.i2cGo] } :=
      hstep.trans (if_pos ⟨hst, hresume⟩)
    refine ⟨?_, ?_, .inl ⟨?_, ?_⟩⟩
    · rw [hdev]
      exact ⟨hregs.addr, hregs.obufLen, hregs.ibufLen⟩
    · rw [hdev]
      simp [h.noReset]
    · rw [hdev]
      simp [hgo]
    · rw [hdev, hgiven]
      refine ⟨?_, d, hout.write hlen _ _⟩
      show (t.dev.putOutput (offered inp fill)).obuf ≠ []
      rw [← List.length_pos_iff, obuf_length]
      omega
  · have hdev : (t.step w sl (.obufWr inp fill)).dev = t.dev.putOutput (offered inp fill) :=
      hstep.trans (if_neg fun hboth => hresume hboth.2)
    refine ⟨?_, ?_, .inr ⟨?_, ?_⟩⟩
    · rw [hdev]
      exact hregs'
    · rw [hdev]
      exact h.noReset
    · rw [hdev]
      exact hgo
    · rw [hdev, hgiven]
      unfold Transfer.Waiting
      have hput : (t.dev.putOutput (offered inp fill)).state = .awaitingOutputData := hst
      rw [hput]
      rw [henough] at hresume
      exact ⟨d, hout.write hlen _ _, Nat.lt_of_not_le hresume⟩

theorem step_ibufRd_refused {fill : Bool} (hcnt : t.dev.ibufCnt < accessSize fill) :
    t.step w sl (.ibufRd fill) = t := by
  have hdev := step_ibufRd w sl t.dev fill
  rw [if_pos hcnt] at hdev
  unfold step gotAfter givenAfter
  simp only [hdev, ibufRdb_refused hcnt, List.append_nil]

theorem step_ibufRd_accepted {fill : Bool} (hcnt : accessSize fill ≤ t.dev.ibufCnt) :
    t.step w sl (.ibufRd fill) =
      ⟨{ t.dev with ibufTail := mask (t.dev.ibufTail + accessSize fill) }.resumeInput, t.given,
        t.got ++ t.dev.ibuf.take (accessSize fill)⟩ := by
  have hdev := step_ibufRd w sl t.dev fill
  rw [if_neg (Nat.not_lt.mpr hcnt)] at hdev
  unfold step gotAfter givenAfter
  simp only [hdev, ibufRdb_accepted hcnt]

theorem Phase.ibufRd {fill : Bool} (h : t.Phase x) : (t.step w sl (.ibufRd fill)).Phase x := by
  have hregs := h.regs
  have hone := accessSize_pos fill
  by_cases hcnt : t.dev.ibufCnt < accessSize fill
  · rw [step_ibufRd_refused hcnt]
    exact h
  · have hcnt := Nat.not_lt.mp hcnt
    have hne : t.dev.ibuf ≠ [] := by
      rw [← List.length_pos_iff, ibuf_length]
      omega
    rw [step_ibufRd_accepted hcnt]
    have hregs' : x.Regs { t.dev with ibufTail := mask (t.dev.ibufTail + accessSize fill) } :=
      ⟨hregs.addr, hregs.obufLen, hregs.ibufLen⟩
    rcases h.stands with ⟨hgo, hrun⟩ | ⟨hgo, hwait⟩
    · -- the machine does not wait for space
      have hst : t.dev.state ≠ .awaitingInputSpace := by
        intro hst
        unfold Transfer.Running at hrun
        rw [hst] at hrun
        exact hrun
      unfold resumeInput
      rw [if_neg hst]
      exact ⟨hregs', h.noReset, .inl ⟨hgo, hrun.read hone hcnt⟩⟩
    · unfold Transfer.Waiting at hwait
      cases hst : t.dev.state with
      | awaitingInputSpace =>
        rw [hst] at hwait
        obtain ⟨-, rs, hin⟩ := hwait
        unfold resumeInput
        rw [if_pos hst]
        refine ⟨⟨hregs.addr, hregs.obufLen, hregs.ibufLen⟩, ?_, .inl ⟨?_, ?_, rs, hin.read hcnt _ _⟩⟩
        · simp [h.noReset]
        · simp [hgo]
        · rw [Transfer.read_space hcnt _ _]
          omega
      | idle =>
        rw [hst] at hwait
        obtain ⟨hok, rs, hdone⟩ := hwait
        unfold resumeInput
        rw [if_neg (by rw [hst]; nofun)]
        refine ⟨hregs', h.noReset, .inr ⟨hgo, ?_⟩⟩
        unfold Transfer.Waiting
        simp only [hst]
        exact ⟨hok, rs, hdone.read hcnt _⟩
      | awaitingOutputData =>
        rw [hst] at hwait
        obtain ⟨d, hout, -⟩ := hwait
        exact absurd hout.ibuf hne
      | _ =>
        rw [hst] at hwait
        exact hwait.elim

theorem Phase.deliver (hsl : sl.Responsive) (h : t.Phase x) : (t.step w sl .deliver).Phase x := by
  obtain ⟨hregs, hreset, hstands⟩ := h
  have hgiven : t.step w sl .deliver = ⟨t.dev.step w sl .deliver, t.given, t.got⟩ := rfl
  rw [hgiven]
  cases hq : t.dev.queue with
  | nil =>
    rw [step_deliver_nil w sl hq]
    exact ⟨hregs, hreset, hstands⟩
  | cons e q =>
    rw [step_deliver_cons w sl hq]
    rw [hq] at hreset hstands
    have hregs' : x.Regs { t.dev with queue := q } := ⟨hregs.addr, hregs.obufLen, hregs.ibufLen⟩
    have hreset' : .i2cReset ∉ q := fun hmem => hreset (List.mem_cons_of_mem _ hmem)
    cases e with
    | i2cReset => exact absurd (List.mem_cons_self ..) hreset
    | mcuioIrq active =>
      refine ⟨hregs', hreset', ?_⟩
      rw [List.count_cons_of_ne (by nofun)] at hstands
      exact hstands.imp (fun h => ⟨h.1, h.2.setQueue q⟩) fun h => ⟨h.1, h.2.setQueue q⟩
    | i2cGo =>
      rw [List.count_cons_self] at hstands
      obtain ⟨hgo, hrun⟩ : q.count .i2cGo = 0 ∧ x.Running t.given t.got t.dev := by
        rcases hstands with ⟨hgo, hrun⟩ | ⟨hgo, -⟩
        · exact ⟨by omega, hrun⟩
        · omega
      obtain ⟨hregs'', hwait⟩ := Transfer.waiting_goAll (w := w) hsl hregs' (hrun.setQueue q)
      obtain ⟨irqs, hirqs, hirq⟩ := goAll_queue w sl { t.dev with queue := q }
      have hother : ∀ e : Event, e ≠ .mcuioIrq true → e ∉ irqs := fun e he hmem => he (hirq e hmem)
      refine ⟨hregs'', ?_, .inr ⟨?_, hwait⟩⟩
      · show .i2cReset ∉ ({ t.dev with queue := q }.goAll w sl).queue
        rw [hirqs, List.mem_append]
        exact fun h => h.elim hreset' (hother .i2cReset nofun)
      · show ({ t.dev with queue := q }.goAll w sl).queue.count Event.i2cGo = 0
        rw [hirqs, List.count_append, hgo, List.count_eq_zero.mpr (hother .i2cGo nofun)]

/-- **One step of a schedule.** -/
theorem phase_step {op : Op} (hw : 16 ≤ w) (hsl : sl.Responsive) (h : t.Phase x)
    (hop : t.InSchedule op) : (t.step w sl op).Phase x := by
  cases op with
  | obufWr inp fill => exact h.obufWr hw hop
  | ibufRd fill => exact h.ibufRd
  | deliver => exact h.deliver hsl
  | regRd addr fill => exact hop.elim
  | regWr addr in0 in1 fill => exact hop.elim

/-- Before the start: what the host has written is in the output window. -/
structure Preparing (x : Transfer) (t : Sched) : Prop where
  regs : x.Regs t.dev
  queue : ∀ e ∈ t.dev.queue, e ≠ .i2cGo ∧ e ≠ .i2cReset
  state : t.dev.state = .idle
  trace : t.dev.trace = x.before
  obuf : t.dev.obuf = t.given
  ibuf : t.dev.ibuf = []
  got : t.got = []

theorem Preparing.obufWr {inp : Vector UInt8 8} {fill : Bool} (h : t.Preparing x) :
    (t.step w sl (.obufWr inp fill)).Preparing x := by
  have hdev := step_obufWr w sl t.dev inp fill
  by_cases hsp : t.dev.obufSpace < accessSize fill
  · rw [if_pos hsp] at hdev
    have hstep : t.step w sl (.obufWr inp fill) = t := by
      unfold step gotAfter givenAfter
      simp only [hdev, if_pos (obufWrb_neg_iff.mpr hsp)]
    rw [hstep]
    exact h
  · rw [if_neg hsp] at hdev
    have hres : (t.dev.putOutput (offered inp fill)).resumeOutput w =
        t.dev.putOutput (offered inp fill) := by
      refine if_neg fun hboth => ?_
      have hst : t.dev.state = .awaitingOutputData := hboth.1
      rw [h.state] at hst
      cases hst
    have hstep : t.step w sl (.obufWr inp fill) =
        ⟨t.dev.putOutput (offered inp fill), t.given ++ offered inp fill, t.got⟩ := by
      unfold step gotAfter givenAfter
      simp only [hdev, hres, if_neg fun hneg => hsp (obufWrb_neg_iff.mp hneg)]
    rw [hstep]
    refine ⟨⟨h.regs.addr, h.regs.obufLen, h.regs.ibufLen⟩, h.queue, h.state, h.trace, ?_, ?_, h.got⟩
    · show (t.dev.putOutput (offered inp fill)).obuf = _
      rw [putOutput_obuf (by rw [offered_length]; omega), h.obuf]
    · have hnil : t.dev.ibufTail = t.dev.ibufHead := window_eq_nil_iff.mp h.ibuf
      exact window_eq_nil_iff.mpr hnil

theorem Preparing.writes (w : Nat) (sl : Slave) (writes : List (Vector UInt8 8 × Bool)) :
    ∀ {t : Sched}, t.Preparing x → (runFrom (step w sl) t (writes.map fun p => .obufWr p.1 p.2)).Preparing x := by
  induction writes with
  | nil => exact fun h => h
  | cons p writes ih => exact fun h => ih h.obufWr

theorem step_xferData (w : Nat) (sl : Slave) (t : Sched) (v : BitVec 32) :
    t.step w sl (.regWr I2C_MCUIO_XFER_DATA v 0 false) =
      ⟨{ t.dev with
          slaveAddress := (v &&& 0xff).setWidth 16
          obufLen := (v >>> 8 &&& 0xfff).toNat
          ibufLen := (v >>> 20 &&& 0xfff).toNat }, t.given, t.got⟩ := rfl

/-- The start bit of the command register queues an `I2C_GO`. -/
theorem step_cmdStart (w : Nat) (sl : Slave) (t : Sched) {cmd : BitVec 32}
    (hcmd : cmd &&& START_TRANSACTION ≠ 0) :
    t.step w sl (.regWr I2C_MCUIO_CMD cmd 0 false) =
      ⟨{ t.dev with queue := t.dev.queue ++ [.i2cGo], intEnable := cmd &&& INTEN }, t.given,
        t.got⟩ := by
  have hcall : t.dev.step w sl (.regWr I2C_MCUIO_CMD cmd 0 false) =
      { t.dev with queue := t.dev.queue ++ [.i2cGo], intEnable := cmd &&& INTEN } := by
    show { (if cmd &&& START_TRANSACTION ≠ 0 then t.dev.trigger .i2cGo else t.dev) with
      intEnable := cmd &&& INTEN } = _
    rw [if_pos hcmd]
    rfl
  unfold step
  rw [hcall]
  rfl

/-- The write of the transfer register. -/
theorem preparing_start (w : Nat) (sl : Slave) {s : I2cData} (hidle : s.state = .idle)
    (hqueue : ∀ e ∈ s.queue, e ≠ .i2cGo ∧ e ≠ .i2cReset) (hobuf : s.obufTail = s.obufHead)
    (hibuf : s.ibufTail = s.ibufHead) (hx : x.before = s.trace) :
    ((start s).step w sl
      (.regWr I2C_MCUIO_XFER_DATA (xferWord x.addr x.outLen x.inLen) 0 false)).Preparing x := by
  obtain ⟨ha, hn, hm⟩ := xferWord_fields (a := x.addr) x.outLen_lt x.inLen_lt
  rw [step_xferData, ha, hn, hm]
  exact ⟨⟨rfl, rfl, rfl⟩, hqueue, hidle, hx.symm, window_eq_nil_iff.mpr hobuf,
    window_eq_nil_iff.mpr hibuf, rfl⟩

/-- The state in which the `I2C_GO` of the start is queued. -/
theorem setup_phase {s : I2cData} {writes : List (Vector UInt8 8 × Bool)} {cmd : BitVec 32}
    (hidle : s.state = .idle) (hqueue : ∀ e ∈ s.queue, e ≠ .i2cGo ∧ e ≠ .i2cReset)
    (hobuf : s.obufTail = s.obufHead) (hibuf : s.ibufTail = s.ibufHead)
    (hx : x.before = s.trace) (hcmd : cmd &&& START_TRANSACTION ≠ 0)
    (hgiven : x.outLen ≠ 0 → (runFrom (step w sl) (start s)
      (setup x.addr x.outLen x.inLen writes cmd)).given ≠ []) :
    (runFrom (step w sl) (start s) (setup x.addr x.outLen x.inLen writes cmd)).Phase x := by
  have hfirst := preparing_start w sl hidle hqueue hobuf hibuf hx
  have hwrites := hfirst.writes w sl writes
  unfold setup at hgiven ⊢
  rw [List.cons_append, runFrom_cons, runFrom_append] at hgiven ⊢
  generalize runFrom (step w sl) _ (writes.map _) = t at hwrites hgiven ⊢
  have hstep : runFrom (step w sl) t [.regWr I2C_MCUIO_CMD cmd 0 false] =
      ⟨{ t.dev with queue := t.dev.queue ++ [.i2cGo], intEnable := cmd &&& INTEN }, t.given, t.got⟩ :=
    step_cmdStart w sl t hcmd
  rw [hstep] at hgiven ⊢
  refine ⟨⟨hwrites.regs.addr, hwrites.regs.obufLen, hwrites.regs.ibufLen⟩, ?_, .inl ⟨?_, ?_⟩⟩
  · have hno : .i2cReset ∉ t.dev.queue := fun hmem => (hwrites.queue _ hmem).2 rfl
    simp [hno]
  · have hno : Event.i2cGo ∉ t.dev.queue := fun hmem => (hwrites.queue _ hmem).1 rfl
    simp [List.count_eq_zero.mpr hno]
  · unfold Transfer.Running
    have hst : t.dev.state = .idle := hwrites.state
    simp only [hst]
    refine ⟨?_, hwrites.obuf, hgiven, hwrites.ibuf, hwrites.got⟩
    rw [List.append_nil]
    exact hwrites.trace

/-- Along a whole run, the bytes are on SDA as the trace says. -/
theorem run_extends (hsl : sl.Responsive) (ops : List Op) (t : Sched) :
    sl.Extends t.dev.trace (runFrom (step w sl) t ops).dev.trace := by
  induction ops generalizing t with
  | nil => exact Slave.extends_refl sl _
  | cons op ops ih => exact (step_extends hsl t.dev op).trans (ih (t.step w sl op))

/-- **The transaction.** From an idle controller with empty windows: the host sets
up a transfer of `n` output and `m` input bytes, writes at least one byte if there
is output, and starts it. At the end of every schedule that supplies `n` bytes,
leaves no `I2C_GO` waiting and does not leave the machine without input space,
the bus has seen exactly the trace of the transfer, with the bits of each byte sent
set on SDA and each byte received made of the levels the slave has left there, the
bytes read by the host and those left in the window are the `m` bytes received, in
order, and the machine is idle with the status `TRANSACTION_OK`. -/
theorem transaction_trace {a : UInt8} {n m : Nat} {s : I2cData}
    {writes : List (Vector UInt8 8 × Bool)} {cmd : BitVec 32} {ops : List Op} {t₀ t : Sched}
    (hw : 16 ≤ w) (hsl : sl.Responsive) (hn : n < 4096) (hm : m < 4096)
    (hidle : s.state = .idle) (hqueue : ∀ e ∈ s.queue, e ≠ .i2cGo ∧ e ≠ .i2cReset)
    (hobuf : s.obufTail = s.obufHead) (hibuf : s.ibufTail = s.ibufHead)
    (hsetup : runFrom (step w sl) (start s) (setup a n m writes cmd) = t₀)
    (hcmd : cmd &&& START_TRANSACTION ≠ 0) (hgiven : n ≠ 0 → t₀.given ≠ [])
    (hrun : EachStep (step w sl) InSchedule t₀ ops) (hend : runFrom (step w sl) t₀ ops = t)
    (hsupply : n ≤ t.given.length) (hgo : .i2cGo ∉ t.dev.queue)
    (hspace : t.dev.state ≠ .awaitingInputSpace) :
    ∃ input : List UInt8, input.length = m ∧
      t.dev.trace = s.trace ++ busTrace a n m (t.given.take n) input ∧
      sl.AllOnSda s.trace (busTrace a n m (t.given.take n) input) ∧
      t.got ++ t.dev.ibuf = input ∧ t.dev.state = .idle ∧ t.dev.status = TRANSACTION_OK := by
  let x : Transfer := ⟨s.trace, a, n, m, hn, hm⟩
  have hstart : t₀.Phase x := by
    rw [← hsetup] at hgiven ⊢
    exact setup_phase (x := x) hidle hqueue hobuf hibuf rfl hcmd hgiven
  have hphase : t.Phase x := by
    rw [← hend]
    exact EachStep.inv (fun (t : Sched) _ (h : t.Phase x) hop => phase_step hw hsl h hop) hstart hrun
  rcases hphase.stands with ⟨hone, -⟩ | ⟨-, hwait⟩
  · exact absurd (List.count_pos_iff.mp (by omega)) hgo
  · unfold Transfer.Waiting at hwait
    cases hst : t.dev.state with
    | awaitingOutputData =>
      -- all `n` bytes are there: the machine would have been resumed
      rw [hst] at hwait
      obtain ⟨d, hout, hshort⟩ := hwait
      rw [← obuf_length, hout.obuf, List.length_drop] at hshort
      have hlt : d < n := hout.lt
      have hxn : x.outLen = n := rfl
      omega
    | awaitingInputSpace => exact absurd hst hspace
    | idle =>
      rw [hst] at hwait
      obtain ⟨hok, rs, hdone⟩ := hwait
      have htrace : t.dev.trace = s.trace ++ busTrace a n m (t.given.take n) rs := by
        rw [hdone.trace]
        unfold busTrace Transfer.out
        simp only [List.append_assoc]
        rfl
      obtain ⟨acts, hacts, hsda⟩ : sl.Extends s.trace t.dev.trace := by
        rw [← hend, ← hsetup]
        exact (run_extends hsl _ (start s)).trans (run_extends hsl ops _)
      rw [htrace] at hacts
      rw [← List.append_cancel_left hacts] at hsda
      exact ⟨rs, hdone.len, htrace, hsda, hdone.input, rfl, hok⟩
    | _ =>
      rw [hst] at hwait
      exact hwait.elim

theorem steady_responsive (c : UInt8) : (Slave.steady c).Responsive := by
  refine ⟨fun _ _ _ => rfl, fun _ _ => ?_, fun _ _ => ?_⟩ <;> exact fun h => Pulse.noConfusion h

/-- One byte out and one byte in: the start written, then the event delivered and
the byte read. -/
def oneByteStarted : Sched :=
  runFrom (step 32 (.steady 0x5a)) (start .init)
    (setup 0x40 1 1 [(oneByte 0x55, false)] 1)

@[inherit_doc oneByteStarted]
def oneByteDone : Sched :=
  runFrom (step 32 (.steady 0x5a)) oneByteStarted [.deliver, .ibufRd false]

theorem transaction_trace_one_byte :
    ∃ input : List UInt8, input.length = 1 ∧
      oneByteDone.dev.trace = [] ++ busTrace 0x40 1 1 (oneByteDone.given.take 1) input ∧
      (Slave.steady 0x5a).AllOnSda [] (busTrace 0x40 1 1 (oneByteDone.given.take 1) input) ∧
      oneByteDone.got ++ oneByteDone.dev.ibuf = input ∧ oneByteDone.dev.state = .idle ∧
      oneByteDone.dev.status = TRANSACTION_OK :=
  have hrun : EachStep (step 32 (.steady 0x5a)) InSchedule oneByteStarted
      [.deliver, .ibufRd false] := ⟨trivial, trivial, trivial⟩
  transaction_trace (by decide) (steady_responsive 0x5a) (by decide) (by decide)
    (show I2cData.init.state = .idle from rfl) (fun _ h => absurd h List.not_mem_nil) rfl rfl
    (show _ = oneByteStarted from rfl) (by decide) (by decide +kernel) hrun
    (show _ = oneByteDone from rfl) (by decide +kernel) (by decide +kernel) (by decide +kernel)

end Sched

end Bathos.I2c
