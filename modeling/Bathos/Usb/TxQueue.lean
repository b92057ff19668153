import Bathos.Include.Headers
import Bathos.Lib.Memory
import Bathos.Lib.Run

/-!
# Bathos — the transmit queue of a USB endpoint

`usb-device-freescale.c` with the transmit buffers of `usb-device-controller.h`:
a submit takes one of two slots, copies a buffer that is not constant, and hands
the first packet to the hardware in one of two buffer descriptors; the handler of
the completed IN token goes on with the next packet.

A slot in use looks free: `usb_device_tx_buf_is_free` looks for the busy bit in
`len`, and it is kept in `flags`. A submit during a transmission overwrites the
slot that is being sent.

Main results:

* `step_ordered` — a submit that finds nothing being sent, and every completion,
  keep the payloads in order;
* `transmit_in_order` — so does every run of them.
-/

namespace Bathos.Usb

open Bathos.Lib

-- ---------------------------------------------------------------------------
-- Buffers and descriptors
-- ---------------------------------------------------------------------------

/-- `struct usb_device_tx_buf`: `buf` is an address, `NULL` is 0, and the flags
are given bit by bit. -/
structure TxBuf where
  buf : Nat
  len : Nat
  isConstant : Bool
  busy : Bool
  needsTz : Bool
  stall : Bool
deriving DecidableEq, Repr

namespace TxBuf

/-- `TX_BUF_BUSY`. -/
def TX_BUF_BUSY : Nat := 2 ^ 14

/-- `usb_device_tx_buf_is_free`. -/
def isFree (b : TxBuf) : Bool := b.len &&& TX_BUF_BUSY == 0

/-- `usb_device_tx_buf_get`. -/
def get (b : TxBuf) : TxBuf := { b with busy := true }

/-- `usb_device_tx_buf_free`. -/
def free (b : TxBuf) : TxBuf := { b with busy := false }

/-- `usb_device_tx_buf_tz_sent`. -/
def tzSent (b : TxBuf) : TxBuf := { b with needsTz := false }

/-- `usb_device_tx_buf_update`. -/
def update (l : Nat) (b : TxBuf) : TxBuf := { b with buf := b.buf + l, len := b.len - min b.len l }

end TxBuf

/-- `struct bdt`. -/
structure Bdt where
  address : Nat
  bc : Nat
  own : Bool
deriving DecidableEq, Repr

/-- An endpoint has two slots. -/
scoped instance slots_neZero : NeZero 2 := ⟨Nat.succ_ne_zero 1⟩

/-- An endpoint: its size and the addresses of its two packet buffers. -/
structure Endpoint where
  size : Nat
  buf1 : Nat
  buf2 : Nat
  size_pos : 0 < size

/-- The transmitting side of an endpoint, and memory. `hwOdd` is the descriptor
the hardware uses next, `handed` the bytes given to it so far. -/
structure TxState where
  mem : Nat → UInt8
  txBufs : Fin 2 → TxBuf
  bdt : Fin 2 → Bdt
  currTxBuf : Option (Fin 2)
  transmitting : Bool
  odd : Fin 2
  txData0 : Bool
  busy1 : Bool
  busy2 : Bool
  stalled : Bool
  hwOdd : Fin 2
  handed : List UInt8

namespace TxState

variable (ep : Endpoint)

-- ---------------------------------------------------------------------------
-- usb-device-freescale.c
-- ---------------------------------------------------------------------------

/-- `__find_free_tx_slot`, with a queue depth of 2. -/
def findFreeTxSlot (s : TxState) : Option (Fin 2) :=
  if (s.txBufs 0).isFree then some 0 else if (s.txBufs 1).isFree then some 1 else none

/-- `__prepare_bd`; false when it returns `NULL`. -/
def prepareBd (slot : Fin 2) (s : TxState) : Bool × TxState :=
  let b := s.txBufs slot
  if (s.bdt s.odd).address ≠ 0 then (false, s)
  else
    let l := min b.len ep.size
    (true, { s with
      bdt := Function.update s.bdt s.odd ⟨b.buf, l, true⟩
      txData0 := !s.txData0
      odd := s.odd + 1
      txBufs := Function.update s.txBufs slot (b.update l)
      currTxBuf := if s.currTxBuf = none then some slot else s.currTxBuf
      handed := s.handed ++ block s.mem b.buf l })

/-- `__free_tx_buf`. -/
def freeTxBuf (slot : Fin 2) (s : TxState) : TxState :=
  let b := s.txBufs slot
  { s with
    busy1 := if ep.buf1 ≤ b.buf ∧ b.buf < ep.buf1 + ep.size then false else s.busy1
    busy2 := if ep.buf2 ≤ b.buf ∧ b.buf < ep.buf2 + ep.size then false else s.busy2
    txBufs := Function.update s.txBufs slot b.free }

/-- `__update_tx_buf`. -/
def updateTxBuf (s : TxState) : TxState :=
  match s.currTxBuf with
  | none => s
  | some slot =>
    let b := s.txBufs slot
    if b.len = 0 ∧ b.needsTz = false then
      -- current tx buffer done, see if we can get ready for the next one
      let next := slot + 1
      let s := { s.freeTxBuf ep slot with currTxBuf := none }
      if (s.txBufs next).isFree then s
      else ({ s with currTxBuf := some next }.prepareBd ep next).2
    else
      let s := if b.len = 0 then { s with txBufs := Function.update s.txBufs slot b.tzSent } else s
      (s.prepareBd ep slot).2

/-- `usb_device_freescale_irq_handler` for a completed IN token. -/
def irqIn (bd : Fin 2) (s : TxState) : TxState :=
  { s with
    transmitting := false
    bdt := Function.update s.bdt bd { s.bdt bd with address := 0 } }.updateTxBuf ep

/-- `__clone_tx_buf`: the value returned, and the buffer with the copy. -/
def cloneTxBuf (b : TxBuf) (s : TxState) : Int × TxBuf × TxState :=
  let l := min b.len ep.size
  if l = 0 then (0, b, s)
  else if s.busy1 = false then
    (l, { b with buf := ep.buf1, len := l },
      { s with busy1 := true, mem := blit s.mem ep.buf1 (block s.mem b.buf l) })
  else if s.busy2 = false then
    (l, { b with buf := ep.buf2, len := l },
      { s with busy2 := true, mem := blit s.mem ep.buf2 (block s.mem b.buf l) })
  else (-EAGAIN, b, s)

/-- `usb_device_freescale_submit_tx_buf`, once it has the buffer to send. -/
def submitInSlot (slot : Fin 2) (b : TxBuf) (s : TxState) : Int × TxState :=
  let s := { s with txBufs := Function.update s.txBufs slot b.get }
  if s.transmitting then (b.len, s)
  else if b.stall then (0, { s with stalled := true })
  else
    match s.prepareBd ep slot with
    | (false, s) => (-ENOMEM, s)
    | (true, s) => (b.len, s)

/-- `usb_device_freescale_submit_tx_buf`. -/
def submitTxBuf (b : TxBuf) (s : TxState) : Int × TxState :=
  match s.findFreeTxSlot with
  | none => (-EAGAIN, s)
  | some slot =>
    if b.isConstant then s.submitInSlot ep slot b
    else
      match s.cloneTxBuf ep b with
      | (stat, b, s) => if stat < 0 then (-EAGAIN, s) else s.submitInSlot ep slot b

end TxState

-- ---------------------------------------------------------------------------
-- Runs
-- ---------------------------------------------------------------------------

/-- A submit, or an IN token from the host. -/
inductive TxOp where
  | submit (b : TxBuf)
  | inToken

/-- The endpoint, and the bytes of the buffers accepted. -/
structure TxRun where
  dev : TxState
  accepted : List UInt8

namespace TxRun

variable (ep : Endpoint)

/-- The bytes of a buffer for which the submit returned `ret`. -/
def payload (mem : Nat → UInt8) (b : TxBuf) (ret : Int) : List UInt8 :=
  if ret < 0 then [] else (block mem b.buf b.len).take ret.toNat

/-- The hardware answers an IN token with the descriptor whose turn it is, if it
owns it, and triggers the interrupt. -/
def inToken (s : TxState) : TxState :=
  if (s.bdt s.hwOdd).own then
    { s with
      bdt := Function.update s.bdt s.hwOdd { s.bdt s.hwOdd with own := false }
      hwOdd := s.hwOdd + 1 }.irqIn ep s.hwOdd
  else s

def step (t : TxRun) : TxOp → TxRun
  | .submit b =>
    ⟨(t.dev.submitTxBuf ep b).2, t.accepted ++ payload t.dev.mem b (t.dev.submitTxBuf ep b).1⟩
  | .inToken => ⟨inToken ep t.dev, t.accepted⟩

/-- Nothing is being sent. -/
def Idle (s : TxState) : Prop := s.currTxBuf = none ∧ ∀ i, (s.bdt i).own = false

/-- A slot with bytes to be sent or acknowledged. -/
def Waiting (s : TxState) (i : Fin 2) : Prop :=
  s.currTxBuf = some i ∨ ((s.txBufs i).busy = true ∧ (s.txBufs i).stall = false)

/-- The bytes handed to the hardware are the first ones accepted, and all of them
when nothing is being sent; a submit overwrites no slot that waits. -/
structure Ordered (t : TxRun) (op : TxOp) : Prop where
  ordered : (t.step ep op).dev.handed <+: (t.step ep op).accepted
  complete : Idle (t.step ep op).dev → (t.step ep op).dev.handed = (t.step ep op).accepted
  kept : ∀ b i, op = .submit b → Waiting t.dev i → (t.step ep op).dev.txBufs i = t.dev.txBufs i

/-- A stall buffer is empty, as `INIT_USB_PROTOCOL_STALL_BUF` makes it. -/
def Valid : TxOp → Prop
  | .submit b => b.stall = true → b.len = 0
  | .inToken => True

/-- The submit is refused before anything is copied: there is no free slot, or the
buffer has to be copied and both packet buffers are busy. -/
def Refused (s : TxState) (b : TxBuf) : Prop :=
  s.findFreeTxSlot = none ∨
    (b.isConstant = false ∧ b.len ≠ 0 ∧ s.busy1 = true ∧ s.busy2 = true)

/-- The condition: a submit finds no current buffer, or is refused. -/
def Serial (t : TxRun) : TxOp → Prop
  | .submit b => t.dev.currTxBuf = none ∨ Refused t.dev b
  | .inToken => True

-- ---------------------------------------------------------------------------
-- The invariant
-- ---------------------------------------------------------------------------

/-- The second slot is never used, and there is a descriptor in the hands of the
hardware exactly while slot 0 is being sent. -/
structure Inv (t : TxRun) : Prop where
  notTransmitting : t.dev.transmitting = false
  second : t.dev.currTxBuf ≠ some 1 ∧ (t.dev.txBufs 1).len = 0 ∧ (t.dev.txBufs 1).busy = false
  other : ∀ i, i ≠ t.dev.hwOdd → (t.dev.bdt i).own = false ∧ (t.dev.bdt i).address = 0
  idle : t.dev.currTxBuf = none → t.dev.handed = t.accepted ∧ (t.dev.txBufs 0).len = 0 ∧
    ((t.dev.txBufs 0).busy = true → (t.dev.txBufs 0).stall = true) ∧ t.dev.odd = t.dev.hwOdd ∧
    (t.dev.bdt t.dev.hwOdd).own = false ∧ (t.dev.bdt t.dev.hwOdd).address = 0
  sending : t.dev.currTxBuf = some 0 →
    t.dev.handed ++ block t.dev.mem (t.dev.txBufs 0).buf (t.dev.txBufs 0).len = t.accepted ∧
    t.dev.odd = t.dev.hwOdd + 1 ∧ (t.dev.bdt t.dev.hwOdd).own = true

variable {ep} {t : TxRun}

theorem isFree_of_zero {b : TxBuf} (h : b.len = 0) : b.isFree = true := by
  simp [TxBuf.isFree, h]

/-- Handing over the next packet of a slot. -/
theorem prepareBd_free {s : TxState} (slot : Fin 2) (hfree : (s.bdt s.odd).address = 0) :
    s.prepareBd ep slot = (true, { s with
      bdt := Function.update s.bdt s.odd
        ⟨(s.txBufs slot).buf, min (s.txBufs slot).len ep.size, true⟩
      txData0 := !s.txData0
      odd := s.odd + 1
      txBufs := Function.update s.txBufs slot
        ((s.txBufs slot).update (min (s.txBufs slot).len ep.size))
      currTxBuf := if s.currTxBuf = none then some slot else s.currTxBuf
      handed := s.handed ++
        block s.mem (s.txBufs slot).buf (min (s.txBufs slot).len ep.size) }) := by
  unfold TxState.prepareBd
  simp [hfree]

/-- Both descriptors are free. -/
def Clear (s : TxState) : Prop := ∀ i, (s.bdt i).own = false ∧ (s.bdt i).address = 0

/-- What is left of a slot after a packet. -/
theorem block_update (mem : Nat → UInt8) (b : TxBuf) (size : Nat) :
    block mem b.buf (min b.len size) ++
      block mem (b.update (min b.len size)).buf (b.update (min b.len size)).len =
        block mem b.buf b.len := by
  have hlen : b.len = min b.len size + (b.len - min b.len (min b.len size)) := by omega
  conv_rhs => rw [hlen]
  rw [block_add]
  rfl

/-- Between two packets: both descriptors are free, and slot 0 holds what is still
to be handed over. -/
structure Pending (s : TxState) (accepted : List UInt8) : Prop where
  clear : Clear s
  notTransmitting : s.transmitting = false
  second : (s.txBufs 1).len = 0 ∧ (s.txBufs 1).busy = false
  odd : s.odd = s.hwOdd
  rest : s.handed ++ block s.mem (s.txBufs 0).buf (s.txBufs 0).len = accepted

/-- The next packet of slot 0 is handed over. -/
theorem prepare_inv (ep : Endpoint) {s : TxState} {accepted : List UInt8} (h : Pending s accepted)
    (hcurr : s.currTxBuf = none ∨ s.currTxBuf = some 0) :
    ∃ s', s.prepareBd ep 0 = (true, s') ∧ Inv ⟨s', accepted⟩ := by
  have hcurr' : (if s.currTxBuf = none then some 0 else s.currTxBuf) = some (0 : Fin 2) := by
    rcases hcurr with h | h <;> simp [h]
  have hone : (1 : Fin 2) ≠ 0 := by decide
  have hzero : (some 0 : Option (Fin 2)) ≠ some 1 := by decide
  rw [prepareBd_free 0 (h.clear _).2, hcurr']
  refine ⟨_, rfl, h.notTransmitting, ⟨hzero, ?_⟩, fun i hi => ?_, nofun, fun _ => ⟨?_, ?_, ?_⟩⟩
  · simpa only [Function.update_of_ne hone] using h.second
  · have hi' : i ≠ s.odd := h.odd ▸ hi
    simpa only [Function.update_of_ne hi'] using h.clear i
  · simp only [Function.update_self]
    rw [List.append_assoc, block_update]
    exact h.rest
  · show s.odd + 1 = s.hwOdd + 1
    rw [h.odd]
  · show (Function.update s.bdt s.odd _ s.hwOdd).own = true
    rw [← h.odd, Function.update_self]

theorem Pending.next {s : TxState} {accepted : List UInt8} (h : Pending s accepted)
    (hcurr : s.currTxBuf = some 0) :
    Inv ⟨(s.prepareBd ep 0).2, accepted⟩ := by
  obtain ⟨s', hs', hinv⟩ := prepare_inv ep h (Or.inr hcurr)
  rw [hs']
  exact hinv

theorem Inv.clear (h : Inv t) (hidle : t.dev.currTxBuf = none) : Clear t.dev := by
  obtain ⟨-, -, -, -, hown, haddress⟩ := h.idle hidle
  intro i
  by_cases hi : i = t.dev.hwOdd
  · rw [hi]
    exact ⟨hown, haddress⟩
  · exact h.other i hi

theorem Inv.eq_zero (h : Inv t) {slot : Fin 2} (hcurr : t.dev.currTxBuf = some slot) :
    slot = 0 := by
  have hone : slot ≠ 1 := fun heq => h.second.1 (heq ▸ hcurr)
  omega

-- ---------------------------------------------------------------------------
-- Submits
-- ---------------------------------------------------------------------------

/-- A submit that is refused changes nothing. -/
theorem submit_refused {s : TxState} {b : TxBuf} (h : Refused s b) :
    s.submitTxBuf ep b = (-EAGAIN, s) := by
  unfold TxState.submitTxBuf
  rcases h with hslot | ⟨hconstant, hlen, hbusy1, hbusy2⟩
  · rw [hslot]
  · cases hslot : s.findFreeTxSlot with
    | none => rfl
    | some slot =>
      have hcopy : min b.len ep.size ≠ 0 := by
        have := ep.size_pos
        omega
      simp [hconstant, TxState.cloneTxBuf, hcopy, hbusy1, hbusy2, EAGAIN]

/-- A submit that finds nothing being sent and is not refused goes to slot 0, with
the buffer or with a copy of its first packet. -/
theorem submit_idle (ep : Endpoint) (h : Inv t) (hidle : t.dev.currTxBuf = none) {b : TxBuf}
    (hrefused : ¬ Refused t.dev b) :
    ∃ b' s, t.dev.submitTxBuf ep b = s.submitInSlot ep 0 b' ∧
      Inv ⟨s, t.accepted⟩ ∧ s.currTxBuf = none ∧
      b'.stall = b.stall ∧ (b.len = 0 → b'.len = 0) ∧
      block s.mem b'.buf b'.len = (block t.dev.mem b.buf b.len).take b'.len := by
  obtain ⟨-, hzero, -⟩ := h.idle hidle
  have hslot : t.dev.findFreeTxSlot = some 0 := if_pos (isFree_of_zero hzero)
  have hsame : block t.dev.mem b.buf b.len = (block t.dev.mem b.buf b.len).take b.len := by
    rw [List.take_of_length_le (block_length _ _ _).le]
  have hcopied : ∀ dst, block (blit t.dev.mem dst (block t.dev.mem b.buf (min b.len ep.size))) dst
      (min b.len ep.size) = (block t.dev.mem b.buf b.len).take (min b.len ep.size) := by
    intro dst
    have hself := block_blit_self t.dev.mem dst (block t.dev.mem b.buf (min b.len ep.size))
    rw [block_length] at hself
    rw [hself, block_take _ _ (Nat.min_le_left _ _)]
  -- Memory and the busy bits of the packet buffers are not in the invariant of an idle queue.
  have hinv : ∀ mem busy1 busy2,
      Inv ⟨{ t.dev with mem := mem, busy1 := busy1, busy2 := busy2 }, t.accepted⟩ :=
    fun _ _ _ => ⟨h.notTransmitting, h.second, h.other, h.idle,
      fun hcurr => absurd (hidle.symm.trans hcurr) nofun⟩
  unfold TxState.submitTxBuf
  rw [hslot]
  by_cases hconstant : b.isConstant = true
  · exact ⟨b, t.dev, by simp [hconstant], h, hidle, rfl, id, hsame⟩
  · unfold TxState.cloneTxBuf
    by_cases hlen : min b.len ep.size = 0
    · exact ⟨b, t.dev, by simp [hconstant, hlen], h, hidle, rfl, id, hsame⟩
    · have hzero' : b.len = 0 → min b.len ep.size = 0 := by omega
      have hnonneg : ¬ ((min b.len ep.size : Nat) : Int) < 0 := by omega
      by_cases hbusy1 : t.dev.busy1 = false
      · refine ⟨{ b with buf := ep.buf1, len := min b.len ep.size }, _, ?_,
          hinv (blit t.dev.mem ep.buf1 (block t.dev.mem b.buf (min b.len ep.size))) true t.dev.busy2,
          hidle, rfl, hzero', hcopied ep.buf1⟩
        simp only [if_neg hconstant, if_neg hlen, if_pos hbusy1, if_neg hnonneg]
      · by_cases hbusy2 : t.dev.busy2 = false
        · refine ⟨{ b with buf := ep.buf2, len := min b.len ep.size }, _, ?_,
            hinv (blit t.dev.mem ep.buf2 (block t.dev.mem b.buf (min b.len ep.size))) t.dev.busy1 true,
            hidle, rfl, hzero', hcopied ep.buf2⟩
          simp only [if_neg hconstant, if_neg hlen, if_neg hbusy1, if_pos hbusy2, if_neg hnonneg]
        · refine absurd (Or.inr ⟨?_, ?_, ?_, ?_⟩) hrefused
          · simpa using hconstant
          · omega
          · simpa using hbusy1
          · simpa using hbusy2

/-- Filling slot 0 while nothing is being sent, and handing over its first packet
unless it is a stall buffer. -/
theorem submitInSlot_inv (ep : Endpoint) {s : TxState} {accepted : List UInt8} (h : Inv ⟨s, accepted⟩)
    (hidle : s.currTxBuf = none) {b : TxBuf} (hstall : b.stall = true → b.len = 0) :
    (s.submitInSlot ep 0 b).1 = b.len ∧
      Inv ⟨(s.submitInSlot ep 0 b).2, accepted ++ block s.mem b.buf b.len⟩ := by
  obtain ⟨hhanded, -, -, hodd, hown, haddress⟩ := h.idle hidle
  have htransmitting : s.transmitting = false := h.notTransmitting
  have hsecond : (Function.update s.txBufs 0 b.get 1).len = 0 ∧
      (Function.update s.txBufs 0 b.get 1).busy = false := h.second.2
  have hbytes : s.handed ++ block s.mem b.buf b.len = accepted ++ block s.mem b.buf b.len :=
    congrArg (· ++ block s.mem b.buf b.len) hhanded
  unfold TxState.submitInSlot
  simp only [htransmitting, Bool.false_eq_true, if_false]
  by_cases hb : b.stall = true
  · rw [if_pos hb]
    have hzero : b.len = 0 := hstall hb
    refine ⟨by simp [hzero], rfl, ⟨h.second.1, hsecond⟩, h.other,
      fun _ => ⟨?_, hzero, fun _ => hb, hodd, hown, haddress⟩, fun hcurr => ?_⟩
    · show s.handed = accepted ++ block s.mem b.buf b.len
      rw [← hbytes, hzero, block_zero, List.append_nil]
    · exact absurd (hidle.symm.trans hcurr) nofun
  · rw [if_neg hb]
    have hpending : Pending { s with
        transmitting := false, txBufs := Function.update s.txBufs 0 b.get }
        (accepted ++ block s.mem b.buf b.len) := ⟨h.clear hidle, rfl, hsecond, hodd, hbytes⟩
    obtain ⟨s', hs', hinv⟩ := prepare_inv ep hpending (Or.inl hidle)
    rw [hs']
    exact ⟨rfl, hinv⟩

/-- A submit that meets the condition: what was accepted waits in slot 0 or was
handed over. -/
theorem submit_inv (h : Inv t) {b : TxBuf} (hvalid : Valid (.submit b))
    (hserial : Serial t (.submit b)) : Inv (t.step ep (.submit b)) := by
  by_cases hrefused : Refused t.dev b
  · have hstep : t.step ep (.submit b) = t := by
      unfold step payload
      simp [submit_refused hrefused, EAGAIN]
    rw [hstep]
    exact h
  have hidle : t.dev.currTxBuf = none := hserial.resolve_right hrefused
  obtain ⟨b', s, hsubmit, hinv, hidle', hstall, hlen, hblock⟩ := submit_idle ep h hidle hrefused
  have hstall' : b'.stall = true → b'.len = 0 := fun hb => hlen (hvalid (hstall ▸ hb))
  obtain ⟨hret, hinv'⟩ := submitInSlot_inv ep hinv hidle' hstall'
  have hnonneg : ¬ (b'.len : Int) < 0 := by omega
  have hstep : t.step ep (.submit b) =
      ⟨(s.submitInSlot ep 0 b').2, t.accepted ++ block s.mem b'.buf b'.len⟩ := by
    show TxRun.mk _ (_ ++ payload _ _ _) = _
    rw [payload, hsubmit, hret, if_neg hnonneg, Int.toNat_natCast, hblock]
  rw [hstep]
  exact hinv'

-- ---------------------------------------------------------------------------
-- Completions
-- ---------------------------------------------------------------------------

/-- The handler goes on with slot 0, or frees it. -/
theorem updateTxBuf_inv {s : TxState} {accepted : List UInt8} (h : Pending s accepted)
    (hcurr : s.currTxBuf = some 0) : Inv ⟨s.updateTxBuf ep, accepted⟩ := by
  unfold TxState.updateTxBuf
  rw [hcurr]
  by_cases hdone : (s.txBufs 0).len = 0 ∧ (s.txBufs 0).needsTz = false
  · -- Slot 1 is free, so there is nothing left to be sent.
    have hfree : ((s.freeTxBuf ep 0).txBufs (0 + 1)).isFree = true := isFree_of_zero h.second.1
    have hrest := h.rest
    rw [hdone.1, block_zero, List.append_nil] at hrest
    simp only [if_pos hdone, if_pos hfree]
    exact ⟨h.notTransmitting, ⟨nofun, h.second⟩, fun i _ => h.clear i,
      fun _ => ⟨hrest, hdone.1, nofun, h.odd, h.clear _⟩, nofun⟩
  · simp only [if_neg hdone]
    by_cases hzero : (s.txBufs 0).len = 0
    · -- Only the empty packet that ends the transfer is left.
      have hpending : Pending
          { s with
            txBufs := Function.update s.txBufs 0 (s.txBufs 0).tzSent
            currTxBuf := some 0 } accepted :=
        ⟨h.clear, h.notTransmitting, h.second, h.odd, h.rest⟩
      rw [if_pos hzero]
      exact hpending.next rfl
    · rw [if_neg hzero]
      exact h.next hcurr

theorem inToken_inv (h : Inv t) : Inv (t.step ep .inToken) := by
  show Inv ⟨inToken ep t.dev, t.accepted⟩
  rcases hcurr : t.dev.currTxBuf with _ | slot
  · obtain ⟨-, -, -, -, hown, -⟩ := h.idle hcurr
    have hown' : ¬ (t.dev.bdt t.dev.hwOdd).own = true := by simp [hown]
    unfold inToken
    rw [if_neg hown']
    exact h
  · rw [h.eq_zero hcurr] at hcurr
    obtain ⟨hhanded, hodd, hown⟩ := h.sending hcurr
    unfold inToken
    rw [if_pos hown]
    refine updateTxBuf_inv ⟨fun i => ?_, rfl, h.second.2, hodd, hhanded⟩ hcurr
    by_cases hi : i = t.dev.hwOdd
    · simp [hi]
    · simpa only [Function.update_of_ne hi] using h.other i hi

-- ---------------------------------------------------------------------------
-- Runs
-- ---------------------------------------------------------------------------

/-- One step that meets the condition. -/
theorem step_inv (ep : Endpoint) (h : Inv t) {op : TxOp}
    (hop : Valid op ∧ Serial t op) : Inv (t.step ep op) := by
  cases op with
  | submit b => exact submit_inv h hop.1 hop.2
  | inToken => exact inToken_inv h

/-- What was handed over is a beginning of what was accepted, and nothing is
missing once the endpoint is idle. -/
theorem Inv.handed (h : Inv t) :
    t.dev.handed <+: t.accepted ∧ (Idle t.dev → t.dev.handed = t.accepted) := by
  cases hcurr : t.dev.currTxBuf with
  | none =>
    have hhanded := (h.idle hcurr).1
    exact ⟨hhanded ▸ List.prefix_refl _, fun _ => hhanded⟩
  | some slot =>
    rw [h.eq_zero hcurr] at hcurr
    exact ⟨⟨_, (h.sending hcurr).1⟩, fun hidle => absurd (hidle.1.symm.trans hcurr) nofun⟩

/-- While nothing is being sent no slot waits. -/
theorem Inv.not_waiting (h : Inv t) (hidle : t.dev.currTxBuf = none) (i : Fin 2) :
    ¬ Waiting t.dev i := by
  obtain ⟨-, -, hstalled, -⟩ := h.idle hidle
  rintro (hcurr | ⟨hbusy, hstall⟩)
  · exact absurd (hidle.symm.trans hcurr) nofun
  · have hi : i = 0 ∨ i = 1 := by omega
    rcases hi with rfl | rfl
    · exact absurd ((hstalled hbusy).symm.trans hstall) nofun
    · exact absurd (hbusy.symm.trans h.second.2.2) nofun

/-- One step that meets the condition keeps the payloads in order. -/
theorem step_ordered (h : Inv t) {op : TxOp} (hop : Valid op ∧ Serial t op) : Ordered ep t op := by
  obtain ⟨hordered, hcomplete⟩ := (step_inv ep h hop).handed
  refine ⟨hordered, hcomplete, ?_⟩
  rintro b i rfl hwaiting
  rcases hop.2 with hidle | hrefused
  · exact absurd hwaiting (h.not_waiting hidle i)
  · show (t.dev.submitTxBuf ep b).2.txBufs i = _
    rw [submit_refused hrefused]

/-- The endpoint as `.bss` leaves it. -/
def boot (mem : Nat → UInt8) : TxRun :=
  ⟨⟨mem, fun _ => ⟨0, 0, false, false, false, false⟩, fun _ => ⟨0, 0, false⟩, none, false, 0, false,
    false, false, false, 0, []⟩, []⟩

theorem boot_inv (mem : Nat → UInt8) : Inv (boot mem) :=
  ⟨rfl, ⟨nofun, rfl, rfl⟩, fun _ _ => ⟨rfl, rfl⟩,
    fun _ => ⟨rfl, rfl, nofun, rfl, rfl, rfl⟩, nofun⟩

/-- **Transmission.** In a run in which every submit finds nothing being sent, or
is refused before anything is copied, the payloads handed over are those accepted,
in order, and no slot that waits is overwritten. -/
theorem transmit_in_order (ep : Endpoint) (mem : Nat → UInt8) (ops : List TxOp)
    (hops : EachStep (step ep) (fun t op => Valid op ∧ Serial t op) (boot mem) ops) :
    EachStep (step ep) (Ordered ep) (boot mem) ops :=
  EachStep.mono (fun (_ : TxRun) _ h hop => step_inv ep h hop) (fun _ _ h hop => step_ordered h hop)
    (boot_inv mem) hops

instance decidableValid : ∀ op, Decidable (Valid op)
  | .submit b => inferInstanceAs (Decidable (b.stall = true → b.len = 0))
  | .inToken => inferInstanceAs (Decidable True)

instance decidableSerial (t : TxRun) : ∀ op, Decidable (Serial t op)
  | .submit b => inferInstanceAs (Decidable (t.dev.currTxBuf = none ∨
      t.dev.findFreeTxSlot = none ∨
        (b.isConstant = false ∧ b.len ≠ 0 ∧ t.dev.busy1 = true ∧ t.dev.busy2 = true)))
  | .inToken => inferInstanceAs (Decidable True)

/-- Three bytes in packets of two with a terminating empty packet, a copied byte
and an acknowledge, each sent before the next submit. -/
theorem transmit_three_buffers :
    EachStep (step ⟨2, 100, 200, by decide⟩) (Ordered ⟨2, 100, 200, by decide⟩)
      (boot UInt8.ofNat)
      [.submit ⟨10, 3, true, false, true, false⟩, .inToken, .inToken, .inToken,
        .submit ⟨20, 1, false, false, false, false⟩, .inToken,
        .submit ⟨0, 0, true, false, false, false⟩, .inToken] ∧
    (runFrom (step ⟨2, 100, 200, by decide⟩) (boot UInt8.ofNat)
      [.submit ⟨10, 3, true, false, true, false⟩, .inToken, .inToken, .inToken,
        .submit ⟨20, 1, false, false, false, false⟩, .inToken,
        .submit ⟨0, 0, true, false, false, false⟩, .inToken]).dev.handed = [10, 11, 12, 20] :=
  ⟨transmit_in_order _ _ _ (by decide), by decide⟩

/-- A submit during a transmission takes slot 0, which is being sent, and the last
byte of the first buffer is lost. -/
theorem waiting_slot_overwritten :
    ¬ ∀ (ep : Endpoint) (mem : Nat → UInt8) (ops : List TxOp), (∀ op ∈ ops, Valid op) →
      EachStep (step ep) (Ordered ep) (boot mem) ops := by
  intro h
  have hops := h ⟨2, 100, 200, by decide⟩ UInt8.ofNat
    [.submit ⟨10, 3, true, false, false, false⟩, .submit ⟨20, 1, true, false, false, false⟩]
    (by decide)
  have hprefix := hops.2.1.ordered
  revert hprefix
  decide

end TxRun

end Bathos.Usb
