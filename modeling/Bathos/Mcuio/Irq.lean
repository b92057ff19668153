import Bathos.Lib.Run
import Bathos.Mcuio.Packet

/-!
# Bathos — mcuio interrupt messages

`mcuio/mcuio_irq_controller_msg.c` and its callers. A function that wants to
interrupt the host writes its number into a static record and triggers
`mcuio_irq` with a pointer to it. `mcuio_irq_handle` composes the message in the
one packet of the interrupt controller's runtime and triggers
`mcuio_function_request` with a pointer to that; `mcuio_function_request_handle`
sends what it then finds there.

Both hand-overs pass pointers through the event queue, so what is sent depends on
what was written to the record and to the packet in the meantime.

The message has the bit of the function, `1 << func`, which is an `int`: where that has 16
bits, function 15 has the sixteen bits above it too, and the functions above have none.

Main result: `irq_messages_faithful` — the messages sent are those wanted, in their order,
in every run that does not write to a record or to the packet while an event that points
to it waits, of functions whose bit there is.
-/

namespace Bathos.Mcuio

open Bathos.Lib

-- ---------------------------------------------------------------------------
-- mcuio_irq_controller_msg.c
-- ---------------------------------------------------------------------------

variable {sz : IntSize}

/-- `struct mcuio_function_irq_data`. -/
structure IrqData (sz : IntSize) where
  func : BitVec sz.bits
  active : BitVec sz.bits
deriving DecidableEq

/-- The message `mcuio_irq_handle` makes of a record, if any. The bit is that of an `int`. -/
def IrqData.message (idata : IrqData sz) : Option Packet :=
  if idata.func.toNat > 31 then none
  else if idata.active = 0 then none
  else
    some
      { offset := (0xf80 + idata.func * 4).setWidth 12
        func := 1
        dev := 0
        bus := 0
        -- mcuio_type_wrdw
        type := 5
        data0 := BitVec.ofInt 32 (sz.wrap (1 <<< idata.func.toNat : Nat))
        data1 := 0
        crc := 0
        dummy := 0 }

/-- The message that is wanted: function `n` has the register at `0xf80 + 4 * n`, and the
bit `n`. -/
def IrqData.wanted (idata : IrqData sz) : Option Packet :=
  if idata.func.toNat ≤ 31 ∧ idata.active ≠ 0 then
    some
      { offset := BitVec.ofNat 12 (0xf80 + 4 * idata.func.toNat)
        func := 1
        dev := 0
        bus := 0
        type := 5
        data0 := BitVec.ofNat 32 (2 ^ idata.func.toNat)
        data1 := 0
        crc := 0
        dummy := 0 }
  else none

/-- Bit 31 is one of an `int` of 32 bits; of 16 bits, only those below 15 are. -/
def IrqData.Representable (idata : IrqData sz) : Prop := sz = .int32 ∨ idata.func.toNat < 15

/-- The register of a function lies in the last 128 bytes of the space. -/
theorem irqOffset_eq {func : BitVec sz.bits} (h : func.toNat ≤ 31) :
    (0xf80 + func * 4).setWidth 12 = BitVec.ofNat 12 (0xf80 + 4 * func.toNat) := by
  have hbits : 2 ^ 16 ≤ 2 ^ sz.bits := by cases sz <;> decide
  have hfour : (4 : BitVec sz.bits).toNat = 4 := Nat.mod_eq_of_lt (show 4 < 2 ^ sz.bits by omega)
  have hbase : (0xf80 : BitVec sz.bits).toNat = 0xf80 :=
    Nat.mod_eq_of_lt (show 0xf80 < 2 ^ sz.bits by omega)
  have hmul : (func * 4).toNat = func.toNat * 4 := by
    rw [BitVec.toNat_mul, hfour, Nat.mod_eq_of_lt (by omega)]
  apply BitVec.eq_of_toNat_eq
  rw [BitVec.toNat_setWidth, BitVec.toNat_add, hmul, hbase, BitVec.toNat_ofNat,
    Nat.mod_eq_of_lt (show 0xf80 + func.toNat * 4 < 2 ^ sz.bits by omega), Nat.mul_comm]

theorem irqBit_eq {n : Nat} (h : sz = .int32 ∨ n < 15) :
    BitVec.ofInt 32 (sz.wrap (1 <<< n : Nat)) = BitVec.ofNat 32 (2 ^ n) := by
  rw [Nat.one_shiftLeft]
  rcases h with rfl | hn
  · apply BitVec.eq_of_toInt_eq
    rw [BitVec.toInt_ofInt, IntSize.wrap]
    exact Int.bmod_bmod.trans (BitVec.toInt_ofNat ..).symm
  · have hlt : 2 ^ n < 2 ^ 15 := Nat.pow_lt_pow_right (by decide) hn
    generalize 2 ^ n = bit at hlt ⊢
    rw [sz.wrap_eq (by omega) (by omega)]
    rfl

/-- A bit that an `int` has is the one that is wanted. -/
theorem IrqData.message_eq {idata : IrqData sz} (h : idata.Representable) :
    idata.message = idata.wanted := by
  unfold IrqData.message IrqData.wanted
  by_cases hfunc : idata.func.toNat ≤ 31
  · rw [if_neg (not_lt.mpr hfunc), irqOffset_eq hfunc, irqBit_eq h]
    by_cases hactive : idata.active = 0
    · rw [if_pos hactive, if_neg (fun hand => hand.2 hactive)]
    · rw [if_neg hactive, if_pos ⟨hfunc, hactive⟩]
  · rw [if_pos (not_le.mp hfunc), if_neg (fun hand => hfunc hand.1)]

example : (⟨15, 1⟩ : IrqData .int16).message.map Packet.data0 = some 0xffff8000 := by decide

/-- The events in the queue. An `mcuio_irq` event points to a record; a request
points to the packet of the interrupt controller; a request of the host to the
interrupt controller has its reply composed in that packet too; all others leave
records and packet alone. -/
inductive IrqEvent where
  | mcuioIrq (record : Nat)
  | functionRequest
  | hostRequest (reply : Packet)
  | other
deriving DecidableEq

/-- The static records, the `to_host` packet of the interrupt controller's
runtime, the event queue, and the messages sent. `expected` keeps the messages
that were to be sent, at the time they were triggered. -/
structure Irqs (sz : IntSize) where
  records : Nat → IrqData sz
  toHost : Packet
  events : List IrqEvent
  sent : List Packet
  expected : List Packet

namespace Irqs

/-- A function fills a record and triggers `mcuio_irq`. -/
def triggerIrq (r : Nat) (idata : IrqData sz) (s : Irqs sz) : Irqs sz :=
  { s with
    records := Function.update s.records r idata
    events := s.events ++ [.mcuioIrq r]
    expected := s.expected ++ idata.wanted.toList }

/-- `mcuio_irq_handle`. -/
def mcuioIrqHandle (r : Nat) (s : Irqs sz) : Irqs sz :=
  match (s.records r).message with
  | none => s
  | some p => { s with toHost := p, events := s.events ++ [.functionRequest] }

/-- `mcuio_function_request_handle`. -/
def functionRequestHandle (s : Irqs sz) : Irqs sz := { s with sent := s.sent ++ [s.toHost] }

/-- The event at the head of the queue is handled. -/
def handle (s : Irqs sz) : Irqs sz :=
  match s.events with
  | [] => s
  | e :: es =>
    let s := { s with events := es }
    match e with
    | .mcuioIrq r => s.mcuioIrqHandle r
    | .functionRequest => s.functionRequestHandle
    | .hostRequest reply => { s with toHost := reply }
    | .other => s

/-- A function triggers its interrupt, something else triggers an event, or the
next event is handled. -/
inductive Op (sz : IntSize) where
  | irq (r : Nat) (idata : IrqData sz)
  | hostRequest (reply : Packet)
  | other
  | handle

def step (s : Irqs sz) : Op sz → Irqs sz
  | .irq r idata => s.triggerIrq r idata
  | .hostRequest reply => { s with events := s.events ++ [.hostRequest reply] }
  | .other => { s with events := s.events ++ [.other] }
  | .handle => s.handle

/-- No event is waiting and nothing was sent. -/
def start (records : Nat → IrqData sz) (toHost : Packet) : Irqs sz where
  records := records
  toHost := toHost
  events := []
  sent := []
  expected := []

-- ---------------------------------------------------------------------------
-- What is to be sent
-- ---------------------------------------------------------------------------

/-- The messages sent are the first ones of those triggered; when no event of the
two kinds is left, they are all of them. -/
def Faithful (s : Irqs sz) : Prop :=
  s.sent <+: s.expected ∧
    ((∀ r, .mcuioIrq r ∉ s.events) → .functionRequest ∉ s.events → s.sent = s.expected)

/-- The condition. A record is not written while an event points to it, unless
its message stays the same; the packet neither, unless it stays the same; and the bit of
the function is one of an `int`. -/
def NotOverwritten (s : Irqs sz) : Op sz → Prop
  | .irq r idata => idata.Representable ∧
      (.mcuioIrq r ∈ s.events → (s.records r).message = idata.message)
  | .handle =>
    match s.events with
    | .mcuioIrq r :: es => .functionRequest ∈ es → ∀ p, (s.records r).message = some p → p = s.toHost
    | .hostRequest reply :: es => .functionRequest ∈ es → reply = s.toHost
    | _ => True
  | _ => True

/-- The message an `mcuio_irq` event stands for. -/
def irqMessage (records : Nat → IrqData sz) : IrqEvent → Option Packet
  | .mcuioIrq r => (records r).message
  | _ => none

/-- The messages under way, oldest first: those composed already wait as requests,
behind or before the events of the younger ones. -/
def underWay (s : Irqs sz) : List Packet :=
  List.replicate (s.events.count .functionRequest) s.toHost ++
    s.events.filterMap (irqMessage s.records)

/-- Sent or under way, each message is there once and in order. -/
def Inv (s : Irqs sz) : Prop := s.expected = s.sent ++ s.underWay

theorem Inv.faithful {s : Irqs sz} (h : s.Inv) : s.Faithful := by
  refine ⟨⟨_, h.symm⟩, fun hirq hreq => ?_⟩
  have hnone : s.events.filterMap (irqMessage s.records) = [] := by
    rw [List.filterMap_eq_nil_iff]
    intro e he
    cases e with
    | mcuioIrq r => exact absurd he (hirq r)
    | _ => rfl
  have hempty : s.underWay = [] := by
    rw [underWay, List.count_eq_zero.mpr hreq, hnone]
    rfl
  rw [h, hempty, List.append_nil]

/-- Writing a record that no event points to, or with the same message. -/
theorem filterMap_update {records : Nat → IrqData sz} {r : Nat} {idata : IrqData sz} {es : List IrqEvent}
    (h : .mcuioIrq r ∈ es → (records r).message = idata.message) :
    es.filterMap (irqMessage (Function.update records r idata)) =
      es.filterMap (irqMessage records) := by
  apply List.filterMap_congr
  intro e he
  cases e with
  | mcuioIrq r' =>
    by_cases hr : r' = r
    · subst hr
      simp [irqMessage, h he]
    · simp [irqMessage, hr]
  | _ => rfl

theorem inv_irq {s : Irqs sz} (h : s.Inv) {r : Nat} {idata : IrqData sz}
    (hbit : idata.Representable)
    (hop : .mcuioIrq r ∈ s.events → (s.records r).message = idata.message) :
    (s.triggerIrq r idata).Inv := by
  have hmsg : [IrqEvent.mcuioIrq r].filterMap
      (irqMessage (Function.update s.records r idata)) = idata.wanted.toList := by
    rw [← idata.message_eq hbit]
    cases hm : idata.message <;> simp [irqMessage, hm]
  unfold Inv underWay triggerIrq
  simp only [List.filterMap_append, List.count_append, hmsg, filterMap_update hop]
  rw [h, underWay]
  simp

/-- An event that stands for nothing is appended. -/
theorem inv_append {s : Irqs sz} (h : s.Inv) {e : IrqEvent} (hreq : e ≠ .functionRequest)
    (hirq : ∀ r, e ≠ .mcuioIrq r) : Inv { s with events := s.events ++ [e] } := by
  have hmsg : irqMessage s.records e = none := by
    cases e with
    | mcuioIrq r => exact absurd rfl (hirq r)
    | _ => rfl
  have hcount : [e].count .functionRequest = 0 := by
    rw [List.count_singleton, beq_eq_false_iff_ne.mpr hreq]
    rfl
  unfold Inv underWay
  simp only [List.filterMap_append, List.count_append, hcount, List.filterMap_cons, hmsg,
    List.filterMap_nil, List.append_nil, Nat.add_zero]
  exact h

/-- Overwriting the packet with another one that nobody waits for. -/
theorem replicate_toHost {n : Nat} {p q : Packet} (h : n ≠ 0 → p = q) :
    List.replicate n p = List.replicate n q := by
  by_cases hn : n = 0
  · rw [hn]
    rfl
  · rw [h hn]

theorem inv_handle {s : Irqs sz} (h : s.Inv) (hop : NotOverwritten s .handle) : (s.handle).Inv := by
  unfold NotOverwritten at hop
  unfold handle
  unfold Inv underWay at h
  cases hevents : s.events with
  | nil =>
    simp only
    unfold Inv underWay
    exact h
  | cons e es =>
    rw [hevents] at h hop
    cases e with
    | mcuioIrq r =>
      simp only [List.filterMap_cons, irqMessage,
        List.count_cons_of_ne (show IrqEvent.mcuioIrq r ≠ .functionRequest by simp)] at h
      simp only [mcuioIrqHandle]
      cases hmsg : (s.records r).message with
      | none =>
        rw [hmsg] at h
        exact h
      | some p =>
        -- the message joins the requests, which all find it in the packet
        rw [hmsg] at h
        have hsame : List.replicate (es.count .functionRequest) s.toHost =
            List.replicate (es.count .functionRequest) p :=
          replicate_toHost fun hn => (hop (List.count_pos_iff.mp (Nat.pos_of_ne_zero hn)) p hmsg).symm
        have hrequest : [IrqEvent.functionRequest].filterMap (irqMessage s.records) = [] := rfl
        unfold Inv underWay
        simp only [List.count_append, List.filterMap_append, hrequest]
        rw [h, hsame]
        simp [List.replicate_succ']
    | functionRequest =>
      unfold Inv underWay functionRequestHandle
      simp only [List.count_cons_self, List.replicate_succ, List.filterMap_cons,
        irqMessage] at h
      simp only
      rw [h]
      simp
    | hostRequest reply =>
      have hsame : List.replicate (es.count .functionRequest) s.toHost =
          List.replicate (es.count .functionRequest) reply :=
        replicate_toHost fun hn => (hop (List.count_pos_iff.mp (Nat.pos_of_ne_zero hn))).symm
      simp only [List.filterMap_cons, irqMessage,
        List.count_cons_of_ne (show IrqEvent.hostRequest reply ≠ .functionRequest by simp)] at h
      rw [hsame] at h
      exact h
    | other =>
      simp only [List.filterMap_cons, irqMessage,
        List.count_cons_of_ne (show IrqEvent.other ≠ .functionRequest by simp)] at h
      exact h

theorem step_inv {s : Irqs sz} (h : s.Inv) {op : Op sz} (hop : NotOverwritten s op) : (s.step op).Inv := by
  cases op with
  | irq r idata => exact inv_irq h hop.1 hop.2
  | hostRequest reply => exact inv_append h (by simp) (by simp)
  | other => exact inv_append h (by simp) (by simp)
  | handle => exact inv_handle h hop

/-- **Interrupt messages** are neither lost nor altered in a run that does not
write where an event still points. -/
theorem irq_messages_faithful (records : Nat → IrqData sz) (toHost : Packet) (ops : List (Op sz))
    (hrun : EachStep step NotOverwritten (start records toHost) ops) :
    EachStep step (fun s op => (s.step op).Faithful) (start records toHost) ops :=
  EachStep.mono (fun s _ (h : s.Inv) hop => step_inv h hop)
    (fun _ _ h hop => (step_inv h hop).faithful) rfl hrun

/-- Functions 3 and 4 with records of their own, the second one triggered after
the message of the first was sent. -/
theorem irq_messages_faithful_apart :
    EachStep step (fun s op => (s.step op).Faithful)
      (start (fun _ => (⟨0, 0⟩ : IrqData .int16)) (Packet.decode []))
      [.irq 0 ⟨3, 1⟩, .other, .handle, .handle, .handle, .irq 1 ⟨4, 1⟩, .handle, .handle] := by
  refine irq_messages_faithful _ _ _
    ⟨⟨.inr (by decide), ?_⟩, trivial, ?_, trivial, trivial, ⟨.inr (by decide), ?_⟩, ?_, trivial,
      trivial⟩
  · intro h
    cases h
  · intro h
    exact absurd h (by decide +kernel)
  · intro h
    exact absurd h (by decide +kernel)
  · intro h
    exact absurd h (by decide +kernel)

/-- Functions 3 and 4 interrupt one after the other: the host is told twice about
function 4. -/
theorem irq_message_overwritten :
    ¬ EachStep step (fun s op => (s.step op).Faithful)
      (start (fun _ => (⟨0, 0⟩ : IrqData .int16)) (Packet.decode []))
      [.irq 0 ⟨3, 1⟩, .irq 1 ⟨4, 1⟩, .handle, .handle, .handle] := by
  rintro ⟨-, -, -, -, ⟨hsent, -⟩, -⟩
  exact absurd hsent (by decide +kernel)

end Irqs

end Bathos.Mcuio
