import Bathos.Buffer.Queue
import Bathos.Lib.Memory

/-!
# Bathos — the unix ethernet driver

`drivers/unix-eth.c`: buffers set up for sending or reception, packets from the
socket, and buffers given back by the client. A buffer is an element of exactly
one list, so moving it takes it from the list it was in.

A received packet goes into the first buffer of `rx_queue`, which stays there
until its release is handled. What the driver does not record is that the buffer
has been filled (`Reception.filled`): the next packet goes into it as well.

Main results:

* `delivered_iff` — a packet is stored as it should be exactly when the first
  buffer of `rx_queue` is not one that waits for its release;
* `reception_iff` — the runs in which every packet is.
-/

namespace Bathos.Unix

open Bathos.Lib Bathos.Buffer

def ETHER_ADDR_LEN : Nat := 6

/-- `struct bathos_buffer_op_address`. -/
structure OpAddress where
  type : AddressType
  length : Nat
  val : List UInt8

-- ---------------------------------------------------------------------------
-- unix-eth.c
-- ---------------------------------------------------------------------------

/-- The queue of the device, the driver's two lists, the operations and the data
of the buffers, and what has been handed to `sendto`. -/
structure Eth where
  q : Bqueue
  rxQueue : List Nat
  txQueue : List Nat
  opType : Nat → BufferOpType
  addr : Nat → OpAddress
  data : Nat → Nat → UInt8
  dataSize : Nat → Nat
  sent : List (List UInt8 × List UInt8)

namespace Eth

/-- The first `data_size` bytes of a buffer. -/
def stored (s : Eth) (b : Nat) : List UInt8 := block (s.data b) 0 (s.dataSize b)

/-- `bathos_bqueue_server_buf_done`, on a buffer that may be in a list of the
driver. -/
def bufDone (s : Eth) (b : Nat) : Eth :=
  { s with q := s.q.serverBufDone b, rxQueue := s.rxQueue.erase b, txQueue := s.txQueue.erase b }

/-- `list_del(&b->list)`, the first half of `list_move_tail`. -/
def listDel (s : Eth) (b : Nat) : Eth :=
  { s with
    q := { s.q with freeBufs := s.q.freeBufs.erase b, busyBufs := s.q.busyBufs.erase b }
    rxQueue := s.rxQueue.erase b
    txQueue := s.txQueue.erase b }

/-- `start_tx`. -/
def startTx (s : Eth) : Eth :=
  match s.txQueue with
  | [] => s
  | b :: _ =>
    if (s.addr b).type ≠ .remoteMac then s.bufDone b
    else if (s.addr b).length ≠ ETHER_ADDR_LEN then s.bufDone b
    else
      { s with sent := s.sent ++ [((s.addr b).val.take ETHER_ADDR_LEN, s.stored b)] }.bufDone b

/-- `unix_eth_setup_handler`. -/
def setupHandler (s : Eth) : Option Nat → Eth
  | none => s
  | some b =>
    match s.opType b with
    | .none => s.bufDone b
    | .send =>
      let s := s.listDel b
      { s with txQueue := s.txQueue ++ [b] }.startTx
    | .recv =>
      let s := s.listDel b
      { s with rxQueue := s.rxQueue ++ [b] }
    | .bidir => s.bufDone b
    | .invalid => s.bufDone b

/-- `unix_eth_done_handler`. -/
def doneHandler (s : Eth) : Option Nat → Eth
  | none => s
  | some b => s.bufDone b

/-- `unix_eth_input_ready_handler`. `packet` is the packet `recv` finds, `none` when
it fails; `recv` stores no more than `bufsize` bytes of it. -/
def inputReadyHandler (bufsize : Nat) (packet : Option (List UInt8)) (s : Eth) : Eth :=
  match s.rxQueue with
  | [] => s
  | b :: _ =>
    match packet with
    | none => s
    | some p =>
      let bytes := p.take bufsize
      { s with
        data := Function.update s.data b (blit (s.data b) 0 bytes)
        dataSize := Function.update s.dataSize b bytes.length
        q := s.q.serverBufProcessed b }

end Eth

-- ---------------------------------------------------------------------------
-- Statement
-- ---------------------------------------------------------------------------

/-- A buffer is set up for reception, a packet comes in, or the release of a buffer
is handled. -/
inductive EthOp where
  | recvSetup (b : Nat)
  | packet (p : List UInt8)
  | release (b : Nat)
deriving DecidableEq, Repr

/-- The driver, and the buffers that hold a packet and whose release has not been
handled since. -/
structure Reception where
  drv : Eth
  filled : Nat → Bool

namespace Reception

def step (bufsize : Nat) (t : Reception) : EthOp → Reception
  | .recvSetup b =>
    { t with
      drv := { t.drv with opType := Function.update t.drv.opType b .recv }.setupHandler (some b) }
  | .packet p =>
    { drv := t.drv.inputReadyHandler bufsize (some p)
      filled :=
        match t.drv.rxQueue with
        | [] => t.filled
        | b :: _ => Function.update t.filled b true }
  | .release b =>
    { drv := t.drv.doneHandler (some b), filled := Function.update t.filled b false }

/-- Data and data size of a buffer are as they were. -/
def Untouched (t t' : Reception) (b : Nat) : Prop :=
  t'.drv.data b = t.drv.data b ∧ t'.drv.dataSize b = t.drv.dataSize b

/-- A packet that finds a buffer set up and not filled goes into one, which is
announced once; nothing else happens to the buffers. A packet that finds none, and
the other calls, leave them all alone. -/
def Delivered (bufsize : Nat) (t : Reception) (op : EthOp) : Prop :=
  match op with
  | .packet p =>
    ((∃ b ∈ t.drv.rxQueue, t.filled b = false) →
        ∃ b ∈ t.drv.rxQueue, t.filled b = false ∧
          (t.step bufsize op).drv.stored b = p.take bufsize ∧
          (t.step bufsize op).drv.q.processedBufs = t.drv.q.processedBufs ++ [b] ∧
          ∀ c, c ≠ b → t.Untouched (t.step bufsize op) c) ∧
      ((∀ b ∈ t.drv.rxQueue, t.filled b = true) →
        (t.step bufsize op).drv.q.processedBufs = t.drv.q.processedBufs ∧
          ∀ c, t.Untouched (t.step bufsize op) c)
  | _ =>
    (t.step bufsize op).drv.q.processedBufs = t.drv.q.processedBufs ∧
      ∀ c, t.Untouched (t.step bufsize op) c

/-- The first buffer of `rx_queue`, if there is one, does not wait for its release
when a packet comes in. -/
def HeadFree (t : Reception) : EthOp → Prop
  | .packet _ => ∀ b ∈ t.drv.rxQueue.head?, t.filled b = false
  | _ => True

instance (t : Reception) : ∀ op, Decidable (t.HeadFree op)
  | .recvSetup _ => inferInstanceAs (Decidable True)
  | .packet _ => inferInstanceAs (Decidable (∀ b ∈ t.drv.rxQueue.head?, t.filled b = false))
  | .release _ => inferInstanceAs (Decidable True)

-- ---------------------------------------------------------------------------
-- One call
-- ---------------------------------------------------------------------------

section Step

variable {bufsize : Nat} {t : Reception}

/-- Set-ups and releases concern lists and the `available` event only. -/
theorem step_quiet {op : EthOp} (hop : ∀ p, op ≠ .packet p) :
    (t.step bufsize op).drv.q.processedEvent = t.drv.q.processedEvent ∧
      (t.step bufsize op).drv.q.processedBufs = t.drv.q.processedBufs ∧
      ∀ c, t.Untouched (t.step bufsize op) c := by
  cases op with
  | packet p => exact absurd rfl (hop p)
  | recvSetup b =>
    have hset : (t.step bufsize (.recvSetup b)).drv =
        { ({ t.drv with opType := Function.update t.drv.opType b .recv } : Eth).listDel b with
          rxQueue := t.drv.rxQueue.erase b ++ [b] } := by
      unfold step Eth.setupHandler
      simp only [Function.update_self]
      rfl
    unfold Untouched
    rw [hset]
    exact ⟨rfl, rfl, fun _ => ⟨rfl, rfl⟩⟩
  | release b =>
    obtain ⟨hproc, hbufs⟩ := t.drv.q.serverBufDone_processed b
    exact ⟨hproc, hbufs, fun _ => ⟨rfl, rfl⟩⟩

theorem step_packet_nil {p : List UInt8} (h : t.drv.rxQueue = []) :
    t.step bufsize (.packet p) = t := by
  obtain ⟨drv, filled⟩ := t
  simp only at h
  unfold step Eth.inputReadyHandler
  simp only [h]

/-- A packet overwrites the first buffer of the queue. -/
theorem step_packet_cons (hq : t.drv.q.processedEvent = true) {p : List UInt8} {b : Nat}
    {rest : List Nat} (h : t.drv.rxQueue = b :: rest) :
    (t.step bufsize (.packet p)).drv.stored b = p.take bufsize ∧
      (t.step bufsize (.packet p)).drv.q.processedBufs = t.drv.q.processedBufs ++ [b] ∧
      ∀ c, c ≠ b → t.Untouched (t.step bufsize (.packet p)) c := by
  have hdrv : (t.step bufsize (.packet p)).drv =
      { t.drv with
        data := Function.update t.drv.data b (blit (t.drv.data b) 0 (p.take bufsize))
        dataSize := Function.update t.drv.dataSize b (p.take bufsize).length
        q := t.drv.q.serverBufProcessed b } := by
    unfold step Eth.inputReadyHandler
    simp only [h]
  refine ⟨?_, ?_, fun c hc => ?_⟩
  · unfold Eth.stored
    rw [hdrv]
    simp only [Function.update_self]
    exact block_blit_self _ _ _
  · rw [hdrv]
    exact (Bqueue.serverBufProcessed_processed b hq).2
  · unfold Untouched
    rw [hdrv]
    simp only
    rw [Function.update_of_ne hc, Function.update_of_ne hc]
    exact ⟨rfl, rfl⟩

theorem step_processedEvent (op : EthOp) (h : t.drv.q.processedEvent = true) :
    (t.step bufsize op).drv.q.processedEvent = true := by
  cases op with
  | recvSetup b => rw [(step_quiet (by simp)).1, h]
  | release b => rw [(step_quiet (by simp)).1, h]
  | packet p =>
    cases hrx : t.drv.rxQueue with
    | nil => rw [step_packet_nil hrx, h]
    | cons b rest =>
      unfold step Eth.inputReadyHandler
      simp only [hrx]
      exact h

/-- **One call.** A packet that finds the head of the queue filled is stored in the
wrong buffer, and announced for it. -/
theorem delivered_iff (hq : t.drv.q.processedEvent = true) (op : EthOp) :
    t.Delivered bufsize op ↔ t.HeadFree op := by
  cases op with
  | recvSetup b => exact ⟨fun _ => trivial, fun _ => (step_quiet (by simp)).2⟩
  | release b => exact ⟨fun _ => trivial, fun _ => (step_quiet (by simp)).2⟩
  | packet p =>
    unfold Delivered HeadFree
    simp only
    cases hrx : t.drv.rxQueue with
    | nil =>
      rw [step_packet_nil hrx]
      refine ⟨fun _ b hb => absurd hb (by simp), fun _ => ⟨fun ⟨b, hb, _⟩ => absurd hb (by simp), ?_⟩⟩
      exact fun _ => ⟨rfl, fun _ => ⟨rfl, rfl⟩⟩
    | cons b rest =>
      obtain ⟨hstored, hevents, hothers⟩ :
          (t.step bufsize (.packet p)).drv.stored b = p.take bufsize ∧ _ ∧ _ :=
        step_packet_cons hq hrx
      simp only [List.head?_cons, Option.mem_def, Option.some.injEq, forall_eq']
      constructor
      · rintro ⟨hsome, hnone⟩
        by_contra hfilled
        rw [Bool.not_eq_false] at hfilled
        by_cases hex : ∃ c ∈ b :: rest, t.filled c = false
        · -- the event names the head, which is filled
          obtain ⟨c, -, hc, -, hev, -⟩ := hsome hex
          rw [hevents] at hev
          have hbc : b = c := by simpa using List.append_cancel_left hev
          rw [hbc, hc] at hfilled
          exact absurd hfilled (by simp)
        · have hall : ∀ c ∈ b :: rest, t.filled c = true := by
            intro c hc
            by_contra hne
            exact hex ⟨c, hc, by simpa using hne⟩
          have hev := (hnone hall).1
          rw [hevents] at hev
          simp at hev
      · intro hfree
        refine ⟨fun _ => ⟨b, List.mem_cons_self, hfree, hstored, hevents, hothers⟩, fun hall => ?_⟩
        rw [hall b List.mem_cons_self] at hfree
        exact absurd hfree (by simp)

end Step

end Reception

open Reception

/-- **Reception.** For every state of the driver with a `processed` event, and every
sequence of set-ups, packets and releases: all packets are stored as they should be
exactly when each finds the head of `rx_queue` free. -/
theorem reception_iff (bufsize : Nat) {t : Reception} (hq : t.drv.q.processedEvent = true)
    (ops : List EthOp) :
    EachStep (Reception.step bufsize) (Delivered bufsize) t ops ↔
      EachStep (Reception.step bufsize) HeadFree t ops :=
  eachStep_iff (fun (t : Reception) op (h : t.drv.q.processedEvent = true) => delivered_iff h op)
    (fun _ op h _ => step_processedEvent op h) hq

/-- An open device with its buffers with the client. -/
def opened : Reception where
  drv :=
    { q :=
        { stopped := false, availableEvent := true, processedEvent := true, freeBufs := [],
          busyBufs := [0, 1], users := fun _ => 0, releaseEvent := fun _ => none, events := [] }
      rxQueue := []
      txQueue := []
      opType := fun _ => .none
      addr := fun _ => ⟨.dontcare, 0, []⟩
      data := fun _ _ => 0
      dataSize := fun _ => 0
      sent := [] }
  filled := fun _ => false

-- Each packet is released before the next one comes in.
theorem reception_one_by_one :
    EachStep (Reception.step 1500) (Delivered 1500) opened
      [.recvSetup 0, .recvSetup 1, .packet [1, 2], .release 0, .packet [3], .release 1, .packet [4]] :=
  (reception_iff 1500 rfl _).mpr (by decide)

/-- Two packets, two buffers set up: both packets go into the first one. -/
theorem first_packet_overwritten :
    ¬ ∀ (bufsize : Nat) (t : Reception) (ops : List EthOp), t.drv.q.processedEvent = true →
      EachStep (Reception.step bufsize) (Delivered bufsize) t ops := by
  intro hall
  obtain ⟨-, -, -, hsecond, -⟩ :=
    hall 1500 opened [.recvSetup 0, .recvSetup 1, .packet [1, 2], .packet [3]] rfl
  obtain ⟨b, -, hb, -, hev, -⟩ := hsecond.1 ⟨1, by decide, by decide⟩
  have hzero : b = 0 := by
    have h : [0, 0] = [0, b] := hev
    simpa using h.symm
  rw [hzero] at hb
  exact absurd hb (by decide)

end Bathos.Unix
