import Bathos.Buffer.Queue

/-!
# Bathos — the lininoio core

`lininoio/core.c`: a slave asks for an association with a broadcast request,
takes the reply, and from then on sends an alive packet in every period without
other activity. Packets travel in the buffers of the queue of an asynchronous
pipe: two of the functions get buffers from it, and the buffers the pipe has
processed come back with an event.

The packet formats of `lininoio.h` are not part of the repository: the sizes of
its structures and `lininoio_decode_cdlen` are parameters.

Main results:

* `periodic_some`, `bufAvailableLoop_spec`, `bufProcessed_spec` — what a call of
  each function does to the state, and the calls it makes on buffers;
* `areplyLoop_spec` — when the loop over a reply ends.
-/

namespace Bathos.Lininoio

open Bathos.Lib Bathos.Buffer

-- ---------------------------------------------------------------------------
-- Buffers and packets
-- ---------------------------------------------------------------------------

/-- `enum bathos_buffer_op_type`. -/
inductive OpType where
  | none
  | send
  | recv
  | bidir
deriving DecidableEq, Repr

/-- `enum bathos_buffer_op_address_type`, as far as it is used here. -/
inductive AddressType where
  | dontcare
  | remoteMac
deriving DecidableEq, Repr

/-- `struct bathos_buffer_op_address`. -/
structure Address where
  type : AddressType
  length : Nat
  val : List UInt8
deriving DecidableEq, Repr

/-- What `b->data` points to. `adata` are the fields `chan_dlen` that memory holds
from the first record of the reply on, up to the end of memory. -/
inductive Packet where
  | arequest (slaveName : String) (nchannels : Nat) (chanDescr : List UInt16)
  | areply (status : UInt8) (adata : List UInt16)
  | data (cdlen : UInt16)
  | other (type : UInt8)
deriving DecidableEq, Repr

/-- `struct bathos_buffer_op` with its operand. -/
structure BufferOp where
  type : OpType
  addr : Address
  data : Option Packet
  dataSize : Nat
deriving DecidableEq, Repr

/-- `struct lininoio_channel` with its descriptor and operations; the operations
get the length, and their status is all the core looks at. -/
structure Channel where
  contentsId : UInt16
  setup : Option (UInt16 → Int)
  input : Option (UInt16 → Int)

/-- The configuration, and the parts of `lininoio.h`: `decodeCdlen` gives the
channel and the length, the rest are the sizes of the request and of a channel
number in it, of the reply and of `p->adata`. -/
structure Config where
  rxBuffers : Nat
  slaveName : String
  channels : List Channel
  decodeCdlen : UInt16 → UInt8 × UInt16
  sizeofArequest : Nat
  sizeofChanDescr : Nat
  sizeofAreply : Nat
  sizeofAdata : Nat

-- ---------------------------------------------------------------------------
-- State
-- ---------------------------------------------------------------------------

/-- `enum lininoio_state`; `unset` stands for any other value. -/
inductive State where
  | unset
  | unassociated
  | associating
  | associated
deriving DecidableEq, Repr

/-- The texts printed. -/
inductive Message where
  | errorOpeningIoPipe
  | noBufferAvailable
  | nullDataPtr
  | associationRefused (status : UInt8)
  | invalidChannel (function : String) (cindex : UInt8)
  | setupError (cindex : UInt8)
  | inputError (cindex : UInt8)
  | packetWithNoData
  | unexpectedPacketType
  | edDataNull
  | operationNone
deriving DecidableEq, Repr

/-- What happens to a buffer: it is obtained from the queue, delivered by a
processed event, or released. -/
inductive Call where
  | get (b : Nat)
  | delivered (b : Nat)
  | put (b : Nat)
deriving DecidableEq, Repr

/-- `struct lininoio_data`, the static `started` of `lininoio_periodic`, and the
queue of the pipe with its buffers. `calls` records what happened to buffers so
far, and `stuck` that a function runs on for ever. -/
structure LininoioData where
  ioPipe : Bool
  hostAddress : Address
  state : State
  activity : Int
  outstandingRxBuffers : Int
  started : Bool
  queue : Bqueue
  bufs : Nat → BufferOp
  printed : List Message
  calls : List Call
  stuck : Bool

namespace LininoioData

/-- `printf`. -/
def print (m : Message) (s : LininoioData) : LininoioData := { s with printed := s.printed ++ [m] }

/-- `pipe_async_start`: both events of the pipe have been remapped. -/
def pipeAsyncStart (s : LininoioData) : LininoioData :=
  { s with queue := (s.queue.clientInit true true).start }

/-- `pipe_async_get_buf`. -/
def pipeAsyncGetBuf (s : LininoioData) : Option Nat × LininoioData :=
  match s.queue.getBuf with
  | (none, q) => (none, { s with queue := q })
  | (some b, q) => (some b, { s with queue := q, calls := s.calls ++ [.get b] })

/-- `bdescr_put`. -/
def bdescrPut (b : Nat) (s : LininoioData) : LininoioData :=
  { s with queue := s.queue.bdescrPut b, calls := s.calls ++ [.put b] }

def setBuf (b : Nat) (op : BufferOp) (s : LininoioData) : LininoioData :=
  { s with bufs := Function.update s.bufs b op }

-- ---------------------------------------------------------------------------
-- core.c, the sending side
-- ---------------------------------------------------------------------------

/-- `lininoio_init`; `found` says whether `pipe_open` finds the pipe. The channels'
own `init` functions come after that. The record of calls starts here. -/
def init (found : Bool) (s : LininoioData) : Int × LininoioData :=
  let s := { s with
    ioPipe := found, hostAddress := ⟨.dontcare, 0, List.replicate 8 0⟩, state := .unassociated,
    activity := 0, outstandingRxBuffers := 0, calls := [], stuck := false }
  if found then (0, s.pipeAsyncStart) else (-ENODEV, s.print .errorOpeningIoPipe)

/-- `__association_request`. -/
def associationRequest (cfg : Config) (op : BufferOp) : BufferOp :=
  { op with
    data := some (.arequest cfg.slaveName cfg.channels.length (cfg.channels.map (·.contentsId)))
    dataSize := cfg.sizeofArequest + cfg.sizeofChanDescr * (cfg.channels.length + 1) }

/-- `__send_alive`. -/
def sendAlive (op : BufferOp) : BufferOp := { op with data := some (.data 0) }

/-- `__get_buf`. -/
def getBuf (s : LininoioData) : Option Nat × LininoioData :=
  match s.pipeAsyncGetBuf with
  | (none, s) => (none, s.print .noBufferAvailable)
  | (some b, s) =>
    match (s.bufs b).data with
    | none => (none, s.print .nullDataPtr)
    | some _ => (some b, s)

/-- The broadcast address with the ethernet type of lininoio. -/
def universalAddress : Address :=
  ⟨.remoteMac, 6, [0xff, 0xff, 0xff, 0xff, 0xff, 0xff, 0x86, 0xb5]⟩

/-- `lininoio_periodic`, once it has a buffer. -/
def periodicWith (cfg : Config) (b : Nat) (s : LininoioData) : LininoioData :=
  match s.state with
  | .associating => s
  | .associated =>
    if s.activity ≠ 0 ∧ s.activity ≠ -1 then s
    else
      let op := { sendAlive (s.bufs b) with type := .send, addr := s.hostAddress }
      ({ s with activity := -1 }.setBuf b op).bdescrPut b
  | .unassociated =>
    let op := { associationRequest cfg (s.bufs b) with type := .send, addr := universalAddress }
    ({ s with state := .associating }.setBuf b op).bdescrPut b
  | .unset => s.bdescrPut b

/-- The first activation starts the pipe once more. -/
def startOnce (s : LininoioData) : LininoioData :=
  if s.started then s else { s with started := true }.pipeAsyncStart

/-- `lininoio_periodic`. -/
def periodic (cfg : Config) (s : LininoioData) : LininoioData :=
  if !s.ioPipe then s
  else
    match s.startOnce.getBuf with
    | (none, s) => s
    | (some b, s) => s.periodicWith cfg b

/-- The loop of `lininoio_buf_available_handle`, at most `n` times. -/
def bufAvailableLoop : Nat → LininoioData → LininoioData
  | 0, s => s
  | n + 1, s =>
    match s.pipeAsyncGetBuf with
    | (none, s) => s
    | (some b, s) =>
      let s := (s.setBuf b { s.bufs b with type := .recv }).bdescrPut b
      bufAvailableLoop n { s with outstandingRxBuffers := s.outstandingRxBuffers + 1 }

/-- `lininoio_buf_available_handle`. -/
def bufAvailableHandle (cfg : Config) (s : LininoioData) : LininoioData :=
  bufAvailableLoop (cfg.rxBuffers - s.outstandingRxBuffers).toNat s

-- ---------------------------------------------------------------------------
-- core.c, the receiving side
-- ---------------------------------------------------------------------------

/-- One record of the reply. -/
def setupChannel (cfg : Config) (cindex : UInt8) (len : UInt16) (s : LininoioData) : LininoioData :=
  match cfg.channels[cindex.toNat]? with
  | none => s.print (.invalidChannel "__process_areply" cindex)
  | some c =>
    match c.setup with
    | none => s
    | some setup => if setup len < 0 then s.print (.setupError cindex) else s

/-- The loop of `__process_areply`; `none` when it runs into the end of memory. -/
def areplyLoop (cfg : Config) (sz : Nat) : Nat → List UInt16 → LininoioData → Option LininoioData
  | processed, chanDlens, s =>
    if processed < sz then
      match chanDlens with
      | [] => none
      | chanDlen :: rest =>
        let (cindex, len) := cfg.decodeCdlen chanDlen
        areplyLoop cfg sz (processed + (len.toNat + cfg.sizeofAdata)) rest (s.setupChannel cfg cindex len)
    else some s
  termination_by structural _ chanDlens => chanDlens

/-- `__process_areply`. -/
def processAreply (cfg : Config) (status : UInt8) (adata : List UInt16) (sz : Nat) (s : LininoioData) :
    Option LininoioData :=
  if status ≠ 0 then some (s.print (.associationRefused status))
  else areplyLoop cfg sz cfg.sizeofAreply adata s

/-- `__process_data`. -/
def processData (cfg : Config) (cdlen : UInt16) (s : LininoioData) : LininoioData :=
  let (cindex, len) := cfg.decodeCdlen cdlen
  match cfg.channels[cindex.toNat]? with
  | none => s.print (.invalidChannel "__process_data" cindex)
  | some c =>
    match c.input with
    | none => s
    | some input => if input len < 0 then s.print (.inputError cindex) else s

/-- `__process_input`. -/
def processInput (cfg : Config) (b : Nat) (s : LininoioData) : LininoioData :=
  match (s.bufs b).data with
  | none => s.print .packetWithNoData
  | some (.areply status adata) =>
    match s.processAreply cfg status adata (s.bufs b).dataSize with
    | none => { s with stuck := true }
    | some s => s.bdescrPut b
  | some (.data cdlen) => (s.processData cfg cdlen).bdescrPut b
  | some _ => (s.print .unexpectedPacketType).bdescrPut b

/-- `lininoio_buf_processed_handle`; `ed->data` may be `NULL`. -/
def bufProcessedHandle (cfg : Config) (b : Option Nat) (s : LininoioData) : LininoioData :=
  match b with
  | none => s.print .edDataNull
  | some b =>
    let s := { s with calls := s.calls ++ [Call.delivered b] }
    match (s.bufs b).type with
    | .send => { s with activity := s.activity + 1 }
    | .recv => s.processInput cfg b
    | .none => s.print .operationNone
    | .bidir => s

end LininoioData

-- ---------------------------------------------------------------------------
-- Runs
-- ---------------------------------------------------------------------------

/-- The activations, and what the other side of the queue does between them: it
leaves some queue and some contents of the buffers. -/
inductive Op where
  | periodic
  | bufAvailable
  | bufProcessed (b : Option Nat)
  | pipe (queue : Bqueue) (bufs : Nat → BufferOp)

namespace LininoioData

/-- Nothing happens any more when a function does not return. -/
def step (cfg : Config) (s : LininoioData) (op : Op) : LininoioData :=
  if s.stuck then s
  else
    match op with
    | .periodic => s.periodic cfg
    | .bufAvailable => s.bufAvailableHandle cfg
    | .bufProcessed b => s.bufProcessedHandle cfg b
    | .pipe queue bufs => { s with queue := queue, bufs := bufs }

variable {cfg : Config} {s : LininoioData}

-- ---------------------------------------------------------------------------
-- Getting and putting
-- ---------------------------------------------------------------------------

/-- The buffers `pipe_async_get_buf` hands out, one after the other. -/
def available (q : Bqueue) : List Nat := if q.stopped then [] else q.freeBufs

theorem pipeAsyncGetBuf_nil (h : available s.queue = []) : s.pipeAsyncGetBuf = (none, s) := by
  unfold available at h
  unfold pipeAsyncGetBuf Bqueue.getBuf
  by_cases hstopped : s.queue.stopped = true
  · simp [hstopped]
  · rw [if_neg hstopped] at h
    simp [hstopped, h]

theorem pipeAsyncGetBuf_cons {b : Nat} {bs : List Nat} (h : available s.queue = b :: bs) :
    ∃ q, s.pipeAsyncGetBuf = (some b, { s with queue := q, calls := s.calls ++ [.get b] }) ∧
      available q = bs := by
  unfold available at h
  by_cases hstopped : s.queue.stopped = true
  · rw [if_pos hstopped] at h
    cases h
  · rw [if_neg hstopped] at h
    unfold pipeAsyncGetBuf Bqueue.getBuf
    simp only [hstopped, h]
    refine ⟨_, rfl, ?_⟩
    simp [available, Bqueue.bdescrGet]

/-- Putting a buffer triggers an event at most. -/
theorem available_bdescrPut (q : Bqueue) (b : Nat) : available (q.bdescrPut b) = available q := by
  unfold available Bqueue.bdescrPut
  simp only
  split
  · rfl
  · split <;> rfl

/-- `pipe_async_start` starts a stopped queue. -/
theorem available_start (q : Bqueue) :
    available (q.clientInit true true).start = q.freeBufs := by
  simp [available, Bqueue.start, Bqueue.clientInit, Bqueue.triggerEvent]

-- ---------------------------------------------------------------------------
-- What a call does
-- ---------------------------------------------------------------------------

/-- The buffers the periodic task can get. -/
def ready (s : LininoioData) : List Nat :=
  if s.started then available s.queue else s.queue.freeBufs

theorem startOnce_frame (s : LininoioData) :
    ∃ q, s.startOnce = { s with started := true, queue := q } ∧ available q = s.ready := by
  unfold startOnce ready
  by_cases hstarted : s.started = true
  · refine ⟨s.queue, ?_, ?_⟩
    · rw [if_pos hstarted, ← hstarted]
    · rw [if_pos hstarted]
  · refine ⟨_, if_neg hstarted, ?_⟩
    rw [if_neg hstarted]
    exact available_start s.queue

/-- The buffer the periodic task gets. -/
def nextBuf (s : LininoioData) : Option Nat := if s.ioPipe then s.ready.head? else none

/-- The periodic task leaves without putting the buffer it got. -/
def Kept (s : LininoioData) (b : Nat) : Prop :=
  (s.bufs b).data = none ∨ s.state = .associating ∨
    (s.state = .associated ∧ s.activity ≠ 0 ∧ s.activity ≠ -1)

instance (s : LininoioData) (b : Nat) : Decidable (s.Kept b) :=
  inferInstanceAs (Decidable (_ ∨ _ ∨ _))

/-- Without a buffer the periodic task does nothing. -/
theorem periodic_none (cfg : Config) (h : s.nextBuf = none) :
    ∃ q p k, s.periodic cfg = { s with started := k, queue := q, printed := p } := by
  unfold nextBuf at h
  unfold periodic
  by_cases hpipe : s.ioPipe = true
  · rw [if_pos hpipe, List.head?_eq_none_iff] at h
    obtain ⟨q, hq, hready⟩ := startOnce_frame s
    rw [h] at hready
    have hnone : s.startOnce.getBuf = (none, s.startOnce.print .noBufferAvailable) := by
      unfold getBuf
      rw [pipeAsyncGetBuf_nil (by rw [hq]; exact hready)]
    rw [if_neg (by simp [hpipe]), hnone, hq]
    exact ⟨_, _, _, rfl⟩
  · rw [if_pos (by simp [hpipe])]
    exact ⟨_, _, _, rfl⟩

/-- What it does with a buffer that has a data area. -/
theorem periodicWith_spec (cfg : Config) (s : LininoioData) {b : Nat} (hdata : (s.bufs b).data ≠ none) :
    (s.periodicWith cfg b).calls = s.calls ++ (if s.Kept b then [] else [.put b]) ∧
      (s.periodicWith cfg b).state =
        (if s.state = .unassociated then .associating else s.state) ∧
      (s.periodicWith cfg b).outstandingRxBuffers = s.outstandingRxBuffers ∧
      (s.periodicWith cfg b).stuck = s.stuck := by
  cases hstate : s.state with
  | unset => simp [periodicWith, Kept, hstate, hdata, bdescrPut]
  | unassociated => simp [periodicWith, Kept, hstate, hdata, bdescrPut, setBuf]
  | associating => simp [periodicWith, Kept, hstate]
  | associated =>
    by_cases hactive : s.activity ≠ 0 ∧ s.activity ≠ -1
    · simp [periodicWith, Kept, hstate, hactive]
    · simp [periodicWith, Kept, hstate, hactive, hdata, bdescrPut, setBuf]

/-- With a buffer it goes on when the buffer has a data area. -/
theorem periodic_eq (cfg : Config) {b : Nat} (h : s.nextBuf = some b) :
    ∃ q, s.periodic cfg =
      if (s.bufs b).data = none then
        { s with started := true, queue := q, calls := s.calls ++ [Call.get b] }.print .nullDataPtr
      else
        { s with started := true, queue := q, calls := s.calls ++ [Call.get b] }.periodicWith cfg b := by
  unfold nextBuf at h
  by_cases hpipe : s.ioPipe = true
  · rw [if_pos hpipe] at h
    obtain ⟨bs, hready⟩ := List.head?_eq_some_iff.mp h
    obtain ⟨q, hq, havailable⟩ := startOnce_frame s
    rw [hready] at havailable
    have hqueue : available s.startOnce.queue = b :: bs := by
      rw [hq]
      exact havailable
    obtain ⟨q', hget, -⟩ := pipeAsyncGetBuf_cons hqueue
    unfold periodic getBuf
    rw [if_neg (by simp [hpipe]), hget, hq]
    refine ⟨q', ?_⟩
    cases hdata : (s.bufs b).data <;> simp [hdata]
  · rw [if_neg hpipe] at h
    cases h

/-- **The periodic task.** It gets the next buffer, puts it unless it keeps it,
and goes from `UNASSOCIATED` to `ASSOCIATING`. -/
theorem periodic_some {b : Nat} (h : s.nextBuf = some b) :
    (s.periodic cfg).calls = s.calls ++ .get b :: (if s.Kept b then [] else [.put b]) ∧
      (s.periodic cfg).state =
        (if s.state = .unassociated ∧ (s.bufs b).data ≠ none then .associating else s.state) ∧
      (s.periodic cfg).outstandingRxBuffers = s.outstandingRxBuffers ∧
      (s.periodic cfg).stuck = s.stuck := by
  obtain ⟨q, heq⟩ := periodic_eq cfg h
  rw [heq]
  by_cases hdata : (s.bufs b).data = none
  · have hkept : s.Kept b := Or.inl hdata
    simp only [hdata, hkept, if_true, ne_eq, not_true, and_false, if_false]
    exact ⟨rfl, rfl, rfl, rfl⟩
  · have hwith := periodicWith_spec cfg
      { s with started := true, queue := q, calls := s.calls ++ [.get b] } hdata
    rw [List.append_assoc] at hwith
    simp only [hdata, if_false, ne_eq, not_false_eq_true, and_true]
    exact hwith

/-- The loop puts each of the buffers it gets for reception. -/
theorem bufAvailableLoop_spec (n : Nat) (s : LininoioData) :
    (bufAvailableLoop n s).calls =
        s.calls ++ ((available s.queue).take n).flatMap (fun b => [.get b, .put b]) ∧
      (bufAvailableLoop n s).outstandingRxBuffers =
        s.outstandingRxBuffers + ((available s.queue).take n).length ∧
      (bufAvailableLoop n s).state = s.state ∧ (bufAvailableLoop n s).stuck = s.stuck := by
  induction n generalizing s with
  | zero => simp [bufAvailableLoop]
  | succ n ih =>
    unfold bufAvailableLoop
    cases havailable : available s.queue with
    | nil =>
      rw [pipeAsyncGetBuf_nil havailable]
      simp
    | cons b bs =>
      obtain ⟨q, hget, hrest⟩ := pipeAsyncGetBuf_cons havailable
      rw [hget]
      obtain ⟨hcalls, hcount, hstate, hstuck⟩ := ih
        { bdescrPut b (setBuf b { s.bufs b with type := .recv }
            { s with queue := q, calls := s.calls ++ [Call.get b] }) with
          outstandingRxBuffers := s.outstandingRxBuffers + 1 }
      have hqueue : available (q.bdescrPut b) = bs := by
        rw [available_bdescrPut, hrest]
      refine ⟨?_, ?_, hstate, hstuck⟩
      · refine hcalls.trans ?_
        simp [bdescrPut, setBuf, hqueue]
      · refine hcount.trans ?_
        simp only [bdescrPut, setBuf, hqueue, List.take_succ_cons, List.length_cons]
        omega

theorem setupChannel_frame (cfg : Config) (cindex : UInt8) (len : UInt16) (s : LininoioData) :
    ∃ p, s.setupChannel cfg cindex len = { s with printed := p } := by
  unfold setupChannel
  split
  · exact ⟨_, rfl⟩
  · split
    · exact ⟨_, rfl⟩
    · split <;> exact ⟨_, rfl⟩

theorem processData_frame (cfg : Config) (cdlen : UInt16) (s : LininoioData) :
    ∃ p, s.processData cfg cdlen = { s with printed := p } := by
  unfold processData
  simp only
  split
  · exact ⟨_, rfl⟩
  · split
    · exact ⟨_, rfl⟩
    · split <;> exact ⟨_, rfl⟩

/-- What a record adds to the bytes processed. -/
def recordSize (cfg : Config) (chanDlen : UInt16) : Nat :=
  (cfg.decodeCdlen chanDlen).2.toNat + cfg.sizeofAdata

/-- The loop over the records ends when the records make up the size of the
packet before memory ends. -/
theorem areplyLoop_spec (sz : Nat) (adata : List UInt16) (processed : Nat) (s : LininoioData) :
    ∃ p, areplyLoop cfg sz processed adata s =
      if sz ≤ processed + (adata.map (recordSize cfg)).sum then some { s with printed := p } else none := by
  induction adata generalizing processed s with
  | nil =>
    unfold areplyLoop
    refine ⟨s.printed, ?_⟩
    by_cases hmore : processed < sz
    · simp [hmore]
    · simp [hmore, Nat.not_lt.mp hmore]
  | cons chanDlen rest ih =>
    unfold areplyLoop
    by_cases hmore : processed < sz
    · rw [if_pos hmore]
      obtain ⟨p, hp⟩ := setupChannel_frame cfg (cfg.decodeCdlen chanDlen).1
        (cfg.decodeCdlen chanDlen).2 s
      obtain ⟨p', hloop⟩ := ih (processed + recordSize cfg chanDlen) { s with printed := p }
      refine ⟨p', ?_⟩
      rw [List.map_cons, List.sum_cons, ← Nat.add_assoc, ← hloop, ← hp]
      rfl
    · refine ⟨s.printed, ?_⟩
      rw [if_neg hmore, if_pos (by omega)]

/-- A packet `__process_input` gets through: if it is a reply that grants the
association, its records make up its size. -/
def Processable (cfg : Config) (sz : Nat) : Option Packet → Prop
  | none => False
  | some (.areply status adata) =>
    status = 0 → sz ≤ cfg.sizeofAreply + (adata.map (recordSize cfg)).sum
  | some (.arequest _ _ _) => True
  | some (.data _) => True
  | some (.other _) => True

instance (cfg : Config) (sz : Nat) : ∀ d, Decidable (Processable cfg sz d)
  | none => inferInstanceAs (Decidable False)
  | some (.areply _ _) => inferInstanceAs (Decidable (_ → _))
  | some (.arequest _ _ _) => inferInstanceAs (Decidable True)
  | some (.data _) => inferInstanceAs (Decidable True)
  | some (.other _) => inferInstanceAs (Decidable True)

/-- The processed handler puts the buffer. -/
def Returned (cfg : Config) (op : BufferOp) : Prop :=
  op.type = .recv ∧ Processable cfg op.dataSize op.data

instance (cfg : Config) (op : BufferOp) : Decidable (Returned cfg op) :=
  inferInstanceAs (Decidable (_ ∧ _))

/-- `__process_input` puts the buffer when it gets through. -/
theorem processInput_spec (cfg : Config) (b : Nat) (s : LininoioData) :
    ∃ p k, s.processInput cfg b =
      if Processable cfg (s.bufs b).dataSize (s.bufs b).data then
        { s with printed := p }.bdescrPut b
      else { s with printed := p, stuck := k } := by
  unfold processInput
  cases hdata : (s.bufs b).data with
  | none =>
    refine ⟨s.printed ++ [.packetWithNoData], s.stuck, ?_⟩
    rw [if_neg (show ¬ Processable cfg _ none from id)]
    rfl
  | some packet =>
    cases packet with
    | arequest name nchannels chanDescr =>
      refine ⟨s.printed ++ [.unexpectedPacketType], s.stuck, ?_⟩
      rw [if_pos (show Processable cfg _ (some (.arequest name nchannels chanDescr)) from trivial)]
      rfl
    | data cdlen =>
      obtain ⟨p, hp⟩ := processData_frame cfg cdlen s
      refine ⟨p, s.stuck, ?_⟩
      rw [if_pos (show Processable cfg _ (some (.data cdlen)) from trivial), ← hp]
    | other type =>
      refine ⟨s.printed ++ [.unexpectedPacketType], s.stuck, ?_⟩
      rw [if_pos (show Processable cfg _ (some (.other type)) from trivial)]
      rfl
    | areply status adata =>
      unfold processAreply Processable
      by_cases hstatus : status = 0
      · obtain ⟨p, hloop⟩ := areplyLoop_spec (s.bufs b).dataSize adata cfg.sizeofAreply s
        by_cases hends : (s.bufs b).dataSize ≤ cfg.sizeofAreply + (adata.map (recordSize cfg)).sum
        · rw [if_pos hends] at hloop
          exact ⟨p, s.stuck, by simp [hstatus, hloop, hends]⟩
        · rw [if_neg hends] at hloop
          exact ⟨s.printed, true, by simp [hstatus, hloop, hends]⟩
      · refine ⟨s.printed ++ [.associationRefused status], s.stuck, ?_⟩
        simp [hstatus, print]

/-- **The processed handler.** It puts the buffer delivered in one case only, and
changes neither the state nor the number of outstanding buffers. -/
theorem bufProcessed_spec (cfg : Config) (b : Nat) (s : LininoioData) :
    (s.bufProcessedHandle cfg (some b)).calls =
        s.calls ++ .delivered b :: (if Returned cfg (s.bufs b) then [.put b] else []) ∧
      (s.bufProcessedHandle cfg (some b)).state = s.state ∧
      (s.bufProcessedHandle cfg (some b)).outstandingRxBuffers = s.outstandingRxBuffers ∧
      ((s.bufs b).type ≠ .recv → (s.bufProcessedHandle cfg (some b)).stuck = s.stuck) := by
  cases htype : (s.bufs b).type with
  | none => simp [bufProcessedHandle, Returned, htype, print]
  | send => simp [bufProcessedHandle, Returned, htype]
  | bidir => simp [bufProcessedHandle, Returned, htype]
  | recv =>
    obtain ⟨p, k, heq⟩ := processInput_spec cfg b { s with calls := s.calls ++ [Call.delivered b] }
    simp only [bufProcessedHandle, Returned, htype, true_and, heq]
    split
    · refine ⟨?_, rfl, rfl, fun hne => absurd rfl hne⟩
      simp [bdescrPut]
    · exact ⟨rfl, rfl, rfl, fun hne => absurd rfl hne⟩

end LininoioData

end Bathos.Lininoio
