import Bathos.Include.Headers
import Bathos.Lib.Run
import Bathos.Mcuio.Packet

/-!
# Bathos — the mcuio task

`mcuio/task-mcuio.c` and `mcuio/mcuio-function.h`: how bytes from the input pipe
become packets (`receive`), how a packet finds its function and its range
(`handlePacket`, `lookupRange`), how the range's operation is picked from the
type byte and run (`execRequest`), and what is written to the output pipe.

Pointers into memory are addresses of one flat memory. A range operation is one
of the default operations of the file or an arbitrary function of the world; a
status is a C `int` whose negation is one too. What the compiled code does
outside the language is a fault: reading the operation table past its four
entries, and calling through a `NULL` function-operations pointer.
-/

namespace Bathos.Mcuio

open Bathos.Lib

variable {sz : IntSize} {σ : Type}

-- ---------------------------------------------------------------------------
-- Ranges and functions
-- ---------------------------------------------------------------------------

/-- What range operations act on: the memory the default operations copy from and
to, and whatever else the functions' own operations use. -/
structure World (σ : Type) where
  memory : Nat → UInt8
  env : σ

/-- Bytes of a range's target touched by an operation, counted from the target. -/
structure Access where
  pos : Nat
  len : Nat
deriving DecidableEq, Repr

/-- What a range operation leaves: the world, its `int` status, the eight data
bytes of the reply (read operations), and the bytes of the target it touched. -/
structure OpResult (sz : IntSize) (σ : Type) where
  world : World σ
  status : Int
  data : BitVec 64
  accesses : List Access
  status_gt : -sz.max < status
  status_lt : status < sz.max

/-- `mcuio_read`: a default operation by name, or a function's own. -/
inductive ReadFn (sz : IntSize) (σ : Type) where
  | rdb
  | rdw
  | rddw
  | rdq
  | own (f : World σ → Nat → BitVec 64 → Bool → OpResult sz σ)

/-- `mcuio_write`. -/
inductive WriteFn (sz : IntSize) (σ : Type) where
  | wrb
  | wrw
  | wrdw
  | wrq
  | own (f : World σ → Nat → BitVec 64 → Bool → OpResult sz σ)

/-- `struct mcuio_range_ops`. -/
structure RangeOps (sz : IntSize) (σ : Type) where
  rd : Fin 4 → Option (ReadFn sz σ)
  wr : Fin 4 → Option (WriteFn sz σ)

/-- `struct mcuio_range`; `length` is the value its `length` pointer points to. -/
structure Range (sz : IntSize) (σ : Type) where
  start : Nat
  length : Nat
  rdTarget : Nat
  wrTarget : Nat
  ops : Option (RangeOps sz σ)

/-- `struct mcuio_function_ops`. -/
structure FunctionOps (σ : Type) where
  reply : Option (Packet → Int → World σ → World σ)

/-- `struct mcuio_function`; functions share runtimes by number. -/
structure Function (sz : IntSize) (σ : Type) where
  ranges : List (Range sz σ)
  ops : Option (FunctionOps σ)
  runtime : Nat

-- ---------------------------------------------------------------------------
-- Default operations
-- ---------------------------------------------------------------------------

/-- The `n` bytes of memory from `addr` on. -/
def peek (memory : Nat → UInt8) (addr n : Nat) : List UInt8 :=
  (List.range n).map fun i => memory (addr + i)

/-- `data` with its first bytes replaced. -/
def putBytes (data : BitVec 64) (bytes : List UInt8) : BitVec 64 :=
  ofBytes 64 (bytes ++ (toBytes 8 data).drop bytes.length)

/-- A default read of `n` bytes in one or more copies. -/
def readTarget (r : Range sz σ) (accesses : List Access) (w : World σ) (offset n : Nat)
    (data : BitVec 64) (hn : n ≤ 8) : OpResult sz σ where
  world := w
  status := n
  data := putBytes data (peek w.memory (r.rdTarget + offset) n)
  accesses := accesses
  status_gt := by have := sz.le_max; omega
  status_lt := by have := sz.le_max; omega

/-- A default write of the first `n` bytes of `data`. -/
def writeTarget (r : Range sz σ) (accesses : List Access) (w : World σ) (offset n : Nat)
    (data : BitVec 64) (hn : n ≤ 8) : OpResult sz σ where
  world := { w with memory := blit w.memory (r.wrTarget + offset) ((toBytes 8 data).take n) }
  status := n
  data := data
  accesses := accesses
  status_gt := by have := sz.le_max; omega
  status_lt := by have := sz.le_max; omega

/-- One copy of `size` bytes, or of 8 with the fill flag. -/
def readCopy (size : Nat) (hsize : size ≤ 8) (r : Range sz σ) (w : World σ) (offset : Nat)
    (data : BitVec 64) (fill : Bool) : OpResult sz σ :=
  let n := if fill then 8 else size
  readTarget r [⟨offset, n⟩] w offset n data (by show (if fill then 8 else size) ≤ 8; split <;> omega)

/-- `mcuio_rdb`. -/
def mcuioRdb (r : Range sz σ) (w : World σ) (offset : Nat) (data : BitVec 64) (fill : Bool) :
    OpResult sz σ := readCopy 1 (by omega) r w offset data fill

/-- `mcuio_rdw`. -/
def mcuioRdw (r : Range sz σ) (w : World σ) (offset : Nat) (data : BitVec 64) (fill : Bool) :
    OpResult sz σ := readCopy 2 (by omega) r w offset data fill

/-- `mcuio_rddw`: a dword, and the next one with the fill flag. -/
def mcuioRddw (r : Range sz σ) (w : World σ) (offset : Nat) (data : BitVec 64) (fill : Bool) :
    OpResult sz σ :=
  if fill then readTarget r [⟨offset, 4⟩, ⟨offset + 4, 4⟩] w offset 8 data (by omega)
  else readTarget r [⟨offset, 4⟩] w offset 4 data (by omega)

/-- `mcuio_rdq`: always eight bytes. -/
def mcuioRdq (r : Range sz σ) (w : World σ) (offset : Nat) (data : BitVec 64) (_fill : Bool) :
    OpResult sz σ :=
  readTarget r [⟨offset, 8⟩] w offset 8 data (by omega)

/-- The write of `size` bytes, or of 8 with the fill flag. -/
def writeCopy (size : Nat) (hsize : size ≤ 8) (r : Range sz σ) (w : World σ) (offset : Nat)
    (data : BitVec 64) (fill : Bool) : OpResult sz σ :=
  let n := if fill then 8 else size
  writeTarget r [⟨offset, n⟩] w offset n data (by show (if fill then 8 else size) ≤ 8; split <;> omega)

/-- `mcuio_wrb`. -/
def mcuioWrb (r : Range sz σ) (w : World σ) (offset : Nat) (data : BitVec 64) (fill : Bool) :
    OpResult sz σ := writeCopy 1 (by omega) r w offset data fill

/-- `mcuio_wrw`. -/
def mcuioWrw (r : Range sz σ) (w : World σ) (offset : Nat) (data : BitVec 64) (fill : Bool) :
    OpResult sz σ := writeCopy 2 (by omega) r w offset data fill

/-- `mcuio_wrdw`. -/
def mcuioWrdw (r : Range sz σ) (w : World σ) (offset : Nat) (data : BitVec 64) (fill : Bool) :
    OpResult sz σ :=
  if fill then writeTarget r [⟨offset, 4⟩, ⟨offset + 4, 4⟩] w offset 8 data (by omega)
  else writeTarget r [⟨offset, 4⟩] w offset 4 data (by omega)

/-- `mcuio_wrq`. -/
def mcuioWrq (r : Range sz σ) (w : World σ) (offset : Nat) (data : BitVec 64) (_fill : Bool) :
    OpResult sz σ :=
  writeTarget r [⟨offset, 8⟩] w offset 8 data (by omega)

def ReadFn.run (f : ReadFn sz σ) (r : Range sz σ) (w : World σ) (offset : Nat) (data : BitVec 64)
    (fill : Bool) : OpResult sz σ :=
  match f with
  | .rdb => mcuioRdb r w offset data fill
  | .rdw => mcuioRdw r w offset data fill
  | .rddw => mcuioRddw r w offset data fill
  | .rdq => mcuioRdq r w offset data fill
  | .own g => g w offset data fill

def WriteFn.run (f : WriteFn sz σ) (r : Range sz σ) (w : World σ) (offset : Nat) (data : BitVec 64)
    (fill : Bool) : OpResult sz σ :=
  match f with
  | .wrb => mcuioWrb r w offset data fill
  | .wrw => mcuioWrw r w offset data fill
  | .wrdw => mcuioWrdw r w offset data fill
  | .wrq => mcuioWrq r w offset data fill
  | .own g => g w offset data fill

/-- `default_mcuio_range_ops`. -/
def defaultMcuioRangeOps : RangeOps sz σ where
  rd := ![some .rdb, some .rdw, some .rddw, some .rdq]
  wr := ![some .wrb, some .wrw, some .wrdw, some .wrq]

/-- `default_mcuio_range_ro_ops`. -/
def defaultMcuioRangeRoOps : RangeOps sz σ where
  rd := ![some .rdb, some .rdw, some .rddw, some .rdq]
  wr := fun _ => none

-- ---------------------------------------------------------------------------
-- Requests
-- ---------------------------------------------------------------------------

/-- `__get_function`. -/
def getFunction (fns : List (Function sz σ)) (func : BitVec 5) : Option (Function sz σ) :=
  fns[func.toNat]?

/-- `__lookup_range`: the first range that holds all the bytes of the access, as far as
an `int` can tell. The length is read as a 16-bit value. -/
def lookupRange (f : Function sz σ) (p : Packet) : Option (Range sz σ) :=
  f.ranges.find? fun r =>
    let l : Nat := r.length % 2 ^ 16
    let last := sz.wrap ((r.start : Int) + l - 1)
    decide (r.start ≤ p.offset.toNat) &&
      decide (sz.wrap ((p.offset.toNat : Int) + p.dataLen sz - 1) ≤ last)

/-- What the handling of a packet works on: the `to_host` packet of each runtime,
the world, and the packets written to the output pipe. -/
structure Host (σ : Type) where
  toHost : Nat → Packet
  world : World σ
  out : List (List UInt8)

inductive Fault where
  | opOutOfTable
  | nullFunctionOps
deriving DecidableEq, Repr

/-- The two data words of a packet as they lie in memory. -/
def Packet.data (p : Packet) : BitVec 64 := p.data1 ++ p.data0

def Packet.setData (p : Packet) (data : BitVec 64) : Packet :=
  { p with data0 := data.extractLsb' 0 32, data1 := data.extractLsb' 32 32 }

/-- `(type & ((1 << 5) - 1)) >> 1`, the index of a read operation. -/
def readIndex (p : Packet) : Nat := ((p.type &&& ((1#8 <<< 5) - 1#8)) >>> 1).toNat

/-- `((type - 1) & ((1 << 5) - 1)) >> 1`, the index of a write operation. -/
def writeIndex (p : Packet) : Nat := (((p.type - 1#8) &&& ((1#8 <<< 5) - 1#8)) >>> 1).toNat

/-- The operation `__exec_request` picks: the read or write pointers, which may be
`NULL`. -/
inductive Picked (sz : IntSize) (σ : Type) where
  | none
  | read (f : ReadFn sz σ)
  | write (f : WriteFn sz σ)

def pickOp (r : Range sz σ) (p : Packet) : Except Fault (Picked sz σ) :=
  match r.ops with
  | none => .ok .none
  | some ops =>
    if p.isRead then
      if h : readIndex p < 4 then
        .ok (match ops.rd ⟨readIndex p, h⟩ with
          | some f => .read f
          | none => .none)
      else .error .opOutOfTable
    else if p.isWrite then
      if h : writeIndex p < 4 then
        .ok (match ops.wr ⟨writeIndex p, h⟩ with
          | some f => .write f
          | none => .none)
      else .error .opOutOfTable
    else .ok .none

/-- The operation's result, `none` when there is no operation. -/
def Picked.run (op : Picked sz σ) (r : Range sz σ) (p : Packet) (w : World σ) :
    Option (OpResult sz σ) :=
  match op with
  | .none => Option.none
  | .read f => some (f.run r w (p.offset.toNat - r.start) p.data p.isFillData)
  | .write f => some (f.run r w (p.offset.toNat - r.start) p.data p.isFillData)

/-- `f->runtime->to_host = packet`. -/
def Host.setToHost (s : Host σ) (f : Function sz σ) (p : Packet) : Host σ :=
  { s with toHost := Function.update s.toHost f.runtime p }

/-- `__exec_request`: the status, after the reply has been composed in the
function's runtime. -/
def execRequest (f : Function sz σ) (r : Range sz σ) (p : Packet) (s : Host σ) :
    Except Fault (Host σ × Int) :=
  match pickOp r p with
  | .error e => .error e
  | .ok op =>
    let reply := p.setReply
    match op, op.run r p s.world with
    | .read _, some res =>
      .ok ({ s.setToHost f (reply.setData res.data) with world := res.world }, res.status)
    | _, some res => .ok ({ s.setToHost f reply with world := res.world }, res.status)
    | _, none => .ok (s.setToHost f reply, -EPERM)

/-- `__mcuio_send_to_host`. -/
def Host.send (s : Host σ) (p : Packet) : Host σ := { s with out := s.out ++ [p.encode] }

/-- The packet `__mcuio_send_error_to_host` makes of its argument. -/
def errorPacket (p : Packet) (e : Int) : Packet := { p with data0 := BitVec.ofInt 32 e }.setError

/-- `mcuio_request_received`. -/
def requestReceived (f : Function sz σ) (p : Packet) (s : Host σ) : Except Fault (Host σ) :=
  match lookupRange f p with
  | none =>
    let q := errorPacket (s.toHost f.runtime) EINVAL
    .ok ((s.setToHost f q).send q)
  | some r =>
    match execRequest f r p s with
    | .error e => .error e
    | .ok (s, stat) =>
      if stat < 0 then
        let q := errorPacket (s.toHost f.runtime) (-stat)
        .ok ((s.setToHost f q).send q)
      else .ok (s.send (s.toHost f.runtime))

/-- `mcuio_send_reply_to_function`. -/
def sendReplyToFunction (f : Function sz σ) (p : Packet) (s : Host σ) : Except Fault (Host σ) :=
  match f.ops with
  | none => .error .nullFunctionOps
  | some ops =>
    match ops.reply with
    | none => .ok s
    | some reply => .ok { s with world := reply p 0 s.world }

/-- What `data_ready_handle` does with a complete packet. -/
def handlePacket (fns : List (Function sz σ)) (p : Packet) (s : Host σ) : Except Fault (Host σ) :=
  if p.dev ≠ 1#4 then .ok s
  else
    match getFunction fns p.func with
    | none => .ok (s.send (errorPacket p (-ENODEV)))
    | some f => if p.isReply then sendReplyToFunction f p s else requestReceived f p s

-- ---------------------------------------------------------------------------
-- Receiving
-- ---------------------------------------------------------------------------

/-- The receiver: `input_packet`, `curr_len`, the two static variables of
`data_ready_handle`, and how often the input pipe was reopened. -/
structure Rx (w : Nat) where
  inputPacket : Nat → UInt8
  currLen : Nat
  initialized : Bool
  last : BitVec w
  reopened : Nat

/-- The first part of `data_ready_handle`, up to a complete packet. `now` and
`now'` are the two reads of `jiffies`; `read len` is what `pipe_read` returns and
copies when asked for `len` bytes. -/
def receive {w : Nat} (hz : Nat) (now now' : BitVec w) (read : Nat → Int × List UInt8) (rx : Rx w) :
    Rx w × Option (List UInt8) :=
  let timedOut := rx.initialized && rx.currLen != 0 &&
    timeAfter now (rx.last + BitVec.ofNat w (hz / 20))
  let currLen := if timedOut then 0 else rx.currLen
  let rx := { rx with initialized := true, last := now' }
  let (stat, bytes) := read (packetSize - currLen)
  let inputPacket := blit rx.inputPacket currLen bytes
  if stat ≤ 0 then
    ({ rx with
      inputPacket := inputPacket
      currLen := 0
      reopened := if stat = 0 then rx.reopened + 1 else rx.reopened }, none)
  else if currLen + stat.toNat < packetSize then
    ({ rx with inputPacket := inputPacket, currLen := currLen + stat.toNat }, none)
  else
    ({ rx with inputPacket := inputPacket, currLen := 0 },
      some ((List.range packetSize).map inputPacket))

/-- The data of the task: the receiver and what the handling of packets uses. -/
structure McuioData (σ : Type) (w : Nat) where
  rx : Rx w
  host : Host σ

/-- `data_ready_handle`. -/
def dataReadyHandle {w : Nat} (fns : List (Function sz σ)) (hz : Nat) (now now' : BitVec w)
    (read : Nat → Int × List UInt8) (d : McuioData σ w) : Except Fault (McuioData σ w) :=
  match receive hz now now' read d.rx with
  | (rx, none) => .ok { d with rx := rx }
  | (rx, some bytes) =>
    match handlePacket fns (Packet.decode bytes) d.host with
    | .error e => .error e
    | .ok host => .ok ⟨rx, host⟩

end Bathos.Mcuio
