import Bathos.Include.Headers
import Bathos.Lib.Run

/-!
# Bathos — the bit-banged I2C controller

`mcuio/mcuio_bitbang_i2c_func.c`: the transaction state machine
(`handleGo`, called by the event handler until it returns 0), the two host
windows on the shared buffer (`obufWrb`, `ibufRdb`) and the register accesses
that start transactions, read the status and queue resets.

The bus is seen at the level of its bytes: each action is appended to `trace`.
Below it a byte is eight clock pulses. A slave sees the level the controller sets
on SDA at each of them, and answers with the level it leaves there or by holding
SCL until the clock-stretching timeout. Events go through a
FIFO queue that is never full.

The width `w` of a C `int` is a parameter: the controller runs on targets where
it is 16 bits, so that `uint16_t` operands are not promoted, and on targets
where it is 32.
-/

namespace Bathos.I2c

open Bathos.Lib

-- ---------------------------------------------------------------------------
-- Arithmetic on uint16_t
-- ---------------------------------------------------------------------------

/-- `u == i` for a `uint16_t` and a value of type `int` or `int16_t`: compared as
`int` where that is wider than 16 bits, else as `unsigned int`. -/
def eqInt (w u : Nat) (i : Int) : Bool :=
  if 16 < w then decide ((u : Int) = i) else decide ((u : Int) = i % 2 ^ 16)

/-- `a - b` of two `uint16_t`, stored in an `int`. -/
def subInt (w a b : Nat) : Int :=
  if 16 < w then (a : Int) - b else Int.bmod ((a : Int) - b) (2 ^ 16)

-- ---------------------------------------------------------------------------
-- The bus
-- ---------------------------------------------------------------------------

inductive BusAction where
  | start
  | repStart
  | byte (c : UInt8)
  | recv (c : UInt8)
  | acknak (isAck : Bool)
  | stop
deriving DecidableEq, Repr

/-- One call of `sclhi` and the level of SDA while SCL is high. -/
inductive Pulse where
  | timeout
  | level (sda : Bool)
deriving DecidableEq, Repr

/-- A slave: its answer to each pulse of a byte, given the actions before it. Of a
byte sent to it, it has seen the level of SDA at each pulse so far: the bits at the
first eight, and the line released for the acknowledge at the last. -/
structure Slave where
  onSend : List BusAction → List Bool → Pulse
  onRecv : List BusAction → Nat → Pulse

/-- No slave at the address: SDA stays high. -/
def Slave.absent : Slave where
  onSend _ _ := .level true
  onRecv _ _ := .level true

/-- A slave that acknowledges everything and sends the byte `c`. -/
def Slave.steady (c : UInt8) : Slave where
  onSend _ _ := .level false
  onRecv _ i := .level (c.toBitVec.getMsbD i)

/-- The loop of `__i2c_bitbang_send_byte`: its result and the levels set on SDA. -/
def sendBits (pulse : List Bool → Pulse) (c : UInt8) : Nat → List Bool → Int × List Bool
  | 0, driven => (0, driven)
  | i + 1, driven =>
    let sb := (c.toNat >>> i) &&& 1
    match pulse (driven ++ [sb != 0]) with
    | .timeout => (-ETIMEDOUT, driven ++ [sb != 0])
    | .level _ => sendBits pulse c i (driven ++ [sb != 0])

/-- `__i2c_bitbang_send_byte`: 0 when the slave acknowledges. -/
def Slave.sendByte (sl : Slave) (h : List BusAction) (c : UInt8) : Int :=
  let (stat, driven) := sendBits (sl.onSend h) c 8 []
  if stat < 0 then stat
  else
    match sl.onSend h (driven ++ [true]) with
    | .timeout => -ETIMEDOUT
    | .level sda => if sda then -1 else 0

/-- The loop of `__i2c_bitbang_recv_byte`; after a timeout the bits read so far
stay in `*out`. -/
def recvBits (pulse : Nat → Pulse) : List Nat → UInt8 → Int × UInt8
  | [], out => (0, out)
  | i :: is, out =>
    match pulse i with
    | .timeout => (-ETIMEDOUT, out)
    | .level sda => recvBits pulse is (out * 2 ||| if sda then 0x01 else 0)

/-- `__i2c_bitbang_recv_byte`. -/
def Slave.recvByte (sl : Slave) (h : List BusAction) : Int × UInt8 :=
  recvBits (sl.onRecv h) (List.range 8) 0

-- ---------------------------------------------------------------------------
-- Data
-- ---------------------------------------------------------------------------

/-- `enum i2c_transaction_state`. -/
inductive TransactionState where
  | idle
  | startSent
  | addrSent
  | sendingData
  | awaitingOutputData
  | dataSent
  | repeatedStartSent
  | addrSent2
  | receivingData
  | awaitingInputSpace
  | dataReceived
  | error
deriving DecidableEq, Repr

/-- The events of the controller: `i2c_transaction` with `I2C_GO` or `I2C_RESET`,
and `mcuio_irq`. -/
inductive Event where
  | i2cGo
  | i2cReset
  | mcuioIrq (active : Bool)
deriving DecidableEq, Repr

/-- `sizeof(i2c_data.buffer)`. -/
def bufSize : Nat := 128

/-- An index into the buffer; the code masks every advance of one. -/
abbrev BufIdx := Fin 128

/-- `n & (sizeof(i2c_data.buffer) - 1)`. -/
def mask (n : Nat) : BufIdx := ⟨n &&& (bufSize - 1), Nat.lt_of_le_of_lt Nat.and_le_right (by decide)⟩

/-- `struct mcuio_i2c_data`, with the event queue and what has happened on the
bus. -/
structure I2cData where
  slaveAddress : BitVec 16
  ibufLen : Int
  obufLen : Nat
  dataCnt : Nat
  status : UInt8
  intEnable : BitVec 32
  buffer : Nat → UInt8
  ibufHead : BufIdx
  ibufTail : BufIdx
  obufHead : BufIdx
  obufTail : BufIdx
  state : TransactionState
  queue : List Event
  trace : List BusAction

/-- `i2c_data` as the program starts. -/
def I2cData.init : I2cData where
  slaveAddress := 0
  ibufLen := 0
  obufLen := 0
  dataCnt := 0
  status := 0
  intEnable := 0
  buffer := fun _ => 0
  ibufHead := 0
  ibufTail := 0
  obufHead := 0
  obufTail := 0
  state := .idle
  queue := []
  trace := []

def OBUF_LOW_WATERMARK : Nat := 0
def OBUF_HIGH_WATERMARK : Nat := (bufSize - 1) / 8 * 8
def IBUF_HI_WATERMARK : Nat := (bufSize - 1) / 8 * 8

def TRANSACTION_OK : UInt8 := 0x01
def OBUF_LO_WM_REACHED : UInt8 := 0x02
def IBUF_HI_WM_REACHED : UInt8 := 0x04
def NAK_RECEIVED : UInt8 := 0x80
def INVALID_LEN : UInt8 := 0x81

namespace I2cData

/-- `CIRC_CNT` and `CIRC_SPACE` of the two windows. -/
def obufCnt (s : I2cData) : Nat := circCnt s.obufHead s.obufTail bufSize

@[inherit_doc obufCnt]
def obufSpace (s : I2cData) : Nat := circSpace s.obufHead s.obufTail bufSize

@[inherit_doc obufCnt]
def ibufCnt (s : I2cData) : Nat := circCnt s.ibufHead s.ibufTail bufSize

@[inherit_doc obufCnt]
def ibufSpace (s : I2cData) : Nat := circSpace s.ibufHead s.ibufTail bufSize

/-- One more action on the bus. -/
def bus (s : I2cData) (a : BusAction) : I2cData := { s with trace := s.trace ++ [a] }

/-- `trigger_event`. -/
def trigger (s : I2cData) (e : Event) : I2cData := { s with queue := s.queue ++ [e] }

-- ---------------------------------------------------------------------------
-- The state machine
-- ---------------------------------------------------------------------------

/-- `__i2c_bitbang_next_state`. -/
def nextState (s : I2cData) (st : TransactionState) : Bool × I2cData :=
  (decide (¬(st = .idle ∨ st = .awaitingOutputData ∨ st = .awaitingInputSpace)),
    { s with state := st })

/-- `__i2c_bitbang_trigger_irq`. -/
def triggerIrq (s : I2cData) : I2cData := s.trigger (.mcuioIrq true)

/-- `__i2c_bitbang_end_transaction`. -/
def endTransaction (s : I2cData) (st : UInt8) : I2cData :=
  { s.bus .stop with
    status := st
    state := if st ≠ TRANSACTION_OK then .error else .idle }.triggerIrq

/-- `__i2c_handle_reset`. -/
def handleReset (s : I2cData) : I2cData := ({ s with status := 0 }.nextState .idle).2

/-- The address byte: `a | (force_rd ? 1 : 0)`. -/
def addrByte (s : I2cData) (forceRd : Bool) : UInt8 :=
  UInt8.ofBitVec (s.slaveAddress.setWidth 8) ||| if forceRd then 1 else 0

/-- `__i2c_bitbang_send_slave_addr`: the byte goes on the bus; the result says
whether it was acknowledged. -/
def sendSlaveAddr (sl : Slave) (s : I2cData) (forceRd : Bool) : Int × I2cData :=
  (sl.sendByte s.trace (s.addrByte forceRd), s.bus (.byte (s.addrByte forceRd)))

/-- `case SENDING_DATA` of `__i2c_handle_go`. -/
def goSending (w : Nat) (sl : Slave) (s : I2cData) : Bool × I2cData :=
  let c := s.buffer s.obufTail
  let stat := sl.sendByte s.trace c
  let s := s.bus (.byte c)
  if stat < 0 then
    -- throw away remaining data
    (false, { s with obufTail := s.obufHead }.endTransaction NAK_RECEIVED)
  else
    let s := { s with
      dataCnt := (s.dataCnt + 1) % 2 ^ 16
      obufTail := mask (s.obufTail + 1) }
    if s.dataCnt = s.obufLen then
      -- equalize tail to head
      { s with obufTail := s.obufHead }.nextState .dataSent
    else
      let count := s.obufCnt
      let togo := subInt w s.obufLen s.dataCnt
      let s := if count = OBUF_LOW_WATERMARK ∧ (count : Int) < togo then
          { s with status := OBUF_LO_WM_REACHED }.triggerIrq
        else s
      s.nextState (if count ≠ 0 then .sendingData else .awaitingOutputData)

/-- `case DATA_SENT`. -/
def goDataSent (s : I2cData) : Bool × I2cData :=
  if s.ibufLen = 0 then (false, s.endTransaction TRANSACTION_OK)
  else
    let (ret, s) := if s.obufLen = 0 then s.nextState .receivingData
      else (s.bus .repStart).nextState .repeatedStartSent
    -- the counter is reset on both ways
    (ret, { s with dataCnt := 0 })

/-- `case RECEIVING_DATA`. -/
def goReceiving (w : Nat) (sl : Slave) (s : I2cData) : Bool × I2cData :=
  let c := (sl.recvByte s.trace).2
  let s := { s.bus (.recv c) with buffer := blit s.buffer s.ibufHead [c] }
  let smbus := eqInt w s.dataCnt (-1)
  if smbus = true ∧ c.toNat > s.ibufSpace then (false, s.endTransaction INVALID_LEN)
  else
    let s := if smbus = true then { s with dataCnt := 0, ibufLen := c.toNat } else s
    let s := { s with dataCnt := (s.dataCnt + 1) % 2 ^ 16 }
    let done := eqInt w s.dataCnt s.ibufLen
    let s := { s.bus (.acknak (!done)) with ibufHead := mask (s.ibufHead + 1) }
    if done = true then s.nextState .dataReceived
    else
      let space := s.ibufSpace
      let s := if space = IBUF_HI_WATERMARK then
          { s with status := IBUF_HI_WM_REACHED }.triggerIrq
        else s
      s.nextState (if space ≠ 0 then .receivingData else .awaitingInputSpace)

/-- `__i2c_handle_go`. -/
def handleGo (w : Nat) (sl : Slave) (s : I2cData) : Bool × I2cData :=
  match s.state with
  | .idle => (s.bus .start).nextState .startSent
  | .startSent =>
    let forceRd := decide (s.ibufLen ≠ 0 ∧ s.obufLen = 0)
    let (stat, s) := s.sendSlaveAddr sl forceRd
    if stat < 0 then (false, s.endTransaction NAK_RECEIVED) else s.nextState .addrSent
  | .addrSent =>
    if s.obufLen = 0 then s.nextState .dataSent else { s with dataCnt := 0 }.nextState .sendingData
  | .sendingData => s.goSending w sl
  | .dataSent => s.goDataSent
  | .repeatedStartSent =>
    let (stat, s) := s.sendSlaveAddr sl true
    if stat < 0 then (false, s.endTransaction NAK_RECEIVED) else s.nextState .addrSent2
  | .addrSent2 =>
    { s with dataCnt := if s.ibufLen = -1 then 2 ^ 16 - 1 else 0 }.nextState .receivingData
  | .receivingData => s.goReceiving w sl
  | .dataReceived => (false, s.endTransaction TRANSACTION_OK)
  | .awaitingOutputData | .awaitingInputSpace | .error => (false, s)

/-- `while (__i2c_handle_go());`, at most `fuel` calls. -/
def goLoop (w : Nat) (sl : Slave) : Nat → I2cData → I2cData
  | 0, s => s
  | fuel + 1, s =>
    let (more, s') := s.handleGo w sl
    if more then goLoop w sl fuel s' else s'

/-- The loop; no content of the data needs more calls (`goAll_eq`). -/
def goAll (w : Nat) (sl : Slave) (s : I2cData) : I2cData := goLoop w sl 263 s

/-- `__i2c_bitbang_do_transaction`, with the queued `mcuio_irq` events handled
elsewhere. -/
def doTransaction (w : Nat) (sl : Slave) (s : I2cData) (e : Event) : I2cData :=
  match e with
  | .i2cReset => s.handleReset
  | .i2cGo => s.goAll w sl
  | .mcuioIrq _ => s

/-- The oldest event of the queue is handled. -/
def deliver (w : Nat) (sl : Slave) (s : I2cData) : I2cData :=
  match s.queue with
  | [] => s
  | e :: q => { s with queue := q }.doTransaction w sl e

-- ---------------------------------------------------------------------------
-- The host windows
-- ---------------------------------------------------------------------------

/-- `togo`, `min` and the comparison of `i2c_bitbang_obuf_wrb`, in the unsigned
type of `sizeof`. -/
def enoughOutput (w : Nat) (s : I2cData) : Bool :=
  let togo := ((subInt w s.obufLen s.dataCnt) % 2 ^ w).toNat
  decide ((if togo < OBUF_HIGH_WATERMARK then togo else OBUF_HIGH_WATERMARK) ≤ s.obufCnt)

/-- `sz = fill ? sizeof(uint64_t) : sizeof(uint8_t)`. -/
def accessSize (fill : Bool) : Nat := if fill then 8 else 1

/-- The data of a write access that is one byte wide. -/
def oneByte (b : UInt8) : Vector UInt8 8 := #v[b, 0, 0, 0, 0, 0, 0, 0]

/-- `i2c_bitbang_obuf_wrb`. -/
def obufWrb (w : Nat) (s : I2cData) (inp : Vector UInt8 8) (fill : Bool) : Int × I2cData :=
  let sz := accessSize fill
  let space := s.obufSpace
  if sz > space then (-EINVAL, s)
  else
    let l := min sz (circSpaceToEnd s.obufHead s.obufTail bufSize)
    let buffer := blit s.buffer s.obufHead (inp.toList.take l)
    let sz := sz - l
    let space := space - l
    let l' := if sz > 0 then min sz space else 0
    let s := { s with
      buffer := blit buffer 0 ((inp.toList.drop l).take l')
      obufHead := mask (s.obufHead + (l + l')) }
    let s := if s.state = .awaitingOutputData ∧ s.enoughOutput w = true then
        (s.nextState .sendingData).2.trigger .i2cGo
      else s
    (sz, s)

/-- `i2c_bitbang_ibuf_rdb`: what it returns, the bytes it copies out, the data it
leaves. -/
def ibufRdb (s : I2cData) (fill : Bool) : Int × List UInt8 × I2cData :=
  let sz := accessSize fill
  let count := s.ibufCnt
  if sz > count then (-EINVAL, [], s)
  else
    let l := min sz (circCntToEnd s.ibufHead s.ibufTail bufSize)
    let out := (List.range l).map fun i => s.buffer (s.ibufTail + i)
    let sz := sz - l
    let count := count - l
    let l' := if sz > 0 then min sz count else 0
    let out := out ++ (List.range l').map fun i => s.buffer i
    let s := { s with ibufTail := mask (s.ibufTail + (l + l')) }
    let s := if s.state = .awaitingInputSpace then
        (s.nextState .receivingData).2.trigger .i2cGo
      else s
    (sz, out, s)

-- ---------------------------------------------------------------------------
-- The registers
-- ---------------------------------------------------------------------------

def I2C_MCUIO_XFER_DATA : Nat := 0x008
def I2C_MCUIO_STATUS : Nat := 0x00c
def I2C_MCUIO_CFG : Nat := 0x010
def I2C_MCUIO_BRATE : Nat := 0x014
def I2C_MCUIO_CMD : Nat := 0x018
def I2C_MCUIO_BUF_SIZE : Nat := 0x020

def START_TRANSACTION : BitVec 32 := 0x1
def INTEN : BitVec 32 := 0x2

/-- A status read that finds a status clears the interrupt, and queues a reset
unless data are being transferred. -/
def readStatus (s : I2cData) : I2cData :=
  if s.status = 0 then s
  else
    let s := s.trigger (.mcuioIrq false)
    if s.state ≠ .awaitingOutputData ∧ s.state ≠ .awaitingInputSpace ∧
        s.state ≠ .sendingData ∧ s.state ≠ .receivingData then
      s.trigger .i2cReset
    else s

/-- One turn of the loop of `i2c_bitbang_registers_rddw`; `none` is `-EPERM`. -/
def rddwReg (s : I2cData) (reg : Nat) : Option (BitVec 32 × I2cData) :=
  if reg = I2C_MCUIO_XFER_DATA then
    some (s.slaveAddress.setWidth 32 ||| BitVec.ofNat 32 s.obufLen <<< 8 |||
      BitVec.ofInt 32 s.ibufLen <<< 16, s)
  else if reg = I2C_MCUIO_STATUS then
    some (s.status.toBitVec.setWidth 32 ||| BitVec.ofNat 32 s.ibufCnt <<< 8 |||
      BitVec.ofNat 32 s.obufSpace <<< 16, s.readStatus)
  else if reg = I2C_MCUIO_CFG ∨ reg = I2C_MCUIO_BRATE ∨ reg = I2C_MCUIO_CMD then some (0, s)
  else if reg = I2C_MCUIO_BUF_SIZE then some (BitVec.ofNat 32 bufSize, s)
  else none

/-- The registers of an access at `addr`: one dword, or two with the fill flag. -/
def accessRegs (addr : Nat) (fill : Bool) : List Nat := if fill then [addr, addr + 4] else [addr]

/-- The loop of `i2c_bitbang_registers_rddw`. -/
def rddwRegs (s : I2cData) : List Nat → Bool × List (BitVec 32) × I2cData
  | [] => (true, [], s)
  | reg :: regs =>
    match s.rddwReg reg with
    | none => (false, [], s)
    | some (out, s) =>
      let (ok, outs, s) := rddwRegs s regs
      (ok, out :: outs, s)

/-- `i2c_bitbang_registers_rddw`; `addr` is `offset + r->start`. -/
def registersRddw (s : I2cData) (addr : Nat) (fill : Bool) : Int × List (BitVec 32) × I2cData :=
  let (ok, outs, s) := s.rddwRegs (accessRegs addr fill)
  (if ok then 4 * (accessRegs addr fill).length else -EPERM, outs, s)

/-- One turn of the loop of `i2c_bitbang_registers_wrdw`; `none` is `-EPERM`. -/
def wrdwReg (s : I2cData) (reg : Nat) (inp : BitVec 32) : Option I2cData :=
  if reg = I2C_MCUIO_XFER_DATA then
    some { s with
      slaveAddress := (inp &&& 0xff).setWidth 16
      obufLen := (inp >>> 8 &&& 0xfff).toNat
      ibufLen := (inp >>> 20 &&& 0xfff).toNat }
  else if reg = I2C_MCUIO_STATUS then none
  else if reg = I2C_MCUIO_CFG ∨ reg = I2C_MCUIO_BRATE then some s
  else if reg = I2C_MCUIO_CMD then
    -- `__i2c_bitbang_start_transaction` only queues the event
    let s := if inp &&& START_TRANSACTION ≠ 0 then s.trigger .i2cGo else s
    some { s with intEnable := inp &&& INTEN }
  else none

/-- The loop of `i2c_bitbang_registers_wrdw`. -/
def wrdwRegs (s : I2cData) : List (Nat × BitVec 32) → Bool × I2cData
  | [] => (true, s)
  | (reg, inp) :: regs =>
    match s.wrdwReg reg inp with
    | none => (false, s)
    | some s => wrdwRegs s regs

/-- `i2c_bitbang_registers_wrdw`, with the two dwords of the packet. -/
def registersWrdw (s : I2cData) (addr : Nat) (in0 in1 : BitVec 32) (fill : Bool) : Int × I2cData :=
  let (ok, s) := s.wrdwRegs ((accessRegs addr fill).zip [in0, in1])
  (if ok then 4 * (accessRegs addr fill).length else -EPERM, s)

-- ---------------------------------------------------------------------------
-- Runs
-- ---------------------------------------------------------------------------

/-- What can happen to the controller: the host's accesses, in any order, and the
handling of the oldest event. -/
inductive Op where
  | obufWr (inp : Vector UInt8 8) (fill : Bool)
  | ibufRd (fill : Bool)
  | regRd (addr : Nat) (fill : Bool)
  | regWr (addr : Nat) (in0 in1 : BitVec 32) (fill : Bool)
  | deliver

def step (w : Nat) (sl : Slave) (s : I2cData) : Op → I2cData
  | .obufWr inp fill => (s.obufWrb w inp fill).2
  | .ibufRd fill => (s.ibufRdb fill).2.2
  | .regRd addr fill => (s.registersRddw addr fill).2.2
  | .regWr addr in0 in1 fill => (s.registersWrdw addr in0 in1 fill).2
  | .deliver => s.deliver w sl

end I2cData

end Bathos.I2c
