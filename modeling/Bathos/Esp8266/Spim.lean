import Bathos.Buffer.Queue
import Bathos.Lib.Run

/-!
# Bathos — the ESP8266 SPI master

`drivers/esp8266-spim.c`: buffers set up for a transaction wait in `queue`, the
setup handler programs the hardware for the first of them, and the interrupt
handler tells the client that it is done. A buffer leaves `queue` when the client
gives it back.

Every set-up starts the *first* buffer of the queue, whether it has had its
transaction before and whether one is in progress; the interrupt starts nothing.

Main results:

* `inOrder_iff` — a call keeps transactions one for one with set-ups exactly when
  a set-up finds the hardware idle and no other buffer in the queue, and its buffer
  passes the checks of the driver;
* `transactions_iff` — the runs in which every call does.
-/

namespace Bathos.Esp8266

open Bathos.Lib Bathos.Buffer

def ENOSYS : Int := 38

-- ---------------------------------------------------------------------------
-- Buffers and registers
-- ---------------------------------------------------------------------------

/-- `struct bathos_sglist_el`; data pointers are addresses. -/
structure SglistEl where
  data : Nat
  len : Nat
  dir : BufferDir
deriving DecidableEq, Repr

/-- An operation and its buffer, as far as the driver reads them. The data pointer
is `0` for `NULL`. -/
structure Bdescr where
  type : BufferOpType
  addrType : AddressType
  dir : BufferDir
  data : Nat
  dataSize : Nat
  sglist : List SglistEl
deriving DecidableEq, Repr

-- Register offsets and bits.
def SPI_CMD : Nat := 0x00
def SPI_BUSY : BitVec 32 := 1#32 <<< 18
def SPI_USER : Nat := 0x1c
def COMMAND_EN : BitVec 32 := 1#32 <<< 31
def ADDR_EN : BitVec 32 := 1#32 <<< 30
def DUMMY_EN : BitVec 32 := 1#32 <<< 29
def MISO_EN : BitVec 32 := 1#32 <<< 28
def MOSI_EN : BitVec 32 := 1#32 <<< 27

/-- `SPI_W(j)`. -/
def SPI_W (j : Nat) : Nat := 0x40 + j

/-- `struct esp8266_spim_priv`, the queue of the device, the buffers and the memory
their data lies in, and the registers from `plat->base` on, which are words. Three
records of what the hardware was made to do: the buffers whose transaction was
started, the one in progress, and whether one was started while another was in
progress. -/
structure Spim where
  q : Bqueue
  queue : List Nat
  b : Option Nat
  txEl : Option SglistEl
  rxEl : Option SglistEl
  descr : Nat → Bdescr
  error : Nat → Int
  mem : Nat → UInt8
  regs : Nat → BitVec 32
  starts : List Nat
  busy : Option Nat
  overlap : Bool

namespace Spim

/-- `readl`: a register is a word, whichever of its bytes the offset is that of. -/
def readl (regs : Nat → BitVec 32) (reg : Nat) : BitVec 32 := regs (reg / 4)

def writel (v : BitVec 32) (reg : Nat) (s : Spim) : Spim :=
  { s with regs := Function.update s.regs (reg / 4) v }

/-- `_start`, for the transaction of `b`. -/
def start (b : Nat) (s : Spim) : Spim :=
  { s.writel (readl s.regs SPI_CMD ||| SPI_BUSY) SPI_CMD with
    starts := s.starts ++ [b], overlap := s.overlap || s.busy.isSome, busy := some b }

/-- `_enable_mosi`. -/
def enableMosi (s : Spim) : Spim := s.writel (readl s.regs SPI_USER ||| MOSI_EN) SPI_USER

/-- `_enable_miso`. -/
def enableMiso (s : Spim) : Spim := s.writel (readl s.regs SPI_USER ||| MISO_EN) SPI_USER

/-- `_disable_all`. -/
def disableAll (s : Spim) : Spim :=
  s.writel
    (readl s.regs SPI_USER &&& ~~~(COMMAND_EN ||| ADDR_EN ||| DUMMY_EN ||| MISO_EN ||| MOSI_EN))
    SPI_USER

-- ---------------------------------------------------------------------------
-- Checks
-- ---------------------------------------------------------------------------

/-- The loop of `_check_bidir`: whether the elements will do, and the last one of
each direction. -/
def checkBidirLoop : List SglistEl → Nat → Nat → Option SglistEl → Option SglistEl →
    Bool × Option SglistEl × Option SglistEl
  | [], rxFound, txFound, txEl, rxEl =>
    (decide (¬ (rxFound ≠ 1 ∨ txFound ≠ 1)), txEl, rxEl)
  | e :: es, rxFound, txFound, txEl, rxEl =>
    match e.dir with
    | .any => (false, txEl, rxEl)
    | .out => checkBidirLoop es rxFound (txFound + 1) (some e) rxEl
    | .inp => checkBidirLoop es (rxFound + 1) txFound txEl (some e)

/-- `_check_bidir`. -/
def checkBidir (d : Bdescr) : Bool × Option SglistEl × Option SglistEl :=
  if d.sglist = [] then (false, none, none) else checkBidirLoop d.sglist 0 0 none none

/-- `_do_check`: data and length, `none` for `-1`. -/
def doCheck (d : Bdescr) (dir : BufferDir) : Option (Nat × Nat) :=
  if d.data = 0 ∧ d.sglist = [] then none
  else
    match d.sglist.find? fun e => e.dir = dir with
    | some e => some (e.data, e.len)
    | none => if d.dir = .out then some (d.data, d.dataSize) else none

/-- `_check_send`. -/
def checkSend (d : Bdescr) : Option (Nat × Nat) := doCheck d .out

/-- `_check_recv`. -/
def checkRecv (d : Bdescr) : Option (Nat × Nat) := doCheck d .inp

-- ---------------------------------------------------------------------------
-- A transaction
-- ---------------------------------------------------------------------------

/-- Byte `i` of the data at `data`, when there is one. -/
def txByte (s : Spim) (data len i : Nat) : BitVec 32 :=
  if i < len then BitVec.ofNat 32 (s.mem (data + i)).toNat else 0

/-- The loop of `_setup_tx` from byte `i`, four bytes a turn. -/
def setupTxLoop (data len : Nat) : Nat → Nat → Spim → Spim
  | 0, _, s => s
  | fuel + 1, i, s =>
    if i < len then
      let v := s.txByte data len i ||| s.txByte data len (i + 1) <<< 8 |||
        s.txByte data len (i + 2) <<< 16 ||| s.txByte data len (i + 3) <<< 24
      setupTxLoop data len fuel (i + 4) (s.writel v (SPI_W i))
    else s

/-- `_setup_tx`. -/
def setupTx (data len : Nat) (s : Spim) : Spim := setupTxLoop data len len 0 s

/-- `b->error = -EINVAL; bathos_bqueue_server_buf_processed(b)`. -/
def refuse (b : Nat) (s : Spim) : Spim :=
  { s with error := Function.update s.error b (-EINVAL), q := s.q.serverBufProcessed b }

/-- The `SEND` part of `start_trans`; `false` when the check fails. -/
def prepareSend (b : Nat) (s : Spim) : Bool × Spim :=
  match s.txEl with
  | some e => (true, s.enableMosi.setupTx e.data e.len)
  | none =>
    match checkSend (s.descr b) with
    | none => (false, s)
    | some (data, len) => (true, s.enableMosi.setupTx data len)

/-- The `RECV` part. `_setup_rx` does nothing. -/
def prepareRecv (b : Nat) (s : Spim) : Bool × Spim :=
  let s := s.enableMiso
  match s.rxEl with
  | some _ => (true, s)
  | none => ((checkRecv (s.descr b)).isSome, s)

/-- The switch of `start_trans`; `false` where it refuses the buffer. -/
def prepare (b : Nat) (s : Spim) : Bool × Spim :=
  match (s.descr b).type with
  | .none => (true, s)
  | .bidir =>
    let r := checkBidir (s.descr b)
    let s := { s with txEl := r.2.1, rxEl := r.2.2 }
    if r.1 then
      let r := s.prepareSend b
      if r.1 then r.2.prepareRecv b else r
    else (false, s)
  | .send => s.prepareSend b
  | .recv => s.prepareRecv b
  | .invalid => (true, s)

/-- `priv->b = b; _start(priv)`, or the refusal of `b`. -/
def conclude (b : Nat) (r : Bool × Spim) : Spim :=
  if r.1 then { r.2 with b := some b }.start b else r.2.refuse b

/-- `start_trans`. -/
def startTrans (s : Spim) : Spim :=
  match s.queue with
  | [] => s
  | b :: _ => conclude b ({ s with txEl := none, rxEl := none }.disableAll.prepare b)

/-- `bathos_bqueue_server_buf_done`, on a buffer that may be in `queue`. -/
def bufDone (b : Nat) (s : Spim) : Spim :=
  { s with q := s.q.serverBufDone b, queue := s.queue.erase b }

/-- `list_move_tail(&b->list, &priv->queue)`. -/
def moveTail (b : Nat) (s : Spim) : Spim :=
  { s with
    q := { s.q with freeBufs := s.q.freeBufs.erase b, busyBufs := s.q.busyBufs.erase b }
    queue := s.queue.erase b ++ [b] }

/-- `esp8266_spim_setup_handler`. -/
def setupHandler (s : Spim) : Option Nat → Spim
  | none => s
  | some b =>
    if (s.descr b).addrType ≠ .spim then s
    else
      match (s.descr b).type with
      | .none => s.bufDone b
      | .send => (s.moveTail b).startTrans
      | .bidir => (s.moveTail b).startTrans
      | .recv => (s.moveTail b).startTrans
      | .invalid =>
        { s with error := Function.update s.error b (-ENOSYS), q := s.q.serverBufProcessed b }

/-- `esp8266_spim_done_handler`. -/
def doneHandler (s : Spim) : Option Nat → Spim
  | none => s
  | some b => s.bufDone b

/-- The loop of `esp8266_spim_int_handler` from byte `i`: a turn reads one register,
stores up to four bytes, and the loop adds one more to the index. -/
def readMiso (regs : Nat → BitVec 32) (data len : Nat) : Nat → Nat → (Nat → UInt8) → Nat → UInt8
  | 0, _, mem => mem
  | fuel + 1, i, mem =>
    if i < len then
      let v := readl regs (SPI_W i + 32)
      let byte := fun k => UInt8.ofNat (v >>> (8 * k)).toNat
      let mem := Function.update mem (data + i) (byte 0)
      if i + 1 < len then
        let mem := Function.update mem (data + i + 1) (byte 1)
        if i + 2 < len then
          let mem := Function.update mem (data + i + 2) (byte 2)
          if i + 3 < len then
            let mem := Function.update mem (data + i + 3) (byte 3)
            readMiso regs data len fuel (i + 5) mem
          else readMiso regs data len fuel (i + 4) mem
        else readMiso regs data len fuel (i + 3) mem
      else readMiso regs data len fuel (i + 2) mem
    else mem

/-- `esp8266_spim_int_handler`. `priv->b` is not `NULL` once a transaction has been
started. -/
def intHandler (s : Spim) : Spim :=
  let mem :=
    match s.rxEl with
    | none => s.mem
    | some e => readMiso s.regs e.data e.len e.len 0 s.mem
  match s.b with
  | none => { s with mem := mem }
  | some b =>
    { s with
      mem := mem, error := Function.update s.error b 0, q := s.q.serverBufProcessed b }

-- ---------------------------------------------------------------------------
-- What a start does
-- ---------------------------------------------------------------------------

/-- Everything but registers, memory, errors and the elements picked for the
transaction. -/
def books (s : Spim) :
    Bqueue × List Nat × Option Nat × (Nat → Bdescr) × List Nat × Option Nat × Bool :=
  (s.q, s.queue, s.b, s.descr, s.starts, s.busy, s.overlap)

theorem setupTxLoop_books (data len : Nat) : ∀ (fuel i : Nat) (s : Spim),
    (setupTxLoop data len fuel i s).books = s.books ∧
      (setupTxLoop data len fuel i s).rxEl = s.rxEl := by
  intro fuel
  induction fuel with
  | zero => exact fun _ _ => ⟨rfl, rfl⟩
  | succ fuel ih =>
    intro i s
    unfold setupTxLoop
    by_cases hi : i < len
    · rw [if_pos hi]
      exact ih (i + 4) _
    · rw [if_neg hi]
      exact ⟨rfl, rfl⟩

theorem prepareSend_books (b : Nat) (s : Spim) :
    (s.prepareSend b).2.books = s.books ∧ (s.prepareSend b).2.rxEl = s.rxEl := by
  unfold prepareSend
  cases s.txEl with
  | some e => exact setupTxLoop_books e.data e.len e.len 0 s.enableMosi
  | none =>
    simp only
    cases checkSend (s.descr b) with
    | none => exact ⟨rfl, rfl⟩
    | some r => exact setupTxLoop_books r.1 r.2 r.2 0 s.enableMosi

theorem prepareRecv_books (b : Nat) (s : Spim) : (s.prepareRecv b).2.books = s.books := by
  unfold prepareRecv
  simp only
  cases s.enableMiso.rxEl with
  | some e => rfl
  | none => rfl

theorem prepareSend_fst (b : Nat) (s : Spim) :
    (s.prepareSend b).1 = (s.txEl.isSome || (checkSend (s.descr b)).isSome) := by
  unfold prepareSend
  cases s.txEl with
  | some e => rfl
  | none => cases checkSend (s.descr b) <;> rfl

theorem prepareRecv_fst (b : Nat) (s : Spim) :
    (s.prepareRecv b).1 = (s.rxEl.isSome || (checkRecv (s.descr b)).isSome) := by
  unfold prepareRecv enableMiso writel
  cases s.rxEl <;> rfl

/-- A list that passes has an element of each direction. -/
theorem checkBidirLoop_els : ∀ (es : List SglistEl) (rxFound txFound : Nat)
    (txEl rxEl : Option SglistEl), (rxFound = 0 ∨ rxEl.isSome) → (txFound = 0 ∨ txEl.isSome) →
    (checkBidirLoop es rxFound txFound txEl rxEl).1 = true →
    (checkBidirLoop es rxFound txFound txEl rxEl).2.1.isSome ∧
      (checkBidirLoop es rxFound txFound txEl rxEl).2.2.isSome := by
  intro es
  induction es with
  | nil =>
    intro rxFound txFound txEl rxEl hrx htx hok
    have hfound : ¬ (rxFound ≠ 1 ∨ txFound ≠ 1) := of_decide_eq_true hok
    exact ⟨htx.resolve_left (by omega), hrx.resolve_left (by omega)⟩
  | cons e es ih =>
    intro rxFound txFound txEl rxEl hrx htx hok
    unfold checkBidirLoop at hok ⊢
    cases hdir : e.dir with
    | any => simp only [hdir] at hok; exact absurd hok (by simp)
    | out => simp only [hdir] at hok ⊢; exact ih _ _ _ _ hrx (.inr rfl) hok
    | inp => simp only [hdir] at hok ⊢; exact ih _ _ _ _ (.inr rfl) htx hok

theorem checkBidir_els {d : Bdescr} (h : (checkBidir d).1 = true) :
    (checkBidir d).2.1.isSome ∧ (checkBidir d).2.2.isSome := by
  unfold checkBidir at h ⊢
  by_cases hnil : d.sglist = []
  · rw [if_pos hnil] at h
    exact absurd h (by simp)
  · rw [if_neg hnil] at h ⊢
    exact checkBidirLoop_els _ _ _ _ _ (.inl rfl) (.inl rfl) h

/-- The checks `start_trans` makes for an operation of this type. -/
def accepted (d : Bdescr) : Bool :=
  match d.type with
  | .send => (checkSend d).isSome
  | .recv => (checkRecv d).isSome
  | .bidir => (checkBidir d).1
  | .none => true
  | .invalid => true

theorem prepare_fst (b : Nat) (s : Spim) (htx : s.txEl = none) (hrx : s.rxEl = none) :
    (s.prepare b).1 = accepted (s.descr b) := by
  unfold prepare accepted
  cases (s.descr b).type with
  | none => rfl
  | invalid => rfl
  | send => simp only [prepareSend_fst, htx, Option.isSome_none, Bool.false_or]
  | recv => simp only [prepareRecv_fst, hrx, Option.isSome_none, Bool.false_or]
  | bidir =>
    simp only
    cases hok : (checkBidir (s.descr b)).1 with
    | false => rfl
    | true =>
      obtain ⟨htx, hrx⟩ := checkBidir_els hok
      simp only [if_true, prepareSend_fst, prepareRecv_fst, (prepareSend_books b _).2, htx, hrx,
        Bool.true_or]

theorem prepare_books (b : Nat) (s : Spim) : (s.prepare b).2.books = s.books := by
  unfold prepare
  cases (s.descr b).type with
  | none => rfl
  | invalid => rfl
  | send => exact (prepareSend_books b s).1
  | recv => exact prepareRecv_books b s
  | bidir =>
    simp only
    split
    · split
      · rw [prepareRecv_books, (prepareSend_books b _).1]
        rfl
      · rw [(prepareSend_books b _).1]
        rfl
    · rfl

/-- `start_trans` starts the first buffer of the queue or refuses it, by the outcome
of its checks. -/
theorem startTrans_books {s : Spim} {b : Nat} {rest : List Nat} (h : s.queue = b :: rest) :
    s.startTrans.books =
      if accepted (s.descr b) then
        (s.q, s.queue, some b, s.descr, s.starts ++ [b], some b, s.overlap || s.busy.isSome)
      else (s.q.serverBufProcessed b, s.queue, s.b, s.descr, s.starts, s.busy, s.overlap) := by
  have hfst : ∀ t : Spim, t.txEl = none → t.rxEl = none → t.books = s.books →
      (t.prepare b).1 = accepted (s.descr b) ∧ (t.prepare b).2.books = s.books := by
    intro t htx hrx ht
    have hdescr : t.descr = s.descr := congrArg (fun x => x.2.2.2.1) ht
    exact ⟨by rw [prepare_fst b t htx hrx, hdescr], by rw [prepare_books, ht]⟩
  have hqueue : s.startTrans =
      conclude b ({ s with txEl := none, rxEl := none }.disableAll.prepare b) := by
    unfold startTrans
    rw [h]
  obtain ⟨hok, hbooks⟩ := hfst ({ s with txEl := none, rxEl := none } : Spim).disableAll rfl rfl rfl
  rw [hqueue]
  generalize ({ s with txEl := none, rxEl := none } : Spim).disableAll.prepare b = r at hok hbooks ⊢
  unfold books at hbooks
  simp only [Prod.mk.injEq] at hbooks
  obtain ⟨hq, hqueue, hb, hdescr, hstarts, hbusy, hoverlap⟩ := hbooks
  unfold conclude
  rw [hok]
  split
  · unfold start writel books
    simp only [hq, hqueue, hdescr, hstarts, hbusy, hoverlap]
  · unfold refuse books
    simp only [hq, hqueue, hb, hdescr, hstarts, hbusy, hoverlap]

/-- A buffer handed to the driver goes to the end of the queue, and the first one is
started. -/
theorem setupHandler_transfer {s : Spim} {b : Nat} (haddr : (s.descr b).addrType = .spim)
    (hty : (s.descr b).type = .send ∨ (s.descr b).type = .recv ∨ (s.descr b).type = .bidir) :
    s.setupHandler (some b) = (s.moveTail b).startTrans := by
  simp only [setupHandler]
  rw [if_neg (not_not.mpr haddr)]
  obtain h | h | h := hty
  all_goals rw [h]

end Spim

-- ---------------------------------------------------------------------------
-- Runs
-- ---------------------------------------------------------------------------

/-- A call: a client sets up a buffer and its event is handled; the interrupt of the
transaction in progress; a client gives a buffer back. -/
inductive Op where
  | setup (b : Nat) (d : Bdescr)
  | interrupt
  | release (b : Nat)
deriving DecidableEq, Repr

/-- The driver, and the buffers whose set-up was handled. -/
structure SpimRun where
  drv : Spim
  handled : List Nat

namespace SpimRun

def step (t : SpimRun) : Op → SpimRun
  | .setup b d =>
    { drv := ({ t.drv with descr := Function.update t.drv.descr b d } : Spim).setupHandler (some b)
      handled := t.handled ++ [b] }
  | .interrupt =>
    if t.drv.busy = none then t else { t with drv := { t.drv.intHandler with busy := none } }
  | .release b => { t with drv := t.drv.doneHandler (some b) }

/-- Set-ups are of transfers over the SPI. -/
def Valid (_ : SpimRun) : Op → Prop
  | .setup _ d => d.addrType = .spim ∧ (d.type = .send ∨ d.type = .recv ∨ d.type = .bidir)
  | .interrupt => True
  | .release _ => True

/-- Transactions are started in the order of the set-ups, once each and one at a time;
each has its one `processed` event when it is over. -/
structure InOrder (t : SpimRun) : Prop where
  order : t.drv.starts <+: t.handled
  once : t.drv.busy = none → t.drv.starts = t.handled
  alone : t.drv.overlap = false
  processed : t.drv.q.processedBufs ++ t.drv.busy.toList = t.drv.starts

/-- A set-up finds the hardware idle and no other buffer in `queue`, and the driver has
nothing against its buffer. -/
def Serial (t : SpimRun) : Op → Prop
  | .setup b d => t.drv.busy = none ∧ t.drv.queue.erase b = [] ∧ Spim.accepted d = true
  | .interrupt => True
  | .release _ => True

instance (t : SpimRun) (op : Op) : Decidable (t.Valid op) := by
  cases op with
  | setup b d =>
    exact inferInstanceAs (Decidable
      (d.addrType = .spim ∧ (d.type = .send ∨ d.type = .recv ∨ d.type = .bidir)))
  | interrupt => exact inferInstanceAs (Decidable True)
  | release b => exact inferInstanceAs (Decidable True)

instance (t : SpimRun) (op : Op) : Decidable (t.Serial op) := by
  cases op with
  | setup b d =>
    exact inferInstanceAs (Decidable
      (t.drv.busy = none ∧ t.drv.queue.erase b = [] ∧ Spim.accepted d = true))
  | interrupt => exact inferInstanceAs (Decidable True)
  | release b => exact inferInstanceAs (Decidable True)

/-- What holds as long as all set-ups are serial. -/
structure Inv (t : SpimRun) : Prop where
  event : t.drv.q.processedEvent = true
  nodup : t.drv.queue.Nodup
  started : t.drv.starts = t.handled
  alone : t.drv.overlap = false
  processed : t.drv.q.processedBufs ++ t.drv.busy.toList = t.drv.starts
  current : ∀ b, t.drv.busy = some b → t.drv.b = some b

theorem Inv.inOrder {t : SpimRun} (h : Inv t) : t.InOrder :=
  ⟨h.started ▸ List.prefix_rfl, fun _ => h.started, h.alone, h.processed⟩

/-- The state after a set-up, by the head of the queue. -/
theorem step_setup {t : SpimRun} {b c : Nat} {d : Bdescr} {rest : List Nat}
    (hv : t.Valid (.setup b d)) (hc : t.drv.queue.erase b ++ [b] = c :: rest) :
    ∃ q : Bqueue, q.processedBufs = t.drv.q.processedBufs ∧
      q.processedEvent = t.drv.q.processedEvent ∧
      (t.step (.setup b d)).drv.books =
        if Spim.accepted (Function.update t.drv.descr b d c) then
          (q, t.drv.queue.erase b ++ [b], some c, Function.update t.drv.descr b d,
            t.drv.starts ++ [c], some c, t.drv.overlap || t.drv.busy.isSome)
        else (q.serverBufProcessed c, t.drv.queue.erase b ++ [b], t.drv.b,
          Function.update t.drv.descr b d, t.drv.starts, t.drv.busy, t.drv.overlap) := by
  have hself : Function.update t.drv.descr b d b = d := Function.update_self ..
  let s : Spim := { t.drv with descr := Function.update t.drv.descr b d }
  have hstep : (t.step (.setup b d)).drv = (s.moveTail b).startTrans :=
    Spim.setupHandler_transfer (s := s) (by simpa only [s, hself] using hv.1)
      (by simpa only [s, hself] using hv.2)
  refine ⟨(s.moveTail b).q, rfl, rfl, ?_⟩
  rw [hstep, Spim.startTrans_books (s := s.moveTail b) hc]
  rfl

/-- A buffer that is refused has a `processed` event, and no transaction. -/
theorem not_inOrder_of_refused {t : SpimRun} (h : Inv t) {b c : Nat} {d : Bdescr} {rest : List Nat}
    (hv : t.Valid (.setup b d)) (hc : t.drv.queue.erase b ++ [b] = c :: rest)
    (hacc : Spim.accepted (Function.update t.drv.descr b d c) = false) :
    ¬ (t.step (.setup b d)).InOrder := by
  intro hin
  obtain ⟨q, hbufs, hevent, hbooks⟩ := step_setup hv hc
  simp only [hacc, Bool.false_eq_true, if_false, Spim.books, Prod.mk.injEq] at hbooks
  obtain ⟨hq, -, -, -, hstarts, hbusy, -⟩ := hbooks
  have hprocessed := hin.processed
  rw [hq, hbusy, hstarts, (q.serverBufProcessed_processed c (hevent.trans h.event)).2, hbufs,
    ← h.processed] at hprocessed
  have hlen := congrArg List.length hprocessed
  simp only [List.length_append, List.length_singleton] at hlen
  omega

/-- Setting up a buffer while another is first in the queue starts or refuses that
other one. -/
theorem not_inOrder_of_queued {t : SpimRun} (h : Inv t) {b c : Nat} {d : Bdescr} {rest : List Nat}
    (hv : t.Valid (.setup b d)) (hc : t.drv.queue.erase b = c :: rest) :
    ¬ (t.step (.setup b d)).InOrder := by
  intro hin
  have hne : c ≠ b := by
    have hmem : c ∈ t.drv.queue.erase b := hc ▸ List.mem_cons_self
    exact (h.nodup.mem_erase_iff.mp hmem).1
  have hcons : t.drv.queue.erase b ++ [b] = c :: (rest ++ [b]) := by
    rw [hc]
    rfl
  cases hacc : Spim.accepted (Function.update t.drv.descr b d c) with
  | false => exact not_inOrder_of_refused h hv hcons hacc hin
  | true =>
    obtain ⟨q, hbufs, hevent, hbooks⟩ := step_setup hv hcons
    rw [if_pos hacc] at hbooks
    have hstarts : (t.step (.setup b d)).drv.starts = t.drv.starts ++ [c] :=
      congrArg (fun x => x.2.2.2.2.1) hbooks
    have hhandled : (t.step (.setup b d)).handled = t.handled ++ [b] := rfl
    have horder := hin.order
    rw [hstarts, hhandled, h.started] at horder
    have heq := horder.eq_of_length (by simp)
    exact hne (by simpa using heq)

/-- A serial set-up starts its buffer. -/
theorem Inv.setup {t : SpimRun} (h : Inv t) {b : Nat} {d : Bdescr} (hv : t.Valid (.setup b d))
    (hserial : t.Serial (.setup b d)) : Inv (t.step (.setup b d)) := by
  obtain ⟨hidle, hqueue, hacc⟩ := hserial
  have hcons : t.drv.queue.erase b ++ [b] = b :: [] := by
    rw [hqueue]
    rfl
  obtain ⟨q, hbufs, hevent, hbooks⟩ := step_setup hv hcons
  rw [Function.update_self, if_pos hacc, hcons] at hbooks
  simp only [Spim.books, Prod.mk.injEq, hidle, Option.isSome_none, Bool.or_false] at hbooks
  obtain ⟨hq, hqueue', hb, -, hstarts, hbusy, hoverlap⟩ := hbooks
  refine ⟨?_, ?_, ?_, ?_, ?_, fun c hc => ?_⟩
  · rw [hq, hevent, h.event]
  · rw [hqueue']
    exact List.nodup_singleton b
  · rw [hstarts, h.started]
    rfl
  · rw [hoverlap, h.alone]
  · have hbefore : t.drv.q.processedBufs = t.drv.starts := by
      simpa only [hidle, Option.toList_none, List.append_nil] using h.processed
    rw [hq, hbusy, hstarts, hbufs, hbefore]
    rfl
  · rw [hbusy] at hc
    rw [hb, hc]

/-- The interrupt announces the buffer in progress. -/
theorem Inv.interrupt {t : SpimRun} (h : Inv t) : Inv (t.step .interrupt) := by
  cases hbusy : t.drv.busy with
  | none =>
    have hstep : t.step .interrupt = t := if_pos hbusy
    rw [hstep]
    exact h
  | some b =>
    have hstep : t.step .interrupt = { t with drv := { t.drv.intHandler with busy := none } } :=
      if_neg (by simp [hbusy])
    have hdone := t.drv.q.serverBufProcessed_processed b h.event
    have hprocessed := h.processed
    rw [hbusy] at hprocessed
    rw [hstep]
    unfold Spim.intHandler
    simp only [h.current b hbusy]
    refine ⟨hdone.1, h.nodup, h.started, h.alone, ?_, fun c hc => absurd hc (by simp)⟩
    simp only [Option.toList_none, List.append_nil]
    exact hdone.2.trans hprocessed

/-- A release takes the buffer off the queue. -/
theorem Inv.release {t : SpimRun} (h : Inv t) (b : Nat) : Inv (t.step (.release b)) := by
  obtain ⟨hevent, hbufs⟩ := t.drv.q.serverBufDone_processed b
  exact ⟨hevent.trans h.event, h.nodup.erase b, h.started, h.alone,
    (congrArg (· ++ t.drv.busy.toList) hbufs).trans h.processed, h.current⟩

theorem step_inv {t : SpimRun} (h : Inv t) {op : Op} (hv : t.Valid op) (hserial : t.Serial op) :
    Inv (t.step op) := by
  cases op with
  | setup b d => exact h.setup hv hserial
  | interrupt => exact h.interrupt
  | release b => exact h.release b

/-- **One call.** -/
theorem inOrder_iff {t : SpimRun} (h : Inv t) {op : Op} (hv : t.Valid op) :
    (t.step op).InOrder ↔ t.Serial op := by
  refine ⟨fun hin => ?_, fun hserial => (step_inv h hv hserial).inOrder⟩
  cases op with
  | interrupt => trivial
  | release b => trivial
  | setup b d =>
    cases hqueue : t.drv.queue.erase b with
    | cons c rest => exact absurd hin (not_inOrder_of_queued h hv hqueue)
    | nil =>
      have hcons : t.drv.queue.erase b ++ [b] = b :: [] := by
        rw [hqueue]
        rfl
      cases hacc : Spim.accepted d with
      | false =>
        have hself : Spim.accepted (Function.update t.drv.descr b d b) = false := by
          rw [Function.update_self, hacc]
        exact absurd hin (not_inOrder_of_refused h hv hcons hself)
      | true =>
        obtain ⟨q, -, -, hbooks⟩ := step_setup hv hcons
        rw [Function.update_self, if_pos hacc] at hbooks
        have hoverlap : (t.step (.setup b d)).drv.overlap = (t.drv.overlap || t.drv.busy.isSome) :=
          congrArg (fun x => x.2.2.2.2.2.2) hbooks
        have halone := hin.alone
        rw [hoverlap, Bool.or_eq_false_iff] at halone
        exact ⟨by simpa using halone.2, hqueue, hacc⟩

/-- An open driver: no buffer was handed to it. -/
def opened (q : Bqueue) (descr : Nat → Bdescr) (mem : Nat → UInt8) (regs : Nat → BitVec 32) :
    SpimRun where
  drv :=
    { q := q, queue := [], b := none, txEl := none, rxEl := none, descr := descr,
      error := fun _ => 0, mem := mem, regs := regs, starts := [], busy := none, overlap := false }
  handled := []

theorem opened_inv {q : Bqueue} {descr : Nat → Bdescr} {mem : Nat → UInt8}
    {regs : Nat → BitVec 32} (hq : q.processedEvent = true) (hbufs : q.processedBufs = []) :
    Inv (opened q descr mem regs) := by
  refine ⟨hq, List.nodup_nil, rfl, rfl, ?_, fun b hb => absurd hb (by simp [opened])⟩
  unfold opened
  simp only [hbufs]
  rfl

end SpimRun

open SpimRun

/-- **Transactions.** For every run of the driver from open: all calls keep transactions
one for one with set-ups exactly when each set-up is serial. -/
theorem transactions_iff {q : Bqueue} (hq : q.processedEvent = true) (hbufs : q.processedBufs = [])
    (descr : Nat → Bdescr) (mem : Nat → UInt8) (regs : Nat → BitVec 32) {ops : List Op}
    (hv : EachStep SpimRun.step Valid (opened q descr mem regs) ops) :
    EachStep SpimRun.step (fun t op => (t.step op).InOrder) (opened q descr mem regs) ops ↔
      EachStep SpimRun.step Serial (opened q descr mem regs) ops :=
  EachStep.iff_of (fun (_ : SpimRun) _ h hv => inOrder_iff h hv) (fun _ _ h hv hq => step_inv h hv hq)
    (opened_inv hq hbufs) hv

/-- A queue with two buffers taken by the client. -/
def twoBufs : Bqueue where
  stopped := false
  availableEvent := true
  processedEvent := true
  freeBufs := []
  busyBufs := [0, 1]
  users := fun _ => 0
  releaseEvent := fun _ => none
  events := []

/-- Four bytes to send. -/
def fourBytes : Bdescr := ⟨.send, .spim, .out, 100, 4, []⟩

-- Each buffer is given back before the next one is set up.
theorem transactions_one_by_one :
    EachStep SpimRun.step (fun t op => (t.step op).InOrder)
      (opened twoBufs (fun _ => fourBytes) (fun _ => 0) (fun _ => 0))
      [.setup 0 fourBytes, .interrupt, .release 0, .setup 1 fourBytes, .interrupt] :=
  (transactions_iff rfl rfl _ _ _ (by decide)).mpr (by decide)

/-- Two buffers set up in a row: the first one is started twice. -/
theorem first_buffer_restarted :
    ¬ ∀ (q : Bqueue) (descr : Nat → Bdescr) (mem : Nat → UInt8) (regs : Nat → BitVec 32)
      (ops : List Op), q.processedEvent = true → q.processedBufs = [] →
      EachStep SpimRun.step Valid (opened q descr mem regs) ops →
      EachStep SpimRun.step (fun t op => (t.step op).InOrder) (opened q descr mem regs) ops := by
  intro hall
  have hrun := hall twoBufs (fun _ => fourBytes) (fun _ => 0) (fun _ => 0)
    [.setup 0 fourBytes, .setup 1 fourBytes] rfl rfl (by decide)
  have halone := hrun.2.1.alone
  exact absurd halone (by decide)

end Bathos.Esp8266
