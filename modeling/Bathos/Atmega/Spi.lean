import Bathos.Include.CircBuf
import Bathos.Lib.Run

/-!
# Bathos — the AVR SPI slave

`arch-atmega/spi.c`: bytes from the master are put into one ring by the interrupt
and read by `spi_read`; bytes of `spi_write` are put into another one and loaded into
`SPDR` by the interrupt, one for each enquiry. `spi_read` disables interrupts;
`spi_write` does not, and is modelled one access to the shared indexes at a time,
with interrupts between any two of them.

Each side moves one index of a ring only. What the interrupt leaves to `spi_write`
is the free space of the output ring: it can only grow under the loop.

Main results:

* `Inv` — the bytes accepted are those loaded, those in the ring and those still
  to be stored; the bytes admitted are those returned and those in the ring; a ring
  with bytes in it has an event on its way;
* `rings_ordered` — the three hold along every run, from two empty rings.
-/

namespace Bathos.Atmega

open Bathos.Lib

def SPI_BUF_SIZE : Nat := 64

theorem isRingSize_spiBuf : IsRingSize SPI_BUF_SIZE := ⟨6, by decide, rfl⟩

-- ---------------------------------------------------------------------------
-- The rings
-- ---------------------------------------------------------------------------

/-- A `struct circ_buf` and the buffer it indexes. -/
structure CircBuf where
  buf : Nat → UInt8
  head : Nat
  tail : Nat
  idx : CircIdx head tail SPI_BUF_SIZE

namespace CircBuf

/-- `CIRC_CNT`, `CIRC_SPACE` and `CIRC_CNT_TO_END` of a ring. -/
def cnt (r : CircBuf) : Nat := circCnt r.head r.tail SPI_BUF_SIZE

def space (r : CircBuf) : Nat := circSpace r.head r.tail SPI_BUF_SIZE

def cntToEnd (r : CircBuf) : Nat := circCntToEnd r.head r.tail SPI_BUF_SIZE

/-- `buf[head] = c`. -/
def store (c : UInt8) (r : CircBuf) : CircBuf := { r with buf := blit r.buf r.head [c] }

/-- `head = (head + 1) & (SPI_BUF_SIZE - 1)`. -/
def advance (r : CircBuf) : CircBuf :=
  { r with head := (r.head + 1) &&& (SPI_BUF_SIZE - 1), idx := r.idx.push 1 }

/-- `tail = (tail + l) & (SPI_BUF_SIZE - 1)`. -/
def consume (l : Nat) (r : CircBuf) : CircBuf :=
  { r with tail := (r.tail + l) &&& (SPI_BUF_SIZE - 1), idx := r.idx.pop l }

/-- The bytes of a ring, oldest first. -/
def contents (r : CircBuf) : List UInt8 := circWindow r.buf r.head r.tail SPI_BUF_SIZE

variable {r : CircBuf}

theorem contents_eq_nil_iff : r.contents = [] ↔ r.cnt = 0 := circWindow_eq_nil_iff

theorem space_add_cnt (r : CircBuf) : r.space + r.cnt = 63 := by
  have hlt : r.cnt < 64 := r.idx.cnt_lt
  have hspace : r.space = 64 - 1 - r.cnt := r.idx.space_eq
  omega

theorem store_contents (c : UInt8) (h : r.space ≠ 0) : (r.store c).contents = r.contents :=
  r.idx.window_store (Nat.one_le_iff_ne_zero.mpr h)

theorem advance_contents (h : r.space ≠ 0) : r.advance.contents = r.contents ++ [r.buf r.head] :=
  r.idx.window_advance h

theorem advance_cnt (h : r.space ≠ 0) : r.advance.cnt = r.cnt + 1 :=
  r.idx.cnt_push (Nat.one_le_iff_ne_zero.mpr h)

/-- A byte stored and counted. -/
theorem store_advance_contents (c : UInt8) (h : r.space ≠ 0) :
    (r.store c).advance.contents = r.contents ++ [c] :=
  r.idx.window_push (Nat.one_le_iff_ne_zero.mpr h) r.idx.head_lt

theorem consume_contents {l : Nat} (h : l ≤ r.cnt) : (r.consume l).contents = r.contents.drop l :=
  r.idx.window_pop h

theorem consume_cnt {l : Nat} (h : l ≤ r.cnt) : (r.consume l).cnt = r.cnt - l := r.idx.cnt_pop h

theorem contents_cons (h : r.cnt ≠ 0) : r.contents = r.buf r.tail :: (r.consume 1).contents :=
  r.idx.window_cons h

end CircBuf

-- ---------------------------------------------------------------------------
-- The driver
-- ---------------------------------------------------------------------------

/-- `const struct event *`, as far as `__pipe_dev_trigger_event` tells them apart. -/
inductive Evt where
  | inputReady
  | outputReady
  | other (id : Nat)
deriving DecidableEq, Repr

/-- `struct bathos_pipe`: the events the two ready events are remapped to. -/
structure Pipe where
  id : Nat
  inputReadyEvent : Evt
  outputReadyEvent : Evt
deriving DecidableEq, Repr

/-- `e` of `__pipe_dev_trigger_event`. -/
def remap (evt : Evt) (p : Pipe) : Evt :=
  match evt with
  | .inputReady => p.inputReadyEvent
  | .outputReady => p.outputReadyEvent
  | .other id => .other id

/-- `__pipe_dev_trigger_event`: the entries put into the event queue. -/
def pipeDevTriggerEvent (pipes : List Pipe) (evt : Evt) : List (Evt × Nat) :=
  pipes.map fun p => (remap evt p, p.id)

/-- `struct spi_data`. -/
structure SpiData where
  rx : CircBuf
  overrun : Bool
  tx : CircBuf

namespace SpiData

/-- `spi_read` with `len` bytes asked for: the result, the bytes copied, the events
triggered. -/
def spiRead (pipes : List Pipe) (len : Nat) (d : SpiData) :
    Int × List UInt8 × List (Evt × Nat) × SpiData :=
  let l := min len d.rx.cntToEnd
  if l = 0 then (-EAGAIN, [], [], d)
  else
    let bytes := (List.range l).map fun i => d.rx.buf (d.rx.tail + i)
    let d := { d with rx := d.rx.consume l, overrun := false }
    (l, bytes, if d.rx.cnt ≠ 0 then pipeDevTriggerEvent pipes .inputReady else [], d)

/-- `ISR(SPI_STC_vect)` for the byte `c`: what it loads into `SPDR`, the events
triggered. -/
def isr (pipes : List Pipe) (c : UInt8) (d : SpiData) : UInt8 × List (Evt × Nat) × SpiData :=
  if c = 0x05 then
    if d.tx.cnt ≠ 0 then (d.tx.buf d.tx.tail, [], { d with tx := d.tx.consume 1 })
    else (0x00, [], d)
  else if c = 0x00 then (0x00, [], d)
  else
    let cntPrev := d.rx.cnt
    let d := if d.rx.space = 0 then { d with overrun := true } else d
    let d := if d.overrun then d else { d with rx := (d.rx.store c).advance }
    (0x00, if cntPrev = 0 then pipeDevTriggerEvent pipes .inputReady else [], d)

/-- A byte other than an enquiry and `0x00`. -/
theorem isr_byte (pipes : List Pipe) {c : UInt8} (d : SpiData) (h5 : c ≠ 0x05) (h0 : c ≠ 0x00) :
    (d.isr pipes c).2.1 = (if d.rx.cnt = 0 then pipeDevTriggerEvent pipes .inputReady else []) ∧
      (d.isr pipes c).2.2.tx = d.tx ∧
      (d.isr pipes c).2.2.rx =
        if d.rx.space ≠ 0 ∧ d.overrun = false then (d.rx.store c).advance else d.rx := by
  unfold isr
  rw [if_neg h5, if_neg h0]
  by_cases hspace : d.rx.space = 0
  · simp only [hspace, if_true, ne_eq, not_true_eq_false, false_and, if_false, and_self]
  · cases hover : d.overrun <;>
      simp only [hspace, hover, if_true, if_false, ne_eq, not_false_eq_true, and_self, and_false,
        Bool.false_eq_true, Bool.true_eq_false]

/-- What a read copies is the front of the ring, and it copies nothing from an empty ring
only. -/
theorem spiRead_eq (pipes : List Pipe) {len : Nat} (d : SpiData) (hlen : 1 ≤ len) :
    (d.spiRead pipes len).2.2.2.tx = d.tx ∧
      (d.spiRead pipes len).2.1 ++ (d.spiRead pipes len).2.2.2.rx.contents = d.rx.contents ∧
      ((d.spiRead pipes len).2.2.2.rx.cnt ≠ 0 →
        (d.spiRead pipes len).2.2.1 = pipeDevTriggerEvent pipes .inputReady) := by
  have htoEnd : d.rx.cntToEnd = min d.rx.cnt (SPI_BUF_SIZE - d.rx.tail) := d.rx.idx.cntToEnd_eq
  have htail := d.rx.idx.tail_lt
  unfold spiRead
  simp only
  split
  · rename_i hl
    refine ⟨rfl, rfl, fun hcnt => absurd ?_ hcnt⟩
    show d.rx.cnt = 0
    omega
  · have hfit : min len d.rx.cntToEnd ≤ d.rx.cntToEnd := Nat.min_le_right _ _
    refine ⟨rfl, ?_, fun hcnt => if_pos hcnt⟩
    have htake : (List.range (min len d.rx.cntToEnd)).map (fun i => d.rx.buf (d.rx.tail + i)) =
        d.rx.contents.take (min len d.rx.cntToEnd) := d.rx.idx.window_take hfit
    rw [htake]
    show _ ++ (d.rx.consume _).contents = _
    rw [CircBuf.consume_contents (by omega), List.take_append_drop]

end SpiData

/-- How far a call `spi_write(pipe, buf, len)` has come: entered; with the tail read;
in the loop, before the store of byte `i` and between the store and the update of the
head. Between calls, what the last one returned. -/
inductive Writer where
  | idle (ret : Int)
  | entered (buf : Nat → UInt8) (len : Int)
  | tailRead (buf : Nat → UInt8) (len : Int) (tail : Nat)
  | loop (buf : Nat → UInt8) (l : Int) (i : Nat)
  | stored (buf : Nat → UInt8) (l : Int) (i : Nat)

/-- The first `l` bytes of a buffer from byte `i` on. -/
def rest (buf : Nat → UInt8) (l : Int) (i : Nat) : List UInt8 :=
  (List.range (l.toNat - i)).map fun k => buf (i + k)

/-- The main loop and the interrupt: the driver, its pipe, the event queue, the call of
`spi_write` in progress, and whether an input-ready event is being handled whose read
has not happened yet. Then the bytes of the two directions: those `spi_write` decided
to accept, those loaded for an enquiry; those received with room and no overrun, those
`spi_read` returned. -/
structure SpiRun where
  drv : SpiData
  pipe : Pipe
  queue : List (Evt × Nat)
  writer : Writer
  handling : Bool
  accepted : List UInt8
  loaded : List UInt8
  admitted : List UInt8
  returned : List UInt8

/-- The bytes a call in progress accepted and has not counted yet. -/
def Writer.unstored : Writer → List UInt8
  | .loop buf l i => rest buf l i
  | .stored buf l i => rest buf l i
  | _ => []

inductive SpiOp where
  | isr (c : UInt8)
  | read (len : Nat)
  | write (buf : Nat → UInt8) (len : Int)
  | writeStep
  | trigger (e : Evt) (data : Nat)
  | deliver

namespace SpiRun

/-- The event queued for the pipe when input is ready. -/
def ready (t : SpiRun) : Evt × Nat := (t.pipe.inputReadyEvent, t.pipe.id)

/-- The call of `spi_write` goes on to its next access of the ring. -/
def writeStep (t : SpiRun) : SpiRun :=
  match t.writer with
  | .idle _ => t
  | .entered buf len => { t with writer := .tailRead buf len t.drv.tx.tail }
  | .tailRead buf len tail =>
    let l := min len (circSpace t.drv.tx.head tail SPI_BUF_SIZE)
    if l = 0 then { t with writer := .idle (-EAGAIN) }
    else { t with writer := .loop buf l 0, accepted := t.accepted ++ rest buf l 0 }
  | .loop buf l i =>
    if i < l then
      { t with drv := { t.drv with tx := t.drv.tx.store (buf i) }, writer := .stored buf l i }
    else { t with writer := .idle l }
  | .stored buf l i =>
    { t with drv := { t.drv with tx := t.drv.tx.advance }, writer := .loop buf l (i + 1) }

/-- The interrupt, and what it does to the bytes of both directions. -/
def interrupt (c : UInt8) (t : SpiRun) : SpiRun :=
  let r := t.drv.isr [t.pipe] c
  { t with
    drv := r.2.2
    queue := t.queue ++ r.2.1
    loaded := if c = 0x05 ∧ t.drv.tx.cnt ≠ 0 then t.loaded ++ [r.1] else t.loaded
    admitted :=
      if c ≠ 0x05 ∧ c ≠ 0x00 ∧ t.drv.rx.space ≠ 0 ∧ t.drv.overrun = false then t.admitted ++ [c]
      else t.admitted }

def read (len : Nat) (t : SpiRun) : SpiRun :=
  let r := t.drv.spiRead [t.pipe] len
  { t with
    drv := r.2.2.2, queue := t.queue ++ r.2.2.1, handling := false
    returned := t.returned ++ r.2.1 }

/-- The main loop takes the first event of the queue. -/
def deliver (t : SpiRun) : SpiRun :=
  match t.queue with
  | [] => t
  | e :: rest => { t with queue := rest, handling := t.handling || decide (e = t.ready) }

def step (t : SpiRun) : SpiOp → SpiRun
  | .isr c => t.interrupt c
  | .read len => t.read len
  | .write buf len =>
    match t.writer with
    | .idle _ => { t with writer := .entered buf len }
    | _ => t
  | .writeStep => t.writeStep
  | .trigger e data => { t with queue := t.queue ++ [(e, data)] }
  | .deliver => t.deliver

/-- What the rings are for. Nothing is lost: what has not been loaded or returned yet is in
a ring, or with the call in progress. A byte to read has its event in the queue, or being
handled with the read still to come. -/
structure Ordered (t : SpiRun) : Prop where
  loaded : t.loaded <+: t.accepted
  toLoad : t.loaded ++ t.drv.tx.contents ++ t.writer.unstored = t.accepted
  returned : t.returned <+: t.admitted
  toReturn : t.returned ++ t.drv.rx.contents = t.admitted
  announced : t.drv.rx.contents ≠ [] → t.ready ∈ t.queue ∨ t.handling = true

/-- Each read asks for a byte at least, and the main loop comes back for the next event
after the read that answers the last one. -/
def Valid (t : SpiRun) : SpiOp → Prop
  | .read len => 1 ≤ len
  | .deliver => t.handling = false
  | _ => True

instance (t : SpiRun) (op : SpiOp) : Decidable (t.Valid op) := by
  cases op with
  | read len => exact inferInstanceAs (Decidable (1 ≤ len))
  | deliver => exact inferInstanceAs (Decidable (t.handling = false))
  | _ => exact inferInstanceAs (Decidable True)

end SpiRun

/-- The output ring has the room that the call in progress counts on, and the byte it has
stored. -/
def Writer.Fits (tx : CircBuf) : Writer → Prop
  | .tailRead _ _ tail => circSpace tx.head tail SPI_BUF_SIZE ≤ tx.space
  | .loop _ l i => l.toNat - i ≤ tx.space
  | .stored buf l i => i < l ∧ l.toNat - i ≤ tx.space ∧ tx.buf tx.head = buf i
  | _ => True

/-- The interrupt takes bytes out of the ring under a call of `spi_write`. -/
theorem Writer.Fits.consume {tx : CircBuf} {w : Writer} (h : w.Fits tx) {n : Nat} (hn : n ≤ tx.cnt) :
    w.Fits (tx.consume n) := by
  have hspace : tx.space ≤ (tx.consume n).space := by
    have hbefore := tx.space_add_cnt
    have hafter := (tx.consume n).space_add_cnt
    rw [CircBuf.consume_cnt hn] at hafter
    omega
  cases w with
  | idle ret => trivial
  | entered buf len => trivial
  | tailRead buf len tail => exact le_trans h hspace
  | loop buf l i => exact le_trans h hspace
  | stored buf l i => exact ⟨h.1, h.2.1.trans hspace, h.2.2⟩

namespace SpiRun

/-- What holds of every state of a run. -/
structure Inv (t : SpiRun) : Prop where
  tx : t.loaded ++ t.drv.tx.contents ++ t.writer.unstored = t.accepted
  rx : t.returned ++ t.drv.rx.contents = t.admitted
  writer : t.writer.Fits t.drv.tx
  wake : t.drv.rx.cnt ≠ 0 → t.ready ∈ t.queue ∨ t.handling = true

theorem Inv.ordered {t : SpiRun} (h : Inv t) : t.Ordered where
  loaded := by
    rw [← h.tx, List.append_assoc]
    exact List.prefix_append _ _
  toLoad := h.tx
  returned := ⟨_, h.rx⟩
  toReturn := h.rx
  announced := fun hne => h.wake fun hcnt => hne (CircBuf.contents_eq_nil_iff.mpr hcnt)

/-- The bytes from `i` on are byte `i` and those after it. -/
theorem rest_cons {buf : Nat → UInt8} {l : Int} {i : Nat} (h : i < l) :
    rest buf l i = buf i :: rest buf l (i + 1) := by
  unfold rest
  have hlen : l.toNat - i = l.toNat - (i + 1) + 1 := by omega
  rw [hlen, List.range_succ_eq_map, List.map_cons, List.map_map]
  congr 1
  apply List.map_congr_left
  intro k _
  simp only [Function.comp_apply]
  congr 1
  omega

theorem rest_done {buf : Nat → UInt8} {l : Int} {i : Nat} (h : ¬ i < l) : rest buf l i = [] := by
  unfold rest
  rw [show l.toNat - i = 0 by omega]
  rfl

/-- The number of bytes to write is fixed by the space found. -/
theorem Inv.accept {t : SpiRun} (h : Inv t) {buf : Nat → UInt8} {len : Int} {tail : Nat}
    (hw : t.writer = .tailRead buf len tail) {l : Int}
    (hl : l = min len (circSpace t.drv.tx.head tail SPI_BUF_SIZE)) :
    Inv { t with writer := .loop buf l 0, accepted := t.accepted ++ rest buf l 0 } := by
  obtain ⟨htx, hrx, hfits, hwake⟩ := h
  rw [hw] at htx hfits
  have hspace : circSpace t.drv.tx.head tail SPI_BUF_SIZE ≤ t.drv.tx.space := hfits
  have hnone : t.loaded ++ t.drv.tx.contents ++ [] = t.accepted := htx
  rw [List.append_nil] at hnone
  refine ⟨congrArg (· ++ rest buf l 0) hnone, hrx, ?_, hwake⟩
  unfold Writer.Fits
  simp only
  omega

/-- A byte is stored behind the ring's last one. -/
theorem Inv.store {t : SpiRun} (h : Inv t) {buf : Nat → UInt8} {l : Int} {i : Nat}
    (hw : t.writer = .loop buf l i) (hi : i < l) :
    Inv { t with drv := { t.drv with tx := t.drv.tx.store (buf i) }, writer := .stored buf l i } := by
  obtain ⟨htx, hrx, hfits, hwake⟩ := h
  rw [hw] at htx hfits
  have hroom : l.toNat - i ≤ t.drv.tx.space := hfits
  have hstore := CircBuf.store_contents (buf i) (show t.drv.tx.space ≠ 0 by omega)
  refine ⟨?_, hrx, ⟨hi, hroom, by simp [CircBuf.store, blit]⟩, hwake⟩
  exact (congrArg (t.loaded ++ · ++ rest buf l i) hstore).trans htx

/-- The byte counted is the first of those that were still to be counted. -/
theorem Inv.advance {t : SpiRun} (h : Inv t) {buf : Nat → UInt8} {l : Int} {i : Nat}
    (hw : t.writer = .stored buf l i) :
    Inv { t with drv := { t.drv with tx := t.drv.tx.advance }, writer := .loop buf l (i + 1) } := by
  obtain ⟨htx, hrx, hfits, hwake⟩ := h
  rw [hw] at htx hfits
  obtain ⟨hi, hroom, hcell⟩ := hfits
  have hne : t.drv.tx.space ≠ 0 := by omega
  refine ⟨?_, hrx, ?_, hwake⟩
  · have hcons : t.loaded ++ t.drv.tx.contents ++ rest buf l i = t.accepted := htx
    rw [rest_cons hi] at hcons
    show t.loaded ++ t.drv.tx.advance.contents ++ rest buf l (i + 1) = t.accepted
    rw [CircBuf.advance_contents hne, hcell, ← hcons]
    simp only [List.append_assoc, List.singleton_append]
  · have hbefore := t.drv.tx.space_add_cnt
    have hafter := t.drv.tx.advance.space_add_cnt
    rw [CircBuf.advance_cnt hne] at hafter
    show l.toNat - (i + 1) ≤ t.drv.tx.advance.space
    omega

/-- **Writing.** One access of `spi_write` to the ring. -/
theorem Inv.writeStep {t : SpiRun} (h : Inv t) : Inv t.writeStep := by
  have htx := h.tx
  unfold SpiRun.writeStep
  cases hw : t.writer with
  | idle ret => exact h
  | entered buf len =>
    rw [hw] at htx
    exact ⟨htx, h.rx, le_refl _, h.wake⟩
  | tailRead buf len tail =>
    rw [hw] at htx
    simp only
    split
    · exact ⟨htx, h.rx, trivial, h.wake⟩
    · exact h.accept hw rfl
  | loop buf l i =>
    rw [hw] at htx
    simp only
    split
    · rename_i hi
      exact h.store hw hi
    · rename_i hi
      have hdone : t.loaded ++ t.drv.tx.contents ++ rest buf l i = t.accepted := htx
      rw [rest_done hi] at hdone
      exact ⟨hdone, h.rx, trivial, h.wake⟩
  | stored buf l i => exact h.advance hw

/-- **Enquiries.** The oldest byte of the output ring is loaded, if there is one. -/
theorem Inv.enquiry {t : SpiRun} (h : Inv t) : Inv (t.interrupt 0x05) := by
  obtain ⟨htx, hrx, hfits, hwake⟩ := h
  unfold interrupt SpiData.isr
  by_cases hcnt : t.drv.tx.cnt ≠ 0
  · simp only [if_true, if_pos hcnt, true_and, ne_eq, not_true_eq_false, false_and, if_false,
      List.append_nil]
    refine ⟨?_, hrx, hfits.consume (Nat.one_le_iff_ne_zero.mpr hcnt), hwake⟩
    rw [CircBuf.contents_cons hcnt] at htx
    rw [← htx]
    simp only [List.append_assoc, List.cons_append, List.nil_append]
  · simp only [if_true, if_neg hcnt, true_and, ne_eq, not_true_eq_false, false_and, if_false,
      List.append_nil]
    exact ⟨htx, hrx, hfits, hwake⟩

theorem ready_mem_trigger (t : SpiRun) : t.ready ∈ pipeDevTriggerEvent [t.pipe] .inputReady :=
  List.mem_singleton.mpr rfl

/-- **Reception.** A byte other than an enquiry is put into the input ring, unless there
is no room or an overrun is latched. -/
theorem Inv.receive {t : SpiRun} (h : Inv t) {c : UInt8} (hc : c ≠ 0x05) :
    Inv (t.interrupt c) := by
  obtain ⟨htx, hrx, hfits, hwake⟩ := h
  have hloaded : (t.interrupt c).loaded = t.loaded := if_neg fun h => hc h.1
  by_cases hzero : c = 0x00
  · have hisr : t.drv.isr [t.pipe] c = (0x00, [], t.drv) := by
      unfold SpiData.isr
      rw [if_neg hc, if_pos hzero]
    have hadmitted : (t.interrupt c).admitted = t.admitted := if_neg fun h => h.2.1 hzero
    unfold interrupt at hloaded hadmitted ⊢
    rw [hisr] at hloaded hadmitted ⊢
    simp only at hloaded hadmitted ⊢
    rw [hloaded, hadmitted, List.append_nil]
    exact ⟨htx, hrx, hfits, hwake⟩
  · obtain ⟨hevents, htx', hrx'⟩ := t.drv.isr_byte [t.pipe] hc hzero
    refine ⟨?_, ?_, ?_, fun hcnt => ?_⟩
    · rw [hloaded]
      exact (congrArg (fun r => t.loaded ++ CircBuf.contents r ++ t.writer.unstored) htx').trans htx
    · show t.returned ++ (t.drv.isr [t.pipe] c).2.2.rx.contents = (t.interrupt c).admitted
      unfold interrupt
      rw [hrx']
      simp only [ne_eq, hc, hzero, not_false_eq_true, true_and]
      split
      · rename_i hroom
        rw [CircBuf.store_advance_contents c hroom.1, ← hrx, List.append_assoc]
      · exact hrx
    · show t.writer.Fits (t.drv.isr [t.pipe] c).2.2.tx
      rw [htx']
      exact hfits
    · show t.ready ∈ t.queue ++ (t.drv.isr [t.pipe] c).2.1 ∨ t.handling = true
      rw [hevents]
      by_cases hempty : t.drv.rx.cnt = 0
      · rw [if_pos hempty]
        exact .inl (List.mem_append_right _ t.ready_mem_trigger)
      · rw [if_neg hempty, List.append_nil]
        exact hwake hempty

theorem Inv.interrupt {t : SpiRun} (h : Inv t) (c : UInt8) : Inv (t.interrupt c) := by
  by_cases hc : c = 0x05
  · rw [hc]
    exact h.enquiry
  · exact h.receive hc

/-- **Reading.** A read that leaves bytes behind triggers the event for them. -/
theorem Inv.read {t : SpiRun} (h : Inv t) {len : Nat} (hlen : 1 ≤ len) : Inv (t.read len) := by
  obtain ⟨htx, hrx, hfits, -⟩ := h
  obtain ⟨htx', hrx', hevents⟩ := t.drv.spiRead_eq [t.pipe] hlen
  refine ⟨?_, ?_, ?_, fun hcnt => ?_⟩
  · exact (congrArg (fun r => t.loaded ++ CircBuf.contents r ++ t.writer.unstored) htx').trans htx
  · show t.returned ++ (t.drv.spiRead [t.pipe] len).2.1 ++ _ = t.admitted
    rw [List.append_assoc, ← hrx, ← hrx']
    rfl
  · show t.writer.Fits (t.drv.spiRead [t.pipe] len).2.2.2.tx
    rw [htx']
    exact hfits
  · left
    show t.ready ∈ t.queue ++ (t.drv.spiRead [t.pipe] len).2.2.1
    rw [hevents hcnt]
    exact List.mem_append_right _ t.ready_mem_trigger

/-- The event is in the queue until it is being handled. -/
theorem Inv.deliver {t : SpiRun} (h : Inv t) (hfree : t.handling = false) : Inv t.deliver := by
  unfold SpiRun.deliver
  cases hq : t.queue with
  | nil => exact h
  | cons e queue =>
    refine ⟨h.tx, h.rx, h.writer, fun hcnt => ?_⟩
    rcases h.wake hcnt with hmem | hhandling
    · rw [hq] at hmem
      rcases List.mem_cons.mp hmem with heq | hrest
      · exact .inr (by simp [heq.symm])
      · exact .inl hrest
    · rw [hfree] at hhandling
      exact absurd hhandling (by simp)

theorem step_inv {t : SpiRun} (h : Inv t) {op : SpiOp} (hv : t.Valid op) : Inv (t.step op) := by
  cases op with
  | isr c => exact h.interrupt c
  | read len => exact h.read hv
  | write buf len =>
    unfold step
    cases hw : t.writer with
    | idle ret =>
      have htx := h.tx
      rw [hw] at htx
      exact ⟨htx, h.rx, trivial, h.wake⟩
    | _ => exact h
  | writeStep => exact h.writeStep
  | trigger e data =>
    exact ⟨h.tx, h.rx, h.writer, fun hcnt =>
      (h.wake hcnt).imp_left fun hmem => List.mem_append_left _ hmem⟩
  | deliver => exact h.deliver hv

/-- An open device with two empty rings, anything else as it may be. -/
def start (rx tx : CircBuf) (overrun : Bool) (pipe : Pipe) (queue : List (Evt × Nat)) : SpiRun where
  drv := ⟨rx, overrun, tx⟩
  pipe := pipe
  queue := queue
  writer := .idle 0
  handling := false
  accepted := []
  loaded := []
  admitted := []
  returned := []

theorem start_inv {rx tx : CircBuf} (hrx : rx.cnt = 0) (htx : tx.cnt = 0) (overrun : Bool)
    (pipe : Pipe) (queue : List (Evt × Nat)) : Inv (start rx tx overrun pipe queue) := by
  refine ⟨?_, CircBuf.contents_eq_nil_iff.mpr hrx, trivial, fun hcnt => absurd hrx hcnt⟩
  show [] ++ tx.contents ++ [] = []
  rw [CircBuf.contents_eq_nil_iff.mpr htx]
  rfl

end SpiRun

open SpiRun

/-- **Both rings.** From two empty rings, along every run of interrupts, reads, writes and
event deliveries: the bytes loaded are the first ones accepted, the bytes returned the
first ones admitted, the others are still there, and a ring with bytes to read has an event
on its way. -/
theorem rings_ordered {rx tx : CircBuf} (hrx : rx.cnt = 0) (htx : tx.cnt = 0) (overrun : Bool)
    (pipe : Pipe) (queue : List (Evt × Nat)) {ops : List SpiOp}
    (hv : EachStep SpiRun.step Valid (start rx tx overrun pipe queue) ops) :
    Ordered (runFrom SpiRun.step (start rx tx overrun pipe queue) ops) := by
  have hinv : Inv (runFrom SpiRun.step (start rx tx overrun pipe queue) ops) :=
    EachStep.inv (fun (t : SpiRun) _ (h : t.Inv) hop => step_inv h hop)
      (start_inv hrx htx overrun pipe queue) hv
  exact hinv.ordered

/-- A ring whose indexes are about to wrap. -/
def emptyRing : CircBuf where
  buf := fun _ => 0
  head := 63
  tail := 63
  idx := ⟨isRingSize_spiBuf, by decide, by decide⟩

-- A byte comes in between the store of the first byte of a write and its count, an
-- enquiry after it; the byte is read on its event.
theorem rings_ordered_interrupted :
    Ordered (runFrom SpiRun.step (start emptyRing emptyRing false ⟨1, .inputReady, .outputReady⟩ [])
      [.write (fun k => UInt8.ofNat (k + 7)) 2, .writeStep, .writeStep, .writeStep, .isr 0x41,
        .writeStep, .isr 0x05, .writeStep, .deliver, .read 8, .writeStep, .isr 0x05]) :=
  rings_ordered (by decide) (by decide) false ⟨1, .inputReady, .outputReady⟩ [] (by decide)

end Bathos.Atmega
