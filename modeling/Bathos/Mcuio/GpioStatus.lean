import Bathos.Lib.Latch
import Bathos.Lib.Run
import Bathos.Mcuio.GpioEvents

/-!
# Bathos — the GPIO event status

The way of an edge through `arch-atmega/gpio.c` and `mcuio/mcuio_gpio_func.c`:
`gpio_sample` collects it, `gpio_evt_handle` moves it to the status of the port and
triggers `mcuio_irq`, and a read of the status shows and clears it. Pins with a mask for a
level are compared with that level in between, by `__handle_level_gpio_events`.

`mcuio/mcuio_gpio_table.c` leaves the `function` of a port `NULL`, and the levels are read
through a range that is `NULL` too: what comes back is an input of the step here.

Main results:

* `gpioEvtHandle_status`, `gpioEvtsStatusRd_status` — the bits of the status afterwards;
* `statusLaw_iff`, `irqLaw_iff` — the steps after which the status and the interrupt
  are right;
* `events_reported` — in every run that reads inside the status no edge is lost or shown
  twice, and what the two others ask for.
-/

namespace Bathos.Mcuio

open Bathos.Lib

-- ---------------------------------------------------------------------------
-- mcuio_gpio_func.c
-- ---------------------------------------------------------------------------

/-- Word `i` of an array. -/
def EvtArray.wordAt (a : EvtArray) (i : Nat) : Nat := 2 * a.index + i

/-- What an `mcuio_irq` event carries. The function is an entry of
`mcuio_functions_start`, or `NULL`, whose distance to it is no index. -/
structure PortIrq where
  func : Option Nat
  active : Nat
deriving DecidableEq

/-- One turn of `__handle_level_gpio_events`, with `levels` the words that
`gpio_data_rddw` leaves. -/
def levelTurn (levels : Nat → BitVec 32) (s : PortStatus) (i : Nat) : PortStatus :=
  let s := s.setWord i (s.word i ||| (levels i &&& s.word (EvtArray.high.wordAt i)))
  s.setWord i (s.word i ||| (~~~(levels i) &&& s.word (EvtArray.low.wordAt i)))

/-- `__handle_level_gpio_events`. -/
def handleLevelGpioEvents (levels : Nat → BitVec 32) (s : PortStatus) : PortStatus :=
  (List.range 2).foldl (levelTurn levels) s

/-- The loop of `__gpio_evts_status_rd`: the bytes stored, and the status. -/
def statusRdGo (start : Nat) : List Nat → PortStatus → List ByteStore × PortStatus
  | [], s => ([], s)
  | i :: is, s =>
    let rest := statusRdGo start is (s.clearByte (start + i))
    ((0 + i, s.byte (start + i)) :: rest.1, rest.2)

/-- `__gpio_evts_status_rd`: what it stores and triggers, and the status it leaves. -/
def gpioEvtsStatusRd (p : GpioPort) (function : Option Nat) (offset fill width : Nat)
    (levels : Nat → BitVec 32) (s : PortStatus) : List ByteStore × Option PortIrq × PortStatus :=
  let n := p.evtCount fill width
  let res := statusRdGo (p.bytePin offset) (List.range n) s
  let s' := handleLevelGpioEvents levels res.2
  if (s.word 0 ≠ 0 ∨ s.word 1 ≠ 0) ∧ (s'.word 0 = 0 ∧ s'.word 1 = 0) then
    (res.1, some ⟨function, 0⟩, s')
  else (res.1, none, s')

/-- One turn of the loop of `gpio_evt_handle`: the status and `evt_status`. -/
def evtTurn (acc : PortStatus × Words 2) (i : Nat) : PortStatus × Words 2 :=
  let s := acc.1
  (s.setWord i (s.word i |||
      (acc.2.word i &&& ~~~(s.word (EvtArray.high.wordAt i)) &&&
        ~~~(s.word (EvtArray.low.wordAt i)))),
    acc.2.setWord i 0)

/-- `gpio_offset` of `gpio_evdata`. -/
def gpioOffset : Nat := 0

/-- `gpio_evt_handle` with the events of `gpio_sample`: what it triggers, the status and
the events it leaves. -/
def gpioEvtHandle (p : GpioPort) (function : Option Nat) (levels : Nat → BitVec 32)
    (s : PortStatus) (events : Words 2) : Option PortIrq × PortStatus × Words 2 :=
  if gpioOffset ≠ p.gpioStart then (none, s, events)
  else
    let res := (List.range 2).foldl evtTurn (s, events)
    let s' := handleLevelGpioEvents levels res.1
    (some ⟨function, if s'.word 0 ≠ 0 ∨ s'.word 1 ≠ 0 then 1 else 0⟩, s', res.2)

-- ---------------------------------------------------------------------------
-- Runs
-- ---------------------------------------------------------------------------

/-- The variables of both files. -/
structure GpioState where
  smp : Atmega.Sampler
  status : PortStatus

/-- What happens to a port. A delivery comes with the levels the pins have, and the
words read through `NULL` come with it and with a read of the status. -/
inductive GpioOp where
  | sample (sfr : Nat → BitVec 8)
  | handle (level : Nat → Bool) (levels : Nat → BitVec 32)
  | read (offset : Nat) (fill : Bool) (levels : Nat → BitVec 32)

section Runs

variable (p : GpioPort) (function : Option Nat)

def gpioStep (g : GpioState) : GpioOp → GpioState
  | .sample sfr => { g with smp := (Atmega.gpioSample sfr g.smp).2 }
  | .handle _ levels =>
    let res := gpioEvtHandle p function levels g.status g.smp.events
    { smp := { g.smp with events := res.2.2 }, status := res.2.1 }
  | .read offset fill levels =>
    { g with status := (gpioEvtsStatusRd p function offset (fillArg fill) 32 levels g.status).2.2 }

/-- The interrupt a step triggers. -/
def gpioIrq (g : GpioState) : GpioOp → Option PortIrq
  | .sample _ => none
  | .handle _ levels => (gpioEvtHandle p function levels g.status g.smp.events).1
  | .read offset fill levels =>
    (gpioEvtsStatusRd p function offset (fillArg fill) 32 levels g.status).2.1

/-- Bit `q` of two words. -/
def wordsBit (levels : Nat → BitVec 32) (q : Nat) : Bool := (levels (q / 32)).getLsbD (q % 32)

-- ---------------------------------------------------------------------------
-- Statement
-- ---------------------------------------------------------------------------

def PortStatus.pending (s : PortStatus) (q : Nat) : Bool := s.bit (EvtArray.status.bitAt q)
def PortStatus.high (s : PortStatus) (q : Nat) : Bool := s.bit (EvtArray.high.bitAt q)
def PortStatus.low (s : PortStatus) (q : Nat) : Bool := s.bit (EvtArray.low.bitAt q)

section Law

variable (own : Nat) (g : GpioState) (ops : List GpioOp)

/-- The status after a delivery: the old one, the edges of the pins without a mask for a
level, and the pins at the level of their mask. -/
def StatusLaw : GpioOp → Prop
  | .handle level levels => p.gpioStart = gpioOffset → ∀ q < 64,
      (gpioStep p function g (.handle level levels)).status.pending q =
        (g.status.pending q || g.smp.events.bit q && !g.status.high q && !g.status.low q ||
          level q && g.status.high q || !level q && g.status.low q)
  | _ => True

/-- Interrupts name the function of the port and say whether the status is clear; a
delivery triggers one. -/
def IrqLaw (op : GpioOp) : Prop :=
  (∀ irq, gpioIrq p function g op = some irq →
    irq.func = some own ∧
      (irq.active = 1 ↔ ∃ q < 64, (gpioStep p function g op).status.pending q = true)) ∧
  ∀ level levels, op = .handle level levels → p.gpioStart = gpioOffset →
    gpioIrq p function g op ≠ none

/-- `gpio_sample` sees an edge of pin `q` in step `t`. -/
def EdgeAt (q t : Nat) : Prop :=
  ∃ sfr, ops[t]? = some (.sample sfr) ∧
    (stateAt (gpioStep p function) g ops t).smp.detects sfr (p.gpioStart + q) = true

/-- The event of the port is delivered in step `t`. -/
def HandledAt (t : Nat) : Prop :=
  p.gpioStart = gpioOffset ∧ ∃ level levels, ops[t]? = some (.handle level levels)

/-- A read has the byte of pin `q`. -/
def GpioPort.Reads (offset : Nat) (fill : Bool) (q : Nat) : Prop :=
  offset ≤ q / 8 ∧ q / 8 < offset + p.evtCount (fillArg fill) 32

instance (p : GpioPort) (offset : Nat) (fill : Bool) (q : Nat) :
    Decidable (p.Reads offset fill q) := inferInstanceAs (Decidable (_ ∧ _))

/-- The byte of pin `q` is read in step `t`. -/
def ReadAt (q t : Nat) : Prop :=
  ∃ offset fill levels, ops[t]? = some (.read offset fill levels) ∧ p.Reads offset fill q

/-- The reply of the read in step `t` has pin `q` set. -/
def ShownAt (q t : Nat) : Prop :=
  ∃ offset fill levels, ops[t]? = some (.read offset fill levels) ∧
    dataBit (writeAll (fun _ => 0) (gpioEvtsStatusRd p function offset (fillArg fill) 32 levels
      (stateAt (gpioStep p function) g ops t).status).1) (q - 8 * offset) = true

/-- An edge of a pin without a mask for a level is shown by one read of its byte: the
first one after the first delivery after the edge. -/
def EdgesReported : Prop :=
  ∀ q < 64, g.status.high q = false → g.status.low q = false → ∀ t, ReadAt p ops q t →
    (ShownAt p function g ops q t ↔
      ∃ k, EdgeAt p function g ops q k ∧
        ∃ d, FirstAfter (HandledAt p ops) k d ∧ FirstAfter (ReadAt p ops q) d t)

/-- All that is asked of a run. -/
structure EventsLaw : Prop where
  edges : EdgesReported p function g ops
  status : EachStep (gpioStep p function) (StatusLaw p function) g ops
  irq : EachStep (gpioStep p function) (fun g op => IrqLaw p function own g op) g ops

/-- No event yet, whatever the masks. -/
def GpioState.Fresh (g : GpioState) : Prop :=
  ∀ q < 64, g.smp.events.bit q = false ∧ g.status.pending q = false

/-- A read that triggers no interrupt: the status is clear before, or there is a bit
after it. -/
def Silent (offset : Nat) (fill : Bool) (levels : Nat → BitVec 32) : Prop :=
  (∀ q < 64, g.status.pending q = false) ∨
    ∃ q < 64, g.status.pending q = true ∧ ¬p.Reads offset fill q ∨
      wordsBit levels q = true ∧ g.status.high q = true ∨
      wordsBit levels q = false ∧ g.status.low q = true

/-- A read of the first port, inside its status. -/
def ReadInside : GpioOp → Prop
  | .read offset fill _ => p.index = 0 ∧ offset + p.evtCount (fillArg fill) 32 ≤ 8
  | _ => True

/-- A delivery that reads the levels of the pins whose status depends on them. -/
def LevelsRight : GpioOp → Prop
  | .handle level levels => p.gpioStart = gpioOffset → ∀ q < 64, g.status.pending q = false →
      g.status.high q ≠ g.status.low q → wordsBit levels q = level q
  | _ => True

/-- A step that has the function of the port, where it triggers an interrupt. -/
def FunctionRight : GpioOp → Prop
  | .sample _ => True
  | .handle _ _ => p.gpioStart = gpioOffset → function = some own
  | .read offset fill levels => function = some own ∨ Silent p g offset fill levels

/-- The steps that do right. -/
structure GpioOpFine (op : GpioOp) : Prop where
  inside : ReadInside p op
  levels : LevelsRight p g op
  func : FunctionRight p function own g op

end Law

end Runs

-- ---------------------------------------------------------------------------
-- Words and bits
-- ---------------------------------------------------------------------------

section Bits

variable {p : GpioPort} {function : Option Nat} {levels : Nat → BitVec 32} {s : PortStatus}
  {events : Words 2} {q : Nat}

theorem EvtArray.bitAt_div (a : EvtArray) (q : Nat) : a.bitAt q / 32 = a.wordAt (q / 32) := by
  unfold EvtArray.bitAt EvtArray.wordAt
  omega

theorem EvtArray.bitAt_mod (a : EvtArray) (q : Nat) : a.bitAt q % 32 = q % 32 := by
  unfold EvtArray.bitAt
  omega

/-- The bits of a mask are in its words as those of the status are. -/
theorem getLsbD_wordAt (s : PortStatus) (a : EvtArray) (q : Nat) :
    (s.word (a.wordAt (q / 32))).getLsbD (q % 32) = s.bit (a.bitAt q) := by
  rw [Words.bit_eq, a.bitAt_div, a.bitAt_mod]

/-- Each of the arrays has two words. -/
theorem word_cases (hq : q < 64) : q / 32 = 0 ∨ q / 32 = 1 := by omega

theorem pending_eq (s : PortStatus) (q : Nat) : s.pending q = s.bit q := by
  unfold PortStatus.pending EvtArray.bitAt EvtArray.index
  rw [Nat.mul_zero, Nat.zero_add]

/-- The masks are behind the status. -/
theorem EvtArray.index_pos {a : EvtArray} (ha : a ≠ .status) : 0 < a.index := by
  cases a <;> first | exact absurd rfl ha | decide

theorem EvtArray.le_bitAt {a : EvtArray} (ha : a ≠ .status) (q : Nat) : 64 ≤ a.bitAt q := by
  have hindex := EvtArray.index_pos ha
  unfold EvtArray.bitAt
  omega

theorem word_setWord_wordAt (s : PortStatus) {a : EvtArray} (ha : a ≠ .status) {i : Nat}
    (hi : i < 2) (v : BitVec 32) (k : Nat) :
    (s.setWord i v).word (a.wordAt k) = s.word (a.wordAt k) := by
  have hindex := EvtArray.index_pos ha
  rw [Words.word_setWord s v (by omega), if_neg]
  unfold EvtArray.wordAt
  omega

/-- The masks of a pin are the same. -/
def SameMasks (s s' : PortStatus) : Prop := ∀ q < 64, s'.high q = s.high q ∧ s'.low q = s.low q

theorem SameMasks.of_bits {s' : PortStatus} (h : ∀ q, 64 ≤ q → s'.bit q = s.bit q) :
    SameMasks s s' := fun q _ =>
  ⟨h _ (EvtArray.le_bitAt (by decide) q), h _ (EvtArray.le_bitAt (by decide) q)⟩

/-- Words that a status is compared with, at the masks. -/
theorem levelTurn_bit {i : Nat} (hi : i < 2) (q : Nat) :
    (levelTurn levels s i).bit q =
      (s.bit q || decide (q / 32 = i) &&
        (wordsBit levels q && s.high q || !wordsBit levels q && s.low q)) := by
  unfold levelTurn
  dsimp only
  rw [Words.bit_orWord _ _ (by omega), Words.bit_orWord _ _ (by omega),
    word_setWord_wordAt s (by decide) hi]
  by_cases hq : q / 32 = i
  · subst hq
    have hmod : q % 32 < 32 := Nat.mod_lt q (by decide)
    rw [BitVec.getLsbD_and, BitVec.getLsbD_and, BitVec.getLsbD_not, getLsbD_wordAt, getLsbD_wordAt]
    simp only [decide_true, Bool.true_and, hmod, Bool.or_assoc]
    rfl
  · simp only [hq, decide_false, Bool.false_and, Bool.or_false]

theorem levelTurn_sameMasks {i : Nat} (hi : i < 2) : SameMasks s (levelTurn levels s i) :=
  SameMasks.of_bits fun q hq => by
    rw [levelTurn_bit hi, decide_eq_false (show q / 32 ≠ i by omega), Bool.false_and, Bool.or_false]

/-- **Levels.** -/
theorem handleLevelGpioEvents_pending (hq : q < 64) :
    (handleLevelGpioEvents levels s).pending q =
      (s.pending q || wordsBit levels q && s.high q || !wordsBit levels q && s.low q) := by
  have hfirst : SameMasks s (levelTurn levels s 0) := levelTurn_sameMasks (by decide)
  obtain ⟨hhigh, hlow⟩ := hfirst q hq
  show (levelTurn levels (levelTurn levels s 0) 1).pending q = _
  rw [pending_eq, pending_eq, levelTurn_bit (by decide), levelTurn_bit (by decide), hhigh, hlow]
  rcases word_cases hq with hword | hword <;> simp [hword, Bool.or_assoc]

theorem SameMasks.trans {s' s'' : PortStatus} (h : SameMasks s s') (h' : SameMasks s' s'') :
    SameMasks s s'' := fun q hq =>
  ⟨(h' q hq).1.trans (h q hq).1, (h' q hq).2.trans (h q hq).2⟩

theorem handleLevelGpioEvents_sameMasks : SameMasks s (handleLevelGpioEvents levels s) :=
  (levelTurn_sameMasks (by decide)).trans (levelTurn_sameMasks (by decide))

/-- One turn of a delivery. -/
theorem evtTurn_bit {acc : PortStatus × Words 2} {i : Nat} (hi : i < 2) (q : Nat) :
    (evtTurn acc i).1.bit q =
      (acc.1.bit q || decide (q / 32 = i) && (acc.2.bit q && !acc.1.high q && !acc.1.low q)) := by
  unfold evtTurn
  dsimp only
  rw [Words.bit_orWord _ _ (by omega)]
  by_cases hq : q / 32 = i
  · subst hq
    have hmod : q % 32 < 32 := Nat.mod_lt q (by decide)
    rw [BitVec.getLsbD_and, BitVec.getLsbD_and, BitVec.getLsbD_not, BitVec.getLsbD_not,
      getLsbD_wordAt, getLsbD_wordAt]
    simp only [decide_true, Bool.true_and, hmod]
    rfl
  · simp only [hq, decide_false, Bool.false_and, Bool.or_false]

theorem evtTurn_event {acc : PortStatus × Words 2} {i : Nat} (hi : i < 2) (q : Nat) :
    (evtTurn acc i).2.bit q = (!decide (q / 32 = i) && acc.2.bit q) := by
  unfold evtTurn
  dsimp only
  rw [Words.bit_setWord _ _ hi]
  by_cases hq : q / 32 = i
  · rw [if_pos hq, decide_eq_true hq, Bool.not_true, Bool.false_and]
    exact BitVec.getLsbD_zero
  · rw [if_neg hq, decide_eq_false hq, Bool.not_false, Bool.true_and]

/-- The two turns of a delivery: edges go from the events to the status. -/
theorem evtTurns_spec (s : PortStatus) (events : Words 2) (hq : q < 64) :
    ((List.range 2).foldl evtTurn (s, events)).1.pending q =
        (s.pending q || events.bit q && !s.high q && !s.low q) ∧
      ((List.range 2).foldl evtTurn (s, events)).2.bit q = false ∧
      SameMasks s ((List.range 2).foldl evtTurn (s, events)).1 := by
  have hmasks : ∀ (acc : PortStatus × Words 2) (i : Nat), i < 2 →
      SameMasks acc.1 (evtTurn acc i).1 := fun acc i hi => SameMasks.of_bits fun q hq => by
      rw [evtTurn_bit hi, decide_eq_false (show q / 32 ≠ i by omega), Bool.false_and, Bool.or_false]
  have hfirst := hmasks (s, events) 0 (by decide)
  obtain ⟨hhigh, hlow⟩ := hfirst q hq
  show (evtTurn (evtTurn (s, events) 0) 1).1.pending q = _ ∧
    (evtTurn (evtTurn (s, events) 0) 1).2.bit q = false ∧
    SameMasks s (evtTurn (evtTurn (s, events) 0) 1).1
  refine ⟨?_, ?_, hfirst.trans (hmasks _ 1 (by decide))⟩
  · rw [pending_eq, pending_eq, evtTurn_bit (by decide), evtTurn_bit (by decide),
      evtTurn_event (by decide), hhigh, hlow]
    rcases word_cases hq with hword | hword <;> simp [hword]
  · rw [evtTurn_event (by decide), evtTurn_event (by decide)]
    rcases word_cases hq with hword | hword <;> simp [hword]

/-- The two words of the status. -/
theorem status_ne_zero_iff (s : PortStatus) :
    (s.word 0 ≠ 0 ∨ s.word 1 ≠ 0) ↔ ∃ q < 64, s.pending q = true := by
  rw [Ne, Ne, Words.word_eq_zero_iff, Words.word_eq_zero_iff]
  simp only [pending_eq]
  constructor
  · intro h
    by_contra hnone
    push Not at hnone
    rcases h with h | h
    · exact h fun q hq => by simpa using hnone q (by omega)
    · exact h fun q hq => by simpa using hnone q (by omega)
  · rintro ⟨q, hq, hset⟩
    rcases word_cases hq with hword | hword
    · exact .inl fun h => by rw [h q hword] at hset; cases hset
    · exact .inr fun h => by rw [h q hword] at hset; cases hset

/-- The loop of a read: by induction on the bytes, which are all different. -/
theorem statusRdGo_spec (start : Nat) (is : List Nat) (s : PortStatus) (hnodup : is.Nodup)
    (hin : ∀ i ∈ is, start + i < 8) :
    (statusRdGo start is s).1 = is.map (fun i => (0 + i, s.byte (start + i))) ∧
      ∀ q, (statusRdGo start is s).2.bit q =
        (s.bit q && !is.any fun i => decide (q / 8 = start + i)) := by
  induction is generalizing s with
  | nil => exact ⟨rfl, fun q => by simp [statusRdGo]⟩
  | cons i is ih =>
    obtain ⟨hi, hnodup⟩ := List.nodup_cons.mp hnodup
    have hlt := hin i List.mem_cons_self
    have hclear : ∀ q, (s.clearByte (start + i)).bit q = (!decide (q / 8 = start + i) && s.bit q) :=
      s.bit_clearByte (by omega)
    obtain ⟨hstores, hbits⟩ := ih (s.clearByte (start + i)) hnodup
      fun k hk => hin k (List.mem_cons_of_mem i hk)
    unfold statusRdGo
    dsimp only
    refine ⟨?_, fun q => ?_⟩
    · rw [hstores, List.map_cons]
      refine congrArg _ (List.map_congr_left fun k hk => ?_)
      -- the bytes still to come have not been cleared
      have hne : k ≠ i := fun h => hi (h ▸ hk)
      rw [Words.byte_ext fun j hj => ?_]
      rw [hclear, decide_eq_false (by omega), Bool.not_false, Bool.true_and]
    · rw [hbits, hclear, List.any_cons, Bool.not_or]
      cases decide (q / 8 = start + i) <;> simp

end Bits

-- ---------------------------------------------------------------------------
-- Handlers
-- ---------------------------------------------------------------------------

section Handlers

variable {p : GpioPort} {function : Option Nat} {levels : Nat → BitVec 32} {s : PortStatus}
  {events : Words 2} {offset q : Nat} {fill : Bool}

theorem gpioEvtHandle_own (hown : p.gpioStart = gpioOffset) :
    gpioEvtHandle p function levels s events =
      let res := (List.range 2).foldl evtTurn (s, events)
      let s' := handleLevelGpioEvents levels res.1
      (some ⟨function, if s'.word 0 ≠ 0 ∨ s'.word 1 ≠ 0 then 1 else 0⟩, s', res.2) := by
  unfold gpioEvtHandle
  rw [if_neg (not_not.mpr hown.symm)]

/-- **Delivery.** -/
theorem gpioEvtHandle_status (hown : p.gpioStart = gpioOffset) (hq : q < 64) :
    (gpioEvtHandle p function levels s events).2.1.pending q =
      (s.pending q || events.bit q && !s.high q && !s.low q || wordsBit levels q && s.high q ||
        !wordsBit levels q && s.low q) := by
  obtain ⟨hpending, -, hmasks⟩ := evtTurns_spec s events hq
  rw [gpioEvtHandle_own hown]
  dsimp only
  rw [handleLevelGpioEvents_pending hq, hpending, (hmasks q hq).1, (hmasks q hq).2]

theorem gpioEvtHandle_sameMasks :
    SameMasks s (gpioEvtHandle p function levels s events).2.1 := by
  unfold gpioEvtHandle
  split
  · exact fun q _ => ⟨rfl, rfl⟩
  · intro q hq
    obtain ⟨-, -, hmasks⟩ := evtTurns_spec s events hq
    exact (hmasks.trans handleLevelGpioEvents_sameMasks) q hq

theorem gpioEvtHandle_events (hown : p.gpioStart = gpioOffset) (hq : q < 64) :
    (gpioEvtHandle p function levels s events).2.2.bit q = false := by
  rw [gpioEvtHandle_own hown]
  exact (evtTurns_spec s events hq).2.1

theorem gpioEvtHandle_irq (hown : p.gpioStart = gpioOffset) :
    ∃ active, (gpioEvtHandle p function levels s events).1 = some ⟨function, active⟩ ∧
      (active = 1 ↔
        ∃ q < 64, (gpioEvtHandle p function levels s events).2.1.pending q = true) := by
  rw [gpioEvtHandle_own hown]
  refine ⟨_, rfl, ?_⟩
  rw [← status_ne_zero_iff]
  split
  · rename_i hset
    exact iff_of_true rfl hset
  · rename_i hclear
    exact iff_of_false (by decide) hclear

theorem gpioEvtsStatusRd_fst (width : Nat) :
    (gpioEvtsStatusRd p function offset (fillArg fill) width levels s).1 =
      (statusRdGo (p.bytePin offset) (List.range (p.evtCount (fillArg fill) width)) s).1 := by
  unfold gpioEvtsStatusRd
  dsimp only
  split <;> rfl

theorem gpioEvtsStatusRd_snd (width : Nat) :
    (gpioEvtsStatusRd p function offset (fillArg fill) width levels s).2.2 =
      handleLevelGpioEvents levels
        (statusRdGo (p.bytePin offset) (List.range (p.evtCount (fillArg fill) width)) s).2 := by
  unfold gpioEvtsStatusRd
  dsimp only
  split <;> rfl

/-- The reads that trigger an interrupt clear the status. -/
theorem gpioEvtsStatusRd_irq {irq : PortIrq} :
    (gpioEvtsStatusRd p function offset (fillArg fill) 32 levels s).2.1 = some irq ↔
      irq = ⟨function, 0⟩ ∧ (∃ q < 64, s.pending q = true) ∧
        ¬∃ q < 64,
          (gpioEvtsStatusRd p function offset (fillArg fill) 32 levels s).2.2.pending q = true := by
  rw [gpioEvtsStatusRd_snd, ← status_ne_zero_iff, ← status_ne_zero_iff, not_or, not_not, not_not]
  unfold gpioEvtsStatusRd
  dsimp only
  split
  · rename_i hcleared
    rw [and_iff_left hcleared, Option.some.injEq, eq_comm]
  · rename_i hcleared
    exact iff_of_false nofun fun h => hcleared h.2

section Inside

variable (hindex : p.index = 0) (hend : offset + p.evtCount (fillArg fill) 32 ≤ 8)

include hindex hend

/-- The loop of a read inside the status. -/
theorem statusRdGo_read :
    (statusRdGo (p.bytePin offset) (List.range (p.evtCount (fillArg fill) 32)) s).1 =
        (List.range (p.evtCount (fillArg fill) 32)).map (fun i => (0 + i, s.byte (offset + i))) ∧
      ∀ q, (statusRdGo (p.bytePin offset) (List.range (p.evtCount (fillArg fill) 32)) s).2.bit q =
        (s.bit q && !decide (p.Reads offset fill q)) := by
  have hstart := p.bytePin_eq hindex offset
  rw [hstart]
  obtain ⟨hstores, hbits⟩ := statusRdGo_spec offset _ s
    (List.nodup_range (n := p.evtCount (fillArg fill) 32))
    (fun i hi => by rw [List.mem_range] at hi; omega)
  refine ⟨hstores, fun q => ?_⟩
  rw [hbits]
  congr 2
  rw [Bool.eq_iff_iff, List.any_eq_true, decide_eq_true_iff]
  unfold GpioPort.Reads
  constructor
  · rintro ⟨i, hi, hq⟩
    rw [List.mem_range] at hi
    rw [decide_eq_true_iff] at hq
    omega
  · rintro ⟨hle, hlt⟩
    exact ⟨q / 8 - offset, List.mem_range.mpr (by omega), decide_eq_true (by omega)⟩

theorem statusRdGo_sameMasks :
    SameMasks s
      (statusRdGo (p.bytePin offset) (List.range (p.evtCount (fillArg fill) 32)) s).2 := by
  refine SameMasks.of_bits fun q hq => ?_
  rw [(statusRdGo_read hindex hend).2, decide_eq_false, Bool.not_false, Bool.and_true]
  unfold GpioPort.Reads
  omega

/-- **Read.** -/
theorem gpioEvtsStatusRd_status (hq : q < 64) :
    (gpioEvtsStatusRd p function offset (fillArg fill) 32 levels s).2.2.pending q =
      (s.pending q && !decide (p.Reads offset fill q) || wordsBit levels q && s.high q ||
        !wordsBit levels q && s.low q) := by
  obtain ⟨hhigh, hlow⟩ := statusRdGo_sameMasks (s := s) hindex hend q hq
  rw [gpioEvtsStatusRd_snd, handleLevelGpioEvents_pending hq, hhigh, hlow, pending_eq, pending_eq,
    (statusRdGo_read hindex hend).2]

theorem gpioEvtsStatusRd_sameMasks :
    SameMasks s (gpioEvtsStatusRd p function offset (fillArg fill) 32 levels s).2.2 := by
  rw [gpioEvtsStatusRd_snd]
  exact (statusRdGo_sameMasks hindex hend).trans handleLevelGpioEvents_sameMasks

/-- What the reply shows of a pin. -/
theorem gpioEvtsStatusRd_shown (out : Nat → UInt8) (hread : p.Reads offset fill q) :
    dataBit (writeAll out (gpioEvtsStatusRd p function offset (fillArg fill) 32 levels s).1)
      (q - 8 * offset) = s.pending q := by
  obtain ⟨hle, hlt⟩ := hread
  have hbyte : (q - 8 * offset) / 8 = q / 8 - offset := by omega
  have hbit : (q - 8 * offset) % 8 = q % 8 := by omega
  unfold dataBit
  rw [gpioEvtsStatusRd_fst, (statusRdGo_read hindex hend).1, writeAll_range, hbyte, hbit,
    if_pos (by omega)]
  rw [Words.byte_getLsbD _ _ (Nat.mod_lt q (by decide)), pending_eq]
  congr 1
  omega

end Inside

end Handlers

-- ---------------------------------------------------------------------------
-- Steps
-- ---------------------------------------------------------------------------

section Steps

variable {p : GpioPort} {function : Option Nat} {own q : Nat} {g : GpioState} {op : GpioOp}

/-- The masks stay. -/
theorem gpioStep_sameMasks (hin : ReadInside p op) :
    SameMasks g.status (gpioStep p function g op).status := by
  cases op with
  | sample sfr => exact fun q _ => ⟨rfl, rfl⟩
  | handle level levels => exact gpioEvtHandle_sameMasks
  | read offset fill levels => exact gpioEvtsStatusRd_sameMasks hin.1 hin.2

/-- **Status.** A delivery does right by it exactly when the levels read for the pins that
depend on them are those of the pins. -/
theorem statusLaw_iff : StatusLaw p function g op ↔ LevelsRight p g op := by
  cases op with
  | sample sfr => exact Iff.rfl
  | read offset fill levels => exact Iff.rfl
  | handle level levels =>
    refine forall_congr' fun hown => forall_congr' fun q => forall_congr' fun hq => ?_
    show (gpioEvtHandle p function levels g.status g.smp.events).2.1.pending q = _ ↔ _
    rw [gpioEvtHandle_status hown hq]
    cases g.status.pending q <;> cases g.smp.events.bit q <;> cases g.status.high q <;>
      cases g.status.low q <;> cases wordsBit levels q <;> cases level q <;> decide

theorem irqLaw_handle_iff {level : Nat → Bool} {levels : Nat → BitVec 32} :
    IrqLaw p function own g (.handle level levels) ↔
      FunctionRight p function own g (.handle level levels) := by
  by_cases hown : p.gpioStart = gpioOffset
  · obtain ⟨active, htrigger, hactive⟩ := gpioEvtHandle_irq (p := p) (s := g.status) hown
    constructor
    · exact fun h _ => (h.1 ⟨function, active⟩ htrigger).1
    · intro h
      refine ⟨fun irq hirq => ?_, fun _ _ _ _ hnone => ?_⟩
      · obtain rfl := Option.some.inj (htrigger.symm.trans hirq)
        exact ⟨h hown, hactive⟩
      · cases htrigger.symm.trans hnone
  · have hnone : gpioIrq p function g (.handle level levels) = none := by
      show (gpioEvtHandle _ _ _ _ _).1 = none
      unfold gpioEvtHandle
      rw [if_pos (fun h => hown h.symm)]
    refine iff_of_true ⟨fun irq hirq => ?_, fun _ _ _ h => absurd h hown⟩ (fun h => absurd h hown)
    cases hnone.symm.trans hirq

/-- A read clears the status, and triggers an interrupt, unless it is silent. -/
theorem silent_iff (function : Option Nat) (g : GpioState) {offset : Nat} {fill : Bool}
    {levels : Nat → BitVec 32} (hin : ReadInside p (.read offset fill levels)) :
    Silent p g offset fill levels ↔ ¬((∃ q < 64, g.status.pending q = true) ∧
      ¬∃ q < 64, (gpioStep p function g (.read offset fill levels)).status.pending q = true) := by
  have hafter : ∀ q < 64,
      ((gpioStep p function g (.read offset fill levels)).status.pending q = true ↔
        g.status.pending q = true ∧ ¬p.Reads offset fill q ∨
          wordsBit levels q = true ∧ g.status.high q = true ∨
          wordsBit levels q = false ∧ g.status.low q = true) := by
    intro q hq
    show (gpioEvtsStatusRd _ _ _ _ _ _ _).2.2.pending q = true ↔ _
    rw [gpioEvtsStatusRd_status hin.1 hin.2 hq]
    simp [or_assoc]
  unfold Silent
  rw [not_and_or, not_not]
  refine or_congr ?_ (exists_congr fun q => and_congr_right fun hq => (hafter q hq).symm)
  push Not
  exact forall_congr' fun q => forall_congr' fun _ => (Bool.not_eq_true _).to_iff.symm

theorem irqLaw_read_iff {offset : Nat} {fill : Bool} {levels : Nat → BitVec 32}
    (hin : ReadInside p (.read offset fill levels)) :
    IrqLaw p function own g (.read offset fill levels) ↔
      FunctionRight p function own g (.read offset fill levels) := by
  have hsilent := silent_iff function g hin
  constructor
  · intro h
    by_cases hquiet : Silent p g offset fill levels
    · exact .inr hquiet
    · have hcleared := not_not.mp fun h => hquiet (hsilent.mpr h)
      exact .inl (h.1 ⟨function, 0⟩ (gpioEvtsStatusRd_irq.mpr ⟨rfl, hcleared⟩)).1
  · intro h
    refine ⟨fun irq hirq => ?_, fun level levels h => by cases h⟩
    obtain ⟨rfl, hcleared⟩ := gpioEvtsStatusRd_irq.mp hirq
    refine ⟨?_, iff_of_false Nat.zero_ne_one hcleared.2⟩
    rcases h with hfunction | hquiet
    · exact hfunction
    · exact absurd hcleared (hsilent.mp hquiet)

/-- **Interrupts.** They are right exactly when the function is known where one is
triggered. -/
theorem irqLaw_iff (hin : ReadInside p op) :
    IrqLaw p function own g op ↔ FunctionRight p function own g op := by
  cases op with
  | sample sfr =>
    refine iff_of_true ⟨fun irq hirq => ?_, fun level levels h => by cases h⟩ trivial
    cases (show none = some irq from hirq)
  | handle level levels => exact irqLaw_handle_iff
  | read offset fill levels => exact irqLaw_read_iff hin

section Edge

variable (hindex : p.index = 0) (hq : q < 64) (hhigh : g.status.high q = false)
  (hlow : g.status.low q = false)

include hindex

/-- The first port is the one `gpio_sample` reports to. -/
theorem gpioStart_eq : p.gpioStart = gpioOffset := by
  unfold GpioPort.gpioStart gpioOffset
  rw [hindex]

include hq

/-- What is collected for a pin. -/
theorem gpioStep_event :
    (gpioStep p function g op).smp.events.bit q = true ↔
      (∃ sfr, op = .sample sfr ∧ g.smp.detects sfr (p.gpioStart + q) = true) ∨
        g.smp.events.bit q = true ∧ ¬∃ level levels, op = .handle level levels := by
  have hstart : p.gpioStart + q = q := by rw [gpioStart_eq hindex, gpioOffset, Nat.zero_add]
  cases op with
  | sample sfr =>
    show (Atmega.gpioSample sfr g.smp).2.events.bit q = true ↔ _
    rw [Atmega.gpioSample_event, Bool.or_eq_true, hstart]
    simp [or_comm]
  | handle level levels =>
    show (gpioEvtHandle p function levels g.status g.smp.events).2.2.bit q = true ↔ _
    rw [gpioEvtHandle_events (gpioStart_eq hindex) hq]
    simp
  | read offset fill levels =>
    show g.smp.events.bit q = true ↔ _
    simp

include hhigh hlow

/-- What the status has of a pin without a mask for a level. -/
theorem gpioStep_pending (hin : ReadInside p op) :
    (gpioStep p function g op).status.pending q = true ↔
      ((∃ level levels, op = .handle level levels) ∧ g.smp.events.bit q = true) ∨
        g.status.pending q = true ∧
          ¬∃ offset fill levels, op = .read offset fill levels ∧ p.Reads offset fill q := by
  cases op with
  | sample sfr =>
    show g.status.pending q = true ↔ _
    simp
  | handle level levels =>
    show (gpioEvtHandle p function levels g.status g.smp.events).2.1.pending q = true ↔ _
    rw [gpioEvtHandle_status (gpioStart_eq hindex) hq, hhigh, hlow]
    simp [or_comm]
  | read offset fill levels =>
    show (gpioEvtsStatusRd p function offset (fillArg fill) 32 levels g.status).2.2.pending q =
      true ↔ _
    have hread : (∃ offset' fill' levels', GpioOp.read offset fill levels =
        .read offset' fill' levels' ∧ p.Reads offset' fill' q) ↔ p.Reads offset fill q := by
      constructor
      · rintro ⟨_, _, _, hop, hread⟩
        cases hop
        exact hread
      · exact fun hread => ⟨offset, fill, levels, rfl, hread⟩
    rw [gpioEvtsStatusRd_status hindex hin.2 hq, hhigh, hlow, hread]
    simp

end Edge

end Steps

-- ---------------------------------------------------------------------------
-- Runs
-- ---------------------------------------------------------------------------

section Runs

variable {p : GpioPort} {function : Option Nat} {own : Nat} {g : GpioState} {ops : List GpioOp}

/-- A pin keeps its masks along the run. -/
theorem sameMasks_stateAt
    (hin : EachStep (gpioStep p function) (fun _ op => ReadInside p op) g ops) (t : Nat) :
    SameMasks g.status (stateAt (gpioStep p function) g ops t).status := by
  have hstep : ∀ (g' : GpioState) (op : GpioOp), SameMasks g.status g'.status →
      ReadInside p op → SameMasks g.status (gpioStep p function g' op).status :=
    fun _ _ hmasks hop => hmasks.trans (gpioStep_sameMasks hop)
  exact EachStep.inv_at hstep (fun _ _ => ⟨rfl, rfl⟩) hin t

/-- **Edges.** The events are a latch that the delivery hands over to the status, and the
status is one that a read clears. -/
theorem edgesReported_of_inside (hfresh : g.Fresh)
    (hin : EachStep (gpioStep p function) (fun _ op => ReadInside p op) g ops) :
    EdgesReported p function g ops := by
  intro q hq hhigh hlow t hread
  obtain ⟨offset, fill, levels, hop, hbyte⟩ := hread
  obtain ⟨hindex, hend⟩ := hin.get hop
  have hmasks := fun t => sameMasks_stateAt hin t q hq
  have hevents : Latch (EdgeAt p function g ops q) (HandledAt p ops)
      (fun t => (stateAt (gpioStep p function) g ops t).smp.events.bit q = true) := by
    refine ⟨by rw [stateAt_zero, (hfresh q hq).1]; decide, fun t => ?_⟩
    unfold EdgeAt HandledAt
    cases hop : ops[t]? with
    | none =>
      rw [stateAt_succ_none hop]
      simp
    | some op =>
      rw [stateAt_succ hop, gpioStep_event hindex hq]
      simp [gpioStart_eq hindex]
  have hstatus : Latch (fun t => HandledAt p ops t ∧
        (stateAt (gpioStep p function) g ops t).smp.events.bit q = true) (ReadAt p ops q)
      (fun t => (stateAt (gpioStep p function) g ops t).status.pending q = true) := by
    refine ⟨by rw [stateAt_zero, (hfresh q hq).2]; decide, fun t => ?_⟩
    unfold ReadAt HandledAt
    cases hop : ops[t]? with
    | none =>
      rw [stateAt_succ_none hop]
      simp
    | some op =>
      rw [stateAt_succ hop, gpioStep_pending hindex hq ((hmasks t).1.trans hhigh)
        ((hmasks t).2.trans hlow) (hin.get hop)]
      simp [gpioStart_eq hindex]
  have hshown : ShownAt p function g ops q t ↔
      (stateAt (gpioStep p function) g ops t).status.pending q = true := by
    constructor
    · rintro ⟨offset', fill', levels', hop', hbit⟩
      rw [hop] at hop'
      cases hop'
      rwa [gpioEvtsStatusRd_shown hindex hend _ hbyte] at hbit
    · exact fun hset => ⟨offset, fill, levels, hop, by
        rwa [gpioEvtsStatusRd_shown hindex hend _ hbyte]⟩
  rw [hshown]
  exact hevents.relay hstatus ⟨offset, fill, levels, hop, hbyte⟩

/-- **Event status.** In every run that reads inside the status, every edge is shown once,
the status is right exactly as long as the levels read are, and everything is exactly when
the function of the port is known besides. -/
theorem events_reported (p : GpioPort) (function : Option Nat) (own : Nat) (g : GpioState)
    (ops : List GpioOp) (hfresh : g.Fresh)
    (hin : EachStep (gpioStep p function) (fun _ op => ReadInside p op) g ops) :
    EdgesReported p function g ops ∧
      (EachStep (gpioStep p function) (StatusLaw p function) g ops ↔
        EachStep (gpioStep p function) (LevelsRight p) g ops) ∧
      (EventsLaw p function own g ops ↔
        EachStep (gpioStep p function) (fun g op => GpioOpFine p function own g op) g ops) := by
  have hedges := edgesReported_of_inside hfresh hin
  have hlaws : EachStep (gpioStep p function)
      (fun g op => StatusLaw p function g op ∧ IrqLaw p function own g op) g ops ↔
      EachStep (gpioStep p function) (fun g op => GpioOpFine p function own g op) g ops :=
    EachStep.iff_of
      (fun g op (_ : True) hin =>
        ⟨fun h => ⟨hin, statusLaw_iff.mp h.1, (irqLaw_iff hin).mp h.2⟩,
          fun h => ⟨statusLaw_iff.mpr h.levels, (irqLaw_iff hin).mpr h.func⟩⟩)
      (fun _ _ _ _ _ => trivial) trivial hin
  refine ⟨hedges, ?_, ?_⟩
  · exact eachStep_iff (fun g op (_ : True) => statusLaw_iff) (fun _ _ _ _ => trivial) trivial
  · rw [← hlaws, eachStep_and]
    exact ⟨fun h => ⟨h.status, h.irq⟩, fun h => ⟨hedges, h.1, h.2⟩⟩

/-- One read shows an edge: the one it leads to. -/
theorem edge_reported_once (hfresh : g.Fresh)
    (hin : EachStep (gpioStep p function) (fun _ op => ReadInside p op) g ops)
    {q k d t : Nat} (hq : q < 64) (hhigh : g.status.high q = false) (hlow : g.status.low q = false)
    (hedge : EdgeAt p function g ops q k) (hd : FirstAfter (HandledAt p ops) k d)
    (ht : FirstAfter (ReadAt p ops q) d t) :
    ShownAt p function g ops q t ∧
      ∀ d' t', FirstAfter (HandledAt p ops) k d' → FirstAfter (ReadAt p ops q) d' t' → t' = t := by
  refine ⟨(edgesReported_of_inside hfresh hin q hq hhigh hlow t ht.2.1).mpr ⟨k, hedge, d, hd, ht⟩, ?_⟩
  intro d' t' hd' ht'
  obtain rfl := hd'.unique hd
  exact ht'.unique ht

/-- Pin 0 is watched for rising edges, and nothing has happened yet. -/
def watchingPin0 : GpioState where
  smp := ⟨fun _ => 0, fun i => if i = 0 then 1 else 0, fun _ => 0, fun i => if i = 0 then 1 else 0,
    0, ⟨[0, 0], by decide⟩⟩
  status := ⟨List.replicate 12 0, by decide⟩

/-- With its function in the port data: an edge, its delivery and a read. -/
theorem events_reported_rising :
    EventsLaw atmegaPort (some 3) 3 watchingPin0
      [.sample fun _ => 0, .sample fun i => if i = 0 then 1 else 0,
        .handle (fun q => decide (q = 0)) fun i => if i = 0 then 1 else 0,
        .read 0 false fun i => if i = 0 then 1 else 0] := by
  have hlevels : ∀ q < 64, wordsBit (fun i => if i = 0 then 1 else 0) q = decide (q = 0) := by
    decide
  have hread : ReadInside atmegaPort (.read 0 false fun i => if i = 0 then 1 else 0) :=
    ⟨rfl, by decide⟩
  refine (events_reported atmegaPort (some 3) 3 watchingPin0 _ ?_ ?_).2.2.mpr ?_
  · unfold GpioState.Fresh
    decide
  · exact ⟨trivial, trivial, trivial, hread, trivial⟩
  · exact ⟨⟨trivial, trivial, trivial⟩, ⟨trivial, trivial, trivial⟩,
      ⟨trivial, fun _ q hq _ _ => hlevels q hq, fun _ => rfl⟩, ⟨hread, trivial, .inl rfl⟩, trivial⟩

/-- `function` of `port_data`, which the table leaves out. -/
def portDataFunction : Option Nat := none

/-- The interrupt of the edge names no function. -/
theorem irq_without_function :
    ¬∀ (p : GpioPort) (own : Nat) (g : GpioState) (ops : List GpioOp), g.Fresh →
      EventsLaw p portDataFunction own g ops := by
  intro h
  have hirq := (h atmegaPort 3 watchingPin0 [.sample fun _ => 0,
    .sample fun i => if i = 0 then 1 else 0,
    .handle (fun q => decide (q = 0)) fun i => if i = 0 then 1 else 0]
    (by unfold GpioState.Fresh; decide)).irq
  obtain ⟨-, -, ⟨hown, -⟩, -⟩ := hirq
  obtain ⟨active, htrigger, -⟩ := gpioEvtHandle_irq (p := atmegaPort) (by decide)
  cases (hown _ htrigger).1

end Runs

end Bathos.Mcuio
