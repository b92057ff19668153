import Bathos.Mcuio.GpioData

/-!
# Bathos — the GPIO set and clear registers

`__gpio_set_wr` and `__gpio_clr_wr` of `mcuio/mcuio_gpio_func.c` sample the pins of
the access, or the bits of the packet into the result and write it back. The set
passes the width and the fill flag to `__gpio_data_wr` the other way round, the clear
ors where it should mask, and the byte handlers of both are plain data writes.

Main result: `set_clear_iff` — the pin states and inputs for which the pins end up
as a set or a clear should leave them.
-/

namespace Bathos.Mcuio

open Bathos.Lib

-- ---------------------------------------------------------------------------
-- Handlers
-- ---------------------------------------------------------------------------

/-- `n` of `__gpio_set_wr` and `__gpio_clr_wr`. -/
def GpioPort.statusBits (p : GpioPort) (fill width : Nat) : Nat :=
  if fill ≠ 0 then min p.ngpio 64 else width

/-- `status[i] |= in[i]` for the bytes below `n / 8`. -/
def orStatus (status inp : Nat → UInt8) (n : Nat) : Nat → UInt8 := fun k =>
  if k < n / 8 then status k ||| inp k else status k

/-- The two functions up to their last line: `status` starts as it lies on the
stack. -/
def gpioStatusWr (have8 : Bool) (pins : Pins) (p : GpioPort) (offset : Nat)
    (stack inp : Nat → UInt8) (fill width : Nat)
    (write : (Nat → UInt8) → Option (Int × List PinWrite)) (fuel : Nat) :
    Option (Int × List PinWrite) :=
  match gpioDataRd have8 pins p offset fill width fuel with
  | none => none
  | some (ret, stores) =>
    if ret < 0 then some (-1, [])
    else write (orStatus (writeAll stack stores) inp (p.statusBits fill width))

/-- `__gpio_set_wr`. -/
def gpioSetWr (have8 : Bool) (pins : Pins) (p : GpioPort) (offset : Nat) (stack inp : Nat → UInt8)
    (fill width fuel : Nat) : Option (Int × List PinWrite) :=
  gpioStatusWr have8 pins p offset stack inp fill width
    -- `__gpio_data_wr` takes the fill flag first
    (fun status => gpioDataWr have8 p offset status width fill fuel) fuel

/-- `__gpio_clr_wr`. -/
def gpioClrWr (have8 : Bool) (pins : Pins) (p : GpioPort) (offset : Nat) (stack inp : Nat → UInt8)
    (fill width fuel : Nat) : Option (Int × List PinWrite) :=
  gpioStatusWr have8 pins p offset stack inp fill width
    (fun status => gpioDataWr have8 p offset status fill width fuel) fuel

section Members

variable (have8 : Bool) (pins : Pins) (p : GpioPort) (offset : Nat) (stack inp : Nat → UInt8)
  (fill fuel : Nat)

def gpioSetWrb : Option (Int × List PinWrite) := gpioDataWr have8 p offset inp fill 8 fuel
def gpioSetWrw : Option (Int × List PinWrite) :=
  gpioSetWr have8 pins p offset stack inp fill 16 fuel
def gpioSetWrdw : Option (Int × List PinWrite) :=
  gpioSetWr have8 pins p offset stack inp fill 32 fuel

def gpioClrWrb : Option (Int × List PinWrite) := gpioDataWr have8 p offset inp fill 8 fuel
def gpioClrWrw : Option (Int × List PinWrite) :=
  gpioClrWr have8 pins p offset stack inp fill 16 fuel
def gpioClrWrdw : Option (Int × List PinWrite) :=
  gpioClrWr have8 pins p offset stack inp fill 32 fuel

end Members

/-- `wr` of `gpio_set_ops`. -/
def gpioSet (have8 : Bool) (pins : Pins) (p : GpioPort) (offset : Nat) (stack inp : Nat → UInt8)
    (fill : Bool) : Width → Nat → Option (Int × List PinWrite)
  | .byte => gpioSetWrb have8 p offset inp (fillArg fill)
  | .word => gpioSetWrw have8 pins p offset stack inp (fillArg fill)
  | .dword => gpioSetWrdw have8 pins p offset stack inp (fillArg fill)

/-- `wr` of `gpio_clr_ops`. -/
def gpioClr (have8 : Bool) (pins : Pins) (p : GpioPort) (offset : Nat) (stack inp : Nat → UInt8)
    (fill : Bool) : Width → Nat → Option (Int × List PinWrite)
  | .byte => gpioClrWrb have8 p offset inp (fillArg fill)
  | .word => gpioClrWrw have8 pins p offset stack inp (fillArg fill)
  | .dword => gpioClrWrdw have8 pins p offset stack inp (fillArg fill)

-- ---------------------------------------------------------------------------
-- Statement
-- ---------------------------------------------------------------------------

variable {have8 fill : Bool} {pins : Pins} {p : GpioPort} {offset : Nat} {stack inp : Nat → UInt8}
  {w : Width}

/-- The addressed pins whose bit is 1 go high. -/
def setBits (inp : Nat → UInt8) (i : Nat) (old : Bool) : Bool := dataBit inp i || old

/-- The addressed pins whose bit is 1 go low. -/
def clearBits (inp : Nat → UInt8) (i : Nat) (old : Bool) : Bool := !dataBit inp i && old

/-- When a set is right. A byte drives all its eight pins to the bits of the data; a
word or a dword never ends without the fill flag, and drives nothing with it. -/
def SetFits (latch : Nat → Bool) (p : GpioPort) (offset : Nat) (inp : Nat → UInt8) (fill : Bool)
    (w : Width) : Prop :=
  (w = .byte → ∀ j < 8,
    if p.Addresses offset fill w j then latch (p.first offset + j) = true → dataBit inp j = true
    else latch (p.first offset + j) = dataBit inp j) ∧
  (w ≠ .byte → fill = true) ∧
  ∀ j, (w = .byte → 8 ≤ j) → p.Addresses offset fill w j → dataBit inp j = true →
    latch (p.first offset + j) = true

/-- The bits a word or dword clear ors into the sampled ones: not those of a byte that
the port's pins do not fill, in a fill access. -/
def clrOred (p : GpioPort) (inp : Nat → UInt8) (fill : Bool) (w : Width) (j : Nat) : Bool :=
  dataBit inp j && decide (j / 8 < p.statusBits (fillArg fill) w.bits / 8)

/-- When a clear is right. Of the pins it drives none is to be cleared, but for those
it leaves low by not oring their bits; the others are low already for a byte, and have
their own level in the data register for a word or a dword. -/
def ClrFits (pins : Pins) (p : GpioPort) (offset : Nat) (inp : Nat → UInt8) (fill : Bool)
    (w : Width) : Prop :=
  (∀ j < w.bits,
    if p.Addresses offset fill w j then
      (dataBit inp j = true →
        w ≠ .byte ∧ pins.level (p.first offset + j) = false ∧ clrOred p inp fill w j = false) ∧
      (dataBit inp j = false → pins.latch (p.first offset + j) =
        if w = .byte then false else pins.level (p.first offset + j))
    else pins.latch (p.first offset + j) =
      if w = .byte then dataBit inp j
      else pins.level (p.first offset + j) || clrOred p inp fill w j) ∧
  ∀ j, w.bits ≤ j → p.Addresses offset fill w j → dataBit inp j = true →
    pins.latch (p.first offset + j) = false

-- ---------------------------------------------------------------------------
-- What the handlers do
-- ---------------------------------------------------------------------------

theorem dataBit_orStatus (status inp : Nat → UInt8) (n j : Nat) :
    dataBit (orStatus status inp n) j =
      (dataBit status j || (dataBit inp j && decide (j / 8 < n / 8))) := by
  unfold dataBit orStatus
  split
  · rename_i hk
    simp [hk]
  · rename_i hk
    simp [hk]

/-- The sampling before a word or dword set or clear succeeds. -/
theorem gpioStatusWr_eq {write : (Nat → UInt8) → Option (Int × List PinWrite)} (fuel : Nat) :
    gpioStatusWr have8 pins p offset stack inp (fillArg fill) w.bits write fuel =
      if 2 ≤ fuel then
        write (orStatus (writeAll stack (readStores have8 pins (p.first offset) w)) inp
          (p.statusBits (fillArg fill) w.bits))
      else none := by
  unfold gpioStatusWr
  rw [gpioDataRd_eq]
  by_cases hfuel : 2 ≤ fuel
  · simp only [if_pos hfuel, if_neg (Int.not_lt.mpr (Int.natCast_nonneg _))]
  · simp only [if_neg hfuel]

theorem gpioDataWrTurn_no_width (have8 : Bool) (start : Nat) (inp : Nat → UInt8) (i : Nat) :
    gpioDataWrTurn have8 start inp 0 i = ([], none) := by
  unfold gpioDataWrTurn gpioSetPortw
  simp

theorem gpioDataWrTurn_flag (have8 : Bool) (start : Nat) (inp : Nat → UInt8) (i : Nat) :
    gpioDataWrTurn have8 start inp (fillArg true) i = ([], some (-EINVAL)) := by
  unfold gpioDataWrTurn gpioSetPortw
  simp [fillArg, fetchWidth]

/-- A set without the fill flag: the loop advances by 0. -/
theorem gpioSetWr_stuck (fuel : Nat) :
    gpioSetWr have8 pins p offset stack inp (fillArg false) w.bits fuel = none := by
  have hbits := w.bits_pos
  have hpos := p.ngpio_pos
  unfold gpioSetWr
  rw [gpioStatusWr_eq]
  split
  · unfold gpioDataWr
    have hn : 0 < p.accessBits w.bits (fillArg false) := by
      unfold GpioPort.accessBits
      rw [if_pos (by omega)]
      omega
    rw [show fillArg false = 0 from rfl] at hn ⊢
    rw [forLoop_stuck hn (gpioDataWrTurn_no_width _ _ _ _)]
    rfl
  · rfl

/-- A set with the fill flag: the width is the flag, and is refused. -/
theorem gpioSetWr_fill (fuel : Nat) :
    gpioSetWr have8 pins p offset stack inp (fillArg true) w.bits fuel =
      if 2 ≤ fuel then some (-EINVAL, []) else none := by
  have hbits := w.bits_pos
  have hpos := p.ngpio_pos
  unfold gpioSetWr
  rw [gpioStatusWr_eq]
  by_cases hfuel : 2 ≤ fuel
  · rw [if_pos hfuel, if_pos hfuel]
    have hn : 0 < p.accessBits w.bits (fillArg true) := by
      unfold GpioPort.accessBits
      rw [if_pos (by omega)]
      omega
    obtain ⟨f, rfl⟩ := Nat.exists_eq_add_of_le' (show 1 ≤ fuel by omega)
    unfold gpioDataWr
    rw [forLoop_return hn (gpioDataWrTurn_flag _ _ _ _)]
    rfl
  · rw [if_neg hfuel, if_neg hfuel]

/-- What a word or dword clear drives. -/
theorem gpioClrWr_eq (fuel : Nat) :
    gpioClrWr have8 pins p offset stack inp (fillArg fill) w.bits fuel =
      if 2 ≤ fuel then
        some (((p.accessBits (fillArg fill) w.bits : Nat) : Int),
          (List.range w.bits).map fun j =>
            (p.first offset + j, pins.level (p.first offset + j) || clrOred p inp fill w j))
      else none := by
  unfold gpioClrWr
  rw [gpioStatusWr_eq]
  by_cases hfuel : 2 ≤ fuel
  · rw [if_pos hfuel, if_pos hfuel, gpioDataWr_eq, if_pos hfuel]
    congr 2
    apply List.map_congr_left
    intro j hj
    rw [List.mem_range] at hj
    rw [dataBit_orStatus, dataBit_readStores, if_pos hj]
    rfl
  · rw [if_neg hfuel, if_neg hfuel]

-- ---------------------------------------------------------------------------
-- Conditions
-- ---------------------------------------------------------------------------

theorem drives_range_iff {run : Nat → Option (Int × List PinWrite)} {latch : Nat → Bool} {ret : Int}
    {n : Nat} {d : Nat → Bool} {g : Nat → Bool → Bool}
    (h : ∀ fuel, run fuel = if 2 ≤ fuel then
      some (ret, (List.range n).map fun j => (p.first offset + j, d j)) else none) :
    Drives run latch (p.expect offset fill w g latch) ↔
      (∀ j < n, d j = if p.Addresses offset fill w j then g j (latch (p.first offset + j))
        else latch (p.first offset + j)) ∧
      ∀ j, n ≤ j → p.Addresses offset fill w j →
        g j (latch (p.first offset + j)) = latch (p.first offset + j) := by
  unfold Drives
  rw [returns_iff h]
  exact writeAll_expect_iff

theorem setBits_eq_iff {i : Nat} {old : Bool} :
    setBits inp i old = old ↔ (dataBit inp i = true → old = true) := by
  unfold setBits
  cases dataBit inp i <;> cases old <;> decide

theorem eq_setBits_iff {i : Nat} {old : Bool} :
    dataBit inp i = setBits inp i old ↔ (old = true → dataBit inp i = true) := by
  unfold setBits
  cases dataBit inp i <;> cases old <;> decide

theorem clearBits_eq_iff {i : Nat} {old : Bool} :
    clearBits inp i old = old ↔ (dataBit inp i = true → old = false) := by
  unfold clearBits
  cases dataBit inp i <;> cases old <;> decide

/-- A byte set: every pin of the byte is driven to its bit. -/
theorem set_byte_iff :
    Drives (gpioSet have8 pins p offset stack inp fill .byte) pins.latch
        (p.expect offset fill .byte (setBits inp) pins.latch) ↔
      SetFits pins.latch p offset inp fill .byte := by
  have hrun : ∀ fuel, gpioSet have8 pins p offset stack inp fill .byte fuel = _ :=
    gpioDataWr_eq have8 p offset inp fill .byte
  rw [drives_range_iff hrun]
  unfold SetFits
  simp only [setBits_eq_iff, forall_const, ne_eq, not_true_eq_false, false_implies, true_and]
  refine and_congr (forall₂_congr fun j _ => ?_) Iff.rfl
  split
  · exact eq_setBits_iff
  · exact eq_comm

/-- A wider set drives nothing, if it ends. -/
theorem set_wide_iff (hw : w ≠ .byte) :
    Drives (gpioSetWr have8 pins p offset stack inp (fillArg fill) w.bits) pins.latch
        (p.expect offset fill w (setBits inp) pins.latch) ↔
      SetFits pins.latch p offset inp fill w := by
  unfold SetFits
  simp only [hw, false_implies, ne_eq, not_false_eq_true, true_implies, true_and]
  cases fill with
  | false =>
    unfold Drives
    simp [gpioSetWr_stuck]
  | true =>
    have hnone : ∀ fuel, gpioSetWr have8 pins p offset stack inp (fillArg true) w.bits fuel =
        if 2 ≤ fuel then some (-EINVAL, (List.range 0).map fun j => (p.first offset + j, false))
        else none := gpioSetWr_fill
    rw [drives_range_iff hnone]
    simp [setBits_eq_iff]

/-- What a clear drives. -/
theorem gpioClr_eq (fuel : Nat) :
    gpioClr have8 pins p offset stack inp fill w fuel =
      if 2 ≤ fuel then
        some (((p.accessBits (fillArg fill) w.bits : Nat) : Int),
          (List.range w.bits).map fun j => (p.first offset + j,
            if w = .byte then dataBit inp j
            else pins.level (p.first offset + j) || clrOred p inp fill w j))
      else none := by
  by_cases hw : w = .byte
  · simp only [hw, if_true]
    exact gpioDataWr_eq have8 p offset inp fill .byte fuel
  · simp only [hw, if_false]
    have hclr : gpioClr have8 pins p offset stack inp fill w fuel =
        gpioClrWr have8 pins p offset stack inp (fillArg fill) w.bits fuel := by
      cases w with
      | byte => exact absurd rfl hw
      | word => rfl
      | dword => rfl
    rw [hclr, gpioClrWr_eq]

theorem clear_iff :
    Drives (gpioClr have8 pins p offset stack inp fill w) pins.latch
        (p.expect offset fill w (clearBits inp) pins.latch) ↔
      ClrFits pins p offset inp fill w := by
  rw [drives_range_iff gpioClr_eq]
  unfold ClrFits
  simp only [clearBits_eq_iff]
  refine and_congr (forall₂_congr fun j _ => ?_) Iff.rfl
  by_cases haddr : p.Addresses offset fill w j
  · rw [if_pos haddr, if_pos haddr]
    unfold clearBits
    cases hbit : dataBit inp j with
    | true => by_cases hw : w = .byte <;> simp [hw]
    | false =>
      have hored : clrOred p inp fill w j = false := by simp [clrOred, hbit]
      rw [hored, Bool.or_false]
      exact ⟨fun h => ⟨nofun, fun _ => h.symm⟩, fun h => (h.2 rfl).symm⟩
  · rw [if_neg haddr, if_neg haddr]
    exact eq_comm

end Bathos.Mcuio
