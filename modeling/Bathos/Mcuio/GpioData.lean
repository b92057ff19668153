import Bathos.Include.Headers
import Bathos.Lib.Bytes
import Bathos.Lib.Loop
import Bathos.Lib.Memory

/-!
# Bathos — the GPIO data register

`mcuio/mcuio_gpio_func.c`: a port is a mcuio function with up to 64 pins. An access
to its data register drives or samples the pins eight times the offset away from
the first one, by `__gpio_set_portw` and `__gpio_get_portw` of `bathos/gpio.h`
where the machine can handle a whole port at once, else pin by pin.

The pin functions are those of the ATmega (`arch-atmega/arch/gpio.h`), with any
number of pins and with or without `HAVE_GPIO_PORT_8`; no machine has wider
ports. A handler gives the pins it drives, or the bytes it stores, in order.

Main results:

* `gpioDataWr_eq`, `gpioDataRd_eq` — every access makes one turn of its loop;
* `dataWrites_iff`, `dataReads_iff` — the accesses that are right about the pins
  of the port and leave everything else alone.
-/

namespace Bathos.Mcuio

open Bathos.Lib

-- ---------------------------------------------------------------------------
-- Pins and ports
-- ---------------------------------------------------------------------------

/-- The pins of a machine: the data and direction registers, and the level put on
an input from outside. -/
structure Pins where
  latch : Nat → Bool
  output : Nat → Bool
  ext : Nat → Bool

/-- `gpio_get`. -/
def Pins.level (pins : Pins) (gpio : Nat) : Bool :=
  if pins.output gpio then pins.latch gpio else pins.ext gpio

/-- `struct mcuio_gpio_port_data` as the table of a port sets it up: 64 pin numbers
a port, of which the first `ngpio` exist. -/
structure GpioPort where
  index : Nat
  ngpio : Nat
  ngpio_pos : 0 < ngpio
  ngpio_le : ngpio ≤ 64

def GpioPort.gpioStart (p : GpioPort) : Nat := 64 * p.index

def GpioPort.gpioEnd (p : GpioPort) : Nat := 64 * p.index + p.ngpio - 1

/-- The pins of a port. -/
def GpioPort.HasPin (p : GpioPort) (gpio : Nat) : Prop := p.gpioStart ≤ gpio ∧ gpio ≤ p.gpioEnd

/-- The widths the handlers are written for. -/
inductive Width where
  | byte | word | dword
deriving DecidableEq, Repr

def Width.bits : Width → Nat
  | .byte => 8
  | .word => 16
  | .dword => 32

/-- `mcuio_packet_is_fill_data`, as the `int` the handlers take. -/
def fillArg (fill : Bool) : Nat := if fill then 1 <<< 7 else 0

/-- A pin is driven. -/
abbrev PinWrite := Nat × Bool

/-- A byte is stored behind a pointer. -/
abbrev ByteStore := Nat × UInt8

/-- The bytes of a store at `pos`. -/
def storeBytes (pos : Nat) (bytes : List UInt8) : List ByteStore :=
  (List.range bytes.length).map fun k => (pos + k, bytes.getD k 0)

/-- Bit `i` of the data of a packet. -/
def dataBit (data : Nat → UInt8) (i : Nat) : Bool := (data (i / 8)).toBitVec.getLsbD (i % 8)

-- ---------------------------------------------------------------------------
-- bathos/gpio.h
-- ---------------------------------------------------------------------------

/-- `__gpio_set_portw` with the value at `pos`; `none` is a negative value. -/
def gpioSetPortw (have8 : Bool) (gpio : Nat) (inp : Nat → UInt8) (pos w : Nat) :
    Option (List PinWrite) :=
  if w = 8 ∧ have8 = true ∧ gpio % 8 = 0 then
    some ((List.range 8).map fun j => (gpio + j, (inp pos).toBitVec.getLsbD j))
  else none

/-- `__gpio_get_port8`: a port read at once, or an error squeezed into a byte. -/
def gpioGetPort8 (have8 : Bool) (pins : Pins) (gpio : Nat) : UInt8 :=
  if have8 then
    if gpio % 8 = 0 then
      (List.range 8).foldl (fun v j => v ||| (if pins.level (gpio + j) then 1 else 0) <<<
        (UInt8.ofNat j)) 0
    else UInt8.ofBitVec (BitVec.ofInt 8 (-EINVAL))
  else UInt8.ofBitVec (BitVec.ofInt 8 (-ENOSYS))

/-- `__gpio_get_portw`: the cases fall through, so that `__gpio_get_port32` stores
`-ENOSYS` last. The value is `-ENOSYS` too. -/
def gpioGetPortw (have8 : Bool) (pins : Pins) (gpio pos w : Nat) : List ByteStore :=
  let port32 := storeBytes pos (toBytes 4 (BitVec.ofInt 32 (-ENOSYS)))
  let port16 := storeBytes pos (toBytes 2 (BitVec.ofInt 16 (-ENOSYS)))
  match w with
  | 8 => storeBytes pos [gpioGetPort8 have8 pins gpio] ++ port16 ++ port32
  | 16 => port16 ++ port32
  | 32 => port32
  | _ => []

-- ---------------------------------------------------------------------------
-- The loops
-- ---------------------------------------------------------------------------

/-- `*((uint8_t *)__in + i/8)` and its siblings; another width is `-EINVAL`. -/
def fetchWidth (inp : Nat → UInt8) (width i : Nat) : Option (BitVec 32) :=
  match width with
  | 8 => some (ofBytes 32 (block inp (i / 8) 1))
  | 16 => some (ofBytes 32 (block inp (2 * (i / 16)) 2))
  | 32 => some (ofBytes 32 (block inp (4 * (i / 32)) 4))
  | _ => none

/-- The first pin of an access. -/
def GpioPort.first (p : GpioPort) (offset : Nat) : Nat := p.gpioStart + offset * 8

/-- `n`, the bits an access is about. -/
def GpioPort.accessBits (p : GpioPort) (fill width : Nat) : Nat :=
  if fill ≠ 0 then min p.ngpio 8 else width

/-- One turn of `__gpio_data_wr`. -/
def gpioDataWrTurn (have8 : Bool) (start : Nat) (inp : Nat → UInt8) (width i : Nat) :
    List PinWrite × Option Int :=
  match gpioSetPortw have8 (start + i) inp (i / 8) width with
  | some writes => (writes, none)
  | none =>
    -- fall back to slow implementation, which has no turn for a width of 0
    if width = 0 then ([], none)
    else
      match fetchWidth inp width i with
      | none => ([], some (-EINVAL))
      | some v => ((List.range width).map fun j => (i + start + j, v.getLsbD j), none)

/-- `__gpio_data_wr`: what it returns and the pins it drives, `none` when its loop
has not ended after `fuel` tests. -/
def gpioDataWr (have8 : Bool) (p : GpioPort) (offset : Nat) (inp : Nat → UInt8) (fill width : Nat)
    (fuel : Nat) : Option (Int × List PinWrite) :=
  (forLoop (gpioDataWrTurn have8 (p.first offset) inp width) (p.accessBits fill width) width
    fuel 0).map fun res => (res.2.getD (p.accessBits fill width), res.1)

/-- The pins of an access, sampled one by one. -/
def samplePins (pins : Pins) (start width : Nat) : BitVec 32 :=
  (List.range width).foldl (fun p j => p ||| (if pins.level (start + j) then 1#32 else 0#32) <<< j) 0

/-- One turn of `__gpio_data_rd`. -/
def gpioDataRdTurn (have8 : Bool) (pins : Pins) (start width i : Nat) :
    List ByteStore × Option Int :=
  let port := gpioGetPortw have8 pins (start + i) (i / 8) width
  -- `__gpio_get_portw` never succeeds
  let p := samplePins pins (i + start) width
  match width with
  | 8 => (port ++ storeBytes (i / 8) (toBytes 1 p), none)
  | 16 => (port ++ storeBytes (2 * (i / 16)) (toBytes 2 p), none)
  | 32 => (port ++ storeBytes (4 * (i / 32)) (toBytes 4 p), none)
  | _ => (port, some (-EINVAL))

/-- `__gpio_data_rd`: what it returns and the bytes it stores from `out` on. -/
def gpioDataRd (have8 : Bool) (pins : Pins) (p : GpioPort) (offset fill width : Nat) (fuel : Nat) :
    Option (Int × List ByteStore) :=
  (forLoop (gpioDataRdTurn have8 pins (p.first offset) width) (p.accessBits fill width) width
    fuel 0).map fun res => (res.2.getD (p.accessBits fill width), res.1)

section Members

variable (have8 : Bool) (pins : Pins) (p : GpioPort) (offset : Nat) (inp : Nat → UInt8)
  (fill fuel : Nat)

def gpioDataWrb : Option (Int × List PinWrite) := gpioDataWr have8 p offset inp fill 8 fuel
def gpioDataWrw : Option (Int × List PinWrite) := gpioDataWr have8 p offset inp fill 16 fuel
def gpioDataWrdw : Option (Int × List PinWrite) := gpioDataWr have8 p offset inp fill 32 fuel

def gpioDataRdb : Option (Int × List ByteStore) := gpioDataRd have8 pins p offset fill 8 fuel
def gpioDataRdw : Option (Int × List ByteStore) := gpioDataRd have8 pins p offset fill 16 fuel
def gpioDataRddw : Option (Int × List ByteStore) := gpioDataRd have8 pins p offset fill 32 fuel

/-- `wr` of `gpio_data_ops`. -/
def gpioDataOpsWr : Width → Option (Int × List PinWrite)
  | .byte => gpioDataWrb have8 p offset inp fill fuel
  | .word => gpioDataWrw have8 p offset inp fill fuel
  | .dword => gpioDataWrdw have8 p offset inp fill fuel

/-- `rd` of `gpio_data_ops`. -/
def gpioDataOpsRd : Width → Option (Int × List ByteStore)
  | .byte => gpioDataRdb have8 pins p offset fill fuel
  | .word => gpioDataRdw have8 pins p offset fill fuel
  | .dword => gpioDataRddw have8 pins p offset fill fuel

theorem gpioDataOpsWr_eq (w : Width) :
    gpioDataOpsWr have8 p offset inp fill fuel w = gpioDataWr have8 p offset inp fill w.bits fuel := by
  cases w <;> rfl

theorem gpioDataOpsRd_eq (w : Width) :
    gpioDataOpsRd have8 pins p offset fill fuel w =
      gpioDataRd have8 pins p offset fill w.bits fuel := by
  cases w <;> rfl

end Members

-- ---------------------------------------------------------------------------
-- Statement
-- ---------------------------------------------------------------------------

/-- Bit `i` of an access stands for a pin of the port. A fill access covers the pins
up to the end of the port. -/
def GpioPort.Addresses (p : GpioPort) (offset : Nat) (fill : Bool) (w : Width) (i : Nat) : Prop :=
  i < (if fill then 64 else w.bits) ∧ p.HasPin (p.first offset + i)

instance (p : GpioPort) (gpio : Nat) : Decidable (p.HasPin gpio) :=
  inferInstanceAs (Decidable (_ ∧ _))

instance (p : GpioPort) (offset : Nat) (fill : Bool) (w : Width) (i : Nat) :
    Decidable (p.Addresses offset fill w i) := inferInstanceAs (Decidable (_ ∧ _))

/-- What the pins should be driven to: `g i` of its old value for the pin of bit `i`,
its old value for every other pin. -/
def GpioPort.expect (p : GpioPort) (offset : Nat) (fill : Bool) (w : Width)
    (g : Nat → Bool → Bool) (latch : Nat → Bool) (q : Nat) : Bool :=
  if p.first offset ≤ q ∧ p.Addresses offset fill w (q - p.first offset) then
    g (q - p.first offset) (latch q)
  else latch q

/-- A write ends and leaves the data register as expected. -/
def Drives (run : Nat → Option (Int × List PinWrite)) (latch expected : Nat → Bool) : Prop :=
  ∃ fuel res, run fuel = some res ∧ ∀ q, writeAll latch res.2 q = expected q

/-- A data write gives the pins of the access its bits, and touches no other pin. -/
def DataWrites (have8 : Bool) (p : GpioPort) (latch : Nat → Bool) (offset : Nat)
    (inp : Nat → UInt8) (fill : Bool) (w : Width) : Prop :=
  ∃ fuel res, gpioDataOpsWr have8 p offset inp (fillArg fill) fuel w = some res ∧
    (∀ q, writeAll latch res.2 q = p.expect offset fill w (fun i _ => dataBit inp i) latch q) ∧
    ∀ x ∈ res.2, p.HasPin x.1

/-- A data read answers with the levels of the pins, stores nothing outside the bytes
of the access, and answers alike with and without fast port access. -/
def DataReads (pins : Pins) (p : GpioPort) (offset : Nat) (out : Nat → UInt8) (fill : Bool)
    (w : Width) : Prop :=
  ∃ fuel, ∃ res : Bool → Int × List ByteStore,
    (∀ have8, gpioDataOpsRd have8 pins p offset (fillArg fill) fuel w = some (res have8)) ∧
    writeAll out (res true).2 = writeAll out (res false).2 ∧
    ∀ have8, (∀ i, p.Addresses offset fill w i →
        dataBit (writeAll out (res have8).2) i = pins.level (p.first offset + i)) ∧
      ∀ x ∈ (res have8).2, x.1 < if fill then 8 else w.bits / 8

-- ---------------------------------------------------------------------------
-- One turn
-- ---------------------------------------------------------------------------

section Turn

variable {have8 fill : Bool} {p : GpioPort} {pins : Pins} {offset : Nat} {inp out : Nat → UInt8}
  {w : Width}

theorem Width.bits_pos (w : Width) : 8 ≤ w.bits := by cases w <;> decide

theorem Width.bits_le (w : Width) : w.bits ≤ 32 := by cases w <;> decide

theorem GpioPort.hasPin_iff {i : Nat} :
    p.HasPin (p.first offset + i) ↔ offset * 8 + i < p.ngpio := by
  have hpos := p.ngpio_pos
  unfold GpioPort.HasPin GpioPort.first GpioPort.gpioStart GpioPort.gpioEnd
  omega

/-- Every access is about one width of pins at most. -/
theorem accessBits_bounds (p : GpioPort) (fill : Bool) (w : Width) :
    0 < p.accessBits (fillArg fill) w.bits ∧ p.accessBits (fillArg fill) w.bits ≤ 0 + w.bits := by
  have hpos := p.ngpio_pos
  have hbits := w.bits_pos
  unfold GpioPort.accessBits
  split <;> omega

/-- The bits of the bytes at a pointer. -/
theorem ofBytes_block_getLsbD (mem : Nat → UInt8) {n j : Nat} (hj : j < 8 * n) (h32 : j < 32) :
    (ofBytes 32 (block mem 0 n)).getLsbD j = dataBit mem j := by
  rw [ofBytes_getLsbD _ h32]
  unfold dataBit block
  rw [List.getD_eq_getElem?_getD, List.getElem?_map, List.getElem?_range (by omega)]
  simp

theorem fetchWidth_zero (inp : Nat → UInt8) (w : Width) :
    fetchWidth inp w.bits 0 = some (ofBytes 32 (block inp 0 (w.bits / 8))) := by
  cases w <;> rfl

/-- The one turn of a write drives the pins one width has, with or without the fast
access. -/
theorem gpioDataWrTurn_zero (have8 : Bool) (start : Nat) (inp : Nat → UInt8) (w : Width) :
    gpioDataWrTurn have8 start inp w.bits 0 =
      ((List.range w.bits).map fun j => (start + j, dataBit inp j), none) := by
  have hbits := w.bits_pos
  have hle := w.bits_le
  have hword : ∀ j < w.bits, (ofBytes 32 (block inp 0 (w.bits / 8))).getLsbD j = dataBit inp j := by
    intro j hj
    exact ofBytes_block_getLsbD inp (by cases w <;> simp only [Width.bits] at hj ⊢ <;> omega) (by omega)
  unfold gpioDataWrTurn gpioSetPortw
  by_cases hfast : w.bits = 8 ∧ have8 = true ∧ (start + 0) % 8 = 0
  · rw [if_pos hfast, hfast.1]
    simp only [Prod.mk.injEq, and_true]
    apply List.map_congr_left
    intro j hj
    rw [List.mem_range] at hj
    unfold dataBit
    rw [Nat.div_eq_of_lt hj, Nat.mod_eq_of_lt hj, Nat.add_zero, Nat.zero_div]
  · rw [if_neg hfast]
    simp only [if_neg (show w.bits ≠ 0 by omega), fetchWidth_zero, Prod.mk.injEq, and_true]
    apply List.map_congr_left
    intro j hj
    rw [hword j (List.mem_range.mp hj), Nat.zero_add]

/-- **Data write.** The loop makes one turn, whatever the port and the fill flag. -/
theorem gpioDataWr_eq (have8 : Bool) (p : GpioPort) (offset : Nat) (inp : Nat → UInt8) (fill : Bool)
    (w : Width) (fuel : Nat) :
    gpioDataWr have8 p offset inp (fillArg fill) w.bits fuel =
      if 2 ≤ fuel then
        some (((p.accessBits (fillArg fill) w.bits : Nat) : Int),
          (List.range w.bits).map fun j => (p.first offset + j, dataBit inp j))
      else none := by
  obtain ⟨hpos, hle⟩ := accessBits_bounds p fill w
  unfold gpioDataWr
  simp only [forLoop_once hpos hle (gpioDataWrTurn_zero have8 (p.first offset) inp w)]
  split <;> rfl

/-- The sampled word, bit by bit. By induction on the number of pins. -/
theorem samplePins_getLsbD (pins : Pins) (start : Nat) {width k : Nat} (hw : width ≤ 32) :
    (samplePins pins start width).getLsbD k = (decide (k < width) && pins.level (start + k)) := by
  unfold samplePins
  induction width with
  | zero => simp
  | succ width ih =>
    rw [List.range_succ, List.foldl_append]
    simp only [List.foldl_cons, List.foldl_nil, BitVec.getLsbD_or, ih (by omega),
      BitVec.getLsbD_shiftLeft]
    by_cases hk : k = width
    · subst hk
      cases pins.level (start + k) <;> simp [show k < 32 by omega]
    · rcases Nat.lt_or_ge k width with hlt | hge
      · simp [hlt, show k < width + 1 by omega]
      · have hzero : k - width ≠ 0 := by omega
        cases pins.level (start + width) <;>
          simp [show ¬k < width by omega, show ¬k < width + 1 by omega, hzero, BitVec.getLsbD_one]

theorem writeAll_storeBytes (f : Nat → UInt8) (pos : Nat) (bytes : List UInt8) (k : Nat) :
    writeAll f (storeBytes pos bytes) k =
      if pos ≤ k ∧ k < pos + bytes.length then bytes.getD (k - pos) 0 else f k :=
  writeAll_range f pos bytes.length (fun k => bytes.getD k 0) k

/-- What a read of the whole port leaves: `-ENOSYS` in four bytes, on every machine. -/
theorem writeAll_getPortw (have8 : Bool) (pins : Pins) (gpio : Nat) (out : Nat → UInt8) (w : Width)
    (k : Nat) :
    writeAll out (gpioGetPortw have8 pins gpio 0 w.bits) k =
      if k < 4 then (toBytes 4 (BitVec.ofInt 32 (-ENOSYS))).getD k 0 else out k := by
  have hlast : ∀ (f : Nat → UInt8) (first : List ByteStore), (¬k < 4 → writeAll f first k = f k) →
      writeAll f (first ++ storeBytes 0 (toBytes 4 (BitVec.ofInt 32 (-ENOSYS)))) k =
        if k < 4 then (toBytes 4 (BitVec.ofInt 32 (-ENOSYS))).getD k 0 else f k := by
    intro f first hfirst
    rw [writeAll_append, writeAll_storeBytes, toBytes_length, Nat.zero_add, Nat.sub_zero]
    simp only [Nat.zero_le, true_and]
    split
    · rfl
    · rename_i hk
      exact hfirst hk
  cases w with
  | byte =>
    refine hlast out _ fun hk => ?_
    rw [writeAll_append, writeAll_storeBytes, if_neg (by rw [toBytes_length]; omega),
      writeAll_storeBytes, if_neg (by rw [List.length_singleton]; omega)]
  | word =>
    refine hlast out _ fun hk => ?_
    rw [writeAll_storeBytes, if_neg (by rw [toBytes_length]; omega)]
  | dword => exact hlast out [] fun _ => rfl

/-- The bytes one turn of a read stores. -/
def readStores (have8 : Bool) (pins : Pins) (start : Nat) (w : Width) : List ByteStore :=
  gpioGetPortw have8 pins start 0 w.bits ++
    storeBytes 0 (toBytes (w.bits / 8) (samplePins pins start w.bits))

theorem gpioDataRdTurn_zero (have8 : Bool) (pins : Pins) (start : Nat) (w : Width) :
    gpioDataRdTurn have8 pins start w.bits 0 = (readStores have8 pins start w, none) := by
  unfold gpioDataRdTurn readStores
  rw [Nat.zero_add]
  cases w <;> rfl

/-- **Data read.** -/
theorem gpioDataRd_eq (have8 : Bool) (pins : Pins) (p : GpioPort) (offset : Nat) (fill : Bool)
    (w : Width) (fuel : Nat) :
    gpioDataRd have8 pins p offset (fillArg fill) w.bits fuel =
      if 2 ≤ fuel then
        some (((p.accessBits (fillArg fill) w.bits : Nat) : Int),
          readStores have8 pins (p.first offset) w)
      else none := by
  obtain ⟨hpos, hle⟩ := accessBits_bounds p fill w
  unfold gpioDataRd
  simp only [forLoop_once hpos hle (gpioDataRdTurn_zero have8 pins (p.first offset) w)]
  split <;> rfl

/-- The answer of a read: the levels, ones up to bit 31, and what was there before. -/
theorem dataBit_readStores (have8 : Bool) (pins : Pins) (start : Nat) (out : Nat → UInt8)
    (w : Width) (i : Nat) :
    dataBit (writeAll out (readStores have8 pins start w)) i =
      if i < w.bits then pins.level (start + i) else if i < 32 then true else dataBit out i := by
  have hbits := w.bits_pos
  have hle := w.bits_le
  have h8 : 8 * (w.bits / 8) = w.bits := by cases w <;> rfl
  have hmod : i % 8 < 8 := Nat.mod_lt i (by decide)
  have hi : 8 * (i / 8) + i % 8 = i := Nat.div_add_mod i 8
  unfold dataBit readStores
  rw [writeAll_append, writeAll_storeBytes, toBytes_length]
  simp only [Nat.zero_le, true_and, Nat.zero_add, Nat.sub_zero]
  by_cases hlow : i < w.bits
  · rw [if_pos (by omega), if_pos hlow, toBytes_getElem _ (by omega) hmod, hi,
      samplePins_getLsbD _ _ hle]
    simp [hlow]
  · rw [if_neg (by omega), if_neg hlow, writeAll_getPortw]
    by_cases h32 : i < 32
    · have hones : ∀ k < 32, 8 ≤ k → (BitVec.ofInt 32 (-ENOSYS)).getLsbD k = true := by decide
      rw [if_pos (by omega), if_pos h32, toBytes_getElem _ (by omega) hmod, hi]
      exact hones i h32 (by omega)
    · rw [if_neg (by omega), if_neg h32]

/-- The answer is the same with and without fast port access. -/
theorem writeAll_readStores_congr (pins : Pins) (start : Nat) (out : Nat → UInt8) (w : Width)
    (have8 have8' : Bool) :
    writeAll out (readStores have8 pins start w) = writeAll out (readStores have8' pins start w) := by
  funext k
  unfold readStores
  rw [writeAll_append, writeAll_append, writeAll_storeBytes, writeAll_storeBytes, writeAll_getPortw,
    writeAll_getPortw]

/-- Four bytes are stored at least. -/
theorem readStores_lt_iff (have8 : Bool) (pins : Pins) (start : Nat) (w : Width) {m : Nat} :
    (∀ x ∈ readStores have8 pins start w, x.1 < m) ↔ 4 ≤ m := by
  have hstore : ∀ bytes : List UInt8, (∀ x ∈ storeBytes 0 bytes, x.1 < m) ↔ bytes.length ≤ m := by
    intro bytes
    simp only [storeBytes, List.mem_map, List.mem_range]
    constructor
    · intro h
      by_contra hlt
      have hm := h (0 + m, bytes.getD m 0) ⟨m, by omega, rfl⟩
      simp at hm
    · rintro h x ⟨k, hk, rfl⟩
      show 0 + k < m
      omega
  unfold readStores
  cases w <;>
    simp only [Width.bits, gpioGetPortw, List.forall_mem_append, hstore, toBytes_length,
      List.length_singleton] <;> omega

end Turn

-- ---------------------------------------------------------------------------
-- Writes
-- ---------------------------------------------------------------------------

section Results

variable {p : GpioPort} {offset : Nat} {fill : Bool} {w : Width} {latch : Nat → Bool}
  {g : Nat → Bool → Bool}

theorem GpioPort.expect_first (j : Nat) :
    p.expect offset fill w g latch (p.first offset + j) =
      if p.Addresses offset fill w j then g j (latch (p.first offset + j))
      else latch (p.first offset + j) := by
  unfold GpioPort.expect
  simp only [Nat.le_add_right, true_and, Nat.add_sub_cancel_left]

/-- When driving `n` pins in a row is what is expected: bit by bit, and no bit behind
them asks for a change. -/
theorem writeAll_expect_iff {n : Nat} {d : Nat → Bool} :
    (∀ q, writeAll latch ((List.range n).map fun j => (p.first offset + j, d j)) q =
        p.expect offset fill w g latch q) ↔
      (∀ j < n, d j = if p.Addresses offset fill w j then g j (latch (p.first offset + j))
        else latch (p.first offset + j)) ∧
      ∀ j, n ≤ j → p.Addresses offset fill w j →
        g j (latch (p.first offset + j)) = latch (p.first offset + j) := by
  rw [writeAll_range_iff]
  simp only [GpioPort.expect_first]
  refine and_congr_right fun _ => ?_
  constructor
  · intro h j hj haddr
    have hcell := h (p.first offset + j) (by omega)
    rw [GpioPort.expect_first, if_pos haddr] at hcell
    exact hcell.symm
  · intro h q hq
    by_cases hbefore : q < p.first offset
    · unfold GpioPort.expect
      rw [if_neg (fun h => absurd h.1 (Nat.not_le.mpr hbefore))]
    · obtain ⟨j, rfl⟩ := Nat.exists_eq_add_of_le (Nat.not_lt.mp hbefore)
      rw [GpioPort.expect_first]
      split
      · rename_i haddr
        exact (h j (by omega) haddr).symm
      · rfl

/-- **Data write.** Right exactly when the port has all the pins of one width from the
offset on, and the pins behind them that a fill access covers have the level
already. -/
theorem dataWrites_iff (have8 : Bool) (p : GpioPort) (latch : Nat → Bool) (offset : Nat)
    (inp : Nat → UInt8) (fill : Bool) (w : Width) :
    DataWrites have8 p latch offset inp fill w ↔
      (offset * 8 + w.bits ≤ p.ngpio ∧ ∀ j, w.bits ≤ j → p.Addresses offset fill w j →
        latch (p.first offset + j) = dataBit inp j) := by
  have hbits := w.bits_pos
  have hle := w.bits_le
  unfold DataWrites
  simp only [gpioDataOpsWr_eq]
  rw [returns_iff (gpioDataWr_eq have8 p offset inp fill w), writeAll_expect_iff]
  simp only [List.mem_map, List.mem_range]
  constructor
  · rintro ⟨⟨-, hrest⟩, htouch⟩
    have hlast := htouch (p.first offset + (w.bits - 1), dataBit inp (w.bits - 1))
      ⟨w.bits - 1, by omega, rfl⟩
    rw [GpioPort.hasPin_iff] at hlast
    exact ⟨by omega, fun j hj haddr => (hrest j hj haddr).symm⟩
  · rintro ⟨hfits, hrest⟩
    refine ⟨⟨fun j hj => ?_, fun j hj haddr => (hrest j hj haddr).symm⟩, ?_⟩
    · rw [if_pos]
      exact ⟨by split <;> omega, GpioPort.hasPin_iff.mpr (by omega)⟩
    · rintro x ⟨j, hj, rfl⟩
      exact GpioPort.hasPin_iff.mpr (by omega)

/-- **Data read.** Right exactly when the access is as wide as the four bytes that
are stored anyway or has the fill flag, and the pins behind the first width that a
fill access covers happen to have the level that `-ENOSYS` and the old data show. -/
theorem dataReads_iff (pins : Pins) (p : GpioPort) (offset : Nat) (out : Nat → UInt8) (fill : Bool)
    (w : Width) :
    DataReads pins p offset out fill w ↔
      ((fill = false → w = .dword) ∧ ∀ i, w.bits ≤ i → p.Addresses offset fill w i →
        pins.level (p.first offset + i) = if i < 32 then true else dataBit out i) := by
  have hwidth : (4 ≤ if fill then 8 else w.bits / 8) ↔ (fill = false → w = .dword) := by
    cases fill <;> cases w <;> decide
  have hbit : ∀ have8, (∀ i, p.Addresses offset fill w i →
        dataBit (writeAll out (readStores have8 pins (p.first offset) w)) i =
          pins.level (p.first offset + i)) ↔
      ∀ i, w.bits ≤ i → p.Addresses offset fill w i →
        pins.level (p.first offset + i) = if i < 32 then true else dataBit out i := by
    intro have8
    simp only [dataBit_readStores]
    constructor
    · intro h i hi haddr
      have hans := h i haddr
      rw [if_neg (Nat.not_lt.mpr hi)] at hans
      exact hans.symm
    · intro h i haddr
      split
      · rfl
      · rename_i hi
        exact (h i (Nat.not_lt.mp hi) haddr).symm
  unfold DataReads
  simp only [gpioDataOpsRd_eq]
  constructor
  · rintro ⟨fuel, res, hrun, -, h⟩
    have hres : (res true).2 = readStores true pins (p.first offset) w := by
      have hfuel := hrun true
      rw [gpioDataRd_eq] at hfuel
      split at hfuel
      · rw [← Option.some.inj hfuel]
      · cases hfuel
    have hans := h true
    rw [hres, hbit, readStores_lt_iff, hwidth] at hans
    exact ⟨hans.2, hans.1⟩
  · rintro ⟨hw, hlevels⟩
    refine ⟨2, fun have8 => (((p.accessBits (fillArg fill) w.bits : Nat) : Int),
      readStores have8 pins (p.first offset) w), fun have8 => ?_, ?_, fun have8 => ⟨?_, ?_⟩⟩
    · rw [gpioDataRd_eq, if_pos le_rfl]
    · exact writeAll_readStores_congr _ _ _ _ _ _
    · exact (hbit have8).mpr hlevels
    · exact (readStores_lt_iff _ _ _ _).mpr (hwidth.mpr hw)

/-- The 40 pin numbers of an ATmega32U4. -/
def atmegaPort : GpioPort := ⟨0, 40, by decide, by decide⟩

end Results

end Bathos.Mcuio
