import Bathos.Mcuio.GpioData

/-!
# Bathos — the GPIO modes

`__gpio_modes_wr` and `__gpio_modes_rd` of `mcuio/mcuio_gpio_func.c`: a byte for each
pin, one of the directions or none. The write checks a byte when its turn comes,
after the pins before it have been set; the read takes the width for the number of
its bytes, and one byte for a fill access.

Main results:

* `modesWrGo_eq` — the loop of the write sets the pins before the first conflict;
* `gpio_modes_never` — no access satisfies all that is asked of the two functions,
  and which ones satisfy which part.
-/

namespace Bathos.Mcuio

open Bathos.Lib

-- ---------------------------------------------------------------------------
-- Handlers
-- ---------------------------------------------------------------------------

/-- `1 << 0`. -/
def INPUT : UInt8 := 0x01

/-- `1 << 1`. -/
def OUTPUT : UInt8 := 0x02

/-- `in & OUTPUT`, as a truth value. -/
def asksOutput (mode : UInt8) : Bool := decide (mode &&& OUTPUT ≠ 0)

/-- Both directions in one byte. -/
def modeConflict (mode : UInt8) : Bool := decide (mode &&& (INPUT ||| OUTPUT) = INPUT ||| OUTPUT)

/-- `gpio_dir_af` with the only function it supports, `gpio_to_af(gpio)`. -/
def gpioDirAf (pins : Pins) (gpio : Nat) (output value : Bool) : Pins :=
  { pins with
    latch := Function.update pins.latch gpio value
    output := Function.update pins.output gpio output }

/-- The loop of `__gpio_modes_wr` over the bytes `is`: the error it ends with, and the
pins it leaves. -/
def modesWrGo (start : Nat) (inp : Nat → UInt8) : List Nat → Pins → Option Int × Pins
  | [], pins => (none, pins)
  | i :: is, pins =>
    if modeConflict (inp i) then (some (-EINVAL), pins)
    else
      modesWrGo start inp is
        (gpioDirAf pins (start + i) (asksOutput (inp i)) (pins.level (start + i)))

/-- `start` of both functions. -/
def GpioPort.bytePin (p : GpioPort) (offset : Nat) : Nat := p.gpioStart + offset

/-- `n` of `__gpio_modes_wr`. -/
def GpioPort.modesWrCount (p : GpioPort) (fill width : Nat) : Nat :=
  if fill ≠ 0 then min p.ngpio 8 else width / 8

/-- `n` of `__gpio_modes_rd`: `width`, or `min(ngpio, sizeof(uint64_t)/8)`. -/
def GpioPort.modesRdCount (p : GpioPort) (fill width : Nat) : Nat :=
  if fill ≠ 0 then min p.ngpio (8 / 8) else width

/-- `__gpio_modes_wr`. -/
def gpioModesWr (p : GpioPort) (offset : Nat) (inp : Nat → UInt8) (fill width : Nat) (pins : Pins) :
    Int × Pins :=
  let n := p.modesWrCount fill width
  let (err, pins) := modesWrGo (p.bytePin offset) inp (List.range n) pins
  (err.getD n, pins)

/-- `__gpio_modes_rd`: what it returns and the bytes it stores from `out` on. -/
def gpioModesRd (p : GpioPort) (offset fill width : Nat) (pins : Pins) : Int × List ByteStore :=
  let n := p.modesRdCount fill width
  (n, (List.range n).map fun i =>
    (0 + i, if pins.output (p.bytePin offset + i) then OUTPUT else INPUT))

section Members

variable (p : GpioPort) (offset : Nat) (inp : Nat → UInt8) (fill : Nat) (pins : Pins)

def gpioModesWrb : Int × Pins := gpioModesWr p offset inp fill 8 pins
def gpioModesWrw : Int × Pins := gpioModesWr p offset inp fill 16 pins
def gpioModesWrdw : Int × Pins := gpioModesWr p offset inp fill 32 pins

def gpioModesRdb : Int × List ByteStore := gpioModesRd p offset fill 8 pins
def gpioModesRdw : Int × List ByteStore := gpioModesRd p offset fill 16 pins
def gpioModesRddw : Int × List ByteStore := gpioModesRd p offset fill 32 pins

/-- `wr` of `gpio_modes_ops`. -/
def gpioModesOpsWr : Width → Int × Pins
  | .byte => gpioModesWrb p offset inp fill pins
  | .word => gpioModesWrw p offset inp fill pins
  | .dword => gpioModesWrdw p offset inp fill pins

/-- `rd` of `gpio_modes_ops`. -/
def gpioModesOpsRd : Width → Int × List ByteStore
  | .byte => gpioModesRdb p offset fill pins
  | .word => gpioModesRdw p offset fill pins
  | .dword => gpioModesRddw p offset fill pins

theorem gpioModesOpsWr_eq (w : Width) :
    gpioModesOpsWr p offset inp fill pins w = gpioModesWr p offset inp fill w.bits pins := by
  cases w <;> rfl

theorem gpioModesOpsRd_eq (w : Width) :
    gpioModesOpsRd p offset fill pins w = gpioModesRd p offset fill w.bits pins := by
  cases w <;> rfl

end Members

-- ---------------------------------------------------------------------------
-- Statement
-- ---------------------------------------------------------------------------

/-- Byte `i` of an access stands for a pin of the port. -/
def GpioPort.AddressesByte (p : GpioPort) (offset : Nat) (fill : Bool) (w : Width) (i : Nat) :
    Prop :=
  i < (if fill then 8 else w.bits / 8) ∧ p.HasPin (p.bytePin offset + i)

instance (p : GpioPort) (offset : Nat) (fill : Bool) (w : Width) (i : Nat) :
    Decidable (p.AddressesByte offset fill w i) := inferInstanceAs (Decidable (_ ∧ _))

/-- The direction a byte asks for, as a read shows it. -/
def modeShown (mode : UInt8) : UInt8 := if asksOutput mode then OUTPUT else INPUT

section Statement

variable (p : GpioPort) (offset : Nat) (inp out : Nat → UInt8) (fill : Bool) (w : Width)
  (pins : Pins)

/-- A conflict in a byte of the access makes the write fail with no direction
changed. -/
def ModesAtomic : Prop :=
  (∃ i, p.AddressesByte offset fill w i ∧ modeConflict (inp i) = true) →
    (gpioModesOpsWr p offset inp (fillArg fill) pins w).1 = -EINVAL ∧
      ∀ gpio, (gpioModesOpsWr p offset inp (fillArg fill) pins w).2.output gpio = pins.output gpio

/-- Without one, the same read afterwards shows what was written; `out` is the data
field of the reply before the read. -/
def ModesRoundTrip : Prop :=
  (∀ i, p.AddressesByte offset fill w i → modeConflict (inp i) = false) →
    ∀ i, p.AddressesByte offset fill w i →
      writeAll out (gpioModesOpsRd p offset (fillArg fill)
        (gpioModesOpsWr p offset inp (fillArg fill) pins w).2 w).2 i = modeShown (inp i)

/-- A read stores the bytes of the access, all of them and no others. -/
def ModesStored : Prop :=
  ∀ k, k ∈ (gpioModesOpsRd p offset (fillArg fill) pins w).2.map Prod.fst ↔
    k < if fill then 8 else w.bits / 8

end Statement

-- ---------------------------------------------------------------------------
-- The loop
-- ---------------------------------------------------------------------------

section Loop

variable {start : Nat} {inp : Nat → UInt8} {pins : Pins}

/-- The pins after the turns `is`, none of which found a conflict. -/
def applyModes (start : Nat) (inp : Nat → UInt8) (is : List Nat) (pins : Pins) : Pins :=
  is.foldl (fun pins i =>
    gpioDirAf pins (start + i) (asksOutput (inp i)) (pins.level (start + i))) pins

/-- **Modes write.** The pins before the first conflict are set, conflict or not. -/
theorem modesWrGo_eq (is : List Nat) (pins : Pins) :
    modesWrGo start inp is pins =
      (if is.any (fun i => modeConflict (inp i)) then some (-EINVAL) else none,
        applyModes start inp (is.takeWhile fun i => !modeConflict (inp i)) pins) := by
  induction is generalizing pins with
  | nil => rfl
  | cons i is ih =>
    unfold modesWrGo
    cases hconf : modeConflict (inp i) with
    | true => simp [hconf, applyModes]
    | false =>
      rw [if_neg (by decide), ih]
      simp [hconf, applyModes]

/-- The direction of a pin after some turns. -/
theorem applyModes_output (is : List Nat) (pins : Pins) (i : Nat) :
    (applyModes start inp is pins).output (start + i) =
      if i ∈ is then asksOutput (inp i) else pins.output (start + i) := by
  induction is generalizing pins with
  | nil => rfl
  | cons k is ih =>
    show (applyModes start inp is _).output (start + i) = _
    rw [ih]
    by_cases hmem : i ∈ is
    · rw [if_pos hmem, if_pos (List.mem_cons_of_mem k hmem)]
    · rw [if_neg hmem]
      by_cases hik : i = k
      · subst hik
        rw [if_pos List.mem_cons_self]
        exact Function.update_self _ _ _
      · rw [if_neg (by simp [hik, hmem])]
        exact Function.update_of_ne (by omega) _ _

theorem applyModes_output_before (is : List Nat) (pins : Pins) {gpio : Nat} (h : gpio < start) :
    (applyModes start inp is pins).output gpio = pins.output gpio := by
  induction is generalizing pins with
  | nil => rfl
  | cons k is ih => exact (ih _).trans (Function.update_of_ne (by omega) _ _)

/-- The turns before the first that fails a test. -/
theorem mem_takeWhile_range {P : Nat → Bool} {n i : Nat} :
    i ∈ (List.range n).takeWhile P ↔ i < n ∧ ∀ k ≤ i, P k = true := by
  induction n generalizing P i with
  | zero => simp
  | succ n ih =>
    rw [List.range_succ_eq_map, List.takeWhile_cons]
    cases h0 : P 0 with
    | false =>
      simp only [Bool.false_eq_true, if_false, List.not_mem_nil, false_iff, not_and, not_forall]
      exact fun _ => ⟨0, Nat.zero_le i, by simp [h0]⟩
    | true =>
      rw [if_pos rfl, List.takeWhile_map, List.mem_cons, List.mem_map]
      cases i with
      | zero => simp [h0]
      | succ i =>
        simp only [Nat.add_eq_zero_iff, one_ne_zero, and_false, false_or, Nat.succ.injEq,
          exists_eq_right, ih, Function.comp_apply, Nat.succ_eq_add_one, Nat.add_lt_add_iff_right]
        refine and_congr_right fun _ => ⟨fun h k hk => ?_, fun h k hk => h (k + 1) (by omega)⟩
        cases k with
        | zero => exact h0
        | succ k => exact h k (by omega)

end Loop

section Results

variable {p : GpioPort} {offset : Nat} {inp out : Nat → UInt8} {fill : Bool} {w : Width}
  {pins : Pins} {i : Nat}

theorem GpioPort.AddressesByte.lt_count (h : p.AddressesByte offset fill w i) :
    i < p.modesWrCount (fillArg fill) w.bits := by
  obtain ⟨hi, -, hend⟩ := h
  have hpos := p.ngpio_pos
  unfold GpioPort.bytePin GpioPort.gpioStart GpioPort.gpioEnd at hend
  unfold GpioPort.modesWrCount
  cases fill with
  | false => exact hi
  | true =>
    rw [if_pos (by decide)]
    rw [if_pos rfl] at hi
    omega

/-- The bytes before one of the access are of the access. -/
theorem GpioPort.AddressesByte.of_le {k : Nat} (h : p.AddressesByte offset fill w i) (hk : k ≤ i) :
    p.AddressesByte offset fill w k := by
  obtain ⟨hi, -, hend⟩ := h
  unfold GpioPort.bytePin at hend
  refine ⟨by omega, ?_, ?_⟩
  · unfold GpioPort.bytePin
    omega
  · unfold GpioPort.bytePin
    omega

theorem gpioModesWr_status :
    (gpioModesWr p offset inp (fillArg fill) w.bits pins).1 =
      if ∃ k < p.modesWrCount (fillArg fill) w.bits, modeConflict (inp k) = true then -EINVAL
      else p.modesWrCount (fillArg fill) w.bits := by
  unfold gpioModesWr
  simp only [modesWrGo_eq, List.any_eq_true, List.mem_range]
  split <;> rfl

theorem gpioModesWr_output :
    (gpioModesWr p offset inp (fillArg fill) w.bits pins).2.output (p.bytePin offset + i) =
      if i < p.modesWrCount (fillArg fill) w.bits ∧ ∀ k ≤ i, modeConflict (inp k) = false then
        asksOutput (inp i)
      else pins.output (p.bytePin offset + i) := by
  unfold gpioModesWr
  simp only [modesWrGo_eq, applyModes_output, mem_takeWhile_range, Bool.not_eq_true']

theorem gpioModesWr_output_before {gpio : Nat} (h : gpio < p.bytePin offset) :
    (gpioModesWr p offset inp (fillArg fill) w.bits pins).2.output gpio = pins.output gpio := by
  unfold gpioModesWr
  simp only [modesWrGo_eq, applyModes_output_before _ _ h]

/-- A write with a conflict changes nothing exactly when the pins before the first one
have their directions already. -/
theorem modesAtomic_iff :
    ModesAtomic p offset inp fill w pins ↔
      ∀ j, p.AddressesByte offset fill w j → modeConflict (inp j) = true →
        ∀ i < j, (∀ k ≤ i, modeConflict (inp k) = false) →
          pins.output (p.bytePin offset + i) = asksOutput (inp i) := by
  unfold ModesAtomic
  rw [gpioModesOpsWr_eq, gpioModesWr_status]
  constructor
  · intro h j hj hconf i hij hbefore
    have hout := (h ⟨j, hj, hconf⟩).2 (p.bytePin offset + i)
    have hcount := hj.lt_count
    rw [gpioModesWr_output, if_pos ⟨by omega, hbefore⟩] at hout
    exact hout.symm
  · rintro h ⟨j, hj, hconf⟩
    rw [if_pos ⟨j, hj.lt_count, hconf⟩]
    refine ⟨rfl, fun gpio => ?_⟩
    by_cases hgpio : gpio < p.bytePin offset
    · exact gpioModesWr_output_before hgpio
    · obtain ⟨i, rfl⟩ := Nat.exists_eq_add_of_le (Nat.not_lt.mp hgpio)
      rw [gpioModesWr_output]
      split
      · rename_i hset
        -- no conflict up to `i`, so the conflict is behind it
        have hij : i < j := by
          by_contra hle
          have hclear := hset.2 j (by omega)
          rw [hconf] at hclear
          cases hclear
        exact (h j hj hconf i hij hset.2).symm
      · rfl

/-- The answer of a read after a write without a conflict up to byte `i`. -/
theorem gpioModesRd_answer (hclear : ∀ k ≤ i, modeConflict (inp k) = false)
    (hi : p.AddressesByte offset fill w i) :
    writeAll out (gpioModesRd p offset (fillArg fill) w.bits
        (gpioModesWr p offset inp (fillArg fill) w.bits pins).2).2 i =
      if i < p.modesRdCount (fillArg fill) w.bits then modeShown (inp i) else out i := by
  have hout : (gpioModesWr p offset inp (fillArg fill) w.bits pins).2.output
      (p.bytePin offset + i) = asksOutput (inp i) := by
    rw [gpioModesWr_output, if_pos ⟨hi.lt_count, hclear⟩]
  unfold gpioModesRd
  simp only [writeAll_range]
  simp only [Nat.zero_le, true_and, Nat.zero_add, Nat.sub_zero, hout]
  rfl

/-- A read has the bytes of the access, but for those behind the first of a fill
access. -/
theorem GpioPort.AddressesByte.lt_rdCount_iff (h : p.AddressesByte offset fill w i) :
    i < p.modesRdCount (fillArg fill) w.bits ↔ (fill = false ∨ i = 0) := by
  have hpos := p.ngpio_pos
  have hlt := h.1
  unfold GpioPort.modesRdCount
  cases fill with
  | false =>
    rw [if_neg (by decide)]
    rw [if_neg (by decide)] at hlt
    exact iff_of_true (Nat.lt_of_lt_of_le hlt (Nat.div_le_self _ _)) (.inl rfl)
  | true =>
    rw [if_pos (by decide)]
    simp only [Bool.true_eq_false, false_or]
    omega

/-- The read after a write is right but for the bytes a fill access leaves out, which
show the data field as it was. -/
theorem modesRoundTrip_iff :
    ModesRoundTrip p offset inp out fill w pins ↔
      ((∀ i, p.AddressesByte offset fill w i → modeConflict (inp i) = false) → fill = true →
        ∀ i, 1 ≤ i → p.AddressesByte offset fill w i → out i = modeShown (inp i)) := by
  unfold ModesRoundTrip
  rw [gpioModesOpsWr_eq, gpioModesOpsRd_eq]
  refine forall_congr' fun hclear => ?_
  have hbefore : ∀ i, p.AddressesByte offset fill w i → ∀ k ≤ i, modeConflict (inp k) = false :=
    fun i hi k hk => hclear k (hi.of_le hk)
  constructor
  · rintro h rfl i hpos hi
    have hans := h i hi
    rw [gpioModesRd_answer (hbefore i hi) hi, if_neg (fun hlt => ?_)] at hans
    · exact hans
    · rcases hi.lt_rdCount_iff.mp hlt with hfalse | hzero
      · cases hfalse
      · omega
  · intro h i hi
    rw [gpioModesRd_answer (hbefore i hi) hi]
    split
    · rfl
    · rename_i hlt
      rw [hi.lt_rdCount_iff, not_or, Bool.not_eq_false] at hlt
      exact h hlt.1 i (Nat.one_le_iff_ne_zero.mpr hlt.2) hi

/-- A read never stores the bytes of its access: eight times as many, or one of
eight. -/
theorem not_modesStored : ¬ModesStored p offset fill w pins := by
  have hbits := w.bits_pos
  have hpos := p.ngpio_pos
  intro h
  have hstored : ∀ k, k < p.modesRdCount (fillArg fill) w.bits ↔
      k < if fill then 8 else w.bits / 8 := by
    intro k
    rw [← h k, gpioModesOpsRd_eq]
    unfold gpioModesRd
    simp
  unfold GpioPort.modesRdCount at hstored
  cases fill with
  | false =>
    have hlast := hstored (w.bits / 8)
    rw [if_neg (by decide), if_neg (by decide)] at hlast
    omega
  | true =>
    have hlast := hstored 1
    rw [if_pos (by decide), if_pos rfl] at hlast
    omega

/-- **Modes.** No access meets all three requirements: no read stores its own bytes.
The other two hold of the accesses described. -/
theorem gpio_modes_never (p : GpioPort) (offset : Nat) (inp out : Nat → UInt8) (fill : Bool)
    (w : Width) (pins : Pins) :
    ¬(ModesAtomic p offset inp fill w pins ∧ ModesRoundTrip p offset inp out fill w pins ∧
        ModesStored p offset fill w pins) ∧
      (ModesAtomic p offset inp fill w pins ↔
        ∀ j, p.AddressesByte offset fill w j → modeConflict (inp j) = true →
          ∀ i < j, (∀ k ≤ i, modeConflict (inp k) = false) →
            pins.output (p.bytePin offset + i) = asksOutput (inp i)) ∧
      (ModesRoundTrip p offset inp out fill w pins ↔
        ((∀ i, p.AddressesByte offset fill w i → modeConflict (inp i) = false) → fill = true →
          ∀ i, 1 ≤ i → p.AddressesByte offset fill w i → out i = modeShown (inp i))) :=
  ⟨fun h => not_modesStored h.2.2, modesAtomic_iff, modesRoundTrip_iff⟩

/-- Output for the first pin, both directions for the second. -/
theorem first_pin_set_before_conflict :
    ¬∀ (p : GpioPort) (offset : Nat) (inp out : Nat → UInt8) (fill : Bool) (w : Width)
      (pins : Pins),
      offset + w.bits / 8 ≤ 0x200 →
        ModesAtomic p offset inp fill w pins ∧ ModesRoundTrip p offset inp out fill w pins ∧
          ModesStored p offset fill w pins := by
  intro h
  have hatomic := (h atmegaPort 0 (fun i => if i = 0 then OUTPUT else INPUT ||| OUTPUT) (fun _ => 0)
    false .word ⟨fun _ => false, fun _ => false, fun _ => false⟩ (by decide)).1
  exact absurd ((hatomic ⟨1, by decide, by decide⟩).2 0) (by decide)

end Results

end Bathos.Mcuio
