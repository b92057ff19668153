import Bathos.Atmega.Gpio
import Bathos.Mcuio.GpioModes

/-!
# Bathos — the GPIO event masks

`__gpio_evts_wr` and `__gpio_evts_rd` of `mcuio/mcuio_gpio_func.c`: a byte of flags for
each pin, kept as one bit in each of five arrays of `struct mcuio_gpio_port_status`. The
write sets the bits of the flags given and clears none. Both functions count the bits
from the first pin of the machine, the arrays are those of one port.

`gpio_request_events` is a parameter, with a state of its own.

Main results:

* `evtsWrGo_spec` — what the loop of the write leaves in the arrays;
* `evts_masks_iff` — when the flags written are the flags read, and nothing else is
  touched.
-/

namespace Bathos.Mcuio

open Bathos.Lib

-- ---------------------------------------------------------------------------
-- Port status
-- ---------------------------------------------------------------------------

/-- The arrays of `struct mcuio_gpio_port_status`, two words each. -/
inductive EvtArray where
  | status | falling | rising | enable | high | low
deriving DecidableEq, Repr

def EvtArray.index : EvtArray → Nat
  | .status => 0
  | .falling => 1
  | .rising => 2
  | .enable => 3
  | .high => 4
  | .low => 5

/-- The flag an array is for; `gpio_events_status` is for none. -/
def EvtArray.flag : EvtArray → UInt8
  | .status => 0
  | .falling => GPIO_EVT_FALLING
  | .rising => GPIO_EVT_RISING
  | .enable => GPIO_EVT_ENABLE
  | .high => GPIO_EVT_HIGH
  | .low => GPIO_EVT_LOW

/-- The masks, in the order both functions go through them. -/
def evtMasks : List EvtArray := [.falling, .rising, .high, .low, .enable]

/-- The memory from a `struct mcuio_gpio_port_status` on. -/
abbrev PortStatus := Words 12

/-- Bit `nr` of an array. A number from 64 on is in the arrays behind it. -/
def EvtArray.bitAt (a : EvtArray) (nr : Nat) : Nat := 64 * a.index + nr

/-- A `set_bit` or `test_bit`: the array and the number. -/
abbrev BitAccess := EvtArray × Nat

-- ---------------------------------------------------------------------------
-- Handlers
-- ---------------------------------------------------------------------------

/-- `n` of both functions. -/
def GpioPort.evtCount (p : GpioPort) (fill width : Nat) : Nat :=
  if fill ≠ 0 then min p.ngpio (8 / 8) else width / 8

/-- The flags that `f` says are set, put together as `__gpio_evts_rd` does. -/
def flagsOf (f : EvtArray → Bool) : UInt8 :=
  evtMasks.foldl (fun out a => if f a then out ||| a.flag else out) 0

/-- `set_bit` for every flag of one pin. -/
def setMasks (nr : Nat) (flags : UInt8) (s : PortStatus) : PortStatus :=
  evtMasks.foldl (fun s a => if hasFlag flags a.flag then s.setBit (a.bitAt nr) else s) s

/-- The arrays `setMasks` sets a bit of. -/
def setMasksAccesses (nr : Nat) (flags : UInt8) : List BitAccess :=
  (evtMasks.filter fun a => hasFlag flags a.flag).map fun a => (a, nr)

/-- What a write returns early with, and what it leaves. -/
structure EvtsWritten (σ : Type*) where
  err : Option Int
  status : PortStatus
  requests : σ
  accesses : List BitAccess

section Handlers

variable {σ : Type*} (request : σ → Int → UInt8 → Int × σ)

/-- The loop of `__gpio_evts_wr`. -/
def evtsWrGo (start : Nat) (inp : Nat → UInt8) : List Nat → PortStatus → σ → EvtsWritten σ
  | [], s, st => ⟨none, s, st, []⟩
  | i :: is, s, st =>
    let s' := setMasks (i + start) (inp i) s
    let stat := request st ((i + start : Nat) : Int) (inp i)
    let accesses := setMasksAccesses (i + start) (inp i)
    if stat.1 < 0 then ⟨some stat.1, s', stat.2, accesses⟩
    else
      let rest := evtsWrGo start inp is s' stat.2
      { rest with accesses := accesses ++ rest.accesses }

/-- `__gpio_evts_wr`: what it returns, and what it leaves. -/
def gpioEvtsWr (p : GpioPort) (offset : Nat) (inp : Nat → UInt8) (fill width : Nat)
    (s : PortStatus) (st : σ) : Int × EvtsWritten σ :=
  let n := p.evtCount fill width
  let res := evtsWrGo request (p.bytePin offset) inp (List.range n) s st
  (res.err.getD n, res)

/-- `gpio_evts_wrdw`. -/
def gpioEvtsWrdw (p : GpioPort) (offset : Nat) (inp : Nat → UInt8) (fill : Nat) (s : PortStatus)
    (st : σ) : Int × EvtsWritten σ := gpioEvtsWr request p offset inp fill 32 s st

/-- `__gpio_evts_rd`: what it returns, the bytes it stores from `out` on, and the bits it
tests. -/
def gpioEvtsRd (p : GpioPort) (offset fill width : Nat) (s : PortStatus) :
    Int × List ByteStore × List BitAccess :=
  let n := p.evtCount fill width
  let start := p.bytePin offset
  (n, (List.range n).map fun i => (0 + i, flagsOf fun a => s.testBit (a.bitAt (i + start))),
    (List.range n).flatMap fun i => evtMasks.map fun a => (a, i + start))

/-- `gpio_evts_rddw`. -/
def gpioEvtsRddw (p : GpioPort) (offset fill : Nat) (s : PortStatus) :
    Int × List ByteStore × List BitAccess := gpioEvtsRd p offset fill 32 s

-- ---------------------------------------------------------------------------
-- Statement
-- ---------------------------------------------------------------------------

/-- The flags there are. -/
def evtFlags : UInt8 :=
  GPIO_EVT_RISING ||| GPIO_EVT_FALLING ||| GPIO_EVT_HIGH ||| GPIO_EVT_LOW ||| GPIO_EVT_ENABLE

/-- The flags of pin `q` of a port. -/
def pinFlags (s : PortStatus) (q : Nat) : UInt8 := flagsOf fun a => s.bit (a.bitAt q)

variable (p : GpioPort) (offset : Nat) (inp out : Nat → UInt8) (fill : Bool) (s : PortStatus)
  (st : σ)

/-- Every request of a write succeeds. -/
def RequestsSucceed : Prop :=
  ∀ st, ∀ i < p.evtCount (fillArg fill) 32,
    0 ≤ (request st ((i + p.bytePin offset : Nat) : Int) (inp i)).1

/-- A read after a write shows the flags written, the other pins of the port keep
theirs, and both stay inside the masks. `out` is the data field of the reply before the
read. -/
def MasksRoundTrip : Prop :=
  let wr := (gpioEvtsWrdw request p offset inp (fillArg fill) s st).2
  let rd := (gpioEvtsRddw p offset (fillArg fill) wr.status).2
  (∀ i, p.AddressesByte offset fill .dword i → writeAll out rd.1 i = inp i &&& evtFlags) ∧
    (∀ q < p.ngpio, (∀ i, p.AddressesByte offset fill .dword i → q ≠ offset + i) →
      pinFlags wr.status q = pinFlags s q) ∧
    ∀ x ∈ wr.accesses ++ rd.2, x.1 ∈ evtMasks ∧ x.2 < 64

/-- The first port, pins inside the masks, no flag to be cleared, and no pin that a fill
access leaves out unless the reply shows its flags already. -/
def MasksFit : Prop :=
  p.index = 0 ∧ offset + p.evtCount (fillArg fill) 32 ≤ 64 ∧
    (∀ i < p.evtCount (fillArg fill) 32, p.AddressesByte offset fill .dword i →
      ∀ a ∈ evtMasks, s.bit (a.bitAt (offset + i)) = true → hasFlag (inp i) a.flag = true) ∧
    ∀ i, p.evtCount (fillArg fill) 32 ≤ i → p.AddressesByte offset fill .dword i →
      out i = inp i &&& evtFlags

end Handlers

-- ---------------------------------------------------------------------------
-- Flags and bits
-- ---------------------------------------------------------------------------

section Flags

variable {s : PortStatus} {nr q : Nat} {flags : UInt8} {a : EvtArray} {f g : EvtArray → Bool}

/-- The five flags are told apart. -/
theorem hasFlag_flagsOf (ha : a ∈ evtMasks) : hasFlag (flagsOf f) a.flag = f a := by
  have hflags : ∀ b₁ b₂ b₃ b₄ b₅ : Bool, ∀ g : EvtArray → Bool,
      g .falling = b₁ → g .rising = b₂ → g .high = b₃ → g .low = b₄ → g .enable = b₅ →
        ∀ a ∈ evtMasks, hasFlag (flagsOf g) a.flag = g a := by
    intro b₁ b₂ b₃ b₄ b₅ g h₁ h₂ h₃ h₄ h₅ a ha
    unfold flagsOf evtMasks
    simp only [List.foldl_cons, List.foldl_nil, h₁, h₂, h₃, h₄, h₅]
    cases a
    · exact absurd ha (by decide)
    all_goals
      simp only [h₁, h₂, h₃, h₄, h₅]
      clear h₁ h₂ h₃ h₄ h₅ ha
      revert b₁ b₂ b₃ b₄ b₅
      decide
  exact hflags _ _ _ _ _ f rfl rfl rfl rfl rfl a ha

theorem flagsOf_congr (h : ∀ a ∈ evtMasks, f a = g a) : flagsOf f = flagsOf g := by
  unfold flagsOf
  exact List.foldl_ext _ _ _ fun out a ha => by rw [h a ha]

theorem and_evtFlags (flags : UInt8) :
    flags &&& evtFlags = flagsOf fun a => hasFlag flags a.flag := by
  obtain ⟨v⟩ := flags
  revert v
  decide

/-- The flags shown are the flags given when the bits are. -/
theorem flagsOf_eq_iff :
    flagsOf f = flags &&& evtFlags ↔ ∀ a ∈ evtMasks, f a = hasFlag flags a.flag := by
  rw [and_evtFlags]
  constructor
  · intro h a ha
    rw [← hasFlag_flagsOf (f := f) ha, h, hasFlag_flagsOf ha]
  · exact flagsOf_congr

theorem EvtArray.bitAt_inj {b : EvtArray} (hnr : nr < 64) (hq : q < 64) :
    b.bitAt q = a.bitAt nr ↔ b = a ∧ q = nr := by
  unfold EvtArray.bitAt
  constructor
  · intro h
    have hindex : b.index = a.index := by omega
    refine ⟨?_, by omega⟩
    cases a <;> cases b <;> first | rfl | cases hindex
  · rintro ⟨rfl, rfl⟩
    rfl

theorem EvtArray.bitAt_lt (a : EvtArray) (hnr : nr < 64) : a.bitAt nr < 32 * 12 := by
  unfold EvtArray.bitAt
  cases a <;> simp only [EvtArray.index] <;> omega

theorem setBit_bitAt {b : EvtArray} (s : PortStatus) (hnr : nr < 64) (hq : q < 64) :
    (s.setBit (b.bitAt nr)).bit (a.bitAt q) = (decide (a = b ∧ q = nr) || s.bit (a.bitAt q)) := by
  rw [Words.bit_setBit s (b.bitAt_lt hnr)]
  congr 1
  exact decide_eq_decide.mpr (EvtArray.bitAt_inj hnr hq)

/-- One pin of the write: by induction on the arrays gone through. -/
theorem setMasks_bit (hnr : nr < 64) (hq : q < 64) (ha : a ∈ evtMasks) :
    (setMasks nr flags s).bit (a.bitAt q) =
      (s.bit (a.bitAt q) || decide (q = nr) && hasFlag flags a.flag) := by
  have hfold : ∀ (l : List EvtArray) (s : PortStatus),
      (l.foldl (fun s b => if hasFlag flags b.flag then s.setBit (b.bitAt nr) else s) s).bit
          (a.bitAt q) =
        (s.bit (a.bitAt q) || decide (a ∈ l) && (decide (q = nr) && hasFlag flags a.flag)) := by
    intro l
    induction l with
    | nil => simp
    | cons b l ih =>
      intro s
      rw [List.foldl_cons, ih]
      cases hflag : hasFlag flags b.flag with
      | true =>
        rw [if_pos rfl, setBit_bitAt s hnr hq]
        by_cases hab : a = b
        · subst hab
          by_cases hqnr : q = nr
          · simp [hqnr, hflag]
          · simp [hqnr]
        · simp [hab]
      | false =>
        rw [if_neg (by decide)]
        by_cases hab : a = b
        · subst hab
          simp [hflag]
        · simp [hab]
  unfold setMasks
  rw [hfold, decide_eq_true ha, Bool.true_and]

end Flags

-- ---------------------------------------------------------------------------
-- The loop
-- ---------------------------------------------------------------------------

section Loop

variable {σ : Type*} {request : σ → Int → UInt8 → Int × σ} {start : Nat} {inp : Nat → UInt8}

/-- **Masks write.** Where every request succeeds and every pin is inside the masks, the
bits of the flags are set and the others stay. -/
theorem evtsWrGo_spec (is : List Nat) (s : PortStatus) (st : σ)
    (hreq : ∀ st, ∀ i ∈ is, 0 ≤ (request st ((i + start : Nat) : Int) (inp i)).1)
    (hin : ∀ i ∈ is, i + start < 64) {a : EvtArray} (ha : a ∈ evtMasks) {q : Nat} (hq : q < 64) :
    (evtsWrGo request start inp is s st).status.bit (a.bitAt q) =
      (s.bit (a.bitAt q) || is.any fun i => decide (q = i + start) && hasFlag (inp i) a.flag) := by
  induction is generalizing s st with
  | nil => simp [evtsWrGo]
  | cons i is ih =>
    have hrest := fun s st => ih s st (fun st k hk => hreq st k (List.mem_cons_of_mem i hk))
      (fun k hk => hin k (List.mem_cons_of_mem i hk))
    unfold evtsWrGo
    simp only [if_neg (Int.not_lt.mpr (hreq st i List.mem_cons_self)), hrest,
      setMasks_bit (hin i List.mem_cons_self) hq ha, List.any_cons, Bool.or_assoc]

/-- Whatever the requests answer, only masks are written, at the pins of the access. -/
theorem evtsWrGo_accesses (is : List Nat) (s : PortStatus) (st : σ) :
    ∀ x ∈ (evtsWrGo request start inp is s st).accesses,
      x.1 ∈ evtMasks ∧ ∃ i ∈ is, x.2 = i + start := by
  have hpin : ∀ i, ∀ x ∈ setMasksAccesses (i + start) (inp i),
      x.1 ∈ evtMasks ∧ x.2 = i + start := by
    intro i x hx
    obtain ⟨a, ha, rfl⟩ := List.mem_map.mp hx
    exact ⟨(List.mem_filter.mp ha).1, rfl⟩
  induction is generalizing s st with
  | nil => exact fun x hx => absurd hx List.not_mem_nil
  | cons i is ih =>
    intro x hx
    unfold evtsWrGo at hx
    dsimp only at hx
    split at hx
    · obtain ⟨hmask, hnr⟩ := hpin i x hx
      exact ⟨hmask, i, List.mem_cons_self, hnr⟩
    · rcases List.mem_append.mp hx with hx | hx
      · obtain ⟨hmask, hnr⟩ := hpin i x hx
        exact ⟨hmask, i, List.mem_cons_self, hnr⟩
      · obtain ⟨hmask, k, hk, hnr⟩ := ih _ _ x hx
        exact ⟨hmask, k, List.mem_cons_of_mem i hk, hnr⟩

end Loop

-- ---------------------------------------------------------------------------
-- Masks
-- ---------------------------------------------------------------------------

section Results

variable {σ : Type*} {request : σ → Int → UInt8 → Int × σ} {p : GpioPort} {offset : Nat}
  {inp out : Nat → UInt8} {fill : Bool} {s : PortStatus} {st : σ} {a : EvtArray} {i q : Nat}

theorem GpioPort.evtCount_pos (p : GpioPort) (fill : Bool) : 0 < p.evtCount (fillArg fill) 32 := by
  have hpos := p.ngpio_pos
  unfold GpioPort.evtCount
  split <;> omega

theorem GpioPort.evtCount_le (p : GpioPort) (fill : Bool) :
    p.evtCount (fillArg fill) 32 ≤ if fill then 8 else 4 := by
  unfold GpioPort.evtCount
  cases fill with
  | false => exact le_rfl
  | true =>
    rw [if_pos (by decide), if_pos rfl]
    omega

/-- The first port starts at the first pin of the machine. -/
theorem GpioPort.bytePin_eq (p : GpioPort) (hindex : p.index = 0) (offset : Nat) :
    p.bytePin offset = offset := by
  unfold GpioPort.bytePin GpioPort.gpioStart
  omega

theorem GpioPort.addressesByte_iff :
    p.AddressesByte offset fill .dword i ↔ i < (if fill then 8 else 4) ∧ offset + i < p.ngpio := by
  have hpos := p.ngpio_pos
  unfold GpioPort.AddressesByte GpioPort.HasPin GpioPort.bytePin GpioPort.gpioStart GpioPort.gpioEnd
  refine and_congr Iff.rfl ?_
  omega

/-- Both functions stay inside the masks of the first port only. -/
theorem accesses_inside_iff :
    (∀ x ∈ (gpioEvtsWrdw request p offset inp (fillArg fill) s st).2.accesses ++
        (gpioEvtsRddw p offset (fillArg fill)
          (gpioEvtsWrdw request p offset inp (fillArg fill) s st).2.status).2.2,
        x.1 ∈ evtMasks ∧ x.2 < 64) ↔
      p.index = 0 ∧ offset + p.evtCount (fillArg fill) 32 ≤ 64 := by
  have hpos := p.evtCount_pos fill
  constructor
  · intro h
    -- the read tests the last pin in every array
    have hlast := h (.falling, p.evtCount (fillArg fill) 32 - 1 + p.bytePin offset) <|
      List.mem_append_right _ <| List.mem_flatMap.mpr
        ⟨p.evtCount (fillArg fill) 32 - 1, List.mem_range.mpr (by omega), by simp [evtMasks]⟩
    have hlt := hlast.2
    unfold GpioPort.bytePin GpioPort.gpioStart at hlt
    dsimp only at hlt
    omega
  · rintro ⟨hindex, hend⟩ x hx
    have hstart := p.bytePin_eq hindex offset
    rcases List.mem_append.mp hx with hx | hx
    · obtain ⟨hmask, i, hi, hnr⟩ := evtsWrGo_accesses _ _ _ x hx
      rw [List.mem_range] at hi
      exact ⟨hmask, by omega⟩
    · obtain ⟨i, hi, hx⟩ := List.mem_flatMap.mp hx
      obtain ⟨a, ha, rfl⟩ := List.mem_map.mp hx
      rw [List.mem_range] at hi
      exact ⟨ha, by dsimp only; omega⟩

/-- The bits a write leaves, at the pins of the access. -/
theorem gpioEvtsWrdw_bit (hreq : RequestsSucceed request p offset inp fill) (hindex : p.index = 0)
    (hend : offset + p.evtCount (fillArg fill) 32 ≤ 64) (ha : a ∈ evtMasks)
    (hi : i < p.evtCount (fillArg fill) 32) :
    (gpioEvtsWrdw request p offset inp (fillArg fill) s st).2.status.bit (a.bitAt (offset + i)) =
      (s.bit (a.bitAt (offset + i)) || hasFlag (inp i) a.flag) := by
  have hstart := p.bytePin_eq hindex offset
  unfold gpioEvtsWrdw gpioEvtsWr
  dsimp only
  rw [evtsWrGo_spec _ s st (fun st k hk => hreq st k (List.mem_range.mp hk))
    (fun k hk => by rw [List.mem_range] at hk; omega) ha (by omega)]
  congr 1
  rw [Bool.eq_iff_iff, List.any_eq_true]
  simp only [List.mem_range, Bool.and_eq_true, decide_eq_true_eq, hstart]
  constructor
  · rintro ⟨k, -, hk, hflag⟩
    obtain rfl : k = i := by omega
    exact hflag
  · exact fun hflag => ⟨i, hi, by omega, hflag⟩

/-- The bits of every other pin stay. -/
theorem gpioEvtsWrdw_bit_other (hreq : RequestsSucceed request p offset inp fill)
    (hindex : p.index = 0) (hend : offset + p.evtCount (fillArg fill) 32 ≤ 64) (ha : a ∈ evtMasks)
    (hq : q < 64) (hother : ∀ i < p.evtCount (fillArg fill) 32, q ≠ offset + i) :
    (gpioEvtsWrdw request p offset inp (fillArg fill) s st).2.status.bit (a.bitAt q) =
      s.bit (a.bitAt q) := by
  have hstart := p.bytePin_eq hindex offset
  unfold gpioEvtsWrdw gpioEvtsWr
  dsimp only
  rw [evtsWrGo_spec _ s st (fun st k hk => hreq st k (List.mem_range.mp hk))
    (fun k hk => by rw [List.mem_range] at hk; omega) ha hq]
  have hnone : ((List.range (p.evtCount (fillArg fill) 32)).any fun i =>
      decide (q = i + p.bytePin offset) && hasFlag (inp i) a.flag) = false := by
    rw [List.any_eq_false]
    intro i hi
    have hne := hother i (List.mem_range.mp hi)
    simp [show q ≠ i + p.bytePin offset by omega]
  rw [hnone, Bool.or_false]

/-- The answer of a read after a write. -/
theorem gpioEvtsRddw_answer (hreq : RequestsSucceed request p offset inp fill)
    (hindex : p.index = 0) (hend : offset + p.evtCount (fillArg fill) 32 ≤ 64) (i : Nat) :
    writeAll out (gpioEvtsRddw p offset (fillArg fill)
        (gpioEvtsWrdw request p offset inp (fillArg fill) s st).2.status).2.1 i =
      if i < p.evtCount (fillArg fill) 32 then
        flagsOf fun a => s.bit (a.bitAt (offset + i)) || hasFlag (inp i) a.flag
      else out i := by
  have hstart := p.bytePin_eq hindex offset
  unfold gpioEvtsRddw gpioEvtsRd
  dsimp only
  rw [writeAll_range]
  simp only [Nat.zero_le, true_and, Nat.zero_add, Nat.sub_zero]
  split
  · rename_i hi
    refine flagsOf_congr fun a ha => ?_
    rw [Words.testBit_eq, hstart, Nat.add_comm i offset]
    exact gpioEvtsWrdw_bit hreq hindex hend ha hi
  · rfl

/-- **Event masks.** -/
theorem evts_masks_iff (request : σ → Int → UInt8 → Int × σ) (p : GpioPort) (offset : Nat)
    (inp out : Nat → UInt8) (fill : Bool) (s : PortStatus) (st : σ)
    (hreq : RequestsSucceed request p offset inp fill) :
    MasksRoundTrip request p offset inp out fill s st ↔ MasksFit p offset inp out fill s := by
  have hle := p.evtCount_le fill
  unfold MasksRoundTrip MasksFit
  dsimp only
  rw [accesses_inside_iff]
  constructor
  · rintro ⟨hread, -, hindex, hend⟩
    refine ⟨hindex, hend, fun i hi haddr a ha hold => ?_, fun i hi haddr => ?_⟩
    · have hans := hread i haddr
      rw [gpioEvtsRddw_answer hreq hindex hend, if_pos hi, flagsOf_eq_iff] at hans
      rw [← hans a ha, hold, Bool.true_or]
    · have hans := hread i haddr
      rwa [gpioEvtsRddw_answer hreq hindex hend, if_neg (Nat.not_lt.mpr hi)] at hans
  · rintro ⟨hindex, hend, hflags, hrest⟩
    refine ⟨fun i haddr => ?_, fun q hq hother => ?_, hindex, hend⟩
    · rw [gpioEvtsRddw_answer hreq hindex hend]
      split
      · rename_i hi
        rw [flagsOf_eq_iff]
        intro a ha
        cases hold : s.bit (a.bitAt (offset + i)) with
        | true => rw [Bool.true_or, hflags i hi haddr a ha hold]
        | false => rw [Bool.false_or]
      · rename_i hi
        exact hrest i (Nat.not_lt.mp hi) haddr
    · have hports := p.ngpio_le
      refine flagsOf_congr fun a ha => ?_
      refine gpioEvtsWrdw_bit_other hreq hindex hend ha (by omega) fun i hi heq => ?_
      exact hother i (GpioPort.addressesByte_iff.mpr ⟨by omega, by omega⟩) heq

/-- Four pins of an ATmega without any mask so far. -/
theorem evts_masks_fresh :
    MasksRoundTrip Atmega.gpioRequestEvents atmegaPort 4 (fun _ => GPIO_EVT_RISING) (fun _ => 0)
      false ⟨List.replicate 12 0, by decide⟩
      ⟨fun _ => 0, fun _ => 0, fun _ => 0, fun _ => 0, 0, ⟨[0, 0], by decide⟩⟩ := by
  refine (evts_masks_iff _ atmegaPort 4 _ _ false _ _ fun st i hi => ?_).mpr ?_
  · have hpin : i + atmegaPort.bytePin 4 < 40 := by
      have hcount : i < 4 := hi
      show i + 4 < 40
      omega
    rw [Atmega.gpioRequestEvents_succeeds hpin]
  · refine ⟨rfl, by decide, fun i hi _ a ha hold => ?_, fun i hi haddr => absurd haddr.1 ?_⟩
    · revert i a
      decide
    · exact Nat.not_lt.mpr hi

/-- A pin watched for falling edges is asked to watch for rising ones: it does both. -/
theorem falling_not_cleared :
    ¬∀ (p : GpioPort) (offset : Nat) (inp out : Nat → UInt8) (fill : Bool) (s : PortStatus)
      (st : Atmega.Sampler), offset < p.ngpio →
        RequestsSucceed Atmega.gpioRequestEvents p offset inp fill →
          MasksRoundTrip Atmega.gpioRequestEvents p offset inp out fill s st := by
  intro h
  have hread := (h atmegaPort 0 (fun i => if i = 0 then GPIO_EVT_RISING else 0) (fun _ => 0) false
    ⟨[0, 0, 1, 0, 0, 0, 0, 0, 0, 0, 0, 0], by decide⟩
    ⟨fun _ => 0, fun _ => 0, fun _ => 0, fun _ => 0, 0, ⟨[0, 0], by decide⟩⟩ (by decide)
    (fun st i hi => ?_)).1 0 (by decide)
  · revert hread
    decide
  · have hcount : i < 4 := hi
    rw [Atmega.gpioRequestEvents_succeeds (show i + atmegaPort.bytePin 0 < 40 by
      show i + 0 < 40
      omega)]

end Results

end Bathos.Mcuio
