import Bathos.Atmega.Gpio
import Bathos.Lib.TwoWire
import Mathlib.Data.Nat.Bitwise

/-!
# Bathos — the bitbang console

`drivers/debug_bitbang.c`: characters are sent over two gpios, a clock and a data line. Each
call of the console sends a start and its characters, a bit at a time. The delays are left
out: the listener (`Lib/TwoWire.lean`) looks after every change.

The gpios are those of a board. `gpio_set` is modelled for the ATmega32U4, the nRF5x, the
KL25Z, and for the STM32F4, where it has an operator missing its brackets.

Main results:

* `console_heard` — whatever else is done with the other gpios meanwhile, the listener has
  the text of every call;
* `stm32_console_iff` — on the STM32F4 only if both gpios are the first of their ports.
-/

namespace Bathos.Drivers

open Bathos.Lib Bathos.Lib.TwoWire

namespace Bitbang

-- ---------------------------------------------------------------------------
-- gpios
-- ---------------------------------------------------------------------------

/-- A call of `gpio_set`. -/
structure GpioSet where
  gpio : Nat
  value : Int

/-- `gpio_set` of a board, and the level of a pin. -/
structure Pins (σ : Type*) where
  gpioSet : GpioSet → σ → σ
  level : Nat → σ → Bool

variable {σ : Type*} {k : Nat} {c : GpioSet}

/-- Pin `k` is what it was set to, and no other call changes it. -/
def Pins.Keeps (P : Pins σ) (k : Nat) (gpio : Nat) : Prop :=
  ∀ value s, P.level k (P.gpioSet ⟨gpio, value⟩ s) =
    if gpio = k then decide (value ≠ 0) else P.level k s

def PORTS_BASE : Nat := 0x03

/-- `arch-atmega/arch/gpio.h`, over the I/O registers. -/
def atmega : Pins (Nat → BitVec 8) where
  gpioSet c sfr :=
    let port := c.gpio / 8
    let pin := c.gpio % 8
    let addr := PORTS_BASE + port * 3 + 2
    if c.value ≠ 0 then Function.update sfr addr (sfr addr ||| 1#8 <<< pin)
    else Function.update sfr addr (sfr addr &&& ~~~(1#8 <<< pin))
  level k sfr := (sfr (PORTS_BASE + k / 8 * 3 + 2)).getLsbD (k % 8)

/-- A pair of registers that set and clear the bits they are written with. -/
def setClear {w : Nat} (mask : BitVec w) (value : Int) (out : BitVec w) : BitVec w :=
  if value ≠ 0 then out ||| mask else out &&& ~~~mask

/-- `arch-arm/family-nrf5x/family/gpio.h`, over `REG_GPIO_OUT`. -/
def nrf5x : Pins (BitVec 32) where
  gpioSet c out :=
    let pin := c.gpio % 32
    setClear (1#32 <<< pin) c.value out
  level k out := out.getLsbD k

/-- `arch-arm/mach-kl25z/mach/gpio.h`, over the `REG_GPIO_PDOR` of the ports. -/
def kl25z : Pins (Nat → BitVec 32) where
  gpioSet c out :=
    let port := c.gpio / 32
    let pin := c.gpio % 32
    Function.update out port (setClear (1#32 <<< pin) c.value (out port))
  level k out := (out (k / 32)).getLsbD (k % 32)

/-- A write to `GPIO_BSRR`: the low half sets, the high half clears. -/
def writeBsrr (v : BitVec 32) (odr : BitVec 16) : BitVec 16 :=
  (odr &&& ~~~(v >>> 16).setWidth 16) ||| v.setWidth 16

/-- `arch-arm/family-stm32f4x/family/gpio.h`, over the output registers of the ports. The
condition is the whole sum. -/
def stm32f4x : Pins (Nat → BitVec 16) where
  gpioSet c odr :=
    let port := c.gpio / 16
    let bit := if (c.gpio % 16 : Nat) + c.value ≠ 0 then 0 else 16
    Function.update odr port (writeBsrr (1#32 <<< bit) (odr port))
  level k odr := (odr (k / 16)).getLsbD (k % 16)

section Keeps

theorem setClear_getLsbD {w pin : Nat} (hpin : pin < w) (value : Int) (out : BitVec w) (k : Nat) :
    (setClear (1#w <<< pin) value out).getLsbD k =
      if k = pin then decide (value ≠ 0) else out.getLsbD k := by
  have hmask : (1#w <<< pin).getLsbD k = decide (k = pin) := by
    rw [← BitVec.twoPow_eq, BitVec.getLsbD_twoPow, decide_eq_true hpin, Bool.true_and]
    exact decide_eq_decide.mpr eq_comm
  unfold setClear
  by_cases hvalue : value ≠ 0
  · rw [if_pos hvalue, BitVec.getLsbD_or, hmask, decide_eq_true hvalue]
    by_cases hk : k = pin <;> simp [hk]
  · rw [if_neg hvalue, BitVec.getLsbD_and, BitVec.getLsbD_not, hmask, decide_eq_false hvalue]
    by_cases hk : k = pin
    · simp [hk]
    · rw [if_neg hk, decide_eq_false hk, Bool.not_false, Bool.and_true]
      by_cases hlt : k < w
      · rw [decide_eq_true hlt, Bool.and_true]
      · rw [BitVec.getLsbD_of_ge _ _ (by omega), Bool.false_and]

/-- A port of `w` bits keeps its pins. -/
theorem port_getLsbD {w : Nat} (hw : 0 < w) (reg : Nat → Nat) (hreg : Function.Injective reg)
    (k gpio : Nat) (value : Int) (s : Nat → BitVec w) :
    (Function.update s (reg (gpio / w)) (setClear (1#w <<< (gpio % w)) value (s (reg (gpio / w))))
        (reg (k / w))).getLsbD (k % w) =
      if gpio = k then decide (value ≠ 0) else (s (reg (k / w))).getLsbD (k % w) := by
  by_cases hport : k / w = gpio / w
  · rw [hport, Function.update_self, setClear_getLsbD (Nat.mod_lt _ hw)]
    congr 1
    refine propext ⟨fun hpin => ?_, fun h => by rw [h]⟩
    rw [← Nat.div_add_mod gpio w, ← Nat.div_add_mod k w, hport, hpin]
  · rw [Function.update_of_ne (fun h => hport (hreg h)), if_neg]
    intro h
    exact hport (by rw [h])

theorem atmega_keeps (k gpio : Nat) : atmega.Keeps k gpio := by
  intro value sfr
  have hreg : Function.Injective fun port => PORTS_BASE + port * 3 + 2 := by
    intro a b h
    have h' : PORTS_BASE + a * 3 + 2 = PORTS_BASE + b * 3 + 2 := h
    omega
  have hport := port_getLsbD (show 0 < 8 by decide) _ hreg k gpio value sfr
  unfold setClear at hport
  unfold atmega
  rw [← hport]
  dsimp only
  split <;> rfl

/-- The nRF5x has one port. -/
theorem nrf5x_keeps (k : Nat) {gpio : Nat} (hgpio : gpio < 32) : nrf5x.Keeps k gpio := by
  intro value out
  show (setClear (1#32 <<< (gpio % 32)) value out).getLsbD k = _
  rw [Nat.mod_eq_of_lt hgpio, setClear_getLsbD hgpio]
  simp only [eq_comm]
  rfl

theorem kl25z_keeps (k gpio : Nat) : kl25z.Keeps k gpio :=
  fun value out => port_getLsbD (by decide) id Function.injective_id k gpio value out

/-- Any bit that is written is the first one of its half. -/
theorem writeBsrr_bit (value : Int) (odr : BitVec 16) :
    writeBsrr (1#32 <<< if value ≠ 0 then 0 else 16) odr = setClear (1#16 <<< 0) value odr := by
  unfold writeBsrr setClear
  by_cases hvalue : value ≠ 0
  · rw [if_pos hvalue, if_pos hvalue, show ((1#32 <<< 0) >>> 16).setWidth 16 = 0#16 by decide,
      show (1#32 <<< 0).setWidth 16 = 1#16 <<< 0 by decide, BitVec.not_zero, BitVec.and_allOnes]
  · rw [if_neg hvalue, if_neg hvalue,
      show ((1#32 <<< 16) >>> 16).setWidth 16 = 1#16 <<< 0 by decide,
      show (1#32 <<< 16).setWidth 16 = 0#16 by decide, BitVec.or_zero]

/-- **The STM32F4** has the first pin of the port changed, whichever was asked for. -/
theorem stm32_level (k : Nat) (c : GpioSet) (odr : Nat → BitVec 16) :
    stm32f4x.level k (stm32f4x.gpioSet c odr) =
      if k / 16 = c.gpio / 16 ∧ k % 16 = 0 then decide ((c.gpio % 16 : Nat) + c.value ≠ 0)
      else stm32f4x.level k odr := by
  show (Function.update odr (c.gpio / 16) (writeBsrr (1#32 <<<
    if (c.gpio % 16 : Nat) + c.value ≠ 0 then 0 else 16) (odr (c.gpio / 16))) (k / 16)).getLsbD
      (k % 16) = _
  rw [writeBsrr_bit]
  by_cases hport : k / 16 = c.gpio / 16
  · rw [hport, Function.update_self, setClear_getLsbD (by decide)]
    by_cases hpin : k % 16 = 0
    · rw [if_pos hpin, if_pos ⟨rfl, hpin⟩]
    · rw [if_neg hpin, if_neg (fun h => hpin h.2), ← hport]
      rfl
  · rw [Function.update_of_ne hport, if_neg (fun h => hport h.1)]
    rfl

end Keeps

-- ---------------------------------------------------------------------------
-- debug_bitbang.c
-- ---------------------------------------------------------------------------

section Driver

variable (clockGpio dataGpio : Nat)

/-- The loop of `__bitbang_putc`, with `n` bits left. Whether a `char` is signed does not
matter: the mask stays below 2⁸. -/
def putcLoop (c : UInt8) : Nat → Nat → List GpioSet
  | 0, _ => []
  | n + 1, mask =>
    ⟨dataGpio, (c.toNat &&& mask : Nat)⟩ :: ⟨clockGpio, 1⟩ :: ⟨clockGpio, 0⟩ ::
      putcLoop c n (mask <<< 1)

/-- `__bitbang_putc`. -/
def bitbangPutc (c : UInt8) : List GpioSet := putcLoop clockGpio dataGpio c 8 1

/-- `__send_start`. -/
def sendStart : List GpioSet :=
  [⟨clockGpio, 1⟩, ⟨dataGpio, 0⟩, ⟨dataGpio, 1⟩, ⟨dataGpio, 0⟩, ⟨clockGpio, 0⟩]

/-- The loop of `bitbang_puts`. -/
def putsLoop : List UInt8 → List GpioSet
  | [] => []
  | c :: buf => if c = 0 then [] else bitbangPutc clockGpio dataGpio c ++ putsLoop buf

/-- `bitbang_puts`. -/
def bitbangPuts (buf : List UInt8) : List GpioSet :=
  sendStart clockGpio dataGpio ++ putsLoop clockGpio dataGpio buf

/-- `console_putc`. -/
def consolePutc (c : Int) : List GpioSet :=
  sendStart clockGpio dataGpio ++ bitbangPutc clockGpio dataGpio (UInt8.ofInt c)

/-- `bitbang_write`. -/
def bitbangWrite (buf : Nat → UInt8) (len : Int) : List GpioSet × Int :=
  (sendStart clockGpio dataGpio ++
    (List.range len.toNat).flatMap fun i => bitbangPutc clockGpio dataGpio (buf i), len)

/-- A call of the console. -/
inductive Call where
  | puts (buf : List UInt8)
  | putc (c : Int)
  | write (buf : Nat → UInt8) (len : Int)

/-- What a call does with the gpios. -/
def Call.sets : Call → List GpioSet
  | .puts buf => bitbangPuts clockGpio dataGpio buf
  | .putc c => consolePutc clockGpio dataGpio c
  | .write buf len => (bitbangWrite clockGpio dataGpio buf len).1

end Driver

-- ---------------------------------------------------------------------------
-- Listening
-- ---------------------------------------------------------------------------

/-- The text of a call. -/
def Call.text : Call → List UInt8
  | .puts buf => buf.takeWhile (· ≠ 0)
  | .putc c => [UInt8.ofInt c]
  | .write buf len => (List.range len.toNat).map buf

/-- The texts that were heard, the first one first. -/
def texts (messages : List (List Bool)) : List (List UInt8) :=
  (messages.map fun bits => (numbers 8 bits).map UInt8.ofNat).reverse

/-- The bits of a text. -/
def textBits (text : List UInt8) : List Bool := text.flatMap fun c => bitsOf 8 c.toNat

theorem numbers_textBits (text : List UInt8) :
    (numbers 8 (textBits text)).map UInt8.ofNat = text := by
  have hflat : textBits text = (text.map UInt8.toNat).flatMap (bitsOf 8) :=
    (List.flatMap_map UInt8.toNat (bitsOf 8) text).symm
  rw [hflat, numbers_flatMap (by decide), List.map_map, List.map_map]
  refine (List.map_congr_left fun c _ => ?_).trans (List.map_id text)
  show UInt8.ofNat (c.toNat % 2 ^ 8) = c
  rw [Nat.mod_eq_of_lt c.toNat_lt]
  exact UInt8.ofNat_toNat

section Hear

variable {clockGpio dataGpio : Nat} {r : Listener}

/-- The two lines of a board. -/
def Pins.lines (P : Pins σ) (clockGpio dataGpio : Nat) (s : σ) : Lines where
  clock := P.level clockGpio s
  data := P.level dataGpio s

/-- A call on a board, and a look at its lines. -/
def Pins.look (P : Pins σ) (clockGpio dataGpio : Nat) (p : σ × Listener) (c : GpioSet) :
    σ × Listener :=
  let s := P.gpioSet c p.1
  (s, p.2.see (P.lines clockGpio dataGpio s))

/-- The same with the lines alone. -/
def hear (clockGpio dataGpio : Nat) (r : Listener) (c : GpioSet) : Listener :=
  r.see {
    clock := if c.gpio = clockGpio then decide (c.value ≠ 0) else r.lines.clock
    data := if c.gpio = dataGpio then decide (c.value ≠ 0) else r.lines.data }

/-- The calls on other pins do not matter to the listener. -/
theorem look_eq_hear {P : Pins σ} {hist : List GpioSet}
    (hkeeps : ∀ c ∈ hist, P.Keeps clockGpio c.gpio ∧ P.Keeps dataGpio c.gpio) {s : σ}
    (hlines : r.lines = P.lines clockGpio dataGpio s) :
    (runFrom (P.look clockGpio dataGpio) (s, r) hist).2 =
      runFrom (hear clockGpio dataGpio) r
        (hist.filter fun c => c.gpio = clockGpio ∨ c.gpio = dataGpio) := by
  induction hist generalizing s r with
  | nil => rfl
  | cons c hist ih =>
    obtain ⟨hclock, hdata⟩ := hkeeps c List.mem_cons_self
    have hafter : P.lines clockGpio dataGpio (P.gpioSet c s) =
        ⟨if c.gpio = clockGpio then decide (c.value ≠ 0) else r.lines.clock,
          if c.gpio = dataGpio then decide (c.value ≠ 0) else r.lines.data⟩ := by
      rw [hlines]
      exact congrArg₂ Lines.mk (hclock c.value s) (hdata c.value s)
    have hlook : P.look clockGpio dataGpio (s, r) c =
        (P.gpioSet c s, hear clockGpio dataGpio r c) := by
      show (P.gpioSet c s, r.see (P.lines clockGpio dataGpio (P.gpioSet c s))) = _
      rw [hafter]
      rfl
    rw [runFrom_cons, hlook, ih (fun d hd => hkeeps d (List.mem_cons_of_mem c hd)) hafter.symm]
    by_cases hours : c.gpio = clockGpio ∨ c.gpio = dataGpio
    · rw [List.filter_cons_of_pos (by simpa using hours), runFrom_cons]
    · rw [List.filter_cons_of_neg (by simpa using hours)]
      obtain ⟨hnclock, hndata⟩ := not_or.mp hours
      unfold hear
      rw [if_neg hnclock, if_neg hndata]
      exact congrArg (runFrom _ · _) (see_self r)

/-- These calls send these bits of the message that is coming. -/
def Sends (clockGpio dataGpio : Nat) (cs : List GpioSet) (bits : List Bool) : Prop :=
  ∀ d m ms, ∃ d', runFrom (hear clockGpio dataGpio) ⟨⟨false, d⟩, m :: ms⟩ cs =
    ⟨⟨false, d'⟩, (m ++ bits) :: ms⟩

theorem sends_nil : Sends clockGpio dataGpio [] [] := by
  intro d m ms
  refine ⟨d, ?_⟩
  rw [runFrom_nil, List.append_nil]

theorem Sends.append {cs cs' : List GpioSet} {bits bits' : List Bool}
    (h : Sends clockGpio dataGpio cs bits) (h' : Sends clockGpio dataGpio cs' bits') :
    Sends clockGpio dataGpio (cs ++ cs') (bits ++ bits') := by
  intro d m ms
  obtain ⟨d₁, hrun⟩ := h d m ms
  obtain ⟨d₂, hrun'⟩ := h' d₁ (m ++ bits) ms
  refine ⟨d₂, ?_⟩
  rw [runFrom_append, hrun, hrun', List.append_assoc]

theorem sends_flatMap {α : Type*} {send : α → List GpioSet} {bits : α → List Bool}
    (h : ∀ a, Sends clockGpio dataGpio (send a) (bits a)) (as : List α) :
    Sends clockGpio dataGpio (as.flatMap send) (as.flatMap bits) := by
  induction as with
  | nil => exact sends_nil
  | cons a as ih =>
    rw [List.flatMap_cons, List.flatMap_cons]
    exact (h a).append ih

theorem putcLoop_gpio (c : UInt8) (n mask : Nat) : ∀ x ∈ putcLoop clockGpio dataGpio c n mask,
    x.gpio = clockGpio ∨ x.gpio = dataGpio := by
  induction n generalizing mask with
  | zero =>
    intro x hx
    exact absurd hx List.not_mem_nil
  | succ n ih =>
    intro x hx
    simp only [putcLoop, List.mem_cons] at hx
    rcases hx with rfl | rfl | rfl | hx
    · exact Or.inr rfl
    · exact Or.inl rfl
    · exact Or.inl rfl
    · exact ih _ x hx

theorem putsLoop_gpio (buf : List UInt8) : ∀ x ∈ putsLoop clockGpio dataGpio buf,
    x.gpio = clockGpio ∨ x.gpio = dataGpio := by
  induction buf with
  | nil =>
    intro x hx
    exact absurd hx List.not_mem_nil
  | cons c buf ih =>
    intro x hx
    unfold putsLoop at hx
    split at hx
    · exact absurd hx List.not_mem_nil
    · exact (List.mem_append.mp hx).elim (putcLoop_gpio c 8 1 x) (ih x)

theorem sendStart_gpio : ∀ x ∈ sendStart clockGpio dataGpio,
    x.gpio = clockGpio ∨ x.gpio = dataGpio := by
  simp [sendStart]

/-- The console uses no other gpios. -/
theorem Call.sets_gpio (call : Call) : ∀ x ∈ call.sets clockGpio dataGpio,
    x.gpio = clockGpio ∨ x.gpio = dataGpio := by
  intro x hx
  cases call with
  | puts buf => exact (List.mem_append.mp hx).elim (sendStart_gpio x) (putsLoop_gpio buf x)
  | putc c => exact (List.mem_append.mp hx).elim (sendStart_gpio x) (putcLoop_gpio _ 8 1 x)
  | write buf len =>
    refine (List.mem_append.mp hx).elim (sendStart_gpio x) fun hx => ?_
    obtain ⟨i, -, hx⟩ := List.mem_flatMap.mp hx
    exact putcLoop_gpio (buf i) 8 1 x hx

variable (hne : clockGpio ≠ dataGpio)

include hne

/-- One turn of the loop: the data line is set, and the clock goes up and down. -/
theorem hear_pulse (value : Int) (d : Bool) (ms : List (List Bool)) :
    runFrom (hear clockGpio dataGpio) ⟨⟨false, d⟩, ms⟩
        [⟨dataGpio, value⟩, ⟨clockGpio, 1⟩, ⟨clockGpio, 0⟩] =
      ⟨⟨false, decide (value ≠ 0)⟩, addBit (decide (value ≠ 0)) ms⟩ := by
  refine Eq.trans ?_ (listen_pulse (r := ⟨⟨false, d⟩, ms⟩) rfl (decide (value ≠ 0)))
  simp [hear, hne, hne.symm]

theorem sends_putcLoop (c : UInt8) (n i : Nat) :
    Sends clockGpio dataGpio (putcLoop clockGpio dataGpio c n (2 ^ i))
      ((List.range' i n).map c.toNat.testBit) := by
  induction n generalizing i with
  | zero => exact sends_nil
  | succ n ih =>
    have hbit : decide (((c.toNat &&& 2 ^ i : Nat) : Int) ≠ 0) = c.toNat.testBit i := by
      rw [Nat.and_two_pow]
      cases c.toNat.testBit i <;> simp
    have hpulse : Sends clockGpio dataGpio
        [⟨dataGpio, (c.toNat &&& 2 ^ i : Nat)⟩, ⟨clockGpio, 1⟩, ⟨clockGpio, 0⟩]
        [c.toNat.testBit i] := by
      intro d m ms
      refine ⟨c.toNat.testBit i, ?_⟩
      rw [hear_pulse hne, hbit]
      rfl
    have hmask : 2 ^ i <<< 1 = 2 ^ (i + 1) := by
      rw [Nat.shiftLeft_eq, Nat.pow_one, Nat.pow_succ]
    unfold putcLoop
    rw [hmask, List.range'_succ, List.map_cons]
    exact hpulse.append (ih (i + 1))

theorem sends_putc (c : UInt8) :
    Sends clockGpio dataGpio (bitbangPutc clockGpio dataGpio c) (bitsOf 8 c.toNat) := by
  have h := sends_putcLoop hne c 8 0
  rw [← List.range_eq_range'] at h
  exact h

theorem sends_putsLoop (buf : List UInt8) :
    Sends clockGpio dataGpio (putsLoop clockGpio dataGpio buf)
      (textBits (buf.takeWhile (· ≠ 0))) := by
  induction buf with
  | nil => exact sends_nil
  | cons c buf ih =>
    unfold putsLoop
    by_cases hc : c = 0
    · rw [if_pos hc, List.takeWhile_cons_of_neg (by simpa using hc)]
      exact sends_nil
    · rw [if_neg hc, List.takeWhile_cons_of_pos (by simpa using hc)]
      exact (sends_putc hne c).append ih

/-- A start. -/
theorem hear_start (r : Listener) : ∃ old,
    runFrom (hear clockGpio dataGpio) r (sendStart clockGpio dataGpio) =
      ⟨⟨false, false⟩, [] :: old⟩ ∧
      (old = r.messages ∨ ∃ b, old = addBit b r.messages) := by
  refine ⟨_, Eq.trans ?_ (listen_start r), ?_⟩
  · simp [hear, sendStart, hne, hne.symm]
  · by_cases hclock : r.lines.clock
    · rw [if_pos hclock]
      exact Or.inl rfl
    · rw [if_neg hclock]
      exact Or.inr ⟨_, rfl⟩

/-- What every call is: a start and the bits of its text. -/
theorem Call.sets_eq (call : Call) : ∃ cs,
    call.sets clockGpio dataGpio = sendStart clockGpio dataGpio ++ cs ∧
      Sends clockGpio dataGpio cs (textBits call.text) := by
  cases call with
  | puts buf => exact ⟨_, rfl, sends_putsLoop hne buf⟩
  | putc c =>
    refine ⟨_, rfl, ?_⟩
    show Sends clockGpio dataGpio _ (textBits [UInt8.ofInt c])
    rw [textBits, List.flatMap_singleton]
    exact sends_putc hne _
  | write buf len =>
    refine ⟨_, rfl, ?_⟩
    show Sends clockGpio dataGpio _ (textBits ((List.range len.toNat).map buf))
    rw [textBits, List.flatMap_map]
    exact sends_flatMap (fun i => sends_putc hne (buf i)) _

omit hne in
/-- Another bit behind the last message does not matter unless seven are there already. -/
theorem texts_addBit {ms : List (List Bool)} (h : ∀ m ∈ ms.head?, m.length % 8 ≠ 7) (b : Bool) :
    texts (addBit b ms) = texts ms := by
  cases ms with
  | nil => rfl
  | cons m ms =>
    have hm := h m rfl
    have hsame : numbers 8 (m ++ [b]) = numbers 8 m := numbers_concat (by omega) b
    unfold texts addBit
    rw [List.map_cons, List.map_cons, hsame]

/-- **A call**, from any state of the lines and of the listener. -/
theorem hear_call (call : Call) (r : Listener) : ∃ d old,
    runFrom (hear clockGpio dataGpio) r (call.sets clockGpio dataGpio) =
      ⟨⟨false, d⟩, textBits call.text :: old⟩ ∧ old.length = r.messages.length ∧
      ((∀ m ∈ r.messages.head?, m.length % 8 ≠ 7) → texts old = texts r.messages) := by
  obtain ⟨cs, hsets, hsends⟩ := call.sets_eq hne
  obtain ⟨old, hstart, hold⟩ := hear_start hne r
  obtain ⟨d, hrun⟩ := hsends false [] old
  refine ⟨d, old, ?_, ?_⟩
  · rw [hsets, runFrom_append, hstart, hrun, List.nil_append]
  · rcases hold with rfl | ⟨b, rfl⟩
    · exact ⟨rfl, fun _ => rfl⟩
    · exact ⟨addBit_length b _, fun h => texts_addBit h b⟩

theorem hear_calls (calls : List Call) (r : Listener) : ∃ old,
    texts (runFrom (hear clockGpio dataGpio) r
        (calls.flatMap (Call.sets clockGpio dataGpio))).messages = old ++ calls.map Call.text ∧
      old.length = r.messages.length ∧
      ((∀ m ∈ r.messages.head?, m.length % 8 ≠ 7) → old = texts r.messages) := by
  induction calls generalizing r with
  | nil =>
    refine ⟨texts r.messages, (List.append_nil _).symm, ?_, fun _ => rfl⟩
    rw [texts, List.length_reverse, List.length_map]
  | cons call calls ih =>
    obtain ⟨d, old, hcall, hlen, hold⟩ := hear_call hne call r
    obtain ⟨olds, htexts, -, holds⟩ := ih ⟨⟨false, d⟩, textBits call.text :: old⟩
    have hwhole : ∀ m ∈ (textBits call.text :: old).head?, m.length % 8 ≠ 7 := by
      intro m hm
      obtain rfl := Option.some.inj hm
      have hbits : (textBits call.text).length = call.text.length * 8 := by
        rw [textBits, List.length_flatMap]
        simp
      omega
    have hcons : texts (textBits call.text :: old) = texts old ++ [call.text] := by
      unfold texts
      rw [List.map_cons, List.reverse_cons, numbers_textBits]
    refine ⟨texts old, ?_, ?_, hold⟩
    · rw [List.flatMap_cons, runFrom_append, hcall, htexts, holds hwhole, hcons,
        List.append_assoc]
      rfl
    · rw [texts, List.length_reverse, List.length_map, hlen]

end Hear

-- ---------------------------------------------------------------------------
-- Boards
-- ---------------------------------------------------------------------------

/-- The boards that set the pin they are asked for. -/
inductive Board where
  | atmega32u4 | nrf51822 | kl25z

/-- The output registers. -/
def Board.State : Board → Type
  | .atmega32u4 => Nat → BitVec 8
  | .nrf51822 => BitVec 32
  | .kl25z => Nat → BitVec 32

def Board.pins : (b : Board) → Pins b.State
  | .atmega32u4 => atmega
  | .nrf51822 => nrf5x
  | .kl25z => Bitbang.kl25z

/-- How many gpios there are. -/
def Board.ngpio : Board → Nat
  | .atmega32u4 => 40
  | .nrf51822 => 32
  | .kl25z => 160

theorem Board.keeps (b : Board) (k : Nat) {gpio : Nat} (h : gpio < b.ngpio) :
    b.pins.Keeps k gpio := by
  cases b with
  | atmega32u4 => exact atmega_keeps k gpio
  | nrf51822 => exact nrf5x_keeps k h
  | kl25z => exact kl25z_keeps k gpio

section Console

variable {clockGpio dataGpio : Nat}

/-- **The console is heard.** In any run of the board's gpios in which what is done with the
two lines is what calls of the console do with them, a listener has the text of every call
behind what it had before; and that is as it was, unless it is in the middle of a byte. -/
theorem console_heard (b : Board) (hne : clockGpio ≠ dataGpio) {hist : List GpioSet}
    (hgpios : ∀ c ∈ hist, c.gpio < b.ngpio) {calls : List Call}
    (hcalls : (hist.filter fun c => c.gpio = clockGpio ∨ c.gpio = dataGpio) =
      calls.flatMap (Call.sets clockGpio dataGpio))
    {s : b.State} {r : Listener} (hlines : r.lines = b.pins.lines clockGpio dataGpio s) :
    ∃ old, texts (runFrom (b.pins.look clockGpio dataGpio) (s, r) hist).2.messages =
        old ++ calls.map Call.text ∧ old.length = r.messages.length ∧
      ((∀ m ∈ r.messages.head?, m.length % 8 ≠ 7) → old = texts r.messages) := by
  have hkeeps : ∀ c ∈ hist, b.pins.Keeps clockGpio c.gpio ∧ b.pins.Keeps dataGpio c.gpio :=
    fun c hc => ⟨b.keeps clockGpio (hgpios c hc), b.keeps dataGpio (hgpios c hc)⟩
  rw [look_eq_hear hkeeps hlines, hcalls]
  exact hear_calls hne calls r

/-- The console of the ATmega32U4 on PB4 and PB5, and an LED on PC7 that is switched meanwhile. -/
theorem console_heard_led : ∃ old, texts (runFrom (Board.atmega32u4.pins.look 4 5)
    ((fun _ => 0 : Nat → BitVec 8), ⟨⟨false, false⟩, []⟩)
    (⟨15, 1⟩ :: (Call.putc 65).sets 4 5 ++ [⟨15, 0⟩])).2.messages = old ++ [[65]] ∧
      old.length = 0 := by
  obtain ⟨old, hold, hlen, -⟩ := @console_heard 4 5 .atmega32u4 (by decide)
    (⟨15, 1⟩ :: (Call.putc 65).sets 4 5 ++ [⟨15, 0⟩]) (by decide) [.putc 65] rfl
    (fun _ => 0 : Nat → BitVec 8) ⟨⟨false, false⟩, []⟩ rfl
  exact ⟨old, hold, hlen⟩

-- ---------------------------------------------------------------------------
-- STM32F4
-- ---------------------------------------------------------------------------

/-- A pin that is not the first of its port is never changed. -/
theorem stm32_level_of_ne {k : Nat} (hk : k % 16 ≠ 0) (c : GpioSet) (odr : Nat → BitVec 16) :
    stm32f4x.level k (stm32f4x.gpioSet c odr) = stm32f4x.level k odr := by
  rw [stm32_level, if_neg (fun h => hk h.2)]

/-- Two first pins, of two ports. -/
theorem stm32_keeps {k gpio : Nat} (hk : k % 16 = 0) (hgpio : gpio % 16 = 0) :
    stm32f4x.Keeps k gpio := by
  intro value odr
  rw [stm32_level, hgpio]
  by_cases h : gpio = k
  · rw [if_pos ⟨by rw [h], hk⟩, if_pos h, Nat.cast_zero, Int.zero_add]
  · have hport : k / 16 ≠ gpio / 16 := by omega
    rw [if_neg (fun h' => hport h'.1), if_neg h]

/-- With a clock that never changes there are no bits. -/
theorem stm32_silent (hclock : clockGpio % 16 ≠ 0) (hist : List GpioSet)
    {s : Nat → BitVec 16} {r : Listener}
    (hlines : r.lines = stm32f4x.lines clockGpio dataGpio s) (hr : ∀ m ∈ r.messages, m = []) :
    ∀ m ∈ (runFrom (stm32f4x.look clockGpio dataGpio) (s, r) hist).2.messages, m = [] := by
  induction hist generalizing s r with
  | nil => exact hr
  | cons c hist ih =>
    refine ih rfl fun m hm => ?_
    have hsame : (stm32f4x.lines clockGpio dataGpio (stm32f4x.gpioSet c s)).clock =
        r.lines.clock := by
      rw [hlines]
      exact stm32_level_of_ne hclock c s
    rcases see_messages_of_clock hsame with h | h
    · exact hr m (h ▸ hm)
    · rcases List.mem_cons.mp (h ▸ hm) with rfl | hm
      · rfl
      · exact hr m hm

/-- With a data line that never changes there are no messages. -/
theorem stm32_deaf (hdata : dataGpio % 16 ≠ 0) (hist : List GpioSet)
    {s : Nat → BitVec 16} {r : Listener}
    (hlines : r.lines = stm32f4x.lines clockGpio dataGpio s) :
    (runFrom (stm32f4x.look clockGpio dataGpio) (s, r) hist).2.messages.length =
      r.messages.length := by
  induction hist generalizing s r with
  | nil => rfl
  | cons c hist ih =>
    refine (ih rfl).trans (see_messages_of_data ?_)
    rw [hlines]
    exact stm32_level_of_ne hdata c s

/-- **The console of the STM32F4** is heard from the first call on exactly if its two gpios
are both the first of their ports. -/
theorem stm32_console_iff (hne : clockGpio ≠ dataGpio) :
    (∀ (calls : List Call) (s : Nat → BitVec 16),
      texts (runFrom (stm32f4x.look clockGpio dataGpio)
        (s, ⟨stm32f4x.lines clockGpio dataGpio s, []⟩)
        (calls.flatMap (Call.sets clockGpio dataGpio))).2.messages = calls.map Call.text) ↔
      clockGpio % 16 = 0 ∧ dataGpio % 16 = 0 := by
  constructor
  · intro h
    have hone := h [.putc 65] fun _ => 0
    constructor
    · by_contra hclock
      have hmem : [65] ∈ texts (runFrom (stm32f4x.look clockGpio dataGpio)
          (fun _ => 0, ⟨stm32f4x.lines clockGpio dataGpio fun _ => 0, []⟩)
          ([Call.putc 65].flatMap (Call.sets clockGpio dataGpio))).2.messages := by
        rw [hone]
        exact List.mem_singleton_self _
      obtain ⟨bits, hbits, htext⟩ := List.mem_map.mp (List.mem_reverse.mp hmem)
      obtain rfl := stm32_silent hclock _ rfl (fun m hm => absurd hm List.not_mem_nil) bits hbits
      cases htext
    · by_contra hdata
      have hlen := congrArg List.length hone
      rw [texts, List.length_reverse, List.length_map, stm32_deaf hdata _ rfl] at hlen
      cases hlen
  · intro ⟨hclock, hdata⟩ calls s
    have hours : ∀ c ∈ calls.flatMap (Call.sets clockGpio dataGpio),
        c.gpio = clockGpio ∨ c.gpio = dataGpio := by
      intro c hc
      obtain ⟨call, -, hc⟩ := List.mem_flatMap.mp hc
      exact call.sets_gpio c hc
    have hkeeps : ∀ c ∈ calls.flatMap (Call.sets clockGpio dataGpio),
        stm32f4x.Keeps clockGpio c.gpio ∧ stm32f4x.Keeps dataGpio c.gpio := by
      intro c hc
      have hgpio : c.gpio % 16 = 0 := by
        rcases hours c hc with h | h
        · rw [h, hclock]
        · rw [h, hdata]
      exact ⟨stm32_keeps hclock hgpio, stm32_keeps hdata hgpio⟩
    rw [look_eq_hear hkeeps rfl, List.filter_eq_self.mpr fun c hc => decide_eq_true (hours c hc)]
    obtain ⟨old, htexts, hlen, -⟩ := hear_calls hne calls
      ⟨stm32f4x.lines clockGpio dataGpio s, []⟩
    rw [htexts, List.length_eq_zero_iff.mp hlen, List.nil_append]

/-- On pins 4 and 5 of a port, those of the ATmega's default, it is not. -/
theorem stm32_console_pb4 : ¬ ∀ (calls : List Call) (s : Nat → BitVec 16),
    texts (runFrom (stm32f4x.look 20 21) (s, ⟨stm32f4x.lines 20 21 s, []⟩)
      (calls.flatMap (Call.sets 20 21))).2.messages = calls.map Call.text := by
  intro h
  have hfirst := (stm32_console_iff (show 20 ≠ 21 by decide)).mp h
  exact absurd hfirst.1 (by decide)

end Console

end Bitbang

end Bathos.Drivers
