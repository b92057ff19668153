import Bathos.Drivers.W1Eeprom
import Bathos.Printf.Xint
import Mathlib.Data.BitVec
import Mathlib.Data.List.TakeWhile

/-!
# Bathos — the one-wire task

`drivers/w1-temp.c`, and the task that logs what is on a one-wire bus, `tasks/task-w1.c`.
An odd run of the task starts a conversion; the next one prints the temperature, and eight
bytes of the EEPROM, eight further on each time.

A temperature is in 16.16 fixed point; `degrees` is what the comments of the driver say it
is, and `readLog` reads the log back. An `int` has 32 bits here.

Main results:

* `temperature_iff` — when the temperature that is returned is the one meant;
* `log_temperature` — the number in the log is the temperature meant, on the same condition;
* `log_eeprom` — the log of a run holds the EEPROM from its start on.
-/

namespace Bathos.Drivers

open Bathos.Lib Bathos.Printf

namespace W1

-- ---------------------------------------------------------------------------
-- w1-temp.c
-- ---------------------------------------------------------------------------

/-- `W1_CMDT_CONVERT`. -/
def W1_CMDT_CONVERT : Nat := 0x44

/-- `W1_CMDT_R_SPAD`. -/
def W1_CMDT_R_SPAD : Nat := 0xbe

/-- The `flags` of a reading: `W1_FLAG_NOWAIT` and `W1_FLAG_COLLECT`. -/
structure TempFlags where
  nowait : Bool
  collect : Bool
deriving DecidableEq, Repr

/-- `w1_class`. -/
def w1Class (rom : BitVec 64) : Nat := (rom &&& 0xff#64).toNat

/-- Supported, at least for temperature input. -/
def hasTemp (rom : BitVec 64) : Bool := w1Class rom ∈ [0x10, 0x28, 0x42]

/-- `1l << 31`: very negative. -/
def noTemp : BitVec 32 := 0x80000000#32

/-- `cval`. -/
def cval (spad : List UInt8) : BitVec 16 :=
  BitVec.ofNat 16 ((spad.getD 1 0).toNat <<< 8 ||| (spad.getD 0 0).toNat)

/-- `res`. -/
def temperature (cls : Nat) (spad : List UInt8) : BitVec 32 :=
  let cval := (cval spad).signExtend 32
  if cls = 0x10 then
    -- 18S20: two bytes plus "count remain" value
    ((cval <<< 15) - 0x4000#32) ||| (BitVec.ofNat 32 (spad.getD 6 0).toNat <<< 12)
  else if cls = 0x28 ∨ cls = 0x42 then
    -- 18B20 and DS28EA00: only the two bytes
    cval <<< 12
  else 0

section Code

variable {σ : Type} (ops : W1Ops σ)

/-- The wait for the conversion, for `fuel` bits at most. -/
def waitConversion : Nat → σ → Option σ
  | 0, _ => none
  | fuel + 1, s =>
    let r := ops.readBit s
    if r.1 = 0 then waitConversion fuel r.2 else some r.2

/-- `w1_read_temp` from `collect` on. -/
def collectTemp (rom : BitVec 64) (s : σ) : BitVec 32 × σ :=
  let r := readBytes ops 8 (writeByte ops W1_CMDT_R_SPAD (matchRom ops rom s))
  (temperature (w1Class rom) (r.1.map UInt8.ofNat), r.2)

/-- `w1_read_temp`, for a device with the code `rom`. -/
def readTemp (fuel : Nat) (rom : BitVec 64) (flags : TempFlags) (s : σ) :
    Option (BitVec 32 × σ) :=
  -- The caller is expected to have checked the class. but still...
  if !hasTemp rom then some (noTemp, s)
  -- If so asked, jump over start-conversion and only collect result
  else if flags.collect then some (collectTemp ops rom s)
  else
    let s := writeByte ops W1_CMDT_CONVERT (matchRom ops rom s)
    -- If so asked, don't wait for the conversion to be over
    if flags.nowait then some (0, s)
    else (waitConversion ops fuel s).map (collectTemp ops rom)

/-- The first device of a bus for which `p` holds. -/
def firstDev (p : BitVec 64 → Bool) (devs : Nat → BitVec 64) : Option (BitVec 64) :=
  ((List.range W1_MAX_DEVICES).map devs).find? p

/-- `w1_read_temp_bus`. -/
def readTempBus (fuel : Nat) (devs : Nat → BitVec 64) (flags : TempFlags) (s : σ) :
    Option (BitVec 32 × σ) :=
  match firstDev hasTemp devs with
  | some rom => readTemp ops fuel rom flags s
  | none => some (noTemp, s)

/-- `w1_read_eeprom_bus`. -/
def readEepromBus (devs : Nat → BitVec 64) (offset blen : Nat) (s : σ) : Int × List UInt8 × σ :=
  match firstDev (fun rom => w1Class rom = 0x43) devs with
  | some rom => readEeprom ops rom offset blen s
  | none => (-1, [], s)

-- ---------------------------------------------------------------------------
-- task-w1.c
-- ---------------------------------------------------------------------------

/-- A call of `printf`. -/
structure PrintCall where
  fmt : String
  args : List Nat
deriving DecidableEq, Repr

/-- The strings that the calls point to: `"-"` and `""`. -/
def signs : Strings := fun a => if a = 1 then ['-'] else []

/-- What is printed for `t`, the temperature of the bus. -/
def printTemp (t : BitVec 32) : List PrintCall :=
  if t ≠ 0x8000#32 <<< 16 then
    let sign := t &&& 0x80000000#32 ≠ 0
    let t := if sign then -t else t
    [⟨"temp 0x%08x: %s%i.%04i\n", [t.toNat, if sign then 1 else 2, (t >>> 16).toNat,
      (((t &&& 0xffff#32) * 10#32 * 1000#32) >>> 16).toNat]⟩]
  else []

/-- What is printed for the bytes of an EEPROM. -/
def printEeprom (offset : Nat) (buf : List UInt8) : List PrintCall :=
  ⟨"eeprom data @ 0x%08x: ", [offset]⟩ :: (List.range 8).map fun i =>
    ⟨"%02x%c", [(buf.getD i 0).toNat, (if i = 7 then '\n' else ' ').toNat]⟩

/-- `w1_job`, with `nrun` before the call: what it prints, and the bus. -/
def w1Job (devs : Nat → BitVec 64) (nrun : Nat) (s : σ) : Option (List PrintCall × σ) :=
  let nrun := nrun + 1
  -- odd: start reading temperature
  if nrun &&& 1 ≠ 0 then
    (readTempBus ops 0 devs ⟨true, false⟩ s).map fun r => ([], r.2)
  else
    -- even: collect temperature or error
    (readTempBus ops 0 devs ⟨false, true⟩ s).map fun r =>
      -- we only run at even times, starting from 2
      let offset := (nrun - 2) * 4
      let e := readEepromBus ops devs offset 8 r.2
      (printTemp r.1 ++ if e.1 = 8 then printEeprom offset e.2.1 else [], e.2.2)

/-- The task run `n` times, with `nrun` before. -/
def w1Jobs (devs : Nat → BitVec 64) : Nat → Nat → σ → Option (List PrintCall × σ)
  | 0, _, s => some ([], s)
  | n + 1, nrun, s =>
    (w1Job ops devs nrun s).bind fun r =>
      (w1Jobs devs n (nrun + 1) r.2).map fun rest => (r.1 ++ rest.1, rest.2)

end Code

-- ---------------------------------------------------------------------------
-- The temperature
-- ---------------------------------------------------------------------------

/-- The temperature meant, for the classes that have one: the count remain of a 18S20 is in
sixteenths, above a quarter of a degree less. -/
def degrees (cls : Nat) (spad : List UInt8) : ℚ :=
  if cls = 0x10 then (cval spad).toInt / 2 - 1 / 4 + (spad.getD 6 0).toNat / 16
  else (cval spad).toInt / 16

/-- What a 16.16 number is. -/
def fixed (t : BitVec 32) : ℚ := t.toInt / 65536

/-- The halves of a degree of a 18S20, less a quarter. -/
def halves (spad : List UInt8) : BitVec 32 := ((cval spad).signExtend 32 <<< 15) - 0x4000#32

/-- The count remain of a 18S20, in its place. -/
def remain (spad : List UInt8) : BitVec 32 := BitVec.ofNat 32 (spad.getD 6 0).toNat <<< 12

section Temperature

/-- An or is a sum but for the bits in common. -/
theorem or_add_and {w : Nat} (x y : BitVec w) : (x ||| y) + (x &&& y) = x + y := by
  have hor : x + (y &&& ~~~x) = x ||| y := by
    rw [BitVec.add_eq_or_of_and_eq_zero x (y &&& ~~~x) (by ext i; simp; intro h _; simp [h])]
    ext i
    cases hx : x[i] <;> simp [hx]
  have hy : (y &&& ~~~x) + (x &&& y) = y := by
    rw [BitVec.add_eq_or_of_and_eq_zero (y &&& ~~~x) (x &&& y) (by ext i; cases hx : x[i] <;> simp [hx])]
    ext i
    cases hx : x[i] <;> simp [hx]
  rw [← hor, BitVec.add_assoc, hy]

theorem or_eq_add_iff {w : Nat} (x y : BitVec w) : x ||| y = x + y ↔ x &&& y = 0#w := by
  rw [← or_add_and x y, eq_comm]
  exact add_eq_left

variable (spad : List UInt8)

theorem cval_bounds : -32768 ≤ (cval spad).toInt ∧ (cval spad).toInt ≤ 32767 := by
  have hlo := BitVec.le_toInt (cval spad)
  have hhi := BitVec.toInt_le (x := cval spad)
  constructor <;> omega

theorem cval_shift {k : Nat} (hk : k ≤ 15) :
    ((cval spad).signExtend 32 <<< k).toInt = (cval spad).toInt * 2 ^ k := by
  obtain ⟨hlo, hhi⟩ := cval_bounds spad
  have hpow : (2 : Int) ^ k ≤ 2 ^ 15 := pow_le_pow_right₀ (by norm_num) hk
  have hpos : (0 : Int) < 2 ^ k := by positivity
  have hsign : ((cval spad).signExtend 32).toInt = (cval spad).toInt :=
    BitVec.toInt_signExtend_of_le (by decide)
  rw [BitVec.toInt_shiftLeft, Nat.shiftLeft_eq, Nat.cast_mul, ← Int.bmod_mul_bmod,
    ← BitVec.toInt_eq_toNat_bmod, hsign, Int.bmod_eq_of_le]
  · push_cast
    ring
  · push_cast
    nlinarith
  · push_cast
    nlinarith

theorem halves_toInt : (halves spad).toInt = (cval spad).toInt * 2 ^ 15 - 0x4000 := by
  obtain ⟨hlo, hhi⟩ := cval_bounds spad
  unfold halves
  rw [BitVec.toInt_sub, cval_shift spad le_rfl, show (0x4000#32).toInt = 0x4000 from rfl,
    Int.bmod_eq_of_le] <;> omega

theorem remain_toInt : (remain spad).toInt = (spad.getD 6 0).toNat * 2 ^ 12 := by
  have hlt := (spad.getD 6 0).toNat_lt
  unfold remain
  rw [BitVec.toInt_eq_toNat_of_lt] <;>
    rw [BitVec.toNat_shiftLeft, BitVec.toNat_ofNat, Nat.shiftLeft_eq] <;> omega

theorem sum_toInt : (halves spad + remain spad).toInt =
    (cval spad).toInt * 2 ^ 15 - 0x4000 + (spad.getD 6 0).toNat * 2 ^ 12 := by
  obtain ⟨hlo, hhi⟩ := cval_bounds spad
  have hlt := (spad.getD 6 0).toNat_lt
  rw [BitVec.toInt_add, halves_toInt, remain_toInt, Int.bmod_eq_of_le] <;> omega

/-- **When the temperature is the one meant**: always for the classes with two bytes, and for
a 18S20 if the bits or'ed in are not there yet. -/
theorem temperature_iff {cls : Nat} (hcls : cls ∈ [0x10, 0x28, 0x42]) :
    fixed (temperature cls spad) = degrees cls spad ↔
      (cls = 0x10 → halves spad &&& remain spad = 0#32) := by
  unfold fixed degrees temperature
  by_cases hclass : cls = 0x10
  · have hsum : ((halves spad + remain spad).toInt : ℚ) / 65536 =
        (cval spad).toInt / 2 - 1 / 4 + (spad.getD 6 0).toNat / 16 := by
      rw [sum_toInt]
      push_cast
      ring
    rw [if_pos hclass, if_pos hclass, ← hsum]
    show ((halves spad ||| remain spad).toInt : ℚ) / 65536 = _ ↔ _
    rw [div_left_inj' (by norm_num), Int.cast_inj, BitVec.toInt_inj, or_eq_add_iff]
    exact ⟨fun h _ => h, fun h => h hclass⟩
  · have htwo : cls = 0x28 ∨ cls = 0x42 := by
      simp only [List.mem_cons, List.not_mem_nil, or_false] at hcls
      exact hcls.resolve_left hclass
    rw [if_neg hclass, if_neg hclass, if_pos htwo, cval_shift spad (by decide)]
    refine iff_of_true ?_ fun h => absurd h hclass
    push_cast
    ring

/-- A temperature is in sixteenths. -/
theorem temperature_sixteenths (cls : Nat) : ∃ y : BitVec 32, temperature cls spad = y <<< 12 := by
  unfold temperature
  by_cases hclass : cls = 0x10
  · have hhalves : halves spad = ((cval spad).signExtend 32 <<< 3 - 4#32) <<< 12 := by
      unfold halves
      simp only [BitVec.shiftLeft_eq_mul_twoPow]
      rw [sub_mul, mul_assoc]
      rfl
    refine ⟨((cval spad).signExtend 32 <<< 3 - 4#32) ||| BitVec.ofNat 32 (spad.getD 6 0).toNat, ?_⟩
    rw [if_pos hclass, BitVec.shiftLeft_or_distrib, ← hhalves]
    rfl
  · rw [if_neg hclass]
    split
    · exact ⟨_, rfl⟩
    · exact ⟨0, rfl⟩

/-- A device that is there is not taken for none. -/
theorem temperature_ne (cls : Nat) : temperature cls spad ≠ noTemp := by
  intro h
  unfold temperature at h
  split at h
  · -- The quarter of a degree is there whatever the rest is.
    have hhalves : (halves spad).getLsbD 14 = true := by
      have hint := halves_toInt spad
      rw [BitVec.toInt_eq_toNat_cond] at hint
      rw [BitVec.getLsbD, Nat.testBit_eq_decide_div_mod_eq]
      refine decide_eq_true ?_
      split at hint <;> omega
    have hbit : (halves spad ||| remain spad).getLsbD 14 = noTemp.getLsbD 14 := by
      rw [← h]
      rfl
    rw [BitVec.getLsbD_or, hhalves] at hbit
    cases hbit
  · split at h
    · have hint := congrArg BitVec.toInt h
      rw [cval_shift spad (by decide)] at hint
      have := cval_bounds spad
      have hno : noTemp.toInt = -2147483648 := rfl
      omega
    · cases h

end Temperature

-- ---------------------------------------------------------------------------
-- Numbers in the log
-- ---------------------------------------------------------------------------

section Digits

variable (base : Base) (n : Nat)

theorem numeral_digits : AllDigits base ((numeral base.val n).map (digitChar true)) := by
  intro c hc
  obtain ⟨d, hd, rfl⟩ := List.mem_map.mp hc
  have hbase : 1 < base.val := by cases base <;> decide
  exact digitChar_isDigit base true d (numeral_lt hbase hd)

theorem printed_field (zero : Bool) (wid : Int) : Xint.printed zero wid base n =
    field { noFlags with zeropad := zero } wid [] ((numeral base.val n).map (digitChar true)) := by
  unfold Xint.printed
  rw [if_neg (Int.natCast_nonneg n).not_gt, Int.natAbs_natCast]

/-- A number without a sign has zeros in front at most. -/
theorem printed_eq {zero : Bool} {wid : Int} (h : zero = true ∨ wid ≤ 1) :
    ∃ z, Xint.printed zero wid base n =
      List.replicate z '0' ++ (numeral base.val n).map (digitChar true) := by
  have hpos : 0 < (numeral base.val n).length := List.length_pos_iff.mpr (numeral_ne_nil _ _)
  rw [printed_field]
  cases zero with
  | true => exact ⟨_, rfl⟩
  | false =>
    have hwid : wid ≤ 1 := h.resolve_left nofun
    refine ⟨0, ?_⟩
    have hgap : (wid - ([] ++ (numeral base.val n).map (digitChar true)).length).toNat = 0 := by
      rw [List.nil_append, List.length_map]
      omega
    unfold field
    rw [hgap]
    rfl

theorem printed_digits {zero : Bool} {wid : Int} (h : zero = true ∨ wid ≤ 1) :
    AllDigits base (Xint.printed zero wid base n) := by
  obtain ⟨z, heq⟩ := printed_eq base n h
  rw [heq]
  intro c hc
  rcases List.mem_append.mp hc with hc | hc
  · rw [List.eq_of_mem_replicate hc]
    cases base <;> decide
  · exact numeral_digits base n c hc

theorem readNumeral_all {text : List Char} (h : AllDigits base text) :
    readNumeral base text = readDigits base.val 0 (text.map charVal) := by
  unfold readNumeral
  rw [List.takeWhile_eq_self_iff.mpr h]

theorem printed_reads {zero : Bool} {wid : Int} (h : zero = true ∨ wid ≤ 1) :
    readNumeral base (Xint.printed zero wid base n) = n := by
  have hbase : 1 < base.val ∧ base.val ≤ 16 := by cases base <;> decide
  rw [readNumeral_all base (printed_digits base n h)]
  obtain ⟨z, heq⟩ := printed_eq base n h
  have hread : (numeral base.val n).map (charVal ∘ digitChar true) = numeral base.val n := by
    conv_rhs => rw [← List.map_id (numeral base.val n)]
    exact List.map_congr_left fun d hd =>
      digitChar_read true d ((numeral_lt hbase.1 hd).trans_le hbase.2)
  rw [heq, List.map_append, List.map_replicate, List.map_map, hread]
  exact (readDigits_zeros base.val z _).trans (readDigits_numeral hbase.1 n)

theorem printed_length {k : Nat} (hk : 0 < k) (hn : n < base.val ^ k) :
    (Xint.printed true k base n).length = k := by
  have hbase : 1 < base.val := by cases base <;> decide
  have hle : (numeral base.val n).length ≤ k := by
    unfold numeral
    rw [List.length_reverse]
    exact lowDigits_length_le hbase hk hn
  have hlen := field_length (k : Int) { noFlags with zeropad := true } []
    ((numeral base.val n).map (digitChar true))
  rw [List.nil_append, List.length_map, ← printed_field] at hlen
  omega

end Digits

-- ---------------------------------------------------------------------------
-- The log
-- ---------------------------------------------------------------------------

/-- What a call prints, with either version of the formatter. -/
def Prints (l : Nat) (c : PrintCall) (text : List Char) : Prop :=
  (∃ fuel, Printf.vsprintf l signs fuel (c.fmt.toList ++ [NUL]) c.args =
      some (.ok ⟨text, []⟩)) ∧
    Xint.vsprintf l signs (c.fmt.toList ++ [NUL]) c.args = .ok text

/-- What some calls print. -/
def PrintsAll (l : Nat) (calls : List PrintCall) (text : List Char) : Prop :=
  ∃ texts, List.Forall₂ (Prints l) calls texts ∧ text = texts.flatten

/-- What a line of the log says. -/
inductive Entry where
  | temp (degrees : ℚ)
  | eeprom (address : Nat) (bytes : List UInt8)

/-- A number with a point. -/
def readDecimal (text : List Char) : ℚ :=
  let negative := text.head? = some '-'
  let text := if negative then text.tail else text
  let whole := text.takeWhile (· ≠ '.')
  let frac := (text.dropWhile (· ≠ '.')).tail
  let m : ℚ := readNumeral .dec whole + readNumeral .dec frac / 10 ^ frac.length
  if negative then -m else m

/-- Bytes with a character in between. -/
def readHex : List Char → List UInt8
  | a :: b :: _ :: rest => UInt8.ofNat (readNumeral .hex [a, b]) :: readHex rest
  | [a, b] => [UInt8.ofNat (readNumeral .hex [a, b])]
  | _ => []

def readLine (line : List Char) : Option Entry :=
  if "temp 0x".toList.isPrefixOf line then some (.temp (readDecimal (line.drop 17)))
  else if "eeprom data @ 0x".toList.isPrefixOf line then
    some (.eeprom (readNumeral .hex ((line.drop 16).take 8)) (readHex (line.drop 26)))
  else none

def readLog (text : List Char) : List Entry := (text.splitOn '\n').filterMap readLine

section Log

variable {l : Nat}

theorem printsAll_append {calls calls' : List PrintCall} {text text' : List Char}
    (h : PrintsAll l calls text) (h' : PrintsAll l calls' text') :
    PrintsAll l (calls ++ calls') (text ++ text') := by
  obtain ⟨texts, hall, rfl⟩ := h
  obtain ⟨texts', hall', rfl⟩ := h'
  exact ⟨texts ++ texts', List.rel_append hall hall', List.flatten_append.symm⟩

theorem printsAll_nil : PrintsAll l [] [] := ⟨[], .nil, rfl⟩

theorem printsAll_one {c : PrintCall} {text : List Char} (h : Prints l c text) :
    PrintsAll l [c] text := ⟨[text], .cons h .nil, by simp⟩

/-- A call with a format that both versions obey. -/
theorem prints_items (hl : 32 ≤ l) {items : List Xint.Item} (hok : ∀ i ∈ items, i.Ok l)
    (hsame : ∀ i ∈ items, i.Same) {c : PrintCall}
    (hfmt : Xint.format items = c.fmt.toList ++ [NUL]) (hargs : Xint.arguments items = c.args) :
    Prints l c (items.flatMap (Xint.Item.text l signs Xint.fullValue)) := by
  have hfull := @Xint.full_format l signs hl items hok []
  have hsmall := @Xint.vsprintf_format l signs items hok []
  rw [← (Xint.texts_eq_iff hok).mpr hsame] at hsmall
  rw [List.append_nil, hfmt, hargs] at hfull hsmall
  exact ⟨hfull, hsmall⟩

/-- The log is read line by line. -/
theorem readLog_line {line : List Char} (h : '\n' ∉ line) (rest : List Char) :
    readLog (line ++ '\n' :: rest) = (readLine line).toList ++ readLog rest := by
  unfold readLog
  rw [List.splitOn_append_cons_self_of_not_mem h, List.filterMap_cons]
  cases readLine line <;> rfl

/-- A number that begins with a digit and has one point. -/
theorem readDecimal_eq (negative : Bool) {whole frac : List Char} (hwhole : AllDigits .dec whole)
    (hne : whole ≠ []) :
    readDecimal ((if negative then ['-'] else []) ++ (whole ++ '.' :: frac)) =
      (if negative then -1 else 1) *
        (readNumeral .dec whole + readNumeral .dec frac / 10 ^ frac.length : ℚ) := by
  have hpoint : ∀ c ∈ whole, (decide (c ≠ '.')) = true := by
    intro c hc
    refine decide_eq_true fun h => ?_
    rw [h] at hc
    exact absurd (hwhole '.' hc) (by decide)
  have hhead : (whole ++ '.' :: frac).head? ≠ some '-' := by
    obtain ⟨c, rest, rfl⟩ := List.exists_cons_of_ne_nil hne
    intro h
    rw [List.cons_append, List.head?_cons, Option.some_inj] at h
    exact absurd (hwhole '-' (h ▸ List.mem_cons_self)) (by decide)
  have hsplit : (whole ++ '.' :: frac).takeWhile (· ≠ '.') = whole ∧
      ((whole ++ '.' :: frac).dropWhile (· ≠ '.')).tail = frac := by
    rw [List.takeWhile_append_of_pos hpoint, List.dropWhile_append_of_pos hpoint]
    simp
  unfold readDecimal
  cases negative with
  | true =>
    simp only [if_true, List.singleton_append, List.head?_cons, List.tail_cons, hsplit]
    ring
  | false =>
    simp only [Bool.false_eq_true, if_false, List.nil_append, hhead, hsplit]
    ring

/-- Characters that are printed as they are. -/
def literal (s : String) : List Xint.Item := s.toList.map .lit

theorem literal_ok {s : String} (h : s.toList.all (fun c => c ≠ NUL ∧ c ≠ '%') = true) :
    ∀ i ∈ literal s, i.Ok l := by
  intro i hi
  obtain ⟨c, hc, rfl⟩ := List.mem_map.mp hi
  exact of_decide_eq_true (List.all_eq_true.mp h c hc)

theorem literal_same (s : String) : ∀ i ∈ literal s, i.Same := by
  intro i hi
  obtain ⟨c, -, rfl⟩ := List.mem_map.mp hi
  exact trivial

theorem literal_text (s : String) :
    (literal s).flatMap (Xint.Item.text l signs Xint.fullValue) = s.toList := by
  unfold literal
  induction s.toList with
  | nil => rfl
  | cons c cs ih =>
    rw [List.map_cons, List.flatMap_cons, ih]
    rfl

theorem int_ok (zero : Bool) (wid : Option (Fin 9)) {conv : Char} (hconv : conv ∈ ['x', 'i'])
    (a : Nat) : (Xint.Item.int zero wid conv a).Ok l ∧ (Xint.Item.int zero wid conv a).Same := by
  simp only [List.mem_cons, List.not_mem_nil, or_false] at hconv
  rcases hconv with rfl | rfl
  · exact ⟨by simp [Xint.Item.Ok], nofun⟩
  · exact ⟨by simp [Xint.Item.Ok], nofun⟩

/-- What is printed for the magnitude `m` of a temperature. -/
def tempItems (negative : Bool) (m : Nat) : List Xint.Item :=
  literal "temp 0x" ++ .int true (some 7) 'x' m :: (literal ": " ++
    .str (if negative then 1 else 2) :: .int false none 'i' (m / 65536) :: (literal "." ++
      .int true (some 3) 'i' (m % 65536 * 10000 / 65536) :: literal "\n"))

theorem tempItems_format (negative : Bool) (m : Nat) :
    Xint.format (tempItems negative m) = "temp 0x%08x: %s%i.%04i\n".toList ++ [NUL] := by
  simp [Xint.format, tempItems, literal, render, Xint.Item.piece, Piece.render, Directive.body,
    Count.render, renderPrecision, Qualifier.render, numeral_of_lt]
  decide

theorem tempItems_ok (hl : 32 ≤ l) (negative : Bool) (m : Nat) :
    ∀ i ∈ tempItems negative m, i.Ok l := by
  have hpow : 2 ^ 32 ≤ 2 ^ l := Nat.pow_le_pow_right (by decide) hl
  have hstr : Xint.Item.Ok l (.str (if negative then 1 else 2)) := by
    show BitVec.ofNat l _ ≠ 0
    intro h
    have hnat := congrArg BitVec.toNat h
    rw [BitVec.toNat_ofNat, Nat.mod_eq_of_lt (by split <;> omega)] at hnat
    cases negative <;> cases hnat
  unfold tempItems
  simp only [List.forall_mem_append, List.forall_mem_cons]
  exact ⟨literal_ok (by decide), (int_ok true _ (by decide) _).1, literal_ok (by decide), hstr,
    (int_ok false _ (by decide) _).1, literal_ok (by decide), (int_ok true _ (by decide) _).1,
    literal_ok (by decide)⟩

theorem tempItems_same (negative : Bool) (m : Nat) : ∀ i ∈ tempItems negative m, i.Same := by
  unfold tempItems
  simp only [List.forall_mem_append, List.forall_mem_cons]
  exact ⟨literal_same _, (@int_ok 0 true _ _ (by decide) _).2, literal_same _, trivial,
    (@int_ok 0 false _ _ (by decide) _).2, literal_same _, (@int_ok 0 true _ _ (by decide) _).2,
    literal_same _⟩

theorem sign_iff (t : BitVec 32) : t &&& 0x80000000#32 ≠ 0 ↔ t.toInt < 0 := by
  have htop : 0x80000000#32 = BitVec.twoPow 32 31 := rfl
  have hmsb : t.getLsbD 31 = decide (t.toInt < 0) := @BitVec.msb_eq_toInt 32 t
  rw [htop, BitVec.and_twoPow, hmsb]
  by_cases h : t.toInt < 0 <;> simp [h]

theorem whole_toNat (u : BitVec 32) : (u >>> 16).toNat = u.toNat / 65536 := by
  rw [BitVec.toNat_ushiftRight, Nat.shiftRight_eq_div_pow]

theorem frac_toNat (u : BitVec 32) :
    ((u &&& 0xffff#32) * 10#32 * 1000#32).toNat = u.toNat % 65536 * 10000 := by
  have hmask : (u &&& 0xffff#32).toNat = u.toNat % 65536 := by
    rw [BitVec.toNat_and]
    exact Nat.and_two_pow_sub_one_eq_mod u.toNat 16
  have hlt : u.toNat % 65536 < 65536 := Nat.mod_lt _ (by decide)
  rw [BitVec.toNat_mul, BitVec.toNat_mul, hmask, BitVec.toNat_ofNat, BitVec.toNat_ofNat]
  omega

/-- The call for a temperature that is there. -/
theorem printTemp_eq {t : BitVec 32} (ht : t ≠ noTemp) :
    printTemp t = [⟨"temp 0x%08x: %s%i.%04i\n",
      Xint.arguments (tempItems (decide (t.toInt < 0)) t.toInt.natAbs)⟩] := by
  have habs : (if t.toInt < 0 then -t else t).toNat = t.toInt.natAbs :=
    Xint.magnitude_eq .dec t
  have hcond : t ≠ 0x8000#32 <<< 16 := ht
  unfold printTemp
  rw [if_pos hcond]
  simp only [sign_iff, whole_toNat, frac_toNat, habs]
  by_cases hneg : t.toInt < 0 <;> simp [hneg, Xint.arguments, tempItems, literal,
    Xint.Item.args]

theorem hexText {m : Nat} (hm : m < 2 ^ 32) (w : Fin 9) :
    Xint.Item.text l signs Xint.fullValue (.int true (some w) 'x' m) =
      Xint.printed true (w.val + 1 : Nat) .hex m := by
  have hvalue : Xint.fullValue 'x' (BitVec.ofNat 32 m) = m := by
    show ((BitVec.ofNat 32 m).toNat : Int) = m
    rw [BitVec.toNat_ofNat, Nat.mod_eq_of_lt hm]
  show Xint.printed true (w.val + 1 : Nat) .hex (Xint.fullValue 'x' (BitVec.ofNat 32 m)) = _
  rw [hvalue]

theorem decText {m : Nat} (hm : m < 2 ^ 31) (zero : Bool) (wid : Option (Fin 9)) :
    Xint.Item.text l signs Xint.fullValue (.int zero wid 'i' m) =
      Xint.printed zero (Xint.widthOf wid) .dec m := by
  have hvalue : Xint.fullValue 'i' (BitVec.ofNat 32 m) = m := by
    show (BitVec.ofNat 32 m).toInt = m
    rw [BitVec.toInt_eq_toNat_of_lt] <;> rw [BitVec.toNat_ofNat, Nat.mod_eq_of_lt] <;> omega
  show Xint.printed zero (Xint.widthOf wid) .dec (Xint.fullValue 'i' (BitVec.ofNat 32 m)) = _
  rw [hvalue]

theorem signText_eq (hl : 32 ≤ l) (negative : Bool) :
    Xint.Item.text l signs Xint.fullValue (.str (if negative then 1 else 2)) =
      if negative then ['-'] else [] := by
  have hpow : 2 ^ 32 ≤ 2 ^ l := Nat.pow_le_pow_right (by decide) hl
  show signs (BitVec.ofNat l (if negative then 1 else 2)).toNat = _
  rw [BitVec.toNat_ofNat, Nat.mod_eq_of_lt (by split <;> omega)]
  cases negative <;> rfl

/-- The text for a temperature. -/
theorem tempText (hl : 32 ≤ l) (negative : Bool) {m : Nat} (hm : m < 2 ^ 31) :
    (tempItems negative m).flatMap (Xint.Item.text l signs Xint.fullValue) =
      "temp 0x".toList ++ (Xint.printed true 8 .hex m ++ (": ".toList ++
        ((if negative then ['-'] else []) ++ (Xint.printed false 1 .dec (m / 65536 : Nat) ++
          '.' :: Xint.printed true 4 .dec (m % 65536 * 10000 / 65536 : Nat))))) ++ ['\n'] := by
  have hwhole : m / 65536 < 2 ^ 31 := by omega
  have hfrac : m % 65536 * 10000 / 65536 < 2 ^ 31 := by omega
  have hhex := @hexText l m (by omega) 7
  have hdec := @decText l _ hwhole false none
  have hdec' := @decText l _ hfrac true (some 3)
  have hsign := @signText_eq l hl negative
  unfold tempItems
  simp only [List.flatMap_cons, List.flatMap_append, literal_text, hhex, hdec, hdec', hsign]
  simp only [List.append_assoc]
  rfl

/-- What is behind a field and what separates it. -/
theorem drop_field {text : List Char} {n : Nat} (h : text.length = n) (mid rest : List Char) :
    (text ++ (mid ++ rest)).drop (n + mid.length) = rest := by
  rw [← List.append_assoc]
  exact List.drop_left' (by rw [List.length_append, h])

/-- No line has an end in it. -/
theorem newline_digits {base : Base} {text : List Char} (h : AllDigits base text) :
    '\n' ∉ text := by
  intro hmem
  have hdigit := h '\n' hmem
  cases base <;> cases hdigit

/-- The fraction of sixteenths has four digits. -/
theorem sixteenths {m : Nat} (hm : 4096 ∣ m) :
    (m / 65536 : Nat) + (m % 65536 * 10000 / 65536 : Nat) / (10 : ℚ) ^ 4 = m / 65536 := by
  obtain ⟨j, rfl⟩ := hm
  have hfrac : 4096 * j % 65536 * 10000 / 65536 = j % 16 * 625 := by omega
  have hwhole : 4096 * j / 65536 = j / 16 := by omega
  have hj : (j : ℚ) = (16 * (j / 16 : Nat) + (j % 16 : Nat) : ℚ) := by
    exact_mod_cast (Nat.div_add_mod j 16).symm
  rw [hfrac, hwhole]
  push_cast
  rw [hj]
  ring

/-- The one value without an absolute value is the one for no temperature. -/
theorem natAbs_lt {t : BitVec 32} (ht : t ≠ noTemp) : t.toInt.natAbs < 2 ^ 31 := by
  have hlo := BitVec.le_toInt t
  have hhi := BitVec.toInt_lt (x := t)
  have hne : t.toInt ≠ -2147483648 := by
    intro h
    exact ht (BitVec.eq_of_toInt_eq (h.trans rfl))
  omega

theorem natAbs_dvd {t y : BitVec 32} (hy : t = y <<< 12) : 4096 ∣ t.toInt.natAbs := by
  have hnat : t.toNat % 4096 = 0 := by
    rw [hy, BitVec.toNat_shiftLeft, Nat.shiftLeft_eq]
    omega
  have hint := BitVec.toInt_eq_toNat_cond t
  split at hint <;> omega

/-- Sign and absolute value. -/
theorem fixed_eq (t : BitVec 32) :
    fixed t = (if decide (t.toInt < 0) then -1 else 1) * (t.toInt.natAbs / 65536 : ℚ) := by
  have hint : t.toInt = (if decide (t.toInt < 0) then -1 else 1) * (t.toInt.natAbs : Int) := by
    by_cases h : t.toInt < 0
    · rw [if_pos (decide_eq_true h)]
      omega
    · rw [if_neg (by simpa using h)]
      omega
  have hcast := congrArg (Int.cast : Int → ℚ) hint
  rw [Int.cast_mul, Int.cast_natCast, apply_ite Int.cast, Int.cast_neg, Int.cast_one] at hcast
  unfold fixed
  rw [← mul_div_assoc, ← hcast]

/-- **The line for a temperature** says what it is. -/
theorem tempLine (hl : 32 ≤ l) {t : BitVec 32} (ht : t ≠ noTemp) {y : BitVec 32}
    (hy : t = y <<< 12) : ∃ line, '\n' ∉ line ∧ PrintsAll l (printTemp t) (line ++ ['\n']) ∧
      readLine line = some (.temp (fixed t)) := by
  have hbound := natAbs_lt ht
  have hdvd := natAbs_dvd hy
  have hvalue := fixed_eq t
  set m := t.toInt.natAbs
  set negative := decide (t.toInt < 0)
  have hhex : (Xint.printed true 8 .hex m).length = 8 :=
    printed_length .hex m (by decide) (hbound.trans (by decide))
  have hfrac : (Xint.printed true 4 .dec (m % 65536 * 10000 / 65536 : Nat)).length = 4 :=
    printed_length .dec _ (by decide) (by show _ < 10000; omega)
  have hwhole := printed_digits .dec (m / 65536) (show false = true ∨ (1 : Int) ≤ 1 from .inr le_rfl)
  refine ⟨"temp 0x".toList ++ (Xint.printed true 8 .hex m ++ (": ".toList ++
    ((if negative then ['-'] else []) ++ (Xint.printed false 1 .dec (m / 65536 : Nat) ++
      '.' :: Xint.printed true 4 .dec (m % 65536 * 10000 / 65536 : Nat))))), ?_, ?_, ?_⟩
  · have hsign : '\n' ∉ if negative then ['-'] else [] := by cases negative <;> decide
    simp only [List.mem_append, List.mem_cons, not_or]
    exact ⟨by decide, newline_digits (printed_digits .hex m (.inl rfl)), by decide, hsign,
      newline_digits hwhole, by decide, newline_digits (printed_digits .dec _ (.inl rfl))⟩
  · have hprints := @prints_items l hl (tempItems negative m) (tempItems_ok hl negative m)
      (tempItems_same negative m) ⟨"temp 0x%08x: %s%i.%04i\n", _⟩ (tempItems_format negative m) rfl
    rw [tempText hl negative hbound] at hprints
    rw [printTemp_eq ht]
    exact printsAll_one hprints
  · have hne : Xint.printed false 1 .dec (m / 65536 : Nat) ≠ [] := by
      obtain ⟨z, heq⟩ := printed_eq .dec (m / 65536) (show false = true ∨ (1 : Int) ≤ 1 from .inr le_rfl)
      rw [heq]
      simp [numeral_ne_nil]
    unfold readLine
    rw [if_pos (by simp)]
    rw [show 17 = "temp 0x".toList.length + (8 + ": ".toList.length) from rfl, List.drop_length_add_append,
      drop_field hhex, readDecimal_eq negative hwhole hne, printed_reads .dec _ (.inr le_rfl),
      printed_reads .dec _ (.inl rfl), hfrac, sixteenths hdvd, hvalue]

/-- What is printed for byte `i` of eight. -/
def byteItems (i : Nat) (b : UInt8) : List Xint.Item :=
  [.int true (some 1) 'x' b.toNat, .char (if i = 7 then '\n' else ' ').toNat]

def addressItems (offset : Nat) : List Xint.Item :=
  literal "eeprom data @ 0x" ++ .int true (some 7) 'x' offset :: literal ": "

theorem byteItems_format (i : Nat) (b : UInt8) :
    Xint.format (byteItems i b) = "%02x%c".toList ++ [NUL] := by
  simp [Xint.format, byteItems, render, Xint.Item.piece, Piece.render, Directive.body,
    Count.render, renderPrecision, Qualifier.render, numeral_of_lt]
  decide

theorem addressItems_format (offset : Nat) :
    Xint.format (addressItems offset) = "eeprom data @ 0x%08x: ".toList ++ [NUL] := by
  simp [Xint.format, addressItems, literal, render, Xint.Item.piece, Piece.render, Directive.body,
    Count.render, renderPrecision, Qualifier.render, numeral_of_lt]
  decide

/-- The text for a byte. -/
theorem byte_prints (hl : 32 ≤ l) (i : Nat) (b : UInt8) :
    Prints l ⟨"%02x%c", [b.toNat, (if i = 7 then '\n' else ' ').toNat]⟩
      (Xint.printed true 2 .hex b.toNat ++ [if i = 7 then '\n' else ' ']) := by
  have hok : ∀ j ∈ byteItems i b, j.Ok l := by
    simp only [byteItems, List.forall_mem_cons]
    exact ⟨(int_ok true _ (by decide) _).1, trivial, by simp⟩
  have hsame : ∀ j ∈ byteItems i b, j.Same := by
    simp only [byteItems, List.forall_mem_cons]
    exact ⟨(@int_ok 0 true _ _ (by decide) _).2, trivial, by simp⟩
  have hprints := @prints_items l hl (byteItems i b) hok hsame
    ⟨"%02x%c", [b.toNat, (if i = 7 then '\n' else ' ').toNat]⟩ (byteItems_format i b) rfl
  have hhex := @hexText l b.toNat (b.toNat_lt.trans (by decide)) 1
  have hchar : Xint.Item.text l signs Xint.fullValue (.char (if i = 7 then '\n' else ' ').toNat) =
      [if i = 7 then '\n' else ' '] := by
    split <;> rfl
  unfold byteItems at hprints
  rw [List.flatMap_cons, List.flatMap_cons, List.flatMap_nil, List.append_nil, hhex, hchar] at hprints
  exact hprints

theorem address_prints (hl : 32 ≤ l) {offset : Nat} (h : offset < 2 ^ 32) :
    Prints l ⟨"eeprom data @ 0x%08x: ", [offset]⟩
      ("eeprom data @ 0x".toList ++ (Xint.printed true 8 .hex offset ++ ": ".toList)) := by
  have hok : ∀ j ∈ addressItems offset, j.Ok l := by
    simp only [addressItems, List.forall_mem_append, List.forall_mem_cons]
    exact ⟨literal_ok (by decide), (int_ok true _ (by decide) _).1, literal_ok (by decide)⟩
  have hsame : ∀ j ∈ addressItems offset, j.Same := by
    simp only [addressItems, List.forall_mem_append, List.forall_mem_cons]
    exact ⟨literal_same _, (@int_ok 0 true _ _ (by decide) _).2, literal_same _⟩
  have hargs : Xint.arguments (addressItems offset) = [offset] := by
    simp [Xint.arguments, addressItems, literal, Xint.Item.args]
  have hprints := @prints_items l hl (addressItems offset) hok hsame
    ⟨"eeprom data @ 0x%08x: ", [offset]⟩ (addressItems_format offset) hargs
  have hhex := @hexText l offset h 7
  unfold addressItems at hprints
  rw [List.flatMap_append, List.flatMap_cons, literal_text, literal_text, hhex] at hprints
  exact hprints

/-- Bytes as they are printed, with a space in between. -/
def hexBytes : List UInt8 → List Char
  | [] => []
  | [b] => Xint.printed true 2 .hex b.toNat
  | b :: bs => Xint.printed true 2 .hex b.toNat ++ ' ' :: hexBytes bs

theorem hexBytes_cons (b b' : UInt8) (bs : List UInt8) : hexBytes (b :: b' :: bs) =
    Xint.printed true 2 .hex b.toNat ++ ' ' :: hexBytes (b' :: bs) := rfl

theorem readHex_hexBytes (bs : List UInt8) : readHex (hexBytes bs) = bs := by
  have hfield : ∀ b : UInt8, ∃ c d, Xint.printed true 2 .hex b.toNat = [c, d] ∧
      UInt8.ofNat (readNumeral .hex [c, d]) = b := by
    intro b
    have hlen : (Xint.printed true 2 .hex b.toNat).length = 2 :=
      printed_length .hex _ (by decide) b.toNat_lt
    have hread := printed_reads .hex b.toNat (show true = true ∨ (2 : Int) ≤ 1 from .inl rfl)
    obtain ⟨c, d, heq⟩ := List.length_eq_two.mp hlen
    rw [heq] at hread
    exact ⟨c, d, heq, by rw [hread, UInt8.ofNat_toNat]⟩
  induction bs with
  | nil => rfl
  | cons b bs ih =>
    obtain ⟨c, d, heq, hread⟩ := hfield b
    cases bs with
    | nil =>
      rw [hexBytes, heq, readHex, hread]
    | cons b' bs =>
      rw [hexBytes_cons, heq]
      show UInt8.ofNat (readNumeral .hex [c, d]) :: readHex (hexBytes (b' :: bs)) = _
      rw [hread, ih]

theorem hexBytes_newline (bs : List UInt8) : '\n' ∉ hexBytes bs := by
  have hfield : ∀ b : UInt8, '\n' ∉ Xint.printed true 2 .hex b.toNat :=
    fun b => newline_digits (printed_digits .hex b.toNat (.inl rfl))
  induction bs with
  | nil => exact List.not_mem_nil
  | cons b bs ih =>
    cases bs with
    | nil => exact hfield b
    | cons b' bs =>
      rw [hexBytes_cons]
      simp only [List.mem_append, List.mem_cons, not_or]
      exact ⟨hfield b, by decide, ih⟩

/-- The bytes one by one, with what is behind each. -/
theorem hexBytes_flatten {bs : List UInt8} (h : bs ≠ []) : hexBytes bs ++ ['\n'] =
    ((List.range bs.length).map fun i => Xint.printed true 2 .hex (bs.getD i 0).toNat ++
      [if i + 1 = bs.length then '\n' else ' ']).flatten := by
  induction bs with
  | nil => exact absurd rfl h
  | cons b bs ih =>
    cases bs with
    | nil =>
      simp only [hexBytes, List.length_singleton, List.range_one, List.map_singleton,
        List.flatten_singleton]
      rfl
    | cons b' bs =>
      have hrest := ih nofun
      have hcomp : (fun i => Xint.printed true 2 .hex ((b :: b' :: bs).getD i 0).toNat ++
          [if i + 1 = (b' :: bs).length + 1 then '\n' else ' ']) ∘ Nat.succ =
          fun i => Xint.printed true 2 .hex ((b' :: bs).getD i 0).toNat ++
            [if i + 1 = (b' :: bs).length then '\n' else ' '] := by
        funext i
        simp only [Function.comp_apply, List.getD_cons_succ, Nat.succ_eq_add_one,
          Nat.add_right_cancel_iff]
      rw [hexBytes_cons, List.length_cons, List.range_succ_eq_map, List.map_cons,
        List.flatten_cons, List.map_map, hcomp, ← hrest, List.append_assoc, List.append_assoc]
      simp

/-- **The line for eight bytes** says what they are. -/
theorem eepromLine (hl : 32 ≤ l) {offset : Nat} (h : offset < 2 ^ 32) {bs : List UInt8}
    (hbs : bs.length = 8) : ∃ line, '\n' ∉ line ∧
      PrintsAll l (printEeprom offset bs) (line ++ ['\n']) ∧
      readLine line = some (.eeprom offset bs) := by
  have hhex : (Xint.printed true 8 .hex offset).length = 8 :=
    printed_length .hex _ (by decide) h
  refine ⟨"eeprom data @ 0x".toList ++ (Xint.printed true 8 .hex offset ++ (": ".toList ++
    hexBytes bs)), ?_, ?_, ?_⟩
  · simp only [List.mem_append, not_or]
    exact ⟨by decide, newline_digits (printed_digits .hex offset (.inl rfl)), by decide,
      hexBytes_newline bs⟩
  · have hne : bs ≠ [] := fun h => by
      rw [h] at hbs
      cases hbs
    have hall := hexBytes_flatten hne
    rw [hbs] at hall
    refine ⟨_ :: _, .cons (address_prints hl h) (List.forall₂_map_left_iff.mpr
      (List.forall₂_map_right_iff.mpr (List.forall₂_same.mpr fun i _ =>
        byte_prints hl i (bs.getD i 0)))), ?_⟩
    simp only [Nat.reduceEqDiff] at hall
    rw [List.flatten_cons, ← hall]
    simp only [List.append_assoc]
  · unfold readLine
    rw [if_neg (by simp), if_pos (by simp)]
    rw [show 26 = "eeprom data @ 0x".toList.length + (8 + ": ".toList.length) from rfl,
      List.drop_length_add_append, drop_field hhex, readHex_hexBytes,
      show 16 = "eeprom data @ 0x".toList.length from rfl, List.drop_append_length,
      List.take_left' hhex, printed_reads .hex offset (.inl rfl)]

end Log

-- ---------------------------------------------------------------------------
-- The task
-- ---------------------------------------------------------------------------

/-- The eight bytes of the scratchpad of a thermometer. -/
def tempSpad {σ : Type} (ops : W1Ops σ) (rom : BitVec 64) (s : σ) : List UInt8 :=
  (readBytes ops 8 (writeByte ops W1_CMDT_R_SPAD (matchRom ops rom s))).1.map UInt8.ofNat

/-- What an entry says of the EEPROM. -/
def Entry.eeprom? : Entry → Option (Nat × List UInt8)
  | .temp _ => none
  | .eeprom address bytes => some (address, bytes)

section Task

variable {σ : Type} {ops : W1Ops σ} {devs : Nat → BitVec 64} {l : Nat} {rom : BitVec 64} {s : σ}

theorem readBytes_length (n : Nat) (s : σ) : (readBytes ops n s).1.length = n := by
  induction n generalizing s with
  | zero => rfl
  | succ n ih =>
    unfold readBytes
    rw [List.length_cons, ih]

theorem hasTemp_class (h : hasTemp rom = true) : w1Class rom ∈ [0x10, 0x28, 0x42] :=
  of_decide_eq_true h

/-- The temperature is collected without a wait. -/
theorem collect_eq (h : firstDev hasTemp devs = some rom) (fuel : Nat) (s : σ) :
    readTempBus ops fuel devs ⟨false, true⟩ s =
      some (temperature (w1Class rom) (tempSpad ops rom s), (collectTemp ops rom s).2) := by
  have htemp : hasTemp rom = true := by
    have := List.find?_some h
    exact this
  unfold readTempBus readTemp
  rw [h]
  simp only [htemp]
  rfl

/-- Neither of the calls of the task waits. -/
theorem readTempBus_returns {flags : TempFlags} (h : flags.nowait = true ∨ flags.collect = true)
    (fuel : Nat) (s : σ) : ∃ r, readTempBus ops fuel devs flags s = some r := by
  unfold readTempBus
  cases firstDev hasTemp devs with
  | none => exact ⟨_, rfl⟩
  | some rom =>
    unfold readTemp
    dsimp only
    split
    · exact ⟨_, rfl⟩
    · split
      · exact ⟨_, rfl⟩
      · next hcollect =>
        rw [if_pos (h.resolve_right hcollect)]
        exact ⟨_, rfl⟩

/-- Eight bytes at an offset are the ones at the address of sixteen bits. -/
theorem readEeprom_wraps (offset n : Nat) (s : σ) :
    readEeprom ops rom offset n s = readEeprom ops rom (offset % 65536) n s := by
  have hlsb : LSB_ADDR (offset % 65536) = LSB_ADDR offset := by
    rw [LSB_ADDR_eq, LSB_ADDR_eq]
    omega
  have hmsb : MSB_ADDR (offset % 65536) = MSB_ADDR offset := by
    have heq : ∀ x, MSB_ADDR x = x / 256 % 256 := by
      intro x
      unfold MSB_ADDR
      rw [Nat.shiftRight_and_distrib, Nat.shiftRight_eq_div_pow]
      exact Nat.and_two_pow_sub_one_eq_mod (x / 256) 8
    rw [heq, heq]
    omega
  unfold readEeprom
  rw [hlsb, hmsb]

/-- What is logged for the temperature, if there is a thermometer. -/
theorem temp_part (hl : 32 ≤ l) (devs : Nat → BitVec 64) (s : σ) :
    ∃ r text, readTempBus ops 0 devs ⟨false, true⟩ s = some r ∧
      PrintsAll l (printTemp r.1) text ∧
      ∀ rest, readLog (text ++ rest) =
        ((firstDev hasTemp devs).map fun _ => Entry.temp (fixed r.1)).toList ++ readLog rest := by
  cases hdev : firstDev hasTemp devs with
  | none =>
    have hread : readTempBus ops 0 devs ⟨false, true⟩ s = some (noTemp, s) := by
      unfold readTempBus
      rw [hdev]
    have hprint : printTemp noTemp = [] := if_neg (not_not.mpr rfl)
    refine ⟨_, [], hread, ?_, fun rest => rfl⟩
    rw [hprint]
    exact printsAll_nil
  | some rom =>
    obtain ⟨y, hy⟩ := temperature_sixteenths (tempSpad ops rom s) (w1Class rom)
    obtain ⟨line, hline, hprints, hreads⟩ :=
      tempLine hl (temperature_ne (tempSpad ops rom s) (w1Class rom)) hy
    refine ⟨_, _, collect_eq hdev 0 s, hprints, fun rest => ?_⟩
    rw [List.append_assoc, List.singleton_append, readLog_line hline, hreads]
    rfl

/-- What is logged for the EEPROM, if there is one. -/
theorem eeprom_part (hl : 32 ≤ l) (devs : Nat → BitVec 64) {offset : Nat}
    (hoffset : offset < 2 ^ 32) (s : σ) :
    ∃ text, PrintsAll l (if (readEepromBus ops devs offset 8 s).1 = 8 then
        printEeprom offset (readEepromBus ops devs offset 8 s).2.1 else []) text ∧
      ∀ rest, readLog (text ++ rest) =
        ((firstDev (fun rom => w1Class rom = 0x43) devs).map fun _ =>
          Entry.eeprom offset (readEepromBus ops devs offset 8 s).2.1).toList ++ readLog rest := by
  cases hdev : firstDev (fun rom => w1Class rom = 0x43) devs with
  | none =>
    have hread : readEepromBus ops devs offset 8 s = (-1, [], s) := by
      unfold readEepromBus
      rw [hdev]
    rw [hread]
    exact ⟨[], printsAll_nil, fun rest => rfl⟩
  | some rom =>
    have hread : readEepromBus ops devs offset 8 s = readEeprom ops rom offset 8 s := by
      unfold readEepromBus
      rw [hdev]
    have hlen : (readEeprom ops rom offset 8 s).2.1.length = 8 := by
      unfold readEeprom
      dsimp only
      rw [List.length_map, readBytes_length]
    rw [hread, if_pos (show (readEeprom ops rom offset 8 s).1 = 8 from rfl)]
    obtain ⟨line, hline, hprints, hreads⟩ := @eepromLine l hl offset hoffset _ hlen
    refine ⟨_, hprints, fun rest => ?_⟩
    rw [List.append_assoc, List.singleton_append, readLog_line hline, hreads]
    rfl

/-- An even run: what it logs. -/
theorem job_even (hl : 32 ≤ l) (devs : Nat → BitVec 64) {k : Nat} (hk : 8 * k < 2 ^ 32) (s : σ) :
    ∃ calls s' text r, readTempBus ops 0 devs ⟨false, true⟩ s = some r ∧
      w1Job ops devs (2 * k + 1) s = some (calls, s') ∧ PrintsAll l calls text ∧
      s' = (readEepromBus ops devs (8 * k) 8 r.2).2.2 ∧
      ∀ rest, readLog (text ++ rest) =
        ((firstDev hasTemp devs).map fun _ => Entry.temp (fixed r.1)).toList ++
        (((firstDev (fun rom => w1Class rom = 0x43) devs).map fun _ =>
          Entry.eeprom (8 * k) (readEepromBus ops devs (8 * k) 8 r.2).2.1).toList ++
        readLog rest) := by
  obtain ⟨r, text, hread, hprints, hlog⟩ := @temp_part σ ops l hl devs s
  obtain ⟨text', hprints', hlog'⟩ := @eeprom_part σ ops l hl devs (8 * k) hk r.2
  have hodd : ¬ (2 * k + 1 + 1 &&& 1 ≠ 0) := by
    rw [Nat.and_one_is_mod]
    omega
  have hoffset : (2 * k + 1 + 1 - 2) * 4 = 8 * k := by omega
  have hjob : w1Job ops devs (2 * k + 1) s = some (printTemp r.1 ++
      (if (readEepromBus ops devs (8 * k) 8 r.2).1 = 8 then
        printEeprom (8 * k) (readEepromBus ops devs (8 * k) 8 r.2).2.1 else []),
      (readEepromBus ops devs (8 * k) 8 r.2).2.2) := by
    unfold w1Job
    simp only
    rw [if_neg hodd, hread, Option.map_some, hoffset]
  refine ⟨_, _, text ++ text', r, hread, hjob, printsAll_append hprints hprints', rfl, fun rest => ?_⟩
  rw [List.append_assoc, hlog, hlog']

/-- An odd run starts a conversion, and logs nothing. -/
theorem job_odd (devs : Nat → BitVec 64) (k : Nat) (s : σ) :
    ∃ r, readTempBus ops 0 devs ⟨true, false⟩ s = some r ∧
      w1Job ops devs (2 * k) s = some ([], r.2) := by
  obtain ⟨r, hr⟩ := @readTempBus_returns σ ops devs ⟨true, false⟩ (.inl rfl) 0 s
  have hodd : 2 * k + 1 &&& 1 ≠ 0 := by
    rw [Nat.and_one_is_mod]
    omega
  refine ⟨r, hr, ?_⟩
  unfold w1Job
  simp only
  rw [if_pos hodd, hr, Option.map_some]

/-- **The temperature logged**, by either version of the formatter and whatever the bus is:
the log is read back as the temperature meant, unless a 18S20 has bits in common. -/
theorem log_temperature (hl : 32 ≤ l) (hrom : firstDev hasTemp devs = some rom) {k : Nat}
    (hk : 8 * k < 2 ^ 31) (s : σ) :
    ∃ calls s' text d rest, w1Job ops devs (2 * k + 1) s = some (calls, s') ∧
      PrintsAll l calls text ∧ readLog text = .temp d :: rest ∧
      (d = degrees (w1Class rom) (tempSpad ops rom s) ↔
        (w1Class rom = 0x10 → halves (tempSpad ops rom s) &&& remain (tempSpad ops rom s) = 0#32)) := by
  obtain ⟨calls, s', text, r, hread, hjob, hprints, -, hlog⟩ := @job_even σ ops l hl devs k (by omega) s
  rw [collect_eq hrom 0 s] at hread
  obtain rfl := Option.some.inj hread
  have hclass : w1Class rom ∈ [0x10, 0x28, 0x42] :=
    hasTemp_class (List.find?_some (p := hasTemp) hrom)
  have hall := hlog []
  rw [List.append_nil, hrom] at hall
  exact ⟨calls, s', text, _, _, hjob, hprints, hall, temperature_iff _ hclass⟩

/-- Two runs after `k` pairs of runs. -/
theorem jobs_pair (hl : 32 ≤ l) (P : Scratchpad ops rom)
    (hrom : firstDev (fun rom => w1Class rom = 0x43) devs = some rom)
    (hread : ∀ t < 65536, ∀ s, P.mem (readEeprom ops rom t 8 s).2.2 = P.mem s)
    (htemp : ∀ flags s r, readTempBus ops 0 devs flags s = some r → P.mem r.2 = P.mem s)
    {k : Nat} (hk : 8 * k < 2 ^ 31) (s : σ) :
    ∃ s₁ calls s' text, w1Job ops devs (2 * k) s = some ([], s₁) ∧
      w1Job ops devs (2 * k + 1) s₁ = some (calls, s') ∧ PrintsAll l calls text ∧
      P.mem s' = P.mem s ∧
      ∀ rest, (readLog (text ++ rest)).filterMap Entry.eeprom? =
        (8 * k, block (P.mem s) (8 * k % 65536) 8) :: (readLog rest).filterMap Entry.eeprom? := by
  obtain ⟨r₁, hstart, hodd⟩ := @job_odd σ ops devs k s
  obtain ⟨calls, s', text, r, hcollect, heven, hprints, hs', hlog⟩ :=
    @job_even σ ops l hl devs k (by omega) r₁.2
  have hmem : P.mem r.2 = P.mem s := (htemp _ _ _ hcollect).trans (htemp _ _ _ hstart)
  have hbus : readEepromBus ops devs (8 * k) 8 r.2 = readEeprom ops rom (8 * k % 65536) 8 r.2 := by
    unfold readEepromBus
    rw [hrom]
    exact readEeprom_wraps (8 * k) 8 r.2
  have hlt : 8 * k % 65536 < 65536 := Nat.mod_lt _ (by decide)
  have hspec := readEeprom_spec (s := r.2) P (show 0 < 8 by decide)
    (show 8 * k % 65536 + 8 ≤ 65536 by omega)
  refine ⟨r₁.2, calls, s', text, hodd, heven, hprints, ?_, fun rest => ?_⟩
  · rw [hs', hbus, hread _ hlt, hmem]
  · rw [hlog, hbus, hrom, hspec.2, hmem]
    cases firstDev hasTemp devs <;> rfl

theorem w1Jobs_succ (n nrun : Nat) (s : σ) : w1Jobs ops devs (n + 1) nrun s =
    (w1Job ops devs nrun s).bind fun r =>
      (w1Jobs ops devs n (nrun + 1) r.2).map fun rest => (r.1 ++ rest.1, rest.2) := rfl

/-- **The EEPROM in the log** of a run: eight bytes a line, from the start on, none left out;
the address that is printed goes on where the device starts again. -/
theorem log_eeprom (hl : 32 ≤ l) (P : Scratchpad ops rom)
    (hrom : firstDev (fun rom => w1Class rom = 0x43) devs = some rom)
    (hread : ∀ t < 65536, ∀ s, P.mem (readEeprom ops rom t 8 s).2.2 = P.mem s)
    (htemp : ∀ flags s r, readTempBus ops 0 devs flags s = some r → P.mem r.2 = P.mem s)
    {n : Nat} (hn : 8 * n ≤ 2 ^ 31) (s : σ) :
    ∃ calls s' text, w1Jobs ops devs (2 * n) 0 s = some (calls, s') ∧ PrintsAll l calls text ∧
      (readLog text).filterMap Entry.eeprom? =
        (List.range n).map fun k => (8 * k, block (P.mem s) (8 * k % 65536) 8) := by
  have hrun : ∀ n k s, 8 * (k + n) ≤ 2 ^ 31 → ∃ calls s' text,
      w1Jobs ops devs (2 * n) (2 * k) s = some (calls, s') ∧ PrintsAll l calls text ∧
      (readLog text).filterMap Entry.eeprom? =
        (List.range' k n).map fun k => (8 * k, block (P.mem s) (8 * k % 65536) 8) := by
    intro n
    induction n with
    | zero => exact fun k s _ => ⟨[], s, [], rfl, printsAll_nil, rfl⟩
    | succ n ih =>
      intro k s hk
      obtain ⟨s₁, calls, s', text, hodd, heven, hprints, hmem, hlog⟩ :=
        jobs_pair hl P hrom hread htemp (show 8 * k < 2 ^ 31 by omega) s
      obtain ⟨calls', s'', text', hjobs, hprints', hlog'⟩ := ih (k + 1) s' (by omega)
      refine ⟨calls ++ calls', s'', text ++ text', ?_, printsAll_append hprints hprints', ?_⟩
      · rw [show 2 * (n + 1) = 2 * n + 1 + 1 by omega, w1Jobs_succ, hodd, Option.bind_some,
          w1Jobs_succ, heven, Option.bind_some, show 2 * k + 1 + 1 = 2 * (k + 1) by omega, hjobs]
        rfl
      · rw [hlog, hlog', hmem, List.range'_succ, List.map_cons]
  obtain ⟨calls, s', text, hjobs, hprints, hlog⟩ := hrun n 0 s (by omega)
  rw [← List.range_eq_range'] at hlog
  exact ⟨calls, s', text, hjobs, hprints, hlog⟩

end Task

/-- A bus that is high all the time. -/
def idleBus : W1Ops Unit := ⟨some fun s => (1, s), fun s => (1, s), fun _ s => s⟩

/-- Ones are read as a sixteenth of a degree below zero. -/
theorem log_temperature_idle : ∃ calls s' text d rest,
    w1Job idleBus (fun _ => 0x28) 1 () = some (calls, s') ∧ PrintsAll 32 calls text ∧
      readLog text = .temp d :: rest ∧ d = -1 / 16 := by
  obtain ⟨calls, s', text, d, rest, hjob, hprints, hlog, hiff⟩ :=
    @log_temperature Unit idleBus (fun _ => 0x28) 32 0x28 le_rfl rfl 0 (by decide) ()
  have hcval : (cval (tempSpad idleBus 0x28 ())).toInt = -1 := rfl
  have hdegrees : degrees (w1Class 0x28) (tempSpad idleBus 0x28 ()) = -1 / 16 := by
    unfold degrees
    rw [if_neg (by decide), hcval]
    norm_num
  refine ⟨calls, s', text, d, rest, hjob, hprints, hlog, ?_⟩
  rw [hiff.mpr fun h => absurd h (by decide), hdegrees]

/-- The EEPROM alone on the bus. -/
def eepromDevs (i : Nat) : BitVec 64 := if i = 0 then 0x43 else 0

theorem readEeprom_mem (rom : BitVec 64) (t n : Nat) (d : Ds28ec20) :
    (readEeprom (Ds28ec20.ops rom) rom t n d).2.2.mem = d.mem := by
  have hcmd : W1_CMDR_R_MEMORY % 256 = W1_CMDR_R_MEMORY := rfl
  have hsent : ∀ args, (Ds28ec20.listening rom d args).sent = 8 * 0 := fun _ => rfl
  unfold readEeprom
  dsimp only
  rw [Ds28ec20.matchRom_eq, Ds28ec20.writeByte_command, hcmd, Ds28ec20.writeByte_readMemory,
    List.cons_append, Ds28ec20.writeByte_readMemory, (Ds28ec20.readBytes_eq (hsent _) n).2]
  rfl

/-- A page of an EEPROM with sevens in it. -/
theorem log_eeprom_sevens : ∃ calls s' text,
    w1Jobs (Ds28ec20.ops 0x43) eepromDevs (2 * 4) 0 { Ds28ec20.blank with mem := fun _ => 7 } =
      some (calls, s') ∧ PrintsAll 32 calls text ∧
    (readLog text).filterMap Entry.eeprom? =
      (List.range 4).map fun k => (8 * k, block (fun _ => 7) (8 * k % 65536) 8) := by
  have hread : ∀ t < 65536, ∀ d, (Ds28ec20.scratchpad 0x43).mem
      (readEeprom (Ds28ec20.ops 0x43) 0x43 t 8 d).2.2 = (Ds28ec20.scratchpad 0x43).mem d := by
    intro t _ d
    rw [Ds28ec20.scratchpad_mem]
    exact readEeprom_mem 0x43 t 8 d
  have htemp : ∀ flags d r, readTempBus (Ds28ec20.ops 0x43) 0 eepromDevs flags d = some r →
      (Ds28ec20.scratchpad 0x43).mem r.2 = (Ds28ec20.scratchpad 0x43).mem d := by
    intro flags d r h
    have hnone : firstDev hasTemp eepromDevs = none := by decide
    unfold readTempBus at h
    rw [hnone] at h
    rw [← Option.some.inj h]
  have hrun := log_eeprom le_rfl (Ds28ec20.scratchpad 0x43) (by decide) hread htemp
    (show 8 * 4 ≤ 2 ^ 31 by norm_num) { Ds28ec20.blank with mem := fun _ => 7 }
  rw [Ds28ec20.scratchpad_mem] at hrun
  exact hrun

end W1

end Bathos.Drivers
