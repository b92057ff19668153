import Bathos.Printf.Decimal

/-!
# Bathos — one number, printed

`number` of `pp_printf/vsprintf-full.c`, which `pp_vsprintf` calls for every integer and
pointer. It counts the room for a sign and a prefix off the field width, writes the digits
backwards into a buffer of its own, and pads before the sign, behind the prefix, before the
digits or at the end. An `int` has 32 bits here, an `unsigned long` has `l`.

Main results:

* `number_layout` — where the padding is, for all flags;
* `number_reads_back` — the width of the field, and the number that is read from it.
-/

namespace Bathos.Printf

open Bathos.Lib

-- ---------------------------------------------------------------------------
-- The code
-- ---------------------------------------------------------------------------

/-- The bits of `type`. -/
structure Flags where
  zeropad : Bool
  sign : Bool
  plus : Bool
  space : Bool
  left : Bool
  small : Bool
  special : Bool
deriving DecidableEq, Repr

/-- `base`: "we are called with base 8, 10 or 16, only". -/
inductive Base where
  | oct
  | dec
  | hex
deriving DecidableEq, Repr

def Base.val : Base → Nat
  | .oct => 8
  | .dec => 10
  | .hex => 16

/-- `shift`. -/
def Base.shift : Base → Nat
  | .hex => 4
  | _ => 3

/-- `digits`. -/
def digits : List Char :=
  ['0', '1', '2', '3', '4', '5', '6', '7', '8', '9', 'A', 'B', 'C', 'D', 'E', 'F']

/-- `c | locase`. -/
def locase (small : Bool) (c : Char) : Char := if small then Char.ofNat (c.toNat ||| 0x20) else c

/-- `digits[d] | locase`. -/
def digitChar (small : Bool) (d : Nat) : Char := locase small (digits.getD d '0')

/-- The loop over the bits of a number: what is written to `tmp`. -/
def putBits (base : Base) (small : Bool) (num : Nat) : List Char :=
  digitChar small (num % 256 &&& (base.val - 1)) ::
    if _h : num >>> base.shift ≠ 0 then putBits base small (num >>> base.shift) else []
termination_by num
decreasing_by
  cases base <;> (simp only [Base.shift, Nat.shiftRight_eq_div_pow] at *; omega)

/-- `while (--size >= 0) *buf++ = c`: what is written, and `size` behind it. -/
def padLoop (c : Char) (size : Int) : List Char × Int :=
  if 0 ≤ size - 1 then (c :: (padLoop c (size - 1)).1, (padLoop c (size - 1)).2) else ([], size - 1)
termination_by size.toNat

/-- `while (i <= --precision) *buf++ = '0'`. -/
def zeroLoop (i precision : Int) : List Char :=
  if i ≤ precision - 1 then '0' :: zeroLoop i (precision - 1) else []
termination_by (precision - i).toNat

section Code

variable {l : Nat} (num : BitVec l) (base : Base) (size precision : Int) (type : Flags)

/-- `need_pfx`. -/
def needPfx : Bool := type.special && base ≠ .dec

/-- `sign`, `num` and `size` behind the first test. -/
def signOf : List Char × BitVec l × Int :=
  if type.sign then
    if num.toInt < 0 then (['-'], -num, size - 1)
    else if type.plus then (['+'], num, size - 1)
    else if type.space then ([' '], num, size - 1)
    else ([], num, size)
  else ([], num, size)

/-- The prefix. -/
def prefixOf : List Char :=
  if needPfx base type then
    if base = .hex then ['0', locase type.small 'X'] else ['0']
  else []

/-- `tmp`, from its start. -/
def tmpOf : List Char :=
  if num = 0 then ['0']
  else if base ≠ .dec then putBits base type.small num.toNat
  else putDec 32 num.toNat

/-- `number`. -/
def number : List Char :=
  let zeropad := type.zeropad && !type.left
  let (sign, num, size) := signOf num size type
  let size := if needPfx base type then if base = .hex then size - 1 - 1 else size - 1 else size
  let tmp := tmpOf num base type
  let i : Int := tmp.length
  let precision := if i > precision then i else precision
  let size := size - precision
  let (leading, size) := if !(zeropad || type.left) then padLoop ' ' size else ([], size)
  let (fill, size) :=
    if !type.left then padLoop (if zeropad then '0' else ' ') size else ([], size)
  leading ++ sign ++ prefixOf base type ++ fill ++ zeroLoop i precision ++ tmp.reverse ++
    (padLoop ' ' size).1

end Code

-- ---------------------------------------------------------------------------
-- The loops
-- ---------------------------------------------------------------------------

theorem padLoop_eq (c : Char) (size : Int) :
    padLoop c size = (List.replicate size.toNat c, min (size - 1) (-1)) := by
  induction hn : size.toNat generalizing size with
  | zero =>
    unfold padLoop
    rw [if_neg (by omega), min_eq_left (by omega)]
    rfl
  | succ n ih =>
    unfold padLoop
    rw [if_pos (by omega), ih (size - 1) (by omega), List.replicate_succ]
    congr 1
    omega

theorem zeroLoop_eq (i precision : Int) :
    zeroLoop i precision = List.replicate (precision - i).toNat '0' := by
  induction hn : (precision - i).toNat generalizing precision with
  | zero =>
    unfold zeroLoop
    rw [if_neg (by omega)]
    rfl
  | succ n ih =>
    unfold zeroLoop
    rw [if_pos (by omega), ih (precision - 1) (by omega), List.replicate_succ]

theorem Base.one_lt (base : Base) : 1 < base.val := by cases base <;> decide

theorem putBits_eq {base : Base} (hbase : base ≠ .dec) (small : Bool) (n : Nat) :
    putBits base small n = (lowDigits base.val n).map (digitChar small) := by
  have hmask : ∀ n : Nat, n % 256 &&& (base.val - 1) = n % base.val := by
    intro n
    cases base with
    | oct => exact (Nat.and_two_pow_sub_one_eq_mod _ 3).trans (Nat.mod_mod_of_dvd n (by decide))
    | dec => exact absurd rfl hbase
    | hex => exact (Nat.and_two_pow_sub_one_eq_mod _ 4).trans (Nat.mod_mod_of_dvd n (by decide))
  have hshift : ∀ n : Nat, n >>> base.shift = n / base.val := by
    intro n
    cases base with
    | oct => exact Nat.shiftRight_eq_div_pow n 3
    | dec => exact absurd rfl hbase
    | hex => exact Nat.shiftRight_eq_div_pow n 4
  induction n using Nat.strong_induction_on with
  | _ n ih =>
    unfold putBits
    rw [lowDigits_cons base.one_lt, hmask, List.map_cons]
    simp only [hshift, dite_eq_ite]
    split
    · next hn =>
      have hlt : n / base.val < n := Nat.div_lt_self (by
        rcases Nat.eq_zero_or_pos n with rfl | h
        · exact absurd (Nat.zero_div _) hn
        · exact h) base.one_lt
      rw [ih _ hlt]
    · rfl

/-- Digits are not changed by `locase`. -/
theorem digitChar_dec (small : Bool) : ∀ d < 10, digitChar small d = decChar d := by
  cases small <;> decide

theorem tmpOf_eq {l : Nat} (num : BitVec l) (base : Base) (type : Flags) :
    tmpOf num base type = (lowDigits base.val num.toNat).map (digitChar type.small) := by
  unfold tmpOf
  split
  · next h =>
    have hzero : num.toNat = 0 := by rw [h]; exact BitVec.toNat_zero
    rw [hzero, lowDigits_of_lt (by cases base <;> decide)]
    cases type.small <;> rfl
  · split
    · next hbase => exact putBits_eq hbase type.small num.toNat
    · next hbase =>
      obtain rfl : base = .dec := not_not.mp hbase
      rw [putDec_wide (by decide)]
      refine List.map_congr_left fun d hd => ?_
      exact (digitChar_dec type.small d (lowDigits_lt (by decide) hd)).symm

-- ---------------------------------------------------------------------------
-- The field
-- ---------------------------------------------------------------------------

/-- A text in a field: the room it does not need is behind it, between its two parts, or in
front of it. -/
def field (type : Flags) (size : Int) (front text : List Char) : List Char :=
  let gap := (size - (front ++ text).length).toNat
  if type.left then front ++ text ++ List.replicate gap ' '
  else if type.zeropad then front ++ List.replicate gap '0' ++ text
  else List.replicate gap ' ' ++ front ++ text

section Layout

variable {l : Nat} (num : BitVec l) (base : Base) (size precision : Int) (type : Flags)

/-- The sign, and the number without it. -/
def signText : List Char := (signOf num 0 type).1

def magnitude : BitVec l := (signOf num 0 type).2.1

/-- The digits, at least as many as the precision says. -/
def digitText (num : BitVec l) : List Char :=
  let ds := (numeral base.val num.toNat).map (digitChar type.small)
  List.replicate (precision - ds.length).toNat '0' ++ ds

theorem signOf_eq : signOf num size type =
    (signText num type, magnitude num type, size - (signText num type).length) := by
  unfold signText magnitude signOf
  split_ifs <;> simp

theorem prefixOf_size : (if needPfx base type then if base = .hex then size - 1 - 1 else size - 1
    else size) = size - (prefixOf base type).length := by
  unfold prefixOf
  split_ifs
  · show size - 1 - 1 = size - (2 : Nat)
    omega
  · rfl
  · simp

theorem tmpOf_reverse : (tmpOf num base type).reverse =
    (numeral base.val num.toNat).map (digitChar type.small) := by
  rw [tmpOf_eq, ← List.map_reverse]
  rfl

/-- The zeros of the precision and the digits, as the code writes them. -/
theorem zeroLoop_tmp : zeroLoop (tmpOf num base type).length
      (if (tmpOf num base type).length > precision then ((tmpOf num base type).length : Int)
        else precision) ++ (tmpOf num base type).reverse = digitText base precision type num := by
  have hlen : (tmpOf num base type).length =
      ((numeral base.val num.toNat).map (digitChar type.small)).length := by
    rw [← tmpOf_reverse, List.length_reverse]
  unfold digitText
  rw [zeroLoop_eq, tmpOf_reverse, hlen]
  congr 2
  split <;> omega

theorem digitText_length : ((digitText base precision type num).length : Int) =
    if (tmpOf num base type).length > precision then ((tmpOf num base type).length : Int)
      else precision := by
  rw [← zeroLoop_tmp, zeroLoop_eq, List.length_append, List.length_replicate, List.length_reverse]
  split <;> omega

/-- **The layout of a number.** -/
theorem number_layout : number num base size precision type =
    field type size (signText num type ++ prefixOf base type)
      (digitText base precision type (magnitude num type)) := by
  have htext := zeroLoop_tmp (magnitude num type) base precision type
  have hlen := digitText_length (magnitude num type) base precision type
  unfold number field
  simp only [signOf_eq, prefixOf_size]
  simp only [List.append_assoc, ← hlen] at htext ⊢
  rw [← List.append_assoc (zeroLoop _ _), htext]
  have hgap : size - ↑(signText num type).length - ↑(prefixOf base type).length -
      ↑(digitText base precision type (magnitude num type)).length =
      size - ↑(signText num type ++ (prefixOf base type ++
        digitText base precision type (magnitude num type))).length := by
    simp only [List.length_append]
    omega
  rw [hgap]
  cases hleft : type.left <;> cases hzero : type.zeropad <;> simp [padLoop_eq]

theorem field_length (front text : List Char) :
    ((field type size front text).length : Int) = max size (front ++ text).length := by
  unfold field
  simp only
  split_ifs <;> simp only [List.length_append, List.length_replicate] <;> omega

end Layout

-- ---------------------------------------------------------------------------
-- Reading a number
-- ---------------------------------------------------------------------------

/-- The value of a digit, in either case. -/
def charVal (c : Char) : Nat :=
  if c.toNat < 58 then c.toNat - 48 else (c.toNat ||| 0x20) - 87

/-- A digit of the base. -/
def isDigitOf (base : Base) (c : Char) : Bool :=
  (48 ≤ c.toNat && c.toNat < 58 || 97 ≤ c.toNat ||| 0x20 && c.toNat ||| 0x20 < 103)
    && charVal c < base.val

/-- The digits at the start of a text, as a number. -/
def readNumeral (base : Base) (text : List Char) : Nat :=
  readDigits base.val 0 ((text.takeWhile (isDigitOf base)).map charVal)

/-- A hexadecimal number may have a prefix. -/
def skipPrefix (base : Base) (text : List Char) : List Char :=
  match base, text with
  | .hex, '0' :: 'x' :: rest => rest
  | .hex, '0' :: 'X' :: rest => rest
  | _, text => text

/-- The number a text holds, behind spaces. -/
def readNumber (base : Base) (text : List Char) : Int :=
  match text.dropWhile (· = ' ') with
  | '-' :: rest => -(readNumeral base (skipPrefix base rest) : Int)
  | '+' :: rest => readNumeral base (skipPrefix base rest)
  | rest => readNumeral base (skipPrefix base rest)

theorem digitChar_read (small : Bool) : ∀ d < 16, charVal (digitChar small d) = d := by
  cases small <;> decide

theorem digitChar_isDigit (base : Base) (small : Bool) :
    ∀ d < base.val, isDigitOf base (digitChar small d) = true := by
  cases base <;> cases small <;> decide

section Reading

variable {l : Nat} (num : BitVec l) (base : Base) (size precision : Int) (type : Flags)

/-- What all fields are: spaces, the front, zeros, the text, spaces. -/
theorem field_shape (front text : List Char) : ∃ k z t, field type size front text =
    List.replicate k ' ' ++
      (front ++ (List.replicate z '0' ++ (text ++ List.replicate t ' '))) := by
  unfold field
  simp only
  split_ifs
  · exact ⟨0, 0, (size - (front ++ text).length).toNat, by simp⟩
  · exact ⟨0, (size - (front ++ text).length).toNat, 0, by simp⟩
  · exact ⟨(size - (front ++ text).length).toNat, 0, 0, by simp⟩

/-- The sign that is written, and the number behind it. -/
theorem sign_cases :
    (signText num type = ['-'] ∧
      (if type.sign then num.toInt else num.toNat) = -((magnitude num type).toNat : Int)) ∨
    (signText num type ∈ [[], ['+'], [' ']] ∧
      (if type.sign then num.toInt else num.toNat) = ((magnitude num type).toNat : Int)) := by
  have hcond := BitVec.toInt_eq_toNat_cond num
  have hlt := num.isLt
  unfold signText magnitude signOf
  by_cases hsign : type.sign = true
  · by_cases hneg : num.toInt < 0
    · left
      rw [if_pos hsign, if_pos hneg, if_pos hsign]
      refine ⟨rfl, ?_⟩
      show num.toInt = -((-num).toNat : Int)
      rw [BitVec.toNat_neg]
      split at hcond
      · omega
      · rw [Nat.mod_eq_of_lt (by omega), hcond]
        omega
    · right
      have hpos : num.toInt = num.toNat := by
        split at hcond <;> omega
      rw [if_pos hsign, if_neg hneg, if_pos hsign, hpos]
      split_ifs <;> simp
  · right
    rw [if_neg hsign, if_neg hsign]
    exact ⟨by simp, rfl⟩

/-- A text of digits only. -/
def AllDigits (text : List Char) : Prop := ∀ c ∈ text, isDigitOf base c = true

theorem digitText_allDigits : AllDigits base (digitText base precision type num) := by
  intro c hc
  unfold digitText at hc
  rcases List.mem_append.mp hc with hc | hc
  · rw [List.eq_of_mem_replicate hc]
    cases base <;> rfl
  · obtain ⟨d, hd, rfl⟩ := List.mem_map.mp hc
    exact digitChar_isDigit base type.small d (numeral_lt base.one_lt hd)

/-- Zeros in front of the digits do not matter, nor do spaces behind them. -/
theorem readNumeral_digitText (z t : Nat) :
    readNumeral base (List.replicate z '0' ++ (digitText base precision type num ++
      List.replicate t ' ')) = num.toNat := by
  have hdigits : ∀ c ∈ List.replicate z '0' ++ digitText base precision type num,
      isDigitOf base c = true := by
    intro c hc
    rcases List.mem_append.mp hc with hc | hc
    · rw [List.eq_of_mem_replicate hc]
      cases base <;> rfl
    · exact digitText_allDigits num base precision type c hc
  have hspace : (List.replicate t ' ').takeWhile (isDigitOf base) = [] := by
    cases t with
    | zero => rfl
    | succ t => cases base <;> rfl
  have hzero : ∀ k, (List.replicate k '0').map charVal = List.replicate k 0 := fun k =>
    List.map_replicate
  have hnumeral : ((numeral base.val num.toNat).map (digitChar type.small)).map charVal =
      numeral base.val num.toNat := by
    rw [List.map_map]
    conv_rhs => rw [← List.map_id (numeral base.val num.toNat)]
    refine List.map_congr_left fun d hd => digitChar_read type.small d ?_
    have hlt := numeral_lt base.one_lt hd
    cases base <;> exact lt_of_lt_of_le hlt (by decide)
  unfold readNumeral
  rw [← List.append_assoc, List.takeWhile_append_of_pos hdigits, hspace, List.append_nil]
  unfold digitText
  rw [List.map_append, List.map_append, hzero, hzero, hnumeral, readDigits_zeros,
    readDigits_zeros, readDigits_numeral base.one_lt]

/-- Without an `x` there is no prefix to skip. -/
theorem skipPrefix_of_notMem {text : List Char} (hx : 'x' ∉ text) (hX : 'X' ∉ text) :
    skipPrefix base text = text := by
  unfold skipPrefix
  split
  · exact absurd (by simp) hx
  · exact absurd (by simp) hX
  · rfl

theorem digits_spaces_notMem {c : Char} (hc : isDigitOf base c = false) (hspace : c ≠ ' ')
    (hzero : c ≠ '0') (z : Nat) {text : List Char} (htext : AllDigits base text) (t : Nat) :
    c ∉ List.replicate z '0' ++ (text ++ List.replicate t ' ') := by
  intro hmem
  rcases List.mem_append.mp hmem with hmem | hmem
  · exact hzero (List.eq_of_mem_replicate hmem)
  · rcases List.mem_append.mp hmem with hmem | hmem
    · rw [htext c hmem] at hc
      cases hc
    · exact hspace (List.eq_of_mem_replicate hmem)

/-- Behind the prefix only zeros are in front of the digits. -/
theorem skipPrefix_digits (z : Nat) {text : List Char} (htext : AllDigits base text) (t : Nat) :
    ∃ z', skipPrefix base (prefixOf base type ++
      (List.replicate z '0' ++ (text ++ List.replicate t ' '))) =
        List.replicate z' '0' ++ (text ++ List.replicate t ' ') := by
  have hplain : skipPrefix base (List.replicate z '0' ++ (text ++ List.replicate t ' ')) =
      List.replicate z '0' ++ (text ++ List.replicate t ' ') :=
    skipPrefix_of_notMem base
      (digits_spaces_notMem base (by cases base <;> rfl) (by decide) (by decide) z htext t)
      (digits_spaces_notMem base (by cases base <;> rfl) (by decide) (by decide) z htext t)
  unfold prefixOf
  by_cases hpfx : needPfx base type = true
  · rw [if_pos hpfx]
    cases base with
    | oct => exact ⟨z + 1, rfl⟩
    | dec =>
      unfold needPfx at hpfx
      simp at hpfx
    | hex => cases type.small <;> exact ⟨z, rfl⟩
  · rw [if_neg hpfx]
    exact ⟨z, hplain⟩

/-- What follows a sign starts with a digit. -/
theorem front_digit (z : Nat) {text : List Char} (htext : AllDigits base text) (hne : text ≠ [])
    (t : Nat) : ∃ c rest, prefixOf base type ++
      (List.replicate z '0' ++ (text ++ List.replicate t ' ')) = c :: rest ∧
        isDigitOf base c = true := by
  have hzero : isDigitOf base '0' = true := by cases base <;> rfl
  unfold prefixOf
  split_ifs
  · exact ⟨'0', _, rfl, hzero⟩
  · exact ⟨'0', _, rfl, hzero⟩
  · cases z with
    | succ z => exact ⟨'0', _, rfl, hzero⟩
    | zero =>
      obtain ⟨c, rest, rfl⟩ := List.exists_cons_of_ne_nil hne
      exact ⟨c, _, rfl, htext c List.mem_cons_self⟩

theorem digitText_ne_nil : digitText base precision type num ≠ [] := by
  unfold digitText
  intro h
  have hmap := (List.append_eq_nil_iff.mp h).2
  exact numeral_ne_nil base.val num.toNat (List.map_eq_nil_iff.mp hmap)

theorem dropWhile_spaces (k : Nat) {c : Char} (hc : c ≠ ' ') (rest : List Char) :
    (List.replicate k ' ' ++ c :: rest).dropWhile (· = ' ') = c :: rest := by
  rw [List.dropWhile_append_of_pos (by simp)]
  simp [hc]

/-- A number without a sign. -/
theorem readNumber_plain {text rest : List Char} {c : Char} (hdigit : isDigitOf base c = true)
    (h : text.dropWhile (· = ' ') = c :: rest) :
    readNumber base text = readNumeral base (skipPrefix base (c :: rest)) := by
  unfold readNumber
  rw [h]
  split
  · next heq =>
    rw [(List.cons.inj heq).1] at hdigit
    cases base <;> cases hdigit
  · next heq =>
    rw [(List.cons.inj heq).1] at hdigit
    cases base <;> cases hdigit
  · rfl

/-- **A number that was printed is read again**, whatever the flags, the width and the
precision; and the field has the width asked for, or what the number needs. -/
theorem number_reads_back :
    readNumber base (number num base size precision type) =
      (if type.sign then num.toInt else num.toNat) ∧
    ((number num base size precision type).length : Int) = max size
      ((signText num type ++ prefixOf base type) ++
        digitText base precision type (magnitude num type)).length := by
  rw [number_layout]
  refine ⟨?_, field_length size type _ _⟩
  set text := digitText base precision type (magnitude num type) with htext
  have hall : AllDigits base text := digitText_allDigits _ base precision type
  obtain ⟨k, z, t, hshape⟩ := field_shape size type (signText num type ++ prefixOf base type) text
  obtain ⟨c, rest, hfront, hdigit⟩ :=
    front_digit base type z hall (digitText_ne_nil _ base precision type) t
  obtain ⟨z', hskip⟩ := skipPrefix_digits base type z hall t
  have hvalue : readNumeral base (skipPrefix base (c :: rest)) = (magnitude num type).toNat := by
    rw [← hfront, hskip, htext, readNumeral_digitText]
  have hspace : c ≠ ' ' := fun h => by
    rw [h] at hdigit
    cases base <;> cases hdigit
  rw [hshape, List.append_assoc, hfront]
  rcases sign_cases num type with ⟨hsign, hnum⟩ | ⟨hsign, hnum⟩
  · unfold readNumber
    rw [hsign, hnum, List.singleton_append, dropWhile_spaces k (by decide)]
    show -((readNumeral base (skipPrefix base (c :: rest)) : Nat) : Int) = _
    rw [hvalue]
  · rw [hnum, ← hvalue]
    simp only [List.mem_cons, List.not_mem_nil, or_false] at hsign
    rcases hsign with hsign | hsign | hsign
    · rw [hsign, List.nil_append]
      exact readNumber_plain base hdigit (dropWhile_spaces k hspace rest)
    · unfold readNumber
      rw [hsign, List.singleton_append, dropWhile_spaces k (by decide)]
      rfl
    · rw [hsign, List.singleton_append, List.append_cons, ← List.replicate_succ']
      exact readNumber_plain base hdigit (dropWhile_spaces (k + 1) hspace rest)

end Reading

end Bathos.Printf
