import Bathos.Printf.Meaning

/-!
# Bathos — the small formatter

`number` and `pp_vsprintf` of `pp_printf/vsprintf-xint.c`, which a build may take in place of
the full formatter. There is "no error checking at all": the base of a number may come from
an argument, and what does not hold then is a `Fault` here. An `int` has 32 bits.

Main results:

* `agrees_iff` — the formats of both versions print the same, up to the sign of `%u`;
* `vsprintf_safe` — nothing faults where no base comes from an argument.
-/

namespace Bathos.Printf.Xint

open Bathos.Lib

-- ---------------------------------------------------------------------------
-- The code
-- ---------------------------------------------------------------------------

/-- What can go wrong: the format is read behind its end, an argument is not there, a string
is `NULL`, a number is divided by 0, a digit is not in `hex`, or `tmp` has no room. -/
inductive Fault where
  | overrun
  | noArg
  | null
  | divide
  | digit
  | room
deriving DecidableEq, Repr

/-- `hex`, with the end of the string. -/
def hex : List Char :=
  ['0', '1', '2', '3', '4', '5', '6', '7', '8', '9', 'a', 'b', 'c', 'd', 'e', 'f', NUL]

/-- `tmp[--i] = c`: `tmp` is what lies from `i` on, of 16 characters. -/
def push (c : Char) (tmp : List Char) : Except Fault (List Char) :=
  if tmp.length < 16 then .ok (c :: tmp) else .error .room

/-- `while (value && i)`, with `i` first. -/
def digitLoop (base : Nat) : Nat → Nat → List Char → Except Fault (List Char)
  | 0, _, tmp => .ok tmp
  | i + 1, value, tmp =>
    if value = 0 then .ok tmp
    else if base = 0 then .error .divide
    else
      match hex[value % base]? with
      | none => .error .digit
      | some c => push c tmp >>= digitLoop base i (value / base)

/-- `while (i > 16 - wid + negative)`, for `room` turns at most. -/
def leadLoop (lead : Char) (bound : Int) : Nat → List Char → Except Fault (List Char)
  | 0, tmp => .ok tmp
  | room + 1, tmp =>
    if (16 - tmp.length : Int) > bound then push lead tmp >>= leadLoop lead bound room else .ok tmp

/-- The digits of `number`, with the test of `i == 16` behind the loop. -/
def digitsOf (base value : Nat) : Except Fault (List Char) := do
  let tmp ← digitLoop base 16 value []
  if tmp.length = 0 then push '0' tmp else return tmp

/-- The sign and the padding: a sign goes in front of zeros, and behind spaces. -/
def signAndPad (negative : Bool) (lead : Char) (wid : Nat) (tmp : List Char) :
    Except Fault (List Char) :=
  if negative && lead == ' ' then do
    let tmp ← push '-' tmp
    leadLoop lead (16 - wid) 16 tmp
  else do
    let tmp ← leadLoop lead (16 - wid + negative.toNat) 16 tmp
    if negative then push '-' tmp else return tmp

/-- `number`. -/
def number (value : BitVec 32) (base : BitVec 32) (lead : Char) (wid : Nat) :
    Except Fault (List Char) := do
  let negative := decide (value.toInt < 0) && base == 10
  let value := if negative then -value else value
  let tmp ← digitsOf base.toNat value.toNat
  signAndPad negative lead wid tmp

/-- `va_arg(args, int)`. -/
def vaInt : List Nat → Except Fault (BitVec 32 × List Nat)
  | [] => .error .noArg
  | a :: args => .ok (BitVec.ofNat 32 a, args)

/-- `va_arg(args, char *)`, and the string that the loop reads there. -/
def vaString (l : Nat) (str : Strings) : List Nat → Except Fault (List Char × List Nat)
  | [] => .error .noArg
  | a :: args =>
    if BitVec.ofNat l a = 0 then .error .null else .ok (str (BitVec.ofNat l a).toNat, args)

/-- Where the loop is: in the text, or in a directive with its variables. -/
inductive Mode where
  | text
  | directive (base : BitVec 32) (lead : Char) (wid : Nat)
deriving DecidableEq, Repr

/-- The loop of `pp_vsprintf`; `%n` takes no argument. -/
def vsprintfFrom (l : Nat) (str : Strings) :
    List Char → Mode → List Nat → Except Fault (List Char)
  | [], _, _ => .error .overrun
  | c :: fmt, .text, args => do
    if c = NUL then return []
    else if c ≠ '%' then return c :: (← vsprintfFrom l str fmt .text args)
    else vsprintfFrom l str fmt (.directive 10 ' ' 1) args
  | c :: fmt, .directive base lead wid, args => do
    if c = NUL then return []
    else if c = '0' then vsprintfFrom l str fmt (.directive base '0' wid) args
    else if c = '*' then
      let (base, args) ← vaInt args
      vsprintfFrom l str fmt (.directive base lead wid) args
    else if c = 'c' then
      let (a, args) ← vaInt args
      return Char.ofNat (a.toNat % 256) :: (← vsprintfFrom l str fmt .text args)
    else if c = 's' then
      let (s, args) ← vaString l str args
      return s ++ (← vsprintfFrom l str fmt .text args)
    else if c = 'n' then vsprintfFrom l str fmt .text args
    else if c = '%' then return '%' :: (← vsprintfFrom l str fmt .text args)
    else if c ∈ ['p', 'x', 'X', 'o', 'd', 'i', 'u'] then
      let base := if c ∈ ['p', 'x', 'X'] then 16 else base
      let base := if c ∈ ['p', 'x', 'X', 'o'] ∧ base = 10 then 8 else base
      let (a, args) ← vaInt args
      let text ← number a base lead wid
      return text ++ (← vsprintfFrom l str fmt .text args)
    else
      let wid := if '1' ≤ c ∧ c ≤ '9' then c.toNat - '0'.toNat else wid
      vsprintfFrom l str fmt (.directive base lead wid) args

/-- `pp_vsprintf`. -/
def vsprintf (l : Nat) (str : Strings) (fmt : List Char) (args : List Nat) :
    Except Fault (List Char) :=
  vsprintfFrom l str fmt .text args

-- ---------------------------------------------------------------------------
-- One number
-- ---------------------------------------------------------------------------

/-- A number in a field, as both versions print it. -/
def printed (zero : Bool) (wid : Int) (base : Base) (v : Int) : List Char :=
  field { noFlags with zeropad := zero } wid (if v < 0 then ['-'] else [])
    ((numeral base.val v.natAbs).map (digitChar true))

theorem push_ok {c : Char} {tmp : List Char} (h : tmp.length < 16) : push c tmp = .ok (c :: tmp) :=
  if_pos h

theorem hex_digit : ∀ d < 16, hex[d]? = some (digitChar true d) := by decide

theorem base_le_sixteen (base : Base) : base.val ≤ 16 := by cases base <;> decide

theorem digitLoop_eq {base : Nat} (hb : 1 < base) (hle : base ≤ 16) {i value : Nat}
    {tmp : List Char} (hvalue : value < base ^ i) (htmp : tmp.length + i ≤ 16) :
    digitLoop base i value tmp =
      .ok ((if value = 0 then [] else (numeral base value).map (digitChar true)) ++ tmp) := by
  induction i generalizing value tmp with
  | zero =>
    obtain rfl : value = 0 := Nat.lt_one_iff.mp hvalue
    rfl
  | succ i ih =>
    unfold digitLoop
    by_cases hzero : value = 0
    · rw [if_pos hzero, if_pos hzero, List.nil_append]
    · have hmod : value % base < base := Nat.mod_lt _ (by omega)
      have hdiv : value / base < base ^ i := by
        rw [Nat.div_lt_iff_lt_mul (by omega)]
        exact hvalue
      rw [if_neg hzero, if_neg hzero, if_neg (by omega), hex_digit _ (by omega)]
      simp only
      rw [push_ok (by omega)]
      show digitLoop base i (value / base) (digitChar true (value % base) :: tmp) = _
      rw [ih hdiv (by rw [List.length_cons]; omega)]
      by_cases hlt : value < base
      · rw [if_pos (Nat.div_eq_of_lt hlt), numeral_of_lt hlt, Nat.mod_eq_of_lt hlt]
        rfl
      · have hge : base ≤ value := not_lt.mp hlt
        have hne : value / base ≠ 0 := Nat.div_ne_zero_iff.mpr ⟨by omega, hge⟩
        rw [if_neg hne, numeral_of_ge hb hge]
        simp

/-- The digits of a number, and `0` for none. -/
theorem digitsOf_eq (base : Base) {value : Nat} (hvalue : value < 2 ^ 32) :
    digitsOf base.val value = .ok ((numeral base.val value).map (digitChar true)) := by
  have hpow : value < base.val ^ 16 := lt_of_lt_of_le hvalue (by cases base <;> decide)
  unfold digitsOf
  rw [digitLoop_eq base.one_lt (base_le_sixteen base) hpow (by decide)]
  simp only [bind, Except.bind, List.append_nil]
  by_cases hzero : value = 0
  · subst hzero
    rw [if_pos rfl, numeral_of_lt (by have := base.one_lt; omega)]
    rfl
  · rw [if_neg hzero, if_neg]
    · rfl
    · rw [List.length_map, List.length_eq_zero_iff]
      exact numeral_ne_nil _ _

theorem numeral_length_le (base : Base) {value : Nat} (hvalue : value < 2 ^ 32) :
    (numeral base.val value).length ≤ 11 := by
  unfold numeral
  rw [List.length_reverse]
  exact lowDigits_length_le base.one_lt (by decide)
    (lt_of_lt_of_le hvalue (by cases base <;> decide))

theorem leadLoop_eq (lead : Char) (bound : Int) (hbound : 0 ≤ bound) (room : Nat) (tmp : List Char)
    (hroom : (16 - tmp.length : Int) - bound ≤ room) :
    leadLoop lead bound room tmp =
      .ok (List.replicate (16 - tmp.length - bound : Int).toNat lead ++ tmp) := by
  induction room generalizing tmp with
  | zero =>
    rw [Int.toNat_of_nonpos (by omega)]
    rfl
  | succ room ih =>
    unfold leadLoop
    by_cases hgt : (16 - tmp.length : Int) > bound
    · obtain ⟨n, hn⟩ : ∃ n, (16 - tmp.length - bound : Int).toNat = n + 1 :=
        ⟨(16 - tmp.length - bound : Int).toNat - 1, by omega⟩
      rw [if_pos hgt, push_ok (by omega), hn]
      show leadLoop lead bound room (lead :: tmp) = _
      rw [ih _ (by rw [List.length_cons]; omega), List.length_cons,
        show (16 - (tmp.length + 1 : Nat) - bound : Int).toNat = n by omega,
        List.replicate_succ', List.append_assoc, List.singleton_append]
    · rw [if_neg hgt, Int.toNat_of_nonpos (by omega)]
      rfl

/-- The value of an argument: only a decimal number has a sign. -/
def valueOf (base : Base) (a : BitVec 32) : Int := if base = .dec then a.toInt else a.toNat

theorem negative_iff (base : Base) (a : BitVec 32) :
    (decide (a.toInt < 0) && BitVec.ofNat 32 base.val == 10) = decide (valueOf base a < 0) := by
  unfold valueOf
  cases base with
  | dec => simp [Base.val]
  | oct => simp [Base.val]
  | hex => simp [Base.val]

theorem magnitude_eq (base : Base) (a : BitVec 32) :
    (if valueOf base a < 0 then -a else a).toNat = (valueOf base a).natAbs := by
  have hcond := BitVec.toInt_eq_toNat_cond a
  have hlt := a.isLt
  unfold valueOf
  split_ifs at hcond ⊢ <;> (try rw [BitVec.toNat_neg, Nat.mod_eq_of_lt (by omega)]) <;> omega

theorem signAndPad_eq (negative zero : Bool) {wid : Nat} (hwid : wid ≤ 9) {text : List Char}
    (htext : text.length ≤ 11) :
    signAndPad negative (if zero then '0' else ' ') wid text =
      .ok (field { noFlags with zeropad := zero } wid (if negative then ['-'] else []) text) := by
  have hpush : push '-' text = .ok ('-' :: text) := push_ok (by omega)
  unfold signAndPad field
  cases zero with
  | true =>
    have hpad := leadLoop_eq '0' (16 - wid + negative.toNat) (by omega) 16 text (by omega)
    cases negative with
    | true =>
      simp only [Bool.true_and, if_true, Bool.toNat_true] at hpad ⊢
      rw [if_neg (by decide), hpad]
      simp only [bind, Except.bind]
      rw [push_ok (by rw [List.length_append, List.length_replicate]; omega)]
      simp only [noFlags, Bool.false_eq_true, if_false, List.length_cons, List.cons_append,
        List.nil_append]
      congr 4
      omega
    | false =>
      simp only [Bool.false_and, Bool.false_eq_true, if_false, if_true, Bool.toNat_false] at hpad ⊢
      rw [hpad]
      simp only [bind, Except.bind, noFlags, Bool.false_eq_true, if_false, List.nil_append, pure,
        Except.pure]
      congr 3
      omega
  | false =>
    cases negative with
    | true =>
      have hpad := leadLoop_eq ' ' (16 - wid) (by omega) 16 ('-' :: text) (by omega)
      simp only [Bool.true_and, if_true, Bool.false_eq_true, if_false, beq_self_eq_true]
      rw [hpush]
      simp only [bind, Except.bind, hpad, noFlags, Bool.false_eq_true, if_false,
        List.append_assoc, List.singleton_append, List.length_cons]
      congr 3
      omega
    | false =>
      have hpad := leadLoop_eq ' ' (16 - wid) (by omega) 16 text (by omega)
      simp only [Bool.false_and, Bool.false_eq_true, if_false, Bool.toNat_false, Int.natCast_zero,
        Int.add_zero]
      rw [hpad]
      simp only [bind, Except.bind, noFlags, Bool.false_eq_true, if_false, List.nil_append, pure,
        Except.pure, List.append_nil]
      congr 3
      omega

/-- A number in one of the three bases is printed, and `tmp` is large enough. -/
theorem number_eq (a : BitVec 32) (base : Base) (zero : Bool) {wid : Nat} (hwid : wid ≤ 9) :
    number a (BitVec.ofNat 32 base.val) (if zero then '0' else ' ') wid =
      .ok (printed zero wid base (valueOf base a)) := by
  have hbase : (BitVec.ofNat 32 base.val).toNat = base.val := by cases base <;> rfl
  have hmag := magnitude_eq base a
  have hlt : (valueOf base a).natAbs < 2 ^ 32 := hmag ▸ BitVec.isLt _
  have hlen := numeral_length_le base hlt
  unfold number printed
  simp only [negative_iff, hbase, decide_eq_true_eq, hmag, digitsOf_eq base hlt]
  simp only [bind, Except.bind]
  rw [signAndPad_eq _ zero hwid (by rw [List.length_map]; exact hlen)]
  simp only [decide_eq_true_eq]

-- ---------------------------------------------------------------------------
-- The same number in the full version
-- ---------------------------------------------------------------------------

section Full

variable {l : Nat} (num : BitVec l) (type : Flags)

/-- Without the flags for the others, the sign is a `-` or nothing. -/
theorem signText_plain (hplus : type.plus = false) (hspace : type.space = false) :
    signText num type =
      if (if type.sign then num.toInt else num.toNat : Int) < 0 then ['-'] else [] := by
  unfold signText signOf
  rw [hplus, hspace]
  by_cases hsign : type.sign = true
  · rw [if_pos hsign, if_pos hsign]
    split <;> rfl
  · rw [if_neg hsign, if_neg hsign, if_neg (by omega)]

theorem magnitude_natAbs :
    (magnitude num type).toNat = (if type.sign then num.toInt else num.toNat : Int).natAbs := by
  rcases sign_cases num type with ⟨-, h⟩ | ⟨-, h⟩ <;> rw [h] <;> simp

/-- A number without a prefix and without a precision. -/
theorem full_number (base : Base) (size : Int) (hleft : type.left = false)
    (hplus : type.plus = false) (hspace : type.space = false) (hspecial : type.special = false)
    (hsmall : base = .hex → type.small = true) :
    Printf.number num base size (-1) type =
      printed type.zeropad size base (if type.sign then num.toInt else num.toNat) := by
  have hprefix : prefixOf base type = [] := by
    unfold prefixOf needPfx
    rw [hspecial]
    rfl
  have hdigits : digitText base (-1) type (magnitude num type) =
      (numeral base.val (magnitude num type).toNat).map (digitChar true) := by
    have hten : ∀ d < 10, digitChar type.small d = digitChar true d := fun d hd =>
      (digitChar_dec type.small d hd).trans (digitChar_dec true d hd).symm
    unfold digitText
    simp only
    rw [Int.toNat_of_nonpos (by omega), List.replicate_zero, List.nil_append]
    refine List.map_congr_left fun d hd => ?_
    have hlt := numeral_lt base.one_lt hd
    cases base with
    | oct => exact hten d (lt_trans hlt (by decide))
    | dec => exact hten d hlt
    | hex => rw [hsmall rfl]
  rw [number_layout, hprefix, hdigits, List.append_nil, signText_plain num type hplus hspace,
    magnitude_natAbs]
  unfold printed field
  rw [hleft]
  rfl

/-- A field of at most one character is no field. -/
theorem printed_small (zero : Bool) {w w' : Int} (hw : w ≤ 1) (hw' : w' ≤ 1) (base : Base)
    (v : Int) : printed zero w base v = printed zero w' base v := by
  have hpos : 0 < ((numeral base.val v.natAbs).map (digitChar true)).length := by
    rw [List.length_map]
    exact List.length_pos_iff.mpr (numeral_ne_nil _ _)
  unfold printed field
  simp only [List.length_append]
  rw [Int.toNat_of_nonpos (by omega), Int.toNat_of_nonpos (by omega)]

end Full

-- ---------------------------------------------------------------------------
-- What both versions obey
-- ---------------------------------------------------------------------------

/-- A piece of a format of both versions, with the argument it takes: "the only supported
attributes are `0` and a one-digit width". -/
inductive Item where
  | lit (c : Char)
  | percent
  | char (a : Nat)
  | str (a : Nat)
  | int (zero : Bool) (wid : Option (Fin 9)) (conv : Char) (a : Nat)
deriving DecidableEq, Repr

def Item.piece : Item → Piece
  | .lit c => .lit c
  | .percent => .conv ⟨[], .absent, none, .absent, '%'⟩
  | .char _ => .conv ⟨[], .absent, none, .absent, 'c'⟩
  | .str _ => .conv ⟨[], .absent, none, .absent, 's'⟩
  | .int zero wid conv _ => .conv ⟨if zero then ['0'] else [],
      match wid with | none => .absent | some w => .num (w.val + 1), none, .absent, conv⟩

def Item.args : Item → List Nat
  | .lit _ | .percent => []
  | .char a | .str a | .int _ _ _ a => [a]

def Item.Ok (l : Nat) : Item → Prop
  | .lit c => c ≠ NUL ∧ c ≠ '%'
  | .str a => BitVec.ofNat l a ≠ 0
  | .int _ _ conv _ => conv ∈ ['d', 'i', 'u', 'o', 'x']
  | _ => True

instance (l : Nat) : (i : Item) → Decidable (i.Ok l)
  | .lit c => inferInstanceAs (Decidable (c ≠ NUL ∧ c ≠ '%'))
  | .percent | .char _ => inferInstanceAs (Decidable True)
  | .str a => inferInstanceAs (Decidable (BitVec.ofNat l a ≠ 0))
  | .int _ _ conv _ => inferInstanceAs (Decidable (conv ∈ _))

/-- A format, and what is passed with it. -/
def format (items : List Item) : List Char := render (items.map Item.piece) none

def arguments (items : List Item) : List Nat := items.flatMap Item.args

def convBase (conv : Char) : Base :=
  if conv = 'o' then .oct else if conv = 'x' then .hex else .dec

def widthOf (wid : Option (Fin 9)) : Nat := wid.elim 1 fun w => w.val + 1

/-- What the full version takes an argument for. -/
def fullValue (conv : Char) (a : BitVec 32) : Int :=
  if conv = 'd' ∨ conv = 'i' then a.toInt else a.toNat

/-- The text of a piece, with the value that an integer has for the version. -/
def Item.text (l : Nat) (str : Strings) (value : Char → BitVec 32 → Int) : Item → List Char
  | .lit c => [c]
  | .percent => ['%']
  | .char a => [Char.ofNat ((BitVec.ofNat 32 a).toNat % 256)]
  | .str a => str (BitVec.ofNat l a).toNat
  | .int zero wid conv a =>
    printed zero (widthOf wid) (convBase conv) (value conv (BitVec.ofNat 32 a))

def smallValue (conv : Char) : BitVec 32 → Int := valueOf (convBase conv)

/-- An unsigned number that is one as a signed number, too. -/
def Item.Same : Item → Prop
  | .int _ _ conv a => conv = 'u' → a % 2 ^ 32 < 2 ^ 31
  | _ => True

section Small

variable {l : Nat} {str : Strings}

/-- The character of a width. -/
theorem width_step (w : Fin 9) (base : BitVec 32) (lead : Char) (wid : Nat) (fmt : List Char)
    (args : List Nat) :
    vsprintfFrom l str (decChar (w.val + 1) :: fmt) (.directive base lead wid) args =
      vsprintfFrom l str fmt (.directive base lead (w.val + 1)) args := by
  have hchar : ∀ w : Fin 9, decChar (w.val + 1) ∉
      [NUL, '0', '*', 'c', 's', 'n', '%', 'p', 'x', 'X', 'o', 'd', 'i', 'u'] ∧
      ('1' ≤ decChar (w.val + 1) ∧ decChar (w.val + 1) ≤ '9') ∧
      (decChar (w.val + 1)).toNat - '0'.toNat = w.val + 1 := by decide
  obtain ⟨hne, hdigit, hval⟩ := hchar w
  simp only [List.mem_cons, List.not_mem_nil, or_false, not_or] at hne
  obtain ⟨h1, h2, h3, h4, h5, h6, h7, h8, h9, h10, h11, h12, h13, h14⟩ := hne
  rw [vsprintfFrom]
  simp only [h1, h2, h3, h4, h5, h6, h7, h8, h9, h10, h11, h12, h13, h14, if_false, List.mem_cons,
    List.not_mem_nil, or_false, hdigit, and_self, if_true, hval]

/-- The conversions of integers, with what is left in `base`. -/
theorem int_step {c : Char} (hc : c ∈ ['p', 'x', 'X', 'o', 'd', 'i', 'u']) {base base' : BitVec 32}
    (hbase : (let base := if c ∈ ['p', 'x', 'X'] then 16 else base
      if c ∈ ['p', 'x', 'X', 'o'] ∧ base = 10 then 8 else base) = base')
    (lead : Char) (wid : Nat) (fmt : List Char) (args : List Nat) :
    vsprintfFrom l str (c :: fmt) (.directive base lead wid) args = (do
      let (a, args) ← vaInt args
      let text ← number a base' lead wid
      return text ++ (← vsprintfFrom l str fmt .text args)) := by
  have hne : ∀ c ∈ ['p', 'x', 'X', 'o', 'd', 'i', 'u'],
      c ≠ NUL ∧ c ≠ '0' ∧ c ≠ '*' ∧ c ≠ 'c' ∧ c ≠ 's' ∧ c ≠ 'n' ∧ c ≠ '%' :=
    forall_mem_of_all (by decide)
  obtain ⟨h1, h2, h3, h4, h5, h6, h7⟩ := hne c hc
  rw [vsprintfFrom, if_neg h1, if_neg h2, if_neg h3, if_neg h4, if_neg h5, if_neg h6, if_neg h7,
    if_pos hc]
  simp only at hbase ⊢
  rw [hbase]

theorem conv_step {conv : Char} (hconv : conv ∈ ['d', 'i', 'u', 'o', 'x']) (zero : Bool)
    {wid : Nat} (hwid : wid ≤ 9) (fmt : List Char) (a : Nat) (args : List Nat) :
    vsprintfFrom l str (conv :: fmt) (.directive 10 (if zero then '0' else ' ') wid) (a :: args) =
      (vsprintfFrom l str fmt .text args).map
        (printed zero wid (convBase conv) (smallValue conv (BitVec.ofNat 32 a)) ++ ·) := by
  have hmem : ∀ conv ∈ ['d', 'i', 'u', 'o', 'x'],
      conv ∈ ['p', 'x', 'X', 'o', 'd', 'i', 'u'] ∧
      (let base := if conv ∈ ['p', 'x', 'X'] then 16 else (10 : BitVec 32)
       if conv ∈ ['p', 'x', 'X', 'o'] ∧ base = 10 then 8 else base) =
        BitVec.ofNat 32 (convBase conv).val := forall_mem_of_all (by decide)
  obtain ⟨hc, hbase⟩ := hmem conv hconv
  rw [int_step hc hbase]
  simp only [vaInt, bind, Except.bind]
  rw [number_eq _ _ zero hwid]
  simp only
  unfold smallValue
  cases vsprintfFrom l str fmt .text args <;> rfl

/-- One piece. -/
theorem item_step {i : Item} (hi : i.Ok l) (fmt : List Char) (args : List Nat) :
    vsprintfFrom l str (i.piece.render ++ fmt) .text (i.args ++ args) =
      (vsprintfFrom l str fmt .text args).map (i.text l str smallValue ++ ·) := by
  cases i with
  | lit c =>
    show vsprintfFrom l str (c :: fmt) .text args = _
    rw [vsprintfFrom, if_neg hi.1, if_pos hi.2]
    cases vsprintfFrom l str fmt .text args <;> rfl
  | percent =>
    show vsprintfFrom l str ('%' :: '%' :: fmt) .text args = _
    rw [vsprintfFrom, if_neg (by decide), if_neg (by decide), vsprintfFrom, if_neg (by decide),
      if_neg (by decide), if_neg (by decide), if_neg (by decide), if_neg (by decide),
      if_neg (by decide), if_pos rfl]
    cases vsprintfFrom l str fmt .text args <;> rfl
  | char a =>
    show vsprintfFrom l str ('%' :: 'c' :: fmt) .text (a :: args) = _
    rw [vsprintfFrom, if_neg (by decide), if_neg (by decide), vsprintfFrom, if_neg (by decide),
      if_neg (by decide), if_neg (by decide), if_pos rfl]
    simp only [vaInt, bind, Except.bind]
    cases vsprintfFrom l str fmt .text args <;> rfl
  | str a =>
    show vsprintfFrom l str ('%' :: 's' :: fmt) .text (a :: args) = _
    rw [vsprintfFrom, if_neg (by decide), if_neg (by decide), vsprintfFrom, if_neg (by decide),
      if_neg (by decide), if_neg (by decide), if_neg (by decide), if_pos rfl, vaString, if_neg hi]
    simp only [bind, Except.bind]
    cases vsprintfFrom l str fmt .text args <;> rfl
  | int zero wid conv a =>
    have hzero : ∀ fmt, vsprintfFrom l str ((if zero then ['0'] else []) ++ fmt)
        (.directive 10 ' ' 1) (a :: args) =
        vsprintfFrom l str fmt (.directive 10 (if zero then '0' else ' ') 1) (a :: args) := by
      intro fmt
      cases zero with
      | false => rfl
      | true =>
        show vsprintfFrom l str ('0' :: fmt) _ _ = _
        rw [vsprintfFrom, if_neg (by decide), if_pos rfl]
        rfl
    unfold Item.piece Piece.render Directive.body
    simp only [renderPrecision, Qualifier.render, List.append_nil, List.cons_append,
      List.append_assoc, Item.args, List.nil_append]
    rw [vsprintfFrom, if_neg (by decide), if_neg (by decide), hzero]
    cases wid with
    | none => exact conv_step hi zero (by decide) fmt a args
    | some w =>
      simp only [Count.render]
      rw [numeral_of_lt (by have := w.isLt; omega), List.map_singleton, List.singleton_append,
        width_step]
      exact conv_step hi zero (by have := w.isLt; omega) fmt a args

/-- The small version prints the texts of the pieces. -/
theorem vsprintf_format {items : List Item} (hok : ∀ i ∈ items, i.Ok l) (extra : List Nat) :
    Xint.vsprintf l str (format items) (arguments items ++ extra) =
      .ok (items.flatMap (Item.text l str smallValue)) := by
  induction items with
  | nil => rfl
  | cons i items ih =>
    have hstep := @item_step l str i (hok i List.mem_cons_self) (format items)
      (arguments items ++ extra)
    have hrest := ih fun j hj => hok j (List.mem_cons_of_mem i hj)
    unfold Xint.vsprintf at hrest ⊢
    unfold format arguments at hrest hstep ⊢
    rw [List.map_cons, render_cons, List.flatMap_cons, List.append_assoc, hstep, hrest]
    rfl

end Small

section Both

variable {l : Nat} {str : Strings}

theorem widthLoop_le {len width : Int} (h : width ≤ len) :
    widthLoop len width = ([], width - 1) := by
  unfold widthLoop
  rw [if_neg (by omega)]

theorem strnlen_all (s : List Char) {count : Int} (hcount : count < 0) :
    strnlen s count = s.length := by
  induction s generalizing count with
  | nil => rfl
  | cons c s ih =>
    unfold strnlen
    rw [if_neg (by omega), ih (by omega), List.length_cons]

/-- A string without a width and a precision. -/
theorem string_plain (s : List Char) : string s (-1) (-1) noFlags = s := by
  have h1 : widthLoop s.length (-1) = ([], -1 - 1) := widthLoop_le (by omega)
  have h2 : widthLoop s.length (-1 - 1) = ([], -1 - 1 - 1) := widthLoop_le (by omega)
  unfold string
  simp only [strnlen_all s (by omega : (-1 : Int) < 0), noFlags, Bool.not_false, if_true, h1, h2,
    List.take_length, List.nil_append, List.append_nil]

/-- An integer is as wide as the code makes it, with or without its sign. -/
theorem int_widened (hl : 32 ≤ l) (sign : Bool) (a : BitVec 32) :
    (if sign then (if sign then a.signExtend l else a.setWidth l).toInt
      else ((if sign then a.signExtend l else a.setWidth l).toNat : Int)) =
      if sign then a.toInt else (a.toNat : Int) := by
  cases sign with
  | true => exact BitVec.toInt_signExtend_of_le hl
  | false =>
    have hlt : a.toNat < 2 ^ l := lt_of_lt_of_le a.isLt (Nat.pow_le_pow_right (by decide) hl)
    show (((a.setWidth l).toNat : Nat) : Int) = a.toNat
    rw [BitVec.toNat_setWidth, Nat.mod_eq_of_lt hlt]

theorem intArg_plain (sign : Bool) (a : Nat) (args : List Nat) :
    intArg l none sign (a :: args) =
      .ok (if sign then (BitVec.ofNat 32 a).signExtend l else (BitVec.ofNat 32 a).setWidth l,
        args) := by
  rfl

/-- What an integer is for the full version. -/
theorem convert_int (hl : 32 ≤ l) {conv : Char} (hconv : conv ∈ ['d', 'i', 'u', 'o', 'x'])
    (zero : Bool) (width : Int) (a : Nat) (args : List Nat) (written : Nat) :
    convert l str ⟨{ noFlags with zeropad := zero }, width, -1, none, conv⟩ (a :: args) written =
      .ok (⟨printed zero width (convBase conv) (fullValue conv (BitVec.ofNat 32 a)), []⟩,
        args) := by
  have hne : ∀ conv ∈ ['d', 'i', 'u', 'o', 'x'],
      conv ≠ 'c' ∧ conv ≠ 's' ∧ conv ≠ 'p' ∧ conv ≠ 'n' ∧ conv ≠ '%' :=
    forall_mem_of_all (by decide)
  have hbase : intConv conv { noFlags with zeropad := zero } = some (convBase conv,
      ⟨zero, conv = 'd' ∨ conv = 'i', false, false, false, conv = 'x', false⟩) := by
    simp only [List.mem_cons, List.not_mem_nil, or_false] at hconv
    rcases hconv with rfl | rfl | rfl | rfl | rfl <;> rfl
  obtain ⟨h1, h2, h3, h4, h5⟩ := hne conv hconv
  unfold convert
  simp only [h1, h2, h3, h4, h5, if_false, hbase]
  rw [intArg_plain]
  simp only [bind, Except.bind, pure, Except.pure]
  rw [full_number _ _ _ width rfl rfl rfl rfl ?_, int_widened hl]
  · unfold fullValue
    simp only [decide_eq_true_eq]
  · intro h
    unfold convBase at h
    split_ifs at h with h1 h2
    exact decide_eq_true h2

theorem denote_step {d : Directive} {s : Spec} (args : List Nat) {args' args'' : List Nat}
    {written : Nat} {out : Output} (hs : d.resolve args = .ok (s, args'))
    (hout : convert l str s args' written = .ok (out, args'')) (ps : List Piece) :
    denote l str (.conv d :: ps) args written =
      (denote l str ps args'' (written + out.text.length)).map out.append := by
  rw [denote, hs]
  simp only [bind, Except.bind, hout]
  cases denote l str ps args'' (written + out.text.length) <;> rfl

/-- One piece of the full version, which then goes on behind it. -/
theorem item_denote (hl : 32 ≤ l) {i : Item} (hi : i.Ok l) (ps : List Piece) (args : List Nat)
    (written : Nat) :
    denote l str (i.piece :: ps) (i.args ++ args) written =
      (denote l str ps args (written + (i.text l str fullValue).length)).map
        (Output.append ⟨i.text l str fullValue, []⟩) := by
  cases i with
  | lit c =>
    show denote l str (.lit c :: ps) args written =
      (denote l str ps args (written + 1)).map (Output.append ⟨[c], []⟩)
    rw [denote]
    cases denote l str ps args (written + 1) <;> rfl
  | percent => exact denote_step args rfl rfl ps
  | char a =>
    have hloop : ∀ width : Int, width ≤ 1 → charLoop width = ([], width - 1) := by
      intro width hwidth
      unfold charLoop
      rw [if_neg (by omega)]
    have hout : convert l str ⟨noFlags, -1, -1, none, 'c'⟩ (a :: args) written =
        .ok (⟨[Char.ofNat ((BitVec.ofNat 32 a).toNat % 256)], []⟩, args) := by
      unfold convert
      rw [if_pos rfl]
      simp only [bind, Except.bind, noFlags, Bool.not_false, if_true, hloop (-1) (by decide),
        hloop (-1 - 1) (by decide), List.nil_append, List.append_nil]
      rfl
    exact denote_step (a :: args) rfl hout ps
  | str a =>
    have hout : convert l str ⟨noFlags, -1, -1, none, 's'⟩ (a :: args) written =
        .ok (⟨str (BitVec.ofNat l a).toNat, []⟩, args) := by
      unfold convert
      rw [if_neg (by decide), if_pos rfl]
      simp only [vaLong, bind, Except.bind, string_plain]
      rw [if_neg hi]
      rfl
    exact denote_step (a :: args) rfl hout ps
  | int zero wid conv a =>
    have hflags : (if zero then ['0'] else []).foldl setFlag noFlags =
        { noFlags with zeropad := zero } := by cases zero <;> rfl
    have hout := fun width => @convert_int l str hl conv hi zero width a args written
    cases wid with
    | none =>
      have hprint := hout (-1)
      rw [printed_small zero (by decide) (by decide : ((1 : Nat) : Int) ≤ 1)] at hprint
      refine denote_step (a :: args) ?_ hprint ps
      unfold Directive.resolve
      rw [hflags]
      rfl
    | some w =>
      refine denote_step (a :: args) ?_ (hout (w.val + 1 : Nat)) ps
      unfold Directive.resolve
      rw [hflags]
      rfl

/-- The full version prints the texts of the pieces. -/
theorem denote_format (hl : 32 ≤ l) {items : List Item} (hok : ∀ i ∈ items, i.Ok l)
    (extra : List Nat) (written : Nat) :
    denote l str (items.map Item.piece) (arguments items ++ extra) written =
      .ok ⟨items.flatMap (Item.text l str fullValue), []⟩ := by
  induction items generalizing written with
  | nil => rfl
  | cons i items ih =>
    unfold arguments at ih ⊢
    rw [List.map_cons, List.flatMap_cons, List.append_assoc,
      item_denote hl (hok i List.mem_cons_self),
      ih fun j hj => hok j (List.mem_cons_of_mem i hj)]
    rfl

/-- A large number starts with a digit, in every field of the small version. -/
theorem printed_large (zero : Bool) {wid : Nat} (hwid : wid ≤ 9) {n : Nat} (hn : 2 ^ 31 ≤ n) :
    ∃ c rest, printed zero wid .dec n = c :: rest ∧ c ≠ ' ' ∧ c ≠ '-' := by
  obtain ⟨d, ds, hds⟩ := List.exists_cons_of_ne_nil (numeral_ne_nil 10 n)
  have hlen : 9 < (d :: ds).length := by
    rw [← hds]
    unfold numeral
    rw [List.length_reverse]
    exact lowDigits_length_gt (by decide) (le_trans (by decide) hn)
  have hdigit : digitChar true d ≠ ' ' ∧ digitChar true d ≠ '-' := by
    have hall : ∀ d < 10, digitChar true d ≠ ' ' ∧ digitChar true d ≠ '-' := by decide
    exact hall d (numeral_lt (by decide) (hds ▸ List.mem_cons_self))
  have hpos : ¬ (n : Int) < 0 := by omega
  refine ⟨digitChar true d, ds.map (digitChar true), ?_, hdigit⟩
  unfold printed field
  simp only [Int.natAbs_natCast, Base.val, hds, noFlags, Bool.false_eq_true, if_false, if_neg hpos,
    List.nil_append, List.length_map]
  rw [Int.toNat_of_nonpos (by omega)]
  split <;> rfl

/-- A number below zero starts with its sign, or with a space. -/
theorem printed_neg (zero : Bool) (wid : Int) {v : Int} (hv : v < 0) :
    ∃ c rest, printed zero wid .dec v = c :: rest ∧ (c = ' ' ∨ c = '-') := by
  unfold printed field
  simp only [noFlags, Bool.false_eq_true, if_false, if_pos hv]
  cases zero with
  | true => exact ⟨'-', _, rfl, .inr rfl⟩
  | false =>
    simp only [Bool.false_eq_true, if_false, List.singleton_append, List.append_assoc]
    cases (wid - _).toNat with
    | zero => exact ⟨'-', _, rfl, .inr rfl⟩
    | succ k => exact ⟨' ', _, rfl, .inl rfl⟩

theorem values_eq {conv : Char} (hconv : conv ∈ ['d', 'i', 'u', 'o', 'x']) {a : Nat}
    (h : conv = 'u' → a % 2 ^ 32 < 2 ^ 31) :
    fullValue conv (BitVec.ofNat 32 a) = smallValue conv (BitVec.ofNat 32 a) := by
  simp only [List.mem_cons, List.not_mem_nil, or_false] at hconv
  rcases hconv with rfl | rfl | rfl | rfl | rfl
  · rfl
  · rfl
  · show (((BitVec.ofNat 32 a).toNat : Nat) : Int) = (BitVec.ofNat 32 a).toInt
    rw [BitVec.toInt_eq_toNat_cond, BitVec.toNat_ofNat, if_pos (by have := h rfl; omega)]
  · rfl
  · rfl

theorem text_same {i : Item} (hi : i.Ok l) (h : i.Same) :
    i.text l str fullValue = i.text l str smallValue := by
  cases i with
  | int zero wid conv a =>
    unfold Item.text
    simp only
    rw [values_eq hi h]
  | _ => rfl

/-- Where the values differ the texts do, and nothing behind them makes up for it. -/
theorem text_differs {i : Item} (h : ¬ i.Same) (s t : List Char) :
    i.text l str fullValue ++ s ≠ i.text l str smallValue ++ t := by
  cases i with
  | int zero wid conv a =>
    have h' : conv = 'u' ∧ 2 ^ 31 ≤ a % 2 ^ 32 := by
      unfold Item.Same at h
      push Not at h
      exact h
    obtain ⟨rfl, hlarge⟩ := h'
    have hwid : widthOf wid ≤ 9 := by
      cases wid with
      | none => decide
      | some w => exact w.isLt
    have hneg : (BitVec.ofNat 32 a).toInt < 0 := by
      rw [BitVec.toInt_eq_toNat_cond, BitVec.toNat_ofNat, if_neg (by omega)]
      omega
    obtain ⟨c, rest, hfull, hspace, hsign⟩ :=
      printed_large zero hwid (n := (BitVec.ofNat 32 a).toNat) hlarge
    obtain ⟨c', rest', hsmall, hc'⟩ := printed_neg zero (widthOf wid) hneg
    show printed zero (widthOf wid) .dec ((BitVec.ofNat 32 a).toNat : Nat) ++ s ≠
      printed zero (widthOf wid) .dec (BitVec.ofNat 32 a).toInt ++ t
    rw [hfull, hsmall]
    intro heq
    have hcc : c = c' := (List.cons.inj heq).1
    rcases hc' with rfl | rfl
    · exact hspace hcc
    · exact hsign hcc
  | _ => exact absurd trivial h

theorem texts_eq_iff {items : List Item} (hok : ∀ i ∈ items, i.Ok l) :
    items.flatMap (Item.text l str fullValue) = items.flatMap (Item.text l str smallValue) ↔
      ∀ i ∈ items, i.Same := by
  induction items with
  | nil => simp
  | cons i items ih =>
    have hrest := ih fun j hj => hok j (List.mem_cons_of_mem i hj)
    rw [List.flatMap_cons, List.flatMap_cons, List.forall_mem_cons]
    by_cases hsame : i.Same
    · rw [text_same (hok i List.mem_cons_self) hsame, List.append_cancel_left_eq, hrest]
      exact (and_iff_right hsame).symm
    · exact ⟨fun h => absurd h (text_differs hsame _ _), fun h => absurd h.1 hsame⟩

/-- No piece is a pointer, and the loop behind a pointer is never there. -/
theorem format_chain {items : List Item} (hok : ∀ i ∈ items, i.Ok l) :
    (items.map Item.piece).IsChain PointerOk := by
  have hany : ∀ i ∈ items, ∀ p, PointerOk i.piece p := by
    intro i hi p
    have h := hok i hi
    cases i <;> cases p <;> (unfold Item.piece PointerOk; simp only [Char.reduceEq, false_implies])
    rintro rfl
    exact absurd (show 'p' ∈ ['d', 'i', 'u', 'o', 'x'] from h) (by decide)
  induction items with
  | nil => exact List.IsChain.nil
  | cons i items ih =>
    have hrest := ih (fun j hj => hok j (List.mem_cons_of_mem i hj))
      fun j hj => hany j (List.mem_cons_of_mem i hj)
    cases items with
    | nil => exact List.isChain_singleton _
    | cons j items =>
      rw [List.map_cons, List.map_cons, List.isChain_cons_cons]
      exact ⟨hany i List.mem_cons_self _, hrest⟩

theorem piece_ok {i : Item} (hi : i.Ok l) : i.piece.Ok := by
  have hplain : ∀ conv ∈ ['%', 'c', 's'], Piece.Ok (.conv ⟨[], .absent, none, .absent, conv⟩) := by
    intro conv hconv
    have hends : ∀ conv ∈ ['%', 'c', 's'], Ends conv ∧ conv ≠ NUL :=
      forall_mem_of_all (by decide)
    obtain ⟨h1, h2⟩ := hends conv hconv
    exact ⟨⟨fun _ h => absurd h List.not_mem_nil, nofun, nofun, h1⟩, h2⟩
  cases i with
  | lit c => exact hi
  | percent => exact hplain '%' (by decide)
  | char a => exact hplain 'c' (by decide)
  | str a => exact hplain 's' (by decide)
  | int zero wid conv a =>
    have hends : ∀ conv ∈ ['d', 'i', 'u', 'o', 'x'], Ends conv ∧ conv ≠ NUL :=
      forall_mem_of_all (by decide)
    obtain ⟨h1, h2⟩ := hends conv hi
    refine ⟨⟨fun c hc => ?_, ?_, nofun, h1⟩, h2⟩
    · cases zero with
      | false => exact absurd hc List.not_mem_nil
      | true =>
        rw [List.mem_singleton.mp hc]
        decide
    · cases wid with
      | none => exact nofun
      | some w => exact fun h => absurd (Count.num.inj h) (Nat.succ_ne_zero _)

/-- The full version returns, and prints the texts of the pieces. -/
theorem full_format (hl : 32 ≤ l) {items : List Item} (hok : ∀ i ∈ items, i.Ok l)
    (extra : List Nat) : ∃ fuel,
      Printf.vsprintf l str fuel (format items) (arguments items ++ extra) =
        some (.ok ⟨items.flatMap (Item.text l str fullValue), []⟩) := by
  have hps : ∀ p ∈ items.map Item.piece, p.Ok := by
    intro p hp
    obtain ⟨i, hi, rfl⟩ := List.mem_map.mp hp
    exact piece_ok (hok i hi)
  have hlast : ∀ d, (none : Option Directive) = some d → d.Ok ∧ d.conv = NUL := nofun
  have hden : denote l str (allPieces (items.map Item.piece) none) (arguments items ++ extra) 0 =
      .ok ⟨items.flatMap (Item.text l str fullValue), []⟩ := by
    unfold allPieces
    rw [show ((none : Option Directive).map Piece.conv).toList = [] from rfl, List.append_nil]
    exact denote_format hl hok extra 0
  refine ⟨turns (items.map Item.piece) none + 1, ?_⟩
  rw [Printf.vsprintf]
  exact ((run_render hps hlast hden).1 (format_chain hok) _).trans (if_neg (by omega))

/-- **Both versions print the same**, and return, for every format of what both are said to
obey: up to the unsigned numbers that the small version takes for signed ones. -/
theorem agrees_iff (hl : 32 ≤ l) {items : List Item} (hok : ∀ i ∈ items, i.Ok l)
    (extra : List Nat) : ∃ out text,
    (∃ fuel, Printf.vsprintf l str fuel (format items) (arguments items ++ extra) =
      some (.ok out)) ∧
    Xint.vsprintf l str (format items) (arguments items ++ extra) = .ok text ∧
    (out.text = text ↔ ∀ i ∈ items, i.Same) :=
  ⟨_, _, full_format hl hok extra, vsprintf_format hok extra, texts_eq_iff hok⟩

end Both

/-- `%u` of a number above all signed ones is where the versions part. -/
theorem agrees_not_unsigned : ∃ out text,
    (∃ fuel, Printf.vsprintf 32 (fun _ => []) fuel
      (format [.int true (some 4) 'd' 4294967286, .lit ' ', .int false none 'u' 4294967295])
      [4294967286, 4294967295] = some (.ok out)) ∧
    Xint.vsprintf 32 (fun _ => [])
      (format [.int true (some 4) 'd' 4294967286, .lit ' ', .int false none 'u' 4294967295])
      [4294967286, 4294967295] = .ok text ∧ out.text ≠ text := by
  obtain ⟨out, text, hfull, hsmall, hiff⟩ := @agrees_iff 32 (fun _ => []) le_rfl
    [.int true (some 4) 'd' 4294967286, .lit ' ', .int false none 'u' 4294967295]
    (by
      simp only [List.forall_mem_cons]
      exact ⟨by decide, by decide, by decide, by simp⟩) []
  refine ⟨out, text, hfull, hsmall, fun h => ?_⟩
  have hlast := hiff.mp h (.int false none 'u' 4294967295) (by decide)
  exact absurd (hlast rfl) (by decide)

-- ---------------------------------------------------------------------------
-- What cannot go wrong
-- ---------------------------------------------------------------------------

def conversions : List Char := ['c', 's', 'n', '%', 'p', 'x', 'X', 'o', 'd', 'i', 'u']

/-- Whether a directive of a format takes its base from an argument. -/
def hasStar : Bool → List Char → Bool
  | _, [] => false
  | false, c :: fmt => c ≠ NUL && hasStar (c = '%') fmt
  | true, c :: fmt => c ≠ NUL && (c = '*' || hasStar (c ∉ conversions) fmt)

/-- The variables of a directive without a `*`. -/
inductive Mode.Plain : Mode → Prop where
  | text : Plain .text
  | directive (zero : Bool) {wid : Nat} (hwid : wid ≤ 9) :
    Plain (.directive 10 (if zero then '0' else ' ') wid)

def Mode.inside : Mode → Bool
  | .text => false
  | .directive .. => true

/-- What the caller alone is to blame for. -/
def Fault.Callers (e : Fault) : Prop := e = .noArg ∨ e = .null

section Safe

variable {l : Nat} {str : Strings}

theorem map_callers {r : Except Fault (List Char)} {f : List Char → List Char}
    (hr : ∀ e, r = .error e → e.Callers) (e : Fault) (h : r.map f = .error e) : e.Callers := by
  cases r with
  | error e' =>
    cases h
    exact hr _ rfl
  | ok s => cases h

/-- A conversion that takes an argument, of which the text is printed. -/
theorem bind_callers {α : Type} {arg : Except Fault (α × List Nat)}
    (text : α → Except Fault (List Char)) {rest : List Nat → Except Fault (List Char)}
    (harg : ∀ e, arg = .error e → e.Callers) (htext : ∀ a, ∃ t, text a = .ok t)
    (hrest : ∀ args e, rest args = .error e → e.Callers) (e : Fault)
    (h : (do
      let (a, args) ← arg
      let t ← text a
      return t ++ (← rest args)) = .error e) : e.Callers := by
  cases arg with
  | error e' =>
    cases h
    exact harg _ rfl
  | ok r =>
    obtain ⟨t, ht⟩ := htext r.1
    simp only [bind, Except.bind, ht] at h
    cases hr : rest r.2 with
    | error e' =>
      rw [hr] at h
      cases h
      exact hrest _ _ hr
    | ok s =>
      rw [hr] at h
      cases h

theorem vaInt_callers {args : List Nat} (e : Fault) (h : vaInt args = .error e) : e.Callers := by
  cases args <;> cases h
  exact .inl rfl

theorem vaString_callers {args : List Nat} (e : Fault) (h : vaString l str args = .error e) :
    e.Callers := by
  cases args with
  | nil =>
    cases h
    exact .inl rfl
  | cons a args =>
    by_cases hnull : BitVec.ofNat l a = 0
    · rw [vaString, if_pos hnull] at h
      cases h
      exact .inr rfl
    · rw [vaString, if_neg hnull] at h
      cases h

/-- A conversion, in front of a rest of the format that goes well. -/
theorem conversion_callers {c : Char} (hc : c ∈ conversions) (zero : Bool) {wid : Nat}
    (hwid : wid ≤ 9) {fmt : List Char}
    (hrest : ∀ args e, vsprintfFrom l str fmt .text args = .error e → e.Callers) (args : List Nat)
    (e : Fault) (h : vsprintfFrom l str (c :: fmt)
      (.directive 10 (if zero then '0' else ' ') wid) args = .error e) : e.Callers := by
  have hint : ∀ base : Base, ∀ a, ∃ t,
      number a (BitVec.ofNat 32 base.val) (if zero then '0' else ' ') wid = .ok t :=
    fun base a => ⟨_, number_eq a base zero hwid⟩
  simp only [conversions, List.mem_cons, List.not_mem_nil, or_false] at hc
  rcases hc with rfl | rfl | rfl | rfl | hc
  · rw [vsprintfFrom, if_neg (by decide), if_neg (by decide), if_neg (by decide), if_pos rfl] at h
    exact bind_callers (fun a => .ok [Char.ofNat (a.toNat % 256)]) vaInt_callers
      (fun a => ⟨_, rfl⟩) hrest e h
  · rw [vsprintfFrom, if_neg (by decide), if_neg (by decide), if_neg (by decide),
      if_neg (by decide), if_pos rfl] at h
    exact bind_callers .ok vaString_callers (fun a => ⟨_, rfl⟩) hrest e h
  · rw [vsprintfFrom, if_neg (by decide), if_neg (by decide), if_neg (by decide),
      if_neg (by decide), if_neg (by decide), if_pos rfl] at h
    exact hrest args e h
  · rw [vsprintfFrom, if_neg (by decide), if_neg (by decide), if_neg (by decide),
      if_neg (by decide), if_neg (by decide), if_neg (by decide), if_pos rfl] at h
    exact map_callers (f := ('%' :: ·)) (hrest args) e h
  · have hbase : ∀ c ∈ ['p', 'x', 'X', 'o', 'd', 'i', 'u'], ∃ base : Base,
        (let base := if c ∈ ['p', 'x', 'X'] then 16 else (10 : BitVec 32)
         if c ∈ ['p', 'x', 'X', 'o'] ∧ base = 10 then 8 else base) = BitVec.ofNat 32 base.val := by
      intro c hc
      simp only [List.mem_cons, List.not_mem_nil, or_false] at hc
      rcases hc with rfl | rfl | rfl | rfl | rfl | rfl | rfl
      · exact ⟨.hex, by decide⟩
      · exact ⟨.hex, by decide⟩
      · exact ⟨.hex, by decide⟩
      · exact ⟨.oct, by decide⟩
      all_goals exact ⟨.dec, by decide⟩
    have hmem : c ∈ ['p', 'x', 'X', 'o', 'd', 'i', 'u'] := by simpa using hc
    obtain ⟨base, hb⟩ := hbase c hmem
    rw [int_step hmem hb] at h
    exact bind_callers _ vaInt_callers (hint base) hrest e h

/-- What is no conversion and no attribute at most sets a width. -/
theorem other_step {c : Char} (hNUL : c ≠ NUL) (hzero : c ≠ '0') (hstar : c ≠ '*')
    (hc : c ∉ conversions) (lead : Char) {wid : Nat} (hwid : wid ≤ 9) (fmt : List Char)
    (args : List Nat) : ∃ wid' ≤ 9, vsprintfFrom l str (c :: fmt) (.directive 10 lead wid) args =
      vsprintfFrom l str fmt (.directive 10 lead wid') args := by
  simp only [conversions, List.mem_cons, List.not_mem_nil, or_false, not_or] at hc
  obtain ⟨h1, h2, h3, h4, h5, h6, h7, h8, h9, h10, h11⟩ := hc
  refine ⟨if '1' ≤ c ∧ c ≤ '9' then c.toNat - '0'.toNat else wid, ?_, ?_⟩
  · split
    · next h =>
      have hle : c.toNat ≤ '9'.toNat := h.2
      exact Nat.sub_le_sub_right hle _
    · exact hwid
  · rw [vsprintfFrom, if_neg hNUL, if_neg hzero, if_neg hstar, if_neg h1, if_neg h2, if_neg h3,
      if_neg h4, if_neg (by simp [h5, h6, h7, h8, h9, h10, h11])]

/-- A run that no `*` disturbs. -/
theorem safe_run {fmt : List Char} {mode : Mode} (hmode : mode.Plain) (hend : NUL ∈ fmt)
    (hstar : hasStar mode.inside fmt = false) (args : List Nat) (e : Fault)
    (h : vsprintfFrom l str fmt mode args = .error e) : e.Callers := by
  induction fmt generalizing mode args e with
  | nil => exact absurd hend List.not_mem_nil
  | cons c fmt ih =>
    by_cases hNUL : c = NUL
    · cases hmode <;> (rw [vsprintfFrom, if_pos hNUL] at h; cases h)
    · have hend' : NUL ∈ fmt := (List.mem_cons.mp hend).resolve_left (Ne.symm hNUL)
      cases hmode with
      | text =>
        have hstar' : hasStar (c = '%') fmt = false := by
          simpa [hasStar, Mode.inside, hNUL] using hstar
        rw [vsprintfFrom, if_neg hNUL] at h
        by_cases hpercent : c = '%'
        · rw [if_neg (not_not.mpr hpercent)] at h
          exact ih (Mode.Plain.directive false (by decide)) hend'
            (by simpa [hpercent, Mode.inside] using hstar') args e h
        · rw [if_pos hpercent] at h
          have hrest := ih Mode.Plain.text hend' (by simpa [hpercent, Mode.inside] using hstar') args
          exact map_callers (f := (c :: ·)) hrest e h
      | directive zero hwid =>
        have hstar' : c ≠ '*' ∧ hasStar (c ∉ conversions) fmt = false := by
          simpa [hasStar, Mode.inside, hNUL] using hstar
        by_cases hconv : c ∈ conversions
        · have hrest := fun args e =>
            ih Mode.Plain.text hend' (by simpa [hconv, Mode.inside] using hstar'.2) args e
          exact conversion_callers hconv zero hwid hrest args e h
        · have hrest : hasStar true fmt = false := by simpa [hconv] using hstar'.2
          by_cases hzero : c = '0'
          · rw [vsprintfFrom, if_neg hNUL, if_pos hzero] at h
            exact ih (Mode.Plain.directive true hwid) hend' hrest args e h
          · obtain ⟨wid', hwid', heq⟩ := @other_step l str c hNUL hzero hstar'.1 hconv
              (if zero then '0' else ' ') _ hwid fmt args
            rw [heq] at h
            exact ih (Mode.Plain.directive zero hwid') hend' hrest args e h

/-- **No format without a `*` makes the small version go wrong** by itself: whatever its
characters and numbers are, nothing is divided by 0, `hex` is not read and `tmp` is not
written outside, and the format is not read behind its end. -/
theorem vsprintf_safe {fmt : List Char} (hend : NUL ∈ fmt) (hstar : hasStar false fmt = false)
    (args : List Nat) : (∃ text, Xint.vsprintf l str fmt args = .ok text) ∨
      ∃ e, Xint.vsprintf l str fmt args = .error e ∧ e.Callers := by
  cases h : Xint.vsprintf l str fmt args with
  | ok text => exact .inl ⟨text, rfl⟩
  | error e => exact .inr ⟨e, rfl, safe_run Mode.Plain.text hend hstar args e h⟩

end Safe

/-- Attributes that are not supported, unknown characters, and no argument for a number. -/
theorem vsprintf_safe_odd :
    (∃ text, Xint.vsprintf 32 (fun _ => [])
      ['*', '%', '-', '+', '3', 'l', '9', 'd', '%', 'q', '0', 'u', NUL] [7] = .ok text) ∨
    ∃ e, Xint.vsprintf 32 (fun _ => [])
      ['*', '%', '-', '+', '3', 'l', '9', 'd', '%', 'q', '0', 'u', NUL] [7] = .error e ∧
        e.Callers :=
  vsprintf_safe (by decide) (by decide) [7]

end Bathos.Printf.Xint
