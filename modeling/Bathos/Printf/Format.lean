import Bathos.Printf.Number

/-!
# Bathos — the full formatter

`pp_vsprintf` of `pp_printf/vsprintf-full.c`. A directive is read from its `%` on: flags, a
width, a precision, a qualifier, a conversion. Two things are not as in the library it was
taken from. An `l` is taken for a second `l` as well, so that the character behind it is
passed over; and the loop behind a pointer tests a character that it never reads again.

What a format means is in `Printf.Meaning`.
-/

namespace Bathos.Printf

open Bathos.Lib

-- ---------------------------------------------------------------------------
-- The code
-- ---------------------------------------------------------------------------

/-- What can go wrong: the format is read behind its memory, or there is no argument left. -/
inductive Stop where
  | overrun
  | noArg
deriving DecidableEq, Repr

/-- The end of a string. -/
def NUL : Char := Char.ofNat 0

/-- What an argument may point to: the string at an address. -/
abbrev Strings := Nat → List Char

def isDigit (c : Char) : Bool := '0' ≤ c && c ≤ '9'

def isAlnum (c : Char) : Bool := 'a' ≤ c && c ≤ 'z' || 'A' ≤ c && c ≤ 'Z' || isDigit c

/-- `__get_fmt_char`. -/
def getFmtChar : List Char → Except Stop Char
  | [] => .error .overrun
  | c :: _ => .ok c

/-- `va_arg(args, int)`. -/
def vaInt : List Nat → Except Stop (BitVec 32 × List Nat)
  | [] => .error .noArg
  | a :: args => .ok (BitVec.ofNat 32 a, args)

/-- `va_arg` of a pointer or a number as wide as a long. -/
def vaLong (l : Nat) : List Nat → Except Stop (BitVec l × List Nat)
  | [] => .error .noArg
  | a :: args => .ok (BitVec.ofNat l a, args)

/-- The flags, from the character behind the `%` on. -/
def parseFlags : List Char → Flags → Except Stop (Flags × List Char)
  | [], _ => .error .overrun
  | c :: fmt, flags =>
    if c = '-' then parseFlags fmt { flags with left := true }
    else if c = '+' then parseFlags fmt { flags with plus := true }
    else if c = ' ' then parseFlags fmt { flags with space := true }
    else if c = '#' then parseFlags fmt { flags with special := true }
    else if c = '0' then parseFlags fmt { flags with zeropad := true }
    else .ok (flags, c :: fmt)

/-- `skip_atoi`, from `i` on. -/
def skipAtoi : List Char → Nat → Except Stop (Nat × List Char)
  | [], _ => .error .overrun
  | c :: fmt, i => if isDigit c then skipAtoi fmt (i * 10 + (c.toNat - 48)) else .ok (i, c :: fmt)

/-- The field width, with the flags and what is left of the format and the arguments. -/
def parseWidth (flags : Flags) (fmt : List Char) (args : List Nat) :
    Except Stop (Int × Flags × List Char × List Nat) := do
  let c ← getFmtChar fmt
  if isDigit c then
    let (n, fmt) ← skipAtoi fmt 0
    return (n, flags, fmt, args)
  else if c = '*' then
    let (a, args) ← vaInt args
    if a.toInt < 0 then return (-a.toInt, { flags with left := true }, fmt.tail, args)
    else return (a.toInt, flags, fmt.tail, args)
  else return (-1, flags, fmt, args)

/-- The precision. -/
def parsePrecision (fmt : List Char) (args : List Nat) :
    Except Stop (Int × List Char × List Nat) := do
  let c ← getFmtChar fmt
  if c = '.' then
    let c ← getFmtChar fmt.tail
    if isDigit c then
      let (n, fmt) ← skipAtoi fmt.tail 0
      return (n, fmt, args)
    else if c = '*' then
      let (a, args) ← vaInt args
      return (if a.toInt < 0 then 0 else a.toInt, fmt.tail.tail, args)
    else return (0, fmt.tail, args)
  else return (-1, fmt, args)

/-- The qualifier: the second test is made on the character of the first. -/
def parseQualifier (fmt : List Char) : Except Stop (Option Char × List Char) := do
  let c ← getFmtChar fmt
  if c ∈ ['h', 'l', 'L', 'Z', 'z', 't'] then
    if c = 'l' then return (some 'L', fmt.tail.tail) else return (some c, fmt.tail)
  else return (none, fmt)

/-- A directive as it was read. -/
structure Spec where
  flags : Flags
  width : Int
  precision : Int
  qualifier : Option Char
  conv : Char
deriving DecidableEq, Repr

def noFlags : Flags := ⟨false, false, false, false, false, false, false⟩

/-- All of a directive up to its conversion; the format is left there. -/
def parseSpec (fmt : List Char) (args : List Nat) :
    Except Stop (Spec × List Char × List Nat) := do
  let (flags, fmt) ← parseFlags fmt noFlags
  let (width, flags, fmt, args) ← parseWidth flags fmt args
  let (precision, fmt, args) ← parsePrecision fmt args
  let (qualifier, fmt) ← parseQualifier fmt
  let conv ← getFmtChar fmt
  return (⟨flags, width, precision, qualifier, conv⟩, fmt, args)

/-- `strnlen`. -/
def strnlen : List Char → Int → Nat
  | [], _ => 0
  | _ :: s, count => if count = 0 then 0 else strnlen s (count - 1) + 1

/-- `while (len < field_width--) *buf++ = ' '`. -/
def widthLoop (len width : Int) : List Char × Int :=
  if len < width then (' ' :: (widthLoop len (width - 1)).1, (widthLoop len (width - 1)).2)
  else ([], width - 1)
termination_by (width - len).toNat

/-- `string`. -/
def string (s : List Char) (width precision : Int) (flags : Flags) : List Char :=
  let len := strnlen s precision
  let (leading, width) := if !flags.left then widthLoop len width else ([], width)
  leading ++ s.take len ++ (widthLoop len width).1

/-- `while (--field_width > 0) *str++ = ' '`. -/
def charLoop (width : Int) : List Char × Int :=
  if 0 < width - 1 then (' ' :: (charLoop (width - 1)).1, (charLoop (width - 1)).2)
  else ([], width - 1)
termination_by width.toNat

/-- `pointer`. -/
def pointer {l : Nat} (ptr : BitVec l) (width precision : Int) (flags : Flags) : List Char :=
  if ptr = 0 then string "(null)".toList width precision flags
  else if width = -1 then
    number ptr .hex (2 * (l / 8)) precision { flags with small := true, zeropad := true }
  else number ptr .hex width precision { flags with small := true }

/-- The bases of the integer conversions, and the flags they add. -/
def intConv (conv : Char) (flags : Flags) : Option (Base × Flags) :=
  if conv = 'o' then some (.oct, flags)
  else if conv = 'x' then some (.hex, { flags with small := true })
  else if conv = 'X' then some (.hex, flags)
  else if conv = 'd' ∨ conv = 'i' then some (.dec, { flags with sign := true })
  else if conv = 'u' then some (.dec, flags)
  else none

/-- `num`, by the qualifier: `CONFIG_SYS_64BIT_VSPRINTF` is not set. -/
def intArg (l : Nat) (qualifier : Option Char) (sign : Bool) (args : List Nat) :
    Except Stop (BitVec l × List Nat) := do
  if qualifier = some 'l' ∨ qualifier = some 'Z' ∨ qualifier = some 'z' ∨ qualifier = some 't' then
    vaLong l args
  else if qualifier = some 'h' then
    let (a, args) ← vaInt args
    return (if sign then (a.setWidth 16).signExtend l else (a.setWidth 16).setWidth l, args)
  else
    let (a, args) ← vaInt args
    return (if sign then a.signExtend l else a.setWidth l, args)

/-- What a conversion does: the text, and the counts stored for `%n`. -/
structure Output where
  text : List Char
  stores : List (Nat × Nat)
deriving DecidableEq, Repr

def Output.append (a b : Output) : Output := ⟨a.text ++ b.text, a.stores ++ b.stores⟩

/-- The `switch`, with the number of characters written before. -/
def convert (l : Nat) (str : Strings) (s : Spec) (args : List Nat) (written : Nat) :
    Except Stop (Output × List Nat) := do
  if s.conv = 'c' then
    let (a, args) ← vaInt args
    let (leading, width) := if !s.flags.left then charLoop s.width else ([], s.width)
    return (⟨leading ++ [Char.ofNat (a.toNat % 256)] ++ (charLoop width).1, []⟩, args)
  else if s.conv = 's' then
    let (a, args) ← vaLong l args
    let s' := if a = 0 then "<NULL>".toList else str a.toNat
    return (⟨string s' s.width s.precision s.flags, []⟩, args)
  else if s.conv = 'p' then
    let (a, args) ← vaLong l args
    return (⟨pointer a s.width s.precision s.flags, []⟩, args)
  else if s.conv = 'n' then
    let (a, args) ← vaLong l args
    return (⟨[], [(a.toNat, written)]⟩, args)
  else if s.conv = '%' then return (⟨['%'], []⟩, args)
  else
    match intConv s.conv s.flags with
    | some (base, flags) =>
      let (num, args) ← intArg l s.qualifier flags.sign args
      return (⟨number num base s.width s.precision flags, []⟩, args)
    | none => return (⟨if s.conv = NUL then ['%'] else ['%', s.conv], []⟩, args)

/-- `while (isalnum(c)) fmt++`, for `fuel` tests at most: `c` is not read again. -/
def skipSuffix : Nat → Char → List Char → Option (List Char)
  | 0, _, _ => none
  | fuel + 1, c, fmt => if isAlnum c then skipSuffix fuel c fmt.tail else some fmt

/-- What is done from the character behind a `%` on: the output, and the format and the
arguments behind the directive. -/
def directive (l : Nat) (str : Strings) (fuel : Nat) (fmt : List Char) (args : List Nat)
    (written : Nat) : Option (Except Stop (Output × List Char × List Nat)) :=
  match parseSpec fmt args with
  | .error e => some (.error e)
  | .ok (s, fmt, args) =>
    match convert l str s args written with
    | .error e => some (.error e)
    | .ok (out, args) =>
      if s.conv = 'p' then
        match getFmtChar fmt.tail with
        | .error e => some (.error e)
        | .ok c => (skipSuffix fuel c fmt.tail).map fun fmt => .ok (out, fmt, args)
      else some (.ok (out, if s.conv = NUL then fmt else fmt.tail, args))

/-- The loop of `pp_vsprintf`, for `fuel` turns at most. -/
def vsprintfFrom (l : Nat) (str : Strings) :
    Nat → List Char → List Nat → Nat → Option (Except Stop Output)
  | 0, _, _, _ => none
  | _ + 1, [], _, _ => some (.error .overrun)
  | fuel + 1, c :: fmt, args, written =>
    if c = NUL then some (.ok ⟨[], []⟩)
    else if c ≠ '%' then
      (vsprintfFrom l str fuel fmt args (written + 1)).map fun r =>
        r.map (Output.append ⟨[c], []⟩)
    else
      match directive l str fuel fmt args written with
      | none => none
      | some (.error e) => some (.error e)
      | some (.ok (out, fmt, args)) =>
        (vsprintfFrom l str fuel fmt args (written + out.text.length)).map fun r =>
          r.map (Output.append out)

/-- `pp_vsprintf`. -/
def vsprintf (l : Nat) (str : Strings) (fuel : Nat) (fmt : List Char) (args : List Nat) :
    Option (Except Stop Output) :=
  vsprintfFrom l str fuel fmt args 0

-- ---------------------------------------------------------------------------
-- Some characters
-- ---------------------------------------------------------------------------

/-- What can be tested of some characters, one after the other. -/
theorem forall_mem_of_all {p : Char → Prop} [DecidablePred p] {cs : List Char}
    (h : cs.all (fun c => p c) = true) : ∀ c ∈ cs, p c :=
  fun c hc => of_decide_eq_true (List.all_eq_true.mp h c hc)

end Bathos.Printf
