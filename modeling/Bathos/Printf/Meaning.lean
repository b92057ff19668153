import Bathos.Printf.Format

/-!
# Bathos — what a format means

Formats as lists of pieces, literal characters and directives, with the text they are
written as and what they print. An `l` in a directive comes with the character that is passed
over behind it; a format may end within its last directive.

Main results:

* `parseSpec_render` — a directive written down is read as it was meant;
* `vsprintf_returns_iff` — the calls that come to an end, and what they print.
-/

namespace Bathos.Printf

open Bathos.Lib

-- ---------------------------------------------------------------------------
-- Formats
-- ---------------------------------------------------------------------------

/-- A width or a precision. -/
inductive Count where
  | absent
  | num (n : Nat)
  | star
deriving DecidableEq, Repr

inductive Qualifier where
  | absent
  | plain (c : Char)
  | long (eaten : Char)
deriving DecidableEq, Repr

/-- A directive; the precision may be a point with nothing behind it. -/
structure Directive where
  flags : List Char
  width : Count
  precision : Option Count
  qualifier : Qualifier
  conv : Char
deriving DecidableEq, Repr

inductive Piece where
  | lit (c : Char)
  | conv (d : Directive)
deriving DecidableEq, Repr

def Count.render : Count → List Char
  | .absent => []
  | .num n => (numeral 10 n).map decChar
  | .star => ['*']

def Qualifier.render : Qualifier → List Char
  | .absent => []
  | .plain c => [c]
  | .long eaten => ['l', eaten]

def renderPrecision : Option Count → List Char
  | none => []
  | some p => '.' :: p.render

/-- A directive without its `%` and its conversion. -/
def Directive.body (d : Directive) : List Char :=
  d.flags ++ (d.width.render ++ (renderPrecision d.precision ++ d.qualifier.render))

def Piece.render : Piece → List Char
  | .lit c => [c]
  | .conv d => '%' :: (d.body ++ [d.conv])

/-- A format and its end: there may be a directive that has no conversion. -/
def render (ps : List Piece) (last : Option Directive) : List Char :=
  ps.flatMap Piece.render ++
    ((match last with
      | none => []
      | some d => '%' :: d.body) ++ [NUL])

-- ---------------------------------------------------------------------------
-- Which of them are meant
-- ---------------------------------------------------------------------------

def flagChars : List Char := ['-', '+', ' ', '#', '0']

def qualifierChars : List Char := ['h', 'L', 'Z', 'z', 't']

/-- A character that ends whatever is in front of the conversion. -/
def Ends (c : Char) : Prop :=
  c ∉ flagChars ∧ isDigit c = false ∧ c ≠ '*' ∧ c ≠ '.' ∧ c ∉ qualifierChars ∧ c ≠ 'l'

instance (c : Char) : Decidable (Ends c) := inferInstanceAs (Decidable (_ ∧ _))

/-- A directive in the form the formatter reads. -/
structure Directive.Ok (d : Directive) : Prop where
  flags : ∀ c ∈ d.flags, c ∈ flagChars
  width : d.width ≠ .num 0
  qualifier : ∀ c, d.qualifier = .plain c → c ∈ qualifierChars
  conv : Ends d.conv

def Piece.Ok : Piece → Prop
  | .lit c => c ≠ NUL ∧ c ≠ '%'
  | .conv d => d.Ok ∧ d.conv ≠ NUL

-- ---------------------------------------------------------------------------
-- What they mean
-- ---------------------------------------------------------------------------

/-- A flag. -/
def setFlag (flags : Flags) (c : Char) : Flags :=
  if c = '-' then { flags with left := true }
  else if c = '+' then { flags with plus := true }
  else if c = ' ' then { flags with space := true }
  else if c = '#' then { flags with special := true }
  else { flags with zeropad := true }

/-- A width, with the flag that a negative one sets. -/
def Count.width (flags : Flags) (args : List Nat) : Count → Except Stop (Int × Flags × List Nat)
  | .absent => .ok (-1, flags, args)
  | .num n => .ok (n, flags, args)
  | .star => do
    let (a, args) ← vaInt args
    if a.toInt < 0 then return (-a.toInt, { flags with left := true }, args)
    else return (a.toInt, flags, args)

def precisionOf (args : List Nat) : Option Count → Except Stop (Int × List Nat)
  | none => .ok (-1, args)
  | some .absent => .ok (0, args)
  | some (.num n) => .ok (n, args)
  | some .star => do
    let (a, args) ← vaInt args
    return (if a.toInt < 0 then 0 else a.toInt, args)

def Qualifier.read : Qualifier → Option Char
  | .absent => none
  | .plain c => some c
  | .long _ => some 'L'

/-- A directive with the numbers it takes from the arguments. -/
def Directive.resolve (d : Directive) (args : List Nat) : Except Stop (Spec × List Nat) := do
  let (width, flags, args) ← d.width.width (d.flags.foldl setFlag noFlags) args
  let (precision, args) ← precisionOf args d.precision
  return (⟨flags, width, precision, d.qualifier.read, d.conv⟩, args)

/-- What the pieces of a format print, one after the other. -/
def denote (l : Nat) (str : Strings) : List Piece → List Nat → Nat → Except Stop Output
  | [], _, _ => .ok ⟨[], []⟩
  | .lit c :: ps, args, written => do
    let rest ← denote l str ps args (written + 1)
    return Output.append ⟨[c], []⟩ rest
  | .conv d :: ps, args, written => do
    let (s, args) ← d.resolve args
    let (out, args) ← convert l str s args written
    let rest ← denote l str ps args (written + out.text.length)
    return out.append rest

-- ---------------------------------------------------------------------------
-- Reading a directive
-- ---------------------------------------------------------------------------

theorem parseFlags_render {fs : List Char} (hfs : ∀ c ∈ fs, c ∈ flagChars) {c : Char}
    (hc : c ∉ flagChars) (fmt : List Char) (flags : Flags) :
    parseFlags (fs ++ c :: fmt) flags = .ok (fs.foldl setFlag flags, c :: fmt) := by
  induction fs generalizing flags with
  | nil =>
    simp only [flagChars, List.mem_cons, List.not_mem_nil, or_false, not_or] at hc
    obtain ⟨h1, h2, h3, h4, h5⟩ := hc
    rw [List.nil_append, parseFlags, if_neg h1, if_neg h2, if_neg h3, if_neg h4, if_neg h5]
    rfl
  | cons f fs ih =>
    have hf := hfs f List.mem_cons_self
    have hrest := ih (fun c hc => hfs c (List.mem_cons_of_mem f hc))
    simp only [flagChars, List.mem_cons, List.not_mem_nil, or_false] at hf
    rw [List.cons_append, parseFlags, List.foldl_cons]
    rcases hf with rfl | rfl | rfl | rfl | rfl <;> exact hrest _

theorem isDigit_decChar : ∀ d < 10, isDigit (decChar d) = true := by decide

theorem skipAtoi_render {ds : List Nat} (hds : ∀ d ∈ ds, d < 10) {c : Char}
    (hc : isDigit c = false) (fmt : List Char) (i : Nat) :
    skipAtoi (ds.map decChar ++ c :: fmt) i = .ok (readDigits 10 i ds, c :: fmt) := by
  induction ds generalizing i with
  | nil => rw [List.map_nil, List.nil_append, skipAtoi, hc]; rfl
  | cons d ds ih =>
    have hd := hds d List.mem_cons_self
    rw [List.map_cons, List.cons_append, skipAtoi, if_pos (isDigit_decChar d hd),
      ih fun e he => hds e (List.mem_cons_of_mem d he), decChar_toNat d hd, Nat.add_sub_cancel]
    rfl

theorem numeral_render (n : Nat) {c : Char} (hc : isDigit c = false) (fmt : List Char) :
    skipAtoi ((numeral 10 n).map decChar ++ c :: fmt) 0 = .ok (n, c :: fmt) := by
  rw [skipAtoi_render (fun d hd => numeral_lt (by omega) hd) hc, readDigits_numeral (by omega)]

/-- The first character of a number. -/
theorem numeral_head (n : Nat) : ∃ d ds, (numeral 10 n).map decChar = decChar d :: ds ∧
    d < 10 ∧ (n ≠ 0 → d ≠ 0) := by
  obtain ⟨d, ds, hds⟩ := List.exists_cons_of_ne_nil (numeral_ne_nil 10 n)
  have hmem : d ∈ numeral 10 n := by rw [hds]; exact List.mem_cons_self
  exact ⟨d, ds.map decChar, by rw [hds]; rfl, numeral_lt (by omega) hmem,
    fun hn => numeral_head_ne_zero hn hds⟩

/-- A character that ends a width that is not there, and is no flag. -/
structure Follows (c : Char) : Prop where
  flag : c ∉ flagChars
  digit : isDigit c = false
  star : c ≠ '*'

section Stages

variable {c : Char} (fmt : List Char) (flags : Flags) (args : List Nat)

theorem parseWidth_render (hc : Follows c) (w : Count) :
    parseWidth flags (w.render ++ c :: fmt) args =
      (w.width flags args).map fun r => (r.1, r.2.1, c :: fmt, r.2.2) := by
  cases w with
  | absent =>
    show parseWidth flags (c :: fmt) args = _
    unfold parseWidth
    simp only [getFmtChar, bind, Except.bind, hc.digit, Bool.false_eq_true, if_false, hc.star]
    rfl
  | num n =>
    obtain ⟨d, ds, hds, hd, -⟩ := numeral_head n
    have hskip := numeral_render n hc.digit fmt
    show parseWidth flags ((numeral 10 n).map decChar ++ c :: fmt) args = _
    unfold parseWidth
    rw [hds] at hskip ⊢
    simp only [List.cons_append, getFmtChar, bind, Except.bind, isDigit_decChar d hd, if_true]
    rw [← List.cons_append, hskip]
    rfl
  | star =>
    show parseWidth flags ('*' :: c :: fmt) args = _
    unfold parseWidth Count.width
    cases args with
    | nil => rfl
    | cons a args =>
      simp only [getFmtChar, bind, Except.bind, vaInt]
      rw [if_neg (by decide), if_pos trivial]
      split <;> rfl

theorem parsePrecision_render (hc : Follows c) (hpoint : c ≠ '.') (p : Option Count) :
    parsePrecision (renderPrecision p ++ c :: fmt) args =
      (precisionOf args p).map fun r => (r.1, c :: fmt, r.2) := by
  cases p with
  | none =>
    show parsePrecision (c :: fmt) args = _
    unfold parsePrecision
    simp only [getFmtChar, bind, Except.bind, hpoint, if_false]
    rfl
  | some p =>
    cases p with
    | absent =>
      show parsePrecision ('.' :: c :: fmt) args = _
      unfold parsePrecision
      simp only [getFmtChar, bind, Except.bind, if_true, List.tail_cons, hc.digit,
        Bool.false_eq_true,
        if_false, hc.star]
      rfl
    | num n =>
      obtain ⟨d, ds, hds, hd, -⟩ := numeral_head n
      have hskip := numeral_render n hc.digit fmt
      show parsePrecision ('.' :: ((numeral 10 n).map decChar ++ c :: fmt)) args = _
      unfold parsePrecision
      rw [hds] at hskip ⊢
      simp only [List.cons_append, getFmtChar, bind, Except.bind, if_true, List.tail_cons,
        isDigit_decChar d hd]
      rw [← List.cons_append, hskip]
      rfl
    | star =>
      show parsePrecision ('.' :: '*' :: c :: fmt) args = _
      unfold parsePrecision precisionOf
      cases args with
      | nil => rfl
      | cons a args => rfl

theorem parseQualifier_render (hc : c ∉ qualifierChars) (hl : c ≠ 'l') {q : Qualifier}
    (hq : ∀ c, q = .plain c → c ∈ qualifierChars) :
    parseQualifier (q.render ++ c :: fmt) = .ok (q.read, c :: fmt) := by
  cases q with
  | absent =>
    have hmem : c ∉ ['h', 'l', 'L', 'Z', 'z', 't'] := by
      simp only [qualifierChars, List.mem_cons, List.not_mem_nil, or_false, not_or] at hc ⊢
      exact ⟨hc.1, hl, hc.2⟩
    show parseQualifier (c :: fmt) = _
    unfold parseQualifier
    simp only [getFmtChar, bind, Except.bind, hmem, if_false]
    rfl
  | plain k =>
    have hk := hq k rfl
    simp only [qualifierChars, List.mem_cons, List.not_mem_nil, or_false] at hk
    rcases hk with rfl | rfl | rfl | rfl | rfl <;> rfl
  | long eaten => rfl

end Stages

/-- What a directive consists of starts with a character that ends the part before. -/
theorem qualifier_follows {d : Directive} (hd : d.Ok) (fmt : List Char) :
    ∃ c rest, d.qualifier.render ++ d.conv :: fmt = c :: rest ∧ Follows c ∧ c ≠ '.' := by
  obtain ⟨hflag, hdigit, hstar, hpoint, -, -⟩ := hd.conv
  cases hq : d.qualifier with
  | absent => exact ⟨d.conv, fmt, rfl, ⟨hflag, hdigit, hstar⟩, hpoint⟩
  | plain k =>
    have hall : ∀ k ∈ qualifierChars, (k ∉ flagChars ∧ isDigit k = false ∧ k ≠ '*') ∧ k ≠ '.' :=
      forall_mem_of_all (by decide)
    obtain ⟨⟨hflag, hdigit, hstar⟩, hpoint⟩ := hall k (hd.qualifier k hq)
    exact ⟨k, d.conv :: fmt, rfl, ⟨hflag, hdigit, hstar⟩, hpoint⟩
  | long eaten => exact ⟨'l', eaten :: d.conv :: fmt, rfl, ⟨by decide, rfl, by decide⟩, by decide⟩

theorem precision_follows {d : Directive} (hd : d.Ok) (fmt : List Char) :
    ∃ c rest, renderPrecision d.precision ++ (d.qualifier.render ++ d.conv :: fmt) = c :: rest ∧
      Follows c := by
  cases hp : d.precision with
  | none =>
    obtain ⟨c, rest, heq, hc, -⟩ := qualifier_follows hd fmt
    exact ⟨c, rest, heq, hc⟩
  | some p => exact ⟨'.', _, rfl, ⟨by decide, rfl, by decide⟩⟩

theorem width_follows {d : Directive} (hd : d.Ok) (fmt : List Char) :
    ∃ c rest, d.width.render ++ (renderPrecision d.precision ++
      (d.qualifier.render ++ d.conv :: fmt)) = c :: rest ∧ c ∉ flagChars := by
  cases hw : d.width with
  | absent =>
    obtain ⟨c, rest, heq, hc⟩ := precision_follows hd fmt
    exact ⟨c, rest, heq, hc.flag⟩
  | num n =>
    have hall : ∀ d < 10, d ≠ 0 → decChar d ∉ flagChars := by decide
    obtain ⟨e, es, hes, he, hne⟩ := numeral_head n
    have hn : n ≠ 0 := fun h => hd.width (by rw [hw, h])
    unfold Count.render
    simp only [hes]
    exact ⟨decChar e, _, rfl, hall e he (hne hn)⟩
  | star => exact ⟨'*', _, rfl, by decide⟩

/-- **A directive is read as it was meant.** -/
theorem parseSpec_render {d : Directive} (hd : d.Ok) (fmt : List Char) (args : List Nat) :
    parseSpec (d.body ++ d.conv :: fmt) args =
      (d.resolve args).map fun r => (r.1, d.conv :: fmt, r.2) := by
  obtain ⟨c₁, r₁, hw, hflag⟩ := width_follows hd fmt
  obtain ⟨c₂, r₂, hp, hfollows⟩ := precision_follows hd fmt
  obtain ⟨c₃, r₃, hq, hfollows₃, hpoint⟩ := qualifier_follows hd fmt
  have hflags : parseFlags (d.body ++ d.conv :: fmt) noFlags =
      .ok (d.flags.foldl setFlag noFlags, d.width.render ++ c₂ :: r₂) := by
    unfold Directive.body
    simp only [List.append_assoc]
    rw [hw, parseFlags_render hd.flags hflag, ← hw, hp]
  have hqual := parseQualifier_render fmt hd.conv.2.2.2.2.1 hd.conv.2.2.2.2.2 hd.qualifier
  unfold parseSpec Directive.resolve
  rw [hflags]
  simp only [bind, Except.bind]
  rw [parseWidth_render r₂ _ args hfollows]
  cases d.width.width (d.flags.foldl setFlag noFlags) args with
  | error e => rfl
  | ok r =>
    obtain ⟨width, flags, args'⟩ := r
    simp only [Except.map]
    rw [← hp, hq, parsePrecision_render r₃ args' hfollows₃ hpoint]
    cases precisionOf args' d.precision with
    | error e => rfl
    | ok r =>
      simp only [Except.map]
      rw [← hq, hqual]
      rfl

-- ---------------------------------------------------------------------------
-- A run over a format
-- ---------------------------------------------------------------------------

/-- Behind a pointer there is no letter and no digit. -/
def PointerOk : Piece → Piece → Prop
  | .conv d, .lit c => d.conv = 'p' → isAlnum c = false
  | _, _ => True

/-- All pieces of a format, with the one that has no end. -/
def allPieces (ps : List Piece) (last : Option Directive) : List Piece :=
  ps ++ (last.map Piece.conv).toList

section Run

variable {l : Nat} {str : Strings} {last : Option Directive}

theorem render_cons (p : Piece) (ps : List Piece) :
    render (p :: ps) last = p.render ++ render ps last := by
  unfold render
  rw [List.flatMap_cons, List.append_assoc]

/-- The character a format starts with. -/
theorem render_head (ps : List Piece) : ∃ c rest, render ps last = c :: rest ∧
    (isAlnum c = true ↔ ∃ k ps', ps = .lit k :: ps' ∧ isAlnum k = true) := by
  cases ps with
  | nil =>
    cases last with
    | none => exact ⟨NUL, [], rfl, fun h => absurd h (by decide), nofun⟩
    | some d => exact ⟨'%', _, rfl, fun h => absurd h (by decide), nofun⟩
  | cons p ps =>
    rw [render_cons]
    cases p with
    | lit c =>
      refine ⟨c, render ps last, rfl, fun h => ⟨c, ps, rfl, h⟩, ?_⟩
      rintro ⟨k, ps', h, hk⟩
      cases h
      exact hk
    | conv d => exact ⟨'%', _, rfl, fun h => absurd h (by decide), nofun⟩

theorem resolve_conv {d : Directive} {s : Spec} {args args' : List Nat}
    (h : d.resolve args = .ok (s, args')) : s.conv = d.conv := by
  unfold Directive.resolve at h
  simp only [bind, Except.bind] at h
  split at h
  · cases h
  · split at h
    · cases h
    · cases h
      rfl

/-- One directive, up to the loop behind a pointer. -/
theorem directive_render {d : Directive} (hd : d.Ok) {s : Spec} {args args' args'' : List Nat}
    {written : Nat} {out : Output} (hs : d.resolve args = .ok (s, args'))
    (hout : convert l str s args' written = .ok (out, args'')) (fuel : Nat) (fmt : List Char) :
    directive l str fuel (d.body ++ d.conv :: fmt) args written =
      if d.conv = 'p' then
        match getFmtChar fmt with
        | .error e => some (.error e)
        | .ok c => (skipSuffix fuel c fmt).map fun fmt => .ok (out, fmt, args'')
      else some (.ok (out, if d.conv = NUL then d.conv :: fmt else fmt, args'')) := by
  unfold directive
  rw [parseSpec_render hd, hs]
  cases hc : getFmtChar fmt with
  | error e => simp only [Except.map, hout, resolve_conv hs, List.tail_cons, hc]
  | ok c => simp only [Except.map, hout, resolve_conv hs, List.tail_cons, hc]

/-- A loop whose test does not change. -/
theorem skipSuffix_alnum {c : Char} (hc : isAlnum c = true) (fuel : Nat) (fmt : List Char) :
    skipSuffix fuel c fmt = none := by
  induction fuel generalizing fmt with
  | zero => rfl
  | succ fuel ih => rw [skipSuffix, if_pos hc, ih]

theorem skipSuffix_end {c : Char} (hc : isAlnum c = false) (fuel : Nat) (fmt : List Char) :
    skipSuffix (fuel + 1) c fmt = some fmt := by
  rw [skipSuffix, hc]
  rfl

/-- The turns the loop takes. -/
def turns (ps : List Piece) (last : Option Directive) : Nat := (allPieces ps last).length

/-- What a directive leaves to the rest of the format. -/
theorem denote_conv {d : Directive} {ps : List Piece} {args : List Nat} {written : Nat}
    {out : Output} (h : denote l str (.conv d :: ps) args written = .ok out) :
    ∃ s args' o args'' rest, d.resolve args = .ok (s, args') ∧
      convert l str s args' written = .ok (o, args'') ∧
      denote l str ps args'' (written + o.text.length) = .ok rest ∧ out = o.append rest := by
  unfold denote at h
  simp only [bind, Except.bind] at h
  split at h
  · cases h
  · next r hs =>
    split at h
    · cases h
    · next r' hconv =>
      split at h
      · cases h
      · next rest hrest =>
        cases h
        exact ⟨r.1, r.2, r'.1, r'.2, rest, hs, hconv, hrest, rfl⟩

theorem denote_lit {c : Char} {ps : List Piece} {args : List Nat} {written : Nat}
    {out : Output} (h : denote l str (.lit c :: ps) args written = .ok out) :
    ∃ rest, denote l str ps args (written + 1) = .ok rest ∧
      out = Output.append ⟨[c], []⟩ rest := by
  unfold denote at h
  simp only [bind, Except.bind] at h
  split at h
  · cases h
  · next rest hrest =>
    cases h
    exact ⟨rest, hrest, rfl⟩

/-- The call, up to `fuel` turns. -/
def Run (l : Nat) (str : Strings) (ps : List Piece) (last : Option Directive) (args : List Nat)
    (written : Nat) (out : Output) : Prop :=
  (ps.IsChain PointerOk → ∀ fuel, vsprintfFrom l str fuel (render ps last) args written =
    if fuel ≤ turns ps last then none else some (.ok out)) ∧
  (¬ ps.IsChain PointerOk → ∀ fuel, vsprintfFrom l str fuel (render ps last) args written = none)

theorem run_nil {args : List Nat} {written : Nat} {out : Output}
    (hlast : ∀ d, last = some d → d.Ok ∧ d.conv = NUL)
    (hden : denote l str (allPieces [] last) args written = .ok out) :
    Run l str [] last args written out := by
  refine ⟨fun _ fuel => ?_, fun h => absurd List.IsChain.nil h⟩
  cases fuel with
  | zero => rfl
  | succ fuel =>
    cases last with
    | none =>
      cases hden
      rfl
    | some d =>
      obtain ⟨hd, hNUL⟩ := hlast d rfl
      obtain ⟨s, args', o, args'', rest, hs, hconv, hrest, rfl⟩ := denote_conv hden
      cases hrest
      have hdir := directive_render hd hs hconv fuel []
      rw [hNUL, if_neg (by decide), if_pos rfl] at hdir
      show vsprintfFrom l str (fuel + 1) ('%' :: (d.body ++ [NUL])) args written = _
      rw [vsprintfFrom, if_neg (by decide), if_neg (by decide), hdir]
      cases fuel with
      | zero => rfl
      | succ fuel => rfl

theorem run_lit {c : Char} {ps : List Piece} {args : List Nat} {written : Nat} {out : Output}
    (hc : c ≠ NUL ∧ c ≠ '%')
    (ih : ∀ {args : List Nat} {written : Nat} {out : Output},
      denote l str (allPieces ps last) args written = .ok out →
        Run l str ps last args written out)
    (hden : denote l str (allPieces (.lit c :: ps) last) args written = .ok out) :
    Run l str (.lit c :: ps) last args written out := by
  obtain ⟨rest, hrest, rfl⟩ := denote_lit hden
  obtain ⟨hgood, hbad⟩ := ih hrest
  have hchain : (Piece.lit c :: ps).IsChain PointerOk ↔ ps.IsChain PointerOk := by
    cases ps with
    | nil => simp
    | cons p ps => rw [List.isChain_cons_cons]; exact and_iff_right trivial
  have hstep : ∀ fuel, vsprintfFrom l str (fuel + 1) (render (.lit c :: ps) last) args written =
      (vsprintfFrom l str fuel (render ps last) args (written + 1)).map
        fun r => r.map (Output.append ⟨[c], []⟩) := by
    intro fuel
    rw [render_cons]
    show vsprintfFrom l str (fuel + 1) (c :: render ps last) args written = _
    rw [vsprintfFrom, if_neg hc.1, if_pos hc.2]
  constructor
  · intro h fuel
    cases fuel with
    | zero => rfl
    | succ fuel =>
      rw [hstep, hgood (hchain.mp h)]
      show _ = if fuel + 1 ≤ turns ps last + 1 then _ else _
      simp only [Nat.add_le_add_iff_right]
      split <;> rfl
  · intro h fuel
    cases fuel with
    | zero => rfl
    | succ fuel => rw [hstep, hbad (fun hp => h (hchain.mpr hp))]; rfl

/-- A pointer is followed by what the format goes on with. -/
theorem chain_conv {d : Directive} {ps : List Piece} {c : Char}
    (hc : isAlnum c = true ↔ ∃ k ps', ps = .lit k :: ps' ∧ isAlnum k = true) :
    (Piece.conv d :: ps).IsChain PointerOk ↔
      (d.conv = 'p' → isAlnum c = false) ∧ ps.IsChain PointerOk := by
  cases ps with
  | nil =>
    have hfalse : isAlnum c = false := by
      rw [← Bool.not_eq_true, hc]
      rintro ⟨k, ps', h, -⟩
      cases h
    simp [hfalse]
  | cons p ps =>
    rw [List.isChain_cons_cons]
    refine and_congr_left fun _ => ?_
    cases p with
    | lit k =>
      have hk : isAlnum c = isAlnum k := by
        rw [Bool.eq_iff_iff, hc]
        refine ⟨?_, fun h => ⟨k, ps, rfl, h⟩⟩
        rintro ⟨k', ps', h, hk⟩
        cases h
        exact hk
      rw [hk]
      exact Iff.rfl
    | conv e =>
      refine ⟨fun _ _ => ?_, fun _ => trivial⟩
      rw [← Bool.not_eq_true, hc]
      rintro ⟨k, ps', h, -⟩
      cases h

theorem run_conv {d : Directive} {ps : List Piece} {args : List Nat} {written : Nat} {out : Output}
    (hd : d.Ok ∧ d.conv ≠ NUL)
    (ih : ∀ {args : List Nat} {written : Nat} {out : Output},
      denote l str (allPieces ps last) args written = .ok out →
        Run l str ps last args written out)
    (hden : denote l str (allPieces (.conv d :: ps) last) args written = .ok out) :
    Run l str (.conv d :: ps) last args written out := by
  obtain ⟨s, args', o, args'', rest, hs, hconv, hrest, rfl⟩ := denote_conv hden
  obtain ⟨hgood, hbad⟩ := ih hrest
  obtain ⟨c, fmt, hfmt, hc⟩ := @render_head last ps
  have hdir := fun fuel => directive_render hd.1 hs hconv fuel (render ps last)
  have hstep : ∀ fuel, vsprintfFrom l str (fuel + 1) (render (.conv d :: ps) last) args written =
      if d.conv = 'p' ∧ (isAlnum c = true ∨ fuel = 0) then none
      else (vsprintfFrom l str fuel (render ps last) args'' (written + o.text.length)).map
        fun r => r.map (Output.append o) := by
    intro fuel
    rw [render_cons]
    show vsprintfFrom l str (fuel + 1) ('%' :: (d.body ++ [d.conv]) ++ render ps last) args
      written = _
    rw [List.cons_append, List.append_assoc, List.singleton_append, vsprintfFrom,
      if_neg (by decide), if_neg (by decide), hdir]
    by_cases hp : d.conv = 'p'
    · rw [if_pos hp]
      simp only [hp, true_and, hfmt, getFmtChar]
      by_cases halnum : isAlnum c = true
      · rw [skipSuffix_alnum halnum, if_pos (.inl halnum)]
        rfl
      · cases fuel with
        | zero => rw [if_pos (.inr rfl)]; rfl
        | succ fuel =>
          rw [skipSuffix_end (Bool.not_eq_true _ ▸ halnum), if_neg (by simp [halnum])]
          rfl
    · rw [if_neg hp, if_neg hd.2, if_neg fun h => hp h.1]
  constructor
  · intro h fuel
    obtain ⟨hend, hchain⟩ := (chain_conv hc).mp h
    cases fuel with
    | zero => rfl
    | succ fuel =>
      rw [hstep, hgood hchain]
      show _ = if fuel + 1 ≤ turns ps last + 1 then _ else _
      simp only [Nat.add_le_add_iff_right]
      split
      · next hp =>
        have hzero : fuel = 0 := hp.2.resolve_left (by simp [hend hp.1])
        rw [if_pos (by omega)]
      · split <;> rfl
  · intro h fuel
    cases fuel with
    | zero => rfl
    | succ fuel =>
      rw [hstep]
      split
      · rfl
      · next hp =>
        have hnot : ¬ ps.IsChain PointerOk ∨ (d.conv = 'p' ∧ isAlnum c = true) := by
          by_contra hno
          push Not at hno
          exact h ((chain_conv hc).mpr ⟨fun hp => Bool.not_eq_true _ ▸ hno.2 hp, hno.1⟩)
        rcases hnot with hnot | hnot
        · rw [hbad hnot]
          rfl
        · exact absurd ⟨hnot.1, .inl hnot.2⟩ hp

theorem run_render {ps : List Piece} (hps : ∀ p ∈ ps, p.Ok)
    (hlast : ∀ d, last = some d → d.Ok ∧ d.conv = NUL) {args : List Nat} {written : Nat}
    {out : Output} (hden : denote l str (allPieces ps last) args written = .ok out) :
    Run l str ps last args written out := by
  induction ps generalizing args written out with
  | nil => exact run_nil hlast hden
  | cons p ps ih =>
    have hp := hps p List.mem_cons_self
    have ih' := fun {args : List Nat} {written : Nat} {out : Output}
        (h : denote l str (allPieces ps last) args written = .ok out) =>
      ih (fun q hq => hps q (List.mem_cons_of_mem p hq)) h
    cases p with
    | lit c => exact run_lit hp ih' hden
    | conv d => exact run_conv hp ih' hden

/-- **The calls that return**, and what they print: for a format written down piece by piece,
with arguments enough, the call comes to an end exactly when no pointer has a letter or a
digit behind it, and then it has printed what the pieces mean. -/
theorem vsprintf_returns_iff {ps : List Piece} (hps : ∀ p ∈ ps, p.Ok)
    (hlast : ∀ d, last = some d → d.Ok ∧ d.conv = NUL) {args : List Nat} {out : Output}
    (hden : denote l str (allPieces ps last) args 0 = .ok out) :
    ((∃ fuel r, vsprintf l str fuel (render ps last) args = some r) ↔ ps.IsChain PointerOk) ∧
      ∀ fuel r, vsprintf l str fuel (render ps last) args = some r → r = .ok out := by
  obtain ⟨hgood, hbad⟩ := run_render hps hlast hden
  by_cases hchain : ps.IsChain PointerOk
  · refine ⟨⟨fun _ => hchain, fun _ => ⟨turns ps last + 1, .ok out, ?_⟩⟩, fun fuel r h => ?_⟩
    · rw [vsprintf, hgood hchain, if_neg (by omega)]
    · rw [vsprintf, hgood hchain] at h
      split at h
      · cases h
      · exact (Option.some.inj h).symm
  · refine ⟨⟨?_, fun h => absurd h hchain⟩, fun fuel r h => ?_⟩
    · rintro ⟨fuel, r, h⟩
      rw [vsprintf, hbad hchain] at h
      cases h
    · rw [vsprintf, hbad hchain] at h
      cases h

end Run

/-- The symbol of a pointer is never printed, nor anything behind it. -/
theorem pointer_symbol_hangs : ¬ ∃ fuel r, vsprintf 32 (fun _ => []) fuel
    (render [.conv ⟨[], .absent, none, .absent, 'p'⟩, .lit 'S'] none) [0] = some r := by
  have hok : ∀ p ∈ [Piece.conv ⟨[], .absent, none, .absent, 'p'⟩, .lit 'S'], p.Ok := by
    intro p hp
    simp only [List.mem_cons, List.not_mem_nil, or_false] at hp
    rcases hp with rfl | rfl
    · exact ⟨⟨fun _ hc => absurd hc List.not_mem_nil, by decide, nofun, by decide⟩, by decide⟩
    · exact ⟨by decide, by decide⟩
  have hlast : ∀ d, (none : Option Directive) = some d → d.Ok ∧ d.conv = NUL := nofun
  rw [(vsprintf_returns_iff hok hlast rfl).1, List.isChain_cons_cons]
  exact fun h => absurd (h.1 rfl) (by decide)

end Bathos.Printf
