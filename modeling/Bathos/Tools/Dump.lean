import Bathos.Tools.Uuencode
import Bathos.Lib.Memory
import Bathos.Lib.Numeral
import Mathlib.Data.List.TakeWhile

/-!
# Bathos — a dump of the memory of a part

`tools/dump.c`, with `lpc_fd_gets` and `lpc_trim` of `tools/lpclib`. The boot loader of the
part answers with uuencoded lines and, after twenty of them and at the end, with a checksum,
which it wants acknowledged. The program takes a line for a checksum if it is a number.

Main results:

* `dumpLoop_boot` — a dump, line by line;
* `dump_iff` — what is written is the memory exactly if the last line is not a number.
-/

namespace Bathos.Tools

open Bathos.Lib

-- ---------------------------------------------------------------------------
-- Lines
-- ---------------------------------------------------------------------------

/-- `'\r'`. -/
def CR : UInt8 := 13

/-- `'\n'`. -/
def LF : UInt8 := 10

/-- The loop of `lpc_fd_gets`, with `left` turns left and `l` read: the line, or none for -1,
and what is not read yet. The end of the input is a timeout. -/
def fdGetsLoop : Nat → List UInt8 → List UInt8 → Option (List UInt8) × List UInt8
  | 0, l, inp => (some l, inp)
  | _ + 1, l, [] => (if l = [] then none else some l, [])
  | left + 1, l, c :: inp =>
    -- LPC210x uses \r\n, but LPC3134 uses \r alone: ignore \n
    if c = LF then fdGetsLoop (left + 1) l inp
    -- but return \n to the called, in the best C tradition
    else if c = CR then (some (l ++ [LF]), inp)
    else fdGetsLoop left (l ++ [c]) inp

/-- `lpc_fd_gets`. -/
def fdGets (len : Nat) (inp : List UInt8) : Option (List UInt8) × List UInt8 :=
  fdGetsLoop len [] inp

/-- A string in a buffer, with its end. -/
def store (text : List UInt8) (s : Nat → UInt8) : Nat → UInt8 :=
  fun i => if i < text.length then text.getD i 0 else if i = text.length then 0 else s i

/-- A line of `lpc_trim`: the string and the buffer. -/
def trimEnd (c : UInt8) (x : List UInt8 × (Nat → UInt8)) : List UInt8 × (Nat → UInt8) :=
  if x.1.getLast? = some c then (x.1.dropLast, store x.1.dropLast x.2) else x

/-- `lpc_trim`. -/
def trim (x : List UInt8 × (Nat → UInt8)) : List UInt8 × (Nat → UInt8) :=
  trimEnd CR (trimEnd LF x)

-- ---------------------------------------------------------------------------
-- Numbers
-- ---------------------------------------------------------------------------

/-- `isspace`. -/
def isSpace (c : UInt8) : Bool := c = 32 || 9 ≤ c && c ≤ 13

def isDec (c : UInt8) : Bool := 48 ≤ c && c ≤ 57

def isOct (c : UInt8) : Bool := 48 ≤ c && c ≤ 55

def isHex (c : UInt8) : Bool := isDec c || 65 ≤ c && c ≤ 70 || 97 ≤ c && c ≤ 102

/-- What `%i` takes a number for behind its sign: the base is read off its start. -/
def scanMagnitude : List UInt8 → Option (List UInt8)
  | 48 :: c :: s =>
    if c = 88 ∨ c = 120 then
      if (s.takeWhile isHex).isEmpty then none else some (s.dropWhile isHex)
    else some ((c :: s).dropWhile isOct)
  | c :: s => if isDec c then some (s.dropWhile isDec) else none
  | [] => none

/-- `%i` of `sscanf`: what is behind the number. -/
def scanInt (s : List UInt8) : Option (List UInt8) :=
  match s.dropWhile isSpace with
  | 43 :: s => scanMagnitude s
  | 45 :: s => scanMagnitude s
  | s => scanMagnitude s

/-- `sscanf(s, "%i%s", &i, t) == 1`: a number, and nothing behind it. -/
def scansOne (s : List UInt8) : Bool :=
  match scanInt s with
  | none => false
  | some rest => (rest.dropWhile isSpace).isEmpty

-- ---------------------------------------------------------------------------
-- dump.c
-- ---------------------------------------------------------------------------

/-- The loop of `main`, for `fuel` turns at most: what is written to the standard output if
`binary` is set. `s` is the buffer of the lines; `lpc_write_c` reads a line, the echo. -/
def dumpLoop : Nat → (Nat → UInt8) → List UInt8 → Option (List UInt8)
  | 0, _, _ => none
  | fuel + 1, s, inp =>
    match fdGets 80 inp with
    | (none, _) => some []
    | (some line, inp) =>
      if line = [] then some []
      else
        let x := trim (line, store line s)
        -- if it is the checksum, ack and continue reading
        if scansOne x.1 then dumpLoop fuel x.2 (fdGets 80 inp).2
        else
          let d := uudecode x.2
          (dumpLoop fuel x.2 inp).map (d.2.take d.1.toNat ++ ·)

-- ---------------------------------------------------------------------------
-- The boot loader
-- ---------------------------------------------------------------------------

def crlf (text : List UInt8) : List UInt8 := text ++ [CR, LF]

/-- A line of `c` bytes. -/
def lineText (mem : Nat → UInt8) (off c : Nat) : List UInt8 :=
  UInt8.ofNat (32 + c) :: uuencodeLoop (fun i => mem (off + i)) c 0

/-- A checksum. -/
def checkText (sum : Nat) : List UInt8 := (numeral 10 sum).map fun d => UInt8.ofNat (48 + d)

/-- `"OK"`. -/
def okText : List UInt8 := [79, 75]

/-- The sum of the bytes of a line. -/
def byteSum (bs : List UInt8) : Nat := (bs.map UInt8.toNat).sum

/-- What the boot loader sends for `len` bytes, with `nline` lines since the last checksum;
it echoes the answer to a checksum. -/
def bootRead (mem : Nat → UInt8) (off len nline sum : Nat) : List UInt8 :=
  if len = 0 then (if nline = 0 then [] else crlf (checkText sum) ++ crlf okText)
  else
    let c := min 45 len
    let sum := sum + byteSum (block mem off c)
    crlf (lineText mem off c) ++
      if nline + 1 = 20 then
        crlf (checkText sum) ++ crlf okText ++ bootRead mem (off + c) (len - c) 0 0
      else bootRead mem (off + c) (len - c) (nline + 1) sum
termination_by len

/-- Where the last line begins. -/
def lastOff (off len : Nat) : Nat := off + (len - 1) / 45 * 45

/-- How many bytes it has. -/
def lastLen (len : Nat) : Nat := (len - 1) % 45 + 1

-- ---------------------------------------------------------------------------
-- Lines that are read
-- ---------------------------------------------------------------------------

/-- A line has no ends in it, and fits the buffer. -/
structure Plain (text : List UInt8) : Prop where
  ends : ∀ c ∈ text, c ≠ CR ∧ c ≠ LF
  short : text.length < 80

section Lines

variable {text rest : List UInt8} {s : Nat → UInt8} {fuel : Nat}

theorem fdGetsLoop_line (hends : ∀ c ∈ text, c ≠ CR ∧ c ≠ LF) (l : List UInt8) {left : Nat}
    (hleft : text.length < left) (rest : List UInt8) :
    fdGetsLoop left l (text ++ CR :: rest) = (some (l ++ text ++ [LF]), rest) := by
  induction text generalizing l left with
  | nil =>
    obtain ⟨left, rfl⟩ := Nat.exists_eq_succ_of_ne_zero (Nat.ne_of_gt hleft)
    simp [fdGetsLoop, CR, LF]
  | cons c text ih =>
    obtain ⟨left, rfl⟩ := Nat.exists_eq_succ_of_ne_zero (Nat.ne_of_gt (Nat.zero_lt_of_lt hleft))
    obtain ⟨hCR, hLF⟩ := hends c List.mem_cons_self
    rw [List.cons_append, fdGetsLoop, if_neg hLF, if_neg hCR,
      ih (fun c hc => hends c (List.mem_cons_of_mem _ hc)) _ (by simpa using hleft)]
    simp

/-- The end of the line before is passed over. -/
theorem fdGets_LF (inp : List UInt8) : fdGets 80 (LF :: inp) = fdGets 80 inp := by
  unfold fdGets
  rw [fdGetsLoop, if_pos rfl]

theorem fdGets_crlf (h : Plain text) (rest : List UInt8) :
    fdGets 80 (crlf text ++ rest) = (some (text ++ [LF]), LF :: rest) := by
  unfold crlf
  rw [List.append_assoc]
  exact fdGetsLoop_line h.ends [] h.short (LF :: rest)

theorem dumpLoop_LF (s : Nat → UInt8) (inp : List UInt8) :
    dumpLoop fuel s (LF :: inp) = dumpLoop fuel s inp := by
  cases fuel with
  | zero => rfl
  | succ fuel => rw [dumpLoop, dumpLoop, fdGets_LF]

theorem dumpLoop_nil (fuel : Nat) (s : Nat → UInt8) : dumpLoop (fuel + 1) s [] = some [] := rfl

/-- The buffer behind a line. -/
def lineBuf (text : List UInt8) (s : Nat → UInt8) : Nat → UInt8 :=
  store text (store (text ++ [LF]) s)

theorem trim_line (h : Plain text) (s : Nat → UInt8) :
    trim (text ++ [LF], store (text ++ [LF]) s) = (text, lineBuf text s) := by
  have hLF : trimEnd LF (text ++ [LF], store (text ++ [LF]) s) = (text, lineBuf text s) := by
    unfold trimEnd
    rw [if_pos (List.getLast?_concat ..), List.dropLast_concat]
    rfl
  unfold trim
  rw [hLF]
  unfold trimEnd
  refine if_neg fun hlast => ?_
  exact (h.ends CR (List.mem_of_getLast? hlast)).1 rfl

/-- **A line of data.** -/
theorem dumpLoop_data (h : Plain text) (hscan : scansOne text = false) (rest : List UInt8) :
    dumpLoop (fuel + 1) s (crlf text ++ rest) =
      (dumpLoop fuel (lineBuf text s) rest).map
        ((uudecode (lineBuf text s)).2.take (uudecode (lineBuf text s)).1.toNat ++ ·) := by
  rw [dumpLoop, fdGets_crlf h]
  simp only [List.append_eq_nil_iff, List.cons_ne_self, and_false, if_false, trim_line h, hscan,
    Bool.false_eq_true]
  rw [dumpLoop_LF]

/-- **A line taken for a checksum**: the next one is taken for the echo. -/
theorem dumpLoop_check (h : Plain text) (hscan : scansOne text = true) {next : List UInt8}
    (hnext : Plain next) (rest : List UInt8) :
    dumpLoop (fuel + 1) s (crlf text ++ (crlf next ++ rest)) =
      dumpLoop fuel (lineBuf text s) rest := by
  rw [dumpLoop, fdGets_crlf h]
  simp only [List.append_eq_nil_iff, List.cons_ne_self, and_false, if_false, trim_line h, hscan,
    if_true]
  rw [fdGets_LF, fdGets_crlf hnext, dumpLoop_LF]

end Lines

-- ---------------------------------------------------------------------------
-- The lines of the boot loader
-- ---------------------------------------------------------------------------

/-- The groups of three that `c` bytes need. -/
def groups (c : Nat) : Nat := (c + 2) / 3

section Text

variable {inp src : Nat → UInt8} {mem : Nat → UInt8} {off c : Nat}

theorem uuencodeLoop_groups (inp : Nat → UInt8) {n c i : Nat} (hn : c ≤ i + 3 * n)
    (hc : i + 3 * n < c + 3 ∨ n = 0) : uuencodeLoop inp c i = uuencodeLoop inp (i + 3 * n) i := by
  induction n generalizing i with
  | zero => rw [uuencodeLoop_of_le (by omega), uuencodeLoop_of_le (by omega)]
  | succ n ih =>
    have hlt : i < i + 3 * (n + 1) := by omega
    have hi : i < c := by omega
    rw [uuencodeLoop_of_lt hi, uuencodeLoop_of_lt hlt,
      show i + 3 * (n + 1) = i + 3 + 3 * n by omega, ih (by omega) (by omega)]

theorem uudecodeLoop_groups (src : Nat → UInt8) {n i : Nat} {c : Int} (j : Nat)
    (hn : c ≤ (i + 3 * n : Nat)) (hc : ((i + 3 * n : Nat) : Int) < c + 3 ∨ n = 0) :
    uudecodeLoop src c i j = uudecodeLoop src ((i + 3 * n : Nat) : Int) i j := by
  induction n generalizing i j with
  | zero => rw [uudecodeLoop, if_neg (by omega), uudecodeLoop, if_neg (by omega)]
  | succ n ih =>
    rw [uudecodeLoop, if_pos (by omega)]
    conv_rhs => rw [uudecodeLoop, if_pos (by omega)]
    simp only
    rw [show i + 3 * (n + 1) = i + 3 + 3 * n by omega, ih (j + 4) (by omega) (by omega)]

theorem lineText_eq (mem : Nat → UInt8) (off c : Nat) : lineText mem off c =
    UInt8.ofNat (32 + c) :: uuencodeLoop (fun i => mem (off + i)) (3 * groups c) 0 := by
  have hgroups := @uuencodeLoop_groups (fun i => mem (off + i)) (groups c) c 0
    (by unfold groups; omega) (by unfold groups; omega)
  rw [Nat.zero_add] at hgroups
  rw [lineText, hgroups]

theorem lineText_length (mem : Nat → UInt8) (off c : Nat) :
    (lineText mem off c).length = 1 + 4 * groups c := by
  have hlen := uuencodeLoop_length (fun i => mem (off + i)) 0 (groups c)
  rw [Nat.zero_add] at hlen
  rw [lineText_eq, List.length_cons, hlen, Nat.add_comm]

theorem lineText_range (hpos : 0 < c) (hc : c ≤ 45) :
    ∀ char ∈ lineText mem off c, 33 ≤ char.toNat ∧ char.toNat ≤ 96 := by
  have hrange := uuencodeLoop_range (fun i => mem (off + i)) 0 (groups c)
  rw [Nat.zero_add] at hrange
  rw [lineText_eq]
  intro char hchar
  rcases List.mem_cons.mp hchar with rfl | hchar
  · rw [UInt8.toNat_ofNat_of_lt' (by show _ < 256; omega)]
    omega
  · exact hrange char hchar

theorem plain_of_range {text : List UInt8} (h : ∀ char ∈ text, 33 ≤ char.toNat)
    (hlen : text.length < 80) : Plain text := by
  refine ⟨fun c hc => ⟨fun hCR => ?_, fun hLF => ?_⟩, hlen⟩
  · exact absurd (h c hc) (by rw [hCR]; decide)
  · exact absurd (h c hc) (by rw [hLF]; decide)

theorem lineText_plain (hpos : 0 < c) (hc : c ≤ 45) : Plain (lineText mem off c) :=
  plain_of_range (fun char hchar => (lineText_range hpos hc char hchar).1)
    (by rw [lineText_length]; unfold groups; omega)

/-- **What is decoded** is what the line was made of, whatever is behind it. -/
theorem uudecode_text (hc : c ≤ 45)
    (hsrc : ∀ i < (lineText mem off c).length, src i = (lineText mem off c).getD i 0) :
    (uudecode src).2.take (uudecode src).1.toNat = block mem off c := by
  have hfirst : src 0 = UInt8.ofNat (32 + c) := by
    rw [hsrc 0 (by rw [lineText_length]; omega)]
    rfl
  have hlen := uuencodeLoop_length (fun i => mem (off + i)) 0 (groups c)
  rw [Nat.zero_add] at hlen
  have hdecode := @uudecodeLoop_uuencodeLoop (fun i => mem (off + i)) src 0 1 (groups c)
    fun t ht => by
      rw [hsrc (1 + t) (by rw [lineText_length]; omega), lineText_eq, Nat.add_comm 1 t,
        List.getD_cons_succ, Nat.zero_add, List.getD_eq_getElem?_getD,
        List.getElem?_eq_getElem (by omega)]
      rfl
  have hgroups := @uudecodeLoop_groups src (groups c) 0 (c : Int) 1
    (by unfold groups; omega) (by unfold groups; omega)
  have hresult : uudecode src = ((c : Int), (List.range (3 * groups c)).map fun t => mem (off + t)) := by
    unfold uudecode
    simp only [hfirst, (length_char (show c ≤ 63 by omega)).1]
    rw [hgroups, hdecode]
    simp
  rw [hresult]
  show ((List.range (3 * groups c)).map fun t => mem (off + t)).take c = block mem off c
  exact block_take mem off (show c ≤ 3 * groups c by unfold groups; omega)

theorem uudecode_line (hc : c ≤ 45) (s : Nat → UInt8) :
    (uudecode (lineBuf (lineText mem off c) s)).2.take
      (uudecode (lineBuf (lineText mem off c) s)).1.toNat = block mem off c :=
  uudecode_text hc fun _ hi => if_pos hi

theorem checkText_plain {sum : Nat} (h : sum < 10 ^ 70) : Plain (checkText sum) := by
  refine plain_of_range (fun char hchar => ?_) ?_
  · obtain ⟨d, hd, rfl⟩ := List.mem_map.mp hchar
    have hd := numeral_lt (by decide) hd
    rw [UInt8.toNat_ofNat_of_lt' (by show _ < 256; omega)]
    omega
  · have hlen := lowDigits_length_le (show 1 < 10 by decide) (show 0 < 70 by decide) h
    unfold checkText numeral
    rw [List.length_map, List.length_reverse]
    omega

theorem okText_plain : Plain okText :=
  plain_of_range (by simp [okText]) (by decide)

end Text

-- ---------------------------------------------------------------------------
-- Which lines are numbers
-- ---------------------------------------------------------------------------

section Scan

/-- A number begins with a space, a sign or a digit. -/
theorem scansOne_first {c : UInt8} (hspace : isSpace c = false) (hsign : c ≠ 43 ∧ c ≠ 45)
    (hdec : isDec c = false) (s : List UInt8) : scansOne (c :: s) = false := by
  have hzero : c ≠ 48 := fun h => by
    rw [h] at hdec
    cases hdec
  have hmagnitude : scanMagnitude (c :: s) = none := by
    unfold scanMagnitude
    split
    · next heq => exact absurd (List.cons.inj heq).1 hzero
    · next heq =>
      rw [← (List.cons.inj heq).1, hdec]
      rfl
    · rfl
  have hscan : scanInt (c :: s) = none := by
    unfold scanInt
    rw [List.dropWhile_cons, hspace]
    simp only [Bool.false_eq_true, if_false]
    split
    · next heq => exact absurd (List.cons.inj heq).1 hsign.1
    · next heq => exact absurd (List.cons.inj heq).1 hsign.2
    · exact hmagnitude
  unfold scansOne
  rw [hscan]

theorem dec_digit : ∀ d < 10, isDec (UInt8.ofNat (48 + d)) = true ∧
    isSpace (UInt8.ofNat (48 + d)) = false ∧ UInt8.ofNat (48 + d) ≠ 43 ∧
    UInt8.ofNat (48 + d) ≠ 45 ∧ (UInt8.ofNat (48 + d) = 48 → d = 0) := by decide

theorem scansOne_checkText (sum : Nat) : scansOne (checkText sum) = true := by
  obtain ⟨d, ds, hds⟩ := List.exists_cons_of_ne_nil (numeral_ne_nil 10 sum)
  have hlt : ∀ e ∈ d :: ds, e < 10 := fun e he => numeral_lt (by decide) (hds ▸ he)
  obtain ⟨hdec, hspace, hplus, hminus, hzero⟩ := dec_digit d (hlt d List.mem_cons_self)
  have hrest : (ds.map fun e => UInt8.ofNat (48 + e)).dropWhile isDec = [] := by
    rw [List.dropWhile_eq_nil_iff]
    intro c hc
    obtain ⟨e, he, rfl⟩ := List.mem_map.mp hc
    exact (dec_digit e (hlt e (List.mem_cons_of_mem _ he))).1
  have hmagnitude : scanMagnitude (checkText sum) = some [] := by
    unfold checkText
    rw [hds, List.map_cons]
    by_cases hsum : sum = 0
    · rw [hsum, numeral_of_lt (by decide)] at hds
      obtain ⟨rfl, rfl⟩ := List.cons.inj hds
      rfl
    · have hne : UInt8.ofNat (48 + d) ≠ 48 := fun h =>
        numeral_head_ne_zero hsum hds (hzero h)
      unfold scanMagnitude
      split
      · next heq => exact absurd (List.cons.inj heq).1 hne
      · next heq =>
        rw [← (List.cons.inj heq).1, ← (List.cons.inj heq).2, hdec, hrest]
        rfl
      · next heq => cases heq
  have hscan : scanInt (checkText sum) = some [] := by
    unfold scanInt
    have hdrop : (checkText sum).dropWhile isSpace = checkText sum := by
      unfold checkText
      rw [hds, List.map_cons, List.dropWhile_cons, hspace]
      rfl
    rw [hdrop]
    split
    · next heq =>
      unfold checkText at heq
      rw [hds, List.map_cons] at heq
      exact absurd (List.cons.inj heq).1 hplus
    · next heq =>
      unfold checkText at heq
      rw [hds, List.map_cons] at heq
      exact absurd (List.cons.inj heq).1 hminus
    · exact hmagnitude
  unfold scansOne
  rw [hscan]
  rfl

/-- The lengths that are written as no sign and no digit. -/
def Lettered (c : Nat) : Prop := c ≠ 11 ∧ c ≠ 13 ∧ ¬ (16 ≤ c ∧ c ≤ 25)

theorem lettered_char : ∀ c < 46, 0 < c → Lettered c → isSpace (UInt8.ofNat (32 + c)) = false ∧
    (UInt8.ofNat (32 + c) ≠ 43 ∧ UInt8.ofNat (32 + c) ≠ 45) ∧
    isDec (UInt8.ofNat (32 + c)) = false := by
  unfold Lettered
  decide

theorem scansOne_lineText {mem : Nat → UInt8} {off c : Nat} (hpos : 0 < c) (hc : c ≤ 45)
    (h : Lettered c) : scansOne (lineText mem off c) = false := by
  obtain ⟨hspace, hsign, hdec⟩ := lettered_char c (by omega) hpos h
  exact scansOne_first hspace hsign hdec _

theorem scansOne_okText : scansOne okText = false :=
  scansOne_first (by decide) ⟨by decide, by decide⟩ (by decide) _

end Scan

-- ---------------------------------------------------------------------------
-- A dump
-- ---------------------------------------------------------------------------

section Dump

variable {mem : Nat → UInt8} {s : Nat → UInt8} {off len nline sum fuel : Nat}

theorem byteSum_block (mem : Nat → UInt8) (off c : Nat) : byteSum (block mem off c) ≤ 255 * c := by
  have hle : ∀ n ∈ (block mem off c).map UInt8.toNat, n ≤ 255 := by
    intro n hn
    obtain ⟨b, -, rfl⟩ := List.mem_map.mp hn
    exact Nat.le_of_lt_succ b.toNat_lt
  have hsum := List.sum_le_card_nsmul _ _ hle
  rw [List.length_map, block_length, smul_eq_mul, Nat.mul_comm] at hsum
  exact hsum

theorem uudecodeLoop_length (src : Nat → UInt8) (n i j : Nat) :
    (uudecodeLoop src ((i + 3 * n : Nat) : Int) i j).length = 3 * n := by
  induction n generalizing i j with
  | zero =>
    rw [uudecodeLoop, if_neg (by omega)]
    rfl
  | succ n ih =>
    rw [uudecodeLoop, if_pos (by omega)]
    simp only [List.length_cons]
    rw [show i + 3 * (n + 1) = i + 3 + 3 * n by omega, ih]
    omega

/-- The echo of an answer, taken for data. -/
theorem okText_decodes (s : Nat → UInt8) : ((uudecode (lineBuf okText s)).2.take
    (uudecode (lineBuf okText s)).1.toNat).length = 47 := by
  have hlen : (uudecode (lineBuf okText s)).1 = 47 := rfl
  have hgroups := @uudecodeLoop_groups (lineBuf okText s) 16 0 47 1 (by decide) (by decide)
  have hdata : (uudecode (lineBuf okText s)).2.length = 48 := by
    show (uudecodeLoop (lineBuf okText s) 47 0 1).length = 48
    rw [hgroups]
    exact uudecodeLoop_length _ 16 0 1
  rw [List.length_take, hlen, hdata]
  rfl

theorem crlf_length (text : List UInt8) : (crlf text).length = text.length + 2 :=
  List.length_append

/-- A checksum and the echo of its answer. -/
theorem dumpLoop_answered (hsum : sum < 10 ^ 70) (rest : List UInt8) :
    dumpLoop (fuel + 1) s (crlf (checkText sum) ++ (crlf okText ++ rest)) =
      dumpLoop fuel (lineBuf (checkText sum) s) rest :=
  dumpLoop_check (checkText_plain hsum) (scansOne_checkText sum) okText_plain rest

/-- The last line, with the checksum behind it. -/
theorem bootRead_last (hpos : 0 < len) (hlen : len ≤ 45) (hnline : nline < 20) :
    bootRead mem off len nline sum = crlf (lineText mem off len) ++
      (crlf (checkText (sum + byteSum (block mem off len))) ++ (crlf okText ++ [])) := by
  rw [bootRead, if_neg (by omega)]
  simp only [Nat.min_eq_right hlen, Nat.sub_self]
  split
  · rw [bootRead, if_pos rfl, if_pos rfl, List.append_assoc]
  · rw [bootRead, if_pos rfl, if_neg (by omega), List.append_nil]

/-- A line that is not the last. -/
theorem bootRead_more (hlen : 45 < len) : bootRead mem off len nline sum =
    crlf (lineText mem off 45) ++
      if nline + 1 = 20 then crlf (checkText (sum + byteSum (block mem off 45))) ++
        (crlf okText ++ bootRead mem (off + 45) (len - 45) 0 0)
      else bootRead mem (off + 45) (len - 45) (nline + 1) (sum + byteSum (block mem off 45)) := by
  rw [bootRead, if_neg (by omega)]
  simp only [Nat.min_eq_left hlen.le, List.append_assoc]

/-- What is written for a run of the boot loader. -/
inductive Written (mem : Nat → UInt8) (off len : Nat) (out : List UInt8) : Prop
  | all (hscan : scansOne (lineText mem (lastOff off len) (lastLen len)) = false)
      (hout : out = block mem off len)
  | short (hscan : scansOne (lineText mem (lastOff off len) (lastLen len)) = true)
      (bs : List UInt8) (hbs : bs.length = 47)
      (hout : out = block mem off (len - lastLen len) ++ bs)

/-- A whole line in front. -/
theorem Written.line (hmore : 45 < len) {out : List UInt8}
    (h : Written mem (off + 45) (len - 45) out) : Written mem off len (block mem off 45 ++ out) := by
  have hlen : lastLen (len - 45) = lastLen len := by unfold lastLen; omega
  have hoff : lastOff (off + 45) (len - 45) = lastOff off len := by unfold lastOff; omega
  cases h with
  | all hscan hout =>
    refine .all (by rw [← hoff, ← hlen, hscan]) ?_
    rw [hout, ← block_add, Nat.add_sub_cancel' hmore.le]
  | short hscan bs hbs hout =>
    refine .short (by rw [← hoff, ← hlen, hscan]) bs hbs ?_
    have hle : 45 + (len - 45 - lastLen (len - 45)) = len - lastLen len := by
      unfold lastLen
      omega
    rw [hout, ← List.append_assoc, ← block_add, hle]

theorem dumpLoop_boot (hpos : 0 < len) (hnline : nline < 20) (hsum : sum ≤ 11475 * nline)
    (hfuel : (bootRead mem off len nline sum).length < fuel) (s : Nat → UInt8) :
    ∃ out, dumpLoop fuel s (bootRead mem off len nline sum) = some out ∧
      Written mem off len out := by
  induction len using Nat.strong_induction_on generalizing off nline sum fuel s with
  | _ len ih =>
  by_cases hlast : len ≤ 45
  · have hbytes := byteSum_block mem off len
    have hcheck : sum + byteSum (block mem off len) < 10 ^ 70 :=
      lt_of_lt_of_le (show _ < 1000000 by omega) (by norm_num)
    have hoff : lastOff off len = off := by unfold lastOff; omega
    have hlen : lastLen len = len := by unfold lastLen; omega
    rw [bootRead_last hpos hlast hnline] at hfuel ⊢
    simp only [List.length_append, crlf_length] at hfuel
    obtain ⟨fuel, rfl⟩ : ∃ k, fuel = k + 1 + 1 + 1 := ⟨fuel - 3, by omega⟩
    cases hscan : scansOne (lineText mem off len) with
    | false =>
      refine ⟨block mem off len, ?_, .all (by rw [hoff, hlen, hscan]) rfl⟩
      rw [dumpLoop_data (lineText_plain hpos hlast) hscan, uudecode_line hlast,
        dumpLoop_answered hcheck, dumpLoop_nil, Option.map_some, List.append_nil]
    | true =>
      refine ⟨_, ?_, .short (by rw [hoff, hlen, hscan]) _
        (okText_decodes (lineBuf (lineText mem off len) s)) rfl⟩
      rw [dumpLoop_check (lineText_plain hpos hlast) hscan (checkText_plain hcheck),
        dumpLoop_data okText_plain scansOne_okText, dumpLoop_nil, Option.map_some, List.append_nil,
        hlen, Nat.sub_self, block_zero, List.nil_append]
  · have hmore : 45 < len := by omega
    have hbytes := byteSum_block mem off 45
    have hcheck : sum + byteSum (block mem off 45) < 10 ^ 70 :=
      lt_of_lt_of_le (show _ < 1000000 by omega) (by norm_num)
    have hscan : scansOne (lineText mem off 45) = false :=
      scansOne_lineText (by decide) le_rfl (by unfold Lettered; omega)
    -- The rest, behind a checksum or not.
    have hrest : ∀ {nline' sum' fuel'} (s' : Nat → UInt8), nline' < 20 → sum' ≤ 11475 * nline' →
        (bootRead mem (off + 45) (len - 45) nline' sum').length < fuel' →
        ∃ out, (dumpLoop fuel' s' (bootRead mem (off + 45) (len - 45) nline' sum')).map
          (block mem off 45 ++ ·) = some out ∧ Written mem off len out := by
      intro nline' sum' fuel' s' hnline' hsum' hfuel'
      obtain ⟨out, hrun, hout⟩ := ih (len - 45) (by omega) (by omega) hnline' hsum' hfuel' s'
      exact ⟨block mem off 45 ++ out, by rw [hrun]; rfl, hout.line hmore⟩
    rw [bootRead_more hmore] at hfuel ⊢
    rw [List.length_append, crlf_length] at hfuel
    obtain ⟨fuel, rfl⟩ : ∃ k, fuel = k + 1 := ⟨fuel - 1, by omega⟩
    rw [dumpLoop_data (lineText_plain (by decide) le_rfl) hscan, uudecode_line le_rfl]
    split at hfuel
    · next htwenty =>
      rw [List.length_append, List.length_append, crlf_length] at hfuel
      obtain ⟨fuel, rfl⟩ : ∃ k, fuel = k + 1 := ⟨fuel - 1, by omega⟩
      rw [if_pos htwenty, dumpLoop_answered hcheck]
      exact hrest _ (by decide) le_rfl (by omega)
    · next htwenty =>
      rw [if_neg htwenty]
      exact hrest _ (by omega) (by omega) (by omega)

/-- The dump of `len` bytes from `off` on, with `s` in the buffer. -/
def dump (s : Nat → UInt8) (inp : List UInt8) : Option (List UInt8) :=
  dumpLoop (inp.length + 1) s inp

/-- A last line that is no number is written like the others. -/
theorem dump_of_lettered (hpos : 0 < len) (hlast : Lettered (lastLen len)) (s : Nat → UInt8) :
    dump s (bootRead mem off len 0 0) = some (block mem off len) := by
  obtain ⟨out, hrun, hout⟩ :=
    dumpLoop_boot hpos (show 0 < 20 by decide) le_rfl (Nat.lt_succ_self _) s
  cases hout with
  | all hscan hout =>
    rw [← hout]
    exact hrun
  | short hscan bs hbs hout =>
    have hbounds : 0 < lastLen len ∧ lastLen len ≤ 45 := by
      unfold lastLen
      omega
    rw [scansOne_lineText hbounds.1 hbounds.2 hlast] at hscan
    cases hscan

/-- **A dump** ends, and what it has written is the memory exactly if the last line is not a
number; then it has left out that line, and decoded the echo of its answer. -/
theorem dump_iff (hpos : 0 < len) (s : Nat → UInt8) :
    ∃ out, dump s (bootRead mem off len 0 0) = some out ∧
      (out = block mem off len ↔
        scansOne (lineText mem (lastOff off len) (lastLen len)) = false) ∧
      (Lettered (lastLen len) → out = block mem off len) := by
  obtain ⟨out, hrun, hout⟩ := dumpLoop_boot hpos (show 0 < 20 by decide) le_rfl (Nat.lt_succ_self _) s
  have hlast : 0 < lastLen len ∧ lastLen len ≤ 45 := by
    unfold lastLen
    omega
  have hlettered : Lettered (lastLen len) →
      scansOne (lineText mem (lastOff off len) (lastLen len)) = false :=
    scansOne_lineText hlast.1 hlast.2
  refine ⟨out, hrun, ?_⟩
  cases hout with
  | all hscan hout => exact ⟨iff_of_true hout hscan, fun _ => hout⟩
  | short hscan bs hbs hout =>
    have hne : out ≠ block mem off len := by
      intro heq
      have hlen := congrArg List.length (hout.symm.trans heq)
      rw [List.length_append, block_length, block_length, hbs] at hlen
      omega
    rw [hscan]
    refine ⟨iff_of_false hne nofun, fun h => ?_⟩
    rw [hlettered h] at hscan
    cases hscan

/-- A last line that is all ones: 18 bytes behind 90. -/
theorem dump_ones : ∃ out, dump (fun _ => 0) (bootRead (fun a => [0x45, 0x14, 0x51].getD (a % 3) 0)
    0 108 0 0) = some out ∧ out ≠ block (fun a => [0x45, 0x14, 0x51].getD (a % 3) 0) 0 108 := by
  obtain ⟨out, hrun, hiff, -⟩ :=
    @dump_iff (fun a => [0x45, 0x14, 0x51].getD (a % 3) 0) 0 108 (by decide) fun _ => 0
  refine ⟨out, hrun, fun h => ?_⟩
  have hscan := hiff.mp h
  have hline : lineText (fun a => [0x45, 0x14, 0x51].getD (a % 3) 0) (lastOff 0 108) (lastLen 108) =
      50 :: List.replicate 24 49 := by
    have hoff : lastOff 0 108 = 90 ∧ lastLen 108 = 18 := by decide
    rw [hoff.1, hoff.2, lineText]
    rw [uuencodeLoop_of_lt (by decide), uuencodeLoop_of_lt (by decide),
      uuencodeLoop_of_lt (by decide), uuencodeLoop_of_lt (by decide),
      uuencodeLoop_of_lt (by decide), uuencodeLoop_of_lt (by decide),
      uuencodeLoop_of_le (by decide)]
    decide
  rw [hline] at hscan
  exact absurd hscan (by decide)

end Dump

end Bathos.Tools
