import Bathos.Lib.Words
import Mathlib.Data.List.Basic
import Mathlib.Logic.Function.Iterate

/-!
# Bathos — the shell's command line

`lib/shell.c`. A line holds commands ended by `;`, a command words with spaces between
them. `__do_cmd` walks over one command with a single cursor, writes a `0` behind each
word, and returns how far it got; `__shell_input_handle` calls it again from there up to
the end of the line.

The cursor moves in three places: from character to character, over the spaces behind a
word, and once more after them. The last of these moves does not look at the character it
passes, which is the `;` or the final `0` if the spaces are the end of a command.

Main result: `parsed_iff` — the commands executed are those of the line exactly when no
command is empty, starts with a space, or ends with one after at most five words.
-/

namespace Bathos.Shell

open Bathos.Lib

-- ---------------------------------------------------------------------------
-- The code
-- ---------------------------------------------------------------------------

def space : UInt8 := 32

def semicolon : UInt8 := 59

/-- `MAX_ARGV`. -/
def maxArgv : Nat := 5

/-- Which loop of `__do_cmd` the cursor is in. -/
inductive Loop where
  | args
  | spaces
deriving DecidableEq, Repr

/-- The buffer from `buf` on, before the cursor, with the edits made so far, and behind it;
`argv` as offsets from `buf`. -/
structure Scan where
  front : List UInt8
  argv : List Nat
  rest : List UInt8
deriving DecidableEq, Repr

/-- The loops that find the arguments, from one character to the next; `none` if the cursor
gets behind the end of the line. The end of the inner loop and the move of the outer one
behind it are one step. -/
def findArgs : Loop → List UInt8 → List Nat → List UInt8 → Option Scan
  | _, _, _, [] => none
  | .args, front, argv, c :: rest =>
    if c = 0 ∨ c = semicolon then some { front := front, argv := argv, rest := c :: rest }
    else if (c = space ∨ c = 0) ∧ argv.length < maxArgv then
      findArgs .spaces (front ++ [0]) argv rest
    else findArgs .args (front ++ [c]) argv rest
  | .spaces, front, argv, c :: rest =>
    if c = space then findArgs .spaces (front ++ [c]) argv rest
    else findArgs .args (front ++ [c]) (if c ≠ 0 then argv ++ [front.length] else argv) rest

/-- The string at an offset. -/
def str (buf : List UInt8) (ptr : Nat) : List UInt8 := (buf.drop ptr).takeWhile (· ≠ 0)

/-- A command executed: what its handler is given, and the entry of the command table it
belongs to, if there is one. -/
structure Cmd where
  argc : Nat
  argv : List (List UInt8)
  entry : Option (List UInt8)
deriving DecidableEq, Repr

/-- The command with these arguments, looked up in the table. -/
def Cmd.ofArgv (cmds argv : List (List UInt8)) : Cmd :=
  { argc := argv.length, argv := argv, entry := cmds.find? fun c => argv.head? = some c }

/-- The `;` behind a command becomes its end. -/
def Scan.endCmd (s : Scan) : Scan :=
  match s.rest with
  | [] => s
  | c :: rest => if c = semicolon then { s with front := s.front ++ [0], rest := rest } else s

/-- The strings `argv` points to. -/
def Scan.strs (s : Scan) : List (List UInt8) := s.argv.map (str (s.front ++ s.rest))

/-- `__do_cmd`: the command executed, and the buffer from the offset it returns on. -/
def doCmd (cmds : List (List UInt8)) (buf : List UInt8) : Option (Cmd × List UInt8) :=
  (findArgs .args [] [0] buf).map fun s => (Cmd.ofArgv cmds s.endCmd.strs, s.endCmd.rest)

/-- The loop of `__shell_input_handle` over the commands of a line, for `n` rounds at
most. -/
def runCmds (cmds : List (List UInt8)) : Nat → List UInt8 → Option (List Cmd)
  | 0, _ => none
  | _ + 1, [] => none
  | n + 1, c :: rest =>
    if c = 0 then some []
    else (doCmd cmds (c :: rest)).bind fun r => (runCmds cmds n r.2).map (r.1 :: ·)

-- ---------------------------------------------------------------------------
-- What a line means
-- ---------------------------------------------------------------------------

/-- The arguments of a command: its words, with all from the fifth on in one if there are
more. -/
def argvOf (k : Nat) (seg : List UInt8) : List (List UInt8) :=
  if (words space seg).length ≤ k then words space seg
  else (words space seg).take (k - 1) ++ [(dropWord space)^[k - 1] seg]

/-- The line is executed to its end, as the commands it holds. -/
def Parsed (cmds : List (List UInt8)) (line : List UInt8) : Prop :=
  ∃ n, runCmds cmds n (line ++ [0]) =
    some ((pieces semicolon line).map fun seg => Cmd.ofArgv cmds (argvOf maxArgv seg))

/-- No space at the end of a command of at most `k` words. -/
def Trimmed (k : Nat) (seg : List UInt8) : Prop :=
  (words space seg).length ≤ k → seg.getLast? ≠ some space

/-- A command in the only form the shell can read. -/
structure Tidy (seg : List UInt8) : Prop where
  nonempty : seg ≠ []
  start : seg.head? ≠ some space
  trimmed : Trimmed maxArgv seg

instance (k : Nat) : DecidablePred (Trimmed k) := fun seg =>
  inferInstanceAs (Decidable ((words space seg).length ≤ k → seg.getLast? ≠ some space))

instance : DecidablePred Tidy := fun seg =>
  decidable_of_iff (seg ≠ [] ∧ seg.head? ≠ some space ∧ Trimmed maxArgv seg)
    ⟨fun h => ⟨h.1, h.2.1, h.2.2⟩, fun h => ⟨h.nonempty, h.start, h.trimmed⟩⟩

-- ---------------------------------------------------------------------------
-- The arguments behind the first word
-- ---------------------------------------------------------------------------

section FirstWord

variable {w s : List UInt8} {j k : Nat} (hne : w ≠ []) (hw : space ∉ w)
  (hstart : s.head? ≠ some space)

include hne hw hstart

theorem argvOf_word :
    argvOf (k + 2) (w ++ space :: (List.replicate j space ++ s)) = w :: argvOf (k + 1) s := by
  unfold argvOf
  rw [words_word hne hw, List.length_cons]
  by_cases hlen : (words space s).length ≤ k + 1
  · rw [if_pos (by omega), if_pos hlen]
  · rw [if_neg (by omega), if_neg hlen]
    show (w :: words space s).take (k + 1) ++ [(dropWord space)^[k + 1] _] = _
    rw [Function.iterate_succ_apply, dropWord_word hne hw hstart]
    rfl

theorem trimmed_word :
    Trimmed (k + 2) (w ++ space :: (List.replicate j space ++ s)) ↔
      s ≠ [] ∧ Trimmed (k + 1) s := by
  unfold Trimmed
  rw [words_word hne hw, List.length_cons]
  cases s with
  | nil =>
    have hlast : (w ++ space :: (List.replicate j space ++ [])).getLast? = some space := by
      rw [List.append_nil, ← List.replicate_succ, List.replicate_succ', ← List.append_assoc,
        List.getLast?_concat]
    rw [hlast]
    simp
  | cons c s =>
    have hlast : (w ++ space :: (List.replicate j space ++ c :: s)).getLast? =
        (c :: s).getLast? := by
      rw [← List.cons_append, ← List.append_assoc,
        List.getLast?_append_of_ne_nil _ (List.cons_ne_nil c s)]
    rw [hlast]
    simp

end FirstWord

/-- A command that is one word has it as its argument. -/
theorem argvOf_of_notMem {w : List UInt8} {k : Nat} (hne : w ≠ []) (hw : space ∉ w) :
    argvOf (k + 1) w = [w] ∧ Trimmed k w := by
  refine ⟨?_, fun _ hlast => hw (List.mem_of_getLast? hlast)⟩
  unfold argvOf
  rw [words_of_notMem hne hw, if_pos (by simp)]

/-- The last argument takes all that is left. -/
theorem argvOf_one {s : List UInt8} (hne : s ≠ []) (hstart : s.head? ≠ some space)
    (ht : Trimmed 1 s) : argvOf 1 s = [s] := by
  rcases exists_word hne hstart with hs | ⟨w, j, s', rfl, hw, hsep, hstart'⟩
  · exact (argvOf_of_notMem hne hs).1
  · have hs' : s' ≠ [] := by
      rintro rfl
      refine ht (by rw [words_word hw hsep]; simp) ?_
      rw [List.append_nil, ← List.replicate_succ, List.replicate_succ', ← List.append_assoc,
        List.getLast?_concat]
    have hwords := List.length_pos_iff.mpr (words_ne_nil hs' hstart')
    unfold argvOf
    rw [words_word hw hsep, List.length_cons, if_neg (by omega)]
    rfl

-- ---------------------------------------------------------------------------
-- The cursor
-- ---------------------------------------------------------------------------

/-- The characters of a command's words. -/
def Letter (c : UInt8) : Prop := c ≠ 0 ∧ c ≠ semicolon

/-- The cursor passes what is no separator of arguments. -/
theorem findArgs_letters {w : List UInt8} (front : List UInt8) (argv : List Nat) (r : List UInt8)
    (hw : ∀ c ∈ w, Letter c ∧ (c = space → maxArgv ≤ argv.length)) :
    findArgs .args front argv (w ++ r) = findArgs .args (front ++ w) argv r := by
  induction w generalizing front with
  | nil => rw [List.append_nil, List.nil_append]
  | cons c w ih =>
    obtain ⟨⟨hnul, hsemi⟩, hspace⟩ := hw c List.mem_cons_self
    rw [List.cons_append, findArgs, if_neg (by simp [hnul, hsemi]), if_neg, ih]
    · rw [List.append_assoc, List.singleton_append]
    · exact fun d hd => hw d (List.mem_cons_of_mem c hd)
    · rintro ⟨hc | hc, hlt⟩
      · exact absurd (hspace hc) (Nat.not_le.mpr hlt)
      · exact hnul hc

theorem findArgs_spaces (front : List UInt8) (argv : List Nat) (j : Nat) (r : List UInt8) :
    findArgs .spaces front argv (List.replicate j space ++ r) =
      findArgs .spaces (front ++ List.replicate j space) argv r := by
  induction j generalizing front with
  | zero => rw [List.replicate_zero, List.append_nil, List.nil_append]
  | succ j ih =>
    rw [List.replicate_succ, List.cons_append, findArgs, if_pos rfl, ih, List.append_assoc,
      List.singleton_append]

/-- The space behind a word, and those after it. -/
theorem findArgs_gap {argv : List Nat} (front : List UInt8) (j : Nat) (r : List UInt8)
    (hargv : argv.length < maxArgv) :
    findArgs .args front argv (space :: (List.replicate j space ++ r)) =
      findArgs .spaces (front ++ 0 :: List.replicate j space) argv r := by
  rw [findArgs, if_neg (by decide), if_pos ⟨Or.inl rfl, hargv⟩, findArgs_spaces,
    List.append_assoc, List.singleton_append]

/-- The first character of the next word. -/
theorem findArgs_word {c : UInt8} (front : List UInt8) (argv : List Nat) (r : List UInt8)
    (hc : Letter c) (hspace : c ≠ space) :
    findArgs .spaces front argv (c :: r) =
      findArgs .args front (argv ++ [front.length]) (c :: r) := by
  have hleft : findArgs .spaces front argv (c :: r) =
      findArgs .args (front ++ [c]) (argv ++ [front.length]) r := by
    rw [findArgs, if_neg hspace, if_pos hc.1]
  rw [hleft, findArgs, if_neg (by simp [hc.1, hc.2]), if_neg (by simp [hspace, hc.1])]

theorem findArgs_end {t : UInt8} (front : List UInt8) (argv : List Nat) (tail : List UInt8)
    (ht : t = 0 ∨ t = semicolon) :
    findArgs .args front argv (t :: tail) =
      some { front := front, argv := argv, rest := t :: tail } := by
  rw [findArgs, if_pos ht]

/-- What the cursor has passed is not looked at again. -/
theorem findArgs_grow {m : Loop} {front : List UInt8} {argv : List Nat} {r : List UInt8} {s : Scan}
    (h : findArgs m front argv r = some s) : front <+: s.front ∧ argv <+: s.argv := by
  induction r generalizing m front argv with
  | nil => simp [findArgs] at h
  | cons c r ih =>
    have hstep : ∀ {m' : Loop} {x : List UInt8} {y : List Nat},
        findArgs m' (front ++ x) (argv ++ y) r = some s → front <+: s.front ∧ argv <+: s.argv := by
      intro m' x y h'
      obtain ⟨hfront, hargv⟩ := ih h'
      exact ⟨(List.prefix_append front x).trans hfront, (List.prefix_append argv y).trans hargv⟩
    cases m with
    | args =>
      rw [findArgs] at h
      split_ifs at h
      · cases h
        exact ⟨List.prefix_refl _, List.prefix_refl _⟩
      · exact @hstep _ [0] [] (by rwa [List.append_nil])
      · exact @hstep _ [c] [] (by rwa [List.append_nil])
    | spaces =>
      rw [findArgs] at h
      split_ifs at h
      · exact @hstep _ [c] [] (by rwa [List.append_nil])
      · exact hstep h
      · exact @hstep _ [c] [] (by rwa [List.append_nil])

-- ---------------------------------------------------------------------------
-- One command
-- ---------------------------------------------------------------------------

theorem str_append {w : List UInt8} (hw : ∀ c ∈ w, Letter c) (front z : List UInt8) :
    str (front ++ w ++ 0 :: z) front.length = w := by
  unfold str
  rw [List.append_assoc, List.drop_left, List.takeWhile_append_of_pos]
  · rw [List.takeWhile_cons_of_neg (by simp), List.append_nil]
  · exact fun c hc => decide_eq_true (hw c hc).1

/-- The character behind a command. -/
def IsEnd (t : UInt8) : Prop := t = 0 ∨ t = semicolon

theorem endCmd_buf {front tail : List UInt8} {argv : List Nat} {t : UInt8} (ht : IsEnd t) :
    ({ front := front, argv := argv, rest := t :: tail } : Scan).endCmd.strs =
      argv.map (str (front ++ 0 :: tail)) := by
  unfold Scan.endCmd Scan.strs
  rcases ht with rfl | rfl
  · simp [semicolon]
  · simp

theorem endCmd_front (s : Scan) : ∃ z, s.endCmd.front ++ s.endCmd.rest = s.front ++ z := by
  unfold Scan.endCmd
  cases s.rest with
  | nil => exact ⟨_, rfl⟩
  | cons c rest =>
    by_cases hc : c = semicolon
    · exact ⟨0 :: rest, by simp [hc]⟩
    · exact ⟨s.rest, by simp only [if_neg hc]⟩

theorem endCmd_argv (s : Scan) : s.endCmd.argv = s.argv := by
  unfold Scan.endCmd
  cases s.rest with
  | nil => rfl
  | cons c rest =>
    simp only
    split <;> rfl

/-- The character a string starts with. -/
theorem mem_str {buf z : List UInt8} {ptr : Nat} {c : UInt8} (hbuf : buf.drop ptr = c :: z)
    (hc : c ≠ 0) : c ∈ str buf ptr := by
  unfold str
  rw [hbuf, List.takeWhile_cons_of_pos (by simpa using hc)]
  exact List.mem_cons_self

section Scanned

variable {s front tail : List UInt8} {argv pre : List Nat} {t : UInt8} {k : Nat}

/-- No space is looked at as one. -/
theorem findArgs_whole (hs : ∀ c ∈ s, Letter c) (ht : IsEnd t)
    (hspace : space ∉ s ∨ maxArgv ≤ argv.length) :
    findArgs .args front argv (s ++ t :: tail) =
      some { front := front ++ s, argv := argv, rest := t :: tail } := by
  rw [findArgs_letters _ _ _ fun c hc => ⟨hs c hc, fun hcs => ?_⟩, findArgs_end _ _ _ ht]
  exact hspace.resolve_left (not_not.mpr (hcs ▸ hc))

/-- A word and the spaces behind it. -/
theorem findArgs_gap_word {w : List UInt8} (hw : ∀ c ∈ w, Letter c) (hspace : space ∉ w)
    (hargv : argv.length < maxArgv) (j : Nat) (r : List UInt8) :
    findArgs .args front argv (w ++ space :: (List.replicate j space ++ r)) =
      findArgs .spaces (front ++ w ++ 0 :: List.replicate j space) argv r := by
  rw [findArgs_letters _ _ _ fun c hc => ⟨hw c hc, fun hcs => absurd (hcs ▸ hc) hspace⟩,
    findArgs_gap _ _ _ hargv]

/-- A trimmed command is cut into its arguments. -/
theorem findArgs_trimmed (hne : s ≠ []) (hstart : s.head? ≠ some space) (hs : ∀ c ∈ s, Letter c)
    (hpre : pre.length + (k + 1) = maxArgv) (ht : IsEnd t) (htrim : Trimmed (k + 1) s) :
    ∃ body offs, findArgs .args front (pre ++ [front.length]) (s ++ t :: tail) =
        some { front := front ++ body, argv := pre ++ front.length :: offs, rest := t :: tail } ∧
      ∀ z, (front.length :: offs).map (str (front ++ body ++ 0 :: z)) = argvOf (k + 1) s := by
  induction k generalizing s front pre with
  | zero =>
    refine ⟨s, [], findArgs_whole hs ht (Or.inr ?_), fun z => ?_⟩
    · rw [List.length_append, List.length_singleton]
      omega
    · rw [argvOf_one hne hstart htrim, List.map_singleton, str_append hs]
  | succ k ih =>
    rcases exists_word hne hstart with hword | ⟨w, j, s', rfl, hw, hspace, hstart'⟩
    · refine ⟨s, [], findArgs_whole hs ht (Or.inl hword), fun z => ?_⟩
      rw [(argvOf_of_notMem hne hword).1, List.map_singleton, str_append hs]
    · obtain ⟨hne', htrim'⟩ := (trimmed_word hw hspace hstart').mp htrim
      obtain ⟨c, s', rfl⟩ := List.exists_cons_of_ne_nil hne'
      have hletters : ∀ d ∈ w, Letter d := fun d hd => hs d (List.mem_append_left _ hd)
      have hs' : ∀ d ∈ c :: s', Letter d := fun d hd => hs d (by simp [List.mem_cons.mp hd])
      have hc : c ≠ space := fun heq => hstart' (by rw [heq]; rfl)
      obtain ⟨body, offs, hscan, hstrs⟩ := @ih (c :: s') (front ++ w ++ 0 :: List.replicate j space)
        (pre ++ [front.length]) hne' hstart' hs' (by
          rw [List.length_append, List.length_singleton]
          omega) htrim'
      refine ⟨w ++ 0 :: List.replicate j space ++ body,
        (front ++ w ++ 0 :: List.replicate j space).length :: offs, ?_, fun z => ?_⟩
      · rw [List.append_assoc, List.cons_append, List.append_assoc, findArgs_gap_word hletters hspace
          (by rw [List.length_append, List.length_singleton]; omega), List.cons_append,
          findArgs_word _ _ _ (hs' c List.mem_cons_self) hc, ← List.cons_append, hscan]
        simp [List.append_assoc]
      · have hbuf : front ++ (w ++ 0 :: List.replicate j space ++ body) ++ 0 :: z =
            front ++ w ++ 0 :: List.replicate j space ++ body ++ 0 :: z := by
          simp [List.append_assoc]
        have hfirst : str (front ++ w ++ 0 :: List.replicate j space ++ body ++ 0 :: z)
            front.length = w := by
          have hsplit : front ++ w ++ 0 :: List.replicate j space ++ body ++ 0 :: z =
              front ++ w ++ 0 :: (List.replicate j space ++ body ++ 0 :: z) := by
            simp [List.append_assoc]
          rw [hsplit, str_append hletters]
        rw [hbuf, List.map_cons, hfirst, argvOf_word hw hspace hstart', hstrs z]

/-- In one that is not trimmed a space or the `;` behind it gets into an argument. -/
theorem findArgs_untrimmed {sc : Scan} (hne : s ≠ []) (hstart : s.head? ≠ some space)
    (hs : ∀ c ∈ s, Letter c) (hpre : pre.length + (k + 1) = maxArgv) (ht : IsEnd t)
    (htail : t = 0 → tail = []) (htrim : ¬ Trimmed (k + 1) s)
    (hscan : findArgs .args front (pre ++ [front.length]) (s ++ t :: tail) = some sc) :
    ∃ v ∈ sc.endCmd.strs, ∃ c ∈ v, c = space ∨ c = semicolon := by
  induction k generalizing s front pre with
  | zero =>
    -- the last argument ends with the space
    rw [findArgs_whole hs ht (Or.inr (by rw [List.length_append, List.length_singleton]; omega)),
      Option.some_inj] at hscan
    obtain ⟨-, hlast⟩ := Classical.not_imp.mp htrim
    refine ⟨s, ?_, space, List.mem_of_getLast? (not_not.mp hlast), Or.inl rfl⟩
    rw [← hscan, endCmd_buf ht, List.map_append, List.map_singleton, str_append hs]
    exact List.mem_append_right _ List.mem_cons_self
  | succ k ih =>
    rcases exists_word hne hstart with hword | ⟨w, j, s', rfl, hw, hspace, hstart'⟩
    · exact absurd (argvOf_of_notMem hne hword).2 htrim
    have hletters : ∀ d ∈ w, Letter d := fun d hd => hs d (List.mem_append_left _ hd)
    rw [List.append_assoc, List.cons_append, List.append_assoc, findArgs_gap_word hletters hspace
      (by rw [List.length_append, List.length_singleton]; omega)] at hscan
    cases s' with
    | nil =>
      rw [List.nil_append] at hscan
      rcases ht with rfl | rfl
      · -- the cursor passes the end of the line
        rw [htail rfl, findArgs, if_neg (by decide)] at hscan
        simp [findArgs] at hscan
      · -- the `;` becomes the start of an argument
        rw [findArgs, if_neg (by decide), if_pos (by decide)] at hscan
        obtain ⟨⟨z, hz⟩, hargv⟩ := findArgs_grow hscan
        obtain ⟨z', hz'⟩ := endCmd_front sc
        refine ⟨_, List.mem_map_of_mem (?_ : (front ++ w ++ 0 :: List.replicate j space).length ∈
          sc.endCmd.argv), semicolon, mem_str (z := z ++ z') ?_ (by decide), Or.inr rfl⟩
        · rw [endCmd_argv]
          exact hargv.subset (List.mem_append_right _ List.mem_cons_self)
        · rw [hz', ← hz]
          generalize front ++ w ++ 0 :: List.replicate j space = p
          rw [List.append_assoc, List.append_assoc, List.drop_left]
          rfl
    | cons c s' =>
      have hs' : ∀ d ∈ c :: s', Letter d := fun d hd => hs d (by simp [List.mem_cons.mp hd])
      have hc : c ≠ space := fun heq => hstart' (by rw [heq]; rfl)
      rw [List.cons_append, findArgs_word _ _ _ (hs' c List.mem_cons_self) hc,
        ← List.cons_append] at hscan
      refine ih (List.cons_ne_nil c s') hstart' hs' ?_ (fun htrim' => htrim ?_) hscan
      · rw [List.length_append, List.length_singleton]
        omega
      · exact (trimmed_word hw hspace hstart').mpr ⟨List.cons_ne_nil c s', htrim'⟩

end Scanned

/-- The first argument is the first word, if there is one. -/
theorem argvOf_head? (k : Nat) (seg : List UInt8) :
    (argvOf (k + 2) seg).head? = (words space seg).head? := by
  unfold argvOf
  split
  · rfl
  · rename_i hlen
    obtain ⟨w, ws, hws⟩ := List.exists_cons_of_length_pos (Nat.zero_lt_of_lt (Nat.lt_of_not_le hlen))
    rw [hws]
    rfl

section Command

variable {cmds : List (List UInt8)} {seg tail : List UInt8} {t : UInt8}

/-- Where the next command starts. -/
def behind (t : UInt8) (tail : List UInt8) : List UInt8 :=
  if t = semicolon then tail else t :: tail

theorem endCmd_rest (front : List UInt8) (argv : List Nat) :
    ({ front := front, argv := argv, rest := t :: tail } : Scan).endCmd.rest = behind t tail := by
  unfold Scan.endCmd behind
  simp only
  split <;> rfl

theorem doCmd_tidy (hseg : Tidy seg) (hs : ∀ c ∈ seg, Letter c) (ht : IsEnd t) :
    doCmd cmds (seg ++ t :: tail) = some (Cmd.ofArgv cmds (argvOf maxArgv seg), behind t tail) := by
  obtain ⟨body, offs, hscan, hstrs⟩ := @findArgs_trimmed seg [] tail [] t 4 hseg.nonempty
    hseg.start hs rfl ht hseg.trimmed
  have hargv : (0 :: offs).map (str (body ++ 0 :: tail)) = argvOf maxArgv seg := hstrs tail
  unfold doCmd
  rw [List.length_nil, List.nil_append] at hscan
  rw [hscan, Option.map_some, endCmd_buf ht, endCmd_rest, List.nil_append, List.nil_append, hargv]

/-- An untidy command is not executed as what it is. -/
theorem doCmd_untidy (hseg : ¬ Tidy seg) (hs : ∀ c ∈ seg, Letter c) (ht : IsEnd t)
    (htail : t = 0 → tail = []) (hne : seg = [] → t = semicolon) {r : Cmd × List UInt8}
    (hr : doCmd cmds (seg ++ t :: tail) = some r) :
    r.1 ≠ Cmd.ofArgv cmds (argvOf maxArgv seg) := by
  intro heq
  obtain ⟨sc, hscan, rfl⟩ := Option.map_eq_some_iff.mp hr
  have hstrs : sc.endCmd.strs = argvOf maxArgv seg := congrArg Cmd.argv heq
  -- the first argument is one of the words
  have hfirst : ∀ v, sc.endCmd.strs.head? = some v → v ≠ [] := by
    intro v hv
    have hhead : (argvOf maxArgv seg).head? = _ := argvOf_head? 3 seg
    rw [hstrs, hhead] at hv
    exact (mem_words (List.mem_of_head? hv)).1
  by_cases hnil : seg = []
  · subst hnil
    rw [hne rfl, List.nil_append, findArgs_end _ _ _ (Or.inr rfl), Option.some_inj] at hscan
    rw [← hscan, endCmd_buf (Or.inr rfl)] at hfirst
    exact hfirst [] rfl rfl
  by_cases hstart : seg.head? = some space
  · obtain ⟨c, seg, rfl⟩ := List.exists_cons_of_ne_nil hnil
    cases hstart
    rw [List.cons_append, findArgs, if_neg (by decide), if_pos ⟨Or.inl rfl, by decide⟩] at hscan
    obtain ⟨⟨z, hz⟩, ⟨ptrs, hptrs⟩⟩ := findArgs_grow hscan
    obtain ⟨z', hz'⟩ := endCmd_front sc
    refine hfirst [] ?_ rfl
    unfold Scan.strs
    rw [endCmd_argv, ← hptrs, hz', ← hz]
    rfl
  have htrim : ¬ Trimmed maxArgv seg := fun htrim => hseg ⟨hnil, hstart, htrim⟩
  obtain ⟨v, hv, c, hc, hbad⟩ := @findArgs_untrimmed seg [] tail [] t 4 sc hnil hstart hs rfl ht
    htail htrim hscan
  rw [hstrs] at hv
  unfold argvOf at hv
  rw [if_pos (Classical.not_imp.mp htrim).1] at hv
  obtain ⟨-, hspace, hsub⟩ := mem_words hv
  rcases hbad with rfl | rfl
  · exact hspace hc
  · exact (hs semicolon (hsub hc)).2 rfl

/-- The commands from one on are executed as what they are exactly if this one is tidy and
the others are. -/
theorem runCmds_iff {cs : List Cmd} (hs : ∀ c ∈ seg, Letter c) (ht : IsEnd t)
    (htail : t = 0 → tail = []) (hne : seg = [] → t = semicolon) :
    (∃ n, runCmds cmds n (seg ++ t :: tail) =
        some (Cmd.ofArgv cmds (argvOf maxArgv seg) :: cs)) ↔
      Tidy seg ∧ ∃ n, runCmds cmds n (behind t tail) = some cs := by
  obtain ⟨c, rest, hbuf, hc⟩ : ∃ c rest, seg ++ t :: tail = c :: rest ∧ c ≠ 0 := by
    cases seg with
    | nil =>
      rw [hne rfl]
      exact ⟨semicolon, tail, rfl, by decide⟩
    | cons c seg => exact ⟨c, seg ++ t :: tail, rfl, (hs c List.mem_cons_self).1⟩
  have hround : ∀ n, runCmds cmds (n + 1) (seg ++ t :: tail) =
      (doCmd cmds (seg ++ t :: tail)).bind fun r => (runCmds cmds n r.2).map (r.1 :: ·) := by
    intro n
    rw [hbuf, runCmds, if_neg hc]
  constructor
  · rintro ⟨n, hn⟩
    cases n with
    | zero => cases hn
    | succ n =>
      rw [hround] at hn
      obtain ⟨r, hr, hrest⟩ := Option.bind_eq_some_iff.mp hn
      obtain ⟨cs', hcs', heq⟩ := Option.map_eq_some_iff.mp hrest
      rw [List.cons.injEq] at heq
      have htidy : Tidy seg := by
        by_contra hseg
        exact doCmd_untidy hseg hs ht htail hne hr heq.1
      rw [doCmd_tidy htidy hs ht, Option.some_inj] at hr
      rw [← hr, heq.2] at hcs'
      exact ⟨htidy, n, hcs'⟩
  · rintro ⟨htidy, n, hn⟩
    refine ⟨n + 1, ?_⟩
    rw [hround, doCmd_tidy htidy hs ht, Option.bind_some, hn]
    rfl

end Command

-- ---------------------------------------------------------------------------
-- The line
-- ---------------------------------------------------------------------------

/-- **Command lines.** The shell executes exactly the commands of a line, with their
words, if and only if all of them are tidy. -/
theorem parsed_iff (cmds : List (List UInt8)) {line : List UInt8} (hline : 0 ∉ line) :
    Parsed cmds line ↔ ∀ seg ∈ pieces semicolon line, Tidy seg := by
  unfold Parsed
  induction split semicolon line with
  | @last w hw =>
    have hletters : ∀ c ∈ w, Letter c := fun c hc =>
      ⟨fun heq => hline (heq ▸ hc), fun heq => hw (heq ▸ hc)⟩
    by_cases hne : w = []
    · subst hne
      rw [pieces_nil]
      exact iff_of_true ⟨1, rfl⟩ fun seg hseg => absurd hseg List.not_mem_nil
    · rw [pieces_of_notMem hne hw, List.map_singleton,
        runCmds_iff hletters (Or.inl rfl) (fun _ => rfl) fun hnil => absurd hnil hne]
      simp only [List.mem_singleton, forall_eq, and_iff_left_iff_imp]
      exact fun _ => ⟨1, rfl⟩
  | @cons w xs hw hxs ih =>
    have hletters : ∀ c ∈ w, Letter c := fun c hc =>
      ⟨fun heq => hline (heq ▸ List.mem_append_left _ hc), fun heq => hw (heq ▸ hc)⟩
    have hrest : 0 ∉ xs := fun hmem =>
      hline (List.mem_append_right _ (List.mem_cons_of_mem _ hmem))
    rw [pieces_append_sep hw, List.map_cons, List.append_assoc, List.cons_append,
      runCmds_iff hletters (Or.inr rfl) (fun h => absurd h (by decide)) fun _ => rfl,
      List.forall_mem_cons]
    exact and_congr_right fun _ => ih hrest

/-- `a b;c`. -/
theorem parsed_two : Parsed [] [97, 32, 98, 59, 99] :=
  (parsed_iff [] (by decide)).mpr (by decide)

/-- `a ;b`: what the first command gets as its second argument is `;b`, and the second is
not executed. -/
theorem not_parsed_space :
    ¬ ∀ (cmds : List (List UInt8)) (line : List UInt8), 0 ∉ line → Parsed cmds line := by
  intro hall
  obtain ⟨n, hn⟩ := hall [] [97, 32, 59, 98] (by decide)
  have hcmd : doCmd [] [97, 32, 59, 98, 0] =
      some ({ argc := 2, argv := [[97], [59, 98]], entry := none }, [0]) := by decide
  have hline : (pieces semicolon [97, 32, 59, 98]).map
      (fun seg => Cmd.ofArgv [] (argvOf maxArgv seg)) =
      [{ argc := 1, argv := [[97]], entry := none }, { argc := 1, argv := [[98]], entry := none }] := by
    decide
  cases n with
  | zero => cases hn
  | succ n =>
    rw [hline, List.cons_append, runCmds, if_neg (by decide)] at hn
    simp [hcmd] at hn

end Bathos.Shell
