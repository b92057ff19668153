import Bathos.Lib.Run
import Bathos.Shell.Line

/-!
# Bathos — the life of a shell

`lib/shell.c`: `__shell_start_handle` allocates the data of a shell and leaves its address
in `shell_data`, `__shell_input_handle` takes it from there, and `__shell_exit` frees it,
either when the input has a `^D` or from the handler of the `exit` command, which is called
while the line is being executed.

`__shell_exit` sets its own copy of the pointer to `NULL`. So `shell_data` still points to
the buffer freed, and the input handler goes on with it, in the rest of the line as well as
with the next input.

Main results:

* `inputHandle_quiet`, `inputHandle_ends` — what input does to a running shell;
* `runLine_fuel` — a line needs no more rounds than it has characters, and one;
* `lifetime_iff` — the runs in which the data is used as it should be.
-/

namespace Bathos.Shell

open Bathos.Lib

-- ---------------------------------------------------------------------------
-- State
-- ---------------------------------------------------------------------------

/-- `struct shell_data`; `curr_ptr` is an offset into `buf`. -/
structure ShellData where
  currPtr : Nat
  buf : List UInt8
deriving DecidableEq, Repr

/-- A chunk written into the buffer at `curr_ptr`. -/
def ShellData.append (d : ShellData) (chunk : List UInt8) : List UInt8 :=
  d.buf.take d.currPtr ++ chunk ++ d.buf.drop (d.currPtr + chunk.length)

/-- The line in the buffer after a chunk with a newline at `i`. -/
def ShellData.line (d : ShellData) (chunk : List UInt8) (i : Nat) : List UInt8 :=
  (d.append chunk).set (d.currPtr + i) 0

/-- What the functions do to buffers, in order: they use the data in a buffer, which is live
or not, or memory behind its end; they free a buffer; and they trigger the event. Uses with
nothing in between are one entry. -/
inductive Entry where
  | access (b : Nat) (live : Bool)
  | outside
  | free (b : Nat)
  | termination
deriving DecidableEq, Repr

/-- The pointer `shell_data`, the data in the buffers, and which buffers the allocator has
given out, to the shell and to others. Two records: the buffer of the shell that runs, and
those of the shells that have ended. `lost` says that memory behind the end of a buffer has
been used; what happens then is not known. -/
structure System where
  shellData : Option Nat
  bufs : Nat → ShellData
  live : List Nat
  others : List Nat
  running : Option Nat
  ended : List Nat
  log : List Entry
  lost : Bool

/-- The size of `buf`, and the commands. -/
structure Config where
  size : Nat
  cmds : List (List UInt8)

/-- The name of the `exit` command. -/
def exitCmd : List UInt8 := [101, 120, 105, 116]

namespace System

/-- No shell was ever started. -/
def start (bufs : Nat → ShellData) (others : List Nat) : System where
  shellData := none
  bufs := bufs
  live := []
  others := others
  running := none
  ended := []
  log := []
  lost := false

/-- The data in a buffer is used. -/
def access (b : Nat) (s : System) : System :=
  { s with log := s.log ++ [.access b (decide (b ∈ s.live))] }

/-- Memory behind the end of the buffer is used. -/
def lose (s : System) : System := { s with log := s.log ++ [.outside], lost := true }

/-- `bathos_alloc_buffer`, for a buffer the allocator would choose: none that it has given
out. -/
def allocBuffer (b : Option Nat) (s : System) : Option Nat :=
  b.filter fun b => decide (b ∉ s.live ∧ b ∉ s.others)

-- ---------------------------------------------------------------------------
-- shell.c
-- ---------------------------------------------------------------------------

/-- `__shell_exit(data)`: only the parameter becomes `NULL`. -/
def shellExit (data : Nat) (s : System) : System :=
  { s with
    live := s.live.erase data
    running := none
    ended := s.ended ++ s.running.toList
    log := s.log ++ [.free data, .termination] }

/-- `__shell_start_handle`. -/
def startHandle (cfg : Config) (fresh : Option Nat) (s : System) : System :=
  match s.allocBuffer fresh with
  | none => { s with shellData := none, running := none }
  | some b =>
    { s with
      shellData := some b
      bufs := Function.update s.bufs b { currPtr := 0, buf := List.replicate cfg.size 0 }
      live := b :: s.live
      running := some b }.access b

/-- What the loop over the characters of a chunk finds first. -/
inductive Found where
  | eot
  | newline (i : Nat)
  | neither
deriving DecidableEq, Repr

def find : List UInt8 → Nat → Found
  | [], _ => .neither
  | c :: cs, i => if c = 0x4 then .eot else if c = 13 then .newline i else find cs (i + 1)

/-- The handler of a command; `exit_handler` passes `shell_data` on, which is not `NULL` while
a line is executed. The other commands of the shell do not use its data. -/
def handler (cmd : Cmd) (s : System) : System :=
  if cmd.entry = some exitCmd then
    match s.shellData with
    | none => s
    | some data => s.shellExit data
  else s

/-- The loop over the commands of a line: `buf` is the buffer from `cmdstr` on. -/
def runLine (cfg : Config) (data : Nat) : Nat → List UInt8 → System → System
  | 0, _, s => s.lose
  | _ + 1, [], s => s.lose
  | n + 1, c :: rest, s =>
    if c = 0 then s.access data
    else
      match doCmd cfg.cmds (c :: rest) with
      | none => (s.access data).lose
      | some (cmd, buf) => runLine cfg data n buf ((s.access data).handler cmd)

/-- From `next_cmd` on. The loop that empties the pipe reads into the buffer, which is then
cleared. -/
def nextCmd (cfg : Config) (data : Nat) (s : System) : System :=
  { s with
    bufs := Function.update s.bufs data { currPtr := 0, buf := List.replicate cfg.size 0 }
  }.access data

/-- `__shell_input_handle` once `pipe_read` has returned a chunk. -/
def inputChunk (cfg : Config) (data : Nat) (chunk : List UInt8) (s : System) : System :=
  let d := s.bufs data
  let store : List UInt8 → System := fun buf =>
    { s with bufs := Function.update s.bufs data ⟨d.currPtr + chunk.length, buf⟩ }
  match find chunk 0 with
  | .eot => s.shellExit data
  | .newline i =>
    let line := d.line chunk i
    let s := runLine cfg data (line.length + 1) line (store line)
    if s.lost then s else s.nextCmd cfg data
  | .neither =>
    let s := store (d.append chunk)
    if cfg.size ≤ d.currPtr + chunk.length then s.nextCmd cfg data else s

/-- `__shell_input_handle`; `read` is what can be read, `none` for an error. -/
def inputHandle (cfg : Config) (read : Option (List UInt8)) (s : System) : System :=
  match s.shellData with
  | none => s
  | some data =>
    match read with
    | none => s.access data
    | some bytes =>
      (s.access data).inputChunk cfg data (bytes.take (cfg.size - (s.bufs data).currPtr))

end System

/-- The two events of the shell, and what others do with the allocator. -/
inductive Op where
  | start (fresh : Option Nat)
  | inputReady (read : Option (List UInt8))
  | alloc (b : Nat)
  | free (b : Nat)
deriving DecidableEq, Repr

namespace System

def step (cfg : Config) (s : System) (op : Op) : System :=
  if s.lost then s
  else
    match op with
    | .start fresh => s.startHandle cfg fresh
    | .inputReady read => s.inputHandle cfg read
    | .alloc b => { s with others := (s.allocBuffer (some b)).toList ++ s.others }
    | .free b => { s with others := s.others.erase b }

-- ---------------------------------------------------------------------------
-- Statement
-- ---------------------------------------------------------------------------

/-- All uses are of live buffers, the pointer is `NULL` without a shell, and what was freed
and how often the event was triggered are the shells that ended. -/
structure Sound (s : System) : Prop where
  used : ∀ e ∈ s.log, e ≠ .outside ∧ ∀ b live, e = .access b live → live = true
  null : s.running = none → s.shellData = none
  freed : (s.log.filterMap fun | .free b => some b | _ => none) = s.ended
  terminations : s.log.count .termination = s.ended.length

/-- The line is executed without the cursor leaving the buffer, and no command is `exit`. -/
def Quiet (cfg : Config) (line : List UInt8) : Prop :=
  ∃ cs, runCmds cfg.cmds (line.length + 1) line = some cs ∧ ∀ c ∈ cs, c.entry ≠ some exitCmd

/-- A chunk that does not end the shell. -/
def Harmless (cfg : Config) (d : ShellData) (chunk : List UInt8) : Prop :=
  match find chunk 0 with
  | .eot => False
  | .newline i => Quiet cfg (d.line chunk i)
  | .neither => True

/-- Input for a running shell does not end it. -/
def GoesOn (cfg : Config) (s : System) : Op → Prop
  | .inputReady (some bytes) => ∀ data, s.shellData = some data →
      Harmless cfg (s.bufs data) (bytes.take (cfg.size - (s.bufs data).currPtr))
  | _ => True

-- ---------------------------------------------------------------------------
-- Lines
-- ---------------------------------------------------------------------------

section RunLine

variable {cfg : Config} {data : Nat}

/-- A command leaves less of the line than it found. -/
theorem doCmd_length {cmds : List (List UInt8)} {c : UInt8} {rest buf : List UInt8} {cmd : Cmd}
    (hc : c ≠ 0) (h : doCmd cmds (c :: rest) = some (cmd, buf)) : buf.length ≤ rest.length := by
  have hscan : ∀ {m : Loop} {front : List UInt8} {argv : List Nat} {r : List UInt8} {sc : Scan},
      findArgs m front argv r = some sc → sc.endCmd.rest.length ≤ r.length := by
    intro m front argv r
    induction r generalizing m front argv with
    | nil => exact fun hs => by simp [findArgs] at hs
    | cons d r ih =>
      intro sc hs
      cases m with
      | args =>
        rw [findArgs] at hs
        split_ifs at hs
        · cases hs
          unfold Scan.endCmd
          by_cases hd : d = semicolon <;> simp [hd]
        · exact (ih hs).trans (Nat.le_succ _)
        · exact (ih hs).trans (Nat.le_succ _)
      | spaces =>
        rw [findArgs] at hs
        split_ifs at hs <;> exact (ih hs).trans (Nat.le_succ _)
  obtain ⟨sc, hsc, heq⟩ := Option.map_eq_some_iff.mp h
  obtain ⟨-, rfl⟩ := Prod.mk.inj heq
  rw [findArgs] at hsc
  split_ifs at hsc with hend
  · cases hsc
    have hsemi : c = semicolon := hend.resolve_left hc
    unfold Scan.endCmd
    simp [hsemi]
  · exact hscan hsc
  · exact hscan hsc

/-- One round more than the line has characters is enough. -/
theorem runLine_fuel {n m : Nat} {buf : List UInt8} (hn : buf.length < n) (hm : buf.length < m)
    (s : System) : runLine cfg data n buf s = runLine cfg data m buf s := by
  induction n generalizing m buf s with
  | zero => exact absurd hn (Nat.not_lt_zero _)
  | succ n ih =>
    obtain ⟨m, rfl⟩ : ∃ k, m = k + 1 := ⟨m - 1, by omega⟩
    cases buf with
    | nil => rfl
    | cons c rest =>
      unfold runLine
      by_cases hc : c = 0
      · rw [if_pos hc, if_pos hc]
      · rw [if_neg hc, if_neg hc]
        cases hdo : doCmd cfg.cmds (c :: rest) with
        | none => rfl
        | some r =>
          have hlen := doCmd_length hc hdo
          rw [List.length_cons] at hn hm
          exact ih (by omega) (by omega) _

/-- Without `exit` the data is used, once for each command and at the end. -/
theorem runLine_quiet {n : Nat} {buf : List UInt8} {cs : List Cmd}
    (h : runCmds cfg.cmds n buf = some cs) (hcs : ∀ c ∈ cs, c.entry ≠ some exitCmd)
    (s : System) :
    runLine cfg data n buf s =
      { s with log := s.log ++
          List.replicate (cs.length + 1) (.access data (decide (data ∈ s.live))) } := by
  induction n generalizing buf cs s with
  | zero => cases h
  | succ n ih =>
    cases buf with
    | nil => cases h
    | cons c rest =>
      unfold runCmds at h
      unfold runLine
      by_cases hc : c = 0
      · rw [if_pos hc] at h ⊢
        cases h
        rfl
      · rw [if_neg hc] at h ⊢
        cases hdo : doCmd cfg.cmds (c :: rest) with
        | none =>
          rw [hdo] at h
          cases h
        | some r =>
          rw [hdo, Option.bind_some] at h
          obtain ⟨cs', hrest, rfl⟩ := Option.map_eq_some_iff.mp h
          have hcmd : (s.access data).handler r.1 = s.access data :=
            if_neg (hcs _ List.mem_cons_self)
          simp only [hcmd]
          rw [ih hrest fun d hd => hcs d (List.mem_cons_of_mem _ hd)]
          simp only [access, List.append_assoc, List.singleton_append, List.length_cons]
          rfl

theorem handler_frame (cmd : Cmd) (s : System) :
    (s.handler cmd).shellData = s.shellData ∧
      (s.running = none → (s.handler cmd).running = none) := by
  unfold handler
  split_ifs
  · cases hd : s.shellData with
    | none => exact ⟨hd, id⟩
    | some b => exact ⟨hd, fun _ => rfl⟩
  · exact ⟨rfl, id⟩

/-- A line does not change the pointer, nor start a shell. -/
theorem runLine_frame (n : Nat) (buf : List UInt8) (s : System) :
    (runLine cfg data n buf s).shellData = s.shellData ∧
      (s.running = none → (runLine cfg data n buf s).running = none) := by
  induction n generalizing buf s with
  | zero => exact ⟨rfl, id⟩
  | succ n ih =>
    cases buf with
    | nil => exact ⟨rfl, id⟩
    | cons c rest =>
      unfold runLine
      by_cases hc : c = 0
      · rw [if_pos hc]
        exact ⟨rfl, id⟩
      · rw [if_neg hc]
        cases doCmd cfg.cmds (c :: rest) with
        | none => exact ⟨rfl, id⟩
        | some r =>
          obtain ⟨hdata, hrun⟩ := handler_frame r.1 (s.access data)
          obtain ⟨hdata', hrun'⟩ := ih r.2 ((s.access data).handler r.1)
          exact ⟨hdata'.trans hdata, fun h => hrun' (hrun h)⟩

/-- A line with `exit`, or one that leads the cursor out of the buffer. -/
theorem runLine_ends {n : Nat} {buf : List UInt8} {s : System} {b : Nat}
    (h : ¬ ∃ cs, runCmds cfg.cmds n buf = some cs ∧ ∀ c ∈ cs, c.entry ≠ some exitCmd)
    (hs : s.shellData = some b) :
    .outside ∈ (runLine cfg data n buf s).log ∨ (runLine cfg data n buf s).running = none := by
  induction n generalizing buf s with
  | zero => exact .inl (List.mem_append_right _ List.mem_cons_self)
  | succ n ih =>
    cases buf with
    | nil => exact .inl (List.mem_append_right _ List.mem_cons_self)
    | cons c rest =>
      unfold runCmds at h
      unfold runLine
      by_cases hc : c = 0
      · exact absurd ⟨[], if_pos hc, by simp⟩ h
      · simp only [if_neg hc] at h ⊢
        cases hdo : doCmd cfg.cmds (c :: rest) with
        | none => exact .inl (List.mem_append_right _ List.mem_cons_self)
        | some r =>
          simp only
          by_cases hexit : r.1.entry = some exitCmd
          · have hcmd : (s.access data).handler r.1 = (s.access data).shellExit b := by
              unfold handler
              rw [if_pos hexit]
              simp only [access, hs]
            rw [hcmd]
            exact .inr ((runLine_frame n r.2 _).2 rfl)
          · have hcmd : (s.access data).handler r.1 = s.access data := if_neg hexit
            rw [hcmd]
            refine ih ?_ hs
            rintro ⟨cs, hrest, hcs⟩
            refine h ⟨r.1 :: cs, ?_, ?_⟩
            · rw [hdo, Option.bind_some, hrest]
              rfl
            · exact List.forall_mem_cons.mpr ⟨hexit, hcs⟩

end RunLine

-- ---------------------------------------------------------------------------
-- Input
-- ---------------------------------------------------------------------------

section Input

variable {cfg : Config} {data : Nat} {chunk : List UInt8} {s : System}

theorem nextCmd_uses (bufs : Nat → ShellData) (k : Nat) :
    ∃ bufs', nextCmd cfg data { s with
        bufs := bufs
        log := s.log ++ List.replicate k (.access data (decide (data ∈ s.live))) } =
      { s with
        bufs := bufs'
        log := s.log ++ List.replicate (k + 1) (.access data (decide (data ∈ s.live))) } := by
  rw [List.replicate_succ', ← List.append_assoc]
  exact ⟨_, rfl⟩

/-- Input that goes on uses the data, and changes nothing else. -/
theorem inputChunk_quiet (hlost : s.lost = false) (h : Harmless cfg (s.bufs data) chunk) :
    ∃ bufs k, s.inputChunk cfg data chunk =
      { s with
        bufs := bufs
        log := s.log ++ List.replicate k (.access data (decide (data ∈ s.live))) } := by
  unfold Harmless at h
  unfold inputChunk
  cases hfind : find chunk 0 with
  | eot => rw [hfind] at h; exact h.elim
  | newline i =>
    rw [hfind] at h
    obtain ⟨cs, hrun, hcs⟩ := h
    simp only [runLine_quiet hrun hcs]
    rw [if_neg (Bool.not_eq_true _ ▸ hlost)]
    obtain ⟨bufs, hnext⟩ := @nextCmd_uses cfg data s _ (cs.length + 1)
    exact ⟨bufs, cs.length + 1 + 1, hnext⟩
  | neither =>
    simp only
    split_ifs
    · exact ⟨_, 1, rfl⟩
    · exact ⟨_, 0, by rw [List.replicate_zero, List.append_nil]⟩

/-- Input that ends the shell leaves the pointer to its data. -/
theorem inputChunk_ends (hs : s.shellData = some data) (h : ¬ Harmless cfg (s.bufs data) chunk) :
    ¬ Sound (s.inputChunk cfg data chunk) := by
  intro hsound
  unfold Harmless at h
  unfold inputChunk at hsound
  cases hfind : find chunk 0 with
  | eot =>
    rw [hfind] at hsound
    have hnull : s.shellData = none := hsound.null rfl
    exact Option.some_ne_none _ (hs.symm.trans hnull)
  | newline i =>
    rw [hfind] at hsound h
    simp only at hsound
    set line := (s.bufs data).line chunk i
    set s₀ : System :=
      { s with bufs := Function.update s.bufs data ⟨(s.bufs data).currPtr + chunk.length, line⟩ }
    obtain ⟨hdata, -⟩ := @runLine_frame cfg data (line.length + 1) line s₀
    have hptr : (runLine cfg data (line.length + 1) line s₀).shellData = some data :=
      hdata.trans hs
    have hends := @runLine_ends cfg data _ _ s₀ data h hs
    rcases hends with hout | hrun
    · split_ifs at hsound
      · exact (hsound.used _ hout).1 rfl
      · exact (hsound.used _ (List.mem_append_left _ hout)).1 rfl
    · split_ifs at hsound
      · exact Option.some_ne_none _ (hptr.symm.trans (hsound.null hrun))
      · exact Option.some_ne_none _ (hptr.symm.trans (hsound.null hrun))
  | neither =>
    rw [hfind] at h
    exact h trivial

end Input

-- ---------------------------------------------------------------------------
-- Runs
-- ---------------------------------------------------------------------------

/-- A shell that was started and never ended, or none. -/
structure Inv (s : System) : Prop where
  kept : s.lost = false
  pointer : s.running = s.shellData
  owned : ∀ b, s.shellData = some b → b ∈ s.live
  used : ∀ e ∈ s.log, ∃ b, e = .access b true
  going : s.ended = []

theorem Inv.sound {s : System} (h : Inv s) : Sound s where
  used e he := by
    obtain ⟨b, rfl⟩ := h.used e he
    refine ⟨by simp, fun b' live heq => ?_⟩
    cases heq
    rfl
  null hrun := h.pointer.symm.trans hrun
  freed := by
    rw [h.going, List.filterMap_eq_nil_iff]
    intro e he
    obtain ⟨b, rfl⟩ := h.used e he
    rfl
  terminations := by
    rw [h.going, List.length_nil, List.count_eq_zero]
    intro he
    obtain ⟨b, hb⟩ := h.used _ he
    cases hb

/-- More uses of the data of the shell that runs. -/
theorem Inv.use {s : System} (h : Inv s) {b : Nat} (hb : b ∈ s.live) (bufs : Nat → ShellData)
    (k : Nat) :
    Inv { s with
      bufs := bufs
      log := s.log ++ List.replicate k (.access b (decide (b ∈ s.live))) } where
  kept := h.kept
  pointer := h.pointer
  owned := h.owned
  used e he := by
    rcases List.mem_append.mp he with he | he
    · exact h.used e he
    · exact ⟨b, by rw [List.eq_of_mem_replicate he, decide_eq_true hb]⟩
  going := h.going

variable {cfg : Config} {s : System}

theorem inv_startHandle (hinv : Inv s) (fresh : Option Nat) : Inv (s.startHandle cfg fresh) := by
  unfold startHandle
  cases s.allocBuffer fresh with
  | none =>
    exact {
      kept := hinv.kept
      pointer := rfl
      owned := fun _ hb => nomatch hb
      used := hinv.used
      going := hinv.going }
  | some b =>
    have hstarted : Inv { s with
        shellData := some b
        bufs := Function.update s.bufs b { currPtr := 0, buf := List.replicate cfg.size 0 }
        live := b :: s.live
        running := some b } := {
      kept := hinv.kept
      pointer := rfl
      owned := fun b' hb' => Option.some.inj hb' ▸ List.mem_cons_self
      used := hinv.used
      going := hinv.going }
    exact hstarted.use List.mem_cons_self _ 1

/-- The data is looked at before the input is. -/
theorem inv_access (hinv : Inv s) {data : Nat} (hs : s.shellData = some data) :
    Inv (s.access data) :=
  hinv.use (hinv.owned data hs) s.bufs 1

theorem inputHandle_quiet (hinv : Inv s) (read : Option (List UInt8))
    (h : GoesOn cfg s (.inputReady read)) : Inv (s.inputHandle cfg read) := by
  unfold inputHandle
  cases hs : s.shellData with
  | none => exact hinv
  | some data =>
    have hacc := inv_access hinv hs
    cases read with
    | none => exact hacc
    | some bytes =>
      obtain ⟨bufs, k, heq⟩ := inputChunk_quiet hacc.kept (h data hs)
      simp only [heq]
      exact hacc.use (hinv.owned data hs) bufs k

theorem inputHandle_ends (read : Option (List UInt8)) (h : ¬ GoesOn cfg s (.inputReady read)) :
    ¬ Sound (s.inputHandle cfg read) := by
  unfold inputHandle
  cases read with
  | none => exact absurd trivial h
  | some bytes =>
    simp only [GoesOn, not_forall] at h
    obtain ⟨data, hs, hharm⟩ := h
    simp only [hs]
    exact inputChunk_ends hs hharm

theorem inv_step (hinv : Inv s) {op : Op} (h : GoesOn cfg s op) : Inv (s.step cfg op) := by
  unfold step
  rw [if_neg (Bool.not_eq_true _ ▸ hinv.kept)]
  cases op with
  | start fresh => exact inv_startHandle hinv fresh
  | inputReady read => exact inputHandle_quiet hinv read h
  | alloc b => exact ⟨hinv.kept, hinv.pointer, hinv.owned, hinv.used, hinv.going⟩
  | free b => exact ⟨hinv.kept, hinv.pointer, hinv.owned, hinv.used, hinv.going⟩

theorem sound_step (hinv : Inv s) (op : Op) : Sound (s.step cfg op) ↔ GoesOn cfg s op := by
  refine ⟨fun hsound => ?_, fun h => (inv_step hinv h).sound⟩
  by_contra hgo
  cases op with
  | inputReady read =>
    unfold step at hsound
    rw [if_neg (Bool.not_eq_true _ ▸ hinv.kept)] at hsound
    exact inputHandle_ends read hgo hsound
  | start fresh => exact hgo trivial
  | alloc b => exact hgo trivial
  | free b => exact hgo trivial

theorem inv_start (bufs : Nat → ShellData) (others : List Nat) : Inv (start bufs others) where
  kept := rfl
  pointer := rfl
  owned := fun _ hb => nomatch hb
  used := fun _ he => nomatch he
  going := rfl

/-- **Life of a shell.** The data is used as it should be in exactly the runs in which no
shell ends: from any content of the heap, for all input. -/
theorem lifetime_iff (cfg : Config) (bufs : Nat → ShellData) (others : List Nat) (ops : List Op) :
    EachStep (step cfg) (fun s op => Sound (s.step cfg op)) (start bufs others) ops ↔
      EachStep (step cfg) (GoesOn cfg) (start bufs others) ops :=
  eachStep_iff (fun _ op hinv => sound_step hinv op) (fun _ _ hinv h => inv_step hinv h)
    (inv_start bufs others)

/-- A shell is started, and ended by `^D`. -/
theorem end_of_input :
    ¬ EachStep (step ⟨8, [exitCmd]⟩) (fun s op => Sound (s.step ⟨8, [exitCmd]⟩ op))
      (start (fun _ => ⟨0, []⟩) []) [.start (some 1), .inputReady (some [4])] := by
  intro h
  have hnull := h.2.1.null rfl
  exact Option.some_ne_none 1 hnull

end System

end Bathos.Shell
