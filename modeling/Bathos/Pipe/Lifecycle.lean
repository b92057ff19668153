import Bathos.Include.Headers
import Bathos.Lib.Run

/-!
# Bathos — opening and closing pipes

`lib/pipe.c`: `pipe_open`, `pipe_close` and `do_free_pipe`, the handler of the
`pipe_really_closed` event that a close leaves in the event queue.

Closing takes two steps. `pipe_close` checks `pipe->dev` and queues the event;
`do_free_pipe` takes the pipe off its device's list and clears `pipe->dev`. In
between a second `pipe_close` passes the check, and its event finds a pipe
without a device. And neither `do_free_pipe` nor the failure exits of
`pipe_open` give the structure back to the allocator: `__do_free_pipe` clears a
pointer and nothing more.

Main results:

* `pipes_conserved_iff` — the buffers held are those of the open pipes exactly
  as long as no pipe is closed and no open fails after its allocation;
* `pipes_closed_once` — a run that never closes a pipe whose close event is
  still waiting closes each pipe once.
-/

namespace Bathos.Pipe

open Bathos.Lib

variable {δ : Type}

-- ---------------------------------------------------------------------------
-- pipe.c
-- ---------------------------------------------------------------------------

/-- `BATHOS_MODE_INPUT`. -/
def BATHOS_MODE_INPUT : Nat := 1

/-- The devices of a build, which of their operations are not `NULL`, and how
many events the queue holds. -/
structure Config (δ : Type) where
  findDev : String → Option δ
  hasOpen : δ → Bool
  hasClose : δ → Bool
  capacity : Nat

/-- Events whose data is a pipe, and all other ones. -/
inductive Event where
  | inputPipeOpened (p : Nat)
  | outputPipeOpened (p : Nat)
  | inputPipeClosed (p : Nat)
  | outputPipeClosed (p : Nat)
  | pipeReallyClosed (p : Nat)
  | other
deriving DecidableEq, Repr

/-- The pipes, numbered in the order of their allocation: the buffers held for
them, the fields `dev` and `mode`, the list of each device, and the queue. -/
structure Pipes (δ : Type) where
  held : List Nat
  next : Nat
  dev : Nat → Option δ
  mode : Nat → Nat
  pipes : δ → List Nat
  events : List Event
  errno : Int

namespace Pipes

/-- `trigger_event`; its callers here ignore a full queue. -/
def triggerEvent (cfg : Config δ) (e : Event) (s : Pipes δ) : Pipes δ :=
  if s.events.length < cfg.capacity then { s with events := s.events ++ [e] } else s

section

variable {cfg : Config δ} {s : Pipes δ} {e : Event}

@[simp] theorem triggerEvent_held : (s.triggerEvent cfg e).held = s.held := by
  unfold triggerEvent
  split <;> rfl

@[simp] theorem triggerEvent_next : (s.triggerEvent cfg e).next = s.next := by
  unfold triggerEvent
  split <;> rfl

@[simp] theorem triggerEvent_dev : (s.triggerEvent cfg e).dev = s.dev := by
  unfold triggerEvent
  split <;> rfl

@[simp] theorem triggerEvent_pipes : (s.triggerEvent cfg e).pipes = s.pipes := by
  unfold triggerEvent
  split <;> rfl

/-- The event is appended, or the queue was full. -/
theorem triggerEvent_events (cfg : Config δ) (s : Pipes δ) (e : Event) :
    (s.triggerEvent cfg e).events = s.events ∨ (s.triggerEvent cfg e).events = s.events ++ [e] := by
  unfold triggerEvent
  split
  · exact Or.inr rfl
  · exact Or.inl rfl

/-- Triggering another event queues no further closing. -/
theorem triggerEvent_count {p : Nat} (he : e ≠ .pipeReallyClosed p) :
    (s.triggerEvent cfg e).events.count (.pipeReallyClosed p) =
      s.events.count (.pipeReallyClosed p) := by
  rcases triggerEvent_events cfg s e with h | h
  · rw [h]
  · rw [h, List.count_append, List.count_singleton, beq_eq_false_iff_ne.mpr he]
    rfl

theorem triggerEvent_count_le {p : Nat} :
    (s.triggerEvent cfg e).events.count (.pipeReallyClosed p) ≤
      s.events.count (.pipeReallyClosed p) + (if e = .pipeReallyClosed p then 1 else 0) := by
  rcases triggerEvent_events cfg s e with h | h
  · rw [h]
    exact Nat.le_add_right _ _
  · rw [h, List.count_append, List.count_singleton]
    simp

end

/-- `__do_free_pipe`. -/
def freePipe (p : Nat) (s : Pipes δ) : Pipes δ := { s with dev := Function.update s.dev p none }

/-- `__find_free_pipe`, when the allocator has room, and the fields set from the
arguments of `pipe_open`. -/
def newPipe (mode : Nat) (s : Pipes δ) : Pipes δ :=
  { s with
    held := s.held ++ [s.next]
    next := s.next + 1
    mode := Function.update s.mode s.next mode }

/-- `pipe_close(pipe)`. -/
def pipeClose (cfg : Config δ) (p : Nat) (s : Pipes δ) : Int × Pipes δ :=
  match s.dev p with
  | none => (-1, { s with errno := EBADF })
  | some _ =>
    let e := if s.mode p &&& BATHOS_MODE_INPUT ≠ 0 then .inputPipeClosed p else .outputPipeClosed p
    (0, (s.triggerEvent cfg e).triggerEvent cfg (.pipeReallyClosed p))

/-- `pipe_close` only touches the queue and the error number. -/
theorem pipeClose_frame (cfg : Config δ) (p : Nat) (s : Pipes δ) :
    (s.pipeClose cfg p).2.held = s.held ∧ (s.pipeClose cfg p).2.next = s.next ∧
      (s.pipeClose cfg p).2.dev = s.dev ∧ (s.pipeClose cfg p).2.pipes = s.pipes := by
  unfold pipeClose
  cases s.dev p with
  | none => exact ⟨rfl, rfl, rfl, rfl⟩
  | some dev => simp

/-- The only closing that `pipe_close` queues is that of its own pipe, which has a
device. -/
theorem pipeClose_count (cfg : Config δ) (p q : Nat) (s : Pipes δ) :
    (s.pipeClose cfg p).2.events.count (.pipeReallyClosed q) ≤
      s.events.count (.pipeReallyClosed q) + (if q = p ∧ (s.dev p).isSome then 1 else 0) := by
  unfold pipeClose
  cases s.dev p with
  | none => simp
  | some dev =>
    refine triggerEvent_count_le.trans ?_
    rw [triggerEvent_count (by split <;> simp)]
    by_cases hq : q = p
    · simp [hq]
    · simp [hq, Ne.symm hq]

variable [DecidableEq δ]

/-- `pipe_open(n, mode, data)`. `room` says whether the allocator has a buffer,
`stat` is what the device's open operation returns. -/
def pipeOpen (cfg : Config δ) (n : String) (mode : Nat) (room : Bool) (stat : Int) (s : Pipes δ) :
    Option Nat × Pipes δ :=
  if mode = 0 then (none, { s with errno := EINVAL })
  else if !room then (none, { s with errno := ENFILE })
  else
    let out := s.next
    let s := s.newPipe mode
    match cfg.findDev n with
    | none => (none, { s.freePipe out with errno := ENXIO })
    | some dev =>
      let s := { s with dev := Function.update s.dev out (some dev) }
      if cfg.hasOpen dev ∧ stat ≠ 0 then (none, { s.freePipe out with errno := stat })
      else
        let s := { s with pipes := Function.update s.pipes dev (out :: s.pipes dev) }
        let e := if mode &&& BATHOS_MODE_INPUT ≠ 0 then .inputPipeOpened out else .outputPipeOpened out
        (some out, s.triggerEvent cfg e)

/-- `do_free_pipe`: what it leaves, and whether it called the device's close
operation; `none` when it follows the `NULL` pointer of a pipe without device. -/
def doFreePipe (cfg : Config δ) (p : Nat) (s : Pipes δ) : Option (Pipes δ × Bool) :=
  match s.dev p with
  | none => none
  | some dev =>
    let s := { s with pipes := Function.update s.pipes dev ((s.pipes dev).erase p) }
    -- last pipe related to this device?
    some (s.freePipe p, (s.pipes dev).isEmpty && cfg.hasClose dev)

end Pipes

variable [DecidableEq δ]

-- ---------------------------------------------------------------------------
-- Runs
-- ---------------------------------------------------------------------------

/-- Calls of the interface, other events being triggered, and the handling of the
next event. -/
inductive Op where
  | open (n : String) (mode : Nat) (room : Bool) (stat : Int)
  | close (p : Nat)
  | trigger
  | handle
deriving DecidableEq, Repr

/-- The pipes and their history: the pipes returned by `pipe_open` whose
`pipe_really_closed` event has not been handled, those for which it has, the
pipes that left a list, the devices whose list became empty, the calls of a
close operation, and whether a `NULL` pointer was followed. -/
structure System (δ : Type) where
  st : Pipes δ
  opened : List Nat
  handled : List Nat
  left : List Nat
  emptied : List δ
  closed : List δ
  faulted : Bool

namespace System

/-- No pipe was ever opened. -/
def start : System δ where
  st := { held := [], next := 0, dev := fun _ => none, mode := fun _ => 0, pipes := fun _ => [],
          events := [], errno := 0 }
  opened := []
  handled := []
  left := []
  emptied := []
  closed := []
  faulted := false

/-- What the handling of a `pipe_really_closed` event adds to the history. -/
def recordFree (p : Nat) (dev : δ) (st : Pipes δ) (called : Bool) (s : System δ) : System δ :=
  { s with
    st := st
    opened := s.opened.erase p
    handled := s.handled ++ [p]
    left := if p ∈ s.st.pipes dev ∧ p ∉ st.pipes dev then s.left ++ [p] else s.left
    emptied :=
      if s.st.pipes dev ≠ [] ∧ st.pipes dev = [] then s.emptied ++ [dev] else s.emptied
    closed := if called then s.closed ++ [dev] else s.closed }

/-- The handling of the event at the head of the queue. -/
def handle (cfg : Config δ) (s : System δ) : System δ :=
  match s.st.events with
  | [] => s
  | .pipeReallyClosed p :: es =>
    let s := { s with st := { s.st with events := es } }
    match s.st.dev p, s.st.doFreePipe cfg p with
    | some dev, some (st, called) => s.recordFree p dev st called
    | _, _ =>
      { s with
        opened := s.opened.erase p
        handled := s.handled ++ [p]
        faulted := true }
  | _ :: es => { s with st := { s.st with events := es } }

def step (cfg : Config δ) (s : System δ) : Op → System δ
  | .open n mode room stat =>
    let r := s.st.pipeOpen cfg n mode room stat
    { s with st := r.2, opened := s.opened ++ r.1.toList }
  | .close p => { s with st := (s.st.pipeClose cfg p).2 }
  | .trigger => { s with st := s.st.triggerEvent cfg .other }
  | .handle => s.handle cfg

end System

-- ---------------------------------------------------------------------------
-- What each call can do
-- ---------------------------------------------------------------------------

/-- A call of `pipe_open` that fails after it has allocated the pipe. -/
def OpenLeaks (cfg : Config δ) (n : String) (mode : Nat) (room : Bool) (stat : Int) : Prop :=
  mode ≠ 0 ∧ room = true ∧ ∀ dev, cfg.findDev n = some dev → cfg.hasOpen dev = true ∧ stat ≠ 0

/-- The three outcomes of `pipe_open`: refused before the allocation, failed
after it, or a new pipe at the front of its device's list. -/
theorem Pipes.pipeOpen_cases (cfg : Config δ) (n : String) (mode : Nat) (room : Bool) (stat : Int)
    (s : Pipes δ) :
    (¬ OpenLeaks cfg n mode room stat ∧ ∃ e, s.pipeOpen cfg n mode room stat =
        (none, { s with errno := e })) ∨
      (OpenLeaks cfg n mode room stat ∧ ∃ e, s.pipeOpen cfg n mode room stat =
        (none, { s.newPipe mode with dev := Function.update s.dev s.next none, errno := e })) ∨
      (¬ OpenLeaks cfg n mode room stat ∧ ∃ dev e, (∀ p, e ≠ .pipeReallyClosed p) ∧
        s.pipeOpen cfg n mode room stat = (some s.next, Pipes.triggerEvent cfg e
          { s.newPipe mode with
            dev := Function.update s.dev s.next (some dev)
            pipes := Function.update s.pipes dev (s.next :: s.pipes dev) })) := by
  unfold pipeOpen OpenLeaks
  by_cases hmode : mode = 0
  · exact Or.inl ⟨fun h => h.1 hmode, EINVAL, by rw [if_pos hmode]⟩
  rw [if_neg hmode]
  cases room with
  | false => exact Or.inl ⟨fun h => absurd h.2.1 (by decide), ENFILE, rfl⟩
  | true =>
    cases hdev : cfg.findDev n with
    | none =>
      refine Or.inr (Or.inl ⟨⟨hmode, rfl, by simp⟩, ENXIO, rfl⟩)
    | some dev =>
      by_cases hstat : cfg.hasOpen dev = true ∧ stat ≠ 0
      · refine Or.inr (Or.inl ⟨⟨hmode, rfl, fun dev' h => ?_⟩, stat, ?_⟩)
        · cases h
          exact hstat
        · simp only [Bool.not_true, Bool.false_eq_true, if_false, if_pos hstat, freePipe, newPipe,
            Function.update_idem]
      · refine Or.inr (Or.inr ⟨fun h => hstat (h.2.2 dev rfl), dev,
          if mode &&& BATHOS_MODE_INPUT ≠ 0 then .inputPipeOpened s.next
          else .outputPipeOpened s.next, fun p => ?_, ?_⟩)
        · split <;> simp
        · simp only [Bool.not_true, Bool.false_eq_true, if_false, if_neg hstat]
          rfl

-- ---------------------------------------------------------------------------
-- Buffers
-- ---------------------------------------------------------------------------

/-- After the step the buffers held are as many as the open pipes. -/
def Conserved (cfg : Config δ) (s : System δ) (op : Op) : Prop :=
  (s.step cfg op).st.held.length = (s.step cfg op).opened.length

/-- No open fails after its allocation, and no closing is completed. -/
def NothingFreed (cfg : Config δ) (s : System δ) : Op → Prop
  | .open n mode room stat => ¬ OpenLeaks cfg n mode room stat
  | .handle => ∀ p, s.st.events.head? ≠ some (.pipeReallyClosed p)
  | _ => True

/-- The buffers held are those of the open pipes, and only open pipes have a
device or wait to be closed. -/
structure Balanced (s : System δ) : Prop where
  balance : s.st.held.length = s.opened.length
  dev_opened : ∀ p dev, s.st.dev p = some dev → p ∈ s.opened
  pending_opened : ∀ p, .pipeReallyClosed p ∈ s.st.events → p ∈ s.opened

omit [DecidableEq δ] in
theorem start_balanced : Balanced (System.start : System δ) :=
  ⟨rfl, fun _ _ h => (nomatch h), fun _ h => (nomatch h)⟩

theorem step_balanced {cfg : Config δ} {s : System δ} (h : Balanced s) {op : Op}
    (hkeep : NothingFreed cfg s op) : Balanced (s.step cfg op) := by
  cases op with
  | «open» n mode room stat =>
    obtain ⟨-, e, hopen⟩ | ⟨hleak, -⟩ | ⟨-, dev, e, he, hopen⟩ :=
      s.st.pipeOpen_cases cfg n mode room stat
    · simp only [System.step, hopen, Option.toList_none, List.append_nil]
      exact ⟨h.balance, h.dev_opened, h.pending_opened⟩
    · exact absurd hleak hkeep
    · simp only [System.step, hopen, Option.toList_some]
      refine ⟨?_, fun p dev' hp => ?_, fun p hp => ?_⟩
      · simp [Pipes.newPipe, h.balance]
      · rw [Pipes.triggerEvent_dev] at hp
        by_cases hnew : p = s.st.next
        · simp [hnew]
        · have hold : s.st.dev p = some dev' := (Function.update_of_ne hnew _ _).symm.trans hp
          exact List.mem_append_left _ (h.dev_opened p dev' hold)
      · have hcount := List.count_pos_iff.mpr hp
        rw [Pipes.triggerEvent_count (he p)] at hcount
        exact List.mem_append_left _ (h.pending_opened p (List.count_pos_iff.mp hcount))
  | close p =>
    obtain ⟨hheld, -, hdev, -⟩ := s.st.pipeClose_frame cfg p
    refine ⟨?_, fun q dev hq => ?_, fun q hq => ?_⟩
    · exact (congrArg List.length hheld).trans h.balance
    · exact h.dev_opened q dev ((congrFun hdev q).symm.trans hq)
    · have hcount := (List.count_pos_iff.mpr hq).trans_le (s.st.pipeClose_count cfg p q)
      by_cases hself : q = p ∧ (s.st.dev p).isSome
      · obtain ⟨dev, hsome⟩ := Option.isSome_iff_exists.mp hself.2
        rw [hself.1]
        exact h.dev_opened p dev hsome
      · rw [if_neg hself] at hcount
        exact h.pending_opened q (List.count_pos_iff.mp hcount)
  | trigger =>
    refine ⟨?_, fun q dev hq => ?_, fun q hq => ?_⟩
    · simpa [System.step] using h.balance
    · simp only [System.step, Pipes.triggerEvent_dev] at hq
      exact h.dev_opened q dev hq
    · have hcount := List.count_pos_iff.mpr hq
      simp only [System.step] at hcount
      rw [Pipes.triggerEvent_count (by simp)] at hcount
      exact h.pending_opened q (List.count_pos_iff.mp hcount)
  | handle =>
    show Balanced (s.handle cfg)
    unfold System.handle
    cases hevents : s.st.events with
    | nil => exact h
    | cons e es =>
      have hpending : ∀ p, .pipeReallyClosed p ∈ es → p ∈ s.opened := fun p hp =>
        h.pending_opened p (by rw [hevents]; exact List.mem_cons_of_mem _ hp)
      cases e with
      | pipeReallyClosed p => exact absurd (by rw [hevents]; rfl) (hkeep p)
      | _ => exact ⟨h.balance, h.dev_opened, hpending⟩

/-- Where the books balance, a step keeps them balanced only if nothing had to be
given back. -/
theorem conserved_iff {cfg : Config δ} {s : System δ} (h : Balanced s) (op : Op) :
    Conserved cfg s op ↔ NothingFreed cfg s op := by
  refine ⟨fun hcons => ?_, fun hkeep => (step_balanced h hkeep).balance⟩
  cases op with
  | «open» n mode room stat =>
    intro hleak
    obtain ⟨hno, -⟩ | ⟨-, e, hopen⟩ | ⟨hno, -⟩ := s.st.pipeOpen_cases cfg n mode room stat
    · exact hno hleak
    · -- a buffer more, and no pipe for it
      have hbalance := h.balance
      simp only [Conserved, System.step, hopen, Option.toList_none, List.append_nil,
        Pipes.newPipe, List.length_append, List.length_singleton] at hcons
      omega
    · exact hno hleak
  | close p => trivial
  | trigger => trivial
  | handle =>
    intro p hhead
    obtain ⟨es, hevents⟩ : ∃ es, s.st.events = .pipeReallyClosed p :: es := by
      cases hev : s.st.events with
      | nil => simp [hev] at hhead
      | cons e es =>
        rw [hev, List.head?_cons, Option.some_inj] at hhead
        exact ⟨es, by rw [hhead]⟩
    have hmem : p ∈ s.opened := h.pending_opened p (by rw [hevents]; exact List.mem_cons_self)
    -- a pipe less, and its buffer still held
    have hstep : (s.step cfg .handle).st.held = s.st.held ∧
        (s.step cfg .handle).opened = s.opened.erase p := by
      show (s.handle cfg).st.held = _ ∧ (s.handle cfg).opened = _
      unfold System.handle
      rw [hevents]
      cases hdev : s.st.dev p with
      | none => simp [hdev]
      | some dev => simp [hdev, Pipes.doFreePipe, System.recordFree, Pipes.freePipe]
    unfold Conserved at hcons
    have hbalance := h.balance
    have hlen := List.length_erase_of_mem hmem
    have hpos := List.length_pos_of_mem hmem
    rw [hstep.1, hstep.2] at hcons
    omega

/-- **Pipe structures are conserved** along a run exactly as long as none had to
be given back. -/
theorem pipes_conserved_iff (cfg : Config δ) (ops : List Op) :
    EachStep (System.step cfg) (Conserved cfg) System.start ops ↔
      EachStep (System.step cfg) (NothingFreed cfg) System.start ops :=
  eachStep_iff (fun _ op h => conserved_iff h op) (fun _ _ h hkeep => step_balanced h hkeep)
    start_balanced

/-- One device called "uart" without operations of its own. -/
def uartOnly : Config Unit where
  findDev n := if n = "uart" then some () else none
  hasOpen _ := false
  hasClose _ := true
  capacity := 15

/-- One pipe opened, closed, and its two close events handled after the one of
its opening: the buffer stays. -/
theorem pipe_closed_not_freed :
    ¬ EachStep (System.step uartOnly) (Conserved uartOnly) System.start
      [.open "uart" 1 true 0, .close 0, .handle, .handle, .handle] := by
  rintro ⟨-, -, -, -, hlast, -⟩
  unfold Conserved at hlast
  exact absurd hlast (by decide +kernel)

-- ---------------------------------------------------------------------------
-- Closing once
-- ---------------------------------------------------------------------------

/-- After the step: `do_free_pipe` has found a device each time, each pipe it was
called for has left its list once, and each list that became empty was followed
by one call of the close operation. -/
def ClosedOnce (cfg : Config δ) (s : System δ) (op : Op) : Prop :=
  (s.step cfg op).faulted = false ∧
    (∀ p, (s.step cfg op).left.count p = if p ∈ (s.step cfg op).handled then 1 else 0) ∧
    (s.step cfg op).closed = (s.step cfg op).emptied.filter cfg.hasClose

/-- A pipe is not closed while its `pipe_really_closed` event waits. -/
def NotPending (s : System δ) : Op → Prop
  | .close p => .pipeReallyClosed p ∉ s.st.events
  | _ => True

/-- The invariant behind it. A pipe has a device exactly while it is on that
device's list; it waits for at most one closing, and only then. -/
structure Inv (cfg : Config δ) (s : System δ) : Prop where
  faulted : s.faulted = false
  dev_iff : ∀ p dev, s.st.dev p = some dev ↔ p ∈ s.st.pipes dev
  nodup : ∀ dev, (s.st.pipes dev).Nodup
  once : ∀ p, s.st.events.count (.pipeReallyClosed p) ≤ if (s.st.dev p).isSome then 1 else 0
  dev_lt : ∀ p dev, s.st.dev p = some dev → p < s.st.next
  handled_lt : ∀ p ∈ s.handled, p < s.st.next ∧ s.st.dev p = none
  handled_nodup : s.handled.Nodup
  left : s.left = s.handled
  closed : s.closed = s.emptied.filter cfg.hasClose

omit [DecidableEq δ] in
theorem start_inv (cfg : Config δ) : Inv cfg System.start where
  faulted := rfl
  dev_iff := by simp [System.start]
  nodup := by simp [System.start]
  once := by simp [System.start]
  dev_lt := by simp [System.start]
  handled_lt := by simp [System.start]
  handled_nodup := List.nodup_nil
  left := rfl
  closed := rfl

omit [DecidableEq δ] in
/-- Devices and lists stay: what matters is that no pipe without a device starts
to wait. -/
theorem Inv.queue {cfg : Config δ} {s : System δ} (h : Inv cfg s) {st : Pipes δ}
    (hdev : st.dev = s.st.dev) (hpipes : st.pipes = s.st.pipes) (hnext : s.st.next ≤ st.next)
    (hevents : ∀ p, st.events.count (.pipeReallyClosed p) ≤ if (s.st.dev p).isSome then 1 else 0) :
    Inv cfg { s with st := st } where
  faulted := h.faulted
  dev_iff := by simpa only [hdev, hpipes] using h.dev_iff
  nodup := by simpa only [hpipes] using h.nodup
  once := by simpa only [hdev] using hevents
  dev_lt p dev hp := by
    rw [hdev] at hp
    exact (h.dev_lt p dev hp).trans_le hnext
  handled_lt p hp := by
    rw [hdev]
    exact ⟨(h.handled_lt p hp).1.trans_le hnext, (h.handled_lt p hp).2⟩
  handled_nodup := h.handled_nodup
  left := h.left
  closed := h.closed

/-- A new pipe: its number was never used before. -/
theorem Inv.open {cfg : Config δ} {s : System δ} (h : Inv cfg s) {dev : δ} {st : Pipes δ}
    {opened : List Nat} (hdev : st.dev = Function.update s.st.dev s.st.next (some dev))
    (hpipes : st.pipes = Function.update s.st.pipes dev (s.st.next :: s.st.pipes dev))
    (hnext : st.next = s.st.next + 1)
    (hevents : ∀ p, st.events.count (.pipeReallyClosed p) =
      s.st.events.count (.pipeReallyClosed p)) :
    Inv cfg { s with st := st, opened := opened } := by
  have hnew : ∀ dev', s.st.next ∉ s.st.pipes dev' := fun dev' hmem =>
    absurd (h.dev_lt _ _ ((h.dev_iff _ _).mpr hmem)) (lt_irrefl _)
  have hmem : ∀ p dev', p ∈ st.pipes dev' ↔ (p = s.st.next ∧ dev' = dev) ∨ p ∈ s.st.pipes dev' := by
    intro p dev'
    rw [hpipes]
    by_cases hd : dev' = dev
    · subst hd
      simp
    · simp [hd]
  have hget : ∀ p, st.dev p = if p = s.st.next then some dev else s.st.dev p := by
    intro p
    rw [hdev, Function.update_apply]
  refine ⟨h.faulted, fun p dev' => ?_, fun dev' => ?_, fun p => ?_, fun p dev' hp => ?_,
    fun p hp => ?_, h.handled_nodup, h.left, h.closed⟩
  · show st.dev p = some dev' ↔ p ∈ st.pipes dev'
    rw [hget, hmem]
    by_cases hp : p = s.st.next
    · subst hp
      simp [hnew, eq_comm]
    · simp [hp, h.dev_iff]
  · show (st.pipes dev').Nodup
    rw [hpipes]
    by_cases hd : dev' = dev
    · subst hd
      rw [Function.update_self]
      exact List.nodup_cons.mpr ⟨hnew dev', h.nodup dev'⟩
    · rw [Function.update_of_ne hd]
      exact h.nodup dev'
  · show st.events.count _ ≤ if (st.dev p).isSome then 1 else 0
    rw [hevents, hget]
    refine (h.once p).trans ?_
    by_cases hp : p = s.st.next
    · simp [hp]
      split <;> omega
    · simp [hp]
  · show p < st.next
    rw [hnext]
    have hp' : st.dev p = some dev' := hp
    rw [hget] at hp'
    by_cases hself : p = s.st.next
    · omega
    · rw [if_neg hself] at hp'
      exact (h.dev_lt p dev' hp').trans (Nat.lt_succ_self _)
  · show p < st.next ∧ st.dev p = none
    obtain ⟨hlt, hnone⟩ := h.handled_lt p hp
    rw [hnext, hget, if_neg hlt.ne]
    exact ⟨hlt.trans (Nat.lt_succ_self _), hnone⟩

omit [DecidableEq δ] in
theorem Inv.dev_next {cfg : Config δ} {s : System δ} (h : Inv cfg s) : s.st.dev s.st.next = none := by
  cases hdev : s.st.dev s.st.next with
  | none => rfl
  | some dev => exact absurd (h.dev_lt _ _ hdev) (lt_irrefl _)

/-- What `do_free_pipe` does to a pipe that is on its device's list. -/
theorem step_free {cfg : Config δ} {s : System δ} {p : Nat} {dev : δ} {es : List Event}
    (hevents : s.st.events = .pipeReallyClosed p :: es) (hdev : s.st.dev p = some dev)
    (hmem : p ∈ s.st.pipes dev) (hnodup : (s.st.pipes dev).Nodup) :
    s.step cfg .handle =
      { s with
        st := { s.st with
          events := es
          dev := Function.update s.st.dev p none
          pipes := Function.update s.st.pipes dev ((s.st.pipes dev).erase p) }
        opened := s.opened.erase p
        handled := s.handled ++ [p]
        left := s.left ++ [p]
        emptied := if (s.st.pipes dev).erase p = [] then s.emptied ++ [dev] else s.emptied
        closed :=
          if ((s.st.pipes dev).erase p).isEmpty && cfg.hasClose dev then s.closed ++ [dev]
          else s.closed } := by
  have hgone : p ∉ (s.st.pipes dev).erase p := hnodup.not_mem_erase
  have hne : s.st.pipes dev ≠ [] := List.ne_nil_of_mem hmem
  show s.handle cfg = _
  unfold System.handle
  rw [hevents]
  simp only [Pipes.doFreePipe, hdev, System.recordFree, Pipes.freePipe, Function.update_self,
    hmem, hgone, hne, not_false_eq_true, ne_eq, and_self, true_and, if_true]

/-- `do_free_pipe` on a pipe with a device, whose closing was the only one
waiting. -/
theorem Inv.free {cfg : Config δ} {s : System δ} (h : Inv cfg s) {p : Nat} {dev : δ}
    {es : List Event} (hevents : s.st.events = .pipeReallyClosed p :: es)
    (hdev : s.st.dev p = some dev) : Inv cfg (s.step cfg .handle) := by
  have hmem : p ∈ s.st.pipes dev := (h.dev_iff p dev).mp hdev
  have hgone : p ∉ (s.st.pipes dev).erase p := (h.nodup dev).not_mem_erase
  have hnew : p ∉ s.handled := fun hp => by
    rw [(h.handled_lt p hp).2] at hdev
    cases hdev
  rw [step_free hevents hdev hmem (h.nodup dev)]
  refine ⟨h.faulted, fun q dev' => ?_, fun dev' => ?_, fun q => ?_, fun q dev' hq => ?_,
    fun q hq => ?_, ?_, ?_, ?_⟩
  · show Function.update s.st.dev p none q = some dev' ↔
      q ∈ Function.update s.st.pipes dev ((s.st.pipes dev).erase p) dev'
    by_cases hq : q = p
    · subst hq
      rw [Function.update_self]
      by_cases hd : dev' = dev
      · subst hd
        simp [hgone]
      · rw [Function.update_of_ne hd, ← h.dev_iff, hdev]
        simp [Ne.symm hd]
    · rw [Function.update_of_ne hq, h.dev_iff]
      by_cases hd : dev' = dev
      · subst hd
        rw [Function.update_self, List.mem_erase_of_ne hq]
      · rw [Function.update_of_ne hd]
  · show (Function.update s.st.pipes dev ((s.st.pipes dev).erase p) dev').Nodup
    by_cases hd : dev' = dev
    · subst hd
      rw [Function.update_self]
      exact (h.nodup dev').erase p
    · rw [Function.update_of_ne hd]
      exact h.nodup dev'
  · show es.count _ ≤ if (Function.update s.st.dev p none q).isSome then 1 else 0
    have honce := h.once q
    rw [hevents, List.count_cons] at honce
    by_cases hq : q = p
    · subst hq
      simp only [hdev, Option.isSome_some, if_true, beq_self_eq_true] at honce
      omega
    · rw [Function.update_of_ne hq]
      exact le_trans (Nat.le_add_right _ _) honce
  · by_cases hself : q = p
    · rw [hself]
      exact h.dev_lt p dev hdev
    · exact h.dev_lt q dev' ((Function.update_of_ne hself _ _).symm.trans hq)
  · show q < s.st.next ∧ Function.update s.st.dev p none q = none
    rcases List.mem_append.mp hq with hold | hlast
    · obtain ⟨hlt, hnone⟩ := h.handled_lt q hold
      have hself : q ≠ p := fun heq => hnew (heq ▸ hold)
      rw [Function.update_of_ne hself]
      exact ⟨hlt, hnone⟩
    · rw [List.mem_singleton.mp hlast, Function.update_self]
      exact ⟨h.dev_lt p dev hdev, rfl⟩
  · exact List.nodup_append.mpr ⟨h.handled_nodup, List.nodup_singleton p, by
      rintro a ha b hb rfl
      exact hnew (List.mem_singleton.mp hb ▸ ha)⟩
  · show s.left ++ [p] = s.handled ++ [p]
    rw [h.left]
  · -- the close operation is called exactly when the list has become empty
    by_cases hempty : (s.st.pipes dev).erase p = []
    · by_cases hclose : cfg.hasClose dev = true <;> simp [hempty, hclose, h.closed]
    · simp [hempty, h.closed]

theorem step_inv {cfg : Config δ} {s : System δ} (h : Inv cfg s) {op : Op}
    (hop : NotPending s op) : Inv cfg (s.step cfg op) := by
  cases op with
  | «open» n mode room stat =>
    obtain ⟨-, e, hopen⟩ | ⟨-, e, hopen⟩ | ⟨-, dev, e, he, hopen⟩ :=
      s.st.pipeOpen_cases cfg n mode room stat
    · simp only [System.step, hopen, Option.toList_none, List.append_nil]
      exact h.queue rfl rfl le_rfl h.once
    · simp only [System.step, hopen, Option.toList_none, List.append_nil]
      refine h.queue ?_ rfl (Nat.le_succ _) h.once
      rw [← h.dev_next, Function.update_eq_self]
    · simp only [System.step, hopen, Option.toList_some]
      refine @Inv.open _ _ _ _ h dev _ _ ?_ ?_ ?_ fun p => ?_
      · rw [Pipes.triggerEvent_dev]
      · rw [Pipes.triggerEvent_pipes]
      · rw [Pipes.triggerEvent_next]
        rfl
      · exact Pipes.triggerEvent_count (he p)
  | close p =>
    obtain ⟨-, hnext, hdev, hpipes⟩ := s.st.pipeClose_frame cfg p
    refine h.queue hdev hpipes hnext.ge fun q => (s.st.pipeClose_count cfg p q).trans ?_
    by_cases hself : q = p ∧ (s.st.dev p).isSome
    · obtain ⟨rfl, hsome⟩ := hself
      rw [List.count_eq_zero.mpr hop, if_pos hsome, if_pos ⟨rfl, hsome⟩]
    · rw [if_neg hself]
      exact h.once q
  | trigger =>
    refine h.queue Pipes.triggerEvent_dev Pipes.triggerEvent_pipes Pipes.triggerEvent_next.ge
      fun q => ?_
    rw [Pipes.triggerEvent_count (by simp)]
    exact h.once q
  | handle =>
    cases hevents : s.st.events with
    | nil =>
      have hstep : s.step cfg .handle = s := by simp [System.step, System.handle, hevents]
      rw [hstep]
      exact h
    | cons e es =>
      have hcount : ∀ q, es.count (.pipeReallyClosed q) ≤ if (s.st.dev q).isSome then 1 else 0 := by
        intro q
        have honce := h.once q
        rw [hevents] at honce
        exact (List.count_le_count_cons).trans honce
      cases e with
      | pipeReallyClosed p =>
        -- the event waits, so its pipe has a device
        have honce := h.once p
        rw [hevents, List.count_cons_self] at honce
        cases hdev : s.st.dev p with
        | none => simp [hdev] at honce
        | some dev => exact h.free hevents hdev
      | _ =>
        simp only [System.step, System.handle, hevents]
        exact h.queue rfl rfl le_rfl hcount

/-- **Pipes are closed once** in every run that does not close a pipe whose close
event is still waiting. -/
theorem pipes_closed_once (cfg : Config δ) (ops : List Op)
    (hrun : EachStep (System.step cfg) NotPending System.start ops) :
    EachStep (System.step cfg) (ClosedOnce cfg) System.start ops := by
  refine EachStep.mono (fun s op (h : Inv cfg s) hop => step_inv h hop) (fun s op h hop => ?_)
    (start_inv cfg) hrun
  have hinv := step_inv h hop
  refine ⟨hinv.faulted, fun p => ?_, hinv.closed⟩
  rw [hinv.left]
  exact hinv.handled_nodup.count

/-- Two pipes closed one after the other, the first of them once more after its
events were handled. -/
theorem pipes_closed_once_uart :
    EachStep (System.step uartOnly) (ClosedOnce uartOnly) System.start
      [.open "uart" 1 true 0, .open "uart" 2 true 0, .close 0, .handle, .handle, .handle, .handle,
        .close 0, .close 1, .handle, .handle] := by
  refine pipes_closed_once uartOnly _ ⟨trivial, trivial, ?_, trivial, trivial, trivial, trivial, ?_,
    ?_, trivial, trivial, trivial⟩
  all_goals
    unfold NotPending
    decide +kernel

/-- The second of two closings before the events are handled finds no device. -/
theorem pipe_closed_twice :
    ¬ EachStep (System.step uartOnly) (ClosedOnce uartOnly) System.start
      [.open "uart" 1 true 0, .close 0, .close 0, .handle, .handle, .handle, .handle, .handle] := by
  rintro ⟨-, -, -, -, -, -, -, ⟨hfault, -⟩, -⟩
  exact absurd hfault (by decide +kernel)

end Bathos.Pipe
