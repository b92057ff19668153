import Mathlib.Logic.Relation
import Bathos.Include.Headers

/-!
# Bathos — the event queue

`lib/event.c`: `trigger_event`, `pending_regular_events` and
`handle_regular_events`, as a machine whose steps can be interleaved.

A call of `trigger_event` reserves a slot with interrupts disabled and fills it
with interrupts enabled. An interrupt can come between any two of these steps
and call `trigger_event` itself, so the calls under way form a stack: the last
one entered is the only one that moves. `handle_regular_events` runs in the main
loop; its own steps are possible only while no call of `trigger_event` is under
way, and a handler's calls of `trigger_event` come between two of its steps.

Next to the variables of the source the machine keeps its history: the events
whose slot was reserved, how many of them are completely handled, and the
handler calls made so far.
-/

namespace Bathos.Event

variable {Ev H D : Type}

-- ---------------------------------------------------------------------------
-- The queue
-- ---------------------------------------------------------------------------

/-- `struct pending_event`; `none` is a `NULL` event pointer. -/
structure PendingEvent (Ev D : Type) where
  event : Option Ev
  data : D

/-- `pe_head`, `pe_tail`, `pe_buffer_nevts` and `pe_buffer`. -/
structure Queue (Ev D : Type) where
  peHead : Nat
  peTail : Nat
  peBufferNevts : Nat
  peBuffer : Nat → PendingEvent Ev D

namespace Queue

/-- The critical section of `trigger_event`: the slot `h` it reserves, `none` when
it returns `-ENOMEM`. -/
def reserve (q : Queue Ev D) : Option (Nat × Queue Ev D) :=
  if circSpace q.peHead q.peTail q.peBufferNevts = 0 then none
  else some (q.peHead, { q with peHead := (q.peHead + 1) &&& (q.peBufferNevts - 1) })

/-- `pe->data = data`. -/
def setData (q : Queue Ev D) (h : Nat) (data : D) : Queue Ev D :=
  { q with peBuffer := Function.update q.peBuffer h { q.peBuffer h with data := data } }

/-- `pe->event = e`. -/
def setEvent (q : Queue Ev D) (h : Nat) (e : Ev) : Queue Ev D :=
  { q with peBuffer := Function.update q.peBuffer h { q.peBuffer h with event := some e } }

/-- `pending_regular_events`. -/
def pendingRegularEvents (q : Queue Ev D) : Nat := circCnt q.peHead q.peTail q.peBufferNevts

/-- `pe_tail = (pe_tail + 1) & (pe_buffer_nevts - 1)`. -/
def advanceTail (q : Queue Ev D) : Queue Ev D :=
  { q with peTail := (q.peTail + 1) &&& (q.peBufferNevts - 1) }

end Queue

-- ---------------------------------------------------------------------------
-- The machine
-- ---------------------------------------------------------------------------

/-- The declared events: the handlers of each one, between `handlers_start` and
`handlers_end`, and whether a handler has a `handle` operation. -/
structure Events (Ev H : Type) where
  handlers : Ev → List H
  hasHandle : H → Bool

/-- How far a call of `trigger_event` has come after its critical section. -/
inductive Stage where
  | reserved
  | dataSet
  | eventSet
deriving DecidableEq, Repr

/-- A call of `trigger_event` under way. `index` is the number of its event in
the history. -/
structure Frame (Ev D : Type) where
  slot : Nat
  event : Ev
  data : D
  stage : Stage
  index : Nat

/-- Where `handle_regular_events` is: not called, at the head of its loop with
`rem` turns to go, or between two handlers of an event. -/
inductive Phase (Ev H : Type) where
  | idle
  | looping (rem : Nat)
  | handling (rem : Nat) (e : Ev) (todo : List H)

structure State (Ev H D : Type) where
  queue : Queue Ev D
  frames : List (Frame Ev D)
  phase : Phase Ev H
  -- history: events in the order of their slots, how many are handled, how many
  -- there were when `handle_regular_events` was last called, handler calls
  accepted : List (Ev × D)
  completed : Nat
  target : Nat
  delivered : List (H × Ev × D)

namespace State

/-- After `events_init`: an empty queue of `nevts` slots. -/
def init (nevts : Nat) (buffer : Nat → PendingEvent Ev D) : State Ev H D where
  queue := ⟨0, 0, nevts, buffer⟩
  frames := []
  phase := .idle
  accepted := []
  completed := 0
  target := 0
  delivered := []

/-- `trigger_event(e, data)` up to the end of its critical section, with the value
the call returns. -/
def trigger (s : State Ev H D) (e : Ev) (data : D) : Int × State Ev H D :=
  match s.queue.reserve with
  | none => (-ENOMEM, s)
  | some (h, q) =>
    (0, { s with
      queue := q
      frames := ⟨h, e, data, .reserved, s.accepted.length⟩ :: s.frames
      accepted := s.accepted ++ [(e, data)] })

/-- The next step of the innermost call of `trigger_event`. -/
def advance (s : State Ev H D) : State Ev H D :=
  match s.frames with
  | [] => s
  | f :: fs =>
    match f.stage with
    | .reserved =>
      { s with queue := s.queue.setData f.slot f.data, frames := { f with stage := .dataSet } :: fs }
    | .dataSet =>
      { s with queue := s.queue.setEvent f.slot f.event, frames := { f with stage := .eventSet } :: fs }
    | .eventSet =>
      -- `events_notify`, return 0
      { s with frames := fs }

/-- What could go wrong in `handle_regular_events`: a slot that was never filled. -/
inductive Fault where
  | nullEvent
deriving DecidableEq, Repr

/-- The next step of `handle_regular_events`, or its call from the main loop. -/
def consume (evs : Events Ev H) (s : State Ev H D) : Except Fault (State Ev H D) :=
  match s.phase with
  | .idle =>
    .ok { s with phase := .looping s.queue.pendingRegularEvents, target := s.accepted.length }
  | .looping 0 => .ok { s with phase := .idle }
  | .looping (rem + 1) =>
    match (s.queue.peBuffer s.queue.peTail).event with
    | none => .error .nullEvent
    | some e => .ok { s with phase := .handling rem e (evs.handlers e) }
  | .handling rem e (d :: todo) =>
    .ok { s with
      phase := .handling rem e todo
      delivered :=
        if evs.hasHandle d then
          s.delivered ++ [(d, e, (s.queue.peBuffer s.queue.peTail).data)]
        else s.delivered }
  | .handling rem _ [] =>
    .ok { s with
      queue := s.queue.advanceTail
      phase := .looping rem
      completed := s.completed + 1 }

/-- One step of the system. Main-loop code moves only while no call of
`trigger_event` is under way. -/
inductive Step (evs : Events Ev H) : State Ev H D → State Ev H D → Prop
  | trigger {s : State Ev H D} (e : Ev) (data : D) : Step evs s (s.trigger e data).2
  | advance {s : State Ev H D} : Step evs s s.advance
  | consume {s s' : State Ev H D} (hframes : s.frames = []) (hok : s.consume evs = .ok s') :
      Step evs s s'

/-- States reached from `s` in any number of steps. -/
def Reaches (evs : Events Ev H) : State Ev H D → State Ev H D → Prop :=
  Relation.ReflTransGen (Step evs)

end State

-- ---------------------------------------------------------------------------
-- What a run has to deliver
-- ---------------------------------------------------------------------------

/-- The calls made for an event by the handlers of a list. -/
def deliverTo (evs : Events Ev H) (e : Ev) (data : D) (hs : List H) : List (H × Ev × D) :=
  (hs.filter evs.hasHandle).map fun d => (d, e, data)

/-- The calls due for a list of accepted events: each event once to each of its
handlers that has a `handle` operation. -/
def deliverAll (evs : Events Ev H) (accepted : List (Ev × D)) : List (H × Ev × D) :=
  accepted.flatMap fun p => deliverTo evs p.1 p.2 (evs.handlers p.1)

end Bathos.Event
