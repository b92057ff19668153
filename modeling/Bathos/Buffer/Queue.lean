import Bathos.Include.Headers
import Bathos.Lib.Run

/-!
# Bathos — buffer queues

`lib/buffer_queue.c`, `lib/buffer_queue_server.c` and the descriptors of
`include/bathos/buffer.h`. A server owns a number of buffers; a client takes a
free one, fills it and puts it, which triggers the `setup` event; the server
processes it and triggers `processed`; the client reads it and puts it once
more, which is to trigger `done`, and the server takes it back.

The first half of the cycle is prepared by `bathos_bqueue_get_buf`, which sets
the release event to `setup` and the users counter to 1. Nothing prepares the
second half: `bathos_bqueue_server_buf_processed` triggers the event and leaves
counter and release event alone, and it does not look whether there is an event
to trigger.

Main result: `cycle_iff` — the protocol is followed exactly in the runs in which
no `processed` event reaches the client, `bathos_bqueue_server_buf_processed` is
not called on a queue without one, and the memory of the counters was zero.
-/

namespace Bathos.Buffer

open Bathos.Lib

-- ---------------------------------------------------------------------------
-- buffer.h
-- ---------------------------------------------------------------------------

/-- `enum buffer_dir`. -/
inductive BufferDir where
  | any
  | out
  | inp
deriving DecidableEq, Repr

/-- `enum bathos_buffer_op_type`; `invalid` is any other value. -/
inductive BufferOpType where
  | none
  | send
  | recv
  | bidir
  | invalid
deriving DecidableEq, Repr

/-- `enum bathos_buffer_op_address_type`. -/
inductive AddressType where
  | dontcare
  | localMemoryNoinc
  | localMemoryInc
  | remoteMac
  | spim
  | spis
deriving DecidableEq, Repr

-- ---------------------------------------------------------------------------
-- The queue
-- ---------------------------------------------------------------------------

/-- An event in the event queue with its data. `null b` is an event triggered
through a `NULL` pointer. -/
inductive Ev where
  | available
  | setup (b : Nat)
  | processed (b : Nat)
  | done (b : Nat)
  | null (b : Nat)
deriving DecidableEq, Repr

/-- What a `release_event` pointer can point to. -/
inductive Release where
  | setup
  | done
deriving DecidableEq, Repr

def Release.event : Release → Nat → Ev
  | .setup, b => .setup b
  | .done, b => .done b

/-- `struct bathos_bqueue_data`, the fields `users` and `release_event` of its
buffers, and the pending events. `availableEvent` and `processedEvent` say that
the pointers are not `NULL`. -/
structure Bqueue where
  stopped : Bool
  availableEvent : Bool
  processedEvent : Bool
  freeBufs : List Nat
  busyBufs : List Nat
  users : Nat → Int
  releaseEvent : Nat → Option Release
  events : List Ev

namespace Bqueue

/-- `trigger_event`. It fails on an event queue without room, and nobody looks at what it
returns: the event queue is taken to have room. -/
def triggerEvent (e : Ev) (q : Bqueue) : Bqueue := { q with events := q.events ++ [e] }

/-- `bathos_bqueue_server_init`: the status, and the queue. `room` says whether
the allocator has memory for the operations, `users` and `releaseEvent` what that
memory holds. -/
def serverInit (nbufs : Int) (room : Bool) (users : Nat → Int) (releaseEvent : Nat → Option Release) :
    Int × Bqueue :=
  let q : Bqueue :=
    { stopped := false, availableEvent := false, processedEvent := false, freeBufs := [],
      busyBufs := [], users := users, releaseEvent := releaseEvent, events := [] }
  if nbufs = 0 then (0, q)
  else if nbufs < 0 then (-EINVAL, q)
  else if !room then (-ENOMEM, q)
  -- each buffer is added at the front
  else (0, { q with freeBufs := (List.range nbufs.toNat).reverse })

/-- `bathos_bqueue_client_init`. -/
def clientInit (available processed : Bool) (q : Bqueue) : Bqueue :=
  { q with stopped := true, availableEvent := available, processedEvent := processed }

/-- `bathos_bqueue_start`. -/
def start (q : Bqueue) : Bqueue :=
  let q := if q.availableEvent then q.triggerEvent .available else q
  { q with stopped := false }

/-- `bathos_bqueue_stop`. -/
def stop (q : Bqueue) : Bqueue := { q with stopped := true }

/-- `bdescr_get`. -/
def bdescrGet (b : Nat) (q : Bqueue) : Bqueue :=
  { q with users := Function.update q.users b (q.users b + 1) }

/-- `bdescr_put`. -/
def bdescrPut (b : Nat) (q : Bqueue) : Bqueue :=
  let q := { q with users := Function.update q.users b (q.users b - 1) }
  if q.users b ≠ 0 then q
  else
    match q.releaseEvent b with
    | none => q
    | some r => q.triggerEvent (r.event b)

/-- `bathos_bqueue_get_buf`. -/
def getBuf (q : Bqueue) : Option Nat × Bqueue :=
  if q.stopped then (none, q)
  else
    match q.freeBufs with
    | [] => (none, q)
    | b :: rest =>
      let q := { q with freeBufs := rest, busyBufs := b :: q.busyBufs }
      let q := { q with releaseEvent := Function.update q.releaseEvent b (some .setup) }
      (some b, q.bdescrGet b)

/-- `bathos_bqueue_server_buf_done`. -/
def serverBufDone (b : Nat) (q : Bqueue) : Bqueue :=
  let freeListWasEmpty := q.freeBufs.isEmpty
  let q := { q with freeBufs := b :: q.freeBufs.erase b, busyBufs := q.busyBufs.erase b }
  if q.availableEvent && freeListWasEmpty then q.triggerEvent .available else q

/-- `bathos_bqueue_server_buf_processed`. -/
def serverBufProcessed (b : Nat) (q : Bqueue) : Bqueue :=
  q.triggerEvent (if q.processedEvent then .processed b else .null b)

/-- The buffers of the `processed` events, in the order they were triggered. -/
def processedBufs (q : Bqueue) : List Nat :=
  q.events.filterMap fun e => match e with
    | .processed b => some b
    | _ => none

/-- Giving a buffer back triggers an `available` event at most. -/
theorem serverBufDone_processed (q : Bqueue) (b : Nat) :
    (q.serverBufDone b).processedEvent = q.processedEvent ∧
      (q.serverBufDone b).processedBufs = q.processedBufs := by
  unfold serverBufDone
  simp only
  split
  · refine ⟨rfl, ?_⟩
    unfold processedBufs triggerEvent
    rw [List.filterMap_append]
    exact List.append_nil _
  · exact ⟨rfl, rfl⟩

theorem serverBufProcessed_processed {q : Bqueue} (b : Nat) (h : q.processedEvent = true) :
    (q.serverBufProcessed b).processedEvent = true ∧
      (q.serverBufProcessed b).processedBufs = q.processedBufs ++ [b] := by
  refine ⟨h, ?_⟩
  unfold serverBufProcessed processedBufs triggerEvent
  rw [if_pos h, List.filterMap_append]
  rfl

end Bqueue

-- ---------------------------------------------------------------------------
-- The protocol
-- ---------------------------------------------------------------------------

/-- Where a buffer is on its way round: free, filled by the client, in a `setup`
event, with the server, in a `processed` event, read by the client, in a `done`
event. -/
inductive Phase where
  | absent
  | free
  | filling
  | setup
  | serving
  | processed
  | reading
  | done
deriving DecidableEq, Repr

/-- The two sides' moves. The client gets a buffer and puts the ones it holds;
the server says that a buffer it was given is processed; an event is delivered. -/
inductive Op where
  | start
  | stop
  | get
  | put (b : Nat)
  | serverProcessed (b : Nat)
  | deliver
deriving DecidableEq, Repr

structure System where
  q : Bqueue
  phase : Nat → Phase

namespace System

/-- A buffer moves on to another phase. -/
def move (b : Nat) (ph : Phase) (s : System) : System :=
  { s with phase := Function.update s.phase b ph }

/-- The event at the head of the queue reaches its side; on `done` the server
calls `bathos_bqueue_server_buf_done`. -/
def deliver (s : System) : System :=
  match s.q.events with
  | [] => s
  | e :: es =>
    let s := { s with q := { s.q with events := es } }
    match e with
    | .setup b => s.move b .serving
    | .processed b => s.move b .reading
    | .done b => { s with q := s.q.serverBufDone b }.move b .free
    | .available => s
    | .null _ => s

/-- A move that is not the side's to make is skipped. -/
def step (s : System) : Op → System
  | .start => { s with q := s.q.start }
  | .stop => { s with q := s.q.stop }
  | .get =>
    match s.q.getBuf with
    | (none, q) => { s with q := q }
    | (some b, q) => { s with q := q }.move b .filling
  | .put b =>
    match s.phase b with
    | .filling => { s with q := s.q.bdescrPut b }.move b .setup
    | .reading => { s with q := s.q.bdescrPut b }.move b .done
    | _ => s
  | .serverProcessed b =>
    if s.phase b = .serving then
      { s with q := s.q.serverBufProcessed b }.move b
        (if s.q.processedEvent then .processed else .free)
    else s
  | .deliver => s.deliver

/-- Both sides have initialised the queue. -/
def initial (nbufs : Int) (room : Bool) (users : Nat → Int) (releaseEvent : Nat → Option Release)
    (available processed : Bool) : System :=
  let q := (Bqueue.serverInit nbufs room users releaseEvent).2.clientInit available processed
  { q := q, phase := fun b => if b ∈ q.freeBufs then .free else .absent }

end System

/-- The phase in which an event about a buffer is under way. -/
def Ev.phase? : Ev → Option (Nat × Phase)
  | .setup b => some (b, .setup)
  | .processed b => some (b, .processed)
  | .done b => some (b, .done)
  | .available => none
  | .null _ => none

/-- The events under way are those of the phases, one each. -/
def EventsMatch (events : List Ev) (phase : Nat → Phase) : Prop :=
  ∀ e b ph, e.phase? = some (b, ph) → events.count e = if phase b = ph then 1 else 0

/-- The state of the queue is that of the protocol: a counter is 1 while the
client holds the buffer and 0 otherwise, the free list holds the free buffers,
each event is under way once in its phase, and none is `NULL`. -/
structure CycleOk (s : System) : Prop where
  users : ∀ b, s.phase b ≠ .absent →
    s.q.users b = if s.phase b = .filling ∨ s.phase b = .reading then 1 else 0
  free : ∀ b, s.q.freeBufs.count b = if s.phase b = .free then 1 else 0
  events : EventsMatch s.q.events s.phase
  null : ∀ b, .null b ∉ s.q.events

/-- The step keeps to the protocol; a buffer processed without an event for it
makes one available. -/
def StepOk (s : System) (op : Op) : Prop :=
  CycleOk (s.step op) ∧
    ∀ b, op = .serverProcessed b → s.phase b = .serving → s.q.processedEvent = false →
      s.q.availableEvent = true → (s.step op).q.events = s.q.events ++ [.available]

/-- The condition on a step. -/
def NotReturned (s : System) : Op → Prop
  | .serverProcessed b => s.phase b = .serving → s.q.processedEvent = true
  | .deliver => ∀ b, s.q.events.head? ≠ some (.processed b)
  | _ => True

-- ---------------------------------------------------------------------------
-- One step
-- ---------------------------------------------------------------------------

/-- The invariant of the runs that meet the condition: no buffer gets past its
`processed` event. -/
structure Inv (s : System) : Prop extends CycleOk s where
  half : ∀ b, s.phase b ≠ .reading ∧ s.phase b ≠ .done
  release : ∀ b, s.phase b = .filling → s.q.releaseEvent b = some .setup

/-- One buffer moves on, together with its events. -/
theorem EventsMatch.move {events events' : List Ev} {phase : Nat → Phase} {b : Nat} {old new : Phase}
    (h : EventsMatch events phase) (hold : phase b = old)
    (hmove : ∀ e c ph, e.phase? = some (c, ph) →
      events'.count e + (if c = b ∧ old = ph then 1 else 0) =
        events.count e + (if c = b ∧ new = ph then 1 else 0)) :
    EventsMatch events' (Function.update phase b new) := by
  intro e c ph he
  have hcount := h e c ph he
  have hdiff := hmove e c ph he
  by_cases hc : c = b
  · subst hc
    rw [hold] at hcount
    rw [Function.update_self]
    simp only [true_and] at hdiff
    omega
  · rw [Function.update_of_ne hc]
    simp only [hc, false_and, if_false, Nat.add_zero] at hdiff
    omega

theorem Ev.phase?_eq {e e' : Ev} {x : Nat × Phase} (he : e.phase? = some x) (he' : e'.phase? = some x) :
    e = e' := by
  cases e <;> cases he <;> cases e' <;> cases he' <;> rfl

/-- An event is counted once in the list made of it alone. -/
theorem count_singleton_phase {e e' : Ev} {b c : Nat} {ph ph' : Phase}
    (he : e.phase? = some (c, ph)) (he' : e'.phase? = some (b, ph')) :
    [e'].count e = if c = b ∧ ph' = ph then 1 else 0 := by
  by_cases heq : e' = e
  · subst heq
    rw [he] at he'
    cases he'
    simp
  · have hne : ¬ (c = b ∧ ph' = ph) := by
      rintro ⟨rfl, rfl⟩
      exact heq (Ev.phase?_eq he' he)
    rw [List.count_singleton, if_neg hne, beq_eq_false_iff_ne.mpr heq]
    rfl

theorem count_available {e : Ev} {x : Nat × Phase} (he : e.phase? = some x) :
    [Ev.available].count e = 0 := by
  cases e <;> simp_all [Ev.phase?]

/-- The `available` event belongs to no buffer. -/
theorem EventsMatch.available {events : List Ev} {phase : Nat → Phase} (h : EventsMatch events phase) :
    EventsMatch (events ++ [.available]) phase := by
  intro e b ph he
  rw [List.count_append, count_available he]
  exact h e b ph he

theorem Inv.start {s : System} (h : Inv s) : Inv (s.step .start) := by
  have hstart : (s.step .start).q.users = s.q.users ∧ (s.step .start).q.freeBufs = s.q.freeBufs ∧
      (s.step .start).q.releaseEvent = s.q.releaseEvent ∧ (s.step .start).phase = s.phase ∧
      ((s.step .start).q.events = s.q.events ∨
        (s.step .start).q.events = s.q.events ++ [.available]) := by
    unfold System.step Bqueue.start
    cases s.q.availableEvent <;> simp [Bqueue.triggerEvent]
  obtain ⟨husers, hfree, hrelease, hphase, hevents⟩ := hstart
  refine { users := ?_, free := ?_, events := ?_, null := ?_, half := ?_, release := ?_ }
  · rw [husers, hphase]
    exact h.users
  · rw [hfree, hphase]
    exact h.free
  · rw [hphase]
    rcases hevents with hev | hev
    · rw [hev]
      exact h.events
    · rw [hev]
      exact h.events.available
  · intro b
    rcases hevents with hev | hev
    · rw [hev]
      exact h.null b
    · rw [hev]
      simpa using h.null b
  · rw [hphase]
    exact h.half
  · rw [hrelease, hphase]
    exact h.release

@[simp] theorem System.move_q (s : System) (b : Nat) (ph : Phase) : (s.move b ph).q = s.q := rfl

/-- A buffer other than the one that moves keeps its phase. -/
theorem System.move_phase (s : System) (b c : Nat) (ph : Phase) :
    (s.move b ph).phase c = if c = b then ph else s.phase c := by
  unfold System.move
  exact Function.update_apply _ _ _ _

/-- `bathos_bqueue_get_buf` hands out the first free buffer. -/
theorem Inv.get {s : System} (h : Inv s) : Inv (s.step .get) := by
  by_cases hstop : s.q.stopped = true
  · have hstep : s.step .get = s := by
      simp [System.step, Bqueue.getBuf, hstop]
    rw [hstep]
    exact h
  cases hlist : s.q.freeBufs with
  | nil =>
    have hstep : s.step .get = s := by
      simp [System.step, Bqueue.getBuf, hlist]
    rw [hstep]
    exact h
  | cons b rest =>
    have hstep : s.step .get = System.move b .filling
        { s with q := { s.q with
            freeBufs := rest
            busyBufs := b :: s.q.busyBufs
            releaseEvent := Function.update s.q.releaseEvent b (some .setup)
            users := Function.update s.q.users b (s.q.users b + 1) } } := by
      simp [System.step, Bqueue.getBuf, hstop, hlist, Bqueue.bdescrGet]
    rw [hstep]
    have hcount := h.free b
    rw [hlist, List.count_cons_self] at hcount
    have hfree : s.phase b = .free := by
      by_contra hne
      rw [if_neg hne] at hcount
      omega
    have husers : s.q.users b = 0 := by
      rw [h.users b (by simp [hfree]), hfree]
      decide
    refine { users := fun c hc => ?_, free := fun c => ?_, events := ?_, null := h.null,
             half := fun c => ?_, release := fun c hc => ?_ }
    · rw [System.move_phase] at hc ⊢
      by_cases hcb : c = b
      · subst hcb
        simp [System.move, husers]
      · rw [if_neg hcb] at hc ⊢
        simp only [System.move, Function.update_of_ne hcb]
        exact h.users c hc
    · rw [System.move_phase]
      show rest.count c = _
      have hcount' := h.free c
      rw [hlist, List.count_cons] at hcount'
      by_cases hcb : c = b
      · subst hcb
        simp only [hfree, beq_self_eq_true, if_true] at hcount'
        simp only [if_true, reduceCtorEq, if_false]
        omega
      · rw [if_neg hcb, ← hcount']
        simp [Ne.symm hcb]
    · refine h.events.move hfree fun e c ph he => ?_
      cases e <;> cases he <;> simp
    · rw [System.move_phase]
      by_cases hcb : c = b
      · simp [hcb]
      · rw [if_neg hcb]
        exact h.half c
    · rw [System.move_phase] at hc
      by_cases hcb : c = b
      · subst hcb
        simp [System.move]
      · rw [if_neg hcb] at hc
        simp only [System.move, Function.update_of_ne hcb]
        exact h.release c hc

/-- A move of buffer `b` that leaves the free list and the release events alone,
between two phases in which the buffer is not free. -/
theorem Inv.pass {s : System} (h : Inv s) {b : Nat} {old new : Phase} {q : Bqueue}
    (hold : s.phase b = old) (hne : old ≠ .free ∧ old ≠ .absent)
    (hnew : new = .setup ∨ new = .serving ∨ new = .processed)
    (husers : q.users = Function.update s.q.users b 0) (hfree : q.freeBufs = s.q.freeBufs)
    (hrelease : q.releaseEvent = s.q.releaseEvent)
    (hevents : ∀ e c ph, e.phase? = some (c, ph) →
      q.events.count e + (if c = b ∧ old = ph then 1 else 0) =
        s.q.events.count e + (if c = b ∧ new = ph then 1 else 0))
    (hnull : ∀ c, .null c ∉ q.events) : Inv ({ s with q := q }.move b new) := by
  refine { users := fun c hc => ?_, free := fun c => ?_, events := ?_, null := hnull,
           half := fun c => ?_, release := fun c hc => ?_ }
  · rw [System.move_phase] at hc ⊢
    show q.users c = _
    rw [husers]
    by_cases hcb : c = b
    · subst hcb
      rcases hnew with rfl | rfl | rfl <;> simp
    · rw [if_neg hcb] at hc ⊢
      rw [Function.update_of_ne hcb]
      exact h.users c hc
  · rw [System.move_phase]
    show q.freeBufs.count c = _
    rw [hfree, h.free c]
    by_cases hcb : c = b
    · subst hcb
      rcases hnew with rfl | rfl | rfl <;> simp [hold, hne.1]
    · rw [if_neg hcb]
  · exact h.events.move hold hevents
  · rw [System.move_phase]
    by_cases hcb : c = b
    · rcases hnew with rfl | rfl | rfl <;> simp [hcb]
    · rw [if_neg hcb]
      exact h.half c
  · rw [System.move_phase] at hc
    show q.releaseEvent c = _
    rw [hrelease]
    by_cases hcb : c = b
    · rcases hnew with rfl | rfl | rfl <;> simp [hcb] at hc
    · rw [if_neg hcb] at hc
      exact h.release c hc

theorem Inv.users_zero {s : System} (h : Inv s) {b : Nat} {ph : Phase} (hph : s.phase b = ph)
    (hne : ph ≠ .absent ∧ ph ≠ .filling) : s.q.users = Function.update s.q.users b 0 := by
  have hzero : s.q.users b = 0 := by
    rw [h.users b (hph ▸ hne.1), if_neg]
    rintro (hf | hr)
    · exact hne.2 (hph ▸ hf)
    · exact (h.half b).1 hr
  rw [← hzero, Function.update_eq_self]

/-- The first put of the client triggers the `setup` event. -/
theorem Inv.put {s : System} (h : Inv s) (b : Nat) : Inv (s.step (.put b)) := by
  by_cases hphase : s.phase b = .filling
  · have husers : s.q.users b = 1 := by
      rw [h.users b (by simp [hphase]), hphase]
      decide
    have hstep : s.step (.put b) = System.move b .setup
        { s with q := { s.q with
            users := Function.update s.q.users b 0
            events := s.q.events ++ [.setup b] } } := by
      simp [System.step, hphase, Bqueue.bdescrPut, husers, h.release b hphase,
        Bqueue.triggerEvent, Release.event]
    rw [hstep]
    refine h.pass hphase (by decide) (Or.inl rfl) rfl rfl rfl (fun e c ph he => ?_) fun c => ?_
    · simp only
      rw [List.count_append, count_singleton_phase he rfl]
      cases e <;> cases he <;> simp
    · simpa using h.null c
  · have hstep : s.step (.put b) = s := by
      have hreading := (h.half b).1
      unfold System.step
      cases hph : s.phase b <;> simp_all
    rw [hstep]
    exact h

/-- The server hands the buffer back, if there is an event to do it with. -/
theorem Inv.serverProcessed {s : System} (h : Inv s) (b : Nat)
    (hevent : s.phase b = .serving → s.q.processedEvent = true) :
    Inv (s.step (.serverProcessed b)) := by
  by_cases hphase : s.phase b = .serving
  · have hstep : s.step (.serverProcessed b) = System.move b .processed
        { s with q := { s.q with events := s.q.events ++ [.processed b] } } := by
      simp [System.step, hphase, hevent hphase, Bqueue.serverBufProcessed, Bqueue.triggerEvent]
    rw [hstep]
    refine h.pass hphase (by decide) (Or.inr (Or.inr rfl)) (h.users_zero hphase (by decide)) rfl rfl
      (fun e c ph he => ?_) fun c => ?_
    · simp only
      rw [List.count_append, count_singleton_phase he rfl]
      cases e <;> cases he <;> simp
    · simpa using h.null c
  · have hstep : s.step (.serverProcessed b) = s := by simp [System.step, hphase]
    rw [hstep]
    exact h

/-- The event of a phase is under way only in that phase. -/
theorem Inv.phase_of_mem {s : System} (h : Inv s) {e : Ev} {b : Nat} {ph : Phase}
    (he : e.phase? = some (b, ph)) (hmem : e ∈ s.q.events) : s.phase b = ph := by
  by_contra hne
  have hcount := h.events e b ph he
  rw [if_neg hne] at hcount
  exact absurd (List.count_pos_iff.mpr hmem) (by omega)

theorem Inv.deliver {s : System} (h : Inv s) (hevent : ∀ b, s.q.events.head? ≠ some (.processed b)) :
    Inv (s.step .deliver) := by
  show Inv s.deliver
  unfold System.deliver
  cases hevents : s.q.events with
  | nil => exact h
  | cons e es =>
    have hmem : e ∈ s.q.events := by
      rw [hevents]
      exact List.mem_cons_self
    have hnull : ∀ c, .null c ∉ es := fun c hc =>
      h.null c (by rw [hevents]; exact List.mem_cons_of_mem _ hc)
    cases e with
    | available =>
      refine { users := h.users, free := h.free, events := fun e c ph he => ?_, null := hnull,
               half := h.half, release := h.release }
      have hcount := h.events e c ph he
      rw [hevents, List.count_cons] at hcount
      cases e <;> cases he <;> simpa using hcount
    | setup b =>
      have hphase : s.phase b = .setup := h.phase_of_mem rfl hmem
      refine h.pass hphase (by decide) (Or.inr (Or.inl rfl)) (h.users_zero hphase (by decide)) rfl rfl
        (fun e c ph he => ?_) hnull
      simp only
      rw [hevents, ← List.singleton_append, List.count_append, count_singleton_phase he rfl]
      cases e <;> cases he <;> simp [Nat.add_comm]
    | processed b => exact absurd (by rw [hevents]; rfl) (hevent b)
    | done b => exact absurd (h.phase_of_mem rfl hmem) (h.half b).2
    | null b => exact absurd hmem (h.null b)

theorem step_inv {s : System} (h : Inv s) {op : Op} (hop : NotReturned s op) : Inv (s.step op) := by
  cases op with
  | start => exact h.start
  | stop =>
    exact { users := h.users, free := h.free, events := h.events, null := h.null, half := h.half,
            release := h.release }
  | get => exact h.get
  | put b => exact h.put b
  | serverProcessed b => exact h.serverProcessed b hop
  | deliver => exact h.deliver hop

/-- Where the invariant holds, a step keeps to the protocol exactly under the
condition. -/
theorem stepOk_iff {s : System} (h : Inv s) (op : Op) : StepOk s op ↔ NotReturned s op := by
  refine ⟨fun hok => ?_, fun hop => ⟨(step_inv h hop).toCycleOk, fun b hb hserving hno => ?_⟩⟩
  · cases op with
    | serverProcessed b =>
      intro hserving
      by_contra hno
      -- the event is triggered through a null pointer
      refine hok.1.null b ?_
      simp [System.step, hserving, hno, Bqueue.serverBufProcessed, Bqueue.triggerEvent]
    | deliver =>
      intro b hhead
      obtain ⟨es, hevents⟩ : ∃ es, s.q.events = .processed b :: es := by
        cases hev : s.q.events with
        | nil => simp [hev] at hhead
        | cons e es =>
          rw [hev, List.head?_cons, Option.some_inj] at hhead
          exact ⟨es, by rw [hhead]⟩
      -- the client holds the buffer, but its counter is still zero
      have hphase : s.phase b = .processed :=
        h.phase_of_mem rfl (by rw [hevents]; exact List.mem_cons_self)
      have husers : s.q.users b = 0 := by
        rw [h.users b (by simp [hphase]), hphase]
        decide
      have hstep : s.step .deliver =
          System.move b .reading { s with q := { s.q with events := es } } := by
        simp [System.step, System.deliver, hevents]
      have hbad := hok.1.users b (by simp [hstep, System.move_phase])
      rw [hstep, System.move_phase] at hbad
      simp [husers] at hbad
    | _ => trivial
  · subst hb
    rw [hop hserving] at hno
    cases hno

-- ---------------------------------------------------------------------------
-- Runs
-- ---------------------------------------------------------------------------

theorem serverInit_users (nbufs : Int) (room : Bool) (users : Nat → Int)
    (releaseEvent : Nat → Option Release) :
    (Bqueue.serverInit nbufs room users releaseEvent).2.users = users ∧
      (Bqueue.serverInit nbufs room users releaseEvent).2.events = [] ∧
      (Bqueue.serverInit nbufs room users releaseEvent).2.freeBufs.Nodup := by
  unfold Bqueue.serverInit
  simp only
  split_ifs
  · exact ⟨rfl, rfl, List.nodup_nil⟩
  · exact ⟨rfl, rfl, List.nodup_nil⟩
  · exact ⟨rfl, rfl, List.nodup_nil⟩
  · exact ⟨rfl, rfl, List.nodup_reverse.mpr List.nodup_range⟩

/-- The initialised queue, but for the memory of the counters. -/
theorem initial_iff (nbufs : Int) (room : Bool) (users : Nat → Int)
    (releaseEvent : Nat → Option Release) (available processed : Bool) :
    (CycleOk (System.initial nbufs room users releaseEvent available processed) ↔
      ∀ b ∈ (Bqueue.serverInit nbufs room users releaseEvent).2.freeBufs, users b = 0) ∧
    (CycleOk (System.initial nbufs room users releaseEvent available processed) →
      Inv (System.initial nbufs room users releaseEvent available processed)) := by
  obtain ⟨husers, hevents, hnodup⟩ := serverInit_users nbufs room users releaseEvent
  unfold System.initial Bqueue.clientInit
  simp only
  generalize (Bqueue.serverInit nbufs room users releaseEvent).2 = q at *
  refine ⟨⟨fun h b hb => ?_, fun h => ⟨fun b hb => ?_, fun b => ?_, fun e b ph he => ?_, ?_⟩⟩,
    fun h => { h with half := fun b => ?_, release := fun b hb => ?_ }⟩
  · have := h.users b (by simp [hb])
    simpa [hb, husers] using this
  · by_cases hmem : b ∈ q.freeBufs
    · simp [hmem, husers, h b hmem]
    · simp [hmem] at hb
  · show q.freeBufs.count b = _
    rw [hnodup.count]
    by_cases hmem : b ∈ q.freeBufs <;> simp [hmem]
  · show q.events.count e = _
    rw [hevents]
    by_cases hmem : b ∈ q.freeBufs <;> cases e <;> cases he <;> simp [hmem]
  · intro b
    simp [hevents]
  · by_cases hmem : b ∈ q.freeBufs <;> simp [hmem]
  · by_cases hmem : b ∈ q.freeBufs <;> simp [hmem] at hb

/-- **The protocol cycle.** From the initialisation of both sides on, a run keeps
to the protocol exactly when the counters' memory was zero and no buffer is
returned to the client. -/
theorem cycle_iff (nbufs : Int) (room : Bool) (users : Nat → Int)
    (releaseEvent : Nat → Option Release) (available processed : Bool) (ops : List Op) :
    (CycleOk (System.initial nbufs room users releaseEvent available processed) ∧
      EachStep System.step StepOk (System.initial nbufs room users releaseEvent available processed)
        ops) ↔
    (∀ b ∈ (Bqueue.serverInit nbufs room users releaseEvent).2.freeBufs, users b = 0) ∧
      EachStep System.step NotReturned
        (System.initial nbufs room users releaseEvent available processed) ops := by
  obtain ⟨hiff, hinv⟩ := initial_iff nbufs room users releaseEvent available processed
  rw [← hiff]
  exact and_congr_right fun hok => eachStep_iff (fun s op (h : Inv s) => stepOk_iff h op)
    (fun _ _ h hop => step_inv h hop) (hinv hok)

/-- One buffer, both events given: when its `processed` event arrives, the client
holds a buffer nobody counts, and its put triggers nothing. -/
theorem processed_buffer_not_counted :
    ¬ ∀ (nbufs : Int) (room : Bool) (available processed : Bool) (ops : List Op),
      EachStep System.step StepOk
        (System.initial nbufs room (fun _ => 0) (fun _ => none) available processed) ops := by
  intro hall
  obtain ⟨-, -, -, -, -, -, ⟨hok, -⟩, -⟩ := hall 1 true true true
    [.start, .get, .put 0, .deliver, .deliver, .serverProcessed 0, .deliver]
  exact absurd (hok.users 0 (by decide +kernel)) (by decide +kernel)

end Bathos.Buffer
