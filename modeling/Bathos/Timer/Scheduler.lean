import Bathos.Timer.SysTimer

/-!
# Bathos — the periodic scheduler

`periodic_scheduler.c` on top of `sys_timer.c`. Between two runs of its job a
task exists only as an entry of the list of scheduled ticks or as the data of a
pending `sys_timer_tick` event. `on_hw_timer_tick` turns an entry into an event,
`pts_handle` an event into an entry; both hand-overs can be refused, by a full
event queue or an empty allocator, and neither side looks at the refusal.

How full the queue and the allocator are is left open: each call is told what it
finds.

Main result: `tasks_conserved_iff` — no task is lost or duplicated in a run
exactly when no hand-over in it is refused.
-/

namespace Bathos.Timer

open Bathos.Lib

variable {w : Nat}

-- ---------------------------------------------------------------------------
-- periodic_scheduler.c
-- ---------------------------------------------------------------------------

/-- The tasks between `__task_begin` and `__task_end`, by number: how many, and
their periods; and `HZ`. -/
structure Tasks (w : Nat) where
  number : Nat
  period : Nat → BitVec w
  hz : BitVec w

/-- The `release` fields, the list of scheduled ticks, the data of the pending
`sys_timer_tick` events, and the task whose `pts_handle` is running. -/
structure Scheduler (w : Nat) where
  release : Nat → BitVec w
  scheduledTicks : List (ScheduledTick w Nat)
  pending : List Nat
  running : Option Nat

/-- The second loop of `pts_init`; `none` when it returns -1. -/
def initLoop (cfg : Tasks w) (now : BitVec w) (time : Nat → Nat) (room : Nat → Bool) :
    List Nat → Scheduler w → Option (Scheduler w)
  | [], s => some s
  | p :: ps, s =>
    let release := s.release p + (now + cfg.hz)
    let s := { s with release := Function.update s.release p release }
    if room p then
      initLoop cfg now time room ps
        { s with
          scheduledTicks := insertTick (newTick (time p) (release - now) p) s.scheduledTicks }
    else none

/-- `pts_init`. `time p` is when the tick of task `p` is enqueued, `room p` whether
there is memory for it. -/
def ptsInit (cfg : Tasks w) (release : Nat → BitVec w) (now : Nat) (time : Nat → Nat)
    (room : Nat → Bool) : Option (Scheduler w) :=
  initLoop cfg (jiffies w now) time room (List.range cfg.number)
    { release := release, scheduledTicks := [], pending := [], running := none }

/-- The events `on_hw_timer_tick` gets into the queue: `full i` says that the queue
is full at its `i`th call of `trigger_event`. -/
def delivered (full : Nat → Bool) : Nat → List Nat → List Nat
  | _, [] => []
  | i, p :: ps =>
    if full i then delivered full (i + 1) ps else p :: delivered full (i + 1) ps

/-- What can happen: a tick; the handler of the next `sys_timer_tick` event starts;
it ends, with two readings of `jiffies` and the allocator it finds. -/
inductive PtsOp where
  | tick (now : Nat → Nat) (full : Nat → Bool)
  | handle
  | finish (now time : Nat) (room : Bool)

namespace Scheduler

/-- `on_hw_timer_tick`, with the events it triggers. -/
def tick (now : Nat → Nat) (full : Nat → Bool) (s : Scheduler w) : Scheduler w :=
  let r := onHwTimerTick now s.scheduledTicks
  { s with
    scheduledTicks := r.rest
    pending := s.pending ++ delivered full 0 (r.fired.map fun e => e.1.data) }

/-- `pts_handle` begins with the next event, and runs the job. -/
def handle (s : Scheduler w) : Scheduler w :=
  match s.running, s.pending with
  | none, p :: ps => { s with pending := ps, running := some p }
  | _, _ => s

/-- The rest of `pts_handle`. -/
def finish (cfg : Tasks w) (now time : Nat) (room : Bool) (s : Scheduler w) : Scheduler w :=
  match s.running with
  | none => s
  | some p =>
    let release := s.release p + cfg.period p
    let release :=
      if timeBeforeEq release (jiffies w now) then jiffies w now + 1 else release
    let s := { s with release := Function.update s.release p release, running := none }
    if room then
      { s with
        scheduledTicks :=
          insertTick (newTick time (release - jiffies w now) p) s.scheduledTicks }
    else s

def step (cfg : Tasks w) (s : Scheduler w) : PtsOp → Scheduler w
  | .tick now full => s.tick now full
  | .handle => s.handle
  | .finish now time room => s.finish cfg now time room

/-- In how many places a task is. -/
def places (s : Scheduler w) (p : Nat) : Nat :=
  (s.scheduledTicks.map fun t => t.data).count p + s.pending.count p + s.running.toList.count p

/-- Every task is in exactly one place. -/
def Conserved (cfg : Tasks w) (s : Scheduler w) : Prop :=
  ∀ p, s.places p = if p < cfg.number then 1 else 0

/-- The condition: the queue has room for each entry that is due, and the allocator
for the task that goes back. -/
def NotRefused (s : Scheduler w) : PtsOp → Prop
  | .tick now full => ∀ i < (onHwTimerTick now s.scheduledTicks).fired.length, full i = false
  | .handle => True
  | .finish _ _ room => s.running.isSome = true → room = true

-- ---------------------------------------------------------------------------
-- Entries are neither lost nor made by the list operations
-- ---------------------------------------------------------------------------

theorem insertTick_perm (t : ScheduledTick w Nat) (list : List (ScheduledTick w Nat)) :
    ((insertTick t list).map fun t => t.data).Perm (t.data :: list.map fun t => t.data) := by
  induction list generalizing t with
  | nil => exact List.Perm.refl _
  | cons ptr rest ih =>
    unfold insertTick
    split
    · exact List.Perm.refl _
    · exact ((ih _).cons ptr.data).trans (List.Perm.swap _ _ _)

theorem tickLoop_data (now : Nat → Nat) (list : List (ScheduledTick w Nat)) (j : Nat)
    (carry : BitVec w) :
    ((tickLoop now j carry list).fired.map fun e => e.1.data) ++
      ((tickLoop now j carry list).rest.map fun t => t.data) = list.map fun t => t.data := by
  induction list generalizing j carry with
  | nil => rfl
  | cons t rest ih =>
    unfold tickLoop
    simp only
    split
    · rfl
    · simp only [List.map_cons, List.cons_append]
      rw [ih]

/-- Only refusals keep an event out of the queue. -/
theorem delivered_eq_iff (full : Nat → Bool) (ps : List Nat) (i : Nat) :
    (delivered full i ps).Sublist ps ∧
      (delivered full i ps = ps ↔ ∀ k < ps.length, full (i + k) = false) := by
  induction ps generalizing i with
  | nil => exact ⟨List.Sublist.refl _, by simp [delivered]⟩
  | cons p ps ih =>
    obtain ⟨hsub, hiff⟩ := ih (i + 1)
    have hshift : (∀ k < (p :: ps).length, full (i + k) = false) ↔
        full i = false ∧ ∀ k < ps.length, full (i + 1 + k) = false := by
      refine ⟨fun h => ⟨h 0 (Nat.succ_pos _), fun k hk => ?_⟩, fun h k hk => ?_⟩
      · rw [Nat.add_right_comm]
        exact h (k + 1) (Nat.succ_lt_succ hk)
      · rcases k with _ | k
        · exact h.1
        · rw [← Nat.add_assoc, Nat.add_right_comm]
          exact h.2 k (Nat.lt_of_succ_lt_succ hk)
    rw [hshift]
    unfold delivered
    cases hfull : full i with
    | true =>
      simp only [if_true, Bool.true_eq_false, false_and, iff_false]
      refine ⟨hsub.cons p, fun heq => ?_⟩
      have hlen := hsub.length_le
      rw [heq, List.length_cons] at hlen
      omega
    | false =>
      simp only [Bool.false_eq_true, if_false, List.cons.injEq, true_and]
      exact ⟨hsub.cons_cons p, hiff⟩

-- ---------------------------------------------------------------------------
-- Steps
-- ---------------------------------------------------------------------------

/-- A tick moves the entries that fired, less those refused. -/
theorem tick_places (now : Nat → Nat) (full : Nat → Bool) (s : Scheduler w) (p : Nat) :
    (s.tick now full).places p +
        ((onHwTimerTick now s.scheduledTicks).fired.map fun e => e.1.data).count p =
      s.places p +
        (delivered full 0 ((onHwTimerTick now s.scheduledTicks).fired.map fun e => e.1.data)).count
          p := by
  have hdata := congrArg (List.count p) (tickLoop_data now s.scheduledTicks 0 0)
  rw [List.count_append] at hdata
  unfold places tick
  simp only [List.count_append]
  unfold onHwTimerTick at *
  omega

theorem tick_conserved_iff {cfg : Tasks w} {s : Scheduler w} (h : s.Conserved cfg)
    (now : Nat → Nat) (full : Nat → Bool) :
    (s.tick now full).Conserved cfg ↔ s.NotRefused (.tick now full) := by
  obtain ⟨hsub, hiff⟩ := delivered_eq_iff full
    ((onHwTimerTick now s.scheduledTicks).fired.map fun e => e.1.data) 0
  have hcond : s.NotRefused (.tick now full) ↔
      delivered full 0 ((onHwTimerTick now s.scheduledTicks).fired.map fun e => e.1.data) =
        (onHwTimerTick now s.scheduledTicks).fired.map fun e => e.1.data := by
    rw [hiff, List.length_map]
    simp only [Nat.zero_add]
    exact Iff.rfl
  rw [hcond]
  refine ⟨fun h' => ?_, fun heq p => ?_⟩
  · -- the places are as before, so nothing is missing among the events
    refine hsub.eq_of_length (List.Perm.length_eq (List.perm_iff_count.mpr fun p => ?_))
    have hplaces := tick_places now full s p
    rw [h p, h' p] at hplaces
    omega
  · have hplaces := tick_places now full s p
    rw [heq, h p] at hplaces
    omega

theorem handle_conserved {cfg : Tasks w} {s : Scheduler w} (h : s.Conserved cfg) :
    s.handle.Conserved cfg := by
  intro p
  rw [← h p]
  unfold handle
  cases hrunning : s.running with
  | some q => rfl
  | none =>
    cases hpending : s.pending with
    | nil => rfl
    | cons q ps =>
      simp only [places, hrunning, hpending, Option.toList_some, Option.toList_none,
        List.count_cons, List.count_nil]
      omega

theorem finish_conserved_iff {cfg : Tasks w} {s : Scheduler w} (h : s.Conserved cfg)
    (now time : Nat) (room : Bool) :
    (s.finish cfg now time room).Conserved cfg ↔ s.NotRefused (.finish now time room) := by
  unfold finish NotRefused
  cases hrunning : s.running with
  | none =>
    simp only [Option.isSome_none, Bool.false_eq_true, false_imp_iff, iff_true]
    exact h
  | some q =>
    have hq := h q
    simp only [places, hrunning, Option.toList_some, List.count_singleton, beq_self_eq_true,
      if_true] at hq
    simp only [Option.isSome_some, true_imp_iff]
    cases room with
    | false =>
      simp only [Bool.false_eq_true, if_false, iff_false]
      intro h'
      -- the task was running, and is nowhere now
      have hlost := h' q
      simp only [places, Option.toList_none, List.count_nil] at hlost
      omega
    | true =>
      simp only [if_true, iff_true]
      intro p
      rw [← h p]
      simp only [places, hrunning, (insertTick_perm _ _).count_eq, Option.toList_some,
        Option.toList_none, List.count_cons, List.count_nil, newTick]
      omega

theorem step_conserved_iff {cfg : Tasks w} {s : Scheduler w} (h : s.Conserved cfg) (op : PtsOp) :
    (s.step cfg op).Conserved cfg ↔ s.NotRefused op := by
  cases op with
  | tick now full => exact tick_conserved_iff h now full
  | handle => exact iff_of_true (handle_conserved h) trivial
  | finish now time room => exact finish_conserved_iff h now time room

-- ---------------------------------------------------------------------------
-- Runs
-- ---------------------------------------------------------------------------

/-- The loop of `pts_init` gives each task one entry. -/
theorem initLoop_places {cfg : Tasks w} {now : BitVec w} {time : Nat → Nat} {room : Nat → Bool} :
    ∀ {ps : List Nat} {s s' : Scheduler w}, initLoop cfg now time room ps s = some s' →
      ∀ p, s'.places p = s.places p + ps.count p := by
  intro ps
  induction ps with
  | nil =>
    intro s s' h p
    cases h
    rfl
  | cons q ps ih =>
    intro s s' h p
    unfold initLoop at h
    simp only at h
    split at h
    · rw [ih h p]
      simp only [places, (insertTick_perm _ _).count_eq, List.count_cons, newTick]
      omega
    · cases h

theorem ptsInit_conserved {cfg : Tasks w} {release : Nat → BitVec w} {now : Nat}
    {time : Nat → Nat} {room : Nat → Bool} {s : Scheduler w}
    (h : ptsInit cfg release now time room = some s) : s.Conserved cfg := by
  intro p
  rw [initLoop_places h p, List.nodup_range.count]
  simp [places]

/-- **The scheduler keeps its tasks**, after a successful `pts_init`, exactly in
the runs without a refusal. -/
theorem tasks_conserved_iff {cfg : Tasks w} {release : Nat → BitVec w} {now : Nat}
    {time : Nat → Nat} {room : Nat → Bool} {s : Scheduler w}
    (hinit : ptsInit cfg release now time room = some s) (ops : List PtsOp) :
    EachStep (step cfg) (fun s op => (s.step cfg op).Conserved cfg) s ops ↔
      EachStep (step cfg) NotRefused s ops :=
  eachStep_iff (fun (s : Scheduler w) op (h : s.Conserved cfg) => step_conserved_iff h op)
    (fun _ op h hop => (step_conserved_iff h op).mpr hop) (ptsInit_conserved hinit)

/-- Two tasks with periods of 10 and 20 ticks. -/
def twoTasks : Tasks 32 where
  number := 2
  period := fun p => if p = 0 then 10 else 20
  hz := 100

/-- The state after `pts_init` at time 0. -/
def twoTasksStarted : Scheduler 32 where
  release := fun p => if p < 2 then 100 else 0
  scheduledTicks := [⟨100, 0, 100⟩, ⟨0, 1, 100⟩]
  pending := []
  running := none

theorem ptsInit_twoTasks :
    ptsInit twoTasks (fun _ => 0) 0 (fun _ => 0) (fun _ => true) = some twoTasksStarted := by
  have hrelease : (fun p => if p < 2 then (100 : BitVec 32) else 0) =
      Function.update (Function.update (fun _ => 0) 0 100) 1 100 := by
    funext p
    rcases p with _ | _ | p <;> simp [Function.update]
  unfold twoTasksStarted
  rw [hrelease]
  rfl

theorem tasks_conserved_twoTasks :
    EachStep (step twoTasks) (fun s op => (s.step twoTasks op).Conserved twoTasks) twoTasksStarted
      [.tick (fun _ => 100) (fun _ => false), .handle, .finish 101 101 true, .handle,
        .finish 102 102 true] :=
  (tasks_conserved_iff ptsInit_twoTasks _).mpr
    ⟨fun _ _ => rfl, trivial, fun _ => rfl, trivial, fun _ => rfl, trivial⟩

/-- The event queue is full when the first task becomes due: the task is gone. -/
theorem task_lost :
    ¬ EachStep (step twoTasks) (fun s op => (s.step twoTasks op).Conserved twoTasks)
      twoTasksStarted [.tick (fun _ => 100) (fun _ => true)] := by
  rintro ⟨hlost, -⟩
  exact absurd (hlost 0) (by decide +kernel)

end Scheduler

end Bathos.Timer
