import Bathos.Include.Headers
import Bathos.Lib.Instances
import Mathlib.Computability.DFA

/-!
# Bathos — state machines

`lib/statemachine.c`: one table of states, and any number of runtimes that are fed with
events in any order. The table is trusted: an entry that is no state is read behind the
array, which is no step here.

Main results:

* `feed_spec` — one event, by the table;
* `run_spec` — a run over all runtimes, each of them as if it were alone.
-/

namespace Bathos.Event

open Bathos.Lib

-- ---------------------------------------------------------------------------
-- The code
-- ---------------------------------------------------------------------------

/-- `enum statemachine_type`. -/
inductive StatemachineType where
  | moore
  | mealey
deriving DecidableEq, Repr

/-- `struct statemachine_state`; an output function may be `NULL`. -/
structure StatemachineState (ω : Type) where
  nextStates : List Int
  out : List (Option ω)

/-- `struct statemachine`, but for its runtimes; `states` may be `NULL`. -/
structure Statemachine (ω : Type) where
  type : StatemachineType
  nstates : Int
  states : Option (List (StatemachineState ω))
  nevents : Int

/-- An entry of an array, where there is one. -/
def entry {α : Type*} (xs : List α) (i : Int) : Option α := if 0 ≤ i then xs[i.toNat]? else none

/-- A call of an output function, with the state it is passed. -/
structure OutCall (ω : Type) where
  outf : ω
  state : Int
deriving DecidableEq, Repr

variable {ω : Type} (m : Statemachine ω)

/-- `init_statemachine`: its result, and `curr_state` of all runtimes. -/
def initStatemachine (initialState : Int) (runtimes : List Int) : Int × List Int :=
  if m.nstates ≤ 0 ∨ m.states = none ∨ m.nevents = 0 then (-EINVAL, runtimes)
  else if initialState < 0 ∨ m.nstates ≤ initialState then (-EINVAL, runtimes)
  else (0, runtimes.map fun _ => initialState)

/-- `feed_statemachine`: its result, the call of an output function, and `curr_state` of all
runtimes. The pointer to the next state is never `NULL`. -/
def feedStatemachine (runtime : Option Nat) (event : Int) (s : List Int) :
    Option ((Int × Option (OutCall ω)) × List Int) :=
  if event < 0 ∨ m.nevents ≤ event then some ((-EINVAL, none), s)
  else
    match runtime with
    | none => some ((-EINVAL, none), s)
    | some r => do
      let currState ← s[r]?
      let states ← m.states
      let c ← entry states currState
      let next ← entry c.nextStates event
      let outf ← match m.type with
        | .moore => (entry states next).bind fun n => n.out[0]?
        | .mealey => entry c.out event
      return ((0, outf.map fun f => ⟨f, next⟩), s.set r next)

/-- A run: events for the runtimes, in any order. -/
def feedAll : List Int → List (Option Nat × Int) →
    Option (List (Int × Option (OutCall ω)) × List Int)
  | s, [] => some ([], s)
  | s, c :: cs => do
    let (answer, s) ← feedStatemachine m c.1 c.2 s
    let (answers, s) ← feedAll s cs
    return (answer :: answers, s)

-- ---------------------------------------------------------------------------
-- The table
-- ---------------------------------------------------------------------------

/-- What a table says: for every state and event the next state, and the output function of
the state that is entered, or of the event. -/
structure Table (n k : Nat) (ω : Type) where
  next : Fin n → Fin k → Fin n
  output : (Fin n → Option ω) ⊕ (Fin n → Fin k → Option ω)

variable {n k : Nat}

/-- The output function for an event. -/
def Table.outf (t : Table n k ω) (s : Fin n) (e : Fin k) : Option ω :=
  match t.output with
  | .inl out => out (t.next s e)
  | .inr out => out s e

def Table.type (t : Table n k ω) : StatemachineType :=
  match t.output with
  | .inl _ => .moore
  | .inr _ => .mealey

/-- One event of one runtime. -/
def Table.step (t : Table n k ω) (s : Fin n) (e : Fin k) : Option (OutCall ω) × Fin n :=
  ((t.outf s e).map fun f => ⟨f, ((t.next s e).val : Int)⟩, t.next s e)

/-- The states of a runtime that starts in `s`. -/
def Table.dfa (t : Table n k ω) (s : Fin n) : DFA (Fin k) (Fin n) := ⟨t.next, s, ∅⟩

/-- `struct statemachine` for a table: "there shall be as many next states as are the valid
events". -/
def Table.code (t : Table n k ω) : Statemachine ω where
  type := t.type
  nstates := n
  states := some (List.ofFn fun s => {
    nextStates := List.ofFn fun e => ((t.next s e).val : Int)
    out := match t.output with
      | .inl out => [out s]
      | .inr out => List.ofFn (out s) })
  nevents := k

theorem entry_ofFn {α : Type} {n : Nat} (f : Fin n → α) (i : Fin n) :
    entry (List.ofFn f) (i.val : Int) = some (f i) := by
  unfold entry
  rw [if_pos (Int.natCast_nonneg _), Int.toNat_natCast, List.getElem?_ofFn, dif_pos i.isLt]

section Table

variable (t : Table n k ω)

/-- **One event**, for a runtime that is in a state of the table. -/
theorem feed_spec {r : Nat} {s : List Int} {q : Fin n} (hr : s[r]? = some (q.val : Int))
    (e : Fin k) :
    feedStatemachine t.code (some r) (e.val : Int) s =
      some ((0, (t.step q e).1), s.set r ((t.step q e).2.val : Int)) := by
  have hevent : ¬ (((e.val : Int) < 0) ∨ t.code.nevents ≤ (e.val : Int)) := by
    have hlt := e.isLt
    show ¬ (_ ∨ (k : Int) ≤ _)
    omega
  unfold feedStatemachine
  rw [if_neg hevent]
  simp only [hr, Option.bind_eq_bind, Option.bind_some, Table.code, entry_ofFn]
  obtain ⟨next, output⟩ := t
  cases output with
  | inl out => simp [Table.type, Table.step, Table.outf]
  | inr out => simp [Table.type, Table.step, Table.outf, entry_ofFn]

/-- The event that a call gives to a runtime, where the call is valid. -/
def accepted (k : Nat) (c : Option Nat × Int) : Option (Nat × Fin k) :=
  match c.1 with
  | none => none
  | some r => if h : 0 ≤ c.2 ∧ c.2 < k then some (r, ⟨c.2.toNat, by omega⟩) else none

/-- A call that is not valid. -/
theorem feed_rejected {c : Option Nat × Int} (hc : accepted k c = none) (s : List Int) :
    feedStatemachine t.code c.1 c.2 s = some ((-EINVAL, none), s) := by
  obtain ⟨runtime, event⟩ := c
  unfold feedStatemachine
  by_cases hevent : event < 0 ∨ t.code.nevents ≤ event
  · rw [if_pos hevent]
  · rw [if_neg hevent]
    cases runtime with
    | none => rfl
    | some r =>
      have hrange : 0 ≤ event ∧ event < k := by
        rw [not_or] at hevent
        exact ⟨not_lt.mp hevent.1, not_le.mp hevent.2⟩
      unfold accepted at hc
      simp only at hc
      rw [dif_pos hrange] at hc
      cases hc

theorem accepted_some {c : Option Nat × Int} {r : Nat} {e : Fin k}
    (hc : accepted k c = some (r, e)) : c = (some r, (e.val : Int)) := by
  obtain ⟨runtime, event⟩ := c
  unfold accepted at hc
  simp only at hc
  split at hc
  · cases hc
  · split at hc
    · next h =>
      cases hc
      rw [Int.toNat_of_nonneg h.1]
    · cases hc

/-- `curr_state` of every runtime, as states of the table. -/
def Represents (s : List Int) (q : Nat → Fin n) : Prop :=
  ∀ r < s.length, s[r]? = some ((q r).val : Int)

/-- What the valid calls are answered, with the runtime. -/
def outputs (k : Nat) : List (Option Nat × Int) → List (Int × Option (OutCall ω)) →
    List (Nat × Option (OutCall ω))
  | c :: cs, a :: as =>
    match accepted k c with
    | none => outputs k cs as
    | some (r, _) => (r, a.2) :: outputs k cs as
  | _, _ => []

/-- **A run**: the code follows the table. -/
theorem feedAll_spec {s : List Int} {q : Nat → Fin n} (hs : Represents s q)
    {cs : List (Option Nat × Int)} (hcs : ∀ c ∈ cs, ∀ r, c.1 = some r → r < s.length) :
    ∃ answers s', feedAll t.code s cs = some (answers, s') ∧ s'.length = s.length ∧
      answers.map Prod.fst = cs.map (fun c => if (accepted k c).isSome then 0 else -EINVAL) ∧
      outputs k cs answers =
        (runAnswers (instanceStep t.step) q (cs.filterMap (accepted k))).1 ∧
      Represents s' (runAnswers (instanceStep t.step) q (cs.filterMap (accepted k))).2 := by
  induction cs generalizing s q with
  | nil => exact ⟨[], s, rfl, rfl, rfl, rfl, hs⟩
  | cons c cs ih =>
    have hrest := fun c' hc' => hcs c' (List.mem_cons_of_mem c hc')
    cases hc : accepted k c with
    | none =>
      obtain ⟨answers, s', hrun, hlen, hrets, houts, hrep⟩ := ih hs hrest
      refine ⟨(-EINVAL, none) :: answers, s', ?_, hlen, ?_, ?_, ?_⟩
      · unfold feedAll
        rw [feed_rejected t hc]
        simp only [Option.bind_eq_bind, Option.bind_some, hrun]
        rfl
      · rw [List.map_cons, List.map_cons, hc, hrets]
        rfl
      · rw [List.filterMap_cons_none hc, ← houts, outputs, hc]
      · rw [List.filterMap_cons_none hc]
        exact hrep
    | some p =>
      obtain ⟨r, e⟩ := p
      obtain rfl := accepted_some hc
      have hr : r < s.length := hcs _ List.mem_cons_self r rfl
      have hrep' : Represents (s.set r ((t.step (q r) e).2.val : Int))
          (Function.update q r (t.step (q r) e).2) := by
        intro j hj
        rw [List.length_set] at hj
        by_cases hjr : j = r
        · subst hjr
          rw [Function.update_self, List.getElem?_set_self hj]
        · rw [Function.update_of_ne hjr, List.getElem?_set_ne (Ne.symm hjr)]
          exact hs j hj
      obtain ⟨answers, s', hrun, hlen, hrets, houts, hrep⟩ := ih hrep' fun c' hc' r' hr' => by
        rw [List.length_set]
        exact hrest c' hc' r' hr'
      refine ⟨(0, (t.step (q r) e).1) :: answers, s', ?_, ?_, ?_, ?_, ?_⟩
      · unfold feedAll
        rw [feed_spec t (hs r hr)]
        simp only [Option.bind_eq_bind, Option.bind_some, hrun]
        rfl
      · rw [hlen, List.length_set]
      · rw [List.map_cons, List.map_cons, hc, hrets]
        rfl
      · rw [List.filterMap_cons_some hc, runAnswers_cons, outputs, hc]
        simp only
        rw [houts]
        rfl
      · rw [List.filterMap_cons_some hc]
        exact hrep

/-- The events of one runtime. -/
def ownEvents (k r : Nat) (cs : List (Option Nat × Int)) : List (Fin k) :=
  ownOf r (cs.filterMap (accepted k))

theorem runAnswers_dfa (q₀ q : Fin n) (es : List (Fin k)) :
    (runAnswers t.step q es).2 = (t.dfa q₀).evalFrom q es := by
  induction es generalizing q with
  | nil => rfl
  | cons e es ih =>
    rw [runAnswers_cons, DFA.evalFrom_cons]
    exact ih _

/-- **All runtimes of a state machine**, fed in any order, with events and pointers that need
not be valid: the calls answer `-EINVAL` where they are not, and every runtime is in the state
and has called the output functions that its own events lead to. -/
theorem run_spec (hk : 0 < k) (q : Fin n) (runtimes : List Int) {cs : List (Option Nat × Int)}
    (hcs : ∀ c ∈ cs, ∀ r, c.1 = some r → r < runtimes.length) :
    ∃ s answers s', initStatemachine t.code q.val runtimes = (0, s) ∧
      feedAll t.code s cs = some (answers, s') ∧
      answers.map Prod.fst = cs.map (fun c => if (accepted k c).isSome then 0 else -EINVAL) ∧
      ∀ r < runtimes.length,
        s'[r]? = some (((t.dfa q).eval (ownEvents k r cs)).val : Int) ∧
        ownOf r (outputs k cs answers) = (runAnswers t.step q (ownEvents k r cs)).1 := by
  have hlen : (runtimes.map fun _ => (q.val : Int)).length = runtimes.length := List.length_map _
  have hinit : initStatemachine t.code q.val runtimes =
      (0, runtimes.map fun _ => (q.val : Int)) := by
    have hq := q.isLt
    unfold initStatemachine
    rw [if_neg, if_neg]
    · show ¬ (_ ∨ (n : Int) ≤ _)
      omega
    · show ¬ ((n : Int) ≤ 0 ∨ some _ = none ∨ (k : Int) = 0)
      simp only [reduceCtorEq, false_or]
      omega
  have hrep : Represents (runtimes.map fun _ => (q.val : Int)) fun _ => q := by
    intro r hr
    rw [List.getElem?_map, List.getElem?_eq_getElem (by omega)]
    rfl
  obtain ⟨answers, s', hrun, hlen', hrets, houts, hend⟩ :=
    @feedAll_spec _ _ _ t _ _ hrep cs fun c hc r hr => by
      rw [hlen]
      exact hcs c hc r hr
  refine ⟨_, answers, s', hinit, hrun, hrets, fun r hr => ?_⟩
  have halone := instances_alone t.step (fun _ => q) (cs.filterMap (accepted k)) r
  rw [← houts] at halone
  refine ⟨?_, congrArg Prod.fst halone⟩
  rw [hend r (by omega)]
  have hstate := congrArg Prod.snd halone
  simp only at hstate
  rw [hstate, runAnswers_dfa t q]
  rfl

end Table

/-- A lamp with two states and one event. -/
def lamp : Table 2 1 Nat := ⟨fun s _ => s + 1, .inl fun s => if s = 0 then none else some 1⟩

/-- Two lamps; one event is for none, one is no event. -/
theorem lamps_spec : ∃ s answers s', initStatemachine lamp.code 0 [5, 7] = (0, s) ∧
    feedAll lamp.code s [(some 0, 0), (none, 0), (some 1, 3), (some 0, 0), (some 1, 0)] =
      some (answers, s') ∧
    answers.map Prod.fst = [0, -EINVAL, -EINVAL, 0, 0] ∧ ∀ r < 2,
      s'[r]? = some (((lamp.dfa 0).eval (ownEvents 1 r [(some 0, 0), (none, 0), (some 1, 3),
        (some 0, 0), (some 1, 0)])).val : Int) ∧
      ownOf r (outputs 1 [(some 0, 0), (none, 0), (some 1, 3), (some 0, 0), (some 1, 0)] answers) =
        (runAnswers lamp.step 0 (ownEvents 1 r [(some 0, 0), (none, 0), (some 1, 3), (some 0, 0),
          (some 1, 0)])).1 := by
  refine run_spec lamp (by decide) 0 [5, 7] fun c hc r hr => ?_
  simp only [List.mem_cons, List.not_mem_nil, or_false] at hc
  rcases hc with rfl | rfl | rfl | rfl | rfl <;> cases hr <;> decide

end Bathos.Event
