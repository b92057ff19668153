import Mathlib.Tactic

/-!
# Runs of a step function

A machine here is a function `step : σ → ι → σ`; its inputs come as a list.
`EachStep step P s is` says that `P` holds of every state passed and the input
given there, along the whole run from `s`.

Main results:

* `EachStep.inv` — an invariant kept by the steps that satisfy `P` holds at the
  end of every run all of whose steps satisfy `P`;
* `eachStep_iff` — two properties of steps that agree wherever the invariant
  holds agree along whole runs; `EachStep.iff_of` needs them to agree only where
  an assumption made about the whole run holds;
* `EachStep.inv_at` — that invariant holds at every step passed (`stateAt`), too;
* `runAnswers_refines` — a machine that answers its inputs gives, along every run,
  the answers of the abstract machine that each of its steps refines.
-/

namespace Bathos.Lib

variable {σ ι : Type*} {step : σ → ι → σ} {P Q A : σ → ι → Prop} {Inv : σ → Prop}

/-- The state after a list of inputs. -/
def runFrom (step : σ → ι → σ) (s : σ) (is : List ι) : σ := is.foldl step s

@[simp] theorem runFrom_nil (s : σ) : runFrom step s [] = s := rfl

@[simp] theorem runFrom_cons (s : σ) (i : ι) (is : List ι) :
    runFrom step s (i :: is) = runFrom step (step s i) is := rfl

theorem runFrom_append (s : σ) (is js : List ι) :
    runFrom step s (is ++ js) = runFrom step (runFrom step s is) js := List.foldl_append

/-- `P` holds at every step of the run from `s`. -/
def EachStep (step : σ → ι → σ) (P : σ → ι → Prop) : σ → List ι → Prop
  | _, [] => True
  | s, i :: is => P s i ∧ EachStep step P (step s i) is

instance [∀ s i, Decidable (P s i)] : ∀ s is, Decidable (EachStep step P s is)
  | _, [] => .isTrue trivial
  | s, i :: is =>
    have := instDecidableEachStep (step s i) is
    inferInstanceAs (Decidable (P s i ∧ EachStep step P (step s i) is))

/-- The invariant rule. -/
theorem EachStep.inv (hstep : ∀ s i, Inv s → P s i → Inv (step s i)) :
    ∀ {is : List ι} {s : σ}, Inv s → EachStep step P s is → Inv (runFrom step s is) := by
  intro is
  induction is with
  | nil => exact fun hs _ => hs
  | cons i is ih =>
    intro s hs hrun
    exact ih (hstep s i hs hrun.1) hrun.2

/-- An invariant kept by every step. -/
theorem runFrom_inv (hstep : ∀ s i, Inv s → Inv (step s i)) {s : σ} (hs : Inv s) (is : List ι) :
    Inv (runFrom step s is) := by
  induction is generalizing s with
  | nil => exact hs
  | cons i is ih => exact ih (hstep s i hs)

theorem EachStep.mono (hstep : ∀ s i, Inv s → P s i → Inv (step s i))
    (hPQ : ∀ s i, Inv s → P s i → Q s i) :
    ∀ {is : List ι} {s : σ}, Inv s → EachStep step P s is → EachStep step Q s is := by
  intro is
  induction is with
  | nil => exact fun _ _ => trivial
  | cons i is ih =>
    intro s hs hrun
    exact ⟨hPQ s i hs hrun.1, ih (hstep s i hs hrun.1) hrun.2⟩

/-- A weaker property of steps. -/
theorem EachStep.imp (hPQ : ∀ s i, P s i → Q s i) {is : List ι} {s : σ}
    (h : EachStep step P s is) : EachStep step Q s is := by
  induction is generalizing s with
  | nil => exact trivial
  | cons i is ih => exact ⟨hPQ s i h.1, ih h.2⟩

theorem eachStep_and {is : List ι} {s : σ} :
    EachStep step (fun s i => P s i ∧ Q s i) s is ↔ EachStep step P s is ∧ EachStep step Q s is := by
  induction is generalizing s with
  | nil => exact (and_self_iff (a := True)).symm
  | cons i is ih =>
    unfold EachStep
    rw [ih, and_and_and_comm]

/-- **Equivalence along runs.** The invariant has to survive the steps that
satisfy one of the two properties only. -/
theorem eachStep_iff (hPQ : ∀ s i, Inv s → (P s i ↔ Q s i))
    (hstep : ∀ s i, Inv s → Q s i → Inv (step s i)) {is : List ι} {s : σ} (hs : Inv s) :
    EachStep step P s is ↔ EachStep step Q s is := by
  have hstep' : ∀ s i, Inv s → P s i → Inv (step s i) := fun s i hi hp =>
    hstep s i hi ((hPQ s i hi).mp hp)
  exact ⟨EachStep.mono hstep' (fun s i hi => (hPQ s i hi).mp) hs,
    EachStep.mono hstep (fun s i hi => (hPQ s i hi).mpr) hs⟩

/-- Equivalence along the runs all of whose steps satisfy `A`. -/
theorem EachStep.iff_of (hPQ : ∀ s i, Inv s → A s i → (P s i ↔ Q s i))
    (hstep : ∀ s i, Inv s → A s i → Q s i → Inv (step s i)) :
    ∀ {is : List ι} {s : σ}, Inv s → EachStep step A s is →
      (EachStep step P s is ↔ EachStep step Q s is) := by
  intro is
  induction is with
  | nil => exact fun _ _ => Iff.rfl
  | cons i is ih =>
    intro s hs hA
    unfold EachStep
    rw [hPQ s i hs hA.1]
    exact and_congr_right fun hQ => ih (hstep s i hs hA.1 hQ) hA.2

-- ---------------------------------------------------------------------------
-- States by number
-- ---------------------------------------------------------------------------

/-- The state step `t` of a run starts in. -/
def stateAt (step : σ → ι → σ) (s : σ) (is : List ι) (t : Nat) : σ := runFrom step s (is.take t)

@[simp] theorem stateAt_zero (s : σ) (is : List ι) : stateAt step s is 0 = s := rfl

theorem stateAt_succ {s : σ} {is : List ι} {t : Nat} {i : ι} (h : is[t]? = some i) :
    stateAt step s is (t + 1) = step (stateAt step s is t) i := by
  unfold stateAt
  rw [List.take_add_one, h, runFrom_append]
  rfl

/-- Behind its end a run stays where it is. -/
theorem stateAt_succ_none {s : σ} {is : List ι} {t : Nat} (h : is[t]? = none) :
    stateAt step s is (t + 1) = stateAt step s is t := by
  unfold stateAt
  rw [List.take_add_one, h, Option.toList_none, List.append_nil]

theorem EachStep.take {is : List ι} {s : σ} (h : EachStep step P s is) (t : Nat) :
    EachStep step P s (is.take t) := by
  induction is generalizing s t with
  | nil => rwa [List.take_nil]
  | cons i is ih =>
    cases t with
    | zero => exact trivial
    | succ t => exact ⟨h.1, ih h.2 t⟩

/-- The property of a step, by its number. -/
theorem EachStep.get {is : List ι} {s : σ} (h : EachStep step P s is) {t : Nat} {i : ι}
    (hi : is[t]? = some i) : P (stateAt step s is t) i := by
  induction is generalizing s t with
  | nil => cases hi
  | cons k is ih =>
    cases t with
    | zero =>
      cases hi
      exact h.1
    | succ t => exact ih h.2 hi

theorem EachStep.inv_at (hstep : ∀ s i, Inv s → P s i → Inv (step s i)) {is : List ι} {s : σ}
    (hs : Inv s) (h : EachStep step P s is) (t : Nat) : Inv (stateAt step s is t) :=
  EachStep.inv hstep hs (h.take t)

-- ---------------------------------------------------------------------------
-- Machines with answers
-- ---------------------------------------------------------------------------

variable {τ κ ω : Type*}

/-- The answers of a machine to a list of inputs, and the state it ends in. -/
def runAnswers (f : σ → ι → ω × σ) : σ → List ι → List ω × σ
  | s, [] => ([], s)
  | s, i :: is =>
    let rest := runAnswers f (f s i).2 is
    ((f s i).1 :: rest.1, rest.2)

/-- **Refinement.** Steps that answer like `g` and lead to the same abstract state
do so along whole runs. -/
theorem runAnswers_refines {f : σ → ι → ω × σ} {g : τ → κ → ω × τ} {abs : σ → τ} {tr : ι → κ}
    (h : ∀ s i, P s i → ((f s i).1, abs (f s i).2) = g (abs s) (tr i)) :
    ∀ {is : List ι} {s : σ}, EachStep (fun s i => (f s i).2) P s is →
      ((runAnswers f s is).1, abs (runAnswers f s is).2) = runAnswers g (abs s) (is.map tr) := by
  intro is
  induction is with
  | nil => exact fun _ => rfl
  | cons i is ih =>
    intro s hrun
    have hstep := h s i hrun.1
    have hrest := ih hrun.2
    unfold runAnswers
    rw [List.map_cons]
    simp only [← hstep, ← hrest]

end Bathos.Lib
