import Bathos.Lib.Run

/-!
# Bathos — many instances of one machine

A machine that answers its inputs, run by several owners who take turns in any order. What
one of them gets is what it would get alone.

Main result: `instances_alone`.
-/

namespace Bathos.Lib

variable {κ σ ι ω : Type*} [DecidableEq κ]

/-- An input of one of the instances. -/
def instanceStep (f : σ → ι → ω × σ) (s : κ → σ) (c : κ × ι) : (κ × ω) × (κ → σ) :=
  ((c.1, (f (s c.1) c.2).1), Function.update s c.1 (f (s c.1) c.2).2)

/-- The inputs, or the answers, of one instance. -/
def ownOf {α : Type*} (k : κ) (cs : List (κ × α)) : List α :=
  (cs.filter fun c => c.1 = k).map Prod.snd

theorem ownOf_cons_self {α : Type*} (k : κ) (a : α) (cs : List (κ × α)) :
    ownOf k ((k, a) :: cs) = a :: ownOf k cs := by
  unfold ownOf
  rw [List.filter_cons_of_pos (by simp), List.map_cons]

theorem ownOf_cons_ne {α : Type*} {k j : κ} (h : j ≠ k) (a : α) (cs : List (κ × α)) :
    ownOf k ((j, a) :: cs) = ownOf k cs := by
  unfold ownOf
  rw [List.filter_cons_of_neg (by simp [h])]

theorem runAnswers_cons (f : σ → ι → ω × σ) (s : σ) (i : ι) (is : List ι) :
    runAnswers f s (i :: is) =
      ((f s i).1 :: (runAnswers f (f s i).2 is).1, (runAnswers f (f s i).2 is).2) := rfl

/-- **Alone or not**: the answers of an instance and the state it ends in. -/
theorem instances_alone (f : σ → ι → ω × σ) (s : κ → σ) (cs : List (κ × ι)) (k : κ) :
    (ownOf k (runAnswers (instanceStep f) s cs).1, (runAnswers (instanceStep f) s cs).2 k) =
      runAnswers f (s k) (ownOf k cs) := by
  induction cs generalizing s with
  | nil => rfl
  | cons c cs ih =>
    obtain ⟨j, i⟩ := c
    have hrest := ih (instanceStep f s (j, i)).2
    have hfirst : (instanceStep f s (j, i)).1 = (j, (f (s j) i).1) := rfl
    rw [runAnswers_cons, hfirst]
    by_cases hj : j = k
    · subst hj
      have hown : (instanceStep f s (j, i)).2 j = (f (s j) i).2 := Function.update_self ..
      rw [ownOf_cons_self, ownOf_cons_self, runAnswers_cons, ← hown, ← hrest]
    · have hown : (instanceStep f s (j, i)).2 k = s k := Function.update_of_ne (Ne.symm hj) ..
      rw [ownOf_cons_ne hj, ownOf_cons_ne hj, hrest, hown]

end Bathos.Lib
