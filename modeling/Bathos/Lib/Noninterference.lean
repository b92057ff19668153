import Bathos.Lib.Run

/-!
# Bathos — inputs that others do not notice

A machine that answers its inputs, some of which are hidden. A relation between two states
that a hidden step on one side keeps, and a step on both sides keeps with the same answer, is
enough for the hidden inputs of a run to be left out.

Main result: `Unwinding.shown_eq`.
-/

namespace Bathos.Lib

variable {σ τ ι ω : Type*}

/-- The answers to the inputs that are not hidden. -/
def shown (f : σ → ι → ω × σ) (hidden : ι → Bool) : σ → List ι → List ω
  | _, [] => []
  | s, i :: is =>
    if hidden i then shown f hidden (f s i).2 is
    else (f s i).1 :: shown f hidden (f s i).2 is

/-- What one step has to keep: `P` is what is known of the inputs. -/
structure Unwinding (f : σ → ι → ω × σ) (g : τ → ι → ω × τ) (hidden : ι → Bool) (P : ι → Prop)
    (R : σ → τ → Prop) : Prop where
  hide : ∀ {s t i}, R s t → P i → hidden i = true → R (f s i).2 t
  both : ∀ {s t i}, R s t → P i → hidden i = false →
    (f s i).1 = (g t i).1 ∧ R (f s i).2 (g t i).2

/-- **Noninterference**: the answers are those of the run without the hidden inputs. -/
theorem Unwinding.shown_eq {f : σ → ι → ω × σ} {g : τ → ι → ω × τ} {hidden : ι → Bool}
    {P : ι → Prop} {R : σ → τ → Prop} (h : Unwinding f g hidden P R) {is : List ι}
    (his : ∀ i ∈ is, P i) {s : σ} {t : τ} (hst : R s t) :
    shown f hidden s is = (runAnswers g t (is.filter fun i => !hidden i)).1 := by
  induction is generalizing s t with
  | nil => rfl
  | cons i is ih =>
    have hrest := fun j hj => his j (List.mem_cons_of_mem i hj)
    have hi := his i List.mem_cons_self
    unfold shown
    by_cases hhid : hidden i = true
    · rw [if_pos hhid, List.filter_cons_of_neg (by simp [hhid])]
      exact ih hrest (h.hide hst hi hhid)
    · obtain ⟨hanswer, hst'⟩ := h.both hst hi (Bool.not_eq_true _ ▸ hhid)
      rw [if_neg hhid, List.filter_cons_of_pos (by simp [hhid]), hanswer, ih hrest hst']
      rfl

end Bathos.Lib
