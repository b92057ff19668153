import Mathlib.Data.List.TakeWhile
import Mathlib.Tactic.Common

/-!
# Words and pieces of a text

`words sep xs` — the maximal runs without `sep`; `pieces sep xs` — the parts that `sep`
ends, with a last one that need not be ended. Facts about either are proved by induction on
`Split`: a text is free of `sep`, or it has a part in front of its first one.
-/

namespace Bathos.Lib

variable {α : Type*} [DecidableEq α] {sep : α} {w xs ys : List α}

/-- The maximal runs without `sep`. -/
def words (sep : α) (xs : List α) : List (List α) := (xs.splitOn sep).filter fun w => !w.isEmpty

/-- The parts ended by `sep`, and what is behind the last `sep`, unless there is nothing. -/
def pieces (sep : α) (xs : List α) : List (List α) :=
  let ps := xs.splitOn sep
  if ps.getLast? = some [] then ps.dropLast else ps

/-- What is left behind the first word and the separators around it. -/
def dropWord (sep : α) (xs : List α) : List α :=
  ((xs.dropWhile (· = sep)).dropWhile (· ≠ sep)).dropWhile (· = sep)

/-- A text from its first `sep` on. -/
inductive Split (sep : α) : List α → Prop
  | last {w : List α} (hw : sep ∉ w) : Split sep w
  | cons {w xs : List α} (hw : sep ∉ w) (hxs : Split sep xs) : Split sep (w ++ sep :: xs)

theorem split (sep : α) (xs : List α) : Split sep xs := by
  induction xs with
  | nil => exact .last List.not_mem_nil
  | cons x xs ih =>
    by_cases hx : x = sep
    · subst hx
      exact .cons List.not_mem_nil ih
    · cases ih with
      | last hw => exact .last (by simp [hw, Ne.symm hx])
      | @cons w ys hw hys => exact @Split.cons α sep (x :: w) ys (by simp [hw, Ne.symm hx]) hys

theorem splitOn_append_sep (hw : sep ∉ w) (xs : List α) :
    (w ++ sep :: xs).splitOn sep = w :: xs.splitOn sep := by
  rw [List.splitOn_append_cons_self, List.splitOn_eq_singleton hw]
  rfl

-- ---------------------------------------------------------------------------
-- Words
-- ---------------------------------------------------------------------------

theorem words_append_sep (xs ys : List α) :
    words sep (xs ++ sep :: ys) = words sep xs ++ words sep ys := by
  unfold words
  rw [List.splitOn_append_cons_self, List.filter_append]

theorem words_of_notMem (hne : w ≠ []) (hw : sep ∉ w) : words sep w = [w] := by
  unfold words
  rw [List.splitOn_eq_singleton hw]
  simp [hne]

@[simp] theorem words_nil : words sep [] = [] := by simp [words]

/-- Separators in front belong to no word. -/
theorem words_replicate_append (k : Nat) (xs : List α) :
    words sep (List.replicate k sep ++ xs) = words sep xs := by
  induction k with
  | zero => rfl
  | succ k ih =>
    rw [List.replicate_succ, List.cons_append]
    have hsplit : words sep ([] ++ sep :: (List.replicate k sep ++ xs)) = _ :=
      words_append_sep [] (List.replicate k sep ++ xs)
    rw [words_nil, List.nil_append, List.nil_append] at hsplit
    rw [hsplit, ih]

/-- A word is a run of the text, and not empty. -/
theorem mem_words (h : w ∈ words sep xs) : w ≠ [] ∧ sep ∉ w ∧ w ⊆ xs := by
  have hlast : ∀ {v : List α}, sep ∉ v → w ∈ words sep v → w ≠ [] ∧ sep ∉ w ∧ w ⊆ v := by
    intro v hv hmem
    by_cases hne : v = []
    · subst hne
      rw [words_nil] at hmem
      cases hmem
    · rw [words_of_notMem hne hv, List.mem_singleton] at hmem
      subst hmem
      exact ⟨hne, hv, List.Subset.refl _⟩
  induction split sep xs with
  | last hw => exact hlast hw h
  | cons hw hxs ih =>
    rw [words_append_sep, List.mem_append] at h
    rcases h with hfirst | hrest
    · obtain ⟨hne, hsep, hsub⟩ := hlast hw hfirst
      exact ⟨hne, hsep, fun c hc => List.mem_append_left _ (hsub hc)⟩
    · obtain ⟨hne, hsep, hsub⟩ := ih hrest
      exact ⟨hne, hsep, fun c hc => List.mem_append_right _ (List.mem_cons_of_mem _ (hsub hc))⟩

-- ---------------------------------------------------------------------------
-- The first word
-- ---------------------------------------------------------------------------

/-- A text that starts with a word: it is one, or the word is followed by separators and
what is left. -/
theorem exists_word (hne : xs ≠ []) (hstart : xs.head? ≠ some sep) :
    sep ∉ xs ∨ ∃ w k ys, xs = w ++ sep :: (List.replicate k sep ++ ys) ∧ w ≠ [] ∧ sep ∉ w ∧
      ys.head? ≠ some sep := by
  rcases split sep xs with hw | @⟨w, ys, hw, -⟩
  · exact Or.inl hw
  · have htake : ys.takeWhile (· = sep) = List.replicate (ys.takeWhile (· = sep)).length sep :=
      List.eq_replicate_of_mem fun a ha => by simpa using List.mem_takeWhile_imp ha
    refine Or.inr ⟨w, (ys.takeWhile (· = sep)).length, ys.dropWhile (· = sep), ?_, ?_, hw, ?_⟩
    · rw [← htake, List.takeWhile_append_dropWhile]
    · rintro rfl
      exact hstart rfl
    · intro hhead
      have hnot := List.head?_dropWhile_not (fun a => decide (a = sep)) ys
      rw [hhead] at hnot
      simp at hnot

section FirstWord

variable {k : Nat} (hne : w ≠ []) (hw : sep ∉ w)

include hne hw

theorem words_word (k : Nat) (ys : List α) :
    words sep (w ++ sep :: (List.replicate k sep ++ ys)) = w :: words sep ys := by
  rw [words_append_sep, words_of_notMem hne hw, words_replicate_append]
  rfl

theorem dropWord_word (hstart : ys.head? ≠ some sep) :
    dropWord sep (w ++ sep :: (List.replicate k sep ++ ys)) = ys := by
  obtain ⟨a, v, rfl⟩ := List.exists_cons_of_ne_nil hne
  have ha : a ≠ sep := fun heq => hw (heq ▸ List.mem_cons_self)
  have hword : ∀ c ∈ a :: v, decide (c ≠ sep) = true := fun c hc =>
    decide_eq_true fun heq => hw (heq ▸ hc)
  have hspaces : ∀ c ∈ sep :: List.replicate k sep, decide (c = sep) = true := by
    intro c hc
    rw [← List.replicate_succ] at hc
    exact decide_eq_true (List.eq_of_mem_replicate hc)
  unfold dropWord
  rw [List.cons_append, List.dropWhile_cons_of_neg (by simpa using ha), ← List.cons_append,
    List.dropWhile_append_of_pos hword, List.dropWhile_cons_of_neg (by simp), ← List.cons_append,
    List.dropWhile_append_of_pos hspaces]
  cases ys with
  | nil => rfl
  | cons b ys =>
    refine List.dropWhile_cons_of_neg ?_
    rw [decide_eq_true_iff]
    rintro rfl
    exact hstart rfl

end FirstWord

theorem words_ne_nil (hne : xs ≠ []) (hstart : xs.head? ≠ some sep) : words sep xs ≠ [] := by
  rcases exists_word hne hstart with hxs | ⟨w, k, ys, rfl, hw, hsep, -⟩
  · rw [words_of_notMem hne hxs]
    exact List.cons_ne_nil _ _
  · rw [words_word hw hsep]
    exact List.cons_ne_nil _ _

-- ---------------------------------------------------------------------------
-- Pieces
-- ---------------------------------------------------------------------------

theorem pieces_append_sep (hw : sep ∉ w) (xs : List α) :
    pieces sep (w ++ sep :: xs) = w :: pieces sep xs := by
  obtain ⟨p, ps, hps⟩ := List.exists_cons_of_ne_nil (List.splitOn_ne_nil sep xs)
  unfold pieces
  rw [splitOn_append_sep hw, hps]
  simp only [List.getLast?_cons_cons, List.dropLast_cons_cons]
  split <;> rfl

theorem pieces_of_notMem (hne : w ≠ []) (hw : sep ∉ w) : pieces sep w = [w] := by
  unfold pieces
  rw [List.splitOn_eq_singleton hw]
  simp [hne]

@[simp] theorem pieces_nil : pieces sep ([] : List α) = [] := by simp [pieces]

end Bathos.Lib
