import Mathlib.Tactic
import Mathlib.Algebra.Group.Defs

/-!
# Streams cut into chunks

A handler takes chunks of letters, each with the key of the source it comes from,
changes a state and puts out an element of a monoid. A stream is a list of
letters with their keys; a chunking cuts it into chunks of letters with one key.

Main result: `chunking_irrelevant_iff` — if a chunk always leads to the state its
letters lead to one by one, then all chunkings of a stream have the same result
exactly when every piece of the stream that fits into a chunk puts out, as one
chunk, what its letters put out one by one.
-/

namespace Bathos.Lib

variable {σ ι κ α M : Type*}

/-- The run of a machine with outputs. -/
def runOut [Monoid M] (handle : σ → ι → σ × M) (s : σ) : List ι → σ × M
  | [] => (s, 1)
  | i :: is =>
    ((runOut handle (handle s i).1 is).1, (handle s i).2 * (runOut handle (handle s i).1 is).2)

@[simp] theorem runOut_nil [Monoid M] (handle : σ → ι → σ × M) (s : σ) :
    runOut handle s [] = (s, 1) := rfl

theorem runOut_cons [Monoid M] (handle : σ → ι → σ × M) (s : σ) (i : ι) (is : List ι) :
    runOut handle s (i :: is) =
      ((runOut handle (handle s i).1 is).1,
        (handle s i).2 * (runOut handle (handle s i).1 is).2) := rfl

theorem runOut_append [Monoid M] (handle : σ → ι → σ × M) (s : σ) (is js : List ι) :
    runOut handle s (is ++ js) =
      ((runOut handle (runOut handle s is).1 js).1,
        (runOut handle s is).2 * (runOut handle (runOut handle s is).1 js).2) := by
  induction is generalizing s with
  | nil => simp
  | cons i is ih =>
    rw [List.cons_append, runOut_cons, runOut_cons, ih]
    simp only [mul_assoc]

/-- The letters of a chunk, each with the key. -/
def letters (c : κ × List α) : List (κ × α) := c.2.map fun a => (c.1, a)

/-- Every letter a chunk of its own. -/
def singles (w : List (κ × α)) : List (κ × List α) := w.map fun x => (x.1, [x.2])

theorem singles_append (w w' : List (κ × α)) : singles (w ++ w') = singles w ++ singles w' :=
  List.map_append

/-- `cs` cuts the stream `w` into chunks of one to `limit` letters. -/
structure Cuts (limit : Nat) (cs : List (κ × List α)) (w : List (κ × α)) : Prop where
  whole : cs.flatMap letters = w
  size : ∀ c ∈ cs, c.2 ≠ [] ∧ c.2.length ≤ limit

theorem cuts_singles {limit : Nat} (hlimit : 1 ≤ limit) (w : List (κ × α)) :
    Cuts limit (singles w) w := by
  refine ⟨?_, ?_⟩
  · induction w with
    | nil => rfl
    | cons x w ih =>
      show letters (x.1, [x.2]) ++ (singles w).flatMap letters = x :: w
      rw [ih]
      rfl
  · intro c hc
    obtain ⟨x, -, rfl⟩ := List.mem_map.mp hc
    exact ⟨List.cons_ne_nil _ _, hlimit⟩

variable [CancelMonoid M] {handle : σ → κ × List α → σ × M}

/-- The pieces of `w` that fit into a chunk come out as their letters do. -/
def PiecesAgree (limit : Nat) (handle : σ → κ × List α → σ × M) (s : σ) (w : List (κ × α)) : Prop :=
  ∀ pre c post, w = pre ++ letters c ++ post → c.2 ≠ [] → c.2.length ≤ limit →
    handle (runOut handle s (singles pre)).1 c =
      runOut handle (runOut handle s (singles pre)).1 (singles (letters c))

theorem PiecesAgree.runOut_eq {limit : Nat} {s : σ} {w : List (κ × α)}
    (h : PiecesAgree limit handle s w) {cs : List (κ × List α)} (hcuts : Cuts limit cs w) :
    runOut handle s cs = runOut handle s (singles w) := by
  induction cs generalizing s w with
  | nil =>
    rw [← hcuts.whole]
    rfl
  | cons c cs ih =>
    have hw : w = letters c ++ cs.flatMap letters := hcuts.whole.symm
    obtain ⟨hne, hlen⟩ := hcuts.size c List.mem_cons_self
    have hfirst : handle s c = runOut handle s (singles (letters c)) :=
      h [] c (cs.flatMap letters) hw hne hlen
    -- The rest of the stream, from the state after the chunk.
    have hrest : PiecesAgree limit handle (runOut handle s (singles (letters c))).1
        (cs.flatMap letters) := by
      intro pre d post hd hdne hdlen
      have hpiece := h (letters c ++ pre) d post (by rw [hw, hd]; simp) hdne hdlen
      rw [singles_append, runOut_append] at hpiece
      exact hpiece
    have hcuts' : Cuts limit cs (cs.flatMap letters) :=
      ⟨rfl, fun d hd => hcuts.size d (List.mem_cons_of_mem _ hd)⟩
    rw [hw, singles_append, runOut_append, ← ih hrest hcuts', ← hfirst]
    rfl

/-- **Independence of the chunking.** -/
theorem chunking_irrelevant_iff {limit : Nat} (hlimit : 1 ≤ limit)
    (hstate : ∀ s c, c.2 ≠ [] → (handle s c).1 = (runOut handle s (singles (letters c))).1)
    (s : σ) (w : List (κ × α)) :
    (∀ cs cs', Cuts limit cs w → Cuts limit cs' w → runOut handle s cs = runOut handle s cs') ↔
      PiecesAgree limit handle s w := by
  refine ⟨fun hsame pre c post hw hne hlen => ?_, fun h cs cs' hcuts hcuts' => ?_⟩
  · -- One letter at a time, but for the piece.
    have hpre := cuts_singles hlimit pre
    have hpost := cuts_singles hlimit post
    have hcuts : Cuts limit (singles pre ++ c :: singles post) w := by
      refine ⟨?_, ?_⟩
      · rw [List.flatMap_append, List.flatMap_cons, hpre.whole, hpost.whole, hw, List.append_assoc]
      · intro d hd
        rcases List.mem_append.mp hd with hd | hd
        · exact hpre.size d hd
        · rcases List.mem_cons.mp hd with rfl | hd
          · exact ⟨hne, hlen⟩
          · exact hpost.size d hd
    have heq := hsame _ _ hcuts (cuts_singles hlimit w)
    rw [hw, List.append_assoc, singles_append, singles_append, runOut_append, runOut_append,
      runOut_append, runOut_cons] at heq
    obtain ⟨-, hout⟩ := Prod.mk.inj heq
    have hafter := hstate (runOut handle s (singles pre)).1 c hne
    refine Prod.ext hafter ?_
    rw [hafter] at hout
    exact mul_right_cancel (mul_left_cancel hout)
  · rw [h.runOut_eq hcuts, h.runOut_eq hcuts']

end Bathos.Lib
