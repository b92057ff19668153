import Bathos.Lib.Memory

/-!
# Writes cut at the pages of a memory

`Pages P offset bs cs` — the pieces `cs` are `bs`, which starts at `offset`, cut at
multiples of `P`. The pieces cover `bs` in order (`Pages.cover`), none of them crosses a
page (`Pages.size`), and writing them one by one writes `bs` (`Pages.foldl_blit`).
-/

namespace Bathos.Lib

variable {α : Type*} {P offset : Nat} {bs : List α} {cs : List (Nat × List α)}

/-- `bs` at `offset`, cut at the ends of pages of `P` cells: each piece with its offset. -/
inductive Pages (P : Nat) : Nat → List α → List (Nat × List α) → Prop
  | nil (offset : Nat) : Pages P offset [] []
  | cons {offset : Nat} {piece rest : List α} {cs : List (Nat × List α)} (hne : piece ≠ [])
      (hfits : offset % P + piece.length ≤ P) (hrest : Pages P (offset + piece.length) rest cs) :
      Pages P offset (piece ++ rest) ((offset, piece) :: cs)

namespace Pages

/-- The cells of the pieces are those of the whole, in their order. -/
theorem cover (h : Pages P offset bs cs) :
    cs.flatMap (fun c => c.2.zipIdx c.1) = bs.zipIdx offset := by
  induction h with
  | nil offset => rfl
  | cons hne hfits hrest ih => rw [List.flatMap_cons, ih, List.zipIdx_append]

/-- No piece is empty, and none crosses a page. -/
theorem size (h : Pages P offset bs cs) : ∀ c ∈ cs, c.2 ≠ [] ∧ c.1 % P + c.2.length ≤ P := by
  induction h with
  | nil offset => exact fun c hc => absurd hc List.not_mem_nil
  | cons hne hfits hrest ih =>
    intro c hc
    rcases List.mem_cons.mp hc with rfl | hc
    · exact ⟨hne, hfits⟩
    · exact ih c hc

/-- A piece that ends where `bs` ends, or at the end of its page. -/
theorem take_drop {i : Nat} (hi : 0 < i) (hbs : i ≤ bs.length) (hfits : offset % P + i ≤ P)
    (h : Pages P (offset + i) (bs.drop i) cs) :
    Pages P offset bs ((offset, bs.take i) :: cs) := by
  have hlength : (bs.take i).length = i := by rw [List.length_take, Nat.min_eq_left hbs]
  have hne : bs.take i ≠ [] := by
    rw [← List.length_pos_iff, hlength]
    exact hi
  have hwhole := @Pages.cons α P offset (bs.take i) (bs.drop i) cs hne (by rwa [hlength])
    (by rwa [hlength])
  rwa [List.take_append_drop] at hwhole

/-- Writing the pieces writes the whole. -/
theorem foldl_blit (h : Pages P offset bs cs) (mem : Nat → α) :
    cs.foldl (fun mem c => blit mem c.1 c.2) mem = blit mem offset bs := by
  induction h generalizing mem with
  | nil offset => rw [List.foldl_nil, blit_nil]
  | cons hne hfits hrest ih => rw [List.foldl_cons, ih, blit_append]

end Pages

end Bathos.Lib
