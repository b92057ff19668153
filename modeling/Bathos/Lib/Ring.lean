import Mathlib.Tactic

/-!
# Ring windows over a flat memory

A ring of `size` cells lives in a flat memory `Nat → α`. A window is given by
the index of its oldest cell and by how many cells it holds; the cells are read
modulo `size`. Nothing here depends on what owns the window: the lemmas say how
the window's contents move when cells are written, when the window grows at its
young end and when it shrinks at its old end.

Main results:

* `ringSlice_add` — a window splits into two consecutive windows;
* `ringSlice_append_blit` — a block written just after the window, without
  wrapping, appends its bytes to the contents;
* `ringSlice_blit_frame` — a block written outside the window leaves the
  contents alone.
-/

namespace Bathos.Lib

variable {α : Type*}

/-! ## Index arithmetic -/

/-- One wrap of an index, as a case split `omega` can use. -/
theorem add_mod_ite {a c size : Nat} (ha : a < size) (hc : c ≤ size) :
    (a + c) % size = if a + c < size then a + c else a + c - size := by
  split
  · rename_i h
    exact Nat.mod_eq_of_lt h
  · rename_i h
    rw [Nat.mod_eq_sub_mod (by omega), Nat.mod_eq_of_lt (by omega)]

/-! ## Windows -/

/-- The `cnt` cells of a ring of `size` cells, starting at `tail`. -/
def ringSlice (mem : Nat → α) (size tail cnt : Nat) : List α :=
  (List.range cnt).map fun i => mem ((tail + i) % size)

@[simp] theorem ringSlice_length (mem : Nat → α) (size tail cnt : Nat) :
    (ringSlice mem size tail cnt).length = cnt := by
  simp [ringSlice]

@[simp] theorem ringSlice_zero (mem : Nat → α) (size tail : Nat) :
    ringSlice mem size tail 0 = [] := rfl

theorem ringSlice_one (mem : Nat → α) {size tail : Nat} (h : tail < size) :
    ringSlice mem size tail 1 = [mem tail] := by
  simp [ringSlice, List.range_succ, Nat.mod_eq_of_lt h]

/-- The window of `a + b` cells is the window of its `a` oldest cells followed
by the window of the next `b`. -/
theorem ringSlice_add (mem : Nat → α) (size tail a b : Nat) :
    ringSlice mem size tail (a + b) =
      ringSlice mem size tail a ++ ringSlice mem size ((tail + a) % size) b := by
  rw [ringSlice, List.range_add, List.map_append, List.map_map]
  congr 1
  apply List.map_congr_left
  intro i _
  simp only [Function.comp_apply]
  rw [Nat.mod_add_mod, Nat.add_assoc]

/-- The oldest cell of a nonempty window, and the rest. -/
theorem ringSlice_succ (mem : Nat → α) {size tail : Nat} (cnt : Nat) (h : tail < size) :
    ringSlice mem size tail (cnt + 1) =
      mem tail :: ringSlice mem size ((tail + 1) % size) cnt := by
  rw [Nat.add_comm cnt 1, ringSlice_add, ringSlice_one mem h]
  rfl

/-- Taking the `a` oldest cells of a window is the window of `a` cells. -/
theorem ringSlice_take (mem : Nat → α) (size tail : Nat) {a cnt : Nat} (h : a ≤ cnt) :
    (ringSlice mem size tail cnt).take a = ringSlice mem size tail a := by
  obtain ⟨b, rfl⟩ := Nat.exists_eq_add_of_le h
  rw [ringSlice_add, List.take_append_of_le_length (by simp), List.take_of_length_le (by simp)]

/-- Dropping the `a` oldest cells moves the start of the window. -/
theorem ringSlice_drop (mem : Nat → α) (size tail : Nat) {a cnt : Nat} (h : a ≤ cnt) :
    (ringSlice mem size tail cnt).drop a =
      ringSlice mem size ((tail + a) % size) (cnt - a) := by
  obtain ⟨b, rfl⟩ := Nat.exists_eq_add_of_le h
  rw [ringSlice_add, List.drop_append_of_le_length (by simp), List.drop_of_length_le (by simp),
    Nat.add_sub_cancel_left, List.nil_append]

/-- Two memories that agree on the cells of a window give it the same contents. -/
theorem ringSlice_congr {mem mem' : Nat → α} {size tail cnt : Nat}
    (h : ∀ i < cnt, mem ((tail + i) % size) = mem' ((tail + i) % size)) :
    ringSlice mem size tail cnt = ringSlice mem' size tail cnt := by
  apply List.map_congr_left
  intro i hi
  exact h i (List.mem_range.mp hi)

/-- A window that does not wrap is read straight from memory. -/
theorem ringSlice_block (mem : Nat → α) {size tail cnt : Nat} (h : tail + cnt ≤ size) :
    ringSlice mem size tail cnt = (List.range cnt).map fun i => mem (tail + i) := by
  apply List.map_congr_left
  intro i hi
  have := List.mem_range.mp hi
  rw [Nat.mod_eq_of_lt (by omega)]

/-! ## Writing a block -/

/-- Copy the list `src` to consecutive cells from `dst` on. -/
def blit (mem : Nat → α) (dst : Nat) (src : List α) : Nat → α := fun a =>
  if dst ≤ a then (src[a - dst]?).getD (mem a) else mem a

@[simp] theorem blit_nil (mem : Nat → α) (dst : Nat) : blit mem dst [] = mem := by
  funext a
  simp [blit]

/-- Cells before and after the block keep their value. -/
theorem blit_outside (mem : Nat → α) {dst a : Nat} {src : List α}
    (h : a < dst ∨ dst + src.length ≤ a) : blit mem dst src a = mem a := by
  unfold blit
  split
  · rw [List.getElem?_eq_none (by omega)]
    rfl
  · rfl

theorem blit_inside (mem : Nat → α) {dst i : Nat} {src : List α} (hi : i < src.length) :
    src[i]? = some (blit mem dst src (dst + i)) := by
  simp [blit, hi]

/-- Writing a block changes nothing exactly when it is there already. -/
theorem blit_eq_self_iff {mem : Nat → α} {dst : Nat} {src : List α} :
    blit mem dst src = mem ↔ ∀ i < src.length, src[i]? = some (mem (dst + i)) := by
  refine ⟨fun h i hi => ?_, fun h => funext fun a => ?_⟩
  · rw [blit_inside mem hi, h]
  · by_cases ha : a < dst ∨ dst + src.length ≤ a
    · exact blit_outside mem ha
    · obtain ⟨i, rfl⟩ : ∃ i, a = dst + i := ⟨a - dst, by omega⟩
      have hi : i < src.length := by omega
      rw [← Option.some_inj, ← blit_inside mem hi, h i hi]

/-- Two blocks that do not overlap. -/
theorem blit_blit_eq_self_iff {mem : Nat → α} {dst dst' : Nat} {src src' : List α}
    (hdisj : dst + src.length ≤ dst' ∨ dst' + src'.length ≤ dst) :
    blit (blit mem dst src) dst' src' = mem ↔
      blit mem dst src = mem ∧ blit mem dst' src' = mem := by
  refine ⟨fun h => ?_, fun ⟨h, h'⟩ => by rw [h, h']⟩
  have hfirst : blit mem dst src = mem := by
    rw [blit_eq_self_iff]
    intro i hi
    have hout : blit (blit mem dst src) dst' src' (dst + i) = blit mem dst src (dst + i) :=
      blit_outside _ (by omega)
    rw [blit_inside mem hi, ← congrFun h (dst + i), hout]
  rw [hfirst] at h
  exact ⟨hfirst, h⟩

/-- The cells up to the end of a block: those before it, and the block. -/
theorem range_map_blit (mem : Nat → α) (dst : Nat) (src : List α) :
    (List.range (dst + src.length)).map (blit mem dst src) = (List.range dst).map mem ++ src := by
  rw [List.range_add, List.map_append, List.map_map]
  congr 1
  · apply List.map_congr_left
    intro a ha
    exact blit_outside mem (Or.inl (List.mem_range.mp ha))
  · apply List.ext_getElem
    · simp
    · intro i h1 h2
      simp [blit, h2]

/-- The window covered by a block that does not wrap holds the block. -/
theorem ringSlice_blit_self (mem : Nat → α) {size dst : Nat} {src : List α}
    (h : dst + src.length ≤ size) :
    ringSlice (blit mem dst src) size dst src.length = src := by
  rw [ringSlice_block _ h]
  apply List.ext_getElem
  · simp
  · intro i h1 h2
    simp [blit, h2]

/-- A block written outside a window leaves the window's contents alone. -/
theorem ringSlice_blit_frame (mem : Nat → α) {size tail cnt dst : Nat} {src : List α}
    (h : ∀ i < cnt, (tail + i) % size < dst ∨ dst + src.length ≤ (tail + i) % size) :
    ringSlice (blit mem dst src) size tail cnt = ringSlice mem size tail cnt := by
  apply ringSlice_congr
  intro i hi
  exact blit_outside mem (h i hi)

/-- The cells just after a window, up to one turn, are outside the window. -/
theorem window_outside_block {size tail cnt len i : Nat} (ht : tail < size)
    (hlen : cnt + len ≤ size) (hi : i < cnt) :
    (tail + i) % size < (tail + cnt) % size ∨
      (tail + cnt) % size + len ≤ (tail + i) % size := by
  rw [add_mod_ite ht (by omega), add_mod_ite ht (by omega)]
  split <;> split <;> omega

/-- **Append.** A block written just after the window, within one turn and
without wrapping, appends its cells to the contents. -/
theorem ringSlice_append_blit (mem : Nat → α) {size tail cnt : Nat} {src : List α}
    (ht : tail < size) (hlen : cnt + src.length ≤ size)
    (hblock : (tail + cnt) % size + src.length ≤ size) :
    ringSlice (blit mem ((tail + cnt) % size) src) size tail (cnt + src.length) =
      ringSlice mem size tail cnt ++ src := by
  rw [ringSlice_add, ringSlice_blit_self mem hblock,
    ringSlice_blit_frame mem fun i hi => window_outside_block ht hlen hi]

end Bathos.Lib
