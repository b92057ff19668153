import Bathos.Include.Headers

/-!
# Bathos — circular buffers

What the macros of `circ_buf.h` say about a pair of indexes into a ring, and about
the bytes between them.

Main results:

* `CircIdx.window_push` — a block stored at the head that does not wrap is appended
  once the head has moved past it; until then it changes nothing
  (`CircIdx.window_store`);
* `CircIdx.window_pop`, `CircIdx.window_take` — moving the tail drops the oldest
  bytes, which are read from the tail on.
-/

namespace Bathos

open Bathos.Lib

variable {α : Type*} {mem : Nat → α} {head tail size : Nat}

/-- Two indexes into a ring. -/
structure CircIdx (head tail size : Nat) : Prop where
  size_pow : IsRingSize size
  head_lt : head < size
  tail_lt : tail < size

/-- The bytes between tail and head, oldest first. -/
def circWindow (mem : Nat → α) (head tail size : Nat) : List α :=
  ringSlice mem size tail (circCnt head tail size)

@[simp] theorem circWindow_length :
    (circWindow mem head tail size).length = circCnt head tail size :=
  ringSlice_length _ _ _ _

theorem circWindow_eq_nil_iff : circWindow mem head tail size = [] ↔ circCnt head tail size = 0 := by
  rw [← List.length_eq_zero_iff, circWindow_length]

namespace CircIdx

variable (h : CircIdx head tail size)

include h

-- ---------------------------------------------------------------------------
-- Counts
-- ---------------------------------------------------------------------------

theorem cnt_lt : circCnt head tail size < size := by
  obtain ⟨c, hc, -, hcnt⟩ := exists_window h.size_pow h.head_lt h.tail_lt
  omega

theorem head_eq : head = (tail + circCnt head tail size) % size := by
  obtain ⟨c, -, hhead, hcnt⟩ := exists_window h.size_pow h.head_lt h.tail_lt
  rw [hcnt]
  exact hhead

theorem space_eq : circSpace head tail size = size - 1 - circCnt head tail size := by
  have hw := circSpace_window h.size_pow h.tail_lt h.cnt_lt
  rwa [← h.head_eq] at hw

theorem cntToEnd_eq : circCntToEnd head tail size = min (circCnt head tail size) (size - tail) := by
  have hw := circCntToEnd_window h.size_pow h.tail_lt h.cnt_lt
  rwa [← h.head_eq] at hw

theorem spaceToEnd_eq :
    circSpaceToEnd head tail size = min (circSpace head tail size) (size - head) := by
  have hw := circSpaceToEnd_window h.size_pow h.tail_lt h.cnt_lt
  rw [← h.head_eq] at hw
  rw [hw, h.space_eq]

/-- Moving the head keeps both indexes inside. -/
theorem push (n : Nat) : CircIdx ((head + n) &&& (size - 1)) tail size := by
  refine ⟨h.size_pow, ?_, h.tail_lt⟩
  rw [h.size_pow.and_mask]
  exact Nat.mod_lt _ h.size_pow.pos

theorem pop (n : Nat) : CircIdx head ((tail + n) &&& (size - 1)) size := by
  refine ⟨h.size_pow, h.head_lt, ?_⟩
  rw [h.size_pow.and_mask]
  exact Nat.mod_lt _ h.size_pow.pos

/-- Moving the head within the free space. -/
theorem cnt_push {n : Nat} (hn : n ≤ circSpace head tail size) :
    circCnt ((head + n) &&& (size - 1)) tail size = circCnt head tail size + n := by
  have hlt := h.cnt_lt
  rw [h.space_eq] at hn
  have hhead : (head + n) &&& (size - 1) = (tail + (circCnt head tail size + n)) % size := by
    conv_lhs => rw [h.head_eq]
    exact advance_head h.size_pow n
  rw [hhead]
  exact circCnt_window h.size_pow h.tail_lt (by omega)

/-- Moving the tail within the window. -/
theorem cnt_pop {n : Nat} (hn : n ≤ circCnt head tail size) :
    circCnt head ((tail + n) &&& (size - 1)) size = circCnt head tail size - n := by
  have hlt := h.cnt_lt
  have hhead := h.head_eq
  rw [advance_tail h.size_pow hn] at hhead
  conv_lhs => rw [hhead]
  exact circCnt_window h.size_pow (h.pop n).tail_lt (by omega)

-- ---------------------------------------------------------------------------
-- Contents
-- ---------------------------------------------------------------------------

/-- A block stored at the head within the free space, without wrapping. -/
theorem window_store {src : List α} (hn : src.length ≤ circSpace head tail size) :
    circWindow (blit mem head src) head tail size = circWindow mem head tail size := by
  have hlt := h.cnt_lt
  rw [h.space_eq] at hn
  refine ringSlice_blit_frame mem fun i hi => ?_
  have hout := window_outside_block h.tail_lt
    (show circCnt head tail size + src.length ≤ size by omega) hi
  rwa [← h.head_eq] at hout

/-- **Insertion.** -/
theorem window_push {src : List α} (hn : src.length ≤ circSpace head tail size)
    (hend : head + src.length ≤ size) :
    circWindow (blit mem head src) ((head + src.length) &&& (size - 1)) tail size =
      circWindow mem head tail size ++ src := by
  have hlt := h.cnt_lt
  unfold circWindow
  rw [h.cnt_push hn]
  rw [h.space_eq] at hn
  have hend' : (tail + circCnt head tail size) % size + src.length ≤ size := by rwa [← h.head_eq]
  have happend := ringSlice_append_blit mem h.tail_lt
    (show circCnt head tail size + src.length ≤ size by omega) hend'
  rwa [← h.head_eq] at happend

/-- The head moves past a cell that was stored before. -/
theorem window_advance (hn : circSpace head tail size ≠ 0) :
    circWindow mem ((head + 1) &&& (size - 1)) tail size =
      circWindow mem head tail size ++ [mem head] := by
  have hcell : blit mem head [mem head] = mem := by
    rw [blit_eq_self_iff]
    intro i hi
    rw [List.length_singleton] at hi
    rw [show i = 0 by omega]
    rfl
  have hpush : circWindow (blit mem head [mem head]) ((head + 1) &&& (size - 1)) tail size =
      circWindow mem head tail size ++ [mem head] :=
    h.window_push (show 1 ≤ circSpace head tail size by omega) h.head_lt
  rwa [hcell] at hpush

/-- **Removal.** -/
theorem window_pop {n : Nat} (hn : n ≤ circCnt head tail size) :
    circWindow mem head ((tail + n) &&& (size - 1)) size = (circWindow mem head tail size).drop n := by
  unfold circWindow
  rw [h.cnt_pop hn, ringSlice_drop _ _ _ hn, h.size_pow.and_mask]

/-- The oldest bytes, up to the end of the buffer at most. -/
theorem window_take {n : Nat} (hn : n ≤ circCntToEnd head tail size) :
    (List.range n).map (fun i => mem (tail + i)) = (circWindow mem head tail size).take n := by
  have htail := h.tail_lt
  rw [h.cntToEnd_eq] at hn
  unfold circWindow
  rw [ringSlice_take _ _ _ (by omega), ringSlice_block mem (by omega)]

theorem window_cons (hn : circCnt head tail size ≠ 0) :
    circWindow mem head tail size =
      mem tail :: circWindow mem head ((tail + 1) &&& (size - 1)) size := by
  have hpos : 1 ≤ circCnt head tail size := Nat.one_le_iff_ne_zero.mpr hn
  rw [h.window_pop hpos]
  unfold circWindow
  obtain ⟨c, hc⟩ := Nat.exists_eq_add_of_le' hpos
  rw [hc, ringSlice_succ mem c h.tail_lt, List.drop_one, List.tail_cons]

end CircIdx

end Bathos
