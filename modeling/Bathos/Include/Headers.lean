import Bathos.Lib.Ring

/-!
# Bathos — shared headers

The macros that every subsystem of the model uses, as the headers spell them:

* `errno.h` — the error numbers;
* `gpio.h` — the flags of the GPIO events;
* `circ_buf.h` — `CIRC_CNT`, `CIRC_SPACE` and their `_TO_END` forms. The
  difference of two indexes is a C `int`: it is taken modulo `2 ^ 32` before
  the mask is applied, so a negative difference wraps as two's complement does;
* `jiffies.h` — `time_after` / `time_before`, the sign of the difference of two
  `unsigned long` values taken modulo `2 ^ w`.

For a ring whose size is a power of two the masks are remainders. The lemmas
below say so once (`circCnt_window`, `circSpace_window`, `circCntToEnd_window`,
`circSpaceToEnd_window`), in terms of the window of `Lib/Ring.lean`: a ring with
oldest index `tail` that holds `cnt` cells has `head = (tail + cnt) % size`.
-/

namespace Bathos

open Bathos.Lib

/-! ## errno.h -/

def EPERM : Int := 1
def ENXIO : Int := 6
def EBADF : Int := 9
def EAGAIN : Int := 11
def ENOMEM : Int := 12
def EACCES : Int := 13
def ENODEV : Int := 19
def EINVAL : Int := 22
def ENFILE : Int := 23
def ENOSYS : Int := 38
def ETIMEDOUT : Int := 110

/-! ## gpio.h -/

def GPIO_EVT_RISING : UInt8 := 0x01
def GPIO_EVT_FALLING : UInt8 := 0x02
def GPIO_EVT_HIGH : UInt8 := 0x04
def GPIO_EVT_LOW : UInt8 := 0x08
def GPIO_EVT_ENABLE : UInt8 := 0x80

/-- `flags & flag`, as a truth value. -/
def hasFlag (flags flag : UInt8) : Bool := decide (flags &&& flag ≠ 0)

/-! ## circ_buf.h -/

/-- `CIRC_CNT(head, tail, size)`: `((head) - (tail)) & ((size) - 1)`. -/
def circCnt (head tail size : Nat) : Nat := (2 ^ 32 + head - tail) &&& (size - 1)

/-- `CIRC_SPACE(head, tail, size)`: `CIRC_CNT((tail), ((head) + 1), (size))`. -/
def circSpace (head tail size : Nat) : Nat := circCnt tail (head + 1) size

/-- `CIRC_CNT_TO_END(head, tail, size)`. -/
def circCntToEnd (head tail size : Nat) : Nat :=
  let toEnd := size - tail
  let n := (head + toEnd) &&& (size - 1)
  if n < toEnd then n else toEnd

/-- `CIRC_SPACE_TO_END(head, tail, size)`. -/
def circSpaceToEnd (head tail size : Nat) : Nat :=
  let toEnd := size - 1 - head
  let n := (toEnd + tail) &&& (size - 1)
  if n ≤ toEnd then n else toEnd + 1

/-- A ring size the macros are meant for: a power of two that fits an `int`. -/
def IsRingSize (size : Nat) : Prop := ∃ k ≤ 30, size = 2 ^ k

theorem IsRingSize.pos {size : Nat} (h : IsRingSize size) : 0 < size := by
  obtain ⟨k, -, rfl⟩ := h
  exact Nat.two_pow_pos k

theorem IsRingSize.lt {size : Nat} (h : IsRingSize size) : size < 2 ^ 32 := by
  obtain ⟨k, hk, rfl⟩ := h
  exact Nat.pow_lt_pow_right (by decide) (by omega)

/-- Masking with `size - 1` is the remainder modulo `size`. -/
theorem IsRingSize.and_mask {size : Nat} (h : IsRingSize size) (x : Nat) :
    x &&& (size - 1) = x % size := by
  obtain ⟨k, -, rfl⟩ := h
  exact Nat.and_two_pow_sub_one_eq_mod x k

theorem IsRingSize.dvd {size : Nat} (h : IsRingSize size) : size ∣ 2 ^ 32 := by
  obtain ⟨k, hk, rfl⟩ := h
  exact Nat.pow_dvd_pow 2 (by omega)

/-- The masked difference of two indexes, the subtrahend at most `size`. -/
theorem circCnt_eq {head tail size : Nat} (h : IsRingSize size) (ht : tail ≤ size) :
    circCnt head tail size = (head + (size - tail)) % size := by
  have hlt := h.lt
  rw [circCnt, h.and_mask]
  obtain ⟨q, hq⟩ := h.dvd
  have hq1 : 1 ≤ q := by
    rcases Nat.eq_zero_or_pos q with rfl | hpos
    · simp at hq
    · exact hpos
  have hsplit : 2 ^ 32 + head - tail = head + (size - tail) + size * (q - 1) := by
    have hmul : size * q = size * (q - 1) + size := by
      rw [Nat.mul_sub, Nat.mul_one]
      have : size ≤ size * q := Nat.le_mul_of_pos_right size hq1
      omega
    omega
  rw [hsplit, Nat.add_mul_mod_self_left]

section Window

variable {size tail cnt : Nat}

/-- `CIRC_CNT` of a window is the number of cells it holds. -/
theorem circCnt_window (h : IsRingSize size) (ht : tail < size) (hc : cnt < size) :
    circCnt ((tail + cnt) % size) tail size = cnt := by
  rw [circCnt_eq h (by omega), add_mod_ite ht (by omega)]
  split
  · rw [show tail + cnt + (size - tail) = cnt + size by omega, Nat.add_mod_right,
      Nat.mod_eq_of_lt hc]
  · rw [show tail + cnt - size + (size - tail) = cnt by omega, Nat.mod_eq_of_lt hc]

/-- `CIRC_SPACE` of a window: one cell always stays unused. -/
theorem circSpace_window (h : IsRingSize size) (ht : tail < size) (hc : cnt < size) :
    circSpace ((tail + cnt) % size) tail size = size - 1 - cnt := by
  have hh : (tail + cnt) % size < size := Nat.mod_lt _ h.pos
  rw [circSpace, circCnt_eq h (by omega), add_mod_ite (c := cnt) ht hc.le]
  split
  · rw [show tail + (size - (tail + cnt + 1)) = size - 1 - cnt by omega,
      Nat.mod_eq_of_lt (by omega)]
  · rw [show tail + (size - (tail + cnt - size + 1)) = size - 1 - cnt + size by omega,
      Nat.add_mod_right, Nat.mod_eq_of_lt (by omega)]

/-- `CIRC_CNT_TO_END` of a window: the cells that can be read without wrapping. -/
theorem circCntToEnd_window (h : IsRingSize size) (ht : tail < size) (hc : cnt < size) :
    circCntToEnd ((tail + cnt) % size) tail size = min cnt (size - tail) := by
  have hn : ((tail + cnt) % size + (size - tail)) &&& (size - 1) = cnt := by
    rw [h.and_mask, ← circCnt_eq h (by omega), circCnt_window h ht hc]
  rw [circCntToEnd]
  simp only [hn]
  split <;> omega

/-- `CIRC_SPACE_TO_END` of a window: the cells that can be written without
wrapping. -/
theorem circSpaceToEnd_window (h : IsRingSize size) (ht : tail < size) (hc : cnt < size) :
    circSpaceToEnd ((tail + cnt) % size) tail size =
      min (size - 1 - cnt) (size - (tail + cnt) % size) := by
  have hh : (tail + cnt) % size < size := Nat.mod_lt _ h.pos
  have hn : (size - 1 - (tail + cnt) % size + tail) &&& (size - 1) = size - 1 - cnt := by
    rw [h.and_mask, ← circSpace_window h ht hc, circSpace, circCnt_eq h (by omega)]
    congr 1
    omega
  rw [circSpaceToEnd]
  simp only [hn]
  split <;> omega

/-- Advancing the head of a window by `l` cells, as the code masks it. -/
theorem advance_head (h : IsRingSize size) (l : Nat) :
    ((tail + cnt) % size + l) &&& (size - 1) = (tail + (cnt + l)) % size := by
  rw [h.and_mask, Nat.mod_add_mod, Nat.add_assoc]

/-- Advancing the tail of a window by `l` of its cells keeps its head. -/
theorem advance_tail (h : IsRingSize size) {l : Nat} (hl : l ≤ cnt) :
    (tail + cnt) % size = (((tail + l) &&& (size - 1)) + (cnt - l)) % size := by
  rw [h.and_mask, Nat.mod_add_mod]
  congr 1
  omega

/-- Every pair of indexes below `size` is a window. -/
theorem exists_window {head : Nat} (h : IsRingSize size) (hh : head < size) (ht : tail < size) :
    ∃ cnt < size, head = (tail + cnt) % size ∧ circCnt head tail size = cnt := by
  refine ⟨(head + (size - tail)) % size, Nat.mod_lt _ h.pos, ?_, circCnt_eq h ht.le⟩
  rw [Nat.add_mod_mod, show tail + (head + (size - tail)) = head + size by omega,
    Nat.add_mod_right, Nat.mod_eq_of_lt hh]

end Window

/-! ## jiffies.h -/

/-- `time_after(a, b)`: `((long)(b) - (long)(a) < 0)`, the difference taken
modulo `2 ^ w`. -/
def timeAfter {w : Nat} (a b : BitVec w) : Bool := decide ((b - a).toInt < 0)

/-- `time_before(a, b)`: `time_after(b, a)`. -/
def timeBefore {w : Nat} (a b : BitVec w) : Bool := timeAfter b a

/-- `time_after_eq(a, b)`: `((long)(a) - (long)(b) >= 0)`. -/
def timeAfterEq {w : Nat} (a b : BitVec w) : Bool := decide (0 ≤ (a - b).toInt)

/-- `time_before_eq(a, b)`: `time_after_eq(b, a)`. -/
def timeBeforeEq {w : Nat} (a b : BitVec w) : Bool := timeAfterEq b a

end Bathos
