import Bathos.Lib.Ring

/-!
# Blocks of a flat memory

`block mem addr n` are the `n` cells from `addr` on. The lemmas say what a block
holds after another one has been copied over it, beside it, or into its start.
-/

namespace Bathos.Lib

variable {α : Type*}

/-- The `n` cells from `addr` on. -/
def block (mem : Nat → α) (addr n : Nat) : List α := (List.range n).map fun i => mem (addr + i)

@[simp] theorem block_length (mem : Nat → α) (addr n : Nat) : (block mem addr n).length = n := by
  simp [block]

@[simp] theorem block_zero (mem : Nat → α) (addr : Nat) : block mem addr 0 = [] := rfl

theorem block_congr {mem mem' : Nat → α} {addr n : Nat}
    (h : ∀ i < n, mem (addr + i) = mem' (addr + i)) : block mem addr n = block mem' addr n := by
  apply List.map_congr_left
  intro i hi
  exact h i (List.mem_range.mp hi)

theorem block_take (mem : Nat → α) (addr : Nat) {k n : Nat} (h : k ≤ n) :
    (block mem addr n).take k = block mem addr k := by
  unfold block
  rw [← List.map_take, List.take_range, Nat.min_eq_left h]

/-- A block just copied. -/
theorem block_blit_self (mem : Nat → α) (addr : Nat) (src : List α) :
    block (blit mem addr src) addr src.length = src := by
  apply List.ext_getElem
  · simp
  · intro i h1 h2
    simp [block, blit, h2]

/-- A copy elsewhere leaves a block alone. -/
theorem block_blit_frame (mem : Nat → α) {addr n dst : Nat} {src : List α}
    (h : addr + n ≤ dst ∨ dst + src.length ≤ addr) :
    block (blit mem dst src) addr n = block mem addr n := by
  apply block_congr
  intro i hi
  exact blit_outside mem (by omega)

/-- Two blocks side by side. -/
theorem block_add (mem : Nat → α) (addr n k : Nat) :
    block mem addr (n + k) = block mem addr n ++ block mem (addr + n) k := by
  have hshift : (List.range k).map (fun i => mem (addr + (n + i))) = block mem (addr + n) k := by
    unfold block
    simp only [Nat.add_assoc]
  rw [← hshift]
  simp [block, List.range_add]

/-- A copy right behind a block extends it. -/
theorem block_blit_append (mem : Nat → α) (addr n : Nat) (src : List α) :
    block (blit mem (addr + n) src) addr (n + src.length) = block mem addr n ++ src := by
  rw [block_add, block_blit_frame mem (Or.inl le_rfl), block_blit_self]

/-- A copy writes its first cell, and then the others. -/
theorem blit_cons (mem : Nat → α) (dst : Nat) (x : α) (src : List α) :
    blit mem dst (x :: src) = blit (Function.update mem dst x) (dst + 1) src := by
  funext a
  rcases Nat.lt_trichotomy a dst with hlt | rfl | hgt
  · rw [blit_outside mem (Or.inl hlt), blit_outside _ (Or.inl (hlt.trans dst.lt_succ_self)),
      Function.update_of_ne hlt.ne]
  · rw [blit_outside _ (Or.inl a.lt_succ_self), Function.update_self]
    simp [blit]
  · have hindex : a - dst = a - (dst + 1) + 1 := by omega
    have hle : dst + 1 ≤ a := hgt
    unfold blit
    rw [Function.update_of_ne hgt.ne', hindex]
    simp [hgt.le, hle]

/-- Two copies one behind the other. -/
theorem blit_append (mem : Nat → α) (dst : Nat) (src src' : List α) :
    blit (blit mem dst src) (dst + src.length) src' = blit mem dst (src ++ src') := by
  induction src generalizing mem dst with
  | nil => rw [blit_nil, List.length_nil, Nat.add_zero, List.nil_append]
  | cons x src ih =>
    rw [blit_cons, List.cons_append, blit_cons, List.length_cons, Nat.add_comm src.length,
      ← Nat.add_assoc, ih]

/-- The first cell of a block, and the others. -/
theorem block_cons (mem : Nat → α) (addr n : Nat) :
    block mem addr (n + 1) = mem addr :: block mem (addr + 1) n := by
  rw [Nat.add_comm n 1, block_add]
  rfl

end Bathos.Lib
