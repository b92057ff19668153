import Mathlib.Tactic

/-!
# Dyadic blocks

A dyadic block of order `o` is a run of `2 ^ o` consecutive units that starts at
a multiple of `2 ^ o`; it is stored as its order and its number among the blocks
of that order, so an unaligned block cannot be written down. Two blocks that
share a unit are nested, every block of positive order is the disjoint union of
its two halves, and the two halves of one block are each other's buddy.

`Layout m F L` says that a set `F` of free blocks and a set `L` of live blocks
together cut the units `0 .. 2 ^ m - 1` into disjoint blocks. The section on
layouts gives the rules a buddy allocator needs: halving a free block
(`Layout.split`), joining two free buddies (`Layout.merge`), and moving a block
between the two sets (`Layout.take`, `Layout.give`).

Main results:

* `Layout.free_unique` — when no two buddies are free together (`Coalesced`),
  the free blocks are determined by the live ones;
* `Layout.coalesced_carve` — carving a live block out of a free one along its
  left edge keeps a coalesced layout coalesced.
-/

namespace Bathos.Lib

/-- A run of `2 ^ order` units starting at unit `num * 2 ^ order`. -/
structure Block where
  order : Nat
  num : Nat
deriving DecidableEq, Repr

namespace Block

/-- First unit of the block. -/
def start (b : Block) : Nat := b.num * 2 ^ b.order

/-- The unit `u` belongs to the block. -/
def Has (b : Block) (u : Nat) : Prop := u / 2 ^ b.order = b.num

/-- The block lies inside the units `0 .. 2 ^ m - 1`. -/
def Fits (m : Nat) (b : Block) : Prop := b.order ≤ m ∧ b.num < 2 ^ (m - b.order)

/-- The lower half. -/
def left (b : Block) : Block := ⟨b.order - 1, 2 * b.num⟩

/-- The upper half. -/
def right (b : Block) : Block := ⟨b.order - 1, 2 * b.num + 1⟩

/-- The block of the next order that contains this one. -/
def parent (b : Block) : Block := ⟨b.order + 1, b.num / 2⟩

/-- The other half of the parent. -/
def buddy (b : Block) : Block :=
  ⟨b.order, if b.num % 2 = 0 then b.num + 1 else b.num - 1⟩

/-- The block of order `o` at the left edge of `b`. -/
def leftmost (b : Block) (o : Nat) : Block := ⟨o, b.num * 2 ^ (b.order - o)⟩

theorem has_iff {b : Block} {u : Nat} :
    b.Has u ↔ b.start ≤ u ∧ u < b.start + 2 ^ b.order := by
  have hpos : 0 < 2 ^ b.order := Nat.two_pow_pos _
  rw [Has, start, Nat.div_eq_iff hpos]
  omega

theorem has_start (b : Block) : b.Has b.start :=
  Nat.mul_div_cancel _ (Nat.two_pow_pos _)

theorem Has.lt_of_fits {b : Block} {u m : Nat} (h : b.Has u) (hf : b.Fits m) : u < 2 ^ m := by
  have hm : 2 ^ (m - b.order) * 2 ^ b.order = 2 ^ m := by
    rw [← Nat.pow_add, Nat.sub_add_cancel hf.1]
  have hle : (b.num + 1) * 2 ^ b.order ≤ 2 ^ (m - b.order) * 2 ^ b.order :=
    Nat.mul_le_mul_right _ hf.2
  have := (has_iff.mp h).2
  rw [start] at this
  rw [Nat.add_mul, Nat.one_mul] at hle
  omega

/-- Dividing further up goes through the number of the smaller block. -/
theorem Has.div_eq {b : Block} {u o : Nat} (h : b.Has u) (ho : b.order ≤ o) :
    u / 2 ^ o = b.num / 2 ^ (o - b.order) := by
  obtain ⟨d, rfl⟩ := Nat.exists_eq_add_of_le ho
  rw [Nat.add_sub_cancel_left, Nat.pow_add, ← Nat.div_div_eq_div_mul, h]

/-- **Nesting.** Of two blocks that share a unit, the larger contains the
smaller. -/
theorem Has.nested {b c : Block} {u v : Nat} (hb : b.Has u) (hc : c.Has u)
    (ho : b.order ≤ c.order) (hv : b.Has v) : c.Has v := by
  rw [Has, hv.div_eq ho, ← hb.div_eq ho]
  exact hc

theorem Has.eq_of_order {b c : Block} {u : Nat} (hb : b.Has u) (hc : c.Has u)
    (ho : b.order = c.order) : b = c := by
  cases b
  cases c
  simp only [Has] at hb hc ho
  subst ho
  rw [← hb, ← hc]

/-! ## Halves and buddies -/

theorem has_left_or_right {b : Block} (ho : 0 < b.order) {u : Nat} :
    b.Has u ↔ b.left.Has u ∨ b.right.Has u := by
  have hpow : u / 2 ^ b.order = u / 2 ^ (b.order - 1) / 2 := by
    rw [Nat.div_div_eq_div_mul, ← Nat.pow_succ, Nat.succ_eq_add_one, Nat.sub_add_cancel ho]
  simp only [Has, left, right, hpow]
  omega

theorem left_ne_right (b : Block) : b.left ≠ b.right := by
  simp [left, right]

theorem not_left_and_right {b : Block} {u : Nat} (hl : b.left.Has u) (hr : b.right.Has u) :
    False :=
  left_ne_right b (hl.eq_of_order hr rfl)

theorem left_fits {b : Block} {m : Nat} (ho : 0 < b.order) (h : b.Fits m) : b.left.Fits m := by
  have hle := h.1
  have hpow : 2 ^ (m - (b.order - 1)) = 2 * 2 ^ (m - b.order) := by
    rw [show m - (b.order - 1) = m - b.order + 1 by omega, Nat.pow_succ, Nat.mul_comm]
  have hlt := h.2
  constructor
  · simp only [left]
    omega
  · simp only [left]
    rw [hpow]
    omega

theorem right_fits {b : Block} {m : Nat} (ho : 0 < b.order) (h : b.Fits m) : b.right.Fits m := by
  have hle := h.1
  have hpow : 2 ^ (m - (b.order - 1)) = 2 * 2 ^ (m - b.order) := by
    rw [show m - (b.order - 1) = m - b.order + 1 by omega, Nat.pow_succ, Nat.mul_comm]
  have hlt := h.2
  constructor
  · simp only [right]
    omega
  · simp only [right]
    rw [hpow]
    omega

@[simp] theorem buddy_order (b : Block) : b.buddy.order = b.order := rfl

@[simp] theorem buddy_buddy (b : Block) : b.buddy.buddy = b := by
  cases b with
  | mk o n =>
    simp only [buddy, Block.mk.injEq, true_and]
    split <;> split <;> omega

theorem buddy_left {b : Block} : b.left.buddy = b.right := by
  simp [buddy, left, right]

/-- The halves of the parent are the block and its buddy, in some order. -/
theorem parent_halves (b : Block) :
    (b.parent.left = b ∧ b.parent.right = b.buddy) ∨
      (b.parent.left = b.buddy ∧ b.parent.right = b) := by
  cases b with
  | mk o n =>
    simp only [parent, left, right, buddy, Block.mk.injEq, Nat.add_sub_cancel, true_and]
    split <;> omega

theorem parent_fits {b : Block} {m : Nat} (h : b.Fits m) (ho : b.order < m) :
    b.parent.Fits m := by
  have hpow : 2 ^ (m - b.order) = 2 * 2 ^ (m - (b.order + 1)) := by
    rw [show m - b.order = m - (b.order + 1) + 1 by omega, Nat.pow_succ, Nat.mul_comm]
  have hlt := h.2
  constructor
  · exact ho
  · simp only [parent]
    omega

theorem buddy_fits {b : Block} {m : Nat} (h : b.Fits m) (ho : b.order < m) :
    b.buddy.Fits m := by
  have hp := parent_fits h ho
  have hpos : 0 < b.parent.order := Nat.succ_pos _
  rcases parent_halves b with ⟨-, hr⟩ | ⟨hl, -⟩
  · exact hr ▸ right_fits hpos hp
  · exact hl ▸ left_fits hpos hp

theorem has_parent {b : Block} {u : Nat} :
    b.parent.Has u ↔ b.Has u ∨ b.buddy.Has u := by
  rw [has_left_or_right (by simp [parent])]
  rcases parent_halves b with ⟨hl, hr⟩ | ⟨hl, hr⟩
  · rw [hl, hr]
  · rw [hl, hr]
    exact or_comm

end Block

/-! ## Layouts -/

/-- The free blocks `F` and the live blocks `L` together partition the units
`0 .. 2 ^ m - 1`: every block lies inside, every unit is in a block, no unit is
in two, and no block is both free and live. -/
structure Layout (m : Nat) (F L : Set Block) : Prop where
  fits : ∀ b ∈ F ∪ L, b.Fits m
  cover : ∀ u < 2 ^ m, ∃ b ∈ F ∪ L, b.Has u
  unique : ∀ b ∈ F ∪ L, ∀ c ∈ F ∪ L, ∀ u, b.Has u → c.Has u → b = c
  disjoint : ∀ b ∈ F, b ∉ L

/-- No two buddies below order `m` are both in `F`. -/
def Coalesced (m : Nat) (F : Set Block) : Prop :=
  ∀ b ∈ F, b.order < m → b.buddy ∉ F

namespace Layout

variable {m : Nat} {F F' L : Set Block} {b : Block}

/-- The undivided layout. -/
theorem whole (m : Nat) : Layout m {⟨m, 0⟩} ∅ where
  fits := by
    rintro c (rfl | hc)
    · exact ⟨le_rfl, by simp⟩
    · exact hc.elim
  cover := by
    intro u hu
    exact ⟨⟨m, 0⟩, Or.inl rfl, Nat.div_eq_of_lt hu⟩
  unique := by
    rintro c (rfl | hc) d (rfl | hd) u _ _
    · rfl
    · exact hd.elim
    · exact hc.elim
    · exact hc.elim
  disjoint := fun _ _ h => h

/-- Replacing a family of free blocks by another one that covers the same units
and is disjoint in itself keeps the layout. Halving and joining are the two
instances. -/
theorem replace {A B : Set Block} (h : Layout m F L) (hA : A ⊆ F)
    (hfits : ∀ b ∈ B, b.Fits m)
    (hcover : ∀ u, (∃ a ∈ A, a.Has u) ↔ ∃ b ∈ B, b.Has u)
    (hunique : ∀ b ∈ B, ∀ c ∈ B, ∀ u, b.Has u → c.Has u → b = c) :
    Layout m (B ∪ (F \ A)) L where
  fits := by
    rintro c ((hc | hc) | hc)
    · exact hfits c hc
    · exact h.fits c (Or.inl hc.1)
    · exact h.fits c (Or.inr hc)
  cover := by
    intro u hu
    obtain ⟨c, hc, hcu⟩ := h.cover u hu
    by_cases hcA : c ∈ A
    · obtain ⟨d, hd, hdu⟩ := (hcover u).mp ⟨c, hcA, hcu⟩
      exact ⟨d, Or.inl (Or.inl hd), hdu⟩
    · rcases hc with hc | hc
      · exact ⟨c, Or.inl (Or.inr ⟨hc, hcA⟩), hcu⟩
      · exact ⟨c, Or.inr hc, hcu⟩
  unique := by
    -- a unit of a new block was a unit of a replaced one, so it is in no other block
    have hold : ∀ c ∈ F ∪ L, c ∉ A → ∀ d ∈ B, ∀ u, c.Has u → d.Has u → False := by
      intro c hc hcA d hd u hcu hdu
      obtain ⟨a, ha, hau⟩ := (hcover u).mpr ⟨d, hd, hdu⟩
      exact hcA (h.unique a (Or.inl (hA ha)) c hc u hau hcu ▸ ha)
    have hlive : ∀ c ∈ L, c ∉ A := fun c hc hcA => h.disjoint c (hA hcA) hc
    rintro c ((hc | hc) | hc) d ((hd | hd) | hd) u hcu hdu
    · exact hunique c hc d hd u hcu hdu
    · exact (hold d (Or.inl hd.1) hd.2 c hc u hdu hcu).elim
    · exact (hold d (Or.inr hd) (hlive d hd) c hc u hdu hcu).elim
    · exact (hold c (Or.inl hc.1) hc.2 d hd u hcu hdu).elim
    · exact h.unique c (Or.inl hc.1) d (Or.inl hd.1) u hcu hdu
    · exact h.unique c (Or.inl hc.1) d (Or.inr hd) u hcu hdu
    · exact (hold c (Or.inr hc) (hlive c hc) d hd u hcu hdu).elim
    · exact h.unique c (Or.inr hc) d (Or.inl hd.1) u hcu hdu
    · exact h.unique c (Or.inr hc) d (Or.inr hd) u hcu hdu
  disjoint := by
    rintro c (hc | hc) hcL
    · obtain ⟨a, ha, hau⟩ := (hcover c.start).mpr ⟨c, hc, c.has_start⟩
      have := h.unique a (Or.inl (hA ha)) c (Or.inr hcL) c.start hau c.has_start
      exact h.disjoint a (hA ha) (this ▸ hcL)
    · exact h.disjoint c hc.1 hcL

/-- Halving a free block. -/
theorem split (h : Layout m F L) (hb : b ∈ F) (ho : 0 < b.order) :
    Layout m (insert b.left (insert b.right (F \ {b}))) L := by
  have hfit := h.fits b (Or.inl hb)
  have := h.replace (A := {b}) (B := {b.left, b.right}) (by simpa using hb) ?_ ?_ ?_
  · rwa [Set.insert_union, Set.singleton_union] at this
  · rintro c (rfl | rfl)
    · exact Block.left_fits ho hfit
    · exact Block.right_fits ho hfit
  · intro u
    simpa using Block.has_left_or_right ho
  · rintro c (rfl | rfl) d (rfl | rfl) u hc hd
    · rfl
    · exact (Block.not_left_and_right hc hd).elim
    · exact (Block.not_left_and_right hd hc).elim
    · rfl

/-- Joining two free buddies. -/
theorem merge (h : Layout m F L) (hb : b ∈ F) (hb' : b.buddy ∈ F) (ho : b.order < m) :
    Layout m (insert b.parent (F \ {b, b.buddy})) L := by
  have := h.replace (A := {b, b.buddy}) (B := {b.parent}) ?_ ?_ ?_ ?_
  · rwa [Set.singleton_union] at this
  · rintro c (rfl | rfl)
    · exact hb
    · exact hb'
  · rintro c rfl
    exact Block.parent_fits (h.fits b (Or.inl hb)) ho
  · intro u
    simpa using Block.has_parent.symm
  · rintro c rfl d rfl u _ _
    rfl

theorem insert_union_diff (hb : b ∈ F) : (F \ {b}) ∪ insert b L = F ∪ L := by
  ext c
  by_cases hc : c = b
  · subst hc
    simp [hb]
  · simp [hc]

/-- A free block becomes live. -/
theorem take (h : Layout m F L) (hb : b ∈ F) : Layout m (F \ {b}) (insert b L) where
  fits := by
    rw [insert_union_diff hb]
    exact h.fits
  cover := by
    rw [insert_union_diff hb]
    exact h.cover
  unique := by
    rw [insert_union_diff hb]
    exact h.unique
  disjoint := by
    rintro c ⟨hcF, hcb⟩ (rfl | hcL)
    · exact hcb rfl
    · exact h.disjoint c hcF hcL

/-- A live block becomes free. -/
theorem give (h : Layout m F L) (hb : b ∈ L) : Layout m (insert b F) (L \ {b}) := by
  have hset : insert b F ∪ (L \ {b}) = F ∪ L := by
    rw [Set.union_comm, insert_union_diff hb, Set.union_comm]
  refine ⟨?_, ?_, ?_, ?_⟩
  · rw [hset]
    exact h.fits
  · rw [hset]
    exact h.cover
  · rw [hset]
    exact h.unique
  · rintro c (rfl | hcF) ⟨hcL, hcb⟩
    · exact hcb rfl
    · exact h.disjoint c hcF hcL

/-! ## Uniqueness of the coalesced layout -/

/-- In a coalesced layout, a block none of whose units is live lies inside one
free block. By induction on the order: the free blocks around the two halves
are either larger than a half, and then contain the whole block, or are the two
halves themselves, which are buddies. -/
theorem exists_free_around (h : Layout m F L) (hc : Coalesced m F) :
    ∀ (o : Nat) (B : Block), B.order = o → B.Fits m →
      (∀ l ∈ L, ∀ u, B.Has u → ¬ l.Has u) →
      ∃ b ∈ F, B.order ≤ b.order ∧ ∀ u, B.Has u → b.Has u := by
  intro o
  induction o with
  | zero =>
    intro B hB hfit hlive
    obtain ⟨b, hb, hbu⟩ := h.cover B.start (B.has_start.lt_of_fits hfit)
    have hbF : b ∈ F := hb.resolve_right fun hbL => hlive b hbL _ B.has_start hbu
    have hle : B.order ≤ b.order := by omega
    exact ⟨b, hbF, hle, fun u hu => B.has_start.nested hbu hle hu⟩
  | succ o ih =>
    intro B hB hfit hlive
    have hpos : 0 < B.order := by omega
    have hsub : ∀ u, B.left.Has u ∨ B.right.Has u → B.Has u := fun u =>
      (Block.has_left_or_right hpos).mpr
    obtain ⟨b, hb, hbo, hbl⟩ := ih B.left (by simp [Block.left, hB]) (Block.left_fits hpos hfit)
      fun l hl u hu => hlive l hl u (hsub u (Or.inl hu))
    obtain ⟨c, hcF, hco, hcr⟩ := ih B.right (by simp [Block.right, hB])
      (Block.right_fits hpos hfit) fun l hl u hu => hlive l hl u (hsub u (Or.inr hu))
    by_cases hbig : B.order ≤ b.order
    · have hB0 := hsub _ (Or.inl B.left.has_start)
      exact ⟨b, hb, hbig, fun u hu => hB0.nested (hbl _ B.left.has_start) hbig hu⟩
    by_cases hcig : B.order ≤ c.order
    · have hB0 := hsub _ (Or.inr B.right.has_start)
      exact ⟨c, hcF, hcig, fun u hu => hB0.nested (hcr _ B.right.has_start) hcig hu⟩
    -- both halves are free: they are buddies below the top order
    have hlo : B.left.order = o := by simp [Block.left, hB]
    have hro : B.right.order = o := by simp [Block.right, hB]
    have hbeq : b = B.left :=
      (hbl _ B.left.has_start).eq_of_order B.left.has_start (by omega)
    have hceq : c = B.right :=
      (hcr _ B.right.has_start).eq_of_order B.right.has_start (by omega)
    have hlt : B.left.order < m := by
      have := hfit.1
      omega
    exact absurd (Block.buddy_left ▸ hceq ▸ hcF) (hc B.left (hbeq ▸ hb) hlt)

theorem free_subset (h : Layout m F L) (hc : Coalesced m F) (h' : Layout m F' L)
    (hc' : Coalesced m F') : F ⊆ F' := by
  have hlive : ∀ {G : Set Block}, Layout m G L → ∀ b ∈ G, ∀ l ∈ L, ∀ u, b.Has u → ¬ l.Has u :=
    fun hG b hb l hl u hbu hlu =>
      hG.disjoint b hb (hG.unique b (Or.inl hb) l (Or.inr hl) u hbu hlu ▸ hl)
  intro b hb
  obtain ⟨c, hcF, hbo, hbc⟩ := h'.exists_free_around hc' b.order b rfl (h.fits b (Or.inl hb))
    (hlive h b hb)
  obtain ⟨d, hdF, hco, hcd⟩ := h.exists_free_around hc c.order c rfl (h'.fits c (Or.inl hcF))
    (hlive h' c hcF)
  have hbs := b.has_start
  have hdb : d = b :=
    h.unique d (Or.inl hdF) b (Or.inl hb) _ (hcd _ (hbc _ hbs)) hbs
  -- `c` lies between `b` and itself, so it is `b`
  have hcb : c = b := (hbc _ hbs).eq_of_order hbs (le_antisymm (hdb ▸ hco) hbo)
  exact hcb ▸ hcF

/-- **Uniqueness.** The free blocks of a coalesced layout are a function of the
live ones. -/
theorem free_unique (h : Layout m F L) (hc : Coalesced m F) (h' : Layout m F' L)
    (hc' : Coalesced m F') : F = F' :=
  Set.Subset.antisymm (h.free_subset hc h' hc') (h'.free_subset hc' h hc)

/-! ## Carving -/

/-- The right halves left over when the block of order `o` at the left edge of
`b` is carved out of `b`. -/
def rest (b : Block) (o : Nat) : Set Block :=
  {c | o ≤ c.order ∧ c.order < b.order ∧ c.num = b.num * 2 ^ (b.order - c.order) + 1}

theorem rest_self (b : Block) : rest b b.order = ∅ := by
  ext c
  simp only [rest, Set.mem_ofPred_eq, Set.mem_empty_iff_false, iff_false]
  omega

theorem rest_of_lt {o : Nat} (ho : o < b.order) :
    rest b o = insert b.right (rest b.left o) := by
  ext c
  obtain ⟨co, cn⟩ := c
  simp only [rest, Block.right, Block.left, Set.mem_insert_iff, Set.mem_ofPred_eq,
    Block.mk.injEq]
  by_cases htop : co = b.order - 1
  · subst htop
    have : b.order - (b.order - 1) = 1 := by omega
    rw [this, Nat.pow_one, Nat.mul_comm]
    omega
  · by_cases hlt : co < b.order - 1
    · have hpow : b.num * 2 ^ (b.order - co) = 2 * b.num * 2 ^ (b.order - 1 - co) := by
        rw [show b.order - co = b.order - 1 - co + 1 by omega, Nat.pow_succ]
        ring
      rw [hpow]
      constructor
      · rintro ⟨h1, -, h3⟩
        exact Or.inr ⟨h1, hlt, h3⟩
      · rintro (⟨h1, -⟩ | ⟨h1, -, h3⟩)
        · exact absurd h1 htop
        · exact ⟨h1, by omega, h3⟩
    · constructor
      · rintro ⟨-, h2, -⟩
        omega
      · rintro (⟨h1, -⟩ | ⟨-, h2, -⟩)
        · exact absurd h1 htop
        · omega

theorem leftmost_self (b : Block) : b.leftmost b.order = b := by
  simp [Block.leftmost]

theorem leftmost_left {o : Nat} (ho : o < b.order) : b.left.leftmost o = b.leftmost o := by
  simp only [Block.leftmost, Block.left, Block.mk.injEq, true_and]
  rw [show b.order - o = b.order - 1 - o + 1 by omega, Nat.pow_succ]
  ring

/-- Halving a free block repeatedly, always at its left edge, down to order `o`. -/
theorem carve (h : Layout m F L) (hb : b ∈ F) {o : Nat} (ho : o ≤ b.order) :
    Layout m (insert (b.leftmost o) (rest b o ∪ (F \ {b}))) L := by
  obtain ⟨d, hd⟩ := Nat.exists_eq_add_of_le ho
  induction d generalizing b F with
  | zero =>
    have hbo : b.order = o := by omega
    subst hbo
    rw [leftmost_self, rest_self, Set.empty_union, Set.insert_sdiff_singleton,
      Set.insert_eq_of_mem hb]
    exact h
  | succ d ih =>
    have hlt : o < b.order := by omega
    have hpos : 0 < b.order := by omega
    have hsplit := h.split hb hpos
    have hbl : b.left ∉ F := fun hbl =>
      absurd (h.unique b.left (Or.inl hbl) b (Or.inl hb) _ b.left.has_start
        ((Block.has_left_or_right hpos).mpr (Or.inl b.left.has_start)))
        (fun he => by
          have := congrArg Block.order he
          simp only [Block.left] at this
          omega)
    have hstep := ih (b := b.left) hsplit (Set.mem_insert _ _)
      (by simp only [Block.left]; omega) (by simp only [Block.left]; omega)
    rw [leftmost_left hlt] at hstep
    have hset : rest b.left o ∪ (insert b.left (insert b.right (F \ {b})) \ {b.left}) =
        rest b o ∪ (F \ {b}) := by
      rw [rest_of_lt hlt, Set.insert_sdiff_self_of_notMem, Set.union_insert, Set.insert_union]
      rintro (he | he)
      · exact b.left_ne_right he
      · exact hbl he.1
    rw [hset] at hstep
    exact hstep

/-- A right half on the left edge has its buddy over the carved block. -/
theorem buddy_of_mem_rest {o : Nat} {c : Block} (hc : c ∈ rest b o) :
    c.buddy.Has (b.leftmost o).start := by
  obtain ⟨h1, h2, h3⟩ := hc
  have heven : c.num % 2 = 1 := by
    rw [h3, show b.order - c.order = b.order - c.order - 1 + 1 by omega, Nat.pow_succ,
      ← Nat.mul_assoc]
    omega
  have hnum : c.buddy.num = b.num * 2 ^ (b.order - c.order) := by
    simp only [Block.buddy]
    rw [if_neg (by omega)]
    omega
  have hstart : (b.leftmost o).start = c.buddy.start := by
    simp only [Block.start, Block.leftmost, Block.buddy_order]
    rw [hnum, Nat.mul_assoc, Nat.mul_assoc, ← Nat.pow_add, ← Nat.pow_add]
    congr 2
    omega
  rw [hstart]
  exact c.buddy.has_start

/-- **Carving keeps a coalesced layout coalesced**: the buddy of a left-over
half contains the carved block, which is live. -/
theorem coalesced_carve (h : Layout m F L) (hc : Coalesced m F) (hb : b ∈ F) {o : Nat}
    (ho : o ≤ b.order) (hlive : b.leftmost o ∉ rest b o ∪ (F \ {b})) :
    Coalesced m (rest b o ∪ (F \ {b})) := by
  have hcarved := (h.carve hb ho).take (Set.mem_insert _ _)
  rw [Set.insert_sdiff_self_of_notMem hlive] at hcarved
  -- no block of the new free set has its buddy over the carved block
  have hkey : ∀ c ∈ rest b o, c.buddy ∉ rest b o ∪ (F \ {b}) := by
    intro c hcr hcb
    have heq := hcarved.unique c.buddy (Or.inl hcb) (b.leftmost o) (Or.inr (Set.mem_insert _ _))
      _ (buddy_of_mem_rest hcr) (b.leftmost o).has_start
    exact hlive (heq ▸ hcb)
  rintro c (hcr | hcF) hlt hcb
  · exact hkey c hcr hcb
  · rcases hcb with hcbr | hcbF
    · exact hkey c.buddy hcbr (c.buddy_buddy.symm ▸ Or.inr hcF)
    · exact hc c hcF.1 hlt hcbF.1

theorem coalesced_whole (m : Nat) : Coalesced m {⟨m, 0⟩} := by
  rintro c rfl hlt
  exact absurd hlt (lt_irrefl _)

end Layout

end Bathos.Lib
