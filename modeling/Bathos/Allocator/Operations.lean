import Mathlib.Data.Nat.Bitwise
import Bathos.Allocator.Bitmap

/-!
# Bathos — allocator operations on the set of free blocks

One specification per operation of `lib/allocator.c`, in terms of `freeBlocks`:

* `splitBuffers_spec` — with no free block between the two orders, splitting
  carves the lowest free block down its left edge;
* `allocLoop_spec` — an allocation carves the lowest free block of the smallest
  sufficient order that has one, or finds none and changes nothing;
* `coalesceBuffers_spec` — coalescing after a free restores a layout without
  free buddies, whatever the order of the frees;
* `bathosFreeBuffer_spec` — freeing a live buffer makes its block free again,
  provided the alignment check lets it through.

The layout rules themselves are those of `Lib/Dyadic.lean`.
-/

namespace Bathos.Allocator

open Bathos.Lib

variable {cfg : Config}

-- ---------------------------------------------------------------------------
-- Buddies and parents by index
-- ---------------------------------------------------------------------------

theorem start_eq_shiftLeft (b : Block) : b.start = b.num <<< b.order := by
  unfold Block.start
  rw [Nat.shiftLeft_eq]

theorem getBuddy_start (b : Block) : getBuddy b.start b.order = b.buddy.start := by
  unfold getBuddy
  rw [start_eq_shiftLeft, start_eq_shiftLeft, ← Nat.shiftLeft_xor_distrib]
  unfold Block.buddy
  simp only
  congr 1
  split
  · rename_i heven
    exact Nat.xor_one_of_even (Nat.even_iff.mpr heven)
  · rename_i hodd
    exact Nat.xor_one_of_odd (Nat.odd_iff.mpr (by omega))

theorem getParent_start (b : Block) : getParent b.start b.order = b.parent.start := by
  have hmask : b.num ^^^ (b.num &&& 1) = 2 * (b.num / 2) := by
    rw [Nat.and_one_is_mod]
    rcases Nat.mod_two_eq_zero_or_one b.num with h | h
    · rw [h, Nat.xor_zero]
      omega
    · rw [h, Nat.xor_one_of_odd (Nat.odd_iff.mpr h)]
      omega
  unfold getParent
  rw [start_eq_shiftLeft, ← Nat.shiftLeft_and_distrib, ← Nat.shiftLeft_xor_distrib, hmask]
  unfold Block.start Block.parent
  simp only
  rw [Nat.shiftLeft_eq, Nat.pow_succ]
  ring

/-- The lower half starts where the block starts. -/
theorem left_start {b : Block} (ho : 0 < b.order) : b.left.start = b.start := by
  unfold Block.start Block.left
  simp only
  rw [show b.order = b.order - 1 + 1 by omega, Nat.pow_succ, Nat.add_sub_cancel]
  ring

-- ---------------------------------------------------------------------------
-- Splitting
-- ---------------------------------------------------------------------------

/-- No block of order `o` is free. -/
def NoneFree (bm : Bitmap cfg) (o : Nat) : Prop := ∀ n, (⟨o, n⟩ : Block) ∉ freeBlocks bm

/-- `b` is the free block of lowest index in its order. -/
def LowestFree (bm : Bitmap cfg) (b : Block) : Prop :=
  b ∈ freeBlocks bm ∧ ∀ n < b.num, (⟨b.order, n⟩ : Block) ∉ freeBlocks bm

theorem LowestFree.fits {bm : Bitmap cfg} {b : Block} (h : LowestFree bm b) :
    b.Fits cfg.maxOrder := h.1.1

/-- The search, restated: it fails on an order without free blocks, and finds
the lowest one otherwise. -/
theorem findFreeBuf_cases (bm : Bitmap cfg) {o : Nat} (ho : o ≤ cfg.maxOrder) :
    (findFreeBuf bm o = none ∧ NoneFree bm o) ∨
      ∃ b : Block, b.order = o ∧ LowestFree bm b ∧ findFreeBuf bm o = some b.start := by
  cases hf : findFreeBuf bm o with
  | none => exact Or.inl ⟨rfl, findFreeBuf_none ho hf⟩
  | some index =>
    obtain ⟨n, hmem, hidx, hmin⟩ := findFreeBuf_some ho hf
    exact Or.inr ⟨⟨o, n⟩, rfl, ⟨hmem, hmin⟩, by rw [hidx]⟩

theorem findFreeBuf_of_none {bm : Bitmap cfg} {o : Nat} (ho : o ≤ cfg.maxOrder)
    (h : NoneFree bm o) : findFreeBuf bm o = none := by
  rcases findFreeBuf_cases bm ho with ⟨hf, -⟩ | ⟨b, rfl, hb, -⟩
  · exact hf
  · exact absurd hb.1 (h b.num)

/-- An order has one lowest free block. -/
theorem LowestFree.unique {bm : Bitmap cfg} {b c : Block} (hb : LowestFree bm b)
    (hc : LowestFree bm c) (ho : c.order = b.order) : c = b := by
  obtain ⟨bo, bn⟩ := b
  obtain ⟨co, cn⟩ := c
  simp only at ho
  subst ho
  have h1 : ¬ cn < bn := fun hlt => hb.2 cn hlt hc.1
  have h2 : ¬ bn < cn := fun hlt => hc.2 bn hlt hb.1
  have heq : cn = bn := by omega
  rw [heq]

theorem findFreeBuf_of_lowest {bm : Bitmap cfg} {b : Block} (h : LowestFree bm b) :
    findFreeBuf bm b.order = some b.start := by
  rcases findFreeBuf_cases bm h.fits.1 with ⟨-, hnone⟩ | ⟨c, hco, hc, hf⟩
  · exact absurd h.1 (hnone b.num)
  · rw [hf, h.unique hc hco]

/-- The free set after a block has been carved down its left edge to order `o`. -/
def carved (F : Set Block) (b : Block) (o : Nat) : Set Block :=
  insert (b.leftmost o) (Layout.rest b o ∪ (F \ {b}))

/-- One halving, as `__split_buffers` marks it. -/
theorem freeBlocks_halve {bm : Bitmap cfg} (hwf : WellFormed bm) {b : Block}
    (hb : b.Fits cfg.maxOrder) (ho : 0 < b.order) :
    let bm' := markAvailable (markAvailable (markUnavailable bm b.start b.order)
      b.start (b.order - 1)) (getBuddy b.start (b.order - 1)) (b.order - 1)
    WellFormed bm' ∧ freeBlocks bm' = insert b.right (insert b.left (freeBlocks bm \ {b})) := by
  have hl := Block.left_fits ho hb
  have hr := Block.right_fits ho hb
  have hlo : b.left.order = b.order - 1 := rfl
  have hro : b.right.order = b.order - 1 := rfl
  have h1 := wellFormed_markUnavailable hwf hb
  have h2 := wellFormed_markAvailable h1 hl
  have h3 := wellFormed_markAvailable h2 hr
  have hbud : getBuddy b.start (b.order - 1) = b.right.start := by
    rw [← left_start ho, ← hlo, getBuddy_start, Block.buddy_left]
  simp only [hbud]
  rw [left_start ho, hlo] at h2 h3
  rw [hro] at h3
  refine ⟨h3, ?_⟩
  have e3 := freeBlocks_markAvailable h2 hr
  have e2 := freeBlocks_markAvailable h1 hl
  rw [left_start ho, hlo] at e2
  rw [hro] at e3
  rw [e3, e2, freeBlocks_markUnavailable hwf hb]

section Halved

variable {bm bm' : Bitmap cfg} {b : Block}

/-- A halving frees nothing below the order of the halves. -/
theorem halved_noneFree {o : Nat}
    (hfree : freeBlocks bm' = insert b.right (insert b.left (freeBlocks bm \ {b})))
    (ho : o < b.order - 1) (hnone : NoneFree bm o) : NoneFree bm' o := by
  intro n hmem
  rw [hfree] at hmem
  rcases hmem with heq | heq | hold
  · have : o = b.order - 1 := congrArg Block.order heq
    omega
  · have : o = b.order - 1 := congrArg Block.order heq
    omega
  · exact hnone n hold.1

/-- The lower half is what the next search finds. -/
theorem halved_lowestFree
    (hfree : freeBlocks bm' = insert b.right (insert b.left (freeBlocks bm \ {b})))
    (hnone : NoneFree bm b.left.order) : LowestFree bm' b.left := by
  refine ⟨by rw [hfree]; exact Or.inr (Or.inl rfl), ?_⟩
  intro n hn hmem
  rw [hfree] at hmem
  rcases hmem with heq | heq | hold
  · have := congrArg Block.num heq
    simp only [Block.right, Block.left] at this hn
    omega
  · have := congrArg Block.num heq
    simp only at this
    omega
  · exact hnone n hold.1

/-- Carving the lower half of a block is carving the block. -/
theorem carved_halved {F : Set Block} {o : Nat} (ho : o < b.order) (hleft : b.left ∉ F) :
    carved (insert b.right (insert b.left (F \ {b}))) b.left o = carved F b o := by
  have hnot : b.left ∉ insert b.right (F \ {b}) := by
    rintro (heq | hold)
    · exact b.left_ne_right heq
    · exact hleft hold.1
  unfold carved
  rw [Layout.leftmost_left ho, Layout.rest_of_lt ho, Set.insert_comm b.right,
    Set.insert_sdiff_self_of_notMem hnot, Set.union_insert, Set.insert_union]

end Halved

/-- Splitting from `order` down to `minOrder` when no block in between is free:
nothing happens when `order` has no free block either, and otherwise its lowest
free block is carved. The induction is on the order, as in the recursion of
`__split_buffers`; the search one order down finds the lower half just made. -/
theorem splitBuffers_spec {minOrder : Nat} : ∀ {order : Nat} {bm : Bitmap cfg},
    WellFormed bm → minOrder < order → order ≤ cfg.maxOrder →
    (∀ o, minOrder ≤ o → o < order → NoneFree bm o) →
    (NoneFree bm order ∧ splitBuffers minOrder order bm = bm) ∨
      ∃ b : Block, b.order = order ∧ LowestFree bm b ∧
        WellFormed (splitBuffers minOrder order bm) ∧
        freeBlocks (splitBuffers minOrder order bm) = carved (freeBlocks bm) b minOrder := by
  intro order
  induction order with
  | zero =>
    intro bm _ hlt
    omega
  | succ order ih =>
    intro bm hwf hlt hle hnone
    rcases findFreeBuf_cases bm hle with ⟨hf, hno⟩ | ⟨b, hbo, hb, hf⟩
    · refine Or.inl ⟨hno, ?_⟩
      unfold splitBuffers
      rw [hf]
    · refine Or.inr ⟨b, hbo, hb, ?_⟩
      have hpos : 0 < b.order := by omega
      have hpred : b.order - 1 = order := by omega
      obtain ⟨hwf', hfree'⟩ := freeBlocks_halve hwf hb.fits hpos
      rw [hbo, Nat.add_sub_cancel] at hwf' hfree'
      unfold splitBuffers
      rw [hf]
      simp only
      set bm' := markAvailable (markAvailable (markUnavailable bm b.start (order + 1))
        b.start order) (getBuddy b.start order) order with hbm'
      have hlo : b.left.order = order := by
        unfold Block.left
        exact hpred
      have hnoLeft : NoneFree bm b.left.order := by
        rw [hlo]
        exact hnone order (by omega) (by omega)
      rw [← carved_halved (by omega) (hnoLeft b.left.num), ← hfree']
      by_cases hrec : minOrder < order
      · rw [if_pos (by omega)]
        have hnone' : ∀ o, minOrder ≤ o → o < order → NoneFree bm' o := fun o h1 h2 =>
          halved_noneFree hfree' (by omega) (hnone o h1 (by omega))
        have hleft := halved_lowestFree hfree' hnoLeft
        rcases ih hwf' hrec (by omega) hnone' with ⟨hno, -⟩ | ⟨c, hco, hc, hwfc, hfreec⟩
        · have hnotLeft := hno b.left.num
          rw [← hlo] at hnotLeft
          exact absurd hleft.1 hnotLeft
        · rw [hleft.unique hc (by omega)] at hfreec
          exact ⟨hwfc, hfreec⟩
      · rw [if_neg (by omega)]
        have hmin : minOrder = b.left.order := by omega
        refine ⟨hwf', ?_⟩
        unfold carved
        rw [hmin, Layout.leftmost_self, Layout.rest_self, Set.empty_union,
          Set.insert_sdiff_singleton, Set.insert_eq_of_mem (halved_lowestFree hfree' hnoLeft).1]

-- ---------------------------------------------------------------------------
-- Allocation
-- ---------------------------------------------------------------------------

theorem leftmost_start {b : Block} {o : Nat} (ho : o ≤ b.order) :
    (b.leftmost o).start = b.start := by
  unfold Block.start Block.leftmost
  simp only
  rw [Nat.mul_assoc, ← Nat.pow_add, Nat.sub_add_cancel ho]

theorem leftmost_fits {b : Block} {m o : Nat} (ho : o ≤ b.order) (hb : b.Fits m) :
    (b.leftmost o).Fits m := by
  have hle := hb.1
  have hpow : 2 ^ (m - o) = 2 ^ (m - b.order) * 2 ^ (b.order - o) := by
    rw [← Nat.pow_add]
    congr 1
    omega
  refine ⟨by unfold Block.leftmost; simp only; omega, ?_⟩
  unfold Block.leftmost
  simp only
  rw [hpow]
  exact Nat.mul_lt_mul_of_pos_right hb.2 (Nat.two_pow_pos _)

/-- After carving down to `o`, with no other block of order `o` free, the lowest
free block of order `o` is the carved one. -/
theorem lowestFree_carved {bm bm' : Bitmap cfg} {b : Block} {o : Nat} (hnone : NoneFree bm o)
    (hfree : freeBlocks bm' = carved (freeBlocks bm) b o) : LowestFree bm' (b.leftmost o) := by
  unfold carved at hfree
  refine ⟨by rw [hfree]; exact Set.mem_insert _ _, ?_⟩
  intro n hn hmem
  rw [hfree] at hmem
  rcases hmem with heq | ⟨-, -, hnum⟩ | hold
  · have := congrArg Block.num heq
    simp only at this
    omega
  · simp only [Block.leftmost] at hn hnum
    omega
  · exact hnone n hold.1

theorem allocLoop_found {bm : Bitmap cfg} {order index : Nat} (rem i : Nat)
    (h : findFreeBuf bm order = some index) : allocLoop order rem i bm = (bm, some index) := by
  cases rem with
  | zero => simp [allocLoop, h]
  | succ rem => simp [allocLoop, h]

/-- The loop of `bathos_alloc_buffer` from a turn at which the orders up to `i`
have no free block: it looks for the next order that has one. -/
theorem allocLoop_spec {order : Nat} : ∀ {rem i : Nat} {bm : Bitmap cfg},
    WellFormed bm → i + rem = cfg.maxOrder → order ≤ i →
    (∀ o, order ≤ o → o ≤ i → NoneFree bm o) →
    (allocLoop order rem i bm = (bm, none) ∧
        ∀ o, order ≤ o → o ≤ cfg.maxOrder → NoneFree bm o) ∨
      ∃ (b : Block) (bm' : Bitmap cfg), i < b.order ∧ LowestFree bm b ∧
        (∀ o, order ≤ o → o < b.order → NoneFree bm o) ∧
        allocLoop order rem i bm = (bm', some b.start) ∧ WellFormed bm' ∧
        freeBlocks bm' = carved (freeBlocks bm) b order := by
  intro rem
  induction rem with
  | zero =>
    intro i bm hwf hi hoi hnone
    refine Or.inl ⟨?_, fun o h1 h2 => hnone o h1 (by omega)⟩
    unfold allocLoop
    rw [findFreeBuf_of_none (by omega) (hnone order le_rfl hoi)]
  | succ rem ih =>
    intro i bm hwf hi hoi hnone
    have hstep : allocLoop order (rem + 1) i bm =
        allocLoop order rem (i + 1) (splitBuffers order (i + 1) bm) := by
      rw [allocLoop, findFreeBuf_of_none (by omega) (hnone order le_rfl hoi)]
      simp only
      rw [if_pos (by omega)]
    rw [hstep]
    have hbelow : ∀ o, order ≤ o → o < i + 1 → NoneFree bm o :=
      fun o h1 h2 => hnone o h1 (by omega)
    rcases splitBuffers_spec hwf (by omega) (by omega) hbelow with
      ⟨hno, hsame⟩ | ⟨b, hbo, hb, hwf', hfree'⟩
    · -- nothing to split at this order: go on with the next one
      rw [hsame]
      have hnone' : ∀ o, order ≤ o → o ≤ i + 1 → NoneFree bm o := by
        intro o h1 h2
        rcases Nat.eq_or_lt_of_le h2 with rfl | hlt
        · exact hno
        · exact hbelow o h1 hlt
      rcases ih hwf (by omega) (by omega) hnone' with hfail | ⟨b, bm', hib, hrest⟩
      · exact Or.inl hfail
      · exact Or.inr ⟨b, bm', by omega, hrest⟩
    · -- a block was carved: the next search finds it
      have hlow := lowestFree_carved (hnone order le_rfl hoi) hfree'
      have hfound := findFreeBuf_of_lowest hlow
      rw [leftmost_start (by omega)] at hfound
      refine Or.inr ⟨b, _, by omega, hb, fun o h1 h2 => hbelow o h1 (by omega), ?_, hwf', hfree'⟩
      exact allocLoop_found _ _ hfound

/-- **Allocation at one order.** Either no sufficient order has a free block and
nothing changes, or the lowest free block of the smallest such order is carved
and its left edge is taken. -/
theorem allocOrder_spec {bm : Bitmap cfg} {order : Nat} (hwf : WellFormed bm)
    (ho : order ≤ cfg.maxOrder) :
    (allocLoop order (cfg.maxOrder - order) order bm = (bm, none) ∧
        ∀ o, order ≤ o → o ≤ cfg.maxOrder → NoneFree bm o) ∨
      ∃ (b : Block) (bm' : Bitmap cfg), order ≤ b.order ∧ LowestFree bm b ∧
        (∀ o, order ≤ o → o < b.order → NoneFree bm o) ∧
        allocLoop order (cfg.maxOrder - order) order bm = (bm', some b.start) ∧
        WellFormed (markUnavailable bm' b.start order) ∧
        freeBlocks (markUnavailable bm' b.start order) =
          Layout.rest b order ∪ (freeBlocks bm \ {b}) ∧
        b.leftmost order ∉ Layout.rest b order ∪ (freeBlocks bm \ {b}) := by
  -- taking the carved block out of the free set
  have hfinish : ∀ {b : Block} {bm' : Bitmap cfg}, order ≤ b.order → b.Fits cfg.maxOrder →
      b.leftmost order ∉ freeBlocks bm \ {b} → WellFormed bm' →
      freeBlocks bm' = carved (freeBlocks bm) b order →
      WellFormed (markUnavailable bm' b.start order) ∧
        freeBlocks (markUnavailable bm' b.start order) =
          Layout.rest b order ∪ (freeBlocks bm \ {b}) ∧
        b.leftmost order ∉ Layout.rest b order ∪ (freeBlocks bm \ {b}) := by
    intro b bm' hle hfit hnot hwf' hfree'
    have hlf := leftmost_fits hle hfit
    have hlo : (b.leftmost order).order = order := rfl
    have hnot' : b.leftmost order ∉ Layout.rest b order ∪ (freeBlocks bm \ {b}) := by
      intro hmem
      rcases hmem with ⟨-, -, hnum⟩ | hold
      · simp only [Block.leftmost] at hnum
        omega
      · exact hnot hold
    have h1 := wellFormed_markUnavailable hwf' hlf
    have h2 := freeBlocks_markUnavailable hwf' hlf
    rw [leftmost_start hle, hlo] at h1 h2
    refine ⟨h1, ?_, hnot'⟩
    rw [h2, hfree']
    unfold carved
    exact Set.insert_sdiff_self_of_notMem hnot'
  rcases findFreeBuf_cases bm ho with ⟨-, hno⟩ | ⟨b, rfl, hb, hf⟩
  · have hrem : order + (cfg.maxOrder - order) = cfg.maxOrder := by omega
    have hnone : ∀ o, order ≤ o → o ≤ order → NoneFree bm o := by
      intro o h1 h2
      rw [le_antisymm h2 h1]
      exact hno
    rcases allocLoop_spec hwf hrem le_rfl hnone with
      hfail | ⟨b, bm', hlt, hb, hno', hres, hwf', hfree'⟩
    · exact Or.inl hfail
    · refine Or.inr ⟨b, bm', by omega, hb, hno', hres, hfinish (by omega) hb.fits ?_ hwf' hfree'⟩
      intro hmem
      exact hno _ hmem.1
  · -- a block of the order itself is free: it is its own left edge
    refine Or.inr ⟨b, bm, le_rfl, hb, fun o h1 h2 => absurd h1 (by omega),
      allocLoop_found _ _ hf, hfinish le_rfl hb.fits ?_ hwf ?_⟩
    · rw [Layout.leftmost_self]
      exact fun hmem => hmem.2 rfl
    · unfold carved
      rw [Layout.leftmost_self, Layout.rest_self, Set.empty_union, Set.insert_sdiff_singleton,
        Set.insert_eq_of_mem hb.1]

-- ---------------------------------------------------------------------------
-- Coalescing
-- ---------------------------------------------------------------------------

/-- The two marks of one merge. -/
theorem freeBlocks_join {bm : Bitmap cfg} (hwf : WellFormed bm) {b : Block}
    (hb : b.Fits cfg.maxOrder) (hb' : b.buddy.Fits cfg.maxOrder) (ho : b.order < cfg.maxOrder) :
    let bm' := markAvailable (markUnavailable (markUnavailable bm b.start b.order)
      (getBuddy b.start b.order) b.order) (getParent b.start b.order) (b.order + 1)
    WellFormed bm' ∧ freeBlocks bm' = insert b.parent (freeBlocks bm \ {b, b.buddy}) := by
  have hp := Block.parent_fits hb ho
  have hpo : b.parent.order = b.order + 1 := rfl
  have h1 := wellFormed_markUnavailable hwf hb
  have h2 := wellFormed_markUnavailable h1 hb'
  have h3 := wellFormed_markAvailable h2 hp
  have e3 := freeBlocks_markAvailable h2 hp
  simp only [getBuddy_start, getParent_start]
  rw [Block.buddy_order, hpo] at h3 e3
  refine ⟨h3, ?_⟩
  have e2 := freeBlocks_markUnavailable h1 hb'
  rw [Block.buddy_order] at e2
  rw [e3, e2, freeBlocks_markUnavailable hwf hb]
  congr 1
  ext c
  simp only [Set.mem_sdiff, Set.mem_singleton_iff, Set.mem_insert_iff]
  tauto

/-- Coalescing from a free block that may have a free buddy, the only place
where the layout is not coalesced. The induction is on the orders left above:
after a merge the only possible pair is the parent and its buddy. -/
theorem coalesceLoop_spec {L : Set Block} : ∀ {rem : Nat} {bm : Bitmap cfg} {b : Block},
    WellFormed bm → b.order + rem = cfg.maxOrder → b ∈ freeBlocks bm →
    Layout cfg.maxOrder (freeBlocks bm) L →
    (∀ c ∈ freeBlocks bm, c.order < cfg.maxOrder → c.buddy ∈ freeBlocks bm →
      c = b ∨ c = b.buddy) →
    WellFormed (coalesceLoop rem bm b.start b.order) ∧
      Layout cfg.maxOrder (freeBlocks (coalesceLoop rem bm b.start b.order)) L ∧
      Coalesced cfg.maxOrder (freeBlocks (coalesceLoop rem bm b.start b.order)) := by
  intro rem
  induction rem with
  | zero =>
    intro bm b hwf hrem hb hlay hexc
    unfold coalesceLoop
    refine ⟨hwf, hlay, ?_⟩
    intro c hc hlt hcb
    rcases hexc c hc hlt hcb with rfl | rfl
    · omega
    · rw [Block.buddy_order] at hlt
      omega
  | succ rem ih =>
    intro bm b hwf hrem hb hlay hexc
    unfold coalesceLoop
    rw [if_neg (by omega)]
    simp only
    have hlt : b.order < cfg.maxOrder := by omega
    have hbudFits : b.buddy.Fits cfg.maxOrder := Block.buddy_fits hb.1 hlt
    have hfreeIff : isFree bm (getBuddy b.start b.order) b.order = true ↔
        b.buddy ∈ freeBlocks bm := by
      rw [getBuddy_start]
      exact isFree_eq (b := b.buddy) hbudFits
    cases hfree : isFree bm (getBuddy b.start b.order) b.order with
    | false =>
      -- the buddy is not free: the layout is coalesced as it stands
      have hnot : b.buddy ∉ freeBlocks bm := fun hmem => by
        rw [hfreeIff.mpr hmem] at hfree
        exact absurd hfree (by simp)
      refine ⟨hwf, hlay, ?_⟩
      intro c hc hclt hcb
      rcases hexc c hc hclt hcb with rfl | rfl
      · exact hnot hcb
      · exact hnot hc
    | true =>
      have hbud := hfreeIff.mp hfree
      obtain ⟨hwf', hfree'⟩ := freeBlocks_join hwf hb.1 hbudFits hlt
      simp only [Bool.not_true, Bool.false_eq_true, if_false]
      have hlay' := hlay.merge hb hbud hlt
      rw [← hfree'] at hlay'
      have hgoal := ih (b := b.parent) hwf' (by unfold Block.parent; simp only; omega)
        (by rw [hfree']; exact Set.mem_insert _ _) hlay' ?_
      · rw [← getParent_start] at hgoal
        exact hgoal
      · intro c hc hclt hcb
        rw [hfree'] at hc hcb
        rcases hc with rfl | ⟨hcF, hcne⟩
        · exact Or.inl rfl
        · rcases hcb with heq | ⟨hcbF, -⟩
          · exact Or.inr (by rw [← heq, Block.buddy_buddy])
          · exact absurd (hexc c hcF hclt hcbF) hcne

-- ---------------------------------------------------------------------------
-- Sizes and offsets
-- ---------------------------------------------------------------------------

/-- A unit of memory, and the whole of it, in units. -/
theorem bufSize_zero_mul (cfg : Config) :
    cfg.bufSize 0 * 2 ^ cfg.maxOrder = cfg.allocatorMemory := by
  unfold Config.bufSize
  rw [nbufs_eq, Nat.sub_zero]
  exact Nat.div_mul_cancel cfg.memory_units

theorem bufSize_zero_pos (cfg : Config) : 0 < cfg.bufSize 0 := by
  have hmem := cfg.memory_pos
  rw [← bufSize_zero_mul cfg] at hmem
  exact Nat.pos_of_mul_pos_right hmem

/-- A buffer of order `o` has `2 ^ o` units. -/
theorem bufSize_eq {o : Nat} (ho : o ≤ cfg.maxOrder) :
    cfg.bufSize o = 2 ^ o * cfg.bufSize 0 := by
  have hmem := bufSize_zero_mul cfg
  have hsplit : 2 ^ cfg.maxOrder = 2 ^ o * 2 ^ (cfg.maxOrder - o) := by
    rw [← Nat.pow_add]
    congr 1
    omega
  conv_lhs => unfold Config.bufSize
  rw [nbufs_eq, ← hmem, hsplit, ← Nat.mul_assoc, Nat.mul_div_cancel _ (Nat.two_pow_pos _),
    Nat.mul_comm]

theorem sizeToOrder_some {size : Int} {o : Nat} (h : sizeToOrder cfg size = some o) :
    o ≤ cfg.maxOrder ∧ size ≤ cfg.bufSize o := by
  unfold sizeToOrder at h
  have hmem := List.mem_of_find?_eq_some h
  have hp := List.find?_some h
  refine ⟨?_, by simpa using hp⟩
  have := List.mem_range.mp hmem
  omega

/-- The last byte of a block lies inside `mem`. -/
theorem block_end_le {b : Block} (h : b.Fits cfg.maxOrder) :
    b.start * cfg.bufSize 0 + cfg.bufSize b.order ≤ cfg.allocatorMemory := by
  have hle : (b.num + 1) * 2 ^ b.order ≤ 2 ^ cfg.maxOrder := by
    have hsplit : 2 ^ cfg.maxOrder = 2 ^ (cfg.maxOrder - b.order) * 2 ^ b.order := by
      rw [← Nat.pow_add, Nat.sub_add_cancel h.1]
    rw [hsplit]
    exact Nat.mul_le_mul_right _ h.2
  rw [bufSize_eq h.1, ← bufSize_zero_mul cfg, ← Nat.add_mul, Nat.mul_comm]
  unfold Block.start
  apply Nat.mul_le_mul_left
  rw [Nat.add_mul, Nat.one_mul] at hle
  exact hle

/-- The alignment check lets through every multiple of the buffer's units, as
long as the order is not zero: the bit it tests is below the alignment. -/
theorem aligned_and_shlOne {b : Block} {o : Nat} (hbo : b.order = o + 1) :
    b.start * cfg.bufSize 0 &&& cfg.shlOne (((o + 1 : Nat) : Int) - 1) = 0 := by
  have hshift : ((o + 1 : Nat) : Int) - 1 = (o : Int) := by push_cast; ring
  unfold Config.shlOne
  rw [hshift, if_pos (by omega), Int.toNat_natCast, Nat.one_shiftLeft]
  have hmul : b.start * cfg.bufSize 0 = 2 ^ (o + 1) * (b.num * cfg.bufSize 0) := by
    unfold Block.start
    rw [hbo]
    ring
  rw [hmul]
  apply Nat.eq_of_testBit_eq
  intro i
  rw [Nat.testBit_and, Nat.testBit_two_pow_mul, Nat.testBit_two_pow, Nat.zero_testBit]
  by_cases hi : o = i
  · subst hi
    simp
  · simp [hi]

-- ---------------------------------------------------------------------------
-- Freeing
-- ---------------------------------------------------------------------------

/-- Coalescing after a live block has been marked available. -/
theorem coalesceBuffers_spec {bm : Bitmap cfg} {L : Set Block} {b : Block} (hwf : WellFormed bm)
    (hlay : Layout cfg.maxOrder (freeBlocks bm) L) (hco : Coalesced cfg.maxOrder (freeBlocks bm))
    (hb : b ∈ L) :
    let bm' := coalesceBuffers (markAvailable bm b.start b.order) b.start b.order
    WellFormed bm' ∧ Layout cfg.maxOrder (freeBlocks bm') (L \ {b}) ∧
      Coalesced cfg.maxOrder (freeBlocks bm') := by
  have hfit := hlay.fits b (Or.inr hb)
  have hwf' := wellFormed_markAvailable hwf hfit
  have hfree' := freeBlocks_markAvailable hwf hfit
  unfold coalesceBuffers
  apply coalesceLoop_spec hwf'
  · have := hfit.1
    omega
  · rw [hfree']
    exact Set.mem_insert _ _
  · rw [hfree']
    exact hlay.give hb
  · intro c hc hlt hcb
    rw [hfree'] at hc hcb
    rcases hc with rfl | hc
    · exact Or.inl rfl
    · rcases hcb with heq | hcb
      · exact Or.inr (by rw [← heq, Block.buddy_buddy])
      · exact absurd hcb (hco c hc hlt)

/-- **Freeing a live buffer.** With the pointer and the order of a live block,
and the alignment check passing, the block becomes free and the layout is
coalesced again. The check can only fail for order zero, where the code shifts
by `-1`. -/
theorem bathosFreeBuffer_spec {s : State cfg} {L : Set Block} {b : Block} {size : Int}
    (hwf : WellFormed s.bitmap) (hlay : Layout cfg.maxOrder (freeBlocks s.bitmap) L)
    (hco : Coalesced cfg.maxOrder (freeBlocks s.bitmap)) (hb : b ∈ L)
    (hsize : sizeToOrder cfg size = some b.order)
    (hzero : b.order = 0 → b.start * cfg.bufSize 0 &&& cfg.shlOne (-1) = 0) :
    ∃ s', bathosFreeBuffer s (b.start * cfg.bufSize 0 : Nat) size = .ok s' ∧
      s'.initialized = s.initialized ∧ WellFormed s'.bitmap ∧
      Layout cfg.maxOrder (freeBlocks s'.bitmap) (L \ {b}) ∧
      Coalesced cfg.maxOrder (freeBlocks s'.bitmap) := by
  have hfit := hlay.fits b (Or.inr hb)
  have hend := block_end_le hfit
  have hunit := bufSize_zero_pos cfg
  have hpos : 0 < cfg.bufSize b.order := by
    rw [bufSize_eq hfit.1]
    exact Nat.mul_pos (Nat.two_pow_pos _) hunit
  have haligned : b.start * cfg.bufSize 0 &&& cfg.shlOne ((b.order : Int) - 1) = 0 := by
    cases hbo : b.order with
    | zero => exact hzero hbo
    | succ o => exact aligned_and_shlOne hbo
  have hindex : b.start * cfg.bufSize 0 / cfg.bufSize 0 = b.start :=
    Nat.mul_div_cancel _ hunit
  refine ⟨{ s with bitmap :=
    coalesceBuffers (markAvailable s.bitmap b.start b.order) b.start b.order },
    ?_, rfl, coalesceBuffers_spec hwf hlay hco hb⟩
  unfold bathosFreeBuffer
  rw [hsize]
  simp only [Int.toNat_natCast]
  rw [if_neg (by push_cast; omega), if_neg (by rw [haligned]; simp), hindex]

end Bathos.Allocator
