import Bathos.Allocator.Partition
import Bathos.Allocator.Search

/-!
# Bathos — allocator calls in every reachable state

`Partition.lean` follows callers that keep their side of the contract. Here the
states are those reached by any calls at all: frees of any pointer with any size
included. The bitmap stays well formed in all of them (`Reachable.inv`), which
is all an allocation needs.

Main result:

* `alloc_bestFit` — an allocation takes the lowest block of the smallest
  sufficient order that has a free one, and gives back the right-hand halves it
  cuts off; when there is none it changes nothing.
-/

namespace Bathos.Allocator

open Bathos.Lib

variable {cfg : Config}

-- ---------------------------------------------------------------------------
-- Blocks by index
-- ---------------------------------------------------------------------------

/-- The block of an order that a unit lies in: the shifts of the code round every
index down to it. -/
def blockAt (index order : Nat) : Block := ⟨order, index / 2 ^ order⟩

@[simp] theorem blockAt_order (index order : Nat) : (blockAt index order).order = order := rfl

theorem blockAt_start (b : Block) : blockAt b.start b.order = b := by
  unfold blockAt Block.start
  rw [Nat.mul_div_cancel _ (Nat.two_pow_pos _)]

theorem indexToBit_blockAt (cfg : Config) (index order : Nat) :
    indexToBit cfg index order = indexToBit cfg (blockAt index order).start order := by
  unfold indexToBit blockAt Block.start
  rw [Nat.shiftRight_eq_div_pow, Nat.shiftRight_eq_div_pow,
    Nat.mul_div_cancel _ (Nat.two_pow_pos _)]

theorem blockAt_fits {index order : Nat} (ho : order ≤ cfg.maxOrder)
    (hindex : index < cfg.nbufs 0) : (blockAt index order).Fits cfg.maxOrder := by
  apply fits_of_start_lt ho
  exact lt_of_le_of_lt (Nat.div_mul_le_self _ _) hindex

theorem blockAt_getBuddy (index order : Nat) :
    blockAt (getBuddy index order) order = (blockAt index order).buddy := by
  have h := getBuddy_start (blockAt index order)
  rw [blockAt_order] at h
  have hsame : blockAt (getBuddy index order) order =
      blockAt (getBuddy (blockAt index order).start order) order := by
    unfold blockAt getBuddy Block.start
    simp only
    congr 1
    rw [← Nat.shiftRight_eq_div_pow, ← Nat.shiftRight_eq_div_pow, Nat.shiftRight_xor_distrib,
      Nat.shiftRight_xor_distrib, Nat.shiftRight_eq_div_pow (_ * _),
      Nat.mul_div_cancel _ (Nat.two_pow_pos _), Nat.shiftRight_eq_div_pow index]
  rw [hsame, h]
  exact blockAt_start (blockAt index order).buddy

theorem blockAt_getParent (index order : Nat) :
    blockAt (getParent index order) (order + 1) = (blockAt index order).parent := by
  have hbit : (1 <<< order) >>> (order + 1) = 0 := by
    rw [Nat.one_shiftLeft, Nat.shiftRight_eq_div_pow]
    exact Nat.div_eq_of_lt (Nat.pow_lt_pow_right (by decide) (Nat.lt_succ_self _))
  unfold blockAt getParent Block.parent
  congr 1
  rw [← Nat.shiftRight_eq_div_pow, Nat.shiftRight_xor_distrib, Nat.shiftRight_and_distrib, hbit,
    Nat.and_zero, Nat.xor_zero, Nat.shiftRight_eq_div_pow, Nat.pow_succ, Nat.div_div_eq_div_mul]

theorem isFree_blockAt {bm : Bitmap cfg} {index order : Nat}
    (hfit : (blockAt index order).Fits cfg.maxOrder) :
    isFree bm index order = true ↔ blockAt index order ∈ freeBlocks bm := by
  rw [← isFree_eq hfit]
  unfold isFree
  rw [blockAt_order, ← indexToBit_blockAt]

theorem markAvailable_blockAt (bm : Bitmap cfg) (index order : Nat) :
    markAvailable bm index order = markAvailable bm (blockAt index order).start order := by
  unfold markAvailable
  rw [← indexToBit_blockAt]

-- ---------------------------------------------------------------------------
-- Coalescing in any state
-- ---------------------------------------------------------------------------

/-- Coalescing sees an index as the block it lies in. -/
theorem coalesceLoop_blockAt : ∀ (rem : Nat) (bm : Bitmap cfg) (index order : Nat),
    coalesceLoop rem bm index order = coalesceLoop rem bm (blockAt index order).start order := by
  intro rem
  induction rem with
  | zero =>
    intro bm index order
    rfl
  | succ rem ih =>
    intro bm index order
    have hbud : indexToBit cfg (getBuddy index order) order =
        indexToBit cfg (getBuddy (blockAt index order).start order) order := by
      rw [indexToBit_blockAt, blockAt_getBuddy, ← getBuddy_start, blockAt_order]
    have hpar : (blockAt (getParent index order) (order + 1)).start =
        getParent (blockAt index order).start order := by
      rw [blockAt_getParent, ← getParent_start, blockAt_order]
    unfold coalesceLoop isFree markUnavailable
    simp only
    rw [← hbud, ← indexToBit_blockAt, ih _ (getParent index order), hpar,
      markAvailable_blockAt, hpar]

/-- Coalescing stops at once at the top order, and below it when the buddy is not
free. -/
theorem coalesceLoop_stop {bm : Bitmap cfg} {b : Block} (rem : Nat) (hb : b.Fits cfg.maxOrder)
    (h : b.order = cfg.maxOrder ∨ b.buddy ∉ freeBlocks bm) :
    coalesceLoop rem bm b.start b.order = bm := by
  cases rem with
  | zero => rfl
  | succ rem =>
    unfold coalesceLoop
    by_cases htop : b.order = cfg.maxOrder
    · rw [if_pos htop]
    · have hlt : b.order < cfg.maxOrder := lt_of_le_of_ne hb.1 htop
      have hbud := h.resolve_left htop
      have hnot : isFree bm (getBuddy b.start b.order) b.order = false := by
        rw [getBuddy_start, ← Bool.not_eq_true]
        exact fun hfree => hbud ((isFree_eq (b := b.buddy) (Block.buddy_fits hb hlt)).mp hfree)
      simp only
      rw [if_neg htop, hnot]
      rfl

/-- What one merge hands on to the next turn. -/
theorem coalesceLoop_merge {bm : Bitmap cfg} {b : Block} (rem : Nat) (hwf : WellFormed bm)
    (hb : b.Fits cfg.maxOrder) (hlt : b.order < cfg.maxOrder) (hbud : b.buddy ∈ freeBlocks bm) :
    ∃ bm' : Bitmap cfg, WellFormed bm' ∧
      freeBlocks bm' = insert b.parent (freeBlocks bm \ {b, b.buddy}) ∧
      coalesceLoop (rem + 1) bm b.start b.order =
        coalesceLoop rem bm' b.parent.start b.parent.order := by
  obtain ⟨hwf', hfree'⟩ := freeBlocks_join hwf hb (Block.buddy_fits hb hlt) hlt
  have hfree : isFree bm (getBuddy b.start b.order) b.order = true := by
    rw [getBuddy_start]
    exact (isFree_eq (b := b.buddy) (Block.buddy_fits hb hlt)).mpr hbud
  refine ⟨_, hwf', hfree', ?_⟩
  conv_lhs => unfold coalesceLoop
  simp only
  rw [if_neg (by omega), hfree, ← getParent_start]
  rfl

/-- Coalescing keeps the bitmap well formed, takes nothing of the top order away,
and leaves the orders below the one it starts at as they are. By induction on the
orders left above: a merge takes two blocks of the order it is at and adds one of
the next. -/
theorem coalesceLoop_frame : ∀ {rem : Nat} {bm : Bitmap cfg} {b : Block}, WellFormed bm →
    b.Fits cfg.maxOrder →
    WellFormed (coalesceLoop rem bm b.start b.order) ∧
      (∀ c ∈ freeBlocks bm, c.order = cfg.maxOrder →
        c ∈ freeBlocks (coalesceLoop rem bm b.start b.order)) ∧
      ∀ c : Block, c.order < b.order →
        (c ∈ freeBlocks (coalesceLoop rem bm b.start b.order) ↔ c ∈ freeBlocks bm) := by
  intro rem
  induction rem with
  | zero =>
    intro bm b hwf _
    exact ⟨hwf, fun c hc _ => hc, fun c _ => Iff.rfl⟩
  | succ rem ih =>
    intro bm b hwf hb
    by_cases hstop : b.order = cfg.maxOrder ∨ b.buddy ∉ freeBlocks bm
    · rw [coalesceLoop_stop _ hb hstop]
      exact ⟨hwf, fun c hc _ => hc, fun c _ => Iff.rfl⟩
    · obtain ⟨htop, hbud⟩ := not_or.mp hstop
      have hlt : b.order < cfg.maxOrder := lt_of_le_of_ne hb.1 htop
      obtain ⟨bm', hwf', hfree', heq⟩ := coalesceLoop_merge rem hwf hb hlt (not_not.mp hbud)
      obtain ⟨hwf'', hup, hdown⟩ := ih (b := b.parent) hwf' (Block.parent_fits hb hlt)
      rw [heq]
      refine ⟨hwf'', ?_, ?_⟩
      · intro c hc hco
        apply hup c _ hco
        rw [hfree']
        refine Or.inr ⟨hc, ?_⟩
        rintro (rfl | rfl)
        · exact htop hco
        · exact htop hco
      · intro c hc
        have hpo : b.parent.order = b.order + 1 := rfl
        rw [hdown c (by omega), hfree']
        refine ⟨?_, fun hmem => Or.inr ⟨hmem, ?_⟩⟩
        · rintro (rfl | hmem)
          · omega
          · exact hmem.1
        · rintro (rfl | rfl)
          · exact absurd hc (lt_irrefl _)
          · exact absurd hc (lt_irrefl _)

/-- A merge takes the block and its buddy out of the free set for good. -/
theorem coalesceLoop_gone {bm : Bitmap cfg} {b : Block} (rem : Nat) (hwf : WellFormed bm)
    (hb : b.Fits cfg.maxOrder) (hlt : b.order < cfg.maxOrder) (hbud : b.buddy ∈ freeBlocks bm) :
    b.buddy ∉ freeBlocks (coalesceLoop (rem + 1) bm b.start b.order) := by
  obtain ⟨bm', hwf', hfree', heq⟩ := coalesceLoop_merge rem hwf hb hlt hbud
  have hpo : b.parent.order = b.order + 1 := rfl
  rw [heq, (coalesceLoop_frame hwf' (Block.parent_fits hb hlt)).2.2 b.buddy
    (by rw [Block.buddy_order, hpo]; exact Nat.lt_succ_self _), hfree']
  rintro (hpar | hmem)
  · have := congrArg Block.order hpar
    rw [Block.buddy_order, hpo] at this
    omega
  · exact hmem.2 (Or.inr rfl)

-- ---------------------------------------------------------------------------
-- Reachable states
-- ---------------------------------------------------------------------------

/-- The states reached after `bathos_alloc_init` or a first allocation, by any
calls with any arguments. -/
inductive Reachable (cfg : Config) : State cfg → Prop
  | init : Reachable cfg (bathosAllocInit (State.boot cfg))
  | first (size : Int) : Reachable cfg (bathosAllocBuffer (State.boot cfg) size).1
  | alloc {s : State cfg} (size : Int) (hs : Reachable cfg s) :
      Reachable cfg (bathosAllocBuffer s size).1
  | free {s s' : State cfg} (offset size : Int) (hs : Reachable cfg s)
      (hfree : bathosFreeBuffer s offset size = .ok s') : Reachable cfg s'

/-- What every call keeps: the shape of the bitmap, and the block of the top
order until the first allocation. -/
structure StateInv (s : State cfg) : Prop where
  wf : WellFormed s.bitmap
  top_free : s.initialized = false → ⟨cfg.maxOrder, 0⟩ ∈ freeBlocks s.bitmap

theorem start_stateInv (cfg : Config) : StateInv (bathosAllocInit (State.boot cfg)) :=
  ⟨(start_inv cfg).wf, (start_inv cfg).top_free⟩

/-- The call at power on is the call right after `bathos_alloc_init`. -/
theorem bathosAllocBuffer_boot (size : Int) :
    bathosAllocBuffer (State.boot cfg) size =
      bathosAllocBuffer (bathosAllocInit (State.boot cfg)) size := by
  let s := bathosAllocInit (State.boot cfg)
  have hlazy : { s with initialized := true } =
      if s.initialized then s else { bathosAllocInit s with initialized := true } :=
    (lazyInit_bitmap (start_stateInv cfg).wf (start_stateInv cfg).top_free).symm
  have hboot : (if (State.boot cfg).initialized then State.boot cfg
      else { bathosAllocInit (State.boot cfg) with initialized := true }) =
        { s with initialized := true } := rfl
  unfold bathosAllocBuffer
  rw [hboot, hlazy]

/-- `bathos_alloc_buffer` by cases, the lazy initialisation out of the way. -/
theorem bathosAllocBuffer_eq {s : State cfg} (hinv : StateInv s) (size : Int) :
    bathosAllocBuffer s size =
      match sizeToOrder cfg size with
      | none => ({ s with initialized := true }, none)
      | some order =>
        match allocLoop order (cfg.maxOrder - order) order s.bitmap with
        | (bm, none) => (⟨bm, true⟩, none)
        | (bm, some index) =>
          (⟨markUnavailable bm index order, true⟩, some (index * cfg.bufSize 0)) := by
  have hlazy : bathosAllocBuffer s size = bathosAllocBuffer { s with initialized := true } size := by
    unfold bathosAllocBuffer
    rw [lazyInit_bitmap hinv.wf hinv.top_free, if_pos rfl]
  rw [hlazy]
  rfl

theorem alloc_stateInv {s : State cfg} (hinv : StateInv s) (size : Int) :
    StateInv (bathosAllocBuffer s size).1 := by
  rw [bathosAllocBuffer_eq hinv]
  cases hsize : sizeToOrder cfg size with
  | none => exact ⟨hinv.wf, by simp⟩
  | some order =>
    rcases allocOrder_spec hinv.wf (sizeToOrder_some hsize).1 with
      ⟨hloop, -⟩ | ⟨b, bm', -, -, -, hloop, hwf', -⟩
    · simp only [hloop]
      exact ⟨hinv.wf, by simp⟩
    · simp only [hloop]
      exact ⟨hwf', by simp⟩

/-- The pointer lies outside `mem`. -/
def Outside (cfg : Config) (offset : Int) : Prop := offset < 0 ∨ cfg.allocatorMemory ≤ offset

/-- The block that a pointer is rounded to. -/
def ptrBlock (cfg : Config) (offset : Int) (order : Nat) : Block :=
  blockAt (offset.toNat / cfg.bufSize 0) order

theorem ptrBlock_fits {offset : Int} {order : Nat} (ho : order ≤ cfg.maxOrder)
    (hin : ¬ Outside cfg offset) : (ptrBlock cfg offset order).Fits cfg.maxOrder := by
  apply blockAt_fits ho
  rw [nbufs_eq, Nat.sub_zero, Nat.div_lt_iff_lt_mul (bufSize_zero_pos cfg), Nat.mul_comm,
    bufSize_zero_mul]
  unfold Outside at hin
  omega

/-- What `bathos_free_buffer` makes of the bitmap for the block `b`. -/
def freed (bm : Bitmap cfg) (b : Block) : Bitmap cfg :=
  coalesceLoop (cfg.maxOrder - b.order) (markAvailable bm b.start b.order) b.start b.order

theorem bathosFreeBuffer_outside {s : State cfg} {offset size : Int} (h : Outside cfg offset) :
    bathosFreeBuffer s offset size = .ok s := by
  unfold bathosFreeBuffer Outside at *
  simp only
  rw [if_pos h]

theorem bathosFreeBuffer_noOrder {s : State cfg} {offset size : Int} (hin : ¬ Outside cfg offset)
    (hsize : sizeToOrder cfg size = none) :
    bathosFreeBuffer s offset size =
      if offset.toNat &&& cfg.shlOne (-2) ≠ 0 then .ok s else .error .bitOutOfMap := by
  unfold bathosFreeBuffer Outside at *
  simp only [hsize]
  rw [if_neg hin]

theorem bathosFreeBuffer_order {s : State cfg} {offset size : Int} {order : Nat}
    (hin : ¬ Outside cfg offset) (hsize : sizeToOrder cfg size = some order) :
    bathosFreeBuffer s offset size =
      if offset.toNat &&& cfg.shlOne ((order : Int) - 1) ≠ 0 then .ok s
      else .ok ⟨freed s.bitmap (ptrBlock cfg offset order), s.initialized⟩ := by
  unfold bathosFreeBuffer freed ptrBlock Outside at *
  simp only [hsize]
  rw [if_neg hin, blockAt_order, ← markAvailable_blockAt, ← coalesceLoop_blockAt]
  rfl

/-- A free changes nothing, or frees the block that the pointer is rounded to. -/
theorem bathosFreeBuffer_ok {s s' : State cfg} {offset size : Int}
    (h : bathosFreeBuffer s offset size = .ok s') :
    s' = s ∨ ∃ b : Block, b.Fits cfg.maxOrder ∧ s' = ⟨freed s.bitmap b, s.initialized⟩ := by
  by_cases hout : Outside cfg offset
  · rw [bathosFreeBuffer_outside hout] at h
    exact Or.inl (Except.ok.inj h).symm
  cases hsize : sizeToOrder cfg size with
  | none =>
    rw [bathosFreeBuffer_noOrder hout hsize] at h
    split at h
    · exact Or.inl (Except.ok.inj h).symm
    · exact absurd h (by simp)
  | some order =>
    rw [bathosFreeBuffer_order hout hsize] at h
    split at h
    · exact Or.inl (Except.ok.inj h).symm
    · exact Or.inr ⟨_, ptrBlock_fits (sizeToOrder_some hsize).1 hout, (Except.ok.inj h).symm⟩

theorem free_stateInv {s s' : State cfg} (hinv : StateInv s) {offset size : Int}
    (hfree : bathosFreeBuffer s offset size = .ok s') : StateInv s' := by
  rcases bathosFreeBuffer_ok hfree with rfl | ⟨b, hb, rfl⟩
  · exact hinv
  · obtain ⟨hwf, hup, -⟩ :=
      @coalesceLoop_frame cfg (cfg.maxOrder - b.order) _ _ (wellFormed_markAvailable hinv.wf hb) hb
    refine ⟨hwf, fun hi => hup _ ?_ rfl⟩
    rw [freeBlocks_markAvailable hinv.wf hb]
    exact Or.inr (hinv.top_free hi)

/-- **The invariant holds in every reachable state.** -/
theorem Reachable.inv {s : State cfg} (hs : Reachable cfg s) : StateInv s := by
  induction hs with
  | init => exact start_stateInv cfg
  | first size =>
    rw [bathosAllocBuffer_boot]
    exact alloc_stateInv (start_stateInv cfg) size
  | alloc size _ ih => exact alloc_stateInv ih size
  | free offset size _ hfree ih => exact free_stateInv ih hfree

/-- The histories of callers that keep the contract are among them. -/
theorem Run.reachable {ops : List Op} {h : Heap cfg} (hrun : Run cfg ops h) :
    Reachable cfg h.state := by
  -- the state after an allocation is that of the call
  have halloc : ∀ {g g' : Heap cfg} {size : Int}, g.step (.alloc size) = .ok g' →
      g'.state = (bathosAllocBuffer g.state size).1 := by
    intro g g' size hstep
    unfold Heap.step at hstep
    rcases hcall : bathosAllocBuffer g.state size with ⟨s, _ | offset⟩
    · simp only [hcall] at hstep
      rw [← Except.ok.inj hstep]
    · simp only [hcall] at hstep
      rw [← Except.ok.inj hstep]
  induction hrun with
  | init => exact .init
  | first hstep =>
    rw [halloc hstep]
    exact .first _
  | @next ops op g g' _ _ hstep ih =>
    cases op with
    | alloc size =>
      rw [halloc hstep]
      exact .alloc size ih
    | free buf size =>
      unfold Heap.step at hstep
      cases hcall : bathosFreeBuffer g.state buf.offset size with
      | error e =>
        simp only [hcall] at hstep
        exact absurd hstep (by simp)
      | ok s =>
        simp only [hcall] at hstep
        rw [← Except.ok.inj hstep]
        exact .free _ _ ih hcall

-- ---------------------------------------------------------------------------
-- Best fit
-- ---------------------------------------------------------------------------

/-- The free buffers, as the pairs of index and order the code works with. -/
def freeSet (bm : Bitmap cfg) : Set (Nat × Nat) :=
  {p | p.2 ≤ cfg.maxOrder ∧ p.1 < cfg.nbufs 0 ∧ 2 ^ p.2 ∣ p.1 ∧ isFree bm p.1 p.2 = true}

theorem mem_freeSet {bm : Bitmap cfg} {b : Block} :
    (b.start, b.order) ∈ freeSet bm ↔ b ∈ freeBlocks bm := by
  unfold freeSet
  rw [Set.mem_ofPred_eq]
  refine ⟨fun ⟨ho, hlt, _, hfree⟩ => ?_, fun hmem => ?_⟩
  · exact (isFree_eq (fits_of_start_lt ho hlt)).mp hfree
  · exact ⟨hmem.1.1, start_lt_nbufs hmem.1, Dvd.intro_left _ rfl, (isFree_eq hmem.1).mpr hmem⟩

/-- The pairs of the free set are the free blocks. -/
theorem exists_block_of_mem {bm : Bitmap cfg} {i o : Nat} (h : (i, o) ∈ freeSet bm) :
    ∃ b : Block, b ∈ freeBlocks bm ∧ b.start = i ∧ b.order = o := by
  obtain ⟨n, hn⟩ := h.2.2.1
  simp only at hn
  have hb : (⟨o, n⟩ : Block).start = i := by
    unfold Block.start
    rw [hn, Nat.mul_comm]
  refine ⟨⟨o, n⟩, mem_freeSet.mp ?_, hb, rfl⟩
  rw [hb]
  exact h

/-- The first order whose buffers are large enough for `size`. -/
def SmallestOrder (cfg : Config) (size : Int) (o : Nat) : Prop :=
  o ≤ cfg.maxOrder ∧ size ≤ cfg.bufSize o ∧ ∀ o' < o, ¬ size ≤ cfg.bufSize o'

theorem sizeToOrder_eq_some {size : Int} {o : Nat} :
    sizeToOrder cfg size = some o ↔ SmallestOrder cfg size o := by
  unfold sizeToOrder SmallestOrder
  rw [List.find?_range_eq_some]
  simp only [decide_eq_true_eq, List.mem_range, Nat.lt_succ_iff, Bool.not_eq_true',
    decide_eq_false_iff_not]
  tauto

theorem sizeToOrder_eq_none {size : Int} :
    sizeToOrder cfg size = none ↔ ∀ o ≤ cfg.maxOrder, ¬ size ≤ cfg.bufSize o := by
  unfold sizeToOrder
  simp [List.find?_eq_none]

/-- The halves cut off a block on the way down to order `o` are the buddies of
its left edge. -/
theorem mem_rest_iff {b c : Block} {o : Nat} :
    c ∈ Layout.rest b o ↔ o ≤ c.order ∧ c.order < b.order ∧ c.start = b.start ^^^ 2 ^ c.order := by
  -- the buddy of the left edge, by index
  have hbud : c.order < b.order →
      (⟨c.order, b.num * 2 ^ (b.order - c.order) + 1⟩ : Block).start = b.start ^^^ 2 ^ c.order := by
    intro hlt
    have heven : b.num * 2 ^ (b.order - c.order) % 2 = 0 := by
      rw [show b.order - c.order = b.order - c.order - 1 + 1 by omega, Nat.pow_succ,
        ← Nat.mul_assoc]
      exact Nat.mul_mod_left _ _
    have hedge := getBuddy_start (b.leftmost c.order)
    have hside : (b.leftmost c.order).buddy =
        ⟨c.order, b.num * 2 ^ (b.order - c.order) + 1⟩ := by
      unfold Block.buddy Block.leftmost
      simp only
      rw [if_pos heven]
    rw [leftmost_start hlt.le, hside] at hedge
    rw [← hedge]
    unfold getBuddy
    rw [Nat.one_shiftLeft]
    rfl
  unfold Layout.rest
  rw [Set.mem_ofPred_eq]
  refine and_congr_right fun _ => and_congr_right fun hlt => ?_
  rw [← hbud hlt]
  unfold Block.start
  simp only
  exact (Nat.mul_left_inj (Nat.two_pow_pos _).ne').symm

/-- A call of `bathos_alloc_buffer` on the bitmap `bm`, with the new state and the
offset it returns: the best fit is taken, and a call that fails changes nothing. -/
structure BestFit (bm : Bitmap cfg) (size : Int) (r : State cfg × Option Nat) : Prop where
  tooLarge : (∀ o ≤ cfg.maxOrder, ¬ size ≤ cfg.bufSize o) → r.2 = none ∧ r.1.bitmap = bm
  exhausted : ∀ o, SmallestOrder cfg size o → (∀ k i, o ≤ k → (i, k) ∉ freeSet bm) →
    r.2 = none ∧ r.1.bitmap = bm
  -- `k` is the smallest sufficient order with a free block, `i` its lowest index
  found : ∀ o k i, SmallestOrder cfg size o → o ≤ k →
    (∀ k', o ≤ k' → k' < k → ∀ j, (j, k') ∉ freeSet bm) →
    (i, k) ∈ freeSet bm → (∀ j < i, (j, k) ∉ freeSet bm) →
    r.2 = some (i * cfg.bufSize 0) ∧
      freeSet r.1.bitmap = (freeSet bm \ {(i, k)}) ∪ {p | ∃ j, o ≤ j ∧ j < k ∧ p = (i ^^^ 2 ^ j, j)}

/-- The free set after an allocation, from the blocks to the pairs. -/
theorem freeSet_carved {bm bm' : Bitmap cfg} {b : Block} {o : Nat}
    (h : freeBlocks bm' = Layout.rest b o ∪ (freeBlocks bm \ {b})) :
    freeSet bm' = (freeSet bm \ {(b.start, b.order)}) ∪
      {p | ∃ j, o ≤ j ∧ j < b.order ∧ p = (b.start ^^^ 2 ^ j, j)} := by
  ext p
  obtain ⟨i, k⟩ := p
  constructor
  · intro hmem
    obtain ⟨c, hc, rfl, rfl⟩ := exists_block_of_mem hmem
    rw [h] at hc
    rcases hc with hrest | ⟨hold, hne⟩
    · obtain ⟨h1, h2, h3⟩ := mem_rest_iff.mp hrest
      exact Or.inr ⟨c.order, h1, h2, by rw [h3]⟩
    · refine Or.inl ⟨mem_freeSet.mpr hold, fun heq => hne ?_⟩
      rw [Set.mem_singleton_iff, Prod.mk.injEq] at heq
      have hc := blockAt_start c
      rw [heq.1, heq.2, blockAt_start] at hc
      exact hc.symm
  · rintro (⟨hold, hne⟩ | ⟨j, h1, h2, heq⟩)
    · obtain ⟨c, hc, rfl, rfl⟩ := exists_block_of_mem hold
      apply mem_freeSet.mpr
      rw [h]
      refine Or.inr ⟨hc, fun heq => hne ?_⟩
      rw [Set.mem_singleton_iff] at heq
      rw [heq]
      rfl
    · -- the half of order `j` is a block of the rest
      rw [Prod.mk.injEq] at heq
      obtain ⟨rfl, rfl⟩ := heq
      have hrest : (⟨k, b.num * 2 ^ (b.order - k) + 1⟩ : Block) ∈ Layout.rest b o := ⟨h1, h2, rfl⟩
      have hmem : (⟨k, b.num * 2 ^ (b.order - k) + 1⟩ : Block) ∈ freeBlocks bm' := by
        rw [h]
        exact Or.inl hrest
      rw [← (mem_rest_iff.mp hrest).2.2]
      exact mem_freeSet.mpr hmem

theorem bestFit_of_inv {s : State cfg} (hinv : StateInv s) (size : Int) :
    BestFit s.bitmap size (bathosAllocBuffer s size) := by
  rw [bathosAllocBuffer_eq hinv]
  refine ⟨?_, ?_, ?_⟩
  · intro hlarge
    rw [sizeToOrder_eq_none.mpr hlarge]
    exact ⟨rfl, rfl⟩
  · intro o hsmall hnone
    rw [sizeToOrder_eq_some.mpr hsmall]
    rcases allocOrder_spec hinv.wf hsmall.1 with ⟨hloop, -⟩ | ⟨b, -, hbo, hb, -⟩
    · simp only [hloop]
      exact ⟨trivial, trivial⟩
    · exact absurd (mem_freeSet.mpr hb.1) (hnone b.order b.start hbo)
  · intro o k i hsmall hok hbelow hfree hlow
    rw [sizeToOrder_eq_some.mpr hsmall]
    obtain ⟨c, hc, rfl, rfl⟩ := exists_block_of_mem hfree
    rcases allocOrder_spec hinv.wf hsmall.1 with
      ⟨-, hno⟩ | ⟨b, bm', hbo, hb, hbelow', hloop, -, hfree', -⟩
    · exact absurd hc (hno c.order hok hc.1.1 c.num)
    · -- both are the lowest free block of the smallest order that has one
      have hord : c.order = b.order := by
        rcases Nat.lt_trichotomy c.order b.order with hlt | heq | hgt
        · exact absurd hc (hbelow' c.order hok hlt c.num)
        · exact heq
        · exact absurd (mem_freeSet.mpr hb.1) (hbelow b.order hbo hgt b.start)
      have hlowest : LowestFree s.bitmap c := by
        refine ⟨hc, fun n hn hmem => ?_⟩
        have hlt : (⟨c.order, n⟩ : Block).start < c.start :=
          Nat.mul_lt_mul_of_pos_right hn (Nat.two_pow_pos _)
        exact hlow _ hlt (mem_freeSet.mpr hmem)
      have hcb := hb.unique hlowest hord
      subst hcb
      simp only [hloop]
      exact ⟨trivial, freeSet_carved hfree'⟩

/-- **Allocation is complete and best fit** in every reachable state, and at power
on, where the free set is the one `bathos_alloc_init` makes. -/
theorem alloc_bestFit (cfg : Config) (size : Int) :
    (∀ s : State cfg, Reachable cfg s → BestFit s.bitmap size (bathosAllocBuffer s size)) ∧
      BestFit (bathosAllocInit (State.boot cfg)).bitmap size
        (bathosAllocBuffer (State.boot cfg) size) := by
  refine ⟨fun s hs => bestFit_of_inv hs.inv size, ?_⟩
  rw [bathosAllocBuffer_boot]
  exact bestFit_of_inv (start_stateInv cfg) size

-- `oddOne` is reached by a valid call, so the next call takes the best fit.
theorem alloc_bestFit_oddOne :
    BestFit oddOne.state.bitmap 3 (bathosAllocBuffer oddOne.state 3) :=
  (alloc_bestFit oddUnits 3).1 _ run_oddOne.reachable

end Bathos.Allocator
