import Bathos.Allocator.Calls

/-!
# Bathos — frees with bad arguments

What `bathos_free_buffer` does with a pointer that no allocation has returned, in
every reachable state. The alignment test looks at one bit of the offset only,
and a pointer that passes it is rounded down to a block.

Main results:

* `freed_eq_iff` — the free of a block leaves the bitmap as it is exactly when the
  block is marked free already and is not merged with its buddy;
* `free_withoutEffect_iff` — which calls with bad arguments are without effect.
-/

namespace Bathos.Allocator

open Bathos.Lib

variable {cfg : Config}

-- ---------------------------------------------------------------------------
-- Bits touched
-- ---------------------------------------------------------------------------

/-- The bits `__coalesce_buffers` tests and marks. -/
def coalesceBits : Nat → Bitmap cfg → Nat → Nat → List Nat
  | 0, _, _, _ => []
  | rem + 1, bm, index, order =>
    if order = cfg.maxOrder then []
    else
      let buddy := getBuddy index order
      if !isFree bm buddy order then [indexToBit cfg buddy order]
      else
        let parent := getParent index order
        let bm := markUnavailable bm index order
        let bm := markUnavailable bm buddy order
        let bm := markAvailable bm parent (order + 1)
        indexToBit cfg index order :: indexToBit cfg buddy order ::
          indexToBit cfg parent (order + 1) :: coalesceBits rem bm parent (order + 1)

/-- The bits `bathos_free_buffer` touches: none when a check refuses the pointer.
With order `-1` they lie before the map, which is the `Fault` of the call. -/
def freeBits (bm : Bitmap cfg) (offset size : Int) : List Nat :=
  if offset < 0 ∨ offset ≥ cfg.allocatorMemory then []
  else
    match sizeToOrder cfg size with
    | none => []
    | some order =>
      if offset.toNat &&& cfg.shlOne ((order : Int) - 1) ≠ 0 then []
      else
        let index := offset.toNat / cfg.bufSize 0
        indexToBit cfg index order ::
          coalesceBits (cfg.maxOrder - order) (markAvailable bm index order) index order

theorem indexToBit_lt {index order : Nat} (hfit : (blockAt index order).Fits cfg.maxOrder) :
    indexToBit cfg index order < 2 ^ cfg.norders := by
  have hstart : indexToBit cfg (blockAt index order).start (blockAt index order).order =
      blockBit cfg (blockAt index order) := indexToBit_start _
  rw [blockAt_order] at hstart
  rw [indexToBit_blockAt, hstart]
  exact lt_of_lt_of_le (blockBit_lt hfit) (Nat.sub_le _ _)

theorem coalesceBits_lt : ∀ (rem : Nat) (bm : Bitmap cfg) (index order : Nat),
    (blockAt index order).Fits cfg.maxOrder →
    ∀ nr ∈ coalesceBits rem bm index order, nr < 2 ^ cfg.norders := by
  intro rem
  induction rem with
  | zero =>
    intro bm index order _ nr hnr
    exact absurd hnr (by simp [coalesceBits])
  | succ rem ih =>
    intro bm index order hfit nr hnr
    unfold coalesceBits at hnr
    simp only at hnr
    by_cases htop : order = cfg.maxOrder
    · rw [if_pos htop] at hnr
      exact absurd hnr (by simp)
    rw [if_neg htop] at hnr
    have hlt : (blockAt index order).order < cfg.maxOrder := lt_of_le_of_ne hfit.1 htop
    have hbud : (blockAt (getBuddy index order) order).Fits cfg.maxOrder := by
      rw [blockAt_getBuddy]
      exact Block.buddy_fits hfit hlt
    have hpar : (blockAt (getParent index order) (order + 1)).Fits cfg.maxOrder := by
      rw [blockAt_getParent]
      exact Block.parent_fits hfit hlt
    split at hnr
    · rw [List.mem_singleton] at hnr
      rw [hnr]
      exact indexToBit_lt hbud
    · simp only [List.mem_cons] at hnr
      rcases hnr with rfl | rfl | rfl | hrest
      · exact indexToBit_lt hfit
      · exact indexToBit_lt hbud
      · exact indexToBit_lt hpar
      · exact ih _ _ _ hpar nr hrest

/-- With an order, a free stays inside the map. -/
theorem freeBits_lt (bm : Bitmap cfg) (offset size : Int) :
    ∀ nr ∈ freeBits bm offset size, nr < 2 ^ cfg.norders := by
  intro nr hnr
  unfold freeBits at hnr
  split at hnr
  · exact absurd hnr (by simp)
  rename_i hin
  split at hnr
  · exact absurd hnr (by simp)
  rename_i order hsize
  split at hnr
  · exact absurd hnr (by simp)
  have hfit := ptrBlock_fits (sizeToOrder_some hsize).1 hin
  rcases List.mem_cons.mp hnr with rfl | hrest
  · exact indexToBit_lt hfit
  · exact coalesceBits_lt _ _ _ _ hfit nr hrest

-- ---------------------------------------------------------------------------
-- Frees without effect
-- ---------------------------------------------------------------------------

/-- **When a free of the block `b` leaves the bitmap as it is**: when `b` is marked
free already and is not merged with its buddy. -/
theorem freed_eq_iff {bm : Bitmap cfg} (hwf : WellFormed bm) {b : Block}
    (hb : b.Fits cfg.maxOrder) :
    freed bm b = bm ↔ b ∈ freeBlocks bm ∧ (b.order = cfg.maxOrder ∨ b.buddy ∉ freeBlocks bm) := by
  have hwf' := wellFormed_markAvailable hwf hb
  have hfree' := freeBlocks_markAvailable hwf hb
  have hbne : b ≠ b.buddy := by
    intro heq
    have := congrArg Block.num heq
    unfold Block.buddy at this
    simp only at this
    split at this <;> omega
  unfold freed
  by_cases hstop : b.order = cfg.maxOrder ∨ b.buddy ∉ freeBlocks bm
  · have hstop' : b.order = cfg.maxOrder ∨
        b.buddy ∉ freeBlocks (markAvailable bm b.start b.order) := by
      refine hstop.imp_right fun hnot hmem => ?_
      rw [hfree'] at hmem
      rcases hmem with heq | hold
      · exact hbne heq.symm
      · exact hnot hold
    rw [coalesceLoop_stop _ hb hstop']
    refine ⟨fun heq => ⟨?_, hstop⟩, fun ⟨hmem, _⟩ => ?_⟩
    · rw [← heq, hfree']
      exact Set.mem_insert _ _
    · apply bitmap_ext hwf' hwf
      rw [hfree', Set.insert_eq_of_mem hmem]
  · -- the buddy is merged: it was free and is no longer
    refine ⟨fun heq => absurd ?_ hstop, fun h => absurd h.2 hstop⟩
    obtain ⟨htop, hbud⟩ := not_or.mp hstop
    have hlt : b.order < cfg.maxOrder := lt_of_le_of_ne hb.1 htop
    have hbud' : b.buddy ∈ freeBlocks (markAvailable bm b.start b.order) := by
      rw [hfree']
      exact Or.inr (not_not.mp hbud)
    have hgone := coalesceLoop_gone (cfg.maxOrder - b.order - 1) hwf' hb hlt hbud'
    rw [Nat.sub_add_cancel (by omega), heq] at hgone
    exact Or.inr hgone

/-- `bathos_free_buffer` of the address `distance` bytes after `mem`: the `int`
variable keeps the low `intBits` bits of the difference. -/
def bathosFreePtr (intBits : Nat) (s : State cfg) (distance size : Int) :
    Except Fault (State cfg) :=
  bathosFreeBuffer s (distance.bmod (2 ^ intBits)) size

/-- Arguments no allocation has returned: a pointer outside `mem`, a size that fits
no order, or a pointer that is not a multiple of the size of its order. -/
def BadArguments (cfg : Config) (distance size : Int) : Prop :=
  Outside cfg distance ∨
    match sizeToOrder cfg size with
    | none => True
    | some order => ¬ (cfg.bufSize order : Int) ∣ distance

/-- The call leaves the bitmap as it is and touches no bit outside it. -/
def WithoutEffect (intBits : Nat) (s : State cfg) (distance size : Int) : Prop :=
  ∃ s', bathosFreePtr intBits s distance size = .ok s' ∧ s'.bitmap = s.bitmap ∧
    ∀ nr ∈ freeBits s.bitmap (distance.bmod (2 ^ intBits)) size, nr < 2 ^ cfg.norders

/-- The arguments a check catches, or whose block is free already and stays so: the
offset lies outside `mem`, it has the one bit that the alignment test looks at, or
it lies in a block marked free that cannot be merged. -/
def Harmless (s : State cfg) (offset size : Int) : Prop :=
  Outside cfg offset ∨
    match sizeToOrder cfg size with
    | none => offset.toNat &&& cfg.shlOne (-2) ≠ 0
    | some order =>
      offset.toNat &&& cfg.shlOne ((order : Int) - 1) ≠ 0 ∨
        (isFree s.bitmap (offset.toNat / cfg.bufSize 0) order = true ∧
          (order = cfg.maxOrder ∨
            isFree s.bitmap (getBuddy (offset.toNat / cfg.bufSize 0) order) order = false))

/-- The buddy of a block below the top order, by index. -/
theorem isFree_getBuddy {bm : Bitmap cfg} {index order : Nat}
    (hfit : (blockAt index order).Fits cfg.maxOrder) (hne : order ≠ cfg.maxOrder) :
    isFree bm (getBuddy index order) order = false ↔
      (blockAt index order).buddy ∉ freeBlocks bm := by
  have hfitb := Block.buddy_fits hfit (lt_of_le_of_ne hfit.1 hne)
  rw [← blockAt_getBuddy] at hfitb ⊢
  rw [← isFree_blockAt hfitb, Bool.not_eq_true]

theorem freeBuffer_unchanged_iff {s : State cfg} (hwf : WellFormed s.bitmap) (offset size : Int) :
    (∃ s', bathosFreeBuffer s offset size = .ok s' ∧ s'.bitmap = s.bitmap) ↔
      Harmless s offset size := by
  unfold Harmless
  by_cases hout : Outside cfg offset
  · rw [bathosFreeBuffer_outside hout]
    exact ⟨fun _ => Or.inl hout, fun _ => ⟨s, rfl, rfl⟩⟩
  simp only [hout, false_or]
  cases hsize : sizeToOrder cfg size with
  | none =>
    rw [bathosFreeBuffer_noOrder hout hsize]
    simp only
    by_cases hbit : offset.toNat &&& cfg.shlOne (-2) ≠ 0
    · rw [if_pos hbit]
      exact ⟨fun _ => hbit, fun _ => ⟨s, rfl, rfl⟩⟩
    · rw [if_neg hbit]
      exact ⟨fun ⟨s', hok, _⟩ => absurd hok (by simp), fun h => absurd h hbit⟩
  | some order =>
    have ho := (sizeToOrder_some hsize).1
    rw [bathosFreeBuffer_order hout hsize]
    simp only
    by_cases hbit : offset.toNat &&& cfg.shlOne ((order : Int) - 1) ≠ 0
    · rw [if_pos hbit]
      exact ⟨fun _ => Or.inl hbit, fun _ => ⟨s, rfl, rfl⟩⟩
    · rw [if_neg hbit]
      have hfit := ptrBlock_fits ho hout
      have hiff := freed_eq_iff hwf hfit
      have hstop : (order = cfg.maxOrder ∨
            isFree s.bitmap (getBuddy (offset.toNat / cfg.bufSize 0) order) order = false) ↔
          (order = cfg.maxOrder ∨ (ptrBlock cfg offset order).buddy ∉ freeBlocks s.bitmap) := by
        by_cases htop : order = cfg.maxOrder
        · simp [htop]
        · rw [isFree_getBuddy hfit htop]
          rfl
      rw [isFree_blockAt hfit, hstop]
      refine ⟨fun ⟨s', hok, hsame⟩ => Or.inr (hiff.mp ?_), fun h => ?_⟩
      · rw [← Except.ok.inj hok] at hsame
        exact hsame
      · exact ⟨_, rfl, hiff.mpr (h.resolve_left hbit)⟩

/-- **Which frees with bad arguments are without effect**, in every reachable
state: exactly those whose truncated offset is harmless. -/
theorem free_withoutEffect_iff {s : State cfg} (hs : Reachable cfg s) (intBits : Nat)
    (distance size : Int) :
    (BadArguments cfg distance size → WithoutEffect intBits s distance size) ↔
      (BadArguments cfg distance size →
        Harmless s (distance.bmod (2 ^ intBits)) size) := by
  refine imp_congr_right fun _ => ?_
  rw [← freeBuffer_unchanged_iff hs.inv.wf]
  unfold WithoutEffect bathosFreePtr
  refine exists_congr fun s' => ?_
  have hbits := freeBits_lt s.bitmap (distance.bmod (2 ^ intBits)) size
  exact ⟨fun ⟨hok, hsame, _⟩ => ⟨hok, hsame⟩, fun ⟨hok, hsame⟩ => ⟨hok, hsame, hbits⟩⟩

-- The test for order 1 looks at bit 0 of the offset, and refuses an odd one.
theorem free_withoutEffect_iff_default :
    (BadArguments defaultBuild 1 16 →
        WithoutEffect 32 (bathosAllocInit (State.boot defaultBuild)) 1 16) ↔
      (BadArguments defaultBuild 1 16 →
        Harmless (bathosAllocInit (State.boot defaultBuild)) ((1 : Int).bmod (2 ^ 32)) 16) :=
  free_withoutEffect_iff .init 32 1 16

/-- The second unit is not the start of a 16-byte buffer. The free is accepted, and
the first 16-byte buffer becomes free inside the free block of the whole memory. -/
theorem free_bad_corrupts :
    ¬ ∀ (cfg : Config) (s : State cfg) (intBits : Nat) (distance size : Int), Reachable cfg s →
      BadArguments cfg distance size → WithoutEffect intBits s distance size := by
  intro hall
  obtain ⟨s', hok, hsame, -⟩ :=
    hall defaultBuild _ 32 8 16 .init (Or.inr (show ¬ (16 : Int) ∣ 8 by decide))
  have hbit : bathosFreePtr 32 (bathosAllocInit (State.boot defaultBuild)) 8 16 =
      .ok ⟨[0, 0, 0, 0, 1, 0, 0, 0x40000000], false⟩ := rfl
  rw [hbit] at hok
  rw [← Except.ok.inj hok] at hsame
  exact absurd hsame (by decide)

end Bathos.Allocator
