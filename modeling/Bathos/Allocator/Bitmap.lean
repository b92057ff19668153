import Bathos.Allocator.Definitions
import Bathos.Lib.Dyadic

/-!
# Bathos — the allocator's bitmap

What the packed bitmap stores, and what the search over it finds.

The bits of order `o` are `orderBase o .. orderBase o + nbufs o - 1`, one order
after the other, so a bit of the map names one dyadic block (`blockBit`,
`blockBit_inj`). `freeBlocks` is the set of blocks whose bit is set; marking a
block available or unavailable adds it to or removes it from that set
(`freeBlocks_markAvailable`, `freeBlocks_markUnavailable`).

The search runs over whole words with the generated masks. Its specification is
in terms of `freeBlocks` only:

* `findFreeBuf_none` — nothing is found exactly when no block of the order is
  free;
* `findFreeBuf_some` — what is found is the free block with the lowest index.
-/

namespace Bathos.Allocator

open Bathos.Lib

variable {cfg : Config}

-- ---------------------------------------------------------------------------
-- Bit numbers
-- ---------------------------------------------------------------------------

/-- Number of the first bit of an order. -/
def orderBase (cfg : Config) (order : Nat) : Nat := indexToBit cfg 0 order

theorem nbufs_eq (cfg : Config) (o : Nat) : cfg.nbufs o = 2 ^ (cfg.maxOrder - o) := by
  unfold Config.nbufs Config.maxOrder
  rw [Nat.one_shiftLeft]
  congr 1
  omega

theorem orderBase_eq (cfg : Config) (o : Nat) :
    orderBase cfg o = 2 ^ cfg.norders - 2 ^ (cfg.norders - o) := by
  unfold orderBase indexToBit
  simp [Nat.one_shiftLeft]

theorem indexToBit_eq (cfg : Config) (num o : Nat) :
    indexToBit cfg (num * 2 ^ o) o = orderBase cfg o + num := by
  unfold orderBase indexToBit
  rw [Nat.shiftRight_eq_div_pow, Nat.mul_div_cancel _ (Nat.two_pow_pos o), Nat.zero_shiftRight,
    Nat.add_zero]

/-- The next order starts where this one ends. -/
theorem orderBase_succ {o : Nat} (ho : o ≤ cfg.maxOrder) :
    orderBase cfg (o + 1) = orderBase cfg o + cfg.nbufs o := by
  have hN := cfg.norders_pos
  unfold Config.maxOrder at ho
  rw [orderBase_eq, orderBase_eq, nbufs_eq]
  unfold Config.maxOrder
  have hpow : 2 ^ (cfg.norders - o) = 2 * 2 ^ (cfg.norders - 1 - o) := by
    rw [show cfg.norders - o = cfg.norders - 1 - o + 1 by omega, Nat.pow_succ, Nat.mul_comm]
  have hle : 2 ^ (cfg.norders - o) ≤ 2 ^ cfg.norders :=
    Nat.pow_le_pow_right (by decide) (by omega)
  rw [show cfg.norders - (o + 1) = cfg.norders - 1 - o by omega]
  omega

theorem orderBase_mono {a b : Nat} (h : a ≤ b) : orderBase cfg a ≤ orderBase cfg b := by
  rw [orderBase_eq, orderBase_eq]
  have : 2 ^ (cfg.norders - b) ≤ 2 ^ (cfg.norders - a) :=
    Nat.pow_le_pow_right (by decide) (by omega)
  omega

/-- The last bit of the map belongs to no order. -/
theorem orderBase_add_lt {o n : Nat} (ho : o ≤ cfg.maxOrder) (hn : n < cfg.nbufs o) :
    orderBase cfg o + n < 2 ^ cfg.norders - 1 := by
  have hN := cfg.norders_pos
  have hsucc := orderBase_succ ho
  have hmono : orderBase cfg (o + 1) ≤ orderBase cfg cfg.norders :=
    orderBase_mono (by unfold Config.maxOrder at ho; omega)
  have hlast : orderBase cfg cfg.norders = 2 ^ cfg.norders - 1 := by
    rw [orderBase_eq]
    simp
  omega

/-- The bit of a block. -/
def blockBit (cfg : Config) (b : Block) : Nat := orderBase cfg b.order + b.num

theorem fits_iff {b : Block} :
    b.Fits cfg.maxOrder ↔ b.order ≤ cfg.maxOrder ∧ b.num < cfg.nbufs b.order := by
  rw [Block.Fits, nbufs_eq]

theorem blockBit_lt {b : Block} (h : b.Fits cfg.maxOrder) :
    blockBit cfg b < 2 ^ cfg.norders - 1 :=
  orderBase_add_lt (fits_iff.mp h).1 (fits_iff.mp h).2

theorem blockBit_inj {b c : Block} (hb : b.Fits cfg.maxOrder) (hc : c.Fits cfg.maxOrder)
    (h : blockBit cfg b = blockBit cfg c) : b = c := by
  obtain ⟨hbo, hbn⟩ := fits_iff.mp hb
  obtain ⟨hco, hcn⟩ := fits_iff.mp hc
  unfold blockBit at h
  -- a smaller order ends before a larger one starts
  have hsep : ∀ {o o' : Nat}, o ≤ cfg.maxOrder → o < o' →
      orderBase cfg o + cfg.nbufs o ≤ orderBase cfg o' := by
    intro o o' ho hlt
    rw [← orderBase_succ ho]
    exact orderBase_mono hlt
  have hord : b.order = c.order := by
    rcases Nat.lt_trichotomy b.order c.order with hlt | heq | hgt
    · have := hsep hbo hlt
      omega
    · exact heq
    · have := hsep hco hgt
      omega
  obtain ⟨bo, bn⟩ := b
  obtain ⟨co, cn⟩ := c
  simp only at hord h
  subst hord
  congr 1
  omega

/-- Every bit of the map but the last is the bit of a block. -/
theorem exists_block_of_bit {nr : Nat} (h : nr < 2 ^ cfg.norders - 1) :
    ∃ b : Block, b.Fits cfg.maxOrder ∧ blockBit cfg b = nr := by
  have hN := cfg.norders_pos
  -- the largest order that starts at or below the bit
  have hlast : nr < orderBase cfg (cfg.maxOrder + 1) := by
    rw [orderBase_eq]
    unfold Config.maxOrder
    rw [show cfg.norders - (cfg.norders - 1 + 1) = 0 by omega]
    simpa using h
  have hex : ∃ o, nr < orderBase cfg (o + 1) := ⟨cfg.maxOrder, hlast⟩
  classical
  have hlt := Nat.find_spec hex
  have hle : Nat.find hex ≤ cfg.maxOrder := Nat.find_min' hex hlast
  have hge : orderBase cfg (Nat.find hex) ≤ nr := by
    rcases Nat.eq_zero_or_pos (Nat.find hex) with h0 | hpos
    · rw [h0, orderBase_eq]
      simp
    · have := Nat.find_min hex (m := Nat.find hex - 1) (by omega)
      rw [Nat.sub_add_cancel hpos] at this
      omega
  rw [orderBase_succ hle] at hlt
  refine ⟨⟨Nat.find hex, nr - orderBase cfg (Nat.find hex)⟩, fits_iff.mpr ⟨hle, ?_⟩, ?_⟩
  · simp only
    omega
  · unfold blockBit
    simp only
    omega

-- ---------------------------------------------------------------------------
-- The set of free blocks
-- ---------------------------------------------------------------------------

/-- The blocks whose bit is set in the bitmap. -/
def freeBlocks (bm : Bitmap cfg) : Set Block :=
  {b | b.Fits cfg.maxOrder ∧ bitSet bm (blockBit cfg b) = true}

/-- The bitmap has the length of the static array, and its last bit, which
belongs to no block, is clear. -/
structure WellFormed (bm : Bitmap cfg) : Prop where
  length_eq : bm.length = 2 ^ cfg.norders / cfg.bitsPerLong
  spare_clear : bitSet bm (2 ^ cfg.norders - 1) = false

theorem word_in_map {nr : Nat} (bm : Bitmap cfg) (h : WellFormed bm)
    (hnr : nr < 2 ^ cfg.norders) : nr / cfg.bitsPerLong < bm.length := by
  rw [h.length_eq]
  exact Nat.div_lt_div_of_lt_of_dvd cfg.map_words hnr

theorem blockBit_word {bm : Bitmap cfg} (h : WellFormed bm) {b : Block}
    (hb : b.Fits cfg.maxOrder) : blockBit cfg b / cfg.bitsPerLong < bm.length := by
  have := blockBit_lt hb
  exact word_in_map bm h (by omega)

theorem indexToBit_start (b : Block) : indexToBit cfg b.start b.order = blockBit cfg b :=
  indexToBit_eq cfg b.num b.order

theorem isFree_eq {bm : Bitmap cfg} {b : Block} (hb : b.Fits cfg.maxOrder) :
    isFree bm b.start b.order = true ↔ b ∈ freeBlocks bm := by
  unfold isFree
  rw [indexToBit_start, testBit_eq cfg.wordSize]
  exact ⟨fun h => ⟨hb, h⟩, fun h => h.2⟩

theorem wellFormed_markAvailable {bm : Bitmap cfg} (h : WellFormed bm) {b : Block}
    (hb : b.Fits cfg.maxOrder) : WellFormed (markAvailable bm b.start b.order) := by
  have hlt := blockBit_lt hb
  unfold markAvailable
  rw [indexToBit_start]
  refine ⟨by rw [setBit_length, h.length_eq], ?_⟩
  rw [bitSet_setBit cfg.wordSize.pos (blockBit_word h hb), h.spare_clear]
  simp
  omega

theorem wellFormed_markUnavailable {bm : Bitmap cfg} (h : WellFormed bm) {b : Block}
    (hb : b.Fits cfg.maxOrder) : WellFormed (markUnavailable bm b.start b.order) := by
  unfold markUnavailable
  rw [indexToBit_start]
  refine ⟨by rw [clearBit_length, h.length_eq], ?_⟩
  rw [bitSet_clearBit cfg.wordSize.pos (blockBit_word h hb), h.spare_clear]
  simp

theorem freeBlocks_markAvailable {bm : Bitmap cfg} (h : WellFormed bm) {b : Block}
    (hb : b.Fits cfg.maxOrder) :
    freeBlocks (markAvailable bm b.start b.order) = insert b (freeBlocks bm) := by
  ext c
  unfold markAvailable freeBlocks
  rw [indexToBit_start, Set.mem_ofPred_eq,
    bitSet_setBit cfg.wordSize.pos (blockBit_word h hb), Bool.or_eq_true, decide_eq_true_eq]
  refine ⟨fun ⟨hc, hbit⟩ => ?_, fun hc => ?_⟩
  · rcases hbit with heq | hset
    · exact Or.inl (blockBit_inj hc hb heq)
    · exact Or.inr ⟨hc, hset⟩
  · rcases hc with rfl | ⟨hfit, hset⟩
    · exact ⟨hb, Or.inl rfl⟩
    · exact ⟨hfit, Or.inr hset⟩

theorem freeBlocks_markUnavailable {bm : Bitmap cfg} (h : WellFormed bm) {b : Block}
    (hb : b.Fits cfg.maxOrder) :
    freeBlocks (markUnavailable bm b.start b.order) = freeBlocks bm \ {b} := by
  ext c
  unfold markUnavailable freeBlocks
  rw [indexToBit_start, Set.mem_ofPred_eq,
    bitSet_clearBit cfg.wordSize.pos (blockBit_word h hb), Bool.and_eq_true]
  simp only [Bool.not_eq_true', decide_eq_false_iff_not, Set.mem_sdiff, Set.mem_ofPred_eq,
    Set.mem_singleton_iff]
  refine ⟨fun ⟨hc, hne, hset⟩ => ⟨⟨hc, hset⟩, fun heq => hne (by rw [heq])⟩,
    fun ⟨⟨hc, hset⟩, hne⟩ => ⟨hc, fun heq => hne (blockBit_inj hc hb heq), hset⟩⟩

/-- Two well-formed bitmaps with the same free blocks are the same bitmap. -/
theorem bitmap_ext {bm bm' : Bitmap cfg} (h : WellFormed bm) (h' : WellFormed bm')
    (hfree : freeBlocks bm = freeBlocks bm') : bm = bm' := by
  have hw := cfg.wordSize.pos
  have hlen : bm.length = bm'.length := by rw [h.length_eq, h'.length_eq]
  -- bit by bit: a bit is the bit of a block, or the spare one
  have hbits : ∀ nr < 2 ^ cfg.norders, bitSet bm nr = bitSet bm' nr := by
    intro nr hnr
    by_cases hlt : nr < 2 ^ cfg.norders - 1
    · obtain ⟨b, hb, rfl⟩ := exists_block_of_bit hlt
      have hmem : b ∈ freeBlocks bm ↔ b ∈ freeBlocks bm' := by rw [hfree]
      rw [Bool.eq_iff_iff]
      exact ⟨fun hs => (hmem.mp ⟨hb, hs⟩).2, fun hs => (hmem.mpr ⟨hb, hs⟩).2⟩
    · have hnr' : nr = 2 ^ cfg.norders - 1 := by omega
      rw [hnr', h.spare_clear, h'.spare_clear]
  apply List.ext_getElem hlen
  intro i hi hi'
  apply BitVec.eq_of_getLsbD_eq
  intro j hj
  have hnr : i * cfg.bitsPerLong + j < 2 ^ cfg.norders := by
    rw [h.length_eq] at hi
    have hmul : (i + 1) * cfg.bitsPerLong ≤
        2 ^ cfg.norders / cfg.bitsPerLong * cfg.bitsPerLong := Nat.mul_le_mul_right _ hi
    rw [Nat.div_mul_cancel cfg.map_words, Nat.add_mul, Nat.one_mul] at hmul
    omega
  have hdiv : (i * cfg.bitsPerLong + j) / cfg.bitsPerLong = i := by
    rw [Nat.mul_comm, Nat.mul_add_div hw, Nat.div_eq_of_lt hj, Nat.add_zero]
  have hmod : (i * cfg.bitsPerLong + j) % cfg.bitsPerLong = j := by
    rw [Nat.mul_comm, Nat.mul_add_mod, Nat.mod_eq_of_lt hj]
  have hbit := hbits _ hnr
  unfold bitSet at hbit
  rw [hdiv, hmod] at hbit
  simpa [List.getD_eq_getElem?_getD, hi, hi'] using hbit

-- ---------------------------------------------------------------------------
-- The generated masks
-- ---------------------------------------------------------------------------

theorem shl_sub_one_getLsbD {n j : Nat} (hn : n < 64) (hj : j < 64) :
    ((1#64 <<< n) - 1#64).getLsbD j = decide (j < n) := by
  have hpow : 2 ^ n < 2 ^ 64 := Nat.pow_lt_pow_right (by decide) hn
  have hpos : 0 < 2 ^ n := Nat.two_pow_pos n
  have heq : (1#64 <<< n) - 1#64 = BitVec.ofNat 64 (2 ^ n - 1) := by
    apply BitVec.eq_of_toNat_eq
    rw [BitVec.toNat_sub, BitVec.toNat_shiftLeft, BitVec.toNat_ofNat, BitVec.toNat_ofNat]
    rw [show 1 % 2 ^ 64 = 1 from rfl, Nat.one_shiftLeft]
    omega
  rw [heq, BitVec.getLsbD_ofNat, Nat.testBit_two_pow_sub_one]
  simp [hj]

/-- The word built for the bits `ls .. le` has exactly these bits. -/
theorem maskWord_getLsbD {ls le j : Nat} (hls : ls ≤ le) (hle : le < 64) (hj : j < 64) :
    (maskWord ls le).getLsbD j = decide (ls ≤ j ∧ j ≤ le) := by
  have htop : ((1#64 <<< le) ||| ((1#64 <<< le) - 1#64)).getLsbD j = decide (j ≤ le) := by
    rw [BitVec.getLsbD_or, shl_sub_one_getLsbD hle hj, BitVec.getLsbD_shiftLeft,
      BitVec.getLsbD_one, Bool.eq_iff_iff]
    simp
    omega
  unfold maskWord
  by_cases h1 : 1 ≤ ls
  · simp only [h1, if_true]
    rw [BitVec.getLsbD_and, htop, BitVec.getLsbD_not, shl_sub_one_getLsbD (by omega) hj,
      Bool.eq_iff_iff]
    simp [hj]
    omega
  · simp only [h1, if_false]
    rw [htop, Bool.eq_iff_iff]
    simp
    omega

/-- Bit `j` of word `i` of the masks built from bit `p` on is set exactly when it
is one of the `nbits` bits from `p` on, words being counted from the word of `p`.
By induction on the turns of the loop: the first turn takes the bits of the first
word, and when bits are left after it the next one starts at a word boundary. -/
theorem orderToMaskLoop_getLsbD (cfg : Config) (startBit : Nat) :
    ∀ (fuel bitIndex nbits i j p q : Nat), nbits ≤ fuel → j < cfg.bitsPerLong →
      p = bitIndex + startBit → q = p / cfg.bitsPerLong →
      ((orderToMaskLoop cfg startBit fuel bitIndex nbits).getD i 0).getLsbD j =
        decide (p ≤ (q + i) * cfg.bitsPerLong + j ∧ (q + i) * cfg.bitsPerLong + j < p + nbits) := by
  have hw := cfg.wordSize.pos
  have hw64 : cfg.bitsPerLong ≤ 64 := by
    rcases cfg.wordSize with h | h <;> omega
  intro fuel
  induction fuel with
  | zero =>
    intro bitIndex nbits i j p q hfuel hj hp hq
    unfold orderToMaskLoop
    rw [Bool.eq_iff_iff]
    simp
    omega
  | succ fuel ih =>
    intro bitIndex nbits i j p q hfuel hj hp hq
    unfold orderToMaskLoop
    by_cases hz : nbits = 0
    · rw [if_pos hz, Bool.eq_iff_iff]
      simp
      omega
    rw [if_neg hz]
    have hpq : p = q * cfg.bitsPerLong + p % cfg.bitsPerLong := by
      rw [hq, Nat.mul_comm]
      exact (Nat.div_add_mod p _).symm
    have hls : p % cfg.bitsPerLong < cfg.bitsPerLong := Nat.mod_lt _ hw
    rw [← hp]
    simp only
    cases i with
    | zero =>
      -- the first word holds the bits from the start bit to the end of the word
      rw [List.getD_cons_zero, BitVec.getLsbD_setWidth,
        maskWord_getLsbD (by omega) (by omega) (by omega), Nat.add_zero, Bool.eq_iff_iff]
      simp only [hj, decide_true, Bool.true_and, decide_eq_true_eq]
      omega
    | succ i =>
      rw [List.getD_cons_succ]
      by_cases hlast : nbits ≤ cfg.bitsPerLong - p % cfg.bitsPerLong
      · -- the first word held all the bits
        rw [Nat.min_eq_left hlast, Nat.sub_self]
        have hempty : orderToMaskLoop cfg startBit fuel (bitIndex + nbits) 0 = [] := by
          cases fuel <;> simp [orderToMaskLoop]
        have hmul : (q + (i + 1)) * cfg.bitsPerLong =
            q * cfg.bitsPerLong + i * cfg.bitsPerLong + cfg.bitsPerLong := by ring
        rw [hempty, Bool.eq_iff_iff, hmul]
        simp
        omega
      · have hnext : p + (cfg.bitsPerLong - p % cfg.bitsPerLong) = (q + 1) * cfg.bitsPerLong := by
          rw [Nat.add_mul, Nat.one_mul]
          omega
        rw [Nat.min_eq_right (by omega),
          ih _ _ i j ((q + 1) * cfg.bitsPerLong) (q + 1) (by omega) hj (by omega)
            (Nat.mul_div_cancel _ hw).symm]
        have hmul : (q + (i + 1)) * cfg.bitsPerLong =
            q * cfg.bitsPerLong + i * cfg.bitsPerLong + cfg.bitsPerLong := by ring
        have hmul' : (q + 1 + i) * cfg.bitsPerLong =
            q * cfg.bitsPerLong + i * cfg.bitsPerLong + cfg.bitsPerLong := by ring
        rw [Bool.eq_iff_iff, hmul, hmul', ← hnext]
        simp only [decide_eq_true_eq]
        omega

/-- The masks of an order select the bits of that order. -/
theorem orderToMask_getLsbD (cfg : Config) (o i : Nat) {j : Nat} (hj : j < cfg.bitsPerLong) :
    ((orderToMask cfg o).getD i 0).getLsbD j =
      decide (orderBase cfg o ≤ (orderBase cfg o / cfg.bitsPerLong + i) * cfg.bitsPerLong + j ∧
        (orderBase cfg o / cfg.bitsPerLong + i) * cfg.bitsPerLong + j <
          orderBase cfg o + cfg.nbufs o) :=
  orderToMaskLoop_getLsbD cfg _ _ _ _ i j _ _ le_rfl hj (Nat.zero_add _).symm rfl

/-- The words of an order reach past its last bit. -/
theorem orderBitmapLen_covers (cfg : Config) (o : Nat) :
    orderBase cfg o + cfg.nbufs o ≤
      (orderBase cfg o / cfg.bitsPerLong + orderBitmapLen cfg o) * cfg.bitsPerLong := by
  have hw := cfg.wordSize.pos
  have hb := Nat.div_add_mod (orderBase cfg o) cfg.bitsPerLong
  have hlead : orderBase cfg o % cfg.bitsPerLong < cfg.bitsPerLong := Nat.mod_lt _ hw
  -- the words for `k` bits that start at a word boundary
  have hwords : ∀ k, k ≤
      (k / cfg.bitsPerLong + if k % cfg.bitsPerLong = 0 then 0 else 1) * cfg.bitsPerLong := by
    intro k
    have hk := Nat.div_add_mod k cfg.bitsPerLong
    have hk' : k % cfg.bitsPerLong < cfg.bitsPerLong := Nat.mod_lt _ hw
    rw [Nat.add_mul, Nat.mul_comm (k / cfg.bitsPerLong)]
    split <;> omega
  rw [Nat.add_mul, Nat.mul_comm (orderBase cfg o / cfg.bitsPerLong)]
  unfold orderBitmapLen
  simp only
  rw [show indexToBit cfg 0 o = orderBase cfg o from rfl]
  by_cases h0 : orderBase cfg o % cfg.bitsPerLong = 0
  · simp only [h0, if_true]
    by_cases hn : cfg.nbufs o = 0
    · simp only [hn, if_true]
      omega
    · have := hwords (cfg.nbufs o)
      simp only [hn, if_false, Nat.zero_add]
      omega
  · simp only [h0, if_false]
    by_cases hn : cfg.nbufs o - (cfg.bitsPerLong - orderBase cfg o % cfg.bitsPerLong) = 0
    · simp only [hn, if_true]
      omega
    · have := hwords (cfg.nbufs o - (cfg.bitsPerLong - orderBase cfg o % cfg.bitsPerLong))
      simp only [hn, if_false]
      rw [Nat.add_assoc, Nat.add_mul, Nat.one_mul]
      omega

/-- The first bit of an order inside its first word. -/
theorem orderToBitmapMaskFfs_eq (cfg : Config) (o : Nat) :
    orderToBitmapMaskFfs cfg o = orderBase cfg o % cfg.bitsPerLong := by
  have hw := cfg.wordSize.pos
  have hlead : orderBase cfg o % cfg.bitsPerLong < cfg.bitsPerLong := Nat.mod_lt _ hw
  have hb := Nat.div_add_mod' (orderBase cfg o) cfg.bitsPerLong
  have hn : 0 < cfg.nbufs o := by
    rw [nbufs_eq]
    exact Nat.two_pow_pos _
  have hbit : ∀ {j}, j < cfg.bitsPerLong → ((orderToMask cfg o).getD 0 0).getLsbD j =
      decide (orderBase cfg o % cfg.bitsPerLong ≤ j ∧
        j < orderBase cfg o % cfg.bitsPerLong + cfg.nbufs o) := by
    intro j hj
    rw [orderToMask_getLsbD cfg o 0 hj, Nat.add_zero, Bool.eq_iff_iff]
    simp only [decide_eq_true_eq]
    omega
  have hset : ((orderToMask cfg o).getD 0 0).getLsbD (orderBase cfg o % cfg.bitsPerLong) = true := by
    rw [hbit hlead]
    simpa using hn
  have hne : ((orderToMask cfg o).getD 0 0).toNat ≠ 0 := by
    intro hzero
    rw [BitVec.getLsbD, hzero] at hset
    simp at hset
  obtain ⟨hge, htrue, hfalse⟩ := ffs_lowest cfg.wordSize hne (BitVec.isLt _)
  unfold orderToBitmapMaskFfs
  -- the lowest bit of the mask is neither before nor after the start bit
  apply le_antisymm
  · by_contra hlt
    have := hfalse (orderBase cfg o % cfg.bitsPerLong) (by omega)
    rw [← BitVec.getLsbD, hset] at this
    exact absurd this (by simp)
  · by_contra hlt
    have := hbit (j := ffs cfg.bitsPerLong ((orderToMask cfg o).getD 0 0).toNat - 1) (by omega)
    rw [BitVec.getLsbD, htrue] at this
    have := of_decide_eq_true this.symm
    omega

-- ---------------------------------------------------------------------------
-- The search
-- ---------------------------------------------------------------------------

section Search

variable {w : Nat} (v mask : List (BitVec w)) (maskFfs : Nat)

theorem findFreeBufLoop_none : ∀ (rem i : Nat), findFreeBufLoop v mask maskFfs i rem = none →
    ∀ k, i ≤ k → k < i + rem → v.getD k 0 &&& mask.getD k 0 = 0 := by
  intro rem
  induction rem with
  | zero =>
    intro i _ k hik hki
    omega
  | succ rem ih =>
    intro i h k hik hki
    unfold findFreeBufLoop at h
    simp only at h
    split at h
    · exact absurd h (by simp)
    · rename_i hx
      rcases Nat.eq_or_lt_of_le hik with rfl | hlt
      · exact not_not.mp hx
      · exact ih (i + 1) h k hlt (by omega)

theorem findFreeBufLoop_some (hw : IsWordSize w) :
    ∀ (rem i bit : Nat), findFreeBufLoop v mask maskFfs i rem = some bit →
    ∃ k j, i ≤ k ∧ k < i + rem ∧ (∀ l, i ≤ l → l < k → v.getD l 0 &&& mask.getD l 0 = 0) ∧
      (v.getD k 0 &&& mask.getD k 0).getLsbD j = true ∧
      (∀ j' < j, (v.getD k 0 &&& mask.getD k 0).getLsbD j' = false) ∧
      bit = ((j : Int) - maskFfs + k * w).toNat := by
  intro rem
  induction rem with
  | zero =>
    intro i bit h
    exact absurd h (by simp [findFreeBufLoop])
  | succ rem ih =>
    intro i bit h
    unfold findFreeBufLoop at h
    simp only at h
    split at h
    · rename_i hx
      have hne : (v.getD i 0 &&& mask.getD i 0).toNat ≠ 0 := by
        intro hzero
        exact hx (BitVec.eq_of_toNat_eq (by simpa using hzero))
      obtain ⟨hge, htrue, hfalse⟩ := ffs_lowest hw hne (BitVec.isLt _)
      have hbit := Option.some.inj h
      refine ⟨i, _, le_rfl, by omega, by omega, htrue, hfalse, ?_⟩
      rw [← hbit]
      congr 2
      omega
    · rename_i hx
      obtain ⟨k, j, hik, hki, hzero, hrest⟩ := ih (i + 1) bit h
      refine ⟨k, j, by omega, by omega, ?_, hrest⟩
      intro l hil hlk
      rcases Nat.eq_or_lt_of_le hil with rfl | hlt
      · exact not_not.mp hx
      · exact hzero l hlt hlk

end Search

/-- What the search sees in word `k` of an order: the bits of the bitmap that
belong to the order. -/
theorem masked_getLsbD (bm : Bitmap cfg) (o k : Nat) {j : Nat} (hj : j < cfg.bitsPerLong) :
    ((orderBitmap bm o).getD k 0 &&& (orderToMask cfg o).getD k 0).getLsbD j =
      (bitSet bm ((orderBase cfg o / cfg.bitsPerLong + k) * cfg.bitsPerLong + j) &&
        decide (orderBase cfg o ≤ (orderBase cfg o / cfg.bitsPerLong + k) * cfg.bitsPerLong + j ∧
          (orderBase cfg o / cfg.bitsPerLong + k) * cfg.bitsPerLong + j <
            orderBase cfg o + cfg.nbufs o)) := by
  have hw := cfg.wordSize.pos
  rw [BitVec.getLsbD_and, orderToMask_getLsbD cfg o k hj]
  congr 1
  unfold bitSet orderBitmap
  rw [List.getD_eq_getElem?_getD, List.getElem?_drop, ← List.getD_eq_getElem?_getD,
    Nat.mul_comm, Nat.mul_add_div hw, Nat.div_eq_of_lt hj, Nat.add_zero, Nat.mul_add_mod,
    Nat.mod_eq_of_lt hj]
  rfl

/-- A set bit of the order is seen by the search, in the word where it lies. -/
theorem masked_ne_zero {bm : Bitmap cfg} {o n : Nat} (hn : n < cfg.nbufs o)
    (hset : bitSet bm (orderBase cfg o + n) = true) :
    ∃ k j, k < orderBitmapLen cfg o ∧ j < cfg.bitsPerLong ∧
      (orderBase cfg o / cfg.bitsPerLong + k) * cfg.bitsPerLong + j = orderBase cfg o + n ∧
      ((orderBitmap bm o).getD k 0 &&& (orderToMask cfg o).getD k 0).getLsbD j = true := by
  have hw := cfg.wordSize.pos
  have hle : orderBase cfg o / cfg.bitsPerLong ≤ (orderBase cfg o + n) / cfg.bitsPerLong :=
    Nat.div_le_div_right (Nat.le_add_right _ _)
  obtain ⟨k, hk⟩ := Nat.exists_eq_add_of_le hle
  have hpos : (orderBase cfg o / cfg.bitsPerLong + k) * cfg.bitsPerLong +
      (orderBase cfg o + n) % cfg.bitsPerLong = orderBase cfg o + n := by
    rw [← hk]
    exact Nat.div_add_mod' _ _
  have hj := Nat.mod_lt (orderBase cfg o + n) hw
  refine ⟨k, _, ?_, hj, hpos, ?_⟩
  · -- a word past the length starts past the last bit
    by_contra hge
    have hmul : (orderBase cfg o / cfg.bitsPerLong + orderBitmapLen cfg o) * cfg.bitsPerLong ≤
        (orderBase cfg o / cfg.bitsPerLong + k) * cfg.bitsPerLong :=
      Nat.mul_le_mul_right _ (by omega)
    have := orderBitmapLen_covers cfg o
    omega
  · rw [masked_getLsbD bm o k hj, hpos, hset]
    simp
    omega

theorem mem_freeBlocks_mk {bm : Bitmap cfg} {o n : Nat} (ho : o ≤ cfg.maxOrder) :
    (⟨o, n⟩ : Block) ∈ freeBlocks bm ↔
      n < cfg.nbufs o ∧ bitSet bm (orderBase cfg o + n) = true := by
  unfold freeBlocks
  rw [Set.mem_ofPred_eq, fits_iff]
  exact ⟨fun h => ⟨h.1.2, h.2⟩, fun h => ⟨⟨ho, h.1⟩, h.2⟩⟩

/-- **The search fails only when the order has no free block.** -/
theorem findFreeBuf_none {bm : Bitmap cfg} {o : Nat} (ho : o ≤ cfg.maxOrder)
    (h : findFreeBuf bm o = none) : ∀ n, (⟨o, n⟩ : Block) ∉ freeBlocks bm := by
  intro n hmem
  obtain ⟨hn, hset⟩ := (mem_freeBlocks_mk ho).mp hmem
  obtain ⟨k, j, hk, -, -, hbit⟩ := masked_ne_zero hn hset
  unfold findFreeBuf at h
  have := findFreeBufLoop_none _ _ _ _ _ (Option.map_eq_none_iff.mp h) k (Nat.zero_le k) (by omega)
  rw [this] at hbit
  simp at hbit

/-- **The search finds the free block of lowest index.** -/
theorem findFreeBuf_some {bm : Bitmap cfg} {o index : Nat} (ho : o ≤ cfg.maxOrder)
    (h : findFreeBuf bm o = some index) :
    ∃ n, (⟨o, n⟩ : Block) ∈ freeBlocks bm ∧ index = (⟨o, n⟩ : Block).start ∧
      ∀ n' < n, (⟨o, n'⟩ : Block) ∉ freeBlocks bm := by
  have hw := cfg.wordSize.pos
  unfold findFreeBuf at h
  obtain ⟨bit, hloop, hidx⟩ := Option.map_eq_some_iff.mp h
  obtain ⟨k, j, -, hk, hzero, htrue, hfalse, hbit⟩ :=
    findFreeBufLoop_some _ _ _ cfg.wordSize _ _ _ hloop
  have hj : j < cfg.bitsPerLong := by
    by_contra hge
    rw [BitVec.getLsbD_of_ge _ _ (by omega)] at htrue
    exact absurd htrue (by simp)
  rw [masked_getLsbD bm o k hj, Bool.and_eq_true, decide_eq_true_eq] at htrue
  obtain ⟨hset, hlo, hhi⟩ := htrue
  have hb := Nat.div_add_mod' (orderBase cfg o) cfg.bitsPerLong
  have hmul : (orderBase cfg o / cfg.bitsPerLong + k) * cfg.bitsPerLong =
      orderBase cfg o / cfg.bitsPerLong * cfg.bitsPerLong + k * cfg.bitsPerLong := Nat.add_mul _ _ _
  -- the bit counted from the first bit of the order
  have hpos : orderBase cfg o + bit =
      (orderBase cfg o / cfg.bitsPerLong + k) * cfg.bitsPerLong + j := by
    rw [hbit, orderToBitmapMaskFfs_eq]
    push_cast
    omega
  rw [← hpos] at hset hlo hhi
  refine ⟨bit, (mem_freeBlocks_mk ho).mpr ⟨by omega, hset⟩, ?_, ?_⟩
  · rw [← hidx]
    unfold bitToIndex Block.start
    rw [Nat.shiftLeft_eq]
  · intro n' hlt hmem
    obtain ⟨hn', hset'⟩ := (mem_freeBlocks_mk ho).mp hmem
    obtain ⟨k', j', hk', hj', hpos', hbit'⟩ := masked_ne_zero hn' hset'
    -- an earlier bit lies in an earlier word, or earlier in the same word
    rcases Nat.lt_trichotomy k' k with hlt' | rfl | hgt
    · rw [hzero k' (Nat.zero_le k') hlt'] at hbit'
      simp at hbit'
    · rw [hfalse j' (by omega)] at hbit'
      exact absurd hbit' (by simp)
    · have : (orderBase cfg o / cfg.bitsPerLong + (k + 1)) * cfg.bitsPerLong ≤
          (orderBase cfg o / cfg.bitsPerLong + k') * cfg.bitsPerLong :=
        Nat.mul_le_mul_right _ (by omega)
      rw [← Nat.add_assoc, Nat.add_mul, Nat.one_mul] at this
      omega

end Bathos.Allocator
