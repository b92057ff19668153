import Bathos.Allocator.Bitmap

/-!
# Bathos — the search for a free buffer, bit by bit

`__find_free_buf` looks at whole words, through tables another program has
written. `searchBits` is the search a reader would write: the indices of an
order one after the other, one `test_bit` each.

Main result:

* `findFreeBuf_eq_searchBits` — the two agree on every bitmap; the tables of the
  generator have one mask for every word that is read, and every such word lies
  inside `__bitmap`.
-/

namespace Bathos.Allocator

open Bathos.Lib

variable {cfg : Config}

-- ---------------------------------------------------------------------------
-- Sizes of the tables
-- ---------------------------------------------------------------------------

/-- Words with a bit among the `nbits` bits from bit `lead` of the first one on. -/
def wordsFor (w lead nbits : Nat) : Nat := (lead + nbits + w - 1) / w

/-- Up to the end of the first word one word is enough. -/
theorem wordsFor_one {w lead nbits : Nat} (hpos : 0 < nbits) (hle : lead + nbits ≤ w) :
    wordsFor w lead nbits = 1 := by
  unfold wordsFor
  rw [show lead + nbits + w - 1 = w * 1 + (lead + nbits - 1) by omega,
    Nat.mul_add_div (by omega), Nat.div_eq_of_lt (by omega)]

/-- The bits past the first word start at a word boundary. -/
theorem wordsFor_next {w lead nbits : Nat} (hlead : lead < w) (hlt : w - lead < nbits) :
    wordsFor w lead nbits = 1 + wordsFor w 0 (nbits - (w - lead)) := by
  unfold wordsFor
  rw [show lead + nbits + w - 1 = w * 1 + (0 + (nbits - (w - lead)) + w - 1) by omega,
    Nat.mul_add_div (by omega)]

theorem wordsFor_zero {w nbits : Nat} (hw : 0 < w) :
    wordsFor w 0 nbits = nbits / w + if nbits % w = 0 then 0 else 1 := by
  have hdiv := Nat.div_add_mod nbits w
  have hmod := Nat.mod_lt nbits hw
  unfold wordsFor
  split
  · rename_i h0
    rw [show 0 + nbits + w - 1 = w * (nbits / w) + (w - 1) by omega, Nat.mul_add_div hw,
      Nat.div_eq_of_lt (show w - 1 < w by omega)]
  · rename_i h0
    rw [show 0 + nbits + w - 1 = w * (nbits / w + 1) + (nbits % w - 1) by
        rw [Nat.mul_add, Nat.mul_one]; omega,
      Nat.mul_add_div hw, Nat.div_eq_of_lt (show nbits % w - 1 < w by omega)]

/-- The words end less than a word after the last bit. -/
theorem wordsFor_mul_lt {w lead nbits : Nat} (hw : 0 < w) (hpos : 0 < nbits) :
    wordsFor w lead nbits * w < lead + nbits + w := by
  unfold wordsFor
  have := Nat.div_mul_le_self (lead + nbits + w - 1) w
  omega

theorem nbufs_pos (cfg : Config) (o : Nat) : 0 < cfg.nbufs o := by
  rw [nbufs_eq]
  exact Nat.two_pow_pos _

theorem orderBitmapLen_eq (cfg : Config) (o : Nat) :
    orderBitmapLen cfg o =
      wordsFor cfg.bitsPerLong (orderBase cfg o % cfg.bitsPerLong) (cfg.nbufs o) := by
  have hw := cfg.wordSize.pos
  have hn := nbufs_pos cfg o
  have hlead : orderBase cfg o % cfg.bitsPerLong < cfg.bitsPerLong := Nat.mod_lt _ hw
  unfold orderBitmapLen
  simp only
  rw [show indexToBit cfg 0 o = orderBase cfg o from rfl]
  by_cases h0 : orderBase cfg o % cfg.bitsPerLong = 0
  · simp only [h0, if_true]
    rw [if_neg (by omega), wordsFor_zero hw, Nat.zero_add]
  · simp only [h0, if_false]
    by_cases hlast : cfg.nbufs o ≤ cfg.bitsPerLong - orderBase cfg o % cfg.bitsPerLong
    · rw [if_pos (by omega), wordsFor_one hn (by omega)]
    · rw [if_neg (by omega), wordsFor_next hlead (by omega), wordsFor_zero hw, Nat.add_assoc]

/-- One mask for every word with bits of the order. By induction on the turns of
the loop: after the first one, the bits left start at a word boundary. -/
theorem orderToMaskLoop_length (cfg : Config) (startBit : Nat) :
    ∀ fuel bitIndex nbits : Nat, nbits ≤ fuel → 0 < nbits →
      (orderToMaskLoop cfg startBit fuel bitIndex nbits).length =
        wordsFor cfg.bitsPerLong ((bitIndex + startBit) % cfg.bitsPerLong) nbits := by
  have hw := cfg.wordSize.pos
  intro fuel
  induction fuel with
  | zero =>
    intro bitIndex nbits hfuel hpos
    omega
  | succ fuel ih =>
    intro bitIndex nbits hfuel hpos
    have hls : (bitIndex + startBit) % cfg.bitsPerLong < cfg.bitsPerLong := Nat.mod_lt _ hw
    have hdiv := Nat.div_add_mod (bitIndex + startBit) cfg.bitsPerLong
    set ls := (bitIndex + startBit) % cfg.bitsPerLong with hlsDef
    unfold orderToMaskLoop
    simp only
    rw [if_neg (by omega), List.length_cons, ← hlsDef]
    by_cases hlast : nbits ≤ cfg.bitsPerLong - ls
    · have hempty : orderToMaskLoop cfg startBit fuel (bitIndex + nbits) 0 = [] := by
        cases fuel <;> simp [orderToMaskLoop]
      rw [Nat.min_eq_left hlast, Nat.sub_self, hempty, wordsFor_one hpos (by omega)]
      rfl
    · have hbound : (bitIndex + (cfg.bitsPerLong - ls) + startBit) % cfg.bitsPerLong = 0 := by
        rw [show bitIndex + (cfg.bitsPerLong - ls) + startBit =
          cfg.bitsPerLong * ((bitIndex + startBit) / cfg.bitsPerLong + 1) by
            rw [Nat.mul_add, Nat.mul_one]; omega]
        exact Nat.mul_mod_right _ _
      rw [Nat.min_eq_right (by omega), ih _ _ (by omega) (by omega), hbound,
        wordsFor_next hls (by omega), Nat.add_comm]

/-- The generator writes as many masks as `__bitmap_len` says. -/
theorem orderToMask_length (cfg : Config) (o : Nat) :
    (orderToMask cfg o).length = orderBitmapLen cfg o := by
  unfold orderToMask
  rw [orderToMaskLoop_length cfg _ _ _ _ le_rfl (nbufs_pos cfg o), orderBitmapLen_eq,
    Nat.zero_add]
  rfl

/-- The last word of an order is a word of `__bitmap`. -/
theorem orderBitmap_inside {o : Nat} (ho : o ≤ cfg.maxOrder) :
    orderBase cfg o / cfg.bitsPerLong + orderBitmapLen cfg o ≤
      2 ^ cfg.norders / cfg.bitsPerLong := by
  have hw := cfg.wordSize.pos
  have hlast := orderBase_add_lt ho (Nat.sub_lt (nbufs_pos cfg o) Nat.one_pos)
  have hn := nbufs_pos cfg o
  have hdiv := Nat.div_add_mod' (orderBase cfg o) cfg.bitsPerLong
  have hlen : orderBitmapLen cfg o * cfg.bitsPerLong <
      orderBase cfg o % cfg.bitsPerLong + cfg.nbufs o + cfg.bitsPerLong := by
    rw [orderBitmapLen_eq]
    exact wordsFor_mul_lt hw hn
  -- the words end before the last bit of the map plus one word
  have hmul : (orderBase cfg o / cfg.bitsPerLong + orderBitmapLen cfg o) * cfg.bitsPerLong <
      (2 ^ cfg.norders / cfg.bitsPerLong + 1) * cfg.bitsPerLong := by
    rw [Nat.add_mul, Nat.add_mul, Nat.div_mul_cancel cfg.map_words, Nat.one_mul]
    omega
  exact Nat.lt_succ_iff.mp (Nat.lt_of_mul_lt_mul_right hmul)

-- ---------------------------------------------------------------------------
-- Bit by bit
-- ---------------------------------------------------------------------------

/-- The search as one would write it: the first index of the order whose bit is
set. -/
def searchBits (bm : Bitmap cfg) (order : Nat) : Option Nat :=
  (List.range (cfg.nbufs 0)).find? fun index =>
    decide (2 ^ order ∣ index) && testBit (indexToBit cfg index order) bm

/-- The indices of an order are the starts of its blocks. -/
theorem start_lt_nbufs {b : Block} : b.Fits cfg.maxOrder → b.start < cfg.nbufs 0 := by
  rintro ⟨ho, hn⟩
  rw [nbufs_eq, Nat.sub_zero, ← Nat.sub_add_cancel ho, Nat.pow_add]
  exact Nat.mul_lt_mul_of_pos_right hn (Nat.two_pow_pos _)

theorem fits_of_start_lt {b : Block} (ho : b.order ≤ cfg.maxOrder) (h : b.start < cfg.nbufs 0) :
    b.Fits cfg.maxOrder := by
  refine ⟨ho, ?_⟩
  rw [nbufs_eq, Nat.sub_zero, ← Nat.sub_add_cancel ho, Nat.pow_add] at h
  exact Nat.lt_of_mul_lt_mul_right h

/-- The test of an index of the order is the test of its block. -/
theorem searchBits_test {bm : Bitmap cfg} {o n : Nat} (ho : o ≤ cfg.maxOrder)
    (hlt : n * 2 ^ o < cfg.nbufs 0) :
    testBit (indexToBit cfg (n * 2 ^ o) o) bm = true ↔ (⟨o, n⟩ : Block) ∈ freeBlocks bm :=
  isFree_eq (b := ⟨o, n⟩) (fits_of_start_lt ho hlt)

theorem searchBits_none {bm : Bitmap cfg} {o : Nat} (ho : o ≤ cfg.maxOrder)
    (h : ∀ n, (⟨o, n⟩ : Block) ∉ freeBlocks bm) : searchBits bm o = none := by
  unfold searchBits
  rw [List.find?_eq_none]
  intro index hmem
  rw [Bool.and_eq_true, decide_eq_true_eq]
  rintro ⟨⟨n, rfl⟩, htest⟩
  rw [Nat.mul_comm] at hmem htest
  exact h n ((searchBits_test ho (List.mem_range.mp hmem)).mp htest)

theorem searchBits_some {bm : Bitmap cfg} {b : Block} (hb : b ∈ freeBlocks bm)
    (hmin : ∀ n < b.num, (⟨b.order, n⟩ : Block) ∉ freeBlocks bm) :
    searchBits bm b.order = some b.start := by
  have hlt := start_lt_nbufs hb.1
  unfold searchBits
  rw [List.find?_range_eq_some]
  refine ⟨?_, List.mem_range.mpr hlt, ?_⟩
  · rw [Bool.and_eq_true, decide_eq_true_eq]
    exact ⟨Dvd.intro_left _ rfl, (searchBits_test hb.1.1 hlt).mpr hb⟩
  · intro index hindex
    rw [Bool.not_eq_true', ← Bool.not_eq_true, Bool.and_eq_true, decide_eq_true_eq]
    rintro ⟨⟨n, rfl⟩, htest⟩
    rw [Nat.mul_comm] at hindex htest
    have hn : n < b.num := Nat.lt_of_mul_lt_mul_right hindex
    exact hmin n hn ((searchBits_test hb.1.1 (hindex.trans hlt)).mp htest)

/-- The search sees the bits of its own order only. -/
theorem searchBits_congr {bm bm' : Bitmap cfg} {o : Nat}
    (h : ∀ index < cfg.nbufs 0, 2 ^ o ∣ index →
      testBit (indexToBit cfg index o) bm' = testBit (indexToBit cfg index o) bm) :
    searchBits bm' o = searchBits bm o := by
  unfold searchBits
  apply List.find?_congr
  intro index hmem
  by_cases hdvd : 2 ^ o ∣ index
  · rw [h index (List.mem_range.mp hmem) hdvd]
  · simp [hdvd]

theorem findFreeBuf_eq {bm : Bitmap cfg} {o : Nat} (ho : o ≤ cfg.maxOrder) :
    findFreeBuf bm o = searchBits bm o := by
  cases hf : findFreeBuf bm o with
  | none => exact (searchBits_none ho (findFreeBuf_none ho hf)).symm
  | some index =>
    obtain ⟨n, hmem, rfl, hmin⟩ := findFreeBuf_some ho hf
    exact (searchBits_some hmem hmin).symm

/-- **The search over masked words is the search bit by bit.** For every build,
order and content of the bitmap. The masks are as many as the words read, these
words lie inside the map, and bits of other orders have no influence. -/
theorem findFreeBuf_eq_searchBits (cfg : Config) (bm : Bitmap cfg) {o : Nat}
    (ho : o ≤ cfg.maxOrder) :
    findFreeBuf bm o = searchBits bm o ∧
      (orderToMask cfg o).length = orderBitmapLen cfg o ∧
      indexToBit cfg 0 o / cfg.bitsPerLong + orderBitmapLen cfg o ≤
        2 ^ cfg.norders / cfg.bitsPerLong ∧
      ∀ bm' : Bitmap cfg, (∀ index < cfg.nbufs 0, 2 ^ o ∣ index →
          testBit (indexToBit cfg index o) bm' = testBit (indexToBit cfg index o) bm) →
        findFreeBuf bm' o = findFreeBuf bm o := by
  refine ⟨findFreeBuf_eq ho, orderToMask_length cfg o, orderBitmap_inside ho, ?_⟩
  intro bm' hsame
  rw [findFreeBuf_eq ho, findFreeBuf_eq ho]
  exact searchBits_congr hsame

/-- The build of the default configuration for a 32-bit target. -/
def defaultBuild : Config where
  norders := 8
  bitsPerLong := 32
  allocatorMemory := 1024
  shlNegative := fun _ => 0
  norders_pos := Config.one_le_eight
  wordSize := Config.wordSize_32
  map_words := Config.map_words_32
  memory_pos := by decide
  memory_units := by decide

-- Orders 3 to 7 share the last word: bit 4 of it is the fifth buffer of order 3.
theorem findFreeBuf_eq_searchBits_shared :
    @findFreeBuf defaultBuild [0, 0, 0, 0, 0, 0, 0, 0xffff0010] 3 =
      @searchBits defaultBuild [0, 0, 0, 0, 0, 0, 0, 0xffff0010] 3 :=
  (findFreeBuf_eq_searchBits defaultBuild [0, 0, 0, 0, 0, 0, 0, 0xffff0010] (by decide)).1

end Bathos.Allocator
