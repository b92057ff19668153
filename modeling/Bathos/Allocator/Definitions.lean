import Bathos.Include.Bitops

/-!
# Bathos — the buddy allocator

`lib/allocator.c`, `include/bathos/allocator.h` and the table generator
`scripts/allocator_aux_gen.c`. Buffers are handed out from the static array
`mem`; one packed bitmap holds a bit for every buffer of every order, the orders
one after the other.

A buffer is named by its order and its index, the number of its first order-0
unit. Pointers into `mem` are byte offsets from `mem`. Integer arithmetic is on
`Nat` and `Int`: the sizes and bit numbers of a configuration that can be built
fit the C `int`.

One expression of the code has no value in C: `bathos_free_buffer` computes
`1 << (order - 1)`, a shift by a negative amount when `order` is zero. What the
target machine makes of it is part of the configuration (`shlNegative`).
-/

namespace Bathos.Allocator

/-- A build of the allocator: the constants of `allocator.h`, the word size, and
the value the target gives to `1 << k` for negative `k`. -/
structure Config where
  norders : Nat
  bitsPerLong : Nat
  allocatorMemory : Nat
  shlNegative : Int → Nat
  norders_pos : 1 ≤ norders
  wordSize : IsWordSize bitsPerLong
  map_words : bitsPerLong ∣ 2 ^ norders
  memory_pos : 0 < allocatorMemory
  memory_units : 2 ^ (norders - 1) ∣ allocatorMemory

namespace Config

/-- Eight orders, in words of 32 bits. -/
theorem one_le_eight : 1 ≤ 8 := by decide

theorem wordSize_32 : IsWordSize 32 := Or.inl rfl

theorem map_words_32 : 32 ∣ 2 ^ 8 := by decide

variable (cfg : Config)

/-- `BATHOS_MAX_ORDER`. -/
def maxOrder : Nat := cfg.norders - 1

/-- `BATHOS_NBUFS(o)`: `1 << ((BATHOS_NORDERS - (o)) - 1)`. -/
def nbufs (o : Nat) : Nat := 1 <<< (cfg.norders - o - 1)

/-- `BATHOS_BUF_SIZE(o)`: `BATHOS_ALLOCATOR_MEMORY / BATHOS_NBUFS(o)`. -/
def bufSize (o : Nat) : Nat := cfg.allocatorMemory / cfg.nbufs o

/-- `1 << k` as the target computes it. -/
def shlOne (k : Int) : Nat := if 0 ≤ k then 1 <<< k.toNat else cfg.shlNegative k

end Config

variable (cfg : Config)

/-- `__index_to_bit`. -/
def indexToBit (index order : Nat) : Nat :=
  (1 <<< cfg.norders) - (1 <<< (cfg.norders - order)) + (index >>> order)

/-! ## Tables written by allocator_aux_gen -/

/-- `__order_bitmap_len`, the contents of `__bitmap_len`: how many words hold
bits of this order. A negative `nbits` of the C code is zero here. -/
def orderBitmapLen (order : Nat) : Nat :=
  let nbits := cfg.nbufs order
  let startBit := indexToBit cfg 0 order
  let lead := startBit % cfg.bitsPerLong
  let out := if lead = 0 then 0 else 1
  let nbits := if lead = 0 then nbits else nbits - (cfg.bitsPerLong - lead)
  if nbits = 0 then out
  else out + nbits / cfg.bitsPerLong + (if nbits % cfg.bitsPerLong = 0 then 0 else 1)

/-- Bits `ls` to `le` of a word, as `__order_to_mask` builds them in an
`unsigned long long`. -/
def maskWord (ls le : Nat) : BitVec 64 :=
  let tmp := (1#64 <<< le) ||| ((1#64 <<< le) - 1#64)
  if 1 ≤ ls then tmp &&& ~~~((1#64 <<< ls) - 1#64) else tmp

/-- The loop of `__order_to_mask`, one word of the result per turn. Every turn
takes at least one bit, so `nbits` turns are enough (`fuel`). -/
def orderToMaskLoop (startBit : Nat) : Nat → Nat → Nat → List (BitVec cfg.bitsPerLong)
  | 0, _, _ => []
  | fuel + 1, bitIndex, nbits =>
    if nbits = 0 then []
    else
      let ls := (bitIndex + startBit) % cfg.bitsPerLong
      let lnbits := min nbits (cfg.bitsPerLong - ls)
      let le := ls + lnbits - 1
      (maskWord ls le).setWidth cfg.bitsPerLong ::
        orderToMaskLoop startBit fuel (bitIndex + lnbits) (nbits - lnbits)

/-- `__order_to_mask`, the contents of `__bitmap_mask`. -/
def orderToMask (order : Nat) : List (BitVec cfg.bitsPerLong) :=
  orderToMaskLoop cfg (indexToBit cfg 0 order) (cfg.nbufs order) 0 (cfg.nbufs order)

/-- The contents of `__bitmap_mask_ffs`: `__ffs(m[0]) - 1`. -/
def orderToBitmapMaskFfs (order : Nat) : Nat :=
  ffs cfg.bitsPerLong ((orderToMask cfg order).getD 0 0).toNat - 1

/-! ## The bitmap -/

/-- `__bitmap`. -/
abbrev Bitmap := List (BitVec cfg.bitsPerLong)

variable {cfg}

/-- `__size_to_order`: the first order whose buffers are large enough, `none`
for the `-1` of the C code. -/
def sizeToOrder (cfg : Config) (size : Int) : Option Nat :=
  (List.range (cfg.maxOrder + 1)).find? fun i => decide (size ≤ cfg.bufSize i)

/-- `__get_buddy`: `index ^ (1 << order)`. -/
def getBuddy (index order : Nat) : Nat := index ^^^ (1 <<< order)

/-- `__get_parent`: `index & ~(1 << order)`, the mask written as the bits of
`index` it removes. -/
def getParent (index order : Nat) : Nat := index ^^^ (index &&& (1 <<< order))

/-- `__is_free`. -/
def isFree (bm : Bitmap cfg) (index order : Nat) : Bool :=
  testBit (indexToBit cfg index order) bm

/-- `__mark_unavailable`. -/
def markUnavailable (bm : Bitmap cfg) (index order : Nat) : Bitmap cfg :=
  clearBit (indexToBit cfg index order) bm

/-- `__mark_available`. -/
def markAvailable (bm : Bitmap cfg) (index order : Nat) : Bitmap cfg :=
  setBit (indexToBit cfg index order) bm

/-- `__order_bitmap`: the words from the first one with bits of this order. -/
def orderBitmap (bm : Bitmap cfg) (order : Nat) : Bitmap cfg :=
  bm.drop (indexToBit cfg 0 order / cfg.bitsPerLong)

/-- `__bit_to_index`. -/
def bitToIndex (bit order : Nat) : Nat := bit <<< order

/-- The loop of `__find_free_buf` from word `i`, with `rem` words to go: the bit,
counted from the first bit of the order, of the first free buffer. -/
def findFreeBufLoop {w : Nat} (v mask : List (BitVec w)) (maskFfs : Nat) :
    Nat → Nat → Option Nat
  | _, 0 => none
  | i, rem + 1 =>
    let x := v.getD i 0 &&& mask.getD i 0
    if x ≠ 0 then some (((ffs w x.toNat : Int) - 1 - maskFfs + i * w).toNat)
    else findFreeBufLoop v mask maskFfs (i + 1) rem

/-- `__find_free_buf`: the index of the first free buffer of an order. -/
def findFreeBuf (bm : Bitmap cfg) (order : Nat) : Option Nat :=
  (findFreeBufLoop (orderBitmap bm order) (orderToMask cfg order)
    (orderToBitmapMaskFfs cfg order) 0 (orderBitmapLen cfg order)).map
    fun bit => bitToIndex bit order

/-- `__coalesce_buffers`, with the number of orders left above `order`. -/
def coalesceLoop : Nat → Bitmap cfg → Nat → Nat → Bitmap cfg
  | 0, bm, _, _ => bm
  | rem + 1, bm, index, order =>
    if order = cfg.maxOrder then bm
    else
      let buddy := getBuddy index order
      if !isFree bm buddy order then bm
      else
        let parent := getParent index order
        let bm := markUnavailable bm index order
        let bm := markUnavailable bm buddy order
        let bm := markAvailable bm parent (order + 1)
        coalesceLoop rem bm parent (order + 1)

/-- `__coalesce_buffers`. -/
def coalesceBuffers (bm : Bitmap cfg) (index order : Nat) : Bitmap cfg :=
  coalesceLoop (cfg.maxOrder - order) bm index order

/-- `__split_buffers`. It is only called with `min_order < order`. -/
def splitBuffers (minOrder : Nat) : Nat → Bitmap cfg → Bitmap cfg
  | 0, bm => bm
  | order + 1, bm =>
    match findFreeBuf bm (order + 1) with
    | none => bm
    | some index =>
      let bm := markUnavailable bm index (order + 1)
      let bm := markAvailable bm index order
      let bm := markAvailable bm (getBuddy index order) order
      if order + 1 - minOrder > 1 then splitBuffers minOrder order bm else bm

/-- The loop of `bathos_alloc_buffer`: look for a buffer of the right order, and
split one of the next order as long as there is none and orders are left. -/
def allocLoop (order : Nat) : Nat → Nat → Bitmap cfg → Bitmap cfg × Option Nat
  | 0, _, bm => (bm, findFreeBuf bm order)
  | rem + 1, i, bm =>
    match findFreeBuf bm order with
    | some index => (bm, some index)
    | none =>
      if i < cfg.maxOrder then allocLoop order rem (i + 1) (splitBuffers order (i + 1) bm)
      else (bm, none)

/-! ## Entry points -/

/-- The static data of `allocator.c`: `__bitmap` and `__initialized`. -/
structure State (cfg : Config) where
  bitmap : Bitmap cfg
  initialized : Bool

/-- Zeroed static memory. -/
def State.boot (cfg : Config) : State cfg where
  bitmap := List.replicate ((1 <<< cfg.norders) / cfg.bitsPerLong) 0
  initialized := false

/-- `bathos_alloc_init`. -/
def bathosAllocInit (s : State cfg) : State cfg :=
  { s with bitmap := markAvailable s.bitmap 0 cfg.maxOrder }

/-- `bathos_alloc_buffer`: the new state and the offset of the buffer in `mem`,
`none` for `NULL`. -/
def bathosAllocBuffer (s : State cfg) (size : Int) : State cfg × Option Nat :=
  let order := sizeToOrder cfg size
  let s := if s.initialized then s else { bathosAllocInit s with initialized := true }
  match order with
  | none => (s, none)
  | some order =>
    match allocLoop order (cfg.maxOrder - order) order s.bitmap with
    | (bm, none) => ({ s with bitmap := bm }, none)
    | (bm, some index) =>
      ({ s with bitmap := markUnavailable bm index order }, some (index * cfg.bufSize 0))

/-- What can go wrong in `bathos_free_buffer`: with no order for the given size
the code goes on with order `-1` and a bit number before the bitmap. -/
inductive Fault where
  | bitOutOfMap
deriving DecidableEq, Repr

/-- `bathos_free_buffer(b, size)`, `offset` being `b - mem`. -/
def bathosFreeBuffer (s : State cfg) (offset size : Int) : Except Fault (State cfg) :=
  let order := sizeToOrder cfg size
  if offset < 0 ∨ offset ≥ cfg.allocatorMemory then
    -- "invalid ptr"
    .ok s
  else
    let shift : Int := match order with
      | some o => (o : Int) - 1
      | none => -2
    if offset.toNat &&& cfg.shlOne shift ≠ 0 then
      -- "unaligned ptr"
      .ok s
    else
      match order with
      | none => .error .bitOutOfMap
      | some order =>
        let index := offset.toNat / cfg.bufSize 0
        let bm := markAvailable s.bitmap index order
        .ok { s with bitmap := coalesceBuffers bm index order }

end Bathos.Allocator
