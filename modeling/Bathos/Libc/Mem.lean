import Bathos.Lib.Bytes
import Bathos.Lib.Memory

/-!
# Bathos — `memcpy` and `memset`

`lib/string.c`: while everything is aligned both go a word at a time, and byte by byte for
the rest. `count` is an `int` that is compared with a `sizeof`, and counted down to -1 by
the loop over the bytes.

Main results:

* `copyWords_eq`, `copyBytes_eq`, `fillWords_eq`, `fillBytes_eq` — each loop writes a
  block, whatever its turns write;
* `memcpy_memset_bytes` — both are the loops over bytes, for either size of a word.
-/

namespace Bathos.Libc

open Bathos.Lib

-- ---------------------------------------------------------------------------
-- Words in memory
-- ---------------------------------------------------------------------------

/-- The size of `intptr_t`, `size_t` and `unsigned long`, and the byte order. -/
structure Machine where
  word : Nat
  bigEndian : Bool
  word_eq : word = 4 ∨ word = 8

abbrev Mem := Nat → UInt8

namespace Machine

variable (m : Machine)

/-- From the least significant byte first to the order in memory, and back. -/
def order (bytes : List UInt8) : List UInt8 := if m.bigEndian then bytes.reverse else bytes

def load (mem : Mem) (addr : Nat) : BitVec (8 * m.word) :=
  ofBytes (8 * m.word) (m.order (block mem addr m.word))

def store (v : BitVec (8 * m.word)) (addr : Nat) (mem : Mem) : Mem :=
  blit mem addr (m.order (toBytes m.word v))

/-- The conversion of an `int` for a comparison with a `sizeof`. -/
def toSize (count : Int) : Nat := (count % 2 ^ (8 * m.word)).toNat

/-- `(addr & (sizeof(word) - 1)) == 0`. -/
def Aligned (addr : Nat) : Prop := addr &&& (m.word - 1) = 0

instance : DecidablePred m.Aligned := fun _ => inferInstanceAs (Decidable (_ = _))

-- ---------------------------------------------------------------------------
-- memcpy
-- ---------------------------------------------------------------------------

/-- The locals of `memcpy` and the memory. -/
structure Copy where
  d : Nat
  s : Nat
  count : Int
  mem : Mem

/-- `while (count >= sizeof(*dl))`, for `fuel` tests at most. -/
def copyWords : Nat → Copy → Option Copy
  | 0, _ => none
  | fuel + 1, c =>
    if m.word ≤ m.toSize c.count then
      copyWords fuel
        { d := c.d + m.word, s := c.s + m.word, count := c.count - m.word,
          mem := m.store (m.load c.mem c.s) c.d c.mem }
    else some c

/-- `while (count--)`. -/
def copyBytes : Nat → Copy → Option Copy
  | 0, _ => none
  | fuel + 1, c =>
    if c.count ≠ 0 then
      copyBytes fuel
        { d := c.d + 1, s := c.s + 1, count := c.count - 1,
          mem := Function.update c.mem c.d (c.mem c.s) }
    else some { c with count := c.count - 1 }

/-- `memcpy(d, s, count)`: the memory it leaves, if both loops end within `fuel` tests. -/
def memcpy (fuel d s : Nat) (count : Int) (mem : Mem) : Option Mem :=
  let c := { d := d, s := s, count := count, mem := mem }
  ((if m.Aligned (d ||| s) then m.copyWords fuel c else some c).bind (copyBytes fuel)).map (·.mem)

-- ---------------------------------------------------------------------------
-- memset
-- ---------------------------------------------------------------------------

/-- The locals of `memset` that its loops change, and the memory. -/
structure Fill where
  s : Nat
  count : Int
  mem : Mem

/-- `cl <<= 8; cl |= c & 0xff`, once for each byte of a word. -/
def fillWord (c : BitVec 32) : BitVec (8 * m.word) :=
  (fun cl : BitVec (8 * m.word) => cl <<< 8 ||| (c &&& 0xff).setWidth (8 * m.word))^[m.word] 0

/-- `while (count >= sizeof(*sl))`. -/
def fillWords (cl : BitVec (8 * m.word)) : Nat → Fill → Option Fill
  | 0, _ => none
  | fuel + 1, f =>
    if m.word ≤ m.toSize f.count then
      fillWords cl fuel
        { s := f.s + m.word, count := f.count - m.word, mem := m.store cl f.s f.mem }
    else some f

/-- `while (count--)`. -/
def fillBytes (c : BitVec 32) : Nat → Fill → Option Fill
  | 0, _ => none
  | fuel + 1, f =>
    if f.count ≠ 0 then
      fillBytes c fuel
        { s := f.s + 1, count := f.count - 1,
          mem := Function.update f.mem f.s (UInt8.ofBitVec (c.setWidth 8)) }
    else some { f with count := f.count - 1 }

/-- `memset(s, c, count)`. -/
def memset (fuel s : Nat) (c count : Int) (mem : Mem) : Option Mem :=
  let f := { s := s, count := count, mem := mem }
  let c := BitVec.ofInt 32 c
  ((if m.Aligned s then m.fillWords (m.fillWord c) fuel f else some f).bind
    (fillBytes c fuel)).map (·.mem)

-- ---------------------------------------------------------------------------
-- A word
-- ---------------------------------------------------------------------------

theorem word_pos : 0 < m.word := by
  rcases m.word_eq with h | h <;> rw [h] <;> decide

@[simp] theorem order_length (bytes : List UInt8) : (m.order bytes).length = bytes.length := by
  unfold order
  split
  · exact List.length_reverse
  · rfl

theorem order_order (bytes : List UInt8) : m.order (m.order bytes) = bytes := by
  unfold order
  split
  · exact List.reverse_reverse bytes
  · rfl

@[simp] theorem order_replicate (n : Nat) (b : UInt8) :
    m.order (List.replicate n b) = List.replicate n b := by
  unfold order
  split
  · exact List.reverse_replicate
  · rfl

/-- A word that is loaded and stored again is a copy of its bytes. -/
theorem store_load (mem : Mem) (d s : Nat) :
    m.store (m.load mem s) d mem = blit mem d (block mem s m.word) := by
  unfold store load
  rw [toBytes_ofBytes (by simp), order_order]

/-- The comparison is that of the numbers as long as `count` is not negative. -/
theorem toSize_natCast {n : Nat} (hn : n < 2 ^ 31) : m.toSize n = n := by
  have hfits : n < 2 ^ (8 * m.word) := by
    rcases m.word_eq with h | h <;> rw [h] <;> omega
  unfold toSize
  rw [show (2 : Int) ^ (8 * m.word) = ((2 ^ (8 * m.word) : Nat) : Int) by push_cast; rfl,
    ← Int.natCast_mod, Int.toNat_natCast, Nat.mod_eq_of_lt hfits]

-- ---------------------------------------------------------------------------
-- The loops of memcpy
-- ---------------------------------------------------------------------------

section Copy

variable {m} {fuel d s n : Nat} {mem : Mem}

/-- Turn by turn: what is written before leaves what is read later alone. -/
theorem copyBytes_eq (hfuel : n < fuel) (hdisjoint : d + n ≤ s ∨ s + n ≤ d) :
    copyBytes fuel ⟨d, s, n, mem⟩ = some ⟨d + n, s + n, -1, blit mem d (block mem s n)⟩ := by
  induction n generalizing fuel d s mem with
  | zero =>
    obtain ⟨fuel, rfl⟩ := Nat.exists_eq_add_of_lt hfuel
    simp [copyBytes]
  | succ n ih =>
    obtain ⟨fuel, rfl⟩ := Nat.exists_eq_add_of_lt hfuel
    have hsource : block (Function.update mem d (mem s)) (s + 1) n = block mem (s + 1) n := by
      refine block_congr fun i hi => Function.update_of_ne ?_ _ _
      omega
    have hcount : ((n + 1 : Nat) : Int) - 1 = n := by omega
    have hrest : d + 1 + n ≤ s + 1 ∨ s + 1 + n ≤ d + 1 := by omega
    unfold copyBytes
    rw [if_pos (Nat.cast_ne_zero.mpr n.succ_ne_zero), hcount, ih (by omega) hrest, hsource,
      block_cons, blit_cons]
    simp only [Nat.add_assoc, Nat.add_comm 1]

/-- The words copied are a block of the bytes, less than a word is left. -/
theorem copyWords_eq (hfuel : n < fuel) (hn : n < 2 ^ 31) (hdisjoint : d + n ≤ s ∨ s + n ≤ d) :
    ∃ k ≤ n, m.copyWords fuel ⟨d, s, n, mem⟩ =
      some ⟨d + k, s + k, (n - k : Nat), blit mem d (block mem s k)⟩ := by
  induction fuel generalizing n d s mem with
  | zero => exact absurd hfuel (Nat.not_lt_zero n)
  | succ fuel ih =>
    have hpos := m.word_pos
    unfold copyWords
    simp only [m.toSize_natCast hn]
    by_cases hword : m.word ≤ n
    · rw [if_pos hword, ← Int.natCast_sub hword, store_load]
      have hleft : d + m.word + (n - m.word) ≤ s + m.word ∨
          s + m.word + (n - m.word) ≤ d + m.word := by
        omega
      obtain ⟨k, hk, hrest⟩ := @ih (d + m.word) (s + m.word) (n - m.word)
        (blit mem d (block mem s m.word)) (by omega) (by omega) hleft
      have hsource : block (blit mem d (block mem s m.word)) (s + m.word) k =
          block mem (s + m.word) k :=
        block_blit_frame mem (by rw [block_length]; omega)
      have happend := blit_append mem d (block mem s m.word) (block mem (s + m.word) k)
      rw [block_length, ← block_add] at happend
      refine ⟨m.word + k, by omega, ?_⟩
      rw [hrest, hsource, happend, Nat.add_assoc, Nat.add_assoc, Nat.sub_sub]
    · rw [if_neg hword]
      exact ⟨0, Nat.zero_le n, by simp⟩

/-- Both loops together. -/
theorem memcpy_eq (hn : n < 2 ^ 31) (hdisjoint : d + n ≤ s ∨ s + n ≤ d) :
    m.memcpy (n + 1) d s n mem = some (blit mem d (block mem s n)) := by
  obtain ⟨k, hk, hwords⟩ :=
    @copyWords_eq m (n + 1) d s n mem (Nat.lt_succ_self n) hn hdisjoint
  unfold memcpy
  simp only
  split
  · rw [hwords, Option.bind_some, copyBytes_eq (by omega) (by omega), Option.map_some]
    have hsource : block (blit mem d (block mem s k)) (s + k) (n - k) = block mem (s + k) (n - k) :=
      block_blit_frame mem (by rw [block_length]; omega)
    have happend := blit_append mem d (block mem s k) (block mem (s + k) (n - k))
    rw [block_length, ← block_add, Nat.add_sub_cancel' hk] at happend
    simp only [hsource, happend]
  · rw [Option.bind_some, copyBytes_eq (Nat.lt_succ_self n) hdisjoint, Option.map_some]

end Copy

-- ---------------------------------------------------------------------------
-- The loops of memset
-- ---------------------------------------------------------------------------

/-- `(char) c`. -/
def toChar (c : BitVec 32) : UInt8 := UInt8.ofBitVec (c.setWidth 8)

/-- The word is the byte over and over, for negative numbers too. -/
theorem fillWord_eq (c : BitVec 32) :
    m.fillWord c = ofBytes (8 * m.word) (List.replicate m.word (toChar c)) := by
  have hmask : (0xff : BitVec 32) = (BitVec.allOnes 8).setWidth 32 := rfl
  have hbyte : (c &&& 0xff).setWidth (8 * m.word) = (c.setWidth 8).setWidth (8 * m.word) := by
    apply BitVec.eq_of_getLsbD_eq
    intro i hi
    rw [hmask]
    simp only [BitVec.getLsbD_setWidth, BitVec.getLsbD_and, BitVec.getLsbD_allOnes, hi,
      decide_true, Bool.true_and]
    by_cases hlow : i < 8
    · simp [hlow, show i < 32 by omega]
    · simp [hlow]
  have hiterate : ∀ n, (fun cl : BitVec (8 * m.word) =>
      cl <<< 8 ||| (c &&& 0xff).setWidth (8 * m.word))^[n] 0 =
        ofBytes (8 * m.word) (List.replicate n (toChar c)) := by
    intro n
    induction n with
    | zero => rfl
    | succ n ih =>
      rw [Function.iterate_succ_apply', ih, List.replicate_succ, hbyte]
      rfl
  exact hiterate m.word

theorem store_fillWord (c : BitVec 32) (s : Nat) (mem : Mem) :
    m.store (m.fillWord c) s mem = blit mem s (List.replicate m.word (toChar c)) := by
  unfold store
  rw [fillWord_eq, toBytes_ofBytes List.length_replicate, order_replicate]

section Fill

variable {m} {c : BitVec 32} {fuel s n : Nat} {mem : Mem}

theorem fillBytes_eq (hfuel : n < fuel) :
    fillBytes c fuel ⟨s, n, mem⟩ =
      some ⟨s + n, -1, blit mem s (List.replicate n (toChar c))⟩ := by
  induction n generalizing fuel s mem with
  | zero =>
    obtain ⟨fuel, rfl⟩ := Nat.exists_eq_add_of_lt hfuel
    simp [fillBytes]
  | succ n ih =>
    obtain ⟨fuel, rfl⟩ := Nat.exists_eq_add_of_lt hfuel
    have hcount : ((n + 1 : Nat) : Int) - 1 = n := by omega
    unfold fillBytes
    rw [if_pos (Nat.cast_ne_zero.mpr n.succ_ne_zero), hcount, ih (by omega), List.replicate_succ,
      blit_cons]
    simp only [toChar, Nat.add_assoc, Nat.add_comm 1]

/-- The words written are a block of one byte, less than a word is left. -/
theorem fillWords_eq (hfuel : n < fuel) (hn : n < 2 ^ 31) :
    ∃ k ≤ n, m.fillWords (m.fillWord c) fuel ⟨s, n, mem⟩ =
      some ⟨s + k, (n - k : Nat), blit mem s (List.replicate k (toChar c))⟩ := by
  induction fuel generalizing n s mem with
  | zero => exact absurd hfuel (Nat.not_lt_zero n)
  | succ fuel ih =>
    have hpos := m.word_pos
    unfold fillWords
    simp only [m.toSize_natCast hn]
    by_cases hword : m.word ≤ n
    · rw [if_pos hword, ← Int.natCast_sub hword, store_fillWord]
      obtain ⟨k, hk, hrest⟩ := @ih (s + m.word) (n - m.word)
        (blit mem s (List.replicate m.word (toChar c))) (by omega) (by omega)
      have happend := blit_append mem s (List.replicate m.word (toChar c))
        (List.replicate k (toChar c))
      rw [List.length_replicate, List.replicate_append_replicate] at happend
      refine ⟨m.word + k, by omega, ?_⟩
      rw [hrest, happend, Nat.add_assoc, Nat.sub_sub]
    · rw [if_neg hword]
      exact ⟨0, Nat.zero_le n, by simp⟩

/-- Both loops together. -/
theorem memset_eq (hn : n < 2 ^ 31) (c : Int) :
    m.memset (n + 1) s c n mem =
      some (blit mem s (List.replicate n (toChar (BitVec.ofInt 32 c)))) := by
  obtain ⟨k, hk, hwords⟩ :=
    @fillWords_eq m (BitVec.ofInt 32 c) (n + 1) s n mem (Nat.lt_succ_self n) hn
  unfold memset
  simp only
  split
  · rw [hwords, Option.bind_some, fillBytes_eq (by omega), Option.map_some]
    have happend := blit_append mem s (List.replicate k (toChar (BitVec.ofInt 32 c)))
      (List.replicate (n - k) (toChar (BitVec.ofInt 32 c)))
    rw [List.length_replicate, List.replicate_append_replicate, Nat.add_sub_cancel' hk] at happend
    simp only [happend]
  · rw [Option.bind_some, fillBytes_eq (Nat.lt_succ_self n), Option.map_some]

end Fill

theorem toChar_ofInt (c : Int) : toChar (BitVec.ofInt 32 c) = UInt8.ofNat (c % 256).toNat := by
  apply UInt8.toNat_inj.mp
  unfold toChar
  rw [UInt8.toNat_ofBitVec, BitVec.toNat_setWidth, BitVec.toNat_ofInt, UInt8.toNat_ofNat']
  omega

-- ---------------------------------------------------------------------------
-- Statement
-- ---------------------------------------------------------------------------

/-- The `n` bytes from `addr` on have been given these values, and no other byte has
changed. -/
def Wrote (mem mem' : Mem) (addr n : Nat) (value : Nat → UInt8) : Prop :=
  (∀ i < n, mem' (addr + i) = value i) ∧ ∀ a, a < addr ∨ addr + n ≤ a → mem' a = mem a

theorem wrote_blit (mem : Mem) (addr : Nat) {src : List UInt8} {n : Nat} {value : Nat → UInt8}
    (hlength : src.length = n) (hvalue : ∀ i < n, src[i]? = some (value i)) :
    Wrote mem (blit mem addr src) addr n value := by
  refine ⟨fun i hi => ?_, fun a ha => blit_outside mem (by omega)⟩
  exact Option.some_inj.mp ((blit_inside mem (hlength ▸ hi)).symm.trans (hvalue i hi))

/-- **`memcpy` and `memset`.** On either machine, for regions that do not overlap at any
alignment, both end and write what the loops over bytes alone would. -/
theorem memcpy_memset_bytes (mem : Mem) (count : Nat) (hcount : count < 2 ^ 31) :
    (∀ d s, d + count ≤ s ∨ s + count ≤ d → ∃ fuel mem', m.memcpy fuel d s count mem = some mem' ∧
      Wrote mem mem' d count fun i => mem (s + i)) ∧
    ∀ s (c : Int), ∃ fuel mem', m.memset fuel s c count mem = some mem' ∧
      Wrote mem mem' s count fun _ => UInt8.ofNat (c % 256).toNat := by
  refine ⟨fun d s hdisjoint => ?_, fun s c => ?_⟩
  · refine ⟨count + 1, _, memcpy_eq hcount hdisjoint, wrote_blit mem d (by simp) fun i hi => ?_⟩
    simp [block, hi]
  · refine ⟨count + 1, _, memset_eq hcount c, wrote_blit mem s (by simp) fun i hi => ?_⟩
    rw [toChar_ofInt]
    simp [hi]

def machine32 : Machine := ⟨4, true, Or.inl rfl⟩

/-- A word and three bytes, from a memory that holds the low bytes of its addresses. -/
theorem memcpy_memset_seven :
    (∃ fuel mem', machine32.memcpy fuel 200 100 7 UInt8.ofNat = some mem' ∧
      Wrote UInt8.ofNat mem' 200 7 fun i => UInt8.ofNat (100 + i)) ∧
    ∃ fuel mem', machine32.memset fuel 100 (-1) 7 UInt8.ofNat = some mem' ∧
      Wrote UInt8.ofNat mem' 100 7 fun _ => 255 := by
  obtain ⟨hcopy, hset⟩ := memcpy_memset_bytes machine32 UInt8.ofNat 7 (by decide)
  exact ⟨hcopy 200 100 (by decide), hset 100 (-1)⟩

end Machine

end Bathos.Libc
