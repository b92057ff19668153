import Bathos.I2c.Definitions

/-!
# Bathos — the transfer register of the I2C controller

`XFER_DATA` packs the slave address and the two lengths into a dword. A write
takes the input length from bit 20 on, a read puts it at bit 16, over the upper
bits of the output length: the register reads back as written exactly when the
input length is zero.
-/

namespace Bathos.I2c

-- ---------------------------------------------------------------------------
-- Fields
-- ---------------------------------------------------------------------------

/-- The low `n` bits of a word. -/
theorem getLsbD_and_mask {w : Nat} (x : BitVec w) (n i : Nat) :
    (x &&& BitVec.ofNat w (2 ^ n - 1)).getLsbD i = (x.getLsbD i && decide (i < n)) := by
  rw [BitVec.getLsbD_and, BitVec.getLsbD_ofNat, Nat.testBit_two_pow_sub_one]
  by_cases hi : i < w
  · simp [hi]
  · simp [BitVec.getLsbD_of_ge x i (Nat.not_lt.mp hi)]

namespace I2cData

/-- The data after `v` is stored in the register. -/
def withXfer (s : I2cData) (v : BitVec 32) : I2cData :=
  { s with
    slaveAddress := (v &&& 0xff).setWidth 16
    obufLen := (v >>> 8 &&& 0xfff).toNat
    ibufLen := (v >>> 20 &&& 0xfff).toNat }

/-- The dword a read of the register gives. -/
def xferDword (s : I2cData) : BitVec 32 :=
  s.slaveAddress.setWidth 32 ||| BitVec.ofNat 32 s.obufLen <<< 8 |||
    BitVec.ofInt 32 s.ibufLen <<< 16

/-- A write is stored, also when the access goes on to fail at the status
register. -/
theorem registersWrdw_xfer (s : I2cData) (v in1 : BitVec 32) (fill : Bool) :
    (s.registersWrdw I2C_MCUIO_XFER_DATA v in1 fill).2 = s.withXfer v := by
  cases fill <;> rfl

theorem registersRddw_xfer (s : I2cData) (fill : Bool) :
    (s.registersRddw I2C_MCUIO_XFER_DATA fill).2.1.head? = some s.xferDword := by
  cases fill <;> rfl

/-- Bit by bit: the input length comes back four bits below the place it was taken
from. -/
theorem xferDword_getLsbD (s : I2cData) (v : BitVec 32) {i : Nat} (hi : i < 32) :
    (s.withXfer v).xferDword.getLsbD i =
      ((decide (i < 20) && v.getLsbD i) ||
        (decide (16 ≤ i ∧ i < 28) && v.getLsbD (i + 4))) := by
  have haddr : ((v &&& 0xff).setWidth 16 |>.setWidth 32).getLsbD i =
      (v.getLsbD i && decide (i < 8)) := by
    rw [BitVec.getLsbD_setWidth, BitVec.getLsbD_setWidth,
      show (0xff : BitVec 32) = BitVec.ofNat 32 (2 ^ 8 - 1) from rfl, getLsbD_and_mask]
    by_cases h : i < 8
    · simp [h, hi, show i < 16 by omega]
    · simp [h]
  have hfield : ∀ m k, (BitVec.ofNat 32 (v >>> m &&& 0xfff).toNat <<< k).getLsbD i =
      (decide (k ≤ i ∧ i - k < 12) && v.getLsbD (m + (i - k))) := by
    intro m k
    rw [BitVec.ofNat_toNat, BitVec.setWidth_eq, BitVec.getLsbD_shiftLeft,
      show (0xfff : BitVec 32) = BitVec.ofNat 32 (2 ^ 12 - 1) from rfl, getLsbD_and_mask,
      BitVec.getLsbD_ushiftRight]
    by_cases hk : i < k
    · simp [hk, Nat.not_le.mpr hk]
    · simp [hi, hk, Nat.not_lt.mp hk, Bool.and_comm]
  unfold xferDword withXfer
  simp only [BitVec.getLsbD_or, haddr]
  rw [hfield 8 8, show BitVec.ofInt 32 ((v >>> 20 &&& 0xfff).toNat : Int) =
    BitVec.ofNat 32 (v >>> 20 &&& 0xfff).toNat from BitVec.ofInt_natCast 32 _, hfield 20 16]
  rcases Nat.lt_or_ge i 8 with h8 | h8
  · simp [h8, show i < 20 by omega, show ¬16 ≤ i by omega, show ¬8 ≤ i by omega]
  · rcases Nat.lt_or_ge i 16 with h16 | h16
    · simp [h8, show i < 20 by omega, show ¬16 ≤ i by omega, show ¬i < 8 by omega,
        show i - 8 < 12 by omega, show 8 + (i - 8) = i by omega]
    · simp [h8, h16, show ¬i < 8 by omega, show (i - 8 < 12) = (i < 20) by simp; omega,
        show 8 + (i - 8) = i by omega, show (i - 16 < 12) = (i < 28) by simp; omega,
        show 20 + (i - 16) = i + 4 by omega]

-- ---------------------------------------------------------------------------
-- Reading back
-- ---------------------------------------------------------------------------

/-- After a write of `v`, a read of the register gives `v`. -/
def ReadsBack (s : I2cData) (v in1 : BitVec 32) (wfill rfill : Bool) : Prop :=
  ((s.registersWrdw I2C_MCUIO_XFER_DATA v in1 wfill).2.registersRddw
    I2C_MCUIO_XFER_DATA rfill).2.1.head? = some v

instance (s : I2cData) (v in1 : BitVec 32) (wfill rfill : Bool) :
    Decidable (s.ReadsBack v in1 wfill rfill) := inferInstanceAs (Decidable (_ = _))

/-- A value that comes back has no input length: each bit of it is the one four above,
and there is none above bit 31. From the top: bits 28 to 31, then the two nibbles below
them. -/
theorem ibufLen_eq_zero_of_back {v : BitVec 32}
    (hback : ∀ i < 32, ((decide (i < 20) && v.getLsbD i) ||
      (decide (16 ≤ i ∧ i < 28) && v.getLsbD (i + 4))) = v.getLsbD i) :
    ∀ i, 20 ≤ i → v.getLsbD i = false := by
  have htop : ∀ i, 28 ≤ i → v.getLsbD i = false := by
    intro i hi
    by_cases hlt : i < 32
    · have h := hback i hlt
      simpa [show ¬i < 20 by omega, show ¬i < 28 by omega] using h.symm
    · exact BitVec.getLsbD_of_ge v i (by omega)
  have hmid : ∀ i, 24 ≤ i → v.getLsbD i = false := by
    intro i hi
    by_cases hlt : i < 28
    · have h := hback i (by omega)
      simpa [show ¬i < 20 by omega, show 16 ≤ i by omega, hlt, htop (i + 4) (by omega)]
        using h.symm
    · exact htop i (by omega)
  intro i hi
  by_cases hlt : i < 24
  · have h := hback i (by omega)
    simpa [show ¬i < 20 by omega, show 16 ≤ i by omega, show i < 28 by omega,
      hmid (i + 4) (by omega)] using h.symm
  · exact hmid i (by omega)

/-- The bits from 20 on. -/
theorem ushiftRight_eq_zero_iff {v : BitVec 32} :
    v >>> 20 = 0 ↔ ∀ i, 20 ≤ i → v.getLsbD i = false := by
  constructor
  · intro hzero i hi
    have h := BitVec.getLsbD_ushiftRight v 20 (i - 20)
    rw [hzero, Nat.add_sub_cancel' hi] at h
    simpa using h.symm
  · intro hhigh
    apply BitVec.eq_of_getLsbD_eq
    intro i _
    rw [BitVec.getLsbD_ushiftRight, hhigh (20 + i) (by omega)]
    simp

/-- **Transfer register.** The value comes back exactly when its input length is
zero: no other bit of the field survives the shift by 16. -/
theorem readsBack_iff (s : I2cData) (v in1 : BitVec 32) (wfill rfill : Bool) :
    s.ReadsBack v in1 wfill rfill ↔ v >>> 20 = 0 := by
  unfold ReadsBack
  rw [registersWrdw_xfer, registersRddw_xfer, Option.some.injEq, ushiftRight_eq_zero_iff]
  constructor
  · intro hback
    refine ibufLen_eq_zero_of_back fun i hi => ?_
    rw [← xferDword_getLsbD s v hi, hback]
  · intro hhigh
    apply BitVec.eq_of_getLsbD_eq
    intro i hi
    rw [xferDword_getLsbD s v hi]
    by_cases hlt : i < 20
    · by_cases h16 : 16 ≤ i
      · simp [hlt, hhigh (i + 4) (by omega)]
      · simp [hlt, h16]
    · simp [hlt, hhigh i (by omega), hhigh (i + 4) (by omega)]

/-- Slave 0x40, one byte of input. -/
theorem xfer_readsBack_fails :
    ¬∀ (s : I2cData) (v in1 : BitVec 32) (wfill rfill : Bool), s.ReadsBack v in1 wfill rfill := by
  intro h
  exact absurd (h .init 0x100040 0 false false) (by decide)

end I2cData

end Bathos.I2c
