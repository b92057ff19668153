import Mathlib.Tactic

/-!
# Little-endian bytes of a bit vector

`toBytes n v` lists the `n` low bytes of `v`, least significant first, and
`ofBytes w l` packs a list of bytes into `w` bits. Both are described bit by bit
(`ofBytes_getLsbD`, `toBytes_getElem`), and the two round trips follow.
-/

namespace Bathos.Lib

/-- The low `n` bytes of `v`, least significant first. -/
def toBytes {w : Nat} (n : Nat) (v : BitVec w) : List UInt8 :=
  (List.range n).map fun i => UInt8.ofBitVec (v.extractLsb' (8 * i) 8)

/-- The bytes of `l` as one number, the first byte least significant. -/
def ofBytes (w : Nat) : List UInt8 → BitVec w
  | [] => 0
  | b :: l => (ofBytes w l <<< 8) ||| b.toBitVec.setWidth w

@[simp] theorem toBytes_length {w : Nat} (n : Nat) (v : BitVec w) : (toBytes n v).length = n := by
  simp [toBytes]

theorem toBytes_getElem {w n i j : Nat} (v : BitVec w) (hi : i < n) (hj : j < 8) :
    ((toBytes n v).getD i 0).toBitVec.getLsbD j = v.getLsbD (8 * i + j) := by
  simp [toBytes, hi, hj]

/-- Bit `k` is bit `k % 8` of byte `k / 8`. By induction on the bytes: the first
one holds the lowest eight bits. -/
theorem ofBytes_getLsbD {w : Nat} : ∀ (l : List UInt8) {k : Nat}, k < w →
    (ofBytes w l).getLsbD k = (l.getD (k / 8) 0).toBitVec.getLsbD (k % 8) := by
  intro l
  induction l with
  | nil =>
    intro k hk
    simp [ofBytes]
  | cons b l ih =>
    intro k hk
    unfold ofBytes
    rw [BitVec.getLsbD_or, BitVec.getLsbD_shiftLeft, BitVec.getLsbD_setWidth]
    by_cases h8 : k < 8
    · have hdiv : k / 8 = 0 := Nat.div_eq_of_lt h8
      have hmod : k % 8 = k := Nat.mod_eq_of_lt h8
      simp [h8, hk, hdiv, hmod]
    · have hdiv : k / 8 = (k - 8) / 8 + 1 := by omega
      have hmod : k % 8 = (k - 8) % 8 := by omega
      have hbig : b.toBitVec.getLsbD k = false := BitVec.getLsbD_of_ge _ _ (by omega)
      rw [ih (by omega), hdiv, hmod, List.getD_cons_succ, hbig]
      simp [h8, hk]

theorem ofBytes_toBytes {n : Nat} (v : BitVec (8 * n)) : ofBytes (8 * n) (toBytes n v) = v := by
  apply BitVec.eq_of_getLsbD_eq
  intro k hk
  rw [ofBytes_getLsbD _ hk, toBytes_getElem v (by omega) (by omega)]
  congr 1
  omega

theorem toBytes_ofBytes {n : Nat} {l : List UInt8} (hl : l.length = n) :
    toBytes n (ofBytes (8 * n) l) = l := by
  apply List.ext_getElem
  · rw [toBytes_length, hl]
  · intro i hi hi'
    rw [toBytes_length] at hi
    apply UInt8.toBitVec_inj.mp
    apply BitVec.eq_of_getLsbD_eq
    intro j hj
    have hbit := toBytes_getElem (ofBytes (8 * n) l) hi hj
    rw [ofBytes_getLsbD l (by omega)] at hbit
    rw [show (8 * i + j) / 8 = i by omega, show (8 * i + j) % 8 = j by omega] at hbit
    simpa [List.getD_eq_getElem?_getD, hi, hi'] using hbit

end Bathos.Lib
