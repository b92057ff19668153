import Bathos.Drivers.W1
import Bathos.Lib.BitOrder

/-!
# Bathos — the search of a one-wire bus

`w1_scan_bus` on a bus of wired-AND devices. A pass follows one device (`scanOne_pass`)
and leaves in the mask its conflicts at a 0; the next pass replays the bits up to the
last of them and takes the 1 there, which leads to the next code in the order of
`Before`.

`__w1_scan_one` keeps the bit to take in an `int`. Where two codes agree in as many
bits as an `int` has, it takes the 0 each time: the search does not get past the first
of them, and finds a code that may be nobody's until the array is full.

Main results:

* `scanOne_pass` — what a pass finds;
* `scanBus_spec` — the search finds all devices, or is stuck;
* `scan_finds_iff` — the sets of devices that are found.
-/

namespace Bathos.Drivers

open Bathos.Lib

-- ---------------------------------------------------------------------------
-- The bus
-- ---------------------------------------------------------------------------

/-- The devices on a wired-AND bus: the bits of the command they have received since
the reset, and, once it is the search, the devices that take part, the bit of their
codes they are at, and whether its complement is sent next. -/
structure RomBus where
  command : List Bool
  active : Finset (BitVec 64)
  bit : Nat
  complement : Bool

namespace RomBus

/-- The bits of 0xf0, the low one first. -/
def SEARCH_ROM : List Bool := [false, false, false, false, true, true, true, true]

/-- A presence pulse if there is a device, all of which listen then. -/
def reset (D : Finset (BitVec 64)) (_ : RomBus) : Int × RomBus :=
  (if D = ∅ then 0 else 1, ⟨[], D, 0, false⟩)

/-- The wired-AND of the bits, or of their complements, that the devices send: 1 unless
some device sends a 0. -/
def readBit (b : RomBus) : Int × RomBus :=
  let zeros := b.active.filter fun d => d.getLsbD b.bit = b.complement
  if b.command ≠ SEARCH_ROM then (1, b)
  else (if zeros = ∅ then 1 else 0, { b with complement := true })

/-- A bit of the command, or the bit of the devices that go on. -/
def writeBit (v : Int) (b : RomBus) : RomBus :=
  if b.command.length < 8 then { b with command := b.command ++ [decide (v ≠ 0)] }
  else { b with
    active := b.active.filter fun d => d.getLsbD b.bit = decide (v ≠ 0)
    bit := b.bit + 1
    complement := false }

/-- The operations of a bus with the devices `D`. -/
def ops (D : Finset (BitVec 64)) : W1Ops RomBus := ⟨some (reset D), readBit, writeBit⟩

end RomBus


namespace W1

variable {w : Nat} {D : Finset (BitVec 64)} {rom cmask c : BitVec 64} {k : Nat}

-- ---------------------------------------------------------------------------
-- One pass
-- ---------------------------------------------------------------------------

/-- The bus at bit `k` of a walk that leads to `c`. -/
def walkAt (D : Finset (BitVec 64)) (c : BitVec 64) (k : Nat) (complement : Bool) : RomBus :=
  ⟨RomBus.SEARCH_ROM, D.filter fun d => Agree k d c, k, complement⟩

/-- The bit taken at a conflict. -/
def choice (w : Nat) (rom : BitVec 64) (k : Nat) : Bool := decide (k < w) && rom.getLsbD k

theorem getLsbD_mask (k j : Nat) : (1#64 <<< k).getLsbD j = (decide (k < 64) && decide (k = j)) := by
  rw [← BitVec.twoPow_eq, BitVec.getLsbD_twoPow]

theorem getLsbD_or_mask (x : BitVec 64) (hk : k < 64) (j : Nat) :
    (x ||| 1#64 <<< k).getLsbD j = true ↔ x.getLsbD j = true ∨ j = k := by
  rw [BitVec.getLsbD_or, getLsbD_mask, decide_eq_true hk, Bool.true_and, Bool.or_eq_true,
    decide_eq_true_iff, @eq_comm _ k j]

theorem select_ne_zero (w : Nat) (rom : BitVec 64) (hk : k < 64) :
    decide (select w rom k ≠ 0) = choice w rom k := by
  have hbits : ∀ j, ((rom &&& 1#64 <<< k).setWidth w).getLsbD j =
      (decide (j < w) && (rom.getLsbD j && decide (k = j))) := by
    intro j
    rw [BitVec.getLsbD_setWidth, BitVec.getLsbD_and, getLsbD_mask, decide_eq_true hk, Bool.true_and]
  have hzero : select w rom k = 0 ↔ (rom &&& 1#64 <<< k).setWidth w = 0#w := by
    unfold select
    rw [← BitVec.toInt_inj, BitVec.toInt_zero]
  unfold choice
  rw [Bool.eq_iff_iff, decide_eq_true_iff, ne_eq, hzero]
  constructor
  · intro hne
    by_contra hclear
    refine hne (BitVec.eq_of_getLsbD_eq fun j _ => ?_)
    rw [hbits, BitVec.getLsbD_zero]
    by_cases hj : k = j
    · subst hj
      simpa using hclear
    · simp [hj]
  · intro hset heq
    have hbit := hbits k
    rw [heq, BitVec.getLsbD_zero, decide_eq_true (rfl : k = k), Bool.and_true, hset] at hbit
    exact absurd hbit nofun

/-- The devices listen to the bits of the command. -/
theorem writeBits_command (byte : Nat) (is : List Nat) {b : RomBus}
    (h : b.command.length + is.length ≤ 8) :
    is.foldl (fun b i => RomBus.writeBit (if byte.testBit i then 1 else 0) b) b =
      { b with command := b.command ++ is.map byte.testBit } := by
  induction is generalizing b with
  | nil => simp
  | cons i is ih =>
    rw [List.length_cons] at h
    have hlength : b.command.length < 8 := by omega
    have hbit : decide ((if byte.testBit i = true then (1 : Int) else 0) ≠ 0) = byte.testBit i := by
      cases byte.testBit i <;> simp
    have hwrite : RomBus.writeBit (if byte.testBit i then 1 else 0) b =
        { b with command := b.command ++ [byte.testBit i] } := by
      unfold RomBus.writeBit
      rw [if_pos hlength, hbit]
    rw [List.foldl_cons, hwrite, ih (by rw [List.length_append, List.length_singleton]; omega)]
    simp

theorem reset_walk (D : Finset (BitVec 64)) (c : BitVec 64) (b : RomBus) :
    writeByte (RomBus.ops D) 0xf0 (RomBus.reset D b).2 = walkAt D c 0 false := by
  have hall : D.filter (fun d => Agree 0 d c) = D :=
    Finset.filter_true_of_mem fun d _ j hj => absurd hj (Nat.not_lt_zero j)
  have hcommand : (List.range 8).map (Nat.testBit 0xf0) = RomBus.SEARCH_ROM := by decide
  refine (@writeBits_command 0xf0 (List.range 8) (RomBus.reset D b).2 (Nat.le_refl 8)).trans ?_
  unfold walkAt
  rw [hall, hcommand]
  rfl

/-- The devices that go on with the bit of `c`. -/
theorem writeBit_walk {v : Int} (complement : Bool) (hv : decide (v ≠ 0) = c.getLsbD k) :
    RomBus.writeBit v (walkAt D c k complement) = walkAt D c (k + 1) false := by
  have hgo : (D.filter fun d => Agree k d c).filter (fun d => d.getLsbD k = c.getLsbD k) =
      D.filter fun d => Agree (k + 1) d c := by
    rw [Finset.filter_filter]
    refine Finset.filter_congr fun d _ => ⟨fun h => h.1.succ h.2, fun h => ?_⟩
    exact ⟨h.mono k.le_succ, h k k.lt_succ_self⟩
  unfold RomBus.writeBit walkAt
  rw [← hgo, ← hv]
  rfl

/-- The bit, or its complement, as the devices send it. -/
theorem readBit_walk (complement : Bool) :
    RomBus.readBit (walkAt D c k complement) =
      (if ∃ d ∈ D, Agree k d c ∧ d.getLsbD k = complement then 0 else 1, walkAt D c k true) := by
  have hzeros : ((D.filter fun d => Agree k d c).filter fun d => d.getLsbD k = complement) = ∅ ↔
      ¬ ∃ d ∈ D, Agree k d c ∧ d.getLsbD k = complement := by
    rw [Finset.filter_filter, Finset.filter_eq_empty_iff]
    push Not
    rfl
  unfold RomBus.readBit walkAt
  simp only [ne_eq, not_true, if_false, hzeros, ite_not]

theorem getDibit_conflict {sel : Int} (hc : c ∈ D) (hconflict : Conflict D c k)
    (hsel : decide (sel ≠ 0) = c.getLsbD k) :
    getDibit (RomBus.ops D) sel (walkAt D c k false) = (.both, walkAt D c (k + 1) false) := by
  obtain ⟨d, hd, hagree, hk⟩ := hconflict
  -- One of `c` and `d` sends a 0 each time.
  have hzero : ∀ complement, ∃ e ∈ D, Agree k e c ∧ e.getLsbD k = complement := by
    intro complement
    by_cases hck : c.getLsbD k = complement
    · exact ⟨c, hc, Agree.refl k c, hck⟩
    · refine ⟨d, hd, hagree, ?_⟩
      revert hk hck
      cases d.getLsbD k <;> cases c.getLsbD k <;> cases complement <;> simp
  have hread : ∀ complement, RomBus.readBit (walkAt D c k complement) = (0, walkAt D c k true) :=
    fun complement => by rw [readBit_walk, if_pos (hzero complement)]
  unfold getDibit RomBus.ops
  simp only [hread, ne_eq, not_true, if_false]
  rw [writeBit_walk true hsel]

theorem getDibit_clear (sel : Int) (hc : c ∈ D) (hclear : ¬ Conflict D c k) :
    getDibit (RomBus.ops D) sel (walkAt D c k false) =
      (if c.getLsbD k then .b1 else .b0, walkAt D c (k + 1) false) := by
  -- Every device sends the bit of `c`, and then its complement.
  have hsends : ∀ complement, (∃ e ∈ D, Agree k e c ∧ e.getLsbD k = complement) ↔
      c.getLsbD k = complement := by
    intro complement
    refine ⟨?_, fun hck => ⟨c, hc, Agree.refl k c, hck⟩⟩
    rintro ⟨e, he, hagree, hek⟩
    by_contra hck
    exact hclear ⟨e, he, hagree, fun heq => hck (heq.symm.trans hek)⟩
  have hread : ∀ complement, RomBus.readBit (walkAt D c k complement) =
      (if c.getLsbD k = complement then 0 else 1, walkAt D c k true) := fun complement => by
    simp only [readBit_walk, hsends complement]
  unfold getDibit RomBus.ops
  simp only [hread]
  cases hck : c.getLsbD k with
  | false =>
    have hwrite : RomBus.writeBit 0 (walkAt D c k true) = walkAt D c (k + 1) false :=
      writeBit_walk true (by rw [hck]; rfl)
    simp [hwrite]
  | true =>
    have hwrite : RomBus.writeBit 1 (walkAt D c k true) = walkAt D c (k + 1) false :=
      writeBit_walk true (by rw [hck]; rfl)
    simp [hwrite]

/-- After `k` bits of a pass that started with `rom` and follows `c`. -/
structure Pass (D : Finset (BitVec 64)) (rom c : BitVec 64) (k : Nat)
    (x : BitVec 64 × BitVec 64 × RomBus) : Prop where
  rom : ∀ j, x.1.getLsbD j = true ↔
    rom.getLsbD j = true ∨ (j < k ∧ ¬ Conflict D c j ∧ c.getLsbD j = true)
  cmask : ∀ j, x.2.1.getLsbD j = true ↔ j < k ∧ Conflict D c j ∧ c.getLsbD j = false
  bus : x.2.2 = walkAt D c k false

/-- One more bit, or one of those before. -/
theorem lt_succ_and {P : Nat → Prop} {j : Nat} :
    j < k + 1 ∧ P j ↔ (j < k ∧ P j) ∨ (j = k ∧ P k) := by
  rw [Nat.lt_succ_iff_lt_or_eq, or_and_right]
  refine or_congr_right (and_congr_right ?_)
  rintro rfl
  rfl

/-- One bit of a pass. -/
theorem scanBit_pass {x : BitVec 64 × BitVec 64 × RomBus} (h : Pass D rom c k x) (hk : k < 64)
    (hc : Follows D (choice w rom) c) : Pass D rom c (k + 1) (scanBit (RomBus.ops D) w k x) := by
  obtain ⟨r, μ, b⟩ := x
  obtain rfl : b = walkAt D c k false := h.bus
  -- The bit taken is still the one of `rom`.
  have hrom : r.getLsbD k = rom.getLsbD k := by
    rw [Bool.eq_iff_iff]
    exact (h.rom k).trans (or_iff_left fun hlt => absurd hlt.1 (Nat.lt_irrefl k))
  have hsel : decide (select w r k ≠ 0) = choice w rom k := by
    rw [select_ne_zero w r hk]
    unfold choice
    rw [hrom]
  have hroms := h.rom
  have hmarks := h.cmask
  unfold scanBit
  dsimp only at hroms hmarks ⊢
  by_cases hconflict : Conflict D c k
  · have hck := hc.chosen k hconflict
    rw [getDibit_conflict hc.mem hconflict (hsel.trans hck.symm)]
    refine ⟨fun j => ?_, fun j => ?_, rfl⟩
    · rw [hroms, @lt_succ_and k fun j => ¬ Conflict D c j ∧ c.getLsbD j = true]
      simp [hconflict]
    · rw [@lt_succ_and k fun j => Conflict D c j ∧ c.getLsbD j = false, ← hmarks]
      cases hbit : c.getLsbD k with
      | false =>
        have hzero : select w r k = 0 := by simpa [← hck, hbit] using hsel
        rw [if_pos hzero, getLsbD_or_mask μ hk]
        simp [hconflict]
      | true =>
        have hone : select w r k ≠ 0 := by simpa [← hck, hbit] using hsel
        rw [if_neg hone]
        simp
  · rw [getDibit_clear _ hc.mem hconflict]
    cases hbit : c.getLsbD k with
    | false =>
      refine ⟨fun j => ?_, fun j => ?_, rfl⟩
      · rw [@lt_succ_and k fun j => ¬ Conflict D c j ∧ c.getLsbD j = true]
        simp [hroms, hbit]
      · rw [@lt_succ_and k fun j => Conflict D c j ∧ c.getLsbD j = false]
        simp [hmarks, hconflict]
    | true =>
      refine ⟨fun j => ?_, fun j => ?_, rfl⟩
      · rw [@lt_succ_and k fun j => ¬ Conflict D c j ∧ c.getLsbD j = true]
        show (r ||| 1#64 <<< k).getLsbD j = true ↔ _
        rw [getLsbD_or_mask r hk, hroms, or_assoc]
        simp [hbit, hconflict]
      · rw [@lt_succ_and k fun j => Conflict D c j ∧ c.getLsbD j = false]
        simp [hmarks, hconflict]

theorem scanBits_pass {x : BitVec 64 × BitVec 64 × RomBus} (h : Pass D rom c 0 x)
    (hc : Follows D (choice w rom) c) (hk : k ≤ 64) :
    Pass D rom c k ((List.range k).foldl (fun x k => scanBit (RomBus.ops D) w k x) x) := by
  induction k with
  | zero => exact h
  | succ k ih =>
    rw [List.range_succ, List.foldl_append]
    exact scanBit_pass (ih (k.le_succ.trans hk)) hk hc

/-- **One pass.** It follows the device the bits of `rom` lead to. -/
theorem scanOne_pass (hD : D.Nonempty) (w : Nat) (rom cmask : BitVec 64) (b : RomBus) :
    ∃ c r μ b', scanOne (RomBus.ops D) w rom cmask b = (0, r, μ, b') ∧
      Follows D (choice w rom) c ∧ Pass D rom c 64 (r, μ, b') := by
  obtain ⟨c, hc⟩ := exists_follows hD (choice w rom)
  have hreset : (RomBus.reset D b).1 = 1 := if_neg hD.ne_empty
  have hstart : Pass D rom c 0 (rom, 0, walkAt D c 0 false) :=
    ⟨fun j => by simp, fun j => by simp, rfl⟩
  have hpass := scanBits_pass hstart hc (Nat.le_refl 64)
  have hscan : scanOne (RomBus.ops D) w rom cmask b =
      (0, (List.range 64).foldl (fun x k => scanBit (RomBus.ops D) w k x)
        (rom, 0, walkAt D c 0 false)) := by
    rw [← reset_walk D c b]
    unfold scanOne
    simp only [RomBus.ops]
    rw [if_neg (not_not.mpr hreset)]
  revert hpass hscan
  generalize (List.range 64).foldl (fun x k => scanBit (RomBus.ops D) w k x)
    (rom, 0, walkAt D c 0 false) = x
  obtain ⟨r, μ, b'⟩ := x
  exact fun hpass hscan => ⟨c, r, μ, b', hscan, hc, hpass⟩

-- ---------------------------------------------------------------------------
-- From one pass to the next
-- ---------------------------------------------------------------------------

/-- The mask holds the conflicts at which `c` has a 0. -/
def Marks (D : Finset (BitVec 64)) (c μ : BitVec 64) : Prop :=
  ∀ j, μ.getLsbD j = true ↔ Conflict D c j ∧ c.getLsbD j = false

theorem Pass.marks {x : BitVec 64 × BitVec 64 × RomBus} (h : Pass D rom c 64 x) :
    Marks D c x.2.1 := fun j => (h.cmask j).trans (and_iff_right_of_imp fun hj => hj.1.lt)

theorem lt_of_getLsbD {x : BitVec 64} {j : Nat} (h : x.getLsbD j = true) : j < 64 := by
  by_contra hle
  rw [BitVec.getLsbD_of_ge x j (by omega)] at h
  exact absurd h nofun

/-- A pass whose start is part of the code it follows finds that code. -/
theorem Pass.eq {x : BitVec 64 × BitVec 64 × RomBus} (h : Pass D rom c 64 x)
    (hc : Follows D (choice w rom) c) (hsub : ∀ j, rom.getLsbD j = true → c.getLsbD j = true) :
    x.1 = c := by
  refine BitVec.eq_of_getLsbD_eq fun j _ => ?_
  rw [Bool.eq_iff_iff, h.rom]
  constructor
  · rintro (hrom | ⟨-, -, hbit⟩)
    · exact hsub j hrom
    · exact hbit
  · intro hbit
    by_cases hconflict : Conflict D c j
    · have hchosen := hc.chosen j hconflict
      rw [hbit] at hchosen
      exact Or.inl (Bool.and_eq_true_iff.mp hchosen.symm).2
    · exact Or.inr ⟨lt_of_getLsbD hbit, hconflict, hbit⟩

/-- The last conflict in the mask, with the bits above it cleared. -/
theorem lastConflict_spec (cmask rom : BitVec 64) (k : Nat) :
    ((lastConflict cmask k rom).1 = none ∧ ∀ j < k, cmask.getLsbD j = false) ∨
    ∃ m rom', lastConflict cmask k rom = (some m, rom') ∧ m < k ∧ cmask.getLsbD m = true ∧
      (∀ j, m < j → j < k → cmask.getLsbD j = false) ∧
      ∀ j, rom'.getLsbD j = true ↔ rom.getLsbD j = true ∧ (j ≤ m ∨ k ≤ j) := by
  induction k generalizing rom with
  | zero => exact Or.inl ⟨rfl, fun j hj => absurd hj (Nat.not_lt_zero j)⟩
  | succ k ih =>
    unfold lastConflict
    by_cases hset : cmask.getLsbD k = true
    · rw [if_pos hset]
      refine Or.inr ⟨k, rom, rfl, k.lt_succ_self, hset, fun j hj hj' => ?_, fun j => ?_⟩
      · omega
      · exact (and_iff_left (Nat.lt_or_ge k j |>.symm)).symm
    · rw [if_neg hset]
      have hclear := Bool.eq_false_of_not_eq_true hset
      have hbelow : ∀ {j m}, (m < j → j < k → cmask.getLsbD j = false) → m < j → j < k + 1 →
          cmask.getLsbD j = false := by
        intro j m h hm hj
        rcases Nat.lt_succ_iff_lt_or_eq.mp hj with hj | rfl
        · exact h hm hj
        · exact hclear
      rcases ih (rom &&& ~~~(1#64 <<< k)) with ⟨hnone, hall⟩ | ⟨m, rom', heq, hm, hbit, hlast, hrom⟩
      · refine Or.inl ⟨hnone, fun j hj => ?_⟩
        rcases Nat.lt_succ_iff_lt_or_eq.mp hj with hj | rfl
        · exact hall j hj
        · exact hclear
      · refine Or.inr ⟨m, rom', heq, hm.trans k.lt_succ_self, hbit, fun j => hbelow (hlast j), ?_⟩
        intro j
        rw [hrom, BitVec.getLsbD_and, BitVec.getLsbD_not, getLsbD_mask]
        by_cases hj : rom.getLsbD j = true
        · have hlt := lt_of_getLsbD hj
          simp [hj, hlt]
          omega
        · simp [hj]

theorem scanFrom_succ {σ : Type} (ops : W1Ops σ) (w left i : Nat) (μ : BitVec 64)
    (f : Nat → BitVec 64) (s : σ) :
    scanFrom ops w (left + 1) (i + 1) μ f s =
      match lastConflict μ 64 (f i) with
      | (none, rom) => (i + 1, Function.update f (i + 1) rom, s)
      | (some k, rom) =>
        let r := scanOne ops w (rom ||| 1#64 <<< k) (μ &&& ~~~(1#64 <<< k)) s
        let f := Function.update f (i + 1) r.2.1
        if r.1 ≠ 0 then (i + 1, f, r.2.2.2) else scanFrom ops w left (i + 2) r.2.2.1 f r.2.2.2 := by
  rcases hlast : lastConflict μ 64 (f i) with ⟨_ | k, rom⟩
  · simp [scanFrom, hlast]
  · simp [scanFrom, hlast]

/-- One turn of the search behind the first device: it is over without a conflict in
the mask, and else another pass is made from the last conflict on. -/
theorem scanFrom_turn (hD : D.Nonempty) (w left i : Nat) (μ : BitVec 64) (f : Nat → BitVec 64)
    (b : RomBus) :
    (∃ r, scanFrom (RomBus.ops D) w (left + 1) (i + 1) μ f b =
        (i + 1, Function.update f (i + 1) r, b) ∧ ∀ j, μ.getLsbD j = false) ∨
    ∃ m rom c r μ' b', μ.getLsbD m = true ∧ (∀ j, m < j → μ.getLsbD j = false) ∧
      (∀ j, rom.getLsbD j = true ↔ ((f i).getLsbD j = true ∧ j < m) ∨ j = m) ∧
      Follows D (choice w rom) c ∧ Pass D rom c 64 (r, μ', b') ∧
      scanFrom (RomBus.ops D) w (left + 1) (i + 1) μ f b =
        scanFrom (RomBus.ops D) w left (i + 2) μ' (Function.update f (i + 1) r) b' := by
  rw [scanFrom_succ]
  rcases lastConflict_spec μ (f i) 64 with ⟨hnone, hall⟩ | ⟨m, rom', heq, hm, hbit, hlast, hrom⟩
  · left
    generalize lastConflict μ 64 (f i) = x at hnone ⊢
    obtain ⟨o, r⟩ := x
    obtain rfl : o = none := hnone
    refine ⟨r, rfl, fun j => ?_⟩
    by_cases hj : j < 64
    · exact hall j hj
    · exact BitVec.getLsbD_of_ge μ j (by omega)
  · right
    rw [heq]
    obtain ⟨c, r, μ', b', hscan, hc, hpass⟩ :=
      scanOne_pass hD w (rom' ||| 1#64 <<< m) (μ &&& ~~~(1#64 <<< m)) b
    simp only [hscan, ne_eq, not_true, if_false]
    refine ⟨m, _, c, r, μ', b', hbit, fun j hj => ?_, fun j => ?_, hc, hpass, rfl⟩
    · by_cases hj' : j < 64
      · exact hlast j hj hj'
      · exact BitVec.getLsbD_of_ge μ j (by omega)
    · rw [getLsbD_or_mask rom' hm, hrom]
      by_cases hj : j = m
      · simp [hj]
      · have hle : (f i).getLsbD j = true → (j ≤ m ∨ 64 ≤ j ↔ j < m) := fun h => by
          have := lt_of_getLsbD h
          omega
        rw [or_iff_left hj, or_iff_left hj]
        exact and_congr_right hle

-- ---------------------------------------------------------------------------
-- The search
-- ---------------------------------------------------------------------------

/-- No other code agrees with `c` in as many bits as an `int` has. -/
def Alone (w : Nat) (D : Finset (BitVec 64)) (c : BitVec 64) : Prop := ∀ d ∈ D, Agree w d c → d = c

theorem Alone.conflict_lt (h : Alone w D c) (hk : Conflict D c k) : k < w := by
  obtain ⟨d, hd, hagree, hdiff⟩ := hk
  by_contra hle
  exact hdiff (by rw [h d hd (hagree.mono (Nat.le_of_not_lt hle))])

theorem not_alone (h : ¬ Alone w D c) : ∃ k, w ≤ k ∧ Conflict D c k := by
  unfold Alone at h
  push Not at h
  obtain ⟨d, hd, hagree, hne⟩ := h
  obtain ⟨k, hagree', hdiff⟩ := exists_difference hne
  refine ⟨k, ?_, d, hd, hagree', hdiff⟩
  by_contra hlt
  exact hdiff (hagree k (Nat.lt_of_not_le hlt))

variable {f : Nat → BitVec 64} {i p m : Nat} {μ : BitVec 64}

/-- The first `i + 1` codes have been found, and those before the last one are alone. -/
structure Found (w : Nat) (D : Finset (BitVec 64)) (f : Nat → BitVec 64) (i : Nat) (μ : BitVec 64) :
    Prop where
  enum : Enumerates D f (i + 1)
  alone : ∀ j < i, Alone w D (f j)
  high : ∀ k, w ≤ k → Conflict D (f i) k → (f i).getLsbD k = false
  marks : Marks D (f i) μ

/-- The search does not get past code `p`: its last conflict, at `m`, is beyond the
width of an `int`. -/
structure Stuck (w : Nat) (D : Finset (BitVec 64)) (f : Nat → BitVec 64) (p m i : Nat)
    (μ : BitVec 64) : Prop extends Found w D f p μ where
  le : p ≤ i
  wide : w ≤ m
  conflict : Conflict D (f p) m
  last : ∀ k, m < k → ¬ Conflict D (f p) k
  same : ∀ j, p < j → j ≤ i → f j = f p ||| 1#64 <<< m

theorem Found.congr {g : Nat → BitVec 64} (h : Found w D f i μ) (hfg : ∀ j ≤ i, g j = f j) :
    Found w D g i μ := by
  refine ⟨h.enum.congr fun j hj => hfg j (Nat.le_of_lt_succ hj), fun j hj => ?_, ?_, ?_⟩
  · rw [hfg j hj.le]
    exact h.alone j hj
  · rw [hfg i (Nat.le_refl i)]
    exact h.high
  · rw [hfg i (Nat.le_refl i)]
    exact h.marks

theorem choice_eq_true {rom : BitVec 64} :
    choice w rom k = true ↔ k < w ∧ rom.getLsbD k = true := by
  unfold choice
  rw [Bool.and_eq_true, decide_eq_true_iff]

theorem choice_eq (hk : k < w) (rom : BitVec 64) : choice w rom k = rom.getLsbD k := by
  unfold choice
  rw [decide_eq_true hk, Bool.true_and]

theorem choice_wide (hk : w ≤ k) (rom : BitVec 64) : choice w rom k = false := by
  unfold choice
  rw [decide_eq_false (Nat.not_lt.mpr hk), Bool.false_and]

/-- The code a pass leads to, and what it leaves in the mask. -/
theorem high_of_follows (hc : Follows D (choice w rom) c) (hk : w ≤ k) (h : Conflict D c k) :
    c.getLsbD k = false := (hc.chosen k h).trans (choice_wide hk rom)

/-- The first pass finds the first code. -/
theorem found_first {r μ : BitVec 64} {b : RomBus} (hc : Follows D (choice w 0) c)
    (hpass : Pass D 0 c 64 (r, μ, b)) : Found w D (Function.update f 0 r) 0 μ := by
  obtain rfl : r = c := hpass.eq hc fun j hj => absurd hj (by simp)
  have hleast : Follows D (fun _ => false) r :=
    ⟨hc.mem, fun k hk => (hc.chosen k hk).trans (by simp [choice])⟩
  have hself : Function.update f 0 r 0 = r := Function.update_self 0 r f
  refine ⟨Enumerates.first ?_ ?_, fun j hj => absurd hj (Nat.not_lt_zero j), ?_, ?_⟩
  · rw [hself]
    exact hc.mem
  · rw [hself]
    exact fun d hd => hleast.least hd
  · rw [hself]
    exact fun k hk h => high_of_follows hc hk h
  · rw [hself]
    exact hpass.marks

/-- From a code that is alone the next pass finds the next code. -/
theorem Found.next (h : Found w D f i μ) (halone : Alone w D (f i)) (hm : μ.getLsbD m = true)
    (hlast : ∀ j, m < j → μ.getLsbD j = false) {rom r μ' : BitVec 64} {b : RomBus}
    (hrom : ∀ j, rom.getLsbD j = true ↔ ((f i).getLsbD j = true ∧ j < m) ∨ j = m)
    (hc : Follows D (choice w rom) c) (hpass : Pass D rom c 64 (r, μ', b)) :
    Found w D (Function.update f (i + 1) r) (i + 1) μ' := by
  obtain ⟨hconflict, hzero⟩ := (h.marks m).mp hm
  have hmw : m < w := halone.conflict_lt hconflict
  have hmem : f i ∈ D := h.enum.mem i i.lt_succ_self
  have hnext : NextAt D (f i) m (choice w rom) := by
    refine ⟨hconflict, hzero, fun k hk hck => ?_, fun k hk => ?_, ?_, fun k hk => ?_⟩
    · by_contra hbit
      have hset := (h.marks k).mpr ⟨hck, Bool.eq_false_of_not_eq_true hbit⟩
      exact absurd (hset.symm.trans (hlast k hk)) nofun
    · rw [choice_eq (hk.trans hmw), Bool.eq_iff_iff, hrom]
      simp [hk, hk.ne]
    · rw [choice_eq hmw, hrom]
      exact Or.inr rfl
    · by_contra hbit
      obtain ⟨-, hset⟩ := choice_eq_true.mp (Bool.eq_true_of_not_eq_false hbit)
      have := (hrom k).mp hset
      omega
  obtain ⟨hbefore, hone, hbetween⟩ := hc.next hmem hnext
  have hagree := hnext.agree hmem hc
  obtain rfl : r = c := hpass.eq hc fun j hj => by
    rcases (hrom j).mp hj with ⟨hbit, hjm⟩ | rfl
    · exact (hagree j hjm).trans hbit
    · exact hone
  have hself : Function.update f (i + 1) r (i + 1) = r := Function.update_self (i + 1) r f
  have hother : ∀ j, j ≤ i → Function.update f (i + 1) r j = f j := fun j hj => by
    rw [Function.update_of_ne (by omega)]
  refine ⟨Enumerates.succ ?_ ?_ ?_ ?_, fun j hj => ?_, ?_, ?_⟩
  · exact h.enum.congr fun j hj => hother j (Nat.le_of_lt_succ hj)
  · rw [hself]
    exact hc.mem
  · rw [hself, hother i (Nat.le_refl i)]
    exact hbefore
  · rw [hself, hother i (Nat.le_refl i)]
    exact hbetween
  · rw [hother j (Nat.le_of_lt_succ hj)]
    rcases Nat.lt_succ_iff_lt_or_eq.mp hj with hj | rfl
    · exact h.alone j hj
    · exact halone
  · rw [hself]
    exact fun k hk h => high_of_follows hc hk h
  · rw [hself]
    exact hpass.marks

/-- At a code that is not alone the search is stuck. -/
theorem Found.stuck (h : Found w D f i μ) (halone : ¬ Alone w D (f i)) :
    ∃ m, Stuck w D f i m i μ := by
  obtain ⟨k, hk, hconflict⟩ := not_alone halone
  obtain ⟨m, hkm, hm, hlast⟩ := exists_last_conflict hconflict
  exact ⟨m, h, Nat.le_refl i, hk.trans hkm, hm, hlast, fun j hj hj' => by omega⟩

/-- Once stuck, a pass follows the same device, and sets the bit of its last conflict. -/
theorem Stuck.next (h : Stuck w D f p m i μ) {m' : Nat} (hm : μ.getLsbD m' = true)
    (hlast : ∀ j, m' < j → μ.getLsbD j = false) {rom r μ' : BitVec 64} {b : RomBus}
    (hrom : ∀ j, rom.getLsbD j = true ↔ ((f i).getLsbD j = true ∧ j < m') ∨ j = m')
    (hc : Follows D (choice w rom) c) (hpass : Pass D rom c 64 (r, μ', b)) :
    Stuck w D (Function.update f (i + 1) r) p m (i + 1) μ' := by
  have hzero := h.high m h.wide h.conflict
  obtain rfl : m = m' := by
    have hset := (h.marks m).mpr ⟨h.conflict, hzero⟩
    rcases Nat.lt_trichotomy m m' with hlt | heq | hlt
    · exact absurd ((h.marks m').mp hm).1 (h.last m' hlt)
    · exact heq
    · exact absurd (hset.symm.trans (hlast m hlt)) nofun
  have hm64 : m < 64 := h.conflict.lt
  -- Below the conflict the code found last has the bits of code `p`.
  have hbits : ∀ j < m, (f i).getLsbD j = (f p).getLsbD j := by
    intro j hj
    rcases Nat.lt_or_ge p i with hp | hp
    · rw [h.same i hp (Nat.le_refl i), Bool.eq_iff_iff, getLsbD_or_mask _ hm64]
      exact or_iff_left hj.ne
    · rw [Nat.le_antisymm h.le hp]
  have hmem : f p ∈ D := h.enum.mem p p.lt_succ_self
  have hsame : Follows D (choice w rom) (f p) := by
    refine ⟨hmem, fun k hk => ?_⟩
    by_cases hkw : k < w
    · have hkm : k < m := hkw.trans_le h.wide
      rw [choice_eq hkw, Bool.eq_iff_iff, hrom, hbits k hkm]
      simp [hkm, hkm.ne]
    · rw [choice_wide (Nat.le_of_not_lt hkw)]
      exact h.high k (Nat.le_of_not_lt hkw) hk
  obtain rfl := hc.unique hsame
  have hr : r = f p ||| 1#64 <<< m := by
    refine BitVec.eq_of_getLsbD_eq fun j hj => ?_
    rw [Bool.eq_iff_iff, getLsbD_or_mask _ hm64]
    refine (hpass.rom j).trans ?_
    rw [hrom]
    rcases Nat.lt_trichotomy j m with hlt | rfl | hlt
    · rw [hbits j hlt]
      simp [hlt, hlt.ne]
    · simp
    · have hno := h.last j hlt
      simp [hno, hj, hlt.ne', Nat.not_lt.mpr hlt.le]
  have hother : ∀ j, j ≤ i → Function.update f (i + 1) r j = f j := fun j hj => by
    rw [Function.update_of_ne (by omega)]
  have hp : Function.update f (i + 1) r p = f p := hother p h.le
  have hfound : Found w D f p μ' := ⟨h.enum, h.alone, h.high, hpass.marks⟩
  refine ⟨hfound.congr fun j hj => hother j (hj.trans h.le), h.le.trans i.le_succ, h.wide, ?_, ?_,
    fun j hj hji => ?_⟩
  · rw [hp]
    exact h.conflict
  · rw [hp]
    exact h.last
  · rw [hp]
    rcases Nat.lt_succ_iff_lt_or_eq.mp (Nat.lt_succ_of_le hji) with hlt | rfl
    · rw [hother j (Nat.le_of_lt_succ hlt)]
      exact h.same j hj (Nat.le_of_lt_succ hlt)
    · rw [Function.update_self, hr]

/-- Once stuck, the search goes on until the array is full. -/
theorem scanFrom_stuck (left : Nat) {b : RomBus} (h : Stuck w D f p m i μ)
    (hleft : i + 1 + left = W1_MAX_DEVICES) :
    ∃ g μ' b', scanFrom (RomBus.ops D) w left (i + 1) μ f b = (W1_MAX_DEVICES, g, b') ∧
      Stuck w D g p m 7 μ' := by
  induction left generalizing i f μ b with
  | zero =>
    obtain rfl : i = 7 := by
      unfold W1_MAX_DEVICES at hleft
      omega
    exact ⟨f, μ, b, rfl, h⟩
  | succ left ih =>
    have hD : D.Nonempty := ⟨f p, h.enum.mem p p.lt_succ_self⟩
    rcases scanFrom_turn hD w left i μ f b with ⟨r, -, hclear⟩ |
      ⟨m', rom, c, r, μ', b', hm, hlast, hrom, hc, hpass, heq⟩
    · have hset := (h.marks m).mpr ⟨h.conflict, h.high m h.wide h.conflict⟩
      exact absurd (hset.symm.trans (hclear m)) nofun
    · rw [heq]
      exact ih (h.next hm hlast hrom hc hpass) (by omega)

/-- All codes have been found, each of them alone. -/
structure AllFound (w : Nat) (D : Finset (BitVec 64)) (f : Nat → BitVec 64) (n : Nat) : Prop where
  enum : Enumerates D f n
  image : (Finset.range n).image f = D
  alone : ∀ d ∈ D, Alone w D d

theorem Found.all (h : Found w D f i μ) (halone : Alone w D (f i))
    (himage : (Finset.range (i + 1)).image f = D) : AllFound w D f (i + 1) := by
  refine ⟨h.enum, himage, fun d hd => ?_⟩
  rw [← himage] at hd
  obtain ⟨j, hj, rfl⟩ := Finset.mem_image.mp hd
  rcases Nat.lt_succ_iff_lt_or_eq.mp (Finset.mem_range.mp hj) with hj | rfl
  · exact h.alone j hj
  · exact halone

/-- The search finds all codes, or gets stuck. -/
theorem scanFrom_found (left : Nat) {b : RomBus} (hD : D.card ≤ W1_MAX_DEVICES)
    (h : Found w D f i μ) (hleft : i + 1 + left = W1_MAX_DEVICES) :
    (∃ n g b', scanFrom (RomBus.ops D) w left (i + 1) μ f b = (n, g, b') ∧ AllFound w D g n) ∨
    ∃ p m g μ' b', scanFrom (RomBus.ops D) w left (i + 1) μ f b = (W1_MAX_DEVICES, g, b') ∧
      Stuck w D g p m 7 μ' := by
  induction left generalizing i f μ b with
  | zero =>
    -- The array is full, and there are no more codes than that.
    by_cases halone : Alone w D (f i)
    · left
      have himage : (Finset.range (i + 1)).image f = D :=
        Finset.eq_of_subset_of_card_le h.enum.image_subset (by rw [h.enum.card_image]; omega)
      exact ⟨i + 1, f, b, rfl, h.all halone himage⟩
    · obtain ⟨m, hstuck⟩ := h.stuck halone
      obtain ⟨g, μ', b', heq, hend⟩ := scanFrom_stuck 0 (b := b) hstuck hleft
      exact Or.inr ⟨i, m, g, μ', b', heq, hend⟩
  | succ left ih =>
    have hne : D.Nonempty := ⟨f i, h.enum.mem i i.lt_succ_self⟩
    by_cases halone : Alone w D (f i)
    · rcases scanFrom_turn hne w left i μ f b with ⟨r, heq, hclear⟩ |
        ⟨m', rom, c, r, μ', b', hm, hlast, hrom, hc, hpass, heq⟩
      · left
        have hlast : ∀ k, Conflict D (f i) k → (f i).getLsbD k = true := fun k hk => by
          by_contra hbit
          have hset := (h.marks k).mpr ⟨hk, Bool.eq_false_of_not_eq_true hbit⟩
          exact absurd (hset.symm.trans (hclear k)) nofun
        have himage := h.enum.complete fun d hd => no_next hlast hd
        have hother : ∀ j ≤ i, Function.update f (i + 1) r j = f j := fun j hj => by
          rw [Function.update_of_ne (by omega)]
        have hall := (h.congr hother).all
        rw [hother i (Nat.le_refl i)] at hall
        refine ⟨i + 1, _, b, heq, hall halone ?_⟩
        rw [← himage]
        exact Finset.image_congr fun j hj => hother j (by simpa [Nat.lt_succ_iff] using hj)
      · rw [heq]
        exact ih (h.next halone hm hlast hrom hc hpass) (by omega)
    · obtain ⟨m, hstuck⟩ := h.stuck halone
      obtain ⟨g, μ', b', heq, hend⟩ := scanFrom_stuck (left + 1) (b := b) hstuck hleft
      exact Or.inr ⟨i, m, g, μ', b', heq, hend⟩

/-- **The search.** It returns the number of devices with all their codes, or fills the
array and is stuck. -/
theorem scanBus_spec (w : Nat) (hD : D.card ≤ W1_MAX_DEVICES) (b : RomBus) :
    (∃ g b', scanBus (RomBus.ops D) w b = (D.card, g, b') ∧ AllFound w D g D.card) ∨
    ∃ p m g μ' b', scanBus (RomBus.ops D) w b = (W1_MAX_DEVICES, g, b') ∧ Stuck w D g p m 7 μ' := by
  rcases D.eq_empty_or_nonempty with rfl | hne
  · left
    refine ⟨_, _, rfl, ⟨fun j hj => ?_, fun j k _ hk => ?_, fun j hj => ?_⟩, rfl, fun d hd => ?_⟩
    · exact absurd hj (Nat.not_lt_zero j)
    · exact absurd hk (Nat.not_lt_zero k)
    · exact absurd hj (Nat.not_lt_zero j)
    · exact absurd hd (Finset.notMem_empty d)
  · obtain ⟨c, r, μ, b', hscan, hc, hpass⟩ := scanOne_pass hne w 0 0 b
    have hfirst : scanBus (RomBus.ops D) w b =
        scanFrom (RomBus.ops D) w 7 1 μ (Function.update (fun _ => 0) 0 r) b' := by
      show scanFrom (RomBus.ops D) w 8 0 0 (fun _ => 0) b = _
      conv_lhs => unfold scanFrom
      simp only [if_true, hscan, ne_eq, not_true, if_false]
    rw [hfirst]
    rcases scanFrom_found 7 hD (found_first (f := fun _ => 0) hc hpass) rfl with
      ⟨n, g, b'', heq, hall⟩ | hstuck
    · left
      obtain rfl : n = D.card := by
        rw [← hall.enum.card_image, hall.image]
      exact ⟨g, b'', heq, hall⟩
    · exact Or.inr hstuck

-- ---------------------------------------------------------------------------
-- What is found
-- ---------------------------------------------------------------------------

/-- The search returns the number of devices, and `devs` has their codes, each once. -/
def Finds (D : Finset (BitVec 64)) (r : Nat × (Nat → BitVec 64) × RomBus) : Prop :=
  r.1 = D.card ∧ Set.BijOn r.2.1 (Set.Iio D.card) D

/-- The condition: codes agree in fewer bits than an `int` has, except that of eight
devices the last two in the order of the search may differ in one bit only. -/
def Resolvable (w : Nat) (D : Finset (BitVec 64)) : Prop :=
  ∀ a ∈ D, ∀ b ∈ D, a ≠ b → Agree w a b →
    D.card = W1_MAX_DEVICES ∧ (∃ m : Nat, a ^^^ b = 1#64 <<< m) ∧
      ∀ d ∈ D, d ≠ a → d ≠ b → Before d a

theorem finds_iff {n : Nat} {g : Nat → BitVec 64} {b : RomBus} :
    Finds D (n, g, b) ↔ n = D.card ∧ (Finset.range D.card).image g = D := by
  unfold Finds
  refine and_congr_right fun _ => ?_
  rw [← Finset.coe_range]
  constructor
  · intro h
    exact Finset.coe_injective (by rw [Finset.coe_image, h.image_eq])
  · intro h
    refine ⟨fun j hj => ?_, ?_, ?_⟩
    · rw [← h]
      exact Finset.mem_image_of_mem g hj
    · rw [← Finset.card_image_iff, h, Finset.card_range]
    · intro d hd
      rwa [← Finset.coe_image, h]

theorem AllFound.resolvable {n : Nat} (h : AllFound w D f n) : Resolvable w D := by
  intro a ha b hb hne hagree
  exact absurd (h.alone b hb a ha hagree) hne

/-- The code that a stuck search adds is not one found before, and comes behind them. -/
theorem Stuck.before (h : Stuck w D f p m i μ) {j : Nat} (hj : j < p) :
    Before (f j) (f p ||| 1#64 <<< m) := by
  obtain ⟨k, hagree, hzero, hone⟩ := h.enum.before j p hj p.lt_succ_self
  have hk : k < w := by
    by_contra hle
    have hsame := h.alone j hj (f p) (h.enum.mem p p.lt_succ_self)
      (hagree.symm.mono (Nat.le_of_not_lt hle))
    rw [hsame] at hone
    exact absurd (hzero.symm.trans hone) nofun
  have hbits : ∀ l < m, (f p ||| 1#64 <<< m).getLsbD l = (f p).getLsbD l := fun l hl => by
    rw [Bool.eq_iff_iff, getLsbD_or_mask _ h.conflict.lt]
    exact or_iff_left hl.ne
  have hkm : k < m := hk.trans_le h.wide
  exact ⟨k, fun l hl => (hagree l hl).trans (hbits l (hl.trans hkm)).symm, hzero,
    (hbits k hkm).trans hone⟩

theorem ne_of_getLsbD {a d : BitVec 64} (ha : a.getLsbD m = false) (hd : d.getLsbD m = true) :
    a ≠ d := by
  rintro rfl
  exact absurd (ha.symm.trans hd) nofun

/-- The code that a stuck search does not tell from the one it has come to. -/
theorem Stuck.partner (h : Stuck w D f p m i μ) :
    ∃ d ∈ D, Agree w d (f p) ∧ (f p).getLsbD m = false ∧ d.getLsbD m = true := by
  obtain ⟨d, hd, hagree, hdiff⟩ := h.conflict
  have hzero := h.high m h.wide h.conflict
  rw [hzero] at hdiff
  exact ⟨d, hd, hagree.mono h.wide, hzero, Bool.eq_true_of_not_eq_false hdiff⟩

/-- Codes that agree in as many bits as an `int` has come last. -/
theorem Found.not_lt (h : Found w D f i μ) {a : BitVec 64} {j : Nat} (ha : a ∈ D) (hne : a ≠ f j)
    (hagree : Agree w a (f j)) : ¬ j < i := fun hj => hne (h.alone j hj a ha hagree)

/-- A search that is stuck and still finds all devices is stuck at the last but one. -/
theorem Stuck.last_two (h : Stuck w D f p m 7 μ) (hcard : D.card = 8)
    (himage : (Finset.range 8).image f = D) : p = 6 := by
  have hinj : Set.InjOn f (Finset.range 8) := by
    rw [← Finset.card_image_iff, himage, hcard, Finset.card_range]
  have hle := h.le
  have hge : 6 ≤ p := by
    by_contra hlt
    have heq : f 6 = f 7 := by rw [h.same 6 (by omega) (by omega), h.same 7 (by omega) (by omega)]
    exact absurd (hinj (by simp) (by simp) heq) (by omega)
  have hne : p ≠ 7 := by
    rintro rfl
    obtain ⟨d, hd, hagree, hzero, hone⟩ := h.partner
    have hd' := hd
    rw [← himage] at hd'
    obtain ⟨j, hj, rfl⟩ := Finset.mem_image.mp hd'
    have hj7 : f 7 ≠ f j := ne_of_getLsbD hzero hone
    have hlt : ¬ j < 7 := h.not_lt (h.enum.mem 7 (by omega)) hj7 hagree.symm
    obtain rfl : j = 7 := by
      have := Finset.mem_range.mp hj
      omega
    exact hj7 rfl
  omega

theorem Stuck.resolvable (h : Stuck w D f p m 7 μ) (hcard : D.card = 8)
    (himage : (Finset.range 8).image f = D) : Resolvable w D := by
  obtain rfl := h.last_two hcard himage
  have hsame : f 7 = f 6 ||| 1#64 <<< m := h.same 7 (by omega) (by omega)
  have hxor : f 6 ^^^ f 7 = 1#64 <<< m := by
    refine BitVec.eq_of_getLsbD_eq fun j _ => ?_
    rw [BitVec.getLsbD_xor, hsame, BitVec.getLsbD_or, getLsbD_mask, decide_eq_true h.conflict.lt]
    by_cases hj : m = j
    · subst hj
      simp [h.high m h.wide h.conflict]
    · simp [hj]
  -- The two that agree are the last two found.
  have hindex : ∀ a ∈ D, ∀ d ∈ D, d ≠ a → Agree w d a → a = f 6 ∨ a = f 7 := by
    intro a ha d hd hne hagree
    rw [← himage] at ha
    obtain ⟨j, hj, rfl⟩ := Finset.mem_image.mp ha
    have hlt : ¬ j < 6 := h.not_lt hd hne hagree
    obtain rfl | rfl : j = 6 ∨ j = 7 := by
      have := Finset.mem_range.mp hj
      omega
    · exact Or.inl rfl
    · exact Or.inr rfl
  have hbefore : ∀ d ∈ D, d ≠ f 6 → d ≠ f 7 → Before d (f 6) ∧ Before d (f 7) := by
    intro d hd h6 h7
    rw [← himage] at hd
    obtain ⟨j, hj, rfl⟩ := Finset.mem_image.mp hd
    have hj6 : j < 6 := by
      have hj := Finset.mem_range.mp hj
      have : j ≠ 6 := fun heq => h6 (congrArg f heq)
      have : j ≠ 7 := fun heq => h7 (congrArg f heq)
      omega
    exact ⟨h.enum.before j 6 hj6 (by omega), hsame ▸ h.before hj6⟩
  intro a ha b hb hne hagree
  rcases hindex a ha b hb hne.symm hagree.symm with rfl | rfl <;>
    rcases hindex b hb _ ha hne hagree with rfl | rfl
  · exact absurd rfl hne
  · exact ⟨hcard, ⟨m, hxor⟩, fun d hd h6 h7 => (hbefore d hd h6 h7).1⟩
  · exact ⟨hcard, ⟨m, (BitVec.xor_comm _ _).trans hxor⟩, fun d hd h7 h6 => (hbefore d hd h6 h7).2⟩
  · exact absurd rfl hne

theorem eq_or_of_xor {a d : BitVec 64} {m' : Nat} (hxor : a ^^^ d = 1#64 <<< m')
    (ha : a.getLsbD m = false) (hd : d.getLsbD m = true) : d = a ||| 1#64 <<< m := by
  have hbit : ∀ j, (a.getLsbD j ^^ d.getLsbD j) = (decide (m' < 64) && decide (m' = j)) := by
    intro j
    rw [← BitVec.getLsbD_xor, hxor, getLsbD_mask]
  obtain rfl : m' = m := by
    have hm := hbit m
    rw [ha, hd] at hm
    by_contra hne
    rw [decide_eq_false hne, Bool.and_false] at hm
    exact absurd hm nofun
  refine BitVec.eq_of_getLsbD_eq fun j _ => ?_
  rw [BitVec.getLsbD_or, getLsbD_mask, ← hbit]
  cases hda : d.getLsbD j with
  | false =>
    cases haj : a.getLsbD j with
    | false => rfl
    | true =>
      -- Only bit `m` differs, where `d` has the 1.
      have hj := hbit j
      rw [hda, haj] at hj
      obtain ⟨-, heq⟩ := Bool.and_eq_true_iff.mp hj.symm
      rw [of_decide_eq_true heq, haj] at ha
      exact absurd ha nofun
  | true => cases a.getLsbD j <;> rfl

theorem Stuck.image (h : Stuck w D f p m 7 μ) (hD : Resolvable w D) :
    D.card = 8 ∧ (Finset.range 8).image f = D := by
  have hmem : f p ∈ D := h.enum.mem p p.lt_succ_self
  obtain ⟨d, hd, hagree, hzero, hone⟩ := h.partner
  have hne : f p ≠ d := ne_of_getLsbD hzero hone
  obtain ⟨hcard, ⟨m', hxor⟩, hlast⟩ := hD (f p) hmem d hd hne hagree.symm
  have hdor : d = f p ||| 1#64 <<< m := eq_or_of_xor hxor hzero hone
  have hnew : d ∉ (Finset.range (p + 1)).image f := by
    intro hmem'
    obtain ⟨j, hj, rfl⟩ := Finset.mem_image.mp hmem'
    rcases Nat.lt_succ_iff_lt_or_eq.mp (Finset.mem_range.mp hj) with hj | rfl
    · exact h.not_lt hmem hne hagree.symm hj
    · exact hne rfl
  have hinsert : insert d ((Finset.range (p + 1)).image f) = D := by
    refine Finset.Subset.antisymm (Finset.insert_subset hd h.enum.image_subset) fun e he => ?_
    rw [Finset.mem_insert]
    by_cases hed : e = d
    · exact Or.inl hed
    · by_cases hep : e = f p
      · exact Or.inr (hep ▸ Finset.mem_image_of_mem f (by simp))
      · obtain ⟨k, hk, rfl⟩ := h.enum.closed p p.lt_succ_self e he (hlast e he hep hed)
        exact Or.inr (Finset.mem_image_of_mem f (by simpa using hk.le.trans_lt p.lt_succ_self))
  obtain rfl : p = 6 := by
    have := Finset.card_insert_of_notMem hnew
    rw [hinsert, hcard, h.enum.card_image] at this
    unfold W1_MAX_DEVICES at this
    omega
  refine ⟨hcard, ?_⟩
  rw [Finset.range_add_one, Finset.image_insert, h.same 7 (by omega) (by omega), ← hdor, hinsert]

/-- What the search finds when it is stuck. -/
theorem Stuck.finds_iff (h : Stuck w D f p m 7 μ) {b : RomBus} :
    Finds D (W1_MAX_DEVICES, f, b) ↔ Resolvable w D := by
  rw [W1.finds_iff]
  constructor
  · rintro ⟨hcard, himage⟩
    rw [← hcard] at himage
    exact h.resolvable hcard.symm himage
  · intro hD
    obtain ⟨hcard, himage⟩ := h.image hD
    rw [hcard]
    exact ⟨rfl, himage⟩

/-- **Finding the devices.** The search finds every device, each once, if and only if
the codes meet the condition. -/
theorem scan_finds_iff (w : Nat) (D : Finset (BitVec 64)) (hD : D.card ≤ W1_MAX_DEVICES)
    (b : RomBus) : Finds D (scanBus (RomBus.ops D) w b) ↔ Resolvable w D := by
  rcases scanBus_spec w hD b with ⟨g, b', heq, hall⟩ | ⟨p, m, g, μ, b', heq, hstuck⟩
  · rw [heq]
    exact iff_of_true (W1.finds_iff.mpr ⟨rfl, hall.image⟩) hall.resolvable
  · rw [heq]
    exact hstuck.finds_iff

/-- Two codes that differ in their second byte are found. -/
theorem scan_finds_two :
    Finds {0x328, 0x528} (scanBus (RomBus.ops {0x328, 0x528}) 32 ⟨[], ∅, 0, false⟩) := by
  refine (scan_finds_iff 32 {0x328, 0x528} (by decide) _).mpr fun a ha b hb hne hagree => ?_
  have hdiff : ¬ Agree 32 (0x328 : BitVec 64) 0x528 := by decide
  rw [Finset.mem_insert, Finset.mem_singleton] at ha hb
  rcases ha with rfl | rfl <;> rcases hb with rfl | rfl
  · exact absurd rfl hne
  · exact absurd hagree hdiff
  · exact absurd hagree.symm hdiff
  · exact absurd rfl hne

/-- Of two codes that differ in bit 40 only, on a machine with an `int` of 32 bits, the
search makes eight. -/
theorem scan_wide_conflict :
    (scanBus (RomBus.ops {0, 0x10000000000}) 32 ⟨[], ∅, 0, false⟩).1 = 8 ∧
      ¬ Finds {0, 0x10000000000} (scanBus (RomBus.ops {0, 0x10000000000}) 32 ⟨[], ∅, 0, false⟩) := by
  have hcard : ({0, 0x10000000000} : Finset (BitVec 64)).card = 2 := by decide
  rcases scanBus_spec 32 (hcard.trans_le (by decide)) ⟨[], ∅, 0, false⟩ with
    ⟨g, b', -, hall⟩ | ⟨p, m, g, μ, b', heq, -⟩
  · have hagree : Agree 32 (0 : BitVec 64) 0x10000000000 := by decide
    have hne := hall.alone 0x10000000000 (by simp) 0 (by simp) hagree
    exact absurd hne (by decide)
  · rw [heq]
    refine ⟨rfl, fun hfinds => ?_⟩
    have height : W1_MAX_DEVICES = 2 := hfinds.1.trans hcard
    exact absurd height (by decide)

end W1

end Bathos.Drivers
