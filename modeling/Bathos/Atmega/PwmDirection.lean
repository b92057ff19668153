import Bathos.Atmega.Pwm

/-!
# Bathos — the direction of the PWM pins

`pwm_en` makes the pin of a PWM an output and remembers in a bit of `gpio_orig_dir`
whether it was one before; `pwm_dis` makes it an input again unless the bit is set.

The bit is written by every enable, the second of two included, which finds the output of
the first; and it is read by every disable, the very first included, which finds the 0 of
the static memory.

Main results:

* `pwmEn_isOutput`, `pwmDis_isOutput` — what a call does to the pins;
* `restored_iff` — the runs in which every pin gets its direction back.
-/

namespace Bathos.Atmega

open Bathos.Lib

-- ---------------------------------------------------------------------------
-- Pins
-- ---------------------------------------------------------------------------

/-- The pin of a PWM is an output. -/
def Regs.isOutput (r : Regs) (id : Fin 6) : Bool :=
  decide (r.mem8 (pwms id).dirReg &&& (pwms id).dirMsk ≠ 0)

/-- The bit of `gpio_orig_dir` for a PWM. -/
def PwmState.origOutput (s : PwmState) (id : Fin 6) : Bool := pwmEnabled s.gpioOrigDir id

namespace Regs

variable {r r' : Regs} {id j : Fin 6}

theorem isOutput_congr
    (h : r'.mem8 (pwms j).dirReg &&& (pwms j).dirMsk = r.mem8 (pwms j).dirReg &&& (pwms j).dirMsk) :
    r'.isOutput j = r.isOutput j := by
  unfold isOutput
  simp only [h]

/-- Every PWM has a pin of its own. -/
theorem pwms_pin (id j : Fin 6) (h : j ≠ id) :
    (pwms j).dirReg ≠ (pwms id).dirReg ∨
      (pwms j).dirMsk = ~~~(pwms id).dirMsk &&& (pwms j).dirMsk := by
  revert id j
  decide

theorem dirMsk_ne_zero (id : Fin 6) : (pwms id).dirMsk ≠ 0 := by
  revert id
  decide

/-- The direction registers are not among those of the timers. -/
theorem pwms_dirReg (id j : Fin 6) : (pwms j).dirReg ≠ (pwms id).ctlReg := by
  revert id j
  decide

theorem init_dirReg (t : Timer) (r : Regs) (j : Fin 6) :
    (t.init r).mem8 (pwms j).dirReg = r.mem8 (pwms j).dirReg := by
  fin_cases j <;> cases t <;> rfl

theorem deinit_dirReg (t : Timer) (r : Regs) (j : Fin 6) :
    (t.deinit r).mem8 (pwms j).dirReg = r.mem8 (pwms j).dirReg := by
  fin_cases j <;> cases t <;> rfl

/-- An operation on the bits of one pin leaves the others alone. -/
theorem isOutput_update_of_ne (h : j ≠ id) {v : BitVec 8}
    (hv : v &&& ~~~(pwms id).dirMsk = r.mem8 (pwms id).dirReg &&& ~~~(pwms id).dirMsk) :
    Regs.isOutput { r with mem8 := Function.update r.mem8 (pwms id).dirReg v } j = r.isOutput j := by
  apply isOutput_congr
  show Function.update r.mem8 (pwms id).dirReg v (pwms j).dirReg &&& _ = _
  by_cases hreg : (pwms j).dirReg = (pwms id).dirReg
  · obtain hne | hkept := pwms_pin id j h
    · exact absurd hreg hne
    · rw [hreg, Function.update_self, hkept, ← BitVec.and_assoc, ← BitVec.and_assoc, hv]
  · rw [Function.update_of_ne hreg]

/-- What `|=` and `&= ~` do to the pins. -/
theorem setBits_isOutput (r : Regs) (id j : Fin 6) :
    (r.setBits (pwms id).dirReg (pwms id).dirMsk).isOutput j = (decide (j = id) || r.isOutput j) := by
  by_cases h : j = id
  · subst h
    have hself : (r.mem8 (pwms j).dirReg ||| (pwms j).dirMsk) &&& (pwms j).dirMsk = (pwms j).dirMsk := by
      apply BitVec.eq_of_getLsbD_eq
      intro i hi
      simp only [BitVec.getLsbD_and, BitVec.getLsbD_or]
      cases (pwms j).dirMsk.getLsbD i <;> simp
    unfold isOutput setBits
    simp only [Function.update_self, hself]
    simpa using dirMsk_ne_zero j
  · have hv : (r.mem8 (pwms id).dirReg ||| (pwms id).dirMsk) &&& ~~~(pwms id).dirMsk =
        r.mem8 (pwms id).dirReg &&& ~~~(pwms id).dirMsk := by
      apply BitVec.eq_of_getLsbD_eq
      intro i hi
      simp only [BitVec.getLsbD_and, BitVec.getLsbD_or, BitVec.getLsbD_not]
      cases (pwms id).dirMsk.getLsbD i <;> simp
    unfold setBits
    rw [isOutput_update_of_ne h hv]
    simp [h]

theorem clearBits_isOutput (r : Regs) (id j : Fin 6) :
    (r.clearBits (pwms id).dirReg (pwms id).dirMsk).isOutput j =
      (!decide (j = id) && r.isOutput j) := by
  by_cases h : j = id
  · subst h
    have hself : (r.mem8 (pwms j).dirReg &&& ~~~(pwms j).dirMsk) &&& (pwms j).dirMsk = 0 := by
      rw [BitVec.and_assoc, BitVec.and_comm (~~~_), BitVec.and_not_self]
      exact BitVec.and_zero
    unfold isOutput clearBits
    simp only [Function.update_self, hself]
    simp
  · have hv : (r.mem8 (pwms id).dirReg &&& ~~~(pwms id).dirMsk) &&& ~~~(pwms id).dirMsk =
        r.mem8 (pwms id).dirReg &&& ~~~(pwms id).dirMsk := by
      rw [BitVec.and_assoc, BitVec.and_self]
    unfold clearBits
    rw [isOutput_update_of_ne h hv]
    simp [h]

end Regs

-- ---------------------------------------------------------------------------
-- The two functions
-- ---------------------------------------------------------------------------

namespace PwmState

open Regs

variable (s : PwmState) (id j : Fin 6)

theorem checkInitTimer_pins :
    (s.checkInitTimer (pwms id)).regs.mem8 (pwms j).dirReg = s.regs.mem8 (pwms j).dirReg ∧
      (s.checkInitTimer (pwms id)).gpioOrigDir = s.gpioOrigDir := by
  unfold checkInitTimer callInit
  split
  · exact ⟨init_dirReg _ _ _, rfl⟩
  split <;> exact ⟨rfl, rfl⟩

theorem checkDeinitTimer_pins :
    (s.checkDeinitTimer id (pwms id)).regs.mem8 (pwms j).dirReg = s.regs.mem8 (pwms j).dirReg ∧
      (s.checkDeinitTimer id (pwms id)).gpioOrigDir = s.gpioOrigDir := by
  unfold checkDeinitTimer callDeinit
  simp only
  split <;> split <;> exact ⟨by first | rfl | exact deinit_dirReg _ _ _, rfl⟩

/-- The registers behind the write to `ctl_reg`. -/
theorem ctl_isOutput {r r' : Regs} (h : r'.mem8 (pwms j).dirReg = r.mem8 (pwms j).dirReg)
    (v : BitVec 8) :
    Regs.isOutput { r' with mem8 := Function.update r'.mem8 (pwms id).ctlReg v } j =
      r.isOutput j := by
  apply isOutput_congr
  show Function.update r'.mem8 (pwms id).ctlReg v (pwms j).dirReg &&& _ = _
  rw [Function.update_of_ne (pwms_dirReg id j), h]

/-- The registers and the remembered bits `pwm_en` finds when it looks at the pin. -/
theorem pwmEn_before :
    (∀ j, ((s.checkInitTimer (pwms id)).regs.setBits (pwms id).ctlReg (pwms id).enMsk).isOutput j =
      s.regs.isOutput j) ∧ (s.checkInitTimer (pwms id)).gpioOrigDir = s.gpioOrigDir :=
  ⟨fun j => ctl_isOutput id j (s.checkInitTimer_pins id j).1 _, (s.checkInitTimer_pins id id).2⟩

theorem pwmDis_before :
    (∀ j, ((s.checkDeinitTimer id (pwms id)).regs.clearBits (pwms id).ctlReg
      (pwms id).enMsk).isOutput j = s.regs.isOutput j) ∧
      (s.checkDeinitTimer id (pwms id)).gpioOrigDir = s.gpioOrigDir :=
  ⟨fun j => ctl_isOutput id j (s.checkDeinitTimer_pins id j).1 _, (s.checkDeinitTimer_pins id id).2⟩

/-- An enable makes its pin an output, and remembers what it was. -/
theorem pwmEn_pins :
    (s.pwmEn id).regs.isOutput j = (decide (j = id) || s.regs.isOutput j) ∧
      (s.pwmEn id).origOutput j = if j = id then s.regs.isOutput id else s.origOutput j := by
  obtain ⟨hpins, horig⟩ := s.pwmEn_before id
  have hlook := hpins id
  unfold isOutput at hlook
  unfold pwmEn
  simp only
  by_cases hout : s.regs.isOutput id = true
  · rw [if_pos (of_decide_eq_true (hlook.trans hout))]
    refine ⟨?_, ?_⟩
    · show Regs.isOutput (Regs.setBits _ _ _) j = _
      rw [hpins]
      by_cases hj : j = id
      · simp [hj, hout]
      · simp [hj]
    · show pwmEnabled (_ ||| statBit id) j = _
      rw [horig, pwmEnabled_set (by omega), hout]
      by_cases hj : j = id
      · simp [hj]
      · simp [hj, origOutput, Ne.symm (Fin.val_ne_of_ne hj)]
  · rw [if_neg fun h => hout (hlook.symm.trans (decide_eq_true h))]
    refine ⟨?_, ?_⟩
    · show Regs.isOutput (Regs.setBits (Regs.setBits _ _ _) _ _) j = _
      rw [setBits_isOutput, hpins]
    · show pwmEnabled (_ &&& ~~~statBit id) j = _
      rw [horig, pwmEnabled_clear (by omega), Bool.eq_false_of_not_eq_true hout]
      by_cases hj : j = id
      · simp [hj]
      · simp [hj, origOutput, Ne.symm (Fin.val_ne_of_ne hj)]

/-- A disable leaves its pin an output only if it is remembered as one. -/
theorem pwmDis_pins :
    (s.pwmDis id).regs.isOutput j =
        ((!decide (j = id) || s.origOutput id) && s.regs.isOutput j) ∧
      (s.pwmDis id).origOutput j = s.origOutput j := by
  obtain ⟨hpins, horig⟩ := s.pwmDis_before id
  have hbit : s.origOutput id = true ↔ s.gpioOrigDir &&& statBit id ≠ 0 := decide_eq_true_iff
  unfold pwmDis
  simp only
  by_cases hout : s.origOutput id = true
  · rw [if_neg (by rw [horig]; exact hbit.mp hout)]
    refine ⟨?_, ?_⟩
    · show Regs.isOutput (Regs.clearBits _ _ _) j = _
      rw [hpins, hout, Bool.or_true, Bool.true_and]
    · show pwmEnabled _ j = _
      rw [horig]
      rfl
  · rw [if_pos (by rw [horig]; exact not_not.mp fun h => hout (hbit.mpr h))]
    refine ⟨?_, ?_⟩
    · show Regs.isOutput (Regs.clearBits (Regs.clearBits _ _ _) _ _) j = _
      rw [clearBits_isOutput, hpins, Bool.eq_false_of_not_eq_true hout, Bool.or_false]
    · show pwmEnabled _ j = _
      rw [horig]
      rfl

end PwmState

-- ---------------------------------------------------------------------------
-- Statement
-- ---------------------------------------------------------------------------

/-- A state with its history, for each PWM: the enables since it was last disabled, the
direction its pin had before the first of them, and whether it was ever enabled. -/
structure PinRun where
  st : PwmState
  enables : Fin 6 → Nat
  before : Fin 6 → Bool
  ever : Fin 6 → Bool

namespace PinRun

/-- Zeroed static memory, and any directions. -/
def start (regs : Regs) : PinRun where
  st := PwmState.start regs
  enables := fun _ => 0
  before := regs.isOutput
  ever := fun _ => false

def step (t : PinRun) : PwmOp → PinRun
  | .en id =>
    { st := t.st.pwmEn id
      enables := Function.update t.enables id (t.enables id + 1)
      before :=
        if t.enables id = 0 then Function.update t.before id (t.st.regs.isOutput id) else t.before
      ever := Function.update t.ever id true }
  | .dis id => { t with st := t.st.pwmDis id, enables := Function.update t.enables id 0 }

/-- After the call the pins of the enabled PWMs are outputs, and the other ones have the
direction they had before. -/
def Restored (t : PinRun) (op : PwmOp) : Prop :=
  ∀ id, (t.step op).st.regs.isOutput id =
    if pwmEnabled (t.step op).st.pwmStat id then true else (t.step op).before id

/-- A disable of a PWM that was enabled more than once since it was last disabled finds a
pin that was an output before; one of a PWM that was never enabled finds an input. -/
def Undoes (t : PinRun) : PwmOp → Prop
  | .en _ => True
  | .dis id => (2 ≤ t.enables id → t.before id = true) ∧
      (t.ever id = false → t.st.regs.isOutput id = false)

/-- What is remembered: nothing before the first enable, the direction before with the
first enable, and an output with every further one. -/
structure Remembered (t : PinRun) : Prop where
  enabled : ∀ id : Fin 6, pwmEnabled t.st.pwmStat id = decide (t.enables id ≠ 0)
  pins : ∀ id, t.st.regs.isOutput id = (decide (t.enables id ≠ 0) || t.before id)
  never : ∀ id, t.ever id = false → t.enables id = 0 ∧ t.st.origOutput id = false
  orig : ∀ id, t.ever id = true → t.enables id ≤ 1 → t.st.origOutput id = t.before id
  again : ∀ id, 2 ≤ t.enables id → t.st.origOutput id = true

theorem start_remembered (regs : Regs) : (start regs).Remembered where
  enabled id := by simp [start, PwmState.start, pwmEnabled]
  pins id := by simp [start, PwmState.start]
  never id _ := by simp [start, PwmState.start, PwmState.origOutput, pwmEnabled]
  orig id h := absurd h (by simp [start])
  again id h := absurd h (by simp [start])

section Step

variable {t : PinRun} {id : Fin 6}

theorem Remembered.restored {op : PwmOp} (h : (t.step op).Remembered) : t.Restored op := by
  intro j
  rw [h.pins, h.enabled]
  cases decide ((t.step op).enables j ≠ 0) <;> rfl

theorem en_before (t : PinRun) (id j : Fin 6) :
    (t.step (.en id)).before j =
      if j = id ∧ t.enables id = 0 then t.st.regs.isOutput id else t.before j := by
  unfold step
  simp only
  split
  · rename_i hfirst
    by_cases hid : j = id
    · subst hid
      rw [Function.update_self, if_pos ⟨rfl, hfirst⟩]
    · rw [Function.update_of_ne hid, if_neg fun h => hid h.1]
  · rename_i hfirst
    rw [if_neg fun h => hfirst h.2]

theorem en_remembered (h : t.Remembered) : (t.step (.en id)).Remembered := by
  obtain hpins := t.st.pwmEn_pins id
  refine ⟨fun j => ?_, fun j => ?_, fun j hj => ?_, fun j hj hle => ?_, fun j hle => ?_⟩
  · show pwmEnabled (t.st.pwmEn id).pwmStat j = decide (Function.update t.enables id _ j ≠ 0)
    rw [(t.st.pwmEn_fields id).1, PwmState.pwmEnabled_set (by omega), h.enabled]
    by_cases hid : j = id
    · simp [hid]
    · simp [hid, Ne.symm (Fin.val_ne_of_ne hid)]
  · show (t.st.pwmEn id).regs.isOutput j =
      (decide (Function.update t.enables id _ j ≠ 0) || (t.step (.en id)).before j)
    rw [(hpins j).1, h.pins, en_before]
    by_cases hid : j = id
    · simp [hid]
    · simp [hid]
  · have hid : j ≠ id := by
      rintro rfl
      simp [step] at hj
    have hever : t.ever j = false := by simpa [step, hid] using hj
    show Function.update t.enables id _ j = 0 ∧ (t.st.pwmEn id).origOutput j = false
    rw [Function.update_of_ne hid, (hpins j).2, if_neg hid]
    exact h.never j hever
  · show (t.st.pwmEn id).origOutput j = (t.step (.en id)).before j
    rw [(hpins j).2, en_before]
    by_cases hid : j = id
    · subst hid
      have hfirst : t.enables j = 0 := by simpa [step] using hle
      rw [if_pos rfl, if_pos ⟨rfl, hfirst⟩]
    · have hever : t.ever j = true := by simpa [step, hid] using hj
      rw [if_neg hid, if_neg fun hboth => hid hboth.1]
      exact h.orig j hever (by simpa [step, hid] using hle)
  · show (t.st.pwmEn id).origOutput j = true
    rw [(hpins j).2]
    by_cases hid : j = id
    · -- the output found is that of the enable before
      subst hid
      have hagain : t.enables j ≠ 0 := by
        have : 2 ≤ t.enables j + 1 := by simpa [step] using hle
        omega
      rw [if_pos rfl, h.pins]
      simp [hagain]
    · rw [if_neg hid]
      exact h.again j (by simpa [step, hid] using hle)

theorem dis_remembered (h : t.Remembered) (hundoes : t.Undoes (.dis id)) :
    (t.step (.dis id)).Remembered := by
  obtain hpins := t.st.pwmDis_pins id
  obtain ⟨htwice, hnever⟩ := hundoes
  have hback : t.ever id = true → t.st.origOutput id = t.before id := fun hever => by
    rcases Nat.lt_or_ge (t.enables id) 2 with hone | htwo
    · exact h.orig id hever (by omega)
    · rw [h.again id htwo, htwice htwo]
  refine ⟨fun j => ?_, fun j => ?_, fun j hj => ?_, fun j hj hle => ?_, fun j hle => ?_⟩
  · show pwmEnabled (t.st.pwmDis id).pwmStat j = decide (Function.update t.enables id 0 j ≠ 0)
    rw [(t.st.pwmDis_fields id).1, PwmState.pwmEnabled_clear (by omega), h.enabled]
    by_cases hid : j = id
    · simp [hid]
    · simp [hid, Ne.symm (Fin.val_ne_of_ne hid)]
  · show (t.st.pwmDis id).regs.isOutput j =
      (decide (Function.update t.enables id 0 j ≠ 0) || t.before j)
    rw [(hpins j).1]
    by_cases hid : j = id
    · subst hid
      have hself := h.pins j
      rw [Function.update_self]
      cases hever : t.ever j with
      | true =>
        rw [hback hever, hself]
        cases t.before j <;> simp
      | false =>
        have hin := hnever hever
        rw [(h.never j hever).1] at hself
        rw [hin] at hself ⊢
        simpa using hself
    · rw [Function.update_of_ne hid, h.pins]
      simp [hid]
  · show Function.update t.enables id 0 j = 0 ∧ (t.st.pwmDis id).origOutput j = false
    rw [(hpins j).2]
    refine ⟨?_, (h.never j hj).2⟩
    by_cases hid : j = id
    · rw [hid, Function.update_self]
    · rw [Function.update_of_ne hid]
      exact (h.never j hj).1
  · show (t.st.pwmDis id).origOutput j = t.before j
    rw [(hpins j).2]
    by_cases hid : j = id
    · subst hid
      exact hback hj
    · exact h.orig j hj (by simpa [step, hid] using hle)
  · show (t.st.pwmDis id).origOutput j = true
    rw [(hpins j).2]
    by_cases hid : j = id
    · subst hid
      simp [step] at hle
    · exact h.again j (by simpa [step, hid] using hle)

theorem restored_dis (h : t.Remembered) (hrestored : t.Restored (.dis id)) :
    t.Undoes (.dis id) := by
  have hpin := hrestored id
  have hoff : pwmEnabled (t.step (.dis id)).st.pwmStat id = false := by
    show pwmEnabled (t.st.pwmDis id).pwmStat id = false
    rw [(t.st.pwmDis_fields id).1, PwmState.pwmEnabled_clear (by omega)]
    simp
  have hafter : (t.step (.dis id)).st.regs.isOutput id =
      (t.st.origOutput id && t.st.regs.isOutput id) := by
    show (t.st.pwmDis id).regs.isOutput id = _
    rw [(t.st.pwmDis_pins id id).1]
    simp
  rw [hoff, hafter, h.pins] at hpin
  refine ⟨fun htwice => ?_, fun hever => ?_⟩
  · rw [h.again id htwice] at hpin
    have hsome : t.enables id ≠ 0 := by omega
    simpa [hsome, step] using hpin.symm
  · obtain ⟨hnone, horig⟩ := h.never id hever
    rw [h.pins, hnone]
    rw [horig] at hpin
    simpa [step] using hpin.symm

end Step

theorem step_restored_iff {t : PinRun} (h : t.Remembered) (op : PwmOp) :
    t.Restored op ↔ t.Undoes op := by
  cases op with
  | en id => exact ⟨fun _ => trivial, fun _ => (en_remembered h).restored⟩
  | dis id => exact ⟨restored_dis h, fun hundoes => (dis_remembered h hundoes).restored⟩

theorem step_remembered {t : PinRun} (h : t.Remembered) {op : PwmOp} (hundoes : t.Undoes op) :
    (t.step op).Remembered := by
  cases op with
  | en id => exact en_remembered h
  | dis id => exact dis_remembered h hundoes

end PinRun

open PinRun

/-- **Directions.** For all initial directions and all sequences of enables and disables:
the pin of an enabled PWM is an output and the pin of a disabled one has its direction
back, after every call, exactly if no disable comes after two enables of an input, or
before the first enable of an output. -/
theorem restored_iff (regs : Regs) (ops : List PwmOp) :
    EachStep PinRun.step Restored (PinRun.start regs) ops ↔
      EachStep PinRun.step Undoes (PinRun.start regs) ops :=
  eachStep_iff (fun (t : PinRun) op (h : t.Remembered) => step_restored_iff h op)
    (fun _ _ h hundoes => step_remembered h hundoes) (start_remembered regs)

/-- An input is enabled twice and disabled: it stays an output. -/
theorem enabled_twice :
    ¬ ∀ (regs : Regs) (ops : List PwmOp),
      EachStep PinRun.step Restored (PinRun.start regs) ops := by
  intro hall
  obtain ⟨-, -, hdis, -⟩ := hall ⟨fun _ => 0, 0, 0⟩ [.en 1, .en 1, .dis 1]
  exact absurd (hdis 1) (by decide)

end Bathos.Atmega
