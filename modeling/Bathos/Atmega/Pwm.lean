import Bathos.Lib.Run

/-!
# Bathos — the PWM outputs of the ATmega32U4

`arch-atmega/pwm.c`: six outputs on four timers. `t_ref` counts, for each timer,
the outputs that are enabled on it; the first one starts the timer and the last
one stops it.

A PWM has two numbers, its index in `pwms[]` and the number of its timer, and the
code takes one for the other twice. `check_init_timer` asks whether the PWM *with
the timer's number* is enabled, and `check_deinit_timer` counts down and compares
the entry of `t_ref` *with the PWM's index*.

Main results:

* `step_referenced_iff` — which enables and disables keep the counts, leave a
  timer in use alone, and stop it exactly when its last PWM is disabled;
* `referenced_iff` — the runs all of whose calls do.
-/

namespace Bathos.Atmega

open Bathos.Lib

-- ---------------------------------------------------------------------------
-- Registers
-- ---------------------------------------------------------------------------

/-- The 8-bit registers the file writes when it enables and disables outputs. -/
inductive Sfr where
  | TCCR0A | TCCR0B | TCCR1A | TCCR1B | TCCR3A | TCCR3B | TCCR4B | TCCR4C
  | DDRB | DDRC | DDRD
deriving DecidableEq, Repr

structure Regs where
  mem8 : Sfr → BitVec 8
  icr1 : BitVec 16
  icr3 : BitVec 16

/-- `reg |= bits`. -/
def Regs.setBits (r : Regs) (reg : Sfr) (bits : BitVec 8) : Regs :=
  { r with mem8 := Function.update r.mem8 reg (r.mem8 reg ||| bits) }

/-- `reg &= ~bits`. -/
def Regs.clearBits (r : Regs) (reg : Sfr) (bits : BitVec 8) : Regs :=
  { r with mem8 := Function.update r.mem8 reg (r.mem8 reg &&& ~~~bits) }

/-- `1 << n`. -/
def bit (n : Nat) : BitVec 8 := 1#8 <<< n

-- Bit numbers of the timer control registers.
def WGM00 : Nat := 0
def WGM01 : Nat := 1
def WGM02 : Nat := 3
def WGM11 : Nat := 1
def WGM12 : Nat := 3
def WGM13 : Nat := 4
def CS10 : Nat := 0
def CS11 : Nat := 1
def CS12 : Nat := 2
def CS40 : Nat := 0
def CS41 : Nat := 1
def CS43 : Nat := 3

/-- `init_timer0`. -/
def initTimer0 (r : Regs) : Regs :=
  (r.setBits .TCCR0A (bit WGM00 ||| bit WGM01)).setBits .TCCR0B (bit WGM02)

/-- `deinit_timer0`. -/
def deinitTimer0 (r : Regs) : Regs :=
  (r.clearBits .TCCR0A (bit WGM00 ||| bit WGM01)).clearBits .TCCR0B (bit WGM02)

/-- `init_timer1`. -/
def initTimer1 (r : Regs) : Regs :=
  { (r.setBits .TCCR1A (bit WGM11)).setBits .TCCR1B (bit WGM13 ||| bit WGM12 ||| bit CS11) with
    icr1 := 39999 }

/-- `deinit_timer1`. -/
def deinitTimer1 (r : Regs) : Regs :=
  { (r.clearBits .TCCR1A (bit WGM11)).clearBits .TCCR1B
      (bit WGM13 ||| bit WGM12 ||| (bit CS10 ||| bit CS11 ||| bit CS12)) with
    icr1 := 0 }

/-- `init_timer3`. -/
def initTimer3 (r : Regs) : Regs :=
  { (r.setBits .TCCR3A (bit WGM11)).setBits .TCCR3B (bit WGM13 ||| bit WGM12 ||| bit CS11) with
    icr3 := 39999 }

/-- `deinit_timer3`. -/
def deinitTimer3 (r : Regs) : Regs :=
  { (r.clearBits .TCCR3A (bit WGM11)).clearBits .TCCR3B
      (bit WGM13 ||| bit WGM12 ||| (bit CS10 ||| bit CS11 ||| bit CS12)) with
    icr3 := 0 }

/-- `init_timer4`. -/
def initTimer4 (r : Regs) : Regs := r.setBits .TCCR4B (bit CS43 ||| bit CS41 ||| bit CS40)

/-- `deinit_timer4`. -/
def deinitTimer4 (r : Regs) : Regs := r.clearBits .TCCR4B (bit CS43 ||| bit CS41 ||| bit CS40)

inductive Timer where
  | timer0 | timer1 | timer3 | timer4
deriving DecidableEq, Repr

def Timer.init : Timer → Regs → Regs
  | .timer0 => initTimer0
  | .timer1 => initTimer1
  | .timer3 => initTimer3
  | .timer4 => initTimer4

def Timer.deinit : Timer → Regs → Regs
  | .timer0 => deinitTimer0
  | .timer1 => deinitTimer1
  | .timer3 => deinitTimer3
  | .timer4 => deinitTimer4

-- ---------------------------------------------------------------------------
-- pwm.c
-- ---------------------------------------------------------------------------

/-- `struct pwm`, as far as enabling and disabling reads it. The two operations
are named by their timer. -/
structure Pwm where
  timId : Nat
  ctlReg : Sfr
  enMsk : BitVec 8
  dirReg : Sfr
  dirMsk : BitVec 8
  initTimer : Timer
  deinitTimer : Timer

-- Bit numbers of the compare outputs and of the pins.
def COM0B1 : Nat := 5
def COM1A1 : Nat := 7
def COM1B1 : Nat := 5
def COM1C1 : Nat := 3
def COM3A1 : Nat := 7
def COM4D1 : Nat := 3
def PWM4D : Nat := 0
def DDD0 : Nat := 0
def DDB5 : Nat := 5
def DDB6 : Nat := 6
def DDB7 : Nat := 7
def DDC6 : Nat := 6
def DDD7 : Nat := 7

/-- `pwms`: OC0B, OC1A, OC1B, OC1C, OC3A and OC4D. -/
def pwms : Fin 6 → Pwm := ![
  ⟨0, .TCCR0A, bit COM0B1, .DDRD, bit DDD0, .timer0, .timer0⟩,
  ⟨1, .TCCR1A, bit COM1A1, .DDRB, bit DDB5, .timer1, .timer1⟩,
  ⟨1, .TCCR1A, bit COM1B1, .DDRB, bit DDB6, .timer1, .timer1⟩,
  ⟨1, .TCCR1A, bit COM1C1, .DDRB, bit DDB7, .timer1, .timer1⟩,
  ⟨3, .TCCR3A, bit COM3A1, .DDRC, bit DDC6, .timer3, .timer3⟩,
  ⟨4, .TCCR4C, bit COM4D1 ||| bit PWM4D, .DDRD, bit DDD7, .timer4, .timer4⟩]

/-- `1 << idx`, as a mask of `pwm_stat`. -/
def statBit (idx : Nat) : BitVec 32 := 1#32 <<< idx

/-- `pwm_enabled`, on the value of `pwm_stat`. -/
def pwmEnabled (pwmStat : BitVec 32) (idx : Nat) : Bool := decide (pwmStat &&& statBit idx ≠ 0)

/-- The static data of `pwm.c`, the registers, and two records of the calls made:
the timers whose `init_timer` has run and whose `deinit_timer` has not run since,
and how often each `deinit_timer` has run. -/
structure PwmState where
  pwmStat : BitVec 32
  gpioOrigDir : BitVec 32
  tRef : Nat → BitVec 8
  regs : Regs
  running : Timer → Bool
  deinits : Timer → Nat

namespace PwmState

/-- Zeroed static memory; the registers are as they are. -/
def start (regs : Regs) : PwmState := ⟨0, 0, fun _ => 0, regs, fun _ => false, fun _ => 0⟩

def callInit (s : PwmState) (t : Timer) : PwmState :=
  { s with regs := t.init s.regs, running := Function.update s.running t true }

def callDeinit (s : PwmState) (t : Timer) : PwmState :=
  { s with
    regs := t.deinit s.regs
    running := Function.update s.running t false
    deinits := Function.update s.deinits t (s.deinits t + 1) }

/-- `check_init_timer`. -/
def checkInitTimer (s : PwmState) (pwm : Pwm) : PwmState :=
  if s.tRef pwm.timId = 0 then
    { s with tRef := Function.update s.tRef pwm.timId 1 }.callInit pwm.initTimer
  else if !pwmEnabled s.pwmStat pwm.timId then
    { s with tRef := Function.update s.tRef pwm.timId (s.tRef pwm.timId + 1) }
  else s

/-- `check_deinit_timer`. -/
def checkDeinitTimer (s : PwmState) (id : Nat) (pwm : Pwm) : PwmState :=
  let s :=
    if pwmEnabled s.pwmStat id then { s with tRef := Function.update s.tRef id (s.tRef id - 1) }
    else s
  if s.tRef id = 0 then s.callDeinit pwm.deinitTimer else s

/-- `pwm_en`. -/
def pwmEn (s : PwmState) (id : Fin 6) : PwmState :=
  let pwm := pwms id
  let s := s.checkInitTimer pwm
  let s := { s with regs := s.regs.setBits pwm.ctlReg pwm.enMsk }
  let s :=
    if s.regs.mem8 pwm.dirReg &&& pwm.dirMsk ≠ 0 then
      { s with gpioOrigDir := s.gpioOrigDir ||| statBit id }
    else
      { s with
        gpioOrigDir := s.gpioOrigDir &&& ~~~statBit id
        regs := s.regs.setBits pwm.dirReg pwm.dirMsk }
  { s with pwmStat := s.pwmStat ||| statBit id }

/-- `pwm_dis`. -/
def pwmDis (s : PwmState) (id : Fin 6) : PwmState :=
  let pwm := pwms id
  let s := s.checkDeinitTimer id pwm
  let s := { s with regs := s.regs.clearBits pwm.ctlReg pwm.enMsk }
  let s :=
    if s.gpioOrigDir &&& statBit id = 0 then
      { s with regs := s.regs.clearBits pwm.dirReg pwm.dirMsk }
    else s
  { s with pwmStat := s.pwmStat &&& ~~~statBit id }

end PwmState

inductive PwmOp where
  | en (id : Fin 6)
  | dis (id : Fin 6)
deriving DecidableEq, Repr

namespace PwmState

def step (s : PwmState) : PwmOp → PwmState
  | .en id => s.pwmEn id
  | .dis id => s.pwmDis id

-- ---------------------------------------------------------------------------
-- Statement
-- ---------------------------------------------------------------------------

/-- The enabled PWMs. -/
def enabledSet (s : PwmState) : Finset (Fin 6) :=
  Finset.univ.filter fun id => pwmEnabled s.pwmStat id = true

/-- The enabled PWMs of a timer. -/
def users (s : PwmState) (tim : Nat) : Finset (Fin 6) :=
  s.enabledSet.filter fun id => (pwms id).timId = tim

/-- The counts are right, and the timers in use are running. -/
structure Counted (s : PwmState) : Prop where
  tRef : ∀ tim, (s.tRef tim).toNat = (s.users tim).card
  running : ∀ id ∈ s.enabledSet, s.running (pwms id).initTimer = true

/-- A call leaves the counts right, and stops a timer exactly when it disables the
last PWM of it. -/
structure Referenced (s : PwmState) (op : PwmOp) : Prop where
  counted : (s.step op).Counted
  stopped : ∀ id, (s.step op).deinits (pwms id).deinitTimer ≠ s.deinits (pwms id).deinitTimer ↔
    s.users (pwms id).timId ≠ ∅ ∧ (s.step op).users (pwms id).timId = ∅

/-- An enable of the first PWM of a timer, or of one that is enabled if the PWM
with the timer's number is; a disable of an enabled PWM with its timer's number, or
of a disabled one whose own number is that of a timer in use. -/
def Matching (s : PwmState) : PwmOp → Prop
  | .en id => s.users (pwms id).timId = ∅ ∨
    pwmEnabled s.pwmStat (pwms id).timId = pwmEnabled s.pwmStat id
  | .dis id =>
    if pwmEnabled s.pwmStat id then (pwms id).timId = id else s.users id ≠ ∅

instance (s : PwmState) : ∀ op, Decidable (s.Matching op)
  | .en _ => inferInstanceAs (Decidable (_ ∨ _))
  | .dis _ => inferInstanceAs (Decidable (ite _ _ _))

-- ---------------------------------------------------------------------------
-- pwm_stat
-- ---------------------------------------------------------------------------

theorem pwmEnabled_eq {stat : BitVec 32} {idx : Nat} (h : idx < 32) :
    pwmEnabled stat idx = stat.getLsbD idx := by
  unfold pwmEnabled
  rw [show statBit idx = BitVec.twoPow 32 idx from rfl, BitVec.and_twoPow, Bool.eq_iff_iff,
    decide_eq_true_eq]
  split
  · rename_i hbit
    refine ⟨fun _ => hbit, fun _ hzero => ?_⟩
    have := congrArg (fun x => x.getLsbD idx) hzero
    simp [h] at this
  · rename_i hbit
    simp [hbit]

theorem statBit_getLsbD {i j : Nat} (hj : j < 32) : (statBit i).getLsbD j = decide (i = j) := by
  rw [show statBit i = BitVec.twoPow 32 i from rfl, BitVec.getLsbD_twoPow]
  simp only [Bool.and_eq_right_iff_imp, decide_eq_true_eq]
  omega

theorem pwmEnabled_set {stat : BitVec 32} {i j : Nat} (hj : j < 32) :
    pwmEnabled (stat ||| statBit i) j = (decide (i = j) || pwmEnabled stat j) := by
  rw [pwmEnabled_eq hj, pwmEnabled_eq hj, BitVec.getLsbD_or, statBit_getLsbD hj, Bool.or_comm]

theorem pwmEnabled_clear {stat : BitVec 32} {i j : Nat} (hj : j < 32) :
    pwmEnabled (stat &&& ~~~statBit i) j = (!decide (i = j) && pwmEnabled stat j) := by
  rw [pwmEnabled_eq hj, pwmEnabled_eq hj, BitVec.getLsbD_and, BitVec.getLsbD_not,
    statBit_getLsbD hj, Bool.and_comm]
  simp [hj]

theorem mem_enabledSet {s : PwmState} {id : Fin 6} :
    id ∈ s.enabledSet ↔ pwmEnabled s.pwmStat id = true := by
  simp [enabledSet]

theorem mem_users {s : PwmState} {tim : Nat} {id : Fin 6} :
    id ∈ s.users tim ↔ pwmEnabled s.pwmStat id = true ∧ (pwms id).timId = tim := by
  unfold users
  rw [Finset.mem_filter, mem_enabledSet]

-- ---------------------------------------------------------------------------
-- What the two functions change
-- ---------------------------------------------------------------------------

theorem checkInitTimer_pwmStat (s : PwmState) (pwm : Pwm) :
    (s.checkInitTimer pwm).pwmStat = s.pwmStat := by
  unfold checkInitTimer
  split
  · rfl
  split <;> rfl

theorem checkDeinitTimer_pwmStat (s : PwmState) (id : Nat) (pwm : Pwm) :
    (s.checkDeinitTimer id pwm).pwmStat = s.pwmStat := by
  unfold checkDeinitTimer callDeinit
  simp only
  split <;> split <;> rfl

/-- Past the timers, `pwm_en` sets a bit of `pwm_stat`. -/
theorem pwmEn_fields (s : PwmState) (id : Fin 6) :
    (s.pwmEn id).pwmStat = s.pwmStat ||| statBit id ∧
      (s.pwmEn id).tRef = (s.checkInitTimer (pwms id)).tRef ∧
      (s.pwmEn id).running = (s.checkInitTimer (pwms id)).running ∧
      (s.pwmEn id).deinits = (s.checkInitTimer (pwms id)).deinits := by
  have hstat := s.checkInitTimer_pwmStat (pwms id)
  unfold pwmEn
  simp only
  split
  · exact ⟨by rw [← hstat], rfl, rfl, rfl⟩
  · exact ⟨by rw [← hstat], rfl, rfl, rfl⟩

/-- Past the timers, `pwm_dis` clears it. -/
theorem pwmDis_fields (s : PwmState) (id : Fin 6) :
    (s.pwmDis id).pwmStat = s.pwmStat &&& ~~~statBit id ∧
      (s.pwmDis id).tRef = (s.checkDeinitTimer id (pwms id)).tRef ∧
      (s.pwmDis id).running = (s.checkDeinitTimer id (pwms id)).running ∧
      (s.pwmDis id).deinits = (s.checkDeinitTimer id (pwms id)).deinits := by
  have hstat := s.checkDeinitTimer_pwmStat id (pwms id)
  unfold pwmDis
  simp only
  split
  · exact ⟨by rw [← hstat], rfl, rfl, rfl⟩
  · exact ⟨by rw [← hstat], rfl, rfl, rfl⟩

theorem pwmEn_enabledSet (s : PwmState) (id : Fin 6) :
    (s.pwmEn id).enabledSet = insert id s.enabledSet := by
  ext j
  rw [mem_enabledSet, Finset.mem_insert, mem_enabledSet, (s.pwmEn_fields id).1,
    pwmEnabled_set (by omega), Bool.or_eq_true, decide_eq_true_eq, eq_comm, Fin.ext_iff]

theorem pwmDis_enabledSet (s : PwmState) (id : Fin 6) :
    (s.pwmDis id).enabledSet = s.enabledSet.erase id := by
  ext j
  rw [mem_enabledSet, Finset.mem_erase, mem_enabledSet, (s.pwmDis_fields id).1,
    pwmEnabled_clear (by omega), Bool.and_eq_true, Bool.not_eq_true', decide_eq_false_iff_not,
    ne_eq, Fin.ext_iff, eq_comm (a := (id : Nat))]

theorem pwmEn_users (s : PwmState) (id : Fin 6) (tim : Nat) :
    (s.pwmEn id).users tim =
      if (pwms id).timId = tim then insert id (s.users tim) else s.users tim := by
  unfold users
  rw [pwmEn_enabledSet, Finset.filter_insert]

theorem pwmDis_users (s : PwmState) (id : Fin 6) (tim : Nat) :
    (s.pwmDis id).users tim = (s.users tim).erase id := by
  unfold users
  rw [pwmDis_enabledSet, Finset.filter_erase]

-- The table: the timer of a PWM is that of its number.
theorem pwms_timer (i j : Fin 6) :
    (pwms i).initTimer = (pwms j).deinitTimer ↔ (pwms i).timId = (pwms j).timId := by
  revert i j
  decide

theorem pwms_deinitTimer (i j : Fin 6) :
    (pwms i).deinitTimer = (pwms j).deinitTimer ↔ (pwms i).timId = (pwms j).timId := by
  revert i j
  decide

-- ---------------------------------------------------------------------------
-- Enabling
-- ---------------------------------------------------------------------------

section Enable

variable {s : PwmState} {id : Fin 6}

theorem eq_zero_iff_toNat (x : BitVec 8) : x = 0 ↔ x.toNat = 0 := by
  rw [← BitVec.toNat_inj]
  rfl

theorem Counted.tRef_zero (h : s.Counted) {tim : Nat} : s.tRef tim = 0 ↔ s.users tim = ∅ := by
  rw [← Finset.card_eq_zero, ← h.tRef tim, eq_zero_iff_toNat]

theorem Counted.lt (h : s.Counted) (tim : Nat) : (s.tRef tim).toNat ≤ 6 := by
  rw [h.tRef tim]
  exact Finset.card_le_univ _

theorem checkInitTimer_first (h : s.users (pwms id).timId = ∅) (hc : s.Counted) :
    (s.checkInitTimer (pwms id)).tRef = Function.update s.tRef (pwms id).timId 1 ∧
      (s.checkInitTimer (pwms id)).running =
        Function.update s.running (pwms id).initTimer true := by
  unfold checkInitTimer
  rw [if_pos (hc.tRef_zero.mpr h)]
  exact ⟨rfl, rfl⟩

theorem checkInitTimer_shared (h : s.users (pwms id).timId ≠ ∅) (hc : s.Counted) :
    (s.checkInitTimer (pwms id)).tRef =
        (if pwmEnabled s.pwmStat (pwms id).timId then s.tRef
        else Function.update s.tRef (pwms id).timId (s.tRef (pwms id).timId + 1)) ∧
      (s.checkInitTimer (pwms id)).running = s.running := by
  unfold checkInitTimer
  rw [if_neg (fun hzero => h (hc.tRef_zero.mp hzero))]
  cases pwmEnabled s.pwmStat (pwms id).timId <;> exact ⟨rfl, rfl⟩

theorem checkInitTimer_deinits (s : PwmState) (pwm : Pwm) :
    (s.checkInitTimer pwm).deinits = s.deinits := by
  unfold checkInitTimer
  split
  · rfl
  split <;> rfl

/-- Enabling stops no timer, and takes the last PWM from none. -/
theorem pwmEn_stopped (s : PwmState) (id i : Fin 6) :
    (s.pwmEn id).deinits (pwms i).deinitTimer ≠ s.deinits (pwms i).deinitTimer ↔
      s.users (pwms i).timId ≠ ∅ ∧ (s.pwmEn id).users (pwms i).timId = ∅ := by
  rw [(s.pwmEn_fields id).2.2.2, checkInitTimer_deinits, pwmEn_users]
  refine ⟨fun h => absurd rfl h, fun ⟨hne, hempty⟩ => ?_⟩
  split at hempty
  · exact absurd hempty (Finset.insert_ne_empty _ _)
  · exact absurd hempty hne

/-- Enabling keeps the timers in use running. -/
theorem pwmEn_running (hc : s.Counted) :
    ∀ i ∈ (s.pwmEn id).enabledSet, (s.pwmEn id).running (pwms i).initTimer = true := by
  intro i hi
  rw [pwmEn_enabledSet, Finset.mem_insert] at hi
  rw [(s.pwmEn_fields id).2.2.1]
  by_cases hfirst : s.users (pwms id).timId = ∅
  · rw [(checkInitTimer_first hfirst hc).2]
    rcases hi with rfl | hold
    · exact Function.update_self _ _ _
    · by_cases htimer : (pwms i).initTimer = (pwms id).initTimer
      · rw [htimer]
        exact Function.update_self _ _ _
      · rw [Function.update_of_ne htimer]
        exact hc.running i hold
  · rw [(checkInitTimer_shared hfirst hc).2]
    rcases hi with rfl | hold
    · -- another PWM of the timer is enabled, so the timer runs
      obtain ⟨j, hj⟩ := Finset.nonempty_iff_ne_empty.mpr hfirst
      obtain ⟨hen, htim⟩ := mem_users.mp hj
      have hrun := hc.running j (mem_enabledSet.mpr hen)
      have hsame : (pwms i).initTimer = (pwms j).initTimer := by
        rw [(pwms_timer i i).mpr rfl, (pwms_timer j i).mpr htim]
      rw [hsame]
      exact hrun
    · exact hc.running i hold

/-- The count of an enable of the first PWM of a timer. -/
theorem pwmEn_tRef_first (hc : s.Counted) (hfirst : s.users (pwms id).timId = ∅) (tim : Nat) :
    ((s.pwmEn id).tRef tim).toNat = ((s.pwmEn id).users tim).card := by
  rw [(s.pwmEn_fields id).2.1, (checkInitTimer_first hfirst hc).1, pwmEn_users]
  by_cases htim : (pwms id).timId = tim
  · subst htim
    rw [Function.update_self, if_pos rfl, hfirst]
    rfl
  · rw [Function.update_of_ne (Ne.symm htim), if_neg htim]
    exact hc.tRef tim

/-- The count of a further enable on a timer. -/
theorem pwmEn_tRef_shared (hc : s.Counted) (hshared : s.users (pwms id).timId ≠ ∅) :
    (∀ tim, ((s.pwmEn id).tRef tim).toNat = ((s.pwmEn id).users tim).card) ↔
      pwmEnabled s.pwmStat (pwms id).timId = pwmEnabled s.pwmStat id := by
  have hcard := hc.tRef (pwms id).timId
  have hlt := hc.lt (pwms id).timId
  -- the PWM is among the users of its timer if it is enabled
  have hmem : id ∈ s.users (pwms id).timId ↔ pwmEnabled s.pwmStat id = true := by
    rw [mem_users, and_iff_left rfl]
  have hcount : ∀ tim, ((s.pwmEn id).tRef tim).toNat = ((s.pwmEn id).users tim).card ↔
      (pwms id).timId = tim →
        pwmEnabled s.pwmStat (pwms id).timId = pwmEnabled s.pwmStat id := by
    intro tim
    rw [(s.pwmEn_fields id).2.1, (checkInitTimer_shared hshared hc).1, pwmEn_users]
    by_cases htim : (pwms id).timId = tim
    · subst htim
      rw [if_pos rfl, imp_iff_right rfl, Finset.card_insert_eq_ite]
      cases hown : pwmEnabled s.pwmStat id <;> cases hnum : pwmEnabled s.pwmStat (pwms id).timId
      · simp [hmem, hown, BitVec.toNat_add, ← hcard]
        omega
      · simp [hmem, hown, ← hcard]
      · simp [hmem, hown, BitVec.toNat_add, ← hcard]
        omega
      · simp [hmem, hown, ← hcard]
    · rw [if_neg htim]
      refine ⟨fun _ h => absurd h htim, fun _ => ?_⟩
      rw [← hc.tRef tim]
      split
      · rfl
      · rw [Function.update_of_ne (Ne.symm htim)]
  exact ⟨fun h => (hcount _).mp (h _) rfl, fun h tim => (hcount tim).mpr fun _ => h⟩

theorem en_referenced_iff (hc : s.Counted) : s.Referenced (.en id) ↔ s.Matching (.en id) := by
  have hcounted : s.Referenced (.en id) ↔
      ∀ tim, ((s.pwmEn id).tRef tim).toNat = ((s.pwmEn id).users tim).card :=
    ⟨fun h => h.counted.tRef, fun h => ⟨⟨h, pwmEn_running hc⟩, s.pwmEn_stopped id⟩⟩
  rw [hcounted]
  unfold Matching
  simp only
  by_cases hfirst : s.users (pwms id).timId = ∅
  · exact ⟨fun _ => Or.inl hfirst, fun _ => pwmEn_tRef_first hc hfirst⟩
  · rw [pwmEn_tRef_shared hc hfirst, or_iff_right hfirst]

end Enable

-- ---------------------------------------------------------------------------
-- Disabling
-- ---------------------------------------------------------------------------

section Disable

variable {s : PwmState} {id : Fin 6}

theorem mem_users_self (h : pwmEnabled s.pwmStat id = true) : id ∈ s.users (pwms id).timId :=
  mem_users.mpr ⟨h, rfl⟩

/-- Disabling an enabled PWM counts down the entry with its own number, and stops
its timer when nothing is left there. -/
theorem checkDeinitTimer_enabled (h : pwmEnabled s.pwmStat id = true) :
    (s.checkDeinitTimer id (pwms id)).tRef = Function.update s.tRef id (s.tRef id - 1) ∧
      (s.checkDeinitTimer id (pwms id)).running =
        (if s.tRef id - 1 = 0 then Function.update s.running (pwms id).deinitTimer false
        else s.running) ∧
      (s.checkDeinitTimer id (pwms id)).deinits =
        (if s.tRef id - 1 = 0 then
          Function.update s.deinits (pwms id).deinitTimer (s.deinits (pwms id).deinitTimer + 1)
        else s.deinits) := by
  unfold checkDeinitTimer
  simp only
  rw [if_pos h]
  simp only [Function.update_self]
  split
  · exact ⟨rfl, rfl, rfl⟩
  · exact ⟨rfl, rfl, rfl⟩

/-- Disabling a PWM that is not enabled only looks at that entry. -/
theorem checkDeinitTimer_disabled (h : pwmEnabled s.pwmStat id = false) :
    (s.checkDeinitTimer id (pwms id)).tRef = s.tRef ∧
      (s.checkDeinitTimer id (pwms id)).running =
        (if s.tRef id = 0 then Function.update s.running (pwms id).deinitTimer false
        else s.running) ∧
      (s.checkDeinitTimer id (pwms id)).deinits =
        (if s.tRef id = 0 then
          Function.update s.deinits (pwms id).deinitTimer (s.deinits (pwms id).deinitTimer + 1)
        else s.deinits) := by
  unfold checkDeinitTimer
  simp only [h, Bool.false_eq_true, if_false]
  split
  · exact ⟨rfl, rfl, rfl⟩
  · exact ⟨rfl, rfl, rfl⟩

/-- A PWM with another number than its timer's spoils an entry of `t_ref`. -/
theorem pwmDis_mismatched (hc : s.Counted) (hen : pwmEnabled s.pwmStat id = true)
    (hne : (pwms id).timId ≠ id) : ¬ (s.pwmDis id).Counted := by
  intro h
  have hafter := h.tRef id
  have hlt := hc.lt id
  rw [(s.pwmDis_fields id).2.1, (checkDeinitTimer_enabled hen).1, Function.update_self,
    pwmDis_users, Finset.erase_eq_of_notMem (fun hmem => hne (mem_users.mp hmem).2),
    ← hc.tRef id, BitVec.toNat_sub] at hafter
  simp at hafter
  omega

/-- Counting down the timer's own entry. -/
theorem pwmDis_tRef (hc : s.Counted) (hen : pwmEnabled s.pwmStat id = true)
    (hnum : (pwms id).timId = id) (tim : Nat) :
    ((s.pwmDis id).tRef tim).toNat = ((s.pwmDis id).users tim).card := by
  rw [(s.pwmDis_fields id).2.1, (checkDeinitTimer_enabled hen).1, pwmDis_users]
  by_cases htim : tim = id
  · subst htim
    have hself : id ∈ s.users id := mem_users.mpr ⟨hen, hnum⟩
    have hpos := Finset.card_pos.mpr ⟨id, hself⟩
    have hlt := hc.lt id
    have hcard := hc.tRef id
    rw [Function.update_self, Finset.card_erase_of_mem hself, BitVec.toNat_sub, ← hcard]
    simp
    omega
  · rw [Function.update_of_ne htim,
      Finset.erase_eq_of_notMem fun hmem => htim ((mem_users.mp hmem).2.symm.trans hnum)]
    exact hc.tRef tim

/-- The entry is down to zero when the last PWM of the timer goes. -/
theorem pwmDis_last (hc : s.Counted) (hen : pwmEnabled s.pwmStat id = true)
    (hnum : (pwms id).timId = id) : s.tRef id - 1 = 0 ↔ (s.pwmDis id).users id = ∅ := by
  have h := pwmDis_tRef hc hen hnum id
  rw [(s.pwmDis_fields id).2.1, (checkDeinitTimer_enabled hen).1, Function.update_self] at h
  rw [← Finset.card_eq_zero, ← h, eq_zero_iff_toNat]

theorem pwmDis_matched (hc : s.Counted) (hen : pwmEnabled s.pwmStat id = true)
    (hnum : (pwms id).timId = id) : s.Referenced (.dis id) := by
  have hlast := pwmDis_last hc hen hnum
  obtain ⟨-, hrun, hdeinits⟩ := checkDeinitTimer_enabled hen
  refine ⟨⟨pwmDis_tRef hc hen hnum, ?_⟩, ?_⟩
  · intro i hi
    show (s.pwmDis id).running (pwms i).initTimer = true
    have hold : i ∈ s.enabledSet := by
      rw [show s.step (.dis id) = s.pwmDis id from rfl, pwmDis_enabledSet] at hi
      exact Finset.mem_of_mem_erase hi
    rw [(s.pwmDis_fields id).2.2.1, hrun]
    split
    · -- the PWMs left are on other timers
      rename_i hzero
      have hempty := hlast.mp hzero
      have hother : (pwms i).initTimer ≠ (pwms id).deinitTimer := by
        rw [ne_eq, pwms_timer, hnum]
        intro hsame
        have hmem : i ∈ (s.pwmDis id).users id := mem_users.mpr ⟨mem_enabledSet.mp hi, hsame⟩
        rw [hempty] at hmem
        exact absurd hmem (Finset.notMem_empty i)
      rw [Function.update_of_ne hother]
      exact hc.running i hold
    · exact hc.running i hold
  · intro i
    show (s.pwmDis id).deinits _ ≠ _ ↔ s.users _ ≠ ∅ ∧ (s.pwmDis id).users _ = ∅
    rw [(s.pwmDis_fields id).2.2.2, hdeinits]
    by_cases hsame : (pwms i).timId = (pwms id).timId
    · have htimer := (pwms_deinitTimer i id).mpr hsame
      have hused : s.users id ≠ ∅ := Finset.ne_empty_of_mem (hnum ▸ mem_users_self hen)
      rw [hsame, htimer, hnum, and_iff_right hused, ← hlast]
      split
      · rename_i hzero
        rw [Function.update_self]
        exact ⟨fun _ => hzero, fun _ => Nat.succ_ne_self _⟩
      · rename_i hzero
        exact ⟨fun h => absurd rfl h, fun h => absurd h hzero⟩
    · have htimer : (pwms i).deinitTimer ≠ (pwms id).deinitTimer :=
        fun h => hsame ((pwms_deinitTimer i id).mp h)
      have hkeep : (s.pwmDis id).users (pwms i).timId = s.users (pwms i).timId := by
        rw [pwmDis_users, Finset.erase_eq_of_notMem]
        exact fun hmem => hsame (mem_users.mp hmem).2.symm
      have hdeinit : (if s.tRef id - 1 = 0 then
          Function.update s.deinits (pwms id).deinitTimer (s.deinits (pwms id).deinitTimer + 1)
        else s.deinits) (pwms i).deinitTimer = s.deinits (pwms i).deinitTimer := by
        split
        · exact Function.update_of_ne htimer _ _
        · rfl
      rw [hdeinit, hkeep]
      exact ⟨fun h => absurd rfl h, fun h => absurd h.2 h.1⟩

theorem dis_referenced_iff (hc : s.Counted) : s.Referenced (.dis id) ↔ s.Matching (.dis id) := by
  unfold Matching
  simp only
  cases hen : pwmEnabled s.pwmStat id with
  | true =>
    rw [if_pos rfl]
    refine ⟨fun h => ?_, pwmDis_matched hc hen⟩
    by_contra hne
    exact pwmDis_mismatched hc hen hne h.counted
  | false =>
    rw [if_neg (by simp)]
    obtain ⟨htRef, hrun, hdeinits⟩ := checkDeinitTimer_disabled hen
    have husers : ∀ tim, (s.pwmDis id).users tim = s.users tim := by
      intro tim
      rw [pwmDis_users, Finset.erase_eq_of_notMem]
      intro hmem
      rw [(mem_users.mp hmem).1] at hen
      exact absurd hen (by simp)
    have hkeeps : ∀ i, ¬ (s.users (pwms i).timId ≠ ∅ ∧ (s.pwmDis id).users (pwms i).timId = ∅) := by
      intro i h
      rw [husers] at h
      exact h.1 h.2
    refine ⟨fun h hzero => ?_, fun hused => ?_⟩
    · -- `deinit_timer` runs although no PWM is disabled
      refine hkeeps id ((h.stopped id).mp ?_)
      show (s.pwmDis id).deinits _ ≠ _
      rw [(s.pwmDis_fields id).2.2.2, hdeinits, if_pos (hc.tRef_zero.mpr hzero),
        Function.update_self]
      exact Nat.succ_ne_self _
    · have hnot : s.tRef id ≠ 0 := fun hzero => hused (hc.tRef_zero.mp hzero)
      rw [if_neg hnot] at hrun hdeinits
      refine ⟨⟨fun tim => ?_, fun i hi => ?_⟩, fun i => ?_⟩
      · show ((s.pwmDis id).tRef tim).toNat = ((s.pwmDis id).users tim).card
        rw [(s.pwmDis_fields id).2.1, htRef, husers]
        exact hc.tRef tim
      · show (s.pwmDis id).running (pwms i).initTimer = true
        rw [(s.pwmDis_fields id).2.2.1, hrun]
        apply hc.running i
        rw [show s.step (.dis id) = s.pwmDis id from rfl, pwmDis_enabledSet] at hi
        exact Finset.mem_of_mem_erase hi
      · refine ⟨fun h => absurd ?_ h, fun h => absurd h (hkeeps i)⟩
        show (s.pwmDis id).deinits _ = _
        rw [(s.pwmDis_fields id).2.2.2, hdeinits]

end Disable

/-- **One call** keeps the counts and the timers right exactly when the two numbers
of the PWM do not get in the way of one another. -/
theorem step_referenced_iff {s : PwmState} (hc : s.Counted) (op : PwmOp) :
    s.Referenced op ↔ s.Matching op := by
  cases op with
  | en id => exact en_referenced_iff hc
  | dis id => exact dis_referenced_iff hc

theorem start_counted (regs : Regs) : (start regs).Counted := by
  have hnone : (start regs).enabledSet = ∅ := by
    apply Finset.eq_empty_of_forall_notMem
    intro i hi
    rw [mem_enabledSet] at hi
    simp [start, pwmEnabled] at hi
  refine ⟨fun tim => ?_, fun i hi => ?_⟩
  · unfold users
    rw [hnone]
    rfl
  · rw [hnone] at hi
    exact absurd hi (Finset.notMem_empty i)

end PwmState

open PwmState

/-- **Reference counts.** In every sequence of enables and disables, from any
register contents: the counts are right, timers in use keep running and a timer is
stopped exactly when its last PWM is disabled, in every call, if and only if every
call is one of the matching ones. -/
theorem referenced_iff (regs : Regs) (ops : List PwmOp) :
    EachStep PwmState.step Referenced (PwmState.start regs) ops ↔
      EachStep PwmState.step Matching (PwmState.start regs) ops :=
  eachStep_iff (fun (s : PwmState) op (hc : s.Counted) => step_referenced_iff hc op)
    (fun _ op hc hq => ((step_referenced_iff hc op).mpr hq).counted) (start_counted regs)

/-- Output 1B is enabled and disabled: the reference on timer 1 stays, and the entry
of index 2 wraps. -/
theorem shared_timer_miscounted :
    ¬ ∀ (regs : Regs) (ops : List PwmOp),
      EachStep PwmState.step Referenced (PwmState.start regs) ops := by
  intro hall
  obtain ⟨-, hdis, -⟩ := hall ⟨fun _ => 0, 0, 0⟩ [.en 2, .dis 2]
  exact absurd (hdis.counted.tRef 1) (by decide)

end Bathos.Atmega
