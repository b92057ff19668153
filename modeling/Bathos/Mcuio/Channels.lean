import Bathos.Include.Headers
import Bathos.Lib.Bytes

/-!
# Bathos — the PWM and ADC channels over mcuio

`mcuio/mcuio_pwm_func.c` and `mcuio/mcuio_adc_func.c`: the control ranges give
each channel 0x40 bytes, 63 channels whatever the machine has. Neither file
compares the channel with the length of its table, and `pwm_ctrl_wrdw` sets
`-EINVAL` for an operation the channel does not have and then calls it.

What happens is a list of the table entries read and of the operations called. A
read behind the table and a call through `NULL` are where the behaviour stops
being defined: the status is `none` there.

Main result: `accesses_confined_iff` — the accesses that stay within the tables
and their operations.
-/

namespace Bathos.Mcuio

open Bathos.Lib

variable {σ : Type}

-- ---------------------------------------------------------------------------
-- Tables
-- ---------------------------------------------------------------------------

/-- `struct pwm_ops`, on the state of the hardware; the optional operations are
`NULL` on some channels. -/
structure PwmOps (σ : Type) where
  enable : σ → Int × σ
  disable : σ → σ
  getPeriod : σ → BitVec 32
  getDuty : σ → BitVec 32
  setPeriod : Option (BitVec 32 → σ → Int × σ)
  setDuty : Option (BitVec 32 → σ → Int × σ)
  getPolarity : Option (σ → Int)
  setPolarity : Option (BitVec 32 → σ → Int × σ)

/-- `struct pwm`, without what its own operations use. -/
structure Pwm (σ : Type) where
  label : Vector UInt8 4
  timResNs : BitVec 32
  timMaxMul : BitVec 32
  ops : PwmOps σ

/-- `struct adc`. -/
structure Adc where
  flags : UInt8
  hwIdx : UInt8
  vrefUv : BitVec 32

inductive ChannelCall where
  | enable | disable | getPeriod | getDuty | setPeriod | setDuty | getPolarity | setPolarity
  | adcSample
deriving DecidableEq, Repr

/-- An access: the table entries it reads, the operations it calls, the state after
it, the dword it gives and its status. -/
structure ChannelAccess (σ : Type) where
  reads : List Nat
  calls : List ChannelCall
  env : σ
  out : Option (BitVec 32)
  status : Option Int

/-- `offset / 0x40`. -/
def channelIdx (offset : Nat) : Nat := offset / 0x40

/-- `offset % 0x40`. -/
def channelReg (offset : Nat) : Nat := offset % 0x40

/-- Four bytes as they lie in memory after `flip4`. -/
def flipped (l : List UInt8) : BitVec 32 := ofBytes 32 l.reverse

-- ---------------------------------------------------------------------------
-- PWM
-- ---------------------------------------------------------------------------

/-- The dword of a read register and the operations called for it; `none` is
`-EINVAL`. -/
def Pwm.read (pwm : Pwm σ) (enabled : Bool) (env : σ) (reg : Nat) :
    Option (BitVec 32 × List ChannelCall) :=
  match reg with
  | 0x00 => some (flipped pwm.label.toList, [])
  | 0x04 =>
    let out := pwm.timResNs &&& 0x00ffffff
    let out := if pwm.ops.setPeriod.isSome then out ||| 1 <<< 24 else out
    let out := if pwm.ops.setDuty.isSome then out ||| 1 <<< 25 else out
    some (out, [])
  | 0x08 => some (pwm.timMaxMul, [])
  | 0x0c =>
    let out : BitVec 32 := if enabled then 0x1 else 0x0
    match pwm.ops.getPolarity with
    | none => some (out, [])
    | some get => some (if get env ≠ 0 then out ||| 1 <<< 1 else out, [.getPolarity])
  | 0x10 => some (pwm.ops.getPeriod env, [.getPeriod])
  | 0x14 => some (pwm.ops.getDuty env, [.getDuty])
  | _ => none

/-- `pwm_ctrl_rddw`; `get_pwm` copies the entry before anything else. -/
def pwmCtrlRddw (pwms : List (Pwm σ)) (pwmEnabled : σ → Nat → Bool) (env : σ) (offset : Nat) :
    ChannelAccess σ :=
  match pwms[channelIdx offset]? with
  | none => ⟨[channelIdx offset], [], env, none, none⟩
  | some pwm =>
    match pwm.read (pwmEnabled env (channelIdx offset)) env (channelReg offset) with
    | none => ⟨[channelIdx offset], [], env, none, some (-EINVAL)⟩
    | some (out, calls) => ⟨[channelIdx offset], calls, env, some out, some 0⟩

/-- `set_period` or `set_duty`: the missing operation is noted and called all the
same. -/
def callSetter (idx : Nat) (call : ChannelCall) (set : Option (BitVec 32 → σ → Int × σ))
    (inp : BitVec 32) (env : σ) : ChannelAccess σ :=
  match set with
  | none => ⟨[idx], [call], env, none, none⟩
  | some f => ⟨[idx], [call], (f inp env).2, none, some (f inp env).1⟩

/-- The status register: bit 0 enables the output, bit 1 is its polarity. -/
def Pwm.control (pwm : Pwm σ) (idx : Nat) (inp : BitVec 32) (env : σ) : ChannelAccess σ :=
  let (call, ret, env) :=
    if inp &&& 0x1 ≠ 0 then
      let (ret, env) := pwm.ops.enable env
      (ChannelCall.enable, ret, env)
    else (.disable, 0, pwm.ops.disable env)
  match pwm.ops.setPolarity with
  | none => ⟨[idx], [call], env, none, some ret⟩
  | some f => ⟨[idx], [call, .setPolarity], (f (inp >>> 1 &&& 0x1) env).2, none, some ret⟩

/-- The `switch` of `pwm_ctrl_wrdw`. -/
def Pwm.write (pwm : Pwm σ) (idx reg : Nat) (inp : BitVec 32) (env : σ) : ChannelAccess σ :=
  match reg with
  | 0x0c => pwm.control idx inp env
  | 0x10 => callSetter idx .setPeriod pwm.ops.setPeriod inp env
  | 0x14 => callSetter idx .setDuty pwm.ops.setDuty inp env
  | _ => ⟨[idx], [], env, none, some (-EINVAL)⟩

/-- `pwm_ctrl_wrdw`. -/
def pwmCtrlWrdw (pwms : List (Pwm σ)) (env : σ) (offset : Nat) (inp : BitVec 32) :
    ChannelAccess σ :=
  match pwms[channelIdx offset]? with
  | none => ⟨[channelIdx offset], [], env, none, none⟩
  | some pwm => pwm.write (channelIdx offset) (channelReg offset) inp env

-- ---------------------------------------------------------------------------
-- ADC
-- ---------------------------------------------------------------------------

/-- The identifier of a channel: `A` and its index in decimal. -/
def adcId (idx : Nat) : List UInt8 :=
  [0x41, if idx ≥ 10 then 0x30 + UInt8.ofNat (idx / 10) else 0x30 + UInt8.ofNat idx,
    if idx ≥ 10 then 0x30 + UInt8.ofNat (idx % 10) else 0, 0]

/-- The registers that read the entry, through the pointer where it has not been
copied. -/
def adcRegReads (enabled : Bool) (reg : Nat) : Bool :=
  reg = 0x04 ∨ reg = 0x08 ∨ (reg = 0x0c ∧ enabled)

/-- The part of `adc_ctrl_rddw` that has its entry at hand. -/
def Adc.read (adc : Adc) (reads : List Nat) (enabled : Bool) (sample : Adc → σ → BitVec 32 × σ)
    (env : σ) (idx reg : Nat) : ChannelAccess σ :=
  match reg with
  | 0x00 => ⟨reads, [], env, some (flipped (adcId idx)), some 0⟩
  | 0x04 => ⟨reads, [], env, some (adc.flags.toBitVec.setWidth 32), some 0⟩
  | 0x08 => ⟨reads, [], env, some adc.vrefUv, some 0⟩
  | 0x0c =>
    if enabled then ⟨reads, [.adcSample], (sample adc env).2, some (sample adc env).1, some 0⟩
    else ⟨reads, [], env, none, some (-EACCES)⟩
  | _ => ⟨reads, [], env, none, some (-EINVAL)⟩

/-- `adc_ctrl_rddw`: a Harvard machine copies the entry, another one takes its
address and reads what the register asks for. -/
def adcCtrlRddw (harvard : Bool) (adcs : List Adc) (adcEnabled : σ → Bool)
    (adcSample : Adc → σ → BitVec 32 × σ) (env : σ) (offset : Nat) : ChannelAccess σ :=
  let idx := channelIdx offset
  let reg := channelReg offset
  let reads := if harvard || adcRegReads (adcEnabled env) reg then [idx] else []
  match adcs[idx]?, reads with
  | some adc, reads => adc.read reads (adcEnabled env) adcSample env idx reg
  -- nothing is read through the pointer: any entry does
  | none, [] => (Adc.mk 0 0 0).read [] (adcEnabled env) adcSample env idx reg
  | none, reads => ⟨reads, [], env, none, none⟩

-- ---------------------------------------------------------------------------
-- Statement
-- ---------------------------------------------------------------------------

/-- The operation a write addresses is one the channel does not have. -/
def SetterAbsent (pwms : List (Pwm σ)) (offset : Nat) : Prop :=
  ∃ pwm, pwms[channelIdx offset]? = some pwm ∧
    ((channelReg offset = 0x10 ∧ pwm.ops.setPeriod = none) ∨
      (channelReg offset = 0x14 ∧ pwm.ops.setDuty = none))

/-- An access to a table of `num` channels: it reads the table below `num`, refuses
every other index, and refuses an absent operation without calling anything. -/
structure ChannelAccess.Confined (a : ChannelAccess σ) (num idx : Nat) (absent : Prop) : Prop where
  reads : ∀ i ∈ a.reads, i < num
  range : num ≤ idx → a.status = some (-EINVAL)
  absent : absent → a.status = some (-EINVAL) ∧ a.calls = []

variable {pwms : List (Pwm σ)} {env : σ} {offset : Nat}

/-- An entry of the table makes its index a valid one. -/
theorem confined_of_entry {α : Type} {l : List α} {a : ChannelAccess σ} {idx : Nat} {x : α}
    (hx : l[idx]? = some x) (hreads : ∀ i ∈ a.reads, i = idx) :
    a.Confined l.length idx False := by
  have hlt : idx < l.length := (List.getElem?_eq_some_iff.mp hx).1
  exact ⟨fun i hi => hreads i hi ▸ hlt, fun h => absurd hlt (Nat.not_lt.mpr h), False.elim⟩

theorem pwmCtrlRddw_confined_iff (pwms : List (Pwm σ)) (pwmEnabled : σ → Nat → Bool) (env : σ)
    (offset : Nat) :
    (pwmCtrlRddw pwms pwmEnabled env offset).Confined pwms.length (channelIdx offset) False ↔
      channelIdx offset < pwms.length := by
  cases hpwm : pwms[channelIdx offset]? with
  | none =>
    have hacc : pwmCtrlRddw pwms pwmEnabled env offset = ⟨[channelIdx offset], [], env, none, none⟩ := by
      unfold pwmCtrlRddw
      rw [hpwm]
    rw [hacc]
    exact ⟨fun h => h.reads _ List.mem_cons_self,
      fun h => absurd h (Nat.not_lt.mpr (List.getElem?_eq_none_iff.mp hpwm))⟩
  | some pwm =>
    refine ⟨fun _ => (List.getElem?_eq_some_iff.mp hpwm).1, fun _ => ?_⟩
    refine confined_of_entry hpwm ?_
    unfold pwmCtrlRddw
    simp only [hpwm]
    split <;> simp

/-- Every write reads the entry of its channel. -/
theorem Pwm.write_reads (pwm : Pwm σ) (idx reg : Nat) (inp : BitVec 32) (env : σ) :
    (pwm.write idx reg inp env).reads = [idx] := by
  unfold Pwm.write
  split
  · unfold Pwm.control
    cases pwm.ops.setPolarity <;> rfl
  · unfold callSetter
    cases pwm.ops.setPeriod <;> rfl
  · unfold callSetter
    cases pwm.ops.setDuty <;> rfl
  · rfl

theorem pwmCtrlWrdw_reads (pwms : List (Pwm σ)) (env : σ) (offset : Nat) (inp : BitVec 32) :
    (pwmCtrlWrdw pwms env offset inp).reads = [channelIdx offset] := by
  unfold pwmCtrlWrdw
  split
  · rfl
  · exact Pwm.write_reads _ _ _ _ _

/-- An absent operation is called. -/
theorem pwmCtrlWrdw_absent {inp : BitVec 32} (h : SetterAbsent pwms offset) :
    (pwmCtrlWrdw pwms env offset inp).calls ≠ [] := by
  obtain ⟨pwm, hpwm, hreg⟩ := h
  have hwrite : pwmCtrlWrdw pwms env offset inp =
      pwm.write (channelIdx offset) (channelReg offset) inp env := by
    unfold pwmCtrlWrdw
    rw [hpwm]
  rw [hwrite]
  unfold Pwm.write callSetter
  rcases hreg with ⟨hreg, habs⟩ | ⟨hreg, habs⟩
  · rw [hreg, habs]
    exact List.cons_ne_nil _ _
  · rw [hreg, habs]
    exact List.cons_ne_nil _ _

theorem pwmCtrlWrdw_confined_iff (pwms : List (Pwm σ)) (env : σ) (offset : Nat) (inp : BitVec 32) :
    (pwmCtrlWrdw pwms env offset inp).Confined pwms.length (channelIdx offset)
        (SetterAbsent pwms offset) ↔
      channelIdx offset < pwms.length ∧ ¬SetterAbsent pwms offset := by
  constructor
  · intro h
    refine ⟨h.reads _ ?_, fun habs => pwmCtrlWrdw_absent habs (h.absent habs).2⟩
    rw [pwmCtrlWrdw_reads]
    exact List.mem_cons_self
  · rintro ⟨hlt, habs⟩
    refine ⟨?_, fun h => absurd hlt (Nat.not_lt.mpr h), fun h => absurd h habs⟩
    intro i hi
    rw [pwmCtrlWrdw_reads] at hi
    rwa [List.mem_singleton.mp hi]

theorem adcRead_reads (adc : Adc) (reads : List Nat) (enabled : Bool)
    (sample : Adc → σ → BitVec 32 × σ) (env : σ) (idx reg : Nat) :
    (adc.read reads enabled sample env idx reg).reads = reads := by
  unfold Adc.read
  split
  · rfl
  · rfl
  · rfl
  · split <;> rfl
  · rfl

/-- A register that reads nothing from a missing entry refuses the access exactly
when it is none of the four. -/
theorem adcRead_status_iff {adc : Adc} {enabled : Bool} {sample : Adc → σ → BitVec 32 × σ}
    {idx reg : Nat} (h : adcRegReads enabled reg = false) :
    (adc.read [] enabled sample env idx reg).status = some (-EINVAL) ↔
      reg ∉ [0x00, 0x04, 0x08, 0x0c] := by
  unfold adcRegReads at h
  unfold Adc.read
  split
  · exact ⟨fun h => absurd (Option.some.inj h) (by decide), fun h => absurd (by simp) h⟩
  · simp at h
  · simp at h
  · cases enabled with
    | true => simp at h
    | false => exact ⟨fun h => absurd (Option.some.inj h) (by decide), fun h => absurd (by simp) h⟩
  · rename_i h0 h4 h8 hc
    refine iff_of_true rfl ?_
    simp only [List.mem_cons, List.not_mem_nil, or_false, not_or]
    exact ⟨h0, h4, h8, hc⟩

theorem adcCtrlRddw_confined_iff (harvard : Bool) (adcs : List Adc) (adcEnabled : σ → Bool)
    (adcSample : Adc → σ → BitVec 32 × σ) (env : σ) (offset : Nat) :
    (adcCtrlRddw harvard adcs adcEnabled adcSample env offset).Confined adcs.length
        (channelIdx offset) False ↔
      channelIdx offset < adcs.length ∨
        (harvard = false ∧ channelReg offset ∉ [0x00, 0x04, 0x08, 0x0c]) := by
  cases hadc : adcs[channelIdx offset]? with
  | some adc =>
    have hlt : channelIdx offset < adcs.length := (List.getElem?_eq_some_iff.mp hadc).1
    refine ⟨fun _ => .inl hlt, fun _ => confined_of_entry hadc ?_⟩
    unfold adcCtrlRddw
    simp only [hadc, adcRead_reads]
    split <;> simp
  | none =>
    have hge : adcs.length ≤ channelIdx offset := List.getElem?_eq_none_iff.mp hadc
    rw [or_iff_right (Nat.not_lt.mpr hge)]
    by_cases hreads : (harvard || adcRegReads (adcEnabled env) (channelReg offset)) = true
    · -- the entry is read
      have hacc : adcCtrlRddw harvard adcs adcEnabled adcSample env offset =
          ⟨[channelIdx offset], [], env, none, none⟩ := by
        unfold adcCtrlRddw
        simp [hadc, hreads]
      rw [hacc]
      constructor
      · exact fun h => absurd (h.reads _ List.mem_cons_self) (Nat.not_lt.mpr hge)
      · rintro ⟨rfl, hreg⟩
        unfold adcRegReads at hreads
        simp only [List.mem_cons, List.not_mem_nil, or_false, not_or] at hreg
        simp [hreg.2.1, hreg.2.2.1, hreg.2.2.2] at hreads
    · rw [Bool.not_eq_true, Bool.or_eq_false_iff] at hreads
      have hacc : adcCtrlRddw harvard adcs adcEnabled adcSample env offset =
          (Adc.mk 0 0 0).read [] (adcEnabled env) adcSample env (channelIdx offset)
            (channelReg offset) := by
        unfold adcCtrlRddw
        simp [hadc, hreads.1, hreads.2]
      rw [hacc]
      constructor
      · exact fun h => ⟨hreads.1, (adcRead_status_iff hreads.2).mp (h.range hge)⟩
      · intro h
        refine ⟨?_, fun _ => (adcRead_status_iff hreads.2).mpr h.2, False.elim⟩
        rw [adcRead_reads]
        exact fun i hi => absurd hi List.not_mem_nil

/-- **Channels.** On tables of any length, with any operations present: a PWM access
is confined exactly when its channel exists, and has the operation it writes to; an
ADC access also when it addresses no register, on a machine that reads the table
through the pointer. -/
theorem accesses_confined_iff (pwms : List (Pwm σ)) (pwmEnabled : σ → Nat → Bool) (harvard : Bool)
    (adcs : List Adc) (adcEnabled : σ → Bool) (adcSample : Adc → σ → BitVec 32 × σ) (env : σ)
    (offset : Nat) (inp : BitVec 32) :
    ((pwmCtrlRddw pwms pwmEnabled env offset).Confined pwms.length (channelIdx offset) False ↔
        channelIdx offset < pwms.length) ∧
      ((pwmCtrlWrdw pwms env offset inp).Confined pwms.length (channelIdx offset)
          (SetterAbsent pwms offset) ↔
        channelIdx offset < pwms.length ∧ ¬SetterAbsent pwms offset) ∧
      ((adcCtrlRddw harvard adcs adcEnabled adcSample env offset).Confined adcs.length
          (channelIdx offset) False ↔
        channelIdx offset < adcs.length ∨
          (harvard = false ∧ channelReg offset ∉ [0x00, 0x04, 0x08, 0x0c])) :=
  ⟨pwmCtrlRddw_confined_iff _ _ _ _, pwmCtrlWrdw_confined_iff _ _ _ _,
    adcCtrlRddw_confined_iff _ _ _ _ _ _⟩

/-- The output OC0B: its period is that of the system timer and cannot be set. -/
def oc0b : Pwm Unit where
  label := #v[0x44, 0x33, 0, 0]
  timResNs := 15625
  timMaxMul := 256
  ops :=
    { enable := fun s => (0, s), disable := id, getPeriod := fun _ => 256, getDuty := fun _ => 1,
      setPeriod := none, setDuty := some fun _ s => (0, s), getPolarity := some fun _ => 0,
      setPolarity := some fun _ s => (0, s) }

/-- The period of OC0B is written. -/
theorem absent_period_called :
    ¬∀ (pwms : List (Pwm Unit)) (env : Unit) (offset : Nat), offset < 0xfc0 →
      ∀ inp : BitVec 32, (pwmCtrlWrdw pwms env offset inp).Confined pwms.length
        (channelIdx offset) (SetterAbsent pwms offset) := by
  intro h
  have hconf := h [oc0b] () 0x10 (by decide) 100
  exact absurd (hconf.absent ⟨oc0b, rfl, .inl ⟨rfl, rfl⟩⟩).2 (List.cons_ne_nil _ _)

end Bathos.Mcuio
