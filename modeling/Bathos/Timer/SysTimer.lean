import Mathlib.Data.BitVec
import Bathos.Include.Headers
import Bathos.Lib.Run

/-!
# Bathos — the system timer

`sys_timer.c`: `sys_timer_enqueue_tick` and `on_hw_timer_tick` on the list of
scheduled ticks. The first entry of the list holds an absolute time, each other
one the difference to the entry before it; all of them are `unsigned long` and
wrap, as `jiffies` does.

Time is a natural number here, and `jiffies` its remainder. An entry remembers
the deadline it was enqueued with. Removing the first entry makes the next one
absolute by adding `jiffies` to it, not the time of the entry removed: a tick
that comes late delays everything after the entries it finds due.

Main results:

* `never_early` — no entry fires before its deadline;
* `none_left_behind` — a tick leaves no due entry in the list, in every run in
  which each tick finds nothing due, nothing overdue, or one deadline only.
-/

namespace Bathos.Timer

open Bathos.Lib

variable {w : Nat} {α : Type}

-- ---------------------------------------------------------------------------
-- jiffies.h
-- ---------------------------------------------------------------------------

/-- The value of `jiffies` at a time. -/
def jiffies (w : Nat) (time : Nat) : BitVec w := BitVec.ofNat w time

/-- Half of the `unsigned long` range. -/
def half (w : Nat) : Nat := 2 ^ (w - 1)

theorem two_pow_eq (hw : 0 < w) : 2 ^ w = half w + half w :=
  (Nat.two_pow_pred_add_two_pow_pred hw).symm

theorem half_pos (w : Nat) : 0 < half w := Nat.two_pow_pos _

theorem toInt_neg_iff_half (hw : 0 < w) (x : BitVec w) : x.toInt < 0 ↔ half w ≤ x.toNat := by
  rw [BitVec.toInt_neg_iff, two_pow_eq hw]
  omega

/-- Subtracting the smaller of two times that lie less than the range apart. -/
theorem jiffies_sub (hw : 0 < w) {a b : Nat} (hle : b ≤ a) (hlt : a < b + (half w + half w)) :
    (jiffies w a - jiffies w b).toNat = a - b := by
  have hadd : jiffies w a = jiffies w (a - b) + jiffies w b := by
    unfold jiffies
    rw [← BitVec.ofNat_add, Nat.sub_add_cancel hle]
  rw [hadd, add_sub_cancel_right, jiffies, BitVec.toNat_ofNat, Nat.mod_eq_of_lt]
  rw [two_pow_eq hw]
  omega

/-- A difference that is not zero, and its negation. -/
theorem sub_toNat_swap (hw : 0 < w) {a b : BitVec w} (h : 0 < (a - b).toNat) :
    (b - a).toNat = half w + half w - (a - b).toNat := by
  have hne : a - b ≠ 0#w := fun hzero => by
    rw [hzero] at h
    simp at h
  rw [← neg_sub a b, BitVec.toNat_neg, BitVec.sub_toNat_mod_cancel hne, two_pow_eq hw]

/-- `time_before`, when the first time is not later by more than the range. -/
theorem timeBefore_iff (hw : 0 < w) {a b : BitVec w} :
    timeBefore a b = true ↔ half w ≤ (a - b).toNat := by
  unfold timeBefore timeAfter
  rw [decide_eq_true_eq]
  exact toInt_neg_iff_half hw _

theorem timeAfter_iff (hw : 0 < w) {a b : BitVec w} :
    timeAfter a b = true ↔ half w ≤ (b - a).toNat := timeBefore_iff hw

/-- A time that has not come yet, at most half the range ahead, is after. -/
theorem timeAfter_of_lt (hw : 0 < w) {s t : Nat} (hlt : t < s) (hle : s ≤ t + half w) :
    timeAfter (jiffies w s) (jiffies w t) = true := by
  have hpos := half_pos w
  have hsub := jiffies_sub hw hlt.le (by omega)
  rw [timeAfter_iff hw, sub_toNat_swap hw (by omega)]
  omega

/-- A time that has come, less than half the range ago, is not after. -/
theorem timeAfter_of_le (hw : 0 < w) {s t : Nat} (hle : s ≤ t) (hlt : t < s + half w) :
    timeAfter (jiffies w s) (jiffies w t) = false := by
  have hsub := jiffies_sub hw hle (by omega)
  rw [← Bool.not_eq_true, timeAfter_iff hw]
  omega

/-- Differences of at most half the range compare as numbers. -/
theorem timeBefore_small (hw : 0 < w) {a b : BitVec w} (ha : a.toNat < half w)
    (hb : b.toNat ≤ half w) : timeBefore a b = true ↔ a.toNat < b.toNat := by
  have hpow := two_pow_eq hw
  rw [timeBefore_iff hw]
  rcases lt_or_ge a.toNat b.toNat with hlt | hge
  · have hsub : (b - a).toNat = b.toNat - a.toNat := BitVec.toNat_sub_of_le (le_of_lt hlt)
    rw [sub_toNat_swap hw (by omega), hsub]
    omega
  · have hsub : (a - b).toNat = a.toNat - b.toNat := BitVec.toNat_sub_of_le hge
    rw [hsub]
    omega

-- ---------------------------------------------------------------------------
-- sys_timer.c
-- ---------------------------------------------------------------------------

/-- `struct scheduled_tick`, and the deadline it was enqueued with. -/
structure ScheduledTick (w : Nat) (α : Type) where
  when : BitVec w
  data : α
  deadline : Nat

/-- The loop of `sys_timer_enqueue_tick`. -/
def insertTick (t : ScheduledTick w α) : List (ScheduledTick w α) → List (ScheduledTick w α)
  | [] => [t]
  | ptr :: rest =>
    if timeBefore t.when ptr.when then t :: { ptr with when := ptr.when - t.when } :: rest
    else ptr :: insertTick { t with when := t.when - ptr.when } rest

/-- The entry `sys_timer_enqueue_tick` makes at `time`. -/
def newTick (time : Nat) (evtJiffies : BitVec w) (data : α) : ScheduledTick w α where
  when := jiffies w time + evtJiffies
  data := data
  deadline := time + evtJiffies.toNat

/-- What a tick leaves: the entries it triggered events for, with the time it
found them due, the list, and how often `jiffies` was read. -/
structure TickResult (w : Nat) (α : Type) where
  fired : List (ScheduledTick w α × Nat)
  rest : List (ScheduledTick w α)
  reads : Nat

/-- The loop of `on_hw_timer_tick`. `now j` is the time of the `j`th reading of
`jiffies`; `carry` is what the turn before has added to the first entry. -/
def tickLoop (now : Nat → Nat) (j : Nat) (carry : BitVec w) :
    List (ScheduledTick w α) → TickResult w α
  | [] => ⟨[], [], j⟩
  | t :: rest =>
    let next := { t with when := t.when + carry }
    if timeAfter next.when (jiffies w (now j)) then ⟨[], next :: rest, j + 1⟩
    else
      -- the last entry has no successor to make absolute
      let j' := if rest.isEmpty then j + 1 else j + 2
      let r := tickLoop now j' (jiffies w (now (j + 1))) rest
      ⟨(next, now j) :: r.fired, r.rest, r.reads⟩

/-- `on_hw_timer_tick`. -/
def onHwTimerTick (now : Nat → Nat) (list : List (ScheduledTick w α)) : TickResult w α :=
  tickLoop now 0 0 list

/-- The list, the time of the last reading of `jiffies`, and the entries that
fired so far. -/
structure SysTimer (w : Nat) (α : Type) where
  scheduledTicks : List (ScheduledTick w α)
  time : Nat
  fired : List (ScheduledTick w α × Nat)

/-- Calls. `room` says whether the allocator has a buffer for the entry. -/
inductive Op (w : Nat) (α : Type) where
  | enqueue (time : Nat) (evtJiffies : BitVec w) (data : α) (room : Bool)
  | tick (now : Nat → Nat)

namespace SysTimer

def start : SysTimer w α := ⟨[], 0, []⟩

def step (s : SysTimer w α) : Op w α → SysTimer w α
  | .enqueue time evtJiffies data room =>
    if room then
      { s with
        scheduledTicks := insertTick (newTick time evtJiffies data) s.scheduledTicks
        time := time }
    else s
  | .tick now =>
    let r := onHwTimerTick now s.scheduledTicks
    { scheduledTicks := r.rest
      time := if r.reads = 0 then s.time else now (r.reads - 1)
      fired := s.fired ++ r.fired }

/-- A deadline lies within half of the range of `jiffies`. -/
def Near (w : Nat) (time deadline : Nat) : Prop :=
  time < deadline + half w ∧ deadline < time + half w

instance (w time deadline : Nat) : Decidable (Near w time deadline) :=
  inferInstanceAs (Decidable (_ ∧ _))

/-- Time does not go back, and every deadline stays near. -/
def Valid (s : SysTimer w α) : Op w α → Prop
  | .enqueue time evtJiffies _ _ =>
    s.time ≤ time ∧ evtJiffies.toNat < half w ∧
      ∀ t ∈ s.scheduledTicks, Near w time t.deadline
  | .tick now =>
    s.time ≤ now 0 ∧ Monotone now ∧ ∀ t ∈ s.scheduledTicks, ∀ j, Near w (now j) t.deadline

-- ---------------------------------------------------------------------------
-- Never early
-- ---------------------------------------------------------------------------

/-- After an entry that is effectively due at `s`: the differences are at most
half the range, and no entry is effectively due before its deadline. -/
def Deltas (s : Nat) : List (ScheduledTick w α) → Prop
  | [] => True
  | t :: rest =>
    t.when.toNat ≤ half w ∧ t.deadline ≤ s + t.when.toNat ∧ Deltas (s + t.when.toNat) rest

/-- The first entry is effectively due at some time `s`, which is not further than
half the range away. -/
def Held (time : Nat) : List (ScheduledTick w α) → Prop
  | [] => True
  | t :: rest =>
    ∃ s, t.when = jiffies w s ∧ s ≤ time + half w ∧ t.deadline ≤ s ∧ Deltas s rest

/-- Effective times may only grow. -/
theorem Deltas.mono {list : List (ScheduledTick w α)} :
    ∀ {s s' : Nat}, s ≤ s' → Deltas s list → Deltas s' list := by
  induction list with
  | nil => exact fun _ _ => trivial
  | cons t rest ih =>
    intro s s' hle h
    exact ⟨h.1, h.2.1.trans (Nat.add_le_add_right hle _), ih (Nat.add_le_add_right hle _) h.2.2⟩

theorem Held.mono {list : List (ScheduledTick w α)} {time time' : Nat} (hle : time ≤ time')
    (h : Held time list) : Held time' list := by
  cases list with
  | nil => trivial
  | cons t rest =>
    obtain ⟨s, hwhen, hs, hrest⟩ := h
    exact ⟨s, hwhen, hs.trans (Nat.add_le_add_right hle _), hrest⟩

/-- An entry behind the first one: its difference is passed along the list, less
the differences of the entries it comes after. -/
theorem Deltas.insertTick (hw : 0 < w) {list : List (ScheduledTick w α)} :
    ∀ {t : ScheduledTick w α} {s : Nat}, Deltas s list → t.when.toNat < half w →
      t.deadline ≤ s + t.when.toNat → Deltas s (insertTick t list) := by
  induction list with
  | nil => exact fun _ hlt hdl => ⟨hlt.le, hdl, trivial⟩
  | cons ptr rest ih =>
    intro t s h hlt hdl
    obtain ⟨hsmall, hptr, hrest⟩ := h
    unfold Timer.insertTick
    by_cases hbefore : timeBefore t.when ptr.when = true
    · rw [if_pos hbefore]
      have hlt' := (timeBefore_small hw hlt hsmall).mp hbefore
      have hsub : (ptr.when - t.when).toNat = ptr.when.toNat - t.when.toNat :=
        BitVec.toNat_sub_of_le (le_of_lt hlt')
      have hsum : s + t.when.toNat + (ptr.when - t.when).toNat = s + ptr.when.toNat := by omega
      refine ⟨hlt.le, hdl, by simp only; omega, ?_, ?_⟩
      · simp only
        rw [hsum]
        exact hptr
      · simp only
        rw [hsum]
        exact hrest
    · rw [if_neg hbefore]
      rw [timeBefore_small hw hlt hsmall, not_lt] at hbefore
      have hsub : (t.when - ptr.when).toNat = t.when.toNat - ptr.when.toNat :=
        BitVec.toNat_sub_of_le hbefore
      refine ⟨hsmall, hptr, ih hrest ?_ ?_⟩
      · simp only
        omega
      · simp only
        omega

/-- Enqueuing. Before the first entry, that entry's difference is taken from its
effective time; behind it, from the deadline. -/
theorem Held.enqueue (hw : 0 < w) {time : Nat} {list : List (ScheduledTick w α)}
    (h : Held time list) {evtJiffies : BitVec w} (hevt : evtJiffies.toNat < half w)
    (hnear : ∀ t ∈ list, Near w time t.deadline) (data : α) :
    Held time (insertTick (newTick time evtJiffies data) list) := by
  obtain ⟨d, hd⟩ : ∃ d, d = time + evtJiffies.toNat := ⟨_, rfl⟩
  have hnew : (newTick time evtJiffies data).when = jiffies w d := by
    simp [newTick, jiffies, hd, BitVec.ofNat_add]
  have hdeadline : (newTick time evtJiffies data).deadline = d := hd.symm
  cases list with
  | nil => exact ⟨d, hnew, by omega, hdeadline.le, trivial⟩
  | cons ptr rest =>
    obtain ⟨s, hwhen, hs, hdl, hrest⟩ := h
    obtain ⟨hnear1, -⟩ := hnear ptr List.mem_cons_self
    unfold Timer.insertTick
    by_cases hbefore : timeBefore (newTick time evtJiffies data).when ptr.when = true
    · rw [if_pos hbefore]
      rw [hnew, hwhen, timeBefore_iff hw] at hbefore
      have hpos := half_pos w
      -- what the old first entry is due at now
      have hbound : (jiffies w s - jiffies w d).toNat ≤ half w := by
        rw [sub_toNat_swap hw (by omega)]
        omega
      have hle : s ≤ d + (jiffies w s - jiffies w d).toNat := by
        rcases le_or_gt d s with hds | hsd
        · rw [jiffies_sub hw hds (by omega)]
          omega
        · omega
      refine ⟨d, hnew, by omega, hdeadline.le, ?_, ?_, ?_⟩
      · simp only
        rw [hwhen, hnew]
        exact hbound
      · simp only
        rw [hwhen, hnew]
        exact hdl.trans hle
      · simp only
        rw [hwhen, hnew]
        exact hrest.mono hle
    · rw [if_neg hbefore]
      rw [hnew, hwhen, timeBefore_iff hw, not_le] at hbefore
      refine ⟨s, hwhen, hs, hdl, hrest.insertTick hw ?_ ?_⟩
      · simp only
        rw [hnew, hwhen]
        exact hbefore
      · simp only
        rw [hnew, hwhen, hdeadline]
        rcases le_or_gt s d with hsd | hds
        · rw [jiffies_sub hw hsd (by omega)]
          omega
        · omega

/-- The loop of a tick, from any turn on: what it has fired was due, and what it
leaves is held. -/
theorem tickLoop_held (hw : 0 < w) {now : Nat → Nat} (hmono : Monotone now) :
    ∀ {list : List (ScheduledTick w α)} {j time : Nat} {carry : BitVec w}, time ≤ now j →
      (∀ t rest, list = t :: rest → Held time ({ t with when := t.when + carry } :: rest)) →
      (∀ e ∈ (tickLoop now j carry list).fired, e.1.deadline ≤ e.2) ∧
        j ≤ (tickLoop now j carry list).reads ∧
        (list ≠ [] → j < (tickLoop now j carry list).reads) ∧
        Held (now ((tickLoop now j carry list).reads - 1)) (tickLoop now j carry list).rest := by
  intro list
  induction list with
  | nil =>
    intro j time carry hj _
    exact ⟨fun e he => (by cases he), le_rfl, fun h => absurd rfl h, trivial⟩
  | cons t rest ih =>
    intro j time carry hj h
    have hhead := h t rest rfl
    unfold tickLoop
    simp only
    by_cases hafter : timeAfter (t.when + carry) (jiffies w (now j)) = true
    · rw [if_pos hafter]
      exact ⟨fun e he => (by cases he), Nat.le_succ j, fun _ => Nat.lt_succ_self j, hhead.mono hj⟩
    · rw [if_neg hafter]
      obtain ⟨s, hwhen, hs, hdl, hrest⟩ := hhead
      -- not after: the effective time has come
      have hwhen' : t.when + carry = jiffies w s := hwhen
      have hdue : s ≤ now j := by
        by_contra hlt
        rw [hwhen'] at hafter
        exact hafter (timeAfter_of_lt hw (not_le.mp hlt) (by omega))
      have hj' : now j ≤ now (j + 1) := hmono (Nat.le_succ j)
      have hnext : ∀ u rest', rest = u :: rest' →
          Held (now (j + 1)) ({ u with when := u.when + jiffies w (now (j + 1)) } :: rest') := by
        intro u rest' hu
        subst hu
        obtain ⟨hsmall, hudl, hrest'⟩ := hrest
        refine ⟨u.when.toNat + now (j + 1), ?_, by omega, by simp only; omega,
          hrest'.mono (by omega)⟩
        unfold jiffies
        rw [BitVec.ofNat_add, BitVec.ofNat_toNat, BitVec.setWidth_eq]
      obtain ⟨j', hj'eq⟩ : ∃ j', j' = if rest.isEmpty then j + 1 else j + 2 := ⟨_, rfl⟩
      have hlt : j + 1 ≤ j' := by
        rw [hj'eq]
        split <;> omega
      obtain ⟨hfired, hreads, -, hheld⟩ := ih (hmono hlt) hnext
      rw [← hj'eq]
      refine ⟨fun e he => ?_, ?_, fun _ => hlt.trans hreads, hheld⟩
      · rcases List.mem_cons.mp he with rfl | he
        · exact hdl.trans hdue
        · exact hfired e he
      · exact (Nat.le_of_succ_le hlt).trans hreads

/-- Nothing fired early so far, and nothing will. -/
def NeverEarly (s : SysTimer w α) : Prop :=
  Held s.time s.scheduledTicks ∧ ∀ e ∈ s.fired, e.1.deadline ≤ e.2

theorem step_neverEarly (hw : 0 < w) {s : SysTimer w α} (h : s.NeverEarly) {op : Op w α}
    (hop : s.Valid op) : (s.step op).NeverEarly := by
  cases op with
  | enqueue time evtJiffies data room =>
    obtain ⟨htime, hevt, hnear⟩ := hop
    cases room with
    | false => exact h
    | true => exact ⟨(h.1.mono htime).enqueue hw hevt hnear data, h.2⟩
  | tick now =>
    obtain ⟨htime, hmono, -⟩ := hop
    have hstart : ∀ t rest, s.scheduledTicks = t :: rest →
        Held s.time ({ t with when := t.when + 0 } :: rest) := by
      intro t rest hlist
      have hheld := h.1
      rw [hlist] at hheld
      simpa using hheld
    obtain ⟨hfired, -, hreads, hheld⟩ := tickLoop_held hw hmono htime hstart
    refine ⟨?_, fun e he => ?_⟩
    · show Held (if (onHwTimerTick now s.scheduledTicks).reads = 0 then s.time
        else now ((onHwTimerTick now s.scheduledTicks).reads - 1))
        (onHwTimerTick now s.scheduledTicks).rest
      by_cases hnil : s.scheduledTicks = []
      · rw [hnil]
        trivial
      · have hread : (onHwTimerTick now s.scheduledTicks).reads ≠ 0 := Nat.ne_of_gt (hreads hnil)
        rw [if_neg hread]
        exact hheld
    · rcases List.mem_append.mp he with hold | hnew
      · exact h.2 e hold
      · exact hfired e hnew

/-- **Entries never fire early.** -/
theorem never_early (hw : 0 < w) {ops : List (Op w α)}
    (hrun : EachStep step Valid (start : SysTimer w α) ops) :
    ∀ e ∈ (runFrom step (start : SysTimer w α) ops).fired, e.1.deadline ≤ e.2 := by
  have hstart : (start : SysTimer w α).NeverEarly := ⟨trivial, fun e he => (by cases he)⟩
  exact (EachStep.inv (fun s _ (h : s.NeverEarly) hop => step_neverEarly hw h hop) hstart hrun).2

/-- Two entries enqueued just before `jiffies` wraps, the first of them found due
after it has. -/
def wrapRun : List (Op 32 Unit) :=
  [.enqueue 4294967290 10 () true, .enqueue 4294967291 3 () true, .tick fun _ => 4294967293,
    .tick fun _ => 4294967296, .tick fun _ => 4294967303]

theorem never_early_wrapRun :
    (runFrom step (start : SysTimer 32 Unit) wrapRun).fired.length = 2 ∧
      ∀ e ∈ (runFrom step (start : SysTimer 32 Unit) wrapRun).fired, e.1.deadline ≤ e.2 := by
  refine ⟨by decide +kernel, never_early (by decide) ⟨⟨by decide, by decide, fun _ h => (by cases h)⟩,
    ⟨by decide, by decide, by decide +kernel⟩, ⟨by decide, monotone_const, fun t ht _ => ?_⟩,
    ⟨by decide +kernel, monotone_const, fun t ht _ => ?_⟩,
    ⟨by decide +kernel, monotone_const, fun t ht _ => ?_⟩, trivial⟩⟩
  all_goals
    beta_reduce
    revert t
    decide +kernel

-- ---------------------------------------------------------------------------
-- None left behind
-- ---------------------------------------------------------------------------

/-- After a tick during which `jiffies` did not change, no entry in the list is
due. -/
def NoneLeft (s : SysTimer w α) (op : Op w α) : Prop :=
  ∀ now n, op = .tick now → (∀ j, now j = n) → ∀ t ∈ (s.step op).scheduledTicks, n < t.deadline

/-- The condition. A tick finds nothing due, nothing overdue, or one deadline only;
a new deadline is less than half the range after those in the list. -/
def Timely (s : SysTimer w α) : Op w α → Prop
  | .enqueue time evtJiffies _ _ =>
    ∀ t ∈ s.scheduledTicks, time + evtJiffies.toNat < t.deadline + half w
  | .tick now =>
    (∀ t ∈ s.scheduledTicks, now 0 < t.deadline) ∨
      (∀ t ∈ s.scheduledTicks, ∀ j, now j ≤ t.deadline) ∨
      ∀ t ∈ s.scheduledTicks, ∀ u ∈ s.scheduledTicks, t.deadline = u.deadline

/-- After an entry with deadline `d`: the differences are those of the deadlines. -/
def ExactFrom (d : Nat) : List (ScheduledTick w α) → Prop
  | [] => True
  | t :: rest =>
    t.when.toNat ≤ half w ∧ t.deadline = d + t.when.toNat ∧ ExactFrom t.deadline rest

/-- The list says of each entry when it was to be due. -/
def Exact : List (ScheduledTick w α) → Prop
  | [] => True
  | t :: rest => t.when = jiffies w t.deadline ∧ ExactFrom t.deadline rest

/-- Deadlines ascend. -/
theorem ExactFrom.le {list : List (ScheduledTick w α)} :
    ∀ {d : Nat}, ExactFrom d list → ∀ t ∈ list, d ≤ t.deadline := by
  induction list with
  | nil => exact fun _ _ h => (by cases h)
  | cons u rest ih =>
    intro d h t ht
    have hu : d ≤ u.deadline := by
      rw [h.2.1]
      exact Nat.le_add_right _ _
    rcases List.mem_cons.mp ht with rfl | ht
    · exact hu
    · exact hu.trans (ih h.2.2 t ht)

theorem ExactFrom.insertTick (hw : 0 < w) {list : List (ScheduledTick w α)} :
    ∀ {t : ScheduledTick w α} {d : Nat}, ExactFrom d list → t.when.toNat < half w →
      t.deadline = d + t.when.toNat → ExactFrom d (insertTick t list) := by
  induction list with
  | nil => exact fun _ hlt hdl => ⟨hlt.le, hdl, trivial⟩
  | cons ptr rest ih =>
    intro t d h hlt hdl
    obtain ⟨hsmall, hptr, hrest⟩ := h
    unfold Timer.insertTick
    by_cases hbefore : timeBefore t.when ptr.when = true
    · rw [if_pos hbefore]
      have hlt' := (timeBefore_small hw hlt hsmall).mp hbefore
      have hsub : (ptr.when - t.when).toNat = ptr.when.toNat - t.when.toNat :=
        BitVec.toNat_sub_of_le (le_of_lt hlt')
      exact ⟨hlt.le, hdl, by simp only; omega, by simp only; omega, hrest⟩
    · rw [if_neg hbefore]
      rw [timeBefore_small hw hlt hsmall, not_lt] at hbefore
      have hsub : (t.when - ptr.when).toNat = t.when.toNat - ptr.when.toNat :=
        BitVec.toNat_sub_of_le hbefore
      exact ⟨hsmall, hptr, ih hrest (by simp only; omega) (by simp only; omega)⟩

theorem Exact.enqueue (hw : 0 < w) {time : Nat} {list : List (ScheduledTick w α)} (h : Exact list)
    {evtJiffies : BitVec w} (hnear : ∀ t ∈ list, Near w time t.deadline)
    (hclose : ∀ t ∈ list, time + evtJiffies.toNat < t.deadline + half w) (data : α) :
    Exact (insertTick (newTick time evtJiffies data) list) := by
  obtain ⟨d, hd⟩ : ∃ d, d = time + evtJiffies.toNat := ⟨_, rfl⟩
  have hnew : (newTick time evtJiffies data).when = jiffies w d := by
    simp [newTick, jiffies, hd, BitVec.ofNat_add]
  have hdeadline : (newTick time evtJiffies data).deadline = d := hd.symm
  cases list with
  | nil => exact ⟨by rw [hnew, hdeadline], trivial⟩
  | cons ptr rest =>
    obtain ⟨hwhen, hrest⟩ := h
    obtain ⟨-, hnear⟩ := hnear ptr List.mem_cons_self
    have hclose := hclose ptr List.mem_cons_self
    have hsplit : timeBefore (jiffies w d) (jiffies w ptr.deadline) = true ↔ d < ptr.deadline := by
      rcases lt_or_ge d ptr.deadline with hlt | hge
      · exact iff_of_true (timeAfter_of_lt hw hlt (by omega)) hlt
      · refine iff_of_false ?_ (not_lt.mpr hge)
        rw [Bool.not_eq_true]
        exact timeAfter_of_le hw hge (by omega)
    unfold Timer.insertTick
    rw [hnew, hwhen]
    by_cases hbefore : timeBefore (jiffies w d) (jiffies w ptr.deadline) = true
    · rw [if_pos hbefore]
      have hlt := hsplit.mp hbefore
      have hsub := jiffies_sub hw hlt.le (by omega)
      refine ⟨by rw [hnew, hdeadline], ?_, ?_, hrest⟩
      · simp only
        omega
      · simp only
        omega
    · rw [if_neg hbefore]
      rw [hsplit, not_lt] at hbefore
      have hsub := jiffies_sub hw hbefore (by omega)
      refine ⟨hwhen, hrest.insertTick hw ?_ ?_⟩
      · simp only
        omega
      · simp only
        omega

/-- A tick that finds nothing overdue: what fires is due at the very time it is
found, so the time added is the time of the entry removed. -/
theorem tickLoop_exact (hw : 0 < w) {now : Nat → Nat} (hmono : Monotone now) :
    ∀ {list : List (ScheduledTick w α)} {j : Nat} {carry : BitVec w},
      (∀ t ∈ list, ∀ i, now i ≤ t.deadline ∧ t.deadline < now i + half w) →
      (∀ t rest, list = t :: rest →
        t.when + carry = jiffies w t.deadline ∧ ExactFrom t.deadline rest) →
      Exact (tickLoop now j carry list).rest ∧
        ∀ n, (∀ i, now i = n) → ∀ t ∈ (tickLoop now j carry list).rest, n < t.deadline := by
  intro list
  induction list with
  | nil => exact fun _ _ => ⟨trivial, fun _ _ _ h => (by cases h)⟩
  | cons t rest ih =>
    intro j carry hdue hlist
    obtain ⟨hwhen, hrest⟩ := hlist t rest rfl
    have hhead := hdue t List.mem_cons_self
    unfold tickLoop
    simp only
    by_cases hafter : timeAfter (t.when + carry) (jiffies w (now j)) = true
    · rw [if_pos hafter]
      refine ⟨⟨hwhen, hrest⟩, fun n hn u hu => ?_⟩
      have hlt : now j < t.deadline := by
        refine lt_of_le_of_ne (hhead j).1 fun heq => ?_
        rw [hwhen, timeAfter_of_le hw heq.ge (by have := half_pos w; omega)] at hafter
        cases hafter
      rw [hn j] at hlt
      rcases List.mem_cons.mp hu with rfl | hu
      · exact hlt
      · exact hlt.trans_le (hrest.le u hu)
    · rw [if_neg hafter]
      have hnow : now j = t.deadline := by
        refine le_antisymm (hhead j).1 (not_lt.mp fun hlt => hafter ?_)
        rw [hwhen]
        exact timeAfter_of_lt hw hlt (hhead j).2.le
      have hnow' : now (j + 1) = t.deadline :=
        le_antisymm (hhead (j + 1)).1 (hnow ▸ hmono (Nat.le_succ j))
      refine ih (fun u hu => hdue u (List.mem_cons_of_mem _ hu)) fun u rest' hu => ?_
      subst hu
      obtain ⟨-, hdl, hrest'⟩ := hrest
      refine ⟨?_, hrest'⟩
      rw [hnow', hdl]
      unfold jiffies
      rw [Nat.add_comm, BitVec.ofNat_add, BitVec.ofNat_toNat, BitVec.setWidth_eq]

/-- A tick that finds all entries with one deadline, and that one due: each next
entry becomes due right away. -/
theorem tickLoop_all (hw : 0 < w) {now : Nat → Nat} (hmono : Monotone now) {d : Nat}
    (hnear : ∀ i, now i < d + half w) :
    ∀ {list : List (ScheduledTick w α)} {j s : Nat} {carry : BitVec w}, d ≤ s → s ≤ now j →
      (∀ t ∈ list, t.deadline = d) →
      (∀ t rest, list = t :: rest → t.when + carry = jiffies w s ∧ ExactFrom d rest) →
      (tickLoop now j carry list).rest = [] := by
  intro list
  induction list with
  | nil => exact fun _ _ _ _ => rfl
  | cons t rest ih =>
    intro j s carry hds hsj hsame hlist
    obtain ⟨hwhen, hrest⟩ := hlist t rest rfl
    have hnot : timeAfter (t.when + carry) (jiffies w (now j)) = false := by
      rw [hwhen]
      exact timeAfter_of_le hw hsj ((hnear j).trans_le (Nat.add_le_add_right hds _))
    unfold tickLoop
    simp only [hnot, Bool.false_eq_true, if_false]
    have hj : now j ≤ now (j + 1) := hmono (Nat.le_succ j)
    have hj' : now (j + 1) ≤ now (if rest.isEmpty then j + 1 else j + 2) :=
      hmono (by split <;> omega)
    refine ih (s := now (j + 1)) (by omega) hj'
      (fun u hu => hsame u (List.mem_cons_of_mem _ hu)) fun u rest' hu => ?_
    subst hu
    have hu : u.deadline = d := hsame u (List.mem_cons_of_mem _ List.mem_cons_self)
    obtain ⟨-, hdl, hrest'⟩ := hrest
    have hzero : u.when = 0 := by
      apply BitVec.eq_of_toNat_eq
      simp only [BitVec.ofNat_eq_ofNat, BitVec.toNat_ofNat, Nat.zero_mod]
      omega
    rw [hu] at hrest'
    exact ⟨by rw [hzero, zero_add], hrest'⟩

/-- A tick that finds nothing due. -/
theorem tickLoop_none (hw : 0 < w) {now : Nat → Nat} {list : List (ScheduledTick w α)}
    (h : Exact list) (hnear : ∀ t ∈ list, t.deadline < now 0 + half w)
    (hdue : ∀ t ∈ list, now 0 < t.deadline) : (onHwTimerTick now list).rest = list := by
  cases list with
  | nil => rfl
  | cons t rest =>
    have hafter : timeAfter t.when (jiffies w (now 0)) = true := by
      rw [h.1]
      exact timeAfter_of_lt hw (hdue t List.mem_cons_self) (hnear t List.mem_cons_self).le
    simp [onHwTimerTick, tickLoop, hafter]

theorem step_exact (hw : 0 < w) {s : SysTimer w α} (h : Exact s.scheduledTicks) {op : Op w α}
    (hop : s.Valid op ∧ s.Timely op) : Exact (s.step op).scheduledTicks ∧ s.NoneLeft op := by
  obtain ⟨hvalid, htimely⟩ := hop
  cases op with
  | enqueue time evtJiffies data room =>
    obtain ⟨-, -, hnear⟩ := hvalid
    refine ⟨?_, fun now n hop => (by cases hop)⟩
    cases room with
    | false => exact h
    | true => exact h.enqueue hw hnear htimely data
  | tick now =>
    obtain ⟨-, hmono, hnear⟩ := hvalid
    suffices hrest : Exact (onHwTimerTick now s.scheduledTicks).rest ∧
        ∀ n, (∀ j, now j = n) → ∀ t ∈ (onHwTimerTick now s.scheduledTicks).rest, n < t.deadline by
      refine ⟨hrest.1, fun now' n heq hn => ?_⟩
      cases heq
      exact hrest.2 n hn
    have hnone : (∀ t ∈ s.scheduledTicks, now 0 < t.deadline) →
        Exact (onHwTimerTick now s.scheduledTicks).rest ∧
          ∀ n, (∀ j, now j = n) → ∀ t ∈ (onHwTimerTick now s.scheduledTicks).rest,
            n < t.deadline := by
      intro hdue
      rw [tickLoop_none hw h (fun t ht => (hnear t ht 0).2) hdue]
      exact ⟨h, fun n hn t ht => hn 0 ▸ hdue t ht⟩
    rcases htimely with hdue | hexact | hsame
    · exact hnone hdue
    · refine tickLoop_exact hw hmono (fun t ht i => ⟨hexact t ht i, (hnear t ht i).2⟩) ?_
      intro t rest hlist
      rw [hlist] at h
      exact ⟨by rw [add_zero, h.1], h.2⟩
    · cases hlist : s.scheduledTicks with
      | nil => exact ⟨trivial, fun _ _ _ ht => (by cases ht)⟩
      | cons t rest =>
        rw [hlist] at h hsame hnear
        by_cases hdue : t.deadline ≤ now 0
        · -- all entries fire
          have hall : (onHwTimerTick now (t :: rest)).rest = [] := by
            refine tickLoop_all hw hmono (fun i => (hnear t List.mem_cons_self i).1) le_rfl hdue
              (fun u hu => hsame u hu t List.mem_cons_self) ?_
            intro u rest' hu
            cases hu
            exact ⟨by rw [add_zero, h.1], h.2⟩
          rw [hall]
          exact ⟨trivial, fun _ _ _ ht => (by cases ht)⟩
        · rw [← hlist]
          refine hnone fun u hu => ?_
          rw [hlist] at hu
          rw [hsame u hu t List.mem_cons_self]
          exact not_le.mp hdue

/-- **No due entry is left behind** in a run of timely ticks. -/
theorem none_left_behind (hw : 0 < w) {ops : List (Op w α)}
    (hrun : EachStep step (fun s op => s.Valid op ∧ s.Timely op) (start : SysTimer w α) ops) :
    EachStep step NoneLeft (start : SysTimer w α) ops :=
  EachStep.mono
    (fun (s : SysTimer w α) _ (h : Exact s.scheduledTicks) hop => (step_exact hw h hop).1)
    (fun _ _ h hop => (step_exact hw h hop).2) trivial hrun

/-- The two entries of `wrapRun`, each found at its very deadline. -/
theorem none_left_behind_wrap :
    EachStep step NoneLeft (start : SysTimer 32 Unit)
      [.enqueue 4294967290 10 () true, .enqueue 4294967291 3 () true, .tick fun _ => 4294967294,
        .tick fun _ => 4294967300] := by
  refine none_left_behind (by decide) ⟨⟨⟨by decide, by decide, fun _ h => (by cases h)⟩,
      fun _ h => (by cases h)⟩, ⟨⟨by decide, by decide, by decide +kernel⟩,
      by unfold Timely; decide +kernel⟩,
    ⟨⟨by decide, monotone_const, fun t ht _ => ?_⟩, Or.inr (Or.inl fun t ht _ => ?_)⟩,
    ⟨⟨by decide +kernel, monotone_const, fun t ht _ => ?_⟩, Or.inr (Or.inl fun t ht _ => ?_)⟩,
    trivial⟩
  all_goals
    beta_reduce
    revert t
    decide +kernel

/-- Two entries due at 1 and 2, and the first tick at 5: the second one is left. -/
theorem due_entry_left_behind :
    ¬ EachStep step NoneLeft (start : SysTimer 32 Unit)
      [.enqueue 0 1 () true, .enqueue 0 2 () true, .tick fun _ => 5] := by
  rintro ⟨-, -, hleft, -⟩
  have hdue := hleft _ 5 rfl (fun _ => rfl)
  revert hdue
  decide +kernel

end SysTimer

end Bathos.Timer
