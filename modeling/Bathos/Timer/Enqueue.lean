import Bathos.Timer.SysTimer

/-!
# Bathos — where a tick is inserted

The list of `sys_timer.c` read back as absolute deadlines: the sums of `when` from
the head on, modulo the range of `jiffies`. No history is assumed, any delta list
will do; deadlines that lie less than half the range apart are compared by their
distance from a common base.

Main result:

* `sysTimerEnqueueTick_deadlines` — the new deadline goes between the ones that
  are not later and the later ones, and nothing else changes.
-/

namespace Bathos.Timer

open Bathos.Lib

variable {w : Nat} {α : Type}

/-- `sys_timer_enqueue_tick`, at `time`: the result and the list. `room` says
whether the allocator has a buffer for the entry. -/
def sysTimerEnqueueTick (room : Bool) (time : Nat) (evtJiffies : BitVec w) (data : α)
    (scheduledTicks : List (ScheduledTick w α)) : Int × List (ScheduledTick w α) :=
  if room then (0, insertTick (newTick time evtJiffies data) scheduledTicks)
  else (-ENOMEM, scheduledTicks)

/-- The entries of a list whose predecessor is due at `prev`, with their absolute
deadlines. -/
def deadlinesFrom (prev : BitVec w) : List (ScheduledTick w α) → List (BitVec w × α)
  | [] => []
  | t :: rest => (prev + t.when, t.data) :: deadlinesFrom (prev + t.when) rest

/-- The absolute deadlines of a delta list. -/
def deadlines (list : List (ScheduledTick w α)) : List (BitVec w × α) := deadlinesFrom 0 list

/-- Less than half the range after `base`. -/
def InWindow (base deadline : BitVec w) : Prop := (deadline - base).toNat < half w

/-- `a` is later than `b`, seen from `base`. -/
def LaterFrom (base a b : BitVec w) : Prop := (b - base).toNat < (a - base).toNat

theorem timeBefore_window (hw : 0 < w) {base a b : BitVec w} (ha : InWindow base a)
    (hb : InWindow base b) : timeBefore a b = true ↔ LaterFrom base b a := by
  have hsub : a - b = (a - base) - (b - base) := by ring
  unfold LaterFrom
  rw [← timeBefore_small hw ha (le_of_lt hb)]
  unfold timeBefore timeAfter
  rw [hsub]

/-- The comparison of the loop is between differences to the same predecessor. -/
theorem timeBefore_prev (prev a b : BitVec w) :
    timeBefore a b = timeBefore (prev + a) (prev + b) := by
  unfold timeBefore timeAfter
  rw [add_sub_add_left_eq_sub]

/-- A step of less than half the range inside the window goes forward. -/
theorem window_step (hw : 0 < w) {base prev d : BitVec w} (hprev : InWindow base prev)
    (hd : d.toNat < half w) : (prev - base).toNat ≤ (prev + d - base).toNat := by
  have hpow := two_pow_eq hw
  unfold InWindow at hprev
  rw [show prev + d - base = (prev - base) + d by ring, BitVec.toNat_add,
    Nat.mod_eq_of_lt (by omega)]
  omega

/-- Behind an entry, deadlines are not earlier than it. -/
theorem deadlinesFrom_not_before (hw : 0 < w) {base : BitVec w} :
    ∀ {list : List (ScheduledTick w α)} {prev : BitVec w}, InWindow base prev →
      (∀ t ∈ list, t.when.toNat < half w) → (∀ p ∈ deadlinesFrom prev list, InWindow base p.1) →
      ∀ p ∈ deadlinesFrom prev list, (prev - base).toNat ≤ (p.1 - base).toNat := by
  intro list
  induction list with
  | nil =>
    intro prev _ _ _ p hp
    exact absurd hp (by simp [deadlinesFrom])
  | cons t rest ih =>
    intro prev hprev hsmall hwin p hp
    unfold deadlinesFrom at hwin hp
    have hstep := window_step hw hprev (hsmall t (by simp))
    rcases List.mem_cons.mp hp with rfl | hrest
    · exact hstep
    · exact hstep.trans (ih (hwin (prev + t.when, t.data) (by simp)) (fun u hu => hsmall u (by simp [hu]))
        (fun q hq => hwin q (by simp [hq])) p hrest)

/-- The walk of `sys_timer_enqueue_tick` from an entry whose predecessor is due at
`prev`, which is `0` for the head. By induction on the list: what the loop takes
off the new entry is what the deadlines gain, and an entry it goes in front of
gives up the new entry's own distance. -/
theorem insertTick_deadlinesFrom (hw : 0 < w) {base : BitVec w} :
    ∀ {list : List (ScheduledTick w α)} {t : ScheduledTick w α} {prev : BitVec w},
      InWindow base (prev + t.when) → (∀ p ∈ deadlinesFrom prev list, InWindow base p.1) →
      (∀ u ∈ list.tail, u.when.toNat < half w) →
      ∃ early late, deadlinesFrom prev list = early ++ late ∧
        deadlinesFrom prev (insertTick t list) = early ++ (prev + t.when, t.data) :: late ∧
        (∀ p ∈ early, ¬ LaterFrom base p.1 (prev + t.when)) ∧
        ∀ p ∈ late, LaterFrom base p.1 (prev + t.when) := by
  intro list
  induction list with
  | nil =>
    intro t prev _ _ _
    exact ⟨[], [], rfl, rfl, by simp, by simp⟩
  | cons ptr rest ih =>
    intro t prev hnew hwin hsmall
    have hptr : InWindow base (prev + ptr.when) :=
      hwin (prev + ptr.when, ptr.data) (by simp [deadlinesFrom])
    have hcmp := timeBefore_window hw hnew hptr
    rw [← timeBefore_prev] at hcmp
    have hrestWin : ∀ p ∈ deadlinesFrom (prev + ptr.when) rest, InWindow base p.1 :=
      fun p hp => hwin p (by simp [deadlinesFrom, hp])
    unfold insertTick
    by_cases hbefore : timeBefore t.when ptr.when = true
    · -- in front of `ptr`: it and all that follows is later
      rw [if_pos hbefore]
      have hlater := hcmp.mp hbefore
      refine ⟨[], deadlinesFrom prev (ptr :: rest), rfl, ?_, by simp, ?_⟩
      · have hkeep : prev + t.when + (ptr.when - t.when) = prev + ptr.when := by ring
        simp only [deadlinesFrom, List.nil_append, hkeep]
      · intro p hp
        rcases List.mem_cons.mp hp with rfl | hrest
        · exact hlater
        · exact lt_of_lt_of_le hlater
            (deadlinesFrom_not_before hw hptr hsmall hrestWin p hrest)
    · rw [if_neg hbefore]
      have hpass : prev + ptr.when + (t.when - ptr.when) = prev + t.when := by ring
      obtain ⟨early, late, hold, hins, hearly, hlate⟩ :=
        @ih { t with when := t.when - ptr.when } (prev + ptr.when)
          (by simp only; rw [hpass]; exact hnew) hrestWin
          (fun u hu => hsmall u (List.mem_of_mem_tail hu))
      simp only [hpass] at hins hearly hlate
      refine ⟨(prev + ptr.when, ptr.data) :: early, late, ?_, ?_, ?_, hlate⟩
      · simp only [deadlinesFrom, hold, List.cons_append]
      · simp only [deadlinesFrom, hins, List.cons_append]
      · intro p hp
        rcases List.mem_cons.mp hp with rfl | hrest
        · exact fun hlater => hbefore (hcmp.mpr hlater)
        · exact hearly p hrest

/-- **The tick goes to its place.** For every delta list and every value of
`jiffies`, with all deadlines less than half the range after some base and the
distances below half the range: the old deadlines stay, with their data, and the
new one stands between those that are not later and the later ones. Without
memory for the entry the list is unchanged. -/
theorem sysTimerEnqueueTick_deadlines (hw : 0 < w) (list : List (ScheduledTick w α)) (time : Nat)
    (evtJiffies : BitVec w) (data : α) {base : BitVec w}
    (hnew : InWindow base (jiffies w time + evtJiffies))
    (hwin : ∀ p ∈ deadlines list, InWindow base p.1)
    (hsmall : ∀ t ∈ list.tail, t.when.toNat < half w) :
    (∃ early late, deadlines list = early ++ late ∧
        deadlines (sysTimerEnqueueTick true time evtJiffies data list).2 =
          early ++ (jiffies w time + evtJiffies, data) :: late ∧
        (∀ p ∈ early, ¬ LaterFrom base p.1 (jiffies w time + evtJiffies)) ∧
        (∀ p ∈ late, LaterFrom base p.1 (jiffies w time + evtJiffies)) ∧
        (sysTimerEnqueueTick true time evtJiffies data list).1 = 0) ∧
      sysTimerEnqueueTick false time evtJiffies data list = (-ENOMEM, list) := by
  have hzero : (0 : BitVec w) + (newTick time evtJiffies data).when = jiffies w time + evtJiffies :=
    zero_add _
  rw [← hzero] at hnew
  obtain ⟨early, late, hold, hins, hearly, hlate⟩ := insertTick_deadlinesFrom hw hnew hwin hsmall
  rw [hzero] at hins
  simp only [hzero] at hearly hlate
  exact ⟨⟨early, late, hold, hins, hearly, hlate, rfl⟩, rfl⟩

-- Three entries around the wrap of `jiffies`; the new one ties with the second.
theorem sysTimerEnqueueTick_deadlines_wrap :
    ∃ early late : List (BitVec 32 × Nat),
      deadlines [⟨0xfffffff0, 1, 0⟩, ⟨0x18, 2, 0⟩, ⟨0x10, 3, 0⟩] = early ++ late ∧
        deadlines (sysTimerEnqueueTick true 0xfffffffe 10 9
            [⟨0xfffffff0, 1, 0⟩, ⟨0x18, 2, 0⟩, ⟨0x10, 3, 0⟩]).2 =
          early ++ (8, 9) :: late := by
  obtain ⟨⟨early, late, hold, hins, -⟩, -⟩ :=
    sysTimerEnqueueTick_deadlines (by decide) [⟨0xfffffff0, 1, 0⟩, ⟨0x18, 2, 0⟩, ⟨0x10, 3, 0⟩]
      0xfffffffe 10 9 (show InWindow 0xfffffff0 (jiffies 32 0xfffffffe + 10) by
        unfold InWindow; decide)
      (by unfold InWindow; decide) (by decide)
  exact ⟨early, late, hold, hins⟩

end Bathos.Timer
