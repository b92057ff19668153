import Bathos.Drivers.Dev

/-!
# Bathos — pushing to all pipes of a device

`bathos_dev_push_chars` offers the same bytes to each pipe of a device and
returns their number, or -1. A caller that reads the value as "all of them" or
"none of them" is right in four cases only: nothing was pushed, every ring has
room for all the bytes, the first pipe is the full one, or the pipes before the
full one had bytes that go exactly once around and were there already.

Main result: `push_all_or_nothing_iff`.
-/

namespace Bathos.Drivers

open Bathos.Lib

variable {d : DevData} {src : List UInt8} {ds : List DevData}

-- ---------------------------------------------------------------------------
-- What a push changes
-- ---------------------------------------------------------------------------

/-- Length of the copy up to the end of the buffer. -/
def firstLen (d : DevData) (n : Nat) : Nat := min n (circSpaceToEnd d.head d.tail d.size)

/-- Length of the copy of the rest. -/
def secondLen (d : DevData) (n : Nat) : Nat := min (n - firstLen d n) d.space

/-- The two copies go exactly once around the ring and find their bytes there. -/
def Rewrites (d : DevData) (src : List UInt8) : Prop :=
  firstLen d src.length + secondLen d src.length = d.size ∧
    (∀ i < firstLen d src.length, src[i]? = some (d.buf (d.head + i))) ∧
    ∀ i < secondLen d src.length, src[firstLen d src.length + i]? =
      some (d.buf ((d.head + firstLen d src.length) % d.size + i))

theorem firstLen_bounds (h : d.Ring) (hspace : d.space ≠ 0) (hsrc : src ≠ []) :
    0 < firstLen d src.length ∧ firstLen d src.length ≤ d.space ∧
      d.head + firstLen d src.length ≤ d.size ∧ firstLen d src.length ≤ src.length := by
  have hlen : 0 < src.length := List.length_pos_iff.mpr hsrc
  have hhead := h.head_lt
  unfold firstLen
  rw [h.spaceToEnd_eq]
  omega

/-- A push of something into a ring that is not full is two copies. -/
theorem pipePushChars_copies (h : d.Ring) (hspace : d.space ≠ 0) (hsrc : src ≠ []) :
    (pipePushChars d src).ret = (firstLen d src.length + secondLen d src.length : Nat) ∧
      (pipePushChars d src).data = (d.copyIn (src.take (firstLen d src.length))).copyIn
        ((src.drop (firstLen d src.length)).take (secondLen d src.length)) := by
  have hspace' : circSpace d.head d.tail d.size ≠ 0 := hspace
  have hpos : firstLen d src.length ≠ 0 := (firstLen_bounds h hspace hsrc).1.ne'
  unfold firstLen at hpos
  unfold secondLen firstLen DevData.space pipePushChars
  simp only [hspace', if_false, hpos, List.length_drop, and_self]

theorem pipePushChars_nil_data (h : d.Ring) : (pipePushChars d []).data = d := by
  have hcopy : d.copyIn [] = d := by
    unfold DevData.copyIn
    rw [blit_nil, List.length_nil, Nat.add_zero, h.size_pow.and_mask, Nat.mod_eq_of_lt h.head_lt]
  unfold pipePushChars
  by_cases hfull : circSpace d.head d.tail d.size = 0
  · simp only [hfull, if_true]
  · simp [hfull, hcopy]

theorem pipePushChars_ret_nonneg (src : List UInt8) (h : d.Ring) (hspace : d.space ≠ 0) :
    0 ≤ (pipePushChars d src).ret := by
  by_cases hsrc : src = []
  · subst hsrc
    rw [(pipePushChars_spec h hspace (Nat.zero_le _)).ret]
    exact Int.natCast_nonneg _
  · rw [(pipePushChars_copies h hspace hsrc).1]
    exact Int.natCast_nonneg _

theorem mod_eq_self_iff {head t size : Nat} (hhead : head < size) (ht : 0 < t) (ht' : t < 2 * size) :
    (head + t) % size = head ↔ t = size := by
  rcases lt_or_ge (head + t) size with hlt | hge
  · rw [Nat.mod_eq_of_lt hlt]
    omega
  · rw [Nat.mod_eq_sub_mod hge]
    rcases lt_or_ge (head + t - size) size with hlt | hge'
    · rw [Nat.mod_eq_of_lt hlt]
      omega
    · rw [Nat.mod_eq_sub_mod hge', Nat.mod_eq_of_lt (by omega)]
      omega

/-- Only an over-long push can leave the ring as it was. -/
theorem pipePushChars_data_eq_iff (h : d.Ring) (hspace : d.space ≠ 0) (hsrc : src ≠ []) :
    (pipePushChars d src).data = d ↔ Rewrites d src := by
  obtain ⟨hpos, hle, hend, hlen⟩ := firstLen_bounds h hspace hsrc
  have hsecond : secondLen d src.length ≤ d.space ∧
      secondLen d src.length ≤ src.length - firstLen d src.length := by
    unfold secondLen
    omega
  have hroom := h.space_eq
  rw [(pipePushChars_copies h hspace hsrc).2]
  unfold Rewrites
  generalize firstLen d src.length = l at *
  generalize secondLen d src.length = m at *
  have htake : (src.take l).length = l := List.length_take_of_le hlen
  have htake' : ((src.drop l).take m).length = m := by
    rw [List.length_take, List.length_drop]
    omega
  have heq : (d.copyIn (src.take l)).copyIn ((src.drop l).take m) = d ↔
      (d.head + (l + m)) % d.size = d.head ∧
        blit (blit d.buf d.head (src.take l)) ((d.head + l) % d.size) ((src.drop l).take m) =
          d.buf := by
    unfold DevData.copyIn
    simp only [htake, htake', h.size_pow.and_mask, Nat.mod_add_mod, ← Nat.add_assoc]
    exact ⟨fun h => ⟨congrArg DevData.head h, congrArg DevData.buf h⟩, fun h => by rw [h.1, h.2]⟩
  rw [heq, mod_eq_self_iff h.head_lt (by omega) (by omega)]
  refine and_congr_right fun hround => ?_
  have hdisj : d.head + (src.take l).length ≤ (d.head + l) % d.size ∨
      (d.head + l) % d.size + ((src.drop l).take m).length ≤ d.head := by
    rw [htake, htake']
    rcases hend.lt_or_eq with hlt | hfull
    · rw [Nat.mod_eq_of_lt hlt]
      exact Or.inl le_rfl
    · rw [hfull, Nat.mod_self]
      omega
  rw [blit_blit_eq_self_iff hdisj, blit_eq_self_iff, blit_eq_self_iff, htake, htake']
  refine and_congr ?_ ?_
  · refine forall_congr' fun i => forall_congr' fun hi => ?_
    rw [List.getElem?_take_of_lt hi]
  · refine forall_congr' fun i => forall_congr' fun hi => ?_
    rw [List.getElem?_take_of_lt hi, List.getElem?_drop]

-- ---------------------------------------------------------------------------
-- All pipes of the device
-- ---------------------------------------------------------------------------

/-- What the returned value promises about all pipes. -/
def AllOrNothing (src : List UInt8) (ds : List DevData) : Prop :=
  ((devPushChars src ds).1 = src.length →
      List.Forall₂ (fun d d' => d'.unread = d.unread ++ src) ds (devPushChars src ds).2.1) ∧
    ((devPushChars src ds).1 < 0 → (devPushChars src ds).2.1 = ds)

/-- The pipes in front of the first full one. -/
def beforeFull (ds : List DevData) : List DevData := ds.takeWhile fun d => decide (d.space ≠ 0)

/-- The condition: room for all the bytes in every ring; or a full ring, and
nothing to push into the rings in front of it, or nothing that changes them. -/
def PushFits (src : List UInt8) (ds : List DevData) : Prop :=
  if ∀ d ∈ ds, d.space ≠ 0 then ∀ d ∈ ds, src.length ≤ d.space
  else src = [] ∨ ∀ d ∈ beforeFull ds, Rewrites d src

/-- All rings take bytes. -/
theorem devPushChars_ok (src : List UInt8) (hds : ∀ d ∈ ds, d.Ring)
    (hspace : ∀ d ∈ ds, d.space ≠ 0) :
    (devPushChars src ds).1 = src.length ∧
      (devPushChars src ds).2.1 = ds.map fun d => (pipePushChars d src).data := by
  induction ds with
  | nil => exact ⟨rfl, rfl⟩
  | cons d ds ih =>
    have hret := pipePushChars_ret_nonneg src (hds d List.mem_cons_self)
      (hspace d List.mem_cons_self)
    obtain ⟨ih1, ih2⟩ := ih (fun d hd => hds d (List.mem_cons_of_mem _ hd))
      (fun d hd => hspace d (List.mem_cons_of_mem _ hd))
    unfold devPushChars
    simp only [hret.not_gt, if_false, ih1, ih2, List.map_cons, and_self]

/-- A ring is full: the ones in front of it have taken bytes. -/
theorem devPushChars_full (src : List UInt8) (hds : ∀ d ∈ ds, d.Ring)
    (hfull : ¬ ∀ d ∈ ds, d.space ≠ 0) :
    (devPushChars src ds).1 = -1 ∧ ((devPushChars src ds).2.1 = ds ↔
      ∀ d ∈ beforeFull ds, (pipePushChars d src).data = d) := by
  induction ds with
  | nil => simp at hfull
  | cons d ds ih =>
    by_cases hspace : d.space = 0
    · unfold devPushChars
      rw [pipePushChars_full hspace]
      simp [beforeFull, hspace, ENOMEM]
    · have hret := pipePushChars_ret_nonneg src (hds d List.mem_cons_self) hspace
      have hfull' : ¬ ∀ d ∈ ds, d.space ≠ 0 := fun h =>
        hfull (List.forall_mem_cons.mpr ⟨hspace, h⟩)
      obtain ⟨ih1, ih2⟩ := ih (fun d hd => hds d (List.mem_cons_of_mem _ hd)) hfull'
      have hbefore : beforeFull (d :: ds) = d :: beforeFull ds := by
        simp [beforeFull, hspace]
      unfold devPushChars
      simp only [hret.not_gt, if_false, ih1, hbefore, List.forall_mem_cons, List.cons.injEq, ih2,
        and_self]

/-- A ring that is not full takes all the bytes exactly when they fit. -/
theorem pipePushChars_accepts_iff (h : d.Ring) (hspace : d.space ≠ 0) :
    (pipePushChars d src).data.unread = d.unread ++ src ↔ src.length ≤ d.space := by
  refine ⟨fun hunread => ?_, fun hroom => (pipePushChars_spec h hspace hroom).unread⟩
  by_cases hsrc : src = []
  · simp [hsrc]
  · -- what is unread afterwards fits into the ring
    have hring : (pipePushChars d src).data.Ring ∧ (pipePushChars d src).data.size = d.size := by
      rw [(pipePushChars_copies h hspace hsrc).2]
      refine ⟨⟨h.size_pow, ?_, h.tail_lt, h.hasBuf⟩, rfl⟩
      unfold DevData.copyIn
      simp only [h.size_pow.and_mask]
      exact Nat.mod_lt _ h.size_pow.pos
    have hlen := congrArg List.length hunread
    rw [List.length_append, DevData.unread_length, DevData.unread_length] at hlen
    have hcnt := hring.1.cnt_lt
    rw [hring.2] at hcnt
    have hroom := h.space_eq
    omega

/-- **All or nothing.** The value `bathos_dev_push_chars` returns tells what
happened to every pipe exactly under `PushFits`. -/
theorem push_all_or_nothing_iff (hds : ∀ d ∈ ds, d.Ring) (src : List UInt8) :
    AllOrNothing src ds ↔ PushFits src ds := by
  unfold AllOrNothing PushFits
  by_cases hspace : ∀ d ∈ ds, d.space ≠ 0
  · obtain ⟨hret, hdata⟩ := devPushChars_ok src hds hspace
    have hnonneg : ¬ ((src.length : Int) < 0) := (Int.natCast_nonneg _).not_gt
    rw [if_pos hspace, hret, hdata]
    simp only [true_imp_iff, hnonneg, false_imp_iff, and_true]
    rw [List.forall₂_map_right_iff, List.forall₂_same]
    exact forall_congr' fun d => forall_congr' fun hd =>
      pipePushChars_accepts_iff (hds d hd) (hspace d hd)
  · obtain ⟨hret, hdata⟩ := devPushChars_full src hds hspace
    have hne : ¬ ((-1 : Int) = src.length) := by omega
    rw [if_neg hspace, hret, hdata]
    simp only [hne, false_imp_iff, true_and, show (-1 : Int) < 0 by decide, true_imp_iff]
    have hring : ∀ d ∈ beforeFull ds, d.Ring ∧ d.space ≠ 0 := fun d hd =>
      ⟨hds d ((List.takeWhile_sublist _).subset hd),
        of_decide_eq_true (List.all_eq_true.mp List.all_takeWhile d hd)⟩
    by_cases hsrc : src = []
    · subst hsrc
      simp only [true_or, iff_true]
      exact fun d hd => pipePushChars_nil_data (hring d hd).1
    · simp only [hsrc, false_or]
      exact forall_congr' fun d => forall_congr' fun hd =>
        pipePushChars_data_eq_iff (hring d hd).1 (hring d hd).2 hsrc

/-- A ring of 16 bytes with 15 of them unread. -/
def fullRing : DevData := { openedRing with head := 15 }

theorem fullRing_ring : fullRing.Ring := ⟨⟨4, by decide, rfl⟩, by decide, by decide, rfl⟩

/-- Two empty rings take three bytes each. -/
theorem push_two_openedRings : AllOrNothing [1, 2, 3] [openedRing, openedRing] := by
  refine (push_all_or_nothing_iff ?_ _).mpr ?_
  · intro d hd
    rcases List.mem_pair.mp hd with rfl | rfl <;> exact openedRing_ring
  · unfold PushFits
    have hspace : openedRing.space = 15 := by decide +kernel
    simp [hspace]

/-- The second pipe refuses what the first one has already taken. -/
theorem push_refused_after_taken :
    ¬ ∀ (src : List UInt8) (ds : List DevData), (∀ d ∈ ds, d.Ring) → AllOrNothing src ds := by
  intro hall
  have hds : ∀ d ∈ [openedRing, fullRing], d.Ring := by
    intro d hd
    rcases List.mem_pair.mp hd with rfl | rfl
    · exact openedRing_ring
    · exact fullRing_ring
  have hsame := (hall [1] [openedRing, fullRing] hds).2 (by decide +kernel)
  have hhead := congrArg (fun l => l.map DevData.head) hsame
  exact absurd hhead (by decide +kernel)

end Bathos.Drivers
