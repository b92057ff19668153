import Mathlib.Data.Finset.Card
import Mathlib.Data.Finset.Image
import Mathlib.Tactic

/-!
# Bit strings in the order of their first difference

Bit strings of one length, read from the low end. Two of them agree up to their first
difference, and the one that has a 0 there comes first (`Before`). A walk down the
tree of a set of strings has a choice at each bit where the strings that agree so far
conflict; `Follows` says which string the choices lead to.

Main results:

* `Follows.unique`, `exists_follows` — the choices lead to exactly one string;
* `Follows.least`, `Follows.next`, `no_next` — how to choose for the first string and
  for the one after a given string, and when that one is the last;
* `Enumerates.complete` — a list made by going from one to the next is the whole set.
-/

namespace Bathos.Lib

variable {n : Nat} {a b c d : BitVec n} {k j m : Nat} {D : Finset (BitVec n)}

/-- The low `k` bits are the same. -/
def Agree (k : Nat) (a b : BitVec n) : Prop := ∀ j < k, a.getLsbD j = b.getLsbD j

instance (k : Nat) (a b : BitVec n) : Decidable (Agree k a b) :=
  inferInstanceAs (Decidable (∀ j < k, _))

/-- At the first difference `a` has a 0. -/
def Before (a b : BitVec n) : Prop :=
  ∃ k, Agree k a b ∧ a.getLsbD k = false ∧ b.getLsbD k = true

namespace Agree

theorem refl (k : Nat) (a : BitVec n) : Agree k a a := fun _ _ => rfl

theorem symm (h : Agree k a b) : Agree k b a := fun j hj => (h j hj).symm

theorem trans (h : Agree k a b) (h' : Agree k b c) : Agree k a c := fun j hj =>
  (h j hj).trans (h' j hj)

theorem mono (h : Agree k a b) (hj : j ≤ k) : Agree j a b := fun i hi => h i (hi.trans_le hj)

theorem succ (h : Agree k a b) (hk : a.getLsbD k = b.getLsbD k) : Agree (k + 1) a b := by
  intro j hj
  rcases Nat.lt_succ_iff_lt_or_eq.mp hj with hj | rfl
  · exact h j hj
  · exact hk

theorem eq (h : Agree n a b) : a = b := BitVec.eq_of_getLsbD_eq fun j hj => h j hj

end Agree

/-- Strings that are not equal have a first difference. -/
theorem exists_difference (h : a ≠ b) : ∃ k, Agree k a b ∧ a.getLsbD k ≠ b.getLsbD k := by
  have hex : ∃ k, a.getLsbD k ≠ b.getLsbD k := by
    by_contra hall
    push Not at hall
    exact h (BitVec.eq_of_getLsbD_eq fun j _ => hall j)
  refine ⟨Nat.find hex, fun j hj => ?_, Nat.find_spec hex⟩
  exact not_not.mp (Nat.find_min hex hj)

theorem before_of_difference (h : Agree k a b) (hk : a.getLsbD k ≠ b.getLsbD k)
    (ha : a.getLsbD k = false) : Before a b := by
  refine ⟨k, h, ha, ?_⟩
  rw [ha] at hk
  exact Bool.eq_true_of_not_eq_false hk.symm

namespace Before

theorem total (h : a ≠ b) : Before a b ∨ Before b a := by
  obtain ⟨k, hagree, hk⟩ := exists_difference h
  cases ha : a.getLsbD k with
  | false => exact Or.inl (before_of_difference hagree hk ha)
  | true =>
    rw [ha] at hk
    exact Or.inr ⟨k, hagree.symm, Bool.eq_false_of_not_eq_true hk.symm, ha⟩

/-- Two differences of a pair are the same one. -/
theorem asymm (h : Before a b) : ¬ Before b a := by
  obtain ⟨k, hagree, ha, hb⟩ := h
  rintro ⟨j, hagree', hb', ha'⟩
  rcases Nat.lt_trichotomy j k with hj | rfl | hj
  · exact absurd (hb'.symm.trans ((hagree j hj).symm.trans ha')) nofun
  · exact absurd (ha.symm.trans ha') nofun
  · exact absurd (hb.symm.trans ((hagree' k hj).trans ha)) nofun

theorem ne (h : Before a b) : a ≠ b := by
  rintro rfl
  exact h.asymm h

theorem trans (h : Before a b) (h' : Before b c) : Before a c := by
  obtain ⟨k, hagree, ha, hb⟩ := h
  obtain ⟨j, hagree', hb', hc⟩ := h'
  rcases Nat.lt_trichotomy j k with hj | rfl | hj
  · exact ⟨j, (hagree.mono hj.le).trans hagree', (hagree j hj).trans hb', hc⟩
  · exact absurd (hb.symm.trans hb') nofun
  · exact ⟨k, hagree.trans (hagree'.mono hj.le), ha, (hagree' k hj).symm.trans hb⟩

end Before

-- ---------------------------------------------------------------------------
-- Walks
-- ---------------------------------------------------------------------------

/-- Some string of `D` that agrees with `c` up to bit `k` differs there. -/
def Conflict (D : Finset (BitVec n)) (c : BitVec n) (k : Nat) : Prop :=
  ∃ d ∈ D, Agree k d c ∧ d.getLsbD k ≠ c.getLsbD k

/-- The walk that takes the bit `choose k` where there is a choice comes to `c`. -/
structure Follows (D : Finset (BitVec n)) (choose : Nat → Bool) (c : BitVec n) : Prop where
  mem : c ∈ D
  chosen : ∀ k, Conflict D c k → c.getLsbD k = choose k

variable {choose : Nat → Bool}

/-- Strings that agree have the same conflicts so far. -/
theorem Conflict.congr (h : Agree (k + 1) c d) (hc : Conflict D c k) : Conflict D d k := by
  obtain ⟨e, he, hagree, hk⟩ := hc
  exact ⟨e, he, hagree.trans (h.mono k.le_succ), fun heq => hk (heq.trans (h k k.lt_succ_self).symm)⟩

/-- At their first difference both strings have a conflict. -/
theorem conflict_of_difference (hd : d ∈ D) (h : Agree k d c) (hk : d.getLsbD k ≠ c.getLsbD k) :
    Conflict D c k := ⟨d, hd, h, hk⟩

theorem Follows.unique (hc : Follows D choose c) (hd : Follows D choose d) : c = d := by
  by_contra hne
  obtain ⟨k, hagree, hk⟩ := exists_difference hne
  have hc' := hc.chosen k (conflict_of_difference hd.mem hagree.symm hk.symm)
  have hd' := hd.chosen k (conflict_of_difference hc.mem hagree hk)
  exact hk (hc'.trans hd'.symm)

/-- The choices up to a bit lead to some string. -/
theorem exists_chosen (hD : D.Nonempty) (choose : Nat → Bool) (k : Nat) :
    ∃ c ∈ D, ∀ j < k, Conflict D c j → c.getLsbD j = choose j := by
  induction k with
  | zero =>
    obtain ⟨c, hc⟩ := hD
    exact ⟨c, hc, fun j hj => absurd hj (Nat.not_lt_zero j)⟩
  | succ k ih =>
    obtain ⟨c, hc, hchosen⟩ := ih
    by_cases hk : Conflict D c k ∧ c.getLsbD k ≠ choose k
    · -- The other side of the conflict is the one chosen.
      obtain ⟨⟨d, hd, hagree, hdiff⟩, hwrong⟩ := hk
      refine ⟨d, hd, fun j hj hconflict => ?_⟩
      rcases Nat.lt_succ_iff_lt_or_eq.mp hj with hj | rfl
      · rw [hagree j hj]
        exact hchosen j hj (hconflict.congr (hagree.mono hj))
      · revert hdiff hwrong
        cases d.getLsbD j <;> cases c.getLsbD j <;> cases choose j <;> simp
    · push Not at hk
      refine ⟨c, hc, fun j hj hconflict => ?_⟩
      rcases Nat.lt_succ_iff_lt_or_eq.mp hj with hj | rfl
      · exact hchosen j hj hconflict
      · exact hk hconflict

/-- Behind its last bit no string has a conflict. -/
theorem Conflict.lt (h : Conflict D c k) : k < n := by
  obtain ⟨d, -, -, hk⟩ := h
  by_contra hle
  exact hk (by rw [BitVec.getLsbD_of_ge d k (by omega), BitVec.getLsbD_of_ge c k (by omega)])

theorem exists_last_conflict (h : Conflict D c k) :
    ∃ m, k ≤ m ∧ Conflict D c m ∧ ∀ j, m < j → ¬ Conflict D c j := by
  classical
  refine ⟨Nat.findGreatest (Conflict D c) n, Nat.le_findGreatest h.lt.le h,
    Nat.findGreatest_spec h.lt.le h, fun j hj hconflict => ?_⟩
  exact Nat.findGreatest_is_greatest hj hconflict.lt.le hconflict

theorem exists_follows (hD : D.Nonempty) (choose : Nat → Bool) : ∃ c, Follows D choose c := by
  obtain ⟨c, hc, hchosen⟩ := exists_chosen hD choose n
  exact ⟨c, hc, fun k hk => hchosen k hk.lt hk⟩

-- ---------------------------------------------------------------------------
-- First and next
-- ---------------------------------------------------------------------------

/-- Always 0: the first string. -/
theorem Follows.least (h : Follows D (fun _ => false) c) (hd : d ∈ D) : ¬ Before d c := by
  rintro ⟨k, hagree, hdk, hck⟩
  have hchosen := h.chosen k (conflict_of_difference hd hagree (by simp [hdk, hck]))
  exact absurd (hck.symm.trans hchosen) nofun

/-- Without a conflict at a 0 a string is the last one. -/
theorem no_next (h : ∀ k, Conflict D c k → c.getLsbD k = true) (hd : d ∈ D) : ¬ Before c d := by
  rintro ⟨k, hagree, hck, hdk⟩
  have htrue := h k (conflict_of_difference hd hagree.symm (by simp [hdk, hck]))
  exact absurd (hck.symm.trans htrue) nofun

/-- The choices that lead from `c` to the next string: the bits of `c`, a 1 at its last
conflict at a 0, and then 0. -/
structure NextAt (D : Finset (BitVec n)) (c : BitVec n) (m : Nat) (choose : Nat → Bool) : Prop where
  conflict : Conflict D c m
  zero : c.getLsbD m = false
  last : ∀ k, m < k → Conflict D c k → c.getLsbD k = true
  below : ∀ k < m, choose k = c.getLsbD k
  one : choose m = true
  above : ∀ k, m < k → choose k = false

theorem NextAt.agree (h : NextAt D c m choose) (hc : c ∈ D) (hd : Follows D choose d) :
    Agree m d c := by
  by_contra hne
  have hex : ∃ k, k < m ∧ d.getLsbD k ≠ c.getLsbD k := by
    unfold Agree at hne
    push Not at hne
    exact hne
  -- At the first difference `d` has the bit chosen, which is that of `c`.
  have hfirst : Agree (Nat.find hex) d c := fun j hj => by
    by_contra hj'
    exact Nat.find_min hex hj ⟨hj.trans (Nat.find_spec hex).1, hj'⟩
  obtain ⟨hk, hdiff⟩ := Nat.find_spec hex
  have hchosen := hd.chosen _ (conflict_of_difference hc hfirst.symm hdiff.symm)
  exact hdiff (hchosen.trans (h.below _ hk))

theorem Follows.next (hd : Follows D choose d) (hc : c ∈ D) (h : NextAt D c m choose) :
    Before c d ∧ d.getLsbD m = true ∧ ∀ e ∈ D, ¬(Before c e ∧ Before e d) := by
  have hagree := h.agree hc hd
  -- `d` has a conflict at `m` too, with `c` or with a string that has a 1 there.
  have hone : d.getLsbD m = true := by
    by_contra hzero
    have hdm := Bool.eq_false_of_not_eq_true hzero
    obtain ⟨e, he, heagree, hem⟩ := h.conflict
    have hconflict := conflict_of_difference he (heagree.trans hagree.symm)
      (by rw [hdm, ← h.zero]; exact hem)
    exact hzero ((hd.chosen m hconflict).trans h.one)
  refine ⟨⟨m, hagree.symm, h.zero, hone⟩, hone, ?_⟩
  rintro e he ⟨⟨k, hce, hck, hek⟩, hed⟩
  have hconflict : Conflict D c k := conflict_of_difference he hce.symm (by simp [hck, hek])
  rcases Nat.lt_trichotomy k m with hk | rfl | hk
  · -- `e` leaves `c` where `d` still agrees with it.
    refine hed.asymm ⟨k, (hagree.mono hk.le).trans hce, (hagree k hk).trans hck, hek⟩
  · -- `e` agrees with `d` up to the 1; where it comes first `d` chose a 1.
    obtain ⟨j, hagree', hej, hdj⟩ := hed
    rcases Nat.lt_trichotomy j k with hj | rfl | hj
    · have hcj := (hce j hj).trans hej
      exact absurd ((hagree j hj).symm.trans hdj) (by simp [hcj])
    · exact absurd (hek.symm.trans hej) nofun
    · have hchosen := hd.chosen j (conflict_of_difference he hagree' (by simp [hej, hdj]))
      exact absurd (hdj.symm.trans (hchosen.trans (h.above j hj))) nofun
  · exact absurd (hck.symm.trans (h.last k hk hconflict)) nofun

-- ---------------------------------------------------------------------------
-- From one string to the next
-- ---------------------------------------------------------------------------

/-- The first `i` strings of an array are the first `i` of `D`, in order. -/
structure Enumerates (D : Finset (BitVec n)) (f : Nat → BitVec n) (i : Nat) : Prop where
  mem : ∀ j < i, f j ∈ D
  before : ∀ j k, j < k → k < i → Before (f j) (f k)
  closed : ∀ j < i, ∀ d ∈ D, Before d (f j) → ∃ k < j, f k = d

namespace Enumerates

variable {f g : Nat → BitVec n} {i : Nat}

theorem congr (h : Enumerates D f i) (hfg : ∀ j < i, g j = f j) : Enumerates D g i := by
  refine ⟨fun j hj => ?_, fun j k hjk hk => ?_, fun j hj d hd hbefore => ?_⟩
  · rw [hfg j hj]
    exact h.mem j hj
  · rw [hfg j (hjk.trans hk), hfg k hk]
    exact h.before j k hjk hk
  · rw [hfg j hj] at hbefore
    obtain ⟨k, hk, rfl⟩ := h.closed j hj d hd hbefore
    exact ⟨k, hk, hfg k (hk.trans hj)⟩

theorem inj (h : Enumerates D f i) {j k : Nat} (hj : j < i) (hk : k < i) (heq : f j = f k) :
    j = k := by
  rcases Nat.lt_trichotomy j k with hlt | heq' | hlt
  · exact absurd heq (h.before j k hlt hk).ne
  · exact heq'
  · exact absurd heq.symm (h.before k j hlt hj).ne

theorem card_image (h : Enumerates D f i) : ((Finset.range i).image f).card = i := by
  rw [Finset.card_image_of_injOn, Finset.card_range]
  intro j hj k hk heq
  exact h.inj (Finset.mem_range.mp hj) (Finset.mem_range.mp hk) heq

theorem image_subset (h : Enumerates D f i) : (Finset.range i).image f ⊆ D := by
  intro d hd
  obtain ⟨j, hj, rfl⟩ := Finset.mem_image.mp hd
  exact h.mem j (Finset.mem_range.mp hj)

theorem first (hc : f 0 ∈ D) (hleast : ∀ d ∈ D, ¬ Before d (f 0)) : Enumerates D f 1 := by
  refine ⟨fun j hj => ?_, fun j k hjk hk => ?_, fun j hj d hd hbefore => ?_⟩
  · rwa [Nat.lt_one_iff.mp hj]
  · omega
  · rw [Nat.lt_one_iff.mp hj] at hbefore
    exact absurd hbefore (hleast d hd)

/-- The string after the last one. -/
theorem succ (h : Enumerates D f (i + 1)) (hmem : f (i + 1) ∈ D) (hnext : Before (f i) (f (i + 1)))
    (hbetween : ∀ e ∈ D, ¬(Before (f i) e ∧ Before e (f (i + 1)))) : Enumerates D f (i + 2) := by
  refine ⟨fun j hj => ?_, fun j k hjk hk => ?_, fun j hj d hd hbefore => ?_⟩
  · rcases Nat.lt_succ_iff_lt_or_eq.mp hj with hj | rfl
    · exact h.mem j hj
    · exact hmem
  · rcases Nat.lt_succ_iff_lt_or_eq.mp hk with hk | rfl
    · exact h.before j k hjk hk
    · rcases Nat.lt_succ_iff_lt_or_eq.mp hjk with hj | rfl
      · exact (h.before j i hj i.lt_succ_self).trans hnext
      · exact hnext
  · rcases Nat.lt_succ_iff_lt_or_eq.mp hj with hj | rfl
    · exact h.closed j hj d hd hbefore
    · by_cases heq : f i = d
      · exact ⟨i, i.lt_succ_self, heq⟩
      · rcases Before.total heq with hafter | hbefore'
        · exact absurd ⟨hafter, hbefore⟩ (hbetween d hd)
        · obtain ⟨k, hk, hfk⟩ := h.closed i i.lt_succ_self d hd hbefore'
          exact ⟨k, hk.trans i.lt_succ_self, hfk⟩

/-- With no string after the last one, the list is the whole set. -/
theorem complete (h : Enumerates D f (i + 1)) (hlast : ∀ d ∈ D, ¬ Before (f i) d) :
    (Finset.range (i + 1)).image f = D := by
  refine Finset.Subset.antisymm h.image_subset fun d hd => ?_
  rw [Finset.mem_image]
  by_cases heq : f i = d
  · exact ⟨i, Finset.self_mem_range_succ i, heq⟩
  · have hbefore := (Before.total heq).resolve_left (hlast d hd)
    obtain ⟨k, hk, hfk⟩ := h.closed i i.lt_succ_self d hd hbefore
    exact ⟨k, Finset.mem_range.mpr (hk.trans i.lt_succ_self), hfk⟩

end Enumerates

end Bathos.Lib
