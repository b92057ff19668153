import Mathlib.Data.List.Chain
import Mathlib.Data.List.Nodup
import Mathlib.Logic.Function.Iterate
import Mathlib.Tactic.Common

/-!
# Circular lists linked both ways

`Links` — the pointers of a memory of nodes. `Ring l h xs` says that from the head `h`
the nodes `xs`, in this order, lead back to `h`, forwards and backwards; `Holds` that
several such lists lie in one memory and share no node.

Main results:

* `Ring.unlink`, `Ring.insert` — what taking a node out of a list and putting one in
  make of its nodes;
* `Holds.unlink`, `Holds.insert_front`, `Holds.insert_back` — the same among other lists,
  which stay as they are;
* `Ring.reaches_iff` — the nodes met on the way from the head are those of the list.
-/

namespace Bathos.Lib

/-- The two pointers of every node. -/
@[ext]
structure Links (ν : Type*) where
  next : ν → ν
  prev : ν → ν

namespace Links

variable {ν : Type*} {l : Links ν} {h e x y : ν} {xs as bs p s : List ν}

/-- `y` comes right behind `x`. -/
def Linked (l : Links ν) (x y : ν) : Prop := l.next x = y ∧ l.prev y = x

/-- The nodes between the head and itself. -/
def Ring (l : Links ν) (h : ν) (xs : List ν) : Prop := List.IsChain l.Linked (h :: xs ++ [h])

/-- `a` is met on the way from `h`, before `h` is met again. -/
def Reaches (l : Links ν) (h a : ν) : Prop :=
  ∃ n, l.next^[n + 1] h = a ∧ ∀ m ≤ n, l.next^[m + 1] h ≠ h

theorem ring_nil_iff : l.Ring h [] ↔ l.next h = h ∧ l.prev h = h := by
  unfold Ring
  rw [List.cons_append, List.nil_append, List.isChain_pair]
  rfl

/-- The head points to the first node. -/
theorem Ring.next_head (hring : l.Ring h (e :: xs)) : l.next h = e := by
  unfold Ring at hring
  rw [List.cons_append, List.cons_append, List.isChain_cons_cons] at hring
  exact hring.1.1

theorem Ring.next_eq_self_iff (hnodup : (h :: xs).Nodup) (hring : l.Ring h xs) :
    l.next h = h ↔ xs = [] := by
  cases xs with
  | nil => exact iff_of_true (ring_nil_iff.mp hring).1 rfl
  | cons e xs =>
    have hne : e ≠ h := fun heq => (List.nodup_cons.mp hnodup).1 (heq ▸ List.mem_cons_self)
    rw [hring.next_head]
    exact iff_of_false hne (List.cons_ne_nil e xs)

/-- A list whose nodes keep their pointers. -/
theorem Ring.congr {l' : Links ν} (hring : l.Ring h xs)
    (hsame : ∀ a ∈ h :: xs, l'.next a = l.next a ∧ l'.prev a = l.prev a) : l'.Ring h xs := by
  have hmem : ∀ a ∈ h :: xs ++ [h], a ∈ h :: xs := by
    intro a ha
    rcases List.mem_append.mp ha with ha | ha
    · exact ha
    · rw [List.mem_singleton.mp ha]
      exact List.mem_cons_self
  refine List.IsChain.imp_of_mem_imp (fun a b ha hb hlink => ?_) hring
  exact ⟨(hsame a (hmem a ha)).1.trans hlink.1, (hsame b (hmem b hb)).2.trans hlink.2⟩

-- ---------------------------------------------------------------------------
-- The nodes met from the head
-- ---------------------------------------------------------------------------

theorem Ring.iterate_next (hring : l.Ring h xs) {m : Nat} (hm : m < (h :: xs ++ [h]).length) :
    l.next^[m] h = (h :: xs ++ [h])[m] := by
  induction m with
  | zero => rfl
  | succ m ih =>
    have hlink := List.isChain_iff_getElem.mp hring m hm
    rw [Function.iterate_succ_apply', ih (by omega)]
    exact hlink.1

/-- **Membership.** -/
theorem Ring.reaches_iff (hnodup : (h :: xs).Nodup) (hring : l.Ring h xs) {a : ν} :
    l.Reaches h a ↔ a ∈ xs := by
  have hstep : ∀ m (hm : m < xs.length), l.next^[m + 1] h = xs[m] := by
    intro m hm
    rw [hring.iterate_next (by simp only [List.length_append, List.length_cons]; omega)]
    simp [hm]
  constructor
  · rintro ⟨n, hn, hbefore⟩
    have hlt : n < xs.length := by
      by_contra hge
      refine hbefore xs.length (Nat.le_of_not_lt hge) ?_
      rw [hring.iterate_next (by simp)]
      simp
    rw [← hn, hstep n hlt]
    exact List.getElem_mem hlt
  · intro ha
    obtain ⟨n, hlt, hn⟩ := List.mem_iff_getElem.mp ha
    refine ⟨n, (hstep n hlt).trans hn, fun m hm heq => ?_⟩
    rw [hstep m (by omega)] at heq
    exact (List.nodup_cons.mp hnodup).1 (heq ▸ List.getElem_mem _)

-- ---------------------------------------------------------------------------
-- Cuts
-- ---------------------------------------------------------------------------

/-- A list cut open between `x` and `y`. -/
structure Cut (h : ν) (as bs p s : List ν) (x y : ν) : Prop where
  before : h :: as = p ++ [x]
  after : bs ++ [h] = y :: s
  nodup : (h :: (as ++ bs)).Nodup

namespace Cut

variable (hcut : Cut h as bs p s x y)

include hcut

theorem x_mem : x ∈ h :: as := by
  rw [hcut.before]
  exact List.mem_append_right p List.mem_cons_self

theorem y_mem : y ∈ bs ++ [h] := by
  rw [hcut.after]
  exact List.mem_cons_self

/-- The node behind the cut does not occur before it, except as the head. -/
theorem y_notMem : y ∉ as := by
  have hnodup := hcut.nodup
  have hy := hcut.y_mem
  simp only [List.nodup_cons, List.mem_append, List.nodup_append, not_or] at hnodup
  rcases List.mem_append.mp hy with hmem | hhead
  · exact fun has => hnodup.2.2.2 y has y hmem rfl
  · rw [List.mem_singleton.mp hhead]
    exact hnodup.1.1

theorem x_notMem : x ∉ bs := by
  have hnodup := hcut.nodup
  simp only [List.nodup_cons, List.mem_append, List.nodup_append, not_or] at hnodup
  rcases List.mem_cons.mp hcut.x_mem with hhead | hmem
  · rw [hhead]
    exact hnodup.1.2
  · exact fun hbs => hnodup.2.2.2 x hmem x hbs rfl

theorem x_notMem_before : x ∉ p := by
  have hsub : (h :: as).Nodup := hcut.nodup.sublist (List.Sublist.cons_cons h
    (List.sublist_append_left as bs))
  rw [hcut.before, List.nodup_append] at hsub
  exact fun hp => hsub.2.2 x hp x List.mem_cons_self rfl

theorem y_notMem_after : y ∉ s := by
  have hsub : (bs ++ [h]).Nodup := by
    have hnodup := hcut.nodup
    simp only [List.nodup_cons, List.mem_append, List.nodup_append, not_or] at hnodup
    refine List.nodup_append.mpr ⟨hnodup.2.2.1, List.nodup_singleton h, fun a ha b hb => ?_⟩
    rw [List.mem_singleton.mp hb]
    exact fun heq => hnodup.1.2 (heq ▸ ha)
  rw [hcut.after] at hsub
  exact (List.nodup_cons.mp hsub).1

/-- A list is linked if both sides of the cut are, and its two ends. -/
theorem ring_iff :
    l.Ring h (as ++ bs) ↔
      List.IsChain l.Linked (p ++ [x]) ∧ l.Linked x y ∧ List.IsChain l.Linked (y :: s) := by
  have hwhole : h :: (as ++ bs) ++ [h] = p ++ x :: y :: s := by
    rw [List.cons_append, List.append_assoc, hcut.after, ← List.cons_append, hcut.before,
      List.append_assoc]
    rfl
  unfold Ring
  rw [hwhole, List.isChain_append_cons_cons]

/-- The same with a node in the cut. -/
theorem ring_cons_iff :
    l.Ring h (as ++ e :: bs) ↔
      List.IsChain l.Linked (p ++ [x]) ∧ l.Linked x e ∧ l.Linked e y ∧
        List.IsChain l.Linked (y :: s) := by
  have hwhole : h :: (as ++ e :: bs) ++ [h] = p ++ x :: e :: y :: s := by
    rw [List.cons_append, List.append_assoc, List.cons_append, hcut.after, ← List.cons_append,
      hcut.before, List.append_assoc]
    rfl
  unfold Ring
  rw [hwhole, List.isChain_append_cons_cons, List.isChain_cons_cons]

end Cut

theorem nodup_of_cons (hnodup : (h :: (as ++ e :: bs)).Nodup) : (h :: (as ++ bs)).Nodup :=
  hnodup.sublist (List.Sublist.cons_cons h
    ((List.Sublist.refl as).append (List.sublist_cons_self e bs)))

/-- Every list can be cut open anywhere. -/
theorem exists_cut (hnodup : (h :: (as ++ bs)).Nodup) :
    ∃ p x y s, Cut h as bs p s x y := by
  obtain hnil | ⟨p, x, hx⟩ := List.eq_nil_or_concat (h :: as)
  · cases hnil
  · obtain ⟨y, s, hy⟩ := List.exists_cons_of_ne_nil
      (List.append_ne_nil_of_right_ne_nil bs (List.cons_ne_nil h []))
    exact ⟨p, x, y, s, by rw [hx, List.concat_eq_append], hy, hnodup⟩

-- ---------------------------------------------------------------------------
-- Edits
-- ---------------------------------------------------------------------------

variable [DecidableEq ν]

/-- `y` is put behind `x`. -/
def join (x y : ν) (l : Links ν) : Links ν :=
  { next := Function.update l.next x y, prev := Function.update l.prev y x }

/-- The neighbours of a node are joined. -/
def unlink (e : ν) (l : Links ν) : Links ν := l.join (l.prev e) (l.next e)

/-- A node is put between two others. -/
def insert (e x y : ν) (l : Links ν) : Links ν := (l.join e y).join x e

theorem linked_join (l : Links ν) (x y : ν) : (l.join x y).Linked x y :=
  ⟨Function.update_self .., Function.update_self ..⟩

theorem Linked.join {a b : ν} (hlink : l.Linked a b) (hx : a ≠ x) (hy : b ≠ y) :
    (l.join x y).Linked a b :=
  ⟨(Function.update_of_ne hx ..).trans hlink.1, (Function.update_of_ne hy ..).trans hlink.2⟩

/-- A chain stays one if nothing is put between its nodes. -/
theorem chain_join (hchain : List.IsChain l.Linked xs) (hx : x ∉ xs.dropLast) (hy : y ∉ xs.tail) :
    List.IsChain (l.join x y).Linked xs := by
  induction hchain with
  | nil => exact List.isChain_nil
  | singleton a => exact List.isChain_singleton a
  | @cons_cons a b cs hlink hrest ih =>
    rw [List.dropLast_cons_cons, List.mem_cons, not_or] at hx
    rw [List.tail_cons, List.mem_cons, not_or] at hy
    refine List.isChain_cons_cons.mpr ⟨hlink.join (Ne.symm hx.1) (Ne.symm hy.1), ?_⟩
    exact ih hx.2 hy.2

/-- A list that holds neither node is left alone. -/
theorem Ring.join_frame (hring : l.Ring h xs) (hx : x ∉ h :: xs) (hy : y ∉ h :: xs) :
    (l.join x y).Ring h xs := by
  refine chain_join hring ?_ ?_
  · rwa [List.dropLast_concat]
  · rw [List.cons_append, List.tail_cons]
    simpa [or_comm] using hy

/-- Joining the two ends over the cut leaves both sides as they are. -/
theorem Cut.chain_sides (hcut : Cut h as bs p s x y)
    (hbefore : List.IsChain l.Linked (p ++ [x])) (hafter : List.IsChain l.Linked (y :: s)) :
    List.IsChain (l.join x y).Linked (p ++ [x]) ∧ List.IsChain (l.join x y).Linked (y :: s) := by
  constructor
  · refine chain_join hbefore ?_ ?_
    · rw [List.dropLast_concat]
      exact hcut.x_notMem_before
    · rw [← hcut.before]
      exact hcut.y_notMem
  · refine chain_join hafter ?_ hcut.y_notMem_after
    rw [← hcut.after, List.dropLast_concat]
    exact hcut.x_notMem

/-- **Taking a node out.** -/
theorem Ring.unlink (hnodup : (h :: (as ++ e :: bs)).Nodup) (hring : l.Ring h (as ++ e :: bs)) :
    (l.unlink e).Ring h (as ++ bs) := by
  obtain ⟨p, x, y, s, hcut⟩ := exists_cut (nodup_of_cons hnodup)
  obtain ⟨hbefore, hxe, hey, hafter⟩ := hcut.ring_cons_iff.mp hring
  obtain ⟨hbefore', hafter'⟩ := hcut.chain_sides hbefore hafter
  have hunlink : l.unlink e = l.join x y := by
    unfold Links.unlink
    rw [hxe.2, hey.1]
  rw [hunlink]
  exact hcut.ring_iff.mpr ⟨hbefore', linked_join l x y, hafter'⟩

omit [DecidableEq ν] in
/-- The neighbours of a node are in its list. -/
theorem Ring.neighbours (hnodup : (h :: (as ++ e :: bs)).Nodup)
    (hring : l.Ring h (as ++ e :: bs)) :
    l.prev e ∈ h :: (as ++ e :: bs) ∧ l.next e ∈ h :: (as ++ e :: bs) := by
  obtain ⟨p, x, y, s, hcut⟩ := exists_cut (nodup_of_cons hnodup)
  obtain ⟨-, hxe, hey, -⟩ := hcut.ring_cons_iff.mp hring
  have hx := hcut.x_mem
  have hy := hcut.y_mem
  rw [hxe.2, hey.1]
  simp only [List.mem_cons, List.mem_append, List.not_mem_nil, or_false] at hx hy ⊢
  tauto

/-- **Putting a node in.** -/
theorem Ring.insert (hcut : Cut h as bs p s x y) (he : e ∉ h :: (as ++ bs))
    (hring : l.Ring h (as ++ bs)) : (l.insert e x y).Ring h (as ++ e :: bs) := by
  obtain ⟨hbefore, -, hafter⟩ := hcut.ring_iff.mp hring
  have hbefore_ne : ∀ a ∈ p ++ [x], a ≠ e := by
    rintro a ha rfl
    rw [← hcut.before] at ha
    exact he (List.cons_subset_cons h (List.subset_append_left as bs) ha)
  have hafter_ne : ∀ a ∈ y :: s, a ≠ e := by
    rintro a ha rfl
    rw [← hcut.after] at ha
    simp only [List.mem_append, List.mem_cons, List.not_mem_nil, or_false] at ha he
    tauto
  have hex : e ≠ x := Ne.symm (hbefore_ne x (List.mem_append_right p List.mem_cons_self))
  have hye : y ≠ e := hafter_ne y List.mem_cons_self
  refine hcut.ring_cons_iff.mpr
    ⟨?_, linked_join _ x e, (linked_join l e y).join hex hye, ?_⟩
  · refine chain_join (chain_join hbefore ?_ ?_) ?_ ?_
    · exact fun hmem => hbefore_ne e (List.dropLast_subset _ hmem) rfl
    · rw [← hcut.before]
      exact hcut.y_notMem
    · rw [List.dropLast_concat]
      exact hcut.x_notMem_before
    · exact fun hmem => hbefore_ne e (List.mem_of_mem_tail hmem) rfl
  · refine chain_join (chain_join hafter ?_ ?_) ?_ ?_
    · exact fun hmem => hafter_ne e (List.dropLast_subset _ hmem) rfl
    · exact hcut.y_notMem_after
    · rw [← hcut.after, List.dropLast_concat]
      exact hcut.x_notMem
    · exact fun hmem => hafter_ne e (List.mem_of_mem_tail hmem) rfl

/-- A node is put behind the head. -/
theorem Ring.insert_front (hnodup : (h :: xs).Nodup) (he : e ∉ h :: xs) (hring : l.Ring h xs) :
    (l.insert e h (l.next h)).Ring h (e :: xs) := by
  obtain ⟨s, hs⟩ : ∃ s, xs ++ [h] = l.next h :: s := by
    cases xs with
    | nil => exact ⟨[], by rw [(ring_nil_iff.mp hring).1, List.nil_append]⟩
    | cons a xs => exact ⟨xs ++ [h], by rw [hring.next_head, List.cons_append]⟩
  have hcut : Cut h [] xs [] s h (l.next h) := ⟨rfl, hs, hnodup⟩
  exact Ring.insert hcut he hring

/-- A node put between the head and what it points to is a list if the head points to itself; it
does not matter what it points back to. -/
theorem ring_insert_singleton_iff (he : e ≠ h) : (l.insert e h y).Ring h [e] ↔ y = h := by
  unfold Ring
  rw [List.cons_append, List.singleton_append, List.isChain_cons_cons, List.isChain_pair]
  constructor
  · rintro ⟨-, hnext, -⟩
    have hy : (l.insert e h y).next e = y :=
      (Function.update_of_ne he ..).trans (Function.update_self ..)
    exact hy.symm.trans hnext
  · rintro rfl
    refine ⟨linked_join _ y e, ?_, ?_⟩
    · exact (Function.update_of_ne he ..).trans (Function.update_self ..)
    · exact (Function.update_of_ne he.symm ..).trans (Function.update_self ..)

omit [DecidableEq ν] in
/-- The head points back to the last node. -/
theorem Ring.prev_head (hring : l.Ring h xs) : ∃ p, h :: xs = p ++ [l.prev h] := by
  obtain hnil | ⟨p, x, hx⟩ := List.eq_nil_or_concat (h :: xs)
  · cases hnil
  · rw [List.concat_eq_append] at hx
    unfold Ring at hring
    rw [hx, List.append_assoc, List.cons_append, List.nil_append,
      List.isChain_append_cons_cons] at hring
    exact ⟨p, by rw [hx, hring.2.1.2]⟩

/-- A node is put before the head. -/
theorem Ring.insert_back (hnodup : (h :: xs).Nodup) (he : e ∉ h :: xs) (hring : l.Ring h xs) :
    (l.insert e (l.prev h) h).Ring h (xs ++ [e]) := by
  obtain ⟨p, hp⟩ := hring.prev_head
  have hcut : Cut h xs [] p [] (l.prev h) h := ⟨hp, rfl, by rwa [List.append_nil]⟩
  refine Ring.insert hcut ?_ ?_
  · rwa [List.append_nil]
  · rwa [List.append_nil]

-- ---------------------------------------------------------------------------
-- Several lists in one memory
-- ---------------------------------------------------------------------------

variable {ι : Type*} {head : ι → ν} {lists : ι → List ν} {i j : ι}

/-- The lists with the heads `head i` hold the nodes `lists i`, and share none. -/
structure Holds (l : Links ν) (head : ι → ν) (lists : ι → List ν) : Prop where
  ring : ∀ i, l.Ring (head i) (lists i)
  nodup : ∀ i, (head i :: lists i).Nodup
  disjoint : ∀ i j, i ≠ j → List.Disjoint (head i :: lists i) (head j :: lists j)

omit [DecidableEq ν] in
/-- Different heads that point to themselves. -/
theorem holds_nil (hinj : Function.Injective head) (hring : ∀ i, l.Ring (head i) []) :
    l.Holds head (fun _ => []) where
  ring := hring
  nodup i := List.nodup_singleton (head i)
  disjoint i j hne := by
    rw [List.singleton_disjoint, List.mem_singleton]
    exact fun heq => hne (hinj heq)

namespace Holds

variable (hl : l.Holds head lists)

include hl

omit [DecidableEq ν] in
theorem reaches_iff (i : ι) {a : ν} : l.Reaches (head i) a ↔ a ∈ lists i :=
  (hl.ring i).reaches_iff (hl.nodup i)

omit [DecidableEq ν] in
theorem next_eq_self_iff (i : ι) : l.next (head i) = head i ↔ lists i = [] :=
  (hl.ring i).next_eq_self_iff (hl.nodup i)

omit [DecidableEq ν] in
/-- A node is in one list. -/
theorem eq_of_mem (hi : e ∈ head i :: lists i) (hj : e ∈ head j :: lists j) : i = j := by
  by_contra hne
  exact hl.disjoint i j hne hi hj

omit [DecidableEq ν] in
theorem ne_head (he : e ∈ lists i) (j : ι) : e ≠ head j := by
  rintro rfl
  have heq : i = j := hl.eq_of_mem (List.mem_cons_of_mem _ he) List.mem_cons_self
  subst heq
  exact (List.nodup_cons.mp (hl.nodup i)).1 he

/-- A node is taken out of its list. -/
theorem unlink (he : e ∈ lists i) : (l.unlink e).Holds head (fun j => (lists j).erase e) := by
  have hsub : ∀ j, List.Sublist (head j :: (lists j).erase e) (head j :: lists j) := fun j =>
    List.Sublist.cons_cons (head j) List.erase_sublist
  refine ⟨fun j => ?_, fun j => (hl.nodup j).sublist (hsub j), fun j k hjk a ha hk =>
    hl.disjoint j k hjk ((hsub j).subset ha) ((hsub k).subset hk)⟩
  obtain ⟨as, bs, hsplit⟩ := List.append_of_mem he
  have hring := hl.ring i
  have hnodup := hl.nodup i
  rw [hsplit] at hring hnodup
  by_cases hji : j = i
  · subst hji
    have hnotin : e ∉ as := by
      simp only [List.nodup_cons, List.nodup_append] at hnodup
      exact fun has => hnodup.2.2.2 e has e List.mem_cons_self rfl
    rw [hsplit, List.erase_append_right _ hnotin, List.erase_cons_head]
    exact hring.unlink hnodup
  · have hnotin : e ∉ lists j := fun hj =>
      hji (hl.eq_of_mem (List.mem_cons_of_mem _ hj) (List.mem_cons_of_mem _ he))
    rw [List.erase_of_not_mem hnotin]
    -- the neighbours of `e` are in its own list
    obtain ⟨hprev, hnext⟩ := hring.neighbours hnodup
    rw [← hsplit] at hprev hnext
    exact (hl.ring j).join_frame (fun hj => hji (hl.eq_of_mem hj hprev))
      (fun hj => hji (hl.eq_of_mem hj hnext))

/-- A node taken out is in no list. -/
theorem notMem_erase (he : e ∈ lists i) (j : ι) : e ∉ head j :: (lists j).erase e := by
  have hnodup := (List.nodup_cons.mp (hl.nodup j)).2
  rw [List.mem_cons, not_or, hnodup.mem_erase_iff]
  exact ⟨hl.ne_head he j, fun hmem => hmem.1 rfl⟩

variable [DecidableEq ι]

/-- A new node is put between two neighbours of one list. -/
theorem insert {xs : List ν} (he : ∀ i, e ∉ head i :: lists i) (hperm : xs.Perm (e :: lists j))
    (hx : x ∈ head j :: lists j) (hy : y ∈ head j :: lists j)
    (hring : (l.insert e x y).Ring (head j) xs) :
    (l.insert e x y).Holds head (Function.update lists j xs) := by
  have hmem : ∀ i a, a ∈ head i :: Function.update lists j xs i →
      (i = j ∧ a = e) ∨ a ∈ head i :: lists i := by
    intro i a ha
    by_cases hij : i = j
    · subst hij
      rw [Function.update_self, List.mem_cons, hperm.mem_iff] at ha
      simp only [List.mem_cons] at ha ⊢
      tauto
    · rw [Function.update_of_ne hij] at ha
      exact Or.inr ha
  refine ⟨fun i => ?_, fun i => ?_, fun i k hik a hi hk => ?_⟩
  · by_cases hij : i = j
    · subst hij
      rwa [Function.update_self]
    · have hframe : ∀ a ∈ head j :: lists j, a ∉ head i :: lists i := fun a ha hi =>
        hij (hl.eq_of_mem hi ha)
      rw [Function.update_of_ne hij]
      exact ((hl.ring i).join_frame (he i) (hframe y hy)).join_frame (hframe x hx) (he i)
  · by_cases hij : i = j
    · subst hij
      rw [Function.update_self, ((hperm.cons (head i)).trans (List.Perm.swap e _ _)).nodup_iff]
      exact List.nodup_cons.mpr ⟨he i, hl.nodup i⟩
    · rw [Function.update_of_ne hij]
      exact hl.nodup i
  · rcases hmem i a hi with ⟨hij, hae⟩ | hi'
    · rcases hmem k a hk with ⟨hkj, -⟩ | hk'
      · exact hik (hij.trans hkj.symm)
      · exact he k (hae ▸ hk')
    · rcases hmem k a hk with ⟨-, hae⟩ | hk'
      · exact he i (hae ▸ hi')
      · exact hl.disjoint i k hik hi' hk'

/-- A new node becomes the first of a list. -/
theorem insert_front (he : ∀ i, e ∉ head i :: lists i) :
    (l.insert e (head j) (l.next (head j))).Holds head
      (Function.update lists j (e :: lists j)) := by
  refine hl.insert he (List.Perm.refl _) List.mem_cons_self ?_
    ((hl.ring j).insert_front (hl.nodup j) (he j))
  cases hj : lists j with
  | nil =>
    have hring := hl.ring j
    rw [hj] at hring
    rw [(ring_nil_iff.mp hring).1]
    exact List.mem_cons_self
  | cons a as =>
    have hring := hl.ring j
    rw [hj] at hring
    rw [hring.next_head]
    exact List.mem_cons_of_mem _ List.mem_cons_self

/-- A new node becomes the last of a list. -/
theorem insert_back (he : ∀ i, e ∉ head i :: lists i) :
    (l.insert e (l.prev (head j)) (head j)).Holds head
      (Function.update lists j (lists j ++ [e])) := by
  refine hl.insert he (List.perm_append_singleton e _) ?_ List.mem_cons_self
    ((hl.ring j).insert_back (hl.nodup j) (he j))
  obtain ⟨p, hp⟩ := (hl.ring j).prev_head
  rw [hp]
  exact List.mem_append_right p List.mem_cons_self

end Holds

end Links

end Bathos.Lib
