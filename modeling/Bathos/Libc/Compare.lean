import Mathlib.Order.Compare
import Mathlib.Order.RelClasses
import Mathlib.Data.List.Lex
import Mathlib.Tactic

/-!
# Bathos — strings compared

`strlen`, `strcmp` and `strncmp` of `lib/string.c`. A string is the array behind a pointer,
up to its end; reading on behind it is no result.

Main results:

* `strcmp_eq`, `strncmp_eq` — the order of the dictionary, of the unsigned bytes;
* `strncmp_prefix_iff` — a comparison over the length of the first string.
-/

namespace Bathos.Libc

-- ---------------------------------------------------------------------------
-- The code
-- ---------------------------------------------------------------------------

/-- `strlen`. -/
def strlen : List UInt8 → Option Nat
  | [] => none
  | c :: sc => if c = 0 then some 0 else (strlen sc).map (· + 1)

/-- `strcmp`. -/
def strcmp : List UInt8 → List UInt8 → Option Int
  | c1 :: cs, c2 :: ct =>
    if c1 ≠ c2 then some (if c1 < c2 then -1 else 1)
    else if c1 = 0 then some 0
    else strcmp cs ct
  | _, _ => none

/-- `strncmp`. -/
def strncmp : List UInt8 → List UInt8 → Int → Option Int
  | c1 :: cs, c2 :: ct, count =>
    if count = 0 then some 0
    else if c1 ≠ c2 then some (if c1 < c2 then -1 else 1)
    else if c1 = 0 then some 0
    else strncmp cs ct (count - 1)
  | _, _, count => if count = 0 then some 0 else none

-- ---------------------------------------------------------------------------
-- The order
-- ---------------------------------------------------------------------------

/-- A string as it lies in memory. -/
def cString (s rest : List UInt8) : List UInt8 := s ++ 0 :: rest

/-- The order of two strings, as the functions return it. -/
def order (s t : List UInt8) : Int :=
  match cmp (s.map UInt8.toNat) (t.map UInt8.toNat) with
  | .lt => -1
  | .eq => 0
  | .gt => 1

theorem order_eq_zero_iff {s t : List UInt8} : order s t = 0 ↔ s = t := by
  have hinj : Function.Injective (List.map UInt8.toNat) :=
    List.map_injective_iff.mpr fun a b h => UInt8.toNat.inj h
  unfold order cmp cmpUsing
  rcases lt_trichotomy (s.map UInt8.toNat) (t.map UInt8.toNat) with h | h | h
  · rw [if_pos h]
    exact iff_of_false (by decide) fun heq => h.ne (congrArg _ heq)
  · obtain rfl := hinj h
    rw [if_neg (lt_irrefl _), if_neg (lt_irrefl _)]
    exact iff_of_true rfl rfl
  · rw [if_neg h.not_gt, if_pos h]
    exact iff_of_false (by decide) fun heq => h.ne (congrArg _ heq.symm)

theorem order_cons_self (c : UInt8) (s t : List UInt8) : order (c :: s) (c :: t) = order s t := by
  unfold order cmp cmpUsing
  simp only [List.map_cons, List.cons_lt_cons_iff, lt_irrefl, true_and, false_or]

theorem order_cons_ne {c1 c2 : UInt8} (h : c1 ≠ c2) (s t : List UInt8) :
    order (c1 :: s) (c2 :: t) = if c1 < c2 then -1 else 1 := by
  have hne : c1.toNat ≠ c2.toNat := fun heq => h (UInt8.toNat.inj heq)
  have hlt : c1 < c2 ↔ c1.toNat < c2.toNat := UInt8.lt_iff_toNat_lt
  unfold order cmp cmpUsing
  simp only [List.map_cons, List.cons_lt_cons_iff, hne, hne.symm, false_and, or_false, hlt]
  by_cases hc : c1.toNat < c2.toNat
  · simp [hc]
  · have hgt : c2.toNat < c1.toNat := by omega
    simp [hc, hgt]

theorem order_nil_cons (c : UInt8) (t : List UInt8) : order [] (c :: t) = -1 := by
  unfold order cmp cmpUsing
  simp

theorem order_cons_nil (c : UInt8) (s : List UInt8) : order (c :: s) [] = 1 := by
  unfold order cmp cmpUsing
  simp

-- ---------------------------------------------------------------------------
-- What the functions return
-- ---------------------------------------------------------------------------

theorem strlen_eq {s : List UInt8} (hs : 0 ∉ s) (rest : List UInt8) :
    strlen (cString s rest) = some s.length := by
  induction s with
  | nil => rfl
  | cons c s ih =>
    rw [List.mem_cons, not_or] at hs
    show strlen (c :: cString s rest) = _
    unfold strlen
    rw [if_neg (Ne.symm hs.1), ih hs.2, List.length_cons]
    rfl

/-- The end of a string is in front of all characters. -/
theorem zero_lt_of_ne {c : UInt8} (hc : c ≠ 0) : 0 < c ∧ ¬ c < 0 := by
  have hne : c.toNat ≠ 0 := fun h => hc (UInt8.toNat.inj h)
  rw [UInt8.lt_iff_toNat_lt, UInt8.lt_iff_toNat_lt]
  exact ⟨Nat.pos_of_ne_zero hne, Nat.not_lt_zero _⟩

/-- The two strings up to the end of one of them. -/
theorem strcmp_eq {s t : List UInt8} (hs : 0 ∉ s) (ht : 0 ∉ t) (rest rest' : List UInt8) :
    strcmp (cString s rest) (cString t rest') = some (order s t) := by
  induction s generalizing t with
  | nil =>
    cases t with
    | nil => rfl
    | cons c t =>
      have hc : c ≠ 0 := fun h => ht (h ▸ List.mem_cons_self)
      show strcmp (0 :: rest) (c :: cString t rest') = _
      unfold strcmp
      rw [if_pos (Ne.symm hc), if_pos (zero_lt_of_ne hc).1, order_nil_cons]
  | cons c s ih =>
    rw [List.mem_cons, not_or] at hs
    cases t with
    | nil =>
      show strcmp (c :: cString s rest) (0 :: rest') = _
      unfold strcmp
      rw [if_pos (Ne.symm hs.1), if_neg (zero_lt_of_ne (Ne.symm hs.1)).2, order_cons_nil]
    | cons d t =>
      rw [List.mem_cons, not_or] at ht
      show strcmp (c :: cString s rest) (d :: cString t rest') = _
      unfold strcmp
      by_cases hcd : c = d
      · subst hcd
        rw [if_neg (not_not.mpr rfl), if_neg (Ne.symm hs.1), ih hs.2 ht.2, order_cons_self]
      · rw [if_pos hcd, order_cons_ne hcd]

/-- A negative count is never used up. -/
theorem strncmp_neg (cs ct : List UInt8) {count : Int} (hcount : count < 0) :
    strncmp cs ct count = strcmp cs ct := by
  induction cs generalizing ct count with
  | nil =>
    unfold strncmp strcmp
    rw [if_neg hcount.ne]
  | cons c1 cs ih =>
    cases ct with
    | nil =>
      unfold strncmp strcmp
      rw [if_neg hcount.ne]
    | cons c2 ct =>
      unfold strncmp strcmp
      rw [if_neg hcount.ne, ih ct (by omega)]

/-- At most `count` characters of both. -/
theorem strncmp_eq {s t : List UInt8} (hs : 0 ∉ s) (ht : 0 ∉ t) (rest rest' : List UInt8)
    (count : Nat) :
    strncmp (cString s rest) (cString t rest') count =
      some (order (s.take count) (t.take count)) := by
  induction count generalizing s t with
  | zero =>
    cases s <;> cases t <;> rfl
  | succ count ih =>
    have hcount : ((count + 1 : Nat) : Int) ≠ 0 := by omega
    have hpred : ((count + 1 : Nat) : Int) - 1 = count := by omega
    cases s with
    | nil =>
      cases t with
      | nil =>
        show strncmp (0 :: rest) (0 :: rest') _ = _
        unfold strncmp
        rw [if_neg hcount, if_neg (not_not.mpr rfl), if_pos rfl]
        rfl
      | cons c t =>
        have hc : c ≠ 0 := fun h => ht (h ▸ List.mem_cons_self)
        show strncmp (0 :: rest) (c :: cString t rest') _ = _
        unfold strncmp
        rw [if_neg hcount, if_pos (Ne.symm hc), if_pos (zero_lt_of_ne hc).1]
        exact congrArg some (order_nil_cons c _).symm
    | cons c s =>
      rw [List.mem_cons, not_or] at hs
      cases t with
      | nil =>
        show strncmp (c :: cString s rest) (0 :: rest') _ = _
        unfold strncmp
        rw [if_neg hcount, if_pos (Ne.symm hs.1), if_neg (zero_lt_of_ne (Ne.symm hs.1)).2]
        exact congrArg some (order_cons_nil c _).symm
      | cons d t =>
        rw [List.mem_cons, not_or] at ht
        show strncmp (c :: cString s rest) (d :: cString t rest') _ = _
        unfold strncmp
        rw [if_neg hcount, List.take_succ_cons, List.take_succ_cons]
        by_cases hcd : c = d
        · subst hcd
          rw [if_neg (not_not.mpr rfl), if_neg (Ne.symm hs.1), hpred, ih hs.2 ht.2,
            order_cons_self]
        · rw [if_pos hcd, order_cons_ne hcd]

/-- **A comparison over the length of the first string** looks whether the second begins with
it. -/
theorem strncmp_prefix_iff {s t : List UInt8} (hs : 0 ∉ s) (ht : 0 ∉ t)
    (rest rest' : List UInt8) :
    strncmp (cString s rest) (cString t rest') s.length = some 0 ↔ s <+: t := by
  rw [strncmp_eq hs ht, Option.some_inj, order_eq_zero_iff, List.take_length,
    List.prefix_iff_eq_take]

end Bathos.Libc
