import Bathos.Lib.LinkedList

/-!
# Bathos — `linux/list.h`

The functions of `list.h` the buffer queues use, and what they make of the lists in a
memory.

Main results:

* `holds_listAdd` — a new entry becomes the first of a list;
* `holds_listMove`, `holds_listMoveTail` — an entry leaves the list it is in and becomes
  the first, the last of another, or of the same.
-/

namespace Bathos

open Bathos.Lib

variable {ν : Type*} [DecidableEq ν]

/-- `INIT_LIST_HEAD`. -/
def initListHead (list : ν) (l : Links ν) : Links ν :=
  { next := Function.update l.next list list, prev := Function.update l.prev list list }

/-- `__list_add`. -/
def listAddAt (new prev next : ν) (l : Links ν) : Links ν :=
  let l := { l with prev := Function.update l.prev next new }
  let l := { l with next := Function.update l.next new next }
  let l := { l with prev := Function.update l.prev new prev }
  { l with next := Function.update l.next prev new }

/-- `list_add`. -/
def listAdd (new head : ν) (l : Links ν) : Links ν := listAddAt new head (l.next head) l

/-- `list_add_tail`. -/
def listAddTail (new head : ν) (l : Links ν) : Links ν := listAddAt new (l.prev head) head l

/-- `__list_del`. -/
def listDelAt (prev next : ν) (l : Links ν) : Links ν :=
  let l := { l with prev := Function.update l.prev next prev }
  { l with next := Function.update l.next prev next }

/-- `__list_del_entry`. -/
def listDelEntry (entry : ν) (l : Links ν) : Links ν := listDelAt (l.prev entry) (l.next entry) l

/-- `list_move`. -/
def listMove (list head : ν) (l : Links ν) : Links ν := listAdd list head (listDelEntry list l)

/-- `list_move_tail`. -/
def listMoveTail (list head : ν) (l : Links ν) : Links ν :=
  listAddTail list head (listDelEntry list l)

/-- `list_empty`. -/
def listEmpty (head : ν) (l : Links ν) : Bool := l.next head = head

theorem listAddAt_eq (new prev next : ν) (l : Links ν) :
    listAddAt new prev next l = l.insert new prev next := rfl

theorem listDelEntry_eq (entry : ν) (l : Links ν) : listDelEntry entry l = l.unlink entry := rfl

variable {ι : Type*} [DecidableEq ι] {head : ι → ν} {lists : ι → List ν} {l : Links ν} {e : ν}
  {i j : ι}

/-- A head that is initialised holds the empty list, the other empty lists stay empty. -/
theorem ring_initListHead {h : ν} (list : ν) (hring : h = list ∨ l.Ring h []) :
    (initListHead list l).Ring h [] := by
  rw [Links.ring_nil_iff] at hring ⊢
  unfold initListHead
  by_cases hlist : h = list
  · subst hlist
    exact ⟨Function.update_self .., Function.update_self ..⟩
  · have hself := hring.resolve_left hlist
    exact ⟨(Function.update_of_ne hlist ..).trans hself.1,
      (Function.update_of_ne hlist ..).trans hself.2⟩

/-- Where the entry is moved to, it is the first; it is gone from where it was. -/
def movedFront (lists : ι → List ν) (e : ν) (j : ι) : ι → List ν :=
  Function.update (fun i => (lists i).erase e) j (e :: (lists j).erase e)

def movedBack (lists : ι → List ν) (e : ν) (j : ι) : ι → List ν :=
  Function.update (fun i => (lists i).erase e) j ((lists j).erase e ++ [e])

section Moved

variable (hl : l.Holds head lists)

include hl

theorem holds_listAdd (he : ∀ i, e ∉ head i :: lists i) :
    (listAdd e (head j) l).Holds head (Function.update lists j (e :: lists j)) :=
  hl.insert_front he

theorem holds_listMove (he : e ∈ lists i) :
    (listMove e (head j) l).Holds head (movedFront lists e j) :=
  (hl.unlink he).insert_front (hl.notMem_erase he)

theorem holds_listMoveTail (he : e ∈ lists i) :
    (listMoveTail e (head j) l).Holds head (movedBack lists e j) :=
  (hl.unlink he).insert_back (hl.notMem_erase he)

theorem mem_movedFront {a : ν} :
    a ∈ movedFront lists e j i ↔ (a = e ∧ i = j) ∨ (a ≠ e ∧ a ∈ lists i) := by
  have hnodup := (List.nodup_cons.mp (hl.nodup i)).2
  unfold movedFront
  by_cases hij : i = j
  · subst hij
    rw [Function.update_self, List.mem_cons, hnodup.mem_erase_iff]
    simp
  · rw [Function.update_of_ne hij, hnodup.mem_erase_iff]
    simp [hij]

theorem mem_movedBack {a : ν} :
    a ∈ movedBack lists e j i ↔ (a = e ∧ i = j) ∨ (a ≠ e ∧ a ∈ lists i) := by
  rw [← mem_movedFront hl]
  unfold movedFront movedBack
  by_cases hij : i = j
  · subst hij
    rw [Function.update_self, Function.update_self]
    exact (List.perm_append_singleton _ _).mem_iff
  · rw [Function.update_of_ne hij, Function.update_of_ne hij]

end Moved

end Bathos
