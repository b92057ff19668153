import Bathos.Libc.Compare

/-!
# Bathos — the command line of a program

`lib/cmdline.c`: handlers that are declared all over the program and lie one behind the other
in a section of their own. An argument goes to the first handler with whose name it begins,
whatever comes behind the name.

Main results:

* `findItem_eq` — the handler of an argument;
* `parseCmdline_spec` — the calls for a command line, and when it is refused;
* `handler_called_iff` — the handlers that are ever called.
-/

namespace Bathos.Shell

open Bathos.Libc

-- ---------------------------------------------------------------------------
-- The code
-- ---------------------------------------------------------------------------

/-- `struct cmdline_item`: a name without a 0, and its handler. -/
structure CmdlineItem where
  name : List UInt8
  parse : List UInt8 → Int
  name_ne : 0 ∉ name

/-- `_find_item`, over a section: the place of the item. -/
def findItem (n : List UInt8) : List CmdlineItem → Option (Option Nat)
  | [] => some none
  | item :: items => do
    let len ← strlen (cString item.name [])
    let c ← strncmp (cString item.name []) n len
    if c = 0 then return some 0 else return (← findItem n items).map (· + 1)

/-- A call of a handler. -/
structure ParseCall where
  item : Nat
  arg : List UInt8
deriving DecidableEq, Repr

/-- What `item->parse` returns. -/
def parsed (items : List CmdlineItem) (c : ParseCall) : Int :=
  (items[c.item]?).elim 0 fun item => item.parse c.arg

/-- `parse_cmdline`: its result, and the handlers called. -/
def parseCmdline (items : List CmdlineItem) : List (List UInt8) → Option (Int × List ParseCall)
  | [] => some (0, [])
  | arg :: argv => do
    match ← findItem (cString arg []) items with
    | none => parseCmdline items argv
    | some item =>
      if parsed items ⟨item, arg⟩ < 0 then return (-1, [⟨item, arg⟩])
      else
        let (r, calls) ← parseCmdline items argv
        return (r, ⟨item, arg⟩ :: calls)

-- ---------------------------------------------------------------------------
-- The handler of an argument
-- ---------------------------------------------------------------------------

/-- The argument begins with the name. -/
def CmdlineItem.Matches (item : CmdlineItem) (arg : List UInt8) : Prop := item.name <+: arg

instance (item : CmdlineItem) (arg : List UInt8) : Decidable (item.Matches arg) :=
  inferInstanceAs (Decidable (_ <+: _))

/-- The first handler whose name an argument begins with. -/
def handlerOf (items : List CmdlineItem) (arg : List UInt8) : Option Nat :=
  items.findIdx? fun item => item.Matches arg

section Find

variable {arg : List UInt8}

/-- **The handler of an argument.** -/
theorem findItem_eq (items : List CmdlineItem) (harg : 0 ∉ arg) :
    findItem (cString arg []) items = some (handlerOf items arg) := by
  unfold handlerOf
  induction items with
  | nil => rfl
  | cons item items ih =>
    have hiff := strncmp_prefix_iff item.name_ne harg [] []
    have hcmp := strncmp_eq item.name_ne harg [] [] item.name.length
    rw [hcmp, Option.some_inj] at hiff
    unfold findItem
    rw [strlen_eq item.name_ne]
    simp only [Option.bind_eq_bind, Option.bind_some, hcmp, ih, List.findIdx?_cons]
    by_cases hmatch : item.Matches arg
    · rw [if_pos (hiff.mpr hmatch), if_pos (decide_eq_true hmatch)]
      rfl
    · rw [if_neg fun h => hmatch (hiff.mp h), if_neg (by simp [hmatch])]
      rfl

/-- No handler in front has a name that the argument begins with. -/
theorem handlerOf_eq_some_iff {items : List CmdlineItem} {k : Nat} :
    handlerOf items arg = some k ↔
      ∃ h : k < items.length, items[k].Matches arg ∧ ∀ j (hj : j < k), ¬ items[j].Matches arg := by
  unfold handlerOf
  rw [List.findIdx?_eq_some_iff_getElem]
  simp

/-- The handlers that an argument can go to. -/
theorem handlerOf_reachable_iff (items : List CmdlineItem) (k : Nat) :
    (∃ arg, 0 ∉ arg ∧ handlerOf items arg = some k) ↔
      ∃ h : k < items.length, ∀ j (hj : j < k), ¬ items[j].name <+: items[k].name := by
  constructor
  · rintro ⟨arg, -, harg⟩
    obtain ⟨hk, hmatch, hfirst⟩ := handlerOf_eq_some_iff.mp harg
    exact ⟨hk, fun j hj hfront => hfirst j hj (hfront.trans hmatch)⟩
  · rintro ⟨hk, hfirst⟩
    refine ⟨items[k].name, items[k].name_ne, handlerOf_eq_some_iff.mpr ⟨hk, ?_, hfirst⟩⟩
    exact List.prefix_refl _

end Find

-- ---------------------------------------------------------------------------
-- A command line
-- ---------------------------------------------------------------------------

/-- The calls for a command line, if none is refused. -/
def handled (items : List CmdlineItem) (argv : List (List UInt8)) : List ParseCall :=
  argv.filterMap fun arg => (handlerOf items arg).map fun k => ⟨k, arg⟩

/-- The calls up to the first that is refused, with it. -/
def upToRefused (items : List CmdlineItem) : List ParseCall → List ParseCall
  | [] => []
  | c :: cs => if parsed items c < 0 then [c] else c :: upToRefused items cs

/-- **A command line**: every argument with a handler goes to it, in order, up to the first
that is refused. -/
theorem parseCmdline_spec (items : List CmdlineItem) {argv : List (List UInt8)}
    (hargv : ∀ arg ∈ argv, 0 ∉ arg) :
    parseCmdline items argv =
      some (if ∃ c ∈ handled items argv, parsed items c < 0 then -1 else 0,
        upToRefused items (handled items argv)) := by
  induction argv with
  | nil => rfl
  | cons arg argv ih =>
    have hrest := ih fun a ha => hargv a (List.mem_cons_of_mem arg ha)
    unfold parseCmdline
    rw [findItem_eq items (hargv arg List.mem_cons_self)]
    simp only [Option.bind_eq_bind, Option.bind_some]
    cases hhandler : handlerOf items arg with
    | none =>
      have hhandled : handled items (arg :: argv) = handled items argv :=
        List.filterMap_cons_none (by rw [hhandler]; rfl)
      rw [hhandled]
      exact hrest
    | some k =>
      have hhandled : handled items (arg :: argv) = ⟨k, arg⟩ :: handled items argv :=
        List.filterMap_cons_some (by rw [hhandler]; rfl)
      rw [hhandled]
      unfold upToRefused
      simp only [List.exists_mem_cons_iff]
      by_cases hrefused : parsed items ⟨k, arg⟩ < 0
      · rw [if_pos hrefused, if_pos (.inl hrefused), if_pos hrefused]
        rfl
      · rw [if_neg hrefused, if_neg hrefused, hrest]
        simp only [hrefused, false_or]
        rfl

/-- **The handlers that are ever called**: no handler in front has a name that theirs begins
with. -/
theorem handler_called_iff (items : List CmdlineItem) (k : Nat) :
    (∃ argv, (∀ arg ∈ argv, 0 ∉ arg) ∧
      ∃ r calls, parseCmdline items argv = some (r, calls) ∧ ∃ c ∈ calls, c.item = k) ↔
      ∃ h : k < items.length, ∀ j (hj : j < k), ¬ items[j].name <+: items[k].name := by
  rw [← handlerOf_reachable_iff]
  have hsub : ∀ cs, ∀ c ∈ upToRefused items cs, c ∈ cs := by
    intro cs
    induction cs with
    | nil => exact fun c hc => hc
    | cons c' cs ih =>
      intro c hc
      unfold upToRefused at hc
      split at hc
      · exact List.mem_cons.mpr (.inl (List.mem_singleton.mp hc))
      · exact List.cons_subset_cons c' (ih) hc
  constructor
  · rintro ⟨argv, hargv, r, calls, hrun, c, hc, rfl⟩
    rw [parseCmdline_spec items hargv] at hrun
    obtain ⟨-, rfl⟩ := Prod.mk.inj (Option.some.inj hrun)
    obtain ⟨arg, harg, heq⟩ := List.mem_filterMap.mp (hsub _ c hc)
    obtain ⟨k, hk, rfl⟩ := Option.map_eq_some_iff.mp heq
    exact ⟨arg, hargv arg harg, hk⟩
  · rintro ⟨arg, harg, hk⟩
    have hargv : ∀ a ∈ [arg], 0 ∉ a := by
      intro a ha
      rw [List.mem_singleton.mp ha]
      exact harg
    have hhandled : handled items [arg] = [⟨k, arg⟩] := by
      unfold handled
      rw [List.filterMap_cons_some (by rw [hk]; rfl)]
      rfl
    refine ⟨[arg], hargv, _, _, parseCmdline_spec items hargv, ⟨k, arg⟩, ?_, rfl⟩
    rw [hhandled]
    unfold upToRefused
    split <;> exact List.mem_cons_self

end Bathos.Shell
