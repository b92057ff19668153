import Bathos.Buffer.Descriptors
import Bathos.Lib.Run

/-!
# Bathos — the lists of a buffer queue under interrupts

`bathos_bqueue_get_buf` looks at the free list before it disables interrupts, takes the
first buffer, and only the move to the busy list is atomic. Here it runs one step at a
time, with `bathos_bqueue_server_buf_done` and the driver's moves of busy buffers between
any two of them.

Main results:

* `run_getBuf` — without interrupts the steps are `Bqueue.getBuf`;
* `buffers_conserved` — in every run each buffer is in exactly one list, `get_buf` returns
  a buffer a second time only if it has been done since the first call moved it to the
  busy list, returns `NULL` exactly when the queue is stopped or has no free buffer, and
  an `available` event comes with every end of the shortage.
-/

namespace Bathos.BufferQueue

open Bathos.Lib

-- ---------------------------------------------------------------------------
-- One step at a time
-- ---------------------------------------------------------------------------

/-- The lists a buffer can be in. -/
inductive Lst where
  | free
  | busy
  | own (d : Nat)
deriving DecidableEq, Repr

def Lst.head : Lst → Node
  | .free => .freeBufs
  | .busy => .busyBufs
  | .own d => .own d

/-- What the main loop does next: nothing on a queue, one of the steps of
`bathos_bqueue_get_buf` (look at `stopped`, look at the free list, take its first buffer,
move it, set its release event, count it, return it), or the end of
`bathos_bqueue_server_buf_done`. -/
inductive Pc where
  | idle
  | called
  | running
  | nonEmpty
  | picked (out : Node)
  | moved (out : Node)
  | remapped (out : Node)
  | counted (out : Node)
  | finishing (freeListWasEmpty : Bool)
deriving DecidableEq, Repr

/-- What happened so far. -/
inductive Entry where
  | moved (out : Node)
  | done (b : Node)
  | returned (out : Option Node)
deriving DecidableEq, Repr

structure System where
  q : Bqueue
  pc : Pc
  log : List Entry

/-- The main loop takes a step or makes a call; an interrupt calls
`bathos_bqueue_server_buf_done` on a buffer; the driver moves a buffer to a list, or to
its tail; the queue is started or stopped. -/
inductive Act where
  | main
  | getBuf
  | bufDone (b : Nat)
  | irqBufDone (b : Nat)
  | move (tail : Bool) (b : Nat) (dst : Lst)
  | start
  | stop
deriving DecidableEq, Repr

namespace System

/-- The return of `bathos_bqueue_get_buf`. -/
def ret (out : Option Node) (s : System) : System :=
  { s with pc := .idle, log := s.log ++ [.returned out] }

/-- The next step of the main loop. -/
def mainStep (s : System) : System :=
  match s.pc with
  | .idle => s
  | .called => if s.q.stopped then s.ret none else { s with pc := .running }
  | .running => if listEmpty .freeBufs s.q.links then s.ret none else { s with pc := .nonEmpty }
  | .nonEmpty => { s with pc := .picked (s.q.links.next .freeBufs) }
  -- between `interrupt_disable` and `interrupt_restore`
  | .picked out =>
    { q := { s.q with links := listMove out .busyBufs s.q.links }, pc := .moved out,
      log := s.log ++ [.moved out] }
  | .moved out =>
    { s with q := s.q.bdescrRemapReleaseEvent out s.q.setupEvent, pc := .remapped out }
  | .remapped out => { s with q := s.q.bdescrGet out, pc := .counted out }
  | .counted out => s.ret (some out)
  | .finishing freeListWasEmpty =>
    { s with q := s.q.bufDoneTrigger freeListWasEmpty, pc := .idle }

/-- A call the main loop is not ready for is skipped. -/
def step (s : System) : Act → System
  | .main => s.mainStep
  | .getBuf => if s.pc = .idle then { s with pc := .called } else s
  | .bufDone b =>
    if s.pc = .idle then
      { q := (s.q.bufDoneMove (.buf b)).2, pc := .finishing (s.q.bufDoneMove (.buf b)).1,
        log := s.log ++ [.done (.buf b)] }
    else s
  | .irqBufDone b =>
    { s with q := s.q.serverBufDone (.buf b), log := s.log ++ [.done (.buf b)] }
  | .move tail b dst =>
    { s with q := { s.q with
        links := if tail then listMoveTail (.buf b) dst.head s.q.links
          else listMove (.buf b) dst.head s.q.links } }
  | .start => { s with q := s.q.start }
  | .stop => { s with q := s.q.stop }

/-- Both sides have initialised the queue. -/
def initial (q : Bqueue) (available processed : Option Nat) : System :=
  { q := q.clientInit available processed, pc := .idle, log := [] }

end System

-- ---------------------------------------------------------------------------
-- What is asked
-- ---------------------------------------------------------------------------

/-- Only buffers of the queue are done and moved, and only when they are not free. -/
def Allowed (n : Nat) (s : System) : Act → Prop
  | .bufDone b => b < n ∧ ¬ s.q.links.Reaches .freeBufs (.buf b)
  | .irqBufDone b => b < n ∧ ¬ s.q.links.Reaches .freeBufs (.buf b)
  | .move _ b dst => b < n ∧ ¬ s.q.links.Reaches .freeBufs (.buf b) ∧ dst ≠ .free
  | _ => True

/-- Every buffer is in exactly one list. -/
def Conserved (n : Nat) (s : System) : Prop :=
  ∀ b < n, ∃! i : Lst, s.q.links.Reaches i.head (.buf b)

/-- A buffer returned twice has been done in between. -/
def DoneBetween (log : List Entry) : Prop :=
  ∀ (b : Node) (p m r : List Entry),
    log = p ++ Entry.returned (some b) :: m ++ Entry.returned (some b) :: r → Entry.done b ∈ m

/-- No more than `done` entries: nothing the main loop's `bathos_bqueue_get_buf` did. -/
def OnlyDone (log : List Entry) : Prop := ∀ e ∈ log, ∃ b, e = .done b

/-- A buffer returned twice has been done after the earlier call moved it to the busy
list, and before the later one did. -/
def DoneSinceMoved (log : List Entry) : Prop :=
  ∀ (b : Node) (p m r : List Entry),
    log = p ++ Entry.returned (some b) :: m ++ Entry.returned (some b) :: r →
    ∃ p₁ p₂ m₁ m₂ : List Entry,
      p = p₁ ++ Entry.moved b :: p₂ ∧ OnlyDone p₂ ∧ m = m₁ ++ Entry.moved b :: m₂ ∧
        (Entry.done b ∈ p₂ ∨ Entry.done b ∈ m₁)

def FreeEmpty (s : System) : Prop := ∀ a, ¬ s.q.links.Reaches .freeBufs a

/-- `NULL` is returned exactly by the two tests. -/
def NullOk (s : System) (a : Act) : Prop :=
  (s.step a).log = s.log ++ [.returned none] ↔
    a = .main ∧ (s.pc = .called ∧ s.q.stopped = true ∨ s.pc = .running ∧ FreeEmpty s)

/-- The event that ends a shortage: it is triggered in the call that made a buffer free. -/
def AvailableOk (s : System) (a : Act) : Prop :=
  s.q.availableEvent.isSome →
    (FreeEmpty s → ¬ FreeEmpty (s.step a) →
      (∃ b, a = .irqBufDone b) ∧
          (s.step a).q.events = s.q.events ++ [(s.q.availableEvent, .queue)] ∨
        (∃ b, a = .bufDone b) ∧ (s.step a).pc = .finishing true) ∧
    (a = .main → s.pc = .finishing true →
      (s.step a).q.events = s.q.events ++ [(s.q.availableEvent, .queue)])

-- ---------------------------------------------------------------------------
-- The log
-- ---------------------------------------------------------------------------

theorem snoc_eq_iff {α : Type*} {l p s : List α} {x e : α} :
    l ++ [e] = p ++ x :: s ↔ (s = [] ∧ l = p ∧ e = x) ∨ ∃ s', s = s' ++ [e] ∧ l = p ++ x :: s' := by
  obtain rfl | ⟨s', y, rfl⟩ := List.eq_nil_or_concat s
  · rw [List.append_singleton_inj]
    simp
  · rw [List.concat_eq_append, ← List.cons_append, ← List.append_assoc, List.append_singleton_inj]
    simp only [List.append_eq_nil_iff, List.cons_ne_nil, and_false, false_and, false_or,
      List.append_singleton_inj]
    exact ⟨fun h => ⟨s', ⟨rfl, h.2.symm⟩, h.1⟩, fun ⟨_, ⟨hs, he⟩, hl⟩ => ⟨hs ▸ hl, he.symm⟩⟩

/-- The latest call moved `b`. -/
def MovedLast (log : List Entry) (b : Node) : Prop :=
  ∃ p s, log = p ++ .moved b :: s ∧ OnlyDone s

theorem MovedLast.done {log : List Entry} {b c : Node} (h : MovedLast log b) :
    MovedLast (log ++ [.done c]) b := by
  obtain ⟨p, s, hlog, hs⟩ := h
  refine ⟨p, s ++ [.done c], by rw [hlog, List.append_assoc, List.cons_append], fun e he => ?_⟩
  rcases List.mem_append.mp he with hmem | hlast
  · exact hs e hmem
  · exact ⟨c, List.mem_singleton.mp hlast⟩

theorem movedLast_moved (log : List Entry) (b : Node) : MovedLast (log ++ [.moved b]) b :=
  ⟨log, [], rfl, fun _ he => absurd he List.not_mem_nil⟩

/-- A buffer in the free list has been done since it was moved, every buffer has between
two moves, and what is returned was moved in the same call. -/
structure LogOk (free : List Node) (log : List Entry) : Prop where
  free : ∀ b ∈ free, ∀ p s : List Entry, log = p ++ Entry.moved b :: s → Entry.done b ∈ s
  between : ∀ (b : Node) (p m s : List Entry),
    log = p ++ Entry.moved b :: m ++ Entry.moved b :: s → Entry.done b ∈ m
  returned : ∀ (b : Node) (p s : List Entry),
    log = p ++ Entry.returned (some b) :: s → MovedLast p b

theorem logOk_nil (free : List Node) : LogOk free [] where
  free b _ p s h := absurd h.symm (by simp)
  between b p m s h := absurd h.symm (by simp)
  returned b p s h := absurd h.symm (by simp)

namespace LogOk

variable {free free' : List Node} {log : List Entry} {e : Entry}

theorem snoc (h : LogOk free log) (hfree : ∀ a ∈ free', (a ∈ free ∧ e ≠ .moved a) ∨ e = .done a)
    (hmoved : ∀ b, e = .moved b → b ∈ free)
    (hreturned : ∀ b, e = .returned (some b) → MovedLast log b) : LogOk free' (log ++ [e]) where
  free b hb p s hlog := by
    rcases snoc_eq_iff.mp hlog with ⟨-, -, he⟩ | ⟨s', rfl, hlog'⟩
    · rcases hfree b hb with ⟨-, hne⟩ | hdone
      · exact absurd he hne
      · rw [hdone] at he
        cases he
    · rcases hfree b hb with ⟨hmem, -⟩ | hdone
      · exact List.mem_append_left _ (h.free b hmem p s' hlog')
      · rw [hdone]
        exact List.mem_append_right _ List.mem_cons_self
  between b p m s hlog := by
    rcases snoc_eq_iff.mp hlog with ⟨-, hlog', he⟩ | ⟨s', -, hlog'⟩
    · exact h.free b (hmoved b he) p m hlog'
    · exact h.between b p m s' hlog'
  returned b p s hlog := by
    rcases snoc_eq_iff.mp hlog with ⟨-, hlog', he⟩ | ⟨s', -, hlog'⟩
    · exact hlog' ▸ hreturned b he
    · exact h.returned b p s' hlog'

/-- The move of a returned buffer comes behind everything returned before. -/
theorem doneSinceMoved (h : LogOk free log) : DoneSinceMoved log := by
  intro b p m r hlog
  rw [List.append_assoc, List.cons_append] at hlog
  obtain ⟨p₁, p₂, hp, hp₂⟩ := h.returned b p _ hlog
  obtain ⟨p', m₂, hm, hm₂⟩ := h.returned b (p ++ .returned (some b) :: m) r
    (by rw [hlog, List.append_assoc, List.cons_append])
  have hm₁ : ∃ m₁, m = m₁ ++ .moved b :: m₂ := by
    rcases List.append_eq_append_iff.mp hm with ⟨c, -, hc⟩ | ⟨c, -, hc⟩
    · cases c with
      | nil => cases hc
      | cons e c =>
        rw [List.cons_append, List.cons.injEq] at hc
        exact ⟨c, hc.2⟩
    · -- the later call would have moved the buffer before the earlier one returned
      cases c with
      | nil => cases hc
      | cons e c =>
        rw [List.cons_append, List.cons.injEq] at hc
        obtain ⟨a, ha⟩ := hm₂ (.returned (some b)) (by rw [hc.2]; simp)
        cases ha
  obtain ⟨m₁, hm₁⟩ := hm₁
  refine ⟨p₁, p₂, m₁, m₂, hp, hp₂, hm₁, ?_⟩
  have hdone := h.between b p₁ (p₂ ++ .returned (some b) :: m₁) (m₂ ++ .returned (some b) :: r)
    (by rw [hlog, hp, hm₁]; simp)
  simpa using hdone

end LogOk

@[simp] theorem Bqueue.bufDoneTrigger_links (e : Bool) (q : Bqueue) :
    (q.bufDoneTrigger e).links = q.links := by
  unfold Bqueue.bufDoneTrigger
  split <;> rfl

-- ---------------------------------------------------------------------------
-- The invariant
-- ---------------------------------------------------------------------------

/-- What the main loop relies on in the middle of a call. -/
def PcOk (free : List Node) (log : List Entry) : Pc → Prop
  | .nonEmpty => ∃ a, a ∈ free
  | .picked out => out ∈ free
  | .moved out => MovedLast log out
  | .remapped out => MovedLast log out
  | .counted out => MovedLast log out
  | _ => True

/-- `lists` are the lists in the memory. -/
structure Inv (n : Nat) (lists : Lst → List Node) (s : System) : Prop where
  holds : s.q.links.Holds Lst.head lists
  bufs : ∀ a, (∃ i, a ∈ lists i) ↔ ∃ b < n, a = .buf b
  pc : PcOk (lists .free) s.log s.pc
  log : LogOk (lists .free) s.log

theorem head_injective : Function.Injective Lst.head := by
  intro i j h
  cases i <;> cases j <;> cases h <;> rfl

theorem PcOk.mono {free free' : List Node} {log log' : List Entry} {pc : Pc} (h : PcOk free log pc)
    (hfree : ∀ a ∈ free, a ∈ free') (hlog : ∀ b, MovedLast log b → MovedLast log' b) :
    PcOk free' log' pc := by
  cases pc with
  | nonEmpty =>
    obtain ⟨a, ha⟩ := h
    exact ⟨a, hfree a ha⟩
  | picked out => exact hfree out h
  | moved out => exact hlog out h
  | remapped out => exact hlog out h
  | counted out => exact hlog out h
  | _ => trivial

namespace Inv

variable {n : Nat} {lists : Lst → List Node} {s : System} (h : Inv n lists s)

include h

theorem freeEmpty_iff : FreeEmpty s ↔ lists .free = [] := by
  unfold FreeEmpty
  rw [List.eq_nil_iff_forall_not_mem]
  exact forall_congr' fun a => not_congr (h.holds.reaches_iff .free)

theorem listEmpty_iff : listEmpty .freeBufs s.q.links = true ↔ FreeEmpty s := by
  rw [h.freeEmpty_iff, ← h.holds.next_eq_self_iff .free]
  exact decide_eq_true_iff

theorem mem_lists {b : Nat} (hb : b < n) : ∃ i, .buf b ∈ lists i := (h.bufs _).mpr ⟨b, hb, rfl⟩

theorem conserved : Conserved n s := by
  intro b hb
  obtain ⟨i, hi⟩ := h.mem_lists hb
  refine ⟨i, (h.holds.reaches_iff i).mpr hi, fun j hj => ?_⟩
  have hmem := (h.holds.reaches_iff j).mp hj
  exact h.holds.eq_of_mem (List.mem_cons_of_mem _ hmem) (List.mem_cons_of_mem _ hi)

/-- A buffer that goes to another list stays a buffer of the queue. -/
theorem bufs_moved {lists' : Lst → List Node} {e : Node} {i j : Lst} (he : e ∈ lists i)
    (hmem : ∀ k a, a ∈ lists' k ↔ (a = e ∧ k = j) ∨ (a ≠ e ∧ a ∈ lists k)) (a : Node) :
    (∃ k, a ∈ lists' k) ↔ ∃ b < n, a = .buf b := by
  rw [← h.bufs a]
  simp only [hmem]
  constructor
  · rintro ⟨k, ⟨rfl, -⟩ | ⟨-, hk⟩⟩
    · exact ⟨i, he⟩
    · exact ⟨k, hk⟩
  · rintro ⟨k, hk⟩
    by_cases hae : a = e
    · exact ⟨j, Or.inl ⟨hae, rfl⟩⟩
    · exact ⟨k, Or.inr ⟨hae, hk⟩⟩

/-- A step that leaves the lists alone. -/
theorem sameLists {s' : System} (hlinks : s'.q.links = s.q.links)
    (hpc : PcOk (lists .free) s'.log s'.pc) (hlog : LogOk (lists .free) s'.log) :
    Inv n lists s' :=
  ⟨hlinks ▸ h.holds, h.bufs, hpc, hlog⟩

/-- The move of the picked buffer to the busy list. -/
theorem picked {out : Node} (hpc : s.pc = .picked out) :
    Inv n (movedFront lists out .busy) s.mainStep := by
  have hout : out ∈ lists .free := by
    have hpcOk := h.pc
    rwa [hpc] at hpcOk
  have hmem : ∀ k a, a ∈ movedFront lists out .busy k ↔ _ := fun _ _ => mem_movedFront h.holds
  have hstep : s.mainStep =
      { q := { s.q with links := listMove out .busyBufs s.q.links }, pc := .moved out,
        log := s.log ++ [.moved out] } := by
    unfold System.mainStep
    rw [hpc]
  rw [hstep]
  refine ⟨holds_listMove (j := Lst.busy) h.holds hout, h.bufs_moved hout hmem, movedLast_moved _ _,
    h.log.snoc (fun a ha => Or.inl ?_) (fun b hb => ?_) fun b hb => by cases hb⟩
  · have hfree := (hmem .free a).mp ha
    simp only [reduceCtorEq, and_false, false_or] at hfree
    exact ⟨hfree.2, fun heq => hfree.1 (by cases heq; rfl)⟩
  · cases hb
    exact hout

/-- A buffer goes back to the free list. -/
theorem done {b : Nat} (hb : b < n) :
    Inv n (movedFront lists (.buf b) .free)
      { s with q := (s.q.bufDoneMove (.buf b)).2, log := s.log ++ [.done (.buf b)] } := by
  obtain ⟨i, hi⟩ := h.mem_lists hb
  have hmem : ∀ k a, a ∈ movedFront lists (.buf b) .free k ↔ _ := fun _ _ => mem_movedFront h.holds
  refine ⟨holds_listMove (j := Lst.free) h.holds hi, h.bufs_moved hi hmem,
    h.pc.mono (fun a ha => (hmem .free a).mpr ?_) fun _ => MovedLast.done,
    h.log.snoc (fun a ha => ?_) (fun c hc => by cases hc) fun c hc => by cases hc⟩
  · by_cases hab : a = .buf b
    · exact Or.inl ⟨hab, rfl⟩
    · exact Or.inr ⟨hab, ha⟩
  · rcases (hmem .free a).mp ha with ⟨rfl, -⟩ | ⟨-, hfree⟩
    · exact Or.inr rfl
    · exact Or.inl ⟨hfree, by simp⟩

/-- A buffer that is not free goes to a list that is not the free list. -/
theorem moved {b : Nat} {dst : Lst} {tail : Bool} (ha : Allowed n s (.move tail b dst)) :
    ∃ lists', Inv n lists' (s.step (.move tail b dst)) ∧ ∀ a, a ∈ lists' .free ↔ a ∈ lists .free := by
  obtain ⟨hb, hbusy, hdst⟩ := ha
  obtain ⟨i, hi⟩ := h.mem_lists hb
  have hnotfree : .buf b ∉ lists .free := fun hmem => hbusy ((h.holds.reaches_iff .free).mpr hmem)
  obtain ⟨lists', hholds, hmem⟩ : ∃ lists',
      ((s.step (.move tail b dst)).q.links.Holds Lst.head lists') ∧
        ∀ k a, a ∈ lists' k ↔ (a = .buf b ∧ k = dst) ∨ (a ≠ .buf b ∧ a ∈ lists k) := by
    cases tail with
    | false =>
      exact ⟨_, holds_listMove (j := dst) h.holds hi, fun _ _ => mem_movedFront h.holds⟩
    | true =>
      exact ⟨_, holds_listMoveTail (j := dst) h.holds hi, fun _ _ => mem_movedBack h.holds⟩
  have hfree : ∀ a, a ∈ lists' .free ↔ a ∈ lists .free := by
    intro a
    rw [hmem]
    constructor
    · rintro (⟨-, hk⟩ | ⟨-, ha⟩)
      · exact absurd hk.symm hdst
      · exact ha
    · exact fun ha => Or.inr ⟨fun heq => hnotfree (heq ▸ ha), ha⟩
  exact ⟨lists', ⟨hholds, h.bufs_moved hi hmem, h.pc.mono (fun a => (hfree a).mpr) fun _ => id,
    { h.log with free := fun c hc => h.log.free c ((hfree c).mp hc) }⟩, hfree⟩

/-- The return of a call that has moved nothing, or what it returns. -/
theorem ret {out : Option Node} (hout : ∀ b, out = some b → MovedLast s.log b) :
    Inv n lists (s.ret out) := by
  refine h.sameLists rfl trivial (h.log.snoc (fun a ha => Or.inl ⟨ha, by simp⟩)
    (fun b hb => by cases hb) fun b hb => hout b ?_)
  cases hb
  rfl

theorem mainStep : ∃ lists', Inv n lists' s.mainStep := by
  have hpcOk := h.pc
  cases hpc : s.pc with
  | idle =>
    refine ⟨lists, ?_⟩
    unfold System.mainStep
    rw [hpc]
    exact h
  | called =>
    refine ⟨lists, ?_⟩
    unfold System.mainStep
    simp only [hpc]
    split
    · exact h.ret fun b hb => by cases hb
    · exact h.sameLists rfl trivial h.log
  | running =>
    refine ⟨lists, ?_⟩
    unfold System.mainStep
    simp only [hpc]
    split
    · exact h.ret fun b hb => by cases hb
    · rename_i hempty
      rw [h.listEmpty_iff, h.freeEmpty_iff] at hempty
      exact h.sameLists rfl (List.exists_mem_of_ne_nil _ hempty) h.log
  | nonEmpty =>
    refine ⟨lists, ?_⟩
    rw [hpc] at hpcOk
    obtain ⟨a, ha⟩ := hpcOk
    unfold System.mainStep
    simp only [hpc]
    refine h.sameLists rfl ?_ h.log
    -- no interrupt has emptied the free list
    cases hfree : lists .free with
    | nil =>
      rw [hfree] at ha
      cases ha
    | cons b rest =>
      have hring := h.holds.ring .free
      rw [hfree] at hring
      have hnext : s.q.links.next .freeBufs = b := hring.next_head
      show s.q.links.next .freeBufs ∈ b :: rest
      rw [hnext]
      exact List.mem_cons_self
  | picked out => exact ⟨_, h.picked hpc⟩
  | moved out =>
    refine ⟨lists, ?_⟩
    rw [hpc] at hpcOk
    unfold System.mainStep
    simp only [hpc]
    exact h.sameLists rfl hpcOk h.log
  | remapped out =>
    refine ⟨lists, ?_⟩
    rw [hpc] at hpcOk
    unfold System.mainStep
    simp only [hpc]
    exact h.sameLists rfl hpcOk h.log
  | counted out =>
    refine ⟨lists, ?_⟩
    rw [hpc] at hpcOk
    unfold System.mainStep
    simp only [hpc]
    refine h.ret fun b hb => ?_
    cases hb
    exact hpcOk
  | finishing freeListWasEmpty =>
    refine ⟨lists, ?_⟩
    unfold System.mainStep
    simp only [hpc]
    exact h.sameLists (Bqueue.bufDoneTrigger_links _ _) trivial h.log

theorem step {a : Act} (ha : Allowed n s a) : ∃ lists', Inv n lists' (s.step a) := by
  cases a with
  | main => exact h.mainStep
  | getBuf =>
    refine ⟨lists, ?_⟩
    simp only [System.step]
    split
    · exact h.sameLists rfl trivial h.log
    · exact h
  | bufDone b =>
    simp only [System.step]
    split
    · exact ⟨_, (h.done ha.1).sameLists rfl trivial (h.done ha.1).log⟩
    · exact ⟨lists, h⟩
  | irqBufDone b =>
    refine ⟨_, (h.done ha.1).sameLists ?_ (h.done ha.1).pc (h.done ha.1).log⟩
    exact Bqueue.bufDoneTrigger_links _ _
  | move tail b dst =>
    obtain ⟨lists', hlists', -⟩ := h.moved ha
    exact ⟨lists', hlists'⟩
  | start =>
    refine ⟨lists, h.sameLists ?_ h.pc h.log⟩
    show s.q.start.links = s.q.links
    unfold Bqueue.start
    simp only
    split <;> rfl
  | stop => exact ⟨lists, h.sameLists rfl h.pc h.log⟩

/-- The log grows by a `NULL` in the two tests only. -/
theorem nullOk (a : Act) : NullOk s a := by
  have hsame : s.log ≠ s.log ++ [.returned none] := by simp
  unfold NullOk
  cases a with
  | main =>
    cases hpc : s.pc with
    | called =>
      simp only [System.step, System.mainStep, hpc]
      split
      · exact iff_of_true rfl ⟨trivial, Or.inl ⟨trivial, by assumption⟩⟩
      · simp_all
    | running =>
      simp only [System.step, System.mainStep, hpc]
      split
      · rename_i hempty
        exact iff_of_true rfl ⟨trivial, Or.inr ⟨trivial, h.listEmpty_iff.mp hempty⟩⟩
      · rename_i hempty
        rw [h.listEmpty_iff] at hempty
        simp [hempty]
    | _ => simp [System.step, System.mainStep, hpc, System.ret]
  | getBuf =>
    simp only [System.step]
    split <;> simp
  | bufDone b =>
    simp only [System.step]
    split <;> simp
  | irqBufDone b => simp [System.step]
  | move tail b dst => simp [System.step]
  | start => simp [System.step]
  | stop => simp [System.step]

/-- Only giving a buffer back ends a shortage. -/
theorem availableOk {a : Act} (ha : Allowed n s a) : AvailableOk s a := by
  intro hconfigured
  refine ⟨fun hempty hfull => ?_, fun hmain hpc => ?_⟩
  · have hlist : listEmpty .freeBufs s.q.links = true := h.listEmpty_iff.mpr hempty
    have hlinks : (s.step a).q.links ≠ s.q.links := fun heq => hfull (by
      unfold FreeEmpty
      rw [heq]
      exact hempty)
    cases a with
    | bufDone b =>
      have hidle : s.pc = .idle := by
        by_contra hne
        exact hlinks (by simp only [System.step, if_neg hne])
      refine Or.inr ⟨⟨b, rfl⟩, ?_⟩
      simp only [System.step, if_pos hidle, Bqueue.bufDoneMove, hlist]
    | irqBufDone b =>
      refine Or.inl ⟨⟨b, rfl⟩, ?_⟩
      simp only [System.step, Bqueue.serverBufDone, Bqueue.bufDoneMove, hlist,
        Bqueue.bufDoneTrigger, hconfigured, Bool.and_self, if_true]
      rfl
    | main =>
      -- only the move of a free buffer changes the lists
      refine absurd ?_ hlinks
      cases hpc : s.pc with
      | picked out =>
        have hout := h.pc
        rw [hpc, h.freeEmpty_iff.mp hempty] at hout
        cases hout
      | called =>
        simp only [System.step, System.mainStep, hpc]
        split <;> rfl
      | running =>
        simp only [System.step, System.mainStep, hpc]
        split <;> rfl
      | finishing freeListWasEmpty =>
        simp only [System.step, System.mainStep, hpc]
        exact Bqueue.bufDoneTrigger_links _ _
      | _ => simp only [System.step, System.mainStep, hpc] <;> rfl
    | move tail b dst =>
      obtain ⟨lists', hlists', hfree⟩ := h.moved ha
      refine absurd (hlists'.freeEmpty_iff.mpr ?_) hfull
      rw [h.freeEmpty_iff] at hempty
      rw [List.eq_nil_iff_forall_not_mem]
      intro a hmem
      rw [hfree, hempty] at hmem
      cases hmem
    | getBuf =>
      refine absurd ?_ hlinks
      simp only [System.step]
      split <;> rfl
    | start =>
      refine absurd ?_ hlinks
      simp only [System.step, Bqueue.start]
      split <;> rfl
    | stop => exact absurd rfl hlinks
  · rw [hmain]
    show s.mainStep.q.events = _
    unfold System.mainStep
    simp only [hpc]
    unfold Bqueue.bufDoneTrigger
    rw [if_pos (by rw [hconfigured]; rfl)]
    rfl

end Inv

-- ---------------------------------------------------------------------------
-- The initialised queue
-- ---------------------------------------------------------------------------

/-- The allocator's memory holds no head of a list. -/
theorem ring_allocated {q : Bqueue} {i : Lst} (n : Nat) (mem : Nat → Recycled)
    (hring : q.links.Ring i.head []) : (q.allocated n mem).links.Ring i.head [] := by
  rw [Links.ring_nil_iff] at hring ⊢
  cases i <;> exact hring

theorem initial_inv {setup done available processed : Option Nat} {area nbufs bufsize : Int}
    {mem : Option (Nat → Recycled)} {q₀ q : Bqueue} (hpos : 0 < nbufs)
    (hown : ∀ d, q₀.links.Ring (.own d) [])
    (hinit : Bqueue.serverInit setup done area nbufs bufsize mem q₀ = (0, q)) :
    Inv nbufs.toNat (Function.update (fun _ => []) .free (handOut nbufs.toNat))
      (System.initial q available processed) := by
  unfold Bqueue.serverInit at hinit
  simp only at hinit
  rw [if_neg (by omega), if_neg (by omega)] at hinit
  cases mem with
  | none => cases hinit
  | some mem =>
    cases hinit
    have hhead : ∀ i b, Lst.head i ≠ .buf b := by
      intro i b hbuf
      cases i <;> cases hbuf
    refine ⟨holds_initOp rfl hhead (Links.holds_nil head_injective fun i =>
      ring_allocated _ _ (ring_initListHead _ ?_)) _, fun a => ?_, trivial, logOk_nil _⟩
    · cases i with
      | free => exact Or.inl rfl
      | busy => exact Or.inr (ring_initListHead _ (Or.inl rfl))
      | own d => exact Or.inr (ring_initListHead _ (Or.inr (hown d)))
    · rw [← mem_handOut]
      refine ⟨fun ⟨i, hi⟩ => ?_, fun ha => ⟨.free, by rwa [Function.update_self]⟩⟩
      by_cases hfree : i = .free
      · subst hfree
        rwa [Function.update_self] at hi
      · rw [Function.update_of_ne hfree] at hi
        cases hi

/-- Without interrupts the steps of the main loop are `bathos_bqueue_get_buf`. -/
theorem run_getBuf {s : System} (hpc : s.pc = .idle) :
    let s' := runFrom System.step s (.getBuf :: List.replicate 7 .main)
    s'.q = s.q.getBuf.2 ∧ s'.pc = .idle ∧ s'.log.getLast? = some (.returned s.q.getBuf.1) := by
  obtain ⟨q, pc, log⟩ := s
  cases hpc
  by_cases hstopped : q.stopped = true
  · simp [runFrom, System.step, System.mainStep, Bqueue.getBuf, System.ret, hstopped,
      List.replicate]
  · by_cases hempty : listEmpty .freeBufs q.links = true
    · simp [runFrom, System.step, System.mainStep, Bqueue.getBuf, System.ret, hstopped, hempty,
        List.replicate]
    · simp [runFrom, System.step, System.mainStep, Bqueue.getBuf, System.ret, hstopped, hempty,
        List.replicate]

/-- **Conservation of buffers.** -/
theorem buffers_conserved {setup done available processed : Option Nat} {area nbufs bufsize : Int}
    {mem : Option (Nat → Recycled)} {q₀ q : Bqueue} {acts : List Act} (hpos : 0 < nbufs)
    (hown : ∀ d, q₀.links.Ring (.own d) [])
    (hinit : Bqueue.serverInit setup done area nbufs bufsize mem q₀ = (0, q))
    (hrun : EachStep System.step (Allowed nbufs.toNat) (System.initial q available processed) acts) :
    Conserved nbufs.toNat (runFrom System.step (System.initial q available processed) acts) ∧
      DoneSinceMoved (runFrom System.step (System.initial q available processed) acts).log ∧
      EachStep System.step (fun s a => NullOk s a ∧ AvailableOk s a)
        (System.initial q available processed) acts := by
  have hstep : ∀ s a, (∃ lists, Inv nbufs.toNat lists s) → Allowed nbufs.toNat s a →
      ∃ lists, Inv nbufs.toNat lists (s.step a) := fun s a ⟨lists, h⟩ ha => h.step ha
  have hstart : ∃ lists, Inv nbufs.toNat lists (System.initial q available processed) :=
    ⟨_, initial_inv hpos hown hinit⟩
  obtain ⟨lists, hend⟩ := EachStep.inv hstep hstart hrun
  exact ⟨hend.conserved, hend.log.doneSinceMoved,
    EachStep.mono hstep (fun s a ⟨_, h⟩ ha => ⟨h.nullOk a, h.availableOk ha⟩) hstart hrun⟩

/-- A buffer is taken, queued by the driver and given back. -/
def roundTrip : List Act :=
  [.start, .getBuf, .main, .main, .main, .main, .main, .main, .main, .move true 0 (.own 0),
    .bufDone 0, .main]

theorem buffers_conserved_roundTrip :
    let s := System.initial (Bqueue.serverInit none none 0 1 0 (some fun _ => unlinked) untouched).2
      (some 7) none
    Conserved 1 (runFrom System.step s roundTrip) ∧
      DoneSinceMoved (runFrom System.step s roundTrip).log ∧
      EachStep System.step (fun s a => NullOk s a ∧ AvailableOk s a) s roundTrip := by
  refine @buffers_conserved none none (some 7) none 0 1 0 (some fun _ => unlinked) untouched _ roundTrip
    (by decide) (fun d => Links.ring_nil_iff.mpr ⟨rfl, rfl⟩) rfl ?_
  simp only [roundTrip, EachStep, Allowed, true_and, and_true]
  exact ⟨⟨by decide, fun ⟨n, _, hne⟩ => hne 0 (Nat.zero_le n) (by decide), by decide⟩, by decide,
    fun ⟨n, _, hne⟩ => hne 0 (Nat.zero_le n) (by decide)⟩

/-- A call interrupted by `bathos_bqueue_server_buf_done` on the buffer it has moved, and
a second call. -/
def interruptedCalls : List Act :=
  [.start, .getBuf, .main, .main, .main, .main, .irqBufDone 0, .main, .main, .main, .getBuf,
    .main, .main, .main, .main, .main, .main, .main]

theorem interruptedCalls_allowed :
    EachStep System.step (Allowed 1)
      (System.initial (Bqueue.serverInit none none 0 1 0 (some fun _ => unlinked) untouched).2 none none)
      interruptedCalls := by
  simp only [interruptedCalls, EachStep, Allowed, true_and, and_true]
  exact ⟨by decide, fun ⟨n, _, hne⟩ => hne 0 (Nat.zero_le n) (by decide)⟩

/-- The buffer is returned while it is free, and the next call returns it, too. -/
theorem returned_while_free :
    ¬ ∀ (setup done available processed : Option Nat) (area nbufs bufsize : Int)
      (mem : Option (Nat → Recycled)) (q₀ q : Bqueue) (acts : List Act), 0 < nbufs →
      (∀ d, q₀.links.Ring (.own d) []) →
      Bqueue.serverInit setup done area nbufs bufsize mem q₀ = (0, q) →
      EachStep System.step (Allowed nbufs.toNat) (System.initial q available processed) acts →
      DoneBetween (runFrom System.step (System.initial q available processed) acts).log := by
  intro hall
  have hdone := hall none none none none 0 1 0 (some fun _ => unlinked) untouched
    (Bqueue.serverInit none none 0 1 0 (some fun _ => unlinked) untouched).2 interruptedCalls (by decide)
    (fun d => Links.ring_nil_iff.mpr ⟨rfl, rfl⟩) rfl interruptedCalls_allowed
    (.buf 0) [.moved (.buf 0), .done (.buf 0)] [.moved (.buf 0)] [] (by decide)
  revert hdone
  decide

end Bathos.BufferQueue
