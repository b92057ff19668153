import Bathos.Event.Definitions

/-!
# Bathos — the event queue delivers in order, exactly once

The invariant behind the event queue. Events are numbered in the order in which
their slots were reserved; event `k` lives in slot `k mod nevts`, `pe_head` is
the number of reserved events and `pe_tail` the number of handled ones, modulo
`nevts`. A slot is either filled or owned by a call of `trigger_event` that is
still under way (`Inv.filled`), and a call under way owns an event that came
after the last call of `handle_regular_events` (`Inv.owned`), so the consumer
never meets an unfilled slot.

Main results:

* `step_inv` / `reaches_inv` — the invariant holds along every interleaving;
* `events_exactly_once` — every accepted event goes exactly once to each of its
  handlers, in the order of the slots; a rejected one changes nothing; the
  slot of the event being handled stays as it is; and the queue can be drained.
-/

namespace Bathos.Event

open Bathos.Lib

variable {Ev H D : Type} {evs : Events Ev H}

-- ---------------------------------------------------------------------------
-- Numbers and slots
-- ---------------------------------------------------------------------------

/-- Events less than one turn apart have different slots. -/
theorem slot_ne {k k' n : Nat} (hlt : k < k') (hwin : k' < k + n) : k % n ≠ k' % n := by
  intro heq
  have hdvd : n ∣ k' - k := (Nat.modEq_iff_dvd' hlt.le).mp heq
  have := Nat.le_of_dvd (by omega) hdvd
  omega

theorem slot_ne_of_ne {k k' lo n : Nat} (hne : k ≠ k') (hk : lo ≤ k ∧ k < lo + n)
    (hk' : lo ≤ k' ∧ k' < lo + n) : k % n ≠ k' % n := by
  rcases Nat.lt_or_gt_of_ne hne with hlt | hgt
  · exact slot_ne hlt (by omega)
  · exact (slot_ne hgt (by omega)).symm

/-- The macros on the two counters. -/
theorem circSpace_counters {n a c : Nat} (hn : IsRingSize n) (hle : c ≤ a) (hroom : a < c + n) :
    circSpace (a % n) (c % n) n = n - 1 - (a - c) := by
  have hlt : a - c < n := by omega
  have hw := circSpace_window hn (Nat.mod_lt c hn.pos) hlt
  rwa [Nat.mod_add_mod, Nat.add_sub_cancel' hle] at hw

theorem circCnt_counters {n a c : Nat} (hn : IsRingSize n) (hle : c ≤ a) (hroom : a < c + n) :
    circCnt (a % n) (c % n) n = a - c := by
  have hlt : a - c < n := by omega
  have hw := circCnt_window hn (Nat.mod_lt c hn.pos) hlt
  rwa [Nat.mod_add_mod, Nat.add_sub_cancel' hle] at hw

theorem mask_counter {n : Nat} (hn : IsRingSize n) (a : Nat) :
    (a % n + 1) &&& (n - 1) = (a + 1) % n := by
  rw [hn.and_mask, Nat.mod_add_mod]

-- ---------------------------------------------------------------------------
-- The invariant
-- ---------------------------------------------------------------------------

/-- What a call of `trigger_event` under way knows about its slot. -/
structure Owns (s : State Ev H D) (f : Frame Ev D) : Prop where
  late : s.target ≤ f.index
  entry : s.accepted[f.index]? = some (f.event, f.data)
  slot : f.slot = f.index % s.queue.peBufferNevts
  data : f.stage ≠ .reserved → (s.queue.peBuffer f.slot).data = f.data
  event : f.stage = .eventSet → (s.queue.peBuffer f.slot).event = some f.event

/-- The handler calls made so far, and how many turns are left, by phase. -/
def PhaseOk (evs : Events Ev H) (s : State Ev H D) : Prop :=
  match s.phase with
  | .idle =>
    s.completed = s.target ∧ s.delivered = deliverAll evs (s.accepted.take s.completed)
  | .looping rem =>
    s.completed + rem = s.target ∧ s.delivered = deliverAll evs (s.accepted.take s.completed)
  | .handling rem e todo =>
    s.completed + rem + 1 = s.target ∧ ∃ (data : D) (called : List H),
      s.accepted[s.completed]? = some (e, data) ∧ evs.handlers e = called ++ todo ∧
      s.delivered =
        deliverAll evs (s.accepted.take s.completed) ++ deliverTo evs e data called

structure Inv (evs : Events Ev H) (s : State Ev H D) : Prop where
  size : IsRingSize s.queue.peBufferNevts
  completed_le : s.completed ≤ s.target
  target_le : s.target ≤ s.accepted.length
  room : s.accepted.length < s.completed + s.queue.peBufferNevts
  head : s.queue.peHead = s.accepted.length % s.queue.peBufferNevts
  tail : s.queue.peTail = s.completed % s.queue.peBufferNevts
  owned : ∀ f ∈ s.frames, Owns s f
  distinct : (s.frames.map Frame.index).Nodup
  filled : ∀ k e data, s.completed ≤ k → s.accepted[k]? = some (e, data) →
    (∀ f ∈ s.frames, f.index ≠ k) →
    s.queue.peBuffer (k % s.queue.peBufferNevts) = ⟨some e, data⟩
  phase : PhaseOk evs s

theorem init_inv {nevts : Nat} (hn : IsRingSize nevts) (buffer : Nat → PendingEvent Ev D) :
    Inv evs (State.init (H := H) nevts buffer) := by
  have hpos := hn.pos
  refine ⟨hn, le_rfl, le_rfl, ?_, ?_, ?_, ?_, ?_, ?_, ?_⟩
  · simp [State.init]
    omega
  · simp [State.init]
  · simp [State.init]
  · simp [State.init]
  · simp [State.init]
  · intro k e data _ hk
    simp [State.init] at hk
  · simp [State.init, PhaseOk, deliverAll]

section Facts

variable {s : State Ev H D} (h : Inv evs s)

include h

theorem Inv.le_length : s.completed ≤ s.accepted.length := le_trans h.completed_le h.target_le

/-- The index of a call under way is that of a pending event. -/
theorem Inv.frame_window {f : Frame Ev D} (hf : f ∈ s.frames) :
    s.completed ≤ f.index ∧ f.index < s.completed + s.queue.peBufferNevts := by
  have howns := h.owned f hf
  have hlen := (List.getElem?_eq_some_iff.mp howns.entry).1
  have := h.room
  have := h.completed_le
  have := howns.late
  omega

theorem Inv.entry_window {k : Nat} {p : Ev × D} (hk : s.completed ≤ k)
    (hp : s.accepted[k]? = some p) : s.completed ≤ k ∧ k < s.completed + s.queue.peBufferNevts := by
  have hlen := (List.getElem?_eq_some_iff.mp hp).1
  have := h.room
  omega

/-- `CIRC_SPACE` is zero exactly when one slot less than the size is pending. -/
theorem Inv.full_iff : circSpace s.queue.peHead s.queue.peTail s.queue.peBufferNevts = 0 ↔
    s.accepted.length - s.completed = s.queue.peBufferNevts - 1 := by
  have hpos := h.size.pos
  have hroom := h.room
  have hle := h.le_length
  rw [h.head, h.tail, circSpace_counters h.size hle hroom]
  omega

theorem Inv.pending_eq : s.queue.pendingRegularEvents = s.accepted.length - s.completed := by
  unfold Queue.pendingRegularEvents
  rw [h.head, h.tail, circCnt_counters h.size h.le_length h.room]

/-- The slot at the tail is filled whenever the consumer looks at it, or is in
the middle of its handlers: no call under way owns it. -/
theorem Inv.tail_slot {e : Ev} {data : D} (hlt : s.completed < s.target)
    (hentry : s.accepted[s.completed]? = some (e, data)) :
    s.queue.peBuffer s.queue.peTail = ⟨some e, data⟩ ∧
      ∀ f ∈ s.frames, f.slot ≠ s.queue.peTail := by
  have hne : ∀ f ∈ s.frames, f.index ≠ s.completed := by
    intro f hf heq
    have := (h.owned f hf).late
    omega
  rw [h.tail]
  refine ⟨h.filled s.completed e data le_rfl hentry hne, ?_⟩
  intro f hf
  rw [(h.owned f hf).slot]
  exact slot_ne_of_ne (hne f hf) (h.frame_window hf) (h.entry_window le_rfl hentry)

theorem Inv.exists_entry (hlt : s.completed < s.target) :
    ∃ e data, s.accepted[s.completed]? = some (e, data) := by
  have hlen : s.completed < s.accepted.length := lt_of_lt_of_le hlt h.target_le
  exact ⟨_, _, List.getElem?_eq_getElem hlen⟩

end Facts

-- ---------------------------------------------------------------------------
-- trigger_event
-- ---------------------------------------------------------------------------

/-- The two outcomes of the critical section. -/
theorem trigger_cases (s : State Ev H D) (e : Ev) (data : D) :
    (circSpace s.queue.peHead s.queue.peTail s.queue.peBufferNevts = 0 ∧
        s.trigger e data = (-ENOMEM, s)) ∨
      (circSpace s.queue.peHead s.queue.peTail s.queue.peBufferNevts ≠ 0 ∧
        s.trigger e data = (0, { s with
          queue := { s.queue with
            peHead := (s.queue.peHead + 1) &&& (s.queue.peBufferNevts - 1) }
          frames := ⟨s.queue.peHead, e, data, .reserved, s.accepted.length⟩ :: s.frames
          accepted := s.accepted ++ [(e, data)] })) := by
  unfold State.trigger Queue.reserve
  by_cases hfull : circSpace s.queue.peHead s.queue.peTail s.queue.peBufferNevts = 0
  · exact Or.inl ⟨hfull, by simp only [hfull, if_true]⟩
  · exact Or.inr ⟨hfull, by simp only [hfull, if_false]⟩

theorem take_accepted {s : State Ev H D} (h : Inv evs s) (p : Ev × D) :
    (s.accepted ++ [p]).take s.completed = s.accepted.take s.completed :=
  List.take_append_of_le_length h.le_length

/-- An entry of the longer history is an old entry or the new one. -/
theorem accepted_snoc {l : List (Ev × D)} {p q : Ev × D} {k : Nat} (hk : (l ++ [p])[k]? = some q) :
    l[k]? = some q ∨ (k = l.length ∧ p = q) := by
  rcases Nat.lt_trichotomy k l.length with hlt | heq | hgt
  · rw [List.getElem?_append_left hlt] at hk
    exact Or.inl hk
  · subst heq
    rw [List.getElem?_concat_length] at hk
    exact Or.inr ⟨rfl, Option.some.inj hk⟩
  · rw [List.getElem?_eq_none (by simp; omega)] at hk
    exact absurd hk (by simp)

theorem accepted_snoc_old {l : List (Ev × D)} {q : Ev × D} {k : Nat} (p : Ev × D)
    (hk : l[k]? = some q) : (l ++ [p])[k]? = some q := by
  rw [List.getElem?_append_left (List.getElem?_eq_some_iff.mp hk).1]
  exact hk

theorem trigger_inv {s : State Ev H D} (h : Inv evs s) (e : Ev) (data : D) :
    Inv evs (s.trigger e data).2 := by
  rcases trigger_cases s e data with ⟨-, hres⟩ | ⟨hspace, hres⟩
  · rw [hres]
    exact h
  · rw [hres]
    have hpos := h.size.pos
    have hroom := h.room
    have hle := h.le_length
    have htarget := h.target_le
    have hmore : s.accepted.length - s.completed ≠ s.queue.peBufferNevts - 1 :=
      fun heq => hspace (h.full_iff.mpr heq)
    refine ⟨h.size, h.completed_le, ?_, ?_, ?_, h.tail, ?_, ?_, ?_, ?_⟩
    · simp only [List.length_append, List.length_singleton]
      omega
    · simp only [List.length_append, List.length_singleton]
      omega
    · simp only [List.length_append, List.length_singleton]
      rw [h.head, mask_counter h.size]
    · intro f hf
      rcases List.mem_cons.mp hf with rfl | hold
      · refine ⟨htarget, ?_, h.head, ?_, ?_⟩
        · simp only
          exact List.getElem?_concat_length
        · exact fun hne => absurd rfl hne
        · exact fun heq => absurd heq (by simp)
      · have howns := h.owned f hold
        exact ⟨howns.late, accepted_snoc_old _ howns.entry, howns.slot, howns.data, howns.event⟩
    · rw [List.map_cons, List.nodup_cons]
      refine ⟨?_, h.distinct⟩
      intro hmem
      obtain ⟨f, hf, heq⟩ := List.mem_map.mp hmem
      have := (List.getElem?_eq_some_iff.mp (h.owned f hf).entry).1
      simp only at heq
      omega
    · intro k e' data' hk hentry hframes
      rcases accepted_snoc hentry with hold | ⟨hlast, -⟩
      · exact h.filled k e' data' hk hold fun f hf => hframes f (List.mem_cons_of_mem _ hf)
      · -- the new event is owned by the new call
        exact absurd hlast.symm (hframes _ List.mem_cons_self)
    · have hphase := h.phase
      unfold PhaseOk at hphase ⊢
      simp only
      rw [take_accepted h]
      split
      · rename_i hp
        rw [hp] at hphase
        exact hphase
      · rename_i rem hp
        rw [hp] at hphase
        exact hphase
      · rename_i rem e' todo hp
        rw [hp] at hphase
        obtain ⟨hrem, data', called, hentry, hcalled⟩ := hphase
        exact ⟨hrem, data', called, accepted_snoc_old _ hentry, hcalled⟩

/-- A write into the slot of the innermost call keeps the invariant: no other
pending event has this slot. `f'` is the call after the write. -/
theorem write_inv {s : State Ev H D} (h : Inv evs s) {f f' : Frame Ev D} {fs : List (Frame Ev D)}
    (hframes : s.frames = f :: fs) {pe : PendingEvent Ev D} (hslot : f'.slot = f.slot)
    (hevent : f'.event = f.event) (hdata : f'.data = f.data) (hindex : f'.index = f.index)
    (hpe : (f'.stage ≠ .reserved → pe.data = f.data) ∧
      (f'.stage = .eventSet → pe.event = some f.event)) :
    Inv evs { s with
      queue := { s.queue with peBuffer := Function.update s.queue.peBuffer f.slot pe }
      frames := f' :: fs } := by
  have hf : f ∈ s.frames := by
    rw [hframes]
    exact List.mem_cons_self
  have hdist := h.distinct
  rw [hframes, List.map_cons, List.nodup_cons] at hdist
  have hother : ∀ g ∈ fs, g.slot ≠ f.slot := by
    intro g hg
    have hgs : g ∈ s.frames := by
      rw [hframes]
      exact List.mem_cons_of_mem _ hg
    have hne : g.index ≠ f.index := fun heq => hdist.1 (List.mem_map.mpr ⟨g, hg, heq⟩)
    rw [(h.owned g hgs).slot, (h.owned f hf).slot]
    exact slot_ne_of_ne hne (h.frame_window hgs) (h.frame_window hf)
  refine ⟨h.size, h.completed_le, h.target_le, h.room, h.head, h.tail, ?_, ?_, ?_, h.phase⟩
  · intro g hg
    rcases List.mem_cons.mp hg with rfl | hg
    · have howns := h.owned f hf
      refine ⟨?_, ?_, ?_, ?_, ?_⟩
      · rw [hindex]
        exact howns.late
      · rw [hindex, hevent, hdata]
        exact howns.entry
      · rw [hindex, hslot]
        exact howns.slot
      · intro hstage
        simp only
        rw [hslot, hdata, Function.update_self]
        exact hpe.1 hstage
      · intro hstage
        simp only
        rw [hslot, hevent, Function.update_self]
        exact hpe.2 hstage
    · have hgs : g ∈ s.frames := by
        rw [hframes]
        exact List.mem_cons_of_mem _ hg
      have howns := h.owned g hgs
      refine ⟨howns.late, howns.entry, howns.slot, ?_, ?_⟩
      · simp only
        rw [Function.update_of_ne (hother g hg)]
        exact howns.data
      · simp only
        rw [Function.update_of_ne (hother g hg)]
        exact howns.event
  · rw [List.map_cons, List.nodup_cons, hindex]
    exact hdist
  · intro k e data hk hentry hnone
    have hkf : k ≠ f.index := by
      intro heq
      exact hnone f' List.mem_cons_self (hindex.trans heq.symm)
    have hne : k % s.queue.peBufferNevts ≠ f.slot := by
      rw [(h.owned f hf).slot]
      exact slot_ne_of_ne hkf (h.entry_window hk hentry) (h.frame_window hf)
    simp only
    rw [Function.update_of_ne hne]
    apply h.filled k e data hk hentry
    intro g hg
    rw [hframes] at hg
    rcases List.mem_cons.mp hg with rfl | hg
    · exact hkf.symm
    · exact hnone g (List.mem_cons_of_mem _ hg)

theorem advance_inv {s : State Ev H D} (h : Inv evs s) : Inv evs s.advance := by
  unfold State.advance
  split
  · exact h
  · rename_i f fs hframes
    have hf : f ∈ s.frames := by
      rw [hframes]
      exact List.mem_cons_self
    have howns := h.owned f hf
    split
    · exact write_inv h hframes rfl rfl rfl rfl ⟨fun _ => rfl, fun hstage => absurd hstage (by simp)⟩
    · rename_i hstage
      refine write_inv h hframes rfl rfl rfl rfl ⟨fun _ => ?_, fun _ => rfl⟩
      exact howns.data (by rw [hstage]; simp)
    · -- the call returns: its slot is filled
      rename_i hstage
      have hdist := h.distinct
      rw [hframes, List.map_cons, List.nodup_cons] at hdist
      have hsub : ∀ g ∈ fs, g ∈ s.frames := by
        intro g hg
        rw [hframes]
        exact List.mem_cons_of_mem _ hg
      refine ⟨h.size, h.completed_le, h.target_le, h.room, h.head, h.tail, ?_, hdist.2, ?_, h.phase⟩
      · intro g hg
        have hg' := h.owned g (hsub g hg)
        exact ⟨hg'.late, hg'.entry, hg'.slot, hg'.data, hg'.event⟩
      · intro k e data hk hentry hnone
        by_cases hkf : f.index = k
        · subst hkf
          have heq := howns.entry.symm.trans hentry
          obtain ⟨rfl, rfl⟩ := Prod.mk.inj (Option.some.inj heq)
          have hd := howns.data (by rw [hstage]; simp)
          have he := howns.event hstage
          simp only
          rw [← howns.slot, ← hd, ← he]
        · apply h.filled k e data hk hentry
          intro g hg
          rw [hframes] at hg
          rcases List.mem_cons.mp hg with rfl | hg
          · exact hkf
          · exact hnone g hg

-- ---------------------------------------------------------------------------
-- handle_regular_events
-- ---------------------------------------------------------------------------

theorem deliverTo_snoc (e : Ev) (data : D) (called : List H) (d : H) :
    deliverTo evs e data (called ++ [d]) =
      deliverTo evs e data called ++ (if evs.hasHandle d then [(d, e, data)] else []) := by
  unfold deliverTo
  rw [List.filter_append, List.map_append]
  congr 1
  cases hd : evs.hasHandle d with
  | true => simp [hd]
  | false => simp [hd]

theorem deliverAll_take_succ {accepted : List (Ev × D)} {k : Nat} {e : Ev} {data : D}
    (hk : accepted[k]? = some (e, data)) :
    deliverAll evs (accepted.take (k + 1)) =
      deliverAll evs (accepted.take k) ++ deliverTo evs e data (evs.handlers e) := by
  unfold deliverAll
  rw [List.take_add_one, hk, List.flatMap_append]
  simp

/-- **One step of the consumer**, taken while no call of `trigger_event` is under
way: it finds a filled slot, and keeps the invariant. -/
theorem consume_inv {s : State Ev H D} (h : Inv evs s) (hframes : s.frames = []) :
    ∃ s', s.consume evs = .ok s' ∧ Inv evs s' := by
  have hnone : ∀ f ∈ s.frames, False := by
    intro f hf
    rw [hframes] at hf
    exact absurd hf (by simp)
  have hphase := h.phase
  unfold PhaseOk at hphase
  unfold State.consume
  cases hp : s.phase with
  | idle =>
    rw [hp] at hphase
    have hle := h.le_length
    refine ⟨_, rfl, ⟨h.size, hle, le_rfl, h.room, h.head, h.tail, ?_, h.distinct, h.filled, ?_⟩⟩
    · exact fun f hf => (hnone f hf).elim
    · unfold PhaseOk
      simp only
      rw [h.pending_eq]
      exact ⟨by omega, hphase.2⟩
  | looping rem =>
    rw [hp] at hphase
    cases rem with
    | zero =>
      refine ⟨_, rfl, ⟨h.size, h.completed_le, h.target_le, h.room, h.head, h.tail, ?_, h.distinct,
        h.filled, hphase⟩⟩
      exact fun f hf => (hnone f hf).elim
    | succ rem =>
      have hlt : s.completed < s.target := by
        have := hphase.1
        omega
      obtain ⟨e, data, hentry⟩ := h.exists_entry hlt
      have hslot := (h.tail_slot hlt hentry).1
      simp only [hslot]
      refine ⟨_, rfl, ⟨h.size, h.completed_le, h.target_le, h.room, h.head, h.tail, ?_, h.distinct,
        h.filled, ?_⟩⟩
      · exact fun f hf => (hnone f hf).elim
      · unfold PhaseOk
        refine ⟨?_, data, [], hentry, rfl, ?_⟩
        · have := hphase.1
          simp only
          omega
        · simp only [deliverTo, List.filter_nil, List.map_nil, List.append_nil]
          exact hphase.2
  | handling rem e todo =>
    rw [hp] at hphase
    obtain ⟨hrem, data, called, hentry, hcalled, hlog⟩ := hphase
    have hlt : s.completed < s.target := by omega
    cases todo with
    | cons d todo =>
      have hslot := (h.tail_slot hlt hentry).1
      refine ⟨_, rfl, ⟨h.size, h.completed_le, h.target_le, h.room, h.head, h.tail, ?_, h.distinct,
        h.filled, ?_⟩⟩
      · exact fun f hf => (hnone f hf).elim
      · unfold PhaseOk
        refine ⟨hrem, data, called ++ [d], hentry, ?_, ?_⟩
        · rw [hcalled, List.append_assoc]
          rfl
        · -- the handler is called with the data of the slot
          simp only [hslot]
          rw [deliverTo_snoc, hlog]
          split
          · rw [List.append_assoc]
          · rw [List.append_nil]
    | nil =>
      have hsize := h.size.pos
      rw [List.append_nil] at hcalled
      refine ⟨_, rfl, ⟨h.size, ?_, h.target_le, ?_, h.head, ?_, ?_, h.distinct, ?_, ?_⟩⟩
      · simp only
        omega
      · have := h.room
        simp only [Queue.advanceTail]
        omega
      · simp only [Queue.advanceTail]
        rw [h.tail, mask_counter h.size]
      · exact fun f hf => (hnone f hf).elim
      · intro k e' data' hk
        exact h.filled k e' data' (by simp only at hk; omega)
      · unfold PhaseOk
        refine ⟨by simp only; omega, ?_⟩
        simp only
        rw [deliverAll_take_succ hentry, hcalled, hlog]

-- ---------------------------------------------------------------------------
-- Runs
-- ---------------------------------------------------------------------------

theorem step_inv {s s' : State Ev H D} (h : Inv evs s) (hstep : State.Step evs s s') :
    Inv evs s' := by
  cases hstep with
  | trigger e data => exact trigger_inv h e data
  | advance => exact advance_inv h
  | consume hframes hok =>
    obtain ⟨s'', hok', hinv⟩ := consume_inv h hframes
    rw [hok'] at hok
    exact Except.ok.inj hok ▸ hinv

theorem reaches_inv {s s' : State Ev H D} (h : Inv evs s) (hrun : State.Reaches evs s s') :
    Inv evs s' := by
  induction hrun with
  | refl => exact h
  | tail _ hstep ih => exact step_inv ih hstep

/-- The history only grows. -/
structure Grows (s s' : State Ev H D) : Prop where
  accepted : s.accepted <+: s'.accepted
  delivered : s.delivered <+: s'.delivered
  completed : s.completed ≤ s'.completed
  target : s.target ≤ s'.target

theorem Grows.refl (s : State Ev H D) : Grows s s :=
  ⟨List.prefix_refl _, List.prefix_refl _, le_rfl, le_rfl⟩

theorem Grows.trans {s s' s'' : State Ev H D} (h : Grows s s') (h' : Grows s' s'') : Grows s s'' :=
  ⟨h.accepted.trans h'.accepted, h.delivered.trans h'.delivered, le_trans h.completed h'.completed,
    le_trans h.target h'.target⟩

theorem step_grows {s s' : State Ev H D} (h : Inv evs s) (hstep : State.Step evs s s') :
    Grows s s' := by
  cases hstep with
  | trigger e data =>
    rcases trigger_cases s e data with ⟨-, hres⟩ | ⟨-, hres⟩
    · rw [hres]
      exact Grows.refl s
    · rw [hres]
      exact ⟨List.prefix_append _ _, List.prefix_refl _, le_rfl, le_rfl⟩
  | advance =>
    unfold State.advance
    split
    · exact Grows.refl s
    · split <;> exact ⟨List.prefix_refl _, List.prefix_refl _, le_rfl, le_rfl⟩
  | consume hframes hok =>
    unfold State.consume at hok
    split at hok
    · cases hok
      exact ⟨List.prefix_refl _, List.prefix_refl _, le_rfl, h.target_le⟩
    · cases hok
      exact ⟨List.prefix_refl _, List.prefix_refl _, le_rfl, le_rfl⟩
    · split at hok
      · cases hok
      · cases hok
        exact ⟨List.prefix_refl _, List.prefix_refl _, le_rfl, le_rfl⟩
    · cases hok
      refine ⟨List.prefix_refl _, ?_, le_rfl, le_rfl⟩
      simp only
      split
      · exact List.prefix_append _ _
      · exact List.prefix_refl _
    · cases hok
      exact ⟨List.prefix_refl _, List.prefix_refl _, Nat.le_succ _, le_rfl⟩

theorem reaches_grows {s s' : State Ev H D} (h : Inv evs s) (hrun : State.Reaches evs s s') :
    Grows s s' := by
  induction hrun with
  | refl => exact Grows.refl s
  | tail hrun hstep ih => exact ih.trans (step_grows (reaches_inv h hrun) hstep)

/-- A call of `handle_regular_events` that has returned has handled every event
accepted before it was made. -/
theorem handled_of_returned {s s₁ s₂ : State Ev H D} (h : Inv evs s) (hidle : s.phase = .idle)
    (hframes : s.frames = []) (hcall : s.consume evs = .ok s₁) (hrun : State.Reaches evs s₁ s₂)
    (hback : s₂.phase = .idle) : s.accepted.length ≤ s₂.completed := by
  have hinv₁ : Inv evs s₁ := step_inv h (.consume hframes hcall)
  have htarget : s₁.target = s.accepted.length := by
    unfold State.consume at hcall
    rw [hidle] at hcall
    cases hcall
    rfl
  have hphase := (reaches_inv hinv₁ hrun).phase
  unfold PhaseOk at hphase
  rw [hback] at hphase
  rw [hphase.1, ← htarget]
  exact (reaches_grows hinv₁ hrun).target

/-! ## The consumer returns -/

/-- Steps of the consumer alone. -/
def Consumes (evs : Events Ev H) : State Ev H D → State Ev H D → Prop :=
  Relation.ReflTransGen fun s s' => s.frames = [] ∧ s.consume evs = .ok s'

theorem Consumes.reaches {s s' : State Ev H D} (h : Consumes evs s s') :
    State.Reaches evs s s' := by
  induction h with
  | refl => exact .refl
  | tail _ hc ih => exact ih.tail (.consume hc.1 hc.2)

theorem consume_frames {s s' : State Ev H D} (hok : s.consume evs = .ok s') :
    s'.frames = s.frames := by
  unfold State.consume at hok
  split at hok
  · cases hok
    rfl
  · cases hok
    rfl
  · split at hok
    · cases hok
    · cases hok
      rfl
  · cases hok
    rfl
  · cases hok
    rfl

theorem Consumes.frames {s s' : State Ev H D} (h : Consumes evs s s') : s'.frames = s.frames := by
  induction h with
  | refl => rfl
  | tail _ hc ih => exact (consume_frames hc.2).trans ih

/-- The handlers of an event are called one after the other; then the loop goes
on. The induction is on the handlers still to be called. -/
theorem handling_returns {rem : Nat} {e : Ev} : ∀ {todo : List H} {s : State Ev H D},
    s.frames = [] → s.phase = .handling rem e todo →
    ∃ s', Consumes evs s s' ∧ s'.frames = [] ∧ s'.phase = .looping rem ∧
      s'.accepted = s.accepted := by
  intro todo
  induction todo with
  | nil =>
    intro s hframes hp
    have hok : s.consume evs = .ok { s with
        queue := s.queue.advanceTail, phase := .looping rem, completed := s.completed + 1 } := by
      unfold State.consume
      rw [hp]
    exact ⟨_, .single ⟨hframes, hok⟩, hframes, rfl, rfl⟩
  | cons d todo ih =>
    intro s hframes hp
    obtain ⟨s₁, hok, hf₁, hp₁, ha₁⟩ : ∃ s₁, s.consume evs = .ok s₁ ∧ s₁.frames = [] ∧
        s₁.phase = .handling rem e todo ∧ s₁.accepted = s.accepted := by
      unfold State.consume
      rw [hp]
      exact ⟨_, rfl, hframes, rfl, rfl⟩
    obtain ⟨s', hrun, hf', hp', ha'⟩ := ih hf₁ hp₁
    exact ⟨s', .head ⟨hframes, hok⟩ hrun, hf', hp', ha'.trans ha₁⟩

/-- The loop comes to its end. The induction is on the turns left. -/
theorem looping_returns : ∀ {rem : Nat} {s : State Ev H D}, Inv evs s → s.frames = [] →
    s.phase = .looping rem →
    ∃ s', Consumes evs s s' ∧ s'.phase = .idle ∧ s'.accepted = s.accepted := by
  intro rem
  induction rem with
  | zero =>
    intro s h hframes hp
    have hok : s.consume evs = .ok { s with phase := .idle } := by
      unfold State.consume
      rw [hp]
    exact ⟨_, .single ⟨hframes, hok⟩, rfl, rfl⟩
  | succ rem ih =>
    intro s h hframes hp
    -- the slot is filled: the event is fetched
    have hphase := h.phase
    unfold PhaseOk at hphase
    rw [hp] at hphase
    have hlt : s.completed < s.target := by
      have := hphase.1
      omega
    obtain ⟨e, data, hentry⟩ := h.exists_entry hlt
    have hok : s.consume evs = .ok { s with phase := .handling rem e (evs.handlers e) } := by
      unfold State.consume
      rw [hp]
      simp only [(h.tail_slot hlt hentry).1]
    obtain ⟨s₁, hrun₁, hf₁, hp₁, ha₁⟩ : ∃ s₁,
        Consumes evs { s with phase := .handling rem e (evs.handlers e) } s₁ ∧ s₁.frames = [] ∧
          s₁.phase = .looping rem ∧ s₁.accepted = s.accepted := handling_returns hframes rfl
    have hrun : Consumes evs s s₁ := .head ⟨hframes, hok⟩ hrun₁
    obtain ⟨s', hrun', hp', ha'⟩ := ih (reaches_inv h hrun.reaches) hf₁ hp₁
    exact ⟨s', hrun.trans hrun', hp', ha'.trans ha₁⟩

/-- Left alone, a call of `handle_regular_events` returns with every accepted
event handled. -/
theorem handle_returns {s : State Ev H D} (h : Inv evs s) (hidle : s.phase = .idle)
    (hframes : s.frames = []) :
    ∃ s', Consumes evs s s' ∧ s'.phase = .idle ∧ s'.accepted = s.accepted ∧
      s'.completed = s.accepted.length := by
  obtain ⟨s₁, hok, hinv₁⟩ := consume_inv h hframes
  have hs₁ : s₁ = { s with
      phase := .looping s.queue.pendingRegularEvents, target := s.accepted.length } := by
    unfold State.consume at hok
    rw [hidle] at hok
    exact (Except.ok.inj hok).symm
  have hframes₁ : s₁.frames = [] := by rw [hs₁]; exact hframes
  have hphase₁ : s₁.phase = .looping s.queue.pendingRegularEvents := by rw [hs₁]
  have haccepted₁ : s₁.accepted = s.accepted := by rw [hs₁]
  obtain ⟨s', hrun, hp', ha'⟩ := looping_returns hinv₁ hframes₁ hphase₁
  refine ⟨s', .head ⟨hframes, hok⟩ hrun, hp', ha'.trans haccepted₁, ?_⟩
  have hge := handled_of_returned h hidle hframes hok hrun.reaches hp'
  have hle := (reaches_inv hinv₁ hrun.reaches).le_length
  rw [ha', haccepted₁] at hle
  exact le_antisymm hle hge

/-! ## The calls under way -/

/-- Steps that make no new call: those of the calls under way, and of the consumer. -/
def Completes (evs : Events Ev H) : State Ev H D → State Ev H D → Prop :=
  Relation.ReflTransGen fun s s' => s' = s.advance ∨ s.frames = [] ∧ s.consume evs = .ok s'

theorem Completes.reaches {s s' : State Ev H D} (h : Completes evs s s') :
    State.Reaches evs s s' := by
  induction h with
  | refl => exact .refl
  | tail _ hstep ih =>
    rcases hstep with rfl | ⟨hframes, hok⟩
    · exact ih.tail .advance
    · exact ih.tail (.consume hframes hok)

theorem Consumes.completes {s s' : State Ev H D} (h : Consumes evs s s') : Completes evs s s' :=
  Relation.ReflTransGen.mono (fun _ _ hstep => Or.inr hstep) _ _ h

/-- The innermost call goes on, or returns. -/
theorem advance_cases {s : State Ev H D} {f : Frame Ev D} {fs : List (Frame Ev D)}
    (hframes : s.frames = f :: fs) :
    s.advance.phase = s.phase ∧ s.advance.accepted = s.accepted ∧
      match f.stage with
      | .reserved => s.advance.frames = { f with stage := .dataSet } :: fs
      | .dataSet => s.advance.frames = { f with stage := .eventSet } :: fs
      | .eventSet => s.advance.frames = fs := by
  unfold State.advance
  rw [hframes]
  cases hstage : f.stage <;> simp [hstage]

/-- The innermost call returns after three steps at most. -/
theorem call_completes {s : State Ev H D} {f : Frame Ev D} {fs : List (Frame Ev D)}
    (hframes : s.frames = f :: fs) :
    ∃ s', Completes evs s s' ∧ s'.frames = fs ∧ s'.phase = s.phase ∧ s'.accepted = s.accepted := by
  have hlast : ∀ (s : State Ev H D) (f : Frame Ev D), s.frames = f :: fs → f.stage = .eventSet →
      ∃ s', Completes evs s s' ∧ s'.frames = fs ∧ s'.phase = s.phase ∧
        s'.accepted = s.accepted := by
    intro s f hframes hstage
    obtain ⟨hp, ha, hf⟩ := advance_cases hframes
    simp only [hstage] at hf
    exact ⟨_, .single (.inl rfl), hf, hp, ha⟩
  have hdata : ∀ (s : State Ev H D) (f : Frame Ev D), s.frames = f :: fs → f.stage = .dataSet →
      ∃ s', Completes evs s s' ∧ s'.frames = fs ∧ s'.phase = s.phase ∧
        s'.accepted = s.accepted := by
    intro s f hframes hstage
    obtain ⟨hp, ha, hf⟩ := advance_cases hframes
    simp only [hstage] at hf
    obtain ⟨s', hrun, hf', hp', ha'⟩ := hlast _ _ hf rfl
    exact ⟨s', .head (.inl rfl) hrun, hf', hp'.trans hp, ha'.trans ha⟩
  cases hstage : f.stage with
  | eventSet => exact hlast s f hframes hstage
  | dataSet => exact hdata s f hframes hstage
  | reserved =>
    obtain ⟨hp, ha, hf⟩ := advance_cases hframes
    simp only [hstage] at hf
    obtain ⟨s', hrun, hf', hp', ha'⟩ := hdata _ _ hf rfl
    exact ⟨s', .head (.inl rfl) hrun, hf', hp'.trans hp, ha'.trans ha⟩

/-- All of them return, the last one entered first. -/
theorem calls_complete : ∀ {fs : List (Frame Ev D)} {s : State Ev H D}, s.frames = fs →
    ∃ s', Completes evs s s' ∧ s'.frames = [] ∧ s'.phase = s.phase ∧ s'.accepted = s.accepted := by
  intro fs
  induction fs with
  | nil => exact fun hframes => ⟨_, .refl, hframes, rfl, rfl⟩
  | cons f fs ih =>
    intro s hframes
    obtain ⟨s₁, hrun₁, hf₁, hp₁, ha₁⟩ := @call_completes Ev H D evs _ _ _ hframes
    obtain ⟨s', hrun, hf', hp', ha'⟩ := ih hf₁
    exact ⟨s', hrun₁.trans hrun, hf', hp'.trans hp₁, ha'.trans ha₁⟩

/-- The consumer comes back to the main loop, wherever it is. -/
theorem consumer_returns {s : State Ev H D} (h : Inv evs s) (hframes : s.frames = []) :
    ∃ s', Consumes evs s s' ∧ s'.phase = .idle ∧ s'.accepted = s.accepted := by
  cases hp : s.phase with
  | idle => exact ⟨s, .refl, hp, rfl⟩
  | looping rem => exact looping_returns h hframes hp
  | handling rem e todo =>
    obtain ⟨s₁, hrun₁, hf₁, hp₁, ha₁⟩ := handling_returns hframes hp
    obtain ⟨s', hrun, hp', ha'⟩ := looping_returns (reaches_inv h hrun₁.reaches) hf₁ hp₁
    exact ⟨s', hrun₁.trans hrun, hp', ha'.trans ha₁⟩

-- ---------------------------------------------------------------------------
-- Exactly once
-- ---------------------------------------------------------------------------

/-- What holds of the queue in a state. -/
structure ExactlyOnce (evs : Events Ev H) (s : State Ev H D) : Prop where
  /-- The handler calls made so far are those due for the events completely
  handled, in the order of their slots, and the first ones due for the event
  being handled. -/
  inOrder : ∃ current, s.delivered = deliverAll evs (s.accepted.take s.completed) ++ current ∧
    match s.phase with
    | .handling _ e todo => ∃ data, s.accepted[s.completed]? = some (e, data) ∧
        current ++ deliverTo evs e data todo = deliverTo evs e data (evs.handlers e)
    | _ => current = []
  /-- A call fails exactly when one slot less than the size is pending. -/
  fails : ∀ e data, (s.trigger e data).1 = -ENOMEM ↔
    s.accepted.length - s.completed = s.queue.peBufferNevts - 1
  /-- A call that fails changes nothing; any other returns zero and its event is
  the next one. -/
  rejected : ∀ e data, (s.trigger e data).1 = -ENOMEM → (s.trigger e data).2 = s
  accepted : ∀ e data, (s.trigger e data).1 ≠ -ENOMEM →
    (s.trigger e data).1 = 0 ∧ (s.trigger e data).2.accepted = s.accepted ++ [(e, data)]
  /-- The slot of the event being handled holds that event, and no call under way
  writes to it. -/
  slotKept : ∀ rem e todo, s.phase = .handling rem e todo →
    ∃ data, s.accepted[s.completed]? = some (e, data) ∧
      s.queue.peBuffer s.queue.peTail = ⟨some e, data⟩ ∧ ∀ f ∈ s.frames, f.slot ≠ s.queue.peTail
  /-- The consumer never meets an empty slot. -/
  noFault : s.frames = [] → ∃ s', s.consume evs = .ok s'

theorem zero_ne_enomem : (0 : Int) ≠ -ENOMEM := by decide

theorem Inv.exactlyOnce {s : State Ev H D} (h : Inv evs s) : ExactlyOnce evs s := by
  have hphase := h.phase
  unfold PhaseOk at hphase
  refine ⟨?_, ?_, ?_, ?_, ?_, ?_⟩
  · cases hp : s.phase with
    | idle =>
      rw [hp] at hphase
      exact ⟨[], by rw [List.append_nil]; exact hphase.2, rfl⟩
    | looping rem =>
      rw [hp] at hphase
      exact ⟨[], by rw [List.append_nil]; exact hphase.2, rfl⟩
    | handling rem e todo =>
      rw [hp] at hphase
      obtain ⟨-, data, called, hentry, hcalled, hlog⟩ := hphase
      refine ⟨_, hlog, data, hentry, ?_⟩
      rw [hcalled]
      unfold deliverTo
      rw [List.filter_append, List.map_append]
  · intro e data
    rw [← h.full_iff]
    rcases trigger_cases s e data with ⟨hfull, hres⟩ | ⟨hspace, hres⟩
    · rw [hres]
      exact iff_of_true rfl hfull
    · rw [hres]
      exact iff_of_false zero_ne_enomem hspace
  · intro e data hfail
    rcases trigger_cases s e data with ⟨-, hres⟩ | ⟨-, hres⟩
    · rw [hres]
    · rw [hres] at hfail
      exact absurd hfail zero_ne_enomem
  · intro e data hok
    rcases trigger_cases s e data with ⟨-, hres⟩ | ⟨-, hres⟩
    · rw [hres] at hok
      exact absurd rfl hok
    · rw [hres]
      exact ⟨rfl, rfl⟩
  · intro rem e todo hp
    rw [hp] at hphase
    obtain ⟨hrem, data, -, hentry, -⟩ := hphase
    have hslot := h.tail_slot (by omega) hentry
    exact ⟨data, hentry, hslot.1, hslot.2⟩
  · intro hframes
    obtain ⟨s', hok, -⟩ := consume_inv h hframes
    exact ⟨s', hok⟩

/-- **Exactly once, in order.** In every interleaving of `trigger_event` calls,
nested to any depth, with `handle_regular_events`: the handler calls are those
due for the accepted events in the order of their slots; a rejected call changes
nothing; every event accepted before a call of `handle_regular_events` is handled
when that call returns, and left alone the call does return; and from every state
the calls under way can be completed and the queue drained, without an event more. -/
theorem events_exactly_once {nevts : Nat} (hn : IsRingSize nevts)
    (buffer : Nat → PendingEvent Ev D) {s : State Ev H D}
    (hrun : State.Reaches evs (State.init nevts buffer) s) :
    ExactlyOnce evs s ∧
      (∀ s₁ s₂, s.phase = .idle → s.frames = [] → s.consume evs = .ok s₁ →
        State.Reaches evs s₁ s₂ → s₂.phase = .idle →
        s.accepted <+: s₂.accepted ∧ s.accepted.length ≤ s₂.completed) ∧
      (s.phase = .idle → s.frames = [] → ∃ s', Consumes evs s s' ∧ s'.phase = .idle ∧
        s'.accepted = s.accepted ∧ s'.delivered = deliverAll evs s.accepted) ∧
      ∃ s', Completes evs s s' ∧ s'.frames = [] ∧ s'.phase = .idle ∧
        s'.queue.pendingRegularEvents = 0 ∧ s'.accepted = s.accepted ∧
        s'.delivered = deliverAll evs s.accepted := by
  have h := reaches_inv (init_inv hn buffer) hrun
  refine ⟨h.exactlyOnce, ?_, ?_, ?_⟩
  · intro s₁ s₂ hidle hframes hcall hrun₁ hback
    have hinv₁ : Inv evs s₁ := step_inv h (.consume hframes hcall)
    have hfirst := step_grows h (.consume hframes hcall)
    exact ⟨hfirst.accepted.trans (reaches_grows hinv₁ hrun₁).accepted,
      handled_of_returned h hidle hframes hcall hrun₁ hback⟩
  · intro hidle hframes
    obtain ⟨s', hcons, hp', ha', hc'⟩ := handle_returns h hidle hframes
    refine ⟨s', hcons, hp', ha', ?_⟩
    have hphase := (reaches_inv h hcons.reaches).phase
    unfold PhaseOk at hphase
    rw [hp'] at hphase
    rw [hphase.2, ha', hc', List.take_length]
  · -- the calls under way return, then the call of the consumer, then one more of it
    obtain ⟨s₁, hrun₁, hf₁, -, ha₁⟩ := @calls_complete Ev H D evs _ s rfl
    have h₁ := reaches_inv h hrun₁.reaches
    obtain ⟨s₂, hrun₂, hp₂, ha₂⟩ := consumer_returns h₁ hf₁
    have hf₂ : s₂.frames = [] := hrun₂.frames.trans hf₁
    obtain ⟨s', hrun', hp', ha', hc'⟩ := handle_returns (reaches_inv h₁ hrun₂.reaches) hp₂ hf₂
    have hall : Completes evs s s' := (hrun₁.trans hrun₂.completes).trans hrun'.completes
    have hinv := reaches_inv h hall.reaches
    have hphase := hinv.phase
    unfold PhaseOk at hphase
    rw [hp'] at hphase
    have hlen : s'.accepted = s₂.accepted := ha'
    refine ⟨s', hall, hrun'.frames.trans hf₂, hp', ?_, ha'.trans (ha₂.trans ha₁), ?_⟩
    · rw [hinv.pending_eq, hlen, hc', Nat.sub_self]
    · rw [hphase.2, ha', hc', List.take_length, ha₂, ha₁]

/-- Two events with one handler each; the second event's handler has no `handle`
operation. An interrupt comes while the first event's slot is unfilled. -/
def twoEvents : Events Bool Bool where
  handlers := fun e => [e]
  hasHandle := fun d => !d

def nested : State Bool Bool Nat :=
  ((State.init 4 fun _ => ⟨none, 0⟩).trigger false 7).2.advance.trigger true 8 |>.2

theorem reaches_nested : State.Reaches twoEvents (State.init 4 fun _ => ⟨none, 0⟩) nested :=
  .tail (.tail (.tail .refl (.trigger false 7)) .advance) (.trigger true 8)

theorem events_exactly_once_nested : ExactlyOnce twoEvents nested :=
  (events_exactly_once ⟨2, by decide, rfl⟩ _ reaches_nested).1

end Bathos.Event
