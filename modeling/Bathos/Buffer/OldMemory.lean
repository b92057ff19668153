import Bathos.Buffer.Descriptors
import Bathos.Lib.Run

/-!
# Bathos — buffer descriptors in recycled memory

`bathos_bqueue_server_init` carves the descriptors out of a block of the allocator, which
is not cleared, and sets `data`, `queue` and `list`, but neither `users`, `sglist`,
`data_size` nor `release_event`. The release event is set by `bathos_bqueue_get_buf`
before anything reads it; the other three are used as they are found.

Two runs are compared, from the same queue and with the same calls, whose memories differ.

Main result: `noInheritance_iff` — the two runs cannot be told apart, every counter starts
at zero and every scatter list empty, exactly when the memories hold these values already
and agree in the sizes of the descriptors with data.
-/

namespace Bathos.BufferQueue

open Bathos.Lib

-- ---------------------------------------------------------------------------
-- Calls
-- ---------------------------------------------------------------------------

/-- The calls of both sides. Client and server know the buffers `bathos_bqueue_get_buf`
has returned; `k` is a number in the order of these returns. -/
inductive Call where
  | start
  | stop
  | getBuf
  | bdescrGet (k : Nat)
  | bdescrPut (k : Nat)
  | dataSize (k : Nat)
  | addSglistEl (k len : Nat)
  | bufProcessed (k : Nat)
  | bufDone (k : Nat)
deriving DecidableEq, Repr

inductive Answer where
  | void
  | buf (out : Option Node)
  | size (out : Option Nat)
  | status (s : Int)
deriving DecidableEq, Repr

/-- A queue in use: the buffers returned so far, the number of scatter list elements used,
each of them once, and what the calls have answered. -/
structure Session where
  q : Bqueue
  returned : List Node
  els : Nat
  answers : List Answer

namespace Session

/-- A call that changes the queue and returns nothing. -/
def run (f : Bqueue → Bqueue) (s : Session) : Session :=
  { s with q := f s.q, answers := s.answers ++ [.void] }

/-- A call; a buffer that has not been returned cannot be named. The loop over a scatter
list is followed for `fuel` rounds. -/
def call (fuel : Nat) (s : Session) : Call → Session
  | .start => s.run Bqueue.start
  | .stop => s.run Bqueue.stop
  | .getBuf =>
    { s with q := s.q.getBuf.2, returned := s.returned ++ s.q.getBuf.1.toList,
             answers := s.answers ++ [.buf s.q.getBuf.1] }
  | .bdescrGet k => (s.returned[k]?).elim s fun b => s.run (Bqueue.bdescrGet b)
  | .bdescrPut k => (s.returned[k]?).elim s fun b => s.run (Bqueue.bdescrPut b)
  | .dataSize k => (s.returned[k]?).elim s fun b =>
    { s with answers := s.answers ++ [.size (s.q.bdescrDataSize fuel b)] }
  | .addSglistEl k len => (s.returned[k]?).elim s fun b =>
    let q := { s.q with len := Function.update s.q.len (.el s.els) len }
    { s with q := q.bdescrAddSglistEl b (.el s.els), els := s.els + 1,
             answers := s.answers ++ [.status 0] }
  | .bufProcessed k => (s.returned[k]?).elim s fun b => s.run (Bqueue.serverBufProcessed b)
  | .bufDone k => (s.returned[k]?).elim s fun b => s.run (Bqueue.serverBufDone b)

/-- Both sides have initialised the queue, the server with the memory given. -/
def initial (setup done available processed : Option Nat) (area nbufs bufsize : Int) (q₀ : Bqueue)
    (mem : Nat → Recycled) : Session :=
  { q := (Bqueue.serverInit setup done area nbufs bufsize (some mem) q₀).2.clientInit
      available processed
    returned := [], els := 0, answers := [] }

end Session

-- ---------------------------------------------------------------------------
-- What is asked
-- ---------------------------------------------------------------------------

/-- The counter is zero and the scatter list empty. -/
def Fresh (q : Bqueue) (b : Nat) : Prop :=
  (q.bdescr (.buf b)).users = 0 ∧ q.links.Ring (.sglist (.buf b)) []

/-- Nobody can tell the two sessions apart. -/
def Same (n : Nat) (s₁ s₂ : Session) : Prop :=
  s₁.answers = s₂.answers ∧ s₁.q.events = s₂.q.events ∧
    ∀ b < n, (s₁.q.bdescr (.buf b)).users = (s₂.q.bdescr (.buf b)).users

/-- The descriptors inherit nothing. -/
structure NoInheritance (n : Nat) (s₁ s₂ : Session) : Prop where
  fresh : ∀ b < n, Fresh s₁.q b ∧ Fresh s₂.q b
  same : ∀ (fuel : Nat) (calls : List Call),
    Same n (runFrom (Session.call fuel) s₁ calls) (runFrom (Session.call fuel) s₂ calls)

/-- The memory of an operation holds a counter of zero and a scatter list that is linked to
itself. -/
def Recycled.Cleared (b : Nat) (c : Recycled) : Prop :=
  c.bdescr.users = 0 ∧ c.sglist = (.sglist (.buf b), .sglist (.buf b))

/-- The condition on the memories: both cleared, and no difference in the size of a
buffer with data. -/
def Prepared (area bufsize : Int) (n : Nat) (mem₁ mem₂ : Nat → Recycled) : Prop :=
  ∀ b < n, (mem₁ b).Cleared b ∧ (mem₂ b).Cleared b ∧
    (Bqueue.dataPtr area bufsize b ≠ 0 → (mem₁ b).bdescr.dataSize = (mem₂ b).bdescr.dataSize)

-- ---------------------------------------------------------------------------
-- Sessions that cannot be told apart
-- ---------------------------------------------------------------------------

/-- Two descriptors that differ at most in what nobody has read: the size of a buffer
without data, the release event of one that is not in use. -/
def Alike (inUse : Prop) (x y : Bdescr) : Prop :=
  x.data = y.data ∧ x.users = y.users ∧ (x.data ≠ 0 → x.dataSize = y.dataSize) ∧
    (inUse → x.releaseEvent = y.releaseEvent)

def Bqueue.withBdescr (d : Node → Bdescr) (q : Bqueue) : Bqueue := { q with bdescr := d }

def Session.withBdescr (d : Node → Bdescr) (s : Session) : Session :=
  { s with q := s.q.withBdescr d }

/-- The sessions differ in their descriptors only, and these are alike. -/
def Related (s₁ s₂ : Session) : Prop :=
  ∃ d, s₂ = s₁.withBdescr d ∧ ∀ b, Alike (b ∈ s₁.returned) (s₁.q.bdescr b) (d b)

theorem Related.same {n : Nat} {s₁ s₂ : Session} (h : Related s₁ s₂) : Same n s₁ s₂ := by
  obtain ⟨d, rfl, hd⟩ := h
  exact ⟨rfl, rfl, fun b _ => (hd (.buf b)).2.1⟩

theorem sglistLen_withBdescr (q : Bqueue) (d : Node → Bdescr) (head : Node) (fuel : Nat) (n : Node) :
    (q.withBdescr d).sglistLen head fuel n = q.sglistLen head fuel n := by
  induction fuel generalizing n with
  | zero => rfl
  | succ fuel ih =>
    unfold Bqueue.sglistLen
    rw [ih]
    rfl

/-- One descriptor changes, in both sessions. -/
theorem alike_update {returned : List Node} {d₁ d₂ : Node → Bdescr} {b : Node} {x y : Bdescr}
    (h : ∀ c, c ≠ b → Alike (c ∈ returned) (d₁ c) (d₂ c)) (hxy : Alike (b ∈ returned) x y)
    (c : Node) :
    Alike (c ∈ returned) (Function.update d₁ b x c) (Function.update d₂ b y c) := by
  by_cases hc : c = b
  · subst hc
    rwa [Function.update_self, Function.update_self]
  · rw [Function.update_of_ne hc, Function.update_of_ne hc]
    exact h c hc

theorem Alike.users {inUse : Prop} {x y : Bdescr} (h : Alike inUse x y) (n : Int) :
    Alike inUse { x with users := x.users + n } { y with users := y.users + n } :=
  ⟨h.1, by rw [h.2.1], h.2.2.1, h.2.2.2⟩

/-- Once its release event is set, a buffer can be used. -/
theorem Alike.releaseEvent {inUse inUse' : Prop} {x y : Bdescr} (h : Alike inUse x y)
    (e : Option Nat) :
    Alike inUse' { x with releaseEvent := e } { y with releaseEvent := e } :=
  ⟨h.1, h.2.1, h.2.2.1, fun _ => rfl⟩

namespace Related

variable {s : Session} {d : Node → Bdescr}

/-- A call that does not look at the descriptors. -/
theorem run_links {f : Bqueue → Bqueue}
    (hf : ∀ q d, f (q.withBdescr d) = (f q).withBdescr d) (hbdescr : ∀ q, (f q).bdescr = q.bdescr)
    (hd : ∀ b, Alike (b ∈ s.returned) (s.q.bdescr b) (d b)) :
    Related (s.run f) ((s.withBdescr d).run f) := by
  refine ⟨d, ?_, fun b => ?_⟩
  · unfold Session.run Session.withBdescr
    simp only [hf]
  · show Alike (b ∈ s.returned) ((f s.q).bdescr b) (d b)
    rw [hbdescr]
    exact hd b

theorem start (hd : ∀ b, Alike (b ∈ s.returned) (s.q.bdescr b) (d b)) :
    Related (s.run Bqueue.start) ((s.withBdescr d).run Bqueue.start) := by
  refine run_links (fun q d => ?_) (fun q => ?_) hd
  · unfold Bqueue.start Bqueue.withBdescr
    simp only
    split <;> rfl
  · unfold Bqueue.start
    simp only
    split <;> rfl

theorem bufDone (hd : ∀ b, Alike (b ∈ s.returned) (s.q.bdescr b) (d b)) (b : Node) :
    Related (s.run (Bqueue.serverBufDone b)) ((s.withBdescr d).run (Bqueue.serverBufDone b)) := by
  refine run_links (fun q d => ?_) (fun q => ?_) hd
  · unfold Bqueue.serverBufDone Bqueue.bufDoneTrigger Bqueue.bufDoneMove Bqueue.withBdescr
    simp only
    split <;> rfl
  · unfold Bqueue.serverBufDone Bqueue.bufDoneTrigger Bqueue.bufDoneMove
    simp only
    split <;> rfl

/-- Setting the release event makes the descriptor one that can be used. -/
theorem getBuf (fuel : Nat) (hd : ∀ b, Alike (b ∈ s.returned) (s.q.bdescr b) (d b)) :
    Related (s.call fuel .getBuf) ((s.withBdescr d).call fuel .getBuf) := by
  obtain ⟨q, returned, els, answers⟩ := s
  by_cases hstopped : q.stopped = true
  · refine ⟨d, ?_, fun b => ?_⟩
    · simp [Session.call, Session.withBdescr, Bqueue.withBdescr, Bqueue.getBuf, hstopped]
    · simpa [Session.call, Bqueue.getBuf, hstopped] using hd b
  by_cases hempty : listEmpty .freeBufs q.links = true
  · refine ⟨d, ?_, fun b => ?_⟩
    · simp [Session.call, Session.withBdescr, Bqueue.withBdescr, Bqueue.getBuf, hstopped, hempty]
    · simpa [Session.call, Bqueue.getBuf, hstopped, hempty] using hd b
  have hcall : ∀ e, (⟨q.withBdescr e, returned, els, answers⟩ : Session).call fuel .getBuf =
      ⟨(({ q with links := listMove (q.links.next .freeBufs) .busyBufs q.links }.withBdescr
          e).bdescrRemapReleaseEvent (q.links.next .freeBufs) q.setupEvent).bdescrGet
          (q.links.next .freeBufs),
        returned ++ [q.links.next .freeBufs], els,
        answers ++ [.buf (some (q.links.next .freeBufs))]⟩ := by
    intro e
    simp [Session.call, Bqueue.withBdescr, Bqueue.getBuf, hstopped, hempty]
  show Related ((⟨q.withBdescr q.bdescr, returned, els, answers⟩ : Session).call fuel .getBuf)
    ((⟨q.withBdescr d, returned, els, answers⟩ : Session).call fuel .getBuf)
  rw [hcall, hcall]
  have hframe : ∀ c, c ≠ q.links.next .freeBufs →
      Alike (c ∈ returned ++ [q.links.next .freeBufs]) (q.bdescr c) (d c) := by
    intro c hc
    obtain ⟨hdata, husers, hsize, hrelease⟩ := hd c
    refine ⟨hdata, husers, hsize, fun h => hrelease ?_⟩
    rw [List.mem_append, List.mem_singleton] at h
    exact h.resolve_right hc
  have hremap := alike_update hframe
    ((hd (q.links.next .freeBufs)).releaseEvent q.setupEvent)
  exact ⟨_, rfl, alike_update (fun c _ => hremap c) ((hremap _).users 1)⟩

/-- The users counters agree, so both puts are the last or neither is. -/
theorem bdescrPut {b : Node} (hb : b ∈ s.returned)
    (hd : ∀ b, Alike (b ∈ s.returned) (s.q.bdescr b) (d b)) :
    Related (s.run (Bqueue.bdescrPut b)) ((s.withBdescr d).run (Bqueue.bdescrPut b)) := by
  obtain ⟨q, returned, els, answers⟩ := s
  have hput := alike_update (fun c _ => hd c) ((hd b).users (-1))
  obtain ⟨-, husers, -, hrelease⟩ := hd b
  refine ⟨Function.update d b { d b with users := (d b).users - 1 }, ?_, fun c => ?_⟩
  · unfold Session.run Session.withBdescr Bqueue.bdescrPut Bqueue.withBdescr
    simp only [Function.update_self, ← husers, ← hrelease hb]
    split_ifs <;> rfl
  · have hbdescr : (q.bdescrPut b).bdescr =
        Function.update q.bdescr b { q.bdescr b with users := (q.bdescr b).users - 1 } := by
      unfold Bqueue.bdescrPut
      simp only
      split_ifs <;> rfl
    show Alike (c ∈ returned) ((q.bdescrPut b).bdescr c) _
    rw [hbdescr]
    exact hput c

/-- A size that is used is the same in both. -/
theorem dataSize (fuel : Nat) (b : Node)
    (hd : ∀ b, Alike (b ∈ s.returned) (s.q.bdescr b) (d b)) :
    (s.q.withBdescr d).bdescrDataSize fuel b = s.q.bdescrDataSize fuel b := by
  obtain ⟨hdata, -, hsize, -⟩ := hd b
  unfold Bqueue.bdescrDataSize
  rw [sglistLen_withBdescr]
  show (if (d b).data ≠ 0 then some (d b).dataSize else _) = _
  rw [← hdata]
  by_cases hnull : (s.q.bdescr b).data ≠ 0
  · rw [if_pos hnull, if_pos hnull, hsize hnull]
  · rw [if_neg hnull, if_neg hnull]
    rfl

theorem call {s₁ s₂ : Session} (h : Related s₁ s₂) (fuel : Nat) (c : Call) :
    Related (s₁.call fuel c) (s₂.call fuel c) := by
  obtain ⟨d, rfl, hd⟩ := h
  -- both name the same buffer
  have hnamed : ∀ (k : Nat) (f g : Node → Session),
      (∀ b ∈ s₁.returned, Related (f b) (g b)) →
      Related ((s₁.returned[k]?).elim s₁ f) ((s₁.returned[k]?).elim (s₁.withBdescr d) g) := by
    intro k f g hfg
    cases hk : s₁.returned[k]? with
    | none => exact ⟨d, rfl, hd⟩
    | some b => exact hfg b (List.mem_of_getElem? hk)
  cases c with
  | start => exact start hd
  | stop => exact run_links (fun _ _ => rfl) (fun _ => rfl) hd
  | getBuf => exact getBuf fuel hd
  | bdescrGet k =>
    refine hnamed k _ _ fun b hb => ⟨_, rfl, ?_⟩
    exact alike_update (fun c _ => hd c) ((hd b).users 1)
  | bdescrPut k => exact hnamed k _ _ fun b hb => bdescrPut hb hd
  | dataSize k =>
    refine hnamed k _ _ fun b hb => ⟨d, ?_, hd⟩
    show (⟨_, _, _, _ ++ [.size ((s₁.q.withBdescr d).bdescrDataSize fuel b)]⟩ : Session) = _
    rw [dataSize fuel b hd]
    rfl
  | addSglistEl k len => exact hnamed k _ _ fun b hb => ⟨d, rfl, hd⟩
  | bufProcessed k =>
    exact hnamed k _ _ fun b hb => run_links (fun _ _ => rfl) (fun _ => rfl) hd
  | bufDone k => exact hnamed k _ _ fun b hb => bufDone hd b

/-- No calls can tell the two apart. -/
theorem run {s₁ s₂ : Session} (h : Related s₁ s₂) (fuel : Nat) (calls : List Call) :
    Related (runFrom (Session.call fuel) s₁ calls) (runFrom (Session.call fuel) s₂ calls) :=
  List.foldl_rel h fun c _ _ _ hs => hs.call fuel c

end Related

-- ---------------------------------------------------------------------------
-- What the initialisation leaves of the memory
-- ---------------------------------------------------------------------------

namespace Bqueue

/-- `bathos_bqueue_server_init` before it looks at `nbufs`. -/
def initHeads (setup done : Option Nat) (q : Bqueue) : Bqueue :=
  { q with setupEvent := setup, doneEvent := done,
           links := initListHead .freeBufs (initListHead .busyBufs q.links) }

/-- The descriptors made of the memory. -/
def initOps (area bufsize : Int) (n : Nat) (mem : Nat → Recycled) (q : Bqueue) : Bqueue :=
  (List.range n).foldl (initOp area bufsize) (q.allocated n mem)

theorem serverInit_eq {setup done : Option Nat} {area nbufs bufsize : Int} {q : Bqueue}
    {mem : Nat → Recycled} :
    (serverInit setup done area nbufs bufsize (some mem) q).2 =
      if nbufs ≤ 0 then q.initHeads setup done
      else (q.initHeads setup done).initOps area bufsize nbufs.toNat mem := by
  unfold serverInit
  by_cases hzero : nbufs = 0
  · subst hzero
    rfl
  · by_cases hneg : nbufs < 0
    · simp only [if_neg hzero, if_pos hneg, if_pos hneg.le]
      rfl
    · simp only [if_neg hzero, if_neg hneg, if_neg (by omega : ¬ nbufs ≤ 0)]
      rfl

variable {area bufsize : Int} {n : Nat} {mem : Nat → Recycled} {q : Bqueue}

theorem allocated_bdescr {b : Nat} (hb : b < n) :
    (q.allocated n mem).bdescr (.buf b) = (mem b).bdescr := by
  simp [allocated, hb]

theorem allocated_bdescr_ne {c : Node} (hc : ∀ b < n, c ≠ .buf b) :
    (q.allocated n mem).bdescr c = q.bdescr c := by
  cases c with
  | buf b =>
    have hb : ¬ b < n := fun hb => hc b hb rfl
    simp [allocated, hb]
  | _ => rfl

theorem allocated_sglist {b : Nat} (hb : b < n) :
    (q.allocated n mem).links.next (.sglist (.buf b)) = (mem b).sglist.1 ∧
      (q.allocated n mem).links.prev (.sglist (.buf b)) = (mem b).sglist.2 := by
  simp [allocated, hb]

theorem initOp_bdescr_ne {c : Node} {k : Nat} (hc : ∀ b < k, c ≠ .buf b) :
    ((List.range k).foldl (initOp area bufsize) q).bdescr c = q.bdescr c := by
  induction k with
  | zero => rfl
  | succ k ih =>
    rw [List.range_succ, List.foldl_append]
    show Function.update (_ : Node → Bdescr) (.buf k) _ c = _
    rw [Function.update_of_ne (hc k (Nat.lt_succ_self k)),
      ih fun b hb => hc b (Nat.lt_succ_of_lt hb)]

/-- The rest of the queue does not change. -/
theorem initOp_rest (k : Nat) :
    (List.range k).foldl (initOp area bufsize) q =
      { q with bdescr := ((List.range k).foldl (initOp area bufsize) q).bdescr
               links := ((List.range k).foldl (initOp area bufsize) q).links } := by
  induction k with
  | zero => rfl
  | succ k ih =>
    rw [List.range_succ, List.foldl_append]
    show initOp area bufsize _ k = _
    rw [ih]
    rfl

/-- Of a descriptor only `data` is set. -/
theorem initOp_bdescr {b k : Nat} (hb : b < k) :
    ((List.range k).foldl (initOp area bufsize) q).bdescr (.buf b) =
      { q.bdescr (.buf b) with data := dataPtr area bufsize b } := by
  induction k with
  | zero => cases hb
  | succ k ih =>
    rw [List.range_succ, List.foldl_append]
    show Function.update (_ : Node → Bdescr) (.buf k) _ (.buf b) = _
    by_cases hbk : b = k
    · subst hbk
      rw [Function.update_self, initOp_bdescr_ne fun c hc heq => ?_]
      cases heq
      exact lt_irrefl b hc
    · rw [Function.update_of_ne fun heq => hbk (by cases heq; rfl)]
      exact ih (by omega)

/-- The node added in the latest of `k` rounds. -/
def lastAdded : Nat → Node
  | 0 => .freeBufs
  | k + 1 => .buf k

theorem initOp_next (hq : q.links.next .freeBufs = .freeBufs) (k : Nat) :
    ((List.range k).foldl (initOp area bufsize) q).links.next .freeBufs = lastAdded k := by
  cases k with
  | zero => exact hq
  | succ k =>
    rw [List.range_succ, List.foldl_append]
    simp [initOp, listAdd, listAddAt, lastAdded]

/-- The links after one more round. -/
theorem initOp_links (hq : q.links.next .freeBufs = .freeBufs) (k : Nat) :
    ((List.range (k + 1)).foldl (initOp area bufsize) q).links =
      let l := ((List.range k).foldl (initOp area bufsize) q).links
      { next := Function.update (Function.update l.next (.buf k) (lastAdded k)) .freeBufs (.buf k)
        prev := Function.update (Function.update l.prev (lastAdded k) (.buf k)) (.buf k)
          .freeBufs } := by
  rw [List.range_succ, List.foldl_append, ← initOp_next hq k]
  rfl

/-- The scatter lists are left as they are. -/
theorem initOp_sglist (hq : q.links.next .freeBufs = .freeBufs) (k : Nat) (b : Node) :
    ((List.range k).foldl (initOp area bufsize) q).links.next (.sglist b) =
        q.links.next (.sglist b) ∧
      ((List.range k).foldl (initOp area bufsize) q).links.prev (.sglist b) =
        q.links.prev (.sglist b) := by
  induction k with
  | zero => exact ⟨rfl, rfl⟩
  | succ k ih =>
    have hne : Node.sglist b ≠ lastAdded k := by
      intro heq
      cases k <;> cases heq
    rw [initOp_links hq, ← ih.1, ← ih.2]
    simp [Function.update_of_ne, hne]

/-- Two memories whose difference the loop overwrites: at the `list` of the buffers from
`k` on. -/
theorem initOp_links_congr {q₁ q₂ : Bqueue} (hq₁ : q₁.links.next .freeBufs = .freeBufs)
    (hq₂ : q₂.links.next .freeBufs = .freeBufs)
    (hlinks : ∀ c, (∀ b < n, c ≠ .buf b) →
      q₁.links.next c = q₂.links.next c ∧ q₁.links.prev c = q₂.links.prev c)
    (k : Nat) (c : Node) (hc : ∀ b < n, k ≤ b → c ≠ .buf b) :
    ((List.range k).foldl (initOp area bufsize) q₁).links.next c =
        ((List.range k).foldl (initOp area bufsize) q₂).links.next c ∧
      ((List.range k).foldl (initOp area bufsize) q₁).links.prev c =
        ((List.range k).foldl (initOp area bufsize) q₂).links.prev c := by
  induction k with
  | zero => exact hlinks c fun b hb => hc b hb (Nat.zero_le b)
  | succ k ih =>
    rw [initOp_links hq₁, initOp_links hq₂]
    simp only [Function.update_apply]
    by_cases hck : c = .buf k
    · subst hck
      simp
    · obtain ⟨hnext, hprev⟩ := ih fun b hb hkb => by
        by_cases hbk : b = k
        · rwa [hbk]
        · exact hc b hb (by omega)
      rw [hnext, hprev]
      exact ⟨rfl, rfl⟩

/-- Two memories that agree in the scatter lists. -/
theorem allocated_links_congr {mem₁ mem₂ : Nat → Recycled}
    (hsglist : ∀ b < n, (mem₁ b).sglist = (mem₂ b).sglist) (c : Node) (hc : ∀ b < n, c ≠ .buf b) :
    (q.allocated n mem₁).links.next c = (q.allocated n mem₂).links.next c ∧
      (q.allocated n mem₁).links.prev c = (q.allocated n mem₂).links.prev c := by
  cases c with
  | buf b =>
    have hb : ¬ b < n := fun hb => hc b hb rfl
    simp [allocated, hb]
  | sglist b =>
    cases b with
    | buf b =>
      by_cases hb : b < n
      · simp [allocated, hb, hsglist b hb]
      · simp [allocated, hb]
    | _ => exact ⟨rfl, rfl⟩
  | _ => exact ⟨rfl, rfl⟩

variable {mem₁ mem₂ : Nat → Recycled}

/-- Prepared memories make descriptors that are alike. -/
theorem initOps_alike (hq : q.links.next .freeBufs = .freeBufs)
    (h : Prepared area bufsize n mem₁ mem₂) :
    q.initOps area bufsize n mem₂ =
        (q.initOps area bufsize n mem₁).withBdescr (q.initOps area bufsize n mem₂).bdescr ∧
      ∀ c, Alike False ((q.initOps area bufsize n mem₁).bdescr c)
        ((q.initOps area bufsize n mem₂).bdescr c) := by
  have hlinks : (q.initOps area bufsize n mem₂).links = (q.initOps area bufsize n mem₁).links := by
    have hcongr := fun c => @initOp_links_congr area bufsize n (q.allocated n mem₂)
      (q.allocated n mem₁) hq hq
      (allocated_links_congr fun b hb => by rw [(h b hb).1.2, (h b hb).2.1.2]) n c
      fun b hb hnb => absurd hb (Nat.not_lt.mpr hnb)
    exact Links.ext (funext fun c => (hcongr c).1) (funext fun c => (hcongr c).2)
  refine ⟨?_, fun c => ?_⟩
  · have hrest := @initOp_rest area bufsize (q.allocated n mem₁) n
    have hrest' := @initOp_rest area bufsize (q.allocated n mem₂) n
    unfold withBdescr
    unfold initOps at hlinks ⊢
    rw [hrest', hlinks, hrest]
    rfl
  · unfold initOps
    by_cases hc : ∃ b < n, c = .buf b
    · obtain ⟨b, hb, rfl⟩ := hc
      obtain ⟨hclear₁, hclear₂, hsize⟩ := h b hb
      rw [initOp_bdescr hb, initOp_bdescr hb, allocated_bdescr hb, allocated_bdescr hb]
      exact ⟨rfl, hclear₁.1.trans hclear₂.1.symm, hsize, False.elim⟩
    · have hne : ∀ b < n, c ≠ .buf b := fun b hb heq => hc ⟨b, hb, heq⟩
      rw [initOp_bdescr_ne hne, initOp_bdescr_ne hne, allocated_bdescr_ne hne,
        allocated_bdescr_ne hne]
      exact ⟨rfl, rfl, fun _ => rfl, False.elim⟩

/-- What is found in the memory is what the queue starts with. -/
theorem initOps_fresh_iff (hq : q.links.next .freeBufs = .freeBufs) {b : Nat} (hb : b < n) :
    Fresh (q.initOps area bufsize n mem) b ↔ (mem b).Cleared b := by
  obtain ⟨hnext, hprev⟩ := @initOp_sglist area bufsize (q.allocated n mem) hq n (.buf b)
  obtain ⟨hnext', hprev'⟩ := @allocated_sglist n mem q b hb
  unfold Fresh Recycled.Cleared initOps
  rw [initOp_bdescr hb, allocated_bdescr hb, Links.ring_nil_iff, hnext, hprev, hnext', hprev',
    Prod.ext_iff]

end Bqueue

-- ---------------------------------------------------------------------------
-- Every buffer can be had, and its size be asked for
-- ---------------------------------------------------------------------------

/-- The two lists of the queue. -/
def queueHead (busy : Bool) : Node := bif busy then .busyBufs else .freeBufs

theorem queueHead_injective : Function.Injective queueHead := by
  intro i j h
  cases i <;> cases j <;> cases h <;> rfl

/-- The free buffers are handed out in their order, and what they hold stays. -/
theorem call_getBufs (fuel : Nat) {xs : List Node} {s : Session} {lists : Bool → List Node}
    (hl : s.q.links.Holds queueHead lists) (hfree : lists false = xs)
    (hstopped : s.q.stopped = false) :
    let s' := runFrom (Session.call fuel) s (List.replicate xs.length .getBuf)
    s'.returned = s.returned ++ xs ∧ ∀ c, (s'.q.bdescr c).data = (s.q.bdescr c).data ∧
      (s'.q.bdescr c).dataSize = (s.q.bdescr c).dataSize := by
  induction xs generalizing s lists with
  | nil => exact ⟨(List.append_nil _).symm, fun c => ⟨rfl, rfl⟩⟩
  | cons out rest ih =>
    have hring := hl.ring false
    rw [hfree] at hring
    have hnext : s.q.links.next .freeBufs = out := hring.next_head
    have hout : out ∈ lists false := by
      rw [hfree]
      exact List.mem_cons_self
    have hempty : listEmpty .freeBufs s.q.links = false := by
      unfold listEmpty
      rw [hnext]
      exact decide_eq_false (hl.ne_head hout false)
    have hget : s.q.getBuf = (some out, (({ s.q with
        links := listMove out .busyBufs s.q.links }.bdescrRemapReleaseEvent out
          s.q.setupEvent).bdescrGet out)) := by
      unfold Bqueue.getBuf
      rw [if_neg (by simp [hstopped]), if_neg (by simp [hempty])]
      simp only [hnext]
    have hl' : (s.call fuel .getBuf).q.links.Holds queueHead (movedFront lists out true) := by
      have hmove := holds_listMove (j := true) hl hout
      simp only [Session.call, hget]
      exact hmove
    have hfree' : movedFront lists out true false = rest := by
      unfold movedFront
      rw [Function.update_of_ne Bool.false_ne_true, hfree, List.erase_cons_head]
    have hstopped' : (s.call fuel .getBuf).q.stopped = false := by
      simp only [Session.call, hget]
      exact hstopped
    obtain ⟨hreturned, hsame⟩ := ih hl' hfree' hstopped'
    rw [List.length_cons, List.replicate_succ, runFrom_cons]
    refine ⟨?_, fun c => ?_⟩
    · rw [hreturned]
      simp [Session.call, hget]
    · rw [(hsame c).1, (hsame c).2]
      simp only [Session.call, hget, Bqueue.bdescrGet, Bqueue.bdescrRemapReleaseEvent,
        Function.update_apply]
      split_ifs with hc
      · subst hc
        exact ⟨rfl, rfl⟩
      · exact ⟨rfl, rfl⟩

theorem initHeads_next (setup done : Option Nat) (q : Bqueue) :
    (q.initHeads setup done).links.next .freeBufs = .freeBufs := by
  simp [Bqueue.initHeads, initListHead]

/-- The queue as `bathos_bqueue_server_init` leaves it, with its two lists. -/
theorem holds_initOps {setup done : Option Nat} {area bufsize : Int} {q₀ : Bqueue} (n : Nat)
    (mem : Nat → Recycled) :
    ((q₀.initHeads setup done).initOps area bufsize n mem).links.Holds queueHead
      (Function.update (fun _ => []) false (handOut n)) := by
  have hhead : ∀ i b, queueHead i ≠ .buf b := by
    intro i b h
    cases i <;> cases h
  refine holds_initOp rfl hhead (Links.holds_nil queueHead_injective fun i => ?_) n
  have hbusy : (initListHead .busyBufs q₀.links).Ring .busyBufs [] :=
    ring_initListHead _ (Or.inl rfl)
  have hheads : ((q₀.initHeads setup done).links).Ring (queueHead i) [] := by
    cases i with
    | false => exact ring_initListHead _ (Or.inl rfl)
    | true => exact ring_initListHead _ (Or.inr hbusy)
  rw [Links.ring_nil_iff] at hheads ⊢
  cases i <;> exact hheads

section Initial

variable {setup done available processed : Option Nat} {area nbufs bufsize : Int} {q₀ : Bqueue}

/-- The session of a queue with buffers. -/
theorem initial_eq (hpos : ¬ nbufs ≤ 0) (mem : Nat → Recycled) :
    Session.initial setup done available processed area nbufs bufsize q₀ mem =
      { q := ((q₀.initHeads setup done).initOps area bufsize nbufs.toNat mem).clientInit available
          processed
        returned := [], els := 0, answers := [] } := by
  unfold Session.initial
  rw [Bqueue.serverInit_eq, if_neg hpos]

/-- The calls that ask for the size of one buffer. -/
def askSize (n i : Nat) : List Call := .start :: List.replicate n .getBuf ++ [.dataSize i]

/-- The size of a buffer with data is answered as it was found in the memory. -/
theorem askSize_answers (hpos : ¬ nbufs ≤ 0) (mem : Nat → Recycled) {b i : Nat}
    (hb : b < nbufs.toNat) (hi : (handOut nbufs.toNat)[i]? = some (.buf b))
    (hdata : Bqueue.dataPtr area bufsize b ≠ 0) :
    ∃ as, (runFrom (Session.call 0)
        (Session.initial setup done available processed area nbufs bufsize q₀ mem)
        (askSize nbufs.toNat i)).answers =
      as ++ [.size (some (mem b).bdescr.dataSize)] := by
  have hholds := @holds_initOps setup done area bufsize q₀ nbufs.toNat mem
  rw [initial_eq hpos]
  generalize hq : (q₀.initHeads setup done).initOps area bufsize nbufs.toNat mem = q at hholds ⊢
  have hbdescr : q.bdescr (.buf b) =
      { (mem b).bdescr with data := Bqueue.dataPtr area bufsize b } := by
    rw [← hq]
    unfold Bqueue.initOps
    rw [Bqueue.initOp_bdescr hb, Bqueue.allocated_bdescr hb]
  have hlength : (handOut nbufs.toNat).length = nbufs.toNat := by simp [handOut]
  generalize hs : Session.call 0 ⟨q.clientInit available processed, [], 0, []⟩ .start = s
  have hstart : s.q.links = q.links ∧ s.q.bdescr = q.bdescr ∧ s.q.stopped = false ∧
      s.returned = [] := by
    rw [← hs]
    cases available <;> exact ⟨rfl, rfl, rfl, rfl⟩
  obtain ⟨hlinks, hbdescr', hstopped, hreturned⟩ := hstart
  obtain ⟨hall, hsame⟩ := call_getBufs 0 (hlinks ▸ hholds) (Function.update_self ..) hstopped
  rw [hlength, hreturned, List.nil_append] at hall
  obtain ⟨hsameData, hsameSize⟩ := hsame (.buf b)
  rw [hlength, hbdescr', hbdescr] at hsameData hsameSize
  unfold askSize
  rw [runFrom_append, runFrom_cons, runFrom_nil, runFrom_cons, hs]
  generalize runFrom (Session.call 0) s (List.replicate nbufs.toNat .getBuf) = s' at *
  refine ⟨s'.answers, ?_⟩
  have hsize : s'.q.bdescrDataSize 0 (.buf b) = some (mem b).bdescr.dataSize := by
    unfold Bqueue.bdescrDataSize
    rw [if_pos (by rw [hsameData]; exact hdata), hsameSize]
  simp only [Session.call, hall, hi, Option.elim_some, hsize]

end Initial

/-- **No inheritance.** -/
theorem noInheritance_iff (setup done available processed : Option Nat)
    (area nbufs bufsize : Int) (q₀ : Bqueue) (mem₁ mem₂ : Nat → Recycled) :
    NoInheritance nbufs.toNat
        (Session.initial setup done available processed area nbufs bufsize q₀ mem₁)
        (Session.initial setup done available processed area nbufs bufsize q₀ mem₂) ↔
      Prepared area bufsize nbufs.toNat mem₁ mem₂ := by
  by_cases hpos : nbufs ≤ 0
  · -- no descriptors are made
    have hinit : ∀ mem, Session.initial setup done available processed area nbufs bufsize q₀ mem =
        { q := (q₀.initHeads setup done).clientInit available processed
          returned := [], els := 0, answers := [] } := by
      intro mem
      unfold Session.initial
      rw [Bqueue.serverInit_eq, if_pos hpos]
    have hnone : ∀ b, ¬ b < nbufs.toNat := by omega
    rw [hinit, hinit]
    exact iff_of_true ⟨fun b hb => absurd hb (hnone b), fun _ _ => ⟨rfl, rfl, fun _ _ => rfl⟩⟩
      fun b hb => absurd hb (hnone b)
  have hnext := initHeads_next setup done q₀
  constructor
  · intro h b hb
    have hfresh := h.fresh b hb
    rw [initial_eq hpos, initial_eq hpos] at hfresh
    refine ⟨(Bqueue.initOps_fresh_iff hnext hb).mp hfresh.1,
      (Bqueue.initOps_fresh_iff hnext hb).mp hfresh.2, fun hdata => ?_⟩
    obtain ⟨i, hi⟩ := List.mem_iff_getElem?.mp (mem_handOut.mpr ⟨b, hb, rfl⟩)
    have hanswers := (h.same 0 (askSize nbufs.toNat i)).1
    obtain ⟨as₁, h₁⟩ := askSize_answers hpos mem₁ hb hi hdata
    obtain ⟨as₂, h₂⟩ := askSize_answers hpos mem₂ hb hi hdata
    rw [h₁, h₂, List.append_singleton_inj] at hanswers
    simpa using hanswers.2
  · intro h
    refine ⟨fun b hb => ?_, fun fuel calls => ?_⟩
    · rw [initial_eq hpos, initial_eq hpos]
      exact ⟨(Bqueue.initOps_fresh_iff hnext hb).mpr (h b hb).1,
        (Bqueue.initOps_fresh_iff hnext hb).mpr (h b hb).2.1⟩
    · obtain ⟨heq, halike⟩ := Bqueue.initOps_alike hnext h
      have hrelated : Related
          (Session.initial setup done available processed area nbufs bufsize q₀ mem₁)
          (Session.initial setup done available processed area nbufs bufsize q₀ mem₂) := by
        rw [initial_eq hpos, initial_eq hpos, heq]
        refine ⟨_, rfl, fun b => ?_⟩
        obtain ⟨hdata, husers, hsize, -⟩ := halike b
        exact ⟨hdata, husers, hsize, fun hmem => absurd hmem List.not_mem_nil⟩
      exact (hrelated.run fuel calls).same

/-- The memory of an operation that has been in use: cleared but for the counter. -/
def inUse (users : Int) (b : Nat) : Recycled :=
  { unlinked with
    bdescr := { unlinked.bdescr with users := users }
    sglist := (.sglist (.buf b), .sglist (.buf b)) }

/-- A buffer is got and put: with a counter found at 5 the `setup` event never comes. -/
theorem inherited_users :
    ¬ ∀ (setup done available processed : Option Nat) (area nbufs bufsize : Int) (q₀ : Bqueue)
      (mem₁ mem₂ : Nat → Recycled),
      NoInheritance nbufs.toNat
        (Session.initial setup done available processed area nbufs bufsize q₀ mem₁)
        (Session.initial setup done available processed area nbufs bufsize q₀ mem₂) := by
  intro hall
  have hevents := ((hall (some 1) none none none 0 1 0 untouched (inUse 0) (inUse 5)).same 0
    [.start, .getBuf, .bdescrPut 0]).2.1
  revert hevents
  decide

end Bathos.BufferQueue
