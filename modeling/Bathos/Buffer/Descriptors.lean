import Bathos.Include.Headers
import Bathos.Include.ListHead

/-!
# Bathos — buffer descriptors and the lists of a queue

`lib/buffer_queue.c`, `lib/buffer_queue_server.c` and the inline functions of
`include/bathos/buffer.h` over the pointers themselves: every `struct list_head` is a
node, and what the memory of the descriptors holds before
`bathos_bqueue_server_init` is arbitrary.
-/

namespace Bathos.BufferQueue

open Bathos.Lib

-- ---------------------------------------------------------------------------
-- Data
-- ---------------------------------------------------------------------------

/-- A `struct list_head`: `free_bufs` and `busy_bufs`, a list of the driver's, the `list`
of buffer `b`, the `sglist` of the descriptor with the given `list`, the `list` of a
scatter list element, anything else. A descriptor is named by its `list`. -/
inductive Node where
  | freeBufs
  | busyBufs
  | own (d : Nat)
  | buf (b : Nat)
  | sglist (list : Node)
  | el (e : Nat)
  | other (a : Nat)
deriving DecidableEq, Repr

/-- `struct bathos_bdescr`, but for its links. Events are pointers, with `none` for
`NULL`; `data` is an address, with 0 for `NULL`. -/
structure Bdescr where
  data : Int
  dataSize : Nat
  users : Int
  releaseEvent : Option Nat
deriving DecidableEq, Repr

/-- The data of an event. -/
inductive EvData where
  | queue
  | bdescr (list : Node)
deriving DecidableEq, Repr

/-- `struct bathos_bqueue_data`, the memory it points into and the events triggered.
`len` is that of the scatter list elements. -/
structure Bqueue where
  stopped : Bool
  setupEvent : Option Nat
  doneEvent : Option Nat
  availableEvent : Option Nat
  processedEvent : Option Nat
  links : Links Node
  bdescr : Node → Bdescr
  len : Node → Nat
  events : List (Option Nat × EvData)

/-- What the memory of one operation holds. -/
structure Recycled where
  bdescr : Bdescr
  list : Node × Node
  sglist : Node × Node

namespace Bqueue

-- ---------------------------------------------------------------------------
-- buffer.h
-- ---------------------------------------------------------------------------

/-- `trigger_event`, with room in the event queue. -/
def triggerEvent (e : Option Nat) (data : EvData) (q : Bqueue) : Bqueue :=
  { q with events := q.events ++ [(e, data)] }

/-- `bdescr_get`. -/
def bdescrGet (b : Node) (q : Bqueue) : Bqueue :=
  { q with bdescr := Function.update q.bdescr b { q.bdescr b with users := (q.bdescr b).users + 1 } }

/-- `bdescr_put`. -/
def bdescrPut (b : Node) (q : Bqueue) : Bqueue :=
  let q := { q with
    bdescr := Function.update q.bdescr b { q.bdescr b with users := (q.bdescr b).users - 1 } }
  if (q.bdescr b).users ≠ 0 then q
  else if (q.bdescr b).releaseEvent.isSome then
    q.triggerEvent (q.bdescr b).releaseEvent (.bdescr b)
  else q

/-- The loop of `bdescr_data_size` from the element at `n` on, up to the head; `none` when
it does not get there in `fuel` rounds. -/
def sglistLen (q : Bqueue) (head : Node) : Nat → Node → Option Nat
  | 0, _ => none
  | fuel + 1, n =>
    if n = head then some 0
    else (sglistLen q head fuel (q.links.next n)).map (q.len n + ·)

/-- `bdescr_data_size`. -/
def bdescrDataSize (fuel : Nat) (b : Node) (q : Bqueue) : Option Nat :=
  if (q.bdescr b).data ≠ 0 then some (q.bdescr b).dataSize
  else if listEmpty (.sglist b) q.links then some 0
  else q.sglistLen (.sglist b) fuel (q.links.next (.sglist b))

/-- `bdescr_remap_release_event`. -/
def bdescrRemapReleaseEvent (b : Node) (e : Option Nat) (q : Bqueue) : Bqueue :=
  { q with bdescr := Function.update q.bdescr b { q.bdescr b with releaseEvent := e } }

/-- `bdescr_add_sglist_el`. -/
def bdescrAddSglistEl (b e : Node) (q : Bqueue) : Bqueue :=
  { q with links := listAddTail e (.sglist b) q.links }

-- ---------------------------------------------------------------------------
-- buffer_queue_server.c
-- ---------------------------------------------------------------------------

/-- The memory of `n` operations as the allocator gives it. -/
def allocated (n : Nat) (mem : Nat → Recycled) (q : Bqueue) : Bqueue :=
  let cell : Node → Option Recycled
    | .buf b => if b < n then some (mem b) else none
    | _ => none
  let link (old : Node → Node) (side : Node × Node → Node) : Node → Node
    | .sglist b => (cell b).elim (old (.sglist b)) fun c => side c.sglist
    | b => (cell b).elim (old b) fun c => side c.list
  { q with
    bdescr := fun b => (cell b).elim (q.bdescr b) Recycled.bdescr
    links := { next := link q.links.next Prod.fst, prev := link q.links.prev Prod.snd } }

/-- `data_ptr` in round `i` of the loop of `bathos_bqueue_server_init`. -/
def dataPtr (area bufsize : Int) (i : Nat) : Int := if area ≠ 0 then area + i * bufsize else 0

/-- The body of that loop. -/
def initOp (area bufsize : Int) (q : Bqueue) (i : Nat) : Bqueue :=
  let q := { q with
    bdescr := Function.update q.bdescr (.buf i)
      { q.bdescr (.buf i) with data := dataPtr area bufsize i } }
  { q with links := listAdd (.buf i) .freeBufs q.links }

/-- `bathos_bqueue_server_init`: the status, and the queue. `mem` is what the memory the
allocator returns holds, if it returns any. -/
def serverInit (setup done : Option Nat) (area nbufs bufsize : Int) (mem : Option (Nat → Recycled))
    (q : Bqueue) : Int × Bqueue :=
  let q := { q with setupEvent := setup, doneEvent := done }
  let q := { q with links := initListHead .busyBufs q.links }
  let q := { q with links := initListHead .freeBufs q.links }
  if nbufs = 0 then (0, q)
  else if nbufs < 0 then (-EINVAL, q)
  else
    match mem with
    | none => (-ENOMEM, q)
    | some mem =>
      (0, (List.range nbufs.toNat).foldl (initOp area bufsize) (q.allocated nbufs.toNat mem))

/-- `bathos_bqueue_server_buf_done`, up to `interrupt_restore`: whether the free list was
empty, and the queue. -/
def bufDoneMove (b : Node) (q : Bqueue) : Bool × Bqueue :=
  (listEmpty .freeBufs q.links, { q with links := listMove b .freeBufs q.links })

/-- The rest of it. -/
def bufDoneTrigger (freeListWasEmpty : Bool) (q : Bqueue) : Bqueue :=
  if q.availableEvent.isSome && freeListWasEmpty then q.triggerEvent q.availableEvent .queue else q

/-- `bathos_bqueue_server_buf_done`. -/
def serverBufDone (b : Node) (q : Bqueue) : Bqueue :=
  (q.bufDoneMove b).2.bufDoneTrigger (q.bufDoneMove b).1

/-- `bathos_bqueue_server_buf_processed`. -/
def serverBufProcessed (b : Node) (q : Bqueue) : Bqueue :=
  q.triggerEvent q.processedEvent (.bdescr b)

-- ---------------------------------------------------------------------------
-- buffer_queue.c
-- ---------------------------------------------------------------------------

/-- `bathos_bqueue_client_init`. -/
def clientInit (available processed : Option Nat) (q : Bqueue) : Bqueue :=
  { q with stopped := true, availableEvent := available, processedEvent := processed }

/-- `bathos_bqueue_get_buf`. -/
def getBuf (q : Bqueue) : Option Node × Bqueue :=
  if q.stopped then (none, q)
  else if listEmpty .freeBufs q.links then (none, q)
  else
    let out := q.links.next .freeBufs
    let q := { q with links := listMove out .busyBufs q.links }
    let q := q.bdescrRemapReleaseEvent out q.setupEvent
    (some out, q.bdescrGet out)

/-- `bathos_bqueue_start`. -/
def start (q : Bqueue) : Bqueue :=
  let q := if q.availableEvent.isSome then q.triggerEvent q.availableEvent .queue else q
  { q with stopped := false }

/-- `bathos_bqueue_stop`. -/
def stop (q : Bqueue) : Bqueue := { q with stopped := true }

end Bqueue

-- ---------------------------------------------------------------------------
-- The size of a buffer
-- ---------------------------------------------------------------------------

/-- From an element on, the loop adds up the lengths of those left. -/
theorem sglistLen_chain {q : Bqueue} {h n : Node} {es : List Node} {fuel : Nat}
    (hchain : List.IsChain q.links.Linked (n :: es ++ [h])) (hh : h ∉ n :: es)
    (hfuel : es.length + 1 < fuel) :
    q.sglistLen h fuel n = some ((n :: es).map q.len).sum := by
  obtain ⟨fuel, rfl⟩ : ∃ m, fuel = m + 1 := ⟨fuel - 1, by omega⟩
  have hn : n ≠ h := fun heq => hh (heq ▸ List.mem_cons_self)
  induction es generalizing n fuel with
  | nil =>
    obtain ⟨fuel, rfl⟩ : ∃ m, fuel = m + 1 := ⟨fuel - 1, by
      rw [List.length_nil] at hfuel
      omega⟩
    have hnext : q.links.next n = h := (List.isChain_pair.mp hchain).1
    unfold Bqueue.sglistLen
    rw [if_neg hn, hnext]
    unfold Bqueue.sglistLen
    rw [if_pos rfl]
    rfl
  | cons e es ih =>
    rw [List.cons_append, List.cons_append, List.isChain_cons_cons] at hchain
    have hnext : q.links.next n = e := hchain.1.1
    rw [List.mem_cons, not_or] at hh
    rw [List.length_cons] at hfuel
    have hrest := @ih e hchain.2 hh.2 (fuel - 1) (by omega)
      fun heq => hh.2 (heq ▸ List.mem_cons_self)
    rw [Nat.sub_add_cancel (by omega)] at hrest
    unfold Bqueue.sglistLen
    rw [if_neg hn, hnext, hrest]
    rfl

/-- A buffer without data has the size of the elements of its scatter list together. -/
theorem bdescrDataSize_ring {q : Bqueue} {b : Node} {es : List Node} {fuel : Nat}
    (hdata : (q.bdescr b).data = 0) (hnodup : (.sglist b :: es).Nodup)
    (hring : q.links.Ring (.sglist b) es) (hfuel : es.length < fuel) :
    q.bdescrDataSize fuel b = some (es.map q.len).sum := by
  have hempty : listEmpty (.sglist b) q.links = true ↔ es = [] :=
    decide_eq_true_iff.trans (hring.next_eq_self_iff hnodup)
  unfold Bqueue.bdescrDataSize
  rw [if_neg (not_not.mpr hdata)]
  cases es with
  | nil =>
    rw [if_pos (hempty.mpr rfl)]
    rfl
  | cons e es =>
    rw [if_neg fun h => List.cons_ne_nil e es (hempty.mp h), hring.next_head]
    refine sglistLen_chain ?_ (List.nodup_cons.mp hnodup).1 (by simpa using hfuel)
    unfold Links.Ring at hring
    rw [List.cons_append, List.cons_append, List.isChain_cons_cons] at hring
    exact hring.2

/-- A new element is the last. -/
theorem bdescrAddSglistEl_ring {q : Bqueue} {b e : Node} {es : List Node}
    (hnodup : (.sglist b :: es).Nodup) (he : e ∉ .sglist b :: es)
    (hring : q.links.Ring (.sglist b) es) :
    (q.bdescrAddSglistEl b e).links.Ring (.sglist b) (es ++ [e]) :=
  hring.insert_back hnodup he

-- ---------------------------------------------------------------------------
-- The free list of an initialised queue
-- ---------------------------------------------------------------------------

variable {ι : Type} [DecidableEq ι] {head : ι → Node} {free : ι}

/-- The buffers in the order in which they are handed out. -/
def handOut (k : Nat) : List Node := ((List.range k).map Node.buf).reverse

theorem handOut_succ (k : Nat) : handOut (k + 1) = .buf k :: handOut k := by
  unfold handOut
  rw [List.range_succ, List.map_append, List.reverse_append]
  rfl

theorem mem_handOut {k : Nat} {a : Node} : a ∈ handOut k ↔ ∃ b < k, a = .buf b := by
  unfold handOut
  rw [List.mem_reverse, List.mem_map]
  simp only [List.mem_range]
  exact exists_congr fun b => and_congr_right fun _ => eq_comm

/-- Every buffer is added to the free list. -/
theorem holds_initOp {q : Bqueue} {area bufsize : Int} (hfree : head free = .freeBufs)
    (hhead : ∀ i b, head i ≠ .buf b) (hq : q.links.Holds head (fun _ => [])) (k : Nat) :
    ((List.range k).foldl (Bqueue.initOp area bufsize) q).links.Holds head
      (Function.update (fun _ => []) free (handOut k)) := by
  induction k with
  | zero =>
    have hnil : Function.update (fun _ => []) free (handOut 0) = fun _ => [] :=
      Function.update_eq_self _ _
    rw [hnil]
    exact hq
  | succ k ih =>
    have hadd := holds_listAdd (e := Node.buf k) (j := free) ih fun i hmem => by
      rcases List.mem_cons.mp hmem with hbuf | hmem
      · exact hhead i k hbuf.symm
      · by_cases hi : i = free
        · subst hi
          rw [Function.update_self, mem_handOut] at hmem
          obtain ⟨b, hb, heq⟩ := hmem
          cases heq
          exact absurd hb (lt_irrefl k)
        · rw [Function.update_of_ne hi] at hmem
          cases hmem
    rw [Function.update_self, Function.update_idem, ← handOut_succ, hfree] at hadd
    rw [List.range_succ, List.foldl_append]
    exact hadd

-- ---------------------------------------------------------------------------
-- A queue to look at
-- ---------------------------------------------------------------------------

/-- A queue whose lists are empty. -/
def untouched : Bqueue where
  stopped := false
  setupEvent := none
  doneEvent := none
  availableEvent := none
  processedEvent := none
  links := { next := id, prev := id }
  bdescr _ := { data := 0, dataSize := 0, users := 0, releaseEvent := none }
  len _ := 0
  events := []

/-- The memory of an operation, with `NULL` in every pointer. -/
def unlinked : Recycled where
  bdescr := { data := 0, dataSize := 0, users := 0, releaseEvent := none }
  list := (.other 0, .other 0)
  sglist := (.other 0, .other 0)

end Bathos.BufferQueue
