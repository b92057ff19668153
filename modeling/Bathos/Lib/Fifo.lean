import Bathos.Lib.Run

/-!
# Bounded FIFO queues

A queue holds at most `cap` elements. A request puts a block or gets a number of
elements, and is refused as a whole, without effect, when it does not fit or asks
for more than there is.

Main result: `fifo_conservation` — what was in the queue and what it accepted is what
came out and what is left, in that order.
-/

namespace Bathos.Lib

variable {α : Type*} {cap : Nat}

/-- A request to a queue. -/
inductive FifoOp (α : Type*) where
  | put (xs : List α)
  | get (n : Nat)

/-- The answer to a request, `none` when it is refused, and the contents after
it. -/
def fifo (cap : Nat) (q : List α) : FifoOp α → Option (List α) × List α
  | .put xs => if q.length + xs.length ≤ cap then (some [], q ++ xs) else (none, q)
  | .get n => if n ≤ q.length then (some (q.take n), q.drop n) else (none, q)

/-- The elements a request adds, given its answer. -/
def FifoOp.added : FifoOp α → Option (List α) → List α
  | .put xs, some _ => xs
  | _, _ => []

section Step

variable {q xs : List α} {n : Nat}

theorem fifo_put (h : q.length + xs.length ≤ cap) :
    fifo cap q (.put xs) = (some [], q ++ xs) := if_pos h

theorem fifo_put_refused (h : cap < q.length + xs.length) :
    fifo cap q (.put xs) = (none, q) := if_neg (Nat.not_le.mpr h)

theorem fifo_get (h : n ≤ q.length) :
    fifo cap q (.get n) = (some (q.take n), q.drop n) := if_pos h

theorem fifo_get_refused (h : q.length < n) :
    fifo cap q (.get n) = (none, q) := if_neg (Nat.not_le.mpr h)

/-- One request: what it adds joins the end, what it answers leaves the front. -/
theorem fifo_conservation_step (q : List α) (op : FifoOp α) :
    q ++ op.added (fifo cap q op).1 = ((fifo cap q op).1.getD []) ++ (fifo cap q op).2 := by
  cases op with
  | put xs =>
    rcases Nat.lt_or_ge cap (q.length + xs.length) with hfull | hfits
    · rw [fifo_put_refused hfull]
      exact List.append_nil q
    · rw [fifo_put hfits]
      rfl
  | get n =>
    rcases Nat.lt_or_ge q.length n with hfew | hthere
    · rw [fifo_get_refused hfew]
      exact List.append_nil q
    · rw [fifo_get hthere]
      exact (List.append_nil q).trans (List.take_append_drop n q).symm

end Step

/-- **First in, first out**, along a run. -/
theorem fifo_conservation (cap : Nat) (q : List α) (ops : List (FifoOp α)) :
    q ++ (List.zipWith FifoOp.added ops (runAnswers (fifo cap) q ops).1).flatten =
      ((runAnswers (fifo cap) q ops).1.map fun a => a.getD []).flatten ++
        (runAnswers (fifo cap) q ops).2 := by
  induction ops generalizing q with
  | nil => simp [runAnswers]
  | cons op ops ih =>
    have hrest := ih (fifo cap q op).2
    simp only [runAnswers, List.zipWith_cons_cons, List.flatten_cons, List.map_cons]
    rw [← List.append_assoc, fifo_conservation_step, List.append_assoc, hrest, List.append_assoc]

end Bathos.Lib
