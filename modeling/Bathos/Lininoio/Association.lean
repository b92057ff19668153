import Bathos.Lininoio.Buffers

/-!
# Bathos — the association of a lininoio slave

The request side of the handshake is `lininoio_periodic`, the reply side
`__process_areply`, and the field `state` is what they share. The reply side
never writes it: a reply that grants the association sets up the channels, one
that refuses it is reported, and the slave stays `ASSOCIATING` either way.

Main result: `association_iff` — the state follows the handshake exactly in the
runs in which no reply is processed while one is waited for.
-/

namespace Bathos.Lininoio

open Bathos.Lib Bathos.Buffer LininoioData

/-- The status of the reply a buffer was received with. -/
def reply (op : BufferOp) : Option UInt8 :=
  match op.type, op.data with
  | .recv, some (.areply status _) => some status
  | _, _ => none

def isRequest (op : BufferOp) : Bool :=
  match op.type, op.data with
  | .send, some (.arequest _ _ _) => true
  | _, _ => false

/-- A call put an association request. -/
def requested (before after : LininoioData) : Bool :=
  (putsSince before after).any fun b => isRequest (after.bufs b)

/-- The module, and whether a reply with status 0 was received after the last
request. -/
structure AssocRun where
  dev : LininoioData
  granted : Bool

namespace AssocRun

variable {cfg : Config} {t : AssocRun}

/-- After `lininoio_init`. -/
def start (found : Bool) (s : LininoioData) : AssocRun := ⟨(s.init found).2, false⟩

def step (cfg : Config) (t : AssocRun) (op : Op) : AssocRun :=
  let dev := t.dev.step cfg op
  match op with
  | .periodic => ⟨dev, t.granted && !requested t.dev dev⟩
  | .bufProcessed (some b) => ⟨dev, t.granted || reply (t.dev.bufs b) == some 0⟩
  | _ => ⟨dev, t.granted⟩

/-- The handshake: the slave is associated only by a reply after its last
request, it takes the status of a reply it waits for, and it sends a request when
it is not associated. -/
structure Follows (cfg : Config) (t : AssocRun) (op : Op) : Prop where
  granted : (t.step cfg op).dev.state = .associated → (t.step cfg op).granted = true
  replied : ∀ b status, op = .bufProcessed (some b) → t.dev.stuck = false →
    reply (t.dev.bufs b) = some status → t.dev.state = .associating →
      (t.step cfg op).dev.state = if status = 0 then .associated else .unassociated
  asks : ∀ b, op = .periodic → t.dev.stuck = false → t.dev.state = .unassociated →
    t.dev.nextBuf = some b → (t.dev.bufs b).data ≠ none →
      (t.step cfg op).dev.state = .associating ∧ requested t.dev (t.step cfg op).dev = true

/-- The condition: no reply is processed in the state `ASSOCIATING`. -/
def NoReply (t : AssocRun) : Op → Prop
  | .bufProcessed (some b) => t.dev.stuck = false → t.dev.state = .associating →
      reply (t.dev.bufs b) = none
  | _ => True

/-- No call associates the slave. -/
theorem step_state (h : t.dev.state ≠ .associated) (op : Op) :
    (t.step cfg op).dev.state ≠ .associated := by
  have hdev : (t.step cfg op).dev = t.dev.step cfg op := by
    cases op with
    | bufProcessed b => cases b <;> rfl
    | _ => rfl
  rw [hdev]
  unfold LininoioData.step
  split
  · exact h
  · cases op with
    | periodic =>
      show (t.dev.periodic cfg).state ≠ _
      cases hnext : t.dev.nextBuf with
      | none =>
        obtain ⟨q, p, k, heq⟩ := periodic_none cfg hnext
        rw [heq]
        exact h
      | some b =>
        rw [(periodic_some hnext).2.1]
        split
        · decide
        · exact h
    | bufAvailable =>
      show (bufAvailableLoop _ t.dev).state ≠ _
      rw [(bufAvailableLoop_spec _ t.dev).2.2.1]
      exact h
    | bufProcessed b =>
      show (t.dev.bufProcessedHandle cfg b).state ≠ _
      cases b with
      | none => exact h
      | some b =>
        rw [(bufProcessed_spec cfg b t.dev).2.1]
        exact h
    | pipe q bufs => exact h

/-- The periodic task asks for the association. -/
theorem periodic_asks (hrunning : t.dev.stuck = false) (hstate : t.dev.state = .unassociated)
    {b : Nat} (hnext : t.dev.nextBuf = some b) (hdata : (t.dev.bufs b).data ≠ none) :
    (t.step cfg .periodic).dev.state = .associating ∧
      requested t.dev (t.step cfg .periodic).dev = true := by
  have hdev : (t.step cfg .periodic).dev = t.dev.periodic cfg := by
    simp [step, LininoioData.step, hrunning]
  obtain ⟨hcalls, hassociating, -, -⟩ := @periodic_some cfg _ _ hnext
  have hput : ¬ t.dev.Kept b := by simp [Kept, hdata, hstate]
  rw [hdev]
  refine ⟨?_, ?_⟩
  · rw [hassociating, if_pos ⟨hstate, hdata⟩]
  · obtain ⟨q, heq⟩ := periodic_eq cfg hnext
    have hbuf : isRequest ((t.dev.periodic cfg).bufs b) = true := by
      rw [heq, if_neg hdata]
      simp [periodicWith, hstate, bdescrPut, setBuf, isRequest, associationRequest]
    unfold requested putsSince
    rw [hcalls, List.drop_left, if_neg hput]
    simp [hbuf]

theorem follows_iff (h : t.dev.state ≠ .associated) (op : Op) :
    Follows cfg t op ↔ NoReply t op := by
  refine ⟨fun hfollows => ?_, fun hop => ⟨fun hassociated => ?_, ?_, ?_⟩⟩
  · cases op with
    | bufProcessed b =>
      cases b with
      | none => trivial
      | some b =>
        intro hrunning hstate
        cases hreply : reply (t.dev.bufs b) with
        | none => rfl
        | some status =>
          -- The handler leaves the state as it is.
          have hafter := hfollows.replied b status rfl hrunning hreply hstate
          have hsame : (t.step cfg (.bufProcessed (some b))).dev.state = .associating := by
            rw [← hstate, ← (bufProcessed_spec cfg b t.dev).2.1]
            simp [step, LininoioData.step, hrunning]
          rw [hsame] at hafter
          split at hafter <;> cases hafter
    | _ => trivial
  · exact absurd hassociated (step_state h op)
  · rintro b status rfl hrunning hreply hstate
    rw [hop hrunning hstate] at hreply
    cases hreply
  · rintro b rfl hrunning hstate hnext hdata
    exact periodic_asks hrunning hstate hnext hdata

end AssocRun

open AssocRun

/-- **The handshake.** From `lininoio_init` on, the state follows the requests and
the replies exactly in the runs in which no reply is processed in the state
`ASSOCIATING`. -/
theorem association_iff (cfg : Config) (found : Bool) (s : LininoioData) (ops : List Op) :
    EachStep (AssocRun.step cfg) (Follows cfg) (AssocRun.start found s) ops ↔
      EachStep (AssocRun.step cfg) NoReply (AssocRun.start found s) ops := by
  refine eachStep_iff (fun (t : AssocRun) op (h : t.dev.state ≠ .associated) => follows_iff h op)
    (fun _ op h _ => step_state h op) ?_
  cases found <;> exact nofun

/-- A reply that grants the association leaves the slave waiting for it. -/
theorem granted_reply_ignored :
    ¬ ∀ (cfg : Config) (found : Bool) (s : LininoioData) (ops : List Op),
      EachStep (AssocRun.step cfg) (Follows cfg) (AssocRun.start found s) ops := by
  intro hall
  -- Buffer 1 takes the request, buffer 3 brings the reply.
  obtain ⟨-, -, -, hreply, -⟩ := hall smallConfig true booted
    [.bufAvailable, .periodic,
      .pipe booted.queue
        (Function.update booted.bufs 3 ⟨.recv, ⟨.remoteMac, 6, []⟩, some (.areply 0 []), 4⟩),
      .bufProcessed (some 3)]
  exact absurd (hreply.replied 3 0 rfl (by decide +kernel) (by decide +kernel) (by decide +kernel))
    (by decide +kernel)

end Bathos.Lininoio
