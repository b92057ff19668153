import Bathos.Lininoio.Core

/-!
# Bathos — lininoio and its buffers

Two laws about the buffers of the queue lininoio works with. A buffer obtained or
delivered is to be put before the function returns, and the counter
`outstanding_rx_buffers` is to be the number of buffers queued for reception.

`lininoio_periodic` gets its buffer before it looks at the association state and
has three returns that forget it; `lininoio_buf_processed_handle` puts nothing
but the packets received; and nothing ever decrements the counter.

Main results:

* `buffers_released_iff` — no buffer is lost exactly in the runs that avoid these
  returns and these events;
* `rx_buffers_queued_iff` — the counter is right exactly in the runs in which no
  packet is received.
-/

namespace Bathos.Lininoio

open Bathos.Lib Bathos.Buffer

-- ---------------------------------------------------------------------------
-- Gets and puts
-- ---------------------------------------------------------------------------

/-- How often a buffer was obtained or delivered and not put. -/
def held (calls : List Call) (b : Nat) : Int :=
  calls.count (.get b) + calls.count (.delivered b) - calls.count (.put b)

theorem held_append (calls calls' : List Call) (b : Nat) :
    held (calls ++ calls') b = held calls b + held calls' b := by
  simp only [held, List.count_append]
  omega

/-- Getting a buffer and putting it leaves nothing held. -/
theorem held_get_put (bs : List Nat) (b : Nat) :
    held (bs.flatMap fun c => [.get c, .put c]) b = 0 := by
  induction bs with
  | nil => rfl
  | cons c bs ih =>
    rw [List.flatMap_cons, held_append, ih]
    by_cases hc : c = b <;> simp [held, hc]

namespace LininoioData

variable {cfg : Config} {s : LininoioData}

/-- The call puts each buffer as often as it obtained it or got it delivered. -/
def Released (cfg : Config) (s : LininoioData) (op : Op) : Prop :=
  ∀ b, held (s.step cfg op).calls b = held s.calls b

/-- The condition: the periodic task keeps no buffer, and a buffer delivered is
one the processed handler puts. -/
def Meets (cfg : Config) (s : LininoioData) : Op → Prop
  | .periodic => s.stuck = false → ∀ b, s.nextBuf = some b → ¬ s.Kept b
  | .bufProcessed (some b) => s.stuck = false → Returned cfg (s.bufs b)
  | _ => True

/-- One call on a buffer that is put in the end or not. -/
theorem held_iff (calls : List Call) {first : Call} {b : Nat}
    (hfirst : first = .get b ∨ first = .delivered b) {P : Prop} [Decidable P] :
    (∀ c, held (calls ++ first :: (if P then [.put b] else [])) c = held calls c) ↔ P := by
  have hsingle : held [first] b = 1 := by
    rcases hfirst with rfl | rfl <;> simp [held]
  by_cases hP : P
  · simp only [hP, if_true, iff_true]
    intro c
    rw [held_append]
    rcases hfirst with rfl | rfl <;> by_cases hc : b = c <;> simp [held, hc]
  · simp only [hP, if_false, iff_false]
    intro hall
    have hb := hall b
    rw [held_append, hsingle] at hb
    omega

theorem released_iff (op : Op) : Released cfg s op ↔ Meets cfg s op := by
  unfold Released step
  by_cases hstuck : s.stuck = true
  · cases op with
    | bufProcessed b => cases b <;> simp [Meets, hstuck]
    | _ => simp [Meets, hstuck]
  rw [Bool.not_eq_true] at hstuck
  cases op with
  | periodic =>
    simp only [hstuck, Bool.false_eq_true, if_false, Meets, forall_const]
    cases hnext : s.nextBuf with
    | none =>
      obtain ⟨q, p, k, heq⟩ := periodic_none cfg hnext
      simp [heq]
    | some b =>
      rw [(periodic_some hnext).1]
      have hiff := held_iff s.calls (P := ¬ s.Kept b) (Or.inl (rfl : Call.get b = .get b))
      simp only [ite_not] at hiff
      simpa using hiff
  | bufAvailable =>
    simp only [hstuck, Bool.false_eq_true, if_false, Meets, iff_true]
    intro b
    unfold bufAvailableHandle
    rw [(bufAvailableLoop_spec _ s).1, held_append, held_get_put]
    omega
  | bufProcessed b =>
    simp only [hstuck, Bool.false_eq_true, if_false]
    cases b with
    | none => simp [Meets, bufProcessedHandle, print]
    | some b =>
      rw [(bufProcessed_spec cfg b s).1]
      simp only [Meets, hstuck, forall_const]
      exact held_iff s.calls (Or.inr rfl)
  | pipe queue bufs => simp [hstuck, Meets]

end LininoioData

open LininoioData

/-- **No buffer is lost.** From every state on, the calls of a run put the buffers
they get exactly when the periodic task keeps none and every buffer delivered is
a packet received that `__process_input` gets through; then as many buffers are
held after the run as before. -/
theorem buffers_released_iff (cfg : Config) (s : LininoioData) (ops : List Op) :
    (EachStep (LininoioData.step cfg) (Released cfg) s ops ↔
      EachStep (LininoioData.step cfg) (Meets cfg) s ops) ∧
    (EachStep (LininoioData.step cfg) (Meets cfg) s ops →
      ∀ b, held (runFrom (LininoioData.step cfg) s ops).calls b = held s.calls b) := by
  refine ⟨eachStep_iff (fun (s : LininoioData) op (_ : True) => released_iff op)
    (fun _ _ _ _ => trivial) trivial, fun hrun b => ?_⟩
  -- What is held stays what it was at the start.
  exact EachStep.inv
    (fun (t : LininoioData) op (h : held t.calls b = held s.calls b) hop =>
      ((released_iff op).mpr hop b).trans h) rfl hrun

/-- One channel, with an input function. -/
def smallConfig : Config where
  rxBuffers := 2
  slaveName := "lininoio-slave"
  channels := [⟨1, none, some fun _ => 0⟩]
  decodeCdlen := fun n => ((n >>> 12).toUInt8, n &&& 0xfff)
  sizeofArequest := 4
  sizeofChanDescr := 2
  sizeofAreply := 4
  sizeofAdata := 2

/-- The module before `lininoio_init`, with a queue of four buffers of 64 bytes. -/
def booted : LininoioData where
  ioPipe := false
  hostAddress := ⟨.dontcare, 0, []⟩
  state := .unset
  activity := 0
  outstandingRxBuffers := 0
  started := false
  queue := (Bqueue.serverInit 4 true (fun _ => 0) fun _ => none).2
  bufs := fun _ => ⟨.none, ⟨.remoteMac, 0, []⟩, some (.other 0), 64⟩
  printed := []
  calls := []
  stuck := false

/-- The periodic task in the state `ASSOCIATING` gets a buffer and keeps it. -/
theorem associating_keeps_buffer :
    ¬ ∀ (cfg : Config) (s : LininoioData) (ops : List Op),
      EachStep (LininoioData.step cfg) (Released cfg) s ops := by
  intro hall
  obtain ⟨-, hperiodic, -⟩ := hall smallConfig (booted.init true).2 [.periodic, .periodic]
  exact absurd (hperiodic 2) (by decide +kernel)

-- ---------------------------------------------------------------------------
-- Buffers queued for reception
-- ---------------------------------------------------------------------------

/-- The buffers put between two states. -/
def putsSince (before after : LininoioData) : List Nat :=
  (after.calls.drop before.calls.length).filterMap fun
    | .put b => some b
    | _ => none

/-- The module, and the buffers put for reception and not yet delivered. -/
structure RxRun where
  dev : LininoioData
  queued : List Nat

namespace RxRun

variable {cfg : Config} {t : RxRun}

/-- After `lininoio_init`. -/
def start (found : Bool) (s : LininoioData) : RxRun := ⟨(s.init found).2, []⟩

def step (cfg : Config) (t : RxRun) (op : Op) : RxRun :=
  let dev := t.dev.step cfg op
  match op with
  | .bufAvailable => ⟨dev, t.queued ++ putsSince t.dev dev⟩
  | .bufProcessed (some b) =>
    ⟨dev, if (t.dev.bufs b).type = .recv then t.queued.erase b else t.queued⟩
  | _ => ⟨dev, t.queued⟩

/-- The pipe answers each put for reception by one processed event. -/
def Valid (t : RxRun) : Op → Prop
  | .bufProcessed (some b) => (t.dev.bufs b).type = .recv ↔ b ∈ t.queued
  | _ => True

/-- The counter is the number of buffers queued, and after an activation with
enough free buffers as many are queued as are configured. -/
def Counted (cfg : Config) (t : RxRun) (op : Op) : Prop :=
  (t.step cfg op).dev.outstandingRxBuffers = (t.step cfg op).queued.length ∧
    (op = .bufAvailable → cfg.rxBuffers ≤ t.queued.length + (available t.dev.queue).length →
      (t.step cfg op).queued.length = cfg.rxBuffers)

/-- The condition: no packet is received. -/
def NotReceived (t : RxRun) : Op → Prop
  | .bufProcessed (some b) => (t.dev.bufs b).type ≠ .recv
  | _ => True

/-- The invariant of the runs that meet it. -/
structure Inv (cfg : Config) (t : RxRun) : Prop where
  counted : t.dev.outstandingRxBuffers = t.queued.length
  bounded : t.queued.length ≤ cfg.rxBuffers
  running : t.dev.stuck = false

theorem filterMap_put (bs : List Nat) :
    ((bs.flatMap fun b => [Call.get b, Call.put b]).filterMap fun
      | .put b => some b
      | _ => none) = bs := by
  induction bs with
  | nil => rfl
  | cons b bs ih => simp [List.flatMap_cons, ih]

/-- One activation of the available handler. -/
theorem step_bufAvailable (h : Inv cfg t) :
    (t.step cfg .bufAvailable).queued =
        t.queued ++ (available t.dev.queue).take (cfg.rxBuffers - t.queued.length) ∧
      Inv cfg (t.step cfg .bufAvailable) := by
  have hdev : t.dev.step cfg .bufAvailable =
      bufAvailableLoop (cfg.rxBuffers - t.queued.length) t.dev := by
    unfold LininoioData.step bufAvailableHandle
    rw [h.counted]
    simp only [h.running, Bool.false_eq_true, if_false]
    congr 1
    omega
  obtain ⟨hcalls, hcount, -, hstuck⟩ :=
    bufAvailableLoop_spec (cfg.rxBuffers - t.queued.length) t.dev
  have hqueued : (t.step cfg .bufAvailable).queued =
      t.queued ++ (available t.dev.queue).take (cfg.rxBuffers - t.queued.length) := by
    unfold step putsSince
    simp only
    rw [hdev, hcalls, List.drop_left, filterMap_put]
  refine ⟨hqueued, ?_, ?_, ?_⟩
  · show (t.dev.step cfg .bufAvailable).outstandingRxBuffers = _
    rw [hqueued, hdev, hcount, h.counted, List.length_append]
    omega
  · rw [hqueued, List.length_append, List.length_take]
    have := h.bounded
    omega
  · show (t.dev.step cfg .bufAvailable).stuck = false
    rw [hdev, hstuck, h.running]

theorem step_dev (cfg : Config) (t : RxRun) (op : Op) :
    (t.step cfg op).dev = t.dev.step cfg op := by
  unfold step
  split <;> rfl

/-- A step that leaves the counter alone and queues nothing. -/
theorem Inv.of_frame (h : Inv cfg t) {op : Op} (hqueued : (t.step cfg op).queued = t.queued)
    (hcount : (t.dev.step cfg op).outstandingRxBuffers = t.dev.outstandingRxBuffers)
    (hstuck : (t.dev.step cfg op).stuck = t.dev.stuck) : Inv cfg (t.step cfg op) := by
  rw [← step_dev] at hcount hstuck
  refine ⟨?_, hqueued ▸ h.bounded, hstuck.trans h.running⟩
  rw [hqueued]
  exact hcount.trans h.counted

/-- The periodic task leaves the counter alone. -/
theorem step_periodic (h : Inv cfg t) : Inv cfg (t.step cfg .periodic) := by
  have hdev : t.dev.step cfg .periodic = t.dev.periodic cfg := by
    simp [LininoioData.step, h.running]
  have hframe : (t.dev.periodic cfg).outstandingRxBuffers = t.dev.outstandingRxBuffers ∧
      (t.dev.periodic cfg).stuck = t.dev.stuck := by
    cases hnext : t.dev.nextBuf with
    | none =>
      obtain ⟨q, p, k, heq⟩ := periodic_none cfg hnext
      rw [heq]
      exact ⟨rfl, rfl⟩
    | some b => exact (periodic_some hnext).2.2
  rw [← hdev] at hframe
  exact h.of_frame rfl hframe.1 hframe.2

/-- So does the pipe. -/
theorem step_pipe (h : Inv cfg t) (q : Bqueue) (bufs : Nat → BufferOp) :
    Inv cfg (t.step cfg (.pipe q bufs)) := by
  have hdev : t.dev.step cfg (.pipe q bufs) = { t.dev with queue := q, bufs := bufs } := by
    simp [LininoioData.step, h.running]
  exact h.of_frame rfl (by rw [hdev]) (by rw [hdev])

/-- A processed event never changes the counter. -/
theorem step_bufProcessed (h : Inv cfg t) (b : Nat) :
    (t.step cfg (.bufProcessed (some b))).dev.outstandingRxBuffers = t.queued.length ∧
      ((t.dev.bufs b).type ≠ .recv → Inv cfg (t.step cfg (.bufProcessed (some b)))) := by
  have hdev : t.dev.step cfg (.bufProcessed (some b)) = t.dev.bufProcessedHandle cfg (some b) := by
    simp [LininoioData.step, h.running]
  obtain ⟨-, -, hcount, hstuck⟩ := bufProcessed_spec cfg b t.dev
  rw [← hdev] at hcount hstuck
  exact ⟨hcount.trans h.counted, fun hsend => h.of_frame (if_neg hsend) hcount (hstuck hsend)⟩

theorem step_inv (h : Inv cfg t) {op : Op} (hop : NotReceived t op) : Inv cfg (t.step cfg op) := by
  cases op with
  | periodic => exact step_periodic h
  | bufAvailable => exact (step_bufAvailable h).2
  | pipe q bufs => exact step_pipe h q bufs
  | bufProcessed b =>
    cases b with
    | some b => exact (step_bufProcessed h b).2 hop
    | none =>
      have hdev : t.step cfg (.bufProcessed none) = ⟨t.dev.print .edDataNull, t.queued⟩ := by
        simp [step, LininoioData.step, h.running, bufProcessedHandle]
      rw [hdev]
      exact ⟨h.counted, h.bounded, h.running⟩

theorem counted_iff (h : Inv cfg t) {op : Op} (hvalid : Valid t op) :
    Counted cfg t op ↔ NotReceived t op := by
  refine ⟨fun hcounted => ?_, fun hop => ⟨(step_inv h hop).counted, ?_⟩⟩
  · cases op with
    | bufProcessed b =>
      cases b with
      | none => trivial
      | some b =>
        -- A buffer leaves the queue, and the counter stays.
        intro hrecv
        have hmem := hvalid.mp hrecv
        have hqueued : (t.step cfg (.bufProcessed (some b))).queued = t.queued.erase b := if_pos hrecv
        have hlen := List.length_erase_of_mem hmem
        have hpos := List.length_pos_of_mem hmem
        have heq := hcounted.1
        rw [(step_bufProcessed h b).1, hqueued, hlen] at heq
        omega
    | _ => trivial
  · rintro rfl henough
    rw [(step_bufAvailable h).1, List.length_append, List.length_take]
    have := h.bounded
    omega

theorem start_inv (cfg : Config) (found : Bool) (s : LininoioData) : Inv cfg (start found s) := by
  cases found <;> exact ⟨rfl, Nat.zero_le _, rfl⟩

end RxRun

open RxRun

/-- **The buffers queued for reception.** When the pipe answers each put for
reception by one processed event, the counter is the number of buffers queued,
and activations with enough free buffers fill the queue up, exactly in the runs
in which no packet is received. -/
theorem rx_buffers_queued_iff (cfg : Config) (found : Bool) (s : LininoioData) {ops : List Op}
    (hvalid : EachStep (RxRun.step cfg) Valid (RxRun.start found s) ops) :
    EachStep (RxRun.step cfg) (Counted cfg) (RxRun.start found s) ops ↔
      EachStep (RxRun.step cfg) NotReceived (RxRun.start found s) ops :=
  EachStep.iff_of (fun (t : RxRun) _ (h : Inv cfg t) hvalid => counted_iff h hvalid)
    (fun _ _ h _ hop => step_inv h hop) (start_inv cfg found s) hvalid

instance {t : RxRun} : ∀ op, Decidable (t.Valid op)
  | .periodic => inferInstanceAs (Decidable True)
  | .bufAvailable => inferInstanceAs (Decidable True)
  | .bufProcessed none => inferInstanceAs (Decidable True)
  | .bufProcessed (some _) => inferInstanceAs (Decidable (_ ↔ _))
  | .pipe _ _ => inferInstanceAs (Decidable True)

instance {t : RxRun} : ∀ op, Decidable (t.NotReceived op)
  | .periodic => inferInstanceAs (Decidable True)
  | .bufAvailable => inferInstanceAs (Decidable True)
  | .bufProcessed none => inferInstanceAs (Decidable True)
  | .bufProcessed (some _) => inferInstanceAs (Decidable (_ ≠ _))
  | .pipe _ _ => inferInstanceAs (Decidable True)

-- Two buffers for reception, and a request that is sent meanwhile.
theorem rx_buffers_queued_sending :
    EachStep (RxRun.step smallConfig) (Counted smallConfig) (RxRun.start true booted)
      [.bufAvailable, .periodic, .bufProcessed (some 1), .bufAvailable] :=
  (rx_buffers_queued_iff smallConfig true booted (by decide +kernel)).mpr (by decide +kernel)

/-- After the first packet received the counter is one too high. -/
theorem received_buffer_still_counted :
    ¬ ∀ (cfg : Config) (found : Bool) (s : LininoioData) (ops : List Op),
      EachStep (RxRun.step cfg) Valid (RxRun.start found s) ops →
        EachStep (RxRun.step cfg) (Counted cfg) (RxRun.start found s) ops := by
  intro hall
  obtain ⟨-, hprocessed, -⟩ := hall smallConfig true booted [.bufAvailable, .bufProcessed (some 3)]
    (by decide +kernel)
  exact absurd hprocessed.1 (by decide +kernel)

end Bathos.Lininoio
