import Bathos.I2c.Engine

/-!
# Bathos — which transaction an I2C reset belongs to

Reading the status register queues `I2C_RESET` when no data are being
transferred, and writing the command register queues `I2C_GO`. Both take effect
when they are delivered, in order. A reset that was queued after the `I2C_GO` of
the next transaction is delivered in the middle of it, or after its end and
before the host has read its status.

Main results:

* `step_ordered` — as long as every reset is queued when no waiting event can
  start a transaction, each waiting reset will find the transaction it was
  queued for;
* `resets_own` — in every such run no reset takes effect on a later transaction.
-/

namespace Bathos.I2c

open Bathos.Lib I2cData

-- ---------------------------------------------------------------------------
-- Statement
-- ---------------------------------------------------------------------------

/-- The controller with a history: each waiting event has the number of the last
transaction started when it was queued, and `seen` says that the host has read
the status since the machine last moved. -/
structure Tracked where
  dev : I2cData
  pending : List (Event × Nat)
  txn : Nat
  seen : Bool

namespace Tracked

variable {w : Nat} {sl : Slave} {t : Tracked}

def init : Tracked := ⟨I2cData.init, [], 0, false⟩

/-- The step delivers an `I2C_GO` the machine acts upon. -/
def acts (s : I2cData) : Op → Bool
  | .deliver => decide (s.queue.head? = some .i2cGo ∧ s.state ≠ .awaitingOutputData ∧
      s.state ≠ .awaitingInputSpace ∧ s.state ≠ .error)
  | _ => false

/-- The step starts a transaction. -/
def starts (s : I2cData) (op : Op) : Bool := acts s op && decide (s.state = .idle)

/-- The step reads the status register. -/
def readsStatus : Op → Bool
  | .regRd addr fill => decide (I2C_MCUIO_STATUS ∈ accessRegs addr fill)
  | _ => false

/-- The waiting events that stay. -/
def kept (t : Tracked) : Op → List (Event × Nat)
  | .deliver => t.pending.tail
  | _ => t.pending

/-- The number of the last transaction started after the step. -/
def txnAfter (t : Tracked) (op : Op) : Nat := if starts t.dev op then t.txn + 1 else t.txn

def step (w : Nat) (sl : Slave) (t : Tracked) (op : Op) : Tracked where
  dev := t.dev.step w sl op
  pending := t.kept op ++
    ((t.dev.step w sl op).queue.drop (t.kept op).length).map fun e => (e, t.txnAfter op)
  txn := t.txnAfter op
  seen := if acts t.dev op then false else t.seen || readsStatus op

/-- The step does not deliver a reset queued for an earlier transaction while the
last one is in progress or has a status the host has not read. -/
def ResetOk (t : Tracked) (op : Op) : Prop :=
  match op, t.pending with
  | .deliver, (.i2cReset, k) :: _ => k < t.txn →
      (t.dev.state = .idle ∨ t.dev.state = .error) ∧ (t.dev.status = 0 ∨ t.seen = true)
  | _, _ => True

/-- The waiting events start no transaction: an `I2C_GO` finds the machine in the
error state. -/
def quiet : TransactionState → List Event → Bool
  | _, [] => true
  | _, .i2cReset :: q => quiet .idle q
  | st, .i2cGo :: q => decide (st = .error) && quiet .error q
  | st, .mcuioIrq _ :: q => quiet st q

/-- A status read that queues a reset does so while no start is waiting. -/
def ReadsQuiet (t : Tracked) (op : Op) : Prop :=
  readsStatus op = true → t.dev.status ≠ 0 → t.dev.state = .idle ∨ t.dev.state = .error →
    quiet t.dev.state t.dev.queue = true

-- ---------------------------------------------------------------------------
-- Waiting resets
-- ---------------------------------------------------------------------------

/-- Each waiting reset was queued for the last transaction, and will be delivered
before another one starts. Once a transaction is under way no reset waits. -/
def Harmless (txn : Nat) : TransactionState → List (Event × Nat) → Prop
  | _, [] => True
  | st, (.i2cReset, k) :: q => (st = .idle ∨ st = .error) ∧ k = txn ∧ Harmless txn .idle q
  | st, (.i2cGo, _) :: q => if st = .error then Harmless txn .error q else ∀ e ∈ q, e.1 ≠ .i2cReset
  | st, (.mcuioIrq _, _) :: q => Harmless txn st q

theorem harmless_of_noReset (txn : Nat) : ∀ {q : List (Event × Nat)} {st : TransactionState},
    (∀ e ∈ q, e.1 ≠ .i2cReset) → Harmless txn st q := by
  intro q
  induction q with
  | nil => exact fun _ => trivial
  | cons e q ih =>
    intro st h
    have hq : ∀ e ∈ q, e.1 ≠ .i2cReset := fun e he => h e (List.mem_cons_of_mem _ he)
    obtain ⟨e, k⟩ := e
    cases e with
    | i2cReset => exact absurd rfl (h _ (List.mem_cons_self ..))
    | i2cGo =>
      unfold Harmless
      split
      · exact ih hq
      · exact hq
    | mcuioIrq active => exact ih hq

/-- While data are transferred no reset waits. -/
theorem Harmless.noReset {txn : Nat} : ∀ {q : List (Event × Nat)} {st : TransactionState},
    Harmless txn st q → st ≠ .idle → st ≠ .error → ∀ e ∈ q, e.1 ≠ .i2cReset := by
  intro q
  induction q with
  | nil => exact fun _ _ _ => nofun
  | cons e q ih =>
    intro st h hidle herror
    obtain ⟨e, k⟩ := e
    cases e with
    | i2cReset => exact (h.1.elim hidle herror).elim
    | i2cGo =>
      unfold Harmless at h
      rw [if_neg herror] at h
      exact List.forall_mem_cons.mpr ⟨nofun, h⟩
    | mcuioIrq active => exact List.forall_mem_cons.mpr ⟨nofun, ih h hidle herror⟩

theorem Harmless.append {txn : Nat} {q' : List (Event × Nat)} (hq' : ∀ e ∈ q', e.1 ≠ .i2cReset) :
    ∀ {q : List (Event × Nat)} {st : TransactionState}, Harmless txn st q →
      Harmless txn st (q ++ q') := by
  intro q
  induction q with
  | nil => exact fun _ => harmless_of_noReset txn hq'
  | cons e q ih =>
    intro st h
    obtain ⟨e, k⟩ := e
    cases e with
    | i2cReset => exact ⟨h.1, h.2.1, ih h.2.2⟩
    | i2cGo =>
      unfold Harmless at h
      show if st = .error then Harmless txn .error (q ++ q') else ∀ e ∈ q ++ q', e.1 ≠ .i2cReset
      split
      · rename_i hst
        rw [if_pos hst] at h
        exact ih h
      · rename_i hst
        rw [if_neg hst] at h
        exact List.forall_mem_append.mpr ⟨h, hq'⟩
    | mcuioIrq active => exact ih h

/-- A reset queued behind events that start nothing. -/
theorem Harmless.append_reset {txn : Nat} : ∀ {q : List (Event × Nat)} {st : TransactionState},
    Harmless txn st q → st = .idle ∨ st = .error → quiet st (q.map Prod.fst) = true →
      Harmless txn st (q ++ [(.i2cReset, txn)]) := by
  intro q
  induction q with
  | nil => exact fun _ hst _ => ⟨hst, rfl, trivial⟩
  | cons e q ih =>
    intro st h hst hquiet
    obtain ⟨e, k⟩ := e
    cases e with
    | i2cReset => exact ⟨h.1, h.2.1, ih h.2.2 (.inl rfl) hquiet⟩
    | i2cGo =>
      rw [List.map_cons, quiet, Bool.and_eq_true, decide_eq_true_eq] at hquiet
      unfold Harmless at h
      rw [if_pos hquiet.1] at h
      show if st = .error then Harmless txn .error (q ++ [(.i2cReset, txn)]) else _
      rw [if_pos hquiet.1]
      exact ih h (.inr rfl) hquiet.2
    | mcuioIrq active => exact ih h hst hquiet

theorem quiet_append_irq (active : Bool) : ∀ (q : List Event) (st : TransactionState),
    quiet st (q ++ [.mcuioIrq active]) = quiet st q := by
  intro q
  induction q with
  | nil => exact fun _ => rfl
  | cons e q ih =>
    intro st
    cases e with
    | i2cReset => exact ih .idle
    | i2cGo =>
      show (decide (st = .error) && quiet .error (q ++ [.mcuioIrq active])) = _
      rw [ih]
      rfl
    | mcuioIrq _ => exact ih st

-- ---------------------------------------------------------------------------
-- One step, one run
-- ---------------------------------------------------------------------------

/-- The invariant: the history belongs to the queue, the machine is between two
deliveries, and the waiting resets are harmless. -/
structure Ordered (t : Tracked) : Prop where
  queue : t.pending.map Prod.fst = t.dev.queue
  state : t.dev.Resting ∨ t.dev.state = .sendingData ∨ t.dev.state = .receivingData
  harmless : Harmless t.txn t.dev.state t.pending

/-- What has to be shown of a step that queues the events `new`. -/
theorem ordered_step {op : Op} (new : List Event)
    (hqueue : (t.dev.step w sl op).queue = (t.kept op).map Prod.fst ++ new)
    (hstate : (t.dev.step w sl op).Resting ∨ (t.dev.step w sl op).state = .sendingData ∨
      (t.dev.step w sl op).state = .receivingData)
    (hharmless : Harmless (t.txnAfter op) (t.dev.step w sl op).state
      (t.kept op ++ new.map fun e => (e, t.txnAfter op))) :
    (t.step w sl op).Ordered := by
  have hpending : (t.step w sl op).pending = t.kept op ++ new.map fun e => (e, t.txnAfter op) := by
    unfold step
    simp only [hqueue]
    rw [List.drop_append_of_le_length (by simp), List.drop_of_length_le (by simp), List.nil_append]
  refine ⟨?_, hstate, ?_⟩
  · rw [hpending, List.map_append, List.map_map]
    refine Eq.trans ?_ hqueue.symm
    congr 1
    exact List.map_id' new
  · rw [hpending]
    exact hharmless

theorem map_noReset {new : List Event} (h : ∀ e ∈ new, e ≠ .i2cReset) (k : Nat) :
    ∀ e ∈ new.map fun e => (e, k), e.1 ≠ .i2cReset := by
  intro e he
  obtain ⟨e', he', rfl⟩ := List.mem_map.mp he
  exact h e' he'

/-- An access of the host that queues no reset; one that changes the state does it
while data are transferred, when no reset waits. -/
theorem Ordered.host {op : Op} (new : List Event) (h : t.Ordered) (hop : op ≠ .deliver)
    (hqueue : (t.dev.step w sl op).queue = t.dev.queue ++ new)
    (hnew : ∀ e ∈ new, e ≠ .i2cReset)
    (hstate : (t.dev.step w sl op).state = t.dev.state ∨
      (t.dev.state ≠ .idle ∧ t.dev.state ≠ .error ∧
        ((t.dev.step w sl op).state = .sendingData ∨ (t.dev.step w sl op).state = .receivingData))) :
    (t.step w sl op).Ordered := by
  have hkept : t.kept op = t.pending := by
    cases op with
    | deliver => exact absurd rfl hop
    | _ => rfl
  have htxn : t.txnAfter op = t.txn := by
    cases op with
    | deliver => exact absurd rfl hop
    | _ => rfl
  refine ordered_step new ?_ ?_ ?_
  · rw [hkept, h.queue, hqueue]
  · rcases hstate with hsame | ⟨-, -, hnow⟩
    · unfold Resting
      rw [hsame]
      exact h.state
    · exact .inr hnow
  · rw [hkept, htxn]
    rcases hstate with hsame | ⟨hidle, herror, -⟩
    · rw [hsame]
      exact h.harmless.append (map_noReset hnew _)
    · refine harmless_of_noReset _ (List.forall_mem_append.mpr ⟨?_, map_noReset hnew _⟩)
      exact h.harmless.noReset hidle herror

theorem Ordered.regRd {addr : Nat} {fill : Bool} (h : t.Ordered)
    (hquiet : t.ReadsQuiet (.regRd addr fill)) : (t.step w sl (.regRd addr fill)).Ordered := by
  have hstep := step_regRd w sl t.dev addr fill
  by_cases hreads : I2C_MCUIO_STATUS ∈ accessRegs addr fill
  · rw [if_pos hreads] at hstep
    unfold readStatus at hstep
    by_cases hstatus : t.dev.status = 0
    · rw [if_pos hstatus] at hstep
      exact h.host [] nofun (by rw [hstep, List.append_nil]) nofun (.inl (by rw [hstep]))
    · rw [if_neg hstatus] at hstep
      simp only at hstep
      split at hstep
      · -- the machine is at rest: a reset is queued
        rename_i hrest
        have hst : t.dev.state = .idle ∨ t.dev.state = .error := by
          have := h.state
          unfold Resting at this
          simp only [trigger] at hrest
          tauto
        have hq : quiet t.dev.state (t.pending.map Prod.fst) = true := by
          rw [h.queue]
          exact hquiet (decide_eq_true hreads) hstatus hst
        refine ordered_step [.mcuioIrq false, .i2cReset] ?_ ?_ ?_
        · show _ = t.pending.map Prod.fst ++ _
          rw [hstep, h.queue]
          simp [trigger]
        · rw [hstep]
          exact h.state
        · rw [hstep]
          show Harmless t.txn t.dev.state
            (t.pending ++ ([(.mcuioIrq false, t.txn)] ++ [(.i2cReset, t.txn)]))
          rw [← List.append_assoc]
          refine (h.harmless.append ?_).append_reset hst ?_
          · simp
          · rw [List.map_append]
            exact (quiet_append_irq _ _ _).trans hq
      · exact h.host [.mcuioIrq false] nofun (by rw [hstep]; rfl) (by simp)
          (.inl (by rw [hstep]; rfl))
  · rw [if_neg hreads] at hstep
    exact h.host [] nofun (by rw [hstep, List.append_nil]) nofun (.inl (by rw [hstep]))

theorem Ordered.obufWr {inp : Vector UInt8 8} {fill : Bool} (h : t.Ordered) :
    (t.step w sl (.obufWr inp fill)).Ordered := by
  have hstep := step_obufWr w sl t.dev inp fill
  split at hstep
  · exact h.host [] nofun (by rw [hstep, List.append_nil]) nofun (.inl (by rw [hstep]))
  · rcases resumeOutput_cases w (t.dev.putOutput (offered inp fill)) with hres | ⟨hst, -, hres⟩
    · rw [hres] at hstep
      exact h.host [] nofun (by rw [hstep, List.append_nil]; rfl) nofun (.inl (by rw [hstep]; rfl))
    · rw [hres] at hstep
      have hst : t.dev.state = .awaitingOutputData := hst
      exact h.host [.i2cGo] nofun (by rw [hstep]; rfl) (by simp)
        (.inr ⟨by rw [hst]; nofun, by rw [hst]; nofun, .inl (by rw [hstep])⟩)

theorem Ordered.ibufRd {fill : Bool} (h : t.Ordered) : (t.step w sl (.ibufRd fill)).Ordered := by
  have hstep := step_ibufRd w sl t.dev fill
  split at hstep
  · exact h.host [] nofun (by rw [hstep, List.append_nil]) nofun (.inl (by rw [hstep]))
  · rcases resumeInput_cases { t.dev with ibufTail := mask (t.dev.ibufTail + accessSize fill) } with
      hres | ⟨hst, hres⟩
    · rw [hres] at hstep
      exact h.host [] nofun (by rw [hstep, List.append_nil]) nofun (.inl (by rw [hstep]))
    · rw [hres] at hstep
      have hst : t.dev.state = .awaitingInputSpace := hst
      exact h.host [.i2cGo] nofun (by rw [hstep]) (by simp)
        (.inr ⟨by rw [hst]; nofun, by rw [hst]; nofun, .inr (by rw [hstep])⟩)

theorem Ordered.regWr {addr : Nat} {in0 in1 : BitVec 32} {fill : Bool} (h : t.Ordered) :
    (t.step w sl (.regWr addr in0 in1 fill)).Ordered := by
  have hwritten := step_regWr w sl t.dev addr in0 in1 fill
  obtain ⟨q, hq, hgo⟩ := hwritten.queue
  refine h.host q nofun hq ?_ (.inl ?_)
  · intro e he
    rw [hgo e he]
    nofun
  · rw [hwritten.eq]

/-- The number of the last transaction changes with a delivered `I2C_GO` only. -/
theorem txnAfter_deliver {e : Event} {q : List Event} (hq : t.dev.queue = e :: q)
    (he : e ≠ .i2cGo ∨ t.dev.state = .error) : t.txnAfter .deliver = t.txn := by
  unfold txnAfter starts acts
  rw [hq]
  rcases he with he | he <;> simp [he]

theorem Ordered.deliver (h : t.Ordered) : (t.step w sl .deliver).Ordered := by
  have hqueue := h.queue
  have hharmless := h.harmless
  cases hp : t.pending with
  | nil =>
    rw [hp] at hqueue
    have hstep := step_deliver_nil w sl hqueue.symm
    refine ordered_step [] ?_ (by rw [hstep]; exact h.state) ?_
    · rw [hstep, ← hqueue]
      simp [kept, hp]
    · simp [kept, hp, Harmless]
  | cons x q =>
    obtain ⟨e, k⟩ := x
    rw [hp] at hqueue hharmless
    have hstep := step_deliver_cons w sl hqueue.symm
    have hkept : t.kept .deliver = q := by simp [kept, hp]
    cases e with
    | i2cReset =>
      refine ordered_step [] ?_ (.inl (.inl (by rw [hstep]; rfl))) ?_
      · rw [hstep, hkept, List.append_nil]
        rfl
      · rw [hstep, hkept, txnAfter_deliver hqueue.symm (.inl nofun), List.map_nil, List.append_nil]
        exact hharmless.2.2
    | mcuioIrq active =>
      refine ordered_step [] ?_ (by rw [hstep]; exact h.state) ?_
      · rw [hstep, hkept, List.append_nil]
        rfl
      · rw [hstep, hkept, txnAfter_deliver hqueue.symm (.inl nofun), List.map_nil, List.append_nil]
        exact hharmless
    | i2cGo =>
      have hgo : t.dev.step w sl .deliver = { t.dev with queue := q.map Prod.fst }.goAll w sl := hstep
      obtain ⟨irqs, hirqs, hirq⟩ := goAll_queue w sl { t.dev with queue := q.map Prod.fst }
      have hnew : ∀ e ∈ irqs, e ≠ .i2cReset := by
        intro e he
        rw [hirq e he]
        nofun
      refine ordered_step irqs ?_ (.inl ?_) ?_
      · rw [hgo, hirqs, hkept]
      · rw [hgo]
        exact goAll_resting w sl _
      · rw [hkept]
        unfold Harmless at hharmless
        by_cases herror : t.dev.state = .error
        · -- ignored: the state stays
          rw [if_pos herror] at hharmless
          have hsame : (t.dev.step w sl .deliver).state = .error := by
            rw [hgo, goAll_ignored (.inr (.inr (by exact herror)))]
            exact herror
          rw [hsame, txnAfter_deliver hqueue.symm (.inr herror)]
          exact hharmless.append (map_noReset hnew _)
        · rw [if_neg herror] at hharmless
          exact harmless_of_noReset _ (List.forall_mem_append.mpr ⟨hharmless, map_noReset hnew _⟩)

theorem step_ordered {op : Op} (h : t.Ordered) (hquiet : t.ReadsQuiet op) :
    (t.step w sl op).Ordered := by
  cases op with
  | obufWr inp fill => exact h.obufWr
  | ibufRd fill => exact h.ibufRd
  | regRd addr fill => exact h.regRd hquiet
  | regWr addr in0 in1 fill => exact h.regWr
  | deliver => exact h.deliver

/-- A reset about to be delivered was queued for the last transaction. -/
theorem Ordered.resetOk (h : t.Ordered) (op : Op) : t.ResetOk op := by
  have hharmless := h.harmless
  unfold ResetOk
  split
  · rename_i k q hp
    rw [hp] at hharmless
    intro hlt
    rw [hharmless.2.1] at hlt
    exact absurd hlt (Nat.lt_irrefl _)
  · trivial

theorem init_ordered : init.Ordered := ⟨rfl, .inl (.inl rfl), trivial⟩

/-- **Resets.** In every run from the start in which the status is read, when that
queues a reset, with no start waiting, no reset takes effect on a transaction
later than the one whose status was read. -/
theorem resets_own {ops : List Op} (hrun : EachStep (step w sl) ReadsQuiet init ops) :
    EachStep (step w sl) ResetOk init ops :=
  EachStep.mono (fun (t : Tracked) _ (h : t.Ordered) hquiet => step_ordered h hquiet)
    (fun _ op h _ => h.resetOk op) init_ordered hrun

/-- Two transactions without data for slave 0; the status of the first one is read
between the two writes of the command register. -/
def readBeforeStart : List Op :=
  [.regWr I2C_MCUIO_CMD 1 0 false, .deliver, .regRd I2C_MCUIO_STATUS false,
    .regWr I2C_MCUIO_CMD 1 0 false, .deliver, .deliver, .deliver, .deliver]

/-- The same with the status read after the second start was written. -/
def readAfterStart : List Op :=
  [.regWr I2C_MCUIO_CMD 1 0 false, .deliver, .regWr I2C_MCUIO_CMD 1 0 false,
    .regRd I2C_MCUIO_STATUS false, .deliver, .deliver, .deliver, .deliver]

instance (t : Tracked) (op : Op) : Decidable (t.ReadsQuiet op) := inferInstanceAs (Decidable (_ → _))

/-- The reset queued for the first transaction clears the status of the second. -/
theorem reset_hits_next_transaction :
    ¬∀ (w : Nat) (sl : Slave) (ops : List Op), EachStep (step w sl) ResetOk init ops := by
  intro h
  have hrun := h 32 (.steady 0) readAfterStart
  have hlast := hrun.2.2.2.2.2.2.2.1
  exact absurd (hlast (by decide +kernel)) (by decide +kernel)

theorem resets_own_read_before_start :
    EachStep (step 32 (.steady 0)) ResetOk init readBeforeStart := by
  refine resets_own ⟨?_, ?_, ?_, ?_, ?_, ?_, ?_, ?_, trivial⟩ <;> decide +kernel

end Tracked

end Bathos.I2c
