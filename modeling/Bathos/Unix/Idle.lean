import Bathos.Include.Headers
import Bathos.Lib.Run
import Bathos.Pipe.Lifecycle

/-!
# Bathos — idling on unix

`arch-unix/idle.c`: the descriptor sets that follow the opening and closing of
pipes, the count `nfds` handed to `select`, and what `idle` makes of the answer. After
an error it looks at `bathos_errno`, which `select` does not set: other code does.

`nfds` grows with every pipe opened. When the pipe with the largest descriptor is
closed, the sets are scanned again, over the first 255 descriptors and from `-1`:
an empty set leaves `-1`, and descriptors past the scan are forgotten.

Main results:

* `handled_selectReady_iff` — which calls of the two handlers leave `nfds` one
  more than the largest watched descriptor;
* `selectReady_iff` — the runs in which it is so after every call.
-/

namespace Bathos.Unix

open Bathos.Lib
open Bathos.Pipe (BATHOS_MODE_INPUT)

/-- `BATHOS_MODE_OUTPUT`. -/
def BATHOS_MODE_OUTPUT : Nat := 2

def FD_SETSIZE : Nat := 1024

def EINTR : Int := 4

-- ---------------------------------------------------------------------------
-- The sets
-- ---------------------------------------------------------------------------

/-- What the handlers read of a pipe: its mode, and behind `dev` and `arch_priv`,
either of which may be `NULL`, its descriptor. -/
structure BathosPipe where
  mode : Nat
  dev : Option (Option Nat)

/-- The static data of `idle.c`, and `bathos_errno`. -/
structure Idle where
  rdFdset : Finset Nat
  wrFdset : Finset Nat
  nfds : Int
  bathosErrno : Int

namespace Idle

/-- After `pipe_opened_init`. -/
def start : Idle := ⟨∅, ∅, 0, 0⟩

def watched (s : Idle) : Finset Nat := s.rdFdset ∪ s.wrFdset

/-- `pipe_opened_handle`, past the checks for `NULL`. -/
def opened (s : Idle) (mode fd : Nat) : Idle :=
  { s with
    rdFdset := if mode &&& BATHOS_MODE_INPUT ≠ 0 then insert fd s.rdFdset else s.rdFdset
    wrFdset := if mode &&& BATHOS_MODE_OUTPUT ≠ 0 then insert fd s.wrFdset else s.wrFdset
    nfds := max s.nfds (fd + 1) }

/-- `pipe_opened_handle`. -/
def pipeOpenedHandle (s : Idle) : Option BathosPipe → Idle
  | none => s
  | some p =>
    match p.dev with
    | none => s
    | some none => s
    | some (some fd) => s.opened p.mode fd

/-- The loop of `__recalc_nfds` over the first `n` descriptors. -/
def recalcUpTo (rd wr : Finset Nat) (n : Nat) : Int :=
  (List.range n).foldl (fun out i => if i ∈ rd ∨ i ∈ wr then (i : Int) + 1 else out) (-1)

/-- `__recalc_nfds`. -/
def recalcNfds (rd wr : Finset Nat) : Int := recalcUpTo rd wr 255

/-- `pipe_closed_handle`, past the checks for `NULL`. -/
def closed (s : Idle) (mode fd : Nat) : Idle :=
  let wr := if mode &&& BATHOS_MODE_OUTPUT ≠ 0 then s.wrFdset.erase fd else s.wrFdset
  let rd := if mode &&& BATHOS_MODE_INPUT ≠ 0 then s.rdFdset.erase fd else s.rdFdset
  { s with
    rdFdset := rd, wrFdset := wr
    nfds := if (fd : Int) + 1 = s.nfds then recalcNfds rd wr else s.nfds }

/-- `pipe_closed_handle`. -/
def pipeClosedHandle (s : Idle) : Option BathosPipe → Idle
  | none => s
  | some p =>
    match p.dev with
    | none => s
    | some none => s
    | some (some fd) => s.closed p.mode fd

-- ---------------------------------------------------------------------------
-- idle
-- ---------------------------------------------------------------------------

/-- The answer of `select`: an error, or the descriptors that are ready, none of them
after the timeout. -/
inductive Selected where
  | error
  | ready (fds : Finset Nat)

/-- `select(nfds, readfds, NULL, NULL, timeout)` when `readable` are the descriptors
that become ready in time; `signal` says whether a signal comes first. -/
def select (nfds : Int) (readfds readable : Finset Nat) (signal : Bool) : Selected :=
  if nfds < 0 then .error
  else
    let fds := readfds.filter fun fd : Nat => (fd : Int) < nfds ∧ fd ∈ readable
    if fds = ∅ ∧ signal then .error else .ready fds

inductive Triggered where
  | inputReady (fd : Nat)
  | outputReady (fd : Nat)
  | hwTimerTick
deriving DecidableEq, Repr

/-- `trigger_event_for_pipe`. -/
def triggerEventForPipe (mode fd : Nat) : List Triggered :=
  (if mode &&& BATHOS_MODE_INPUT ≠ 0 then [.inputReady fd] else []) ++
    (if mode &&& BATHOS_MODE_OUTPUT ≠ 0 then [.outputReady fd] else [])

/-- The events triggered by one `idle`, and whether it has slept for a second
without looking at anything. -/
structure IdleResult where
  events : List Triggered
  slept : Bool
deriving DecidableEq, Repr

/-- `idle`. `pipeMode` is the mode of the pipe `unix_fd_to_pipe` finds. -/
def idle (s : Idle) (pipeMode : Nat → Nat) (readable : Finset Nat) (signal : Bool) : IdleResult :=
  match select s.nfds s.rdFdset readable signal with
  | .error => if s.bathosErrno = EINTR then ⟨[], false⟩ else ⟨[], true⟩
  | .ready fds =>
    if fds = ∅ then ⟨[.hwTimerTick], false⟩
    else
      ⟨((List.range s.nfds.toNat).filter (· ∈ fds)).flatMap fun fd =>
        triggerEventForPipe (pipeMode fd) fd, false⟩

-- ---------------------------------------------------------------------------
-- Statement
-- ---------------------------------------------------------------------------

/-- The handling of a pipe that was opened or closed; other code sets `bathos_errno`. -/
inductive Op where
  | opened (p : Option BathosPipe)
  | closed (p : Option BathosPipe)
  | failed (errno : Int)

def step (s : Idle) : Op → Idle
  | .opened p => s.pipeOpenedHandle p
  | .closed p => s.pipeClosedHandle p
  | .failed errno => { s with bathosErrno := errno }

/-- The mode and the descriptor of a pipe, when no pointer on the way is `NULL`. -/
def target : Option BathosPipe → Option (Nat × Nat)
  | some ⟨mode, some (some fd)⟩ => some (mode, fd)
  | _ => none

/-- Descriptors fit the sets. -/
def Op.Valid : Op → Prop
  | .opened p => ∀ t ∈ target p, t.2 < FD_SETSIZE
  | .closed p => ∀ t ∈ target p, t.2 < FD_SETSIZE
  | .failed _ => True

/-- One more than the largest element, `0` for the empty set. -/
def bound (fds : Finset Nat) : Nat := fds.sup (· + 1)

/-- `nfds` is what `select` needs: right, valid, past every watched descriptor; and
an `idle` that finds nothing ready ticks. -/
structure SelectReady (s : Idle) : Prop where
  nfds_eq : s.nfds = bound s.watched
  valid : 0 ≤ s.nfds ∧ s.nfds ≤ FD_SETSIZE
  covers : ∀ fd ∈ s.watched, (fd : Int) < s.nfds
  ticks : ∀ pipeMode, s.idle pipeMode ∅ false = ⟨[.hwTimerTick], false⟩

/-- What is watched once the pipe is closed. -/
def remaining (s : Idle) (mode fd : Nat) : Finset Nat :=
  (if mode &&& BATHOS_MODE_INPUT ≠ 0 then s.rdFdset.erase fd else s.rdFdset) ∪
    (if mode &&& BATHOS_MODE_OUTPUT ≠ 0 then s.wrFdset.erase fd else s.wrFdset)

/-- A pipe that is opened has a direction, or a descriptor below the count; a pipe
closed at the count leaves a descriptor watched, and none past the scan. -/
def Safe (s : Idle) : Op → Prop
  | .opened p => ∀ t ∈ target p,
    t.1 &&& BATHOS_MODE_INPUT ≠ 0 ∨ t.1 &&& BATHOS_MODE_OUTPUT ≠ 0 ∨ (t.2 : Int) < s.nfds
  | .closed p => ∀ t ∈ target p, (t.2 : Int) + 1 = s.nfds →
    s.remaining t.1 t.2 ≠ ∅ ∧ ∀ fd ∈ s.remaining t.1 t.2, fd < 255
  | .failed _ => True

instance : ∀ op : Op, Decidable op.Valid
  | .opened p => inferInstanceAs (Decidable (∀ t ∈ target p, _))
  | .closed p => inferInstanceAs (Decidable (∀ t ∈ target p, _))
  | .failed _ => inferInstanceAs (Decidable True)

instance (s : Idle) : ∀ op : Op, Decidable (s.Safe op)
  | .opened p => inferInstanceAs (Decidable (∀ t ∈ target p, _))
  | .closed p => inferInstanceAs (Decidable (∀ t ∈ target p, _))
  | .failed _ => inferInstanceAs (Decidable True)

theorem pipeOpenedHandle_target (s : Idle) (p : Option BathosPipe) :
    s.pipeOpenedHandle p =
      match target p with
      | none => s
      | some t => s.opened t.1 t.2 := by
  rcases p with _ | ⟨mode, _ | _ | fd⟩ <;> rfl

theorem pipeClosedHandle_target (s : Idle) (p : Option BathosPipe) :
    s.pipeClosedHandle p =
      match target p with
      | none => s
      | some t => s.closed t.1 t.2 := by
  rcases p with _ | ⟨mode, _ | _ | fd⟩ <;> rfl

-- ---------------------------------------------------------------------------
-- The largest descriptor
-- ---------------------------------------------------------------------------

theorem lt_bound {fds : Finset Nat} {fd : Nat} (h : fd ∈ fds) : fd < bound fds :=
  Finset.le_sup (f := (· + 1)) h

theorem bound_le {fds : Finset Nat} {n : Nat} (h : ∀ fd ∈ fds, fd < n) : bound fds ≤ n :=
  Finset.sup_le h

theorem bound_insert (fd : Nat) (fds : Finset Nat) :
    bound (insert fd fds) = max (fd + 1) (bound fds) := Finset.sup_insert

/-- A set that is not empty has a largest descriptor. -/
theorem exists_largest {fds : Finset Nat} (h : fds ≠ ∅) : ∃ m ∈ fds, bound fds = m + 1 := by
  obtain ⟨m, hm, heq⟩ := Finset.exists_mem_eq_sup fds (Finset.nonempty_iff_ne_empty.mpr h) (· + 1)
  exact ⟨m, hm, heq⟩

/-- Dropping a descriptor that is not the largest keeps the bound. -/
theorem bound_drop {fds fds' : Finset Nat} {fd : Nat} (hsub : fds' ⊆ fds)
    (hkeep : ∀ i ∈ fds, i ≠ fd → i ∈ fds') (hne : fd + 1 ≠ bound fds) : bound fds' = bound fds := by
  apply le_antisymm (bound_le fun i hi => lt_bound (hsub hi))
  by_cases hempty : fds = ∅
  · rw [hempty]
    exact Nat.zero_le _
  · obtain ⟨m, hm, heq⟩ := exists_largest hempty
    have hmfd : m ≠ fd := fun h => hne (by rw [heq, h])
    rw [heq]
    exact lt_bound (hkeep m hm hmfd)

/-- The scan finds the last watched descriptor below `n`, or none. -/
theorem recalcUpTo_cases (rd wr : Finset Nat) (n : Nat) :
    (recalcUpTo rd wr n = -1 ∧ ∀ i < n, i ∉ rd ∪ wr) ∨
      ∃ m < n, m ∈ rd ∪ wr ∧ recalcUpTo rd wr n = (m : Int) + 1 ∧
        ∀ i, m < i → i < n → i ∉ rd ∪ wr := by
  induction n with
  | zero => exact Or.inl ⟨rfl, by simp⟩
  | succ n ih =>
    have hstep : recalcUpTo rd wr (n + 1) =
        if n ∈ rd ∨ n ∈ wr then (n : Int) + 1 else recalcUpTo rd wr n := by
      unfold recalcUpTo
      rw [List.range_succ, List.foldl_append]
      rfl
    rw [hstep]
    by_cases hn : n ∈ rd ∨ n ∈ wr
    · rw [if_pos hn]
      exact Or.inr ⟨n, Nat.lt_succ_self n, Finset.mem_union.mpr hn, rfl, fun i h1 h2 => by omega⟩
    · rw [if_neg hn]
      have hlast : ∀ i, i < n + 1 → (i < n → i ∉ rd ∪ wr) → i ∉ rd ∪ wr := by
        intro i hi hbelow
        rcases Nat.lt_succ_iff_lt_or_eq.mp hi with hlt | rfl
        · exact hbelow hlt
        · exact fun hmem => hn (Finset.mem_union.mp hmem)
      rcases ih with ⟨hnone, hno⟩ | ⟨m, hm, hmem, heq, habove⟩
      · exact Or.inl ⟨hnone, fun i hi => hlast i hi (hno i)⟩
      · exact Or.inr ⟨m, by omega, hmem, heq, fun i h1 h2 => hlast i h2 (habove i h1)⟩

/-- **The scan is right** for a set that is not empty and ends before 255. -/
theorem recalcNfds_eq_iff {rd wr : Finset Nat} :
    recalcNfds rd wr = bound (rd ∪ wr) ↔ rd ∪ wr ≠ ∅ ∧ ∀ fd ∈ rd ∪ wr, fd < 255 := by
  unfold recalcNfds
  rcases recalcUpTo_cases rd wr 255 with ⟨hnone, hno⟩ | ⟨m, hm, hmem, heq, habove⟩
  · rw [hnone]
    refine ⟨fun h => by omega, fun ⟨hne, hlt⟩ => ?_⟩
    obtain ⟨fd, hfd⟩ := Finset.nonempty_iff_ne_empty.mpr hne
    exact absurd hfd (hno fd (hlt fd hfd))
  · rw [heq]
    have hge := lt_bound hmem
    refine ⟨fun h => ⟨Finset.ne_empty_of_mem hmem, fun fd hfd => ?_⟩, fun ⟨_, hlt⟩ => ?_⟩
    · have := lt_bound hfd
      omega
    · have hle : bound (rd ∪ wr) ≤ m + 1 := by
        apply bound_le
        intro fd hfd
        by_contra hgt
        exact habove fd (by omega) (hlt fd hfd) hfd
      omega

-- ---------------------------------------------------------------------------
-- One call
-- ---------------------------------------------------------------------------

/-- The sets hold descriptors that fit them. -/
def Fits (s : Idle) : Prop := ∀ fd ∈ s.watched, fd < FD_SETSIZE

/-- A right count is all that `idle` needs. -/
theorem selectReady_of {s : Idle} (hfits : s.Fits) (h : s.nfds = bound s.watched) :
    s.SelectReady := by
  have hle : bound s.watched ≤ FD_SETSIZE := bound_le hfits
  refine ⟨h, ⟨by omega, by omega⟩, fun fd hfd => ?_, fun pipeMode => ?_⟩
  · have := lt_bound hfd
    omega
  · unfold idle select
    rw [if_neg (by omega)]
    simp

theorem opened_watched (s : Idle) (mode fd : Nat) :
    (s.opened mode fd).watched =
      if mode &&& BATHOS_MODE_INPUT ≠ 0 ∨ mode &&& BATHOS_MODE_OUTPUT ≠ 0 then
        insert fd s.watched
      else s.watched := by
  unfold opened watched
  by_cases hin : mode &&& BATHOS_MODE_INPUT ≠ 0 <;>
    by_cases hout : mode &&& BATHOS_MODE_OUTPUT ≠ 0 <;>
    simp [hin, hout, Finset.insert_union, Finset.union_insert]

theorem closed_watched (s : Idle) (mode fd : Nat) :
    (s.closed mode fd).watched = s.remaining mode fd := rfl

/-- Closing drops at most the descriptor of the pipe. -/
theorem remaining_drop (s : Idle) (mode fd : Nat) :
    s.remaining mode fd ⊆ s.watched ∧ ∀ i ∈ s.watched, i ≠ fd → i ∈ s.remaining mode fd := by
  unfold remaining watched
  refine ⟨fun i hi => ?_, fun i hi hne => ?_⟩
  · rw [Finset.mem_union] at hi ⊢
    refine hi.imp (fun h => ?_) fun h => ?_
    · split at h
      · exact Finset.mem_of_mem_erase h
      · exact h
    · split at h
      · exact Finset.mem_of_mem_erase h
      · exact h
  · rw [Finset.mem_union] at hi ⊢
    refine hi.imp (fun h => ?_) fun h => ?_
    · split
      · exact Finset.mem_erase.mpr ⟨hne, h⟩
      · exact h
    · split
      · exact Finset.mem_erase.mpr ⟨hne, h⟩
      · exact h

theorem step_fits {s : Idle} (h : s.Fits) {op : Op} (hvalid : op.Valid) : (s.step op).Fits := by
  cases op with
  | failed errno => exact h
  | opened p =>
    unfold step
    simp only
    rw [pipeOpenedHandle_target]
    cases ht : target p with
    | none => exact h
    | some t =>
      intro i hi
      simp only [opened_watched] at hi
      split at hi
      · rcases Finset.mem_insert.mp hi with rfl | hold
        · exact hvalid t ht
        · exact h i hold
      · exact h i hi
  | closed p =>
    unfold step
    simp only
    rw [pipeClosedHandle_target]
    cases target p with
    | none => exact h
    | some t => exact fun i hi => h i ((remaining_drop s t.1 t.2).1 hi)

/-- The count after an opening. -/
theorem opened_nfds_iff {s : Idle} (h : s.nfds = bound s.watched) (mode fd : Nat) :
    (s.opened mode fd).nfds = bound (s.opened mode fd).watched ↔
      mode &&& BATHOS_MODE_INPUT ≠ 0 ∨ mode &&& BATHOS_MODE_OUTPUT ≠ 0 ∨ (fd : Int) < s.nfds := by
  have hnfds : (s.opened mode fd).nfds = max s.nfds (fd + 1) := rfl
  rw [opened_watched, hnfds, h, ← or_assoc]
  by_cases hdir : mode &&& BATHOS_MODE_INPUT ≠ 0 ∨ mode &&& BATHOS_MODE_OUTPUT ≠ 0
  · rw [if_pos hdir, bound_insert]
    refine ⟨fun _ => Or.inl hdir, fun _ => ?_⟩
    push_cast
    exact max_comm _ _
  · rw [if_neg hdir, or_iff_right hdir]
    omega

/-- The count after a closing. -/
theorem closed_nfds_iff {s : Idle} (h : s.nfds = bound s.watched) (mode fd : Nat) :
    (s.closed mode fd).nfds = bound (s.closed mode fd).watched ↔
      ((fd : Int) + 1 = s.nfds →
        s.remaining mode fd ≠ ∅ ∧ ∀ i ∈ s.remaining mode fd, i < 255) := by
  obtain ⟨hsub, hkeep⟩ := remaining_drop s mode fd
  have hnfds : (s.closed mode fd).nfds =
      if (fd : Int) + 1 = s.nfds then
        recalcNfds (if mode &&& BATHOS_MODE_INPUT ≠ 0 then s.rdFdset.erase fd else s.rdFdset)
          (if mode &&& BATHOS_MODE_OUTPUT ≠ 0 then s.wrFdset.erase fd else s.wrFdset)
      else s.nfds := rfl
  rw [closed_watched, hnfds]
  by_cases hmax : (fd : Int) + 1 = s.nfds
  · rw [if_pos hmax]
    exact recalcNfds_eq_iff.trans ⟨fun hsafe _ => hsafe, fun hsafe => hsafe hmax⟩
  · rw [if_neg hmax, h, bound_drop hsub hkeep (by omega)]
    exact ⟨fun _ heq => absurd heq (by omega), fun _ => rfl⟩

/-- **One call of a handler** leaves `select` a right count exactly when it is
safe. -/
theorem handled_selectReady_iff {s : Idle} (hfits : s.Fits) (h : s.SelectReady) {op : Op}
    (hvalid : op.Valid) : (s.step op).SelectReady ↔ s.Safe op := by
  have hcount : (s.step op).SelectReady ↔ (s.step op).nfds = bound (s.step op).watched :=
    ⟨fun hready => hready.nfds_eq, selectReady_of (step_fits hfits hvalid)⟩
  rw [hcount]
  cases op with
  | failed errno => exact ⟨fun _ => trivial, fun _ => h.nfds_eq⟩
  | opened p =>
    unfold step Safe
    simp only
    rw [pipeOpenedHandle_target]
    cases target p with
    | none => exact ⟨fun _ t ht => absurd ht (by simp), fun _ => h.nfds_eq⟩
    | some t =>
      simp only [Option.mem_def, Option.some.injEq, forall_eq']
      exact opened_nfds_iff h.nfds_eq t.1 t.2
  | closed p =>
    unfold step Safe
    simp only
    rw [pipeClosedHandle_target]
    cases target p with
    | none => exact ⟨fun _ t ht => absurd ht (by simp), fun _ => h.nfds_eq⟩
    | some t =>
      simp only [Option.mem_def, Option.some.injEq, forall_eq']
      exact closed_nfds_iff h.nfds_eq t.1 t.2

theorem start_selectReady : start.Fits ∧ start.SelectReady := by
  have hempty : start.watched = ∅ := rfl
  have hfits : start.Fits := by
    intro fd hfd
    rw [hempty] at hfd
    exact absurd hfd (Finset.notMem_empty fd)
  exact ⟨hfits, selectReady_of hfits rfl⟩

end Idle

open Idle

/-- **The count for `select`.** For every sequence of openings and closings with
descriptors below `FD_SETSIZE`: `nfds` is right after every call exactly when all
calls are safe. -/
theorem selectReady_iff (ops : List Op) (hvalid : ∀ op ∈ ops, op.Valid) :
    EachStep Idle.step (fun s op => (s.step op).SelectReady) Idle.start ops ↔
      EachStep Idle.step Safe Idle.start ops := by
  have hops : ∀ (ops : List Op) (s : Idle), (∀ op ∈ ops, op.Valid) →
      EachStep Idle.step (fun _ op => op.Valid) s ops := by
    intro ops
    induction ops with
    | nil => exact fun _ _ => trivial
    | cons op ops ih =>
      intro s h
      exact ⟨h op (by simp), ih _ fun o ho => h o (List.mem_cons_of_mem _ ho)⟩
  exact EachStep.iff_of
    (fun (s : Idle) _ (h : s.Fits ∧ s.SelectReady) hv => handled_selectReady_iff h.1 h.2 hv)
    (fun _ _ h hv hsafe => ⟨step_fits h.1 hv, (handled_selectReady_iff h.1 h.2 hv).mpr hsafe⟩)
    start_selectReady (hops ops _ hvalid)

-- Two pipes open, the one with the larger descriptor closed: the scan finds the other.
theorem selectReady_two :
    EachStep Idle.step (fun s op => (s.step op).SelectReady) Idle.start
      [.opened (some ⟨1, some (some 0)⟩), .opened (some ⟨3, some (some 7)⟩),
        .closed (some ⟨3, some (some 7)⟩)] :=
  (selectReady_iff _ (by decide)).mpr (by decide +kernel)

/-- Standard input is opened and closed: `nfds` is `-1`, `select` fails, and the
clock stops. -/
theorem last_pipe_closed :
    ¬ ∀ ops : List Op, (∀ op ∈ ops, op.Valid) →
      EachStep Idle.step (fun s op => (s.step op).SelectReady) Idle.start ops := by
  intro hall
  have hrun := hall [.opened (some ⟨1, some (some 0)⟩), .closed (some ⟨1, some (some 0)⟩)]
    (by decide)
  obtain ⟨-, hready, -⟩ := hrun
  exact absurd hready.valid.1 (by decide +kernel)

end Bathos.Unix
