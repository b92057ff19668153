import Bathos.Include.Headers
import Bathos.Lib.Run

/-!
# Bathos — private data of devices and the allocator

The open and close operations of `radio-bridge-slave.c`, `radio-bridge-master.c`
and `lininoio-dev.c` with the buffers they allocate, and the handling of a
device's list of pipes by `pipe_open` and `do_free_pipe`. The first open stores a
buffer in `dev->priv`, and all later ones find it there.

The open operations of the bridges open pipes on other devices, the inner pipes,
whose `data` is the pipe being opened. An inner pipe stays listed until its
`pipe_really_closed` is handled, and an event that it has triggered stays queued.

The close operations free that buffer and leave the pointer, so an open after
the last close takes the freed buffer for the one of an open device.
`rb_master_close` also forgets the buffer for the output pipe. And the handlers
of the inner pipes go to the device through the pipe that opened them, whose
`dev` is cleared as soon as its open fails or it is closed.

Main results:

* `step_inv` — up to the last close the device's buffers are the ones the driver
  owns;
* `reopen_iff` — the buffers reached are the driver's, and all of them are free
  after the last close, exactly in the runs that avoid these three things.
-/

namespace Bathos.Drivers

open Bathos.Lib

-- ---------------------------------------------------------------------------
-- The device and the allocator
-- ---------------------------------------------------------------------------

inductive DriverKind where
  | rbSlave
  | rbMaster
  | lininoioDev
deriving DecidableEq, Repr

/-- Whose a buffer is that is live in the allocator. -/
inductive Owner where
  | driver
  | other
deriving DecidableEq, Repr

/-- The pipe on `input_dev` and the one on `output_dev`. -/
inductive Role where
  | input
  | output
deriving DecidableEq, Repr

/-- An inner pipe; `data` is the number of the pipe that opened it. -/
structure InnerPipe where
  role : Role
  data : Nat
deriving DecidableEq, Repr

/-- The handlers of events of the inner pipes. -/
inductive Handler where
  | inputReady
  | outputReady
  | beacon
deriving DecidableEq, Repr

/-- What a private structure holds: its inner pipes, `input_buffer` and
`output_buffer` of the slave, `ipipe_buffer` and `opipe_buffer` of the master, and
`ninstances`. -/
structure PrivData where
  pipes : List InnerPipe
  input : Nat
  output : Nat
  ninstances : Int
deriving DecidableEq, Repr

/-- A device: the live buffers with their owners, the private structures in
memory, `dev->priv`, the list of its pipes and the number of the next pipe. Of the
inner pipes, those that are listed, those whose input ready event is remapped,
those whose `pipe_really_closed` is queued, and the queued events with a handler
here. `closed` records that the close operation has run. -/
structure Device where
  owner : Nat → Option Owner
  mem : Nat → PrivData
  priv : Option Nat
  pipes : List Nat
  next : Nat
  inner : List InnerPipe
  remapped : List InnerPipe
  closing : List InnerPipe
  pending : List (InnerPipe × Handler)
  closed : Bool

/-- What the functions called by an open operation return: the buffers the
allocator has to offer, and whether the inner pipes can be opened. -/
structure OpenCalls where
  priv : Option Nat
  input : Option Nat
  output : Option Nat
  inputPipe : Bool
  outputPipe : Bool

namespace Device

/-- `bathos_alloc_buffer`: only a buffer that is free is handed out. -/
def allocBuffer (offer : Option Nat) (s : Device) : Option Nat × Device :=
  match offer with
  | none => (none, s)
  | some a =>
    if s.owner a = none then (some a, { s with owner := Function.update s.owner a (some .driver) })
    else (none, s)

/-- `bathos_free_buffer`. -/
def freeBuffer (a : Nat) (s : Device) : Device := { s with owner := Function.update s.owner a none }

-- ---------------------------------------------------------------------------
-- The open operations
-- ---------------------------------------------------------------------------

/-- `pipe_open` of an inner pipe, with the pipe being opened as `data`. -/
def openInner (role : Role) (s : Device) : Device := { s with inner := ⟨role, s.next⟩ :: s.inner }

/-- `pipe_remap_input_ready_event`. -/
def remapInner (role : Role) (s : Device) : Device :=
  { s with remapped := ⟨role, s.next⟩ :: s.remapped }

/-- `pipe_close` of an inner pipe. -/
def closeInner (role : Role) (s : Device) : Device := { s with closing := ⟨role, s.next⟩ :: s.closing }

/-- `pipe->dev->priv = priv`, with what has been stored in `priv`. -/
def setPriv (priv : Nat) (data : PrivData) (s : Device) : Device :=
  { s with mem := Function.update s.mem priv data, priv := some priv }

/-- `rb_slave_open`. -/
def rbSlaveOpen (plat : Bool) (c : OpenCalls) (s : Device) : Int × Device :=
  if !plat then (-EINVAL, s)
  else if s.priv ≠ none then (0, s)
  else
    match s.allocBuffer c.priv with
    | (none, s) => (-ENOMEM, s)
    | (some priv, s) =>
      if !c.inputPipe then (-ENODEV, s.freeBuffer priv)
      else
        match ((s.openInner .input).remapInner .input).allocBuffer c.input with
        | (none, s) => (-ENOMEM, (s.closeInner .input).freeBuffer priv)
        | (some input, s) =>
          match s.allocBuffer c.output with
          | (none, s) => (-ENOMEM, ((s.freeBuffer input).closeInner .input).freeBuffer priv)
          | (some output, s) => (0, s.setPriv priv ⟨[⟨.input, s.next⟩], input, output, 1⟩)

/-- `rb_master_open`; the event of the output pipe is remapped between the two
buffers. -/
def rbMasterOpen (plat : Bool) (c : OpenCalls) (s : Device) : Int × Device :=
  if !plat then (-EINVAL, s)
  else if s.priv ≠ none then (0, s)
  else
    match s.allocBuffer c.priv with
    | (none, s) => (-ENOMEM, s)
    | (some priv, s) =>
      if !c.inputPipe then (-ENODEV, s.freeBuffer priv)
      else
        let s := (s.openInner .input).remapInner .input
        if !c.outputPipe then (-ENODEV, (s.closeInner .input).freeBuffer priv)
        else
          match (s.openInner .output).allocBuffer c.input with
          | (none, s) => (-ENOMEM, ((s.closeInner .output).closeInner .input).freeBuffer priv)
          | (some input, s) =>
            match (s.remapInner .output).allocBuffer c.output with
            | (none, s) =>
              (-ENOMEM, (((s.freeBuffer input).closeInner .output).closeInner .input).freeBuffer priv)
            | (some output, s) =>
              (0, s.setPriv priv ⟨[⟨.input, s.next⟩, ⟨.output, s.next⟩], input, output, 1⟩)

/-- `lininoio_dev_open`; the private structure has no pipes and no buffers. -/
def lininoioDevOpen (chan : Bool) (c : OpenCalls) (s : Device) : Int × Device :=
  if !chan then (-ENODEV, s)
  else if s.priv ≠ none then (0, s)
  else
    match s.allocBuffer c.priv with
    | (none, s) => (-ENOMEM, s)
    | (some priv, s) => (0, s.setPriv priv ⟨[], 0, 0, 1⟩)

/-- The open operation of the device; `plat` says that it has platform data. -/
def openOp : DriverKind → Bool → OpenCalls → Device → Int × Device
  | .rbSlave => rbSlaveOpen
  | .rbMaster => rbMasterOpen
  | .lininoioDev => lininoioDevOpen

/-- `pipe_open`, from the allocation of the pipe on. -/
def pipeOpen (kind : DriverKind) (plat : Bool) (c : OpenCalls) (s : Device) : Device :=
  match s.openOp kind plat c with
  | (stat, s) =>
    if stat ≠ 0 then { s with next := s.next + 1 }
    else { s with pipes := s.next :: s.pipes, next := s.next + 1 }

-- ---------------------------------------------------------------------------
-- The close operations
-- ---------------------------------------------------------------------------

/-- The close operation with the buffers it frees before the private structure. The
inner pipes are closed first. -/
def closeWith (frees : PrivData → List Nat) (priv : Nat) (s : Device) : Device :=
  let data := s.mem priv
  let s := { s with
    mem := Function.update s.mem priv { data with ninstances := data.ninstances - 1 } }
  if data.ninstances > 1 then s
  else
    let s := { s with closing := data.pipes ++ s.closing }
    { (frees data ++ [priv]).foldl (fun s a => s.freeBuffer a) s with closed := true }

/-- `rb_slave_close`. -/
def rbSlaveClose : Nat → Device → Device := closeWith fun data => [data.input, data.output]

/-- `rb_master_close`. -/
def rbMasterClose : Nat → Device → Device := closeWith fun data => [data.input]

/-- `lininoio_dev_close`. -/
def lininoioDevClose : Nat → Device → Device := closeWith fun _ => []

def closeOp : DriverKind → Nat → Device → Device
  | .rbSlave => rbSlaveClose
  | .rbMaster => rbMasterClose
  | .lininoioDev => lininoioDevClose

/-- `do_free_pipe` for a pipe of the device. -/
def doFreePipe (kind : DriverKind) (p : Nat) (s : Device) : Device :=
  let s := { s with pipes := s.pipes.erase p }
  match s.pipes, s.priv with
  | [], some priv => s.closeOp kind priv
  | _, _ => s

end Device

-- ---------------------------------------------------------------------------
-- Runs
-- ---------------------------------------------------------------------------

/-- What happens to the device: its pipes are opened, freed, read and written, an
inner pipe triggers an event, one that it has triggered is handled, its
`pipe_really_closed` is handled, `rb_master_do_beacon` is called, and others use
the allocator. -/
inductive DevOp where
  | openPipe (c : OpenCalls)
  | freePipe (p : Nat)
  | read (p : Nat)
  | write (p : Nat)
  | trigger (q : InnerPipe) (h : Handler)
  | handle (q : InnerPipe) (h : Handler)
  | freeInner (q : InnerPipe)
  | doBeacon
  | allocOther (a : Nat)
  | freeOther (a : Nat)

namespace Device

/-- The events of an inner pipe with a handler here: that of its input once it is
remapped, and the beacons for the slave. -/
def Handles (kind : DriverKind) (s : Device) (q : InnerPipe) : Handler → Prop
  | .inputReady => q.role = .input ∧ q ∈ s.remapped
  | .outputReady => q.role = .output ∧ q ∈ s.remapped
  | .beacon => kind = .rbSlave

instance (kind : DriverKind) (s : Device) (q : InnerPipe) :
    (h : Handler) → Decidable (s.Handles kind q h)
  | .inputReady => inferInstanceAs (Decidable (_ ∧ _))
  | .outputReady => inferInstanceAs (Decidable (_ ∧ _))
  | .beacon => inferInstanceAs (Decidable (_ = _))

/-- A pipe that is not on the list has no device, and nothing happens to it. Inner
pipes trigger events as long as they are listed. -/
def step (kind : DriverKind) (plat : Bool) (s : Device) : DevOp → Device
  | .openPipe c => s.pipeOpen kind plat c
  | .freePipe p => if p ∈ s.pipes then s.doFreePipe kind p else s
  | .trigger q h =>
    if q ∈ s.inner ∧ s.Handles kind q h then { s with pending := (q, h) :: s.pending } else s
  | .handle q h => { s with pending := s.pending.erase (q, h) }
  | .freeInner q =>
    if q ∈ s.closing then { s with inner := s.inner.erase q, closing := s.closing.erase q } else s
  | .allocOther a =>
    if s.owner a = none then { s with owner := Function.update s.owner a (some .other) } else s
  | .freeOther a => if s.owner a = some .other then s.freeBuffer a else s
  | _ => s

/-- The private structure and some buffers it points to; `none` for a `NULL`
pointer that is followed. -/
def reach (bufs : PrivData → List Nat) (s : Device) : Option (List Nat) :=
  s.priv.map fun priv => priv :: bufs (s.mem priv)

/-- The buffers an operation or a handler uses, besides the private structure;
`none` when the driver has none of that kind. -/
def readBufs : DriverKind → Option (PrivData → List Nat)
  | .rbSlave => some fun data => [data.input]
  | .rbMaster => some fun _ => []
  | .lininoioDev => none

def writeBufs : DriverKind → PrivData → List Nat
  | .rbSlave, data => [data.output]
  | .rbMaster, _ => []
  | .lininoioDev, _ => []

def closeBufs : DriverKind → PrivData → List Nat
  | .rbSlave, data => [data.input, data.output]
  | .rbMaster, data => [data.input]
  | .lininoioDev, _ => []

def handlerBufs : DriverKind → Handler → Option (PrivData → List Nat)
  | .rbSlave, .inputReady => some fun data => [data.input]
  | .rbSlave, .beacon => some fun data => [data.output]
  | .rbMaster, .inputReady => some fun data => [data.input]
  | .rbMaster, .outputReady => some fun data => [data.output]
  | _, _ => none

/-- What a step reaches through `dev->priv`. -/
def reached (kind : DriverKind) (s : Device) : DevOp → Option (List Nat)
  | .read p =>
    match readBufs kind with
    | some bufs => if p ∈ s.pipes then s.reach bufs else some []
    | none => some []
  | .write p => if p ∈ s.pipes then s.reach (writeBufs kind) else some []
  | .freePipe p =>
    if p ∈ s.pipes ∧ s.pipes.erase p = [] then s.reach (closeBufs kind) else some []
  | .handle q h =>
    match handlerBufs kind h with
    | some bufs =>
      -- `my_pipe->dev` is the device as long as `my_pipe` is on the list
      if (q, h) ∈ s.pending then if q.data ∈ s.pipes then s.reach bufs else none else some []
    | none => some []
  | .doBeacon =>
    if kind = .rbMaster ∧ s.priv ≠ none then s.reach fun data => [data.input] else some []
  | _ => some []

/-- The step reaches only live buffers of the driver, and the last close leaves
none. -/
def Sound (kind : DriverKind) (plat : Bool) (s : Device) (op : DevOp) : Prop :=
  (∃ l, s.reached kind op = some l ∧ ∀ a ∈ l, s.owner a = some .driver) ∧
    ∀ p, op = .freePipe p → p ∈ s.pipes → s.pipes.erase p = [] →
      ∀ a, (s.step kind plat op).owner a ≠ some .driver

/-- The condition: nothing goes to the device once it was closed for the last
time, which the master never is, and events of an inner pipe are handled as long as
the pipe that opened it is open. -/
def Meets (kind : DriverKind) (s : Device) : DevOp → Prop
  | .read p => kind ≠ .lininoioDev → p ∈ s.pipes → s.closed = false
  | .write p => p ∈ s.pipes → s.closed = false
  | .freePipe p => p ∈ s.pipes → s.pipes.erase p = [] → s.closed = false ∧ kind ≠ .rbMaster
  | .handle q h => (handlerBufs kind h).isSome → (q, h) ∈ s.pending → q.data ∈ s.pipes
  | .doBeacon => kind = .rbMaster → s.closed = false
  | _ => True

-- ---------------------------------------------------------------------------
-- The invariant
-- ---------------------------------------------------------------------------

/-- The buffers a private structure points to. -/
def extra : DriverKind → PrivData → List Nat
  | .rbSlave, data => [data.input, data.output]
  | .rbMaster, data => [data.input, data.output]
  | .lininoioDev, _ => []

/-- The buffers of the device. -/
def buffers (kind : DriverKind) (s : Device) : List Nat :=
  match s.priv with
  | none => []
  | some priv => priv :: extra kind (s.mem priv)

/-- The inner pipes a handler may still be called for. -/
def heard (s : Device) : List InnerPipe := s.inner ++ s.pending.map Prod.fst

structure Inv (kind : DriverKind) (s : Device) : Prop where
  owned : ∀ a, s.owner a = some .driver ↔ s.closed = false ∧ a ∈ s.buffers kind
  distinct : (s.buffers kind).Nodup
  single : s.closed = false → ∀ priv, s.priv = some priv → (s.mem priv).ninstances = 1
  opened : s.pipes ≠ [] ∨ s.closed = true → s.priv ≠ none
  numbers : (∀ p ∈ s.pipes, p < s.next) ∧ ∀ q ∈ s.heard, q.data < s.next
  gone : s.closed = true → ∀ q ∈ s.heard, q.data ∉ s.pipes

variable {kind : DriverKind} {plat : Bool} {s : Device}

theorem allocBuffer_cases (offer : Option Nat) (s : Device) :
    s.allocBuffer offer = (none, s) ∨
      ∃ a, s.owner a = none ∧ s.allocBuffer offer =
        (some a, { s with owner := Function.update s.owner a (some .driver) }) := by
  unfold allocBuffer
  cases offer with
  | none => exact Or.inl rfl
  | some a =>
    by_cases hfree : s.owner a = none
    · exact Or.inr ⟨a, hfree, if_pos hfree⟩
    · exact Or.inl (if_neg hfree)

/-- A buffer that is free beside one that is not. -/
theorem free_of_update {owner : Nat → Option Owner} {a b : Nat}
    (h : Function.update owner a (some .driver) b = none) : b ≠ a ∧ owner b = none := by
  by_cases hb : b = a
  · subst hb
    rw [Function.update_self] at h
    cases h
  · rw [Function.update_of_ne hb] at h
    exact ⟨hb, h⟩

/-- A buffer given back at once. -/
theorem update_back {owner : Nat → Option Owner} {a : Nat} (hfree : owner a = none) :
    Function.update (Function.update owner a (some .driver)) a none = owner := by
  rw [Function.update_idem, ← hfree, Function.update_eq_self]

-- ---------------------------------------------------------------------------
-- The open operations
-- ---------------------------------------------------------------------------

/-- The device while one of its pipes is being opened: some inner pipes have been
opened for it, remapped or closed, and the owners are `owner`. -/
def Opening (s : Device) (owner : Nat → Option Owner) (t : Device) : Prop :=
  ∃ qs rs cs, (∀ q ∈ qs, q.data = s.next) ∧
    t = { s with
      owner := owner
      inner := qs ++ s.inner
      remapped := rs ++ s.remapped
      closing := cs ++ s.closing }

section Opening

variable {owner : Nat → Option Owner} {t : Device}

theorem opening_self (s : Device) : s.Opening s.owner s := ⟨[], [], [], nofun, rfl⟩

theorem Opening.openInner (h : s.Opening owner t) (role : Role) : s.Opening owner (t.openInner role) := by
  obtain ⟨qs, rs, cs, hdata, rfl⟩ := h
  refine ⟨⟨role, s.next⟩ :: qs, rs, cs, fun q hq => ?_, rfl⟩
  rcases List.mem_cons.mp hq with rfl | hq
  · rfl
  · exact hdata q hq

theorem Opening.remapInner (h : s.Opening owner t) (role : Role) :
    s.Opening owner (t.remapInner role) := by
  obtain ⟨qs, rs, cs, hdata, rfl⟩ := h
  exact ⟨qs, ⟨role, s.next⟩ :: rs, cs, hdata, rfl⟩

theorem Opening.closeInner (h : s.Opening owner t) (role : Role) :
    s.Opening owner (t.closeInner role) := by
  obtain ⟨qs, rs, cs, hdata, rfl⟩ := h
  exact ⟨qs, rs, ⟨role, s.next⟩ :: cs, hdata, rfl⟩

theorem Opening.freeBuffer (h : s.Opening owner t) (a : Nat) :
    s.Opening (Function.update owner a none) (t.freeBuffer a) := by
  obtain ⟨qs, rs, cs, hdata, rfl⟩ := h
  exact ⟨qs, rs, cs, hdata, rfl⟩

/-- An allocation fails, or finds a buffer that was free. -/
theorem Opening.allocBuffer (h : s.Opening owner t) (offer : Option Nat) :
    (∃ t', t.allocBuffer offer = (none, t') ∧ s.Opening owner t') ∨
      ∃ a t', owner a = none ∧ t.allocBuffer offer = (some a, t') ∧
        s.Opening (Function.update owner a (some .driver)) t' := by
  obtain ⟨qs, rs, cs, hdata, rfl⟩ := h
  rcases allocBuffer_cases offer { s with
      owner := owner
      inner := qs ++ s.inner
      remapped := rs ++ s.remapped
      closing := cs ++ s.closing } with halloc | ⟨a, hfree, halloc⟩
  · exact Or.inl ⟨_, halloc, qs, rs, cs, hdata, rfl⟩
  · exact Or.inr ⟨a, _, hfree, halloc, qs, rs, cs, hdata, rfl⟩

end Opening

/-- What an open operation does: it fails and leaves the buffers as they were, finds
the device open, or installs a private structure in buffers that were free. -/
def OpenResult (kind : DriverKind) (s : Device) (r : Int × Device) : Prop :=
  (r.1 ≠ 0 ∧ s.Opening s.owner r.2) ∨ (r.1 = 0 ∧ s.priv ≠ none ∧ r.2 = s) ∨
    (r.1 = 0 ∧ s.priv = none ∧ ∃ t priv data, data.ninstances = 1 ∧
      (priv :: extra kind data).Nodup ∧ (∀ a ∈ priv :: extra kind data, s.owner a = none) ∧
      s.Opening (fun a => if a ∈ priv :: extra kind data then some .driver else s.owner a) t ∧
      r.2 = t.setPriv priv data)

/-- The buffers of a bridge, taken one after the other. -/
theorem openResult_set {kind : DriverKind} {t : Device} {priv input output : Nat}
    {pipes : List InnerPipe} (hkind : kind ≠ .lininoioDev) (hnone : s.priv = none)
    (hpriv : s.owner priv = none)
    (hinput : Function.update s.owner priv (some .driver) input = none)
    (houtput : Function.update (Function.update s.owner priv (some .driver)) input (some .driver)
      output = none)
    (ht : s.Opening (Function.update (Function.update (Function.update s.owner priv (some .driver))
      input (some .driver)) output (some .driver)) t) :
    OpenResult kind s (0, t.setPriv priv ⟨pipes, input, output, 1⟩) := by
  obtain ⟨hip, hinfree⟩ := free_of_update hinput
  obtain ⟨hoi, houtput'⟩ := free_of_update houtput
  obtain ⟨hop, houtfree⟩ := free_of_update houtput'
  have hextra : extra kind ⟨pipes, input, output, 1⟩ = [input, output] := by
    cases kind with
    | lininoioDev => exact absurd rfl hkind
    | _ => rfl
  have howner : (fun a => if a ∈ [priv, input, output] then some .driver else s.owner a) =
      Function.update (Function.update (Function.update s.owner priv (some .driver)) input
        (some .driver)) output (some .driver) := by
    funext a
    simp only [Function.update_apply, List.mem_cons, List.not_mem_nil, or_false]
    grind
  refine Or.inr (Or.inr ⟨rfl, hnone, t, priv, ⟨pipes, input, output, 1⟩, rfl, ?_, ?_, ?_, rfl⟩)
  · simp [hextra, Ne.symm hip, Ne.symm hop, Ne.symm hoi]
  · simp [hextra, hpriv, hinfree, houtfree]
  · rw [hextra, howner]
    exact ht

/-- A failure after the private structure was allocated gives it back. -/
theorem openResult_fail {t : Device} {priv : Nat} {stat : Int} (hstat : stat ≠ 0)
    (hpriv : s.owner priv = none)
    (ht : s.Opening (Function.update s.owner priv (some .driver)) t) :
    OpenResult kind s (stat, t.freeBuffer priv) := by
  refine Or.inl ⟨hstat, ?_⟩
  have hback := ht.freeBuffer priv
  rwa [update_back hpriv] at hback

theorem rbSlaveOpen_result (c : OpenCalls) (hnone : s.priv = none) :
    OpenResult .rbSlave s (s.rbSlaveOpen true c) := by
  have henomem : -ENOMEM ≠ 0 := by decide
  have henodev : -ENODEV ≠ 0 := by decide
  unfold rbSlaveOpen
  simp only [Bool.not_true, Bool.false_eq_true, if_false, hnone, ne_eq, not_true]
  rcases (opening_self s).allocBuffer c.priv with ⟨t, halloc, ht⟩ | ⟨priv, t, hpriv, halloc, ht⟩
  · rw [halloc]
    exact Or.inl ⟨henomem, ht⟩
  simp only [halloc]
  split
  · exact openResult_fail henodev hpriv ht
  rcases ((ht.openInner .input).remapInner .input).allocBuffer c.input with
    ⟨t, halloc, ht⟩ | ⟨input, t, hinput, halloc, ht⟩
  · rw [halloc]
    exact openResult_fail henomem hpriv (ht.closeInner .input)
  simp only [halloc]
  rcases ht.allocBuffer c.output with ⟨t, halloc, ht⟩ | ⟨output, t, houtput, halloc, ht⟩
  · rw [halloc]
    have hback := ht.freeBuffer input
    rw [update_back hinput] at hback
    exact openResult_fail henomem hpriv (hback.closeInner .input)
  · rw [halloc]
    exact openResult_set (by decide) hnone hpriv hinput houtput ht

theorem rbMasterOpen_result (c : OpenCalls) (hnone : s.priv = none) :
    OpenResult .rbMaster s (s.rbMasterOpen true c) := by
  have henomem : -ENOMEM ≠ 0 := by decide
  have henodev : -ENODEV ≠ 0 := by decide
  unfold rbMasterOpen
  simp only [Bool.not_true, Bool.false_eq_true, if_false, hnone, ne_eq, not_true]
  rcases (opening_self s).allocBuffer c.priv with ⟨t, halloc, ht⟩ | ⟨priv, t, hpriv, halloc, ht⟩
  · rw [halloc]
    exact Or.inl ⟨henomem, ht⟩
  simp only [halloc]
  split
  · exact openResult_fail henodev hpriv ht
  have hin := (ht.openInner .input).remapInner .input
  split
  · exact openResult_fail henodev hpriv (hin.closeInner .input)
  rcases (hin.openInner .output).allocBuffer c.input with
    ⟨t, halloc, ht⟩ | ⟨input, t, hinput, halloc, ht⟩
  · rw [halloc]
    exact openResult_fail henomem hpriv ((ht.closeInner .output).closeInner .input)
  simp only [halloc]
  rcases (ht.remapInner .output).allocBuffer c.output with
    ⟨t, halloc, ht⟩ | ⟨output, t, houtput, halloc, ht⟩
  · rw [halloc]
    have hback := ht.freeBuffer input
    rw [update_back hinput] at hback
    exact openResult_fail henomem hpriv ((hback.closeInner .output).closeInner .input)
  · rw [halloc]
    exact openResult_set (by decide) hnone hpriv hinput houtput ht

theorem lininoioDevOpen_result (c : OpenCalls) (hnone : s.priv = none) :
    OpenResult .lininoioDev s (s.lininoioDevOpen true c) := by
  have henomem : -ENOMEM ≠ 0 := by decide
  unfold lininoioDevOpen
  simp only [Bool.not_true, Bool.false_eq_true, if_false, hnone, ne_eq, not_true]
  rcases (opening_self s).allocBuffer c.priv with ⟨t, halloc, ht⟩ | ⟨priv, t, hpriv, halloc, ht⟩
  · rw [halloc]
    exact Or.inl ⟨henomem, ht⟩
  rw [halloc]
  have howner : (fun a => if a ∈ [priv] then some .driver else s.owner a) =
      Function.update s.owner priv (some .driver) := by
    funext a
    simp [Function.update_apply]
  refine Or.inr (Or.inr ⟨rfl, hnone, t, priv, ⟨[], 0, 0, 1⟩, rfl, ?_, ?_, ?_, rfl⟩)
  · simp [extra]
  · simp [extra, hpriv]
  · unfold extra
    rw [howner]
    exact ht

/-- Every open operation does one of the three. -/
theorem openOp_result (kind : DriverKind) (plat : Bool) (c : OpenCalls) (s : Device) :
    OpenResult kind s (s.openOp kind plat c) := by
  have henodev : -ENODEV ≠ 0 := by decide
  have heinval : -EINVAL ≠ 0 := by decide
  cases plat with
  | false => cases kind <;> exact Or.inl ⟨by assumption, opening_self s⟩
  | true =>
    by_cases hnone : s.priv = none
    · cases kind with
      | rbSlave => exact rbSlaveOpen_result c hnone
      | rbMaster => exact rbMasterOpen_result c hnone
      | lininoioDev => exact lininoioDevOpen_result c hnone
    · refine Or.inr (Or.inl ⟨?_, hnone, ?_⟩) <;> cases kind <;>
        simp [openOp, rbSlaveOpen, rbMasterOpen, lininoioDevOpen, hnone]

-- ---------------------------------------------------------------------------
-- One step
-- ---------------------------------------------------------------------------

/-- An open leaves the inner pipes as they were, but for its own. -/
theorem Opening.heard {owner : Nat → Option Owner} {t : Device} (h : s.Opening owner t)
    {q : InnerPipe} (hq : q ∈ t.heard) : q ∈ s.heard ∨ q.data = s.next := by
  obtain ⟨qs, rs, cs, hdata, rfl⟩ := h
  unfold Device.heard at hq ⊢
  rw [List.append_assoc] at hq
  rcases List.mem_append.mp hq with hnew | hold
  · exact Or.inr (hdata q hnew)
  · exact Or.inl hold

/-- A failed open leaves inner pipes whose opener is not listed. -/
theorem failed_inv {t : Device} (h : Inv kind s) (ht : s.Opening s.owner t) :
    Inv kind { t with next := t.next + 1 } := by
  have hheard := fun q => ht.heard (q := q)
  obtain ⟨qs, rs, cs, -, rfl⟩ := ht
  refine { owned := h.owned, distinct := h.distinct, single := h.single, opened := h.opened
           numbers := ⟨fun p hp => (h.numbers.1 p hp).trans (Nat.lt_succ_self _), fun q hq => ?_⟩
           gone := fun hclosed q hq hmem => ?_ }
  · rcases hheard q hq with hold | hnew
    · exact (h.numbers.2 q hold).trans (Nat.lt_succ_self _)
    · exact hnew ▸ Nat.lt_succ_self _
  · rcases hheard q hq with hold | hnew
    · exact h.gone hclosed q hold hmem
    · exact absurd (h.numbers.1 q.data hmem) (hnew ▸ Nat.lt_irrefl _)

/-- A pipe more on an open device. -/
theorem listed_inv (h : Inv kind s) (hpriv : s.priv ≠ none) :
    Inv kind { s with pipes := s.next :: s.pipes, next := s.next + 1 } := by
  refine { owned := h.owned, distinct := h.distinct, single := h.single, opened := fun _ => hpriv
           numbers := ⟨fun p hp => ?_, fun q hq => (h.numbers.2 q hq).trans (Nat.lt_succ_self _)⟩
           gone := fun hclosed q hq hmem => ?_ }
  · rcases List.mem_cons.mp hp with rfl | hp
    · exact Nat.lt_succ_self _
    · exact (h.numbers.1 p hp).trans (Nat.lt_succ_self _)
  · rcases List.mem_cons.mp hmem with heq | hmem
    · exact absurd (h.numbers.2 q hq) (heq ▸ Nat.lt_irrefl _)
    · exact h.gone hclosed q hq hmem

/-- The first open. The device has not been closed, for it was never open. -/
theorem installed_inv {t : Device} {priv : Nat} {data : PrivData} (h : Inv kind s)
    (hpriv : s.priv = none) (hone : data.ninstances = 1) (hnodup : (priv :: extra kind data).Nodup)
    (ht : s.Opening (fun a => if a ∈ priv :: extra kind data then some .driver else s.owner a) t) :
    Inv kind { t.setPriv priv data with
      pipes := (t.setPriv priv data).next :: (t.setPriv priv data).pipes
      next := (t.setPriv priv data).next + 1 } := by
  have hnotclosed : s.closed = false := by
    by_contra hclosed
    exact h.opened (Or.inr (Bool.not_eq_false _ ▸ hclosed)) hpriv
  have hpipes : s.pipes = [] := by
    by_contra hne
    exact h.opened (Or.inl hne) hpriv
  have hnone : ∀ a, s.owner a ≠ some .driver := by
    intro a ha
    have hmem := ((h.owned a).mp ha).2
    simp [buffers, hpriv] at hmem
  have hbuffers : (t.setPriv priv data).buffers kind = priv :: extra kind data := by
    simp [buffers, setPriv]
  have hheard := fun q => ht.heard (q := q)
  obtain ⟨qs, rs, cs, -, rfl⟩ := ht
  refine { owned := fun a => ?_, distinct := ?_, single := fun _ p hp => ?_,
           opened := fun _ => Option.some_ne_none priv
           numbers := ⟨fun p hp => ?_, fun q hq => ?_⟩
           gone := fun hclosed => absurd (hnotclosed.symm.trans hclosed) (by decide) }
  · show (if a ∈ priv :: extra kind data then some Owner.driver else s.owner a) = some .driver ↔
      s.closed = false ∧ a ∈ (setPriv priv data _).buffers kind
    rw [hbuffers]
    by_cases ha : a ∈ priv :: extra kind data
    · simp [ha, hnotclosed]
    · rw [if_neg ha]
      exact ⟨fun hd => absurd hd (hnone a), fun hd => absurd hd.2 ha⟩
  · show ((setPriv priv data _).buffers kind).Nodup
    rw [hbuffers]
    exact hnodup
  · obtain rfl : priv = p := Option.some_inj.mp hp
    show (Function.update s.mem priv data priv).ninstances = 1
    rw [Function.update_self]
    exact hone
  · have hp' : p ∈ s.next :: s.pipes := hp
    rw [hpipes, List.mem_singleton] at hp'
    exact hp' ▸ Nat.lt_succ_self _
  · rcases hheard q hq with hold | hnew
    · exact (h.numbers.2 q hold).trans (Nat.lt_succ_self _)
    · exact hnew ▸ Nat.lt_succ_self _

/-- Opening a pipe. -/
theorem open_inv (h : Inv kind s) (c : OpenCalls) : Inv kind (s.pipeOpen kind plat c) := by
  have hresult := openOp_result kind plat c s
  unfold pipeOpen
  generalize s.openOp kind plat c = r at hresult
  obtain ⟨stat, s'⟩ := r
  rcases hresult with ⟨hstat, hfail⟩ | ⟨hstat, hpriv, hsame⟩ |
    ⟨hstat, hpriv, t, priv, data, hone, hnodup, -, ht, hset⟩
  · simp only at hstat hfail ⊢
    rw [if_pos hstat]
    exact failed_inv h hfail
  · simp only at hstat hsame ⊢
    rw [if_neg (not_not.mpr hstat), hsame]
    exact listed_inv h hpriv
  · simp only at hstat hset ⊢
    rw [if_neg (not_not.mpr hstat), hset]
    exact installed_inv h hpriv hone hnodup ht

/-- Freeing a list of buffers. -/
theorem foldl_freeBuffer (l : List Nat) (s : Device) :
    l.foldl (fun s a => s.freeBuffer a) s =
      { s with owner := fun a => if a ∈ l then none else s.owner a } := by
  induction l generalizing s with
  | nil => simp
  | cons b l ih =>
    rw [List.foldl_cons, ih]
    unfold freeBuffer
    congr 1
    funext a
    simp only [Function.update_apply, List.mem_cons]
    by_cases hl : a ∈ l
    · simp [hl]
    · by_cases hb : a = b <;> simp [hl, hb]

/-- The last close frees the buffers it reaches. -/
theorem closeOp_eq {priv : Nat} (hone : (s.mem priv).ninstances = 1) :
    s.closeOp kind priv =
      { s with
        owner := fun a => if a ∈ closeBufs kind (s.mem priv) ++ [priv] then none else s.owner a
        mem := Function.update s.mem priv { s.mem priv with ninstances := 0 }
        closing := (s.mem priv).pipes ++ s.closing
        closed := true } := by
  have hclose : ∀ frees, closeWith frees priv s =
      { s with
        owner := fun a => if a ∈ frees (s.mem priv) ++ [priv] then none else s.owner a
        mem := Function.update s.mem priv { s.mem priv with ninstances := 0 }
        closing := (s.mem priv).pipes ++ s.closing
        closed := true } := by
    intro frees
    unfold closeWith
    simp only [hone, gt_iff_lt, Int.lt_irrefl, if_false, sub_self]
    rw [foldl_freeBuffer]
  cases kind with
  | rbSlave => exact hclose fun data => [data.input, data.output]
  | rbMaster => exact hclose fun data => [data.input]
  | lininoioDev => exact hclose fun _ => []

/-- The private structure of a device with an open pipe. -/
theorem Inv.priv_of_mem (h : Inv kind s) {p : Nat} (hp : p ∈ s.pipes) : ∃ priv, s.priv = some priv :=
  Option.ne_none_iff_exists'.mp (h.opened (Or.inl (List.ne_nil_of_mem hp)))

/-- Freeing a pipe that is not the last one. -/
theorem free_inv_of_ne (h : Inv kind s) {p : Nat} (hp : p ∈ s.pipes) (hmore : s.pipes.erase p ≠ []) :
    Inv kind (s.doFreePipe kind p) := by
  have heq : s.doFreePipe kind p = { s with pipes := s.pipes.erase p } := by
    unfold doFreePipe
    cases hpipes : s.pipes.erase p with
    | nil => exact absurd hpipes hmore
    | cons q qs => rfl
  rw [heq]
  exact { owned := h.owned, distinct := h.distinct, single := h.single
          opened := fun _ => h.opened (Or.inl (List.ne_nil_of_mem hp))
          numbers := ⟨fun q hq => h.numbers.1 q (List.mem_of_mem_erase hq), h.numbers.2⟩
          gone := fun hclosed q hq hmem => h.gone hclosed q hq (List.mem_of_mem_erase hmem) }

/-- Freeing the last one. -/
theorem doFreePipe_last (h : Inv kind s) {p priv : Nat} (hlast : s.pipes.erase p = [])
    (hpriv : s.priv = some priv) (hclosed : s.closed = false) :
    s.doFreePipe kind p =
      { s with
        owner := fun a => if a ∈ closeBufs kind (s.mem priv) ++ [priv] then none else s.owner a
        mem := Function.update s.mem priv { s.mem priv with ninstances := 0 }
        pipes := []
        closing := (s.mem priv).pipes ++ s.closing
        closed := true } := by
  have hone : (s.mem priv).ninstances = 1 := h.single hclosed priv hpriv
  unfold doFreePipe
  simp only [hlast, hpriv]
  exact closeOp_eq hone

/-- After the last close of the slave and of the lininoio device the driver has no
buffer any more. -/
theorem last_owner (h : Inv kind s) (hkind : kind ≠ .rbMaster) {p priv : Nat}
    (hlast : s.pipes.erase p = []) (hpriv : s.priv = some priv) (hclosed : s.closed = false) (a : Nat) :
    (s.doFreePipe kind p).owner a ≠ some .driver := by
  rw [doFreePipe_last h hlast hpriv hclosed]
  intro hdriver
  simp only at hdriver
  split at hdriver
  · cases hdriver
  · next hmem =>
    have hbuf := ((h.owned a).mp hdriver).2
    simp only [buffers, hpriv] at hbuf
    cases kind with
    | rbMaster => exact hkind rfl
    | rbSlave =>
      simp only [closeBufs, extra, List.mem_append, List.mem_cons, List.not_mem_nil] at hmem hbuf
      tauto
    | lininoioDev =>
      simp only [closeBufs, extra, List.mem_append, List.mem_cons, List.not_mem_nil] at hmem hbuf
      tauto

theorem free_inv_of_last (h : Inv kind s) (hkind : kind ≠ .rbMaster) {p priv : Nat}
    (hlast : s.pipes.erase p = []) (hpriv : s.priv = some priv) (hclosed : s.closed = false) :
    Inv kind (s.doFreePipe kind p) := by
  have hnone := last_owner h hkind hlast hpriv hclosed
  rw [doFreePipe_last h hlast hpriv hclosed] at hnone ⊢
  have hdone : true ≠ false := by decide
  have hbuffers : ∀ n, extra kind { s.mem priv with ninstances := n } = extra kind (s.mem priv) := by
    intro n
    cases kind <;> rfl
  refine { owned := fun a => ⟨fun hd => absurd hd (hnone a), fun hd => absurd hd.1 hdone⟩
           distinct := ?_, single := fun hd => absurd hd hdone
           opened := fun _ => ?_, numbers := ⟨fun q hq => absurd hq List.not_mem_nil, h.numbers.2⟩
           gone := fun _ _ _ => List.not_mem_nil }
  · have hdistinct := h.distinct
    simp only [buffers, hpriv, Function.update_self, hbuffers] at hdistinct ⊢
    exact hdistinct
  · show s.priv ≠ none
    rw [hpriv]
    exact Option.some_ne_none priv

/-- Others leave the driver's buffers alone: a buffer that is not the driver's before
and after. -/
theorem Inv.update_owner (h : Inv kind s) {a : Nat} {owner : Option Owner}
    (hbefore : s.owner a ≠ some .driver) (hafter : owner ≠ some .driver) :
    Inv kind { s with owner := Function.update s.owner a owner } := by
  have howner : ∀ b, Function.update s.owner a owner b = some .driver ↔ s.owner b = some .driver := by
    intro b
    by_cases hb : b = a
    · subst hb
      rw [Function.update_self]
      exact iff_of_false hafter hbefore
    · rw [Function.update_of_ne hb]
  exact { owned := fun b => (howner b).trans (h.owned b), distinct := h.distinct, single := h.single,
          opened := h.opened, numbers := h.numbers, gone := h.gone }

/-- The inner pipes may become less, or trigger an event. -/
theorem Inv.update_inner (h : Inv kind s) (inner closing : List InnerPipe)
    (pending : List (InnerPipe × Handler)) (hsub : inner ++ pending.map Prod.fst ⊆ s.heard) :
    Inv kind { s with inner := inner, closing := closing, pending := pending } :=
  { owned := h.owned, distinct := h.distinct, single := h.single, opened := h.opened
    numbers := ⟨h.numbers.1, fun q hq => h.numbers.2 q (hsub hq)⟩
    gone := fun hclosed q hq => h.gone hclosed q (hsub hq) }

theorem step_inv (h : Inv kind s) {op : DevOp} (hop : s.Meets kind op) :
    Inv kind (s.step kind plat op) := by
  cases op with
  | openPipe c => exact open_inv h c
  | freePipe p =>
    show Inv kind (if p ∈ s.pipes then s.doFreePipe kind p else s)
    by_cases hp : p ∈ s.pipes
    · rw [if_pos hp]
      by_cases hlast : s.pipes.erase p = []
      · obtain ⟨priv, hpriv⟩ := h.priv_of_mem hp
        obtain ⟨hclosed, hkind⟩ := hop hp hlast
        exact free_inv_of_last h hkind hlast hpriv hclosed
      · exact free_inv_of_ne h hp hlast
    · rw [if_neg hp]
      exact h
  | allocOther a =>
    unfold step
    simp only
    split
    · next hfree => exact h.update_owner (hfree ▸ nofun) nofun
    · exact h
  | freeOther a =>
    unfold step
    simp only
    split
    · next hother => exact h.update_owner (hother ▸ nofun) nofun
    · exact h
  | trigger q hd =>
    unfold step
    simp only
    split
    · next hevent =>
      refine h.update_inner s.inner s.closing _ fun x hx => ?_
      rcases List.mem_append.mp hx with hx | hx
      · exact List.mem_append_left _ hx
      · rcases List.mem_cons.mp hx with rfl | hx
        · exact List.mem_append_left _ hevent.1
        · exact List.mem_append_right _ hx
    · exact h
  | handle q hd =>
    refine h.update_inner s.inner s.closing _ fun x hx => ?_
    rcases List.mem_append.mp hx with hx | hx
    · exact List.mem_append_left _ hx
    · obtain ⟨e, he, rfl⟩ := List.mem_map.mp hx
      exact List.mem_append_right _ (List.mem_map_of_mem (List.mem_of_mem_erase he))
  | freeInner q =>
    unfold step
    simp only
    split
    · refine h.update_inner _ _ s.pending fun x hx => ?_
      rcases List.mem_append.mp hx with hx | hx
      · exact List.mem_append_left _ (List.mem_of_mem_erase hx)
      · exact List.mem_append_right _ hx
    · exact h
  | read p => exact h
  | write p => exact h
  | doBeacon => exact h

-- ---------------------------------------------------------------------------
-- The condition is exact
-- ---------------------------------------------------------------------------

/-- What is reached belongs to the driver. -/
def Live (s : Device) (reached : Option (List Nat)) : Prop :=
  ∃ l, reached = some l ∧ ∀ a ∈ l, s.owner a = some .driver

/-- What is reached through `dev->priv` is the driver's exactly until the last
close. -/
theorem reach_iff (h : Inv kind s) (hpriv : s.priv ≠ none) {bufs : PrivData → List Nat}
    (hbufs : ∀ data, bufs data ⊆ extra kind data) :
    s.Live (s.reach bufs) ↔ s.closed = false := by
  obtain ⟨priv, hsome⟩ := Option.ne_none_iff_exists'.mp hpriv
  have hreach : s.reach bufs = some (priv :: bufs (s.mem priv)) := by
    simp [reach, hsome]
  have hbuffers : s.buffers kind = priv :: extra kind (s.mem priv) := by
    simp [buffers, hsome]
  rw [hreach]
  refine ⟨?_, fun hclosed => ⟨_, rfl, fun a ha => (h.owned a).mpr ⟨hclosed, ?_⟩⟩⟩
  · rintro ⟨l, hl, hall⟩
    obtain rfl := Option.some_inj.mp hl
    exact ((h.owned priv).mp (hall priv List.mem_cons_self)).1
  · rw [hbuffers]
    exact List.cons_subset_cons priv (hbufs _) ha

theorem nothing_reached (s : Device) : s.Live (some []) :=
  ⟨[], rfl, fun _ ha => absurd ha List.not_mem_nil⟩

theorem closeBufs_subset (kind : DriverKind) (data : PrivData) : closeBufs kind data ⊆ extra kind data := by
  cases kind <;> simp [closeBufs, extra]

/-- The buffer `rb_master_close` forgets. -/
theorem master_output_kept (h : Inv .rbMaster s) {p priv : Nat} (hlast : s.pipes.erase p = [])
    (hpriv : s.priv = some priv) (hclosed : s.closed = false) :
    (s.doFreePipe .rbMaster p).owner (s.mem priv).output = some .driver := by
  have hdistinct := h.distinct
  simp only [buffers, hpriv, extra, List.nodup_cons, List.mem_cons, List.not_mem_nil, not_or,
    or_false] at hdistinct
  obtain ⟨⟨-, hpo⟩, hio, -⟩ := hdistinct
  rw [doFreePipe_last h hlast hpriv hclosed]
  simp only [closeBufs, List.mem_append, List.mem_cons, List.not_mem_nil, or_false]
  rw [if_neg (by rintro (ho | ho) <;> [exact hio ho.symm; exact hpo ho.symm])]
  refine (h.owned _).mpr ⟨hclosed, ?_⟩
  simp [buffers, hpriv, extra]

/-- For a pipe that is open or not. -/
theorem reached_pipe_iff (h : Inv kind s) {p : Nat} {bufs : PrivData → List Nat}
    (hbufs : ∀ data, bufs data ⊆ extra kind data) :
    s.Live (if p ∈ s.pipes then s.reach bufs else some []) ↔ (p ∈ s.pipes → s.closed = false) := by
  by_cases hp : p ∈ s.pipes
  · rw [if_pos hp, reach_iff h (h.opened (Or.inl (List.ne_nil_of_mem hp))) hbufs]
    exact ⟨fun hclosed _ => hclosed, fun hclosed => hclosed hp⟩
  · rw [if_neg hp]
    exact ⟨fun _ hmem => absurd hmem hp, fun _ => nothing_reached s⟩

theorem read_iff (h : Inv kind s) (p : Nat) :
    s.Live (s.reached kind (.read p)) ↔ s.Meets kind (.read p) := by
  unfold Meets
  cases kind with
  | lininoioDev => exact ⟨fun _ hne => absurd rfl hne, fun _ => nothing_reached s⟩
  | rbSlave =>
    refine (reached_pipe_iff h ?_).trans ⟨fun hp _ => hp, fun hp => hp (by decide)⟩
    simp [extra]
  | rbMaster =>
    refine (reached_pipe_iff h ?_).trans ⟨fun hp _ => hp, fun hp => hp (by decide)⟩
    simp [extra]

theorem write_iff (h : Inv kind s) (p : Nat) :
    s.Live (s.reached kind (.write p)) ↔ s.Meets kind (.write p) := by
  refine reached_pipe_iff h fun data => ?_
  cases kind <;> simp [writeBufs, extra]

theorem handlerBufs_subset {hd : Handler} {bufs : PrivData → List Nat}
    (hbufs : handlerBufs kind hd = some bufs) (data : PrivData) : bufs data ⊆ extra kind data := by
  cases kind <;> cases hd <;> cases hbufs <;> simp [extra]

/-- The pipe that opened an inner pipe is gone once the device is closed. -/
theorem handle_iff (h : Inv kind s) (q : InnerPipe) (hd : Handler) :
    s.Live (s.reached kind (.handle q hd)) ↔ s.Meets kind (.handle q hd) := by
  simp only [reached, Meets]
  cases hbufs : handlerBufs kind hd with
  | none => exact ⟨fun _ hsome => absurd hsome (by simp), fun _ => nothing_reached s⟩
  | some bufs =>
    simp only [Option.isSome_some, forall_const]
    by_cases hevent : (q, hd) ∈ s.pending
    · have hheard : q ∈ s.heard := List.mem_append_right _ (List.mem_map.mpr ⟨_, hevent, rfl⟩)
      rw [if_pos hevent]
      by_cases hmem : q.data ∈ s.pipes
      · have hpriv : s.priv ≠ none := h.opened (Or.inl (List.ne_nil_of_mem hmem))
        rw [if_pos hmem, reach_iff h hpriv (handlerBufs_subset hbufs)]
        refine ⟨fun _ _ => hmem, fun _ => ?_⟩
        by_contra hclosed
        exact h.gone (Bool.not_eq_false _ ▸ hclosed) q hheard hmem
      · rw [if_neg hmem]
        exact ⟨fun ⟨l, hl, _⟩ => absurd hl nofun, fun hop => absurd (hop hevent) hmem⟩
    · rw [if_neg hevent]
      exact ⟨fun _ hop => absurd hop hevent, fun _ => nothing_reached s⟩

theorem doBeacon_iff (h : Inv kind s) :
    s.Live (s.reached kind .doBeacon) ↔ s.Meets kind .doBeacon := by
  simp only [reached, Meets]
  by_cases hcall : kind = .rbMaster ∧ s.priv ≠ none
  · obtain ⟨rfl, hpriv⟩ := hcall
    rw [if_pos ⟨rfl, hpriv⟩, reach_iff h hpriv (by simp [extra])]
    simp
  · rw [if_neg hcall]
    refine ⟨fun _ hkind => ?_, fun _ => nothing_reached s⟩
    by_contra hclosed
    exact hcall ⟨hkind, h.opened (Or.inr (Bool.not_eq_false _ ▸ hclosed))⟩

/-- Where the invariant holds, a step is sound exactly under the condition. -/
theorem sound_iff (h : Inv kind s) (op : DevOp) : s.Sound kind plat op ↔ s.Meets kind op := by
  show (s.Live (s.reached kind op) ∧ _) ↔ _
  cases op with
  | openPipe c => exact ⟨fun _ => trivial, fun _ => ⟨nothing_reached s, nofun⟩⟩
  | allocOther a => exact ⟨fun _ => trivial, fun _ => ⟨nothing_reached s, nofun⟩⟩
  | freeOther a => exact ⟨fun _ => trivial, fun _ => ⟨nothing_reached s, nofun⟩⟩
  | read p => exact (and_iff_left nofun).trans (read_iff h p)
  | write p => exact (and_iff_left nofun).trans (write_iff h p)
  | trigger q hd => exact ⟨fun _ => trivial, fun _ => ⟨nothing_reached s, nofun⟩⟩
  | handle q hd => exact (and_iff_left nofun).trans (handle_iff h q hd)
  | freeInner q => exact ⟨fun _ => trivial, fun _ => ⟨nothing_reached s, nofun⟩⟩
  | doBeacon => exact (and_iff_left nofun).trans (doBeacon_iff h)
  | freePipe p =>
    by_cases hp : p ∈ s.pipes ∧ s.pipes.erase p = []
    · obtain ⟨hmem, hlast⟩ := hp
      obtain ⟨priv, hpriv⟩ := h.priv_of_mem hmem
      have hreached : s.reached kind (.freePipe p) = s.reach (closeBufs kind) := if_pos ⟨hmem, hlast⟩
      have hstep : s.step kind plat (.freePipe p) = s.doFreePipe kind p := if_pos hmem
      rw [hreached, reach_iff h (hpriv ▸ Option.some_ne_none priv) (closeBufs_subset kind), hstep]
      refine ⟨fun ⟨hclosed, hafter⟩ _ _ => ⟨hclosed, ?_⟩, fun hop => ?_⟩
      · rintro rfl
        exact hafter p rfl hmem hlast _ (master_output_kept h hlast hpriv hclosed)
      · obtain ⟨hclosed, hkind⟩ := hop hmem hlast
        exact ⟨hclosed, fun _ _ _ _ => last_owner h hkind hlast hpriv hclosed⟩
    · have hreached : s.reached kind (.freePipe p) = some [] := if_neg hp
      rw [hreached]
      refine ⟨fun _ hmem hlast => absurd ⟨hmem, hlast⟩ hp, fun _ => ⟨nothing_reached s, ?_⟩⟩
      intro q hq hmem hlast
      obtain rfl : p = q := DevOp.freePipe.inj hq
      exact absurd ⟨hmem, hlast⟩ hp

/-- The device before its first open; `others` are the buffers in use. -/
def start (others : Nat → Bool) (mem : Nat → PrivData) : Device where
  owner := fun a => if others a then some .other else none
  mem := mem
  priv := none
  pipes := []
  next := 0
  inner := []
  remapped := []
  closing := []
  pending := []
  closed := false

theorem start_inv (kind : DriverKind) (others : Nat → Bool) (mem : Nat → PrivData) :
    Inv kind (start others mem) := by
  refine { owned := fun a => ⟨fun hd => ?_, fun hd => absurd hd.2 List.not_mem_nil⟩
           distinct := List.nodup_nil, single := nofun
           opened := fun hd => hd.elim (absurd rfl) nofun
           numbers := ⟨nofun, nofun⟩, gone := nofun }
  have howner : (if others a then some Owner.other else none) = some .driver := hd
  split at howner <;> cases howner

end Device

open Device

/-- **Private data across opens and closes.** Before its first open the device has
no buffer. From then on, what is reached through `dev->priv` is a live buffer of
the driver, and all of them are free after the last close, exactly in the runs in
which nothing uses the device after its last close, the last pipe of a radio
bridge master is never closed, and the events of an inner pipe are only handled
while the pipe whose open operation opened it is open. -/
theorem reopen_iff (kind : DriverKind) (plat : Bool) (others : Nat → Bool) (mem : Nat → PrivData)
    (ops : List DevOp) :
    EachStep (Device.step kind plat) (Sound kind plat) (start others mem) ops ↔
      EachStep (Device.step kind plat) (Device.Meets kind) (start others mem) ops :=
  eachStep_iff (fun (s : Device) op (h : Inv kind s) => sound_iff h op)
    (fun _ _ h hop => step_inv h hop) (start_inv kind others mem)

/-- A first open without a buffer for the input: an event of the inner pipe that has
been opened already goes through `NULL`. -/
example : reached .rbSlave
    (runFrom (Device.step .rbSlave true) (start (fun _ => false) fun _ => ⟨[], 0, 0, 0⟩)
      [.openPipe ⟨some 1, none, some 3, true, true⟩, .trigger ⟨.input, 0⟩ .inputReady])
    (.handle ⟨.input, 0⟩ .inputReady) = none := by
  decide

/-- A slave that is opened, closed, opened again and read: `dev->priv` is a buffer
that was freed. -/
theorem reopened_private_data_freed :
    ¬ ∀ (kind : DriverKind) (plat : Bool) (others : Nat → Bool) (mem : Nat → PrivData)
      (ops : List DevOp), EachStep (Device.step kind plat) (Sound kind plat) (start others mem) ops := by
  intro hall
  obtain ⟨-, -, -, ⟨⟨l, hl, hlive⟩, -⟩, -⟩ := hall .rbSlave true (fun _ => false) (fun _ => ⟨[], 0, 0, 0⟩)
    [.openPipe ⟨some 1, some 2, some 3, true, true⟩, .freePipe 0,
      .openPipe ⟨some 1, some 2, some 3, true, true⟩, .read 1]
  obtain rfl : [1, 2] = l := Option.some_inj.mp (Eq.trans (by decide +kernel) hl)
  exact absurd (hlive 1 List.mem_cons_self) (by decide +kernel)

end Bathos.Drivers
