import Bathos.Include.ListHead
import Bathos.Pipe.Lifecycle
import Bathos.Unix.Idle
import Mathlib.Data.List.Infix
import Mathlib.Data.PNat.Basic

/-!
# Bathos — unix pipes

`arch-unix/pipe.c` under `lib/pipe.c`: a pipe whose name is not that of a registered device
gets a device of its own, in memory from `malloc`, and one of the slots of `priv`.

`bathos_arch_find_dev` sets three fields of the device. `pipe_open` then tests `pipes.next`,
which is not one of them, to see whether the list of the device is still to be initialised:
what `malloc` returned decides. And the slot is reserved before all that can fail; only an
`open` that returns `-1` frees it, because `-1` is also the mark of a free slot.

The queue of an asynchronous pipe is initialised through `pipe->dev_data`, which nothing sets
for these pipes: it is what the allocator's buffer held before.

Main results:

* `openPipe_cases` — what `pipe_open` does;
* `pipes_iff` — the runs in which every device has its pipes in its list, and every slot that
  is not in use is free.
-/

namespace Bathos.Unix

open Bathos.Lib
open Bathos.Pipe (Event BATHOS_MODE_INPUT)

-- ---------------------------------------------------------------------------
-- State
-- ---------------------------------------------------------------------------

def BATHOS_MODE_INPUT_OUTPUT : Nat := BATHOS_MODE_INPUT ||| BATHOS_MODE_OUTPUT

def BATHOS_MODE_ASYNC : Nat := 4

def BATHOS_UNIX_FREE_FD : Int := -1

def BATHOS_UNIX_RESERVED_FD : Int := -2

def MAX_BATHOS_PIPES : Nat := 32

/-- What a pointer to a `struct list_head` points to: nothing, the list of a device, the link
of a pipe, or other memory. -/
inductive Ptr where
  | null
  | head (dev : Nat)
  | link (pipe : Nat)
  | other (addr : Nat)
deriving DecidableEq, Repr

/-- `struct arch_unix_pipe_data`. -/
structure ArchPipeData where
  fd : Int
  pipe : Option Nat
deriving DecidableEq, Repr

/-- `struct bathos_dev`, but for its list. -/
structure BathosDev where
  name : List UInt8
  archPriv : Nat
deriving DecidableEq, Repr

/-- `struct bathos_pipe`, but for its link; `devData` is the address in `dev_data`. -/
structure PipeData where
  n : List UInt8
  mode : Nat
  dev : Option Nat
  devData : Nat
deriving DecidableEq, Repr

/-- Memory for a device: its address, and what is in it where `pipes` will be. -/
structure Chunk where
  addr : Nat
  next : Ptr
  prev : Ptr
deriving DecidableEq, Repr

/-- What the system answers while a pipe is opened: the result of `open`, the value `errno`
has if there is no such call, whether there is memory for the buffers of an asynchronous pipe,
and what is in the variable `ret` of `unix_async_open` before it is set. -/
structure Answers where
  opened : Except ℕ+ Nat
  errno : Nat
  bufferArea : Bool
  ret : Int

/-- `CONFIG_PIPE_ASYNC_INTERFACE`, how many events the queue holds, the bits of a pointer and of
a `long`, and the place of `bqueue` in a `struct bathos_dev_data`. -/
structure PipeConfig where
  async : Bool
  capacity : Nat
  word : Nat
  offBqueue : Nat

/-- The slots, the devices in memory from `malloc`, the pipes, numbered in the order of their
allocation, the pointers of all lists, and the event queue. -/
structure Pipes where
  priv : Nat → ArchPipeData
  heap : List Nat
  devs : Nat → BathosDev
  next : Nat
  pipes : Nat → PipeData
  links : Links Ptr
  events : List Event
  errno : Int

-- ---------------------------------------------------------------------------
-- Descriptors
-- ---------------------------------------------------------------------------

def isSpace (c : UInt8) : Bool := c = 32 ∨ 9 ≤ c ∧ c ≤ 13

def isDigit (c : UInt8) : Bool := 48 ≤ c ∧ c ≤ 57

/-- The number a string starts with. -/
def digits (s : List UInt8) : Nat :=
  (s.takeWhile isDigit).foldl (fun v c => 10 * v + (c.toNat - 48)) 0

/-- The number a string stands for, after blanks and with a sign. -/
def number (s : List UInt8) : Int :=
  match s.dropWhile isSpace with
  | [] => 0
  | c :: cs => if c = 45 then -(digits cs : Int) else if c = 43 then digits cs else digits (c :: cs)

/-- A number that is not a `long`. -/
def OutOfRange (w : Nat) (v : Int) : Prop := v < -2 ^ (w - 1) ∨ 2 ^ (w - 1) ≤ v

instance (w : Nat) (v : Int) : Decidable (OutOfRange w v) := inferInstanceAs (Decidable (_ ∨ _))

/-- `strtol(s, NULL, 10)` for a `long` of `w` bits. -/
def strtol (w : Nat) (s : List UInt8) : Int := max (-2 ^ (w - 1)) (min (number s) (2 ^ (w - 1) - 1))

/-- `atoi`: the `long`, converted to an `int`. -/
def atoi (w : Nat) (s : List UInt8) : Int := Int.bmod (strtol w s) (2 ^ 32)

/-- `"4294967294"` is the mark of a reserved slot. -/
example : atoi 64 [52, 50, 57, 52, 57, 54, 55, 50, 57, 52] = BATHOS_UNIX_RESERVED_FD := by
  decide +kernel

/-- `ERANGE` of the system. -/
def ERANGE : Nat := 34

/-- `"fd:"`. -/
def fdTag : List UInt8 := [102, 100, 58]

/-- `strstr(name, "fd:")`: the pipe is for a descriptor that is open already. -/
def NamesFd (name : List UInt8) : Prop := fdTag <:+: name

instance : DecidablePred NamesFd := fun name => inferInstanceAs (Decidable (fdTag <:+: name))

/-- The descriptor of a pipe, and the `errno` after it was found. -/
def descriptor (cfg : PipeConfig) (name : List UInt8) (os : Answers) : Int × Nat :=
  if NamesFd name then
    let s := (name.dropWhile (· ≠ 58)).drop 1
    (atoi cfg.word s, if OutOfRange cfg.word (number s) then ERANGE else os.errno)
  else
    match os.opened with
    | .ok fd => (fd, os.errno)
    | .error e => (-1, e)

namespace Pipes

-- ---------------------------------------------------------------------------
-- arch-unix/pipe.c
-- ---------------------------------------------------------------------------

def setFd (i : Nat) (fd : Int) (s : Pipes) : Pipes :=
  { s with priv := Function.update s.priv i { s.priv i with fd := fd } }

def freeSlot? (s : Pipes) : Option Nat :=
  (List.range MAX_BATHOS_PIPES).find? fun i => decide ((s.priv i).fd = BATHOS_UNIX_FREE_FD)

/-- `__find_free_slot`. -/
def findFreeSlot (s : Pipes) : Option Nat × Pipes :=
  match s.freeSlot? with
  | none => (none, s)
  | some i => (some i, s.setFd i BATHOS_UNIX_RESERVED_FD)

/-- `__free_slot`. -/
def freeSlot (i : Nat) (s : Pipes) : Pipes := s.setFd i BATHOS_UNIX_FREE_FD

/-- `malloc`, for a chunk it would choose: none that it has given out. -/
def malloc (chunk : Option Chunk) (s : Pipes) : Option Chunk :=
  chunk.filter fun c => decide (c.addr ∉ s.heap)

/-- `bathos_arch_find_dev(p)`, once it has a slot and memory. -/
def newDev (p i : Nat) (c : Chunk) (s : Pipes) : Pipes :=
  { s with
    priv := Function.update s.priv i { s.priv i with pipe := some p }
    heap := c.addr :: s.heap
    devs := Function.update s.devs c.addr { name := (s.pipes p).n, archPriv := i }
    links :=
      { next := Function.update s.links.next (.head c.addr) c.next
        prev := Function.update s.links.prev (.head c.addr) c.prev } }

/-- `bathos_arch_find_dev(p)`. -/
def archFindDev (p : Nat) (chunk : Option Chunk) (s : Pipes) : Option Nat × Pipes :=
  match s.findFreeSlot with
  | (none, s) => (none, s)
  | (some i, s) =>
    match s.malloc chunk with
    | none => (none, s)
    | some c => (some c.addr, s.newDev p i c)

/-- `bathos_dev_get_bqueue(pipe)`: the address of the queue in what `dev_data` points to. -/
def devGetBqueue (cfg : PipeConfig) (p : Nat) (s : Pipes) : Nat :=
  ((s.pipes p).devData + cfg.offBqueue) % 2 ^ cfg.word

/-- `unix_async_open(pipe)`; `none` when `bathos_bqueue_server_init` writes to the queue, since
nothing has put one there. -/
def unixAsyncOpen (cfg : PipeConfig) (os : Answers) (p : Nat) (s : Pipes) : Option Int :=
  if !cfg.async then some (-EINVAL)
  else
    let q := s.devGetBqueue cfg p
    if !os.bufferArea then some (-ENOMEM)
    else if q ≠ 0 then none
    else some os.ret

/-- `unix_open(pipe)`; `arch_priv` is never `NULL`. -/
def unixOpen (cfg : PipeConfig) (os : Answers) (p : Nat) (s : Pipes) : Option Int × Pipes :=
  if (s.pipes p).mode &&& BATHOS_MODE_INPUT_OUTPUT = 0 then (some (-EPERM), s)
  else
    match (s.pipes p).dev with
    | none => (some (-EINVAL), s)
    | some d =>
      let fd := descriptor cfg (s.devs d).name os
      let s := s.setFd (s.devs d).archPriv fd.1
      if fd.1 < 0 then (some (-fd.2), s)
      else if (s.pipes p).mode &&& BATHOS_MODE_ASYNC ≠ 0 then (s.unixAsyncOpen cfg os p, s)
      else (some 0, s)

/-- `unix_close(pipe)`. -/
def unixClose (p : Nat) (s : Pipes) : Int × Pipes :=
  match (s.pipes p).dev with
  | none => (-ENODEV, s)
  | some d => (0, { s.freeSlot (s.devs d).archPriv with heap := s.heap.erase d })

-- ---------------------------------------------------------------------------
-- lib/pipe.c
-- ---------------------------------------------------------------------------

/-- `trigger_event`; its callers here ignore a full queue. -/
def triggerEvent (cfg : PipeConfig) (e : Event) (s : Pipes) : Pipes :=
  if s.events.length < cfg.capacity then { s with events := s.events ++ [e] } else s

def setDev (p : Nat) (dev : Option Nat) (s : Pipes) : Pipes :=
  { s with pipes := Function.update s.pipes p { s.pipes p with dev := dev } }

/-- `__find_free_pipe`, when the allocator has a buffer, with `old` where `dev_data` is, and the
fields set from the arguments of `pipe_open`. -/
def newPipe (n : List UInt8) (mode old : Nat) (s : Pipes) : Pipes :=
  { s with
    next := s.next + 1
    pipes := Function.update s.pipes s.next { n := n, mode := mode, dev := none, devData := old } }

/-- The list of a device is initialised if it does not seem to be. -/
def initList (d : Nat) (s : Pipes) : Pipes :=
  if s.links.next (.head d) = .null then { s with links := initListHead (.head d) s.links } else s

/-- `pipe_open(n, mode, data)` for a name that no registered device has; `none` when it writes
through a pointer that was never set. `buffer` is the allocator's buffer, if it has one, with
what is in it where `dev_data` will be. -/
def pipeOpen (cfg : PipeConfig) (n : List UInt8) (mode : Nat) (buffer : Option Nat)
    (chunk : Option Chunk) (os : Answers) (s : Pipes) : Option (Option Nat × Pipes) :=
  if mode = 0 then some (none, { s with errno := EINVAL })
  else
    match buffer with
    | none => some (none, { s with errno := ENFILE })
    | some old =>
      let out := s.next
      match (s.newPipe n mode old).archFindDev out chunk with
      | (none, s) => some (none, { s.setDev out none with errno := ENXIO })
      | (some d, s) =>
        match ((s.setDev out (some d)).initList d).unixOpen cfg os out with
        | (none, _) => none
        | (some stat, s) =>
          if stat ≠ 0 then some (none, { s.setDev out none with errno := stat })
          else
            let s := { s with links := listAdd (.link out) (.head d) s.links }
            let e := if mode &&& BATHOS_MODE_INPUT ≠ 0 then .inputPipeOpened out
              else .outputPipeOpened out
            some (some out, s.triggerEvent cfg e)

/-- `pipe_close(pipe)`. -/
def pipeClose (cfg : PipeConfig) (p : Nat) (s : Pipes) : Int × Pipes :=
  match (s.pipes p).dev with
  | none => (-1, { s with errno := EBADF })
  | some _ =>
    let e := if (s.pipes p).mode &&& BATHOS_MODE_INPUT ≠ 0 then .inputPipeClosed p
      else .outputPipeClosed p
    (0, (s.triggerEvent cfg e).triggerEvent cfg (.pipeReallyClosed p))

/-- `list_del_init(&p->list)`. -/
def listDelInit (p : Nat) (s : Pipes) : Pipes :=
  { s with links := initListHead (.link p) (listDelEntry (.link p) s.links) }

/-- `do_free_pipe`; `none` when it follows the `NULL` pointer of a pipe without device. -/
def doFreePipe (p : Nat) (s : Pipes) : Option Pipes :=
  match (s.pipes p).dev with
  | none => none
  | some d =>
    let s := s.listDelInit p
    let s := if listEmpty (.head d) s.links then (s.unixClose p).2 else s
    some (s.setDev p none)

end Pipes

-- ---------------------------------------------------------------------------
-- Runs
-- ---------------------------------------------------------------------------

/-- Calls of `pipe_open` and `pipe_close`, other events being triggered, the handling of the
next event, and a driver that takes a slot or returns one. -/
inductive PipeOp where
  | open (n : List UInt8) (mode : Nat) (buffer : Option Nat) (chunk : Option Chunk) (os : Answers)
  | close (p : Nat)
  | trigger
  | handle
  | getSlot
  | putSlot (i : Nat)

/-- The pipes and their history: the open pipes, the last one first, the slots of drivers, and
whether a pointer was followed that is `NULL` or was never set. A pipe is open until its
`pipe_really_closed` event is handled, or until it is closed without there being one. -/
structure PipeSystem where
  st : Pipes
  opened : List Nat
  taken : List Nat
  faulted : Bool

namespace PipeSystem

/-- No pipe was ever opened. -/
def start (links : Links Ptr) : PipeSystem where
  st :=
    { priv := fun _ => ⟨BATHOS_UNIX_FREE_FD, none⟩, heap := [], devs := fun _ => ⟨[], 0⟩, next := 0,
      pipes := fun _ => ⟨[], 0, none, 0⟩, links := links, events := [], errno := 0 }
  opened := []
  taken := []
  faulted := false

/-- `pipe_close(p)`. -/
def close (cfg : PipeConfig) (p : Nat) (s : PipeSystem) : PipeSystem :=
  let st := (s.st.pipeClose cfg p).2
  { s with
    st := st
    opened := if .pipeReallyClosed p ∈ st.events then s.opened else s.opened.erase p }

/-- The handling of the event at the head of the queue. -/
def handle (s : PipeSystem) : PipeSystem :=
  match s.st.events with
  | [] => s
  | .pipeReallyClosed p :: es =>
    match { s.st with events := es }.doFreePipe p with
    | some st => { s with st := st, opened := s.opened.erase p }
    | none => { s with faulted := true }
  | _ :: es => { s with st := { s.st with events := es } }

/-- `unix_get_pipe_arch_data`. -/
def getSlot (s : PipeSystem) : PipeSystem :=
  { s with st := s.st.findFreeSlot.2, taken := s.st.findFreeSlot.1.toList ++ s.taken }

/-- `unix_free_pipe_arch_data`, by a driver that has the slot. -/
def putSlot (i : Nat) (s : PipeSystem) : PipeSystem :=
  if i ∈ s.taken then { s with st := s.st.freeSlot i, taken := s.taken.erase i } else s

def step (cfg : PipeConfig) (s : PipeSystem) : PipeOp → PipeSystem
  | .open n mode buffer chunk os =>
    match s.st.pipeOpen cfg n mode buffer chunk os with
    | some (out, st) => { s with st := st, opened := out.toList ++ s.opened }
    | none => { s with faulted := true }
  | .close p => s.close cfg p
  | .trigger => { s with st := s.st.triggerEvent cfg .other }
  | .handle => s.handle
  | .getSlot => s.getSlot
  | .putSlot i => s.putSlot i

-- ---------------------------------------------------------------------------
-- Statement
-- ---------------------------------------------------------------------------

/-- The open pipes of a device. -/
def pipesOf (s : PipeSystem) (d : Nat) : List Nat :=
  s.opened.filter fun p => decide ((s.st.pipes p).dev = some d)

/-- A slot is in use by an open pipe or by a driver. -/
def InUse (s : PipeSystem) (i : Nat) : Prop :=
  (∃ p ∈ s.opened, ∃ d, (s.st.pipes p).dev = some d ∧ (s.st.devs d).archPriv = i) ∨ i ∈ s.taken

/-- Every open pipe has a device, every device has its open pipes in its list, and the slots
not in use are free. -/
structure Sound (s : PipeSystem) : Prop where
  ok : s.faulted = false
  device : ∀ p ∈ s.opened, ∃ d ∈ s.st.heap, (s.st.pipes p).dev = some d
  list : ∀ d ∈ s.st.heap, s.st.links.Ring (.head d) ((s.pipesOf d).map .link)
  slot : ∀ i < MAX_BATHOS_PIPES, ¬ s.InUse i → (s.st.priv i).fd = BATHOS_UNIX_FREE_FD

end PipeSystem

/-- An asynchronous open that gets its descriptor and memory for its buffers. -/
def ReachesQueue (cfg : PipeConfig) (n : List UInt8) (mode : Nat) (os : Answers) : Prop :=
  mode &&& BATHOS_MODE_INPUT_OUTPUT ≠ 0 ∧ 0 ≤ (descriptor cfg n os).1 ∧
    mode &&& BATHOS_MODE_ASYNC ≠ 0 ∧ cfg.async = true ∧ os.bufferArea = true

/-- The queue that `dev_data` leads to is `NULL`, so that it is not initialised. -/
def NoQueue (cfg : PipeConfig) (old : Nat) : Prop := (old + cfg.offBqueue) % 2 ^ cfg.word = 0

/-- The pipe is opened: it has a mode, and a descriptor, unless `errno` is zero without one. An
asynchronous pipe is opened if there is no queue to be initialised and `ret` is zero. -/
def Opens (cfg : PipeConfig) (n : List UInt8) (mode old : Nat) (os : Answers) : Prop :=
  mode &&& BATHOS_MODE_INPUT_OUTPUT ≠ 0 ∧
    if (descriptor cfg n os).1 < 0 then (descriptor cfg n os).2 = 0
    else mode &&& BATHOS_MODE_ASYNC ≠ 0 →
      cfg.async = true ∧ os.bufferArea = true ∧ NoQueue cfg old ∧ os.ret = 0

/-- What `malloc` returned looks like a list that is not initialised, or like one without nodes.
If a pipe is added to it, `prev` does not matter. -/
structure Chunk.Blank (c : Chunk) (added : Prop) : Prop where
  next : c.next = .null ∨ c.next = .head c.addr
  prev : c.next = .null ∨ c.prev = .head c.addr ∨ added

namespace PipeSystem

/-- An open that has a slot gets memory that looks like a list without nodes, initialises no
queue through `dev_data`, and does not keep the slot if it fails. -/
def OpenOk (cfg : PipeConfig) (s : PipeSystem) (n : List UInt8) (mode old : Nat)
    (chunk : Option Chunk) (os : Answers) (i : Nat) : Prop :=
  match s.st.malloc chunk with
  | none => s.InUse i
  | some c => (ReachesQueue cfg n mode os → NoQueue cfg old) ∧
      c.Blank (Opens cfg n mode old os) ∧
      (Opens cfg n mode old os ∨ s.InUse i ∨
        mode &&& BATHOS_MODE_INPUT_OUTPUT ≠ 0 ∧ (descriptor cfg n os).1 = BATHOS_UNIX_FREE_FD)

/-- Opens as above, closes whose event is queued, and events of pipes that are not closed yet. -/
def Good (cfg : PipeConfig) (s : PipeSystem) : PipeOp → Prop
  | .open n mode buffer chunk os =>
    mode ≠ 0 → ∀ old, buffer = some old → ∀ i, s.st.freeSlot? = some i →
      s.OpenOk cfg n mode old chunk os i
  | .close p =>
    (s.st.pipes p).dev = none ∨ .pipeReallyClosed p ∈ s.st.events ∨
      s.st.events.length + 2 ≤ cfg.capacity
  | .handle => ∀ p, s.st.events.head? = some (.pipeReallyClosed p) → (s.st.pipes p).dev ≠ none
  | _ => True

end PipeSystem

-- ---------------------------------------------------------------------------
-- What pipe_open does
-- ---------------------------------------------------------------------------

namespace Pipes

variable {cfg : PipeConfig} {s : Pipes} {n : List UInt8} {mode old : Nat} {os : Answers}
  {c : Chunk} {i : Nat}

/-- The list of a device as `pipe_open` finds it, and what it makes of it. -/
def newLinks (c : Chunk) (s : Pipes) : Links Ptr :=
  let l : Links Ptr :=
    { next := Function.update s.links.next (.head c.addr) c.next
      prev := Function.update s.links.prev (.head c.addr) c.prev }
  if c.next = .null then initListHead (.head c.addr) l else l

/-- The descriptor in the slot after `unix_open`. -/
def slotFd (cfg : PipeConfig) (n : List UInt8) (mode : Nat) (os : Answers) : Int :=
  if mode &&& BATHOS_MODE_INPUT_OUTPUT = 0 then BATHOS_UNIX_RESERVED_FD
  else (descriptor cfg n os).1

/-- A pipe, its device and its slot after `unix_open`. -/
def withDev (cfg : PipeConfig) (n : List UInt8) (mode old : Nat) (os : Answers) (i : Nat)
    (c : Chunk) (dev : Option Nat) (s : Pipes) : Pipes :=
  { s with
    priv := Function.update s.priv i { fd := slotFd cfg n mode os, pipe := some s.next }
    heap := c.addr :: s.heap
    devs := Function.update s.devs c.addr { name := n, archPriv := i }
    next := s.next + 1
    pipes := Function.update s.pipes s.next { n := n, mode := mode, dev := dev, devData := old }
    links := s.newLinks c }

theorem freeSlot?_lt (h : s.freeSlot? = some i) : i < MAX_BATHOS_PIPES :=
  List.mem_range.mp (List.mem_of_find?_eq_some h)

/-- The result of `unix_open`. -/
def openStat (cfg : PipeConfig) (n : List UInt8) (mode old : Nat) (os : Answers) : Option Int :=
  if mode &&& BATHOS_MODE_INPUT_OUTPUT = 0 then some (-EPERM)
  else if (descriptor cfg n os).1 < 0 then some (-(descriptor cfg n os).2)
  else if mode &&& BATHOS_MODE_ASYNC ≠ 0 then
    if !cfg.async then some (-EINVAL)
    else if !os.bufferArea then some (-ENOMEM)
    else if (old + cfg.offBqueue) % 2 ^ cfg.word ≠ 0 then none
    else some os.ret
  else some 0

/-- `unix_open` writes to a queue exactly if it comes to one. -/
theorem openStat_eq_none_iff :
    openStat cfg n mode old os = none ↔ ReachesQueue cfg n mode os ∧ ¬ NoQueue cfg old := by
  unfold openStat ReachesQueue NoQueue
  by_cases hmode : mode &&& BATHOS_MODE_INPUT_OUTPUT = 0
  · simp [hmode]
  by_cases hfd : (descriptor cfg n os).1 < 0
  · simp [hmode, hfd]
  by_cases hasync : mode &&& BATHOS_MODE_ASYNC = 0
  · simp [hmode, hfd, hasync]
  · cases hcfg : cfg.async <;> cases harea : os.bufferArea <;>
      simp [hmode, hfd, hasync, Int.not_lt.mp hfd]

theorem openStat_eq_zero_iff :
    openStat cfg n mode old os = some 0 ↔ Opens cfg n mode old os := by
  unfold openStat Opens NoQueue
  by_cases hmode : mode &&& BATHOS_MODE_INPUT_OUTPUT = 0
  · rw [if_pos hmode]
    exact iff_of_false (by decide) fun h => h.1 hmode
  rw [if_neg hmode, and_iff_right hmode]
  by_cases hfd : (descriptor cfg n os).1 < 0
  · rw [if_pos hfd, if_pos hfd, Option.some_inj]
    omega
  rw [if_neg hfd, if_neg hfd]
  by_cases hasync : mode &&& BATHOS_MODE_ASYNC = 0
  · simp [hasync]
  · rw [if_pos hasync, imp_iff_right hasync]
    have heinval : -EINVAL ≠ 0 := by decide
    have henomem : -ENOMEM ≠ 0 := by decide
    cases hcfg : cfg.async <;> cases harea : os.bufferArea <;> simp [heinval, henomem]

/-- The device and the slot `pipe_open` hands to `unix_open`, and what this makes of them. -/
theorem unixOpen_newDev :
    ((((((s.newPipe n mode old).setFd i BATHOS_UNIX_RESERVED_FD).newDev s.next i c).setDev s.next
        (some c.addr)).initList c.addr).unixOpen cfg os s.next) =
      (openStat cfg n mode old os, s.withDev cfg n mode old os i c (some c.addr)) := by
  have hlinks : ∀ t : Pipes, (t.initList c.addr) =
      { t with links := if t.links.next (.head c.addr) = .null
          then initListHead (.head c.addr) t.links else t.links } := by
    intro t
    unfold initList
    split <;> rfl
  rw [hlinks]
  unfold unixOpen unixAsyncOpen devGetBqueue openStat withDev slotFd newLinks
  simp only [newDev, setDev, setFd, newPipe, Function.update_self, Function.update_idem]
  by_cases hmode : mode &&& BATHOS_MODE_INPUT_OUTPUT = 0
  · simp only [hmode, if_true]
  · simp only [hmode, if_false]
    split_ifs <;> rfl

/-- What `pipe_open` does: it is refused, gets no memory for the device, writes to a queue that
is not there, fails, or succeeds. -/
theorem openPipe_cases (cfg : PipeConfig) (n : List UInt8) (mode : Nat) (buffer : Option Nat)
    (chunk : Option Chunk) (os : Answers) (s : Pipes) :
    ((mode = 0 ∨ buffer = none) ∧ ∃ e, s.pipeOpen cfg n mode buffer chunk os =
        some (none, { s with errno := e })) ∨
      ∃ old, mode ≠ 0 ∧ buffer = some old ∧ ((s.freeSlot? = none ∧ ∃ e,
        s.pipeOpen cfg n mode buffer chunk os =
          some (none, { s.newPipe n mode old with errno := e })) ∨
      ∃ i, s.freeSlot? = some i ∧ ((s.malloc chunk = none ∧ ∃ e,
        s.pipeOpen cfg n mode buffer chunk os = some
          (none, { (s.newPipe n mode old).setFd i BATHOS_UNIX_RESERVED_FD with errno := e })) ∨
      ∃ c, s.malloc chunk = some c ∧
      ((ReachesQueue cfg n mode os ∧ ¬ NoQueue cfg old ∧
        s.pipeOpen cfg n mode buffer chunk os = none) ∨
      (ReachesQueue cfg n mode os → NoQueue cfg old) ∧
      ((¬ Opens cfg n mode old os ∧ ∃ e, s.pipeOpen cfg n mode buffer chunk os =
          some (none, { s.withDev cfg n mode old os i c none with errno := e })) ∨
      (Opens cfg n mode old os ∧ ∃ e, (∀ p, e ≠ .pipeReallyClosed p) ∧
        s.pipeOpen cfg n mode buffer chunk os = some (some s.next, triggerEvent cfg e
          { s.withDev cfg n mode old os i c (some c.addr) with
            links := listAdd (.link s.next) (.head c.addr) (s.newLinks c) })))))) := by
  unfold pipeOpen
  by_cases hmode : mode = 0
  · exact .inl ⟨.inl hmode, EINVAL, by rw [if_pos hmode]⟩
  rw [if_neg hmode]
  cases buffer with
  | none => exact .inl ⟨.inr rfl, ENFILE, rfl⟩
  | some old =>
    refine .inr ⟨old, hmode, rfl, ?_⟩
    have hfree : (s.newPipe n mode old).freeSlot? = s.freeSlot? := rfl
    simp only [archFindDev, findFreeSlot, hfree]
    cases hslot : s.freeSlot? with
    | none =>
      refine .inl ⟨rfl, ENXIO, ?_⟩
      simp only [setDev, newPipe, Function.update_self, Function.update_idem]
    | some i =>
      refine .inr ⟨i, rfl, ?_⟩
      have hmalloc : ((s.newPipe n mode old).setFd i BATHOS_UNIX_RESERVED_FD).malloc chunk =
          s.malloc chunk := rfl
      simp only [hmalloc]
      cases hchunk : s.malloc chunk with
      | none =>
        refine .inl ⟨rfl, ENXIO, ?_⟩
        simp only [setDev, setFd, newPipe, Function.update_self, Function.update_idem]
      | some c =>
        refine .inr ⟨c, rfl, ?_⟩
        simp only [unixOpen_newDev]
        cases hstat : openStat cfg n mode old os with
        | none =>
          obtain ⟨hreach, hqueue⟩ := openStat_eq_none_iff.mp hstat
          exact .inl ⟨hreach, hqueue, rfl⟩
        | some stat =>
          have hnone : openStat cfg n mode old os ≠ none := hstat ▸ Option.some_ne_none stat
          refine .inr ⟨fun hreach => of_not_not fun hqueue =>
            hnone (openStat_eq_none_iff.mpr ⟨hreach, hqueue⟩), ?_⟩
          have hopens : stat = 0 ↔ Opens cfg n mode old os := by
            rw [← openStat_eq_zero_iff, hstat, Option.some_inj]
          by_cases hzero : stat = 0
          · refine .inr ⟨hopens.mp hzero, if mode &&& BATHOS_MODE_INPUT ≠ 0 then
              .inputPipeOpened s.next else .outputPipeOpened s.next, fun p => ?_, ?_⟩
            · split <;> simp
            · simp only [if_neg (not_not.mpr hzero)]
              rfl
          · refine .inl ⟨hopens.not.mp hzero, stat, ?_⟩
            simp only [ne_eq, hzero, not_false_eq_true, if_true, setDev, withDev,
              Function.update_self, Function.update_idem]

theorem triggerEvent_eq (cfg : PipeConfig) (e : Event) (s : Pipes) :
    ∃ events, s.triggerEvent cfg e = { s with events := events } := by
  unfold triggerEvent
  split_ifs
  · exact ⟨_, rfl⟩
  · exact ⟨s.events, rfl⟩

/-- `pipe_close` only touches the queue and the error number. -/
theorem pipeClose_eq (cfg : PipeConfig) (p : Nat) (s : Pipes) :
    ∃ events errno, (s.pipeClose cfg p).2 = { s with events := events, errno := errno } := by
  unfold pipeClose
  cases (s.pipes p).dev with
  | none => exact ⟨s.events, EBADF, rfl⟩
  | some d =>
    obtain ⟨es, hes⟩ := triggerEvent_eq cfg
      (if (s.pipes p).mode &&& BATHOS_MODE_INPUT ≠ 0 then .inputPipeClosed p
        else .outputPipeClosed p) s
    obtain ⟨es', hes'⟩ := triggerEvent_eq cfg (.pipeReallyClosed p) { s with events := es }
    refine ⟨es', s.errno, ?_⟩
    simp only [hes, hes']

/-- The event that really closes a pipe waits after `pipe_close` if it did before, or if there
was room for both events. -/
theorem pipeClose_pending_iff {p d : Nat} (hdev : (s.pipes p).dev = some d) :
    .pipeReallyClosed p ∈ (s.pipeClose cfg p).2.events ↔
      .pipeReallyClosed p ∈ s.events ∨ s.events.length + 2 ≤ cfg.capacity := by
  unfold pipeClose
  simp only [hdev]
  unfold triggerEvent
  have hother : ∀ c : Prop, [Decidable c] → .pipeReallyClosed p ∈ s.events ++
      [if c then Event.inputPipeClosed p else .outputPipeClosed p] ↔
        .pipeReallyClosed p ∈ s.events := by
    intro c _
    split_ifs <;> simp
  by_cases hfirst : s.events.length < cfg.capacity
  · rw [if_pos hfirst]
    by_cases hsecond : s.events.length + 2 ≤ cfg.capacity
    · rw [if_pos (by simp only [List.length_append, List.length_singleton]; omega)]
      exact iff_of_true (List.mem_append_right _ List.mem_cons_self) (.inr hsecond)
    · rw [if_neg (by simp only [List.length_append, List.length_singleton]; omega)]
      rw [or_iff_left hsecond]
      exact hother _
  · rw [if_neg hfirst, if_neg hfirst, or_iff_left (by omega)]

-- ---------------------------------------------------------------------------
-- The list of a new device
-- ---------------------------------------------------------------------------

theorem newLinks_of_ne {a : Ptr} (ha : a ≠ .head c.addr) :
    (s.newLinks c).next a = s.links.next a ∧ (s.newLinks c).prev a = s.links.prev a := by
  unfold newLinks
  simp only
  split_ifs
  · exact ⟨(Function.update_of_ne ha ..).trans (Function.update_of_ne ha ..),
      (Function.update_of_ne ha ..).trans (Function.update_of_ne ha ..)⟩
  · exact ⟨Function.update_of_ne ha .., Function.update_of_ne ha ..⟩

theorem newLinks_next_iff :
    (s.newLinks c).next (.head c.addr) = .head c.addr ↔ c.next = .null ∨ c.next = .head c.addr := by
  unfold newLinks
  simp only
  split_ifs with hnull
  · exact iff_of_true (Function.update_self ..) (.inl hnull)
  · rw [or_iff_right hnull]
    show Function.update _ _ _ _ = _ ↔ _
    rw [Function.update_self]

theorem newLinks_prev_iff :
    (s.newLinks c).prev (.head c.addr) = .head c.addr ↔ c.next = .null ∨ c.prev = .head c.addr := by
  unfold newLinks
  simp only
  split_ifs with hnull
  · exact iff_of_true (Function.update_self ..) (.inl hnull)
  · rw [or_iff_right hnull]
    show Function.update _ _ _ _ = _ ↔ _
    rw [Function.update_self]

/-- The list of a device no pipe could be opened on. -/
theorem newLinks_ring_nil_iff {added : Prop} (hadded : ¬ added) :
    (s.newLinks c).Ring (.head c.addr) [] ↔ c.Blank added := by
  rw [Links.ring_nil_iff, newLinks_next_iff, newLinks_prev_iff]
  constructor
  · rintro ⟨hnext, hprev⟩
    exact ⟨hnext, hprev.imp_right .inl⟩
  · rintro ⟨hnext, hprev⟩
    exact ⟨hnext, hprev.imp_right fun h => h.resolve_right hadded⟩

/-- The list of a device with its first pipe. -/
theorem newLinks_ring_singleton_iff {p : Nat} {added : Prop} (hadded : added) :
    (listAdd (.link p) (.head c.addr) (s.newLinks c)).Ring (.head c.addr) [.link p] ↔
      c.Blank added := by
  unfold listAdd
  rw [listAddAt_eq, Links.ring_insert_singleton_iff (by simp), newLinks_next_iff]
  exact ⟨fun h => ⟨h, .inr (.inr hadded)⟩, fun h => h.next⟩

end Pipes

-- ---------------------------------------------------------------------------
-- The invariant
-- ---------------------------------------------------------------------------

namespace PipeSystem

/-- A device is that of one pipe, which is open. -/
structure Inv (s : PipeSystem) : Prop extends Sound s where
  dev_opened : ∀ p d, (s.st.pipes p).dev = some d → p ∈ s.opened
  dev_inj : ∀ p q d, (s.st.pipes p).dev = some d → (s.st.pipes q).dev = some d → p = q
  opened_lt : ∀ p ∈ s.opened, p < s.st.next
  opened_nodup : s.opened.Nodup
  heap_nodup : s.st.heap.Nodup

variable {s s' : PipeSystem} {p d : Nat}

theorem Inv.dev_mem (h : Inv s) (hd : (s.st.pipes p).dev = some d) : d ∈ s.st.heap := by
  obtain ⟨d', hmem, hd'⟩ := h.device p (h.dev_opened p d hd)
  rw [hd] at hd'
  exact Option.some.inj hd' ▸ hmem

theorem Inv.dev_next (h : Inv s) : (s.st.pipes s.st.next).dev = none := by
  by_contra hsome
  obtain ⟨d, hd⟩ := Option.ne_none_iff_exists'.mp hsome
  exact Nat.lt_irrefl _ (h.opened_lt _ (h.dev_opened _ d hd))

theorem mem_pipesOf : p ∈ s.pipesOf d ↔ p ∈ s.opened ∧ (s.st.pipes p).dev = some d := by
  unfold pipesOf
  rw [List.mem_filter, decide_eq_true_iff]

/-- A device has one pipe. -/
theorem Inv.pipesOf_eq (h : Inv s) (hd : (s.st.pipes p).dev = some d) : s.pipesOf d = [p] := by
  refine List.perm_singleton.mp ((List.perm_ext_iff_of_nodup (h.opened_nodup.filter _)
    (List.nodup_singleton p)).mpr fun q => ?_)
  rw [List.mem_singleton]
  constructor
  · exact fun hq => h.dev_inj q p d (mem_pipesOf.mp hq).2 hd
  · rintro rfl
    exact mem_pipesOf.mpr ⟨h.dev_opened q d hd, hd⟩

/-- A device that `malloc` can return is that of no pipe. -/
theorem Inv.pipesOf_fresh (h : Inv s) (hd : d ∉ s.st.heap) : s.pipesOf d = [] := by
  refine List.eq_nil_iff_forall_not_mem.mpr fun q hq => hd (h.dev_mem (mem_pipesOf.mp hq).2)

theorem head_notMem_nodes {d' : Nat} (hne : d' ≠ d) :
    Ptr.head d' ∉ Ptr.head d :: (s.pipesOf d).map .link := by
  intro hmem
  rcases List.mem_cons.mp hmem with heq | hmem
  · exact hne (Ptr.head.inj heq)
  · obtain ⟨q, -, hq⟩ := List.mem_map.mp hmem
    cases hq

theorem link_mem_nodes :
    Ptr.link p ∈ Ptr.head d :: (s.pipesOf d).map .link ↔ p ∈ s.pipesOf d := by
  rw [List.mem_cons, or_iff_right (by simp), List.mem_map]
  constructor
  · rintro ⟨q, hq, heq⟩
    exact Ptr.link.inj heq ▸ hq
  · exact fun hp => ⟨p, hp, rfl⟩

theorem pipesOf_congr (hopened : s'.opened = s.opened)
    (hdev : ∀ q ∈ s.opened, (s'.st.pipes q).dev = (s.st.pipes q).dev) :
    s'.pipesOf d = s.pipesOf d := by
  unfold pipesOf
  rw [hopened]
  exact List.filter_congr fun q hq => by rw [hdev q hq]

/-- What leaves the devices and their pipes alone. -/
theorem Inv.frame (h : Inv s) (hok : s'.faulted = s.faulted) (hopened : s'.opened = s.opened)
    (hdev : ∀ q, (s'.st.pipes q).dev = (s.st.pipes q).dev) (hheap : s'.st.heap = s.st.heap)
    (hlinks : s'.st.links = s.st.links) (hnext : s.st.next ≤ s'.st.next)
    (hslot : ∀ i < MAX_BATHOS_PIPES, ¬ s'.InUse i → (s'.st.priv i).fd = BATHOS_UNIX_FREE_FD) :
    Inv s' where
  ok := hok.trans h.ok
  device q hq := by
    rw [hdev, hheap]
    exact h.device q (hopened ▸ hq)
  list d hd := by
    rw [pipesOf_congr hopened fun q _ => hdev q, hlinks]
    exact h.list d (hheap ▸ hd)
  slot := hslot
  dev_opened q d hq := hopened ▸ h.dev_opened q d ((hdev q).symm.trans hq)
  dev_inj q r d hq hr := h.dev_inj q r d ((hdev q).symm.trans hq) ((hdev r).symm.trans hr)
  opened_lt q hq := (h.opened_lt q (hopened ▸ hq)).trans_le hnext
  opened_nodup := hopened ▸ h.opened_nodup
  heap_nodup := hheap ▸ h.heap_nodup

theorem inUse_congr (hopened : s'.opened = s.opened)
    (hdev : ∀ q, (s'.st.pipes q).dev = (s.st.pipes q).dev) (hdevs : s'.st.devs = s.st.devs)
    (htaken : s'.taken = s.taken) (i : Nat) : s'.InUse i ↔ s.InUse i := by
  unfold InUse
  simp only [hopened, hdev, hdevs, htaken]

theorem inv_start (links : Links Ptr) : Inv (start links) where
  ok := rfl
  device := fun _ hq => nomatch hq
  list := fun _ hd => nomatch hd
  slot := fun _ _ _ => rfl
  dev_opened := fun _ _ hq => nomatch hq
  dev_inj := fun _ _ _ hq => nomatch hq
  opened_lt := fun _ hq => nomatch hq
  opened_nodup := List.nodup_nil
  heap_nodup := List.nodup_nil

-- ---------------------------------------------------------------------------
-- Steps
-- ---------------------------------------------------------------------------

variable {cfg : PipeConfig} {n : List UInt8} {mode old : Nat} {chunk : Option Chunk}
  {os : Answers} {c : Chunk} {i : Nat}

theorem Inv.events (h : Inv s) (events : List Event) (errno : Int) :
    Inv { s with st := { s.st with events := events, errno := errno } } :=
  h.frame rfl rfl (fun _ => rfl) rfl rfl le_rfl h.slot

/-- A pipe without a device. -/
theorem Inv.newPipe_dev (h : Inv s) (q : Nat) :
    ((s.st.newPipe n mode old).pipes q).dev = (s.st.pipes q).dev := by
  by_cases hq : q = s.st.next
  · subst hq
    have hnew : (s.st.newPipe n mode old).pipes s.st.next = ⟨n, mode, none, old⟩ :=
      Function.update_self ..
    rw [h.dev_next, hnew]
  · exact congrArg PipeData.dev (Function.update_of_ne hq ..)

theorem Inv.inUse_newPipe (h : Inv s) (priv : Nat → ArchPipeData) (errno : Int) (j : Nat) :
    ({ s with st := { s.st.newPipe n mode old with priv := priv, errno := errno } } :
      PipeSystem).InUse j ↔ s.InUse j := by
  apply inUse_congr
  · rfl
  · exact h.newPipe_dev
  · rfl
  · rfl

theorem Inv.newPipe (h : Inv s) {priv : Nat → ArchPipeData} (errno : Int)
    (hpriv : ∀ j < MAX_BATHOS_PIPES, ¬ s.InUse j → (priv j).fd = BATHOS_UNIX_FREE_FD) :
    Inv { s with st := { s.st.newPipe n mode old with priv := priv, errno := errno } } := by
  refine h.frame rfl rfl h.newPipe_dev rfl rfl (Nat.le_succ _) fun j hj hnot => ?_
  exact hpriv j hj ((h.inUse_newPipe priv errno j).not.mp hnot)

/-- A slot that is marked as anything but free has to be in use. -/
theorem slot_update_iff {a : ArchPipeData} (hi : i < MAX_BATHOS_PIPES)
    (hslot : ∀ j < MAX_BATHOS_PIPES, ¬ s.InUse j → (s.st.priv j).fd = BATHOS_UNIX_FREE_FD) :
    (∀ j < MAX_BATHOS_PIPES, ¬ s.InUse j →
        (Function.update s.st.priv i a j).fd = BATHOS_UNIX_FREE_FD) ↔
      s.InUse i ∨ a.fd = BATHOS_UNIX_FREE_FD := by
  constructor
  · intro h
    by_contra hnot
    rw [not_or] at hnot
    have hfd := h i hi hnot.1
    rw [Function.update_self] at hfd
    exact hnot.2 hfd
  · intro h j hj hnot
    by_cases hji : j = i
    · subst hji
      rw [Function.update_self]
      exact h.resolve_left hnot
    · rw [Function.update_of_ne hji]
      exact hslot j hj hnot

/-- The slot is reserved, and then there is no memory. -/
theorem reserved_iff (h : Inv s) (hi : i < MAX_BATHOS_PIPES) (errno : Int) :
    Sound { s with st := { (s.st.newPipe n mode old).setFd i BATHOS_UNIX_RESERVED_FD with
        errno := errno } } ↔ s.InUse i := by
  have hiff := @slot_update_iff s i { s.st.priv i with fd := BATHOS_UNIX_RESERVED_FD } hi h.slot
  rw [or_iff_left (show BATHOS_UNIX_RESERVED_FD ≠ BATHOS_UNIX_FREE_FD by decide)] at hiff
  rw [← hiff]
  constructor
  · intro hsound j hj hnot
    exact hsound.slot j hj ((h.inUse_newPipe _ errno j).not.mpr hnot)
  · exact fun hslot => (h.newPipe errno hslot).toSound

/-- A device nobody uses does not change which slots are in use. -/
theorem Inv.inUse_withDev (h : Inv s) (hc : c.addr ∉ s.st.heap) (errno : Int) (j : Nat) :
    ({ s with st := { s.st.withDev cfg n mode old os i c none with errno := errno } } :
      PipeSystem).InUse j ↔ s.InUse j := by
  refine or_congr_left (exists_congr fun q => and_congr_right fun _ => exists_congr fun d => ?_)
  have hdev : ((s.st.withDev cfg n mode old os i c none).pipes q).dev = (s.st.pipes q).dev :=
    h.newPipe_dev q
  rw [hdev]
  refine and_congr_right fun hd => ?_
  have hne : d ≠ c.addr := fun heq => hc (heq ▸ h.dev_mem hd)
  show (Function.update s.st.devs c.addr _ d).archPriv = j ↔ _
  rw [Function.update_of_ne hne]

theorem Inv.pipesOf_withDev (h : Inv s) (errno : Int) (d : Nat) :
    ({ s with st := { s.st.withDev cfg n mode old os i c none with errno := errno } } :
      PipeSystem).pipesOf d = s.pipesOf d :=
  pipesOf_congr rfl fun q _ => h.newPipe_dev q

/-- The lists of other devices. -/
theorem Inv.newLinks_ring (h : Inv s) (hc : c.addr ∉ s.st.heap) (hd : d ∈ s.st.heap) :
    (s.st.newLinks c).Ring (.head d) ((s.pipesOf d).map .link) := by
  refine (h.list d hd).congr fun a ha => Pipes.newLinks_of_ne ?_
  rintro rfl
  have hne : c.addr ≠ d := fun heq => hc (heq ▸ hd)
  exact head_notMem_nodes hne ha

theorem slotFd_eq_free_iff : Pipes.slotFd cfg n mode os = BATHOS_UNIX_FREE_FD ↔
    mode &&& BATHOS_MODE_INPUT_OUTPUT ≠ 0 ∧ (descriptor cfg n os).1 = BATHOS_UNIX_FREE_FD := by
  unfold Pipes.slotFd
  by_cases hmode : mode &&& BATHOS_MODE_INPUT_OUTPUT = 0
  · rw [if_pos hmode]
    exact iff_of_false (by decide) fun h => h.1 hmode
  · rw [if_neg hmode, and_iff_right hmode]

/-- An open that fails with a device. -/
theorem Inv.failed (h : Inv s) (hc : c.addr ∉ s.st.heap) (hi : i < MAX_BATHOS_PIPES)
    {added : Prop} (hadded : ¬ added) (hblank : c.Blank added)
    (hslot : s.InUse i ∨ Pipes.slotFd cfg n mode os = BATHOS_UNIX_FREE_FD) (errno : Int) :
    Inv { s with st := { s.st.withDev cfg n mode old os i c none with errno := errno } } where
  ok := h.ok
  device q hq := by
    obtain ⟨d, hd, hdev⟩ := h.device q hq
    exact ⟨d, List.mem_cons_of_mem _ hd, (h.newPipe_dev q).trans hdev⟩
  list d hd := by
    rw [h.pipesOf_withDev]
    rcases List.mem_cons.mp hd with rfl | hd
    · rw [h.pipesOf_fresh hc]
      exact (Pipes.newLinks_ring_nil_iff hadded).mpr hblank
    · exact h.newLinks_ring hc hd
  slot j hj hnot := by
    rw [h.inUse_withDev hc] at hnot
    exact (slot_update_iff hi h.slot).mpr hslot j hj hnot
  dev_opened q d hq := h.dev_opened q d ((h.newPipe_dev q).symm.trans hq)
  dev_inj q r d hq hr :=
    h.dev_inj q r d ((h.newPipe_dev q).symm.trans hq) ((h.newPipe_dev r).symm.trans hr)
  opened_lt q hq := (h.opened_lt q hq).trans (Nat.lt_succ_self _)
  opened_nodup := h.opened_nodup
  heap_nodup := List.nodup_cons.mpr ⟨hc, h.heap_nodup⟩

theorem failed_iff (h : Inv s) (hc : c.addr ∉ s.st.heap) (hi : i < MAX_BATHOS_PIPES)
    {added : Prop} (hadded : ¬ added) (errno : Int) :
    Sound { s with st := { s.st.withDev cfg n mode old os i c none with errno := errno } } ↔
      c.Blank added ∧ (s.InUse i ∨ Pipes.slotFd cfg n mode os = BATHOS_UNIX_FREE_FD) := by
  constructor
  · intro hsound
    constructor
    · have hring := hsound.list c.addr List.mem_cons_self
      rw [h.pipesOf_withDev, h.pipesOf_fresh hc] at hring
      exact (Pipes.newLinks_ring_nil_iff hadded).mp hring
    · have hiff := @slot_update_iff s i ⟨Pipes.slotFd cfg n mode os, some s.st.next⟩ hi h.slot
      refine hiff.mp fun j hj hnot => ?_
      rw [← h.inUse_withDev hc errno] at hnot
      exact hsound.slot j hj hnot
  · rintro ⟨hblank, hslot⟩
    exact (h.failed hc hi hadded hblank hslot errno).toSound

/-- The system with a new pipe, alone in the list of its device. -/
def addPipe (cfg : PipeConfig) (n : List UInt8) (mode old : Nat) (os : Answers) (i : Nat)
    (c : Chunk) (events : List Event) (s : PipeSystem) : PipeSystem :=
  { s with
    st :=
      { s.st.withDev cfg n mode old os i c (some c.addr) with
        links := listAdd (.link s.st.next) (.head c.addr) (s.st.newLinks c)
        events := events }
    opened := s.st.next :: s.opened }

section AddPipe

variable {events : List Event}

theorem addPipe_dev_next :
    ((s.addPipe cfg n mode old os i c events).st.pipes s.st.next).dev = some c.addr := by
  have hnew : (s.addPipe cfg n mode old os i c events).st.pipes s.st.next = ⟨n, mode, some c.addr, old⟩ :=
    Function.update_self ..
  rw [hnew]

theorem addPipe_dev_of_ne {q : Nat} (hq : q ≠ s.st.next) :
    ((s.addPipe cfg n mode old os i c events).st.pipes q).dev = (s.st.pipes q).dev :=
  congrArg PipeData.dev (Function.update_of_ne hq ..)

/-- A pipe has a device if it is the new one, or had it before. -/
theorem Inv.addPipe_dev_iff (h : Inv s) {q d : Nat} :
    ((s.addPipe cfg n mode old os i c events).st.pipes q).dev = some d ↔
      (q = s.st.next ∧ c.addr = d) ∨ (s.st.pipes q).dev = some d := by
  by_cases hq : q = s.st.next
  · subst hq
    rw [addPipe_dev_next, h.dev_next]
    simp
  · rw [addPipe_dev_of_ne hq]
    simp [hq]

theorem Inv.addPipe_pipesOf (h : Inv s) (hc : c.addr ∉ s.st.heap) (d : Nat) :
    (s.addPipe cfg n mode old os i c events).pipesOf d =
      if d = c.addr then [s.st.next] else s.pipesOf d := by
  have hold : s.opened.filter (fun p =>
      decide (((s.addPipe cfg n mode old os i c events).st.pipes p).dev = some d)) = s.pipesOf d := by
    refine List.filter_congr fun q hq => ?_
    rw [addPipe_dev_of_ne (Nat.ne_of_lt (h.opened_lt q hq))]
  show (s.st.next :: s.opened).filter _ = _
  rw [List.filter_cons, hold, addPipe_dev_next]
  by_cases hd : d = c.addr
  · rw [if_pos hd, if_pos (by simp [hd]), hd, h.pipesOf_fresh hc]
  · rw [if_neg hd, if_neg (by simpa using Ne.symm hd)]

theorem Inv.addPipe_inUse (h : Inv s) (hc : c.addr ∉ s.st.heap) (j : Nat) :
    (s.addPipe cfg n mode old os i c events).InUse j ↔ i = j ∨ s.InUse j := by
  have hpriv : ∀ d, ((s.addPipe cfg n mode old os i c events).st.devs d).archPriv =
      if d = c.addr then i else (s.st.devs d).archPriv := by
    intro d
    show (Function.update s.st.devs c.addr _ d).archPriv = _
    rw [Function.update_apply]
    split_ifs <;> rfl
  unfold InUse
  rw [← or_assoc]
  refine or_congr_left ?_
  constructor
  · rintro ⟨q, hq, d, hd, hj⟩
    rw [hpriv] at hj
    rcases h.addPipe_dev_iff.mp hd with ⟨-, rfl⟩ | hold
    · exact .inl ((if_pos rfl).symm.trans hj)
    · have hne : d ≠ c.addr := fun heq => hc (heq ▸ h.dev_mem hold)
      rw [if_neg hne] at hj
      exact .inr ⟨q, h.dev_opened q d hold, d, hold, hj⟩
  · rintro (rfl | ⟨q, hq, d, hd, hj⟩)
    · exact ⟨s.st.next, List.mem_cons_self, c.addr, addPipe_dev_next,
        (hpriv c.addr).trans (if_pos rfl)⟩
    · have hne : d ≠ c.addr := fun heq => hc (heq ▸ h.dev_mem hd)
      exact ⟨q, List.mem_cons_of_mem _ hq, d, h.addPipe_dev_iff.mpr (.inr hd),
        ((hpriv d).trans (if_neg hne)).trans hj⟩

/-- The lists of other devices, once the new pipe is in that of its own. -/
theorem Inv.addPipe_ring (h : Inv s) (hc : c.addr ∉ s.st.heap)
    (hnext : c.next = .null ∨ c.next = .head c.addr) (hd : d ∈ s.st.heap) :
    (s.addPipe cfg n mode old os i c events).st.links.Ring (.head d) ((s.pipesOf d).map .link) := by
  have hhead : Ptr.head c.addr ∉ Ptr.head d :: (s.pipesOf d).map .link :=
    head_notMem_nodes fun heq => hc (heq ▸ hd)
  have hlink : Ptr.link s.st.next ∉ Ptr.head d :: (s.pipesOf d).map .link := by
    intro hmem
    exact Nat.lt_irrefl _ (h.opened_lt _ (mem_pipesOf.mp (link_mem_nodes.mp hmem)).1)
  show (listAddAt _ _ ((s.st.newLinks c).next (.head c.addr)) _).Ring _ _
  rw [listAddAt_eq, Pipes.newLinks_next_iff.mpr hnext]
  exact ((h.newLinks_ring hc hd).join_frame hlink hhead).join_frame hhead hlink

theorem Inv.addPipe (h : Inv s) (hc : c.addr ∉ s.st.heap) {added : Prop} (hadded : added)
    (hblank : c.Blank added) : Inv (s.addPipe cfg n mode old os i c events) where
  ok := h.ok
  device q hq := by
    rcases List.mem_cons.mp hq with rfl | hq
    · exact ⟨c.addr, List.mem_cons_self, addPipe_dev_next⟩
    · obtain ⟨d, hd, hdev⟩ := h.device q hq
      exact ⟨d, List.mem_cons_of_mem _ hd, h.addPipe_dev_iff.mpr (.inr hdev)⟩
  list d hd := by
    rw [h.addPipe_pipesOf hc]
    by_cases hdc : d = c.addr
    · subst hdc
      rw [if_pos rfl]
      exact (Pipes.newLinks_ring_singleton_iff hadded).mpr hblank
    · rw [if_neg hdc]
      exact h.addPipe_ring hc hblank.next ((List.mem_cons.mp hd).resolve_left hdc)
  slot j hj hnot := by
    rw [h.addPipe_inUse hc, not_or] at hnot
    have hpriv : (s.addPipe cfg n mode old os i c events).st.priv j = s.st.priv j :=
      Function.update_of_ne (Ne.symm hnot.1) ..
    rw [hpriv]
    exact h.slot j hj hnot.2
  dev_opened q d hq := by
    rcases h.addPipe_dev_iff.mp hq with ⟨rfl, -⟩ | hold
    · exact List.mem_cons_self
    · exact List.mem_cons_of_mem _ (h.dev_opened q d hold)
  dev_inj q r d hq hr := by
    rcases h.addPipe_dev_iff.mp hq with ⟨rfl, rfl⟩ | hq
    · rcases h.addPipe_dev_iff.mp hr with ⟨rfl, -⟩ | hr
      · rfl
      · exact absurd (h.dev_mem hr) hc
    · rcases h.addPipe_dev_iff.mp hr with ⟨-, rfl⟩ | hr
      · exact absurd (h.dev_mem hq) hc
      · exact h.dev_inj q r d hq hr
  opened_lt q hq := by
    rcases List.mem_cons.mp hq with rfl | hq
    · exact Nat.lt_succ_self _
    · exact (h.opened_lt q hq).trans (Nat.lt_succ_self _)
  opened_nodup :=
    List.nodup_cons.mpr ⟨fun hmem => Nat.lt_irrefl _ (h.opened_lt _ hmem), h.opened_nodup⟩
  heap_nodup := List.nodup_cons.mpr ⟨hc, h.heap_nodup⟩

theorem addPipe_iff (h : Inv s) (hc : c.addr ∉ s.st.heap) {added : Prop} (hadded : added) :
    Sound (s.addPipe cfg n mode old os i c events) ↔ c.Blank added := by
  constructor
  · intro hsound
    have hring := hsound.list c.addr List.mem_cons_self
    rw [h.addPipe_pipesOf hc, if_pos rfl] at hring
    exact (Pipes.newLinks_ring_singleton_iff hadded).mp hring
  · exact fun hblank => (h.addPipe hc hadded hblank).toSound

end AddPipe

-- ---------------------------------------------------------------------------
-- Closing
-- ---------------------------------------------------------------------------

/-- The only pipe of a device leaves the list, and the device goes with it. -/
theorem doFreePipe_eq {s : Pipes} (hdev : (s.pipes p).dev = some d)
    (hring : s.links.Ring (.head d) [.link p]) :
    s.doFreePipe p = some
      { s with
        priv := Function.update s.priv (s.devs d).archPriv
          { s.priv (s.devs d).archPriv with fd := BATHOS_UNIX_FREE_FD }
        heap := s.heap.erase d
        pipes := Function.update s.pipes p { s.pipes p with dev := none }
        links := (s.links.join (.head d) (.head d)).join (.link p) (.link p) } := by
  unfold Links.Ring at hring
  rw [List.cons_append, List.singleton_append, List.isChain_cons_cons, List.isChain_pair] at hring
  obtain ⟨⟨-, hprev⟩, hnext, -⟩ := hring
  have hlinks : initListHead (.link p) (listDelEntry (.link p) s.links) =
      (s.links.join (.head d) (.head d)).join (.link p) (.link p) := by
    rw [listDelEntry_eq]
    unfold Links.unlink
    rw [hprev, hnext]
    rfl
  have hempty : listEmpty (.head d) ((s.links.join (.head d) (.head d)).join (.link p) (.link p)) =
      true := by
    refine decide_eq_true ?_
    unfold Links.join
    simp only
    rw [Function.update_of_ne (by simp), Function.update_self]
  unfold Pipes.doFreePipe Pipes.unixClose Pipes.listDelInit
  simp only [hdev, hlinks, hempty, if_true]
  rfl

/-- The system without one of its pipes. -/
def dropPipe (p d : Nat) (events : List Event) (s : PipeSystem) : PipeSystem :=
  { s with
    st :=
      { s.st with
        priv := Function.update s.st.priv (s.st.devs d).archPriv
          { s.st.priv (s.st.devs d).archPriv with fd := BATHOS_UNIX_FREE_FD }
        heap := s.st.heap.erase d
        pipes := Function.update s.st.pipes p { s.st.pipes p with dev := none }
        links := (s.st.links.join (.head d) (.head d)).join (.link p) (.link p)
        events := events }
    opened := s.opened.erase p }

section DropPipe

variable {events : List Event}

theorem dropPipe_dev_iff {q d' : Nat} :
    ((s.dropPipe p d events).st.pipes q).dev = some d' ↔
      q ≠ p ∧ (s.st.pipes q).dev = some d' := by
  show (Function.update s.st.pipes p _ q).dev = _ ↔ _
  rw [Function.update_apply]
  by_cases hq : q = p <;> simp [hq]

theorem Inv.dropPipe_pipesOf (h : Inv s) (hdev : (s.st.pipes p).dev = some d) {d' : Nat}
    (hd : d' ≠ d) : (s.dropPipe p d events).pipesOf d' = s.pipesOf d' := by
  show (s.opened.erase p).filter _ = _
  rw [h.opened_nodup.erase_eq_filter, List.filter_filter]
  refine List.filter_congr fun q _ => ?_
  rw [Bool.eq_iff_iff, Bool.and_eq_true, decide_eq_true_iff, decide_eq_true_iff, dropPipe_dev_iff]
  constructor
  · exact fun hq => hq.1.2
  · intro hq
    have hqp : q ≠ p := by
      rintro rfl
      exact hd (Option.some.inj (hq.symm.trans hdev))
    exact ⟨⟨hqp, hq⟩, by simpa using hqp⟩

theorem Inv.dropPipe (h : Inv s) (hdev : (s.st.pipes p).dev = some d) :
    Inv (s.dropPipe p d events) where
  ok := h.ok
  device q hq := by
    obtain ⟨hqp, hq⟩ := (h.opened_nodup.mem_erase_iff).mp hq
    obtain ⟨d', hd', hdq⟩ := h.device q hq
    have hne : d' ≠ d := by
      rintro rfl
      exact hqp (h.dev_inj q p d' hdq hdev)
    exact ⟨d', (List.mem_erase_of_ne hne).mpr hd', dropPipe_dev_iff.mpr ⟨hqp, hdq⟩⟩
  list d' hd' := by
    obtain ⟨hne, hd'⟩ := (h.heap_nodup.mem_erase_iff).mp hd'
    rw [h.dropPipe_pipesOf hdev hne]
    have hhead : Ptr.head d ∉ Ptr.head d' :: (s.pipesOf d').map .link :=
      head_notMem_nodes (Ne.symm hne)
    have hlink : Ptr.link p ∉ Ptr.head d' :: (s.pipesOf d').map .link := by
      intro hmem
      have hdev' := (mem_pipesOf.mp (link_mem_nodes.mp hmem)).2
      exact hne (Option.some.inj (hdev'.symm.trans hdev))
    exact ((h.list d' hd').join_frame hhead hhead).join_frame hlink hlink
  slot j hj hnot := by
    show (Function.update s.st.priv _ _ j).fd = _
    by_cases hji : j = (s.st.devs d).archPriv
    · subst hji
      rw [Function.update_self]
    · rw [Function.update_of_ne hji]
      refine h.slot j hj fun hused => hnot (hused.imp_left ?_)
      rintro ⟨q, hq, d', hd', hpriv⟩
      have hqp : q ≠ p := by
        rintro rfl
        exact hji (hpriv ▸ congrArg (fun e => (s.st.devs e).archPriv)
          (Option.some.inj (hd'.symm.trans hdev)))
      exact ⟨q, (List.mem_erase_of_ne hqp).mpr hq, d', dropPipe_dev_iff.mpr ⟨hqp, hd'⟩, hpriv⟩
  dev_opened q d' hq := by
    obtain ⟨hqp, hq⟩ := dropPipe_dev_iff.mp hq
    exact (List.mem_erase_of_ne hqp).mpr (h.dev_opened q d' hq)
  dev_inj q r d' hq hr := h.dev_inj q r d' (dropPipe_dev_iff.mp hq).2 (dropPipe_dev_iff.mp hr).2
  opened_lt q hq := h.opened_lt q (List.mem_of_mem_erase hq)
  opened_nodup := h.opened_nodup.erase p
  heap_nodup := h.heap_nodup.erase d

end DropPipe

theorem Inv.handle (h : Inv s) (hgood : Good cfg s .handle) : Inv s.handle := by
  unfold PipeSystem.handle
  cases hevents : s.st.events with
  | nil => exact h
  | cons e es =>
    cases e with
    | pipeReallyClosed p =>
      obtain ⟨d, hdev⟩ := Option.ne_none_iff_exists'.mp (hgood p (by rw [hevents]; rfl))
      have hring := h.list d (h.dev_mem hdev)
      rw [h.pipesOf_eq hdev] at hring
      have hfree := @doFreePipe_eq p d { s.st with events := es } hdev hring
      simp only [hfree]
      exact h.dropPipe hdev
    | _ => exact h.events es s.st.errno

theorem handle_fault (h : ¬ Good cfg s .handle) : ¬ Sound s.handle := by
  intro hsound
  refine h fun p hhead hdev => ?_
  obtain ⟨es, hevents⟩ := List.head?_eq_some_iff.mp hhead
  unfold PipeSystem.handle at hsound
  have hfree : Pipes.doFreePipe p { s.st with events := es } = none := by
    unfold Pipes.doFreePipe
    simp only [hdev]
  simp only [hevents, hfree] at hsound
  exact absurd hsound.ok (by simp)

theorem Inv.close (h : Inv s) (hgood : Good cfg s (.close p)) : Inv (s.close cfg p) := by
  obtain ⟨es, e, hclose⟩ := s.st.pipeClose_eq cfg p
  have hopened : (s.close cfg p).opened = s.opened := by
    show (if _ then s.opened else s.opened.erase p) = _
    cases hdev : (s.st.pipes p).dev with
    | none =>
      have hnotin : p ∉ s.opened := by
        intro hp
        obtain ⟨d, -, hd⟩ := h.device p hp
        exact Option.some_ne_none d (hd.symm.trans hdev)
      rw [List.erase_of_not_mem hnotin, ite_self]
    | some d =>
      rw [if_pos]
      refine (Pipes.pipeClose_pending_iff hdev).mpr (hgood.resolve_left ?_)
      rw [hdev]
      exact Option.some_ne_none d
  have heq : s.close cfg p = { s with st := { s.st with events := es, errno := e } } := by
    unfold PipeSystem.close at hopened ⊢
    simp only at hopened ⊢
    rw [hopened, hclose]
  rw [heq]
  exact h.events es e

/-- A pipe that is closed and will not be handled stays in its list. -/
theorem close_lost (h : Inv s) (hbad : ¬ Good cfg s (.close p)) : ¬ Sound (s.close cfg p) := by
  intro hsound
  simp only [Good, not_or] at hbad
  obtain ⟨hdev, hpending⟩ := hbad
  obtain ⟨d, hdev⟩ := Option.ne_none_iff_exists'.mp hdev
  obtain ⟨es, e, hclose⟩ := s.st.pipeClose_eq cfg p
  have hnot : .pipeReallyClosed p ∉ (s.st.pipeClose cfg p).2.events := by
    rw [Pipes.pipeClose_pending_iff hdev, not_or]
    exact hpending
  have heq : s.close cfg p =
      { s with st := { s.st with events := es, errno := e }, opened := s.opened.erase p } := by
    unfold PipeSystem.close
    simp only [if_neg hnot]
    rw [hclose]
  rw [heq] at hsound
  have hbefore := h.list d (h.dev_mem hdev)
  rw [h.pipesOf_eq hdev] at hbefore
  have hafter := hsound.list d (h.dev_mem hdev)
  have hnone : (s.opened.erase p).filter (fun q => decide ((s.st.pipes q).dev = some d)) = [] := by
    refine List.filter_eq_nil_iff.mpr fun q hq hdq => ?_
    have hqp := ((h.opened_nodup.mem_erase_iff).mp hq).1
    exact hqp (h.dev_inj q p d (of_decide_eq_true hdq) hdev)
  have hempty : s.st.links.Ring (.head d) (List.map .link []) := by
    rw [← hnone]
    exact hafter
  have hself := (Links.ring_nil_iff.mp hempty).1
  rw [hbefore.next_head] at hself
  cases hself

theorem Inv.getSlot (h : Inv s) : Inv s.getSlot := by
  unfold PipeSystem.getSlot Pipes.findFreeSlot
  cases hslot : s.st.freeSlot? with
  | none => exact h
  | some i =>
    refine h.frame rfl rfl (fun _ => rfl) rfl rfl le_rfl fun j hj hnot => ?_
    have hji : j ≠ i := by
      rintro rfl
      exact hnot (.inr List.mem_cons_self)
    show (Function.update s.st.priv i _ j).fd = _
    rw [Function.update_of_ne hji]
    exact h.slot j hj fun hused => hnot (hused.imp_right (List.mem_cons_of_mem _))

theorem Inv.putSlot (h : Inv s) (i : Nat) : Inv (s.putSlot i) := by
  unfold PipeSystem.putSlot
  split_ifs with hi
  · refine h.frame rfl rfl (fun _ => rfl) rfl rfl le_rfl fun j hj hnot => ?_
    show (Function.update s.st.priv i _ j).fd = _
    by_cases hji : j = i
    · subst hji
      rw [Function.update_self]
    · rw [Function.update_of_ne hji]
      exact h.slot j hj fun hused => hnot (hused.imp_right (List.mem_erase_of_ne hji).mpr)
  · exact h

theorem malloc_fresh {s : Pipes} (h : s.malloc chunk = some c) : c.addr ∉ s.heap :=
  of_decide_eq_true (Option.filter_eq_some_iff.mp h).2

/-- The slot of a pipe that is opened is kept. -/
theorem openOk_iff (hmalloc : s.st.malloc chunk = some c)
    (hqueue : ReachesQueue cfg n mode os → NoQueue cfg old) :
    OpenOk cfg s n mode old chunk os i ↔ c.Blank (Opens cfg n mode old os) ∧
      (Opens cfg n mode old os ∨ s.InUse i ∨
        Pipes.slotFd cfg n mode os = BATHOS_UNIX_FREE_FD) := by
  unfold OpenOk
  rw [hmalloc, slotFd_eq_free_iff]
  exact and_iff_right hqueue

/-- What an open leaves, and when it is as it should be. -/
theorem Inv.pipeOpen (h : Inv s) {buffer : Option Nat} :
    (Good cfg s (.open n mode buffer chunk os) → Inv (s.step cfg (.open n mode buffer chunk os))) ∧
      (Sound (s.step cfg (.open n mode buffer chunk os)) →
        Good cfg s (.open n mode buffer chunk os)) := by
  rcases s.st.openPipe_cases cfg n mode buffer chunk os with
    ⟨hrefused, e, hopen⟩ | ⟨old, hmode, rfl, ⟨hnone, e, hopen⟩ | ⟨i, hslot, hcase⟩⟩
  · refine ⟨fun _ => ?_, fun _ hmode old hbuffer => ?_⟩
    · simp only [step, hopen, Option.toList_none, List.nil_append]
      exact h.events s.st.events e
    · rcases hrefused with hzero | hempty
      · exact absurd hzero hmode
      · exact absurd (hbuffer.symm.trans hempty) (Option.some_ne_none old)
  · refine ⟨fun _ => ?_, fun _ _ _ _ i hi => ?_⟩
    · simp only [step, hopen, Option.toList_none, List.nil_append]
      exact h.newPipe e h.slot
    · exact absurd (hi.symm.trans hnone) (Option.some_ne_none i)
  have hi := Pipes.freeSlot?_lt hslot
  have hgood : Good cfg s (.open n mode (some old) chunk os) ↔
      OpenOk cfg s n mode old chunk os i := by
    refine ⟨fun hall => hall hmode old rfl i hslot, fun hok _ old' hold j hj => ?_⟩
    rw [← Option.some_inj.mp hold]
    exact Option.some.inj (hslot.symm.trans hj) ▸ hok
  rw [hgood]
  rcases hcase with ⟨hmalloc, e, hopen⟩ | ⟨c, hmalloc, ⟨hreach, hno, hopen⟩ |
    ⟨hqueue, ⟨hfails, e, hopen⟩ | ⟨hopens, e, he, hopen⟩⟩⟩
  · -- no memory for the device
    have hok : OpenOk cfg s n mode old chunk os i ↔ s.InUse i := by
      unfold OpenOk
      rw [hmalloc]
    simp only [step, hopen, Option.toList_none, List.nil_append, hok]
    refine ⟨fun hused => h.newPipe e ?_, (reserved_iff h hi e).mp⟩
    exact (slot_update_iff hi h.slot).mpr (.inl hused)
  · -- a queue that is not there
    have hnot : ¬ OpenOk cfg s n mode old chunk os i := by
      unfold OpenOk
      rw [hmalloc]
      exact fun hok => hno (hok.1 hreach)
    refine ⟨fun hok => absurd hok hnot, fun hsound => ?_⟩
    simp only [step, hopen] at hsound
    have hok : true = false := hsound.ok
    cases hok
  · rw [openOk_iff hmalloc hqueue, or_iff_right hfails]
    simp only [step, hopen, Option.toList_none, List.nil_append]
    have hc := malloc_fresh hmalloc
    exact ⟨fun hok => h.failed hc hi hfails hok.1 hok.2 e, (failed_iff h hc hi hfails e).mp⟩
  · have hok : OpenOk cfg s n mode old chunk os i ↔ c.Blank (Opens cfg n mode old os) := by
      rw [openOk_iff hmalloc hqueue]
      exact and_iff_left (.inl hopens)
    have hc := malloc_fresh hmalloc
    obtain ⟨es, htrigger⟩ := Pipes.triggerEvent_eq cfg e
      { s.st.withDev cfg n mode old os i c (some c.addr) with
        links := listAdd (.link s.st.next) (.head c.addr) (s.st.newLinks c) }
    simp only [step, hopen, htrigger, Option.toList_some, hok]
    exact ⟨fun hblank => h.addPipe hc hopens hblank, (addPipe_iff h hc hopens).mp⟩

theorem step_inv (h : Inv s) {op : PipeOp} (hgood : Good cfg s op) : Inv (s.step cfg op) := by
  cases op with
  | «open» n mode room chunk os => exact h.pipeOpen.1 hgood
  | close p => exact h.close hgood
  | trigger =>
    obtain ⟨es, heq⟩ := Pipes.triggerEvent_eq cfg .other s.st
    simp only [step, heq]
    exact h.events es s.st.errno
  | handle => exact h.handle hgood
  | getSlot => exact h.getSlot
  | putSlot i => exact h.putSlot i

theorem step_sound_iff (h : Inv s) (op : PipeOp) : Sound (s.step cfg op) ↔ Good cfg s op := by
  refine ⟨fun hsound => ?_, fun hgood => (step_inv h hgood).toSound⟩
  cases op with
  | «open» n mode room chunk os => exact h.pipeOpen.2 hsound
  | close p => exact of_not_not fun hbad => close_lost h hbad hsound
  | handle => exact of_not_not fun hbad => handle_fault hbad hsound
  | trigger => exact trivial
  | getSlot => exact trivial
  | putSlot i => exact trivial

/-- After every pipe is closed and every driver has returned its slot, all slots are free. -/
theorem Sound.all_free (h : Sound s) (hopened : s.opened = []) (htaken : s.taken = []) :
    ∀ i < MAX_BATHOS_PIPES, (s.st.priv i).fd = BATHOS_UNIX_FREE_FD := by
  refine fun i hi => h.slot i hi ?_
  rintro (⟨p, hp, -⟩ | hi)
  · exact List.not_mem_nil (hopened ▸ hp)
  · exact List.not_mem_nil (htaken ▸ hi)

/-- **Unix pipes.** The devices have their pipes in their lists, the slots not in use are free,
and nothing is written through a pointer that was never set, in exactly the runs whose opens
find memory that looks like an empty list, initialise no queue and do not keep a slot when they
fail, and that close every pipe once. -/
theorem pipes_iff (cfg : PipeConfig) (links : Links Ptr) (ops : List PipeOp) :
    EachStep (step cfg) (fun s op => Sound (s.step cfg op)) (start links) ops ↔
      EachStep (step cfg) (Good cfg) (start links) ops :=
  eachStep_iff (fun _ op h => step_sound_iff h op) (fun _ _ h hgood => step_inv h hgood)
    (inv_start links)

/-- A pipe is opened on a device in memory that is not zero. -/
theorem open_garbage :
    ¬ EachStep (step ⟨false, 8, 64, 32⟩) (fun s op => Sound (s.step ⟨false, 8, 64, 32⟩ op))
      (start ⟨fun _ => .null, fun _ => .null⟩)
      [.open [120] 1 (some 0) (some ⟨1, .other 5, .null⟩) ⟨.ok 3, 0, false, 0⟩] := by
  rintro ⟨hsound, -⟩
  have hring := hsound.list 1 (by decide)
  have hnext := (List.isChain_cons_cons.mp (List.isChain_cons_cons.mp hring).2).1.1
  exact absurd hnext (by decide)

end PipeSystem

end Bathos.Unix
