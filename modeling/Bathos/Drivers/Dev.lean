import Bathos.Include.CircBuf
import Bathos.Lib.Run

/-!
# Bathos — the receive ring of a device

`drivers/dev.c`: `_bathos_pipe_push_chars` and `bathos_dev_push_chars`, called by
the low-level drivers, and `bathos_dev_read`, called by the tasks. The ring's
memory is flat, so a copy that runs past the end of the buffer is visible; every
`memcpy` into the ring is also reported with its start and length.

The second copy of a push is bounded by the space there was before the first
one. As long as what is pushed fits, or the ring is full, this makes no
difference; otherwise the second copy runs into the unread bytes or past the end
of the buffer.

Main results:

* `pipePushChars_spec` / `devRead_spec` — a push that meets the bound appends
  its bytes to the unread ones, a read takes the oldest ones;
* `pipe_fifo_iff` — a run behaves as a FIFO exactly when each of its pushes
  finds the ring full or room for all its bytes.
-/

namespace Bathos.Drivers

open Bathos.Lib

-- ---------------------------------------------------------------------------
-- dev.c
-- ---------------------------------------------------------------------------

/-- `struct bathos_dev_data`: the circular buffer and the receive high
watermark. `hasBuf` says that `buf` is not `NULL`. -/
structure DevData where
  head : Nat
  tail : Nat
  size : Nat
  buf : Nat → UInt8
  hasBuf : Bool
  rxHwm : Int

/-- A push: what it returns, the ring it leaves, the regions of the buffer it
writes, and whether it triggers `evt_pipe_input_ready`. -/
structure PushResult where
  ret : Int
  data : DevData
  writes : List (Nat × Nat)
  event : Bool

/-- `memcpy(&buf[head], src, l)` and the advance of `head` that follows it; the
push does this twice. -/
def DevData.copyIn (d : DevData) (src : List UInt8) : DevData :=
  { d with
    buf := blit d.buf d.head src
    head := (d.head + src.length) &&& (d.size - 1) }

/-- More than the high watermark is waiting: the input event is due. -/
def DevData.aboveHwm (d : DevData) : Bool :=
  decide ((circCnt d.head d.tail d.size : Int) > d.rxHwm)

/-- `_bathos_pipe_push_chars(pipe, buf, len)`, with `src` the `len` bytes at
`buf`. -/
def pipePushChars (d : DevData) (src : List UInt8) : PushResult :=
  let s := circSpace d.head d.tail d.size
  if s = 0 then ⟨-ENOMEM, d, [], false⟩
  else
    -- copy to the end of the buffer
    let l := min src.length (circSpaceToEnd d.head d.tail d.size)
    let d1 := d.copyIn (src.take l)
    if l = 0 then ⟨0, d1, [(d.head, l)], d1.aboveHwm⟩
    else
      -- and finally copy the rest
      let src' := src.drop l
      let l' := min src'.length s
      let d2 := d1.copyIn (src'.take l')
      ⟨(l + l' : Nat), d2, [(d.head, l), (d1.head, l')], d2.aboveHwm⟩

/-- `bathos_dev_push_chars` over the pipes of the device: the value returned, the
rings, and the events triggered. It stops at the first pipe that takes nothing. -/
def devPushChars (src : List UInt8) : List DevData → Int × List DevData × Nat
  | [] => (src.length, [], 0)
  | d :: ds =>
    let r := pipePushChars d src
    let e := if r.event then 1 else 0
    if r.ret < 0 then (-1, r.data :: ds, e)
    else
      let (ret, ds', e') := devPushChars src ds
      (ret, r.data :: ds', e + e')

/-- A read: what it returns, the bytes it copies out, the ring it leaves, and
whether it triggers `evt_pipe_input_ready` for the bytes left over. -/
structure ReadResult where
  ret : Int
  bytes : List UInt8
  data : DevData
  event : Bool

/-- `tail = (tail + l) & (size - 1)`. -/
def DevData.dropOut (d : DevData) (l : Nat) : DevData :=
  { d with tail := (d.tail + l) &&& (d.size - 1) }

/-- `bathos_dev_read(pipe, buf, len)`. -/
def devRead (d : DevData) (len : Nat) : ReadResult :=
  if !d.hasBuf ∨ d.size = 0 then ⟨-EINVAL, [], d, false⟩
  else
    let l := min len (circCntToEnd d.head d.tail d.size)
    if l = 0 then ⟨-EAGAIN, [], d, false⟩
    else
      let d1 := d.dropOut l
      ⟨l, (List.range l).map fun i => d.buf (d.tail + i), d1,
        decide (circCnt d1.head d1.tail d1.size ≠ 0)⟩

-- ---------------------------------------------------------------------------
-- The ring as a window
-- ---------------------------------------------------------------------------

namespace DevData

/-- An open ring: a power of two of cells, indexes inside. -/
structure Ring (d : DevData) : Prop where
  size_pow : IsRingSize d.size
  head_lt : d.head < d.size
  tail_lt : d.tail < d.size
  hasBuf : d.hasBuf = true

/-- Number of bytes not yet read. -/
def cnt (d : DevData) : Nat := circCnt d.head d.tail d.size

/-- Room for further bytes. -/
def space (d : DevData) : Nat := circSpace d.head d.tail d.size

/-- The bytes not yet read, oldest first. -/
def unread (d : DevData) : List UInt8 := ringSlice d.buf d.size d.tail d.cnt

variable {d : DevData}

theorem Ring.idx (h : d.Ring) : CircIdx d.head d.tail d.size := ⟨h.size_pow, h.head_lt, h.tail_lt⟩

theorem Ring.cnt_lt (h : d.Ring) : d.cnt < d.size := h.idx.cnt_lt

theorem Ring.space_eq (h : d.Ring) : d.space = d.size - 1 - d.cnt := h.idx.space_eq

theorem Ring.spaceToEnd_eq (h : d.Ring) :
    circSpaceToEnd d.head d.tail d.size = min d.space (d.size - d.head) := h.idx.spaceToEnd_eq

theorem Ring.cntToEnd_eq (h : d.Ring) :
    circCntToEnd d.head d.tail d.size = min d.cnt (d.size - d.tail) := h.idx.cntToEnd_eq

theorem aboveHwm_eq (d : DevData) : d.aboveHwm = decide ((d.cnt : Int) > d.rxHwm) := rfl

theorem unread_length (d : DevData) : d.unread.length = d.cnt := ringSlice_length _ _ _ _

theorem unread_ne_nil : d.unread ≠ [] ↔ d.cnt ≠ 0 := by
  rw [← unread_length, ne_eq, ne_eq, List.length_eq_zero_iff]

@[simp] theorem copyIn_tail (src : List UInt8) : (d.copyIn src).tail = d.tail := rfl
@[simp] theorem copyIn_size (src : List UInt8) : (d.copyIn src).size = d.size := rfl
@[simp] theorem copyIn_rxHwm (src : List UInt8) : (d.copyIn src).rxHwm = d.rxHwm := rfl

/-- A copy that fits and does not wrap appends its bytes. -/
theorem Ring.copyIn (h : d.Ring) {src : List UInt8} (hlen : src.length ≤ d.space)
    (hend : d.head + src.length ≤ d.size) :
    (d.copyIn src).Ring ∧ (d.copyIn src).cnt = d.cnt + src.length ∧
      (d.copyIn src).unread = d.unread ++ src :=
  ⟨⟨h.size_pow, (h.idx.push src.length).head_lt, h.tail_lt, h.hasBuf⟩, h.idx.cnt_push hlen,
    h.idx.window_push hlen hend⟩

/-- A copy up to the end of the buffer wraps the head. -/
theorem Ring.copyIn_head_wrap (h : d.Ring) {src : List UInt8} (hend : d.head + src.length = d.size) :
    (d.copyIn src).head = 0 := by
  unfold DevData.copyIn
  simp only
  rw [hend, h.size_pow.and_mask, Nat.mod_self]

@[simp] theorem dropOut_size (l : Nat) : (d.dropOut l).size = d.size := rfl
@[simp] theorem dropOut_rxHwm (l : Nat) : (d.dropOut l).rxHwm = d.rxHwm := rfl

/-- Advancing the tail drops the oldest bytes. -/
theorem Ring.dropOut (h : d.Ring) {l : Nat} (hl : l ≤ d.cnt) :
    (d.dropOut l).Ring ∧ (d.dropOut l).unread = d.unread.drop l :=
  ⟨⟨h.size_pow, h.head_lt, (h.idx.pop l).tail_lt, h.hasBuf⟩, h.idx.window_pop hl⟩

end DevData

-- ---------------------------------------------------------------------------
-- One call
-- ---------------------------------------------------------------------------

section Calls

variable {d : DevData} {src : List UInt8}

theorem pipePushChars_full (hfull : d.space = 0) : pipePushChars d src = ⟨-ENOMEM, d, [], false⟩ := by
  unfold DevData.space at hfull
  unfold pipePushChars
  simp only [hfull, if_true]

/-- What a push that fits leaves behind. -/
structure Pushed (d : DevData) (src : List UInt8) (r : PushResult) : Prop where
  ret : r.ret = src.length
  ring : r.data.Ring
  unread : r.data.unread = d.unread ++ src
  tail : r.data.tail = d.tail
  size : r.data.size = d.size
  rxHwm : r.data.rxHwm = d.rxHwm
  writes : ∀ w ∈ r.writes, w.1 + w.2 ≤ d.size
  event : r.event = decide ((r.data.cnt : Int) > r.data.rxHwm)

/-- How a length is divided between the two copies of a push. -/
theorem copy_split {len space size head l : Nat} (hl : l = min len (min space (size - head)))
    (hhead : head < size) (hspace : space ≠ 0) (hroom : len ≤ space) :
    l ≤ len ∧ l ≤ space ∧ head + l ≤ size ∧ (l = 0 → len = 0) ∧ (l ≠ len → head + l = size) := by
  omega

/-- A push of bytes that fit into the free space. The first copy takes what
fits before the end of the buffer; when bytes are left the second one starts at
the beginning, and the space it is bounded by does not matter. -/
theorem pipePushChars_spec (h : d.Ring) (hspace : d.space ≠ 0) (hroom : src.length ≤ d.space) :
    Pushed d src (pipePushChars d src) := by
  have hspace' : circSpace d.head d.tail d.size ≠ 0 := hspace
  obtain ⟨l, hl⟩ : ∃ l, l = min src.length (circSpaceToEnd d.head d.tail d.size) := ⟨_, rfl⟩
  have hmin := hl
  rw [h.spaceToEnd_eq] at hmin
  obtain ⟨hlen, hlspace, hlend, hempty, hwrap⟩ := copy_split hmin h.head_lt hspace hroom
  have htake : (src.take l).length = l := List.length_take_of_le hlen
  have hrest : (src.drop l).length = src.length - l := List.length_drop
  obtain ⟨hring1, hcnt1, hunread1⟩ :=
    h.copyIn (htake.le.trans hlspace) ((Nat.add_le_add_left htake.le _).trans hlend)
  rw [htake] at hcnt1
  by_cases hzero : l = 0
  · -- only an empty push copies nothing
    have hsrc : src = [] := List.length_eq_zero_iff.mp (hempty hzero)
    have hpush : pipePushChars d src =
        ⟨0, d.copyIn (src.take l), [(d.head, l)], (d.copyIn (src.take l)).aboveHwm⟩ := by
      unfold pipePushChars
      simp only [hspace', if_false, ← hl, hzero, if_true]
    rw [hpush]
    refine ⟨by simp [hsrc], hring1, ?_, by simp, by simp, by simp, ?_, DevData.aboveHwm_eq _⟩
    · rw [hunread1, hzero, List.take_zero, hsrc]
    · intro w hw
      rw [List.mem_singleton] at hw
      rw [hw]
      exact hlend
  · have hmin' : min (src.drop l).length (circSpace d.head d.tail d.size) = (src.drop l).length := by
      rw [hrest]
      exact Nat.min_eq_left (le_trans (Nat.sub_le _ _) hroom)
    have hroom1 : (src.drop l).length ≤ (d.copyIn (src.take l)).space := by
      rw [hrest, hring1.space_eq, hcnt1, DevData.copyIn_size, Nat.sub_add_eq, ← h.space_eq]
      exact Nat.sub_le_sub_right hroom l
    have hend1 : (d.copyIn (src.take l)).head + (src.drop l).length ≤
        (d.copyIn (src.take l)).size := by
      rw [hrest]
      by_cases hall : l = src.length
      · rw [hall, Nat.sub_self, Nat.add_zero, ← hall]
        exact hring1.head_lt.le
      · -- the first copy went up to the end of the buffer
        rw [h.copyIn_head_wrap (by rw [htake]; exact hwrap hall), Nat.zero_add,
          DevData.copyIn_size]
        have hcnt := h.space_eq
        have := h.tail_lt
        omega
    obtain ⟨hring2, -, hunread2⟩ := hring1.copyIn hroom1 hend1
    have hpush : pipePushChars d src =
        ⟨(l + (src.drop l).length : Nat), (d.copyIn (src.take l)).copyIn (src.drop l),
          [(d.head, l), ((d.copyIn (src.take l)).head, (src.drop l).length)],
          ((d.copyIn (src.take l)).copyIn (src.drop l)).aboveHwm⟩ := by
      unfold pipePushChars
      simp only [hspace', if_false, ← hl, hzero, hmin', List.take_length]
    rw [hpush]
    refine ⟨?_, hring2, ?_, by simp, by simp, by simp, ?_, DevData.aboveHwm_eq _⟩
    · simp only
      rw [hrest, Nat.add_sub_cancel' hlen]
    · rw [hunread2, hunread1, List.append_assoc, List.take_append_drop]
    · intro w hw
      rcases List.mem_cons.mp hw with rfl | hw
      · exact hlend
      · rw [List.mem_singleton] at hw
        rw [hw]
        rw [DevData.copyIn_size] at hend1
        exact hend1

/-- A push of more bytes than the ring has room for, into a ring that is not
full, takes more than there is room for. -/
theorem pipePushChars_over (h : d.Ring) (hspace : d.space ≠ 0) (hover : d.space < src.length) :
    (d.space : Int) < (pipePushChars d src).ret := by
  have hhead := h.head_lt
  have htoEnd := h.spaceToEnd_eq
  have hspace' : circSpace d.head d.tail d.size ≠ 0 := hspace
  have heq : d.space = circSpace d.head d.tail d.size := rfl
  obtain ⟨l, hl⟩ : ∃ l, l = min src.length (circSpaceToEnd d.head d.tail d.size) := ⟨_, rfl⟩
  have hzero : l ≠ 0 := by omega
  have hret : (pipePushChars d src).ret = (l + min (src.length - l) d.space : Nat) := by
    unfold pipePushChars
    simp only [hspace', if_false, ← hl, hzero, List.length_drop]
    rw [heq]
  rw [hret]
  omega

/-- A read takes the oldest bytes, up to the end of the buffer. -/
theorem devRead_spec (h : d.Ring) {len l : Nat} (hl : l = min len (min d.cnt (d.size - d.tail))) :
    (devRead d len).ret = (if l = 0 then -EAGAIN else (l : Int)) ∧
      (devRead d len).bytes = d.unread.take l ∧ (devRead d len).data.Ring ∧
      (devRead d len).data.unread = d.unread.drop l ∧ (devRead d len).data.size = d.size ∧
      (devRead d len).data.rxHwm = d.rxHwm ∧
      ((devRead d len).event = true ↔ l ≠ 0 ∧ (devRead d len).data.unread ≠ []) := by
  have hsize := h.size_pow.pos
  have htoEnd : l ≤ circCntToEnd d.head d.tail d.size := by
    rw [h.cntToEnd_eq, hl]
    exact Nat.min_le_right _ _
  have hle : l ≤ d.cnt := by
    rw [h.cntToEnd_eq] at htoEnd
    exact htoEnd.trans (Nat.min_le_left _ _)
  have hguard : ¬ ((!d.hasBuf) = true ∨ d.size = 0) := by
    rw [h.hasBuf]
    simp
    omega
  obtain ⟨hring, hunread⟩ := h.dropOut hle
  by_cases hzero : l = 0
  · have hread : devRead d len = ⟨-EAGAIN, [], d, false⟩ := by
      unfold devRead
      simp only [if_neg hguard, h.cntToEnd_eq, ← hl, hzero, if_true]
    rw [hread, hzero]
    exact ⟨by simp, by simp, h, by simp, rfl, rfl, by simp⟩
  · have hread : devRead d len = ⟨l, (List.range l).map fun i => d.buf (d.tail + i), d.dropOut l,
        decide ((d.dropOut l).cnt ≠ 0)⟩ := by
      unfold devRead
      simp only [if_neg hguard, h.cntToEnd_eq, ← hl, hzero, if_false]
      rfl
    rw [hread]
    refine ⟨by simp [hzero], h.idx.window_take htoEnd, hring, hunread, by simp, by simp, ?_⟩
    rw [DevData.unread_ne_nil, decide_eq_true_eq]
    exact (and_iff_right hzero).symm

end Calls

-- ---------------------------------------------------------------------------
-- Runs of a pipe
-- ---------------------------------------------------------------------------

inductive Op where
  | push (src : List UInt8)
  | read (len : Nat)

/-- A pipe with its history: the bytes accepted by the pushes, starting with
those found in the ring, and the bytes returned by the reads. -/
structure Pipe where
  data : DevData
  accepted : List UInt8
  returned : List UInt8

namespace Pipe

def start (d : DevData) : Pipe := ⟨d, d.unread, []⟩

def step (p : Pipe) : Op → Pipe
  | .push src =>
    let r := pipePushChars p.data src
    -- a push that returns `k` has taken the first `k` bytes
    { p with data := r.data, accepted := p.accepted ++ src.take r.ret.toNat }
  | .read len =>
    let r := devRead p.data len
    { p with data := r.data, returned := p.returned ++ r.bytes }

/-- One call as a FIFO makes it: a push says how much it took, writes only
inside the buffer and leaves the unread bytes alone; the bytes returned by the
reads are the oldest of those accepted. -/
def StepFifo (p : Pipe) (op : Op) : Prop :=
  (match op with
    | .push src =>
      let r := pipePushChars p.data src
      ((p.data.space = 0 ∧ r.ret = -ENOMEM ∧ r.data = p.data) ∨
        (p.data.space ≠ 0 ∧ r.ret = (min src.length p.data.space : Nat))) ∧
      (∀ w ∈ r.writes, w.1 + w.2 ≤ p.data.size) ∧
      ringSlice r.data.buf p.data.size p.data.tail p.data.cnt = p.data.unread
    | .read _ => True) ∧
  (p.step op).returned <+: (p.step op).accepted

/-- The push finds the ring full, or room for all its bytes. -/
def Meets (p : Pipe) : Op → Prop
  | .push src => p.data.space = 0 ∨ src.length ≤ p.data.space
  | .read _ => True

/-- The bytes returned and those not yet read make up the bytes accepted. -/
structure Inv (p : Pipe) : Prop where
  ring : p.data.Ring
  fifo : p.returned ++ p.data.unread = p.accepted

theorem Inv.isPrefix {p : Pipe} (h : p.Inv) : p.returned <+: p.accepted := ⟨_, h.fifo⟩

theorem start_inv {d : DevData} (h : d.Ring) : (start d).Inv := ⟨h, List.nil_append _⟩

theorem inv_mk {d : DevData} {accepted returned : List UInt8} (hring : d.Ring)
    (hfifo : returned ++ d.unread = accepted) : Inv ⟨d, accepted, returned⟩ := ⟨hring, hfifo⟩

theorem step_push (p : Pipe) (src : List UInt8) :
    p.step (.push src) = ⟨(pipePushChars p.data src).data,
      p.accepted ++ src.take (pipePushChars p.data src).ret.toNat, p.returned⟩ := rfl

theorem step_read (p : Pipe) (len : Nat) :
    p.step (.read len) =
      ⟨(devRead p.data len).data, p.accepted, p.returned ++ (devRead p.data len).bytes⟩ := rfl

theorem step_inv {p : Pipe} (h : p.Inv) {op : Op} (hmeets : p.Meets op) : (p.step op).Inv := by
  cases op with
  | push src =>
    by_cases hfull : p.data.space = 0
    · have hstep : p.step (.push src) = p := by
        rw [step_push, pipePushChars_full hfull]
        simp only
        rw [show (-ENOMEM).toNat = 0 from rfl, List.take_zero, List.append_nil]
      rw [hstep]
      exact h
    · have hpush := pipePushChars_spec h.ring hfull (hmeets.resolve_left hfull)
      rw [step_push]
      apply inv_mk hpush.ring
      rw [hpush.unread, hpush.ret, Int.toNat_natCast, List.take_length, ← List.append_assoc, h.fifo]
  | read len =>
    obtain ⟨l, hl⟩ : ∃ l, l = min len (min p.data.cnt (p.data.size - p.data.tail)) := ⟨_, rfl⟩
    obtain ⟨-, hbytes, hring, hunread, -⟩ := devRead_spec h.ring hl
    rw [step_read]
    apply inv_mk hring
    rw [hbytes, hunread, List.append_assoc, List.take_append_drop, h.fifo]

/-- A call behaves as a FIFO call exactly when it meets the condition: a push of
more than there is room for takes more than it may. -/
theorem stepFifo_iff {p : Pipe} (h : p.Inv) (op : Op) : p.StepFifo op ↔ p.Meets op := by
  refine ⟨fun hfifo => ?_, fun hmeets => ⟨?_, (step_inv h hmeets).isPrefix⟩⟩
  · cases op with
    | read len => trivial
    | push src =>
      obtain ⟨⟨hret, -⟩, -⟩ := hfifo
      rcases hret with ⟨hfull, -⟩ | ⟨hspace, hret⟩
      · exact Or.inl hfull
      · refine Or.inr ?_
        by_contra hover
        rw [Nat.not_le] at hover
        have hmore := pipePushChars_over h.ring hspace hover
        rw [hret, Nat.min_eq_right hover.le] at hmore
        exact lt_irrefl _ hmore
  · cases op with
    | read len => trivial
    | push src =>
      by_cases hfull : p.data.space = 0
      · simp only [pipePushChars_full hfull]
        exact ⟨Or.inl ⟨hfull, trivial, trivial⟩, by simp, by simp [DevData.unread]⟩
      · have hroom := hmeets.resolve_left hfull
        have hpush := pipePushChars_spec h.ring hfull hroom
        refine ⟨Or.inr ⟨hfull, ?_⟩, hpush.writes, ?_⟩
        · rw [hpush.ret, Nat.min_eq_left hroom]
        · -- the window of the unread bytes is the old end of the new window
          have hcnt : p.data.cnt ≤ (pipePushChars p.data src).data.cnt := by
            rw [← DevData.unread_length, ← DevData.unread_length, hpush.unread,
              List.length_append]
            exact Nat.le_add_right _ _
          have htake := ringSlice_take (pipePushChars p.data src).data.buf p.data.size p.data.tail hcnt
          rw [← htake]
          have hnew : ringSlice (pipePushChars p.data src).data.buf p.data.size p.data.tail
              (pipePushChars p.data src).data.cnt = (pipePushChars p.data src).data.unread := by
            unfold DevData.unread
            rw [hpush.tail, hpush.size]
          rw [hnew, hpush.unread, ← DevData.unread_length, List.take_left]

end Pipe

/-- **The receive ring is a FIFO as long as pushes fit.** A run of pushes and
reads from any open ring behaves as a FIFO in all its steps exactly when every
push finds the ring full or room for all its bytes. -/
theorem pipe_fifo_iff {d : DevData} (h : d.Ring) (ops : List Op) :
    EachStep Pipe.step Pipe.StepFifo (Pipe.start d) ops ↔
      EachStep Pipe.step Pipe.Meets (Pipe.start d) ops :=
  eachStep_iff (fun _ op hinv => Pipe.stepFifo_iff hinv op)
    (fun _ _ hinv hmeets => Pipe.step_inv hinv hmeets) (Pipe.start_inv h)

/-- A ring of `UART_DEFAULT_BUF_SIZE` bytes right after `bathos_dev_open`. -/
def openedRing : DevData where
  head := 0
  tail := 0
  size := 16
  buf := fun _ => 0
  hasBuf := true
  rxHwm := 0

theorem openedRing_ring : openedRing.Ring :=
  ⟨⟨4, by decide, rfl⟩, by decide, by decide, rfl⟩

-- Twelve bytes fit, five are read, and the next ten wrap around the end.
theorem pipe_fifo_openedRing :
    EachStep Pipe.step Pipe.StepFifo (Pipe.start openedRing)
      [.push (List.replicate 12 7), .read 5, .push (List.replicate 8 9)] :=
  (pipe_fifo_iff openedRing_ring _).mpr
    ⟨Or.inr (by decide +kernel), trivial, Or.inr (by decide +kernel), trivial⟩

/-- Twenty bytes pushed into the empty ring: the first copy takes 15, the second
one the other 5, past the end of the buffer, and the push returns 20. -/
theorem pipe_not_fifo :
    ¬ ∀ (d : DevData) (ops : List Op), d.Ring →
      EachStep Pipe.step Pipe.StepFifo (Pipe.start d) ops := by
  intro hall
  have hpush := hall openedRing [.push (List.replicate 20 1)] openedRing_ring
  obtain ⟨⟨⟨hret, -⟩, -⟩, -⟩ := hpush
  have hspace : (Pipe.start openedRing).data.space = 15 := by decide +kernel
  have hval : (pipePushChars (Pipe.start openedRing).data (List.replicate 20 1)).ret = 20 := by
    decide +kernel
  rw [hspace, hval] at hret
  rcases hret with ⟨hfull, -⟩ | ⟨-, hmin⟩
  · exact absurd hfull (by decide)
  · exact absurd hmin (by decide)

end Bathos.Drivers
