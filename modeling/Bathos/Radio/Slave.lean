import Bathos.Include.Headers
import Bathos.Lib.Memory
import Bathos.Lib.Run

/-!
# Bathos — the slave side of the radio bridge

`drivers/radio-bridge-slave.c`: `rb_slave_write` stores up to two packets in the
output buffer, and a beacon from the master makes `beacon_handle` send them.

The loop of `beacon_handle` writes the start of the output buffer each time:
with two packets in the buffer the first one is sent twice and the second one
never.

Main result: `slave_fifo_iff` — the packets sent are the packets accepted, in
order, exactly in the runs in which no beacon finds two different packets.
-/

namespace Bathos.Radio

open Bathos.Lib

-- ---------------------------------------------------------------------------
-- radio-bridge-slave.c
-- ---------------------------------------------------------------------------

def MAX_PACKETS_IN_OUTPUT_BUFFER : Nat := 2

/-- `struct rb_slave_private_data`, the buffers by their contents. -/
structure RbSlave where
  packetInInputBuffer : UInt8
  inputBuffer : Nat → UInt8
  inputBytes : Nat
  packetsInOutputBuffer : Nat
  outputBuffer : Nat → UInt8

namespace RbSlave

/-- `rb_slave_read(pipe, buf, len)`: what it returns and copies. -/
def rbSlaveRead (packetSize : Nat) (len : Int) (s : RbSlave) : Int × List UInt8 × RbSlave :=
  let l := min len packetSize
  if s.packetInInputBuffer = 0 then (-EAGAIN, [], s)
  else if l ≤ 0 then (-EINVAL, [], s)
  else
    (l, block s.inputBuffer 0 l.toNat,
      { s with packetInInputBuffer := s.packetInInputBuffer - 1 })

/-- `input_pipe_ready_handle`; `stat` and `bytes` are what `pipe_read` returns and
copies. The second component says whether `evt_pipe_input_ready` is triggered. -/
def inputPipeReadyHandle (packetSize : Nat) (stat : Int) (bytes : List UInt8) (s : RbSlave) :
    RbSlave × Bool :=
  if stat < 0 then (s, false)
  else
    -- every read starts at the beginning of the buffer
    let s := { s with
      inputBuffer := blit s.inputBuffer 0 bytes
      inputBytes := s.inputBytes + stat.toNat }
    if s.inputBytes < packetSize then (s, false)
    else ({ s with packetInInputBuffer := s.packetInInputBuffer + 1, inputBytes := 0 }, true)

/-- `rb_slave_write(pipe, buf, len)`, with `src` the `len` bytes at `buf`. -/
def rbSlaveWrite (packetSize : Nat) (src : List UInt8) (s : RbSlave) : Int × RbSlave :=
  let l := min src.length packetSize
  let offs := s.packetsInOutputBuffer * packetSize
  if s.packetsInOutputBuffer ≥ MAX_PACKETS_IN_OUTPUT_BUFFER then (-EAGAIN, s)
  else
    (l, { s with
      outputBuffer := blit s.outputBuffer offs (src.take l)
      packetsInOutputBuffer := s.packetsInOutputBuffer + 1 })

/-- The loop of `beacon_handle`: what it writes to the radio pipe while
`packets_in_output_buffer` counts down from `n`. -/
def beaconLoop (packetSize : Nat) (outputBuffer : Nat → UInt8) : Nat → List (List UInt8)
  | 0 => []
  | n + 1 => block outputBuffer 0 packetSize :: beaconLoop packetSize outputBuffer n

/-- `beacon_handle`: the packets written to the radio pipe. -/
def beaconHandle (packetSize : Nat) (s : RbSlave) : List (List UInt8) × RbSlave :=
  (beaconLoop packetSize s.outputBuffer s.packetsInOutputBuffer,
    { s with packetsInOutputBuffer := 0 })

/-- The `i`-th packet of the output buffer. -/
def slot (packetSize : Nat) (s : RbSlave) (i : Nat) : List UInt8 :=
  block s.outputBuffer (i * packetSize) packetSize

end RbSlave

-- ---------------------------------------------------------------------------
-- Runs
-- ---------------------------------------------------------------------------

/-- A write of one packet, or a beacon. -/
inductive SlaveOp (packetSize : Nat) where
  | write (src : Vector UInt8 packetSize)
  | beacon

/-- The bridge with its history: the packets whose write returned `packet_size`,
and the packets written to the radio pipe. -/
structure SlaveRun where
  dev : RbSlave
  accepted : List (List UInt8)
  sent : List (List UInt8)

namespace SlaveRun

variable {packetSize : Nat} {s : SlaveRun}

def start (dev : RbSlave) : SlaveRun := ⟨dev, [], []⟩

def step (s : SlaveRun) : SlaveOp packetSize → SlaveRun
  | .write src =>
    let r := s.dev.rbSlaveWrite packetSize src.toList
    { s with
      dev := r.2
      accepted := if r.1 = packetSize then s.accepted ++ [src.toList] else s.accepted }
  | .beacon =>
    let r := s.dev.beaconHandle packetSize
    { s with dev := r.2, sent := s.sent ++ r.1 }

/-- What was sent is the beginning of what was accepted, and all of it after a
beacon. -/
def StepFifo (s : SlaveRun) (op : SlaveOp packetSize) : Prop :=
  (s.step op).sent <+: (s.step op).accepted ∧
    (op = .beacon → (s.step op).sent = (s.step op).accepted)

/-- A beacon finds at most one packet, or twice the same one. -/
def Meets (s : SlaveRun) : SlaveOp packetSize → Prop
  | .write _ => True
  | .beacon => ∀ i < s.dev.packetsInOutputBuffer, s.dev.slot packetSize i = s.dev.slot packetSize 0

/-- The packets not yet sent are those of the output buffer. -/
structure Inv (packetSize : Nat) (s : SlaveRun) : Prop where
  count : s.dev.packetsInOutputBuffer ≤ MAX_PACKETS_IN_OUTPUT_BUFFER
  fifo : s.sent ++ (List.range s.dev.packetsInOutputBuffer).map (s.dev.slot packetSize) = s.accepted

-- ---------------------------------------------------------------------------
-- One step
-- ---------------------------------------------------------------------------

theorem beaconLoop_eq (packetSize : Nat) (outputBuffer : Nat → UInt8) (n : Nat) :
    RbSlave.beaconLoop packetSize outputBuffer n =
      List.replicate n (block outputBuffer 0 packetSize) := by
  induction n with
  | zero => rfl
  | succ n ih =>
    unfold RbSlave.beaconLoop
    rw [ih, List.replicate_succ]

/-- What a beacon sends is what the buffer holds exactly when it holds one packet
over and over. -/
theorem replicate_eq_map_iff {α : Type} {f : Nat → α} {n : Nat} :
    List.replicate n (f 0) = (List.range n).map f ↔ ∀ i < n, f i = f 0 := by
  rw [eq_comm, List.eq_replicate_iff]
  simp

theorem step_beacon (s : SlaveRun) :
    s.step (.beacon : SlaveOp packetSize) =
      ⟨{ s.dev with packetsInOutputBuffer := 0 }, s.accepted,
        s.sent ++ List.replicate s.dev.packetsInOutputBuffer (s.dev.slot packetSize 0)⟩ := by
  unfold step RbSlave.beaconHandle RbSlave.slot
  rw [beaconLoop_eq, Nat.zero_mul]

/-- A full buffer refuses the packet. -/
theorem step_write_full (src : Vector UInt8 packetSize)
    (hfull : MAX_PACKETS_IN_OUTPUT_BUFFER ≤ s.dev.packetsInOutputBuffer) :
    s.step (.write src) = s := by
  have hneg : -EAGAIN ≠ (packetSize : Int) := by
    unfold EAGAIN
    omega
  unfold step RbSlave.rbSlaveWrite
  simp only [ge_iff_le, hfull, if_true, hneg, if_false]

theorem step_write_room (src : Vector UInt8 packetSize)
    (hroom : s.dev.packetsInOutputBuffer < MAX_PACKETS_IN_OUTPUT_BUFFER) :
    s.step (.write src) =
      ⟨{ s.dev with
          outputBuffer :=
            blit s.dev.outputBuffer (s.dev.packetsInOutputBuffer * packetSize) src.toList
          packetsInOutputBuffer := s.dev.packetsInOutputBuffer + 1 },
        s.accepted ++ [src.toList], s.sent⟩ := by
  have hlen : src.toList.length = packetSize := Vector.length_toList
  unfold step RbSlave.rbSlaveWrite
  simp only [ge_iff_le, hroom.not_ge, if_false, hlen, Nat.min_self, if_true]
  rw [List.take_of_length_le hlen.le]

/-- A packet written to the free slot leaves the ones before it alone. -/
theorem slot_write (dev : RbSlave) {src : List UInt8} (hlen : src.length = packetSize) {n i : Nat}
    (hi : i < n + 1) :
    block (blit dev.outputBuffer (n * packetSize) src) (i * packetSize) packetSize =
      if i = n then src else dev.slot packetSize i := by
  by_cases hn : i = n
  · subst hn hlen
    rw [if_pos rfl]
    exact block_blit_self _ _ _
  · rw [if_neg hn]
    have hmul : (i + 1) * packetSize ≤ n * packetSize := Nat.mul_le_mul_right _ (by omega)
    rw [Nat.succ_mul] at hmul
    exact block_blit_frame _ (Or.inl hmul)

theorem write_inv (h : s.Inv packetSize) (src : Vector UInt8 packetSize) :
    (s.step (.write src)).Inv packetSize := by
  by_cases hfull : MAX_PACKETS_IN_OUTPUT_BUFFER ≤ s.dev.packetsInOutputBuffer
  · rw [step_write_full src hfull]
    exact h
  · rw [step_write_room src (Nat.not_le.mp hfull)]
    refine ⟨Nat.not_le.mp hfull, ?_⟩
    have hlen : src.toList.length = packetSize := Vector.length_toList
    show s.sent ++ (List.range (s.dev.packetsInOutputBuffer + 1)).map (fun i =>
      block (blit s.dev.outputBuffer (s.dev.packetsInOutputBuffer * packetSize) src.toList)
        (i * packetSize) packetSize) = s.accepted ++ [src.toList]
    rw [← h.fifo, List.append_assoc, List.range_succ, List.map_append, List.map_singleton,
      slot_write s.dev hlen (Nat.lt_succ_self _), if_pos rfl]
    congr 2
    apply List.map_congr_left
    intro i hi
    have hlt := List.mem_range.mp hi
    rw [slot_write s.dev hlen (by omega), if_neg hlt.ne]

/-- A beacon that meets the condition sends the packets of the buffer. -/
theorem beacon_sent (h : s.Inv packetSize) (hmeets : s.Meets (.beacon : SlaveOp packetSize)) :
    (s.step (.beacon : SlaveOp packetSize)).sent = s.accepted := by
  rw [step_beacon]
  show s.sent ++ _ = s.accepted
  rw [← h.fifo, replicate_eq_map_iff.mpr hmeets]

theorem step_inv (h : s.Inv packetSize) {op : SlaveOp packetSize} (hmeets : s.Meets op) :
    (s.step op).Inv packetSize := by
  cases op with
  | write src => exact write_inv h src
  | beacon =>
    have hsent := beacon_sent h hmeets
    rw [step_beacon] at hsent ⊢
    refine ⟨Nat.zero_le _, ?_⟩
    simp only [List.range_zero, List.map_nil, List.append_nil]
    exact hsent

theorem stepFifo_iff (h : s.Inv packetSize) (op : SlaveOp packetSize) :
    s.StepFifo op ↔ s.Meets op := by
  refine ⟨fun hfifo => ?_, fun hmeets => ?_⟩
  · cases op with
    | write src => trivial
    | beacon =>
      have hall : (s.step (.beacon : SlaveOp packetSize)).sent = s.accepted := by
        have hsent := hfifo.2 rfl
        rw [step_beacon] at hsent ⊢
        exact hsent
      rw [step_beacon] at hall
      rw [← h.fifo] at hall
      exact replicate_eq_map_iff.mp (List.append_cancel_left hall)
  · have hinv := step_inv h hmeets
    refine ⟨⟨_, hinv.fifo⟩, ?_⟩
    rintro rfl
    have hsent := beacon_sent h hmeets
    rw [step_beacon] at hsent ⊢
    exact hsent

theorem start_inv {dev : RbSlave} (hempty : dev.packetsInOutputBuffer = 0) :
    (start dev).Inv packetSize := by
  refine ⟨?_, ?_⟩
  · show dev.packetsInOutputBuffer ≤ _
    rw [hempty]
    exact Nat.zero_le _
  · show [] ++ (List.range dev.packetsInOutputBuffer).map _ = []
    rw [hempty]
    rfl

end SlaveRun

open SlaveRun

/-- **From the slave to the radio.** Starting with an empty output buffer, the
packets sent are the first of the packets accepted, and all of them after each
beacon, exactly in the runs in which every beacon finds at most one packet or
twice the same one. -/
theorem slave_fifo_iff {packetSize : Nat} {dev : RbSlave} (hempty : dev.packetsInOutputBuffer = 0)
    (ops : List (SlaveOp packetSize)) :
    EachStep SlaveRun.step StepFifo (start dev) ops ↔
      EachStep SlaveRun.step Meets (start dev) ops :=
  eachStep_iff (fun (s : SlaveRun) op (h : s.Inv packetSize) => stepFifo_iff h op)
    (fun _ _ h hmeets => step_inv h hmeets) (start_inv hempty)

/-- The private data after `memset`. -/
def idleSlave : RbSlave where
  packetInInputBuffer := 0
  inputBuffer := fun _ => 0
  inputBytes := 0
  packetsInOutputBuffer := 0
  outputBuffer := fun _ => 0

instance SlaveRun.decidableMeets {packetSize : Nat} {s : SlaveRun} :
    ∀ op : SlaveOp packetSize, Decidable (s.Meets op)
  | .write _ => inferInstanceAs (Decidable True)
  | .beacon => inferInstanceAs (Decidable (∀ i < _, _))

-- One packet for each beacon.
theorem slave_fifo_alternating :
    EachStep SlaveRun.step StepFifo (start idleSlave)
      [SlaveOp.write #v[1, 2], .beacon, .beacon, .write #v[3, 4], .beacon] :=
  (slave_fifo_iff rfl _).mpr (by decide +kernel)

/-- Two packets and a beacon: the first one is sent twice. -/
theorem second_packet_not_sent :
    ¬ ∀ (packetSize : Nat) (dev : RbSlave) (ops : List (SlaveOp packetSize)),
      dev.packetsInOutputBuffer = 0 → EachStep SlaveRun.step StepFifo (start dev) ops := by
  intro hall
  obtain ⟨-, -, hbeacon, -⟩ := hall 1 idleSlave [.write #v[1], .write #v[2], .beacon] rfl
  exact absurd (hbeacon.2 rfl) (by decide +kernel)

end Bathos.Radio
