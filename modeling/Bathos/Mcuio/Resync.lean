import Bathos.Mcuio.Framing

/-!
# Bathos — mcuio after a silence

A frame that was abandoned half-way stays in `input_packet`. The next call of
`data_ready_handle` drops it when more than `HZ / 20` jiffies have passed since
the last one, and starts a frame with what it reads.

The receiver may have any history: calls at any times, with any answers of
`pipe_read`. From the silence on, reads answer with bytes and calls stay close.

Main result:

* `resynchronised` — the packets completed after the silence are the bytes that
  arrived after it, cut every 16 bytes.
-/

namespace Bathos.Mcuio

open Bathos.Lib

variable {w hz : Nat}

-- ---------------------------------------------------------------------------
-- Before the silence
-- ---------------------------------------------------------------------------

/-- A call of `data_ready_handle`: its two readings of `jiffies`, and what
`pipe_read` answers. -/
structure Call (w : Nat) where
  now : BitVec w
  now' : BitVec w
  read : Nat → Int × List UInt8

/-- The receiver in zeroed memory. -/
def bootRx (w : Nat) : Rx w := ⟨fun _ => 0, 0, false, 0, 0⟩

/-- The receiver after a history of calls. -/
def afterCalls (hz : Nat) (history : List (Call w)) : Rx w :=
  runFrom (fun rx c => (receive hz c.now c.now' c.read rx).1) (bootRx w) history

/-- Fewer bytes than a packet are pending, and none before the first call. -/
structure Begun (rx : Rx w) : Prop where
  currLen : rx.currLen < packetSize
  initialized : rx.currLen ≠ 0 → rx.initialized = true

theorem receive_begun (now now' : BitVec w) (read : Nat → Int × List UInt8) (rx : Rx w) :
    Begun (receive hz now now' read rx).1 := by
  unfold receive
  simp only
  generalize (if (rx.initialized && rx.currLen != 0 &&
    timeAfter now (rx.last + BitVec.ofNat w (hz / 20))) = true then 0 else rx.currLen) = currLen
  split
  · exact ⟨by simp [packetSize], by simp⟩
  split
  · rename_i hlt
    exact ⟨hlt, fun _ => rfl⟩
  · exact ⟨by simp [packetSize], by simp⟩

theorem afterCalls_begun (hz : Nat) (history : List (Call w)) : Begun (afterCalls hz history) :=
  runFrom_inv (fun rx c _ => receive_begun c.now c.now' c.read rx)
    ⟨by simp [bootRx, packetSize], by simp [bootRx]⟩ history

-- ---------------------------------------------------------------------------
-- From the silence on
-- ---------------------------------------------------------------------------

/-- A call that is answered with the bytes of `piece`. -/
structure Intake (w : Nat) where
  now : BitVec w
  now' : BitVec w
  piece : List UInt8

/-- The receiver, the packets it has completed and the bytes it has read. -/
structure Session (w : Nat) where
  rx : Rx w
  frames : List (List UInt8)
  stream : List UInt8

namespace Session

variable {s : Session w}

def start (rx : Rx w) : Session w := ⟨rx, [], []⟩

def step (hz : Nat) (s : Session w) (a : Intake w) : Session w :=
  let r := receive hz a.now a.now' (fun _ => (a.piece.length, a.piece)) s.rx
  ⟨r.1, s.frames ++ r.2.toList, s.stream ++ a.piece⟩

/-- The bytes of the packet that has been begun. -/
def pending (s : Session w) : List UInt8 := (List.range s.rx.currLen).map s.rx.inputPacket

/-- `pipe_read` returns between 1 and the requested number of bytes. -/
def Fed (hz : Nat) (s : Session w) (a : Intake w) : Prop :=
  a.piece ≠ [] ∧ a.piece.length ≤ Link.asked hz a.now s.rx

/-- More than `HZ / 20` after the last call, and less than half of the range. -/
def AfterSilence (hz : Nat) (s : Session w) (a : Intake w) : Prop :=
  hz / 20 < (a.now - s.rx.last).toNat ∧ (a.now - s.rx.last).toNat < 2 ^ (w - 1)

/-- At most `HZ / 20` after the last call. -/
def Close (hz : Nat) (s : Session w) (a : Intake w) : Prop :=
  (a.now - s.rx.last).toNat ≤ hz / 20

/-- What has arrived is the completed packets and the one begun. -/
structure Cut (s : Session w) : Prop where
  bytes : s.frames.flatten ++ s.pending = s.stream
  frames : ∀ f ∈ s.frames, f.length = packetSize
  currLen : s.rx.currLen < packetSize

/-- After the silence the timeout strikes. -/
theorem late {now last : BitVec w} (hlo : hz / 20 < (now - last).toNat)
    (hhi : (now - last).toNat < 2 ^ (w - 1)) :
    timeAfter now (last + BitVec.ofNat w (hz / 20)) = true := by
  have hnow : now - last = BitVec.ofNat w (now - last).toNat := by
    rw [BitVec.ofNat_toNat, BitVec.setWidth_eq]
  -- what has passed beyond the `HZ / 20`
  have hsplit : BitVec.ofNat w (now - last).toNat =
      BitVec.ofNat w ((now - last).toNat - hz / 20) + BitVec.ofNat w (hz / 20) := by
    rw [← BitVec.ofNat_add, Nat.sub_add_cancel hlo.le]
  have hneg : last + BitVec.ofNat w (hz / 20) - now =
      -BitVec.ofNat w ((now - last).toNat - hz / 20) := by
    rw [hsplit] at hnow
    grind
  have hw : w ≠ 0 := by
    rintro rfl
    simp at hhi
    omega
  have hhalf : 2 ^ w = 2 ^ (w - 1) + 2 ^ (w - 1) :=
    (Nat.two_pow_pred_add_two_pow_pred (Nat.pos_of_ne_zero hw)).symm
  have hmod : ((now - last).toNat - hz / 20) % 2 ^ w = (now - last).toNat - hz / 20 :=
    Nat.mod_eq_of_lt (by omega)
  unfold timeAfter
  rw [hneg, decide_eq_true_eq, BitVec.toInt_neg_iff, BitVec.toNat_neg, BitVec.toNat_ofNat, hmod,
    Nat.mod_eq_of_lt (by omega)]
  omega

/-- The first call after the silence sees no packet begun. -/
theorem receive_late {rx : Rx w} (hrx : Begun rx) {now : BitVec w}
    (hlate : timeAfter now (rx.last + BitVec.ofNat w (hz / 20)) = true) (now' : BitVec w)
    (read : Nat → Int × List UInt8) :
    receive hz now now' read rx = receive hz now now' read { rx with currLen := 0 } ∧
      Link.asked hz now rx = packetSize := by
  by_cases hzero : rx.currLen = 0
  · have hsame : ({ rx with currLen := 0 } : Rx w) = rx := by rw [← hzero]
    rw [hsame]
    refine ⟨rfl, ?_⟩
    unfold Link.asked
    simp [hzero]
  · have hinit := hrx.initialized hzero
    have hstrikes : (rx.initialized && rx.currLen != 0 &&
        timeAfter now (rx.last + BitVec.ofNat w (hz / 20))) = true := by
      simp [hinit, hzero, hlate]
    constructor
    · unfold receive
      rw [hstrikes]
      simp
    · unfold Link.asked
      rw [hstrikes]
      rfl

/-- A read that is appended to a packet, possibly an empty one. -/
theorem cut_step {rx : Rx w} {a : Intake w} (hcut : (⟨rx, s.frames, s.stream⟩ : Session w).Cut)
    (hlate : (rx.initialized && rx.currLen != 0 &&
      timeAfter a.now (rx.last + BitVec.ofNat w (hz / 20))) = false)
    (hne : a.piece ≠ []) (hle : rx.currLen + a.piece.length ≤ packetSize)
    {r : Rx w × Option (List UInt8)}
    (hr : r = receive hz a.now a.now' (fun _ => (a.piece.length, a.piece)) rx) :
    (⟨r.1, s.frames ++ r.2.toList, s.stream ++ a.piece⟩ : Session w).Cut := by
  obtain ⟨hcells, hframe, hcurr⟩ := Link.receive_bytes hlate rfl hne hle hr
  refine ⟨?_, ?_, hcurr⟩
  · have hbytes := hcut.bytes
    unfold pending at hbytes ⊢
    simp only at hbytes ⊢
    rw [List.flatten_append, List.append_assoc, hcells, ← List.append_assoc, hbytes]
  · intro f hf
    rcases List.mem_append.mp hf with hold | hnew
    · exact hcut.frames f hold
    · exact hframe f hnew

theorem first_cut {rx : Rx w} (hrx : Begun rx) {a : Intake w}
    (hsilence : AfterSilence hz (start rx) a) (hans : Fed hz (start rx) a) :
    (step hz (start rx) a).Cut := by
  obtain ⟨hsame, hasked⟩ := receive_late hrx (late hsilence.1 hsilence.2) a.now'
    fun _ => (a.piece.length, a.piece)
  have hle : a.piece.length ≤ packetSize := hasked ▸ hans.2
  have hcut : (⟨{ rx with currLen := 0 }, [], []⟩ : Session w).Cut :=
    ⟨rfl, nofun, show 0 < packetSize by decide⟩
  refine cut_step hcut ?_ hans.1 ?_ hsame
  · simp
  · show 0 + a.piece.length ≤ packetSize
    omega

theorem next_cut (hhz : hz / 20 < 2 ^ (w - 1)) {a : Intake w} (hcut : s.Cut)
    (hclose : Close hz s a) (hans : Fed hz s a) : (step hz s a).Cut := by
  have hlate : (s.rx.initialized && s.rx.currLen != 0 &&
      timeAfter a.now (s.rx.last + BitVec.ofNat w (hz / 20))) = false := by
    rw [Link.not_late hhz hclose, Bool.and_false]
  have hle := hans.2
  unfold Link.asked at hle
  rw [hlate] at hle
  have hcurr := hcut.currLen
  exact cut_step hcut hlate hans.1 (by simp at hle; omega) rfl

/-- Lists of one length are found again in what they make up together. -/
theorem eq_map_cut {α : Type} {n : Nat} {l : List (List α)} (hl : ∀ f ∈ l, f.length = n)
    (rest : List α) :
    l = (List.range l.length).map fun i => ((l.flatten ++ rest).drop (n * i)).take n := by
  induction l with
  | nil => rfl
  | cons f l ih =>
    have hf : f.length = n := hl f List.mem_cons_self
    rw [List.length_cons, List.range_succ_eq_map, List.map_cons, List.map_map, List.flatten_cons,
      List.append_assoc]
    congr 1
    · rw [Nat.mul_zero, List.drop_zero, ← hf, List.take_left]
    · have htail := ih fun g hg => hl g (List.mem_cons_of_mem f hg)
      conv_lhs => rw [htail]
      apply List.map_congr_left
      intro i _
      simp only [Function.comp_apply]
      rw [Nat.mul_succ, Nat.add_comm, ← List.drop_drop, ← hf, List.drop_left]

/-- What has arrived determines the packets and what is pending. -/
theorem Cut.frames_eq (h : s.Cut) :
    s.frames = (List.range (s.stream.length / packetSize)).map (fun i =>
        (s.stream.drop (packetSize * i)).take packetSize) ∧
      s.pending = s.stream.drop (packetSize * (s.stream.length / packetSize)) := by
  have hlen : s.frames.flatten.length = packetSize * s.frames.length := by
    rw [List.length_flatten, List.map_congr_left h.frames]
    simp [Nat.mul_comm]
  have hpend : s.pending.length = s.rx.currLen := by
    unfold pending
    rw [List.length_map, List.length_range]
  have hcount : s.stream.length / packetSize = s.frames.length := by
    have hcurr := h.currLen
    rw [← h.bytes, List.length_append, hlen, hpend, Nat.mul_add_div (by decide),
      Nat.div_eq_of_lt hcurr, Nat.add_zero]
  rw [hcount]
  constructor
  · rw [← h.bytes]
    exact eq_map_cut h.frames _
  · rw [← h.bytes, ← hlen, List.drop_left]

end Session

open Session

/-- **Resynchronisation.** After any history of calls, with whatever is pending:
once a call comes more than `HZ / 20` and less than half the range of `jiffies`
after the last one, and as long as the following ones stay within `HZ / 20`, the
packets completed are the bytes read since, cut every 16 bytes, and the bytes
after the last packet are the ones pending. -/
theorem resynchronised (history : List (Call w)) (first : Intake w) (rest : List (Intake w))
    (hsilence : AfterSilence hz (start (afterCalls hz history)) first)
    (hfirst : Fed hz (start (afterCalls hz history)) first)
    (hrest : EachStep (step hz) (fun s a => Close hz s a ∧ Fed hz s a)
      (step hz (start (afterCalls hz history)) first) rest)
    {s : Session w}
    (hs : s = runFrom (step hz) (start (afterCalls hz history)) (first :: rest)) :
    s.stream = ((first :: rest).map Intake.piece).flatten ∧
      s.frames = (List.range (s.stream.length / packetSize)).map (fun i =>
        (s.stream.drop (packetSize * i)).take packetSize) ∧
      s.pending = s.stream.drop (packetSize * (s.stream.length / packetSize)) := by
  have hhz : hz / 20 < 2 ^ (w - 1) := hsilence.1.trans hsilence.2
  have hcut : s.Cut := by
    rw [hs, runFrom_cons]
    exact EachStep.inv (fun (s : Session w) _ hcut h => next_cut hhz hcut h.1 h.2)
      (first_cut (afterCalls_begun hz history) hsilence hfirst) hrest
  -- the bytes read are the pieces, in order
  have hstream : ∀ (as : List (Intake w)) (t : Session w),
      (runFrom (step hz) t as).stream = t.stream ++ (as.map Intake.piece).flatten := by
    intro as
    induction as with
    | nil =>
      intro t
      simp
    | cons a as ih =>
      intro t
      rw [runFrom_cons, ih]
      simp [step]
  refine ⟨?_, hcut.frames_eq⟩
  rw [hs, hstream]
  rfl

-- Five stale bytes, a silence across the wrap of `jiffies`, and a frame in two pieces.
theorem resynchronised_wrap :
    (runFrom (step 100) (start (afterCalls 100
        [⟨0xfffffff0, 0xfffffff0, fun _ => (5, [1, 2, 3, 4, 5])⟩]))
      [(⟨0x10, 0x10, List.replicate 6 7⟩ : Intake 32), ⟨0x12, 0x12, List.replicate 10 8⟩]).frames =
      [List.replicate 6 7 ++ List.replicate 10 8] := by
  obtain ⟨hstream, hframes, -⟩ :=
    @resynchronised 32 100 [⟨0xfffffff0, 0xfffffff0, fun _ => (5, [1, 2, 3, 4, 5])⟩]
      ⟨0x10, 0x10, List.replicate 6 7⟩ [⟨0x12, 0x12, List.replicate 10 8⟩]
      (by unfold AfterSilence; decide) (by unfold Fed; decide)
      ⟨⟨by unfold Close; decide, by unfold Fed; decide⟩, trivial⟩ _ rfl
  rw [hframes, hstream]
  decide

end Bathos.Mcuio
