import Bathos.Drivers.Dev
import Bathos.Mcuio.Task

/-!
# Bathos — from received bytes to packets

The input side of the mcuio task as a whole: the low-level driver pushes bytes
into the ring of the input pipe (`drivers/dev.c`), every push and every read that
leaves bytes behind queues an input-ready event, and each event is handled by one
`data_ready_handle`, which reads what it can of the packet it is waiting for.

One event is queued per push, but one read can take the bytes of several pushes.
The events left over then find the ring empty: `bathos_dev_read` returns
`-EAGAIN`, and `data_ready_handle` drops the packet it has begun.

Main results:

* `step_framed` — a push that fits, and an event that does not find the ring
  empty in the middle of a packet, keep the packets equal to the stream cut every
  16 bytes;
* `framing_iff` — a run frames its stream correctly exactly when all its events
  are of this kind.
-/

namespace Bathos.Mcuio

open Bathos.Lib Bathos.Drivers

variable {w hz : Nat}

-- ---------------------------------------------------------------------------
-- Statement
-- ---------------------------------------------------------------------------

/-- The input side: the ring of the device's only pipe, how many input-ready
events are queued, the receiver, the packets completed, and all bytes pushed. -/
structure Link (w : Nat) where
  ring : DevData
  events : Nat
  rx : Rx w
  frames : List (List UInt8)
  stream : List UInt8

/-- A push by the driver, or the handling of one event; `now` and `now'` are the
two reads of `jiffies`. -/
inductive LinkOp (w : Nat) where
  | push (src : List UInt8)
  | handle (now now' : BitVec w)

namespace Link

variable {t : Link w}

def start (ring : DevData) (rx : Rx w) : Link w := ⟨ring, 0, rx, [], []⟩

/-- How many bytes `data_ready_handle` asks for. -/
def asked (hz : Nat) (now : BitVec w) (rx : Rx w) : Nat :=
  packetSize - if rx.initialized && rx.currLen != 0 &&
    timeAfter now (rx.last + BitVec.ofNat w (hz / 20)) then 0 else rx.currLen

example (now now' : BitVec w) (read : Nat → Int × List UInt8) (rx : Rx w) :
    receive hz now now' read rx = receive hz now now' (fun _ => read (asked hz now rx)) rx := rfl

def step (hz : Nat) (t : Link w) : LinkOp w → Link w
  | .push src =>
    let r := pipePushChars t.ring src
    { t with
      ring := r.data
      events := t.events + if r.event then 1 else 0
      stream := t.stream ++ src }
  | .handle now now' =>
    if t.events = 0 then t
    else
      let r := devRead t.ring (asked hz now t.rx)
      let (rx, frame) := receive hz now now' (fun _ => (r.ret, r.bytes)) t.rx
      { t with
        ring := r.data
        events := t.events - 1 + if r.event then 1 else 0
        rx := rx
        frames := t.frames ++ frame.toList }

/-- The bytes of the packet that has been begun. -/
def pending (t : Link w) : List UInt8 := (List.range t.rx.currLen).map t.rx.inputPacket

/-- The stream is cut into packets: those completed, the one begun, and the bytes
still in the ring, for which an event is queued. -/
structure Framed (t : Link w) : Prop where
  bytes : t.frames.flatten ++ t.pending ++ t.ring.unread = t.stream
  frames : ∀ f ∈ t.frames, f.length = packetSize
  currLen : t.rx.currLen < packetSize
  armed : t.ring.unread ≠ [] → t.events ≠ 0

/-- The ring is never full, and two calls of `data_ready_handle` are never more
than `HZ / 20` apart. -/
def InTime (hz : Nat) (t : Link w) : LinkOp w → Prop
  | .push src => t.ring.space ≠ 0 ∧ src.length ≤ t.ring.space
  | .handle now _ =>
    t.events ≠ 0 → t.rx.initialized = true → (now - t.rx.last).toNat ≤ hz / 20

def StepFramed (hz : Nat) (t : Link w) (op : LinkOp w) : Prop := (t.step hz op).Framed

/-- No event finds the ring empty in the middle of a packet. -/
def NotStarved (t : Link w) : LinkOp w → Prop
  | .push _ => True
  | .handle _ _ => t.events ≠ 0 → t.ring.unread ≠ [] ∨ t.rx.currLen = 0

instance : ∀ op, Decidable (t.InTime hz op)
  | .push _ => inferInstanceAs (Decidable (_ ∧ _))
  | .handle _ _ => inferInstanceAs (Decidable (_ → _))

instance : ∀ op, Decidable (t.NotStarved op)
  | .push _ => inferInstanceAs (Decidable True)
  | .handle _ _ => inferInstanceAs (Decidable (_ → _))

-- ---------------------------------------------------------------------------
-- One call
-- ---------------------------------------------------------------------------

/-- Within `HZ / 20` the timeout does not strike. -/
theorem not_late {now last : BitVec w} (hhz : hz / 20 < 2 ^ (w - 1))
    (h : (now - last).toNat ≤ hz / 20) :
    timeAfter now (last + BitVec.ofNat w (hz / 20)) = false := by
  -- what is left of the `HZ / 20` is the difference the macro looks at
  have hleft : last + BitVec.ofNat w (hz / 20) - now =
      BitVec.ofNat w (hz / 20 - (now - last).toNat) := by
    have hnow : now - last = BitVec.ofNat w (now - last).toNat := by
      rw [BitVec.ofNat_toNat, BitVec.setWidth_eq]
    have hsplit : BitVec.ofNat w (hz / 20) =
        BitVec.ofNat w (hz / 20 - (now - last).toNat) + BitVec.ofNat w (now - last).toNat := by
      rw [← BitVec.ofNat_add, Nat.sub_add_cancel h]
    rw [hsplit]
    grind
  unfold timeAfter
  rw [hleft, decide_eq_false_iff_not, BitVec.toInt_neg_iff, BitVec.toNat_ofNat]
  have hmod := Nat.mod_le (hz / 20 - (now - last).toNat) (2 ^ w)
  have hhalf : w = 0 ∨ 2 ^ w = 2 * 2 ^ (w - 1) := by
    cases w with
    | zero => exact Or.inl rfl
    | succ w => exact Or.inr (by rw [Nat.pow_succ, Nat.add_sub_cancel, Nat.mul_comm])
  rcases hhalf with rfl | hhalf
  · rw [pow_zero, Nat.mod_one]
    decide
  · omega

theorem not_timedOut {now now' : BitVec w} (hhz : hz / 20 < 2 ^ (w - 1))
    (hin : t.InTime hz (.handle now now')) (hev : t.events ≠ 0) :
    (t.rx.initialized && t.rx.currLen != 0 &&
      timeAfter now (t.rx.last + BitVec.ofNat w (hz / 20))) = false := by
  cases hinit : t.rx.initialized with
  | false => rfl
  | true => rw [not_late hhz (hin hev hinit), Bool.and_false]

section Receive

variable {now now' : BitVec w} {rx : Rx w}

/-- A failed read drops the packet that has been begun. -/
theorem receive_error {stat : Int} {bytes : List UInt8} (hstat : stat ≤ 0)
    {r : Rx w × Option (List UInt8)}
    (hr : r = receive hz now now' (fun _ => (stat, bytes)) rx) :
    r.1.currLen = 0 ∧ r.2 = none := by
  subst hr
  unfold receive
  simp only [hstat, if_true, and_self]

/-- A read of `bytes` appends them to the packet that has been begun, and
completes it when they are all that was missing. -/
theorem receive_bytes {bytes : List UInt8} {stat : Int}
    (hlate : (rx.initialized && rx.currLen != 0 &&
      timeAfter now (rx.last + BitVec.ofNat w (hz / 20))) = false)
    (hstat : stat = bytes.length) (hne : bytes ≠ []) (hle : rx.currLen + bytes.length ≤ packetSize)
    {r : Rx w × Option (List UInt8)}
    (hr : r = receive hz now now' (fun _ => (stat, bytes)) rx) :
    r.2.toList.flatten ++ (List.range r.1.currLen).map r.1.inputPacket =
        (List.range rx.currLen).map rx.inputPacket ++ bytes ∧
      (∀ f ∈ r.2.toList, f.length = packetSize) ∧ r.1.currLen < packetSize := by
  have hpos : 0 < bytes.length := List.length_pos_iff.mpr hne
  have hnot : ¬ (bytes.length : Int) ≤ 0 := by omega
  have hcells := range_map_blit rx.inputPacket rx.currLen bytes
  subst hstat
  unfold receive at hr
  simp only [hlate, Bool.false_eq_true, if_false, hnot, Int.toNat_natCast] at hr
  split at hr
  · rename_i hpart
    subst hr
    refine ⟨?_, by simp, hpart⟩
    simpa using hcells
  · rename_i hfull
    have hlen : packetSize = rx.currLen + bytes.length := by omega
    subst hr
    refine ⟨?_, by simp, show 0 < packetSize by decide⟩
    simp only [Option.toList_some, List.flatten_cons, List.flatten_nil, List.append_nil,
      List.range_zero, List.map_nil]
    rw [hlen]
    exact hcells

end Receive

theorem step_handle (hev : t.events ≠ 0) {now now' : BitVec w} {r : ReadResult}
    (hr : r = devRead t.ring (asked hz now t.rx)) {q : Rx w × Option (List UInt8)}
    (hq : q = receive hz now now' (fun _ => (r.ret, r.bytes)) t.rx) :
    t.step hz (.handle now now') =
      ⟨r.data, t.events - 1 + if r.event then 1 else 0, q.1, t.frames ++ q.2.toList, t.stream⟩ := by
  subst hr hq
  unfold step
  simp only [hev, if_false]

theorem pending_length (t : Link w) : t.pending.length = t.rx.currLen := by
  unfold pending
  rw [List.length_map, List.length_range]

/-- What a run keeps up. -/
structure Inv (t : Link w) : Prop extends t.Framed where
  ring : t.ring.Ring
  rxHwm : t.ring.rxHwm = 0

/-- An event that finds the ring empty: `-EAGAIN`, and what was begun is gone. -/
theorem handle_starved {now now' : BitVec w} (hring : t.ring.Ring) (hev : t.events ≠ 0)
    (hempty : t.ring.unread = []) {t' : Link w} (ht' : t' = t.step hz (.handle now now')) :
    t'.ring.Ring ∧ t'.ring.unread = [] ∧ t'.ring.rxHwm = t.ring.rxHwm ∧ t'.frames = t.frames ∧
      t'.stream = t.stream ∧ t'.rx.currLen = 0 := by
  have hcnt : t.ring.cnt = 0 := by rw [← DevData.unread_length, hempty, List.length_nil]
  have hl : 0 = min (asked hz now t.rx) (min t.ring.cnt (t.ring.size - t.ring.tail)) := by omega
  obtain ⟨r, hr⟩ : ∃ r, r = devRead t.ring (asked hz now t.rx) := ⟨_, rfl⟩
  obtain ⟨q, hq⟩ : ∃ q, q = receive hz now now' (fun _ => (r.ret, r.bytes)) t.rx := ⟨_, rfl⟩
  obtain ⟨hret, -, hring', hunread, -, hhwm, -⟩ := devRead_spec hring hl
  rw [← hr] at hret hring' hunread hhwm
  have herror : r.ret ≤ 0 := by
    rw [hret]
    decide
  obtain ⟨hlen, hframe⟩ := receive_error herror hq
  rw [ht', step_handle hev hr hq]
  refine ⟨hring', ?_, hhwm, ?_, rfl, hlen⟩
  · rw [hunread, hempty, List.drop_nil]
  · rw [hframe, Option.toList_none, List.append_nil]

/-- An event that finds bytes in the ring moves some of them to the packet. -/
theorem handle_reads {now now' : BitVec w} (hhz : hz / 20 < 2 ^ (w - 1)) (h : t.Inv)
    (hin : t.InTime hz (.handle now now')) (hev : t.events ≠ 0) (hbytes : t.ring.unread ≠ []) :
    (t.step hz (.handle now now')).Inv := by
  have hlate := not_timedOut hhz hin hev
  have hasked : asked hz now t.rx = packetSize - t.rx.currLen := by
    unfold asked
    rw [hlate]
    rfl
  obtain ⟨l, hl⟩ : ∃ l, l = min (asked hz now t.rx) (min t.ring.cnt (t.ring.size - t.ring.tail)) :=
    ⟨_, rfl⟩
  obtain ⟨r, hr⟩ : ∃ r, r = devRead t.ring (asked hz now t.rx) := ⟨_, rfl⟩
  obtain ⟨q, hq⟩ : ∃ q, q = receive hz now now' (fun _ => (r.ret, r.bytes)) t.rx := ⟨_, rfl⟩
  obtain ⟨hret, htaken, hring, hunread, -, hhwm, hevent⟩ := devRead_spec h.ring hl
  rw [← hr] at hret htaken hring hunread hhwm hevent
  have hcnt : t.ring.cnt ≠ 0 := DevData.unread_ne_nil.mp hbytes
  have hcurr := h.currLen
  have htail := h.ring.tail_lt
  have hpos : l ≠ 0 := by omega
  have hlen : r.bytes.length = l := by
    rw [htaken, List.length_take, DevData.unread_length]
    omega
  rw [if_neg hpos, ← hlen] at hret
  have hne : r.bytes ≠ [] := by
    rw [← List.length_pos_iff]
    omega
  obtain ⟨hcells, hframe, hcurr'⟩ := receive_bytes hlate hret hne (by omega) hq
  rw [step_handle hev hr hq]
  refine ⟨⟨?_, ?_, hcurr', ?_⟩, hring, hhwm.trans h.rxHwm⟩
  · -- the bytes taken are the oldest unread ones
    show (t.frames ++ q.2.toList).flatten ++ (List.range q.1.currLen).map q.1.inputPacket ++
      r.data.unread = t.stream
    rw [List.flatten_append, List.append_assoc t.frames.flatten, hcells, hunread, htaken,
      ← h.bytes]
    unfold pending
    simp only [List.append_assoc, List.take_append_drop]
  · intro f hf
    rcases List.mem_append.mp hf with hold | hnew
    · exact h.frames f hold
    · exact hframe f hnew
  · -- the read re-arms itself
    intro hleft
    show t.events - 1 + (if r.event then 1 else 0) ≠ 0
    rw [if_pos (hevent.mpr ⟨hpos, hleft⟩)]
    exact Nat.succ_ne_zero _

/-- A push that fits appends its bytes to the unread ones and queues an event. -/
theorem push_inv {src : List UInt8} (h : t.Inv) (hin : t.InTime hz (.push src)) :
    (t.step hz (.push src)).Inv := by
  have hpush := pipePushChars_spec h.ring hin.1 hin.2
  refine ⟨⟨?_, h.frames, h.currLen, ?_⟩, hpush.ring, hpush.rxHwm.trans h.rxHwm⟩
  · show t.frames.flatten ++ t.pending ++ (pipePushChars t.ring src).data.unread = t.stream ++ src
    rw [hpush.unread, ← List.append_assoc, h.bytes]
  · intro hbytes
    have hcnt : (pipePushChars t.ring src).data.cnt ≠ 0 := DevData.unread_ne_nil.mp hbytes
    have hevent : (pipePushChars t.ring src).event = true := by
      rw [hpush.event, hpush.rxHwm, h.rxHwm, decide_eq_true_eq]
      omega
    show t.events + (if (pipePushChars t.ring src).event then 1 else 0) ≠ 0
    rw [if_pos hevent]
    exact Nat.succ_ne_zero _

/-- One step: whatever is pushed, and every event that is not starved. -/
theorem step_framed (hhz : hz / 20 < 2 ^ (w - 1)) (h : t.Inv) {op : LinkOp w}
    (hin : t.InTime hz op) (hns : t.NotStarved op) : (t.step hz op).Inv := by
  cases op with
  | push src => exact push_inv h hin
  | handle now now' =>
    by_cases hev : t.events = 0
    · have hstay : t.step hz (.handle now now') = t := if_pos hev
      rw [hstay]
      exact h
    · by_cases hempty : t.ring.unread = []
      · -- nothing has been begun, so nothing is lost
        have hcurr : t.rx.currLen = 0 := (hns hev).resolve_left (not_not.mpr hempty)
        obtain ⟨hring, hunread, hhwm, hframes, hstream, hcurr'⟩ :=
          handle_starved h.ring hev hempty (rfl : t.step hz (.handle now now') = _)
        have hbytes := h.bytes
        unfold pending at hbytes
        rw [hcurr, hempty] at hbytes
        refine ⟨⟨?_, ?_, ?_, fun hleft => absurd hunread hleft⟩, hring, hhwm.trans h.rxHwm⟩
        · unfold pending
          rw [hcurr', hunread, hframes, hstream]
          exact hbytes
        · rw [hframes]
          exact h.frames
        · rw [hcurr']
          decide
      · exact handle_reads hhz h hin hev hempty

/-- A step keeps the packets right exactly when it is not a starved event: that
one loses the bytes of the packet that has been begun. -/
theorem stepFramed_iff (hhz : hz / 20 < 2 ^ (w - 1)) (h : t.Inv) {op : LinkOp w}
    (hin : t.InTime hz op) : t.StepFramed hz op ↔ t.NotStarved op := by
  refine ⟨fun hframed => ?_, fun hns => (step_framed hhz h hin hns).toFramed⟩
  cases op with
  | push src => trivial
  | handle now now' =>
    intro hev
    by_contra hbad
    rw [not_or, not_not] at hbad
    obtain ⟨hempty, hcurr⟩ := hbad
    obtain ⟨-, hunread, -, hframes, hstream, hcurr'⟩ :=
      handle_starved h.ring hev hempty (rfl : t.step hz (.handle now now') = _)
    have hafter := congrArg List.length hframed.bytes
    have hbefore := congrArg List.length h.bytes
    rw [List.length_append, List.length_append, pending_length, hunread, hframes, hstream,
      hcurr'] at hafter
    rw [List.length_append, List.length_append, pending_length, hempty] at hbefore
    omega

theorem start_inv {ring : DevData} {rx : Rx w} (hring : ring.Ring) (hhwm : ring.rxHwm = 0)
    (hunread : ring.unread = []) (hrx : rx.currLen = 0) : (start ring rx).Inv := by
  refine ⟨⟨?_, nofun, ?_, fun hne => absurd hunread hne⟩, hring, hhwm⟩
  · unfold pending start
    simp only [hrx, hunread]
    rfl
  · show rx.currLen < packetSize
    rw [hrx]
    decide

end Link

open Link

/-- **Framing.** From an empty ring and with no packet begun, and as long as the
ring never fills up and the calls stay within `HZ / 20` of one another, the
packets are the stream cut every 16 bytes in all states of a run exactly when no
event of the run finds the ring empty in the middle of a packet. -/
theorem framing_iff {ring : DevData} {rx : Rx w} (hhz : hz / 20 < 2 ^ (w - 1)) (hring : ring.Ring)
    (hhwm : ring.rxHwm = 0) (hunread : ring.unread = []) (hrx : rx.currLen = 0)
    (ops : List (LinkOp w)) (hin : EachStep (Link.step hz) (InTime hz) (start ring rx) ops) :
    EachStep (Link.step hz) (StepFramed hz) (start ring rx) ops ↔
      EachStep (Link.step hz) NotStarved (start ring rx) ops :=
  EachStep.iff_of (fun (t : Link w) _ (h : t.Inv) hin => stepFramed_iff hhz h hin)
    (fun _ _ h hin hns => step_framed hhz h hin hns) (start_inv hring hhwm hunread hrx) hin

/-- The receiver before the first event. -/
def idleRx : Rx 32 where
  inputPacket := fun _ => 0
  currLen := 0
  initialized := false
  last := 0
  reopened := 0

-- Two pushes completing a packet in one read: the event left over finds the ring
-- empty, and nothing begun.
theorem framing_completed :
    EachStep (Link.step 250) (StepFramed 250) (start openedRing idleRx)
      [.push (List.replicate 8 1), .handle 3 3, .push (List.replicate 4 2),
        .push (List.replicate 4 3), .handle 5 6, .handle 6 6] :=
  (framing_iff (by decide) openedRing_ring rfl rfl rfl _ (by decide +kernel)).mpr
    (by decide +kernel)

/-- Two pushes of four bytes, both read by the first event: the second one finds
the ring empty, and the eight bytes of the packet begun are dropped. -/
theorem begun_packet_lost :
    ¬ ∀ (ring : DevData) (rx : Rx 32) (ops : List (LinkOp 32)), ring.Ring → ring.rxHwm = 0 →
      ring.unread = [] → rx.currLen = 0 →
      EachStep (Link.step 250) (InTime 250) (start ring rx) ops →
      EachStep (Link.step 250) (StepFramed 250) (start ring rx) ops := by
  intro hall
  have hrun := hall openedRing idleRx
    [.push (List.replicate 4 1), .push (List.replicate 4 2), .handle 3 3, .handle 3 3]
    openedRing_ring rfl rfl rfl (by decide +kernel)
  obtain ⟨-, -, -, hlast, -⟩ := hrun
  exact absurd (congrArg List.length hlast.bytes) (by decide +kernel)

end Bathos.Mcuio
