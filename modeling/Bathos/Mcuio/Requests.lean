import Bathos.Mcuio.Task

/-!
# Bathos — mcuio requests and their replies

A request is a packet for device 1 without the reply bit. The host expects one
reply packet for each request, with the request's addressing and type, the reply
bit set, and the error bit set exactly for a request that failed.

The reply is composed in the `to_host` packet of the function's runtime, which
is only written once a range has been found. So the four ways to fail do not
look alike on the wire: an unknown function sends the request back without the
reply bit and with a negative error number, and a failed range lookup sends
whatever the runtime held before.

Main results:

* `handlePacket_iff` — for one packet, exactly when the reply is right;
* `replies_iff` — the same for every sequence of packets;
* `access_in_range_iff` — exactly when a request stays inside its range.
-/

namespace Bathos.Mcuio

open Bathos.Lib

variable {sz : IntSize} {σ : Type} {w : Nat}

-- ---------------------------------------------------------------------------
-- The type byte
-- ---------------------------------------------------------------------------

/-- The type byte without its error bit. -/
def clearError (t : BitVec 8) : BitVec 8 := t &&& ~~~(1#8 <<< 5)

theorem clearError_or (t : BitVec 8) : clearError (t ||| (1#8 <<< 5)) = clearError t := by
  revert t
  decide +kernel

theorem error_or (t : BitVec 8) : ((t ||| (1#8 <<< 5)) &&& (1#8 <<< 5) != 0#8) = true := by
  revert t
  decide +kernel

theorem error_or_reply (t : BitVec 8) :
    ((t ||| (1#8 <<< 6)) &&& (1#8 <<< 5) != 0#8) = (t &&& (1#8 <<< 5) != 0#8) := by
  revert t
  decide +kernel

/-- Without the reply bit a type byte is not that of a reply. -/
theorem clearError_ne_reply (t : BitVec 8) (h : (t &&& (1#8 <<< 6) != 0#8) = false) :
    clearError t ≠ clearError (t ||| (1#8 <<< 6)) := by
  revert t
  decide +kernel

/-- What is not a read is a write. -/
theorem Packet.isWrite_eq (p : Packet) : p.isWrite = !p.isRead := by
  unfold Packet.isWrite Packet.isRead
  rw [bne]

/-- Reads and writes of one size use the same index. -/
theorem writeIndex_eq (p : Packet) (h : p.isRead = false) : writeIndex p = readIndex p := by
  unfold Packet.isRead at h
  unfold writeIndex readIndex
  generalize p.type = t at h ⊢
  revert t
  decide +kernel

theorem Packet.isError_errorPacket (p : Packet) (e : Int) : (errorPacket p e).isError = true :=
  error_or p.type

theorem Packet.isError_setReply (p : Packet) : p.setReply.isError = p.isError :=
  error_or_reply p.type

-- ---------------------------------------------------------------------------
-- What a reply has to be
-- ---------------------------------------------------------------------------

/-- The request fails: no function, no range, no operation, or a negative status. -/
def RequestFails (fns : List (Function sz σ)) (p : Packet) (world : World σ) : Prop :=
  match getFunction fns p.func with
  | none => True
  | some f =>
    match lookupRange f p with
    | none => True
    | some r =>
      match pickOp r p with
      | .error _ => True
      | .ok op =>
        match op.run r p world with
        | none => True
        | some res => res.status < 0

/-- Addressing and type of a reply to `p`, error bit aside. -/
structure Matches (q p : Packet) : Prop where
  bus : q.bus = p.bus
  dev : q.dev = p.dev
  func : q.func = p.func
  offset : q.offset = p.offset
  type : clearError q.type = clearError p.setReply.type

/-- One packet was sent, and it is the right reply to `p`. -/
def Answered (fns : List (Function sz σ)) (p : Packet) (s s' : Host σ) : Prop :=
  ∃ q : Packet, s'.out = s.out ++ [q.encode] ∧ q.encode.length = packetSize ∧ Matches q p ∧
    (q.isError = true ↔ RequestFails fns p s.world) ∧ (q.isError = true → 0 < q.data0.toInt)

/-- The packet is handled, and answered if it is a request for this device. -/
def PacketOk (fns : List (Function sz σ)) (s : Host σ) (p : Packet) : Prop :=
  ∃ s', handlePacket fns p s = .ok s' ∧
    (p.dev = 1#4 → p.isReply = false → Answered fns p s s')

/-- When the code gets it right. A reply needs a function with operations. A
request needs a known function; a range for it, or a stale `to_host` that happens
to match; an operation index inside the table; and no error bit of its own unless
it fails. -/
def Meets (fns : List (Function sz σ)) (s : Host σ) (p : Packet) : Prop :=
  p.dev = 1#4 →
    match getFunction fns p.func with
    | none => p.isReply = true
    | some f =>
      if p.isReply then f.ops.isSome = true
      else
        match lookupRange f p with
        | none => Matches (s.toHost f.runtime) p
        | some r => (r.ops = none ∨ readIndex p < 4) ∧
            (p.isError = true → RequestFails fns p s.world)

theorem matches_errorPacket {q p : Packet} {e : Int} :
    Matches (errorPacket q e) p ↔ Matches q p := by
  have htype : clearError (errorPacket q e).type = clearError q.type := clearError_or q.type
  refine ⟨fun h => ⟨h.bus, h.dev, h.func, h.offset, ?_⟩,
    fun h => ⟨h.bus, h.dev, h.func, h.offset, ?_⟩⟩
  · rw [← htype]
    exact h.type
  · rw [htype]
    exact h.type

theorem matches_setReply (p : Packet) : Matches p.setReply p := ⟨rfl, rfl, rfl, rfl, rfl⟩

theorem errorPacket_data_pos {q : Packet} {e : Int} (hpos : 0 < e) (hlt : e < 2 ^ 31) :
    0 < (errorPacket q e).data0.toInt := by
  have hval : (errorPacket q e).data0.toInt = e :=
    BitVec.toInt_ofInt_eq_self (by decide) (by omega) (by simpa using hlt)
  rw [hval]
  exact hpos

/-- What was sent determines whether the request was answered. -/
theorem answered_iff {fns : List (Function sz σ)} {p q : Packet} {s s' : Host σ}
    (hout : s'.out = s.out ++ [q.encode]) :
    Answered fns p s s' ↔ Matches q p ∧ (q.isError = true ↔ RequestFails fns p s.world) ∧
      (q.isError = true → 0 < q.data0.toInt) := by
  refine ⟨fun ⟨q', hout', _, hrest⟩ => ?_, fun h => ⟨q, hout, Packet.encode_length q, h⟩⟩
  rw [hout, List.append_cancel_left_eq, List.cons.injEq] at hout'
  rw [Packet.encode_inj hout'.1]
  exact hrest

/-- A failed request answered with an error packet made of a matching one. -/
theorem answered_error_iff {fns : List (Function sz σ)} {p q : Packet} {e : Int} {s s' : Host σ}
    (hout : s'.out = s.out ++ [(errorPacket q e).encode]) (hfails : RequestFails fns p s.world)
    (hpos : 0 < e) (hlt : e < 2 ^ 31) : Answered fns p s s' ↔ Matches q p := by
  rw [answered_iff hout, matches_errorPacket, Packet.isError_errorPacket]
  exact ⟨fun h => h.1, fun h => ⟨h, iff_of_true rfl hfails, fun _ => errorPacket_data_pos hpos hlt⟩⟩

-- ---------------------------------------------------------------------------
-- Executing a request
-- ---------------------------------------------------------------------------

theorem pickOp_error_iff {r : Range sz σ} {p : Packet} :
    (∃ e, pickOp r p = .error e) ↔ ¬ (r.ops = none ∨ readIndex p < 4) := by
  unfold pickOp
  cases hops : r.ops with
  | none => simp
  | some ops =>
    simp only [reduceCtorEq, false_or]
    by_cases hread : p.isRead = true
    · by_cases hidx : readIndex p < 4
      · simp [hread, hidx]
      · simp [hread, hidx]
    · rw [Bool.not_eq_true] at hread
      rw [← writeIndex_eq p hread]
      by_cases hidx : writeIndex p < 4
      · simp [hread, p.isWrite_eq, hidx]
      · simp [hread, p.isWrite_eq, hidx]

/-- What `__exec_request` leaves: nothing sent yet, the reply composed from the
request, and the status of the operation. -/
theorem execRequest_spec {f : Function sz σ} {r : Range sz σ} {p : Packet} {s : Host σ} {op : Picked sz σ}
    (hop : pickOp r p = .ok op) :
    ∃ (s' : Host σ) (stat : Int) (q : Packet), execRequest f r p s = .ok (s', stat) ∧
      s'.out = s.out ∧ s'.toHost f.runtime = q ∧ Matches q p ∧ q.isError = p.isError ∧
      stat = (match op.run r p s.world with
        | none => -EPERM
        | some res => res.status) := by
  unfold execRequest
  rw [hop]
  cases op with
  | none =>
    exact ⟨_, _, _, rfl, rfl, Function.update_self _ _ _, matches_setReply p,
      p.isError_setReply, rfl⟩
  | read g =>
    refine ⟨_, _, _, rfl, rfl, Function.update_self _ _ _, ?_, ?_, rfl⟩
    · exact ⟨rfl, rfl, rfl, rfl, rfl⟩
    · exact p.isError_setReply
  | write g =>
    exact ⟨_, _, _, rfl, rfl, Function.update_self _ _ _, matches_setReply p,
      p.isError_setReply, rfl⟩

/-- A request whose lookup failed is answered from the stale `to_host` packet. -/
theorem requestReceived_noRange {fns : List (Function sz σ)} {f : Function sz σ} {p : Packet}
    {s : Host σ} (hf : getFunction fns p.func = some f) (hr : lookupRange f p = none) :
    (∃ s', requestReceived f p s = .ok s' ∧ Answered fns p s s') ↔
      Matches (s.toHost f.runtime) p := by
  have hfails : RequestFails fns p s.world := by
    simp only [RequestFails, hf, hr]
  unfold requestReceived
  rw [hr]
  simp only [Except.ok.injEq, exists_eq_left']
  exact answered_error_iff rfl hfails (by decide) (by decide)

/-- A request with a range is answered from a packet composed for it, if its
operation index is inside the table; what can be wrong is the error bit. -/
theorem requestReceived_range {fns : List (Function sz σ)} {f : Function sz σ} {p : Packet}
    {s : Host σ} {r : Range sz σ} (hf : getFunction fns p.func = some f)
    (hr : lookupRange f p = some r) :
    (∃ s', requestReceived f p s = .ok s' ∧ Answered fns p s s') ↔
      (r.ops = none ∨ readIndex p < 4) ∧ (p.isError = true → RequestFails fns p s.world) := by
  unfold requestReceived
  rw [hr]
  cases hop : pickOp r p with
  | error e =>
    have hidx := pickOp_error_iff.mp ⟨e, hop⟩
    simp [execRequest, hop, hidx]
  | ok op =>
    have hidx : r.ops = none ∨ readIndex p < 4 := by
      by_contra hno
      obtain ⟨e, he⟩ := pickOp_error_iff.mpr hno
      rw [hop] at he
      cases he
    obtain ⟨s', stat, q, hexec, hout, hq, hmatches, herror, hstat⟩ :=
      execRequest_spec (f := f) (s := s) hop
    have hfails : RequestFails fns p s.world ↔ stat < 0 := by
      simp only [RequestFails, hf, hr, hop, hstat]
      cases op.run r p s.world with
      | none => simp [EPERM]
      | some res => rfl
    have hbound : -2 ^ 31 < stat := by
      rw [hstat]
      cases op.run r p s.world with
      | none =>
        show -2 ^ 31 < -EPERM
        decide
      | some res => exact (neg_le_neg sz.max_le).trans_lt res.status_gt
    simp only [hexec, hidx, true_and]
    by_cases hneg : stat < 0
    · simp only [hneg, if_true, Except.ok.injEq, exists_eq_left', hfails, implies_true, iff_true]
      refine (answered_error_iff (q := q) (e := -stat) ?_ (hfails.mpr hneg) ?_ ?_).mpr hmatches
      · simp [Host.send, Host.setToHost, hout, hq]
      · omega
      · omega
    · simp only [hneg, if_false, Except.ok.injEq, exists_eq_left', hfails]
      rw [answered_iff (q := q) (by simp [Host.send, hout, hq]), herror]
      simp only [hfails, hneg, iff_false, imp_false]
      exact ⟨fun h => h.2.1, fun h => ⟨hmatches, h, fun h' => absurd h' h⟩⟩

/-- A reply is passed on if the function has operations. -/
theorem sendReplyToFunction_iff {f : Function sz σ} {p : Packet} {s : Host σ} :
    (∃ s', sendReplyToFunction f p s = .ok s') ↔ f.ops.isSome = true := by
  unfold sendReplyToFunction
  cases hops : f.ops with
  | none => simp
  | some ops => cases hreply : ops.reply <;> simp [hreply]

/-- **One packet.** It is handled, and answered if it is a request, exactly when
`Meets` says so. -/
theorem handlePacket_iff {fns : List (Function sz σ)} {s : Host σ} {p : Packet} :
    PacketOk fns s p ↔ Meets fns s p := by
  unfold PacketOk Meets handlePacket
  by_cases hdev : p.dev = 1#4
  · simp only [hdev, ne_eq, not_true_eq_false, if_false, true_imp_iff]
    cases hf : getFunction fns p.func with
    | none =>
      simp only [Except.ok.injEq, exists_eq_left']
      cases hreply : p.isReply with
      | true => simp
      | false =>
        -- the request itself comes back, so its type lacks the reply bit
        simp only [true_imp_iff, Bool.false_eq_true, iff_false]
        rw [answered_iff (q := errorPacket p (-ENODEV)) rfl, matches_errorPacket]
        exact fun h => clearError_ne_reply p.type hreply h.1.type
    | some f =>
      cases hreply : p.isReply with
      | true =>
        simp only [if_true, Bool.true_eq_false, false_imp_iff, and_true]
        exact sendReplyToFunction_iff
      | false =>
        simp only [Bool.false_eq_true, if_false, true_imp_iff]
        cases hr : lookupRange f p with
        | none => exact requestReceived_noRange hf hr
        | some r => exact requestReceived_range hf hr
  · simp [hdev]

-- ---------------------------------------------------------------------------
-- Sequences of packets
-- ---------------------------------------------------------------------------

/-- A complete packet in the input pipe, and the two readings of `jiffies` when
it is handled. -/
structure Arrival (w : Nat) where
  bytes : List UInt8
  whole : bytes.length = packetSize
  now : BitVec w
  now' : BitVec w

/-- `pipe_read` with a complete packet in the pipe. -/
def Arrival.read (a : Arrival w) (len : Nat) : Int × List UInt8 := (len, a.bytes.take len)

def Arrival.packet (a : Arrival w) : Packet := Packet.decode a.bytes

/-- One call of `data_ready_handle`; a fault ends the run. -/
def handleArrival (fns : List (Function sz σ)) (hz : Nat) (d : McuioData σ w) (a : Arrival w) :
    McuioData σ w :=
  match dataReadyHandle fns hz a.now a.now' a.read d with
  | .ok d' => d'
  | .error _ => d

/-- The call returns, and has answered the packet if it is a request. -/
def ArrivalOk (fns : List (Function sz σ)) (hz : Nat) (d : McuioData σ w) (a : Arrival w) : Prop :=
  ∃ d', dataReadyHandle fns hz a.now a.now' a.read d = .ok d' ∧
    (a.packet.dev = 1#4 → a.packet.isReply = false → Answered fns a.packet d.host d'.host)

theorem map_blit_whole (f : Nat → UInt8) (l : List UInt8) :
    (List.range l.length).map (blit f 0 l) = l := by
  apply List.ext_getElem
  · simp
  · intro i hi hi'
    simp [blit, hi']

/-- A complete packet is received in one call, whatever the receiver held. -/
theorem receive_whole {hz : Nat} {a : Arrival w} {rx : Rx w} (hrx : rx.currLen = 0) :
    ∃ rx', receive hz a.now a.now' a.read rx = (rx', some a.bytes) ∧ rx'.currLen = 0 := by
  have hlen : a.bytes.length = 16 := a.whole
  have htake : a.bytes.take 16 = a.bytes := List.take_of_length_le hlen.le
  have hbytes : (List.range 16).map (blit rx.inputPacket 0 a.bytes) = a.bytes := by
    rw [← hlen]
    exact map_blit_whole _ _
  unfold receive
  refine ⟨{ rx with
    initialized := true
    last := a.now'
    inputPacket := blit rx.inputPacket 0 a.bytes
    currLen := 0 }, ?_, rfl⟩
  simp [hrx, Arrival.read, htake, hbytes, packetSize]

/-- With an empty receiver, a complete packet is handled at once. -/
theorem dataReadyHandle_whole {fns : List (Function sz σ)} {hz : Nat} {d : McuioData σ w}
    {a : Arrival w} (hd : d.rx.currLen = 0) :
    ∃ rx, rx.currLen = 0 ∧ dataReadyHandle fns hz a.now a.now' a.read d =
      (handlePacket fns a.packet d.host).map fun host => ⟨rx, host⟩ := by
  obtain ⟨rx, hrx, hlen⟩ := receive_whole (a := a) hd
  refine ⟨rx, hlen, ?_⟩
  unfold dataReadyHandle Arrival.packet
  rw [hrx]
  cases hhandle : handlePacket fns (Packet.decode a.bytes) d.host with
  | error e => simp [hhandle, Except.map]
  | ok s' => simp [hhandle, Except.map]

theorem arrivalOk_iff {fns : List (Function sz σ)} {hz : Nat} {d : McuioData σ w} {a : Arrival w}
    (hd : d.rx.currLen = 0) : ArrivalOk fns hz d a ↔ Meets fns d.host a.packet := by
  obtain ⟨rx, -, hhandle⟩ := dataReadyHandle_whole (a := a) hd
  rw [← handlePacket_iff]
  unfold ArrivalOk PacketOk
  rw [hhandle]
  cases handlePacket fns a.packet d.host with
  | error e => simp [Except.map]
  | ok s' => simp [Except.map]

/-- Between packets the receiver is empty. -/
theorem handleArrival_currLen {fns : List (Function sz σ)} {hz : Nat} {d : McuioData σ w}
    {a : Arrival w} (hd : d.rx.currLen = 0) : (handleArrival fns hz d a).rx.currLen = 0 := by
  obtain ⟨rx, hlen, hhandle⟩ := dataReadyHandle_whole (a := a) hd
  unfold handleArrival
  rw [hhandle]
  cases handlePacket fns a.packet d.host with
  | error e => exact hd
  | ok s' => exact hlen

/-- **Requests and replies.** In every sequence of packets, every packet is
handled and every request answered by its reply, exactly when `Meets` holds of
each packet and the state it finds. -/
theorem replies_iff {fns : List (Function sz σ)} {hz : Nat} {d : McuioData σ w}
    (hd : d.rx.currLen = 0) {as : List (Arrival w)} :
    EachStep (handleArrival fns hz) (ArrivalOk fns hz) d as ↔
      EachStep (handleArrival fns hz) (fun d a => Meets fns d.host a.packet) d as :=
  eachStep_iff (fun (d : McuioData σ w) _ (hd : d.rx.currLen = 0) => arrivalOk_iff hd)
    (fun _ _ hd _ => handleArrival_currLen hd) hd

/-- The task after its start, before the first packet. -/
def startedTask : McuioData Unit 32 where
  rx := { inputPacket := fun _ => 0, currLen := 0, initialized := false, last := 0, reopened := 0 }
  host :=
    { toHost := fun _ => Packet.decode []
      world := { memory := fun _ => 0, env := () }
      out := [] }

/-- A function with one range of 16 bytes and the default operations. -/
def plainFunction (sz : IntSize) : Function sz Unit where
  ranges := [{ start := 0, length := 16, rdTarget := 0, wrTarget := 0,
               ops := some defaultMcuioRangeOps }]
  ops := some { reply := none }
  runtime := 0

/-- The packet `p` arriving at time 0. -/
def Packet.arrival (p : Packet) : Arrival 32 where
  bytes := p.encode
  whole := p.encode_length
  now := 0
  now' := 0

/-- A request to function `func` of device 1. -/
def request (type : BitVec 8) (func : BitVec 5) (offset : BitVec 12) : Packet where
  offset := offset
  func := func
  dev := 1
  bus := 0
  type := type
  data0 := 0
  data1 := 0
  crc := 0
  dummy := 0

theorem Packet.arrival_packet (p : Packet) : p.arrival.packet = p := p.decode_encode

/-- A byte read followed by a dword write, both answered. -/
theorem replies_plainFunction :
    EachStep (handleArrival [plainFunction .int32] 100) (ArrivalOk [plainFunction .int32] 100) startedTask
      [(request 0 0 3).arrival, (request 5 0 4).arrival] := by
  refine (replies_iff rfl).mpr ⟨?_, ?_, trivial⟩
  · show Meets _ _ (Packet.arrival _).packet
    rw [Packet.arrival_packet]
    intro _
    exact ⟨Or.inr (by decide), fun h => absurd h (by decide)⟩
  · show Meets _ _ (Packet.arrival _).packet
    rw [Packet.arrival_packet]
    intro _
    exact ⟨Or.inr (by decide), fun h => absurd h (by decide)⟩

/-- A byte read of a function that does not exist is not answered by a reply. -/
theorem unknown_function_not_replied :
    ¬ EachStep (handleArrival ([] : List (Function .int32 Unit)) 100)
      (ArrivalOk ([] : List (Function .int32 Unit)) 100) startedTask
      [(request 0 0 0).arrival] := by
  rintro ⟨hok, -⟩
  have hmeets := (arrivalOk_iff rfl).mp hok
  rw [Packet.arrival_packet] at hmeets
  have hreply : (request 0 0 0).isReply = true := hmeets rfl
  exact absurd hreply (by decide)

-- ---------------------------------------------------------------------------
-- Accesses and the matched range
-- ---------------------------------------------------------------------------

/-- The index into the table of read or of write operations. -/
def opIndex (p : Packet) : Nat := if p.isRead then readIndex p else writeIndex p

/-- How many bytes a default operation moves without the fill flag. -/
def Picked.size : Picked sz σ → Option Nat
  | .read .rdb | .write .wrb => some 1
  | .read .rdw | .write .wrw => some 2
  | .read .rddw | .write .wrdw => some 4
  | .read .rdq | .write .wrq => some 8
  | .none | .read (.own _) | .write (.own _) => Option.none

/-- The bytes a default operation of size `n` moves for `p`. -/
def moved (p : Packet) (n : Nat) : Nat := if p.isFillData then 8 else n

/-- The operation is in the table, and a default operation touches only the first
`length` bytes of the target. -/
def InRange (r : Range sz σ) (p : Packet) (world : World σ) : Prop :=
  (r.ops.isSome = true → opIndex p < 4) ∧
    ∀ op n res, pickOp r p = .ok op → op.size = some n → op.run r p world = some res →
      ∀ a ∈ res.accesses, a.pos + a.len ≤ r.length

/-- The range a request is executed on is the one its function finds for it. -/
def RequestInRange (fns : List (Function sz σ)) (p : Packet) (world : World σ) : Prop :=
  p.dev = 1#4 → p.isReply = false → ∀ f r, getFunction fns p.func = some f →
    lookupRange f p = some r → InRange r p world

/-- The condition. The type byte has an index below four; and if the fill flag is
set, or the operation is wider than the length the type byte stands for, there is
room for what it moves. -/
def RequestFits (fns : List (Function sz σ)) (p : Packet) : Prop :=
  p.dev = 1#4 → p.isReply = false → ∀ f r, getFunction fns p.func = some f →
    lookupRange f p = some r →
      (r.ops.isSome = true → opIndex p < 4) ∧
        ∀ op n, pickOp r p = .ok op → op.size = some n →
          p.isFillData = true ∨ p.dataLen sz < n →
            p.offset.toNat - r.start + moved p n ≤ r.length

/-- With an index inside the table the length of the access is what it should be. -/
theorem dataLen_eq {p : Packet} (hidx : readIndex p < 4) :
    p.dataLen sz = (1 <<< readIndex p : Nat) ∧ 1 <<< readIndex p ≤ 8 := by
  have hle : 1 <<< readIndex p ≤ 8 := by
    generalize readIndex p = i at hidx ⊢
    interval_cases i <;> decide
  show sz.wrap (1 <<< readIndex p : Nat) = (1 <<< readIndex p : Nat) ∧ _
  generalize 1 <<< readIndex p = len at hle ⊢
  exact ⟨sz.wrap_eq (by omega) (by omega), hle⟩

/-- What the lookup has checked. The end of the range may come out too low, and never too
high. -/
theorem lookupRange_fits {f : Function sz σ} {p : Packet} {r : Range sz σ}
    (hr : lookupRange f p = some r) (hidx : readIndex p < 4) :
    r.start ≤ p.offset.toNat ∧ (p.offset.toNat - r.start : Nat) + p.dataLen sz ≤ r.length := by
  have hfound := List.find?_some hr
  simp only [Bool.and_eq_true, decide_eq_true_eq] at hfound
  obtain ⟨hstart, hend⟩ := hfound
  obtain ⟨hlen, hle⟩ := @dataLen_eq sz p hidx
  generalize 1 <<< readIndex p = len at hlen hle
  have hoffset := p.offset.isLt
  have hmod : r.length % 2 ^ 16 ≤ r.length := Nat.mod_le _ _
  have hlast : sz.wrap ((r.start : Int) + (r.length % 2 ^ 16 : Nat) - 1) ≤
      (r.start : Int) + (r.length % 2 ^ 16 : Nat) - 1 := sz.wrap_le (by omega)
  have hfirst : sz.wrap ((p.offset.toNat : Int) + p.dataLen sz - 1) =
      (p.offset.toNat : Int) + p.dataLen sz - 1 := sz.wrap_eq (by omega) (by omega)
  omega

/-- **The ATmega's lookup.** `1 << 15` is negative there, so an access of 2¹⁵ bytes is
within any range that starts at its offset or before. -/
theorem lookupRange_int16 {f : Function .int16 σ} {p : Packet} {r : Range .int16 σ}
    (hr : r ∈ f.ranges) (hidx : readIndex p = 15) (hoffset : 0 < p.offset.toNat)
    (hstart : r.start ≤ p.offset.toNat) (hpos : 0 < r.start + r.length % 2 ^ 16)
    (hle : r.start + r.length % 2 ^ 16 ≤ 2 ^ 15) : (lookupRange f p).isSome = true := by
  have hlen : p.dataLen .int16 = -2 ^ 15 := by
    show IntSize.int16.wrap (1 <<< readIndex p : Nat) = -2 ^ 15
    rw [hidx]
    decide
  have hlast := p.offset.isLt
  have hfirst : IntSize.int16.wrap ((p.offset.toNat : Int) + p.dataLen .int16 - 1) =
      (p.offset.toNat : Int) - 2 ^ 15 - 1 := by
    rw [hlen]
    exact IntSize.int16.wrap_eq (by omega) (by omega)
  have hend := IntSize.int16.wrap_eq (x := (r.start : Int) + (r.length % 2 ^ 16 : Nat) - 1)
    (by omega) (by omega)
  unfold lookupRange
  rw [List.find?_isSome]
  refine ⟨r, hr, ?_⟩
  dsimp only
  rw [hfirst, hend, Bool.and_eq_true]
  exact ⟨decide_eq_true hstart, decide_eq_true (by omega)⟩

/-- An operation that was picked has an index inside the table. -/
theorem pickOp_index {r : Range sz σ} {p : Packet} {op : Picked sz σ} {n : Nat}
    (hop : pickOp r p = .ok op) (hsize : op.size = some n) : readIndex p < 4 := by
  by_contra hidx
  by_cases hops : r.ops = none
  · unfold pickOp at hop
    rw [hops] at hop
    cases hop
    cases hsize
  · obtain ⟨e, he⟩ := pickOp_error_iff.mpr (not_or.mpr ⟨hops, hidx⟩)
    rw [hop] at he
    cases he

/-- A default operation touches the `moved` bytes from the packet's offset on. -/
theorem run_accesses {op : Picked sz σ} {n : Nat} (hsize : op.size = some n) {r : Range sz σ} {p : Packet}
    {world : World σ} :
    ∃ res, op.run r p world = some res ∧ ∀ l, (∀ a ∈ res.accesses, a.pos + a.len ≤ l) ↔
      p.offset.toNat - r.start + moved p n ≤ l := by
  -- one copy, or two halves for a dword with the fill flag
  have htwo : ∀ (off l : Nat), (off + 4 ≤ l ∧ off + 4 + 4 ≤ l) ↔ off + 8 ≤ l := by omega
  rcases op with _ | f | f
  · cases hsize
  all_goals
    cases f <;> cases hsize <;> refine ⟨_, rfl, fun l => ?_⟩ <;> unfold moved <;>
      cases hfill : p.isFillData <;>
      simp [ReadFn.run, WriteFn.run, mcuioRdb, mcuioRdw, mcuioRddw, mcuioRdq, mcuioWrb, mcuioWrw,
        mcuioWrdw, mcuioWrq, readCopy, writeCopy, readTarget, writeTarget, htwo]

theorem inRange_iff {f : Function sz σ} {p : Packet} {r : Range sz σ} (hr : lookupRange f p = some r)
    {world : World σ} :
    InRange r p world ↔ (r.ops.isSome = true → opIndex p < 4) ∧
      ∀ op n, pickOp r p = .ok op → op.size = some n →
        p.isFillData = true ∨ p.dataLen sz < n →
          p.offset.toNat - r.start + moved p n ≤ r.length := by
  refine and_congr_right fun _ => ⟨fun h op n hop hsize _ => ?_, fun h op n res hop hsize hres => ?_⟩
  · obtain ⟨res, hres, hacc⟩ := run_accesses (r := r) (p := p) hsize
    exact (hacc _).mp (h op n res hop hsize hres)
  · obtain ⟨res', hres', hacc⟩ := run_accesses (r := r) (p := p) hsize
    rw [hres] at hres'
    cases hres'
    refine (hacc _).mpr ?_
    by_cases hwide : p.isFillData = true ∨ p.dataLen sz < n
    · exact h op n hop hsize hwide
    · -- what the lookup checked is enough for an operation of its own size
      rw [not_or, Bool.not_eq_true, not_lt] at hwide
      have hmoved : moved p n = n := by simp [moved, hwide.1]
      have hfits := (lookupRange_fits hr (pickOp_index hop hsize)).2
      omega

/-- **Accesses stay in their range** exactly for the requests that fit. -/
theorem access_in_range_iff (fns : List (Function sz σ)) (p : Packet) (world : World σ) :
    RequestInRange fns p world ↔ RequestFits fns p := by
  unfold RequestInRange RequestFits
  exact forall_congr' fun _ => forall_congr' fun _ => forall_congr' fun f => forall_congr' fun r =>
    forall_congr' fun _ => forall_congr' fun hr => inRange_iff hr

theorem lookupRange_plain {p : Packet} (hidx : readIndex p < 4)
    (hfits : p.offset.toNat + 1 <<< readIndex p ≤ 16) :
    lookupRange (plainFunction sz) p = (plainFunction sz).ranges.head? := by
  obtain ⟨hlen, hle⟩ := @dataLen_eq sz p hidx
  generalize 1 <<< readIndex p = len at hlen hle hfits
  have hfirst := sz.wrap_eq (x := (p.offset.toNat : Int) + len - 1) (by omega) (by omega)
  have hlast := sz.wrap_eq (x := (0 : Nat) + (16 % 2 ^ 16 : Nat) - 1) (by decide) (by decide)
  refine List.find?_cons_of_pos ?_
  show (decide (0 ≤ p.offset.toNat) && decide (sz.wrap ((p.offset.toNat : Int) + p.dataLen sz - 1) ≤
    sz.wrap ((0 : Nat) + (16 % 2 ^ 16 : Nat) - 1))) = true
  rw [hlen, hfirst, hlast, Bool.and_eq_true]
  exact ⟨decide_eq_true (Nat.zero_le _), decide_eq_true (by omega)⟩

/-- A byte read with the fill flag at the last byte of a range reads seven bytes
past its end. -/
theorem fill_read_leaves_range :
    ¬ RequestInRange [plainFunction .int32] (request 0x80 0 15) startedTask.host.world := by
  intro h
  have hrange := @lookupRange_plain .int32 (request 0x80 0 15) (by decide) (by decide)
  have haccess := (h rfl (by decide) (plainFunction .int32) _ rfl hrange).2 (.read .rdb) 1 _ rfl rfl
    rfl ⟨15, 8⟩ (List.mem_singleton.mpr rfl)
  exact absurd haccess (by decide)

end Bathos.Mcuio
