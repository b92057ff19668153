import Bathos.Usb.Setup

/-!
# Bathos — the packets of a transfer

`usb_device_controller_submit_tx_buf` and the completions that follow it, on an
endpoint with nothing queued. The buffer is cut into packets of the size of the
endpoint, each handed to the hardware in a buffer descriptor; a buffer that ends
with a full packet, and is shorter than requested, is followed by an empty packet.

A completion hands over the next packet of the current slot, so what is left of
the transfer is in the slot alone: the moving pointer, the remaining length and the
flag of the empty packet.

Main results:

* `completions_sending` — the packets handed over from any point of a transfer;
* `transfer_packets` — the packets of a whole transfer.
-/

namespace Bathos.Usb

open Bathos.Lib

/-- A packet as the hardware finds it: its bytes, the DATA0/1 bit of the flags and
the descriptor. -/
structure Packet where
  data : List UInt8
  data01 : Bool
  bd : Fin 2
deriving DecidableEq, Repr

namespace TxState

variable (ep : Endpoint)

/-- The packet handed over between two states: the driver has filled the descriptor
it was at, and gone on to the other one. -/
def handedPacket (s s' : TxState) : List Packet :=
  if s'.odd = s.odd then []
  else [⟨block s'.mem (s'.bdt s.odd).address (s'.bdt s.odd).bc, s.txData0, s.odd⟩]

/-- `n` IN tokens from the host: the packets handed over, and the state after them. -/
def completions : Nat → TxState → List Packet × TxState
  | 0, s => ([], s)
  | n + 1, s =>
    let rest := completions n (TxRun.inToken ep s)
    (handedPacket s (TxRun.inToken ep s) ++ rest.1, rest.2)

/-- A submit and `n` IN tokens. -/
def transfer (requestedLength : Nat) (b : TxBuf) (n : Nat) (s : TxState) : List Packet × TxState :=
  let s' := (s.controllerSubmit ep requestedLength b).2
  let rest := completions ep n s'
  (handedPacket s s' ++ rest.1, rest.2)

end TxState

-- ---------------------------------------------------------------------------
-- The packets of a buffer
-- ---------------------------------------------------------------------------

/-- The lengths of the packets a buffer is cut into. -/
def packetLengths (size len : Nat) : List Nat :=
  List.replicate (len / size) size ++ (if len % size = 0 then [] else [len % size])

/-- An empty packet comes last for an empty buffer, and for one that ends with a
full packet if it is shorter than requested. -/
def EndsEmpty (size len requestedLength : Nat) : Prop :=
  len = 0 ∨ (len % size = 0 ∧ (requestedLength = 0xffff ∨ len < requestedLength))

instance (size len requestedLength : Nat) : Decidable (EndsEmpty size len requestedLength) :=
  inferInstanceAs (Decidable (_ ∨ _))

/-- Packets of the given lengths, one behind the other from `addr` on. -/
def packetsFrom (mem : Nat → UInt8) : Nat → List Nat → Bool → Fin 2 → List Packet
  | _, [], _, _ => []
  | addr, l :: ls, data01, bd =>
    ⟨block mem addr l, data01, bd⟩ :: packetsFrom mem (addr + l) ls (!data01) (bd + 1)

theorem packetLengths_step {size len : Nat} (hsize : 0 < size) (hlen : 0 < len) :
    packetLengths size len = min len size :: packetLengths size (len - min len size) := by
  unfold packetLengths
  by_cases h : size ≤ len
  · have hdiv : len / size = (len - size) / size + 1 := by
      rw [← Nat.add_div_right _ hsize, Nat.sub_add_cancel h]
    rw [Nat.min_eq_right h, hdiv, Nat.mod_eq_sub_mod h, List.replicate_succ, List.cons_append]
  · have hlt : len < size := Nat.lt_of_not_le h
    have hne : len ≠ 0 := Nat.pos_iff_ne_zero.mp hlen
    rw [Nat.min_eq_left hlt.le, Nat.div_eq_of_lt hlt, Nat.mod_eq_of_lt hlt, if_neg hne, Nat.sub_self]
    simp

theorem packetLengths_zero (size : Nat) : packetLengths size 0 = [] := by simp [packetLengths]

theorem packetLengths_sum {size : Nat} (len : Nat) : (packetLengths size len).sum = len := by
  unfold packetLengths
  have hmod := Nat.div_add_mod' len size
  rw [List.sum_append, List.sum_replicate, smul_eq_mul]
  split_ifs with h
  · rw [List.sum_nil]
    omega
  · rw [List.sum_singleton]
    omega

section Packets

variable (mem : Nat → UInt8)

theorem packetsFrom_lengths (addr : Nat) (ls : List Nat) (data01 : Bool) (bd : Fin 2) :
    (packetsFrom mem addr ls data01 bd).map (fun p => p.data.length) = ls := by
  induction ls generalizing addr data01 bd with
  | nil => rfl
  | cons l ls ih => simp [packetsFrom, ih]

theorem packetsFrom_data (addr : Nat) (ls : List Nat) (data01 : Bool) (bd : Fin 2) :
    (packetsFrom mem addr ls data01 bd).flatMap (fun p => p.data) = block mem addr ls.sum := by
  induction ls generalizing addr data01 bd with
  | nil => rfl
  | cons l ls ih =>
    rw [List.sum_cons, block_add, ← ih]
    rfl

/-- Successive packets alternate. -/
theorem packetsFrom_alternate (addr : Nat) (ls : List Nat) (data01 : Bool) (bd : Fin 2) :
    (packetsFrom mem addr ls data01 bd).IsChain fun p q =>
      q.data01 = !p.data01 ∧ q.bd = p.bd + 1 := by
  induction ls generalizing addr data01 bd with
  | nil => exact List.isChain_nil
  | cons l ls ih =>
    cases ls with
    | nil => exact List.isChain_singleton _
    | cons l' ls => exact List.isChain_cons_cons.mpr ⟨⟨rfl, rfl⟩, ih _ _ _⟩

end Packets

-- ---------------------------------------------------------------------------
-- The driver in the middle of a transfer
-- ---------------------------------------------------------------------------

namespace TxState

/-- Nothing is queued: both slots are free, there is no current buffer, both
descriptors are free, and the driver and the hardware are at the same one. -/
structure Quiet (s : TxState) : Prop where
  free : ∀ i, (s.txBufs i).isFree = true
  curr : s.currTxBuf = none
  clear : TxRun.Clear s
  odd : s.odd = s.hwOdd
  notTransmitting : s.transmitting = false

/-- Slot 0 holds the rest of a transfer: `len` bytes from `addr` on, and an empty
packet behind them if `tz` is set. -/
def Holds (s : TxState) (addr len : Nat) (tz : Bool) : Prop :=
  (s.txBufs 0).buf = addr ∧ (s.txBufs 0).len = len ∧ (s.txBufs 0).needsTz = tz

/-- The next packet of slot 0 can be handed over. -/
structure Ready (s : TxState) (addr len : Nat) (tz : Bool) : Prop where
  holds : s.Holds addr len tz
  second : (s.txBufs 1).isFree = true
  curr : s.currTxBuf = none ∨ s.currTxBuf = some 0
  clear : TxRun.Clear s
  odd : s.odd = s.hwOdd
  notTransmitting : s.transmitting = false

/-- A packet of slot 0 is in the hands of the hardware. -/
structure Sending (s : TxState) (addr len : Nat) (tz : Bool) : Prop where
  holds : s.Holds addr len tz
  second : (s.txBufs 1).isFree = true
  curr : s.currTxBuf = some 0
  odd : s.odd = s.hwOdd + 1
  own : (s.bdt s.hwOdd).own = true
  other : (s.bdt s.odd).own = false ∧ (s.bdt s.odd).address = 0

variable {ep} {s : TxState} {addr len : Nat} {tz : Bool}

theorem succ_ne (i : Fin 2) : i + 1 ≠ i := by omega

/-- Between two states the next packet of a transfer is handed over, and `tz` is left
of the flag of the empty packet. -/
structure HandsOver (ep : Endpoint) (s s' : TxState) (addr len : Nat) (tz : Bool) : Prop where
  sending : s'.Sending (addr + min len ep.size) (len - min len ep.size) tz
  mem : s'.mem = s.mem
  txData0 : s'.txData0 = !s.txData0
  odd : s'.odd = s.odd + 1
  packet : handedPacket s s' = [⟨block s.mem addr (min len ep.size), s.txData0, s.odd⟩]

/-- A step that gets slot 0 ready and then calls `__prepare_bd`. -/
theorem prepareBd_ready {s₀ : TxState} (h : s.Ready addr len tz) (hodd : s.odd = s₀.odd)
    (hdata : s.txData0 = s₀.txData0) (hmem : s.mem = s₀.mem) :
    HandsOver ep s₀ (s.prepareBd ep 0).2 addr len tz := by
  obtain ⟨hbuf, hlen, htz⟩ := h.holds
  have hcurr : (if s.currTxBuf = none then some 0 else s.currTxBuf) = some (0 : Fin 2) := by
    rcases h.curr with h | h <;> simp [h]
  have hsucc : s.odd + 1 ≠ s.odd := succ_ne s.odd
  rw [TxRun.prepareBd_free 0 (h.clear _).2, hcurr, hlen]
  have hown : (Function.update s.bdt s.odd ⟨(s.txBufs 0).buf, min len ep.size, true⟩ s.hwOdd).own =
      true := by
    rw [← h.odd, Function.update_self]
  have hother := h.clear (s.odd + 1)
  rw [← Function.update_of_ne hsucc ⟨(s.txBufs 0).buf, min len ep.size, true⟩ s.bdt] at hother
  refine ⟨⟨⟨?_, ?_, ?_⟩, ?_, rfl, ?_, hown, hother⟩, hmem, congrArg not hdata,
    congrArg (· + 1) hodd, ?_⟩
  · simp [TxBuf.update, hbuf]
  · simp [TxBuf.update, hlen]
  · simp [TxBuf.update, htz]
  · simp [h.second]
  · show s.odd + 1 = s.hwOdd + 1
    rw [h.odd]
  · unfold handedPacket
    rw [← hodd, if_neg hsucc, ← hdata, ← hmem]
    simp only [Function.update_self, hbuf]

/-- The flag of the empty packet, in a buffer submitted. -/
theorem addTermZero_txBuf (ep : Endpoint) (buf len l : Nat) :
    (Controller.txBuf buf len).addTermZero ep l =
      { Controller.txBuf buf len with needsTz := decide (len ≠ 0 ∧ EndsEmpty ep.size len l) } := by
  have hiff : (len ≠ 0 ∧ EndsEmpty ep.size len l) ↔
      (l = 0xffff ∨ len < l) ∧ len ≠ 0 ∧ len % ep.size = 0 := by
    unfold EndsEmpty
    tauto
  unfold TxBuf.addTermZero Controller.txBuf
  rw [decide_eq_decide.mpr hiff]
  split_ifs with h
  · rw [decide_eq_true h]
  · rw [decide_eq_false h]

/-- A buffer put into a slot is sent at once, unless it is a stall. -/
theorem submitInSlot_snd (ep : Endpoint) (slot : Fin 2) {b : TxBuf}
    (htransmitting : s.transmitting = false) (hstall : b.stall = false) :
    (s.submitInSlot ep slot b).2 =
      (prepareBd ep slot { s with txBufs := Function.update s.txBufs slot b.get }).2 := by
  unfold submitInSlot
  simp only [htransmitting, hstall, Bool.false_eq_true, if_false]
  split
  · rename_i heq
    rw [heq]
  · rename_i heq
    rw [heq]

/-- A submit on an endpoint with nothing queued hands over the first packet. -/
theorem controllerSubmit_quiet (ep : Endpoint) (h : s.Quiet) (buf len l : Nat) :
    HandsOver ep s (s.controllerSubmit ep l (Controller.txBuf buf len)).2 buf len
      (decide (len ≠ 0 ∧ EndsEmpty ep.size len l)) := by
  have hslot : s.findFreeTxSlot = some 0 := if_pos (h.free 0)
  unfold controllerSubmit
  rw [addTermZero_txBuf]
  set b : TxBuf :=
    { Controller.txBuf buf len with needsTz := decide (len ≠ 0 ∧ EndsEmpty ep.size len l) } with hb
  have hsubmit : (s.submitTxBuf ep b).2 =
      (prepareBd ep 0 { s with txBufs := Function.update s.txBufs 0 b.get }).2 := by
    unfold submitTxBuf
    rw [hslot]
    exact submitInSlot_snd ep 0 h.notTransmitting rfl
  rw [hsubmit]
  refine prepareBd_ready ⟨⟨rfl, rfl, rfl⟩, ?_, Or.inl h.curr, h.clear, h.odd, h.notTransmitting⟩
    rfl rfl rfl
  exact h.free 1

/-- A completion frees the descriptor of its packet. -/
theorem inToken_sending (ep : Endpoint) (h : s.Sending addr len tz) :
    ∃ s' : TxState, TxRun.inToken ep s = s'.updateTxBuf ep ∧ s'.Ready addr len tz ∧
      s'.currTxBuf = some 0 ∧ s'.odd = s.odd ∧ s'.txData0 = s.txData0 ∧ s'.mem = s.mem := by
  refine ⟨_, if_pos h.own, ⟨h.holds, h.second, Or.inr h.curr, ?_, h.odd, rfl⟩, h.curr, rfl, rfl, rfl⟩
  intro i
  by_cases hi : i = s.hwOdd
  · rw [hi]
    simp
  · have hodd : i = s.odd := by
      rw [h.odd]
      omega
    simp [hodd, h.odd, h.odd ▸ h.other]

/-- A completion with bytes left hands over the next packet. -/
theorem inToken_bytes (ep : Endpoint) (h : s.Sending addr len tz) (hlen : len ≠ 0) :
    HandsOver ep s (TxRun.inToken ep s) addr len tz := by
  obtain ⟨s', htoken, hready, hcurr, hodd, hdata, hmem⟩ := inToken_sending ep h
  have hne : (s'.txBufs 0).len ≠ 0 := hready.holds.2.1.trans_ne hlen
  have hnext : ¬((s'.txBufs 0).len = 0 ∧ (s'.txBufs 0).needsTz = false) := fun h => hne h.1
  rw [htoken]
  unfold updateTxBuf
  rw [hcurr]
  simp only [if_neg hnext, if_neg hne]
  exact prepareBd_ready hready hodd hdata hmem

/-- With the flag set, the completion of the last byte hands over the empty packet. -/
theorem inToken_empty (ep : Endpoint) (h : s.Sending addr 0 true) :
    HandsOver ep s (TxRun.inToken ep s) addr 0 false := by
  obtain ⟨s', htoken, hready, hcurr, hodd, hdata, hmem⟩ := inToken_sending ep h
  obtain ⟨hbuf, hlen, htz⟩ := hready.holds
  have hnext : ¬((s'.txBufs 0).len = 0 ∧ (s'.txBufs 0).needsTz = false) := by simp [htz]
  rw [htoken]
  unfold updateTxBuf
  rw [hcurr]
  simp only [if_neg hnext, if_pos hlen]
  refine prepareBd_ready ⟨⟨hbuf, hlen, rfl⟩, ?_, Or.inr rfl, hready.clear, hready.odd,
    hready.notTransmitting⟩ hodd hdata hmem
  exact hready.second

/-- The completion of the last packet frees the slot. -/
theorem inToken_last (ep : Endpoint) (h : s.Sending addr 0 false) :
    (TxRun.inToken ep s).Quiet ∧ ((TxRun.inToken ep s).txBufs 0).busy = false ∧
      handedPacket s (TxRun.inToken ep s) = [] := by
  obtain ⟨s', htoken, hready, hcurr, hodd, hdata, hmem⟩ := inToken_sending ep h
  have hdone : (s'.txBufs 0).len = 0 ∧ (s'.txBufs 0).needsTz = false := hready.holds.2
  have hfree : ((s'.freeTxBuf ep 0).txBufs (0 + 1)).isFree = true := hready.second
  rw [htoken]
  unfold updateTxBuf
  rw [hcurr]
  simp only [if_pos hdone, if_pos hfree]
  refine ⟨⟨fun i => ?_, rfl, hready.clear, hready.odd, hready.notTransmitting⟩, rfl, if_pos hodd⟩
  have hi : i = 0 ∨ i = 1 := by omega
  rcases hi with rfl | rfl
  · exact TxRun.isFree_of_zero hdone.1
  · exact hready.second

theorem inToken_quiet (h : s.Quiet) : TxRun.inToken ep s = s := by
  unfold TxRun.inToken
  simp [(h.clear _).1]

-- ---------------------------------------------------------------------------
-- Whole transfers
-- ---------------------------------------------------------------------------

/-- The lengths of the packets that are left. -/
def remaining (size len : Nat) (tz : Bool) : List Nat :=
  packetLengths size len ++ if tz = true then [0] else []

/-- Nothing is prepared for the hardware. -/
def NothingPrepared (s : TxState) : Prop := ∀ i, (s.bdt i).own = false

instance (s : TxState) : Decidable (NothingPrepared s) := inferInstanceAs (Decidable (∀ _, _))

/-- The slot of the transfer is free again. -/
def Over (s : TxState) : Prop := s.Quiet ∧ (s.txBufs 0).busy = false

theorem completions_over (ep : Endpoint) (h : s.Over) (n : Nat) : completions ep n s = ([], s) := by
  induction n with
  | zero => rfl
  | succ n ih =>
    unfold completions
    rw [inToken_quiet h.1, ih]
    simp [handedPacket]

/-- The step of a transfer, and what it leaves to be sent. -/
theorem HandsOver.completions {s' : TxState} {ls : List Nat} {n : Nat}
    (h : HandsOver ep s s' addr len tz)
    (hrest : (completions ep n s').1 =
      packetsFrom s'.mem (addr + min len ep.size) ls s'.txData0 s'.odd) :
    handedPacket s s' ++ (completions ep n s').1 =
      packetsFrom s.mem addr (min len ep.size :: ls) s.txData0 s.odd := by
  rw [hrest, h.packet, h.mem, h.txData0, h.odd]
  rfl

/-- The packets handed over from any point of a transfer. -/
theorem completions_sending (n : Nat) (h : s.Sending addr len tz)
    (hn : (completions ep n s).2.NothingPrepared) :
    (completions ep n s).1 =
        packetsFrom s.mem addr (remaining ep.size len tz) s.txData0 s.odd ∧
      (completions ep n s).2.Over := by
  induction n generalizing s addr len tz with
  | zero => exact absurd (h.own.symm.trans (hn s.hwOdd)) nofun
  | succ n ih =>
    by_cases hlen : len = 0
    · subst hlen
      cases tz with
      | true =>
        have hstep := inToken_empty ep h
        obtain ⟨hpackets, hover⟩ := ih hstep.sending hn
        have hempty : remaining ep.size 0 true =
            min 0 ep.size :: remaining ep.size (0 - min 0 ep.size) false := by
          simp [remaining, packetLengths_zero]
        refine ⟨?_, hover⟩
        rw [hempty]
        exact hstep.completions hpackets
      | false =>
        obtain ⟨hquiet, hbusy, hpacket⟩ := inToken_last ep h
        unfold completions
        rw [completions_over ep ⟨hquiet, hbusy⟩, hpacket]
        refine ⟨?_, hquiet, hbusy⟩
        simp [remaining, packetLengths_zero, packetsFrom]
    · have hstep := inToken_bytes ep h hlen
      obtain ⟨hpackets, hover⟩ := ih hstep.sending hn
      refine ⟨?_, hover⟩
      unfold remaining
      rw [packetLengths_step ep.size_pos (Nat.pos_of_ne_zero hlen)]
      exact hstep.completions hpackets

/-- A transfer comes to its end. -/
theorem completions_end (n : Nat) (h : s.Sending addr len tz)
    (hn : (remaining ep.size len tz).length < n) : (completions ep n s).2.NothingPrepared := by
  induction n generalizing s addr len tz with
  | zero => exact absurd hn (Nat.not_lt_zero _)
  | succ n ih =>
    by_cases hlen : len = 0
    · subst hlen
      cases tz with
      | true =>
        refine ih (inToken_empty ep h).sending ?_
        simp [remaining, packetLengths_zero] at hn ⊢
        omega
      | false =>
        obtain ⟨hquiet, hbusy, -⟩ := inToken_last ep h
        unfold completions
        rw [completions_over ep ⟨hquiet, hbusy⟩]
        exact fun i => (hquiet.clear i).1
    · refine ih (inToken_bytes ep h hlen).sending ?_
      unfold remaining at hn ⊢
      rw [packetLengths_step ep.size_pos (Nat.pos_of_ne_zero hlen)] at hn
      simpa using hn

/-- The transfer of `len` bytes from `buf` on, of which `l` were requested: full
packets, the rest, and perhaps an empty packet; the bytes in order; DATA0/1 and the
descriptors by turns; and at the end a free slot and no current buffer. -/
structure Transferred (ep : Endpoint) (s : TxState) (buf len l : Nat) (packets : List Packet)
    (s' : TxState) : Prop where
  lengths : packets.map (fun p => p.data.length) =
    List.replicate (len / ep.size) ep.size ++ (if len % ep.size = 0 then [] else [len % ep.size]) ++
      (if EndsEmpty ep.size len l then [0] else [])
  data : packets.flatMap (fun p => p.data) = block s.mem buf len
  alternate : packets.IsChain fun p q => q.data01 = !p.data01 ∧ q.bd = p.bd + 1
  free : ∃ slot, s.findFreeTxSlot = some slot ∧ (s'.txBufs slot).isFree = true ∧
    (s'.txBufs slot).busy = false
  curr : s'.currTxBuf = none

/-- The first packet, and what is left behind it. -/
theorem remaining_submit {size : Nat} (hsize : 0 < size) (len l : Nat) :
    min len size :: remaining size (len - min len size) (decide (len ≠ 0 ∧ EndsEmpty size len l)) =
      packetLengths size len ++ if EndsEmpty size len l then [0] else [] := by
  unfold remaining
  by_cases hlen : len = 0
  · subst hlen
    simp [packetLengths_zero, EndsEmpty]
  · rw [packetLengths_step hsize (Nat.pos_of_ne_zero hlen)]
    simp [hlen]

/-- **Packets of a transfer.** A constant buffer submitted with nothing queued comes
to its end, and is then sent as it should be. -/
theorem transfer_packets (ep : Endpoint) (s : TxState) (h : s.Quiet) (buf len l : Nat) :
    (∃ n, (transfer ep l (Controller.txBuf buf len) n s).2.NothingPrepared) ∧
    ∀ n, (transfer ep l (Controller.txBuf buf len) n s).2.NothingPrepared →
      Transferred ep s buf len l (transfer ep l (Controller.txBuf buf len) n s).1
        (transfer ep l (Controller.txBuf buf len) n s).2 := by
  have hsubmit := controllerSubmit_quiet ep h buf len l
  refine ⟨⟨_, completions_end _ hsubmit.sending (Nat.lt_succ_self _)⟩, fun n hn => ?_⟩
  obtain ⟨hpackets, hover⟩ := completions_sending n hsubmit.sending hn
  have hall : (transfer ep l (Controller.txBuf buf len) n s).1 =
      packetsFrom s.mem buf (packetLengths ep.size len ++ if EndsEmpty ep.size len l then [0] else [])
        s.txData0 s.odd := by
    rw [← remaining_submit ep.size_pos]
    exact hsubmit.completions hpackets
  rw [hall]
  refine ⟨packetsFrom_lengths s.mem buf _ _ _, ?_, packetsFrom_alternate s.mem buf _ _ _,
    ⟨0, if_pos (h.free 0), hover.1.free 0, hover.2⟩, hover.1.curr⟩
  rw [packetsFrom_data, List.sum_append, packetLengths_sum]
  split_ifs
  · rfl
  · rfl

/-- Four bytes in packets of two, with more requested: an empty packet comes last. -/
theorem transfer_four_bytes :
    let s := (TxRun.boot UInt8.ofNat).dev
    let r := transfer ⟨2, 100, 200, by decide⟩ 64 (Controller.txBuf 10 4) 3 s
    Transferred ⟨2, 100, 200, by decide⟩ s 10 4 64 r.1 r.2 ∧
      r.1 = [⟨[10, 11], false, 0⟩, ⟨[12, 13], true, 1⟩, ⟨[], false, 0⟩] :=
  ⟨(transfer_packets _ _ ⟨fun _ => TxRun.isFree_of_zero rfl, rfl, fun _ => ⟨rfl, rfl⟩, rfl, rfl⟩
    _ _ _).2 3 (by decide), by decide⟩

end TxState

end Bathos.Usb
