import Bathos.Drivers.Enc28j60
import Bathos.Lib.Noninterference

/-!
# Bathos — transmission with an ENC28J60

`enc28_send` of `drivers/enc28j60.c` over the controller: the buffer memory behind the write
pointer, and the transmission that TXRTS starts. The driver does not wait for it: a frame is
on the wire when the controller has finished, which it says in a status vector behind the
frame. A transmission that fails sets TXERIF, which nothing clears.

Main results:

* `send_spec` — what a call leaves of the registers and the memory;
* `wire_eq` — which packets get on the wire, in any order of all that happens;
* `recv_unaffected` — receptions are what they were without the transmissions.
-/

namespace Bathos.Drivers

open Bathos.Lib

-- ---------------------------------------------------------------------------
-- The controller
-- ---------------------------------------------------------------------------

namespace Enc28

/-- `ENC28_WRPTL`. -/
def WRPTL : Nat := 0x02

/-- `ENC28_WRPTH`. -/
def WRPTH : Nat := 0x03

/-- `ENC28_IR`. -/
def IR : Nat := 0x1C

end Enc28

namespace Enc28Chip

open Enc28

/-- Bytes that go into the buffer memory from `p` on: it ends at 0x1fff. -/
def fill (mem : Nat → UInt8) : Nat → List UInt8 → Nat → UInt8
  | _, [] => mem
  | p, b :: bs => fill (Function.update mem p b) ((p + 1) % 0x2000) bs

/-- A byte is written to the buffer memory; with AUTOINC the write pointer goes on. -/
def writeBufByte (b : UInt8) (c : Enc28Chip) : Enc28Chip :=
  let p := c.pointer WRPTL
  let q := (p + 1) % 0x2000
  let c := { c with mem := Function.update c.mem p b }
  if (c.regs CON2).getLsbD 7 then
    (c.set WRPTL (BitVec.ofNat 8 q)).set WRPTH (BitVec.ofNat 8 (q / 256))
  else c

/-- TXRTS: a transmission has been asked for and is not finished. -/
def rts (c : Enc28Chip) : Bool := (c.regs CON1).getLsbD 3

/-- TXERIF: a transmission has failed. -/
def erif (c : Enc28Chip) : Bool := (c.regs IR).getLsbD 1

/-- The frame between the pointers, behind its control byte. -/
def txFrame (c : Enc28Chip) : List UInt8 :=
  block c.mem (c.pointer TXSTL + 1) (c.pointer TXNDL - c.pointer TXSTL)

/-- The controller finishes a transmission: the frame, if it was one, and the status vector. -/
def finish (status : List UInt8) (failed : Bool) (c : Enc28Chip) :
    Option (List UInt8) × Enc28Chip :=
  if c.rts then
    let mem := fill c.mem ((c.pointer TXNDL + 1) % 0x2000) status
    let c' := { c with mem := mem }.set CON1 (c.regs CON1 &&& ~~~0x08)
    if failed then (none, c'.set IR (c.regs IR ||| 0x02)) else (some c.txFrame, c')
  else (none, c)

end Enc28Chip

-- ---------------------------------------------------------------------------
-- enc28j60.c
-- ---------------------------------------------------------------------------

namespace Enc28

/-- `__enc28_wr_op` with `ENC28_CMD_WRITE_BUF_MEM`. -/
def wrBufOp (datum : UInt8) (d : Enc28) : Enc28 := { d with chip := d.chip.writeBufByte datum }

/-- `__enc28_wr_buf`. -/
def wrBuf (buf : List UInt8) (d : Enc28) : Enc28 := buf.foldl (fun d b => wrBufOp b d) d

/-- `enc28_send`: what it returns. -/
def send (packet : List UInt8) (d : Enc28) : Nat × Enc28 :=
  let len := packet.length
  -- Set the write pointer and TXend pointer
  let d := wr WRPTL d.txptr d
  let d := wr WRPTH (d.txptr >>> 8) d
  let d := wr TXNDL (d.txptr + len) d
  let d := wr TXNDH ((d.txptr + len) >>> 8) d
  -- Write per-packet control byte (0x00 means use macon3 settings)
  let d := wrBufOp 0x00 d
  -- copy the packet into the transmit buffer and give tx cmd
  let d := wrBuf packet d
  let d := wrOp .bitFieldSet CON1 0x08 d
  -- Reset the transmit logic problem
  let r := rd IR d
  (len, if r.1 &&& 0x02 ≠ 0 then wrOp .bitFieldClr CON1 0x08 r.2 else r.2)

-- ---------------------------------------------------------------------------
-- What is left alone
-- ---------------------------------------------------------------------------

section Quiet

variable {d d' d'' : Enc28} {es es' : List Nat} {addr : Nat}

/-- What the receiving side does: the transmission goes on as it was. -/
structure Quiet (es : List Nat) (d d' : Enc28) : Prop extends Kept es d d' where
  txptr : d'.txptr = d.txptr
  rts : d'.chip.rts = d.chip.rts

theorem Quiet.trans (h : Quiet es d d') (h' : Quiet es' d' d'') : Quiet (es ++ es') d d'' :=
  ⟨h.toKept.trans h'.toKept, h'.txptr.trans h.txptr, h'.rts.trans h.rts⟩

theorem Quiet.mono (h : Quiet es d d') (hes : es ⊆ es') : Quiet es' d d' := by
  refine ⟨⟨h.banked, h.mem, fun i hi => h.regs i fun hmem => hi ?_⟩, h.txptr, h.rts⟩
  exact List.cons_subset_cons CON1 hes hmem

theorem rts_bits (b : Fin 4) :
    ∀ x : BitVec 8, ((x &&& ~~~3) ||| BitVec.ofNat 8 b).getLsbD 3 = x.getLsbD 3 := by
  revert b
  decide

/-- Another bank changes nothing else. -/
theorem setBank_quiet (h : Banked d) (haddr : addr < 0x80) : Quiet [] d (setBank addr d) := by
  have hset := setBank_spec h haddr
  refine ⟨⟨hset.banked, hset.mem, fun i hi => hset.regs i fun heq => hi (by simp [heq])⟩, ?_, ?_⟩
  · unfold setBank
    split <;> rfl
  · obtain ⟨hlt, -, -⟩ := address_parts addr haddr
    have hcon2 : CON1 ≠ CON2 := by decide
    unfold setBank
    split
    · rfl
    · unfold wrOp Enc28Chip.command Enc28Chip.rts
      dsimp only
      rw [index_con1, index_con1, store_eq _ _ hcon2, store_eq _ _ hcon2, set_regs, if_pos rfl,
        set_regs, if_pos rfl]
      exact rts_bits ⟨_, hlt⟩ _

theorem wr_quiet (h : Banked d) (datum : Nat)
    (haddr : addr < 0x80 ∧ addr &&& 0x1F < 0x1B ∧ addr ≠ CON1 ∧ addr ≠ CON2) :
    Quiet [addr] d (wr addr datum d) := by
  have hw := wr_spec h datum haddr.1 haddr.2.1 haddr.2.2
  have hset := setBank_quiet h haddr.1
  refine ⟨⟨hw.banked, hw.mem, fun i hi => ?_⟩, hset.txptr, ?_⟩
  · rw [List.mem_cons, List.mem_singleton, not_or] at hi
    rw [hw.regs i hi.1, List.lookup_cons, beq_false_of_ne hi.2]
    rfl
  · have hindex := index_eq (setBank_spec h haddr.1) haddr.1 haddr.2.1
    rw [← hset.rts]
    unfold wr wrOp Enc28Chip.command Enc28Chip.rts
    dsimp only
    rw [hindex, store_eq _ _ haddr.2.2.2, set_regs, if_neg haddr.2.2.1.symm]

theorem Quiet.wr (h : Quiet es d d') (addr datum : Nat)
    (haddr : addr < 0x80 ∧ addr &&& 0x1F < 0x1B ∧ addr ≠ CON1 ∧ addr ≠ CON2) :
    Quiet (es ++ [addr]) d (wr addr datum d') :=
  h.trans (wr_quiet h.banked datum haddr)

theorem rdBuf_quiet (h : Ready d) (n : Nat) : Quiet [RDPTL, RDPTH] d (rdBuf n d).2 := by
  refine ⟨(rdBuf_spec h n).2.2, rfl, ?_⟩
  have hcon1 := (readBuf_spec h.autoinc n).2.regs CON1 (by decide) (by decide)
  unfold rdBuf Enc28Chip.rts
  rw [hcon1]

theorem rdBuf_ready (h : Ready d) (n : Nat) : Ready (rdBuf n d).2 :=
  (rdBuf_quiet h n).ready h (by decide)

theorem rxptr_quiet (h : Banked d) (rxptr : Nat) : Quiet [] d { d with rxptr := rxptr } :=
  ⟨⟨h, rfl, fun _ _ => rfl⟩, rfl, rfl⟩

theorem pktdec_quiet (h : Banked d) : Quiet [CON2, PKTCNT] d (wrOp .bitFieldSet CON2 0x40 d) := by
  have hbit := (decrement_bits (d.chip.regs CON2)).1
  have hchip : (wrOp .bitFieldSet CON2 0x40 d).chip = (d.chip.set CON2
      ((d.chip.regs CON2 ||| 0x40) &&& ~~~0x40)).set PKTCNT (d.chip.regs PKTCNT - 1) :=
    if_pos ⟨rfl, hbit⟩
  have hregs : ∀ i ∉ [CON2, PKTCNT], (wrOp .bitFieldSet CON2 0x40 d).chip.regs i =
      d.chip.regs i := by
    intro i hi
    rw [List.mem_cons, List.mem_singleton, not_or] at hi
    rw [hchip, set_regs, if_neg hi.2, set_regs, if_neg hi.1]
  refine ⟨⟨?_, ?_, fun i hi => hregs i fun hmem => hi (List.mem_cons_of_mem _ hmem)⟩, rfl, ?_⟩
  · unfold Banked
    rw [hregs CON1 (by decide)]
    exact h
  · rw [hchip]
    rfl
  · unfold Enc28Chip.rts
    rw [hregs CON1 (by decide)]

theorem seek_quiet (h : Banked d) : Quiet [RDPTL, RDPTH] d (seek d) := by
  have hbank : Quiet [] d (rd PKTCNT d).2 := setBank_quiet h (by decide)
  have hlow := wr_quiet hbank.banked (rd PKTCNT d).2.rxptr (by decide : RDPTL < 0x80 ∧ _)
  exact (hbank.trans hlow).trans (wr_quiet hlow.banked _ (by decide : RDPTH < 0x80 ∧ _))

theorem release_quiet (h : Banked d) (next : Nat) :
    Quiet [RXRDPTL, RXRDPTH, CON2, PKTCNT] d (release next d) := by
  have hlow := wr_quiet h next (by decide : RXRDPTL < 0x80 ∧ _)
  have hhigh := wr_quiet hlow.banked (next >>> 8) (by decide : RXRDPTH < 0x80 ∧ _)
  exact (hlow.trans hhigh).trans (pktdec_quiet hhigh.banked)

theorem recv_none (h : Banked d) (hcount : d.chip.regs PKTCNT = 0) (maxlen : Nat) :
    recv maxlen d = (-1, [], (rd PKTCNT d).2) := by
  have hread := (@rd_spec _ PKTCNT h (by decide) (by decide) (by decide)).1
  rw [hcount] at hread
  unfold recv
  exact if_pos hread

/-- The registers of a reception. -/
def rxRegs : List Nat := [RDPTL, RDPTH, RXRDPTL, RXRDPTH, CON2, PKTCNT]

/-- The preamble is read, and the receive pointer set. -/
theorem open_quiet (h : Ready d) (rxptr : Nat) :
    Quiet [RDPTL, RDPTH] d { (rdBuf 6 (seek d)).2 with rxptr := rxptr } := by
  have hseek := seek_quiet h.banked
  have hread := rdBuf_quiet (hseek.ready h (by decide)) 6
  exact ((hseek.trans hread).trans (rxptr_quiet hread.banked rxptr)).mono (by decide)

/-- The frame is read, and given back. -/
theorem taken_quiet (h : Ready d) (rxptr n next : Nat) :
    Quiet rxRegs d (release next (rdBuf n { (rdBuf 6 (seek d)).2 with rxptr := rxptr }).2) := by
  have hopen := open_quiet h rxptr
  have hread := rdBuf_quiet (hopen.ready h (by decide)) n
  exact ((hopen.trans hread).trans (release_quiet hread.banked next)).mono (by decide)

/-- **A reception leaves the transmission alone.** -/
theorem recv_quiet (h : Ready d) (maxlen : Nat) : Quiet rxRegs d (recv maxlen d).2.2 := by
  by_cases hcount : d.chip.regs PKTCNT = 0
  · rw [recv_none h.banked hcount]
    have hbank : Quiet [] d (rd PKTCNT d).2 := setBank_quiet h.banked (by decide)
    exact hbank.mono (List.nil_subset _)
  · rw [recv_eq hcount h]
    dsimp only
    split
    · exact (open_quiet h _).mono (by decide)
    · exact taken_quiet h _ _ _

end Quiet

-- ---------------------------------------------------------------------------
-- A packet is sent
-- ---------------------------------------------------------------------------

section Send

variable {d : Enc28} {c : Enc28Chip}

/-- What a write to the buffer memory leaves. -/
structure BufWritten (c c' : Enc28Chip) (p : Nat) (bs : List UInt8) : Prop where
  mem : c'.mem = Enc28Chip.fill c.mem p bs
  regs : ∀ i, i ≠ WRPTL → i ≠ WRPTH → c'.regs i = c.regs i

theorem writeBufByte_spec (hinc : (c.regs CON2).getLsbD 7 = true) (b : UInt8) :
    BufWritten c (c.writeBufByte b) (c.pointer WRPTL) [b] ∧
      (c.writeBufByte b).pointer WRPTL = (c.pointer WRPTL + 1) % 0x2000 := by
  unfold Enc28Chip.writeBufByte
  dsimp only
  rw [if_pos hinc]
  refine ⟨⟨rfl, fun i hi hi' => ?_⟩, pointer_of_bytes (by omega) ?_ ?_⟩
  · rw [set_regs, if_neg hi', set_regs, if_neg hi]
  · rw [set_regs, if_neg (by decide), set_regs, if_pos rfl]
  · rw [set_regs]
    exact if_pos rfl

/-- **The buffer memory written** from the write pointer on. -/
theorem wrBuf_spec (hinc : (d.chip.regs CON2).getLsbD 7 = true) (bs : List UInt8) :
    (∃ c', wrBuf bs d = { d with chip := c' }) ∧
      BufWritten d.chip (wrBuf bs d).chip (d.chip.pointer WRPTL) bs := by
  induction bs generalizing d with
  | nil => exact ⟨⟨d.chip, rfl⟩, rfl, fun _ _ _ => rfl⟩
  | cons b bs ih =>
    obtain ⟨hfirst, hpointer⟩ := writeBufByte_spec hinc b
    have hinc' : ((wrBufOp b d).chip.regs CON2).getLsbD 7 = true := by
      show ((d.chip.writeBufByte b).regs CON2).getLsbD 7 = true
      rw [hfirst.regs CON2 (by decide) (by decide)]
      exact hinc
    obtain ⟨⟨c', hc'⟩, hmem, hregs⟩ := ih hinc'
    refine ⟨⟨c', hc'⟩, ?_, fun i hi hi' => (hregs i hi hi').trans (hfirst.regs i hi hi')⟩
    show (wrBuf bs (wrBufOp b d)).chip.mem = _
    rw [hmem]
    show Enc28Chip.fill (d.chip.writeBufByte b).mem ((d.chip.writeBufByte b).pointer WRPTL) bs = _
    rw [hpointer, hfirst.mem]
    rfl

/-- Before the end of the memory nothing wraps. -/
theorem fill_eq (mem : Nat → UInt8) {p : Nat} {bs : List UInt8} (h : p + bs.length ≤ 0x2000) :
    Enc28Chip.fill mem p bs = blit mem p bs := by
  induction bs generalizing mem p with
  | nil => exact (blit_nil mem p).symm
  | cons b bs ih =>
    rw [List.length_cons] at h
    unfold Enc28Chip.fill
    cases bs with
    | nil =>
      rw [blit_cons, blit_nil]
      rfl
    | cons b' bs =>
      rw [List.length_cons] at h
      rw [Nat.mod_eq_of_lt (by omega), ih _ (by rw [List.length_cons]; omega), ← blit_cons]

theorem rts_set : ∀ x : BitVec 8, (x ||| 0x08).getLsbD 3 = true ∧ (x ||| 0x08) &&& 3 = x &&& 3 := by
  decide

theorem rts_clear : ∀ x : BitVec 8,
    (x &&& ~~~0x08).getLsbD 3 = false ∧ (x &&& ~~~0x08) &&& 3 = x &&& 3 := by
  decide

theorem erif_bit : ∀ x : BitVec 8, (x.toNat &&& 0x02 ≠ 0) ↔ x.getLsbD 1 = true := by decide

/-- `CON1` written, but for its bank bits. -/
theorem con1_spec (op : Cmd) (datum : Nat) (d : Enc28) {v : BitVec 8}
    (hv : d.chip.command op CON1 datum = d.chip.store CON1 v) :
    (wrOp op CON1 datum d).chip.mem = d.chip.mem ∧ (wrOp op CON1 datum d).chip.regs CON1 = v ∧
      ∀ i ≠ CON1, (wrOp op CON1 datum d).chip.regs i = d.chip.regs i := by
  have hchip : (wrOp op CON1 datum d).chip = d.chip.set CON1 v := by
    unfold wrOp
    dsimp only
    rw [hv, store_eq _ _ (by decide)]
  rw [hchip]
  refine ⟨rfl, ?_, fun i hi => ?_⟩
  · rw [set_regs, if_pos rfl]
  · rw [set_regs, if_neg hi]

/-- What `enc28_send` leaves. -/
structure Sent (packet : List UInt8) (d d' : Enc28) : Prop where
  banked : Banked d'
  txptr : d'.txptr = d.txptr
  rxptr : d'.rxptr = d.rxptr
  regs : ∀ i ∉ [CON1, WRPTL, WRPTH, TXNDL, TXNDH], d'.chip.regs i = d.chip.regs i
  mem : d'.chip.mem = blit d.chip.mem d.txptr (0x00 :: packet)
  txnd : d'.chip.pointer TXNDL = d.txptr + packet.length
  rts : d'.chip.rts = !d.chip.erif

theorem wr_txptr (addr datum : Nat) (d : Enc28) : (wr addr datum d).txptr = d.txptr := by
  unfold wr wrOp setBank
  split <;> rfl

/-- The registers, set up for a packet. -/
def prepare (packet : List UInt8) (d : Enc28) : Enc28 :=
  wr TXNDH ((d.txptr + packet.length) >>> 8) (wr TXNDL (d.txptr + packet.length)
    (wr WRPTH (d.txptr >>> 8) (wr WRPTL d.txptr d)))

/-- The transmission is asked for, and given up where an earlier one has failed. -/
def request (d : Enc28) : Enc28 :=
  let r := rd IR (wrOp .bitFieldSet CON1 0x08 d)
  if r.1 &&& 0x02 ≠ 0 then wrOp .bitFieldClr CON1 0x08 r.2 else r.2

theorem send_eq (packet : List UInt8) (d : Enc28) :
    send packet d = (packet.length, request (wrBuf (0x00 :: packet) (prepare packet d))) := by
  unfold send request prepare
  simp only [wr_txptr]
  rfl

theorem prepare_spec (h : Banked d) (packet : List UInt8) (hp : d.txptr + packet.length < 65536) :
    (prepare packet d).txptr = d.txptr ∧ (prepare packet d).rxptr = d.rxptr ∧
      (prepare packet d).chip.pointer WRPTL = d.txptr ∧
      (prepare packet d).chip.pointer TXNDL = d.txptr + packet.length ∧
      Kept [WRPTL, WRPTH, TXNDL, TXNDH] d (prepare packet d) := by
  have hw : Written d (prepare packet d) _ := ((((Written.refl h).wr WRPTL d.txptr (by decide)).wr
    WRPTH (d.txptr >>> 8) (by decide)).wr TXNDL (d.txptr + packet.length) (by decide)).wr TXNDH
    ((d.txptr + packet.length) >>> 8) (by decide)
  have hhigh : ∀ n, BitVec.ofNat 8 (n >>> 8) = BitVec.ofNat 8 (n / 256) := fun n => by
    rw [Nat.shiftRight_eq_div_pow]
  refine ⟨?_, hw.rxptr, ?_, ?_, hw.banked, hw.mem, fun i hi => ?_⟩
  · unfold prepare
    simp only [wr_txptr]
  · exact pointer_of_bytes (by omega) (hw.regs WRPTL (by decide))
      ((hw.regs WRPTH (by decide)).trans (hhigh _))
  · exact pointer_of_bytes hp (hw.regs TXNDL (by decide))
      ((hw.regs TXNDH (by decide)).trans (hhigh _))
  · simp only [List.mem_cons, List.not_mem_nil, or_false, not_or] at hi
    refine (hw.regs i hi.1).trans ?_
    rw [List.lookup_cons, beq_false_of_ne hi.2.2.2.2, List.lookup_cons,
      beq_false_of_ne hi.2.2.2.1, List.lookup_cons, beq_false_of_ne hi.2.2.1, List.lookup_cons,
      beq_false_of_ne hi.2.1]
    rfl

theorem request_spec (h : Banked d) :
    (request d).txptr = d.txptr ∧ (request d).rxptr = d.rxptr ∧ Kept [] d (request d) ∧
      (request d).chip.rts = !d.chip.erif := by
  obtain ⟨hmem, hcon1, hregs⟩ :=
    con1_spec .bitFieldSet 0x08 d (v := d.chip.regs CON1 ||| 0x08) rfl
  have hbanked : Banked (wrOp .bitFieldSet CON1 0x08 d) := by
    unfold Banked
    rw [hcon1, (rts_set _).2]
    exact h
  have hset := setBank_spec hbanked (by decide : IR < 0x80)
  have hquiet := setBank_quiet hbanked (by decide : IR < 0x80)
  have hread : (rd IR (wrOp .bitFieldSet CON1 0x08 d)).1 = (d.chip.regs IR).toNat := by
    show ((setBank IR (wrOp .bitFieldSet CON1 0x08 d)).chip.regs IR).toNat = _
    rw [hset.regs IR (by decide), hregs IR (by decide)]
  have hrts : (setBank IR (wrOp .bitFieldSet CON1 0x08 d)).chip.rts = true := by
    rw [hquiet.rts]
    unfold Enc28Chip.rts
    rw [hcon1]
    exact (rts_set _).1
  have hstate : (rd IR (wrOp .bitFieldSet CON1 0x08 d)).2 =
      setBank IR (wrOp .bitFieldSet CON1 0x08 d) := rfl
  unfold request
  dsimp only
  rw [hread, hstate]
  show _ ∧ _ ∧ _ ∧ _ = !(d.chip.regs IR).getLsbD 1
  have hkept : Kept [] d (setBank IR (wrOp .bitFieldSet CON1 0x08 d)) :=
    ⟨hset.banked, hset.mem.trans hmem, fun i hi =>
      (hquiet.regs i hi).trans (hregs i fun heq => hi (by simp [heq]))⟩
  by_cases herif : (d.chip.regs IR).getLsbD 1 = true
  · obtain ⟨hmem', hcon1', hregs'⟩ := con1_spec .bitFieldClr 0x08
      (setBank IR (wrOp .bitFieldSet CON1 0x08 d))
      (v := (setBank IR (wrOp .bitFieldSet CON1 0x08 d)).chip.regs CON1 &&& ~~~0x08) rfl
    rw [if_pos ((erif_bit _).mpr herif), herif]
    refine ⟨hquiet.txptr, hset.rxptr, ⟨?_, hmem'.trans hkept.mem, fun i hi => ?_⟩, ?_⟩
    · unfold Banked
      rw [hcon1', (rts_clear _).2]
      exact hset.banked
    · exact (hregs' i fun heq => hi (by simp [heq])).trans (hkept.regs i hi)
    · unfold Enc28Chip.rts
      rw [hcon1', (rts_clear _).1]
      rfl
  · rw [if_neg fun hne => herif ((erif_bit _).mp hne), (Bool.not_eq_true _).mp herif]
    exact ⟨hquiet.txptr, hset.rxptr, hkept, hrts⟩

/-- **A packet is sent.** -/
theorem send_spec {packet : List UInt8} (h : Ready d) (hp : d.txptr + packet.length < 0x2000) :
    Sent packet d (send packet d).2 := by
  obtain ⟨htxptr, hrxptr, hwrpt, htxnd, hprep⟩ := prepare_spec h.banked packet (by omega)
  have hinc : ((prepare packet d).chip.regs CON2).getLsbD 7 = true := by
    rw [hprep.regs CON2 (by decide)]
    exact h.autoinc
  obtain ⟨⟨c', hc'⟩, hmem, hregs⟩ := wrBuf_spec hinc (0x00 :: packet)
  rw [send_eq]
  dsimp only
  have hbanked : Banked (wrBuf (0x00 :: packet) (prepare packet d)) := by
    have hcon1 := hregs CON1 (by decide) (by decide)
    rw [hc'] at hcon1 ⊢
    show (prepare packet d).bank = 0x20 * (c'.regs CON1 &&& 3).toNat
    rw [show c'.regs CON1 = _ from hcon1]
    exact hprep.banked
  obtain ⟨htxptr', hrxptr', hreq, hrts⟩ := request_spec hbanked
  have hall : ∀ i ∉ [CON1, WRPTL, WRPTH], (request (wrBuf (0x00 :: packet)
      (prepare packet d))).chip.regs i = (prepare packet d).chip.regs i := by
    intro i hi
    simp only [List.mem_cons, List.not_mem_nil, or_false, not_or] at hi
    rw [hreq.regs i (by simp [hi.1]), hregs i hi.2.1 hi.2.2]
  refine ⟨hreq.banked, ?_, ?_, fun i hi => ?_, ?_, ?_, ?_⟩
  · rw [htxptr', hc']
    exact htxptr
  · rw [hrxptr', hc']
    exact hrxptr
  · simp only [List.mem_cons, List.not_mem_nil, or_false, not_or] at hi
    rw [hall i (by simp [hi]), hprep.regs i (by simp [hi])]
  · rw [hreq.mem, hmem, hwrpt, hprep.mem, fill_eq _ (by rw [List.length_cons]; omega)]
  · rw [← htxnd]
    exact pointer_congr (hall TXNDL (by decide)) (hall (TXNDL + 1) (by decide))
  · rw [hrts]
    unfold Enc28Chip.erif
    rw [hregs IR (by decide) (by decide), hprep.regs IR (by decide)]

end Send

-- ---------------------------------------------------------------------------
-- Both directions
-- ---------------------------------------------------------------------------

/-- The frames that arrive: the controller writes to the receive buffer only, and counts. -/
def receive (mem : Nat → UInt8) (n : BitVec 8) (c : Enc28Chip) : Enc28Chip :=
  let mem := fun a => if c.pointer RXSTL ≤ a ∧ a ≤ c.pointer RXNDL then mem a else c.mem a
  { c with mem := mem }.set PKTCNT (c.regs PKTCNT + n)

/-- The driver with its controller, and the frames that have been on the wire. -/
structure Eth where
  dev : Enc28
  wire : List (List UInt8)

/-- What happens: the calls of the driver, the end of a transmission, and frames from the
wire. -/
inductive EthEvent where
  | send (packet : List UInt8)
  | finished (status : List UInt8) (failed : Bool)
  | arrive (mem : Nat → UInt8) (n : BitVec 8)
  | recv (maxlen : Nat)

/-- One event; a reception is answered. -/
def ethStep (s : Eth) : EthEvent → Option (Int × List UInt8) × Eth
  | .send packet => (none, { s with dev := (send packet s.dev).2 })
  | .finished status failed =>
    let r := s.dev.chip.finish status failed
    (none, ⟨{ s.dev with chip := r.2 }, s.wire ++ r.1.toList⟩)
  | .arrive mem n => (none, { s with dev := { s.dev with chip := receive mem n s.dev.chip } })
  | .recv maxlen =>
    let r := recv maxlen s.dev
    (some (r.1, r.2.1), { s with dev := r.2.2 })

/-- A packet fits the transmit buffer with its control byte and its status vector, of seven
bytes. -/
def EthEvent.Ok : EthEvent → Prop
  | .send packet => packet.length ≤ 1528
  | .finished status _ => status.length = 7
  | _ => True

/-- What the transmission is: the packet that has been asked for, and whether one has failed. -/
structure Line where
  pending : Option (List UInt8)
  failed : Bool
  wire : List (List UInt8)

/-- A packet takes the place of the one before; when it is finished it is on the wire. -/
def Line.step (l : Line) : EthEvent → Line
  | .send packet => { l with pending := if l.failed then none else some packet }
  | .finished _ failed =>
    match l.pending with
    | none => l
    | some p =>
      if failed then { l with pending := none, failed := true }
      else { l with pending := none, wire := l.wire ++ [p] }
  | _ => l

/-- What the controller has to do with it. -/
structure Sending (s : Eth) (l : Line) : Prop where
  ready : Ready s.dev
  txptr : s.dev.txptr = 0x1a00
  txst : s.dev.chip.pointer TXSTL = 0x1a00
  rts : s.dev.chip.rts = l.pending.isSome
  erif : s.dev.chip.erif = l.failed
  frame : ∀ p, l.pending = some p → p.length ≤ 1528 ∧
    s.dev.chip.pointer TXNDL = 0x1a00 + p.length ∧ block s.dev.chip.mem 0x1a01 p.length = p
  wire : s.wire = l.wire

section Both

variable {s : Eth} {l : Line} {d : Enc28}

theorem sending_send (h : Sending s l) {packet : List UInt8} (hlen : packet.length ≤ 1528) :
    Sending (ethStep s (.send packet)).2 (l.step (.send packet)) := by
  have hsent := @send_spec s.dev packet h.ready (by rw [h.txptr]; omega)
  have hready : Ready (send packet s.dev).2 := h.ready.congr hsent.banked fun i hi =>
    hsent.regs i (by revert i; decide)
  have herif : (send packet s.dev).2.chip.erif = s.dev.chip.erif := by
    unfold Enc28Chip.erif
    rw [hsent.regs IR (by decide)]
  refine ⟨hready, hsent.txptr.trans h.txptr, ?_, ?_, herif.trans h.erif, fun p hp => ?_, h.wire⟩
  · exact (pointer_congr (hsent.regs TXSTL (by decide)) (hsent.regs TXSTH (by decide))).trans h.txst
  · show (send packet s.dev).2.chip.rts = (if l.failed then none else some packet).isSome
    rw [hsent.rts, h.erif]
    cases l.failed <;> rfl
  · have hpacket : p = packet := by
      change (if l.failed then none else some packet) = some p at hp
      split at hp
      · cases hp
      · exact (Option.some.inj hp).symm
    rw [hpacket]
    refine ⟨hlen, ?_, ?_⟩
    · rw [← h.txptr]
      exact hsent.txnd
    · show block (send packet s.dev).2.chip.mem 0x1a01 packet.length = packet
      rw [hsent.mem, h.txptr, blit_cons]
      exact block_blit_self _ 0x1a01 packet

/-- A transmission ends. -/
theorem finish_spec {c : Enc28Chip} (hrts : c.rts = true) (status : List UInt8) (failed : Bool) :
    (c.finish status failed).1 = (if failed then none else some c.txFrame) ∧
      (c.finish status failed).2.mem =
        Enc28Chip.fill c.mem ((c.pointer TXNDL + 1) % 0x2000) status ∧
      (c.finish status failed).2.regs CON1 = c.regs CON1 &&& ~~~0x08 ∧
      (c.finish status failed).2.erif = (c.erif || failed) ∧
      ∀ i ∉ [CON1, IR], (c.finish status failed).2.regs i = c.regs i := by
  have hbit : ∀ x : BitVec 8, (x ||| 0x02).getLsbD 1 = true := by decide
  unfold Enc28Chip.finish
  dsimp only
  rw [if_pos hrts]
  cases failed with
  | true =>
    refine ⟨rfl, rfl, ?_, ?_, fun i hi => ?_⟩
    · rw [if_pos rfl, set_regs, if_neg (by decide), set_regs, if_pos rfl]
    · unfold Enc28Chip.erif
      rw [if_pos rfl, set_regs, if_pos rfl, hbit, Bool.or_true]
    · rw [List.mem_cons, List.mem_singleton, not_or] at hi
      rw [if_pos rfl, set_regs, if_neg hi.2, set_regs, if_neg hi.1]
  | false =>
    refine ⟨rfl, rfl, ?_, ?_, fun i hi => ?_⟩
    · rw [if_neg Bool.false_ne_true, set_regs, if_pos rfl]
    · unfold Enc28Chip.erif
      rw [if_neg Bool.false_ne_true, set_regs, if_neg (by decide), Bool.or_false]
    · rw [List.mem_cons, List.mem_singleton, not_or] at hi
      rw [if_neg Bool.false_ne_true, set_regs, if_neg hi.1]

/-- The registers that the sending side relies on. -/
theorem Sending.regs (h : Sending s l) {d' : Enc28} (hbanked : Banked d')
    (htxptr : d'.txptr = s.dev.txptr)
    (hregs : ∀ i ∈ [CON2, RXSTL, RXSTH, RXNDL, RXNDH, TXSTL, TXSTH],
      d'.chip.regs i = s.dev.chip.regs i) :
    Ready d' ∧ d'.txptr = 0x1a00 ∧ d'.chip.pointer TXSTL = 0x1a00 := by
  refine ⟨h.ready.congr hbanked fun i hi => hregs i ?_, htxptr.trans h.txptr, ?_⟩
  · revert i
    decide
  · exact (pointer_congr (hregs TXSTL (by decide)) (hregs TXSTH (by decide))).trans h.txst

/-- Without a transmission none ends. -/
theorem Sending.idle (h : Sending s l) (hpending : l.pending = none) (status : List UInt8)
    (failed : Bool) : (ethStep s (.finished status failed)).2 = s := by
  have hrts : s.dev.chip.rts = false := by
    rw [h.rts, hpending]
    rfl
  unfold ethStep Enc28Chip.finish
  dsimp only
  rw [hrts, if_neg Bool.false_ne_true, Option.toList_none, List.append_nil]

theorem sending_finished (h : Sending s l) {status : List UInt8} (failed : Bool) :
    Sending (ethStep s (.finished status failed)).2 (l.step (.finished status failed)) := by
  cases hpending : l.pending with
  | none =>
    have hstep : l.step (.finished status failed) = l := by
      unfold Line.step
      rw [hpending]
    rw [h.idle hpending, hstep]
    exact h
  | some p =>
    have hrts : s.dev.chip.rts = true := by
      rw [h.rts, hpending]
      rfl
    obtain ⟨-, htxnd, hblock⟩ := h.frame p hpending
    obtain ⟨hframe, -, hcon1, herif, hregs⟩ := finish_spec hrts status failed
    have hp : s.dev.chip.txFrame = p := by
      unfold Enc28Chip.txFrame
      rw [h.txst, htxnd, Nat.add_sub_cancel_left]
      exact hblock
    have hbanked : Banked { s.dev with chip := (s.dev.chip.finish status failed).2 } := by
      unfold Banked
      rw [hcon1, (rts_clear _).2]
      exact h.ready.banked
    obtain ⟨hready, htxptr, htxst⟩ := h.regs hbanked rfl fun i hi => hregs i (by
      revert i
      decide)
    have hclear : (s.dev.chip.finish status failed).2.rts = false := by
      unfold Enc28Chip.rts
      rw [hcon1]
      exact (rts_clear _).1
    have hstep : l.step (.finished status failed) =
        ⟨none, l.failed || failed, l.wire ++ if failed then [] else [p]⟩ := by
      unfold Line.step
      rw [hpending]
      cases failed <;> simp
    rw [hstep]
    refine ⟨hready, htxptr, htxst, hclear, herif.trans (by rw [h.erif]), nofun, ?_⟩
    show s.wire ++ (s.dev.chip.finish status failed).1.toList = _
    rw [hframe, hp, h.wire]
    cases failed <;> rfl

/-- What leaves the transmit buffer and its registers alone. -/
theorem Sending.keep (h : Sending s l) {d' : Enc28} (hready : Ready d')
    (htxptr : d'.txptr = s.dev.txptr) (hrts : d'.chip.rts = s.dev.chip.rts)
    (hregs : ∀ i ∈ [IR, TXSTL, TXSTH, TXNDL, TXNDH], d'.chip.regs i = s.dev.chip.regs i)
    (hmem : ∀ a, 0x1a00 ≤ a → d'.chip.mem a = s.dev.chip.mem a) : Sending ⟨d', s.wire⟩ l := by
  have hir : d'.chip.erif = s.dev.chip.erif := by
    unfold Enc28Chip.erif
    rw [hregs IR (by simp)]
  refine ⟨hready, htxptr.trans h.txptr, ?_, hrts.trans h.rts, hir.trans h.erif, fun p hp => ?_,
    h.wire⟩
  · exact (pointer_congr (hregs TXSTL (by simp)) (hregs TXSTH (by simp))).trans h.txst
  · obtain ⟨hlen, htxnd, hblock⟩ := h.frame p hp
    exact ⟨hlen, (pointer_congr (hregs TXNDL (by simp)) (hregs TXNDH (by simp))).trans htxnd,
      (block_congr fun i _ => hmem _ (by omega)).trans hblock⟩

theorem receive_regs (mem : Nat → UInt8) (n : BitVec 8) (c : Enc28Chip) :
    ∀ i ≠ PKTCNT, (receive mem n c).regs i = c.regs i := by
  intro i hi
  unfold receive
  rw [set_regs, if_neg hi]

theorem receive_ready (h : Ready d) (mem : Nat → UInt8) (n : BitVec 8) :
    Ready { d with chip := receive mem n d.chip } := by
  refine h.congr ?_ fun i hi => receive_regs mem n d.chip i ?_
  · unfold Banked
    rw [receive_regs mem n d.chip CON1 (by decide)]
    exact h.banked
  · revert i
    decide

theorem receive_mem (h : Ready d) (mem : Nat → UInt8) (n : BitVec 8) (a : Nat) :
    (receive mem n d.chip).mem a = if a < 0x1a00 then mem a else d.chip.mem a := by
  show (if d.chip.pointer RXSTL ≤ a ∧ a ≤ d.chip.pointer RXNDL then mem a else d.chip.mem a) = _
  rw [h.rxst, h.rxnd]
  by_cases ha : a < 0x1a00
  · rw [if_pos ha, if_pos (by omega)]
  · rw [if_neg ha, if_neg (by omega)]

theorem sending_arrive (h : Sending s l) (mem : Nat → UInt8) (n : BitVec 8) :
    Sending (ethStep s (.arrive mem n)).2 (l.step (.arrive mem n)) := by
  refine h.keep (receive_ready h.ready mem n) rfl ?_ (fun i hi => ?_) fun a ha => ?_
  · unfold Enc28Chip.rts
    rw [receive_regs mem n s.dev.chip CON1 (by decide)]
  · refine receive_regs mem n s.dev.chip i ?_
    revert i
    decide
  · rw [receive_mem h.ready, if_neg (by omega)]

/-- Between its calls the driver is ready for the next. -/
theorem recv_ready (h : Ready d) (maxlen : Nat) : Ready (recv maxlen d).2.2 := by
  by_cases hcount : d.chip.regs PKTCNT = 0
  · rw [recv_none h.banked hcount]
    have hbank : Quiet [] d (rd PKTCNT d).2 := setBank_quiet h.banked (by decide)
    exact hbank.ready h (by decide)
  · have hopen := fun rxptr => (open_quiet h rxptr).ready h (by decide)
    rw [recv_eq hcount h]
    dsimp only
    split
    · exact hopen _
    · exact (release_spec (rdBuf_ready (hopen _) _) _).1

theorem sending_recv (h : Sending s l) (maxlen : Nat) :
    Sending (ethStep s (.recv maxlen)).2 (l.step (.recv maxlen)) := by
  have hquiet := recv_quiet h.ready maxlen
  refine h.keep (recv_ready h.ready maxlen) hquiet.txptr hquiet.rts (fun i hi => ?_) fun a _ => ?_
  · refine hquiet.regs i ?_
    revert i
    decide
  · exact congrFun hquiet.mem a

/-- **One event**, in both pictures of the transmission. -/
theorem sending_step (h : Sending s l) {e : EthEvent} (he : e.Ok) :
    Sending (ethStep s e).2 (l.step e) := by
  cases e with
  | send packet => exact sending_send h he
  | finished status failed => exact sending_finished h failed
  | arrive mem n => exact sending_arrive h mem n
  | recv maxlen => exact sending_recv h maxlen

theorem sending_run (h : Sending s l) {es : List EthEvent} (hes : ∀ e ∈ es, e.Ok) :
    Sending (runFrom (fun s e => (ethStep s e).2) s es) (runFrom Line.step l es) := by
  induction es generalizing s l with
  | nil => exact h
  | cons e es ih =>
    rw [runFrom_cons, runFrom_cons]
    exact ih (sending_step h (hes e List.mem_cons_self)) fun e' he' =>
      hes e' (List.mem_cons_of_mem e he')

/-- What `enc28_init` leaves of the transmission. -/
theorem initPointers_sending (hbanked : Banked d) (hinc : (d.chip.regs CON2).getLsbD 7 = true)
    (hrts : d.chip.rts = false) (herif : d.chip.erif = false) :
    Sending ⟨initPointers d, []⟩ ⟨none, false, []⟩ := by
  have hstart : Banked { d with rxptr := 0x0000, txptr := 0x1a00 } := hbanked
  have hquiet : Quiet _ _ (initPointers d) := ((((((((((rxptr_quiet hstart 0)
    |>.wr RXSTL 0 (by decide)) |>.wr RXSTH 0 (by decide)) |>.wr RXRDPTL 0 (by decide))
    |>.wr RXRDPTH 0 (by decide)) |>.wr RXNDL 0x19ff (by decide)) |>.wr RXNDH 0x19 (by decide))
    |>.wr TXSTL 0x1a00 (by decide)) |>.wr TXSTH 0x1a (by decide)) |>.wr TXNDL 0x1fff (by decide))
    |>.wr TXNDH 0x1f (by decide)
  have hw : Written _ (initPointers d) _ := ((((((((((Written.refl hstart)
    |>.wr RXSTL 0 (by decide)) |>.wr RXSTH 0 (by decide)) |>.wr RXRDPTL 0 (by decide))
    |>.wr RXRDPTH 0 (by decide)) |>.wr RXNDL 0x19ff (by decide)) |>.wr RXNDH 0x19 (by decide))
    |>.wr TXSTL 0x1a00 (by decide)) |>.wr TXSTH 0x1a (by decide)) |>.wr TXNDL 0x1fff (by decide))
    |>.wr TXNDH 0x1f (by decide)
  refine ⟨(initPointers_ready hbanked hinc).1, hquiet.txptr, ?_, hquiet.rts.trans hrts, ?_, nofun,
    rfl⟩
  · exact pointer_of_bytes (by decide) (hw.regs TXSTL (by decide)) (hw.regs TXSTH (by decide))
  · unfold Enc28Chip.erif
    rw [hw.regs IR (by decide)]
    exact herif

end Both

-- ---------------------------------------------------------------------------
-- Which packets are sent
-- ---------------------------------------------------------------------------

/-- The packets that `enc28_send` is called with. -/
def packets (es : List EthEvent) : List (List UInt8) :=
  es.filterMap fun | .send packet => some packet | _ => none

/-- An event that loses no packet: a call finds the one before finished, and none fails. -/
def Line.Keeps (l : Line) : EthEvent → Prop
  | .send _ => l.pending = none ∧ l.failed = false
  | .finished _ failed => l.pending = none ∨ failed = false
  | _ => True

/-- A run that loses none, and has finished the last. -/
def Paced (l : Line) (es : List EthEvent) : Prop :=
  EachStep Line.step Line.Keeps l es ∧ (runFrom Line.step l es).pending = none

/-- The packets on the wire and on their way. -/
def Line.all (l : Line) : List (List UInt8) := l.wire ++ l.pending.toList

section Lost

variable {l : Line}

theorem packets_cons (e : EthEvent) (es : List EthEvent) :
    packets (e :: es) = packets [e] ++ packets es := by
  unfold packets
  rw [← List.filterMap_append, List.singleton_append]

theorem all_keeps {e : EthEvent} (h : l.Keeps e) : (l.step e).all = l.all ++ packets [e] := by
  cases e with
  | send packet =>
    obtain ⟨hpending, hfailed⟩ := h
    unfold Line.step Line.all
    rw [hpending, hfailed]
    simp [packets]
  | finished status failed =>
    unfold Line.step Line.all
    cases hpending : l.pending with
    | none => simp [hpending, packets]
    | some p =>
      obtain rfl : failed = false := h.resolve_left (by simp [hpending])
      simp [packets]
  | arrive mem n => simp [Line.step, packets]
  | recv maxlen => simp [Line.step, packets]

/-- A packet that is lost is not made up for. -/
theorem all_loses {e : EthEvent} (h : ¬ l.Keeps e) :
    (l.step e).all.length < l.all.length + (packets [e]).length := by
  cases e with
  | send packet =>
    unfold Line.step Line.all
    cases hpending : l.pending with
    | none =>
      have hfailed : l.failed = true := by
        by_contra hne
        exact h ⟨hpending, (Bool.not_eq_true _).mp hne⟩
      rw [hfailed]
      simp [packets]
    | some p => cases l.failed <;> simp [packets]
  | finished status failed =>
    have hlost : l.pending ≠ none ∧ failed ≠ false := not_or.mp h
    obtain ⟨p, hp⟩ := Option.ne_none_iff_exists'.mp hlost.1
    unfold Line.step Line.all
    rw [hp, (Bool.not_eq_false _).mp hlost.2]
    simp [packets]
  | arrive mem n => exact absurd trivial h
  | recv maxlen => exact absurd trivial h

theorem all_length_le (l : Line) (es : List EthEvent) :
    (runFrom Line.step l es).all.length ≤ l.all.length + (packets es).length := by
  induction es generalizing l with
  | nil => exact Nat.le_add_right _ _
  | cons e es ih =>
    have hrest := ih (l.step e)
    rw [runFrom_cons, packets_cons, List.length_append]
    by_cases hkeeps : l.Keeps e
    · rw [all_keeps hkeeps, List.length_append] at hrest
      omega
    · have hlost := all_loses hkeeps
      omega

theorem all_eq_iff (l : Line) (es : List EthEvent) :
    (runFrom Line.step l es).all = l.all ++ packets es ↔ EachStep Line.step Line.Keeps l es := by
  induction es generalizing l with
  | nil => exact iff_of_true (List.append_nil _).symm trivial
  | cons e es ih =>
    rw [runFrom_cons, packets_cons]
    by_cases hkeeps : l.Keeps e
    · rw [← List.append_assoc, ← all_keeps hkeeps, ih]
      exact (and_iff_right hkeeps).symm
    · refine ⟨fun heq => ?_, fun hrun => absurd hrun.1 hkeeps⟩
      have hlost := all_loses hkeeps
      have hle := all_length_le (l.step e) es
      have hlength := congrArg List.length heq
      rw [List.length_append, List.length_append] at hlength
      omega

/-- All packets are on the wire exactly when none is lost. -/
theorem wire_all_iff (es : List EthEvent) :
    (runFrom Line.step ⟨none, false, []⟩ es).wire = packets es ↔ Paced ⟨none, false, []⟩ es := by
  have hiff := all_eq_iff ⟨none, false, []⟩ es
  have hle := all_length_le ⟨none, false, []⟩ es
  have hstart : (⟨none, false, []⟩ : Line).all = [] := rfl
  rw [hstart, List.nil_append] at hiff
  rw [hstart, List.length_nil, Nat.zero_add] at hle
  unfold Paced
  rw [← hiff]
  unfold Line.all at hle ⊢
  cases hpending : (runFrom Line.step ⟨none, false, []⟩ es).pending with
  | none => simp
  | some p =>
    rw [hpending] at hle
    refine ⟨fun heq => ?_, fun h => absurd h.2 nofun⟩
    rw [heq, List.length_append] at hle
    simp at hle

/-- **Transmission.** Whatever the order of calls, ends of transmissions, arrivals and
receptions is: the frames on the wire are those of the line, and they are all the packets if
and only if each was finished before the next and none failed. -/
theorem wire_eq {d : Enc28} (hbanked : Banked d) (hinc : (d.chip.regs CON2).getLsbD 7 = true)
    (hrts : d.chip.rts = false) (herif : d.chip.erif = false) {es : List EthEvent}
    (hes : ∀ e ∈ es, e.Ok) :
    (runFrom (fun s e => (ethStep s e).2) ⟨initPointers d, []⟩ es).wire =
        (runFrom Line.step ⟨none, false, []⟩ es).wire ∧
      ((runFrom (fun s e => (ethStep s e).2) ⟨initPointers d, []⟩ es).wire = packets es ↔
        Paced ⟨none, false, []⟩ es) := by
  have hrun := sending_run (initPointers_sending hbanked hinc hrts herif) hes
  rw [hrun.wire]
  exact ⟨rfl, wire_all_iff es⟩

/-- A call before the transmission is finished takes the place of the packet before. -/
theorem wire_overtaken :
    (runFrom (fun s e => (ethStep s e).2) ⟨initPointers atReset, []⟩
      [.send [1], .send [2], .finished (List.replicate 7 0) false]).wire = [[2]] := by
  have hbanked : Banked atReset := rfl
  refine (wire_eq hbanked rfl rfl rfl fun e he => ?_).1
  simp only [List.mem_cons, List.not_mem_nil, or_false] at he
  rcases he with rfl | rfl | rfl
  · exact (by decide : 1 ≤ 1528)
  · exact (by decide : 1 ≤ 1528)
  · rfl

end Lost

-- ---------------------------------------------------------------------------
-- Receptions in between
-- ---------------------------------------------------------------------------

/-- Two drivers that receive the same. -/
structure SameRx (d d' : Enc28) : Prop where
  ready : Ready d
  ready' : Ready d'
  rxptr : d.rxptr = d'.rxptr
  inside : d.rxptr < 0x1a00
  count : d.chip.regs PKTCNT = d'.chip.regs PKTCNT
  mem : ∀ a < 0x1a00, d.chip.mem a = d'.chip.mem a

section Receptions

variable {d d' : Enc28}

theorem rxAdvance_lt {p : Nat} (h : p < 0x1a00) (i : Nat) : rxAdvance^[i] p < 0x1a00 := by
  induction i with
  | zero => exact h
  | succ i ih =>
    rw [Function.iterate_succ_apply']
    generalize rxAdvance^[i] p = q at ih
    unfold rxAdvance
    split <;> omega

/-- The receive buffer alone is read. -/
theorem ring_same {mem mem' : Nat → UInt8} (h : ∀ a < 0x1a00, mem a = mem' a) {p : Nat}
    (hp : p < 0x1a00) (n : Nat) : ring mem rxAdvance p n = ring mem' rxAdvance p n :=
  List.map_congr_left fun i _ => h _ (rxAdvance_lt hp i)

theorem SameRx.of_quiet {e e' : Enc28} {es : List Nat} (h : SameRx d d') (hq : Quiet es d e)
    (hq' : Quiet es d' e') (hready : Ready e) (hready' : Ready e') (hes : PKTCNT ∉ CON1 :: es)
    (hrxptr : e.rxptr = e'.rxptr) (hinside : e.rxptr < 0x1a00) : SameRx e e' := by
  refine ⟨hready, hready', hrxptr, hinside, ?_, fun a ha => ?_⟩
  · rw [hq.regs _ hes, hq'.regs _ hes, h.count]
  · rw [hq.mem, hq'.mem, h.mem a ha]

/-- The preamble is the same. -/
theorem open_same (h : SameRx d d') : (rdBuf 6 (seek d)).1 = (rdBuf 6 (seek d')).1 ∧
    (rdBuf 6 (seek d)).2.chip.pointer RDPTL = (rdBuf 6 (seek d')).2.chip.pointer RDPTL ∧
      (rdBuf 6 (seek d)).2.chip.pointer RDPTL < 0x1a00 := by
  have hone : ∀ {e : Enc28}, Ready e → e.rxptr < 0x1a00 →
      (rdBuf 6 (seek e)).1 = ring e.chip.mem rxAdvance e.rxptr 6 ∧
        (rdBuf 6 (seek e)).2.chip.pointer RDPTL = rxAdvance^[6] e.rxptr := by
    intro e hready hinside
    obtain ⟨hpointer, hseek⟩ := seek_spec hready (by omega)
    obtain ⟨hbytes, hpointer', -⟩ := rdBuf_spec (hseek.ready hready (by decide)) 6
    rw [hbytes, hpointer', hpointer, hseek.mem]
    exact ⟨rfl, rfl⟩
  obtain ⟨hbytes, hpointer⟩ := hone h.ready h.inside
  obtain ⟨hbytes', hpointer'⟩ := hone h.ready' (h.rxptr ▸ h.inside)
  rw [hbytes, hbytes', hpointer, hpointer', ← h.rxptr]
  exact ⟨ring_same h.mem h.inside 6, rfl, rxAdvance_lt h.inside 6⟩

/-- A frame is read and given back by both. -/
theorem taken_same (h : SameRx d d') {rxptr : Nat} (hrxptr : rxptr < 0x1a00) (n next : Nat) :
    (rdBuf n { (rdBuf 6 (seek d)).2 with rxptr := rxptr }).1 =
        (rdBuf n { (rdBuf 6 (seek d')).2 with rxptr := rxptr }).1 ∧
      SameRx (release next (rdBuf n { (rdBuf 6 (seek d)).2 with rxptr := rxptr }).2)
        (release next (rdBuf n { (rdBuf 6 (seek d')).2 with rxptr := rxptr }).2) := by
  obtain ⟨-, hpointer, hinside⟩ := open_same h
  have hopen := open_quiet h.ready rxptr
  have hopen' := open_quiet h.ready' rxptr
  have hready := hopen.ready h.ready (by decide)
  have hready' := hopen'.ready h.ready' (by decide)
  have hread := rdBuf_quiet hready n
  have hread' := rdBuf_quiet hready' n
  have hmem : ∀ a < 0x1a00, (rdBuf 6 (seek d)).2.chip.mem a = (rdBuf 6 (seek d')).2.chip.mem a := by
    intro a ha
    exact (congrFun hopen.mem a).trans ((h.mem a ha).trans (congrFun hopen'.mem a).symm)
  obtain ⟨hend, hrx, -, hcount⟩ := release_spec (rdBuf_ready hready n) next
  obtain ⟨hend', hrx', -, hcount'⟩ := release_spec (rdBuf_ready hready' n) next
  have hquiet := taken_quiet h.ready rxptr n next
  have hquiet' := taken_quiet h.ready' rxptr n next
  refine ⟨?_, hend, hend', hrx.trans hrx'.symm, hrx.trans_lt hrxptr, ?_, fun a ha => ?_⟩
  · rw [(rdBuf_spec hready n).1, (rdBuf_spec hready' n).1]
    show ring _ rxAdvance ((rdBuf 6 (seek d)).2.chip.pointer RDPTL) n =
      ring _ rxAdvance ((rdBuf 6 (seek d')).2.chip.pointer RDPTL) n
    rw [← hpointer]
    exact ring_same hmem hinside n
  · rw [hcount, hcount', hread.regs PKTCNT (by decide), hread'.regs PKTCNT (by decide),
      hopen.regs PKTCNT (by decide), hopen'.regs PKTCNT (by decide), h.count]
  · rw [hquiet.mem, hquiet'.mem, h.mem a ha]

/-- The receive pointer that the driver takes over has lost its high byte. -/
theorem next_lt (bytes : List UInt8) :
    ((bytes.getD 0 0).toNat ||| (bytes.getD 1 0).toNat <<< 16) % 65536 < 0x1a00 := by
  have hlow := (bytes.getD 0 0).toNat_lt
  rw [or_shift (by omega)]
  omega

/-- **A reception** by both. -/
theorem recv_same (h : SameRx d d') (maxlen : Nat) :
    (recv maxlen d).1 = (recv maxlen d').1 ∧ (recv maxlen d).2.1 = (recv maxlen d').2.1 ∧
      SameRx (recv maxlen d).2.2 (recv maxlen d').2.2 := by
  have hready := recv_ready h.ready maxlen
  have hready' := recv_ready h.ready' maxlen
  by_cases hcount : d.chip.regs PKTCNT = 0
  · have hbank : Quiet [] d (rd PKTCNT d).2 := setBank_quiet h.ready.banked (by decide)
    have hbank' : Quiet [] d' (rd PKTCNT d').2 := setBank_quiet h.ready'.banked (by decide)
    have hset := setBank_spec h.ready.banked (by decide : PKTCNT < 0x80)
    have hset' := setBank_spec h.ready'.banked (by decide : PKTCNT < 0x80)
    rw [recv_none h.ready.banked hcount] at hready ⊢
    rw [recv_none h.ready'.banked (h.count ▸ hcount)] at hready' ⊢
    refine ⟨rfl, rfl, h.of_quiet hbank hbank' hready hready' (by decide) ?_ ?_⟩
    · exact hset.rxptr.trans (h.rxptr.trans hset'.rxptr.symm)
    · exact hset.rxptr.trans_lt h.inside
  · have hcount' : d'.chip.regs PKTCNT ≠ 0 := fun hzero => hcount (h.count.trans hzero)
    have hbytes := (open_same h).1
    have hnext := next_lt (rdBuf 6 (seek d)).1
    rw [recv_eq hcount h.ready] at hready ⊢
    rw [recv_eq hcount' h.ready'] at hready' ⊢
    dsimp only at hready hready' ⊢
    rw [← hbytes] at hready' ⊢
    split at hready
    · next herror =>
      rw [if_pos herror] at hready'
      rw [if_pos herror, if_pos herror]
      exact ⟨rfl, rfl, h.of_quiet (open_quiet h.ready _) (open_quiet h.ready' _) hready hready'
        (by decide) rfl hnext⟩
    · next hok =>
      rw [if_neg hok, if_neg hok]
      obtain ⟨hdata, hsame⟩ := taken_same h hnext _ _
      exact ⟨rfl, hdata, hsame⟩

/-- What the other side does not notice. -/
def EthEvent.hidden : EthEvent → Bool
  | .send _ | .finished _ _ => true
  | _ => false

/-- The receive buffer, while a packet is sent. -/
theorem send_same {packet : List UInt8} (h : SameRx d d') (htxptr : d.txptr = 0x1a00)
    (hlen : packet.length ≤ 1528) : SameRx (send packet d).2 d' := by
  have hsent := @send_spec d packet h.ready (by rw [htxptr]; omega)
  have hready : Ready (send packet d).2 := h.ready.congr hsent.banked fun i hi =>
    hsent.regs i (by revert i; decide)
  refine ⟨hready, h.ready', hsent.rxptr.trans h.rxptr, hsent.rxptr.trans_lt h.inside, ?_,
    fun a ha => ?_⟩
  · rw [hsent.regs PKTCNT (by decide), h.count]
  · rw [hsent.mem, htxptr, blit_outside _ (Or.inl ha), h.mem a ha]

/-- The receive buffer, when a transmission ends. -/
theorem finished_same {s : Eth} {l : Line} {status : List UInt8} {failed : Bool}
    (h : SameRx s.dev d') (hs : Sending s l) (hstatus : status.length = 7) :
    SameRx (ethStep s (.finished status failed)).2.dev d' := by
  have hready := (@sending_finished s l hs status failed).ready
  cases hpending : l.pending with
  | none =>
    rw [hs.idle hpending]
    exact h
  | some p =>
    have hrts : s.dev.chip.rts = true := by
      rw [hs.rts, hpending]
      rfl
    obtain ⟨hlen, htxnd, -⟩ := hs.frame p hpending
    obtain ⟨-, hmem, -, -, hregs⟩ := finish_spec hrts status failed
    refine ⟨hready, h.ready', h.rxptr, h.inside, ?_, fun a ha => ?_⟩
    · exact (hregs PKTCNT (by decide)).trans h.count
    · refine (congrFun hmem a).trans ?_
      rw [htxnd, Nat.mod_eq_of_lt (by omega), fill_eq _ (by omega),
        blit_outside _ (Or.inl (by omega)), h.mem a ha]

theorem unwinding : Unwinding ethStep ethStep EthEvent.hidden EthEvent.Ok
    (fun s t => (∃ l, Sending s l) ∧ SameRx s.dev t.dev) where
  hide := by
    intro s t e hst he hhidden
    obtain ⟨⟨l, hs⟩, hsame⟩ := hst
    refine ⟨⟨_, sending_step hs he⟩, ?_⟩
    cases e with
    | send packet => exact send_same hsame hs.txptr he
    | finished status failed => exact finished_same hsame hs he
    | arrive mem n => cases hhidden
    | recv maxlen => cases hhidden
  both := by
    intro s t e hst he hhidden
    obtain ⟨⟨l, hs⟩, hsame⟩ := hst
    cases e with
    | send packet => cases hhidden
    | finished status failed => cases hhidden
    | arrive mem n =>
      refine ⟨rfl, ⟨_, sending_step hs he⟩, receive_ready hsame.ready mem n,
        receive_ready hsame.ready' mem n, hsame.rxptr, hsame.inside, ?_, fun a ha => ?_⟩
      · show (receive mem n s.dev.chip).regs PKTCNT = (receive mem n t.dev.chip).regs PKTCNT
        unfold receive
        rw [set_regs, set_regs, if_pos rfl, if_pos rfl, hsame.count]
      · show (receive mem n s.dev.chip).mem a = (receive mem n t.dev.chip).mem a
        rw [receive_mem hsame.ready, receive_mem hsame.ready', if_pos ha, if_pos ha]
    | recv maxlen =>
      obtain ⟨hret, hbytes, hafter⟩ := recv_same hsame maxlen
      refine ⟨?_, ⟨_, sending_step hs he⟩, hafter⟩
      show some (_, _) = some (_, _)
      rw [hret, hbytes]

/-- **Receptions** are the same as without the calls and the ends of transmissions in
between. -/
theorem recv_unaffected {d : Enc28} (hbanked : Banked d)
    (hinc : (d.chip.regs CON2).getLsbD 7 = true) (hrts : d.chip.rts = false)
    (herif : d.chip.erif = false) {es : List EthEvent} (hes : ∀ e ∈ es, e.Ok) :
    shown ethStep EthEvent.hidden ⟨initPointers d, []⟩ es =
      (runAnswers ethStep ⟨initPointers d, []⟩ (es.filter fun e => !e.hidden)).1 := by
  obtain ⟨hready, hrxptr, -⟩ := initPointers_ready hbanked hinc
  refine unwinding.shown_eq hes ⟨⟨_, initPointers_sending hbanked hinc hrts herif⟩, ?_⟩
  exact ⟨hready, hready, rfl, by rw [hrxptr]; decide, rfl, fun _ _ => rfl⟩

/-- A packet is sent while a frame arrives and is taken. -/
theorem recv_between :
    shown ethStep EthEvent.hidden ⟨initPointers atReset, []⟩
        [.send [1], .arrive (fun _ => 0) 1, .finished (List.replicate 7 0) false, .recv 50] =
      (runAnswers ethStep ⟨initPointers atReset, []⟩ [.arrive (fun _ => 0) 1, .recv 50]).1 := by
  have hbanked : Banked atReset := rfl
  refine recv_unaffected hbanked rfl rfl rfl fun e he => ?_
  simp only [List.mem_cons, List.not_mem_nil, or_false] at he
  rcases he with rfl | rfl | rfl | rfl
  · exact (by decide : 1 ≤ 1528)
  · trivial
  · rfl
  · trivial

end Receptions

end Enc28

end Bathos.Drivers
