import Bathos.Lib.Memory
import Bathos.Lib.Run

/-!
# Bathos — reception from an ENC28J60

`drivers/enc28j60.c` over the controller it drives: the banks of registers, the buffer
memory behind the read pointer, and the packet counter.

`enc28_recv` puts a pointer and a length together from bytes, with the high byte shifted
by 16 places; and for a frame with an error it returns before the controller is told that
the frame is done with.

Main results:

* `wr_regs`, `readBuf_spec` — a register written, and the buffer memory read;
* `recv_spec` — what a reception does with the frame at the read pointer;
* `recv_consumes_iff` — the runs that take one frame after another.
-/

namespace Bathos.Drivers

open Bathos.Lib

-- ---------------------------------------------------------------------------
-- The controller
-- ---------------------------------------------------------------------------

/-- The controller: its registers, by bank and address, and its buffer memory. -/
structure Enc28Chip where
  regs : Nat → BitVec 8
  mem : Nat → UInt8

namespace Enc28

/-- `ENC28_CON2`. -/
def CON2 : Nat := 0x1E

/-- `ENC28_CON1`. -/
def CON1 : Nat := 0x1F

/-- `ENC28_RDPTL`. -/
def RDPTL : Nat := 0x00

/-- `ENC28_RDPTH`. -/
def RDPTH : Nat := 0x01

/-- `ENC28_TXSTL`. -/
def TXSTL : Nat := 0x04

/-- `ENC28_TXSTH`. -/
def TXSTH : Nat := 0x05

/-- `ENC28_TXNDL`. -/
def TXNDL : Nat := 0x06

/-- `ENC28_TXNDH`. -/
def TXNDH : Nat := 0x07

/-- `ENC28_RXSTL`. -/
def RXSTL : Nat := 0x08

/-- `ENC28_RXSTH`. -/
def RXSTH : Nat := 0x09

/-- `ENC28_RXNDL`. -/
def RXNDL : Nat := 0x0A

/-- `ENC28_RXNDH`. -/
def RXNDH : Nat := 0x0B

/-- `ENC28_RXRDPTL`. -/
def RXRDPTL : Nat := 0x0C

/-- `ENC28_RXRDPTH`. -/
def RXRDPTH : Nat := 0x0D

/-- `ENC28_PKTCNT`: in bank 1. -/
def PKTCNT : Nat := 0x39

/-- The commands of the SPI interface that carry a register. -/
inductive Cmd where
  | readCtrlReg
  | writeCtrlReg
  | bitFieldSet
  | bitFieldClr
deriving DecidableEq, Repr

end Enc28

namespace Enc28Chip

open Enc28

/-- The register behind an address of five bits: the last five are in all banks. -/
def index (c : Enc28Chip) (addr : Nat) : Nat :=
  let a := addr &&& 0x1F
  if 0x1B ≤ a then a else 0x20 * (c.regs CON1 &&& 3).toNat + a

/-- The register `i` becomes `v`. -/
def set (c : Enc28Chip) (i : Nat) (v : BitVec 8) : Enc28Chip :=
  { c with regs := Function.update c.regs i v }

/-- A register takes a value. Bit PKTDEC of `CON2` takes a packet from the counter, and
is not kept. -/
def store (c : Enc28Chip) (i : Nat) (v : BitVec 8) : Enc28Chip :=
  if i = CON2 ∧ v.getLsbD 6 = true then
    (c.set CON2 (v &&& ~~~0x40)).set PKTCNT (c.regs PKTCNT - 1)
  else c.set i v

/-- A command for a register. -/
def command (op : Cmd) (addr datum : Nat) (c : Enc28Chip) : Enc28Chip :=
  let i := c.index addr
  let d := BitVec.ofNat 8 datum
  match op with
  | .readCtrlReg => c
  | .writeCtrlReg => c.store i d
  | .bitFieldSet => c.store i (c.regs i ||| d)
  | .bitFieldClr => c.store i (c.regs i &&& ~~~d)

/-- A pointer of two registers. -/
def pointer (c : Enc28Chip) (low : Nat) : Nat := (c.regs low).toNat + 256 * (c.regs (low + 1)).toNat

/-- Where the read pointer goes from `p`: the receive buffer is a ring. -/
def advance (c : Enc28Chip) (p : Nat) : Nat :=
  if p = c.pointer RXNDL then c.pointer RXSTL else (p + 1) % 0x2000

/-- A byte is read from the buffer memory; with AUTOINC the read pointer goes on. -/
def readBufByte (c : Enc28Chip) : UInt8 × Enc28Chip :=
  let p := c.pointer RDPTL
  let q := c.advance p
  (c.mem p,
    if (c.regs CON2).getLsbD 7 then
      (c.set RDPTL (BitVec.ofNat 8 q)).set RDPTH (BitVec.ofNat 8 (q / 256))
    else c)

/-- Bytes are read from the buffer memory. -/
def readBuf : Nat → Enc28Chip → List UInt8 × Enc28Chip
  | 0, c => ([], c)
  | n + 1, c =>
    let r := c.readBufByte
    let rs := readBuf n r.2
    (r.1 :: rs.1, rs.2)

end Enc28Chip

-- ---------------------------------------------------------------------------
-- enc28j60.c
-- ---------------------------------------------------------------------------

/-- `struct enc28_dev`, with the controller behind it. -/
structure Enc28 where
  bank : Nat
  txptr : Nat
  rxptr : Nat
  chip : Enc28Chip

namespace Enc28

/-- `__enc28_wr_op`. -/
def wrOp (op : Cmd) (addr datum : Nat) (d : Enc28) : Enc28 :=
  { d with chip := d.chip.command op addr datum }

/-- `__enc28_set_bank`. -/
def setBank (addr : Nat) (d : Enc28) : Enc28 :=
  if d.bank = addr &&& 0x60 then d
  else
    let bank := addr &&& 0x60
    wrOp .bitFieldSet CON1 (bank >>> 5) (wrOp .bitFieldClr CON1 3 { d with bank := bank })

/-- `enc28_wr`. -/
def wr (addr datum : Nat) (d : Enc28) : Enc28 := wrOp .writeCtrlReg addr datum (setBank addr d)

/-- `enc28_rd`. -/
def rd (addr : Nat) (d : Enc28) : Nat × Enc28 :=
  let d := setBank addr d
  ((d.chip.regs (d.chip.index addr)).toNat, d)

/-- `__enc28_rd_buf`. -/
def rdBuf (len : Nat) (d : Enc28) : List UInt8 × Enc28 :=
  let r := d.chip.readBuf len
  (r.1, { d with chip := r.2 })

/-- The pointers that `enc28_init` sets up, low byte first. -/
def initPointers (d : Enc28) : Enc28 :=
  let rxptr := 0x0000
  let txptr := 0x1a00
  let d := { d with rxptr := rxptr, txptr := txptr }
  let d := wr RXSTH (rxptr >>> 8) (wr RXSTL rxptr d)
  let d := wr RXRDPTH (rxptr >>> 8) (wr RXRDPTL rxptr d)
  let d := wr RXNDH ((txptr - 1) >>> 8) (wr RXNDL (txptr - 1) d)
  let d := wr TXSTH (txptr >>> 8) (wr TXSTL txptr d)
  wr TXNDH (0x1fff >>> 8) (wr TXNDL 0x1fff d)

/-- `enc28_recv`: what it returns, and the bytes it puts into `packet`. -/
def recv (maxlen : Nat) (d : Enc28) : Int × List UInt8 × Enc28 :=
  let count := rd PKTCNT d
  if count.1 = 0 then (-1, [], count.2)
  else
    -- Set the read pointer to the start of the received packet
    let d := wr RDPTL count.2.rxptr count.2
    let d := wr RDPTH (d.rxptr >>> 8) d
    -- Read in the preamble: next packet pointer and status vector
    let r := rdBuf 6 d
    let rxstat := fun i => (r.1.getD i 0).toNat
    let next := rxstat 0 ||| rxstat 1 <<< 16
    let len : Int := (rxstat 2 ||| rxstat 3 <<< 16 : Nat)
    let len := len - 4
    let len := if maxlen < len then (maxlen : Int) else len
    let d := { r.2 with rxptr := next % 65536 }
    -- Minimal error check: bit 23 says the CRC is ok with no symbol err
    if rxstat 4 &&& 0x80 = 0 then (-1, [], d)
    else
      let p := rdBuf len.toNat d
      -- Move the RX read pointer to the start of the next received packet
      let d := wr RXRDPTH (next >>> 8) (wr RXRDPTL next p.2)
      -- Decrement packet counter, to tell the enc28 we are done
      (len, p.1, wrOp .bitFieldSet CON2 0x40 d)

-- ---------------------------------------------------------------------------
-- Registers
-- ---------------------------------------------------------------------------

/-- The bank the driver believes in is the selected one. -/
def Banked (d : Enc28) : Prop := d.bank = 0x20 * (d.chip.regs CON1 &&& 3).toNat

variable {d : Enc28} {c : Enc28Chip} {addr : Nat}

theorem set_regs (c : Enc28Chip) (i : Nat) (v : BitVec 8) (j : Nat) :
    (c.set i v).regs j = if j = i then v else c.regs j := Function.update_apply c.regs i v j

theorem store_eq (c : Enc28Chip) {i : Nat} (v : BitVec 8) (hi : i ≠ CON2) :
    c.store i v = c.set i v := if_neg fun h => hi h.1

/-- The bank bits are replaced. -/
theorem bank_bits (b : Fin 4) :
    ∀ x : BitVec 8, ((x &&& ~~~3) ||| BitVec.ofNat 8 b) &&& 3 = BitVec.ofNat 8 b := by
  revert b
  decide

/-- The bank and the rest of an address. -/
theorem address_parts : ∀ a < 0x80, ((a &&& 0x60) >>> 5) < 4 ∧
    a &&& 0x60 = 0x20 * ((a &&& 0x60) >>> 5) ∧ 0x20 * ((a &&& 0x60) >>> 5) + (a &&& 0x1F) = a := by
  decide

theorem index_con1 (c : Enc28Chip) : c.index CON1 = CON1 := rfl

/-- What `__enc28_set_bank` leaves. -/
structure BankSet (d d' : Enc28) (addr : Nat) : Prop where
  bank : d'.bank = addr &&& 0x60
  banked : Banked d'
  rxptr : d'.rxptr = d.rxptr
  mem : d'.chip.mem = d.chip.mem
  regs : ∀ i, i ≠ CON1 → d'.chip.regs i = d.chip.regs i

theorem setBank_spec (h : Banked d) (haddr : addr < 0x80) : BankSet d (setBank addr d) addr := by
  unfold setBank
  by_cases hbank : d.bank = addr &&& 0x60
  · rw [if_pos hbank]
    exact ⟨hbank, h, rfl, rfl, fun i _ => rfl⟩
  rw [if_neg hbank]
  obtain ⟨hlt, hmul, -⟩ := address_parts addr haddr
  have hcon2 : CON1 ≠ CON2 := by decide
  generalize hb : (addr &&& 0x60) >>> 5 = b at hlt hmul
  have hchip : (wrOp .bitFieldSet CON1 b (wrOp .bitFieldClr CON1 3
      { d with bank := addr &&& 0x60 })).chip =
        (d.chip.set CON1 (d.chip.regs CON1 &&& ~~~3)).set CON1
          ((d.chip.regs CON1 &&& ~~~3) ||| BitVec.ofNat 8 b) := by
    unfold wrOp Enc28Chip.command
    dsimp only
    rw [index_con1, index_con1, store_eq _ _ hcon2, store_eq _ _ hcon2, set_regs, if_pos rfl]
    rfl
  have hregs : ∀ i, ((d.chip.set CON1 (d.chip.regs CON1 &&& ~~~3)).set CON1
      ((d.chip.regs CON1 &&& ~~~3) ||| BitVec.ofNat 8 b)).regs i =
        if i = CON1 then (d.chip.regs CON1 &&& ~~~3) ||| BitVec.ofNat 8 b else d.chip.regs i := by
    intro i
    rw [set_regs, set_regs]
    by_cases hi : i = CON1
    · rw [if_pos hi, if_pos hi]
    · rw [if_neg hi, if_neg hi, if_neg hi]
  dsimp only
  rw [hb]
  refine ⟨rfl, ?_, rfl, ?_, fun i hi => ?_⟩
  · unfold Banked
    rw [hchip, hregs, if_pos rfl, bank_bits ⟨b, hlt⟩]
    show addr &&& 0x60 = 0x20 * (BitVec.ofNat 8 b).toNat
    rw [hmul, BitVec.toNat_ofNat, Nat.mod_eq_of_lt (by omega)]
  · rw [hchip]
    rfl
  · rw [hchip, hregs, if_neg hi]

/-- With its bank selected an address leads to its register. -/
theorem index_eq {d' : Enc28} (h : BankSet d d' addr) (haddr : addr < 0x80)
    (hlow : addr &&& 0x1F < 0x1B) : d'.chip.index addr = addr := by
  obtain ⟨-, hmul, hsum⟩ := address_parts addr haddr
  have hbank : 0x20 * (d'.chip.regs CON1 &&& 3).toNat = addr &&& 0x60 := h.banked.symm.trans h.bank
  unfold Enc28Chip.index
  dsimp only
  rw [if_neg (Nat.not_le.mpr hlow), hbank, hmul, hsum]

/-- **A register read.** -/
theorem rd_spec (h : Banked d) (haddr : addr < 0x80) (hlow : addr &&& 0x1F < 0x1B)
    (hcon1 : addr ≠ CON1) :
    (rd addr d).1 = (d.chip.regs addr).toNat ∧ BankSet d (rd addr d).2 addr := by
  have hset := setBank_spec h haddr
  refine ⟨?_, hset⟩
  unfold rd
  dsimp only
  rw [index_eq hset haddr hlow, hset.regs addr hcon1]

/-- What writes of registers leave, the last one first. -/
structure Written (d d' : Enc28) (ws : List (Nat × Nat)) : Prop where
  banked : Banked d'
  rxptr : d'.rxptr = d.rxptr
  mem : d'.chip.mem = d.chip.mem
  regs : ∀ i, i ≠ CON1 → d'.chip.regs i =
    ((ws.lookup i).map (BitVec.ofNat 8)).getD (d.chip.regs i)

/-- **A register written.** -/
theorem wr_spec (h : Banked d) (datum : Nat) (haddr : addr < 0x80) (hlow : addr &&& 0x1F < 0x1B)
    (hcon : addr ≠ CON1 ∧ addr ≠ CON2) : Written d (wr addr datum d) [(addr, datum)] := by
  have hset := setBank_spec h haddr
  have hchip : (wr addr datum d).chip = (setBank addr d).chip.set addr (BitVec.ofNat 8 datum) := by
    unfold wr wrOp Enc28Chip.command
    dsimp only
    rw [index_eq hset haddr hlow, store_eq _ _ hcon.2]
  refine ⟨?_, hset.rxptr, ?_, fun i hi => ?_⟩
  · unfold Banked
    rw [hchip, set_regs, if_neg hcon.1.symm]
    exact hset.banked
  · rw [hchip]
    exact hset.mem
  · rw [hchip, set_regs, hset.regs i hi]
    by_cases haddr' : i = addr
    · rw [if_pos haddr', haddr', List.lookup_cons_self]
      rfl
    · rw [if_neg haddr', List.lookup_cons, beq_false_of_ne haddr']
      rfl

theorem Written.refl (h : Banked d) : Written d d [] := ⟨h, rfl, rfl, fun _ _ => rfl⟩

/-- One more register written. -/
theorem Written.wr {d' : Enc28} {ws : List (Nat × Nat)} (h : Written d d' ws) (addr datum : Nat)
    (haddr : addr < 0x80 ∧ addr &&& 0x1F < 0x1B ∧ addr ≠ CON1 ∧ addr ≠ CON2) :
    Written d (wr addr datum d') ((addr, datum) :: ws) := by
  have h' := wr_spec h.banked datum haddr.1 haddr.2.1 haddr.2.2
  refine ⟨h'.banked, h'.rxptr.trans h.rxptr, h'.mem.trans h.mem, fun i hi => ?_⟩
  rw [h'.regs i hi, h.regs i hi]
  by_cases haddr' : i = addr
  · rw [haddr', List.lookup_cons_self, List.lookup_cons_self]
    rfl
  · rw [List.lookup_cons, List.lookup_cons, beq_false_of_ne haddr']
    rfl

-- ---------------------------------------------------------------------------
-- The buffer memory
-- ---------------------------------------------------------------------------

/-- A pointer of two registers that do not hold the bank. -/
theorem pointer_congr {c c' : Enc28Chip} {low : Nat} (h : c'.regs low = c.regs low)
    (h' : c'.regs (low + 1) = c.regs (low + 1)) : c'.pointer low = c.pointer low := by
  unfold Enc28Chip.pointer
  rw [h, h']

theorem pointer_of_bytes {c : Enc28Chip} {low p : Nat} (hp : p < 65536)
    (h : c.regs low = BitVec.ofNat 8 p) (h' : c.regs (low + 1) = BitVec.ofNat 8 (p / 256)) :
    c.pointer low = p := by
  unfold Enc28Chip.pointer
  rw [h, h', BitVec.toNat_ofNat, BitVec.toNat_ofNat]
  omega

theorem advance_lt (c : Enc28Chip) (p : Nat) : c.advance p < 65536 := by
  unfold Enc28Chip.advance Enc28Chip.pointer
  have := (c.regs RXSTL).isLt
  have := (c.regs (RXSTL + 1)).isLt
  split <;> omega

/-- The bytes from `p` on, as a pointer goes through them. -/
def ring (mem : Nat → UInt8) (adv : Nat → Nat) (p n : Nat) : List UInt8 :=
  (List.range n).map fun i => mem (adv^[i] p)

/-- What a read of the buffer memory leaves. -/
structure BufRead (c c' : Enc28Chip) (p : Nat) : Prop where
  mem : c'.mem = c.mem
  pointer : c'.pointer RDPTL = p
  regs : ∀ i, i ≠ RDPTL → i ≠ RDPTH → c'.regs i = c.regs i

theorem BufRead.advance {c c' : Enc28Chip} {p : Nat} (h : BufRead c c' p) :
    c'.advance = c.advance := by
  have hnd : c'.pointer RXNDL = c.pointer RXNDL :=
    pointer_congr (h.regs _ (by decide) (by decide)) (h.regs _ (by decide) (by decide))
  have hst : c'.pointer RXSTL = c.pointer RXSTL :=
    pointer_congr (h.regs _ (by decide) (by decide)) (h.regs _ (by decide) (by decide))
  funext p
  unfold Enc28Chip.advance
  rw [hnd, hst]

theorem readBufByte_spec (hinc : (c.regs CON2).getLsbD 7 = true) :
    c.readBufByte.1 = c.mem (c.pointer RDPTL) ∧
      BufRead c c.readBufByte.2 (c.advance (c.pointer RDPTL)) := by
  refine ⟨rfl, ?_⟩
  unfold Enc28Chip.readBufByte
  dsimp only
  rw [if_pos hinc]
  refine ⟨rfl, pointer_of_bytes (advance_lt c _) ?_ ?_, fun i hi hi' => ?_⟩
  · rw [set_regs, if_neg (by decide), set_regs, if_pos rfl]
  · rw [set_regs]
    exact if_pos rfl
  · rw [set_regs, if_neg hi', set_regs, if_neg hi]

/-- **The buffer memory read** from the read pointer on. -/
theorem readBuf_spec (hinc : (c.regs CON2).getLsbD 7 = true) (n : Nat) :
    (c.readBuf n).1 = ring c.mem c.advance (c.pointer RDPTL) n ∧
      BufRead c (c.readBuf n).2 (c.advance^[n] (c.pointer RDPTL)) := by
  induction n generalizing c with
  | zero => exact ⟨rfl, rfl, rfl, fun i _ _ => rfl⟩
  | succ n ih =>
    obtain ⟨hbyte, hfirst⟩ := readBufByte_spec hinc
    have hinc' : (c.readBufByte.2.regs CON2).getLsbD 7 = true := by
      rw [hfirst.regs CON2 (by decide) (by decide)]
      exact hinc
    obtain ⟨hbytes, hrest⟩ := ih hinc'
    rw [hfirst.pointer, hfirst.advance] at hrest
    unfold Enc28Chip.readBuf
    dsimp only
    refine ⟨?_, hrest.mem.trans hfirst.mem, hrest.pointer, fun i hi hi' => ?_⟩
    · rw [hbytes, hbyte]
      unfold ring
      rw [hfirst.pointer, hfirst.advance, hfirst.mem, List.range_succ_eq_map, List.map_cons,
        List.map_map]
      rfl
    · rw [hrest.regs i hi hi', hfirst.regs i hi hi']

theorem ring_add (mem : Nat → UInt8) (adv : Nat → Nat) (p n k : Nat) :
    ring mem adv p (n + k) = ring mem adv p n ++ ring mem adv (adv^[n] p) k := by
  unfold ring
  rw [List.range_add, List.map_append, List.map_map]
  congr 1
  refine List.map_congr_left fun i _ => ?_
  show mem (adv^[n + i] p) = mem (adv^[i] (adv^[n] p))
  rw [Nat.add_comm, Function.iterate_add_apply]

/-- The receive buffer: from 0 to 0x19ff. -/
def rxAdvance (p : Nat) : Nat := if p = 0x19ff then 0 else (p + 1) % 0x2000

theorem rxAdvance_iterate {p i : Nat} (h : p + i < 0x1a00) : rxAdvance^[i] p = p + i := by
  induction i with
  | zero => rfl
  | succ i ih =>
    rw [Function.iterate_succ_apply', ih (by omega)]
    unfold rxAdvance
    rw [if_neg (by omega), Nat.mod_eq_of_lt (by omega), Nat.add_assoc]

/-- Before the end of the receive buffer. -/
theorem ring_block (mem : Nat → UInt8) {p n : Nat} (h : p + n ≤ 0x1a00) :
    ring mem rxAdvance p n = block mem p n := by
  unfold ring block
  refine List.map_congr_left fun i hi => ?_
  rw [rxAdvance_iterate (by have := List.mem_range.mp hi; omega)]

-- ---------------------------------------------------------------------------
-- Frames
-- ---------------------------------------------------------------------------

/-- A frame as the controller stores it: the pointer to the next one, the status that
follows the byte count, and the data with the CRC. -/
structure Frame where
  next : Nat
  status : UInt8 × UInt8
  data : List UInt8
  next_lt : next < 0x1a00
  crc : 4 ≤ data.length
  length_lt : data.length < 65536

/-- The received-OK bit. -/
def Frame.ok (f : Frame) : Prop := f.status.1.toNat &&& 0x80 ≠ 0

instance (f : Frame) : Decidable f.ok := inferInstanceAs (Decidable (_ ≠ _))

/-- The bytes in front of the data. -/
def Frame.preamble (f : Frame) : List UInt8 :=
  [UInt8.ofNat (f.next % 256), UInt8.ofNat (f.next / 256), UInt8.ofNat (f.data.length % 256),
    UInt8.ofNat (f.data.length / 256), f.status.1, f.status.2]

/-- The frame is in the receive buffer, from `p` on. -/
def Stored (mem : Nat → UInt8) (p : Nat) (f : Frame) : Prop :=
  ring mem rxAdvance p (6 + f.data.length) = f.preamble ++ f.data

/-- What the driver relies on between two calls. -/
structure Ready (d : Enc28) : Prop where
  banked : Banked d
  autoinc : (d.chip.regs CON2).getLsbD 7 = true
  rxst : d.chip.pointer RXSTL = 0
  rxnd : d.chip.pointer RXNDL = 0x19ff

theorem Ready.advance (h : Ready d) : d.chip.advance = rxAdvance := by
  funext p
  unfold Enc28Chip.advance rxAdvance
  rw [h.rxst, h.rxnd]

/-- The registers that stay as they are. -/
theorem Ready.congr {d' : Enc28} (h : Ready d) (hbanked : Banked d')
    (hregs : ∀ i ∈ [CON2, RXSTL, RXSTH, RXNDL, RXNDH], d'.chip.regs i = d.chip.regs i) :
    Ready d' := by
  refine ⟨hbanked, ?_, ?_, ?_⟩
  · rw [hregs CON2 (by simp)]
    exact h.autoinc
  · exact (pointer_congr (hregs RXSTL (by simp)) (hregs RXSTH (by simp))).trans h.rxst
  · exact (pointer_congr (hregs RXNDL (by simp)) (hregs RXNDH (by simp))).trans h.rxnd

/-- The pointers set up by `enc28_init`. -/
theorem initPointers_ready (hbanked : Banked d) (hinc : (d.chip.regs CON2).getLsbD 7 = true) :
    Ready (initPointers d) ∧ (initPointers d).rxptr = 0 ∧
      (initPointers d).chip.regs PKTCNT = d.chip.regs PKTCNT := by
  have hstart : Banked { d with rxptr := 0x0000, txptr := 0x1a00 } := hbanked
  have hw : Written _ (initPointers d) _ := ((((((((((Written.refl hstart)
    |>.wr RXSTL 0 (by decide)) |>.wr RXSTH 0 (by decide)) |>.wr RXRDPTL 0 (by decide))
    |>.wr RXRDPTH 0 (by decide)) |>.wr RXNDL 0x19ff (by decide)) |>.wr RXNDH 0x19 (by decide))
    |>.wr TXSTL 0x1a00 (by decide)) |>.wr TXSTH 0x1a (by decide)) |>.wr TXNDL 0x1fff (by decide))
    |>.wr TXNDH 0x1f (by decide)
  refine ⟨⟨hw.banked, ?_, ?_, ?_⟩, hw.rxptr, hw.regs PKTCNT (by decide)⟩
  · rw [hw.regs CON2 (by decide)]
    exact hinc
  · exact pointer_of_bytes (by decide) (hw.regs RXSTL (by decide)) (hw.regs RXSTH (by decide))
  · exact pointer_of_bytes (by decide) (hw.regs RXNDL (by decide)) (hw.regs RXNDH (by decide))

-- ---------------------------------------------------------------------------
-- A reception
-- ---------------------------------------------------------------------------

theorem or_shift {a b : Nat} (h : a < 65536) : a ||| b <<< 16 = a + 65536 * b := by
  rw [Nat.or_comm, ← Nat.shiftLeft_add_eq_or_of_lt h, Nat.shiftLeft_eq]
  omega

/-- The length that the driver computes, without the CRC. -/
def Frame.size (f : Frame) : Nat := f.data.length % 256 + 65536 * (f.data.length / 256) - 4

/-- The driver has gone on from `d` to `d'`, and but for the bank only the registers `es`
may have changed. -/
structure Kept (es : List Nat) (d d' : Enc28) : Prop where
  banked : Banked d'
  mem : d'.chip.mem = d.chip.mem
  regs : ∀ i ∉ CON1 :: es, d'.chip.regs i = d.chip.regs i

theorem Kept.trans {es es' : List Nat} {d' d'' : Enc28} (h : Kept es d d') (h' : Kept es' d' d'') :
    Kept (es ++ es') d d'' := by
  refine ⟨h'.banked, h'.mem.trans h.mem, fun i hi => ?_⟩
  rw [List.mem_cons, List.mem_append, not_or, not_or] at hi
  obtain ⟨hcon1, hes, hes'⟩ := hi
  rw [h'.regs i (by simp [hcon1, hes']), h.regs i (by simp [hcon1, hes])]

theorem Kept.ready {es : List Nat} {d' : Enc28} (h : Kept es d d') (hd : Ready d)
    (hes : ∀ i ∈ [CON2, RXSTL, RXSTH, RXNDL, RXNDH], i ∉ CON1 :: es) : Ready d' :=
  hd.congr h.banked fun i hi => h.regs i (hes i hi)

theorem rdBuf_spec (h : Ready d) (n : Nat) :
    (rdBuf n d).1 = ring d.chip.mem rxAdvance (d.chip.pointer RDPTL) n ∧
      (rdBuf n d).2.chip.pointer RDPTL = rxAdvance^[n] (d.chip.pointer RDPTL) ∧
      Kept [RDPTL, RDPTH] d (rdBuf n d).2 := by
  obtain ⟨hbytes, hread⟩ := readBuf_spec h.autoinc n
  rw [h.advance] at hbytes hread
  refine ⟨hbytes, hread.pointer, ?_, hread.mem, fun i hi => ?_⟩
  · show d.bank = 0x20 * ((d.chip.readBuf n).2.regs CON1 &&& 3).toNat
    rw [hread.regs CON1 (by decide) (by decide)]
    exact h.banked
  · rw [List.mem_cons, List.mem_cons, List.mem_singleton, not_or, not_or] at hi
    exact hread.regs i hi.2.1 hi.2.2

/-- The state in which the preamble is read. -/
def seek (d : Enc28) : Enc28 :=
  let d := wr RDPTL (rd PKTCNT d).2.rxptr (rd PKTCNT d).2
  wr RDPTH (d.rxptr >>> 8) d

/-- The read pointer is set. -/
theorem seek_spec (h : Ready d) (hp : d.rxptr < 65536) :
    (seek d).chip.pointer RDPTL = d.rxptr ∧ Kept [RDPTL, RDPTH] d (seek d) := by
  obtain ⟨-, hset⟩ := @rd_spec _ PKTCNT h.banked (by decide) (by decide) (by decide)
  have hl := (Written.refl hset.banked).wr RDPTL (rd PKTCNT d).2.rxptr (by decide)
  have hh := hl.wr RDPTH ((wr RDPTL (rd PKTCNT d).2.rxptr (rd PKTCNT d).2).rxptr >>> 8) (by decide)
  refine ⟨?_, hh.banked, hh.mem.trans hset.mem, fun i hi => ?_⟩
  · refine pointer_of_bytes hp ?_ ?_
    · rw [← hset.rxptr]
      exact hh.regs RDPTL (by decide)
    · rw [← hset.rxptr, ← hl.rxptr]
      refine (hh.regs RDPTH (by decide)).trans ?_
      rw [← Nat.shiftRight_eq_div_pow _ 8]
      rfl
  · rw [List.mem_cons, List.mem_cons, List.mem_singleton, not_or, not_or] at hi
    refine (hh.regs i hi.1).trans ?_
    rw [List.lookup_cons, beq_false_of_ne hi.2.2, List.lookup_cons, beq_false_of_ne hi.2.1]
    exact hset.regs i hi.1

/-- The controller is told that the frame is done with. -/
def release (next : Nat) (d : Enc28) : Enc28 :=
  wrOp .bitFieldSet CON2 0x40 (wr RXRDPTH (next >>> 8) (wr RXRDPTL next d))

theorem decrement_bits : ∀ x : BitVec 8, (x ||| 0x40).getLsbD 6 = true ∧
    ((x ||| 0x40) &&& ~~~0x40).getLsbD 7 = x.getLsbD 7 := by
  decide

theorem release_spec (h : Ready d) (next : Nat) :
    Ready (release next d) ∧ (release next d).rxptr = d.rxptr ∧
      (release next d).chip.pointer RXRDPTL = next % 256 + 256 * (next / 256 % 256) ∧
      (release next d).chip.regs PKTCNT = d.chip.regs PKTCNT - 1 := by
  have hw := ((Written.refl h.banked).wr RXRDPTL next (by decide)).wr RXRDPTH (next >>> 8)
    (by decide)
  generalize hd' : wr RXRDPTH (next >>> 8) (wr RXRDPTL next d) = d' at hw
  obtain ⟨hset, hinc⟩ := decrement_bits (d'.chip.regs CON2)
  have hchip : (release next d).chip = (d'.chip.set CON2
      ((d'.chip.regs CON2 ||| 0x40) &&& ~~~0x40)).set PKTCNT (d'.chip.regs PKTCNT - 1) := by
    unfold release
    rw [hd']
    exact if_pos ⟨rfl, hset⟩
  have hregs : ∀ i, i ∉ [CON2, PKTCNT] → (release next d).chip.regs i = d'.chip.regs i := by
    intro i hi
    rw [List.mem_cons, List.mem_singleton, not_or] at hi
    rw [hchip, set_regs, if_neg hi.2, set_regs, if_neg hi.1]
  have hrest : (release next d).bank = d'.bank ∧ (release next d).rxptr = d'.rxptr := by
    rw [← hd']
    exact ⟨rfl, rfl⟩
  have hpair : ∀ low, low ∉ [CON2, PKTCNT] → low + 1 ∉ [CON2, PKTCNT] →
      (release next d).chip.pointer low = d'.chip.pointer low := fun low hlow hhigh =>
    pointer_congr (hregs low hlow) (hregs (low + 1) hhigh)
  have hwritten : ∀ low, low ∉ [CON1, RXRDPTL, RXRDPTH] → d'.chip.regs low = d.chip.regs low := by
    intro i hi
    rw [List.mem_cons, List.mem_cons, List.mem_singleton, not_or, not_or] at hi
    rw [hw.regs i hi.1, List.lookup_cons, beq_false_of_ne hi.2.2, List.lookup_cons,
      beq_false_of_ne hi.2.1]
    rfl
  refine ⟨⟨?_, ?_, ?_, ?_⟩, hrest.2.trans hw.rxptr, ?_, ?_⟩
  · unfold Banked
    rw [hrest.1, hregs CON1 (by decide)]
    exact hw.banked
  · rw [hchip, set_regs, if_neg (by decide), set_regs, if_pos rfl, hinc,
      hwritten CON2 (by decide)]
    exact h.autoinc
  · rw [hpair RXSTL (by decide) (by decide)]
    exact (pointer_congr (hwritten _ (by decide)) (hwritten _ (by decide))).trans h.rxst
  · rw [hpair RXNDL (by decide) (by decide)]
    exact (pointer_congr (hwritten _ (by decide)) (hwritten _ (by decide))).trans h.rxnd
  · rw [hpair RXRDPTL (by decide) (by decide)]
    have hl : d'.chip.regs RXRDPTL = BitVec.ofNat 8 next := hw.regs RXRDPTL (by decide)
    have hh : d'.chip.regs (RXRDPTL + 1) = BitVec.ofNat 8 (next >>> 8) := hw.regs RXRDPTH (by decide)
    unfold Enc28Chip.pointer
    rw [hl, hh, BitVec.toNat_ofNat, BitVec.toNat_ofNat, Nat.shiftRight_eq_div_pow]
  · rw [hchip, set_regs, if_pos rfl, hwritten PKTCNT (by decide)]

/-- The reception, step by step. -/
theorem recv_eq (hcount : d.chip.regs PKTCNT ≠ 0) (h : Ready d) (maxlen : Nat) :
    recv maxlen d =
      let r := rdBuf 6 (seek d)
      let rxstat := fun i => (r.1.getD i 0).toNat
      let next := rxstat 0 ||| rxstat 1 <<< 16
      let len : Int := (rxstat 2 ||| rxstat 3 <<< 16 : Nat)
      let len := if maxlen < len - 4 then (maxlen : Int) else len - 4
      let d := { r.2 with rxptr := next % 65536 }
      if rxstat 4 &&& 0x80 = 0 then (-1, [], d)
      else (len, (rdBuf len.toNat d).1, release next (rdBuf len.toNat d).2) := by
  have hread := (@rd_spec _ PKTCNT h.banked (by decide) (by decide) (by decide)).1
  have hne : (rd PKTCNT d).1 ≠ 0 := by
    rw [hread]
    exact fun hzero => hcount (BitVec.eq_of_toNat_eq hzero)
  unfold recv
  dsimp only
  rw [if_neg hne]
  rfl

/-- The bytes of the preamble, as the driver reads them. -/
theorem preamble_bytes (f : Frame) :
    (f.preamble.getD 0 0).toNat = f.next % 256 ∧ (f.preamble.getD 1 0).toNat = f.next / 256 ∧
      (f.preamble.getD 2 0).toNat = f.data.length % 256 ∧
      (f.preamble.getD 3 0).toNat = f.data.length / 256 ∧ f.preamble.getD 4 0 = f.status.1 := by
  have hnext := f.next_lt
  have hlength := f.length_lt
  have hbyte : ∀ n, n < 256 → (UInt8.ofNat n).toNat = n := fun n hn => UInt8.toNat_ofNat_of_lt' hn
  refine ⟨hbyte _ ?_, hbyte _ ?_, hbyte _ ?_, hbyte _ ?_, rfl⟩
  all_goals omega

/-- The reception of a frame whose preamble has been read. -/
theorem recv_frame {f : Frame} (hcount : d.chip.regs PKTCNT ≠ 0) (h : Ready d) (maxlen : Nat)
    (hf : (rdBuf 6 (seek d)).1 = f.preamble) :
    recv maxlen d =
      let next := f.next % 256 + 65536 * (f.next / 256)
      let n := min f.size maxlen
      let d := { (rdBuf 6 (seek d)).2 with rxptr := f.next % 256 }
      if f.ok then ((n : Int), (rdBuf n d).1, release next (rdBuf n d).2) else (-1, [], d) := by
  obtain ⟨h0, h1, h2, h3, h4⟩ := preamble_bytes f
  have hnext : (f.next % 256 + 65536 * (f.next / 256)) % 65536 = f.next % 256 := by omega
  have hsize : ((f.data.length % 256 + 65536 * (f.data.length / 256) : Nat) : Int) - 4 = f.size := by
    have := f.crc
    unfold Frame.size
    omega
  have hmin : (if (maxlen : Int) < f.size then (maxlen : Int) else f.size) =
      (min f.size maxlen : Nat) := by
    split <;> omega
  have hshift : ∀ b c, b % 256 ||| c <<< 16 = b % 256 + 65536 * c := fun b c => or_shift (by omega)
  rw [recv_eq hcount h]
  simp only [hf, h0, h1, h2, h3, h4, hshift, hnext, hsize, hmin, Int.toNat_natCast]
  by_cases hok : f.ok
  · rw [if_pos hok, if_neg hok]
  · rw [if_neg hok, if_pos (not_not.mp hok)]

/-- **A reception** from the start of a frame. -/
theorem recv_spec {f : Frame} (h : Ready d) (hcount : d.chip.regs PKTCNT ≠ 0) (hp : d.rxptr < 65536)
    (hf : Stored d.chip.mem d.rxptr f) (maxlen : Nat) :
    Ready (recv maxlen d).2.2 ∧ (recv maxlen d).2.2.rxptr = f.next % 256 ∧
      if f.ok then
        (recv maxlen d).1 = (min f.size maxlen : Nat) ∧
        (recv maxlen d).2.1 =
          ring d.chip.mem rxAdvance (rxAdvance^[6] d.rxptr) (min f.size maxlen) ∧
        (recv maxlen d).2.2.chip.pointer RXRDPTL = f.next % 256 ∧
        (recv maxlen d).2.2.chip.regs PKTCNT = d.chip.regs PKTCNT - 1
      else
        (recv maxlen d).1 = -1 ∧
        (recv maxlen d).2.2.chip.regs PKTCNT = d.chip.regs PKTCNT := by
  obtain ⟨hpointer, hseek⟩ := seek_spec h hp
  have hready := hseek.ready h (by decide)
  obtain ⟨hbytes, hpointer', hread⟩ := rdBuf_spec hready 6
  rw [hpointer] at hbytes hpointer'
  have hpreamble : (rdBuf 6 (seek d)).1 = f.preamble := by
    unfold Stored at hf
    rw [ring_add] at hf
    rw [hbytes, hseek.mem]
    exact (List.append_inj hf (by simp [ring, Frame.preamble])).1
  have hkept := hseek.trans hread
  have hready' : Ready { (rdBuf 6 (seek d)).2 with rxptr := f.next % 256 } :=
    ⟨hread.banked, (hkept.ready h (by decide)).autoinc, (hkept.ready h (by decide)).rxst,
      (hkept.ready h (by decide)).rxnd⟩
  rw [recv_frame hcount h maxlen hpreamble]
  dsimp only
  by_cases hok : f.ok
  · rw [if_pos hok, if_pos hok]
    dsimp only
    obtain ⟨hdata, -, hrest⟩ := rdBuf_spec hready' (min f.size maxlen)
    obtain ⟨hend, hrx, hrdpt, hpkt⟩ := release_spec (hrest.ready hready' (by decide))
      (f.next % 256 + 65536 * (f.next / 256))
    refine ⟨hend, hrx, rfl, ?_, ?_, ?_⟩
    · rw [hdata]
      show ring (rdBuf 6 (seek d)).2.chip.mem rxAdvance
        ((rdBuf 6 (seek d)).2.chip.pointer RDPTL) _ = _
      rw [hpointer', hkept.mem]
    · rw [hrdpt]
      omega
    · rw [hpkt, hrest.regs PKTCNT (by decide)]
      show (rdBuf 6 (seek d)).2.chip.regs PKTCNT - 1 = _
      rw [hkept.regs PKTCNT (by decide)]
  · rw [if_neg hok, if_neg hok]
    exact ⟨hready', rfl, rfl, hkept.regs PKTCNT (by decide)⟩

-- ---------------------------------------------------------------------------
-- One frame after another
-- ---------------------------------------------------------------------------

/-- A call of `enc28_recv`: what the controller has in its buffer memory by then, the
frames that have arrived since the last call, the frame whose turn it is, and `maxlen`. -/
structure Reception where
  mem : Nat → UInt8
  arrived : BitVec 8
  frame : Frame
  maxlen : Nat

/-- The controller up to the call. -/
def arrive (c : Reception) (d : Enc28) : Enc28 :=
  { d with chip := (⟨d.chip.regs, c.mem⟩ : Enc28Chip).set PKTCNT (d.chip.regs PKTCNT + c.arrived) }

/-- The driver after the call. -/
def step (d : Enc28) (c : Reception) : Enc28 := (recv c.maxlen (arrive c d)).2.2

/-- The frames are in the buffer memory, each where the one before says, and each time the
packet counter is not 0. -/
def Delivered : Nat → BitVec 8 → List Reception → Prop
  | _, _, [] => True
  | p, n, c :: cs =>
    Stored c.mem p c.frame ∧ n + c.arrived ≠ 0 ∧ Delivered c.frame.next (n + c.arrived - 1) cs

/-- The call takes the frame: it returns the data or an error, goes on to the next frame,
and takes one packet from the counter. -/
structure Consumes (d : Enc28) (c : Reception) : Prop where
  result : if c.frame.ok then
      (recv c.maxlen (arrive c d)).1 = (min (c.frame.data.length - 4) c.maxlen : Nat) ∧
      (recv c.maxlen (arrive c d)).2.1 = c.frame.data.take (min (c.frame.data.length - 4) c.maxlen)
    else (recv c.maxlen (arrive c d)).1 < 0
  rxptr : (step d c).rxptr = c.frame.next
  rxrdpt : (step d c).chip.pointer RXRDPTL = c.frame.next
  count : (step d c).chip.regs PKTCNT = (arrive c d).chip.regs PKTCNT - 1

/-- The condition: no error, and neither pointer nor length needs its high byte. -/
def Clean (c : Reception) : Prop :=
  c.frame.ok ∧ c.frame.next < 256 ∧
    (c.frame.data.length < 256 ∨ c.maxlen ≤ c.frame.data.length - 4)

theorem arrive_ready (h : Ready d) (c : Reception) : Ready (arrive c d) := by
  have hregs : ∀ i ≠ PKTCNT, (arrive c d).chip.regs i = d.chip.regs i := fun i hi => by
    unfold arrive
    rw [set_regs, if_neg hi]
  refine h.congr ?_ fun i hi => hregs i fun heq => ?_
  · unfold Banked
    rw [hregs CON1 (by decide)]
    exact h.banked
  · rw [heq] at hi
    exact absurd hi (by decide)

theorem arrive_count (c : Reception) (d : Enc28) :
    (arrive c d).chip.regs PKTCNT = d.chip.regs PKTCNT + c.arrived := by
  unfold arrive
  rw [set_regs, if_pos rfl]

theorem Stored.data {mem : Nat → UInt8} {p n : Nat} {f : Frame} (h : Stored mem p f)
    (hn : n ≤ f.data.length) : ring mem rxAdvance (rxAdvance^[6] p) n = f.data.take n := by
  unfold Stored at h
  rw [ring_add] at h
  rw [← (List.append_inj h (by simp [ring, Frame.preamble])).2]
  unfold ring
  rw [← List.map_take, List.take_range, Nat.min_eq_left hn]

/-- One call. -/
theorem consumes_iff {c : Reception} (h : Ready d) (hp : d.rxptr < 65536)
    (hf : Stored c.mem d.rxptr c.frame) (hcount : d.chip.regs PKTCNT + c.arrived ≠ 0) :
    Consumes d c ↔ Clean c := by
  obtain ⟨-, hrxptr, hcase⟩ := recv_spec (arrive_ready h c) (by rwa [arrive_count]) hp hf c.maxlen
  have hcrc := c.frame.crc
  constructor
  · intro hc
    have hok : c.frame.ok := by
      by_contra hbad
      rw [if_neg hbad] at hcase
      have hsame := hcase.2.symm.trans hc.count
      generalize (arrive c d).chip.regs PKTCNT = x at hsame
      revert x
      decide
    have hnext : c.frame.next % 256 = c.frame.next := hrxptr.symm.trans hc.rxptr
    rw [if_pos hok] at hcase
    have hresult := hc.result
    rw [if_pos hok] at hresult
    have hmin : min c.frame.size c.maxlen = min (c.frame.data.length - 4) c.maxlen :=
      Int.ofNat.inj (hcase.1.symm.trans hresult.1)
    refine ⟨hok, by omega, ?_⟩
    unfold Frame.size at hmin
    omega
  · rintro ⟨hok, hnext, hlength⟩
    rw [if_pos hok] at hcase
    obtain ⟨hret, hdata, hrdpt, hpkt⟩ := hcase
    have hmod : c.frame.next % 256 = c.frame.next := Nat.mod_eq_of_lt hnext
    have hmin : min c.frame.size c.maxlen = min (c.frame.data.length - 4) c.maxlen := by
      unfold Frame.size
      omega
    rw [hmin] at hret hdata
    refine ⟨?_, hrxptr.trans hmod, hrdpt.trans hmod, hpkt⟩
    rw [if_pos hok]
    exact ⟨hret, hdata.trans (Stored.data hf (by omega))⟩

theorem step_ready {c : Reception} (h : Ready d) (hp : d.rxptr < 65536)
    (hf : Stored c.mem d.rxptr c.frame) (hcount : d.chip.regs PKTCNT + c.arrived ≠ 0) :
    Ready (step d c) :=
  (recv_spec (arrive_ready h c) (by rwa [arrive_count]) hp hf c.maxlen).1

theorem recv_consumes_iff {cs : List Reception} (h : Ready d) (hp : d.rxptr < 65536)
    (hcs : Delivered d.rxptr (d.chip.regs PKTCNT) cs) :
    EachStep step Consumes d cs ↔ ∀ c ∈ cs, Clean c := by
  induction cs generalizing d with
  | nil => exact iff_of_true trivial fun c hc => absurd hc List.not_mem_nil
  | cons c cs ih =>
    obtain ⟨hf, hcount, hrest⟩ := hcs
    have hone := consumes_iff h hp hf hcount
    rw [List.forall_mem_cons, ← hone]
    refine and_congr_right fun hc => ?_
    refine ih (step_ready h hp hf hcount) ?_ ?_
    · rw [hc.rxptr]
      exact c.frame.next_lt.trans (by decide)
    · rw [hc.rxptr, hc.count, arrive_count]
      exact hrest

/-- **Reception.** The calls take one frame after another if and only if every frame meets
the condition. -/
theorem recv_frames_iff {d : Enc28} (hbanked : Banked d)
    (hinc : (d.chip.regs CON2).getLsbD 7 = true) {cs : List Reception}
    (hcs : Delivered 0 (d.chip.regs PKTCNT) cs) :
    EachStep step Consumes (initPointers d) cs ↔ ∀ c ∈ cs, Clean c := by
  obtain ⟨hready, hrxptr, hcount⟩ := initPointers_ready hbanked hinc
  refine recv_consumes_iff hready (by rw [hrxptr]; decide) ?_
  rw [hrxptr, hcount]
  exact hcs

/-- The controller after its reset. -/
def atReset : Enc28 := ⟨0, 0, 0, ⟨fun i => if i = CON2 then 0x80 else 0, fun _ => 0⟩⟩

/-- A frame at the start of an empty receive buffer. -/
def firstFrame (f : Frame) (maxlen : Nat) : Reception :=
  ⟨blit (fun _ => 0) 0 (f.preamble ++ f.data), 1, f, maxlen⟩

theorem firstFrame_delivered (f : Frame) (maxlen : Nat) (h : f.data.length < 2048) :
    Delivered 0 (atReset.chip.regs PKTCNT) [firstFrame f maxlen] := by
  have hcount : (0 : BitVec 8) + 1 ≠ 0 := by decide
  refine ⟨?_, hcount, trivial⟩
  unfold Stored
  rw [ring_block _ (by show 0 + (6 + f.data.length) ≤ _; omega)]
  have hlength : 6 + f.data.length = (f.preamble ++ f.data).length := by
    rw [List.length_append]
    rfl
  show block (blit (fun _ => 0) 0 (f.preamble ++ f.data)) 0 (6 + f.data.length) = _
  rw [hlength, block_blit_self]
  rfl

/-- A good frame of `n` bytes. -/
def goodFrame (next n : Nat) (hnext : next < 0x1a00) (hn : 4 ≤ n ∧ n < 65536) : Frame :=
  ⟨next, (0x80, 0), List.replicate n 7, hnext, by rw [List.length_replicate]; exact hn.1,
    by rw [List.length_replicate]; exact hn.2⟩

/-- A frame of 64 bytes is taken. -/
theorem recv_short_frame :
    EachStep step Consumes (initPointers atReset)
      [firstFrame (goodFrame 70 64 (by decide) (by decide)) 50] := by
  have hbanked : Banked atReset := rfl
  refine (recv_frames_iff hbanked rfl (firstFrame_delivered _ 50 (by decide))).mpr fun c hc => ?_
  rw [List.mem_singleton.mp hc]
  exact ⟨by decide, by decide, Or.inl (by decide)⟩

/-- Behind a frame of 250 bytes at the start of the buffer the driver goes on at 0. -/
theorem recv_long_frame :
    Delivered 0 (atReset.chip.regs PKTCNT)
        [firstFrame (goodFrame 256 250 (by decide) (by decide)) 50] ∧
      ¬ EachStep step Consumes (initPointers atReset)
        [firstFrame (goodFrame 256 250 (by decide) (by decide)) 50] := by
  have hcs : Delivered 0 (atReset.chip.regs PKTCNT)
      [firstFrame (goodFrame 256 250 (by decide) (by decide)) 50] := by
    refine firstFrame_delivered _ 50 ?_
    unfold goodFrame
    rw [List.length_replicate]
    decide
  refine ⟨hcs, fun hrun => ?_⟩
  have hbanked : Banked atReset := rfl
  obtain ⟨hready, hrxptr, hcount⟩ := initPointers_ready hbanked rfl
  obtain ⟨hf, hne, -⟩ := hcs
  rw [← hrxptr] at hf
  rw [← hcount] at hne
  have hclean := (consumes_iff hready (by rw [hrxptr]; decide) hf hne).mp hrun.1
  have hnext : (256 : Nat) < 256 := hclean.2.1
  exact absurd hnext (Nat.lt_irrefl 256)

end Enc28

end Bathos.Drivers
