import Bathos.Drivers.W1
import Bathos.Lib.Memory

/-!
# Bathos — one-wire devices with a scratchpad

The commands of an EEPROM that is written through a scratchpad: the scratchpad is
written, read back, and copied to the memory. `Scratchpad` says what a device answers to
them, byte by byte; `Ds28ec20` is such a device, bit by bit.

Main results:

* `Ds28ec20.writeByte_eq`, `Ds28ec20.readByte_eq` — what the device makes of the bits;
* `Ds28ec20.scratchpad` — the device follows the protocol.
-/

namespace Bathos.Drivers

open Bathos.Lib

namespace W1

-- ---------------------------------------------------------------------------
-- The protocol
-- ---------------------------------------------------------------------------

/-- `W1_CMDR_W_SPAD`. -/
def W1_CMDR_W_SPAD : Nat := 0x0f

/-- `W1_CMDR_R_SPAD`. -/
def W1_CMDR_R_SPAD : Nat := 0xaa

/-- `W1_CMDR_C_SPAD`. -/
def W1_CMDR_C_SPAD : Nat := 0x55

/-- `W1_CMDR_R_MEMORY`. -/
def W1_CMDR_R_MEMORY : Nat := 0xf0

variable {σ : Type} (ops : W1Ops σ)

/-- Bytes written one after another. -/
def sendBytes (bs : List Nat) (s : σ) : σ := bs.foldl (fun s b => writeByte ops b s) s

/-- Bytes read one after another. -/
def readBytes : Nat → σ → List Nat × σ
  | 0, s => ([], s)
  | n + 1, s =>
    let r := readByte ops s
    let rs := readBytes n r.2
    (r.1 :: rs.1, rs.2)

theorem sendBytes_nil (s : σ) : sendBytes ops [] s = s := rfl

theorem sendBytes_cons (b : Nat) (bs : List Nat) (s : σ) :
    sendBytes ops (b :: bs) s = sendBytes ops bs (writeByte ops b s) := rfl

/-- The bytes an uninterrupted transfer of `bs` puts on the bus. -/
def wire (bs : List UInt8) : List Nat := bs.map UInt8.toNat

/-- A device behind `ops` that has the code `rom` and follows the protocol: `mem` is its
memory, `spad` the target address and the bytes in its scratchpad, `es` its E/S register. -/
structure Scratchpad (rom : BitVec 64) where
  mem : σ → Nat → UInt8
  spad : σ → Nat × List UInt8
  es : σ → Nat
  write : ∀ s t bs, bs ≠ [] → t < 65536 → t % 32 + bs.length ≤ 32 →
    let s' := sendBytes ops (W1_CMDR_W_SPAD :: t % 256 :: t / 256 :: wire bs) (matchRom ops rom s)
    mem s' = mem s ∧ spad s' = (t, bs)
  read : ∀ s t bs, spad s = (t, bs) → t < 65536 →
    let r := readBytes ops (3 + bs.length) (sendBytes ops [W1_CMDR_R_SPAD] (matchRom ops rom s))
    r.1 = t % 256 :: t / 256 :: es s :: wire bs ∧ mem r.2 = mem s ∧ spad r.2 = (t, bs) ∧
      es r.2 = es s
  copy : ∀ s t bs, spad s = (t, bs) → t < 65536 →
    mem (sendBytes ops [W1_CMDR_C_SPAD, t % 256, t / 256, es s] (matchRom ops rom s)) =
      blit (mem s) t bs
  readMemory : ∀ s t n, t + n ≤ 65536 → 0 < n →
    (readBytes ops n (sendBytes ops [W1_CMDR_R_MEMORY, t % 256, t / 256] (matchRom ops rom s))).1 =
      wire (block (mem s) t n)

end W1

-- ---------------------------------------------------------------------------
-- A device
-- ---------------------------------------------------------------------------

/-- A DS28EC20 with 64 Kbytes: its memory, scratchpad, target address and E/S register;
the bytes received since the reset, the bits of the next one, and the bits sent since the
last byte received. -/
structure Ds28ec20 where
  mem : Nat → UInt8
  spad : Nat → UInt8
  target : Nat
  es : UInt8
  bytes : List Nat
  bits : List Bool
  sent : Nat

namespace Ds28ec20

open W1

/-- An erased device. -/
def blank : Ds28ec20 := ⟨fun _ => 0xff, fun _ => 0xff, 0, 0, [], [], 0⟩

/-- The bytes of a ROM code, as `w1_match_rom` sends them. -/
def romBytes (rom : BitVec 64) : List Nat :=
  (List.range 8).map fun i => (rom >>> (8 * i)).toNat % 256

/-- The bytes by which the master selects the device. -/
def selection (rom : BitVec 64) : List Nat := 0x55 :: romBytes rom

/-- The bytes in the scratchpad, from the target address to the ending offset. -/
def written (d : Ds28ec20) : List UInt8 :=
  block d.spad (d.target % 32) (d.es.toNat + 1 - d.target % 32)

/-- A byte of the write scratchpad command, after the bytes `args` of it: the second byte
of the address, or data. -/
def writeSpad (args : List Nat) (b : Nat) (d : Ds28ec20) : Ds28ec20 :=
  match args with
  | [] => d
  | [t1] => { d with target := t1 + 256 * b, es := UInt8.ofNat (t1 % 32) }
  | _ :: _ :: data =>
    let e := d.target % 32 + data.length
    if e < 32 then
      { d with spad := Function.update d.spad e (UInt8.ofNat b), es := UInt8.ofNat e }
    else d

/-- A byte of the copy scratchpad command: the last one, if all three match, starts it. -/
def copySpad (args : List Nat) (b : Nat) (d : Ds28ec20) : Ds28ec20 :=
  match args with
  | [t1, t2] =>
    if t1 + 256 * t2 = d.target ∧ b = d.es.toNat then
      { d with mem := blit d.mem d.target d.written }
    else d
  | _ => d

/-- A byte has been received. -/
def receive (rom : BitVec 64) (b : Nat) (d : Ds28ec20) : Ds28ec20 :=
  let d' := { d with bytes := d.bytes ++ [b], bits := [], sent := 0 }
  if d.bytes.take 9 ≠ selection rom then d'
  else match d.bytes.drop 9 with
    | [] => d'
    | cmd :: args =>
      if cmd = W1_CMDR_W_SPAD then writeSpad args b d'
      else if cmd = W1_CMDR_C_SPAD then copySpad args b d'
      else d'

/-- The byte that is sent after `k` bytes; ones where the device does not answer. -/
def answer (rom : BitVec 64) (d : Ds28ec20) (k : Nat) : Nat :=
  if d.bytes.take 9 ≠ selection rom then 0xff
  else match d.bytes.drop 9 with
    | [cmd] =>
      if cmd ≠ W1_CMDR_R_SPAD then 0xff
      else if k = 0 then d.target % 256
      else if k = 1 then d.target / 256 % 256
      else if k = 2 then d.es.toNat
      else if d.target % 32 + (k - 3) ≤ d.es.toNat then (d.spad (d.target % 32 + (k - 3))).toNat
      else 0xff
    | [cmd, t1, t2] => if cmd ≠ W1_CMDR_R_MEMORY then 0xff else (d.mem (t1 + 256 * t2 + k)).toNat
    | _ => 0xff

/-- The presence pulse. -/
def reset (d : Ds28ec20) : Int × Ds28ec20 := (1, { d with bytes := [], bits := [], sent := 0 })

/-- The next bit that is sent, the low one of a byte first. -/
def readBit (rom : BitVec 64) (d : Ds28ec20) : Int × Ds28ec20 :=
  (if (answer rom d (d.sent / 8)).testBit (d.sent % 8) then 1 else 0, { d with sent := d.sent + 1 })

/-- A bit is received. -/
def writeBit (rom : BitVec 64) (v : Int) (d : Ds28ec20) : Ds28ec20 :=
  let bits := d.bits ++ [decide (v ≠ 0)]
  if bits.length < 8 then { d with bits := bits }
  else receive rom (Nat.ofBits fun i : Fin 8 => bits.getD i false) d

/-- The operations of a bus with this device. -/
def ops (rom : BitVec 64) : W1Ops Ds28ec20 := ⟨some reset, readBit rom, writeBit rom⟩

variable {rom : BitVec 64} {d : Ds28ec20}

-- ---------------------------------------------------------------------------
-- Bytes
-- ---------------------------------------------------------------------------

/-- Bits short of a byte are kept. -/
theorem writeBits_short (b : Nat) (is : List Nat) (h : d.bits.length + is.length < 8) :
    is.foldl (fun d i => writeBit rom (if b.testBit i then 1 else 0) d) d =
      { d with bits := d.bits ++ is.map b.testBit } := by
  induction is generalizing d with
  | nil => simp
  | cons i is ih =>
    rw [List.length_cons] at h
    have hbit : decide ((if b.testBit i = true then (1 : Int) else 0) ≠ 0) = b.testBit i := by
      cases b.testBit i <;> simp
    have hwrite : writeBit rom (if b.testBit i then 1 else 0) d =
        { d with bits := d.bits ++ [b.testBit i] } := by
      unfold writeBit
      simp only [hbit, List.length_append, List.length_singleton]
      rw [if_pos (by omega)]
    rw [List.foldl_cons, hwrite, ih (by simp only [List.length_append, List.length_singleton]; omega)]
    simp

/-- The bits of a byte are given up once it is complete. -/
theorem receive_bits (b : Nat) (d : Ds28ec20) (bits : List Bool) :
    receive rom b { d with bits := bits } = receive rom b d := rfl

theorem byte_of_bits (b : Nat) :
    (Nat.ofBits fun i : Fin 8 => ((List.range 8).map b.testBit).getD i false) = b % 256 := by
  have hbits : (fun i : Fin 8 => ((List.range 8).map b.testBit).getD i false) =
      fun i : Fin 8 => b.testBit i := by
    funext i
    rw [List.getD_eq_getElem?_getD, List.getElem?_map, List.getElem?_range i.isLt]
    rfl
  rw [hbits]
  exact Nat.ofBits_testBit b 8

/-- **A byte written** to a device between two bytes is received. -/
theorem writeByte_eq (h : d.bits = []) (b : Nat) :
    writeByte (ops rom) b d = receive rom (b % 256) d := by
  have hshort : (List.range 7).foldl (fun d i => writeBit rom (if b.testBit i then 1 else 0) d) d =
      { d with bits := (List.range 7).map b.testBit } := by
    rw [writeBits_short b (List.range 7) (by rw [h]; decide), h]
    rfl
  have hbit : decide ((if b.testBit 7 = true then (1 : Int) else 0) ≠ 0) = b.testBit 7 := by
    cases b.testBit 7 <;> simp
  have hbits : (List.range 7).map b.testBit ++ [b.testBit 7] = (List.range 8).map b.testBit := rfl
  have hlast : writeByte (ops rom) b d = writeBit rom (if b.testBit 7 then 1 else 0)
      ((List.range 7).foldl (fun d i => writeBit rom (if b.testBit i then 1 else 0) d) d) := by
    have hrange : List.range 8 = List.range 7 ++ [7] := rfl
    unfold writeByte
    rw [hrange, List.foldl_append]
    simp only [ops, List.foldl_cons, List.foldl_nil]
  rw [hlast, hshort]
  unfold writeBit
  simp only [hbit, hbits]
  rw [if_neg (by simp), byte_of_bits, receive_bits]

/-- What is sent does not depend on how much has been sent. -/
theorem answer_sent (d : Ds28ec20) (n k : Nat) :
    answer rom { d with sent := n } k = answer rom d k := rfl

/-- The weight of a bit that has been read. -/
theorem testBit_bit (b : Bool) (i j : Nat) :
    (if (if b = true then (1 : Int) else 0) ≠ 0 then 2 ^ i else 0).testBit j =
      (b && decide (i = j)) := by
  cases b with
  | false => simp
  | true => simp [Nat.testBit_two_pow]

/-- The last `n` bits of byte `k`, read one after another. -/
theorem readBits_eq {n i k : Nat} (hn : i + n = 8) (h : d.sent = 8 * k + i) (res : Nat) :
    (readBits (ops rom) (List.range' i n) res d).2 = { d with sent := 8 * (k + 1) } ∧
      ∀ j, (readBits (ops rom) (List.range' i n) res d).1.testBit j =
        (res.testBit j || (decide (i ≤ j ∧ j < 8) && (answer rom d k).testBit j)) := by
  induction n generalizing i res d with
  | zero =>
    refine ⟨?_, fun j => ?_⟩
    · obtain rfl : i = 8 := hn
      rw [Nat.mul_succ, ← h]
      rfl
    · have hj : ¬ (i ≤ j ∧ j < 8) := by omega
      simp [readBits, hj]
  | succ n ih =>
    have hdiv : d.sent / 8 = k := by omega
    have hmod : d.sent % 8 = i := by omega
    have hread : (ops rom).readBit d =
        (if (answer rom d k).testBit i then 1 else 0, { d with sent := d.sent + 1 }) := by
      show readBit rom d = _
      unfold readBit
      rw [hdiv, hmod]
    have hnext : ({ d with sent := d.sent + 1 } : Ds28ec20).sent = 8 * k + (i + 1) := by
      show d.sent + 1 = _
      omega
    rw [List.range'_succ]
    unfold readBits
    simp only [hread]
    obtain ⟨hstate, hbits⟩ := ih (by omega) hnext
      (res ||| if (if (answer rom d k).testBit i = true then (1 : Int) else 0) ≠ 0 then 2 ^ i else 0)
    refine ⟨hstate, fun j => ?_⟩
    rw [hbits, Nat.testBit_or, answer_sent d (d.sent + 1) k, Bool.or_assoc]
    congr 1
    rw [testBit_bit]
    by_cases hj : i = j
    · subst hj
      have hi : i < 8 := by omega
      simp [hi]
    · have hle : i + 1 ≤ j ∧ j < 8 ↔ i ≤ j ∧ j < 8 := by omega
      rw [decide_eq_decide.mpr hle, decide_eq_false hj, Bool.and_false, Bool.false_or]

theorem answer_lt (d : Ds28ec20) (k : Nat) : answer rom d k < 256 := by
  unfold answer
  split
  · decide
  · split
    · have := (d.spad (d.target % 32 + (k - 3))).toNat_lt
      have := d.es.toNat_lt
      split_ifs <;> omega
    · rename_i t1 t2 _
      have := (d.mem (t1 + 256 * t2 + k)).toNat_lt
      split_ifs <;> omega
    · decide

/-- **A byte read** is the one that is sent. -/
theorem readByte_eq {k : Nat} (h : d.sent = 8 * k) :
    readByte (ops rom) d = (answer rom d k, { d with sent := 8 * (k + 1) }) := by
  obtain ⟨hstate, hbits⟩ := @readBits_eq rom d 8 0 k rfl h 0
  unfold readByte
  rw [List.range_eq_range']
  refine Prod.ext (Nat.eq_of_testBit_eq fun j => ?_) hstate
  rw [hbits, Nat.zero_testBit, Bool.false_or]
  by_cases hj : j < 8
  · simp [hj]
  · have hzero : (answer rom d k).testBit j = false := by
      refine Nat.testBit_lt_two_pow ((answer_lt d k).trans_le ?_)
      exact Nat.pow_le_pow_right (n := 2) (by decide) (Nat.le_of_not_lt hj)
    simp [hzero]

theorem readBytes_eq {k : Nat} (h : d.sent = 8 * k) (n : Nat) :
    (readBytes (ops rom) n d).1 = (List.range' k n).map (answer rom d) ∧
      (readBytes (ops rom) n d).2 = { d with sent := 8 * (k + n) } := by
  induction n generalizing d k with
  | zero =>
    refine ⟨rfl, ?_⟩
    rw [Nat.add_zero, ← h]
    rfl
  | succ n ih =>
    have hnext : ({ d with sent := 8 * (k + 1) } : Ds28ec20).sent = 8 * (k + 1) := rfl
    obtain ⟨hbytes, hstate⟩ := ih hnext
    unfold readBytes
    simp only [readByte_eq h]
    rw [hbytes, hstate, List.range'_succ, List.map_cons, Nat.add_assoc, Nat.add_comm 1 n]
    exact ⟨rfl, rfl⟩

-- ---------------------------------------------------------------------------
-- Commands
-- ---------------------------------------------------------------------------

/-- The selected device after the bytes `args`. -/
def listening (rom : BitVec 64) (d : Ds28ec20) (args : List Nat) : Ds28ec20 :=
  { d with bytes := selection rom ++ args, bits := [], sent := 0 }

theorem selection_length (rom : BitVec 64) : (selection rom).length = 9 := rfl

theorem take_selection (rom : BitVec 64) (args : List Nat) :
    (selection rom ++ args).take 9 = selection rom := List.take_left' (selection_length rom)

theorem drop_selection (rom : BitVec 64) (args : List Nat) :
    (selection rom ++ args).drop 9 = args := List.drop_left' (selection_length rom)

/-- Bytes before the selection is complete are only kept. -/
theorem sendBytes_selecting (bs : List Nat) (hbits : d.bits = []) (hsent : d.sent = 0)
    (h : d.bytes.length + bs.length ≤ 9) :
    sendBytes (ops rom) bs d =
      { d with bytes := d.bytes ++ bs.map (· % 256), bits := [], sent := 0 } := by
  induction bs generalizing d with
  | nil =>
    obtain ⟨mem, spad, target, es, bytes, bits, sent⟩ := d
    subst hbits hsent
    simp [sendBytes]
  | cons b bs ih =>
    rw [List.length_cons] at h
    have hshort : d.bytes.take 9 ≠ selection rom := fun heq => by
      have hlength := congrArg List.length heq
      rw [selection_length, List.length_take] at hlength
      omega
    have hreceive : writeByte (ops rom) b d =
        { d with bytes := d.bytes ++ [b % 256], bits := [], sent := 0 } := by
      rw [writeByte_eq hbits]
      unfold receive
      rw [if_pos hshort]
    rw [sendBytes_cons, hreceive, ih rfl rfl (by rw [List.length_append, List.length_singleton]; omega)]
    simp

/-- **The selection** of the device. -/
theorem matchRom_eq (rom : BitVec 64) (d : Ds28ec20) :
    matchRom (ops rom) rom d = listening rom d [] := by
  have hsend : matchRom (ops rom) rom d =
      sendBytes (ops rom) (0x55 :: (List.range 8).map fun i => (rom >>> (8 * i)).toNat)
        { d with bytes := [], bits := [], sent := 0 } := by
    unfold matchRom sendBytes
    rw [List.foldl_cons, List.foldl_map]
    rfl
  rw [hsend, sendBytes_selecting _ rfl rfl (by simp)]
  unfold listening selection romBytes
  simp

theorem receive_listening (b : Nat) (args : List Nat) :
    receive rom b (listening rom d args) =
      let d' := listening rom d (args ++ [b])
      match args with
      | [] => d'
      | cmd :: args =>
        if cmd = W1_CMDR_W_SPAD then writeSpad args b d'
        else if cmd = W1_CMDR_C_SPAD then copySpad args b d'
        else d' := by
  unfold receive listening
  simp only [take_selection, drop_selection, ne_eq, not_true, if_false, List.append_assoc]

/-- The command byte. -/
theorem writeByte_command (b : Nat) :
    writeByte (ops rom) b (listening rom d []) = listening rom d [b % 256] := by
  rw [writeByte_eq rfl, receive_listening]
  rfl

/-- A byte behind the command. -/
theorem writeByte_args (cmd : Nat) (args : List Nat) (b : Nat) :
    writeByte (ops rom) b (listening rom d (cmd :: args)) =
      let d' := listening rom d (cmd :: args ++ [b % 256])
      if cmd = W1_CMDR_W_SPAD then writeSpad args (b % 256) d'
      else if cmd = W1_CMDR_C_SPAD then copySpad args (b % 256) d'
      else d' := by
  rw [writeByte_eq rfl, receive_listening]

theorem writeByte_spad (args : List Nat) (b : Nat) :
    writeByte (ops rom) b (listening rom d (W1_CMDR_W_SPAD :: args)) =
      writeSpad args (b % 256) (listening rom d (W1_CMDR_W_SPAD :: args ++ [b % 256])) := by
  rw [writeByte_args]
  exact if_pos rfl

theorem writeByte_copy (args : List Nat) (b : Nat) :
    writeByte (ops rom) b (listening rom d (W1_CMDR_C_SPAD :: args)) =
      copySpad args (b % 256) (listening rom d (W1_CMDR_C_SPAD :: args ++ [b % 256])) := by
  rw [writeByte_args]
  exact (if_neg (by decide)).trans (if_pos rfl)

theorem writeByte_readMemory (args : List Nat) (b : Nat) :
    writeByte (ops rom) b (listening rom d (W1_CMDR_R_MEMORY :: args)) =
      listening rom d (W1_CMDR_R_MEMORY :: args ++ [b % 256]) := by
  rw [writeByte_args]
  exact (if_neg (by decide)).trans (if_neg (by decide))

theorem ofNat_wire (b : UInt8) : UInt8.ofNat (b.toNat % 256) = b := by
  rw [Nat.mod_eq_of_lt b.toNat_lt, UInt8.ofNat_toNat]

/-- Data go to the scratchpad. -/
theorem sendBytes_data (bs : List UInt8) (t1 t2 : Nat) (xs : List Nat)
    (h : d.target % 32 + xs.length + bs.length ≤ 32) :
    sendBytes (ops rom) (wire bs) (listening rom d (W1_CMDR_W_SPAD :: t1 :: t2 :: xs)) =
      listening rom
        { d with
          spad := blit d.spad (d.target % 32 + xs.length) bs
          es := if bs = [] then d.es
            else UInt8.ofNat (d.target % 32 + xs.length + bs.length - 1) }
        (W1_CMDR_W_SPAD :: t1 :: t2 :: xs ++ wire bs) := by
  induction bs generalizing d xs with
  | nil =>
    rw [blit_nil, if_pos rfl, wire, List.map_nil, List.append_nil]
    rfl
  | cons b bs ih =>
    rw [List.length_cons] at h
    have hfirst : writeByte (ops rom) b.toNat
        (listening rom d (W1_CMDR_W_SPAD :: t1 :: t2 :: xs)) =
          listening rom
            { d with
              spad := Function.update d.spad (d.target % 32 + xs.length) b
              es := UInt8.ofNat (d.target % 32 + xs.length) }
            (W1_CMDR_W_SPAD :: t1 :: t2 :: (xs ++ [b.toNat])) := by
      rw [writeByte_spad]
      unfold writeSpad listening
      dsimp only
      rw [if_pos (by omega), ofNat_wire, Nat.mod_eq_of_lt b.toNat_lt]
      rfl
    have hrest := @ih { d with
      spad := Function.update d.spad (d.target % 32 + xs.length) b
      es := UInt8.ofNat (d.target % 32 + xs.length) } (xs ++ [b.toNat])
      (by rw [List.length_append, List.length_singleton]; show d.target % 32 + _ + _ ≤ 32; omega)
    have hwire : wire (b :: bs) = b.toNat :: wire bs := rfl
    have hes : (if bs = [] then UInt8.ofNat (d.target % 32 + xs.length)
        else UInt8.ofNat (d.target % 32 + (xs.length + 1) + bs.length - 1)) =
          UInt8.ofNat (d.target % 32 + xs.length + (bs.length + 1) - 1) := by
      by_cases hnil : bs = []
      · rw [if_pos hnil, hnil, List.length_nil, Nat.add_assoc, Nat.add_sub_assoc (Nat.le_add_left 1 _)]
        rfl
      · have hsum : d.target % 32 + (xs.length + 1) + bs.length =
            d.target % 32 + xs.length + (bs.length + 1) := by omega
        rw [if_neg hnil, hsum]
    rw [hwire, sendBytes_cons, hfirst, hrest, blit_cons, if_neg (List.cons_ne_nil b bs),
      List.length_append, List.length_singleton, List.length_cons, hes]
    simp [Nat.add_assoc]

/-- The bytes of an address. -/
theorem address_bytes {t : Nat} (ht : t < 65536) :
    t % 256 % 256 = t % 256 ∧ t / 256 % 256 = t / 256 ∧ t % 256 + 256 * (t / 256) = t ∧
      t % 256 % 32 = t % 32 := by
  omega

/-- The write scratchpad command. -/
theorem write_spad (d : Ds28ec20) {t : Nat} {bs : List UInt8} (hne : bs ≠ []) (ht : t < 65536)
    (hpage : t % 32 + bs.length ≤ 32) :
    sendBytes (ops rom) (W1_CMDR_W_SPAD :: t % 256 :: t / 256 :: wire bs) (matchRom (ops rom) rom d) =
      listening rom
        { d with
          target := t
          spad := blit d.spad (t % 32) bs
          es := UInt8.ofNat (t % 32 + bs.length - 1) }
        (W1_CMDR_W_SPAD :: t % 256 :: t / 256 :: wire bs) := by
  obtain ⟨ht1, ht2, htarget, hlow⟩ := address_bytes ht
  have hcmd : W1_CMDR_W_SPAD % 256 = W1_CMDR_W_SPAD := rfl
  have hfirst : writeByte (ops rom) (t % 256) (listening rom d [W1_CMDR_W_SPAD]) =
      listening rom d [W1_CMDR_W_SPAD, t % 256] := by
    rw [writeByte_spad, ht1]
    rfl
  have hsecond : writeByte (ops rom) (t / 256) (listening rom d [W1_CMDR_W_SPAD, t % 256]) =
      listening rom { d with target := t, es := UInt8.ofNat (t % 32) }
        [W1_CMDR_W_SPAD, t % 256, t / 256] := by
    rw [writeByte_spad, ht2]
    unfold writeSpad
    dsimp only
    rw [htarget, hlow]
    rfl
  have hdata := @sendBytes_data rom { d with target := t, es := UInt8.ofNat (t % 32) } bs
    (t % 256) (t / 256) [] hpage
  rw [if_neg hne] at hdata
  rw [matchRom_eq, sendBytes_cons, writeByte_command, hcmd, sendBytes_cons, hfirst, sendBytes_cons,
    hsecond, hdata]
  rfl

/-- The copy scratchpad command. -/
theorem copy_spad (d : Ds28ec20) (ht : d.target < 65536) :
    (sendBytes (ops rom) [W1_CMDR_C_SPAD, d.target % 256, d.target / 256, d.es.toNat]
      (matchRom (ops rom) rom d)).mem = blit d.mem d.target d.written := by
  obtain ⟨ht1, ht2, htarget, -⟩ := address_bytes ht
  have hes : d.es.toNat % 256 = d.es.toNat := Nat.mod_eq_of_lt d.es.toNat_lt
  have hcmd : W1_CMDR_C_SPAD % 256 = W1_CMDR_C_SPAD := rfl
  have hfirst : writeByte (ops rom) (d.target % 256) (listening rom d [W1_CMDR_C_SPAD]) =
      listening rom d [W1_CMDR_C_SPAD, d.target % 256] := by
    rw [writeByte_copy, ht1]
    rfl
  have hsecond : writeByte (ops rom) (d.target / 256)
      (listening rom d [W1_CMDR_C_SPAD, d.target % 256]) =
        listening rom d [W1_CMDR_C_SPAD, d.target % 256, d.target / 256] := by
    rw [writeByte_copy, ht2]
    rfl
  have hthird : (writeByte (ops rom) d.es.toNat
      (listening rom d [W1_CMDR_C_SPAD, d.target % 256, d.target / 256])).mem =
        blit d.mem d.target d.written := by
    rw [writeByte_copy, hes]
    unfold copySpad
    dsimp only
    rw [if_pos ⟨htarget, rfl⟩]
    rfl
  rw [matchRom_eq, sendBytes_cons, writeByte_command, hcmd, sendBytes_cons, hfirst, sendBytes_cons,
    hsecond, sendBytes_cons, sendBytes_nil, hthird]

/-- The device answers to the read scratchpad command with the address, the E/S register
and the data. -/
theorem answer_spad (d : Ds28ec20) (ht : d.target < 65536) :
    (List.range' 0 (3 + d.written.length)).map (answer rom (listening rom d [W1_CMDR_R_SPAD])) =
      d.target % 256 :: d.target / 256 :: d.es.toNat :: wire d.written := by
  obtain ⟨-, ht2, -, -⟩ := address_bytes ht
  have hanswer : ∀ k, answer rom (listening rom d [W1_CMDR_R_SPAD]) k =
      if k = 0 then d.target % 256
      else if k = 1 then d.target / 256 % 256
      else if k = 2 then d.es.toNat
      else if d.target % 32 + (k - 3) ≤ d.es.toNat then (d.spad (d.target % 32 + (k - 3))).toNat
      else 0xff := by
    intro k
    unfold answer listening
    simp only [take_selection, drop_selection, ne_eq, not_true, if_false]
  have hdata : (List.range' 3 d.written.length).map (answer rom (listening rom d [W1_CMDR_R_SPAD])) =
      wire d.written := by
    unfold wire written block
    rw [List.length_map, List.length_range, List.map_map, List.range'_eq_map_range, List.map_map]
    refine List.map_congr_left fun i hi => ?_
    rw [List.mem_range] at hi
    show answer rom _ (3 + i) = (d.spad (d.target % 32 + i)).toNat
    rw [hanswer, if_neg (by omega), if_neg (by omega), if_neg (by omega), Nat.add_sub_cancel_left,
      if_pos (by omega)]
  rw [Nat.add_comm 3, List.range'_succ, List.range'_succ, List.range'_succ, List.map_cons,
    List.map_cons, List.map_cons, hdata, hanswer, hanswer, hanswer]
  simp [ht2]

/-- The read scratchpad command. -/
theorem read_spad (d : Ds28ec20) (ht : d.target < 65536) :
    readBytes (ops rom) (3 + d.written.length)
      (sendBytes (ops rom) [W1_CMDR_R_SPAD] (matchRom (ops rom) rom d)) =
        (d.target % 256 :: d.target / 256 :: d.es.toNat :: wire d.written,
          { listening rom d [W1_CMDR_R_SPAD] with sent := 8 * (0 + (3 + d.written.length)) }) := by
  have hcmd : W1_CMDR_R_SPAD % 256 = W1_CMDR_R_SPAD := rfl
  have hsent : (listening rom d [W1_CMDR_R_SPAD]).sent = 8 * 0 := rfl
  obtain ⟨hbytes, hstate⟩ := @readBytes_eq rom _ 0 hsent (3 + d.written.length)
  rw [matchRom_eq, sendBytes_cons, writeByte_command, hcmd, sendBytes_nil]
  exact Prod.ext (hbytes.trans (answer_spad d ht)) hstate

/-- The read memory command. -/
theorem read_memory (d : Ds28ec20) {t : Nat} (ht : t < 65536) (n : Nat) :
    (readBytes (ops rom) n (sendBytes (ops rom) [W1_CMDR_R_MEMORY, t % 256, t / 256]
      (matchRom (ops rom) rom d))).1 = wire (block d.mem t n) := by
  obtain ⟨ht1, ht2, htarget, -⟩ := address_bytes ht
  have hcmd : W1_CMDR_R_MEMORY % 256 = W1_CMDR_R_MEMORY := rfl
  have hlistening : sendBytes (ops rom) [W1_CMDR_R_MEMORY, t % 256, t / 256]
      (matchRom (ops rom) rom d) = listening rom d [W1_CMDR_R_MEMORY, t % 256, t / 256] := by
    rw [matchRom_eq, sendBytes_cons, writeByte_command, hcmd, sendBytes_cons, writeByte_readMemory,
      ht1, List.cons_append, List.nil_append, sendBytes_cons, writeByte_readMemory, ht2,
      List.cons_append, List.cons_append, List.nil_append, sendBytes_nil]
  have hanswer : ∀ k, answer rom (listening rom d [W1_CMDR_R_MEMORY, t % 256, t / 256]) k =
      (d.mem (t + k)).toNat := by
    intro k
    unfold answer listening
    simp only [take_selection, drop_selection, ne_eq, not_true, if_false, htarget]
  have hsent : (listening rom d [W1_CMDR_R_MEMORY, t % 256, t / 256]).sent = 8 * 0 := rfl
  rw [hlistening, (readBytes_eq hsent n).1, ← List.range_eq_range']
  unfold wire block
  rw [List.map_map]
  exact List.map_congr_left fun i _ => hanswer i

/-- **The device follows the protocol.** -/
def scratchpad (rom : BitVec 64) : Scratchpad (ops rom) rom where
  mem := mem
  spad d := (d.target, d.written)
  es d := d.es.toNat
  write s t bs hne ht hpage := by
    have hlength : 0 < bs.length := List.length_pos_iff.mpr hne
    have hes : (UInt8.ofNat (t % 32 + bs.length - 1)).toNat = t % 32 + bs.length - 1 :=
      UInt8.toNat_ofNat_of_lt' (by show _ < 256; omega)
    have hwritten : t % 32 + bs.length - 1 + 1 - t % 32 = bs.length := by omega
    intro s'
    have hs' : s' = _ := write_spad s hne ht hpage
    rw [hs']
    refine ⟨rfl, Prod.ext rfl ?_⟩
    show block (blit s.spad (t % 32) bs) (t % 32)
      ((UInt8.ofNat (t % 32 + bs.length - 1)).toNat + 1 - t % 32) = bs
    rw [hes, hwritten, block_blit_self]
  read s t bs h ht := by
    obtain ⟨rfl, rfl⟩ := Prod.mk.inj h
    intro r
    have hr : r = _ := read_spad s ht
    rw [hr]
    exact ⟨rfl, rfl, rfl, rfl⟩
  copy s t bs h ht := by
    obtain ⟨rfl, rfl⟩ := Prod.mk.inj h
    exact copy_spad s ht
  readMemory s t n h hn := read_memory s (by omega) n

theorem scratchpad_mem (rom : BitVec 64) : (scratchpad rom).mem = mem := rfl

end Ds28ec20

end Bathos.Drivers
