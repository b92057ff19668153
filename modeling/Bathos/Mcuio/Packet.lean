import Bathos.Lib.Bytes

/-!
# Bathos — mcuio packets

`include/tasks/mcuio.h`: `struct mcuio_base_packet`, a packed structure of 16
bytes whose first word is cut into bit-fields, and the predicates on its type
byte. The layout is the one of a little-endian target, bit-fields from the least
significant bit up.

* `decode_encode` and `encode_decode` — packets and their 16 bytes determine
  each other.

An `int` has 16 bits on one of the targets (`IntSize`), which the length of an access
and the bit of an interrupt do not always fit.
-/

namespace Bathos.Mcuio

open Bathos.Lib

-- ---------------------------------------------------------------------------
-- Integers
-- ---------------------------------------------------------------------------

/-- How large an `int` is: 16 bits on the ATmega, 32 on the other targets. -/
inductive IntSize where
  | int16
  | int32
deriving DecidableEq

namespace IntSize

def bits : IntSize → Nat
  | int16 => 16
  | int32 => 32

/-- What an `int` is left with of a sum or of a shift. -/
def wrap (sz : IntSize) (x : Int) : Int := x.bmod (2 ^ sz.bits)

/-- Half of the values are positive. -/
def max (sz : IntSize) : Int := 2 ^ (sz.bits - 1)

theorem le_max (sz : IntSize) : 2 ^ 15 ≤ sz.max := by
  cases sz <;> decide

theorem max_le (sz : IntSize) : sz.max ≤ 2 ^ 31 := by
  cases sz <;> decide

theorem wrap_eq (sz : IntSize) {x : Int} (hlo : -2 ^ 15 ≤ x) (hhi : x < 2 ^ 15) : sz.wrap x = x := by
  unfold wrap
  cases sz with
  | int16 => exact Int.bmod_eq_of_le_mul_two (by simp only [bits]; omega) (by simp only [bits]; omega)
  | int32 => exact Int.bmod_eq_of_le_mul_two (by simp only [bits]; omega) (by simp only [bits]; omega)

/-- Only from below can a value that is too large come back. -/
theorem wrap_le (sz : IntSize) {x : Int} (hlo : -2 ^ 15 ≤ x) : sz.wrap x ≤ x := by
  by_cases hhi : x < 2 ^ 15
  · exact (sz.wrap_eq hlo hhi).le
  · unfold wrap Int.bmod
    cases sz <;> simp only [bits] <;> omega

end IntSize

-- ---------------------------------------------------------------------------
-- Packets
-- ---------------------------------------------------------------------------

/-- `struct mcuio_base_packet`. -/
structure Packet where
  offset : BitVec 12
  func : BitVec 5
  dev : BitVec 4
  bus : BitVec 3
  type : BitVec 8
  data0 : BitVec 32
  data1 : BitVec 32
  crc : BitVec 16
  dummy : BitVec 16
deriving DecidableEq

/-- `sizeof(struct mcuio_base_packet)`. -/
def packetSize : Nat := 16

namespace Packet

/-- The packet as it lies in memory. -/
def bits (p : Packet) : BitVec 128 :=
  p.dummy ++ p.crc ++ p.data1 ++ p.data0 ++ p.type ++ p.bus ++ p.dev ++ p.func ++ p.offset

/-- The packet at 128 bits of memory. -/
def ofBits (v : BitVec 128) : Packet where
  offset := v.extractLsb' 0 12
  func := v.extractLsb' 12 5
  dev := v.extractLsb' 17 4
  bus := v.extractLsb' 21 3
  type := v.extractLsb' 24 8
  data0 := v.extractLsb' 32 32
  data1 := v.extractLsb' 64 32
  crc := v.extractLsb' 96 16
  dummy := v.extractLsb' 112 16

def encode (p : Packet) : List UInt8 := toBytes packetSize p.bits

def decode (l : List UInt8) : Packet := ofBits (ofBytes 128 l)

/-! ## The type byte -/

/-- `mcuio_packet_is_read`: `!(type & 0x1)`. -/
def isRead (p : Packet) : Bool := p.type &&& 1#8 == 0#8

/-- `mcuio_packet_is_write`: `type & 0x1`. -/
def isWrite (p : Packet) : Bool := p.type &&& 1#8 != 0#8

/-- `mcuio_packet_is_reply`: `type & (1 << 6)`. -/
def isReply (p : Packet) : Bool := p.type &&& (1#8 <<< 6) != 0#8

/-- `mcuio_packet_is_fill_data`: `type & (1 << 7)`. -/
def isFillData (p : Packet) : Bool := p.type &&& (1#8 <<< 7) != 0#8

/-- `mcuio_packet_is_error`: `type & (1 << 5)`. -/
def isError (p : Packet) : Bool := p.type &&& (1#8 <<< 5) != 0#8

/-- `mcuio_packet_set_reply`. -/
def setReply (p : Packet) : Packet := { p with type := p.type ||| (1#8 <<< 6) }

/-- `mcuio_packet_set_error`. -/
def setError (p : Packet) : Packet := { p with type := p.type ||| (1#8 <<< 5) }

/-- `mcuio_packet_data_len`: `1 << ((type & ((1 << 5) - 1)) >> 1)`, an `int`. -/
def dataLen (sz : IntSize) (p : Packet) : Int :=
  sz.wrap (1 <<< ((p.type &&& ((1#8 <<< 5) - 1#8)) >>> 1).toNat : Nat)

/-! ## Round trips -/

theorem ofBits_bits (p : Packet) : ofBits p.bits = p := by
  obtain ⟨offset, func, dev, bus, type, data0, data1, crc, dummy⟩ := p
  unfold ofBits bits
  simp only [Packet.mk.injEq]
  -- a field is found by skipping the fields below it
  refine ⟨?_, ?_, ?_, ?_, ?_, ?_, ?_, ?_, ?_⟩
  · exact BitVec.extractLsb'_append_eq_right
  all_goals
    repeat rw [BitVec.extractLsb'_append_eq_of_le (by decide)]
    first
      | exact BitVec.extractLsb'_append_eq_right
      | exact BitVec.extractLsb'_eq_self

theorem bits_ofBits (v : BitVec 128) : (ofBits v).bits = v := by
  unfold ofBits bits
  simp only
  -- neighbouring fields join into one
  simp (disch := decide) only [BitVec.extractLsb'_append_extractLsb'_eq_extractLsb']
  exact BitVec.extractLsb'_eq_self

/-- **Packets survive their encoding.** -/
theorem decode_encode (p : Packet) : decode (encode p) = p := by
  unfold decode encode
  have hbytes : ofBytes 128 (toBytes packetSize p.bits) = p.bits := ofBytes_toBytes (n := 16) p.bits
  rw [hbytes, ofBits_bits]

/-- **Any 16 bytes are a packet.** -/
theorem encode_decode {l : List UInt8} (hl : l.length = packetSize) : encode (decode l) = l := by
  unfold decode encode
  rw [bits_ofBits]
  exact toBytes_ofBytes hl

@[simp] theorem encode_length (p : Packet) : (encode p).length = 16 := toBytes_length _ _

theorem encode_inj {p q : Packet} (h : encode p = encode q) : p = q := by
  rw [← decode_encode p, h, decode_encode]

end Packet

end Bathos.Mcuio
