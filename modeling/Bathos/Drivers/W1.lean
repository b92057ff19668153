import Mathlib.Tactic

/-!
# Bathos — the one-wire bus

`drivers/w1.c` over the operations of a bus driver: bytes, the search of the bus for the
ROM codes of its devices, and the selection of one device.

A pass of the search follows one device bit by bit; where the devices disagree it takes
the bit it holds in `rom`, and marks the bit in the conflict mask if it went for the 0.
-/

namespace Bathos.Drivers

-- ---------------------------------------------------------------------------
-- w1.c
-- ---------------------------------------------------------------------------

/-- `struct w1_ops`, for a bus whose state, devices included, is in `σ`. -/
structure W1Ops (σ : Type) where
  reset : Option (σ → Int × σ)
  readBit : σ → Int × σ
  writeBit : Int → σ → σ

/-- `W1_MAX_DEVICES`. -/
def W1_MAX_DEVICES : Nat := 8

namespace W1

variable {σ : Type} (ops : W1Ops σ)

/-- `w1_write_byte`: the low bit first. -/
def writeByte (byte : Nat) (s : σ) : σ :=
  (List.range 8).foldl (fun s i => ops.writeBit (if byte.testBit i then 1 else 0) s) s

/-- The loop of `w1_read_byte`. -/
def readBits : List Nat → Nat → σ → Nat × σ
  | [], res, s => (res, s)
  | i :: is, res, s =>
    let r := ops.readBit s
    readBits is (res ||| if r.1 ≠ 0 then 2 ^ i else 0) r.2

/-- `w1_read_byte`. -/
def readByte (s : σ) : Nat × σ := readBits ops (List.range 8) 0 s

/-- `enum __bits`. -/
inductive Bits where
  | b0
  | b1
  | both
deriving DecidableEq, Repr

/-- `__get_dibit`. -/
def getDibit (select : Int) (s : σ) : Bits × σ :=
  let a := ops.readBit s
  let b := ops.readBit a.2
  if a.1 ≠ b.1 then (if a.1 ≠ 0 then .b1 else .b0, ops.writeBit a.1 b.2)
  else (.both, ops.writeBit select b.2)

/-- `int select = *rom & mask`, for an `int` of `w` bits. -/
def select (w : Nat) (rom : BitVec 64) (k : Nat) : Int := ((rom &&& 1#64 <<< k).setWidth w).toInt

/-- One turn of the loop of `__w1_scan_one`: `*rom`, `*cmask` and the bus. -/
def scanBit (w k : Nat) (x : BitVec 64 × BitVec 64 × σ) : BitVec 64 × BitVec 64 × σ :=
  let mask := 1#64 <<< k
  let sel := select w x.1 k
  let r := getDibit ops sel x.2.2
  match r.1 with
  | .b1 => (x.1 ||| mask, x.2.1, r.2)
  | .b0 => (x.1, x.2.1, r.2)
  -- if we follow 1, it's resolved, else mark it
  | .both => (x.1, if sel = 0 then x.2.1 ||| mask else x.2.1, r.2)

/-- `__w1_scan_one`; `*cmask` is left alone when it returns -1. -/
def scanOne (w : Nat) (rom cmask : BitVec 64) (s : σ) : Int × BitVec 64 × BitVec 64 × σ :=
  match ops.reset with
  | none => (-1, rom, cmask, s)
  | some reset =>
    let r := reset s
    if r.1 ≠ 1 then (-1, rom, cmask, r.2)
    else
      -- search rom
      let s := writeByte ops 0xf0 r.2
      (0, (List.range 64).foldl (fun x k => scanBit ops w k x) (rom, 0, s))

/-- The inner loop of `w1_scan_bus`, over the masks from bit `k - 1` down: the bit of
the last conflict, and the code with the bits above it cleared. -/
def lastConflict (cmask : BitVec 64) : Nat → BitVec 64 → Option Nat × BitVec 64
  | 0, rom => (none, rom)
  | k + 1, rom =>
    if cmask.getLsbD k then (some k, rom) else lastConflict cmask k (rom &&& ~~~(1#64 <<< k))

/-- The loop of `w1_scan_bus` from device `i` on, with `left` turns left: what is
returned, and the codes in `devs`. -/
def scanFrom (w : Nat) : (left i : Nat) → BitVec 64 → (Nat → BitVec 64) → σ →
    Nat × (Nat → BitVec 64) × σ
  | 0, i, _, devs, s => (i, devs, s)
  | left + 1, i, cmask, devs, s =>
    -- Not first: scan conflicts and resolve last
    let c := if i = 0 then (some 64, devs 0) else lastConflict cmask 64 (devs (i - 1))
    match c with
    -- no conflicts to solve: done
    | (none, rom) => (i, Function.update devs i rom, s)
    | (some k, rom) =>
      -- we'll reply 1 next loop
      let rom := if i = 0 then rom else rom ||| 1#64 <<< k
      let cmask := if i = 0 then cmask else cmask &&& ~~~(1#64 <<< k)
      let r := scanOne ops w rom cmask s
      let devs := Function.update devs i r.2.1
      if r.1 ≠ 0 then (i, devs, r.2.2.2) else scanFrom w left (i + 1) r.2.2.1 devs r.2.2.2

/-- `w1_scan_bus`: what it returns, the codes in `bus->devs`, and the bus. -/
def scanBus (w : Nat) (s : σ) : Nat × (Nat → BitVec 64) × σ :=
  if ops.reset.isNone then (0, fun _ => 0, s)
  else scanFrom ops w W1_MAX_DEVICES 0 0 (fun _ => 0) s

/-- `w1_match_rom`; a bus without `reset` has no devices to select. -/
def matchRom (rom : BitVec 64) (s : σ) : σ :=
  match ops.reset with
  | none => s
  | some reset =>
    let s := writeByte ops 0x55 (reset s).2
    (List.range 8).foldl (fun s i => writeByte ops (rom >>> (8 * i)).toNat s) s

end W1

end Bathos.Drivers
