import Bathos.Include.Headers
import Bathos.Lib.Memory
import Bathos.Lib.Run

/-!
# Bathos — the master side of the radio bridge

`drivers/radio-bridge-master.c`: packets from the input pipe are collected in
one buffer, and a filter decides whether a packet goes to the radio, in place of
the next beacon, or to the local pipe.

`Router` says what that is for: it collects a packet, keeps it until it is
consumed, and hands it to one side. The driver differs from it in three places.
`rb_master_open` does not clear the memory it allocates; the number of bytes
collected is kept in eight bits; and `rb_master_read` copies the private
structure, not the packet.

Main results:

* `step_refines` — as long as these places are avoided, a call does what the
  router does;
* `master_routes` — so does every run.
-/

namespace Bathos.Radio

open Bathos.Lib

-- ---------------------------------------------------------------------------
-- radio-bridge-master.c
-- ---------------------------------------------------------------------------

/-- `struct rb_master_private_data`: the fields that change after the open, and
the contents of the input buffer. -/
structure RbMaster where
  packetInIpipeBuffer : UInt8
  filterOutPacket : UInt8
  inputBytes : UInt8
  ipipeBuffer : Nat → UInt8

/-- `struct rb_master_platform_data`, and the bytes of memory from `priv` on: the
private structure as the compiler lays it out, and what comes after it. -/
structure MasterPlatform where
  packetSize : Nat
  filter : Option (List UInt8 → Bool)
  privBytes : RbMaster → Nat → UInt8

namespace RbMaster

variable (plat : MasterPlatform)

/-- `plat->filter && plat->filter(buf, packet_size, filter_data)`. -/
def filtered (plat : MasterPlatform) (packet : List UInt8) : Bool :=
  match plat.filter with
  | none => false
  | some f => f packet

/-- `rb_master_open`, when it succeeds: the pointers are set, and the rest of the
structure stays what the allocator's memory was. -/
def rbMasterOpen (found : RbMaster) : RbMaster := found

/-- `rb_master_do_beacon`: the bytes written to the output pipe. -/
def rbMasterDoBeacon (s : RbMaster) : List UInt8 × RbMaster :=
  if s.packetInIpipeBuffer ≠ 0 ∧ s.filterOutPacket = 0 then
    (block s.ipipeBuffer 0 plat.packetSize, { s with packetInIpipeBuffer := 0 })
  else ([], s)

/-- `rb_master_read(pipe, buf, len)`: what it returns and copies. -/
def rbMasterRead (len : Int) (s : RbMaster) : Int × List UInt8 × RbMaster :=
  let l := min len plat.packetSize
  if ¬ (s.packetInIpipeBuffer ≠ 0 ∧ s.filterOutPacket ≠ 0) then (-EAGAIN, [], s)
  else if l ≤ 0 then (-EINVAL, [], s)
  else
    let s := { s with filterOutPacket := 0, packetInIpipeBuffer := 0 }
    -- `memcpy(buf, priv, l)`
    (l, block (plat.privBytes s) 0 l.toNat, s)

/-- `input_pipe_ready_handle`; `stat` and `bytes` are what `pipe_read` returns and
copies. -/
def inputPipeReadyHandle (stat : Int) (bytes : List UInt8) (s : RbMaster) : RbMaster :=
  if stat < 0 then s
  else
    let s := { s with
      ipipeBuffer := blit s.ipipeBuffer s.inputBytes.toNat bytes
      inputBytes := s.inputBytes + UInt8.ofNat stat.toNat }
    if s.inputBytes.toNat < plat.packetSize then s
    else
      let s :=
        if filtered plat (block s.ipipeBuffer 0 plat.packetSize) then { s with filterOutPacket := 1 }
        else s
      { s with packetInIpipeBuffer := 1, inputBytes := 0 }

end RbMaster

-- ---------------------------------------------------------------------------
-- What it is for
-- ---------------------------------------------------------------------------

/-- The router: the bytes of the packet that is arriving, and the packet that
waits to be consumed. -/
structure Router where
  arriving : List UInt8
  waiting : Option (List UInt8)

/-- The calls; `ready` carries the result of `pipe_read`. -/
inductive MasterOp where
  | ready (stat : Int) (bytes : List UInt8)
  | beacon
  | read (len : Int)

/-- What a call lets out: the bytes written to the radio, or what the local
reader gets. -/
inductive MasterOut where
  | nothing
  | radio (bytes : List UInt8)
  | toLocal (ret : Int) (bytes : List UInt8)
deriving DecidableEq

namespace Router

variable (plat : MasterPlatform)

def step (r : Router) : MasterOp → MasterOut × Router
  | .ready stat bytes =>
    if stat < 0 then (.nothing, r)
    else
      let arriving := r.arriving ++ bytes
      if arriving.length < plat.packetSize then (.nothing, { r with arriving := arriving })
      else (.nothing, ⟨[], some arriving⟩)
  | .beacon =>
    match r.waiting with
    | none => (.radio [], r)
    | some p =>
      if RbMaster.filtered plat p then (.radio [], r) else (.radio p, { r with waiting := none })
  | .read len =>
    let l := min len plat.packetSize
    match r.waiting with
    | none => (.toLocal (-EAGAIN) [], r)
    | some p =>
      if RbMaster.filtered plat p then
        if l ≤ 0 then (.toLocal (-EINVAL) [], r)
        else (.toLocal l (p.take l.toNat), { r with waiting := none })
      else (.toLocal (-EAGAIN) [], r)

end Router

/-- The driver beside the router. -/
structure MasterRun where
  dev : RbMaster
  router : Router

namespace MasterRun

variable (plat : MasterPlatform)

/-- Right after `rb_master_open`. -/
def start (found : RbMaster) : MasterRun := ⟨found.rbMasterOpen, ⟨[], none⟩⟩

/-- The call on the driver. -/
def call (s : RbMaster) : MasterOp → MasterOut × RbMaster
  | .ready stat bytes => (.nothing, s.inputPipeReadyHandle plat stat bytes)
  | .beacon => ((.radio (s.rbMasterDoBeacon plat).1), (s.rbMasterDoBeacon plat).2)
  | .read len =>
    (.toLocal (s.rbMasterRead plat len).1 (s.rbMasterRead plat len).2.1,
      (s.rbMasterRead plat len).2.2)

def step (t : MasterRun) (op : MasterOp) : MasterRun :=
  ⟨(call plat t.dev op).2, (t.router.step plat op).2⟩

/-- Both let out the same. -/
def StepRouted (t : MasterRun) (op : MasterOp) : Prop :=
  (call plat t.dev op).1 = (t.router.step plat op).1

/-- `pipe_read` returns at most what it is asked for, and no byte arrives while a
packet waits. -/
def Valid (t : MasterRun) : MasterOp → Prop
  | .ready stat bytes => 0 ≤ stat → stat = bytes.length ∧
      (bytes.length : Int) ≤ plat.packetSize - t.dev.inputBytes.toNat ∧
      (bytes ≠ [] → t.router.waiting = none)
  | _ => True

/-- The number of bytes collected fits into eight bits, and a packet for the
local pipe is only read where the private structure holds the same bytes. -/
def Meets (t : MasterRun) : MasterOp → Prop
  | .ready stat bytes => 0 ≤ stat → t.dev.inputBytes.toNat + bytes.length < 256
  | .beacon => True
  | .read len => t.dev.packetInIpipeBuffer ≠ 0 → t.dev.filterOutPacket ≠ 0 →
      block (plat.privBytes { t.dev with filterOutPacket := 0, packetInIpipeBuffer := 0 }) 0
          (min len plat.packetSize).toNat =
        block t.dev.ipipeBuffer 0 (min len plat.packetSize).toNat

-- ---------------------------------------------------------------------------
-- The simulation
-- ---------------------------------------------------------------------------

/-- The flags and the buffer of the driver for what waits in the router. -/
def Holds (dev : RbMaster) : Option (List UInt8) → Prop
  | none => dev.packetInIpipeBuffer = 0 ∧ dev.filterOutPacket = 0
  | some p => dev.packetInIpipeBuffer = 1 ∧
      dev.filterOutPacket = (if RbMaster.filtered plat p then 1 else 0) ∧
      dev.inputBytes = 0 ∧ block dev.ipipeBuffer 0 plat.packetSize = p

/-- The driver holds what the router does. -/
structure Refines (t : MasterRun) : Prop where
  count : t.dev.inputBytes.toNat = t.router.arriving.length
  incomplete : t.router.arriving.length < plat.packetSize
  collected : block t.dev.ipipeBuffer 0 t.router.arriving.length = t.router.arriving
  holds : Holds plat t.dev t.router.waiting

variable {plat} {t : MasterRun}

/-- The counter after a read that fits. -/
theorem inputBytes_add {n : UInt8} {k : Nat} (h : n.toNat + k < 256) :
    (n + UInt8.ofNat k).toNat = n.toNat + k := by
  rw [UInt8.toNat_add, UInt8.toNat_ofNat']
  omega

theorem ready_refines (hrefines : Refines plat t) {stat : Int} {bytes : List UInt8}
    (hvalid : Valid plat t (.ready stat bytes)) (hmeets : Meets plat t (.ready stat bytes)) :
    Refines plat (t.step plat (.ready stat bytes)) := by
  unfold step call Router.step RbMaster.inputPipeReadyHandle
  by_cases hneg : stat < 0
  · simp only [hneg, if_true]
    exact hrefines
  obtain ⟨rfl, hroom, hidle⟩ := hvalid (by omega)
  have hcount : (t.dev.inputBytes + UInt8.ofNat bytes.length).toNat =
      (t.router.arriving ++ bytes).length := by
    rw [inputBytes_add (hmeets (by omega)), hrefines.count, List.length_append]
  -- The bytes read go right behind the ones already there.
  have hcollected : block (blit t.dev.ipipeBuffer t.dev.inputBytes.toNat bytes) 0
      (t.router.arriving ++ bytes).length = t.router.arriving ++ bytes := by
    have happend := block_blit_append t.dev.ipipeBuffer 0 t.router.arriving.length bytes
    rw [Nat.zero_add, hrefines.collected] at happend
    rw [List.length_append, hrefines.count]
    exact happend
  simp only [hneg, if_false, Int.toNat_natCast]
  by_cases hshort : (t.router.arriving ++ bytes).length < plat.packetSize
  · rw [hcount, if_pos hshort, if_pos hshort]
    refine ⟨hcount, hshort, hcollected, ?_⟩
    cases hw : t.router.waiting with
    | none =>
      have hholds := hrefines.holds
      rw [hw] at hholds
      exact hholds
    | some p =>
      -- Only a read of no byte is possible here.
      have hnil : bytes = [] := by
        by_contra hne
        rw [hidle hne] at hw
        cases hw
      subst hnil
      have hholds := hrefines.holds
      rw [hw] at hholds
      obtain ⟨hin, hout, hzero, hblock⟩ := hholds
      refine ⟨hin, hout, ?_, ?_⟩
      · show t.dev.inputBytes + UInt8.ofNat 0 = 0
        rw [hzero]
        rfl
      · show block (blit t.dev.ipipeBuffer t.dev.inputBytes.toNat []) 0 plat.packetSize = p
        rw [← hblock]
        exact block_blit_frame _ (Or.inr (by rw [hzero]; exact Nat.le_refl 0))
  · rw [hcount, if_neg hshort, if_neg hshort]
    have hsize : (t.router.arriving ++ bytes).length = plat.packetSize := by
      rw [List.length_append] at hshort ⊢
      have := hrefines.count
      omega
    have hne : bytes ≠ [] := by
      rintro rfl
      rw [List.append_nil] at hshort
      exact hshort hrefines.incomplete
    have hholds := hrefines.holds
    rw [hidle hne] at hholds
    obtain ⟨-, hout⟩ := hholds
    rw [hsize] at hcollected
    have hpos : 0 < plat.packetSize := by have := hrefines.incomplete; omega
    refine ⟨rfl, hpos, rfl, ?_⟩
    rw [hcollected]
    by_cases hfilter : RbMaster.filtered plat (t.router.arriving ++ bytes) = true
    · simp only [Holds, hfilter, if_true]
      exact ⟨trivial, trivial, trivial, hcollected⟩
    · simp only [Holds, hfilter]
      exact ⟨trivial, hout, trivial, hcollected⟩

/-- Consuming the packet leaves nothing waiting. -/
theorem consumed_refines (hrefines : Refines plat t) {dev : RbMaster}
    (hin : dev.packetInIpipeBuffer = 0) (hout : dev.filterOutPacket = 0)
    (hbytes : dev.inputBytes = t.dev.inputBytes) (hbuffer : dev.ipipeBuffer = t.dev.ipipeBuffer) :
    Refines plat ⟨dev, { t.router with waiting := none }⟩ := by
  refine ⟨?_, hrefines.incomplete, ?_, hin, hout⟩
  · rw [hbytes]
    exact hrefines.count
  · rw [hbuffer]
    exact hrefines.collected

/-- The beacon does what the router does. -/
theorem beacon_routed (hrefines : Refines plat t) :
    StepRouted plat t .beacon ∧ Refines plat (t.step plat .beacon) := by
  have hholds := hrefines.holds
  unfold StepRouted step call Router.step RbMaster.rbMasterDoBeacon
  cases hw : t.router.waiting with
  | none =>
    rw [hw] at hholds
    have hempty : ¬ (t.dev.packetInIpipeBuffer ≠ 0 ∧ t.dev.filterOutPacket = 0) := by
      simp [hholds.1]
    simp only [if_neg hempty]
    exact ⟨trivial, hrefines⟩
  | some p =>
    rw [hw] at hholds
    obtain ⟨hin, hout, -, hblock⟩ := hholds
    by_cases hfilter : RbMaster.filtered plat p = true
    · rw [if_pos hfilter] at hout
      have hkept : ¬ (t.dev.packetInIpipeBuffer ≠ 0 ∧ t.dev.filterOutPacket = 0) := by
        simp [hout]
      simp only [if_neg hkept, if_pos hfilter]
      exact ⟨trivial, hrefines⟩
    · rw [if_neg hfilter] at hout
      have hgone : t.dev.packetInIpipeBuffer ≠ 0 ∧ t.dev.filterOutPacket = 0 := by
        rw [hin, hout]
        decide
      simp only [if_pos hgone, if_neg hfilter, hblock]
      exact ⟨trivial, consumed_refines hrefines rfl hout rfl rfl⟩

/-- So does a read of a packet the private structure happens to hold. -/
theorem read_routed (hrefines : Refines plat t) {len : Int} (hmeets : Meets plat t (.read len)) :
    StepRouted plat t (.read len) ∧ Refines plat (t.step plat (.read len)) := by
  have hholds := hrefines.holds
  unfold StepRouted step call Router.step RbMaster.rbMasterRead
  cases hw : t.router.waiting with
  | none =>
    rw [hw] at hholds
    have hempty : ¬ (t.dev.packetInIpipeBuffer ≠ 0 ∧ t.dev.filterOutPacket ≠ 0) := by
      simp [hholds.1]
    simp only [if_pos hempty]
    exact ⟨trivial, hrefines⟩
  | some p =>
    rw [hw] at hholds
    obtain ⟨hin, hout, -, hblock⟩ := hholds
    by_cases hfilter : RbMaster.filtered plat p = true
    · rw [if_pos hfilter] at hout
      have hboth : t.dev.packetInIpipeBuffer ≠ 0 ∧ t.dev.filterOutPacket ≠ 0 := by
        rw [hin, hout]
        decide
      simp only [if_neg (not_not_intro hboth), if_pos hfilter]
      by_cases hpos : min len plat.packetSize ≤ 0
      · simp only [if_pos hpos]
        exact ⟨trivial, hrefines⟩
      · simp only [if_neg hpos]
        refine ⟨?_, consumed_refines hrefines rfl rfl rfl rfl⟩
        have hle : (min len plat.packetSize).toNat ≤ plat.packetSize := by omega
        rw [hmeets hboth.1 hboth.2, ← hblock, block_take _ _ hle]
    · rw [if_neg hfilter] at hout
      have hkept : ¬ (t.dev.packetInIpipeBuffer ≠ 0 ∧ t.dev.filterOutPacket ≠ 0) := by
        simp [hout]
      simp only [if_pos hkept, if_neg hfilter]
      exact ⟨trivial, hrefines⟩

/-- **One call.** What it lets out is what the router lets out, and afterwards
the driver holds again what the router does. -/
theorem step_refines (hrefines : Refines plat t) {op : MasterOp}
    (hstep : Valid plat t op ∧ Meets plat t op) :
    StepRouted plat t op ∧ Refines plat (t.step plat op) := by
  cases op with
  | ready stat bytes =>
    refine ⟨?_, ready_refines hrefines hstep.1 hstep.2⟩
    unfold StepRouted call Router.step
    simp only [apply_ite Prod.fst, ite_self]
  | beacon => exact beacon_routed hrefines
  | read len => exact read_routed hrefines hstep.2

theorem start_refines {found : RbMaster} (hsize : 1 ≤ plat.packetSize)
    (hin : found.packetInIpipeBuffer = 0) (hout : found.filterOutPacket = 0)
    (hbytes : found.inputBytes = 0) : Refines plat (start found) := by
  refine ⟨?_, hsize, rfl, hin, hout⟩
  show found.inputBytes.toNat = 0
  rw [hbytes]
  rfl

end MasterRun

open MasterRun

/-- **Routing.** In memory that was clear where `rb_master_open` leaves it alone,
the driver does what the router does in every run that keeps its counter below
256 and reads no packet other than the one the private structure spells. -/
theorem master_routes {plat : MasterPlatform} (hsize : 1 ≤ plat.packetSize) {found : RbMaster}
    (hin : found.packetInIpipeBuffer = 0) (hout : found.filterOutPacket = 0)
    (hbytes : found.inputBytes = 0) {ops : List MasterOp}
    (hrun : EachStep (MasterRun.step plat) (fun t op => Valid plat t op ∧ Meets plat t op)
      (start found) ops) :
    EachStep (MasterRun.step plat) (StepRouted plat) (start found) ops :=
  EachStep.mono (fun (t : MasterRun) _ (h : Refines plat t) hop => (step_refines h hop).2)
    (fun _ _ h hop => (step_refines h hop).1) (start_refines hsize hin hout hbytes) hrun

/-- Memory of a 32 bit little endian machine: `input_pipe` and `output_pipe` at
0x20001000 and 0x20001040, the three bytes, and zeroes. -/
def smallPriv (s : RbMaster) : Nat → UInt8
  | 1 => 0x10
  | 3 => 0x20
  | 4 => 0x40
  | 5 => 0x10
  | 7 => 0x20
  | 8 => s.packetInIpipeBuffer
  | 9 => s.filterOutPacket
  | 10 => s.inputBytes
  | _ => 0

def clearMemory : RbMaster := ⟨0, 0, 0, fun _ => 0⟩

instance MasterRun.decidableValid {plat : MasterPlatform} {t : MasterRun} :
    ∀ op, Decidable (t.Valid plat op)
  | .ready _ _ => inferInstanceAs (Decidable (_ → _))
  | .beacon => inferInstanceAs (Decidable True)
  | .read _ => inferInstanceAs (Decidable True)

instance MasterRun.decidableMeets {plat : MasterPlatform} {t : MasterRun} :
    ∀ op, Decidable (t.Meets plat op)
  | .ready _ _ => inferInstanceAs (Decidable (_ → _))
  | .beacon => inferInstanceAs (Decidable True)
  | .read _ => inferInstanceAs (Decidable (_ → _ → _))

-- A packet in two parts for the radio, and one of zeroes for the local pipe, of
-- which a single byte is asked for: the structure starts with one, too.
theorem master_routes_both :
    EachStep (MasterRun.step ⟨2, some (· == [0, 0]), smallPriv⟩)
      (StepRouted ⟨2, some (· == [0, 0]), smallPriv⟩) (start clearMemory)
      [.ready 1 [7], .beacon, .ready (-11) [], .ready 1 [8], .read 2, .beacon, .beacon,
        .ready 2 [0, 0], .beacon, .read 1, .read 1] :=
  master_routes (by decide) rfl rfl rfl (by decide +kernel)

/-- A packet for the local pipe comes out as the low byte of a pointer. -/
theorem local_packet_not_read :
    ¬ ∀ (plat : MasterPlatform) (found : RbMaster) (ops : List MasterOp), 1 ≤ plat.packetSize →
      EachStep (MasterRun.step plat) (Valid plat) (start found) ops →
        EachStep (MasterRun.step plat) (StepRouted plat) (start found) ops := by
  intro hall
  obtain ⟨-, hread, -⟩ := hall ⟨1, some fun _ => true, smallPriv⟩ clearMemory
    [.ready 1 [0x55], .read 1] (by decide) (by decide +kernel)
  unfold StepRouted at hread
  exact absurd hread (by decide +kernel)

end Bathos.Radio
