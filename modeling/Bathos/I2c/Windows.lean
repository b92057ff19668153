import Bathos.I2c.Engine
import Bathos.Lib.Fifo

/-!
# Bathos — the host windows as bounded FIFOs

Each window taken on its own, between the host and the controller: of the output
window the host writes the head and the controller removes the byte at
`obuf_tail` that it sends; of the input window the controller inserts a received
byte at `ibuf_head` and the host reads the tail.

Main results:

* `outStep_refines`, `inStep_refines` — one access, from any pair of indexes, is
  the request `fifo 127` of the window's contents;
* `windows_fifo` — every sequence of accesses, by `runAnswers_refines`.
-/

namespace Bathos.I2c

open Bathos.Lib

namespace I2cData

variable {w : Nat} {s : I2cData}

-- ---------------------------------------------------------------------------
-- Accesses
-- ---------------------------------------------------------------------------

/-- The accesses to the output window. -/
inductive OutOp where
  | write (inp : Vector UInt8 8) (fill : Bool)
  | remove

/-- The accesses to the input window. -/
inductive InOp where
  | insert (c : UInt8)
  | read (fill : Bool)

/-- What an access to the output window answers, `none` for `-EINVAL`, and the
data it leaves. -/
def outStep (w : Nat) (s : I2cData) : OutOp → Option (List UInt8) × I2cData
  | .write inp fill =>
    let (ret, s') := s.obufWrb w inp fill
    (if ret = -EINVAL then none else some [], s')
  | .remove => (some [s.buffer s.obufTail], { s with obufTail := mask (s.obufTail + 1) })

@[inherit_doc outStep]
def inStep (s : I2cData) : InOp → Option (List UInt8) × I2cData
  | .insert c => (some [],
      { s with buffer := blit s.buffer s.ibufHead [c], ibufHead := mask (s.ibufHead + 1) })
  | .read fill =>
    let (ret, out, s') := s.ibufRdb fill
    (if ret = -EINVAL then none else some out, s')

/-- The request an access stands for. -/
def OutOp.request : OutOp → FifoOp UInt8
  | .write inp fill => .put (offered inp fill)
  | .remove => .get 1

@[inherit_doc OutOp.request]
def InOp.request : InOp → FifoOp UInt8
  | .insert c => .put [c]
  | .read fill => .get (accessSize fill)

/-- A byte is removed only where there is one. -/
def OutOp.Possible (s : I2cData) : OutOp → Prop
  | .write _ _ => True
  | .remove => s.obufTail ≠ s.obufHead

/-- A byte is inserted only where there is room. -/
def InOp.Possible (s : I2cData) : InOp → Prop
  | .insert _ => s.ibufSpace ≠ 0
  | .read _ => True

instance (s : I2cData) : DecidablePred (OutOp.Possible s)
  | .write _ _ => inferInstanceAs (Decidable True)
  | .remove => inferInstanceAs (Decidable (_ ≠ _))

-- ---------------------------------------------------------------------------
-- One access
-- ---------------------------------------------------------------------------

theorem resumeOutput_obuf : (s.resumeOutput w).obuf = s.obuf := by
  rcases resumeOutput_cases w s with h | ⟨-, -, h⟩
  · rw [h]
  · rw [h]
    rfl

theorem resumeInput_ibuf : s.resumeInput.ibuf = s.ibuf := by
  rcases resumeInput_cases s with h | ⟨-, h⟩
  · rw [h]
  · rw [h]
    rfl

/-- An accepted read returns a count. -/
theorem ibufRdb_nonneg {fill : Bool} (h : accessSize fill ≤ s.ibufCnt) : 0 ≤ (s.ibufRdb fill).1 := by
  unfold ibufRdb
  simp only [if_neg (Nat.not_lt.mpr h)]
  exact Int.natCast_nonneg _

theorem ne_neg_EINVAL {ret : Int} (h : 0 ≤ ret) : ret ≠ -EINVAL := by
  unfold EINVAL
  omega

theorem outStep_write_refused {inp : Vector UInt8 8} {fill : Bool}
    (h : s.obufSpace < accessSize fill) : s.outStep w (.write inp fill) = (none, s) := by
  show (if (s.obufWrb w inp fill).1 = -EINVAL then none else some [], (s.obufWrb w inp fill).2) = _
  rw [obufWrb_refused h, if_pos rfl]

theorem outStep_write (inp : Vector UInt8 8) {fill : Bool} (h : accessSize fill ≤ s.obufSpace) :
    s.outStep w (.write inp fill) = (some [], (s.putOutput (offered inp fill)).resumeOutput w) := by
  have hret : 0 ≤ (s.obufWrb w inp fill).1 :=
    Int.not_lt.mp fun hneg => absurd (obufWrb_neg_iff.mp hneg) (Nat.not_lt.mpr h)
  show (if (s.obufWrb w inp fill).1 = -EINVAL then none else some [], (s.obufWrb w inp fill).2) = _
  rw [if_neg (ne_neg_EINVAL hret), obufWrb_accepted inp h]

theorem inStep_read_refused {fill : Bool} (h : s.ibufCnt < accessSize fill) :
    s.inStep (.read fill) = (none, s) := by
  show (if (s.ibufRdb fill).1 = -EINVAL then none else some (s.ibufRdb fill).2.1,
    (s.ibufRdb fill).2.2) = _
  rw [ibufRdb_refused h, if_pos rfl]

theorem inStep_read {fill : Bool} (h : accessSize fill ≤ s.ibufCnt) :
    s.inStep (.read fill) = (some (s.ibuf.take (accessSize fill)),
      { s with ibufTail := mask (s.ibufTail + accessSize fill) }.resumeInput) := by
  show (if (s.ibufRdb fill).1 = -EINVAL then none else some (s.ibufRdb fill).2.1,
    (s.ibufRdb fill).2.2) = _
  rw [if_neg (ne_neg_EINVAL (ibufRdb_nonneg h)), ibufRdb_accepted h]

theorem write_refines (inp : Vector UInt8 8) (fill : Bool) :
    ((s.outStep w (.write inp fill)).1, (s.outStep w (.write inp fill)).2.obuf) =
      fifo 127 s.obuf (.put (offered inp fill)) := by
  have hspace := s.obufSpace_eq
  have hcnt := s.obufCnt_le
  rcases Nat.lt_or_ge s.obufSpace (accessSize fill) with hfull | hfits
  · rw [fifo_put_refused (by rw [offered_length, obuf_length]; omega), outStep_write_refused hfull]
  · rw [fifo_put (by rw [offered_length, obuf_length]; omega), outStep_write inp hfits]
    rw [resumeOutput_obuf, putOutput_obuf (by rwa [offered_length])]

theorem remove_refines (h : s.obufTail ≠ s.obufHead) :
    ((s.outStep w .remove).1, (s.outStep w .remove).2.obuf) = fifo 127 s.obuf (.get 1) := by
  have hwin : s.obuf = s.buffer s.obufTail :: window s.buffer s.obufHead (mask (s.obufTail + 1)) :=
    window_cons h
  rw [fifo_get (by rw [hwin]; simp), hwin]
  rfl

theorem insert_refines (c : UInt8) (h : s.ibufSpace ≠ 0) :
    ((s.inStep (.insert c)).1, (s.inStep (.insert c)).2.ibuf) = fifo 127 s.ibuf (.put [c]) := by
  have hspace := s.ibufSpace_eq
  have hpush : window (blit s.buffer s.ibufHead [c]) (mask (s.ibufHead + 1)) s.ibufTail =
      s.ibuf ++ [c] := window_push_one (Nat.one_le_iff_ne_zero.mpr h)
  rw [fifo_put (by rw [ibuf_length, List.length_singleton]; omega), ← hpush]
  rfl

theorem read_refines (fill : Bool) :
    ((s.inStep (.read fill)).1, (s.inStep (.read fill)).2.ibuf) =
      fifo 127 s.ibuf (.get (accessSize fill)) := by
  rcases Nat.lt_or_ge s.ibufCnt (accessSize fill) with hfew | hthere
  · rw [fifo_get_refused (by rwa [ibuf_length]), inStep_read_refused hfew]
  · rw [fifo_get (by rwa [ibuf_length]), inStep_read hthere, resumeInput_ibuf]
    exact congrArg _ (window_pop hthere)

theorem outStep_refines (op : OutOp) (h : op.Possible s) :
    ((s.outStep w op).1, (s.outStep w op).2.obuf) = fifo 127 s.obuf op.request := by
  cases op with
  | write inp fill => exact write_refines inp fill
  | remove => exact remove_refines h

theorem inStep_refines (op : InOp) (h : op.Possible s) :
    ((s.inStep op).1, (s.inStep op).2.ibuf) = fifo 127 s.ibuf op.request := by
  cases op with
  | insert c => exact insert_refines c h
  | read fill => exact read_refines fill

/-- A refused access changes nothing at all. -/
theorem outStep_refused {op : OutOp} (h : (s.outStep w op).1 = none) : (s.outStep w op).2 = s := by
  cases op with
  | remove => cases h
  | write inp fill =>
    rcases Nat.lt_or_ge s.obufSpace (accessSize fill) with hfull | hfits
    · rw [outStep_write_refused hfull]
    · rw [outStep_write inp hfits] at h
      cases h

@[inherit_doc outStep_refused]
theorem inStep_refused {op : InOp} (h : (s.inStep op).1 = none) : (s.inStep op).2 = s := by
  cases op with
  | insert c => cases h
  | read fill =>
    rcases Nat.lt_or_ge s.ibufCnt (accessSize fill) with hfew | hthere
    · rw [inStep_read_refused hfew]
    · rw [inStep_read hthere] at h
      cases h

-- ---------------------------------------------------------------------------
-- Sequences of accesses
-- ---------------------------------------------------------------------------

/-- **Windows.** From any indexes, every sequence of accesses to a window gets the
answers of a FIFO of capacity 127 and leaves its contents; a refused access
changes nothing. -/
theorem windows_fifo (w : Nat) (s : I2cData) :
    (∀ ops : List OutOp,
        EachStep (fun s op => (outStep w s op).2) (fun s op => op.Possible s) s ops →
          ((runAnswers (outStep w) s ops).1, (runAnswers (outStep w) s ops).2.obuf) =
            runAnswers (fifo 127) s.obuf (ops.map OutOp.request)) ∧
      (∀ ops : List InOp,
        EachStep (fun s op => (inStep s op).2) (fun s op => op.Possible s) s ops →
          ((runAnswers inStep s ops).1, (runAnswers inStep s ops).2.ibuf) =
            runAnswers (fifo 127) s.ibuf (ops.map InOp.request)) ∧
      (∀ op, (s.outStep w op).1 = none → (s.outStep w op).2 = s) ∧
      (∀ op, (s.inStep op).1 = none → (s.inStep op).2 = s) :=
  ⟨fun _ hrun => runAnswers_refines (fun (_ : I2cData) op h => outStep_refines op h) hrun,
    fun _ hrun => runAnswers_refines (fun (_ : I2cData) op h => inStep_refines op h) hrun,
    fun _ h => outStep_refused h, fun _ h => inStep_refused h⟩

/-- Eight bytes written across the end of the buffer, and two of them sent. -/
theorem windows_fifo_wrap :
    ((runAnswers (outStep 32) { I2cData.init with obufHead := 125, obufTail := 125 }
        [.write #v[1, 2, 3, 4, 5, 6, 7, 8] true, .remove, .remove]).1,
      (runAnswers (outStep 32) { I2cData.init with obufHead := 125, obufTail := 125 }
        [.write #v[1, 2, 3, 4, 5, 6, 7, 8] true, .remove, .remove]).2.obuf) =
      ([some [], some [1], some [2]], [3, 4, 5, 6, 7, 8]) :=
  (windows_fifo 32 { I2cData.init with obufHead := 125, obufTail := 125 }).1
    [.write #v[1, 2, 3, 4, 5, 6, 7, 8] true, .remove, .remove] (by decide +kernel)

/-- What leaves the output window is what it held and what it accepted, in that
order, up to what is left in it. -/
theorem output_conservation {ops : List OutOp}
    (h : EachStep (fun s op => (outStep w s op).2) (fun s op => op.Possible s) s ops) :
    s.obuf ++ (List.zipWith FifoOp.added (ops.map OutOp.request)
        (runAnswers (outStep w) s ops).1).flatten =
      ((runAnswers (outStep w) s ops).1.map fun a => a.getD []).flatten ++
        (runAnswers (outStep w) s ops).2.obuf := by
  have hrun := runAnswers_refines (fun (_ : I2cData) op h => outStep_refines (w := w) op h) h
  have hcons := fifo_conservation 127 s.obuf (ops.map OutOp.request)
  rw [← hrun] at hcons
  exact hcons

end I2cData

end Bathos.I2c
