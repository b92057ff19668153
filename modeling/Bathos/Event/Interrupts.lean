import Bathos.Include.Bitops
import Bathos.Include.Headers
import Bathos.Lib.Run

/-!
# Bathos — interrupt events

`lib/event.c`: `trigger_interrupt_event`, called from interrupt context, and
`handle_interrupt_events`, which serves the pending bits from the main loop. The
loop is cut where interrupts matter: reading a word, running the handlers,
clearing the bit, unmasking the line; an interrupt can arrive between any two of
these.

The loop goes by words, and takes the entry of the event table for a bit from
the word's own entry, `&interrupt_events_start[k] + irq`, where `irq` already
counts from the first word. From the second word on the handlers run are those
of a later interrupt, `k` entries on.

Main result: `interrupts_served_iff`.
-/

namespace Bathos.Event

open Bathos.Lib

variable {w : Nat}

-- ---------------------------------------------------------------------------
-- event.c
-- ---------------------------------------------------------------------------

/-- `BITS_TO_LONGS(nr)`. -/
def bitsToLongs (w nr : Nat) : Nat := (nr + w - 1) / w

/-- A handler of an interrupt event: whether its high-level operation is one of
the default ones. -/
structure IrqHandler where
  hasDefaultHlHandler : Bool
deriving DecidableEq, Repr

/-- `CONFIG_NR_INTERRUPTS`, and the handlers of `interrupt_events_start[n]`. -/
structure IrqConfig where
  nrInterrupts : Nat
  handlers : Nat → List IrqHandler

/-- `has_hl_handler` after the low-level handlers of event `n` have run. -/
def IrqConfig.hasHlHandler (cfg : IrqConfig) (n : Nat) : Bool :=
  (cfg.handlers n).any fun d => !d.hasDefaultHlHandler

/-- Where `handle_interrupt_events` is. `w0` is its variable `w`, `i` the bit it
found in the word. -/
inductive Pc where
  | read (w0 : Nat)
  | run (w0 i : Nat)
  | clear (w0 i : Nat)
  | unmask (w0 i : Nat)
  | done
deriving DecidableEq, Repr

/-- The loop variable `w`, while there is one. -/
def Pc.word? : Pc → Option Nat
  | .read w0 | .run w0 _ | .clear w0 _ | .unmask w0 _ => some w0
  | .done => none

/-- The loop variable `w` where the handlers are about to be run, else zero. -/
def Pc.runWord : Pc → Nat
  | .run w0 _ => w0
  | _ => 0

/-- `ie_pending_flags` and the position of the loop. The history has the bits set
while they were clear, the entries of the event table whose high-level handlers
were run, the bits cleared, and the lines unmasked. -/
structure IrqState (w : Nat) where
  flags : List (BitVec w)
  pc : Pc
  sets : List Nat
  ran : List Nat
  cleared : List Nat
  unmasked : List Nat

namespace IrqState

/-- `trigger_interrupt_event(evno)`. -/
def triggerInterruptEvent (cfg : IrqConfig) (evno : Nat) (s : IrqState w) : IrqState w :=
  if evno ≥ cfg.nrInterrupts then s
  else if !cfg.hasHlHandler evno then s
  else
    { s with
      flags := setBit evno s.flags
      sets := if bitSet s.flags evno then s.sets else s.sets ++ [evno] }

/-- The head of the `for` loop. -/
def enter (cfg : IrqConfig) (w0 : Nat) : Pc := if w0 < cfg.nrInterrupts then .read w0 else .done

/-- One piece of `handle_interrupt_events`. -/
def loop (cfg : IrqConfig) (s : IrqState w) : IrqState w :=
  match s.pc with
  | .read w0 =>
    let k := bitsToLongs w w0
    let i := ffs w (s.flags.getD k 0).toNat
    if i = 0 then { s with pc := enter cfg (w0 + w) } else { s with pc := .run w0 (i - 1) }
  | .run w0 i =>
    let k := bitsToLongs w w0
    let irq := i + w0
    -- `__handle_event(e + irq, ...)` with `e = &interrupt_events_start[k]`
    { s with ran := s.ran ++ [k + irq], pc := .clear w0 i }
  | .clear w0 i =>
    let k := bitsToLongs w w0
    -- `clear_bit(i, l)` with `l = &ie_pending_flags[k]`
    { s with
      flags := s.flags.take k ++ clearBit i (s.flags.drop k)
      cleared := s.cleared ++ [w * k + i]
      pc := .unmask w0 i }
  | .unmask w0 i => { s with unmasked := s.unmasked ++ [i + w0], pc := .read w0 }
  | .done => s

/-- An interrupt arrives, or the loop moves on. -/
inductive Input where
  | arrive (evno : Nat)
  | loop
deriving DecidableEq, Repr

def step (cfg : IrqConfig) (s : IrqState w) : Input → IrqState w
  | .arrive evno => s.triggerInterruptEvent cfg evno
  | .loop => s.loop cfg

/-- `handle_interrupt_events` is called with these flags. -/
def call (cfg : IrqConfig) (flags : List (BitVec w)) : IrqState w where
  flags := flags
  pc := enter cfg 0
  sets := (List.range cfg.nrInterrupts).filter fun n => bitSet flags n
  ran := []
  cleared := []
  unmasked := []

-- ---------------------------------------------------------------------------
-- What serving an interrupt means
-- ---------------------------------------------------------------------------

/-- The history is that of a correct dispatch: each bit set is cleared once and no
other bit is; the handlers run are those of the bits cleared, one before it is
cleared; the lines unmasked are those too, one after it was cleared; and no index
leaves its table. -/
structure Dispatched (cfg : IrqConfig) (s : IrqState w) : Prop where
  bits : ∀ n, s.sets.count n = s.cleared.count n + if bitSet s.flags n then 1 else 0
  ran : s.ran = s.cleared ++ (match s.pc with | .clear w0 i => [i + w0] | _ => [])
  unmasked : s.cleared = s.unmasked ++ (match s.pc with | .unmask w0 i => [i + w0] | _ => [])
  ran_lt : ∀ n ∈ s.ran, n < cfg.nrInterrupts
  word_lt : ∀ w0, s.pc.word? = some w0 → bitsToLongs w w0 < s.flags.length

/-- After the inputs, and with no further interrupts, the loop comes to its end,
and leaves only bits pending that were set behind its back in words it had
finished. -/
def Terminates (cfg : IrqConfig) (s : IrqState w) : Prop :=
  ∃ n, ((loop cfg)^[n] s).pc = .done ∧ ∀ m, bitSet ((loop cfg)^[n] s).flags m = true →
    bitSet s.flags m = true ∧ ∀ w0, s.pc.word? = some w0 → m < w0

/-- The condition: the handlers are run for a bit of the first word. -/
def FirstWord (s : IrqState w) : Input → Prop
  | .loop => s.pc.runWord = 0
  | .arrive _ => True

-- ---------------------------------------------------------------------------
-- Words and bits
-- ---------------------------------------------------------------------------

theorem bitsToLongs_mul (hw : 0 < w) (k : Nat) : bitsToLongs w (w * k) = k := by
  unfold bitsToLongs
  have hsplit : w * k + w - 1 = (w - 1) + w * k := by omega
  rw [hsplit, Nat.add_mul_div_left _ _ hw, Nat.div_eq_of_lt (by omega), Nat.zero_add]

theorem lt_bitsToLongs (hw : 0 < w) {k nr : Nat} : k < bitsToLongs w nr ↔ w * k < nr := by
  unfold bitsToLongs
  rw [Nat.lt_iff_add_one_le, Nat.le_div_iff_mul_le hw, Nat.add_mul, Nat.mul_comm k w]
  omega

theorem div_mul_add {k i : Nat} (hi : i < w) : (w * k + i) / w = k ∧ (w * k + i) % w = i := by
  have hw : 0 < w := by omega
  refine ⟨?_, ?_⟩
  · rw [Nat.mul_add_div hw, Nat.div_eq_of_lt hi, Nat.add_zero]
  · rw [Nat.mul_add_mod, Nat.mod_eq_of_lt hi]

/-- Clearing bit `i` of the words from `k` on. -/
theorem clearBit_drop {flags : List (BitVec w)} {k i : Nat} (hi : i < w) (hk : k < flags.length) :
    flags.take k ++ clearBit i (flags.drop k) = clearBit (w * k + i) flags := by
  obtain ⟨hdiv, hmod⟩ := div_mul_add (k := k) hi
  have hdrop : flags.drop k = flags.getD k 0 :: flags.drop (k + 1) := by
    rw [List.drop_eq_getElem_cons hk]
    simp [hk]
  unfold clearBit
  rw [hdiv, hmod, Nat.div_eq_of_lt hi, Nat.mod_eq_of_lt hi, hdrop, List.set_cons_zero,
    List.getD_cons_zero, List.set_eq_take_append_cons_drop, if_pos hk]

theorem bitSet_word (flags : List (BitVec w)) {k i : Nat} (hi : i < w) :
    bitSet flags (w * k + i) = (flags.getD k 0).getLsbD i := by
  obtain ⟨hdiv, hmod⟩ := div_mul_add (k := k) hi
  unfold bitSet
  rw [hdiv, hmod]

/-- The bit `ffs` finds in a word. -/
theorem ffs_word (hw : IsWordSize w) (x : BitVec w) :
    (ffs w x.toNat = 0 ↔ x = 0) ∧
      (ffs w x.toNat ≠ 0 → ffs w x.toNat - 1 < w ∧ x.getLsbD (ffs w x.toNat - 1) = true) := by
  by_cases hx : x = 0
  · have hzero : ffs w x.toNat = 0 := by
      rw [hx]
      simp [ffs]
    exact ⟨iff_of_true hzero hx, fun h => absurd hzero h⟩
  · have hne : x.toNat ≠ 0 := fun h => hx (BitVec.eq_of_toNat_eq (by simpa using h))
    obtain ⟨hpos, hbit, -⟩ := ffs_lowest hw hne x.isLt
    have hbit' : x.getLsbD (ffs w x.toNat - 1) = true := hbit
    refine ⟨iff_of_false (by omega) hx, fun _ => ⟨?_, hbit'⟩⟩
    by_contra hge
    rw [BitVec.getLsbD_of_ge _ _ (by omega)] at hbit'
    cases hbit'

-- ---------------------------------------------------------------------------
-- Invariants
-- ---------------------------------------------------------------------------

/-- What holds whatever handlers are run: the loop is at the first bit of a word
inside the flags, the bit it works on is set, and only bits of real interrupts
are. -/
structure Shape (cfg : IrqConfig) (s : IrqState w) : Prop where
  length : s.flags.length = bitsToLongs w cfg.nrInterrupts
  pending_lt : ∀ n, bitSet s.flags n = true → n < cfg.nrInterrupts
  word : ∀ w0, s.pc.word? = some w0 → ∃ k, w0 = w * k ∧ w0 < cfg.nrInterrupts
  found : ∀ w0 i, s.pc = .run w0 i ∨ s.pc = .clear w0 i → i < w ∧ bitSet s.flags (w0 + i) = true

theorem Shape.word_lt {cfg : IrqConfig} {s : IrqState w} (h : Shape cfg s) (hw : 0 < w) {w0 : Nat}
    (hw0 : s.pc.word? = some w0) : bitsToLongs w w0 < s.flags.length := by
  obtain ⟨k, rfl, hlt⟩ := h.word w0 hw0
  rw [bitsToLongs_mul hw, h.length, lt_bitsToLongs hw]
  exact hlt

/-- An interrupt sets its own bit, if any. -/
theorem triggerInterruptEvent_cases (hw : 0 < w) {cfg : IrqConfig} {s : IrqState w}
    (h : Shape cfg s) (evno : Nat) :
    s.triggerInterruptEvent cfg evno = s ∨
      (evno < cfg.nrInterrupts ∧
        (∀ n, bitSet (s.triggerInterruptEvent cfg evno).flags n =
          (decide (n = evno) || bitSet s.flags n)) ∧
        s.triggerInterruptEvent cfg evno =
          { s with
            flags := setBit evno s.flags
            sets := if bitSet s.flags evno then s.sets else s.sets ++ [evno] }) := by
  unfold triggerInterruptEvent
  by_cases hlt : evno ≥ cfg.nrInterrupts
  · exact Or.inl (if_pos hlt)
  cases hhl : cfg.hasHlHandler evno with
  | false => exact Or.inl (by simp)
  | true =>
    have hword : evno / w < s.flags.length := by
      rw [h.length, lt_bitsToLongs hw]
      exact (Nat.mul_div_le evno w).trans_lt (not_le.mp hlt)
    refine Or.inr ⟨not_le.mp hlt, fun n => ?_, ?_⟩
    · rw [if_neg hlt]
      exact bitSet_setBit hw hword n
    · rw [if_neg hlt]
      rfl

/-- The bit the loop clears is the one it found. -/
theorem Shape.clear {cfg : IrqConfig} {s : IrqState w} (h : Shape cfg s) (hw : 0 < w) {w0 i : Nat}
    (hpc : s.pc = .clear w0 i) :
    w * bitsToLongs w w0 + i = w0 + i ∧
      (s.loop cfg).flags = clearBit (w0 + i) s.flags ∧
      ∀ n, bitSet (s.loop cfg).flags n = (!decide (n = w0 + i) && bitSet s.flags n) := by
  have hword : s.pc.word? = some w0 := by rw [hpc]; rfl
  obtain ⟨k, hk, hlt⟩ := h.word w0 hword
  obtain ⟨hi, -⟩ := h.found w0 i (Or.inr hpc)
  have hklt := h.word_lt hw hword
  have hlongs : bitsToLongs w w0 = k := by rw [hk, bitsToLongs_mul hw]
  have hflags : (s.loop cfg).flags = clearBit (w0 + i) s.flags := by
    unfold loop
    rw [hpc]
    simp only
    rw [clearBit_drop hi hklt, hlongs, ← hk]
  rw [hlongs] at hklt
  refine ⟨by rw [hlongs, ← hk], hflags, fun n => ?_⟩
  rw [hflags]
  refine bitSet_clearBit hw ?_ n
  rw [hk, (div_mul_add hi).1]
  exact hklt

theorem enter_shape {cfg : IrqConfig} {s : IrqState w} (h : Shape cfg s) {k : Nat} :
    Shape cfg { s with pc := enter cfg (w * k) } := by
  unfold enter
  by_cases hlt : w * k < cfg.nrInterrupts
  · rw [if_pos hlt]
    refine ⟨h.length, h.pending_lt, fun w0 hw0 => ?_, fun w0 i hpc => ?_⟩
    · cases hw0
      exact ⟨k, rfl, hlt⟩
    · rcases hpc with hpc | hpc <;> cases hpc
  · rw [if_neg hlt]
    refine ⟨h.length, h.pending_lt, fun w0 hw0 => ?_, fun w0 i hpc => ?_⟩
    · cases hw0
    · rcases hpc with hpc | hpc <;> cases hpc

theorem arrive_shape (hw : 0 < w) {cfg : IrqConfig} {s : IrqState w} (h : Shape cfg s) (evno : Nat) :
    Shape cfg (s.triggerInterruptEvent cfg evno) := by
  obtain heq | ⟨hlt, hbits, heq⟩ := triggerInterruptEvent_cases hw h evno
  · rw [heq]
    exact h
  · have hpc : (s.triggerInterruptEvent cfg evno).pc = s.pc := by rw [heq]
    refine ⟨?_, fun n hn => ?_, ?_, fun w0 i hfound => ?_⟩
    · rw [heq]
      simp [h.length]
    · rw [hbits, Bool.or_eq_true, decide_eq_true_eq] at hn
      rcases hn with rfl | hn
      · exact hlt
      · exact h.pending_lt n hn
    · rw [hpc]
      exact h.word
    · rw [hpc] at hfound
      obtain ⟨hi, hbit⟩ := h.found w0 i hfound
      refine ⟨hi, ?_⟩
      rw [hbits, hbit, Bool.or_true]

theorem loop_shape (hw : IsWordSize w) {cfg : IrqConfig} {s : IrqState w} (h : Shape cfg s) :
    Shape cfg (s.loop cfg) := by
  cases hpc : s.pc with
  | read w0 =>
    obtain ⟨k, hk, hlt⟩ := h.word w0 (by rw [hpc]; rfl)
    have hlongs : bitsToLongs w w0 = k := by rw [hk, bitsToLongs_mul hw.pos]
    obtain ⟨-, hfound⟩ := ffs_word hw (s.flags.getD k 0)
    unfold loop
    rw [hpc]
    simp only [hlongs]
    by_cases hzero : ffs w (s.flags.getD k 0).toNat = 0
    · rw [if_pos hzero, hk, ← Nat.mul_succ]
      exact enter_shape h
    · rw [if_neg hzero]
      obtain ⟨hi, hbit⟩ := hfound hzero
      refine ⟨h.length, h.pending_lt, fun w1 hw1 => ?_, fun w1 i hrun => ?_⟩
      · cases hw1
        exact ⟨k, hk, hlt⟩
      · rcases hrun with hrun | hrun
        · cases hrun
          refine ⟨hi, ?_⟩
          rw [hk, bitSet_word _ hi]
          exact hbit
        · cases hrun
  | run w0 i =>
    have hword := h.word w0 (by rw [hpc]; rfl)
    have hfound := h.found w0 i (Or.inl hpc)
    unfold loop
    rw [hpc]
    refine ⟨h.length, h.pending_lt, fun w1 hw1 => ?_, fun w1 j hclear => ?_⟩
    · cases hw1
      exact hword
    · rcases hclear with hclear | hclear
      · cases hclear
      · cases hclear
        exact hfound
  | clear w0 i =>
    have hword := h.word w0 (by rw [hpc]; rfl)
    obtain ⟨-, hflags, hbits⟩ := h.clear hw.pos hpc
    have hpc' : (s.loop cfg).pc = .unmask w0 i := by
      unfold loop
      rw [hpc]
    refine ⟨?_, fun n hn => ?_, fun w1 hw1 => ?_, fun w1 j hrun => ?_⟩
    · rw [hflags, clearBit_length, h.length]
    · rw [hbits, Bool.and_eq_true] at hn
      exact h.pending_lt n hn.2
    · rw [hpc'] at hw1
      cases hw1
      exact hword
    · rw [hpc'] at hrun
      rcases hrun with hrun | hrun <;> cases hrun
  | unmask w0 i =>
    have hword := h.word w0 (by rw [hpc]; rfl)
    unfold loop
    rw [hpc]
    refine ⟨h.length, h.pending_lt, fun w1 hw1 => ?_, fun w1 j hrun => ?_⟩
    · cases hw1
      exact hword
    · rcases hrun with hrun | hrun <;> cases hrun
  | done =>
    have hloop : s.loop cfg = s := by
      unfold loop
      rw [hpc]
    rw [hloop]
    exact h

theorem step_shape (hw : IsWordSize w) {cfg : IrqConfig} {s : IrqState w} (h : Shape cfg s)
    (input : Input) : Shape cfg (step cfg s input) := by
  cases input with
  | arrive evno => exact arrive_shape hw.pos h evno
  | loop => exact loop_shape hw h

-- ---------------------------------------------------------------------------
-- Dispatch
-- ---------------------------------------------------------------------------

theorem arrive_dispatched (hw : 0 < w) {cfg : IrqConfig} {s : IrqState w} (hs : Shape cfg s)
    (h : Dispatched cfg s) (evno : Nat) : Dispatched cfg (s.triggerInterruptEvent cfg evno) := by
  obtain heq | ⟨-, hbits, heq⟩ := triggerInterruptEvent_cases hw hs evno
  · rw [heq]
    exact h
  · refine ⟨fun n => ?_, ?_, ?_, ?_, ?_⟩
    · rw [hbits]
      have hcount := h.bits n
      rw [heq]
      simp only
      by_cases hn : n = evno
      · subst hn
        by_cases hset : bitSet s.flags n = true
        · rw [hset] at hcount
          simpa [hset] using hcount
        · rw [Bool.not_eq_true] at hset
          rw [hset] at hcount
          simp [hset] at hcount ⊢
          omega
      · by_cases hset : bitSet s.flags evno = true
        · simpa [hset, hn] using hcount
        · simpa [hset, hn, List.count_append, Ne.symm hn] using hcount
    · rw [heq]
      exact h.ran
    · rw [heq]
      exact h.unmasked
    · rw [heq]
      exact h.ran_lt
    · rw [heq]
      intro w0 hw0
      simp only [setBit_length]
      exact h.word_lt w0 hw0

theorem loop_word_lt (hw : IsWordSize w) {cfg : IrqConfig} {s : IrqState w} (hs : Shape cfg s) :
    ∀ w0, (s.loop cfg).pc.word? = some w0 → bitsToLongs w w0 < (s.loop cfg).flags.length :=
  fun _ hw0 => (loop_shape hw hs).word_lt hw.pos hw0

section LoopDispatched

variable {cfg : IrqConfig} {s : IrqState w} (hw : IsWordSize w) (hs : Shape cfg s)
  (h : Dispatched cfg s)

include hw hs h

/-- A handler of the first word is run. -/
theorem loop_dispatched_run {i : Nat} (hpc : s.pc = .run 0 i) : Dispatched cfg (s.loop cfg) := by
  have hword := loop_word_lt hw hs
  have hran := h.ran
  have hunmasked := h.unmasked
  obtain ⟨-, hbit⟩ := hs.found 0 i (Or.inl hpc)
  rw [hpc] at hran hunmasked
  have hlongs : bitsToLongs w 0 = 0 := by simpa using bitsToLongs_mul hw.pos 0
  unfold loop at hword ⊢
  rw [hpc] at hword ⊢
  rw [List.append_nil] at hran
  refine ⟨h.bits, ?_, hunmasked, fun n hn => ?_, hword⟩
  · simp only [hlongs, hran, Nat.zero_add]
  · simp only [hlongs, List.mem_append, List.mem_singleton, Nat.zero_add, Nat.add_zero] at hn
    rcases hn with hn | rfl
    · exact h.ran_lt n hn
    · rw [Nat.zero_add] at hbit
      exact hs.pending_lt _ hbit

/-- The flag of the handler that has run is cleared. -/
theorem loop_dispatched_clear {w0 i : Nat} (hpc : s.pc = .clear w0 i) :
    Dispatched cfg (s.loop cfg) := by
  have hword := loop_word_lt hw hs
  have hran := h.ran
  have hunmasked := h.unmasked
  obtain ⟨hnum, -, hbits⟩ := hs.clear hw.pos hpc
  obtain ⟨-, hbit⟩ := hs.found w0 i (Or.inr hpc)
  have hnum' : w * bitsToLongs w w0 + i = i + w0 := by rw [hnum, Nat.add_comm]
  have hsets : (s.loop cfg).sets = s.sets := by unfold loop; rw [hpc]
  have hcleared : (s.loop cfg).cleared = s.cleared ++ [i + w0] := by
    unfold loop
    rw [hpc, ← hnum']
  rw [hpc] at hran hunmasked
  refine ⟨fun n => ?_, ?_, ?_, ?_, hword⟩
  · have hcount := h.bits n
    rw [hsets, hcleared, hbits, List.count_append, List.count_singleton]
    by_cases hn : n = w0 + i
    · subst hn
      rw [hbit] at hcount
      simpa [Nat.add_comm i w0] using hcount
    · have hn' : ¬ (i + w0 = n) := by omega
      simpa [hn, hn'] using hcount
  · rw [hcleared]
    unfold loop
    rw [hpc, List.append_nil]
    exact hran
  · rw [hcleared]
    unfold loop
    rw [hpc]
    rw [List.append_nil] at hunmasked
    simp only [hunmasked]
  · unfold loop
    rw [hpc]
    exact h.ran_lt

theorem loop_dispatched (hfirst : s.pc.runWord = 0) : Dispatched cfg (s.loop cfg) := by
  have hword := loop_word_lt hw hs
  have hran := h.ran
  have hunmasked := h.unmasked
  cases hpc : s.pc with
  | read w0 =>
    rw [hpc] at hran hunmasked
    unfold loop at hword ⊢
    rw [hpc] at hword ⊢
    simp only at hword ⊢
    split
    · rw [if_pos (by assumption)] at hword
      unfold enter at hword ⊢
      split
      · exact ⟨h.bits, hran, hunmasked, h.ran_lt, by simpa [*] using hword⟩
      · exact ⟨h.bits, hran, hunmasked, h.ran_lt, by simp [Pc.word?]⟩
    · rw [if_neg (by assumption)] at hword
      exact ⟨h.bits, hran, hunmasked, h.ran_lt, hword⟩
  | run w0 i =>
    obtain rfl : w0 = 0 := by
      rw [hpc] at hfirst
      exact hfirst
    exact loop_dispatched_run hw hs h hpc
  | clear w0 i => exact loop_dispatched_clear hw hs h hpc
  | unmask w0 i =>
    rw [hpc] at hran hunmasked
    unfold loop at hword ⊢
    rw [hpc] at hword ⊢
    refine ⟨h.bits, hran, ?_, h.ran_lt, hword⟩
    rw [List.append_nil]
    exact hunmasked
  | done =>
    have hloop : s.loop cfg = s := by
      unfold loop
      rw [hpc]
    rw [hloop]
    exact h

end LoopDispatched

/-- **One step.** Where the dispatch was correct so far, it stays correct exactly
if handlers are run for bits of the first word only. -/
theorem dispatched_iff (hw : IsWordSize w) {cfg : IrqConfig} {s : IrqState w} (hs : Shape cfg s)
    (h : Dispatched cfg s) (input : Input) :
    Dispatched cfg (step cfg s input) ↔ FirstWord s input := by
  cases input with
  | arrive evno => exact iff_of_true (arrive_dispatched hw.pos hs h evno) trivial
  | loop =>
    refine ⟨fun h' => ?_, fun hfirst => loop_dispatched hw hs h hfirst⟩
    unfold FirstWord
    cases hpc : s.pc with
    | run w0 i =>
      -- the entry run is `k` entries after that of the bit
      have hran := h.ran
      have hran' := h'.ran
      rw [hpc, List.append_nil] at hran
      obtain ⟨k, hk, -⟩ := hs.word w0 (by rw [hpc]; rfl)
      simp only [step, loop, hpc] at hran'
      rw [hran, List.append_cancel_left_eq, List.cons.injEq] at hran'
      have hlongs : bitsToLongs w w0 = k := by rw [hk, bitsToLongs_mul hw.pos]
      have hzero : k = 0 := by omega
      show w0 = 0
      rw [hk, hzero, Nat.mul_zero]
    | _ => rfl

-- ---------------------------------------------------------------------------
-- Termination
-- ---------------------------------------------------------------------------

/-- Clearing a bit that is set makes the word smaller. -/
theorem clear_lt {x : BitVec w} {i : Nat} (hi : i < w) (hbit : x.getLsbD i = true) :
    (x &&& ~~~(1#w <<< i)).toNat < x.toNat := by
  have hle : (x &&& ~~~(1#w <<< i)).toNat ≤ x.toNat := by
    rw [BitVec.toNat_and]
    exact Nat.and_le_left
  refine lt_of_le_of_ne hle fun heq => ?_
  have hsame : x &&& ~~~(1#w <<< i) = x := BitVec.eq_of_toNat_eq heq
  have hbit' : (x &&& ~~~(1#w <<< i)).getLsbD i = true := by rw [hsame, hbit]
  simp [hi] at hbit'

/-- The three pieces after a bit was found: it is cleared, and the word is read
again. -/
theorem loop_found (hw : 0 < w) {cfg : IrqConfig} {s : IrqState w} (h : Shape cfg s) {w0 i : Nat}
    (hpc : s.pc = .run w0 i) :
    ((loop cfg)^[3] s).pc = .read w0 ∧ ((loop cfg)^[3] s).flags = clearBit (w0 + i) s.flags := by
  obtain ⟨k, hk, -⟩ := h.word w0 (by rw [hpc]; rfl)
  obtain ⟨hi, -⟩ := h.found w0 i (Or.inl hpc)
  have hword : s.pc.word? = some w0 := by rw [hpc]; rfl
  have hklt := h.word_lt hw hword
  have hlongs : bitsToLongs w w0 = k := by rw [hk, bitsToLongs_mul hw]
  have hclear := clearBit_drop hi hklt
  rw [hlongs] at hclear
  simp only [Function.iterate_succ, Function.iterate_zero, Function.comp, id, loop, hpc, hlongs]
  refine ⟨trivial, ?_⟩
  rw [hclear, hk]

/-- The end of the loop is reached, with the bits from `w0` on cleared. -/
def ReachesEnd (cfg : IrqConfig) (s : IrqState w) (w0 : Nat) : Prop :=
  ∃ n, ((loop cfg)^[n] s).pc = .done ∧ ∀ m, bitSet ((loop cfg)^[n] s).flags m = true →
    bitSet s.flags m = true ∧ m < w0

/-- Going through a few pieces of the loop first. -/
theorem ReachesEnd.of_iterate {cfg : IrqConfig} {s : IrqState w} {n w0 : Nat}
    (h : ReachesEnd cfg ((loop cfg)^[n] s) w0)
    (hbits : ∀ m, bitSet ((loop cfg)^[n] s).flags m = true → bitSet s.flags m = true) :
    ReachesEnd cfg s w0 := by
  obtain ⟨n', hdone, hleft⟩ := h
  refine ⟨n' + n, ?_, fun m hm => ?_⟩
  · rw [Function.iterate_add_apply]
    exact hdone
  · rw [Function.iterate_add_apply] at hm
    exact ⟨hbits m (hleft m hm).1, (hleft m hm).2⟩

/-- The word is read until it is zero: by induction on the word, which gets
smaller with each bit cleared. -/
theorem reachesEnd_word (hw : IsWordSize w) {cfg : IrqConfig} {k : Nat}
    (hnext : ∀ s : IrqState w, Shape cfg s → s.pc = enter cfg (w * (k + 1)) →
      ReachesEnd cfg s (w * (k + 1))) :
    ∀ (x : Nat) (s : IrqState w), Shape cfg s → s.pc = .read (w * k) →
      (s.flags.getD k 0).toNat = x → ReachesEnd cfg s (w * k) := by
  intro x
  induction x using Nat.strong_induction_on with
  | _ x ih =>
    intro s hs hpc hx
    obtain ⟨hzero, hfound⟩ := ffs_word hw (s.flags.getD k 0)
    have hlongs : bitsToLongs w (w * k) = k := bitsToLongs_mul hw.pos k
    by_cases hempty : ffs w (s.flags.getD k 0).toNat = 0
    · -- nothing left in this word
      have hloop : s.loop cfg = { s with pc := enter cfg (w * (k + 1)) } := by
        simp only [loop, hpc, hlongs, hempty, if_true, Nat.mul_succ]
      have hend := hnext (s.loop cfg) (loop_shape hw hs) (by rw [hloop])
      obtain ⟨n, hdone, hleft⟩ := hend
      refine ⟨n + 1, hdone, fun m hm => ?_⟩
      obtain ⟨hset, hlt⟩ := hleft m hm
      rw [hloop] at hset
      refine ⟨hset, ?_⟩
      by_contra hge
      -- a bit of this word would still be set
      obtain ⟨i, rfl⟩ : ∃ i, m = w * k + i := ⟨m - w * k, by omega⟩
      rw [Nat.mul_succ] at hlt
      rw [bitSet_word _ (by omega), hzero.mp hempty] at hset
      simp at hset
    · obtain ⟨hi, hbit⟩ := hfound hempty
      obtain ⟨i, hi'⟩ : ∃ i, i = ffs w (s.flags.getD k 0).toNat - 1 := ⟨_, rfl⟩
      rw [← hi'] at hi hbit
      have hloop : s.loop cfg = { s with pc := .run (w * k) i } := by
        simp only [loop, hpc, hlongs, hempty, if_false, hi']
      have hs1 : Shape cfg (s.loop cfg) := loop_shape hw hs
      have hpc1 : (s.loop cfg).pc = .run (w * k) i := by rw [hloop]
      obtain ⟨hpc4, hflags4⟩ := loop_found hw.pos hs1 hpc1
      have hflags1 : (s.loop cfg).flags = s.flags := by rw [hloop]
      rw [hflags1] at hflags4
      have hs4 : Shape cfg ((loop cfg)^[4] s) :=
        loop_shape hw (loop_shape hw (loop_shape hw hs1))
      have hklt : k < s.flags.length := by
        have hword : s.pc.word? = some (w * k) := by rw [hpc]; rfl
        have hlt := hs.word_lt hw.pos hword
        rwa [hlongs] at hlt
      have hword : ((loop cfg)^[4] s).flags.getD k 0 =
          s.flags.getD k 0 &&& ~~~(1#w <<< i) := by
        show ((loop cfg)^[3] (s.loop cfg)).flags.getD k 0 = _
        obtain ⟨hdiv, hmod⟩ := div_mul_add (k := k) hi
        rw [hflags4, clearBit, hdiv, hmod, getD_set hklt, if_pos rfl]
      refine ReachesEnd.of_iterate (n := 4) ?_ fun m hm => ?_
      · refine ih _ ?_ _ hs4 hpc4 rfl
        rw [hword, ← hx]
        exact clear_lt hi hbit
      · rw [show (loop cfg)^[4] s = (loop cfg)^[3] (s.loop cfg) from rfl, hflags4,
          bitSet_clearBit hw.pos (by rw [(div_mul_add hi).1]; exact hklt),
          Bool.and_eq_true] at hm
        exact hm.2

/-- All words from `k` on: by induction on the words left. -/
theorem reachesEnd_enter (hw : IsWordSize w) {cfg : IrqConfig} :
    ∀ (r k : Nat), cfg.nrInterrupts ≤ w * (k + r) → ∀ s : IrqState w, Shape cfg s →
      s.pc = enter cfg (w * k) → ReachesEnd cfg s (w * k) := by
  intro r
  induction r with
  | zero =>
    intro k hend s hs hpc
    rw [Nat.add_zero] at hend
    unfold enter at hpc
    rw [if_neg (not_lt.mpr hend)] at hpc
    exact ⟨0, hpc, fun m hm => ⟨hm, (hs.pending_lt m hm).trans_le hend⟩⟩
  | succ r ih =>
    intro k hend s hs hpc
    unfold enter at hpc
    by_cases hlt : w * k < cfg.nrInterrupts
    · rw [if_pos hlt] at hpc
      have hend' : cfg.nrInterrupts ≤ w * (k + 1 + r) := by
        rwa [Nat.add_assoc, Nat.add_comm 1 r]
      exact reachesEnd_word hw (ih (k + 1) hend') _ s hs hpc rfl
    · rw [if_neg hlt] at hpc
      exact ⟨0, hpc, fun m hm => ⟨hm, (hs.pending_lt m hm).trans_le (not_lt.mp hlt)⟩⟩

theorem Shape.iterate (hw : IsWordSize w) {cfg : IrqConfig} {s : IrqState w} (h : Shape cfg s)
    (n : Nat) : Shape cfg ((loop cfg)^[n] s) := by
  induction n with
  | zero => exact h
  | succ n ih =>
    rw [Function.iterate_succ_apply']
    exact loop_shape hw ih

/-- **Termination**, from wherever the loop is. -/
theorem Shape.terminates (hw : IsWordSize w) {cfg : IrqConfig} {s : IrqState w} (h : Shape cfg s) :
    Terminates cfg s := by
  -- the pieces up to the next reading of the word
  have hread : ∀ w0, s.pc.word? = some w0 → ∃ n, ((loop cfg)^[n] s).pc = .read w0 ∧
      ∀ m, bitSet ((loop cfg)^[n] s).flags m = true → bitSet s.flags m = true := by
    intro w0 hw0
    cases hpc : s.pc with
    | read w1 =>
      rw [hpc] at hw0
      cases hw0
      exact ⟨0, hpc, fun m hm => hm⟩
    | run w1 i =>
      rw [hpc] at hw0
      cases hw0
      obtain ⟨hpc', hflags⟩ := loop_found hw.pos h hpc
      obtain ⟨hi, hbit⟩ := h.found _ i (Or.inl hpc)
      have hword : (w0 + i) / w < s.flags.length := by
        rw [h.length, lt_bitsToLongs hw.pos]
        exact (Nat.mul_div_le _ w).trans_lt (h.pending_lt _ hbit)
      refine ⟨3, hpc', fun m hm => ?_⟩
      rw [hflags, bitSet_clearBit hw.pos hword, Bool.and_eq_true] at hm
      exact hm.2
    | clear w1 i =>
      rw [hpc] at hw0
      cases hw0
      obtain ⟨-, -, hbits⟩ := h.clear hw.pos hpc
      have hflags : ((loop cfg)^[2] s).flags = (s.loop cfg).flags := by
        simp only [Function.iterate_succ, Function.iterate_zero, Function.comp, id, loop, hpc]
      refine ⟨2, ?_, fun m hm => ?_⟩
      · simp only [Function.iterate_succ, Function.iterate_zero, Function.comp, id, loop, hpc]
      · rw [hflags, hbits, Bool.and_eq_true] at hm
        exact hm.2
    | unmask w1 i =>
      rw [hpc] at hw0
      cases hw0
      refine ⟨1, ?_, fun m hm => ?_⟩
      · simp only [Function.iterate_one, loop, hpc]
      · simpa only [Function.iterate_one, loop, hpc] using hm
    | done =>
      rw [hpc] at hw0
      cases hw0
  cases hword : s.pc.word? with
  | none =>
    have hdone : s.pc = .done := by
      cases hpc : s.pc <;> rw [hpc] at hword <;> simp_all [Pc.word?]
    refine ⟨0, hdone, fun m hm => ⟨hm, fun w0 hw0 => ?_⟩⟩
    rw [hword] at hw0
    cases hw0
  | some w0 =>
    obtain ⟨n, hpc, hbits⟩ := hread w0 hword
    obtain ⟨k, rfl, -⟩ := h.word w0 hword
    have hs : Shape cfg ((loop cfg)^[n] s) := h.iterate hw n
    have hnext : cfg.nrInterrupts ≤ w * (k + 1 + cfg.nrInterrupts) :=
      (Nat.le_mul_of_pos_left _ hw.pos).trans (Nat.mul_le_mul_left w (by omega))
    obtain ⟨n', hdone, hleft⟩ := (reachesEnd_word hw (reachesEnd_enter hw _ (k + 1) hnext) _ _ hs hpc
      rfl).of_iterate hbits
    refine ⟨n', hdone, fun m hm => ⟨(hleft m hm).1, fun w0 hw0 => ?_⟩⟩
    rw [hword] at hw0
    cases hw0
    exact (hleft m hm).2

-- ---------------------------------------------------------------------------
-- Calls of handle_interrupt_events
-- ---------------------------------------------------------------------------

/-- A call with any interrupts arriving during it: the dispatch is correct after
every step, and the loop ends once no further interrupts arrive. -/
def Served (cfg : IrqConfig) (s : IrqState w) (inputs : List Input) : Prop :=
  EachStep (step cfg) (fun s input => Dispatched cfg (step cfg s input)) s inputs ∧
    Terminates cfg (runFrom (step cfg) s inputs)

theorem call_shape {cfg : IrqConfig} {flags : List (BitVec w)}
    (hlen : flags.length = bitsToLongs w cfg.nrInterrupts)
    (hflags : ∀ n, bitSet flags n = true → n < cfg.nrInterrupts) : Shape cfg (call cfg flags) := by
  have h : Shape cfg { call cfg flags with pc := .done } :=
    ⟨hlen, hflags, fun _ hw0 => (by cases hw0), fun _ _ hpc =>
      (by rcases hpc with hpc | hpc <;> cases hpc)⟩
  have hcall := enter_shape (k := 0) h
  rwa [Nat.mul_zero] at hcall

theorem call_dispatched (hw : 0 < w) {cfg : IrqConfig} {flags : List (BitVec w)}
    (hlen : flags.length = bitsToLongs w cfg.nrInterrupts)
    (hflags : ∀ n, bitSet flags n = true → n < cfg.nrInterrupts) :
    Dispatched cfg (call cfg flags) := by
  have hpc : (∀ w0 i, (call cfg flags).pc ≠ .clear w0 i) ∧
      ∀ w0 i, (call cfg flags).pc ≠ .unmask w0 i := by
    simp only [call, enter]
    split <;> simp
  refine ⟨fun n => ?_, ?_, ?_, fun n hn => (by cases hn), fun w0 hw0 =>
    (call_shape hlen hflags).word_lt hw hw0⟩
  · have hnodup : (call cfg flags).sets.Nodup := List.nodup_range.filter _
    rw [hnodup.count]
    have hmem : n ∈ (call cfg flags).sets ↔ bitSet flags n = true := by
      simp only [call, List.mem_filter, List.mem_range]
      exact ⟨fun h => h.2, fun h => ⟨hflags n h, h⟩⟩
    simp only [hmem]
    exact (Nat.zero_add _).symm
  · cases h : (call cfg flags).pc <;> simp_all [call]
  · cases h : (call cfg flags).pc <;> simp_all [call]

/-- **Interrupt events** are served as they should be in a call exactly when no
handler is run for a bit of the second or a later word. -/
theorem interrupts_served_iff (hw : IsWordSize w) {cfg : IrqConfig} {flags : List (BitVec w)}
    (hlen : flags.length = bitsToLongs w cfg.nrInterrupts)
    (hflags : ∀ n, bitSet flags n = true → n < cfg.nrInterrupts) (inputs : List Input) :
    Served cfg (call cfg flags) inputs ↔ EachStep (step cfg) FirstWord (call cfg flags) inputs := by
  have hinv : Shape cfg (call cfg flags) ∧ Dispatched cfg (call cfg flags) :=
    ⟨call_shape hlen hflags, call_dispatched hw.pos hlen hflags⟩
  have hend : Terminates cfg (runFrom (step cfg) (call cfg flags) inputs) :=
    Shape.terminates hw
      (runFrom_inv (fun s input (h : Shape cfg s) => step_shape hw h input) hinv.1 inputs)
  unfold Served
  rw [and_iff_left hend]
  exact eachStep_iff
    (fun s input (h : Shape cfg s ∧ Dispatched cfg s) => dispatched_iff hw h.1 h.2 input)
    (fun s input h hfirst => ⟨step_shape hw h.1 input, (dispatched_iff hw h.1 h.2 input).mpr hfirst⟩)
    hinv

/-- A build with 93 interrupts on words of 32 bits, each with one handler. -/
def nr93 : IrqConfig where
  nrInterrupts := 93
  handlers _ := [⟨false⟩]

/-- Interrupts 5 and 31 are pending, and 7 arrives while the first one is
handled. -/
theorem interrupts_served_nr93 :
    Served nr93 (call nr93 [0x80000020#32, 0#32, 0#32])
      [.loop, .loop, .arrive 7, .loop, .loop, .loop, .loop] := by
  refine (interrupts_served_iff (Or.inl rfl) rfl (fun n hn => ?_) _).mpr ?_
  · -- the second and the third word are zero
    have hlow : n < 32 := by
      by_contra hge
      have hzero : [0x80000020#32, 0#32, 0#32].getD (n / 32) 0 = 0 := by
        obtain ⟨j, hj⟩ : ∃ j, n / 32 = j + 1 := ⟨n / 32 - 1, by omega⟩
        rw [hj]
        rcases j with _ | _ | j <;> rfl
      unfold bitSet at hn
      rw [hzero] at hn
      simp at hn
    exact hlow.trans (by decide)
  · refine ⟨?_, ?_, trivial, ?_, ?_, ?_, ?_, trivial⟩ <;>
      · unfold FirstWord
        decide +kernel

/-- Interrupt 40 alone is pending: the handlers run are those of interrupt 41. -/
theorem second_word_not_served :
    ¬ ∀ (cfg : IrqConfig) (flags : List (BitVec 32)) (inputs : List Input),
      flags.length = bitsToLongs 32 cfg.nrInterrupts →
      (∀ n, bitSet flags n = true → n < cfg.nrInterrupts) →
        Served cfg (call cfg flags) inputs := by
  intro hall
  have hflags : ∀ n, bitSet [0#32, 0x100#32, 0#32] n = true → n < nr93.nrInterrupts := by
    intro n hn
    by_contra hge
    have hzero : [0#32, 0x100#32, 0#32].getD (n / 32) 0 = 0 := by
      have hge' : 93 ≤ n := not_lt.mp hge
      obtain ⟨j, hj⟩ : ∃ j, n / 32 = j + 2 := ⟨n / 32 - 2, by omega⟩
      rw [hj]
      rcases j with _ | j <;> rfl
    unfold bitSet at hn
    rw [hzero] at hn
    simp at hn
  obtain ⟨⟨-, -, hran, -⟩, -⟩ := hall nr93 [0#32, 0x100#32, 0#32] [.loop, .loop, .loop] rfl hflags
  exact absurd hran.ran (by decide +kernel)

end IrqState

end Bathos.Event
