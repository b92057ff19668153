import Bathos.Drivers.Scratchpad
import Bathos.Lib.Pages

/-!
# Bathos — the EEPROM of a one-wire device

`drivers/w1-eeprom.c`. A write is split into writes within a page, each of which goes
through the scratchpad and is read back before it is copied.

Main results:

* `writeEepromBy_eq` — the split, for any way to write a page;
* `writePage_spec` — a page written on a device that follows the protocol;
* `write_eeprom` — the calls of a write, and what is in the memory behind it.
-/

namespace Bathos.Drivers

open Bathos.Lib

namespace W1

variable {σ : Type} (ops : W1Ops σ)

-- ---------------------------------------------------------------------------
-- w1-eeprom.c
-- ---------------------------------------------------------------------------

/-- `LSB_ADDR`. -/
def LSB_ADDR (x : Nat) : Nat := x &&& 0xFF

/-- `MSB_ADDR`. -/
def MSB_ADDR (x : Nat) : Nat := (x &&& 0xFF00) >>> 8

/-- The loop of `w1_write_page` that reads the scratchpad back, up to a difference. -/
def readBack : List UInt8 → σ → Bool × σ
  | [], s => (true, s)
  | b :: bs, s =>
    let j := readByte ops s
    if j.1 ≠ b.toNat then (false, j.2) else readBack bs j.2

/-- `w1_write_page`, for a device with the code `rom`. -/
def writePage (rom : BitVec 64) (offset : Nat) (buffer : List UInt8) (s : σ) : Int × σ :=
  -- First, write scratchpad
  let s := writeByte ops W1_CMDR_W_SPAD (matchRom ops rom s)
  let s := writeByte ops (MSB_ADDR offset) (writeByte ops (LSB_ADDR offset) s)
  let s := buffer.foldl (fun s b => writeByte ops b.toNat s) s
  -- Then, read it back, and remember the return E/S
  let s := writeByte ops W1_CMDR_R_SPAD (matchRom ops rom s)
  let lsb := readByte ops s
  if lsb.1 ≠ LSB_ADDR offset then (-1, lsb.2)
  else
    let msb := readByte ops lsb.2
    if msb.1 ≠ MSB_ADDR offset then (-2, msb.2)
    else
      let es := readByte ops msb.2
      let r := readBack ops buffer es.2
      if r.1 = false then (-3, r.2)
      else
        -- Finally, "copy scratchpad" to actually write
        let s := writeByte ops W1_CMDR_C_SPAD (matchRom ops rom r.2)
        let s := writeByte ops (MSB_ADDR offset) (writeByte ops (LSB_ADDR offset) s)
        (buffer.length, writeByte ops es.1 s)

/-- The loop of `w1_write_eeprom`: whole pages and leading part of last page. -/
def writePages (page : Nat → List UInt8 → σ → Int × σ) (offset : Nat) (buffer : List UInt8)
    (blen ret : Int) (s : σ) : Int × σ :=
  if 0 < blen then
    let i : Int := if 32 < blen then 32 else blen
    let r := page offset (buffer.take i.toNat) s
    if r.1 < 0 then r
    else writePages page (offset + 32) (buffer.drop 32) (blen - 32) (ret + r.1) r.2
  else (ret, s)
termination_by blen.toNat

/-- `w1_write_eeprom`, with `page` for `w1_write_page`. -/
def writeEepromBy (page : Nat → List UInt8 → σ → Int × σ) (offset : Nat) (buffer : List UInt8)
    (blen : Int) (s : σ) : Int × σ :=
  let first : Int := offset / 32
  let endpage := (offset + blen - 1).tdiv 32
  -- Trailing part of first page
  if offset % 32 ≠ 0 then
    let i : Int := if endpage ≠ first then 32 - (offset % 32 : Nat) else blen
    let r := page offset (buffer.take i.toNat) s
    let ret := 0 + r.1
    if ret < 0 then (ret, r.2)
    else writePages page (offset + i.toNat) (buffer.drop i.toNat) (blen - i) ret r.2
  else writePages page offset buffer blen 0 s

/-- `w1_write_eeprom`. -/
def writeEeprom (rom : BitVec 64) (offset : Nat) (buffer : List UInt8) (s : σ) : Int × σ :=
  writeEepromBy (writePage ops rom) offset buffer buffer.length s

/-- `w1_read_eeprom`: what it returns, and the bytes in the buffer. -/
def readEeprom (rom : BitVec 64) (offset blen : Nat) (s : σ) : Int × List UInt8 × σ :=
  let s := writeByte ops W1_CMDR_R_MEMORY (matchRom ops rom s)
  let s := writeByte ops (MSB_ADDR offset) (writeByte ops (LSB_ADDR offset) s)
  let r := readBytes ops blen s
  (blen, r.1.map UInt8.ofNat, r.2)

-- ---------------------------------------------------------------------------
-- The split
-- ---------------------------------------------------------------------------

/-- Pieces written one after another, up to one that fails. -/
def runPages (page : Nat → List UInt8 → σ → Int × σ) :
    List (Nat × List UInt8) → Int → σ → Int × σ
  | [], ret, s => (ret, s)
  | c :: cs, ret, s =>
    let r := page c.1 c.2 s
    if r.1 < 0 then r else runPages page cs (ret + r.1) r.2

variable {page : Nat → List UInt8 → σ → Int × σ} {buffer : List UInt8} {offset : Nat}

theorem writePages_done (page : Nat → List UInt8 → σ → Int × σ) (offset : Nat)
    (buffer : List UInt8) {blen : Int} (h : blen ≤ 0) (ret : Int) (s : σ) :
    writePages page offset buffer blen ret s = (ret, s) := by
  unfold writePages
  rw [if_neg (by omega)]

/-- The loop starts at the start of a page. -/
theorem writePages_eq (n : Nat) (hn : buffer.length ≤ n) (hpage : offset % 32 = 0) :
    ∃ cs, Pages 32 offset buffer cs ∧
      ∀ {τ : Type} (page : Nat → List UInt8 → τ → Int × τ) (ret : Int) (s : τ),
        writePages page offset buffer buffer.length ret s = runPages page cs ret s := by
  induction n generalizing buffer offset with
  | zero =>
    obtain rfl : buffer = [] := List.length_eq_zero_iff.mp (Nat.le_zero.mp hn)
    exact ⟨[], Pages.nil offset, fun page => writePages_done page offset [] (by simp)⟩
  | succ n ih =>
    rcases Nat.eq_zero_or_pos buffer.length with hzero | hpos
    · obtain rfl : buffer = [] := List.length_eq_zero_iff.mp hzero
      exact ⟨[], Pages.nil offset, fun page => writePages_done page offset [] (by simp)⟩
    have hblen : 0 < (buffer.length : Int) := by omega
    by_cases hlong : 32 < buffer.length
    · -- A whole page, and more behind it.
      have hdrop : (buffer.drop 32).length = buffer.length - 32 := List.length_drop
      have hi : (if 32 < (buffer.length : Int) then (32 : Int) else buffer.length) = 32 :=
        if_pos (by omega)
      have hrest : (buffer.length : Int) - 32 = (buffer.drop 32).length := by omega
      obtain ⟨cs, hcs, hrun⟩ := @ih (buffer.drop 32) (offset + 32) (by omega) (by omega)
      refine ⟨_, Pages.take_drop (by omega) hlong.le (by omega) hcs, fun page ret s => ?_⟩
      rw [writePages, if_pos hblen]
      simp only [hi, hrest, hrun]
      rfl
    · -- The last page.
      have hi : (if 32 < (buffer.length : Int) then (32 : Int) else buffer.length) = buffer.length :=
        if_neg (by omega)
      have hcs : Pages 32 (offset + buffer.length) (buffer.drop buffer.length) [] := by
        rw [List.drop_length]
        exact Pages.nil _
      refine ⟨_, Pages.take_drop hpos (Nat.le_refl _) (by omega) hcs, fun page ret s => ?_⟩
      rw [writePages, if_pos hblen]
      simp only [hi, writePages_done page _ _ (show (buffer.length : Int) - 32 ≤ 0 by omega)]
      rfl

theorem runPages_cons (page : Nat → List UInt8 → σ → Int × σ) (c : Nat × List UInt8)
    (cs : List (Nat × List UInt8)) (ret : Int) (s : σ) :
    runPages page (c :: cs) ret s =
      if (page c.1 c.2 s).1 < 0 then page c.1 c.2 s
      else runPages page cs (ret + (page c.1 c.2 s).1) (page c.1 c.2 s).2 := rfl

/-- **The split.** Whatever a page write does, the buffer is cut at the pages. -/
theorem writeEepromBy_eq (offset : Nat) (hne : buffer ≠ []) :
    ∃ cs, Pages 32 offset buffer cs ∧
      ∀ {τ : Type} (page : Nat → List UInt8 → τ → Int × τ) (s : τ),
        writeEepromBy page offset buffer buffer.length s = runPages page cs 0 s := by
  have hpos : 0 < buffer.length := List.length_pos_iff.mpr hne
  by_cases hpage : offset % 32 = 0
  · obtain ⟨cs, hcs, hrun⟩ := writePages_eq buffer.length (Nat.le_refl _) hpage
    refine ⟨cs, hcs, fun page s => ?_⟩
    unfold writeEepromBy
    simp only [hpage, ne_eq, not_true, if_false]
    exact hrun page 0 s
  -- The first page is written from within.
  have hend : ((offset : Int) + buffer.length - 1).tdiv 32 = (offset + buffer.length - 1 : Nat) / 32 := by
    rw [Int.tdiv_eq_ediv_of_nonneg (by omega)]
    omega
  obtain ⟨i, hi, hi0, hile, hfits, hrest⟩ : ∃ i : Nat,
      (if ((offset + buffer.length - 1 : Nat) : Int) / 32 ≠ (offset : Int) / 32
        then (32 : Int) - (offset % 32 : Nat) else buffer.length) = i ∧ 0 < i ∧ i ≤ buffer.length ∧
        offset % 32 + i ≤ 32 ∧ (buffer.length ≤ i ∨ (offset + i) % 32 = 0) := by
    by_cases hsame : ((offset + buffer.length - 1 : Nat) : Int) / 32 ≠ (offset : Int) / 32
    · refine ⟨32 - offset % 32, ?_, ?_, ?_, ?_, ?_⟩
      · rw [if_pos hsame]
        omega
      all_goals omega
    · refine ⟨buffer.length, if_neg hsame, hpos, Nat.le_refl _, ?_, Or.inl (Nat.le_refl _)⟩
      omega
  have hdrop : (buffer.drop i).length = buffer.length - i := List.length_drop
  have hlength : (buffer.length : Int) - i = (buffer.drop i).length := by omega
  obtain ⟨cs, hcs, hrun⟩ : ∃ cs, Pages 32 (offset + i) (buffer.drop i) cs ∧
      ∀ {τ : Type} (page : Nat → List UInt8 → τ → Int × τ) (ret : Int) (s : τ),
        writePages page (offset + i) (buffer.drop i) (buffer.drop i).length ret s =
          runPages page cs ret s := by
    rcases hrest with hle | hstart
    · have hnil : buffer.drop i = [] := List.drop_eq_nil_of_le hle
      rw [hnil]
      exact ⟨[], Pages.nil _, fun page => writePages_done page _ [] (by simp)⟩
    · exact writePages_eq _ (Nat.le_refl _) hstart
  refine ⟨_, Pages.take_drop hi0 hile hfits hcs, fun page s => ?_⟩
  unfold writeEepromBy
  simp only [hpage, ne_eq, not_false_eq_true, if_true, hend, hi, Int.toNat_natCast, hlength, hrun,
    zero_add, runPages_cons]

-- ---------------------------------------------------------------------------
-- The calls
-- ---------------------------------------------------------------------------

/-- A call of `w1_write_page`, and what it returned. -/
structure PageWrite where
  offset : Nat
  bytes : List UInt8
  result : Int
deriving DecidableEq, Repr

/-- What was to be written. -/
def PageWrite.piece (w : PageWrite) : Nat × List UInt8 := (w.offset, w.bytes)

/-- The calls of `page` are logged. -/
def logged (page : Nat → List UInt8 → σ → Int × σ) (offset : Nat) (buffer : List UInt8)
    (x : σ × List PageWrite) : Int × (σ × List PageWrite) :=
  let r := page offset buffer x.1
  (r.1, r.2, x.2 ++ [⟨offset, buffer, r.1⟩])

/-- The calls `made` for the pieces `cs` of `n` bytes, and the result: either all have
succeeded and the result is `n`, or the last one has failed, and it is what that returned. -/
inductive Outcome (cs : List (Nat × List UInt8)) (n : Int) (made : List PageWrite) (ret : Int) : Prop
  | success (hall : made.map PageWrite.piece = cs) (hok : ∀ w ∈ made, 0 ≤ w.result) (hret : ret = n)
  | failure (pre : List PageWrite) (w : PageWrite) (hmade : made = pre ++ [w])
      (hbegins : made.map PageWrite.piece <+: cs) (hok : ∀ w ∈ pre, 0 ≤ w.result)
      (hfail : w.result < 0) (hret : ret = w.result)

/-- The calls for the first piece and then for the others. -/
theorem Outcome.cons {cs : List (Nat × List UInt8)} {n ret : Int} {made : List PageWrite}
    {w : PageWrite} (h : Outcome cs n made ret) (hw : 0 ≤ w.result) :
    Outcome (w.piece :: cs) n (w :: made) ret := by
  have hok : ∀ {ws : List PageWrite}, (∀ v ∈ ws, 0 ≤ v.result) → ∀ v ∈ w :: ws, 0 ≤ v.result := by
    intro ws hws v hv
    rcases List.mem_cons.mp hv with rfl | hv
    · exact hw
    · exact hws v hv
  cases h with
  | success hall hall' hret => exact .success (by rw [List.map_cons, hall]) (hok hall') hret
  | failure pre v hmade hbegins hpre hfail hret =>
    refine .failure (w :: pre) v (by rw [hmade, List.cons_append]) ?_ (hok hpre) hfail hret
    rw [List.map_cons]
    exact List.cons_prefix_cons.mpr ⟨rfl, hbegins⟩

/-- The calls of a run over the pieces. -/
theorem runPages_logged {cs : List (Nat × List UInt8)} (h : Pages 32 offset buffer cs)
    (hpage : ∀ o b s, (page o b s).1 = b.length ∨ (page o b s).1 < 0) (ret : Int) (s : σ)
    (log : List PageWrite) :
    ∃ made, runPages (logged page) cs ret (s, log) =
        ((runPages page cs ret s).1, (runPages page cs ret s).2, log ++ made) ∧
      Outcome cs (ret + buffer.length) made (runPages page cs ret s).1 := by
  induction h generalizing ret s log with
  | nil offset =>
    refine ⟨[], by rw [List.append_nil]; rfl, .success rfl (fun w hw => absurd hw (by simp)) ?_⟩
    simp [runPages]
  | @cons offset piece rest cs hne hfits hrest ih =>
    rw [runPages_cons, runPages_cons]
    have hlogged : logged page offset piece (s, log) =
        ((page offset piece s).1, (page offset piece s).2,
          log ++ [⟨offset, piece, (page offset piece s).1⟩]) := rfl
    simp only [hlogged]
    by_cases hfail : (page offset piece s).1 < 0
    · rw [if_pos hfail, if_pos hfail]
      refine ⟨_, rfl, .failure [] _ rfl ?_ (fun w hw => absurd hw (by simp)) hfail rfl⟩
      exact List.cons_prefix_cons.mpr ⟨rfl, List.nil_prefix⟩
    · rw [if_neg hfail, if_neg hfail]
      have hlength : (page offset piece s).1 = piece.length := (hpage offset piece s).resolve_right hfail
      obtain ⟨made, heq, hout⟩ := ih (ret + (page offset piece s).1) (page offset piece s).2
        (log ++ [⟨offset, piece, (page offset piece s).1⟩])
      refine ⟨⟨offset, piece, (page offset piece s).1⟩ :: made, ?_, ?_⟩
      · rw [heq, List.append_assoc, List.singleton_append]
      · have hsum : ret + (page offset piece s).1 + rest.length = ret + (piece ++ rest).length := by
          rw [hlength, List.length_append]
          push_cast
          ring
        rw [hsum] at hout
        exact @Outcome.cons _ _ _ _ ⟨offset, piece, _⟩ hout (Int.not_lt.mp hfail)

/-- What `w1_write_page` returns. -/
theorem writePage_result (rom : BitVec 64) (offset : Nat) (bs : List UInt8) (s : σ) :
    (writePage ops rom offset bs s).1 = bs.length ∨ (writePage ops rom offset bs s).1 < 0 := by
  unfold writePage
  dsimp only
  split_ifs
  · exact Or.inr (Int.negSucc_lt_zero 0)
  · exact Or.inr (Int.negSucc_lt_zero 1)
  · exact Or.inr (Int.negSucc_lt_zero 2)
  · exact Or.inl rfl

-- ---------------------------------------------------------------------------
-- A device that follows the protocol
-- ---------------------------------------------------------------------------

theorem LSB_ADDR_eq (x : Nat) : LSB_ADDR x = x % 256 := Nat.and_two_pow_sub_one_eq_mod x 8

theorem MSB_ADDR_eq {x : Nat} (h : x < 65536) : MSB_ADDR x = x / 256 := by
  unfold MSB_ADDR
  rw [Nat.shiftRight_and_distrib, Nat.shiftRight_eq_div_pow]
  show x / 256 &&& 255 = x / 256
  rw [show (255 : Nat) = 2 ^ 8 - 1 from rfl, Nat.and_two_pow_sub_one_eq_mod]
  omega

variable {ops} {rom : BitVec 64} {s : σ}

theorem readBack_eq {bs : List UInt8} (h : (readBytes ops bs.length s).1 = wire bs) :
    readBack ops bs s = (true, (readBytes ops bs.length s).2) := by
  induction bs generalizing s with
  | nil => rfl
  | cons b bs ih =>
    obtain ⟨hfirst, hrest⟩ := List.cons.inj h
    unfold readBack
    dsimp only
    rw [if_neg (not_not.mpr hfirst), ih hrest]
    rfl

/-- **A page written.** -/
theorem writePage_spec (P : Scratchpad ops rom) (hne : buffer ≠ []) (ht : offset < 65536)
    (hfits : offset % 32 + buffer.length ≤ 32) :
    (writePage ops rom offset buffer s).1 = buffer.length ∧
      P.mem (writePage ops rom offset buffer s).2 = blit (P.mem s) offset buffer := by
  obtain ⟨hmem, hspad⟩ := P.write s offset buffer hne ht hfits
  have hwrite : buffer.foldl (fun s b => writeByte ops b.toNat s) (writeByte ops (MSB_ADDR offset)
      (writeByte ops (LSB_ADDR offset) (writeByte ops W1_CMDR_W_SPAD (matchRom ops rom s)))) =
        sendBytes ops (W1_CMDR_W_SPAD :: offset % 256 :: offset / 256 :: wire buffer)
          (matchRom ops rom s) := by
    unfold wire
    rw [LSB_ADDR_eq, MSB_ADDR_eq ht, sendBytes_cons, sendBytes_cons, sendBytes_cons, sendBytes,
      List.foldl_map]
  generalize sendBytes ops (W1_CMDR_W_SPAD :: offset % 256 :: offset / 256 :: wire buffer)
    (matchRom ops rom s) = s₁ at hmem hspad hwrite
  obtain ⟨hread, hmem', hspad', hes⟩ := P.read s₁ offset buffer hspad ht
  have hcopy := P.copy _ offset buffer hspad' ht
  generalize hs₂ : sendBytes ops [W1_CMDR_R_SPAD] (matchRom ops rom s₁) = s₂
    at hread hmem' hspad' hes hcopy
  rw [Nat.add_comm 3] at hread hmem' hes hcopy
  -- The bytes read back, one by one.
  obtain ⟨hlsb, hread⟩ := List.cons.inj hread
  obtain ⟨hmsb, hread⟩ := List.cons.inj hread
  obtain ⟨he, hread⟩ := List.cons.inj hread
  have hback := readBack_eq hread
  generalize hs₃ : (readBytes ops (buffer.length + 3) s₂).2 = s₃ at hmem' hes hcopy
  have hback' : readBack ops buffer (readByte ops (readByte ops (readByte ops s₂).2).2).2 =
      (true, s₃) := hback.trans (by rw [← hs₃]; rfl)
  have hpage : writePage ops rom offset buffer s = ((buffer.length : Int),
      sendBytes ops [W1_CMDR_C_SPAD, offset % 256, offset / 256, P.es s₃] (matchRom ops rom s₃)) := by
    have hs₂' : writeByte ops W1_CMDR_R_SPAD (matchRom ops rom s₁) = s₂ := hs₂
    unfold writePage
    dsimp only
    rw [hwrite, hs₂', LSB_ADDR_eq, MSB_ADDR_eq ht, if_neg (not_not.mpr hlsb),
      if_neg (not_not.mpr hmsb), hback', if_neg (by simp), he, hes]
    rfl
  rw [hpage]
  refine ⟨rfl, ?_⟩
  rw [hcopy, hmem', hmem]

/-- All pieces are written. -/
theorem runPages_spec (P : Scratchpad ops rom) {cs : List (Nat × List UInt8)}
    (h : Pages 32 offset buffer cs) (hend : offset + buffer.length ≤ 65536) (ret : Int) :
    (runPages (writePage ops rom) cs ret s).1 = ret + buffer.length ∧
      P.mem (runPages (writePage ops rom) cs ret s).2 =
        cs.foldl (fun mem c => blit mem c.1 c.2) (P.mem s) := by
  induction h generalizing ret s with
  | nil offset => exact ⟨(add_zero ret).symm, rfl⟩
  | @cons offset piece rest cs hne hfits hrest ih =>
    have hpos : 0 < piece.length := List.length_pos_iff.mpr hne
    rw [List.length_append] at hend
    obtain ⟨hresult, hmem⟩ := writePage_spec (s := s) P hne (by omega) hfits
    obtain ⟨hret, hmem'⟩ := ih (s := (writePage ops rom offset piece s).2) (by omega)
      (ret + (writePage ops rom offset piece s).1)
    rw [runPages_cons, if_neg (by rw [hresult]; omega), hret, hmem', hmem, hresult,
      List.length_append, List.foldl_cons]
    refine ⟨?_, rfl⟩
    push_cast
    ring

theorem ofNat_of_wire (bs : List UInt8) : (wire bs).map UInt8.ofNat = bs := by
  unfold wire
  rw [List.map_map]
  conv_rhs => rw [← List.map_id bs]
  exact List.map_congr_left fun b _ => UInt8.ofNat_toNat

/-- **A range read.** -/
theorem readEeprom_spec (P : Scratchpad ops rom) {blen : Nat} (hpos : 0 < blen)
    (hend : offset + blen ≤ 65536) :
    (readEeprom ops rom offset blen s).1 = blen ∧
      (readEeprom ops rom offset blen s).2.1 = block (P.mem s) offset blen := by
  have hread := P.readMemory s offset blen hend hpos
  refine ⟨rfl, ?_⟩
  unfold readEeprom
  dsimp only
  rw [LSB_ADDR_eq, MSB_ADDR_eq (by omega), ← ofNat_of_wire (block (P.mem s) offset blen), ← hread]
  rfl

/-- **EEPROM writes.** The calls of `w1_write_page` cover the range once, in order, page by
page, up to one that fails; on a device that follows the protocol the memory then holds the
buffer, and a read returns it. -/
theorem write_eeprom (ops : W1Ops σ) (rom : BitVec 64) (offset : Nat) (buffer : List UInt8)
    (hne : buffer ≠ []) (hend : offset + buffer.length ≤ 65536) (s : σ) :
    (∃ cs : List (Nat × List UInt8),
      cs.flatMap (fun c => c.2.zipIdx c.1) = buffer.zipIdx offset ∧
      (∀ c ∈ cs, c.2 ≠ [] ∧ c.1 % 32 + c.2.length ≤ 32) ∧
      ∃ made, writeEepromBy (logged (writePage ops rom)) offset buffer buffer.length (s, []) =
          ((writeEeprom ops rom offset buffer s).1, (writeEeprom ops rom offset buffer s).2, made) ∧
        Outcome cs buffer.length made (writeEeprom ops rom offset buffer s).1) ∧
    ∀ P : Scratchpad ops rom,
      (writeEeprom ops rom offset buffer s).1 = buffer.length ∧
      P.mem (writeEeprom ops rom offset buffer s).2 = blit (P.mem s) offset buffer ∧
      (readEeprom ops rom offset buffer.length (writeEeprom ops rom offset buffer s).2).2.1 =
        buffer := by
  obtain ⟨cs, hcs, hrun⟩ := writeEepromBy_eq offset hne
  have heq : writeEeprom ops rom offset buffer s = runPages (writePage ops rom) cs 0 s :=
    hrun (writePage ops rom) s
  rw [hrun (logged (writePage ops rom)), heq]
  refine ⟨⟨cs, hcs.cover, hcs.size, ?_⟩, fun P => ?_⟩
  · obtain ⟨made, hmade, hout⟩ := runPages_logged hcs (writePage_result ops rom) 0 s []
    rw [zero_add] at hout
    exact ⟨made, hmade, hout⟩
  · obtain ⟨hret, hmem⟩ := runPages_spec (s := s) P hcs hend 0
    rw [hcs.foldl_blit] at hmem
    rw [zero_add] at hret
    refine ⟨hret, hmem, ?_⟩
    rw [(readEeprom_spec P (List.length_pos_iff.mpr hne) hend).2, hmem, block_blit_self]

/-- Forty bytes from the middle of a page on. -/
theorem write_eeprom_forty :
    (writeEeprom (Ds28ec20.ops 0x43) 0x43 20 (List.replicate 40 7) Ds28ec20.blank).1 = 40 ∧
      (writeEeprom (Ds28ec20.ops 0x43) 0x43 20 (List.replicate 40 7) Ds28ec20.blank).2.mem =
        blit Ds28ec20.blank.mem 20 (List.replicate 40 7) := by
  obtain ⟨-, hwrite⟩ := write_eeprom (Ds28ec20.ops 0x43) 0x43 20 (List.replicate 40 7) (by decide)
    (by decide) Ds28ec20.blank
  obtain ⟨hret, hmem, -⟩ := hwrite (Ds28ec20.scratchpad 0x43)
  rw [List.length_replicate] at hret
  rw [Ds28ec20.scratchpad_mem] at hmem
  exact ⟨hret, hmem⟩

end W1

end Bathos.Drivers
