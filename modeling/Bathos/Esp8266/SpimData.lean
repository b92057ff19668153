import Bathos.Esp8266.Spim

/-!
# Bathos — the data registers of the ESP8266 SPI master

`_setup_tx` packs the bytes to send into the `W` registers, four into each; the interrupt
handler unpacks those received from their second half, where `MISO` data goes.

The loop that packs warns that it truncates to 32 bytes and does not; past them it writes
into the second half. The loop that unpacks moves its index with every byte and once more
at the end of a turn, so it leaves out the fifth byte and stores the next register one
place too late.

Main results:

* `setupTx_wByte`, `readMiso_outside` — what the two loops write;
* `dataRegisters_iff` — the lengths for which they do what they should.
-/

namespace Bathos.Esp8266

namespace Spim

/-- Byte `i` of the `W` registers. -/
def wByte (regs : Nat → BitVec 32) (i : Nat) : UInt8 :=
  UInt8.ofNat (readl regs (SPI_W i) >>> (8 * (i % 4))).toNat

theorem SPI_W_div (i : Nat) : SPI_W i / 4 = 16 + i / 4 := by
  unfold SPI_W
  omega

-- ---------------------------------------------------------------------------
-- Sending
-- ---------------------------------------------------------------------------

/-- Byte `k` of four packed ones. -/
theorem packed_byte (b : Nat → UInt8) {k : Nat} (hk : k < 4) :
    UInt8.ofNat (((BitVec.ofNat 32 (b 0).toNat ||| BitVec.ofNat 32 (b 1).toNat <<< 8 |||
      BitVec.ofNat 32 (b 2).toNat <<< 16 ||| BitVec.ofNat 32 (b 3).toNat <<< 24) >>>
        (8 * k)).toNat) = b k := by
  apply UInt8.toBitVec_inj.mp
  apply BitVec.eq_of_getLsbD_eq
  intro i hi
  have hwide : ∀ j, (BitVec.ofNat 32 (b j).toNat) = (b j).toBitVec.setWidth 32 := fun j =>
    BitVec.ofNat_toNat 32 (b j).toBitVec
  simp only [hwide]
  show (BitVec.ofNat 8 _).getLsbD i = _
  rw [BitVec.ofNat_toNat, BitVec.getLsbD_setWidth]
  interval_cases k <;> interval_cases i <;> simp

/-- What is sent at position `i`: the last word is filled up with zeros. -/
def sentByte (s : Spim) (data len i : Nat) : UInt8 := if i < len then s.mem (data + i) else 0

theorem txByte_eq (s : Spim) (data len i : Nat) :
    s.txByte data len i = BitVec.ofNat 32 (s.sentByte data len i).toNat := by
  unfold txByte sentByte
  split <;> rfl

/-- A register written, seen byte by byte. -/
theorem wByte_writel (s : Spim) (v : BitVec 32) (i p : Nat) :
    wByte (s.writel v (SPI_W i)).regs p =
      if p / 4 = i / 4 then UInt8.ofNat (v >>> (8 * (p % 4))).toNat else wByte s.regs p := by
  unfold wByte writel readl
  simp only [SPI_W_div]
  by_cases hreg : p / 4 = i / 4
  · rw [if_pos hreg, hreg, Function.update_self]
  · have hne : 16 + p / 4 ≠ 16 + i / 4 := fun h => hreg (Nat.add_left_cancel h)
    rw [if_neg hreg, Function.update_of_ne hne]

/-- The loop writes the words from `i` on, as long as one of their bytes is to be sent. -/
theorem setupTxLoop_wByte (data len : Nat) : ∀ (fuel i : Nat) (s : Spim), i % 4 = 0 →
    len ≤ i + fuel → ∀ p, wByte (setupTxLoop data len fuel i s).regs p =
      if i ≤ p ∧ p / 4 * 4 < len then s.sentByte data len p else wByte s.regs p := by
  intro fuel
  induction fuel with
  | zero =>
    intro i s hi hfuel p
    rw [if_neg (by omega)]
    rfl
  | succ fuel ih =>
    intro i s hi hfuel p
    unfold setupTxLoop
    by_cases hlt : i < len
    · rw [if_pos hlt]
      simp only [txByte_eq]
      rw [ih (i + 4) _ (by omega) (by omega), wByte_writel]
      have hsent : ∀ v, (s.writel v (SPI_W i)).sentByte data len p = s.sentByte data len p :=
        fun _ => rfl
      rw [hsent]
      by_cases hword : p / 4 = i / 4
      · have hp : s.sentByte data len p = s.sentByte data len (i + p % 4) := by
          congr 1
          omega
        have hbyte := packed_byte (fun k => s.sentByte data len (i + k)) (Nat.mod_lt p four_pos)
        rw [if_neg (by omega), if_pos hword, if_pos (by omega), hp]
        exact hbyte
      · rw [if_neg hword]
        by_cases hin : i + 4 ≤ p ∧ p / 4 * 4 < len
        · rw [if_pos hin, if_pos (by omega)]
        · rw [if_neg hin, if_neg (by omega)]
    · rw [if_neg hlt, if_neg (by omega)]

theorem setupTx_wByte (s : Spim) (data len p : Nat) :
    wByte (s.setupTx data len).regs p =
      if p / 4 * 4 < len then s.sentByte data len p else wByte s.regs p := by
  unfold setupTx
  rw [setupTxLoop_wByte data len len 0 s rfl (by omega)]
  simp

-- ---------------------------------------------------------------------------
-- Receiving
-- ---------------------------------------------------------------------------

section Receive

variable {regs : Nat → BitVec 32} {data len : Nat}

/-- The loop from `i` on stores nothing but bytes from there up to the end. -/
theorem readMiso_outside : ∀ (fuel i : Nat) (mem : Nat → UInt8) {a : Nat},
    a < data + i ∨ data + len ≤ a → readMiso regs data len fuel i mem a = mem a := by
  intro fuel
  induction fuel with
  | zero => exact fun _ _ _ _ => rfl
  | succ fuel ih =>
    intro i mem a ha
    unfold readMiso
    simp only
    split_ifs
    all_goals first
      | rfl
      | rw [ih _ _ (by omega)]
        simp only [Function.update_apply]
        repeat rw [if_neg (by omega)]

/-- Four bytes at most are one turn. -/
theorem readMiso_short (h : len ≤ 4) (mem : Nat → UInt8) (a : Nat) :
    readMiso regs data len len 0 mem a =
      if data ≤ a ∧ a < data + len then wByte regs (32 + (a - data)) else mem a := by
  by_cases hin : data ≤ a ∧ a < data + len
  · obtain ⟨k, rfl⟩ := Nat.exists_eq_add_of_le hin.1
    have hk : k < len := by omega
    rw [if_pos hin, Nat.add_sub_cancel_left]
    interval_cases len <;> interval_cases k <;> simp [readMiso, wByte, readl, SPI_W]
  · rw [if_neg hin, readMiso_outside _ _ _ (by omega)]

/-- The fifth byte is left out. -/
theorem readMiso_fifth (h : 5 ≤ len) (mem : Nat → UInt8) :
    readMiso regs data len len 0 mem (data + 4) = mem (data + 4) := by
  obtain ⟨fuel, rfl⟩ := Nat.exists_eq_add_of_lt (show 0 < len by omega)
  unfold readMiso
  simp only
  rw [if_pos (by omega), if_pos (by omega), if_pos (by omega), if_pos (by omega),
    readMiso_outside _ _ _ (by omega)]
  simp only [Function.update_apply]
  repeat rw [if_neg (by omega)]

end Receive

theorem intHandler_mem {s : Spim} {e : SglistEl} (he : s.rxEl = some e) :
    s.intHandler.mem = readMiso s.regs e.data e.len e.len 0 s.mem := by
  unfold intHandler
  simp only [he]
  cases s.b <;> rfl

end Spim

open Spim

-- ---------------------------------------------------------------------------
-- Statement
-- ---------------------------------------------------------------------------

/-- What is asked for `n` bytes to send and `m` to receive: the first 32 bytes to send lie
in the first half of the registers and the second half stays; the bytes received are those
of the second half, and nothing else is stored; and with the first half looped back into
the second one, they are the ones sent. -/
structure DataRegisters (n m : Nat) : Prop where
  sent : ∀ (s : Spim) (data : Nat), ∀ i < min n 32,
    wByte (s.setupTx data n).regs i = s.mem (data + i)
  misoKept : ∀ (s : Spim) (data i : Nat), 32 ≤ i → i < 64 →
    wByte (s.setupTx data n).regs i = wByte s.regs i
  received : ∀ (s : Spim) (e : SglistEl), s.rxEl = some e → e.len = m → ∀ a,
    s.intHandler.mem a =
      if e.data ≤ a ∧ a < e.data + m then wByte s.regs (32 + (a - e.data)) else s.mem a
  looped : ∀ (s t : Spim) (data : Nat) (e : SglistEl), t.rxEl = some e → e.len = m →
    (∀ i < 32, wByte t.regs (32 + i) = wByte (s.setupTx data n).regs i) →
    ∀ i < min n m, t.intHandler.mem (e.data + i) = s.mem (data + i)

theorem setupTx_sent (s : Spim) (data n : Nat) {i : Nat} (hi : i < n) :
    wByte (s.setupTx data n).regs i = s.mem (data + i) := by
  rw [setupTx_wByte, if_pos (by omega), sentByte, if_pos hi]

theorem intHandler_received {s : Spim} {e : SglistEl} (he : s.rxEl = some e) (h : e.len ≤ 4)
    (a : Nat) : s.intHandler.mem a =
      if e.data ≤ a ∧ a < e.data + e.len then wByte s.regs (32 + (a - e.data)) else s.mem a := by
  rw [intHandler_mem he, readMiso_short h]

/-- A driver with a memory of ones and registers of zeros, about to receive `m` bytes. -/
def onesAndZeros (m : Nat) : Spim :=
  { (SpimRun.opened twoBufs (fun _ => fourBytes) (fun _ => 1) (fun _ => 0)).drv with
    rxEl := some ⟨0, m, .inp⟩ }

theorem onesAndZeros_wByte (m i : Nat) : wByte (onesAndZeros m).regs i = 0 := by
  show UInt8.ofNat ((0 : BitVec 32) >>> (8 * (i % 4))).toNat = 0
  simp

/-- **Data registers.** For every length to send and every length to receive of at most
32 bytes, what is asked holds for all contents exactly up to 32 bytes sent and 4 received. -/
theorem dataRegisters_iff (n m : Nat) (hm : m ≤ 32) : DataRegisters n m ↔ n ≤ 32 ∧ m ≤ 4 := by
  refine ⟨fun h => ⟨?_, ?_⟩, fun ⟨hn, hm⟩ => ⟨?_, ?_, ?_, ?_⟩⟩
  · by_contra hn
    have hkept := h.misoKept (onesAndZeros m) 0 32 le_rfl (by decide)
    rw [setupTx_sent _ _ _ (by omega), onesAndZeros_wByte] at hkept
    exact absurd hkept (show (1 : UInt8) ≠ 0 by decide)
  · by_contra hlong
    have hlost : (onesAndZeros m).intHandler.mem (0 + 4) = 1 :=
      (congrFun (intHandler_mem rfl) _).trans (readMiso_fifth (show 5 ≤ m by omega) _)
    have hstored := h.received (onesAndZeros m) ⟨0, m, .inp⟩ rfl rfl (0 + 4)
    rw [hlost, if_pos (show 0 ≤ 0 + 4 ∧ 0 + 4 < 0 + m by omega), onesAndZeros_wByte] at hstored
    exact absurd hstored (show (1 : UInt8) ≠ 0 by decide)
  · exact fun s data i hi => setupTx_sent s data n (by omega)
  · intro s data i hlow _
    rw [setupTx_wByte, if_neg (by omega)]
  · rintro s e he rfl a
    exact intHandler_received he hm a
  · rintro s t data e he rfl hloop i hi
    rw [intHandler_received he hm, if_pos (by omega), Nat.add_sub_cancel_left, hloop i (by omega),
      setupTx_sent s data n (by omega)]

theorem dataRegisters_fits : DataRegisters 32 4 :=
  (dataRegisters_iff 32 4 (by decide)).mpr (by decide)

/-- Five bytes received: the last one is not stored. -/
theorem fifth_byte_lost : ¬ ∀ n m : Nat, m ≤ 32 → DataRegisters n m := by
  intro hall
  have hfifth := (hall 0 5 (by decide)).received (onesAndZeros 5) ⟨0, 5, .inp⟩ rfl rfl 4
  exact absurd hfifth (by decide)

end Bathos.Esp8266
