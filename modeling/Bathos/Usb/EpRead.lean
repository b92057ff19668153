import Bathos.Include.Headers
import Bathos.Lib.Memory
import Bathos.Lib.Run

/-!
# Bathos — reading from a USB endpoint

`usb-device-ep.c`: an OUT or SETUP packet is left where the hardware put it, and
`usb_ep_read` copies it out in pieces. How much is left is counted in `rx_cnt`, by
`usb_device_freescale_notify_read`; the address of the packet stays in `rx_buf`, and
nobody moves it on. So every piece comes from the start of the packet.

Main result: `read_in_order_iff` — the pieces are the packet in order exactly when
each of them is also a beginning of the packet.
-/

namespace Bathos.Usb

open Bathos.Lib

/-- The receiving side of an endpoint (`rx_buf` and `rx_cnt` of
`struct usb_device_endpoint_data`), and memory. -/
structure EpRx where
  mem : Nat → UInt8
  rxBuf : Nat
  rxCnt : Int

namespace EpRx

variable {s : EpRx}

/-- `sizeof(struct usb_setup_data)`. -/
def SETUP_SIZE : Nat := 8

/-- `__ep_out`, up to the event for the reader. -/
def epOut (data : Nat) (len : Int) (s : EpRx) : EpRx := { s with rxBuf := data, rxCnt := len }

/-- `usb_device_ctrl_ep_setup`. -/
def ctrlEpSetup (d : Nat) (s : EpRx) : EpRx := s.epOut d SETUP_SIZE

/-- `usb_device_freescale_notify_read`. -/
def notifyRead (len : Int) (s : EpRx) : EpRx :=
  if len ≤ 0 then s
  else
    let s := { s with rxCnt := s.rxCnt - len }
    if s.rxCnt < 0 then { s with rxCnt := 0 } else s

/-- `usb_ep_read`: what it returns and copies. -/
def usbEpRead (len : Int) (s : EpRx) : (Int × List UInt8) × EpRx :=
  let l := min len s.rxCnt
  if len < 0 then ((-EINVAL, []), s)
  else if len = 0 then ((0, []), s)
  else if l ≤ 0 then ((-EAGAIN, []), s)
  else ((l, block s.mem s.rxBuf l.toNat), s.notifyRead l)

-- ---------------------------------------------------------------------------
-- Reads between two packets
-- ---------------------------------------------------------------------------

/-- A packet from the host. -/
inductive Delivery where
  | out (data len : Nat)
  | setup (d : Nat)

/-- The bytes of a packet. -/
def Delivery.packet (mem : Nat → UInt8) : Delivery → List UInt8
  | .out data len => block mem data len
  | .setup d => block mem d SETUP_SIZE

def deliver (s : EpRx) : Delivery → EpRx
  | .out data len => s.epOut data len
  | .setup d => s.ctrlEpSetup d

/-- What successive reads return and copy. -/
def reads (s : EpRx) (lens : List Nat) : List (Int × List UInt8) :=
  (runAnswers (fun (s : EpRx) (len : Nat) => s.usbEpRead len) s lens).1

/-- The bytes copied. -/
def returned (answers : List (Int × List UInt8)) : List UInt8 := answers.flatMap fun a => a.2

/-- The bytes copied are the first ones of the packet, in order and each once, and a
read after the last one gives `-EAGAIN`. -/
structure ReadInOrder (packet : List UInt8) (answers : List (Int × List UInt8)) : Prop where
  inOrder : returned answers <+: packet
  again : ∀ k a, answers[k]? = some a →
    (returned (answers.take k)).length = packet.length → a.1 = -EAGAIN

/-- The condition: each piece of the packet, cut as the reads ask for it, is how the
packet begins. -/
def PiecesRepeat (packet : List UInt8) (lens : List Nat) : Prop :=
  ∀ k (hk : k < lens.length), (packet.drop (lens.take k).sum).take lens[k] <+: packet

instance (packet : List UInt8) (lens : List Nat) : Decidable (PiecesRepeat packet lens) :=
  inferInstanceAs (Decidable (∀ k (_ : k < lens.length), _))

/-- What a read returns and copies when `o` bytes of the packet have been counted. -/
def answer (packet : List UInt8) (o l : Nat) : Int × List UInt8 :=
  if packet.length ≤ o then (-EAGAIN, [])
  else ((min l (packet.length - o) : Nat), packet.take (min l (packet.length - o)))

/-- The packet is at `rxBuf`, and `o` of its bytes have been counted. -/
structure Counted (packet : List UInt8) (o : Nat) (s : EpRx) : Prop where
  bytes : block s.mem s.rxBuf packet.length = packet
  count : s.rxCnt = (packet.length - o : Nat)

/-- A read counts its bytes, and copies them from the start of the packet. -/
theorem usbEpRead_counted {packet : List UInt8} {o l : Nat} (h : s.Counted packet o) (hl : 0 < l) :
    (s.usbEpRead l).1 = answer packet o l ∧ (s.usbEpRead l).2.Counted packet (o + l) := by
  have hcount := h.count
  have hlen : ¬ (l : Int) < 0 := by omega
  have hlen' : ¬ (l : Int) = 0 := by omega
  unfold usbEpRead answer
  simp only [if_neg hlen, if_neg hlen']
  by_cases hdone : packet.length ≤ o
  · have hmin : min (l : Int) s.rxCnt ≤ 0 := by omega
    rw [if_pos hmin, if_pos hdone]
    exact ⟨rfl, h.bytes, by dsimp only; omega⟩
  · have hmin : min (l : Int) s.rxCnt = (min l (packet.length - o) : Nat) := by omega
    have hpos : ¬ ((min l (packet.length - o) : Nat) : Int) ≤ 0 := by omega
    rw [hmin, if_neg hpos, if_neg hdone]
    refine ⟨?_, ?_⟩
    · rw [Int.toNat_natCast]
      conv_rhs => rw [← h.bytes, block_take _ _ (by simp)]
      simp
    · unfold notifyRead
      rw [if_neg hpos]
      have hleft : ¬ s.rxCnt - (min l (packet.length - o) : Nat) < 0 := by omega
      simp only [if_neg hleft]
      exact ⟨h.bytes, by dsimp only; omega⟩

/-- The answers to successive reads. -/
def answersFrom (packet : List UInt8) : Nat → List Nat → List (Int × List UInt8)
  | _, [] => []
  | o, l :: ls => answer packet o l :: answersFrom packet (o + l) ls

theorem reads_counted {packet : List UInt8} {o : Nat} {lens : List Nat} (h : s.Counted packet o)
    (hlens : ∀ l ∈ lens, 0 < l) : s.reads lens = answersFrom packet o lens := by
  induction lens generalizing s o with
  | nil => rfl
  | cons l ls ih =>
    obtain ⟨hanswer, hnext⟩ := usbEpRead_counted h (hlens l List.mem_cons_self)
    have hrest := ih hnext fun l hl => hlens l (List.mem_cons_of_mem _ hl)
    show (s.usbEpRead l).1 :: (s.usbEpRead l).2.reads ls = _
    rw [hanswer, hrest]
    rfl

section Pieces

variable {packet : List UInt8}

theorem answer_length (o l : Nat) :
    (answer packet o l).2.length = min l (packet.length - o) := by
  unfold answer
  split_ifs with h
  · simp [Nat.sub_eq_zero_of_le h]
  · simp

/-- A piece is copied right exactly when the packet begins with it. -/
theorem answer_start_iff (o l : Nat) :
    packet.take o ++ (answer packet o l).2 = packet.take (o + l) ↔
      (packet.drop o).take l <+: packet := by
  rw [List.take_add, List.append_right_inj, List.prefix_iff_eq_take]
  unfold answer
  split_ifs with h
  · simp [List.drop_eq_nil_of_le h]
  · rw [List.length_take, List.length_drop]
    exact eq_comm

theorem take_append_iff (o : Nat) (lens : List Nat) :
    packet.take o ++ returned (answersFrom packet o lens) <+: packet ↔
      ∀ k (hk : k < lens.length),
        (packet.drop (o + (lens.take k).sum)).take lens[k] <+: packet := by
  induction lens generalizing o with
  | nil =>
    refine iff_of_true ?_ fun k hk => absurd hk (Nat.not_lt_zero _)
    simp [answersFrom, returned, List.take_prefix]
  | cons l ls ih =>
    have hsplit : packet.take o ++ returned (answersFrom packet o (l :: ls)) =
        (packet.take o ++ (answer packet o l).2) ++ returned (answersFrom packet (o + l) ls) := by
      rw [List.append_assoc]
      rfl
    rw [hsplit]
    constructor
    · intro h k hk
      -- The first piece is where it should be, so the others start where they should.
      have hfirst : packet.take o ++ (answer packet o l).2 = packet.take (o + l) := by
        have hbegins := List.IsPrefix.trans (List.prefix_append _ _) h
        rw [List.prefix_iff_eq_take.mp hbegins, List.length_append, answer_length, List.length_take,
          List.take_eq_take_iff]
        omega
      cases k with
      | zero => exact (answer_start_iff o l).mp hfirst
      | succ k =>
        rw [hfirst] at h
        have hpiece := (ih (o + l)).mp h k (Nat.lt_of_succ_lt_succ hk)
        rwa [Nat.add_assoc] at hpiece
    · intro h
      rw [(answer_start_iff o l).mpr (h 0 (Nat.succ_pos _))]
      refine (ih (o + l)).mpr fun k hk => ?_
      have hpiece := h (k + 1) (Nat.succ_lt_succ hk)
      rwa [List.take_succ_cons, List.sum_cons, ← Nat.add_assoc] at hpiece

/-- A read that finds the whole packet copied gives `-EAGAIN`. -/
theorem answersFrom_again {o : Nat} {lens : List Nat} {k : Nat} {a : Int × List UInt8}
    (ha : (answersFrom packet o lens)[k]? = some a)
    (hall : (returned ((answersFrom packet o lens).take k)).length = packet.length - o) :
    a.1 = -EAGAIN := by
  induction lens generalizing o k with
  | nil => cases ha
  | cons l ls ih =>
    cases k with
    | zero =>
      have hdone : packet.length ≤ o := Nat.le_of_sub_eq_zero hall.symm
      obtain rfl : answer packet o l = a := Option.some.inj ha
      unfold answer
      rw [if_pos hdone]
    | succ k =>
      refine ih ha ?_
      have hsplit : (answer packet o l).2.length +
          (returned ((answersFrom packet (o + l) ls).take k)).length = packet.length - o := by
        rw [← List.length_append]
        exact hall
      rw [answer_length] at hsplit
      omega

end Pieces

theorem deliver_counted (s : EpRx) (d : Delivery) : (s.deliver d).Counted (d.packet s.mem) 0 := by
  cases d with
  | out data len =>
    have hlen := block_length s.mem data len
    exact ⟨congrArg (block s.mem data) hlen, by rw [Delivery.packet, hlen]; rfl⟩
  | setup d =>
    have hlen := block_length s.mem d SETUP_SIZE
    exact ⟨congrArg (block s.mem d) hlen, by rw [Delivery.packet, hlen]; rfl⟩

/-- **Reading in pieces.** The reads give the packet in order, and `-EAGAIN` after its
last byte, exactly when each piece is a beginning of the packet. -/
theorem read_in_order_iff (s : EpRx) (d : Delivery) (lens : List Nat) (hlens : ∀ l ∈ lens, 0 < l) :
    ReadInOrder (d.packet s.mem) ((s.deliver d).reads lens) ↔
      PiecesRepeat (d.packet s.mem) lens := by
  have hpieces := @take_append_iff (d.packet s.mem) 0 lens
  simp only [List.take_zero, List.nil_append, Nat.zero_add] at hpieces
  rw [reads_counted (deliver_counted s d) hlens]
  refine ⟨fun h => hpieces.mp h.inOrder, fun h => ⟨hpieces.mpr h, fun k a ha hall => ?_⟩⟩
  exact answersFrom_again ha hall

/-- A packet read whole, and a SETUP packet of equal bytes in two pieces. -/
theorem read_in_order_two :
    ReadInOrder [10, 11] ((deliver ⟨UInt8.ofNat, 0, 0⟩ (.out 10 2)).reads [2, 1]) ∧
    ReadInOrder [5, 5, 5, 5, 5, 5, 5, 5] ((deliver ⟨fun _ => 5, 0, 0⟩ (.setup 10)).reads [1, 9]) :=
  ⟨(read_in_order_iff ⟨UInt8.ofNat, 0, 0⟩ (.out 10 2) [2, 1] (by decide)).mpr (by decide),
    (read_in_order_iff ⟨fun _ => 5, 0, 0⟩ (.setup 10) [1, 9] (by decide)).mpr (by decide)⟩

/-- Two bytes read one by one: the first one comes twice. -/
theorem first_byte_twice :
    ¬ ∀ (s : EpRx) (d : Delivery) (lens : List Nat), (∀ l ∈ lens, 0 < l) →
      ReadInOrder (d.packet s.mem) ((s.deliver d).reads lens) := by
  intro h
  have horder := (h ⟨UInt8.ofNat, 0, 0⟩ (.out 10 2) [1, 1] (by decide)).inOrder
  revert horder
  decide

end EpRx

end Bathos.Usb
