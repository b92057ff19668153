import Bathos.Radio.Slave

/-!
# Bathos — packets put together by the slave

The radio stream reaches `input_pipe_ready_handle` in pieces, and `rb_slave_read` takes
the packet whenever one is announced. Each piece is read to the start of the input buffer,
whatever is there already, and `input_bytes` is cleared whatever is left over.

Main result: `reassembles_iff` — the pieces that come out as the packets of the stream,
whatever the bytes are.
-/

namespace Bathos.Radio

open Bathos.Lib

namespace RbSlave

/-- A piece of the stream, and the `len` with which a packet is read behind it. -/
structure Piece where
  bytes : List UInt8
  len : Int

/-- A piece arrives, and the packet it may complete is read. -/
def feed (packetSize : Nat) (x : RbSlave × List (List UInt8)) (p : Piece) :
    RbSlave × List (List UInt8) :=
  let r := x.1.inputPipeReadyHandle packetSize p.bytes.length p.bytes
  if r.2 then
    let q := r.1.rbSlaveRead packetSize p.len
    (q.2.2, x.2 ++ [q.2.1])
  else (r.1, x.2)

/-- The bridge and the packets read, after the pieces. -/
def received (packetSize : Nat) (s : RbSlave) (ps : List Piece) : RbSlave × List (List UInt8) :=
  ps.foldl (feed packetSize) (s, [])

/-- The stream cut into packets; what is left at the end is not one. -/
def packets (packetSize : Nat) (stream : List UInt8) : List (List UInt8) :=
  (List.range (stream.length / packetSize)).map fun k =>
    (stream.drop (k * packetSize)).take packetSize

/-- The pieces of a stream, as `lengths` cuts it, with packets read as a whole. -/
structure Cut (packetSize : Nat) (lengths : List Nat) (ps : List Piece) : Prop where
  lengths : ps.map (fun p => p.bytes.length) = lengths
  len : ∀ p ∈ ps, (packetSize : Int) ≤ p.len

/-- **The purpose.** With the stream cut at `lengths`, the packets read are the packets of
the stream, and no byte behind the input buffer is ever written. -/
def Reassembles (packetSize : Nat) (lengths : List Nat) : Prop :=
  ∀ (s : RbSlave) (ps : List Piece), s.packetInInputBuffer = 0 → s.inputBytes = 0 →
    Cut packetSize lengths ps →
    (received packetSize s ps).2 = packets packetSize (ps.flatMap Piece.bytes) ∧
      ∀ n a, packetSize ≤ a → (received packetSize s (ps.take n)).1.inputBuffer a = s.inputBuffer a

variable {packetSize : Nat} {s : RbSlave} {ps : List Piece}

-- ---------------------------------------------------------------------------
-- One piece
-- ---------------------------------------------------------------------------

theorem ready_handle_eq (packetSize : Nat) (bytes : List UInt8) (s : RbSlave) :
    s.inputPipeReadyHandle packetSize bytes.length bytes =
      if s.inputBytes + bytes.length < packetSize then
        ({ s with
          inputBuffer := blit s.inputBuffer 0 bytes
          inputBytes := s.inputBytes + bytes.length }, false)
      else
        ({ s with
          packetInInputBuffer := s.packetInInputBuffer + 1
          inputBuffer := blit s.inputBuffer 0 bytes
          inputBytes := 0 }, true) := by
  have hstat : ¬ (bytes.length : Int) < 0 := Int.not_lt.mpr (Int.natCast_nonneg _)
  unfold inputPipeReadyHandle
  dsimp only
  rw [if_neg hstat, Int.toNat_natCast]

/-- A piece that completes no packet. -/
theorem feed_short {p : Piece} (acc : List (List UInt8))
    (h : s.inputBytes + p.bytes.length < packetSize) :
    feed packetSize (s, acc) p =
      ({ s with
        inputBuffer := blit s.inputBuffer 0 p.bytes
        inputBytes := s.inputBytes + p.bytes.length }, acc) := by
  unfold feed
  dsimp only
  rw [ready_handle_eq, if_pos h]
  rfl

/-- A piece that completes a packet: the buffer, with the piece at its start, is read. -/
theorem feed_full {p : Piece} (acc : List (List UInt8)) (hidle : s.packetInInputBuffer = 0)
    (hpos : 0 < packetSize) (hlen : (packetSize : Int) ≤ p.len)
    (h : packetSize ≤ s.inputBytes + p.bytes.length) :
    feed packetSize (s, acc) p =
      ({ s with inputBuffer := blit s.inputBuffer 0 p.bytes, inputBytes := 0 },
        acc ++ [block (blit s.inputBuffer 0 p.bytes) 0 packetSize]) := by
  have hmin : min p.len (packetSize : Int) = packetSize := min_eq_right hlen
  have hone : (0 : UInt8) + 1 ≠ 0 := by decide
  have hback : (0 : UInt8) + 1 - 1 = 0 := by decide
  have hl : ¬ (packetSize : Int) ≤ 0 := by omega
  unfold feed
  dsimp only
  rw [ready_handle_eq, if_neg (Nat.not_lt.mpr h)]
  unfold rbSlaveRead
  dsimp only
  rw [hidle, if_pos rfl, if_neg hone, hmin, if_neg hl, Int.toNat_natCast, hback, ← hidle]

/-- Every piece fits into the buffer, and so nothing behind it is written. -/
theorem feed_outside {p : Piece} (acc : List (List UInt8)) (hfits : p.bytes.length ≤ packetSize)
    {a : Nat} (ha : packetSize ≤ a) :
    (feed packetSize (s, acc) p).1.inputBuffer a = s.inputBuffer a := by
  have hbuffer : (feed packetSize (s, acc) p).1.inputBuffer = blit s.inputBuffer 0 p.bytes := by
    unfold feed
    dsimp only
    rw [ready_handle_eq]
    by_cases h : s.inputBytes + p.bytes.length < packetSize
    · rw [if_pos h]
      rfl
    · rw [if_neg h, if_pos rfl]
      unfold rbSlaveRead
      dsimp only
      split_ifs <;> rfl
  rw [hbuffer, blit_outside _ (Or.inr (by omega))]

theorem foldl_outside (x : RbSlave × List (List UInt8))
    (hfits : ∀ p ∈ ps, p.bytes.length ≤ packetSize) {a : Nat} (ha : packetSize ≤ a) :
    (ps.foldl (feed packetSize) x).1.inputBuffer a = x.1.inputBuffer a := by
  induction ps generalizing x with
  | nil => rfl
  | cons p ps ih =>
    rw [List.foldl_cons, ih _ fun q hq => hfits q (List.mem_cons_of_mem p hq)]
    exact feed_outside x.2 (hfits p List.mem_cons_self) ha

/-- Packets are only added. -/
theorem feed_acc (s : RbSlave) (acc : List (List UInt8)) (p : Piece) :
    feed packetSize (s, acc) p =
      ((feed packetSize (s, []) p).1, acc ++ (feed packetSize (s, []) p).2) := by
  unfold feed
  dsimp only
  split_ifs
  · rw [List.nil_append]
  · rw [List.append_nil]

theorem foldl_acc (s : RbSlave) (acc : List (List UInt8)) (ps : List Piece) :
    ps.foldl (feed packetSize) (s, acc) =
      ((received packetSize s ps).1, acc ++ (received packetSize s ps).2) := by
  induction ps generalizing s acc with
  | nil => exact Prod.ext rfl (List.append_nil acc).symm
  | cons p ps ih =>
    unfold received
    rw [List.foldl_cons, List.foldl_cons, feed_acc, ih, ih _ (feed packetSize (s, []) p).2,
      List.append_assoc]

theorem received_cons (s : RbSlave) (p : Piece) (ps : List Piece) :
    (received packetSize s (p :: ps)).2 =
      (feed packetSize (s, []) p).2 ++ (received packetSize (feed packetSize (s, []) p).1 ps).2 := by
  show (ps.foldl (feed packetSize) (feed packetSize (s, []) p)).2 = _
  rw [foldl_acc]

-- ---------------------------------------------------------------------------
-- Packets
-- ---------------------------------------------------------------------------

theorem packets_short {stream : List UInt8} (h : stream.length < packetSize) :
    packets packetSize stream = [] := by
  unfold packets
  rw [Nat.div_eq_of_lt h]
  rfl

theorem packets_append (hpos : 0 < packetSize) {bytes : List UInt8} (h : bytes.length = packetSize)
    (rest : List UInt8) : packets packetSize (bytes ++ rest) = bytes :: packets packetSize rest := by
  unfold packets
  rw [List.length_append, h, Nat.add_comm, Nat.add_div_right _ hpos, List.range_succ_eq_map,
    List.map_cons, List.map_map, Nat.zero_mul, List.drop_zero, List.take_left' h]
  congr 1
  refine List.map_congr_left fun k _ => ?_
  show ((bytes ++ rest).drop ((k + 1) * packetSize)).take packetSize = _
  rw [Nat.succ_mul, Nat.add_comm, ← List.drop_drop, List.drop_left' h]

-- ---------------------------------------------------------------------------
-- The pieces that come out right
-- ---------------------------------------------------------------------------

theorem received_short (h : s.inputBytes + (ps.map fun p => p.bytes.length).sum < packetSize) :
    (received packetSize s ps).2 = [] := by
  induction ps generalizing s with
  | nil => rfl
  | cons p ps ih =>
    rw [List.map_cons, List.sum_cons] at h
    rw [received_cons, feed_short [] (by omega), List.nil_append]
    exact ih (by show s.inputBytes + p.bytes.length + _ < _; omega)

/-- Whole packets, and a rest that is shorter than a packet. -/
theorem received_whole (hpos : 0 < packetSize) (k : Nat) {rest : List Nat}
    (hrest : rest.sum < packetSize) (hidle : s.packetInInputBuffer = 0) (hzero : s.inputBytes = 0)
    (hcut : Cut packetSize (List.replicate k packetSize ++ rest) ps) :
    (received packetSize s ps).2 = packets packetSize (ps.flatMap Piece.bytes) := by
  induction k generalizing s ps with
  | zero =>
    have hlengths : ps.map (fun p => p.bytes.length) = rest := hcut.lengths
    have hsum : (ps.flatMap Piece.bytes).length = rest.sum := by
      rw [List.length_flatMap, hlengths]
    rw [received_short (by rw [hlengths, hzero, Nat.zero_add]; exact hrest),
      packets_short (by rw [hsum]; exact hrest)]
  | succ k ih =>
    have hlengths := hcut.lengths
    rw [List.replicate_succ, List.cons_append] at hlengths
    obtain ⟨p, ps, rfl, hp, hps⟩ := List.map_eq_cons_iff.mp hlengths
    have hfull := feed_full (s := s) (p := p) [] hidle hpos (hcut.len p List.mem_cons_self)
      (by rw [hp]; omega)
    have hread : block (blit s.inputBuffer 0 p.bytes) 0 packetSize = p.bytes := by
      rw [← hp, block_blit_self]
    rw [received_cons, hfull, hread, List.flatMap_cons, packets_append hpos hp]
    exact congrArg (p.bytes :: ·)
      (ih hidle rfl ⟨hps, fun q hq => hcut.len q (List.mem_cons_of_mem p hq)⟩)

-- ---------------------------------------------------------------------------
-- The pieces that do not
-- ---------------------------------------------------------------------------

/-- A piece of `n` equal bytes. -/
def fill (packetSize n : Nat) (b : UInt8) : Piece := ⟨List.replicate n b, packetSize⟩

theorem block_head (mem : Nat → UInt8) (hpos : 0 < packetSize) :
    (block mem 0 packetSize).head? = some (mem 0) := by
  obtain ⟨n, rfl⟩ : ∃ n, packetSize = n + 1 := ⟨packetSize - 1, by omega⟩
  unfold block
  rw [List.range_succ_eq_map]
  rfl

/-- The first packet starts with the first byte of the piece that completes it. -/
theorem first_packet (hpos : 0 < packetSize) {lengths : List Nat} (hls : ∀ l ∈ lengths, 1 ≤ l)
    (b : UInt8) (hidle : s.packetInInputBuffer = 0) (hlt : s.inputBytes < packetSize)
    (h : packetSize ≤ s.inputBytes + lengths.sum) :
    ∃ packet rest, (received packetSize s (lengths.map (fill packetSize · b))).2 = packet :: rest ∧
      packet.head? = some b := by
  induction lengths generalizing s with
  | nil => exact absurd (Nat.lt_of_lt_of_le hlt h) (Nat.lt_irrefl _)
  | cons l lengths ih =>
    have hlength : (fill packetSize l b).bytes.length = l := List.length_replicate
    rw [List.sum_cons] at h
    rw [List.map_cons, received_cons]
    by_cases hshort : s.inputBytes + l < packetSize
    · rw [feed_short [] (by rw [hlength]; exact hshort), hlength, List.nil_append]
      refine ih (fun m hm => hls m (List.mem_cons_of_mem l hm)) hidle hshort ?_
      show packetSize ≤ s.inputBytes + l + lengths.sum
      omega
    · rw [feed_full [] hidle hpos (Int.le_refl _) (by rw [hlength]; omega)]
      refine ⟨_, _, rfl, ?_⟩
      have hl := hls l List.mem_cons_self
      have hfirst : (fill packetSize l b).bytes[0]? = some b := by
        unfold fill
        rw [List.getElem?_replicate, if_pos (by omega)]
      have hinside := @blit_inside _ s.inputBuffer 0 0 (fill packetSize l b).bytes
        (by rw [hlength]; omega)
      rw [block_head _ hpos, ← hfirst, hinside]

theorem packets_head {stream : List UInt8} (hpos : 0 < packetSize) (h : packetSize ≤ stream.length) :
    ∃ packet rest, packets packetSize stream = packet :: rest ∧ packet.head? = stream.head? := by
  refine ⟨stream.take packetSize, packets packetSize (stream.drop packetSize), ?_, ?_⟩
  · rw [← packets_append hpos (by rw [List.length_take, Nat.min_eq_left h]),
      List.take_append_drop]
  · rw [List.head?_take, if_neg hpos.ne']

/-- The bridge before the first piece. -/
def idle : RbSlave := ⟨0, fun _ => 0, 0, 0, fun _ => 0⟩

/-- A first piece that is shorter than a packet must not be followed by others that
complete one. -/
theorem sum_lt_of_reassembles (hpos : 0 < packetSize) {l : Nat} {lengths : List Nat}
    (hls : ∀ m ∈ l :: lengths, 1 ≤ m) (hl : l < packetSize)
    (h : Reassembles packetSize (l :: lengths)) : (l :: lengths).sum < packetSize := by
  by_contra hsum
  rw [List.sum_cons] at hsum
  have hl1 := hls l List.mem_cons_self
  have hfill : ∀ n b, (fill packetSize n b).bytes.length = n := fun n b => List.length_replicate
  have hmap : (lengths.map (fill packetSize · 1)).map (fun p => p.bytes.length) = lengths := by
    rw [List.map_map]
    conv_rhs => rw [← List.map_id lengths]
    exact List.map_congr_left fun n _ => hfill n 1
  have hcut : Cut packetSize (l :: lengths)
      (fill packetSize l 0 :: lengths.map (fill packetSize · 1)) := by
    refine ⟨by rw [List.map_cons, hmap, hfill], fun p hp => ?_⟩
    rcases List.mem_cons.mp hp with rfl | hp
    · exact Int.le_refl _
    · obtain ⟨n, -, rfl⟩ := List.mem_map.mp hp
      exact Int.le_refl _
  obtain ⟨hpackets, -⟩ := h idle _ rfl rfl hcut
  -- What is read starts with a 1, and the stream with a 0.
  have hshort := @feed_short packetSize idle (fill packetSize l 0) []
    (by rw [hfill]; show 0 + l < packetSize; omega)
  obtain ⟨packet, rest, hread, hone⟩ := @first_packet packetSize
    (feed packetSize (idle, []) (fill packetSize l 0)).1 hpos lengths
    (fun m hm => hls m (List.mem_cons_of_mem l hm)) 1 (by rw [hshort]; rfl)
    (by rw [hshort, hfill]; show 0 + l < packetSize; omega)
    (by rw [hshort, hfill]; show packetSize ≤ 0 + l + lengths.sum; omega)
  have hlength : ((fill packetSize l 0 :: lengths.map (fill packetSize · 1)).flatMap
      Piece.bytes).length = l + lengths.sum := by
    rw [List.length_flatMap, List.map_cons, hmap, hfill, List.sum_cons]
  obtain ⟨packet', rest', hstream, hzero⟩ := packets_head hpos (by rw [hlength]; omega)
  rw [received_cons, hread, hshort, List.nil_append, hstream] at hpackets
  obtain ⟨rfl, -⟩ := List.cons.inj hpackets
  obtain ⟨n, rfl⟩ : ∃ n, l = n + 1 := ⟨l - 1, by omega⟩
  have heq : some (1 : UInt8) = some 0 := hone.symm.trans hzero
  exact absurd heq (by decide)

/-- A whole packet of what is in the buffer leaves the bridge as it is. -/
theorem Reassembles.tail (hpos : 0 < packetSize) {lengths : List Nat}
    (h : Reassembles packetSize (packetSize :: lengths)) : Reassembles packetSize lengths := by
  intro s ps hidle hzero hcut
  have hlength : (block s.inputBuffer 0 packetSize).length = packetSize := block_length _ _ _
  have hsame : blit s.inputBuffer 0 (block s.inputBuffer 0 packetSize) = s.inputBuffer := by
    rw [blit_eq_self_iff]
    intro i hi
    rw [hlength] at hi
    unfold block
    rw [List.getElem?_map, List.getElem?_range hi]
    rfl
  have hfirst : feed packetSize (s, []) ⟨block s.inputBuffer 0 packetSize, packetSize⟩ =
      (s, [block s.inputBuffer 0 packetSize]) := by
    rw [feed_full [] hidle hpos (Int.le_refl _) (by show _ ≤ _ + (block _ _ _).length; omega)]
    dsimp only
    rw [hsame, ← hzero]
    rfl
  have hcut' : Cut packetSize (packetSize :: lengths)
      (⟨block s.inputBuffer 0 packetSize, packetSize⟩ :: ps) := by
    refine ⟨by rw [List.map_cons, hcut.lengths, hlength], fun p hp => ?_⟩
    rcases List.mem_cons.mp hp with rfl | hp
    · exact Int.le_refl _
    · exact hcut.len p hp
  obtain ⟨hpackets, houtside⟩ := h s _ hidle hzero hcut'
  refine ⟨?_, fun n a ha => ?_⟩
  · rw [received_cons, hfirst, List.flatMap_cons, packets_append hpos hlength] at hpackets
    exact (List.cons.inj hpackets).2
  · have hlater := houtside (n + 1) a ha
    rw [List.take_succ_cons] at hlater
    unfold received at hlater ⊢
    rwa [List.foldl_cons, hfirst, foldl_acc] at hlater

/-- **Reassembly.** The packets read are those of the stream, whatever its bytes are, if and
only if the pieces are whole packets, with at most a rest that completes no packet. -/
theorem reassembles_iff {packetSize : Nat} (hpos : 1 ≤ packetSize) {lengths : List Nat}
    (hls : ∀ l ∈ lengths, 1 ≤ l ∧ l ≤ packetSize) :
    Reassembles packetSize lengths ↔
      ∃ k rest, lengths = List.replicate k packetSize ++ rest ∧ rest.sum < packetSize := by
  constructor
  · intro h
    induction lengths with
    | nil => exact ⟨0, [], rfl, hpos⟩
    | cons l lengths ih =>
      rcases Nat.lt_or_eq_of_le (hls l List.mem_cons_self).2 with hlt | rfl
      · have hsum := sum_lt_of_reassembles hpos (fun m hm => (hls m hm).1) hlt h
        exact ⟨0, l :: lengths, rfl, hsum⟩
      · obtain ⟨k, rest, rfl, hrest⟩ :=
          ih (fun m hm => hls m (List.mem_cons_of_mem l hm)) (h.tail hpos)
        exact ⟨k + 1, rest, by rw [List.replicate_succ, List.cons_append], hrest⟩
  · rintro ⟨k, rest, rfl, hrest⟩ s ps hidle hzero hcut
    refine ⟨received_whole hpos k hrest hidle hzero hcut, fun n a ha => ?_⟩
    refine foldl_outside _ (fun p hp => ?_) ha
    have hmem : p.bytes.length ∈ List.replicate k packetSize ++ rest := by
      rw [← hcut.lengths]
      exact List.mem_map_of_mem (List.mem_of_mem_take hp)
    exact (hls _ hmem).2

/-- Two packets of four bytes, and the first three bytes of the next. -/
theorem reassembles_whole : Reassembles 4 [4, 4, 3] :=
  (reassembles_iff (by decide) (by decide)).mpr ⟨2, [3], rfl, by decide⟩

/-- A packet of four bytes in two halves. -/
theorem reassembles_halves :
    (received 4 idle [⟨[1, 2], 4⟩, ⟨[3, 4], 4⟩]).2 = [[3, 4, 0, 0]] ∧ ¬ Reassembles 4 [2, 2] := by
  have hread : (received 4 idle [⟨[1, 2], 4⟩, ⟨[3, 4], 4⟩]).2 = [[3, 4, 0, 0]] := by decide
  refine ⟨hread, fun h => ?_⟩
  obtain ⟨hpackets, -⟩ := h idle [⟨[1, 2], 4⟩, ⟨[3, 4], 4⟩] rfl rfl ⟨rfl, by decide⟩
  rw [hread] at hpackets
  exact absurd hpackets (by decide)

end RbSlave

end Bathos.Radio
