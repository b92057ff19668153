import Bathos.Drivers.Dev
import Bathos.Lib.Memory
import Bathos.Lininoio.Buffers

/-!
# Bathos — received lininoio packets, byte by byte

`__process_input` again, now on the memory a packet lies in: which records
`__process_areply` looks at, and which bytes `__process_data` hands to a channel.

`__process_areply` keeps two cursors, the bytes `processed` and the pointer `adata`. The
first starts behind the whole structure and moves over `p->adata` and the data of a record,
the second starts at `p->adata` and moves over one record, and neither is compared with what
is left of the packet. Whatever the size of the array `p->adata` is, they part.
`__process_data` passes on `data`, which is the module's own structure, and does not look at
the size.

Main results:

* `walked_iff` — the reply packets that are walked through as they should be;
* `dataDelivered_iff` — the data packets that are.
-/

namespace Bathos.Lininoio

open Bathos.Lib Bathos.Drivers

-- ---------------------------------------------------------------------------
-- Packets in memory
-- ---------------------------------------------------------------------------

/-- The parts of `lininoio.h` the receiving side uses: the values of `type`, the places of
`type`, `status` and `cdlen` in a packet and of `chan_dlen` in a record, how a word is
loaded, and the sizes of a data packet's header and of a record. `p->adata` is an array of
`nadata` records (of none, where it is declared with a zero) inside the structure of a
reply, whose size counts it. -/
structure Layout extends Config where
  typeAreply : UInt8
  typeData : UInt8
  types_ne : typeAreply ≠ typeData
  offType : Nat
  offStatus : Nat
  offCdlen : Nat
  offChanDlen : Nat
  word : UInt8 → UInt8 → UInt16
  sizeofData : Nat
  sizeofRecord : Nat
  record_le : offChanDlen + 2 ≤ sizeofRecord
  offAdata : Nat
  nadata : Nat
  adata_size : sizeofAdata = nadata * sizeofRecord
  adata_inside : offAdata + sizeofAdata ≤ sizeofAreply

/-- Where a pointer handed to a channel points to. -/
inductive Ptr where
  | packet (offset : Nat)
  | globalData
deriving DecidableEq, Repr

/-- What `__process_input` does: it looks at a record, with the value of `processed` there
and the length found, or calls an operation of a channel. -/
inductive Act where
  | examined (record processed : Nat) (len : UInt16)
  | setup (cindex : UInt8) (record : Nat)
  | input (cindex : UInt8) (buf : Ptr) (len : UInt16)
deriving DecidableEq, Repr

namespace Layout

variable (cfg : Layout) (pkt : Nat → UInt8)

/-- The word at an offset, as channel and length. -/
def decode (offset : Nat) : UInt8 × UInt16 :=
  cfg.decodeCdlen (cfg.word (pkt offset) (pkt (offset + 1)))

/-- Channel and length of the record at an offset. -/
def record (offset : Nat) : UInt8 × UInt16 := cfg.decode pkt (offset + cfg.offChanDlen)

/-- The length of the data of the record at an offset. -/
def dlen (offset : Nat) : Nat := (cfg.record pkt offset).2.toNat

/-- `ops->setup(c, adata)`, if there is such a channel with such an operation. -/
def callSetup (cindex : UInt8) (adata : Nat) : List Act :=
  match cfg.channels[cindex.toNat]? with
  | none => []
  | some c => if c.setup.isSome then [.setup cindex adata] else []

/-- The loop of `__process_areply`, for `fuel` tests at most. -/
def areplyActs (sz : Nat) : Nat → Nat → Nat → Option (List Act)
  | 0, _, _ => none
  | fuel + 1, processed, adata =>
    if processed < sz then
      let (cindex, len) := cfg.record pkt adata
      (areplyActs sz fuel (processed + (len.toNat + cfg.sizeofAdata)) (adata + cfg.sizeofRecord)).map
        fun acts => .examined adata processed len :: (cfg.callSetup cindex adata ++ acts)
    else some []

/-- `__process_areply`. -/
def processAreply (sz fuel : Nat) : Option (List Act) :=
  if pkt cfg.offStatus ≠ 0 then some []
  else cfg.areplyActs pkt sz fuel cfg.sizeofAreply cfg.offAdata

/-- `__process_data`, which does not use the size. -/
def processData : List Act :=
  let (cindex, len) := cfg.decode pkt cfg.offCdlen
  match cfg.channels[cindex.toNat]? with
  | none => []
  | some c => if c.input.isSome then [.input cindex .globalData len] else []

/-- `__process_input`, on a buffer with `sz` bytes of data. -/
def processInput (sz fuel : Nat) : Option (List Act) :=
  if pkt cfg.offType = cfg.typeAreply then cfg.processAreply pkt sz fuel
  else if pkt cfg.offType = cfg.typeData then some (cfg.processData pkt)
  else some []

-- ---------------------------------------------------------------------------
-- The loop, and the one that does not see bytes
-- ---------------------------------------------------------------------------

/-- On the words of consecutive records `areplyLoop` ends exactly if this loop does. -/
theorem areplyActs_isSome (sz : Nat) (s : LininoioData) (fuel processed adata : Nat) :
    (cfg.areplyActs pkt sz (fuel + 1) processed adata).isSome =
      (LininoioData.areplyLoop cfg.toConfig sz processed
        ((List.range fuel).map fun i =>
          cfg.word (pkt (adata + i * cfg.sizeofRecord + cfg.offChanDlen))
            (pkt (adata + i * cfg.sizeofRecord + cfg.offChanDlen + 1))) s).isSome := by
  induction fuel generalizing processed adata s with
  | zero =>
    unfold areplyActs LininoioData.areplyLoop
    by_cases hmore : processed < sz
    · simp [hmore, areplyActs]
    · simp [hmore]
  | succ fuel ih =>
    unfold areplyActs LininoioData.areplyLoop
    by_cases hmore : processed < sz
    · rw [List.range_succ_eq_map, List.map_cons, List.map_map, if_pos hmore, if_pos hmore]
      simp only [Option.isSome_map, Nat.zero_mul, Nat.add_zero]
      rw [ih]
      simp only [Function.comp_def, Nat.succ_mul, Nat.add_assoc, Nat.add_comm cfg.sizeofRecord]
      rfl
    · rw [if_neg hmore, if_neg hmore]
      rfl

-- ---------------------------------------------------------------------------
-- Replies
-- ---------------------------------------------------------------------------

theorem sizeofRecord_pos : 0 < cfg.sizeofRecord := by
  have := cfg.record_le
  omega

/-- The complete records of a packet, from an offset on. -/
def records (sz offset : Nat) : List Nat :=
  if offset + cfg.sizeofRecord + cfg.dlen pkt offset ≤ sz then
    offset :: records sz (offset + cfg.sizeofRecord + cfg.dlen pkt offset)
  else []
termination_by sz + 1 - offset
decreasing_by
  have := cfg.sizeofRecord_pos
  omega

def Act.isSetup : Act → Bool
  | .setup _ _ => true
  | _ => false

/-- Every record looked at lies in the packet, where `processed` says. -/
def Inside (sz : Nat) (acts : List Act) : Prop :=
  ∀ adata processed len, .examined adata processed len ∈ acts →
    adata = processed ∧ adata + cfg.sizeofRecord + len.toNat ≤ sz

/-- The packet is gone through to its end, inside it, and exactly its complete records are
set up, in their order. -/
def Walked (sz : Nat) : Prop :=
  ∃ fuel acts, cfg.processInput pkt sz fuel = some acts ∧ cfg.Inside sz acts ∧
    acts.filter Act.isSetup =
      (cfg.records pkt sz cfg.offAdata).flatMap fun o => cfg.callSetup (cfg.record pkt o).1 o

/-- No complete record of the packet is for a channel with a setup operation. -/
def NoSetup (sz : Nat) : Prop :=
  ∀ o ∈ cfg.records pkt sz cfg.offAdata, cfg.callSetup (cfg.record pkt o).1 o = []

section Loop

variable {cfg pkt} {sz fuel processed adata offset : Nat} {acts : List Act}

/-- A turn looks at a record. -/
theorem areplyActs_more (hmore : processed < sz)
    (h : cfg.areplyActs pkt sz fuel processed adata = some acts) :
    ∃ fuel' acts', fuel = fuel' + 1 ∧
      cfg.areplyActs pkt sz fuel' (processed + (cfg.dlen pkt adata + cfg.sizeofAdata))
        (adata + cfg.sizeofRecord) = some acts' ∧
      acts = .examined adata processed (cfg.record pkt adata).2 ::
        (cfg.callSetup (cfg.record pkt adata).1 adata ++ acts') := by
  cases fuel with
  | zero => cases h
  | succ fuel =>
    unfold areplyActs at h
    rw [if_pos hmore] at h
    obtain ⟨acts', hrest, hacts⟩ := Option.map_eq_some_iff.mp h
    exact ⟨fuel, acts', rfl, hrest, hacts.symm⟩

theorem Inside.tail {a : Act} {l : List Act} (h : cfg.Inside sz (a :: (l ++ acts))) :
    cfg.Inside sz acts := fun adata processed len hmem =>
  h adata processed len (List.mem_cons_of_mem _ (List.mem_append_right _ hmem))

theorem Inside.head {len : UInt16} {l : List Act}
    (h : cfg.Inside sz (.examined adata processed len :: l)) :
    adata = processed ∧ adata + cfg.sizeofRecord + len.toNat ≤ sz :=
  h adata processed len List.mem_cons_self

/-- A turn inside the packet that is not the last one has the next record behind it. -/
theorem areplyActs_next (hmore : offset < sz)
    (h : cfg.areplyActs pkt sz fuel offset offset = some acts) (hin : cfg.Inside sz acts) :
    offset + cfg.sizeofRecord + cfg.dlen pkt offset ≤ sz ∧
      (offset + (cfg.dlen pkt offset + cfg.sizeofAdata) < sz →
        cfg.sizeofRecord = cfg.dlen pkt offset + cfg.sizeofAdata ∧
        ∃ fuel' < fuel, ∃ acts', cfg.areplyActs pkt sz fuel' (offset + cfg.sizeofRecord)
          (offset + cfg.sizeofRecord) = some acts' ∧ cfg.Inside sz acts') := by
  obtain ⟨fuel', acts', rfl, hrest, rfl⟩ := areplyActs_more hmore h
  refine ⟨hin.head.2, fun hnext => ?_⟩
  obtain ⟨-, acts'', -, -, hacts⟩ := areplyActs_more hnext hrest
  have hstep : offset + cfg.sizeofRecord = offset + (cfg.dlen pkt offset + cfg.sizeofAdata) := by
    have hin' := hin.tail
    rw [hacts] at hin'
    exact hin'.head.1
  refine ⟨Nat.add_left_cancel hstep, fuel', Nat.lt_succ_self fuel', acts', ?_, hin.tail⟩
  rwa [← hstep] at hrest

/-- With an array of no records the cursors stay together over one record, but then the
loop does not stop inside the packet. -/
theorem not_inside_of_lt (hadata : cfg.sizeofAdata < cfg.sizeofRecord) (hmore : offset < sz)
    (h : cfg.areplyActs pkt sz fuel offset offset = some acts) : ¬ cfg.Inside sz acts := by
  intro hin
  induction fuel using Nat.strong_induction_on generalizing offset acts with
  | _ fuel ih =>
    obtain ⟨hfits, hnext⟩ := areplyActs_next hmore h hin
    obtain ⟨hlen, fuel', hfuel, acts', hrest, hin'⟩ := hnext (by omega)
    exact ih fuel' hfuel (by omega) hrest hin'

/-- A loop that is entered does not stay inside the packet: with records in the array the
cursors start apart, without one they run apart. -/
theorem not_inside (hmore : cfg.sizeofAreply < sz)
    (h : cfg.areplyActs pkt sz fuel cfg.sizeofAreply cfg.offAdata = some acts) :
    ¬ cfg.Inside sz acts := by
  intro hin
  have hstart : cfg.offAdata = cfg.sizeofAreply := by
    obtain ⟨fuel', acts', -, -, hacts⟩ := areplyActs_more hmore h
    rw [hacts] at hin
    exact hin.head.1
  have hadata : cfg.sizeofAdata < cfg.sizeofRecord := by
    have hinside := cfg.adata_inside
    have hpos := cfg.sizeofRecord_pos
    omega
  rw [hstart] at h
  exact not_inside_of_lt hadata hmore h hin

/-- A packet that ends with the structure is not looked at. -/
theorem areplyActs_of_end (hend : sz ≤ processed) (fuel : Nat) :
    cfg.areplyActs pkt sz (fuel + 1) processed adata = some [] := by
  unfold areplyActs
  rw [if_neg (Nat.not_lt.mpr hend)]

theorem records_of_end (h : sz ≤ offset) : cfg.records pkt sz offset = [] := by
  have hpos := cfg.sizeofRecord_pos
  rw [records, if_neg (by omega)]

end Loop

-- ---------------------------------------------------------------------------
-- Data
-- ---------------------------------------------------------------------------

/-- The channel exists and has an input operation. -/
def HasInput (cindex : UInt8) : Prop :=
  (cfg.channels[cindex.toNat]?.bind Channel.input).isSome = true

/-- A data packet for such a channel with all of its payload. -/
def Complete (sz : Nat) : Prop :=
  cfg.HasInput (cfg.decode pkt cfg.offCdlen).1 ∧
    cfg.sizeofData + (cfg.decode pkt cfg.offCdlen).2.toNat ≤ sz

instance : DecidablePred cfg.HasInput := fun _ => inferInstanceAs (Decidable (_ = true))

instance (sz : Nat) : Decidable (cfg.Complete pkt sz) := inferInstanceAs (Decidable (_ ∧ _))

/-- The bytes behind a pointer. -/
def bytesAt (globalData : Nat → UInt8) (buf : Ptr) (len : UInt16) : List UInt8 :=
  match buf with
  | .packet offset => block pkt offset len.toNat
  | .globalData => block globalData 0 len.toNat

/-- `lininoio_dev_input`, for a device or `NULL` in `ch->data->priv`. -/
def lininoioDevInput (src : List UInt8) (dev : Option (List DevData)) : Option (List DevData) :=
  dev.map fun ds => (devPushChars src ds).2.1

/-- What a device on a channel receives. -/
def receive (globalData : Nat → UInt8) (channel : UInt8) (dev : Option (List DevData)) (act : Act) :
    Option (List DevData) :=
  match act with
  | .input cindex buf len =>
    if cindex = channel then lininoioDevInput (bytesAt pkt globalData buf len) dev else dev
  | _ => dev

/-- The input operation is called with the payload of a complete packet, otherwise not, and
a device on the channel gets just this payload. -/
structure Delivered (sz : Nat) : Prop where
  calls : ∀ fuel, cfg.processInput pkt sz fuel =
    some (if cfg.Complete pkt sz then
      [.input (cfg.decode pkt cfg.offCdlen).1 (.packet cfg.sizeofData)
        (cfg.decode pkt cfg.offCdlen).2] else [])
  received : ∀ fuel acts, cfg.processInput pkt sz fuel = some acts → ∀ globalData channel dev,
    acts.foldl (receive pkt globalData channel) dev =
      if cfg.Complete pkt sz ∧ channel = (cfg.decode pkt cfg.offCdlen).1 then
        lininoioDevInput (block pkt cfg.sizeofData (cfg.decode pkt cfg.offCdlen).2.toNat) dev
      else dev

variable {cfg pkt} {sz : Nat}

/-- The channel gets the module's own data. -/
theorem processData_eq (cfg : Layout) (pkt : Nat → UInt8) :
    cfg.processData pkt = if cfg.HasInput (cfg.decode pkt cfg.offCdlen).1 then
      [.input (cfg.decode pkt cfg.offCdlen).1 .globalData (cfg.decode pkt cfg.offCdlen).2] else [] := by
  show _ = if (cfg.channels[(cfg.decode pkt cfg.offCdlen).1.toNat]?.bind Channel.input).isSome = true
    then _ else _
  unfold processData
  simp only
  cases cfg.channels[(cfg.decode pkt cfg.offCdlen).1.toNat]? with
  | none => rfl
  | some c => rfl

theorem processInput_data (htype : pkt cfg.offType = cfg.typeData) (sz fuel : Nat) :
    cfg.processInput pkt sz fuel = some (cfg.processData pkt) := by
  unfold processInput
  rw [if_neg (htype ▸ cfg.types_ne.symm), if_pos htype]

theorem processInput_areply (htype : pkt cfg.offType = cfg.typeAreply)
    (hstatus : pkt cfg.offStatus = 0) (sz fuel : Nat) :
    cfg.processInput pkt sz fuel = cfg.areplyActs pkt sz fuel cfg.sizeofAreply cfg.offAdata := by
  unfold processInput processAreply
  rw [if_pos htype, if_neg (not_not.mpr hstatus)]

end Layout

open Layout

-- ---------------------------------------------------------------------------
-- The packets received right
-- ---------------------------------------------------------------------------

/-- **Replies.** A reply that grants the association is gone through as it should be exactly
if nothing comes after its structure and no complete record in it is to be set up. -/
theorem walked_iff (cfg : Layout) (pkt : Nat → UInt8) (sz : Nat)
    (htype : pkt cfg.offType = cfg.typeAreply) (hstatus : pkt cfg.offStatus = 0) :
    cfg.Walked pkt sz ↔ sz ≤ cfg.sizeofAreply ∧ cfg.NoSetup pkt sz := by
  unfold Walked
  simp only [processInput_areply htype hstatus]
  constructor
  · rintro ⟨fuel, acts, hacts, hin, hsetup⟩
    have hend : sz ≤ cfg.sizeofAreply := Nat.not_lt.mp fun hmore => not_inside hmore hacts hin
    refine ⟨hend, List.flatMap_eq_nil_iff.mp ?_⟩
    cases fuel with
    | zero => cases hacts
    | succ fuel =>
      rw [areplyActs_of_end hend] at hacts
      cases hacts
      exact hsetup.symm
  · rintro ⟨hend, hnone⟩
    refine ⟨1, [], areplyActs_of_end hend 0, fun _ _ _ hmem => absurd hmem List.not_mem_nil, ?_⟩
    exact (List.flatMap_eq_nil_iff.mpr hnone).symm

/-- **Data.** A data packet is delivered as it should be exactly if there is nobody to deliver
it to. -/
theorem dataDelivered_iff (cfg : Layout) (pkt : Nat → UInt8) (sz : Nat)
    (htype : pkt cfg.offType = cfg.typeData) :
    cfg.Delivered pkt sz ↔ ¬ cfg.HasInput (cfg.decode pkt cfg.offCdlen).1 := by
  constructor
  · intro h hinput
    have hcall := h.calls 0
    rw [processInput_data htype, processData_eq, if_pos hinput] at hcall
    split at hcall <;> simp at hcall
  · intro hnone
    have hnot : ¬ cfg.Complete pkt sz := fun hcomplete => hnone hcomplete.1
    have hrun : ∀ fuel, cfg.processInput pkt sz fuel = some [] := fun fuel => by
      rw [processInput_data htype, processData_eq, if_neg hnone]
    refine ⟨fun fuel => ?_, fun fuel acts hacts globalData channel dev => ?_⟩
    · rw [hrun, if_neg hnot]
    · rw [hrun] at hacts
      cases hacts
      rw [if_neg fun h => hnot h.1]
      rfl

-- ---------------------------------------------------------------------------
-- Some packets
-- ---------------------------------------------------------------------------

/-- Headers of two and four bytes, little-endian words, and one channel. The array
`p->adata` has one record, so that the structure of a reply has four bytes. -/
def smallLayout : Layout where
  toConfig := { smallConfig with channels := [⟨1, some fun _ => 0, some fun _ => 0⟩] }
  typeAreply := 2
  typeData := 3
  types_ne := by decide
  offType := 0
  offStatus := 1
  offCdlen := 2
  offChanDlen := 0
  word := fun lo hi => lo.toUInt16 ||| hi.toUInt16 <<< 8
  sizeofData := 4
  sizeofRecord := 2
  record_le := le_rfl
  offAdata := 2
  nadata := 1
  adata_size := rfl
  adata_inside := le_rfl

/-- A reply without records. -/
theorem walked_empty : smallLayout.Walked ([2, 0].getD · 0) 2 := by
  refine (walked_iff smallLayout ([2, 0].getD · 0) 2 rfl rfl).mpr ⟨by decide, fun o hmem => ?_⟩
  rw [records_of_end (show 2 ≤ smallLayout.offAdata from le_rfl)] at hmem
  exact absurd hmem List.not_mem_nil

/-- One record with two bytes: it is looked at with `processed` behind it. -/
theorem record_with_data :
    ¬ ∀ (cfg : Layout) (pkt : Nat → UInt8) (sz : Nat), pkt cfg.offType = cfg.typeAreply →
      pkt cfg.offStatus = 0 → cfg.Walked pkt sz := by
  intro hall
  obtain ⟨fuel, acts, hacts, hin, -⟩ := hall smallLayout ([2, 0, 2, 0, 7, 7].getD · 0) 6 rfl rfl
  rw [processInput_areply rfl rfl] at hacts
  exact not_inside (by decide) hacts hin

/-- Channel 5 does not exist. -/
theorem delivered_nobody : smallLayout.Delivered ([3, 0, 2, 0x50, 7, 7].getD · 0) 6 :=
  (dataDelivered_iff smallLayout ([3, 0, 2, 0x50, 7, 7].getD · 0) 6 rfl).mpr (by decide +kernel)

/-- Two bytes for channel 0: it gets the address of the module's own data. -/
theorem wrong_address :
    ¬ ∀ (cfg : Layout) (pkt : Nat → UInt8) (sz : Nat), pkt cfg.offType = cfg.typeData →
      cfg.Delivered pkt sz := by
  intro hall
  have hcall := (hall smallLayout ([3, 0, 2, 0, 7, 7].getD · 0) 6 rfl).calls 0
  rw [processInput_data rfl] at hcall
  exact absurd hcall (by decide +kernel)

end Bathos.Lininoio
