import Bathos.Usb.Setup

/-!
# Bathos — the tables read for a SETUP packet

Which entries of `usb_endpoints[]`, of the descriptor tables and of `ep->dev[]` are
read for a SETUP packet. The indexes come from the host: `wIndex` is taken whole
where an endpoint is meant, although its bit 7 is the direction; a descriptor is
fetched before its index is compared with the size of the table; and the number of an
interface is not compared with anything.

Entry 0 of `usb_endpoints[]`, which every submit reads, is not listed.

Main results:

* `setup_eq_none_iff` — the entries of `usb_endpoints[]` listed are those that `setup`
  uses: it has no answer exactly when one of them is past the end;
* `tables_in_bounds_iff` — the packets for which all entries exist, and whose answer is
  a stall if they name something that does not.
-/

namespace Bathos.Usb

open Bathos.Lib

/-- An entry of a table that is read. -/
inductive TableRead where
  | usbEndpoints (index : Nat)
  | descriptors (type index : Nat)
  | dev (index : Nat)
deriving DecidableEq, Repr

/-- `ep_number` of an endpoint address: bit 7 is the direction. -/
def epNumber (address : Nat) : Nat := address % 0x80

namespace Controller

variable (t : Tables)

/-- The reads of `handle_get_descriptor`: the entry is fetched first. -/
def getDescriptorReads (type index : Nat) : List TableRead :=
  match descriptors t type with
  | none => []
  | some _ => [.descriptors type index]

/-- The reads of `handle_device_request`. -/
def deviceReads (p : SetupData) : List TableRead :=
  if ¬ isStandardRequest p.bmRequestType then []
  else
    match p.request with
    | .getDescriptor => getDescriptorReads t (descrType p.value) (descrIndex p.value)
    | _ => []

/-- The read of `SET_FEATURE` and `CLEAR_FEATURE`. -/
def featureReads (p : SetupData) : List TableRead :=
  if p.index = 0 then [] else if p.value ≠ 0 then [] else [.usbEndpoints p.index]

/-- The reads of `handle_endpoint_request`. -/
def endpointReads (p : SetupData) : List TableRead :=
  if ¬ isStandardRequest p.bmRequestType then []
  else
    match p.request with
    | .getStatus => [.usbEndpoints p.index]
    | .setFeature => featureReads p
    | .clearFeature => featureReads p
    | .synchFrame => [.usbEndpoints p.index]
    | _ => []

/-- The reads of `usb_device_controller_setup`, with those of
`usb_device_ctrl_ep_setup` for a packet that is forwarded. -/
def tableReads (p : SetupData) (c : Controller) : List TableRead :=
  match p.recipient with
  | .device => deviceReads t p
  | .interface => if (c.handleInterfaceRequest t p).1 = 0 then [] else [.dev p.wIndexL.toNat]
  | .endpoint => endpointReads p
  | .other => []

-- ---------------------------------------------------------------------------
-- In bounds
-- ---------------------------------------------------------------------------

/-- The entry exists; an endpoint is the one named by the low bits of `wIndex`. -/
def Exists (interfaces : Nat) (p : SetupData) : TableRead → Prop
  | .usbEndpoints i => i = epNumber p.index ∧ i < t.usbEndpoints.length
  | .descriptors type i => ∃ ds, descriptors t type = some ds ∧ i < ds.length
  | .dev i => i < interfaces

/-- There is a read past the end of `usb_endpoints[]`. -/
def PastEnd (rs : List TableRead) : Prop :=
  ∃ i, .usbEndpoints i ∈ rs ∧ t.usbEndpoints.length ≤ i

/-- The packet is to the device, and asks for no descriptor that does not exist, or it
is to an interface or an endpoint that exists. -/
def NamesExisting (interfaces : Nat) (p : SetupData) : Prop :=
  match p.recipient with
  | .device => isStandardRequest p.bmRequestType = true → p.request = .getDescriptor →
    Exists t interfaces p (.descriptors (descrType p.value) (descrIndex p.value))
  | .interface => p.wIndexL.toNat < interfaces
  | .endpoint => epNumber p.index < t.usbEndpoints.length
  | .other => False

/-- The answer is a stall, and no state of an endpoint changes. -/
structure Stalled (c c' : Controller) : Prop where
  answer : c'.answers = c.answers ++ [.submitted protocolStallBuf]
  epStall : c'.epStall = c.epStall
  mem : c'.tx.mem = c.tx.mem

/-- Only entries that exist are read, and a packet that names anything else is
answered with a stall. -/
structure TablesInBounds (interfaces : Nat) (p : SetupData) (c : Controller) : Prop where
  reads : ∀ r ∈ tableReads t p c, Exists t interfaces p r
  stalled : ¬ NamesExisting t interfaces p →
    ∃ ret c', c.setup t p = some (ret, c') ∧ Stalled c c'

/-- A standard request that an interface answers with a stall. -/
def InterfaceStalls : Request → Bool
  | .getStatus | .clearFeature | .setFeature | .getInterface | .setInterface => false
  | _ => true

/-- The condition on a request to an endpoint: the whole of `wIndex` is the number of
an endpoint where its entry is read, and its low bits are one elsewhere; a request that
is not supported is stalled. -/
def EndpointInBounds (p : SetupData) : Prop :=
  let used := p.index < 0x80 ∧ p.index < t.usbEndpoints.length
  let named := epNumber p.index < t.usbEndpoints.length
  if isStandardRequest p.bmRequestType = true then
    match p.request with
    | .getStatus | .synchFrame => used
    | .setFeature | .clearFeature => if p.index ≠ 0 ∧ p.value = 0 then used else named
    | _ => True
  else named

/-- The condition: a descriptor asked for is in its table, or the table is not known;
an interface exists, or the request is not supported and there is a slot for the
stall; and that on endpoints. -/
def InBounds (interfaces : Nat) (p : SetupData) (c : Controller) : Prop :=
  match p.recipient with
  | .device => isStandardRequest p.bmRequestType = true → p.request = .getDescriptor →
    ∀ ds, descriptors t (descrType p.value) = some ds → descrIndex p.value < ds.length
  | .interface => p.wIndexL.toNat < interfaces ∨
    (isStandardRequest p.bmRequestType = true ∧ InterfaceStalls p.request = true ∧
      c.tx.findFreeTxSlot ≠ none)
  | .endpoint => EndpointInBounds t p
  | .other => True

variable {t} {interfaces : Nat} {p : SetupData} {c : Controller}

-- ---------------------------------------------------------------------------
-- The entries of endpoints
-- ---------------------------------------------------------------------------

theorem not_pastEnd_nil : ¬ PastEnd t [] := fun ⟨_, hmem, _⟩ => absurd hmem List.not_mem_nil

theorem pastEnd_singleton_iff (i : Nat) :
    PastEnd t [.usbEndpoints i] ↔ t.usbEndpoints.length ≤ i := by
  simp [PastEnd]

/-- An answer from an entry, if it exists. -/
theorem lookup_eq_none_iff {α : Type} (f : EndpointData → α) (i : Nat) :
    t.usbEndpoints[i]?.map f = none ↔ PastEnd t [.usbEndpoints i] := by
  rw [pastEnd_singleton_iff, Option.map_eq_none_iff, List.getElem?_eq_none_iff]

theorem endpointFeature_eq_none_iff (stall : Bool) :
    c.endpointFeature t stall p = none ↔ PastEnd t (featureReads p) := by
  unfold endpointFeature featureReads
  by_cases hindex : p.index = 0
  · rw [if_pos hindex, if_pos hindex]
    exact iff_of_false nofun not_pastEnd_nil
  · rw [if_neg hindex, if_neg hindex]
    by_cases hvalue : p.value = 0
    · rw [if_neg (not_not.mpr hvalue), if_neg (not_not.mpr hvalue)]
      exact lookup_eq_none_iff _ p.index
    · rw [if_pos hvalue, if_pos hvalue]
      exact iff_of_false nofun not_pastEnd_nil

theorem handleEndpointRequest_eq_none_iff :
    c.handleEndpointRequest t p = none ↔ PastEnd t (endpointReads p) := by
  unfold handleEndpointRequest endpointReads
  by_cases hstandard : isStandardRequest p.bmRequestType = true
  · rw [if_neg (not_not.mpr hstandard), if_neg (not_not.mpr hstandard)]
    cases p.request with
    | getStatus => exact lookup_eq_none_iff _ p.index
    | synchFrame => exact lookup_eq_none_iff _ p.index
    | setFeature => exact endpointFeature_eq_none_iff true
    | clearFeature => exact endpointFeature_eq_none_iff false
    | _ => exact iff_of_false nofun not_pastEnd_nil
  · rw [if_pos hstandard, if_pos hstandard]
    exact iff_of_false nofun not_pastEnd_nil

/-- The descriptors are in tables of their own. -/
theorem not_pastEnd_deviceReads : ¬ PastEnd t (deviceReads t p) := by
  rintro ⟨i, hmem, -⟩
  unfold deviceReads getDescriptorReads at hmem
  by_cases hstandard : isStandardRequest p.bmRequestType = true
  · rw [if_neg (not_not.mpr hstandard)] at hmem
    cases hrequest : p.request with
    | getDescriptor =>
      cases hds : descriptors t (descrType p.value) with
      | none => simp [hrequest, hds] at hmem
      | some ds => simp [hrequest, hds] at hmem
    | _ => simp [hrequest] at hmem
  · rw [if_pos hstandard] at hmem
    cases hmem

/-- **The endpoints read.** There is no answer exactly when an entry is past the end. -/
theorem setup_eq_none_iff : c.setup t p = none ↔ PastEnd t (tableReads t p c) := by
  unfold setup tableReads
  cases p.recipient with
  | device => exact iff_of_false nofun not_pastEnd_deviceReads
  | interface =>
    dsimp only
    split_ifs
    · exact iff_of_false nofun not_pastEnd_nil
    · exact iff_of_false nofun fun ⟨_, hmem, _⟩ => by cases List.mem_singleton.mp hmem
  | endpoint => exact handleEndpointRequest_eq_none_iff
  | other => exact iff_of_false nofun not_pastEnd_nil

-- ---------------------------------------------------------------------------
-- Stalls
-- ---------------------------------------------------------------------------

theorem prepareBd_mem (ep : Endpoint) (slot : Fin 2) (s : TxState) :
    (s.prepareBd ep slot).2.mem = s.mem := by
  unfold TxState.prepareBd
  dsimp only
  split
  · rfl
  · rfl

/-- Submitting a constant buffer copies nothing. -/
theorem submitTxBuf_mem {ep : Endpoint} {s : TxState} {b : TxBuf} (hconstant : b.isConstant = true) :
    (s.submitTxBuf ep b).2.mem = s.mem := by
  unfold TxState.submitTxBuf
  cases s.findFreeTxSlot with
  | none => rfl
  | some slot =>
    simp only [hconstant, if_true]
    unfold TxState.submitInSlot
    dsimp only
    split_ifs
    · rfl
    · rfl
    · have hmem := prepareBd_mem ep slot { s with txBufs := Function.update s.txBufs slot b.get }
      split
      · rename_i heq
        rwa [heq] at hmem
      · rename_i heq
        rwa [heq] at hmem

theorem stallHandshake_stalled (t : Tables) (c : Controller) : Stalled c (c.stallHandshake t).2 :=
  ⟨rfl, rfl, submitTxBuf_mem rfl⟩

/-- An acknowledge or data is no stall. -/
theorem not_stalled_of_submit {c' : Controller} {l : Nat} {b : TxBuf}
    (hanswers : c'.answers = c.answers) (hb : b.stall = false) :
    ¬ Stalled c (c'.submitTxBuf t l b).2 := by
  intro h
  have hlast : c'.answers ++ [Answer.submitted (b.addTermZero t.ep0 l)] =
      c.answers ++ [.submitted protocolStallBuf] := h.answer
  rw [hanswers] at hlast
  have hbuf : b.addTermZero t.ep0 l = protocolStallBuf := by simpa using hlast
  obtain ⟨-, -, hstall⟩ := addTermZero_fields t.ep0 l b
  rw [hbuf, hb] at hstall
  exact absurd hstall nofun

/-- A packet answered with a stall that reads nothing. -/
theorem inBounds_of_stall (hreads : tableReads t p c = [])
    (hsetup : c.setup t p = some (c.stallHandshake t)) : TablesInBounds t interfaces p c :=
  ⟨by simp [hreads], fun _ => ⟨_, _, hsetup, stallHandshake_stalled t c⟩⟩

/-- A packet answered otherwise that reads nothing has to name what exists. -/
theorem named_iff {r : Int × Controller} (hreads : tableReads t p c = [])
    (hsetup : c.setup t p = some r) (hstall : ¬ Stalled c r.2) :
    TablesInBounds t interfaces p c ↔ NamesExisting t interfaces p := by
  refine ⟨fun h => ?_, fun h => ⟨by simp [hreads], fun hnot => absurd h hnot⟩⟩
  by_contra hnot
  obtain ⟨ret, c', hsome, hstalled⟩ := h.stalled hnot
  obtain rfl := Option.some.inj (hsetup.symm.trans hsome)
  exact hstall hstalled

-- ---------------------------------------------------------------------------
-- Requests to the device
-- ---------------------------------------------------------------------------

theorem setup_device (hrecipient : p.recipient = .device) :
    c.setup t p = some (c.handleDeviceRequest t p) := by
  unfold setup
  rw [hrecipient]

theorem device_in_bounds_iff (hrecipient : p.recipient = .device) :
    TablesInBounds t interfaces p c ↔ InBounds t interfaces p c := by
  have hreads : tableReads t p c = deviceReads t p := by
    unfold tableReads
    rw [hrecipient]
  have hnames : NamesExisting t interfaces p ↔
      (isStandardRequest p.bmRequestType = true → p.request = .getDescriptor →
        Exists t interfaces p (.descriptors (descrType p.value) (descrIndex p.value))) := by
    unfold NamesExisting
    rw [hrecipient]
  unfold InBounds
  rw [hrecipient]
  dsimp only
  by_cases hdescriptor : isStandardRequest p.bmRequestType = true ∧ p.request = .getDescriptor
  · obtain ⟨hstandard, hrequest⟩ := hdescriptor
    have hsetup : c.setup t p =
        some (c.handleGetDescriptor t (descrType p.value) (descrIndex p.value) p.length) := by
      rw [setup_device hrecipient]
      unfold handleDeviceRequest
      simp only [hstandard, not_true, if_false, hrequest]
    have hreads' : tableReads t p c =
        getDescriptorReads t (descrType p.value) (descrIndex p.value) := by
      rw [hreads]
      unfold deviceReads
      simp only [hstandard, not_true, if_false, hrequest]
    unfold handleGetDescriptor at hsetup
    unfold getDescriptorReads at hreads'
    cases hds : descriptors t (descrType p.value) with
    | none =>
      rw [hds] at hsetup hreads'
      exact iff_of_true (inBounds_of_stall hreads' hsetup) fun _ _ ds hsome => absurd hsome nofun
    | some ds =>
      rw [hds] at hreads'
      constructor
      · intro h _ _ ds' hds'
        have hread := h.reads (.descriptors (descrType p.value) (descrIndex p.value))
          (by rw [hreads']; exact List.mem_singleton_self _)
        obtain ⟨_, hds'', hindex⟩ := hread
        rw [hds, hds'] at hds''
        rwa [Option.some.inj hds'']
      · intro h
        have hindex : Exists t interfaces p (.descriptors (descrType p.value) (descrIndex p.value)) :=
          ⟨ds, hds, h hstandard hrequest ds rfl⟩
        refine ⟨fun r hr => ?_, fun hnot => absurd (hnames.mpr fun _ _ => hindex) hnot⟩
        rw [hreads'] at hr
        rwa [List.mem_singleton.mp hr]
  · have hnot : isStandardRequest p.bmRequestType = true → p.request ≠ .getDescriptor :=
      fun hstandard hrequest => hdescriptor ⟨hstandard, hrequest⟩
    have hreads' : tableReads t p c = [] := by
      rw [hreads]
      unfold deviceReads
      split_ifs with hstandard
      · cases hrequest : p.request with
        | getDescriptor => exact absurd hrequest (hnot hstandard)
        | _ => rfl
      · rfl
    refine iff_of_true ⟨by simp [hreads'], fun h => ?_⟩ fun hstandard hrequest =>
      absurd hrequest (hnot hstandard)
    exact absurd (hnames.mpr fun hstandard hrequest => absurd hrequest (hnot hstandard)) h

-- ---------------------------------------------------------------------------
-- Requests to an interface
-- ---------------------------------------------------------------------------

/-- A stall is submitted exactly while there is a free slot. -/
theorem stallHandshake_eq_zero (t : Tables) (c : Controller) :
    (c.stallHandshake t).1 = 0 ↔ c.tx.findFreeTxSlot ≠ none := by
  refine ⟨fun h hnone => ?_, stallHandshake_fst⟩
  have hret : (c.stallHandshake t).1 = -EAGAIN := by
    show (c.tx.submitTxBuf t.ep0 (protocolStallBuf.addTermZero t.ep0 0)).1 = _
    unfold TxState.submitTxBuf
    rw [hnone]
  rw [hret] at h
  exact absurd h (by decide)

/-- An answer of an interface that does not exist: it has to be a stall, and must not
be forwarded. -/
theorem interface_absent_iff (hrecipient : p.recipient = .interface)
    (habsent : ¬ p.wIndexL.toNat < interfaces) :
    TablesInBounds t interfaces p c ↔
      (c.handleInterfaceRequest t p).1 = 0 ∧ Stalled c (c.handleInterfaceRequest t p).2 := by
  have hreads : tableReads t p c =
      if (c.handleInterfaceRequest t p).1 = 0 then [] else [.dev p.wIndexL.toNat] := by
    unfold tableReads
    rw [hrecipient]
  have hnames : ¬ NamesExisting t interfaces p := by
    unfold NamesExisting
    rwa [hrecipient]
  have hsetup := setup_interface (t := t) (c := c) hrecipient
  by_cases hret : (c.handleInterfaceRequest t p).1 = 0
  · rw [if_pos hret] at hreads hsetup
    refine ⟨fun h => ⟨hret, ?_⟩, fun h => ⟨by simp [hreads], fun _ => ⟨_, _, hsetup, h.2⟩⟩⟩
    obtain ⟨ret, c', hsome, hstalled⟩ := h.stalled hnames
    rwa [Option.some.inj (hsetup.symm.trans hsome)]
  · rw [if_neg hret] at hreads
    refine iff_of_false (fun h => ?_) fun h => hret h.1
    have hread := h.reads (.dev p.wIndexL.toNat) (by rw [hreads]; exact List.mem_singleton_self _)
    exact habsent hread

theorem handleInterfaceRequest_standard (hstandard : isStandardRequest p.bmRequestType = true) :
    c.handleInterfaceRequest t p = match p.request with
      | .getStatus => c.submitTxBuf t p.length (txBuf t.s 2)
      | .clearFeature | .setFeature => c.controlAck t
      | .getInterface | .setInterface => (1, c)
      | _ => c.stallHandshake t := by
  unfold handleInterfaceRequest
  cases p.request with
  | _ => exact if_neg (not_not.mpr hstandard)

theorem interface_in_bounds_iff (hrecipient : p.recipient = .interface) :
    TablesInBounds t interfaces p c ↔ InBounds t interfaces p c := by
  unfold InBounds
  rw [hrecipient]
  dsimp only
  by_cases hexists : p.wIndexL.toNat < interfaces
  · have hnames : NamesExisting t interfaces p := by
      unfold NamesExisting
      rwa [hrecipient]
    refine iff_of_true ⟨fun r hr => ?_, fun hnot => absurd hnames hnot⟩ (Or.inl hexists)
    unfold tableReads at hr
    rw [hrecipient] at hr
    dsimp only at hr
    split_ifs at hr
    · cases hr
    · rwa [List.mem_singleton.mp hr]
  · rw [interface_absent_iff hrecipient hexists, or_iff_right hexists]
    by_cases hstandard : isStandardRequest p.bmRequestType = true
    · rw [handleInterfaceRequest_standard hstandard, and_iff_right hstandard]
      have hack : ¬ Stalled c (c.controlAck t).2 := not_stalled_of_submit rfl rfl
      have hone : ¬ (((1 : Int), c).1 = 0) := one_ne_zero
      cases p.request with
      | getStatus =>
        exact iff_of_false (fun h => not_stalled_of_submit rfl rfl h.2) fun h => absurd h.1 nofun
      | clearFeature => exact iff_of_false (fun h => hack h.2) fun h => absurd h.1 nofun
      | setFeature => exact iff_of_false (fun h => hack h.2) fun h => absurd h.1 nofun
      | getInterface => exact iff_of_false (fun h => hone h.1) fun h => absurd h.1 nofun
      | setInterface => exact iff_of_false (fun h => hone h.1) fun h => absurd h.1 nofun
      | _ =>
        rw [and_iff_left (stallHandshake_stalled t c), stallHandshake_eq_zero]
        exact (and_iff_right rfl).symm
    · have hhandle : c.handleInterfaceRequest t p = (1, c) := if_pos hstandard
      rw [hhandle]
      exact iff_of_false (fun h => one_ne_zero h.1) fun h => hstandard h.1

-- ---------------------------------------------------------------------------
-- Requests to an endpoint
-- ---------------------------------------------------------------------------

/-- An entry of `usb_endpoints[]` that is read has to be the one named. -/
theorem used_iff (hrecipient : p.recipient = .endpoint)
    (hreads : tableReads t p c = [.usbEndpoints p.index]) :
    TablesInBounds t interfaces p c ↔ p.index < 0x80 ∧ p.index < t.usbEndpoints.length := by
  constructor
  · intro h
    have hread := h.reads (.usbEndpoints p.index) (by rw [hreads]; exact List.mem_singleton_self _)
    obtain ⟨hindex, hlength⟩ := hread
    unfold epNumber at hindex
    exact ⟨by omega, hlength⟩
  · rintro ⟨hindex, hlength⟩
    have hnumber : epNumber p.index = p.index := Nat.mod_eq_of_lt hindex
    have hnames : NamesExisting t interfaces p := by
      unfold NamesExisting
      rw [hrecipient]
      exact hnumber.trans_lt hlength
    refine ⟨fun r hr => ?_, fun hnot => absurd hnames hnot⟩
    rw [hreads] at hr
    rw [List.mem_singleton.mp hr]
    exact ⟨hnumber.symm, hlength⟩

/-- A feature request of an endpoint. -/
theorem feature_in_bounds_iff {stall : Bool} (hrecipient : p.recipient = .endpoint)
    (hsetup : c.setup t p = c.endpointFeature t stall p)
    (hreads : tableReads t p c = featureReads p) :
    TablesInBounds t interfaces p c ↔
      if p.index ≠ 0 ∧ p.value = 0 then p.index < 0x80 ∧ p.index < t.usbEndpoints.length
      else epNumber p.index < t.usbEndpoints.length := by
  have hnames : NamesExisting t interfaces p ↔ epNumber p.index < t.usbEndpoints.length := by
    unfold NamesExisting
    rw [hrecipient]
  have hack : ¬ Stalled c (c.controlAck t).2 := not_stalled_of_submit rfl rfl
  unfold endpointFeature at hsetup
  unfold featureReads at hreads
  by_cases hindex : p.index = 0
  · rw [if_pos hindex] at hsetup hreads
    rw [if_neg (fun h => h.1 hindex), named_iff hreads hsetup hack, hnames]
  · rw [if_neg hindex] at hsetup hreads
    by_cases hvalue : p.value = 0
    · rw [if_neg (not_not.mpr hvalue)] at hreads
      rw [if_pos ⟨hindex, hvalue⟩, used_iff hrecipient hreads]
    · rw [if_pos hvalue] at hsetup hreads
      rw [if_neg (fun h => hvalue h.2), named_iff hreads hsetup hack, hnames]

theorem endpoint_in_bounds_iff (hrecipient : p.recipient = .endpoint) :
    TablesInBounds t interfaces p c ↔ InBounds t interfaces p c := by
  have hsetup : c.setup t p = c.handleEndpointRequest t p := by
    unfold setup
    rw [hrecipient]
  have hreads : tableReads t p c = endpointReads p := by
    unfold tableReads
    rw [hrecipient]
  have hnames : NamesExisting t interfaces p ↔ epNumber p.index < t.usbEndpoints.length := by
    unfold NamesExisting
    rw [hrecipient]
  unfold InBounds EndpointInBounds
  rw [hrecipient]
  unfold handleEndpointRequest at hsetup
  unfold endpointReads at hreads
  by_cases hstandard : isStandardRequest p.bmRequestType = true
  · rw [if_neg (not_not.mpr hstandard)] at hsetup hreads
    simp only [hstandard, if_true]
    cases hrequest : p.request with
    | getStatus =>
      rw [hrequest] at hreads
      exact used_iff hrecipient hreads
    | synchFrame =>
      rw [hrequest] at hreads
      exact used_iff hrecipient hreads
    | setFeature =>
      rw [hrequest] at hsetup hreads
      exact feature_in_bounds_iff hrecipient hsetup hreads
    | clearFeature =>
      rw [hrequest] at hsetup hreads
      exact feature_in_bounds_iff hrecipient hsetup hreads
    | _ =>
      rw [hrequest] at hsetup hreads
      exact iff_of_true (inBounds_of_stall hreads hsetup) trivial
  · -- Nobody answers, and 1 is returned.
    rw [if_pos hstandard] at hsetup hreads
    simp only [hstandard]
    rw [named_iff hreads hsetup (fun h => ?_), hnames]
    · simp
    · have hanswer : c.answers = c.answers ++ [.submitted protocolStallBuf] := h.answer
      simp at hanswer

/-- **Tables in bounds.** A SETUP packet leads to reads of entries that exist only,
and to a stall if it names anything else, if and only if it meets the condition. -/
theorem tables_in_bounds_iff (t : Tables) (interfaces : Nat) (p : SetupData) (c : Controller) :
    TablesInBounds t interfaces p c ↔ InBounds t interfaces p c := by
  cases hrecipient : p.recipient with
  | device => exact device_in_bounds_iff hrecipient
  | interface => exact interface_in_bounds_iff hrecipient
  | endpoint => exact endpoint_in_bounds_iff hrecipient
  | other =>
    have hsetup : c.setup t p = some (c.stallHandshake t) := by
      unfold setup
      rw [hrecipient]
    have hreads : tableReads t p c = [] := by
      unfold tableReads
      rw [hrecipient]
    have hmeets : InBounds t interfaces p c := by
      unfold InBounds
      rw [hrecipient]
      trivial
    exact iff_of_true (inBounds_of_stall hreads hsetup) hmeets

/-- The status of IN endpoint 1 of a device with two endpoints: the entry read is the
one of its address, 0x81. -/
theorem in_endpoint_out_of_bounds :
    ¬ ∀ (t : Tables) (interfaces : Nat) (p : SetupData) (c : Controller),
      TablesInBounds t interfaces p c := by
  intro h
  have hreads := (h atRest.1 1 ⟨0x82, 0, 0, 0, 0x81, 0, 2, 0⟩ atRest.2).reads
  obtain ⟨-, hlength⟩ := hreads (.usbEndpoints 0x81) (by decide)
  exact absurd hlength (by decide)

end Controller

end Bathos.Usb
