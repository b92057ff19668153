import Bathos.Usb.TxQueue

/-!
# Bathos — SETUP packets

`usb-device-controller.c`: a SETUP packet is dispatched by recipient, class and
request, and answered on endpoint 0 through the transmit queue of the controller,
or forwarded to the high level operations of endpoint 0.

The value of a handler is at once the value of its submit and the wish to forward:
an interface request answered with data is forwarded as well.

Main results:

* `submit_constant` — what a submit returns while there is a free slot;
* `one_answer_iff` — the packets answered or forwarded exactly once.
-/

namespace Bathos.Usb

open Bathos.Lib

-- ---------------------------------------------------------------------------
-- Setup data
-- ---------------------------------------------------------------------------

/-- `struct usb_setup_data`. -/
structure SetupData where
  bmRequestType : UInt8
  bRequest : UInt8
  wValueL : UInt8
  wValueH : UInt8
  wIndexL : UInt8
  wIndexH : UInt8
  wLengthL : UInt8
  wLengthH : UInt8
deriving DecidableEq, Repr

inductive Recipient where
  | device
  | interface
  | endpoint
  | other
deriving DecidableEq, Repr

/-- The standard requests of `usb.h`. -/
inductive Request where
  | getStatus
  | clearFeature
  | setFeature
  | setAddress
  | getDescriptor
  | getConfiguration
  | setConfiguration
  | getInterface
  | setInterface
  | synchFrame
  | other
deriving DecidableEq, Repr

/-- `_to_u16`. -/
def toU16 (lo hi : UInt8) : Nat := hi.toNat * 256 + lo.toNat

/-- `is_standard_request`: bits 5 and 6 are 0. -/
def isStandardRequest (rt : UInt8) : Bool := rt &&& ((0x03 : UInt8) <<< 5) == 0

/-- `descr_type`. -/
def descrType (v : Nat) : Nat := v / 256

/-- `descr_index`. -/
def descrIndex (v : Nat) : Nat := v % 256

namespace SetupData

variable (p : SetupData)

def value : Nat := toU16 p.wValueL p.wValueH

def length : Nat := toU16 p.wLengthL p.wLengthH

def index : Nat := toU16 p.wIndexL p.wIndexH

def recipient : Recipient :=
  match (p.bmRequestType &&& 0x1f).toNat with
  | 0 => .device
  | 1 => .interface
  | 2 => .endpoint
  | _ => .other

def request : Request :=
  match p.bRequest.toNat with
  | 0 => .getStatus
  | 1 => .clearFeature
  | 3 => .setFeature
  | 5 => .setAddress
  | 6 => .getDescriptor
  | 8 => .getConfiguration
  | 9 => .setConfiguration
  | 10 => .getInterface
  | 11 => .setInterface
  | 12 => .synchFrame
  | _ => .other

end SetupData

-- ---------------------------------------------------------------------------
-- The controller
-- ---------------------------------------------------------------------------

/-- The flag that `usb_device_controller_submit_tx_buf` sets: an empty packet follows a
buffer that is shorter than requested and ends with a full packet. -/
def TxBuf.addTermZero (ep : Endpoint) (requestedLength : Nat) (b : TxBuf) : TxBuf :=
  if (requestedLength = 0xffff ∨ b.len < requestedLength) ∧ b.len ≠ 0 ∧ b.len % ep.size = 0 then
    { b with needsTz := true }
  else b

/-- `usb_device_controller_submit_tx_buf`. -/
def TxState.controllerSubmit (ep : Endpoint) (requestedLength : Nat) (b : TxBuf) (s : TxState) :
    Int × TxState :=
  s.submitTxBuf ep (b.addTermZero ep requestedLength)

/-- `struct usb_descriptor`. -/
structure Descriptor where
  addr : Nat
  len : Nat
deriving DecidableEq, Repr

/-- `struct usb_device_endpoint_data`: the address of `status`, and `synch_frame`. -/
structure EndpointData where
  status : Nat
  synchFrame : UInt16
deriving DecidableEq, Repr

/-- The tables made when building, and the addresses of the static bytes `s`, of
`c->configuration` and of the local `v`. -/
structure Tables where
  ep0 : Endpoint
  usbEndpoints : List EndpointData
  deviceDescriptors : List Descriptor
  configDescriptors : List Descriptor
  stringDescriptors : List Descriptor
  s : Nat
  configuration : Nat
  v : Nat

/-- What was done with a packet. -/
inductive Answer where
  | submitted (b : TxBuf)
  | forwarded (p : SetupData)
deriving DecidableEq, Repr

/-- The controller: endpoint 0 and memory, the stall bits of the other endpoints,
and the buffers submitted and packets forwarded so far. -/
structure Controller where
  tx : TxState
  nextAddr : UInt8
  epStall : Nat → Bool
  answers : List Answer

namespace Controller

variable (t : Tables)

/-- `usb_device_controller_submit_tx_buf` on endpoint 0. -/
def submitTxBuf (requestedLength : Nat) (b : TxBuf) (c : Controller) : Int × Controller :=
  let r := c.tx.controllerSubmit t.ep0 requestedLength b
  (r.1, { c with
    tx := r.2, answers := c.answers ++ [.submitted (b.addTermZero t.ep0 requestedLength)] })

/-- `USB_DEVICE_TX_BUF_INITIALIZER` and `INIT_USB_DEVICE_TX_BUF` of a constant buffer. -/
def txBuf (addr len : Nat) : TxBuf := ⟨addr, len, true, false, false, false⟩

/-- `INIT_USB_PROTOCOL_STALL_BUF`. -/
def protocolStallBuf : TxBuf := ⟨0, 0, true, false, false, true⟩

/-- `control_ack`. -/
def controlAck (c : Controller) : Int × Controller := c.submitTxBuf t 0 (txBuf 0 0)

/-- `stall_handshake`. -/
def stallHandshake (c : Controller) : Int × Controller := c.submitTxBuf t 0 protocolStallBuf

/-- `usb_device_controller_set_configuration`; the operation of the controller has
no effect. -/
def setConfiguration (config : UInt8) (c : Controller) : Controller :=
  if config.toNat > 0 then c
  else { c with tx.mem := Function.update c.tx.mem t.configuration config }

/-- `usb_device_freescale_stall_ep`. -/
def stallEp (e : UInt8) (stall : Bool) (c : Controller) : Controller :=
  if e = 0 then { c with tx.stalled := stall }
  else { c with epStall := Function.update c.epStall e.toNat stall }

/-- The table of a descriptor type. -/
def descriptors (type : Nat) : Option (List Descriptor) :=
  match type with
  | 1 => some t.deviceDescriptors
  | 2 => some t.configDescriptors
  | 3 => some t.stringDescriptors
  | _ => none

/-- `handle_get_descriptor`. -/
def handleGetDescriptor (type index length : Nat) (c : Controller) : Int × Controller :=
  match descriptors t type with
  | none => c.stallHandshake t
  | some ds =>
    match ds[index]? with
    -- wrong index: the pointer read from past the table is not used
    | none => c.stallHandshake t
    | some d => c.submitTxBuf t length (txBuf d.addr (min length d.len))

/-- `handle_device_request`. -/
def handleDeviceRequest (p : SetupData) (c : Controller) : Int × Controller :=
  -- Non standard requests are unsupported, just ack
  if ¬ isStandardRequest p.bmRequestType then c.controlAck t
  else
    match p.request with
    | .getStatus => c.submitTxBuf t p.length (txBuf t.s 2)
    | .clearFeature => c.controlAck t
    | .setFeature => c.controlAck t
    | .setAddress => { c with nextAddr := UInt8.ofNat p.value }.controlAck t
    | .getDescriptor =>
      c.handleGetDescriptor t (descrType p.value) (descrIndex p.value) p.length
    | .getConfiguration => c.submitTxBuf t p.length (txBuf t.configuration 1)
    | .setConfiguration => (c.setConfiguration t (UInt8.ofNat p.value)).controlAck t
    | _ => c.stallHandshake t

/-- `handle_interface_request`. -/
def handleInterfaceRequest (p : SetupData) (c : Controller) : Int × Controller :=
  if ¬ isStandardRequest p.bmRequestType then (1, c)
  else
    match p.request with
    | .getStatus => c.submitTxBuf t p.length (txBuf t.s 2)
    | .clearFeature => c.controlAck t
    | .setFeature => c.controlAck t
    | .getInterface => (1, c)
    | .setInterface => (1, c)
    | _ => c.stallHandshake t

/-- `SET_FEATURE` and `CLEAR_FEATURE` of `handle_endpoint_request`. -/
def endpointFeature (stall : Bool) (p : SetupData) (c : Controller) : Option (Int × Controller) :=
  -- Unimplemented on ep 0
  if p.index = 0 then some (c.controlAck t)
  else if p.value ≠ 0 then some (c.controlAck t)
  else
    let c := c.stallEp (UInt8.ofNat p.index) stall
    t.usbEndpoints[p.index]?.map fun ep =>
      { c with tx.mem := Function.update c.tx.mem ep.status (if stall then 1 else 0) }.controlAck t

/-- `handle_endpoint_request`; `none` when it uses an entry past the end of
`usb_endpoints`. -/
def handleEndpointRequest (p : SetupData) (c : Controller) : Option (Int × Controller) :=
  if ¬ isStandardRequest p.bmRequestType then some (1, c)
  else
    match p.request with
    | .getStatus => t.usbEndpoints[p.index]?.map fun ep =>
      c.submitTxBuf t p.length (txBuf ep.status 1)
    | .setFeature => c.endpointFeature t true p
    | .clearFeature => c.endpointFeature t false p
    | .synchFrame => t.usbEndpoints[p.index]?.map fun ep =>
      let v := [UInt8.ofNat (ep.synchFrame.toNat % 256), UInt8.ofNat (ep.synchFrame.toNat / 256)]
      { c with tx.mem := blit c.tx.mem t.v v }.submitTxBuf t p.length (txBuf t.v 2)
    | _ => some (c.stallHandshake t)

/-- `hl_ops->setup` of endpoint 0, `usb_device_ctrl_ep_setup`, which hands the packet
to the pipe of the interface and returns 0. -/
def forward (p : SetupData) (c : Controller) : Int × Controller :=
  (0, { c with answers := c.answers ++ [.forwarded p] })

/-- `usb_device_controller_setup`. -/
def setup (p : SetupData) (c : Controller) : Option (Int × Controller) :=
  match p.recipient with
  | .device => some (c.handleDeviceRequest t p)
  | .interface =>
    let (ret, c) := c.handleInterfaceRequest t p
    if ret = 0 then some (ret, c) else some (c.forward p)
  | .endpoint => c.handleEndpointRequest t p
  | .other => some (c.stallHandshake t)

-- ---------------------------------------------------------------------------
-- One answer
-- ---------------------------------------------------------------------------

/-- One buffer was submitted, and nothing was forwarded. -/
def Answered (c c' : Controller) : Prop := ∃ b, c'.answers = c.answers ++ [.submitted b]

/-- The packet was forwarded once, and nothing was submitted. -/
def Forwarded (p : SetupData) (c c' : Controller) : Prop :=
  c'.answers = c.answers ++ [.forwarded p]

/-- The packet is answered or forwarded, once. -/
def OneAnswer (p : SetupData) (c : Controller) : Prop :=
  ∃ ret c', c.setup t p = some (ret, c') ∧ (Answered c c' ∨ Forwarded p c c')

/-- The descriptor the next packet would take is still in use. -/
def DescriptorBusy (c : Controller) : Prop :=
  c.tx.transmitting = false ∧ (c.tx.bdt c.tx.odd).address ≠ 0

/-- The request reads or writes the data of the endpoint named by `wIndex`. -/
def UsesEndpoint (p : SetupData) : Prop :=
  match p.request with
  | .getStatus | .synchFrame => True
  | .setFeature | .clearFeature => p.index ≠ 0 ∧ p.value = 0
  | _ => False

/-- The condition: no standard GET_STATUS to an interface, and no feature request to
one while the descriptor is busy; to an endpoint only standard requests, for an
endpoint that is in the table if it is used. -/
def Meets (p : SetupData) (c : Controller) : Prop :=
  match p.recipient with
  | .interface =>
    isStandardRequest p.bmRequestType = true →
      match p.request with
      | .getStatus => False
      | .clearFeature | .setFeature => ¬ DescriptorBusy c
      | _ => True
  | .endpoint =>
    isStandardRequest p.bmRequestType = true ∧
      (UsesEndpoint p → p.index < t.usbEndpoints.length)
  | _ => True

variable {t} {p : SetupData} {c : Controller}

/-- What a submit of a constant buffer returns while there is a free slot. -/
theorem submit_constant {ep : Endpoint} {s : TxState} {b : TxBuf} (hfree : s.findFreeTxSlot ≠ none)
    (hconstant : b.isConstant = true) :
    (s.submitTxBuf ep b).1 =
      if s.transmitting then (b.len : Int) else if b.stall then 0
      else if (s.bdt s.odd).address ≠ 0 then -ENOMEM else b.len := by
  obtain ⟨slot, hslot⟩ := Option.ne_none_iff_exists'.mp hfree
  unfold TxState.submitTxBuf
  rw [hslot]
  simp only [hconstant, if_true]
  unfold TxState.submitInSlot TxState.prepareBd
  split_ifs <;> simp_all

theorem submitTxBuf_answered (l : Nat) (b : TxBuf) {c' : Controller}
    (h : c'.answers = c.answers) : Answered c (c'.submitTxBuf t l b).2 :=
  ⟨b.addTermZero t.ep0 l, congrArg (· ++ [Answer.submitted (b.addTermZero t.ep0 l)]) h⟩

theorem setConfiguration_answers (config : UInt8) :
    (c.setConfiguration t config).answers = c.answers := by
  unfold setConfiguration
  split_ifs
  · rfl
  · rfl

theorem stallEp_answers (e : UInt8) (stall : Bool) : (c.stallEp e stall).answers = c.answers := by
  unfold stallEp
  split_ifs
  · rfl
  · rfl

theorem handleGetDescriptor_answered (type index l : Nat) :
    Answered c (c.handleGetDescriptor t type index l).2 := by
  unfold handleGetDescriptor
  split
  · exact submitTxBuf_answered 0 _ rfl
  · split
    · exact submitTxBuf_answered 0 _ rfl
    · exact submitTxBuf_answered l _ rfl

/-- A device request is answered, whatever it is. -/
theorem handleDeviceRequest_answered (p : SetupData) :
    Answered c (c.handleDeviceRequest t p).2 := by
  unfold handleDeviceRequest
  split_ifs with hstandard
  · cases p.request with
    | getStatus => exact submitTxBuf_answered p.length _ rfl
    | clearFeature => exact submitTxBuf_answered 0 _ rfl
    | setFeature => exact submitTxBuf_answered 0 _ rfl
    | setAddress => exact submitTxBuf_answered 0 _ rfl
    | getDescriptor => exact handleGetDescriptor_answered _ _ _
    | getConfiguration => exact submitTxBuf_answered p.length _ rfl
    | setConfiguration => exact submitTxBuf_answered 0 _ (setConfiguration_answers _)
    | getInterface => exact submitTxBuf_answered 0 _ rfl
    | setInterface => exact submitTxBuf_answered 0 _ rfl
    | synchFrame => exact submitTxBuf_answered 0 _ rfl
    | other => exact submitTxBuf_answered 0 _ rfl
  · exact submitTxBuf_answered 0 _ rfl

theorem addTermZero_fields (ep : Endpoint) (l : Nat) (b : TxBuf) :
    (b.addTermZero ep l).len = b.len ∧ (b.addTermZero ep l).isConstant = b.isConstant ∧
      (b.addTermZero ep l).stall = b.stall := by
  unfold TxBuf.addTermZero
  split_ifs
  · exact ⟨rfl, rfl, rfl⟩
  · exact ⟨rfl, rfl, rfl⟩

/-- What the controller returns for a constant buffer; the terminating packet makes
no difference. -/
theorem submitTxBuf_fst (l : Nat) {b : TxBuf} (hfree : c.tx.findFreeTxSlot ≠ none)
    (hconstant : b.isConstant = true) :
    (c.submitTxBuf t l b).1 =
      if c.tx.transmitting then (b.len : Int) else if b.stall then 0
      else if (c.tx.bdt c.tx.odd).address ≠ 0 then -ENOMEM else b.len := by
  obtain ⟨hlen, hconstant', hstall⟩ := addTermZero_fields t.ep0 l b
  show (c.tx.submitTxBuf t.ep0 (b.addTermZero t.ep0 l)).1 = _
  rw [submit_constant hfree (hconstant'.trans hconstant), hlen, hstall]

-- ---------------------------------------------------------------------------
-- Interface requests
-- ---------------------------------------------------------------------------

theorem setup_interface (hrecipient : p.recipient = .interface) :
    c.setup t p = some (if (c.handleInterfaceRequest t p).1 = 0 then c.handleInterfaceRequest t p
      else (c.handleInterfaceRequest t p).2.forward p) := by
  unfold setup
  rw [hrecipient]
  simp only [apply_ite some]

/-- A request the interface leaves alone is forwarded. -/
theorem interface_forwarded (hrecipient : p.recipient = .interface)
    (hhandle : c.handleInterfaceRequest t p = (1, c)) : OneAnswer t p c := by
  refine ⟨_, _, setup_interface hrecipient, Or.inr ?_⟩
  rw [hhandle]
  rfl

/-- A request answered by the interface is forwarded too, unless the submit
returned 0. -/
theorem interface_submitted {l : Nat} {b : TxBuf} (hrecipient : p.recipient = .interface)
    (hhandle : c.handleInterfaceRequest t p = c.submitTxBuf t l b) :
    OneAnswer t p c ↔ (c.submitTxBuf t l b).1 = 0 := by
  unfold OneAnswer
  rw [setup_interface hrecipient, hhandle]
  constructor
  · rintro ⟨ret, c', hsetup, hanswer⟩
    by_contra hret
    rw [if_neg hret] at hsetup
    obtain ⟨-, rfl⟩ := Prod.mk.inj (Option.some.inj hsetup)
    -- The packet is in the log after the buffer.
    have hlength : ((c.submitTxBuf t l b).2.forward p).2.answers.length = c.answers.length + 2 := by
      simp [forward, submitTxBuf]
    have hone : ∀ a, ((c.submitTxBuf t l b).2.forward p).2.answers ≠ c.answers ++ [a] := by
      intro a heq
      rw [heq, List.length_append, List.length_singleton] at hlength
      omega
    rcases hanswer with ⟨b', hb'⟩ | hp
    · exact hone _ hb'
    · exact hone _ hp
  · intro hret
    rw [if_pos hret]
    exact ⟨_, _, rfl, Or.inl (submitTxBuf_answered l b rfl)⟩

theorem data_fst {l addr len : Nat} (hlen : 0 < len) (hfree : c.tx.findFreeTxSlot ≠ none) :
    (c.submitTxBuf t l (txBuf addr len)).1 ≠ 0 := by
  rw [submitTxBuf_fst l hfree rfl]
  simp only [txBuf, ENOMEM, Bool.false_eq_true, if_false]
  split_ifs <;> omega

theorem controlAck_fst (hfree : c.tx.findFreeTxSlot ≠ none) :
    (c.controlAck t).1 = 0 ↔ ¬ DescriptorBusy c := by
  unfold controlAck DescriptorBusy
  rw [submitTxBuf_fst 0 hfree rfl]
  simp only [txBuf, ENOMEM]
  split_ifs <;> simp_all

theorem stallHandshake_fst (hfree : c.tx.findFreeTxSlot ≠ none) : (c.stallHandshake t).1 = 0 := by
  unfold stallHandshake
  rw [submitTxBuf_fst 0 hfree rfl]
  simp [protocolStallBuf]

theorem interface_iff (hfree : c.tx.findFreeTxSlot ≠ none) (hrecipient : p.recipient = .interface) :
    OneAnswer t p c ↔ Meets t p c := by
  unfold Meets
  rw [hrecipient]
  by_cases hstandard : isStandardRequest p.bmRequestType = true
  · -- The handler is a submit or returns 1, request by request.
    have hhandle : c.handleInterfaceRequest t p = match p.request with
        | .getStatus => c.submitTxBuf t p.length (txBuf t.s 2)
        | .clearFeature | .setFeature => c.controlAck t
        | .getInterface | .setInterface => (1, c)
        | _ => c.stallHandshake t := by
      unfold handleInterfaceRequest
      simp only [hstandard, not_true, if_false]
    simp only [hstandard, true_imp_iff]
    cases hrequest : p.request with
    | getStatus =>
      rw [hrequest] at hhandle
      rw [interface_submitted hrecipient hhandle]
      exact iff_of_false (data_fst (by decide) hfree) id
    | clearFeature =>
      rw [hrequest] at hhandle
      exact (interface_submitted hrecipient hhandle).trans (controlAck_fst hfree)
    | setFeature =>
      rw [hrequest] at hhandle
      exact (interface_submitted hrecipient hhandle).trans (controlAck_fst hfree)
    | getInterface =>
      rw [hrequest] at hhandle
      exact iff_of_true (interface_forwarded hrecipient hhandle) trivial
    | setInterface =>
      rw [hrequest] at hhandle
      exact iff_of_true (interface_forwarded hrecipient hhandle) trivial
    | _ =>
      rw [hrequest] at hhandle
      have hstall := (interface_submitted hrecipient hhandle).mpr (stallHandshake_fst hfree)
      exact iff_of_true hstall trivial
  · refine iff_of_true (interface_forwarded hrecipient ?_) fun h => absurd h hstandard
    unfold handleInterfaceRequest
    rw [if_pos hstandard]

-- ---------------------------------------------------------------------------
-- Endpoint requests
-- ---------------------------------------------------------------------------

/-- A packet answered with a submit. -/
theorem oneAnswer_of_answered {r : Int × Controller} (hsetup : c.setup t p = some r)
    (hanswered : Answered c r.2) : OneAnswer t p c := ⟨r.1, r.2, hsetup, Or.inl hanswered⟩

/-- Past the end of the table nothing is known. -/
theorem not_oneAnswer_of_none (hsetup : c.setup t p = none) : ¬ OneAnswer t p c := by
  rintro ⟨ret, c', h, -⟩
  rw [hsetup] at h
  exact absurd h nofun

/-- An answer that needs the data of the endpoint. -/
theorem lookup_iff {answer : EndpointData → Int × Controller}
    (hsetup : c.setup t p = t.usbEndpoints[p.index]?.map answer)
    (hanswered : ∀ ep, Answered c (answer ep).2) :
    OneAnswer t p c ↔ p.index < t.usbEndpoints.length := by
  cases hep : t.usbEndpoints[p.index]? with
  | none =>
    rw [hep] at hsetup
    have hlength : t.usbEndpoints.length ≤ p.index := List.getElem?_eq_none_iff.mp hep
    exact iff_of_false (not_oneAnswer_of_none hsetup) (by omega)
  | some ep =>
    rw [hep] at hsetup
    obtain ⟨hlength, -⟩ := List.getElem?_eq_some_iff.mp hep
    exact iff_of_true (oneAnswer_of_answered hsetup (hanswered ep)) hlength

/-- A feature request of an endpoint. -/
theorem feature_iff {stall : Bool} (hsetup : c.setup t p = c.endpointFeature t stall p) :
    OneAnswer t p c ↔ (p.index ≠ 0 ∧ p.value = 0 → p.index < t.usbEndpoints.length) := by
  unfold endpointFeature at hsetup
  by_cases hindex : p.index = 0
  · rw [if_pos hindex] at hsetup
    exact iff_of_true (oneAnswer_of_answered hsetup (submitTxBuf_answered 0 _ rfl)) fun h =>
      absurd hindex h.1
  · rw [if_neg hindex] at hsetup
    by_cases hvalue : p.value = 0
    · rw [if_neg (not_not.mpr hvalue)] at hsetup
      rw [lookup_iff hsetup ?_]
      · simp [hindex, hvalue]
      · exact fun ep => submitTxBuf_answered 0 _ (stallEp_answers _ _)
    · rw [if_pos hvalue] at hsetup
      exact iff_of_true (oneAnswer_of_answered hsetup (submitTxBuf_answered 0 _ rfl)) fun h =>
        absurd h.2 hvalue

theorem endpoint_iff (hrecipient : p.recipient = .endpoint) : OneAnswer t p c ↔ Meets t p c := by
  have hsetup : c.setup t p = c.handleEndpointRequest t p := by
    unfold setup
    rw [hrecipient]
  unfold Meets UsesEndpoint
  rw [hrecipient]
  unfold handleEndpointRequest at hsetup
  by_cases hstandard : isStandardRequest p.bmRequestType = true
  · rw [if_neg (not_not.mpr hstandard)] at hsetup
    simp only [hstandard, true_and]
    cases hrequest : p.request with
    | getStatus =>
      rw [hrequest] at hsetup
      rw [lookup_iff hsetup fun ep => submitTxBuf_answered p.length _ rfl, true_imp_iff]
    | synchFrame =>
      rw [hrequest] at hsetup
      rw [lookup_iff hsetup fun ep => submitTxBuf_answered p.length _ rfl, true_imp_iff]
    | setFeature =>
      rw [hrequest] at hsetup
      exact feature_iff hsetup
    | clearFeature =>
      rw [hrequest] at hsetup
      exact feature_iff hsetup
    | _ =>
      rw [hrequest] at hsetup
      exact iff_of_true (oneAnswer_of_answered hsetup (submitTxBuf_answered 0 _ rfl)) False.elim
  · -- Nobody answers, and 1 is returned.
    rw [if_pos hstandard] at hsetup
    refine iff_of_false ?_ fun h => hstandard h.1
    rintro ⟨ret, c', hsome, hanswer⟩
    obtain ⟨-, rfl⟩ := Prod.mk.inj (Option.some.inj (hsetup.symm.trans hsome))
    rcases hanswer with ⟨b, hb⟩ | hp
    · simp at hb
    · simp [Forwarded] at hp

/-- **One answer.** With a free slot, a SETUP packet is answered or forwarded exactly
once if and only if it meets the condition. -/
theorem one_answer_iff (t : Tables) (p : SetupData) (c : Controller)
    (hfree : c.tx.findFreeTxSlot ≠ none) : OneAnswer t p c ↔ Meets t p c := by
  cases hrecipient : p.recipient with
  | device =>
    have hsetup : c.setup t p = some (c.handleDeviceRequest t p) := by
      unfold setup
      rw [hrecipient]
    have hmeets : Meets t p c := by
      unfold Meets
      rw [hrecipient]
      trivial
    exact iff_of_true (oneAnswer_of_answered hsetup (handleDeviceRequest_answered p)) hmeets
  | interface => exact interface_iff hfree hrecipient
  | endpoint => exact endpoint_iff hrecipient
  | other =>
    have hsetup : c.setup t p = some (c.stallHandshake t) := by
      unfold setup
      rw [hrecipient]
    have hmeets : Meets t p c := by
      unfold Meets
      rw [hrecipient]
      trivial
    exact iff_of_true (oneAnswer_of_answered hsetup (submitTxBuf_answered 0 _ rfl)) hmeets

/-- A device with one descriptor and two endpoints, at rest. -/
def atRest : Tables × Controller :=
  (⟨⟨8, 100, 200, by decide⟩, [⟨300, 0⟩, ⟨301, 0⟩], [⟨400, 18⟩], [], [], 500, 501, 600⟩,
    ⟨(TxRun.boot UInt8.ofNat).dev, 0, fun _ => false, []⟩)

/-- The device descriptor is sent, and the status of an endpoint only if the endpoint
is in the table. -/
theorem one_answer_at_rest :
    OneAnswer atRest.1 ⟨0x80, 6, 0, 1, 0, 0, 64, 0⟩ atRest.2 ∧
    OneAnswer atRest.1 ⟨0x82, 0, 0, 0, 1, 0, 2, 0⟩ atRest.2 ∧
    ¬ OneAnswer atRest.1 ⟨0x82, 0, 0, 0, 0x81, 0, 2, 0⟩ atRest.2 := by
  refine ⟨(one_answer_iff _ _ _ (by decide)).mpr trivial,
    (one_answer_iff _ _ _ (by decide)).mpr ⟨rfl, fun _ => by decide⟩, fun h => ?_⟩
  obtain ⟨-, hindex⟩ := (one_answer_iff _ _ _ (by decide)).mp h
  exact absurd (hindex trivial) (by decide)

/-- The status of an interface is submitted, and the packet is forwarded too. -/
theorem interface_status_forwarded :
    ¬ ∀ (t : Tables) (p : SetupData) (c : Controller), c.tx.findFreeTxSlot ≠ none →
      OneAnswer t p c := by
  intro h
  have hone := h atRest.1 ⟨0x81, 0, 0, 0, 0, 0, 2, 0⟩ atRest.2 (by decide)
  exact (interface_iff (by decide) rfl).mp hone rfl

end Controller

end Bathos.Usb
