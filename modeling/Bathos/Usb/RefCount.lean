import Bathos.Include.Headers
import Bathos.Lib.Run

/-!
# Bathos — reference counts of the USB device

`usb-device-ep.c` and the reference counts of `usb-device-controller.h`. An open
takes a reference on the endpoint and one on the controller; the close operation,
which `do_free_pipe` calls for the last pipe of a device, gives the endpoint's
back and, if it was the last one, one of the controller's.

`usb_ep_open` clears the endpoint's count before it takes the reference, so the
references of pipes that are open already are forgotten, while those on the
controller stay. And `usb_ep_close` clears `dev->priv`, which the next open of
the device follows.

Main results:

* `step_balanced` — an open of an endpoint without open pipes and its close keep
  both counts;
* `refcounts_balance` — the counts are right in every run of such opens.
-/

namespace Bathos.Usb

open Bathos.Lib

variable {δ : Type}

-- ---------------------------------------------------------------------------
-- usb-device-controller.h and usb-device-ep.c
-- ---------------------------------------------------------------------------

/-- The controller and its endpoints: both reference counts, what is enabled,
whether `dev->priv` of a device still points to its endpoint, and the devices of
the open pipes. `fault` records that a `NULL` pointer was followed. -/
structure RefCounts (δ : Type) where
  users : Nat
  enabled : Bool
  epUsers : Nat → Nat
  epEnabled : Nat → Bool
  priv : δ → Bool
  opened : List δ
  fault : Bool

namespace RefCounts

/-- `usb_device_controller_get`. -/
def controllerGet (s : RefCounts δ) : RefCounts δ :=
  { s with
    enabled := if s.users = 0 then true else s.enabled
    users := s.users + 1 }

/-- `usb_device_freescale_disable`: the control register of endpoint 0 is cleared,
too. -/
def controllerDisable (s : RefCounts δ) : RefCounts δ :=
  { s with enabled := false, epEnabled := Function.update s.epEnabled 0 false }

/-- `usb_device_controller_put`. -/
def controllerPut (s : RefCounts δ) : RefCounts δ :=
  if s.users = 0 then s
  else
    let s := { s with users := s.users - 1 }
    if s.users = 0 then s.controllerDisable else s

/-- `usb_device_ep_get`. -/
def epGet (e : Nat) (s : RefCounts δ) : RefCounts δ :=
  let s := s.controllerGet
  -- ep 0 is enabled on reception of usb reset
  { s with
    epEnabled := if s.epUsers e = 0 ∧ e ≠ 0 then Function.update s.epEnabled e true else s.epEnabled
    epUsers := Function.update s.epUsers e (s.epUsers e + 1) }

/-- `usb_device_ep_put`. -/
def epPut (e : Nat) (s : RefCounts δ) : RefCounts δ :=
  if s.epUsers e = 0 then s
  else
    let s := { s with epUsers := Function.update s.epUsers e (s.epUsers e - 1) }
    if s.epUsers e = 0 then
      { s with epEnabled := Function.update s.epEnabled e false }.controllerPut
    else s

/-- `usb_ep_open` for a device of endpoint `e`, from `pipe_open`. -/
def usbEpOpen (e : Nat) (d : δ) (s : RefCounts δ) : RefCounts δ :=
  if !s.priv d then { s with fault := true }
  else
    let s := { s with epUsers := Function.update s.epUsers e 0 }.epGet e
    { s with opened := d :: s.opened }

/-- `usb_device_freescale_reset` enables endpoint 0. -/
def usbReset (s : RefCounts δ) : RefCounts δ :=
  { s with epEnabled := Function.update s.epEnabled 0 true }

variable [DecidableEq δ]

/-- `usb_ep_close`. -/
def usbEpClose (e : Nat) (d : δ) (s : RefCounts δ) : RefCounts δ :=
  if !s.priv d then { s with fault := true }
  else
    let s := s.epPut e
    { s with priv := Function.update s.priv d false }

/-- `do_free_pipe` for a pipe of the device. -/
def doFreePipe (e : Nat) (d : δ) (s : RefCounts δ) : RefCounts δ :=
  let s := { s with opened := s.opened.erase d }
  if d ∈ s.opened then s else s.usbEpClose e d

end RefCounts

-- ---------------------------------------------------------------------------
-- Runs
-- ---------------------------------------------------------------------------

inductive EpOp (δ : Type) where
  | openPipe (d : δ)
  | closePipe (d : δ)
  | usbReset

namespace RefCounts

variable (epOf : δ → Nat)

/-- The endpoints with an open pipe. -/
def inUse (s : RefCounts δ) : List Nat := s.opened.map epOf

/-- What the counts are for. -/
structure Balanced (s : RefCounts δ) : Prop where
  endpoint : ∀ e, e ≠ 0 → (s.epEnabled e = true ↔ e ∈ s.inUse epOf)
  controller : s.enabled = true ↔ s.opened ≠ []
  released : s.opened = [] → s.users = 0 ∧ ∀ e, s.epUsers e = 0
  running : s.fault = false

variable [DecidableEq δ]

/-- Only an open pipe is closed; after a fault nothing happens. -/
def step (s : RefCounts δ) (op : EpOp δ) : RefCounts δ :=
  if s.fault then s
  else
    match op with
    | .openPipe d => s.usbEpOpen (epOf d) d
    | .closePipe d => if d ∈ s.opened then s.doFreePipe (epOf d) d else s
    | .usbReset => s.usbReset

/-- The counts are right after the step, and endpoint 0 is not disabled while it
is in use. -/
def StepBalanced (s : RefCounts δ) (op : EpOp δ) : Prop :=
  (s.step epOf op).Balanced epOf ∧
    (s.epEnabled 0 = true → (s.step epOf op).epEnabled 0 = false →
      0 ∉ (s.step epOf op).inUse epOf)

/-- The condition: a pipe is only opened on an endpoint without open pipes, and
on a device that has not been closed. -/
def Unshared (s : RefCounts δ) : EpOp δ → Prop
  | .openPipe d => s.priv d = true ∧ epOf d ∉ s.inUse epOf
  | _ => True

/-- The invariant of the runs that meet it. -/
structure Inv (s : RefCounts δ) : Prop where
  distinct : (s.inUse epOf).Nodup
  users : s.users = s.opened.length
  enabled : s.enabled = true ↔ s.opened ≠ []
  epUsers : ∀ e, s.epUsers e = if e ∈ s.inUse epOf then 1 else 0
  epEnabled : ∀ e, e ≠ 0 → (s.epEnabled e = true ↔ e ∈ s.inUse epOf)
  priv : ∀ d ∈ s.opened, s.priv d = true
  running : s.fault = false

variable {epOf} {s : RefCounts δ}

omit [DecidableEq δ] in
theorem Inv.balanced (h : s.Inv epOf) : s.Balanced epOf := by
  refine ⟨h.epEnabled, h.enabled, fun hnil => ⟨?_, fun e => ?_⟩, h.running⟩
  · rw [h.users, hnil]
    rfl
  · rw [h.epUsers, inUse, hnil]
    rfl

-- ---------------------------------------------------------------------------
-- One step
-- ---------------------------------------------------------------------------

theorem step_open (hrunning : s.fault = false) {d : δ} (hpriv : s.priv d = true) :
    s.step epOf (.openPipe d) =
      { s with
        users := s.users + 1
        enabled := if s.users = 0 then true else s.enabled
        epUsers := Function.update s.epUsers (epOf d) 1
        epEnabled := if epOf d ≠ 0 then Function.update s.epEnabled (epOf d) true else s.epEnabled
        opened := d :: s.opened } := by
  simp [step, hrunning, usbEpOpen, hpriv, epGet, controllerGet]

/-- An open of an endpoint that is not in use. -/
theorem open_inv (h : s.Inv epOf) {d : δ} (hpriv : s.priv d = true) (hfree : epOf d ∉ s.inUse epOf) :
    (s.step epOf (.openPipe d)).Inv epOf := by
  rw [step_open h.running hpriv]
  refine { distinct := ?_, users := ?_, enabled := ?_, epUsers := fun e => ?_, epEnabled := fun e he => ?_,
           priv := ?_, running := h.running }
  · exact List.nodup_cons.mpr ⟨hfree, h.distinct⟩
  · simp [h.users]
  · have henabled := h.enabled
    have husers := h.users
    by_cases hzero : s.users = 0
    · simp [hzero]
    · have hne : s.opened ≠ [] := by
        intro hnil
        rw [hnil] at husers
        exact hzero husers
      simp [hzero, henabled.mpr hne]
  · show Function.update s.epUsers (epOf d) 1 e = if e ∈ epOf d :: s.inUse epOf then 1 else 0
    by_cases hd : e = epOf d
    · simp [hd]
    · rw [Function.update_of_ne hd, h.epUsers]
      simp [hd]
  · show (if epOf d ≠ 0 then Function.update s.epEnabled (epOf d) true else s.epEnabled) e = true ↔
      e ∈ epOf d :: s.inUse epOf
    by_cases hd : e = epOf d
    · subst hd
      simp [he]
    · have hold := h.epEnabled e he
      split
      · rw [Function.update_of_ne hd, hold]
        simp [hd]
      · rw [hold]
        simp [hd]
  · intro c hc
    rcases List.mem_cons.mp hc with rfl | hc
    · exact hpriv
    · exact h.priv c hc

/-- The endpoints that stay in use when a pipe is closed. -/
theorem mem_inUse_erase (h : s.Inv epOf) {d : δ} (hd : d ∈ s.opened) (e : Nat) :
    e ∈ (s.opened.erase d).map epOf ↔ e ∈ s.inUse epOf ∧ e ≠ epOf d := by
  have hperm : (s.inUse epOf).Perm (epOf d :: (s.opened.erase d).map epOf) :=
    (List.perm_cons_erase hd).map epOf
  have hfresh : epOf d ∉ (s.opened.erase d).map epOf :=
    (List.nodup_cons.mp (hperm.nodup_iff.mp h.distinct)).1
  rw [hperm.mem_iff, List.mem_cons]
  refine ⟨fun he => ⟨Or.inr he, ?_⟩, fun ⟨he, hne⟩ => he.resolve_left hne⟩
  rintro rfl
  exact hfresh he

/-- The only pipe of the endpoint is closed. -/
theorem step_close (h : s.Inv epOf) {d : δ} (hd : d ∈ s.opened) :
    s.step epOf (.closePipe d) =
      { s with
        users := s.users - 1
        enabled := decide (s.users - 1 ≠ 0)
        epUsers := Function.update s.epUsers (epOf d) 0
        epEnabled :=
          if s.users - 1 = 0 then
            Function.update (Function.update s.epEnabled (epOf d) false) 0 false
          else Function.update s.epEnabled (epOf d) false
        priv := Function.update s.priv d false
        opened := s.opened.erase d } := by
  have hnodup : s.opened.Nodup := List.Nodup.of_map epOf h.distinct
  have hlast : d ∉ s.opened.erase d := List.Nodup.not_mem_erase hnodup
  have hone : s.epUsers (epOf d) = 1 := by
    have hmem : epOf d ∈ s.inUse epOf := List.mem_map_of_mem hd
    rw [h.epUsers, if_pos hmem]
  have hpos : s.users ≠ 0 := by
    rw [h.users]
    exact (List.length_pos_of_mem hd).ne'
  have henabled : s.enabled = true := h.enabled.mpr (List.ne_nil_of_mem hd)
  by_cases hzero : s.users - 1 = 0
  · simp [step, h.running, hd, doFreePipe, hlast, usbEpClose, h.priv d hd, epPut, hone, controllerPut,
      hpos, hzero, controllerDisable]
  · simp [step, h.running, hd, doFreePipe, hlast, usbEpClose, h.priv d hd, epPut, hone, controllerPut,
      hpos, hzero, henabled]

theorem close_inv (h : s.Inv epOf) {d : δ} (hd : d ∈ s.opened) :
    (s.step epOf (.closePipe d)).Inv epOf := by
  have hlen : (s.opened.erase d).length = s.users - 1 := by
    rw [List.length_erase_of_mem hd, h.users]
  have hmem := mem_inUse_erase h hd
  rw [step_close h hd]
  refine { distinct := ?_, users := hlen.symm, enabled := ?_, epUsers := fun e => ?_,
           epEnabled := fun e he => ?_, priv := fun c hc => ?_, running := h.running }
  · exact h.distinct.sublist (List.erase_sublist.map epOf)
  · show decide (s.users - 1 ≠ 0) = true ↔ s.opened.erase d ≠ []
    rw [decide_eq_true_eq, ← hlen, ne_eq, List.length_eq_zero_iff]
  · show Function.update s.epUsers (epOf d) 0 e = if e ∈ (s.opened.erase d).map epOf then 1 else 0
    rw [Function.update_apply, h.epUsers]
    simp only [hmem]
    by_cases heq : e = epOf d <;> simp [heq]
  · -- The register of endpoint 0 is of no account here.
    have hupdate : (if s.users - 1 = 0 then
          Function.update (Function.update s.epEnabled (epOf d) false) 0 false
        else Function.update s.epEnabled (epOf d) false) e =
        Function.update s.epEnabled (epOf d) false e := by
      split
      · exact Function.update_of_ne he _ _
      · rfl
    show (if s.users - 1 = 0 then
          Function.update (Function.update s.epEnabled (epOf d) false) 0 false
        else Function.update s.epEnabled (epOf d) false) e = true ↔ e ∈ (s.opened.erase d).map epOf
    rw [hupdate, hmem, Function.update_apply]
    by_cases heq : e = epOf d
    · simp [heq]
    · simp [heq, h.epEnabled e he]
  · have hne : c ≠ d := by
      rintro rfl
      exact (List.Nodup.not_mem_erase (List.Nodup.of_map epOf h.distinct)) hc
    show Function.update s.priv d false c = true
    rw [Function.update_of_ne hne]
    exact h.priv c (List.mem_of_mem_erase hc)

theorem step_inv (h : s.Inv epOf) {op : EpOp δ} (hop : s.Unshared epOf op) :
    (s.step epOf op).Inv epOf := by
  cases op with
  | openPipe d => exact open_inv h hop.1 hop.2
  | closePipe d =>
    by_cases hd : d ∈ s.opened
    · exact close_inv h hd
    · have hstep : s.step epOf (.closePipe d) = s := by simp [step, h.running, hd]
      rw [hstep]
      exact h
  | usbReset =>
    have hstep : s.step epOf .usbReset = s.usbReset := by simp [step, h.running]
    rw [hstep]
    exact { distinct := h.distinct, users := h.users, enabled := h.enabled, epUsers := h.epUsers
            epEnabled := fun e he => by
              rw [show s.usbReset.epEnabled e = s.epEnabled e from Function.update_of_ne he _ _]
              exact h.epEnabled e he
            priv := h.priv, running := h.running }

/-- **One step.** Opens that do not share an endpoint keep the counts. -/
theorem step_balanced (h : s.Inv epOf) {op : EpOp δ} (hop : s.Unshared epOf op) :
    s.StepBalanced epOf op := by
  refine ⟨(step_inv h hop).balanced, fun hon hoff => ?_⟩
  cases op with
  | openPipe d =>
    -- Nothing is disabled by an open.
    rw [step_open h.running hop.1] at hoff
    simp only at hoff
    split at hoff
    · next he =>
      rw [Function.update_of_ne (Ne.symm he), hon] at hoff
      cases hoff
    · rw [hon] at hoff
      cases hoff
  | closePipe d =>
    by_cases hd : d ∈ s.opened
    · rw [step_close h hd] at hoff ⊢
      intro hin
      have hother : 0 ∈ (s.opened.erase d).map epOf := hin
      have hne := ((mem_inUse_erase h hd 0).mp hother).2
      -- The controller is disabled with the last pipe only.
      have hmore : s.users - 1 ≠ 0 := by
        rw [h.users, ← List.length_erase_of_mem hd, ← List.length_map epOf]
        exact (List.length_pos_of_mem hother).ne'
      simp only [if_neg hmore, Function.update_of_ne hne, hon] at hoff
      cases hoff
    · have hstep : s.step epOf (.closePipe d) = s := by simp [step, h.running, hd]
      rw [hstep, hon] at hoff
      cases hoff
  | usbReset =>
    have hstep : s.step epOf .usbReset = s.usbReset := by simp [step, h.running]
    rw [hstep, usbReset] at hoff
    simp at hoff

/-- After `usb_device_controller_init`: nothing is open or enabled. -/
def boot : RefCounts δ where
  users := 0
  enabled := false
  epUsers := fun _ => 0
  epEnabled := fun _ => false
  priv := fun _ => true
  opened := []
  fault := false

omit [DecidableEq δ] in
theorem boot_inv (epOf : δ → Nat) : (boot : RefCounts δ).Inv epOf := by
  refine { distinct := List.nodup_nil, users := rfl, enabled := ?_, epUsers := fun _ => rfl
           epEnabled := fun e _ => ?_, priv := nofun, running := rfl }
  · simp [boot]
  · simp [boot, inUse]

end RefCounts

open RefCounts

/-- **Reference counts.** From boot on, the counts are right in every run in which
each pipe is opened on an endpoint without open pipes, by a device that has not
been closed before. -/
theorem refcounts_balance [DecidableEq δ] (epOf : δ → Nat) {ops : List (EpOp δ)}
    (hrun : EachStep (RefCounts.step epOf) (Unshared epOf) boot ops) :
    EachStep (RefCounts.step epOf) (StepBalanced epOf) boot ops :=
  EachStep.mono (fun (s : RefCounts δ) _ (h : s.Inv epOf) hop => step_inv h hop)
    (fun _ _ h hop => step_balanced h hop) (boot_inv epOf) hrun

instance RefCounts.decidableUnshared [DecidableEq δ] (epOf : δ → Nat) (s : RefCounts δ) :
    ∀ op, Decidable (s.Unshared epOf op)
  | .openPipe _ => inferInstanceAs (Decidable (_ ∧ _))
  | .closePipe _ => inferInstanceAs (Decidable True)
  | .usbReset => inferInstanceAs (Decidable True)

-- Devices 0 and 1 are the two interfaces of endpoint 0, the others endpoints of
-- their own.
theorem refcounts_balance_two_endpoints :
    EachStep (RefCounts.step fun d => d - 1) (StepBalanced fun d => d - 1) boot
      [.openPipe 0, .usbReset, .openPipe 3, .closePipe 0, .openPipe 1, .closePipe 3, .closePipe 1] :=
  refcounts_balance _ (by decide +kernel)

/-- Two pipes on one endpoint: when both are closed the controller still has a
user. -/
theorem shared_endpoint_unbalanced :
    ¬ ∀ (epOf : Nat → Nat) (ops : List (EpOp Nat)),
      EachStep (RefCounts.step epOf) (StepBalanced epOf) boot ops := by
  intro hall
  obtain ⟨-, -, -, ⟨hbalanced, -⟩, -⟩ := hall id [.openPipe 1, .openPipe 1, .closePipe 1, .closePipe 1]
  exact absurd (hbalanced.released (by decide +kernel)).1 (by decide +kernel)

end Bathos.Usb
