import Bathos.Lib.Chunking

/-!
# Bathos — the serial multiplexer of the Yun board

`arch-atmega/uart-mux-yun.c`: bytes from the uart of the MIPS, from the usb serial
line and from the SPI are passed on according to two modes, and the modes are
switched by bytes of the same streams. The handler reads up to 64 bytes at a time,
looks for a switch byte in what it read, and then deals with all of it in the mode
it is in after that.

Main results:

* `pipeInputHandle_eq_iff` — when a read has the effect its bytes would have one
  by one;
* `routing_iff` — for which streams the effect does not depend on the reads.
-/

namespace Bathos.Yun

open Bathos.Lib

-- ---------------------------------------------------------------------------
-- Modes and outputs
-- ---------------------------------------------------------------------------

/-- `enum uart_mux_mode`. -/
inductive UartMode where
  | mipsConsole
  | mcuio
deriving DecidableEq, Repr

/-- `enum usb_uart_mux_mode`. -/
inductive UsbUartMode where
  | spi
  | shell
  | uart
deriving DecidableEq, Repr

/-- The pipes bytes are read from: avr-uart, `bathos_stdin` and avr-spi. -/
inductive Source where
  | uart
  | stdin
  | spi
deriving DecidableEq, Repr

/-- `struct uart_mux_yun_data`, once both pipes are open. -/
structure Mux where
  uartMode : UartMode
  usbUartMode : UsbUartMode
  spiactive : Bool
deriving DecidableEq, Repr

/-- The bytes written to each of the pipes. -/
@[ext] structure Output where
  stdout : List UInt8
  spi : List UInt8
  uart : List UInt8
deriving DecidableEq, Repr

namespace Output

/-- Outputs one after the other. -/
instance : CancelMonoid Output where
  mul a b := ⟨a.stdout ++ b.stdout, a.spi ++ b.spi, a.uart ++ b.uart⟩
  mul_assoc a b c := Output.ext (List.append_assoc ..) (List.append_assoc ..) (List.append_assoc ..)
  one := ⟨[], [], []⟩
  one_mul _ := rfl
  mul_one a := Output.ext (List.append_nil _) (List.append_nil _) (List.append_nil _)
  mul_left_cancel a b c h := by
    obtain ⟨h1, h2, h3⟩ := Output.mk.inj h
    exact Output.ext (List.append_cancel_left h1) (List.append_cancel_left h2)
      (List.append_cancel_left h3)
  mul_right_cancel a b c h := by
    obtain ⟨h1, h2, h3⟩ := Output.mk.inj h
    exact Output.ext (List.append_cancel_right h1) (List.append_cancel_right h2)
      (List.append_cancel_right h3)

@[simp] theorem mul_stdout (a b : Output) : (a * b).stdout = a.stdout ++ b.stdout := rfl
@[simp] theorem mul_spi (a b : Output) : (a * b).spi = a.spi ++ b.spi := rfl
@[simp] theorem mul_uart (a b : Output) : (a * b).uart = a.uart ++ b.uart := rfl
@[simp] theorem one_stdout : (1 : Output).stdout = [] := rfl
@[simp] theorem one_spi : (1 : Output).spi = [] := rfl
@[simp] theorem one_uart : (1 : Output).uart = [] := rfl

/-- `pipe_write` to each of the pipes. -/
def toStdout (buf : List UInt8) : Output := ⟨buf, [], []⟩
def toSpi (buf : List UInt8) : Output := ⟨[], buf, []⟩
def toUart (buf : List UInt8) : Output := ⟨[], [], buf⟩

/-- `printf`. -/
def printf (text : String) : Output := toStdout (text.toList.map fun c => UInt8.ofNat c.toNat)

end Output

open Output

-- ---------------------------------------------------------------------------
-- uart-mux-yun.c
-- ---------------------------------------------------------------------------

def USB_UART_MODE_SWITCH : UInt8 := 0x1d
def UART_MODE_SWITCH_MIPS : UInt8 := 0xaa
def PIPE_BUF_SIZE : Nat := 64

/-- Whether `trigger_event` takes the two events whose status is looked at. -/
structure Events where
  shellStart : Bool
  mcuioDataReady : Bool

/-- `uart_mux_yun_open`, when both pipes are found; `spiactive` is static. -/
def uartMuxYunOpen : Mux := ⟨.mipsConsole, .uart, false⟩

/-- `__do_switch_uart`. -/
def doSwitchUart (m : Mux) : Mux × Output :=
  let m := { m with uartMode := if m.uartMode = .mcuio then .mipsConsole else .mcuio }
  (m, printf ("\r\navr-uart: switched to uart mode: " ++
    (if m.uartMode = .mcuio then "mcuio" else "mips-console") ++ "\r\n"))

/-- `__do_switch_usb_uart`. -/
def doSwitchUsbUart (ev : Events) (m : Mux) : Mux × Output :=
  match m.usbUartMode with
  | .shell =>
    if m.spiactive then
      ({ m with usbUartMode := .spi }, printf "\r\nswitched to usb_uart mode: spi\r\n")
    else ({ m with usbUartMode := .uart }, printf "\r\nswitched to usb_uart mode: uart\r\n")
  | _ =>
    if ev.shellStart then
      ({ m with usbUartMode := .shell }, printf "\r\nswitched to usb_uart mode: shell\r\n")
    else (m, printf "error switching to shell mode\n")

/-- `__spi_pipe_input_handle`. -/
def spiPipeInputHandle (m : Mux) (buf : List UInt8) : Mux × Output :=
  let m := { m with spiactive := true }
  let m := if m.usbUartMode ≠ .shell then { m with usbUartMode := .spi } else m
  (m, toStdout buf)

/-- `__pipe_input_handle` for `bathos_stdin`, with what was read. -/
def stdinInputHandle (ev : Events) (m : Mux) (buf : List UInt8) : Mux × Output :=
  let (m, o) := if USB_UART_MODE_SWITCH ∈ buf then doSwitchUsbUart ev m else (m, 1)
  if m.usbUartMode = .shell then (m, o)
  else
    let o := if m.usbUartMode = .spi then o * toSpi buf else o
    if m.uartMode = .mcuio then (m, o) else (m, o * toUart buf)

/-- `__pipe_input_handle` for avr-uart, with what was read. -/
def uartInputHandle (ev : Events) (m : Mux) (buf : List UInt8) : Mux × Output :=
  if m.uartMode = .mipsConsole then
    let (m, o) := if UART_MODE_SWITCH_MIPS ∈ buf then doSwitchUart m else (m, 1)
    if m.uartMode = .mcuio then (m, o) else (m, o * toStdout buf)
  else (m, if ev.mcuioDataReady then 1 else printf "WARN: err on mcuio drdy evt\n")

/-- `__pipe_input_handle`; the pipe has the bytes `buf` ready, which it reads or
leaves to the shell or to mcuio. -/
def pipeInputHandle (ev : Events) (m : Mux) (ready : Source × List UInt8) : Mux × Output :=
  let (pipe, buf) := ready
  if pipe = .spi then spiPipeInputHandle m buf
  else if (m.uartMode = .mipsConsole ∨ pipe = .stdin) ∧ m.usbUartMode ≠ .shell then
    if buf = [] then (m, 1)
    else if pipe = .stdin then stdinInputHandle ev m buf
    else uartInputHandle ev m buf
  else if pipe = .stdin then stdinInputHandle ev m []
  else uartInputHandle ev m []

-- ---------------------------------------------------------------------------
-- One read
-- ---------------------------------------------------------------------------

variable {ev : Events} {m : Mux} {buf : List UInt8}

/-- Where bytes from the usb serial line go when the shell does not take them. -/
def routed (m : Mux) (buf : List UInt8) : Output :=
  ⟨[], if m.usbUartMode = .spi then buf else [], if m.uartMode = .mipsConsole then buf else []⟩

/-- What is printed when the event for mcuio is refused. -/
def mcuioWarning (ev : Events) : Output :=
  if ev.mcuioDataReady then 1 else printf "WARN: err on mcuio drdy evt\n"

def shellNotice : Output := printf "\r\nswitched to usb_uart mode: shell\r\n"
def shellError : Output := printf "error switching to shell mode\n"
def mcuioNotice : Output := printf "\r\navr-uart: switched to uart mode: mcuio\r\n"

theorem stdin_shell (hshell : m.usbUartMode = .shell) : pipeInputHandle ev m (.stdin, buf) = (m, 1) := by
  simp [pipeInputHandle, stdinInputHandle, hshell]

theorem routed_append (m : Mux) (buf buf' : List UInt8) :
    routed m (buf ++ buf') = routed m buf * routed m buf' := by
  unfold routed
  ext1
  · rfl
  · simp only [mul_spi]
    split <;> rfl
  · simp only [mul_uart]
    split <;> rfl

theorem routed_nil (m : Mux) : routed m [] = 1 := by
  simp only [routed, ite_self]
  rfl

/-- The end of the handler for the usb serial line. -/
theorem stdinInputHandle_rest (m : Mux) (o : Output) (buf : List UInt8) :
    (if m.uartMode = .mcuio then (m, if m.usbUartMode = .spi then o * toSpi buf else o)
      else (m, (if m.usbUartMode = .spi then o * toSpi buf else o) * toUart buf)) =
      (m, o * routed m buf) := by
  unfold routed
  cases huart : m.uartMode <;> by_cases hspi : m.usbUartMode = .spi <;>
    simp [hspi, Output.ext_iff, toSpi, toUart]

theorem stdin_plain (hshell : m.usbUartMode ≠ .shell) (hbuf : USB_UART_MODE_SWITCH ∉ buf) :
    pipeInputHandle ev m (.stdin, buf) = (m, routed m buf) := by
  by_cases hempty : buf = []
  · simp [pipeInputHandle, hshell, hempty, routed_nil]
  · simp only [pipeInputHandle, stdinInputHandle, hshell, hempty, hbuf, reduceCtorEq, if_false,
      or_true, ne_eq, not_false_eq_true, and_self, if_true]
    rw [stdinInputHandle_rest, one_mul]

theorem stdin_switch (hshell : m.usbUartMode ≠ .shell) (hbuf : USB_UART_MODE_SWITCH ∈ buf) :
    pipeInputHandle ev m (.stdin, buf) =
      if ev.shellStart then ({ m with usbUartMode := .shell }, shellNotice)
      else (m, shellError * routed m buf) := by
  have hempty : buf ≠ [] := List.ne_nil_of_mem hbuf
  have hswitch : doSwitchUsbUart ev m =
      if ev.shellStart then ({ m with usbUartMode := .shell }, shellNotice) else (m, shellError) := by
    unfold doSwitchUsbUart
    cases husb : m.usbUartMode with
    | shell => exact absurd husb hshell
    | spi => rfl
    | uart => rfl
  simp only [pipeInputHandle, stdinInputHandle, hshell, hempty, hbuf, hswitch, reduceCtorEq, if_false,
    or_true, ne_eq, not_false_eq_true, and_self, if_true]
  cases ev.shellStart with
  | true => simp
  | false =>
    simp only [Bool.false_eq_true, if_false, hshell]
    exact stdinInputHandle_rest m shellError buf

theorem uart_shell (hmips : m.uartMode = .mipsConsole) (hshell : m.usbUartMode = .shell) :
    pipeInputHandle ev m (.uart, buf) = (m, 1) := by
  simp [pipeInputHandle, uartInputHandle, hmips, hshell, toStdout, Output.ext_iff]

theorem uart_mcuio (hmcuio : m.uartMode = .mcuio) :
    pipeInputHandle ev m (.uart, buf) = (m, mcuioWarning ev) := by
  simp [pipeInputHandle, uartInputHandle, hmcuio, mcuioWarning]

theorem uart_plain (hmips : m.uartMode = .mipsConsole) (hshell : m.usbUartMode ≠ .shell)
    (hbuf : UART_MODE_SWITCH_MIPS ∉ buf) :
    pipeInputHandle ev m (.uart, buf) = (m, toStdout buf) := by
  by_cases hempty : buf = []
  · simp [pipeInputHandle, hmips, hshell, hempty, toStdout, Output.ext_iff]
  · simp [pipeInputHandle, uartInputHandle, hmips, hshell, hbuf, hempty]

theorem uart_switch (hmips : m.uartMode = .mipsConsole) (hshell : m.usbUartMode ≠ .shell)
    (hbuf : UART_MODE_SWITCH_MIPS ∈ buf) :
    pipeInputHandle ev m (.uart, buf) = ({ m with uartMode := .mcuio }, mcuioNotice) := by
  have hne : buf ≠ [] := List.ne_nil_of_mem hbuf
  simp [pipeInputHandle, uartInputHandle, hmips, hshell, hbuf, hne, doSwitchUart, mcuioNotice]

-- ---------------------------------------------------------------------------
-- The same bytes one by one
-- ---------------------------------------------------------------------------

/-- The bytes of one pipe, read one at a time. -/
def bytewise (ev : Events) (m : Mux) (pipe : Source) (buf : List UInt8) : Mux × Output :=
  runOut (pipeInputHandle ev) m (singles (letters (pipe, buf)))

variable {pipe : Source}

theorem bytewise_append (m : Mux) (buf buf' : List UInt8) :
    bytewise ev m pipe (buf ++ buf') =
      ((bytewise ev (bytewise ev m pipe buf).1 pipe buf').1,
        (bytewise ev m pipe buf).2 * (bytewise ev (bytewise ev m pipe buf).1 pipe buf').2) := by
  unfold bytewise letters
  rw [List.map_append, singles_append, runOut_append]

theorem bytewise_singleton (m : Mux) (b : UInt8) :
    bytewise ev m pipe [b] = pipeInputHandle ev m (pipe, [b]) := by
  simp [bytewise, letters, singles, runOut_cons]

/-- Bytes that leave the modes alone. -/
theorem bytewise_stay {f : UInt8 → Output} (h : ∀ b ∈ buf, pipeInputHandle ev m (pipe, [b]) = (m, f b)) :
    bytewise ev m pipe buf = (m, (buf.map f).prod) := by
  induction buf with
  | nil => rfl
  | cons b buf ih =>
    rw [← List.singleton_append, bytewise_append, bytewise_singleton, h b List.mem_cons_self,
      ih fun c hc => h c (List.mem_cons_of_mem _ hc)]
    simp

theorem prod_routed (m : Mux) (buf : List UInt8) :
    (buf.map fun b => routed m [b]).prod = routed m buf := by
  induction buf with
  | nil => exact (routed_nil m).symm
  | cons b buf ih => rw [List.map_cons, List.prod_cons, ih, ← routed_append, List.singleton_append]

theorem prod_toStdout (buf : List UInt8) : (buf.map fun b => toStdout [b]).prod = toStdout buf := by
  induction buf with
  | nil => rfl
  | cons b buf ih =>
    rw [List.map_cons, List.prod_cons, ih]
    rfl

/-- What is printed and what is routed go to different pipes. -/
theorem routed_mul_shellError (m : Mux) (buf : List UInt8) :
    routed m buf * shellError = shellError * routed m buf := by
  simp [routed, shellError, printf, toStdout, Output.ext_iff]

theorem prod_refused (m : Mux) (buf : List UInt8) :
    (buf.map fun b => if b = USB_UART_MODE_SWITCH then shellError * routed m [b] else routed m [b]).prod =
      shellError ^ buf.count USB_UART_MODE_SWITCH * routed m buf := by
  induction buf with
  | nil => simp [routed_nil]
  | cons b buf ih =>
    have hcomm : Commute (routed m [b]) (shellError ^ buf.count USB_UART_MODE_SWITCH) :=
      Commute.pow_right (routed_mul_shellError m [b]) _
    have happend : routed m (b :: buf) = routed m [b] * routed m buf := routed_append m [b] buf
    rw [List.map_cons, List.prod_cons, ih, happend]
    by_cases hb : b = USB_UART_MODE_SWITCH
    · subst hb
      rw [if_pos rfl, List.count_cons_self, pow_succ', mul_assoc, mul_assoc,
        ← mul_assoc (routed m _), hcomm.eq, mul_assoc]
    · rw [if_neg hb, List.count_cons_of_ne hb, ← mul_assoc, hcomm.eq, mul_assoc]

theorem bytewise_stdin_shell (hshell : m.usbUartMode = .shell) (buf : List UInt8) :
    bytewise ev m .stdin buf = (m, 1) := by
  rw [bytewise_stay fun b _ => stdin_shell hshell]
  simp

theorem bytewise_stdin_plain (hshell : m.usbUartMode ≠ .shell) (hbuf : USB_UART_MODE_SWITCH ∉ buf) :
    bytewise ev m .stdin buf = (m, routed m buf) := by
  rw [bytewise_stay fun b hb => stdin_plain hshell ?_, prod_routed]
  rw [List.mem_singleton]
  rintro rfl
  exact hbuf hb

/-- The bytes before the switch byte are routed, the ones after it left to the
shell. -/
theorem bytewise_stdin_accepted (hshell : m.usbUartMode ≠ .shell) (hev : ev.shellStart = true)
    {pre : List UInt8} (hpre : USB_UART_MODE_SWITCH ∉ pre) (rest : List UInt8) :
    bytewise ev m .stdin (pre ++ USB_UART_MODE_SWITCH :: rest) =
      ({ m with usbUartMode := .shell }, routed m pre * shellNotice) := by
  have hswitch : pipeInputHandle ev m (.stdin, [USB_UART_MODE_SWITCH]) =
      ({ m with usbUartMode := .shell }, shellNotice) := by
    rw [stdin_switch hshell List.mem_cons_self, if_pos hev]
  rw [bytewise_append, bytewise_stdin_plain hshell hpre, ← List.singleton_append, bytewise_append,
    bytewise_singleton, hswitch, bytewise_stdin_shell rfl, mul_one]

theorem bytewise_stdin_refused (hshell : m.usbUartMode ≠ .shell) (hev : ¬ ev.shellStart = true)
    (buf : List UInt8) :
    bytewise ev m .stdin buf =
      (m, shellError ^ buf.count USB_UART_MODE_SWITCH * routed m buf) := by
  rw [← prod_refused]
  refine bytewise_stay fun b _ => ?_
  by_cases hb : b = USB_UART_MODE_SWITCH
  · rw [stdin_switch hshell (by simp [hb]), if_neg hev, if_pos hb]
  · rw [stdin_plain hshell (by simpa using Ne.symm hb), if_neg hb]

theorem bytewise_uart_mcuio (hmcuio : m.uartMode = .mcuio) (buf : List UInt8) :
    bytewise ev m .uart buf = (m, mcuioWarning ev ^ buf.length) := by
  rw [bytewise_stay fun b _ => uart_mcuio hmcuio]
  simp

theorem bytewise_uart_plain (hmips : m.uartMode = .mipsConsole) (hshell : m.usbUartMode ≠ .shell)
    (hbuf : UART_MODE_SWITCH_MIPS ∉ buf) :
    bytewise ev m .uart buf = (m, toStdout buf) := by
  rw [bytewise_stay fun b hb => uart_plain hmips hshell ?_, prod_toStdout]
  rw [List.mem_singleton]
  rintro rfl
  exact hbuf hb

/-- The bytes before the switch byte are shown, the ones after it left to mcuio. -/
theorem bytewise_uart_switch (hmips : m.uartMode = .mipsConsole) (hshell : m.usbUartMode ≠ .shell)
    {pre : List UInt8} (hpre : UART_MODE_SWITCH_MIPS ∉ pre) (rest : List UInt8) :
    bytewise ev m .uart (pre ++ UART_MODE_SWITCH_MIPS :: rest) =
      ({ m with uartMode := .mcuio }, toStdout pre * (mcuioNotice * mcuioWarning ev ^ rest.length)) := by
  rw [bytewise_append, bytewise_uart_plain hmips hshell hpre, ← List.singleton_append,
    bytewise_append, bytewise_singleton, uart_switch hmips hshell List.mem_cons_self,
    bytewise_uart_mcuio rfl]

-- ---------------------------------------------------------------------------
-- When a read is as good as its bytes
-- ---------------------------------------------------------------------------

/-- The condition on a read: no byte that is passed on stands before a byte that
switches a mode, and no text is printed for several bytes at once. -/
def Whole (ev : Events) (m : Mux) : Source × List UInt8 → Prop
  | (.spi, _) => True
  | (.stdin, buf) => m.usbUartMode ≠ .shell →
      if ev.shellStart then
        USB_UART_MODE_SWITCH ∈ buf → buf.head? = some USB_UART_MODE_SWITCH ∨
          (m.usbUartMode = .uart ∧ m.uartMode = .mcuio)
      else buf.count USB_UART_MODE_SWITCH ≤ 1
  | (.uart, buf) =>
    match m.uartMode with
    | .mipsConsole => m.usbUartMode ≠ .shell → UART_MODE_SWITCH_MIPS ∈ buf →
        buf.head? = some UART_MODE_SWITCH_MIPS ∧ (ev.mcuioDataReady = true ∨ buf.length ≤ 1)
    | .mcuio => ev.mcuioDataReady = true ∨ buf.length ≤ 1

/-- Nothing of what stands before the switch byte is routed. -/
theorem routed_eq_one_iff (hshell : m.usbUartMode ≠ .shell) (buf : List UInt8) :
    routed m buf = 1 ↔ buf = [] ∨ (m.usbUartMode = .uart ∧ m.uartMode = .mcuio) := by
  unfold routed
  rw [Output.ext_iff]
  cases husb : m.usbUartMode with
  | shell => exact absurd husb hshell
  | spi => cases m.uartMode <;> simp
  | uart => cases m.uartMode <;> simp

/-- A text that is printed is not empty. -/
theorem printf_pow_eq_iff {text : String} (htext : text.toList ≠ []) {j k : Nat} :
    printf text ^ j = printf text ^ k ↔ j = k := by
  have hlen : ∀ n, (printf text ^ n).stdout.length = n * text.toList.length := by
    intro n
    induction n with
    | zero => simp
    | succ n ih =>
      rw [pow_succ, mul_stdout, List.length_append, ih, Nat.succ_mul]
      simp [printf, toStdout]
  refine ⟨fun h => ?_, fun h => by rw [h]⟩
  have heq := congrArg (fun o => o.stdout.length) h
  simp only [hlen] at heq
  exact Nat.eq_of_mul_eq_mul_right (List.length_pos_iff.mpr htext) heq

theorem mcuioWarning_pow_eq_iff {j k : Nat} :
    mcuioWarning ev ^ j = mcuioWarning ev ^ k ↔ ev.mcuioDataReady = true ∨ j = k := by
  unfold mcuioWarning
  cases ev.mcuioDataReady with
  | true => simp
  | false =>
    simp only [Bool.false_eq_true, if_false, false_or]
    exact printf_pow_eq_iff (by decide)

/-- A switch byte, and the ones before it. -/
theorem head?_append_cons {b : UInt8} {pre rest : List UInt8} (hpre : b ∉ pre) :
    (pre ++ b :: rest).head? = some b ↔ pre = [] := by
  cases pre with
  | nil => simp
  | cons c pre =>
    rw [List.cons_append, List.head?_cons, Option.some_inj]
    have hne : c ≠ b := fun h => hpre (h ▸ List.mem_cons_self)
    simp [hne]

/-- The read and its bytes lead to the same modes, and to the same output exactly
under the condition. -/
def Compares (ev : Events) (m : Mux) (pipe : Source) (buf : List UInt8) : Prop :=
  (pipeInputHandle ev m (pipe, buf)).1 = (bytewise ev m pipe buf).1 ∧
    (pipeInputHandle ev m (pipe, buf) = bytewise ev m pipe buf ↔ Whole ev m (pipe, buf))

theorem spi_compares (hbuf : buf ≠ []) : Compares ev m .spi buf := by
  have hidem : ∀ b, pipeInputHandle ev (spiPipeInputHandle m []).1 (.spi, [b]) =
      ((spiPipeInputHandle m []).1, toStdout [b]) := by
    intro b
    unfold pipeInputHandle spiPipeInputHandle
    cases m.usbUartMode <;> simp
  have hbytes : bytewise ev m .spi buf = ((spiPipeInputHandle m []).1, toStdout buf) := by
    obtain ⟨b, rest, rfl⟩ := List.exists_cons_of_ne_nil hbuf
    have hfirst : bytewise ev m .spi [b] = ((spiPipeInputHandle m []).1, toStdout [b]) := by
      rw [bytewise_singleton]
      rfl
    rw [← List.singleton_append, bytewise_append, hfirst, bytewise_stay fun c _ => hidem c,
      prod_toStdout]
    rfl
  unfold Compares
  rw [hbytes]
  refine ⟨rfl, ?_⟩
  simp only [Whole, iff_true]
  rfl

theorem stdin_compares : Compares ev m .stdin buf := by
  unfold Compares Whole
  by_cases hshell : m.usbUartMode = .shell
  · rw [stdin_shell hshell, bytewise_stdin_shell hshell]
    simp [hshell]
  by_cases hmem : USB_UART_MODE_SWITCH ∈ buf
  · rw [stdin_switch hshell hmem]
    simp only [ne_eq, hshell, not_false_eq_true, forall_const, hmem]
    by_cases hev : ev.shellStart = true
    · obtain ⟨pre, rest, rfl, hpre⟩ := List.eq_append_cons_of_mem hmem
      rw [bytewise_stdin_accepted hshell hev hpre, head?_append_cons hpre,
        ← routed_eq_one_iff hshell, if_pos hev, if_pos hev]
      refine ⟨rfl, ?_⟩
      rw [Prod.mk.injEq, eq_self, true_and, eq_comm, mul_eq_right]
    · have hpos : 0 < buf.count USB_UART_MODE_SWITCH := List.count_pos_iff.mpr hmem
      have hpow : shellError ^ 1 = shellError ^ buf.count USB_UART_MODE_SWITCH ↔
          1 = buf.count USB_UART_MODE_SWITCH := printf_pow_eq_iff (by decide)
      rw [bytewise_stdin_refused hshell hev, if_neg hev, if_neg hev]
      refine ⟨rfl, ?_⟩
      rw [pow_one] at hpow
      rw [Prod.mk.injEq, eq_self, true_and, mul_left_inj, hpow]
      omega
  · rw [stdin_plain hshell hmem, bytewise_stdin_plain hshell hmem]
    simp [hmem, List.count_eq_zero_of_not_mem hmem]

/-- The notice alone: nothing before it, and no warning after it. -/
theorem mcuioNotice_eq_iff {pre : List UInt8} {n : Nat} :
    mcuioNotice = toStdout pre * (mcuioNotice * mcuioWarning ev ^ n) ↔
      pre = [] ∧ (ev.mcuioDataReady = true ∨ n = 0) := by
  have hwarning : mcuioWarning ev ^ 0 = mcuioWarning ev ^ n ↔ _ := mcuioWarning_pow_eq_iff
  have htail : mcuioNotice = mcuioNotice * mcuioWarning ev ^ n ↔ ev.mcuioDataReady = true ∨ n = 0 := by
    rw [eq_comm, mul_eq_left, eq_comm, ← pow_zero (mcuioWarning ev), hwarning, eq_comm (a := 0)]
  refine ⟨fun h => ?_, fun ⟨hpre, hn⟩ => ?_⟩
  · have hlen := congrArg (fun o => o.stdout.length) h
    simp only [mul_stdout, List.length_append, toStdout] at hlen
    have hpre : pre = [] := List.length_eq_zero_iff.mp (by omega)
    subst hpre
    exact ⟨rfl, htail.mp h⟩
  · subst hpre
    exact htail.mpr hn

theorem uart_compares (hbuf : buf ≠ []) : Compares ev m .uart buf := by
  unfold Compares Whole
  cases huart : m.uartMode with
  | mcuio =>
    have hpow : mcuioWarning ev ^ 1 = mcuioWarning ev ^ buf.length ↔ _ := mcuioWarning_pow_eq_iff
    have hpos : 0 < buf.length := List.length_pos_iff.mpr hbuf
    rw [uart_mcuio huart, bytewise_uart_mcuio huart]
    refine ⟨rfl, ?_⟩
    rw [pow_one] at hpow
    rw [Prod.mk.injEq, eq_self, true_and, hpow]
    exact or_congr_right (by omega)
  | mipsConsole =>
    by_cases hshell : m.usbUartMode = .shell
    · rw [uart_shell huart hshell, bytewise_stay fun b _ => uart_shell huart hshell]
      simp [hshell]
    by_cases hmem : UART_MODE_SWITCH_MIPS ∈ buf
    · obtain ⟨pre, rest, rfl, hpre⟩ := List.eq_append_cons_of_mem hmem
      simp only [ne_eq, hshell, not_false_eq_true, forall_const, hmem]
      rw [uart_switch huart hshell hmem, bytewise_uart_switch huart hshell hpre,
        head?_append_cons hpre]
      refine ⟨rfl, ?_⟩
      rw [Prod.mk.injEq, eq_self, true_and, mcuioNotice_eq_iff]
      refine and_congr_right fun hnil => or_congr_right ?_
      subst hnil
      simp
    · rw [uart_plain huart hshell hmem, bytewise_uart_plain huart hshell hmem]
      simp [hmem]

/-- **One read.** It has the effect of its bytes one by one exactly under the
condition; the modes it leads to are always the same. -/
theorem pipeInputHandle_eq_iff (ev : Events) (m : Mux) {c : Source × List UInt8} (hc : c.2 ≠ []) :
    (pipeInputHandle ev m c).1 = (runOut (pipeInputHandle ev) m (singles (letters c))).1 ∧
      (pipeInputHandle ev m c = runOut (pipeInputHandle ev) m (singles (letters c)) ↔
        Whole ev m c) := by
  obtain ⟨pipe, buf⟩ := c
  cases pipe with
  | uart => exact uart_compares hc
  | stdin => exact stdin_compares
  | spi => exact spi_compares hc

-- ---------------------------------------------------------------------------
-- Streams
-- ---------------------------------------------------------------------------

/-- **Routing and reads.** After the open, all ways to read a stream write the same
bytes to each of the pipes and end in the same modes, exactly when every piece of
up to 64 bytes from one pipe meets the condition in the modes it would find if
all before it were read one byte at a time. -/
theorem routing_iff (ev : Events) (w : List (Source × UInt8)) :
    (∀ cs cs', Cuts PIPE_BUF_SIZE cs w → Cuts PIPE_BUF_SIZE cs' w →
      runOut (pipeInputHandle ev) uartMuxYunOpen cs = runOut (pipeInputHandle ev) uartMuxYunOpen cs') ↔
    ∀ pre c post, w = pre ++ letters c ++ post → c.2 ≠ [] → c.2.length ≤ PIPE_BUF_SIZE →
      Whole ev (runOut (pipeInputHandle ev) uartMuxYunOpen (singles pre)).1 c := by
  have hlimit : 1 ≤ PIPE_BUF_SIZE := by decide
  rw [chunking_irrelevant_iff hlimit fun m c hc => (pipeInputHandle_eq_iff ev m hc).1]
  unfold PiecesAgree
  refine ⟨fun h pre c post hw hc hlen => ?_, fun h pre c post hw hc hlen => ?_⟩
  · exact (pipeInputHandle_eq_iff ev _ hc).2.mp (h pre c post hw hc hlen)
  · exact (pipeInputHandle_eq_iff ev _ hc).2.mpr (h pre c post hw hc hlen)

/-- A byte for the console, and the switch byte in the same read. -/
theorem byte_before_switch_lost :
    ¬ ∀ (ev : Events) (w : List (Source × UInt8)) (cs cs' : List (Source × List UInt8)),
      Cuts PIPE_BUF_SIZE cs w → Cuts PIPE_BUF_SIZE cs' w →
        runOut (pipeInputHandle ev) uartMuxYunOpen cs =
          runOut (pipeInputHandle ev) uartMuxYunOpen cs' := by
  intro hall
  have heq := hall ⟨true, true⟩ [(.uart, 0x41), (.uart, 0xaa)] [(.uart, [0x41, 0xaa])]
    [(.uart, [0x41]), (.uart, [0xaa])] ⟨rfl, by decide +kernel⟩ ⟨rfl, by decide +kernel⟩
  exact absurd (congrArg (fun r => r.2.stdout.head?) heq) (by decide +kernel)

end Bathos.Yun
