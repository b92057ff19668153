import Bathos.Tools.Dump

/-!
# Bathos — a program written to the RAM of a part

`tools/program.c`, with the table of the parts in `tools/lpclib.c`. The file goes to the
boot loader in lines of 45 bytes, with their sum after every twenty; its size is rounded up
so that no group of lines is short. The boot loader takes the sums and the lines as
`receive` does.

Main results:

* `transfer_receive` — what is received is what was in the buffer;
* `program_dumped` — what is received is the file and zeros, and a dump shows it.
-/

namespace Bathos.Tools

open Bathos.Lib

-- ---------------------------------------------------------------------------
-- The parts
-- ---------------------------------------------------------------------------

/-- `struct lpc_type`, as far as it is used here. -/
structure LpcType where
  ramAddr : Nat
  mode : Char

/-- `struct lpc_dev`. -/
structure LpcDev where
  id : Nat
  name : Nat
  rom : Nat
  ram : Nat
  type : LpcType

def lpcArm7 : LpcType := ⟨0x40000400, 'A'⟩

def lpcCortex : LpcType := ⟨0x10000400, 'T'⟩

/-- The first part of the table, taken for the ones that are not in it. -/
def lpc2104 : LpcDev := ⟨0xFFF0FF12, 2104, 120, 16, lpcArm7⟩

/-- `lpc_devs`. -/
def lpcDevs : List LpcDev :=
  [lpc2104, ⟨0xFFF0FF22, 2105, 120, 32, lpcArm7⟩, ⟨0xFFF0FF32, 2106, 120, 64, lpcArm7⟩,
    ⟨0x2c42502b, 1311, 8, 4, lpcCortex⟩, ⟨0x2c40102b, 1313, 32, 8, lpcCortex⟩,
    ⟨0x3d01402b, 1342, 16, 4, lpcCortex⟩, ⟨0x3d00002b, 1343, 32, 8, lpcCortex⟩]

/-- The device for the identifier `i`, an `int`, where a `long` has `l` bits. -/
def findDev (l : Nat) (i : BitVec 32) : LpcDev :=
  (lpcDevs.find? fun dev => BitVec.ofNat l dev.id == i.signExtend l).getD lpc2104

-- ---------------------------------------------------------------------------
-- program.c
-- ---------------------------------------------------------------------------

/-- `MAXSIZE`. -/
def MAXSIZE : Nat := 64 * 1024

/-- `filebuf`, with a file in it and what is behind it in memory. -/
def filebuf (file : List UInt8) (beyond : Nat → UInt8) (a : Nat) : UInt8 :=
  if a < MAXSIZE then file.getD a 0 else beyond a

def ascii (s : String) : List UInt8 := s.toList.map fun c => UInt8.ofNat c.toNat

/-- The loop that writes the data: the strings written, from `ptr` on. -/
def transfer (buf : Nat → UInt8) (size i nline check : Nat) : List (List UInt8) :=
  if i < size then
    let check := check + byteSum (block buf i 45)
    let nline := nline + 1
    crlf (lineText buf i 45) ::
      if nline ≠ 0 ∧ nline % 20 = 0 then
        crlf (checkText check) :: transfer buf size (i + 45) nline 0
      else transfer buf size (i + 45) nline check
  else []
termination_by size - i

/-- The size of the transfer; it is no hack for a file that fills the last group. -/
def transferSize (file : List UInt8) : Nat := (min file.length MAXSIZE / 900 + 1) * 900

/-- `main` of `program.c` behind the identification: the strings written, or none if it
gives up. -/
def program (l : Nat) (id : BitVec 32) (file : List UInt8) (beyond : Nat → UInt8) :
    Option (List (List UInt8)) :=
  if id = -1 then none
  else
    let dev := findDev l id
    let size := transferSize file
    if size > dev.ram * 1024 - 1024 then none
    else some (crlf (ascii "W " ++ checkText dev.type.ramAddr ++ ascii " " ++ checkText size) ::
      (transfer (filebuf file beyond) size 0 0 0 ++
        [crlf (ascii "U 23130"), crlf (ascii "G " ++ checkText dev.type.ramAddr ++ ascii " " ++
          ascii dev.type.mode.toString)]))

-- ---------------------------------------------------------------------------
-- The boot loader
-- ---------------------------------------------------------------------------

/-- The bytes of a line. -/
def decodeLine (text : List UInt8) : List UInt8 :=
  let d := uudecode (store text fun _ => 0)
  d.2.take d.1.toNat

/-- What the boot loader makes of the strings, with `nline` lines since the last sum: the
bytes, or none if a sum is wrong. -/
def receive : List (List UInt8) → Nat → Nat → Option (List UInt8)
  | [], nline, _ => if nline = 0 then some [] else none
  | text :: rest, nline, sum =>
    if nline = 20 then
      if text = crlf (checkText sum) then receive rest 0 0 else none
    else
      let bytes := decodeLine text
      (receive rest (nline + 1) (sum + byteSum bytes)).map (bytes ++ ·)

-- ---------------------------------------------------------------------------
-- The transfer
-- ---------------------------------------------------------------------------

theorem checkText_length {n k : Nat} (hk : 0 < k) (h : n < 10 ^ k) : (checkText n).length ≤ k := by
  unfold checkText numeral
  rw [List.length_map, List.length_reverse]
  exact lowDigits_length_le (by decide) hk h

section Transfer

variable {buf : Nat → UInt8} {size i nline check : Nat}

theorem decodeLine_eq (buf : Nat → UInt8) (i : Nat) :
    decodeLine (crlf (lineText buf i 45)) = block buf i 45 := by
  refine uudecode_text le_rfl fun j hj => ?_
  have hlong : j < (crlf (lineText buf i 45)).length := by
    rw [crlf_length]
    omega
  unfold store
  rw [if_pos hlong]
  unfold crlf
  rw [List.getD_eq_getElem?_getD, List.getD_eq_getElem?_getD, List.getElem?_append_left hj]

/-- **The transfer** of whole groups: every sum is right, and the bytes are there. -/
theorem transfer_receive (m : Nat) (hsize : i + 45 * m = size) (hwhole : (nline + m) % 20 = 0) :
    receive (transfer buf size i nline check) (nline % 20) check = some (block buf i (45 * m)) := by
  induction m generalizing i nline check with
  | zero =>
    rw [Nat.add_zero] at hwhole
    rw [transfer, if_neg (by omega)]
    show (if nline % 20 = 0 then some [] else none) = _
    rw [if_pos hwhole]
    rfl
  | succ m ih =>
    have hmod : nline % 20 ≠ 20 := by omega
    have hblock : block buf i (45 * (m + 1)) = block buf i 45 ++ block buf (i + 45) (45 * m) := by
      rw [← block_add]
      congr 1
      omega
    rw [transfer, if_pos (by omega)]
    simp only
    rw [receive, if_neg hmod]
    simp only [decodeLine_eq]
    by_cases hgroup : (nline + 1) % 20 = 0
    · have htwenty : nline % 20 + 1 = 20 := by omega
      have hrest := @ih (i + 45) (nline + 1) 0 (by omega) (by omega)
      rw [hgroup] at hrest
      rw [if_pos ⟨Nat.succ_ne_zero nline, hgroup⟩, htwenty, receive, if_pos rfl, if_pos rfl, hrest,
        hblock]
      rfl
    · have hnext : nline % 20 + 1 = (nline + 1) % 20 := by omega
      have hrest := @ih (i + 45) (nline + 1) (check + byteSum (block buf i 45)) (by omega) (by omega)
      rw [if_neg fun h => hgroup h.2, hnext, hrest, hblock]
      rfl

/-- Every string fits the buffer that `lpc_write_c` copies it to. -/
theorem transfer_fits (n : Nat) (hn : size ≤ i + n) (hcheck : check ≤ 11475 * (nline % 20)) :
    ∀ text ∈ transfer buf size i nline check, text.length < 80 := by
  induction n using Nat.strong_induction_on generalizing i nline check with
  | _ n ih =>
  rw [transfer]
  split
  · next hlt =>
    have hline : (crlf (lineText buf i 45)).length < 80 := by
      rw [crlf_length, lineText_length]
      decide
    have hbytes := byteSum_block buf i 45
    simp only
    split
    · next hgroup =>
      have hsum : (crlf (checkText (check + byteSum (block buf i 45)))).length < 80 := by
        have hlen := checkText_length (show 0 < 6 by decide)
          (show check + byteSum (block buf i 45) < 10 ^ 6 by norm_num; omega)
        rw [crlf_length]
        omega
      simp only [List.forall_mem_cons]
      exact ⟨hline, hsum, ih (n - 45) (by omega) (by omega) (Nat.zero_le _)⟩
    · next hgroup =>
      simp only [List.forall_mem_cons]
      exact ⟨hline, ih (n - 45) (by omega) (by omega) (by omega)⟩
  · exact fun text htext => absurd htext List.not_mem_nil

end Transfer

-- ---------------------------------------------------------------------------
-- A program
-- ---------------------------------------------------------------------------

section Program

variable {l : Nat} {id : BitVec 32} {file : List UInt8} {beyond : Nat → UInt8}

theorem findDev_mem (l : Nat) (id : BitVec 32) : findDev l id ∈ lpcDevs := by
  unfold findDev
  cases hfind : lpcDevs.find? fun dev => BitVec.ofNat l dev.id == id.signExtend l with
  | none => exact List.mem_cons_self
  | some dev => exact List.mem_of_find?_eq_some hfind

theorem lpcDevs_bounds : ∀ dev ∈ lpcDevs, dev.ram ≤ 64 ∧ dev.type.ramAddr < 10 ^ 10 ∧
    (ascii dev.type.mode.toString).length = 1 := by
  simp only [lpcDevs, List.forall_mem_cons]
  decide

/-- A transfer that fits has all of the file in it, and nothing from behind the buffer. -/
theorem transferSize_fits (h : ¬ transferSize file > (findDev l id).ram * 1024 - 1024) :
    transferSize file ≤ 64512 ∧ file.length < transferSize file := by
  have hram := (lpcDevs_bounds _ (findDev_mem l id)).1
  have hle : transferSize file ≤ 64512 := by omega
  refine ⟨hle, ?_⟩
  unfold transferSize MAXSIZE at hle ⊢
  omega

theorem filebuf_block (beyond : Nat → UInt8) {size : Nat} (hfile : file.length ≤ size)
    (hsize : size ≤ MAXSIZE) :
    block (filebuf file beyond) 0 size = file ++ List.replicate (size - file.length) 0 := by
  refine List.ext_getElem (by simp [hfile]) fun a h₁ h₂ => ?_
  rw [block_length] at h₁
  have hget : (block (filebuf file beyond) 0 size)[a] = file.getD a 0 := by
    unfold block filebuf
    simp [show a < MAXSIZE by omega]
  rw [hget]
  by_cases ha : a < file.length
  · rw [List.getElem_append_left ha, List.getD_eq_getElem?_getD, List.getElem?_eq_getElem ha]
    rfl
  · rw [List.getElem_append_right (by omega), List.getElem_replicate, List.getD_eq_getElem?_getD,
      List.getElem?_eq_none (by omega)]
    rfl

/-- **A file that fits** is received with zeros behind it, whatever the memory behind the
buffer is; every string fits the buffer it is copied to; and a dump of the RAM it is in
writes the same bytes again. -/
theorem program_dumped {strings : List (List UInt8)}
    (h : program l id file beyond = some strings) :
    ∃ command data unlock go, strings = command :: (data ++ [unlock, go]) ∧
      (∀ text ∈ strings, text.length < 80) ∧ file.length < transferSize file ∧
      receive data 0 0 =
        some (file ++ List.replicate (transferSize file - file.length) 0) ∧
      ∀ ram off s, block ram off (transferSize file) =
          file ++ List.replicate (transferSize file - file.length) 0 →
        dump s (bootRead ram off (transferSize file) 0 0) =
          some (file ++ List.replicate (transferSize file - file.length) 0) := by
  unfold program at h
  split at h
  · cases h
  simp only at h
  split at h
  · cases h
  next hfits =>
  obtain ⟨-, haddr, hmode⟩ := lpcDevs_bounds _ (findDev_mem l id)
  obtain ⟨hsize, hfile⟩ := transferSize_fits hfits
  have hgroups : transferSize file = 0 + 45 * (transferSize file / 45) := by
    unfold transferSize
    omega
  have hreceive := @transfer_receive (filebuf file beyond) (transferSize file) 0 0 0
    (transferSize file / 45) hgroups.symm (by unfold transferSize; omega)
  rw [Nat.zero_add] at hgroups
  rw [← hgroups, filebuf_block beyond hfile.le (by unfold MAXSIZE; omega)] at hreceive
  refine ⟨_, _, _, _, (Option.some.inj h).symm, ?_, hfile, hreceive, fun ram off s hram => ?_⟩
  · rw [← Option.some.inj h]
    have hdata := @transfer_fits (filebuf file beyond) (transferSize file) 0 0 0 _
      (Nat.zero_add _).ge (Nat.zero_le _)
    have haddrText := checkText_length (show 0 < 10 by decide) haddr
    have hsizeText := checkText_length (show 0 < 5 by decide)
      (show transferSize file < 10 ^ 5 by norm_num; omega)
    simp only [List.forall_mem_cons, List.forall_mem_append]
    refine ⟨?_, hdata, by decide, ?_, by simp⟩
    · simp only [crlf_length, List.length_append, show (ascii "W ").length = 2 from rfl,
        show (ascii " ").length = 1 from rfl]
      omega
    · simp only [crlf_length, List.length_append, show (ascii "G ").length = 2 from rfl,
        show (ascii " ").length = 1 from rfl, hmode]
      omega
  · have hlast : Lettered (lastLen (transferSize file)) := by
      unfold Lettered lastLen transferSize
      omega
    rw [dump_of_lettered (by omega) hlast s, hram]

/-- A file of three bytes for a LPC1343. -/
theorem program_cat : ∃ strings command data unlock go,
    program 64 0x3d00002b [67, 97, 116] (fun _ => 0) = some strings ∧
      strings = command :: (data ++ [unlock, go]) ∧
      receive data 0 0 = some ([67, 97, 116] ++ List.replicate 897 0) := by
  have hsome : ∃ strings, program 64 0x3d00002b [67, 97, 116] (fun _ => 0) = some strings := by
    unfold program
    rw [if_neg (by decide)]
    simp only
    rw [if_neg (by decide)]
    exact ⟨_, rfl⟩
  obtain ⟨strings, hstrings⟩ := hsome
  obtain ⟨command, data, unlock, go, heq, -, -, hreceive, -⟩ := program_dumped hstrings
  exact ⟨strings, command, data, unlock, go, hstrings, heq, hreceive⟩

end Program

end Bathos.Tools
