import Mathlib.Logic.Function.Basic
import ClrDumper.NamedPipeIO
import ClrDumper.Utility

/-! The handlers that see a script: `AmsiScanBuffer` of `PowershellHook.cpp`,
`compileHooked` of `VBScriptHook.cpp` and `parserHooked` of `JScriptHook.cpp`.
Each puts the script into a new file named by `GetDumpName` and logs what it
did. What they call afterwards, and what they return, is not part of this. -/
namespace ClrDumper.ScriptDump
open Execution CStrings Decimal NamedPipeIO Utility

def MAX_PATH : ℕ := 260

/-- The contents of the files, by path. -/
structure Disk where
  files : CString → Option (List UInt8)

/-- `CreateFileA` with `CREATE_NEW`: a new empty file, unless the path exists. -/
def Disk.createNew (disk : Disk) (path : CString) : Option Disk :=
  if (disk.files path).isSome then none else some ⟨Function.update disk.files path (some [])⟩

/-- `WriteFile` at the end of a file. -/
def Disk.write (disk : Disk) (path : CString) (data : List UInt8) : Disk :=
  ⟨Function.update disk.files path ((disk.files path).map (· ++ data))⟩

/-- What the process changes outside itself. -/
structure Host where
  disk : Disk
  /-- What was written to the pipe. -/
  sent : List (List UInt8)

/-- What the local arrays of a handler, and of the functions that it calls, hold
before anything is stored in them. -/
structure Locals where
  path : CharArray MAX_PATH
  buf : CharArray 100
  log : CharArray 256
  buffer : CharArray MAX_BUFFER

/-- `Log`. -/
def Host.log (host : Host) (locals : Locals) (line : CString) : Exec Host := do
  let request ← logLine line locals.log locals.buffer
  return { host with sent := host.sent ++ [request] }

/-- What the three handlers have in common: the path of the dump from
`_dumpPath`, the tag and the local time, the file if there is none yet, and the
line logged. They differ in the tag, in how they write the file, and in the text
before the path in the line. -/
def dumpScript (tag dumped : CString) (write : Disk → CString → Exec Disk) (_dumpPath : CString)
    (st : SystemTime) (locals : Locals) (host : Host) : Exec Host := do
  let path ← locals.path.copy _dumpPath
  let dumpName ← getDumpName tag st locals.buf
  let path ← path.concat dumpName
  let path ← path.cstring
  match host.disk.createNew path with
  | some disk =>
    let disk ← write disk path
    let host : Host := { host with disk }
    host.log locals (dumped ++ path)
  | none => host.log locals (.literal "[-] Could not create dump file!")

/-- The path alone: `_dumpPath` and the name of the dump. -/
def dumpFilePath (tag _dumpPath : CString) (st : SystemTime) (locals : Locals) : Exec CString := do
  let path ← locals.path.copy _dumpPath
  let dumpName ← getDumpName tag st locals.buf
  let path ← path.concat dumpName
  path.cstring

/-- A buffer in memory. No object of a 32-bit process has 2^31 bytes. -/
structure Buffer where
  bytes : List UInt8
  size : bytes.length < 2 ^ 31

/-- The loop of `WriteFile` calls for one byte each. -/
def writeEach (disk : Disk) (path : CString) : List UInt8 → Disk
  | [] => disk
  | byte :: rest => writeEach (disk.write path [byte]) path rest

/-- A NUL-terminated string of UTF-16 units, without its terminator. -/
structure WString where
  units : List UInt16
  noNul : 0 ∉ units

/-- The bytes of a unit in a locale, if it has any. -/
abbrev CodePage := UInt16 → Option (List UInt8)

/-- The conversion `%S`: unit by unit, up to the first one that the locale cannot
represent. `sprintf` terminates what was converted in either case. -/
def convert (locale : CodePage) : List UInt16 → List UInt8
  | [] => [0]
  | unit :: rest =>
    match locale unit with
    | some bytes => bytes ++ convert locale rest
    | none => [0]

/-- `sprintf(buffer, "%S", text)` into a block of `wcslen(text) + 1` bytes, of
which `wcslen(text)` are written to the file. -/
def writeWide (locale : CodePage) (text : WString) (buffer : CharArray (text.units.length + 1))
    (disk : Disk) (path : CString) : Exec Disk := do
  let buffer ← buffer.store (convert locale text.units)
  return disk.write path (buffer.bytes.take text.units.length)

/-- `%d` of a number that is not negative. -/
def number (n : ℕ) : CString where
  bytes := decimal n
  noNul member := absurd (decimal_digits n 0 member) (by decide)

/-- The first line that `AmsiScanBuffer` logs. -/
def powershell.enteredLine (processPath : CString) (length : ℕ) : CString :=
  .literal "[+] Powershell in, Process : " ++ processPath ++ .literal " with, Size : " ++ number length ++
    .literal " bytes"

/-- `powershell::AmsiScanBuffer`. `processPath` is the file name of the process,
as `IPathStripPathA` left it. -/
def powershell.amsiScanBuffer (_dumpPath processPath : CString) (buffer : Buffer) (st : SystemTime)
    (locals : Locals) (host : Host) : Exec Host := do
  let host ← host.log locals (powershell.enteredLine processPath buffer.bytes.length)
  dumpScript (.literal "PS_SCRIPT") (.literal "[+] Dumped Script to ")
    (fun disk path => .ok (writeEach disk path buffer.bytes)) _dumpPath st locals host

/-- `VBScript::compileHooked`. -/
def VBScript.compileHooked (_dumpPath : CString) (locale : CodePage) (b : WString)
    (buffer : CharArray (b.units.length + 1)) (st : SystemTime) (locals : Locals) (host : Host) : Exec Host :=
  dumpScript (.literal "VB_SCRIPT") (.literal "[+] Dump written to ") (writeWide locale b buffer)
    _dumpPath st locals host

/-- `JScript::parserHooked`. -/
def JScript.parserHooked (_dumpPath : CString) (locale : CodePage) (c : WString)
    (buffer : CharArray (c.units.length + 1)) (st : SystemTime) (locals : Locals) (host : Host) : Exec Host :=
  dumpScript (.literal "JS_SCRIPT") (.literal "[+] Dump written to ") (writeWide locale c buffer)
    _dumpPath st locals host

/-! ## What a handler does to the disk -/

theorem log_disk {host after : Host} {locals : Locals} {line : CString}
    (ran : host.log locals line = .ok after) : after.disk = host.disk := by
  obtain ⟨request, _, rest⟩ := bind_ok ran
  cases rest
  rfl

/-- A line is logged if the buffer of `SendLog` holds its request. -/
theorem log_ok_iff (host : Host) (locals : Locals) (line : CString) :
    (∃ after, host.log locals line = .ok after) ↔ line.length + 2 ≤ MAX_BUFFER := by
  rw [← logLine_ok_iff line locals.log locals.buffer]
  constructor
  · rintro ⟨after, ran⟩
    obtain ⟨request, logged, _⟩ := bind_ok ran
    exact ⟨request, logged⟩
  · rintro ⟨request, logged⟩
    exact ⟨{ host with sent := host.sent ++ [request] }, by simp [Host.log, logged]⟩

theorem createNew_some {disk created : Disk} {path : CString} (ran : disk.createNew path = some created) :
    disk.files path = none ∧ created.files = Function.update disk.files path (some []) := by
  unfold Disk.createNew at ran
  split at ran
  · cases ran
  · rename_i absent
    cases ran
    exact ⟨by simpa using absent, rfl⟩

theorem createNew_absent {disk : Disk} {path : CString} (absent : disk.files path = none) :
    disk.createNew path = some ⟨Function.update disk.files path (some [])⟩ := by
  simp [Disk.createNew, absent]

/-- Writing a new file. -/
theorem write_new (files : CString → Option (List UInt8)) (path : CString) (data : List UInt8) :
    (Disk.write ⟨Function.update files path (some [])⟩ path data).files =
      Function.update files path (some data) := by
  simp [Disk.write]

/-- Byte by byte or at once, the file gets the same contents. -/
theorem writeEach_eq (disk : Disk) (path : CString) (data : List UInt8) :
    writeEach disk path data = disk.write path data := by
  induction data generalizing disk with
  | nil => simp [writeEach, Disk.write]
  | cons byte rest ih => simp [writeEach, ih, Disk.write, Function.comp_def]

/-- A converted text fills the file if the block holds the conversion, and is a
fault otherwise. -/
theorem writeWide_fits (locale : CodePage) (text : WString) (buffer : CharArray (text.units.length + 1))
    (room : (convert locale text.units).length ≤ text.units.length + 1) (disk : Disk) (path : CString) :
    writeWide locale text buffer disk path = .ok (disk.write path
      ((convert locale text.units ++ buffer.bytes.drop (convert locale text.units).length).take
        text.units.length)) := by
  rw [writeWide, CharArray.store_fits buffer room]
  rfl

theorem writeWide_ok {locale : CodePage} {text : WString} {buffer : CharArray (text.units.length + 1)}
    {disk filled : Disk} {path : CString} (ran : writeWide locale text buffer disk path = .ok filled) :
    (convert locale text.units).length ≤ text.units.length + 1 := by
  by_contra large
  rw [writeWide, CharArray.store_overflows buffer (Nat.lt_of_not_le large)] at ran
  cases ran

variable {tag dumped _dumpPath : CString} {write : Disk → CString → Exec Disk} {st : SystemTime}
  {locals : Locals} {host after : Host}

/-- The path of a dump. -/
theorem getDumpName_ok (short : tag.length ≤ 66) (buf : CharArray 100) :
    getDumpName tag st buf = .ok (dumpName tag st) := by
  have small : (dumpName tag st).length < 100 := by
    have := dumpName_length tag st
    omega
  obtain ⟨copied, ran, text⟩ := buf.copy_fits small
  simp [getDumpName, ran, text]

theorem dumpScript_path : dumpScript tag dumped write _dumpPath st locals host =
    (do
      let path ← dumpFilePath tag _dumpPath st locals
      match host.disk.createNew path with
      | some disk =>
        let disk ← write disk path
        let host : Host := { host with disk }
        host.log locals (dumped ++ path)
      | none => host.log locals (.literal "[-] Could not create dump file!")) := by
  simp only [dumpScript, dumpFilePath, bind_assoc]

/-- With a short tag, the path is made if its array holds it, and only then. -/
theorem dumpFilePath_fits (short : tag.length ≤ 66) (room : (_dumpPath ++ dumpName tag st).length < MAX_PATH) :
    dumpFilePath tag _dumpPath st locals = .ok (_dumpPath ++ dumpName tag st) := by
  have front : _dumpPath.length < MAX_PATH := by
    rw [CString.length_append] at room
    omega
  obtain ⟨copied, ran, text⟩ := locals.path.copy_fits front
  obtain ⟨whole, joined, path⟩ := copied.copy_fits room
  rw [dumpFilePath, ran, ok_bind, getDumpName_ok short, ok_bind, CharArray.concat_eq_copy text, joined, ok_bind, path]

theorem dumpFilePath_ok {path : CString} (short : tag.length ≤ 66)
    (ran : dumpFilePath tag _dumpPath st locals = .ok path) :
    (_dumpPath ++ dumpName tag st).length < MAX_PATH ∧ path = _dumpPath ++ dumpName tag st := by
  obtain ⟨copied, front, ran⟩ := bind_ok ran
  rw [getDumpName_ok short, ok_bind, CharArray.concat_eq_copy (CharArray.copy_ok front).2] at ran
  obtain ⟨whole, joined, ran⟩ := bind_ok ran
  obtain ⟨room, text⟩ := CharArray.copy_ok joined
  rw [text, Except.ok.injEq] at ran
  exact ⟨room, ran.symm⟩

/-- So `dumpScript` runs on if the array holds the path. -/
theorem dumpScript_room (short : tag.length ≤ 66) (room : (_dumpPath ++ dumpName tag st).length < MAX_PATH) :
    dumpScript tag dumped write _dumpPath st locals host =
      match host.disk.createNew (_dumpPath ++ dumpName tag st) with
      | some disk => do
        let disk ← write disk (_dumpPath ++ dumpName tag st)
        Host.log { host with disk } locals (dumped ++ (_dumpPath ++ dumpName tag st))
      | none => host.log locals (.literal "[-] Could not create dump file!") := by
  rw [dumpScript_path, dumpFilePath_fits short room, ok_bind]

theorem room_of_dumpScript (short : tag.length ≤ 66)
    (ran : dumpScript tag dumped write _dumpPath st locals host = .ok after) :
    (_dumpPath ++ dumpName tag st).length < MAX_PATH := by
  rw [dumpScript_path] at ran
  obtain ⟨path, made, _⟩ := bind_ok ran
  exact (dumpFilePath_ok short made).1

end ClrDumper.ScriptDump
