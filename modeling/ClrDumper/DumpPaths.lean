import ClrDumper.HookClr
import ClrDumper.ScriptDump

/-! The way of the dump directory through the arrays of a hook namespace: the
global `_dumpPath`, the `path` of the handler, to which the name of the dump is
appended, and the `log` of the line that reports it. The last is the tightest. -/
namespace ClrDumper.DumpPaths
open Execution CStrings HookClr NamedPipeIO ScriptDump Utility

/-- What is different about this in the five namespaces: the size of `_dumpPath`,
the tag of the dump, and the text before its path in the line. -/
structure Handler where
  size : ℕ
  tag : CString
  dumped : CString

def handler : Namespace → Handler
  | .nativeClr => ⟨MAX_PATH, .literal "NATIVE_CLR", .literal "[+] Dumped Assembly to "⟩
  | .assemblyLoad => ⟨MAX_PATH, .literal "ASM_LOAD", .literal "[+] Dumped Assembly to "⟩
  | .vbScript => ⟨MAX_PATH, .literal "VB_SCRIPT", .literal "[+] Dump written to "⟩
  | .jScript => ⟨MAX_PATH, .literal "JS_SCRIPT", .literal "[+] Dump written to "⟩
  | .powershell => ⟨256, .literal "PS_SCRIPT", .literal "[+] Dumped Script to "⟩

/-- The handlers of scripts dump under these tags and report with these texts. -/
theorem script_handlers (_dumpPath processPath : CString) (locale : CodePage) (text : WString)
    (wide : CharArray (text.units.length + 1)) (buffer : Buffer) (st : SystemTime) (locals : Locals) (host : Host) :
    VBScript.compileHooked _dumpPath locale text wide st locals host =
        dumpScript (handler .vbScript).tag (handler .vbScript).dumped (writeWide locale text wide) _dumpPath st locals
          host ∧
      JScript.parserHooked _dumpPath locale text wide st locals host =
        dumpScript (handler .jScript).tag (handler .jScript).dumped (writeWide locale text wide) _dumpPath st locals
          host ∧
      powershell.amsiScanBuffer _dumpPath processPath buffer st locals host =
        (do
          let host ← host.log locals (powershell.enteredLine processPath buffer.bytes.length)
          dumpScript (handler .powershell).tag (handler .powershell).dumped
            (fun disk path => .ok (writeEach disk path buffer.bytes)) _dumpPath st locals host) :=
  ⟨rfl, rfl, rfl⟩

/-- A directory on its way to the line: `lstrcpyA(_dumpPath, dumpPath)` when the
namespace hooks, and the rest when its handler has created a dump. -/
def reportDump (h : Handler) (dumpPath : CString) (st : SystemTime) (_dumpPath : CharArray h.size)
    (locals : Locals) : Exec CString := do
  let _dumpPath ← _dumpPath.copy dumpPath
  let path ← dumpFilePath h.tag (← _dumpPath.cstring) st locals
  formatLine (h.dumped ++ path) locals.log

/-- Each of the arrays holds what is put into it, whatever it held before. -/
def Fits (h : Handler) (dumpPath : CString) (st : SystemTime) : Prop :=
  ∀ _dumpPath locals, ∃ line, reportDump h dumpPath st _dumpPath locals = .ok line

variable {h : Handler} {dumpPath : CString} {st : SystemTime}

/-- The line is the tightest: if it fits, so does everything before it. -/
theorem fits_iff_line (short : h.tag.length ≤ 66) (global : 256 ≤ h.size) (text : 4 ≤ h.dumped.length) :
    Fits h dumpPath st ↔ (h.dumped ++ (dumpPath ++ dumpName h.tag st)).length < 256 := by
  constructor
  · intro fits
    obtain ⟨line, ran⟩ := fits (.filled _ 1) ⟨.filled _ 1, .filled _ 1, .filled _ 1, .filled _ 1⟩
    obtain ⟨copied, front, ran⟩ := bind_ok ran
    rw [(CharArray.copy_ok front).2, ok_bind] at ran
    obtain ⟨path, made, ran⟩ := bind_ok ran
    rw [(dumpFilePath_ok short made).2] at ran
    exact (formatLine_ok ran).1
  · intro room _dumpPath locals
    have whole : (dumpPath ++ dumpName h.tag st).length < MAX_PATH := by
      rw [CString.length_append] at room
      unfold MAX_PATH
      omega
    have front : dumpPath.length < h.size := by
      rw [CString.length_append, CString.length_append] at room
      omega
    obtain ⟨copied, ran, text⟩ := _dumpPath.copy_fits front
    exact ⟨_, by rw [reportDump, ran, ok_bind, text, ok_bind, dumpFilePath_fits short whole, ok_bind,
      formatLine_fits locals.log room]⟩

/-- The bytes of a line besides the directory and the milliseconds. -/
def overhead : Namespace → ℕ
  | .nativeClr => 52
  | .assemblyLoad => 50
  | .vbScript => 48
  | .jScript => 48
  | .powershell => 49

/-- The texts of a namespace are short enough for the arrays besides. -/
theorem handler_sizes (ns : Namespace) : (handler ns).tag.length ≤ 66 ∧ 256 ≤ (handler ns).size ∧
    4 ≤ (handler ns).dumped.length ∧ (handler ns).dumped.length + (handler ns).tag.length + 19 = overhead ns := by
  cases ns with
  | nativeClr => decide
  | assemblyLoad => decide
  | vbScript => decide
  | jScript => decide
  | powershell => decide

/-- **Dump paths.** In each namespace and at each time, a directory fits into all
the arrays exactly if the line that reports the dump fits into `log`. -/
theorem fits_iff (ns : Namespace) (dumpPath : CString) (millis : ℕ) :
    Fits (handler ns) dumpPath (getLocalTime millis) ↔ dumpPath.length + overhead ns + milliDigits millis < 256 := by
  obtain ⟨short, global, text, total⟩ := handler_sizes ns
  rw [fits_iff_line short global text, CString.length_append, CString.length_append, dumpName_length_local, ← total]
  omega

/-- A directory of 210 bytes, below `C:\\`. -/
def longDirectory : CString where
  bytes := 67 :: 58 :: 92 :: List.replicate 207 65
  noNul := by decide

/-- It has room in `_dumpPath` and in `path`, and none in `log`. -/
theorem long_directory_overflows : ¬ ∀ ns (dumpPath : CString) millis, dumpPath.length ≤ MAX_PATH - 1 →
    Fits (handler ns) dumpPath (getLocalTime millis) := by
  intro all
  have size : longDirectory.length = 210 := by
    rw [CString.length, longDirectory, List.length_cons, List.length_cons, List.length_cons, List.length_replicate]
  have small : longDirectory.length ≤ MAX_PATH - 1 := by
    rw [size]
    decide
  obtain ⟨short, global, text, total⟩ := handler_sizes .powershell
  have fits := (fits_iff_line short global text).mp (all .powershell longDirectory 0 small)
  rw [CString.length_append, CString.length_append, dumpName_length_local, size] at fits
  have constants : overhead .powershell = 49 ∧ milliDigits 0 = 2 := ⟨rfl, rfl⟩
  omega

end ClrDumper.DumpPaths
