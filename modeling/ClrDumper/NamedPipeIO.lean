import Mathlib.Data.Int.Notation
import Mathlib.Tactic.ByContra
import ClrDumper.CStrings
import ClrDumper.Decimal
import ClrDumper.Memory

/-! `HookClr/NamedPipeIO.cpp`: the requests that the injected DLL writes to the
pipe, and how it reads a reply. `GetString` and `GetInt` block between the two,
so each is a request and a function of the bytes that come back. -/
namespace ClrDumper.NamedPipeIO
open Execution CStrings Decimal Memory

def MAX_BUFFER : ℕ := 256

def GET_KEY_STRING : ℕ := 0
def LOG_MSG : ℕ := 1
def GET_KEY_INT : ℕ := 2

/-- What all three functions do first: `sprintf(buffer, "%d%s\0", type, text)`
into `char buffer[MAX_BUFFER]`, of which `strlen(text) + 2` bytes are written to
the pipe. The result is what `WriteFile` gets. -/
def writeRequest (type : ℕ) (text : CString) (buffer : CharArray MAX_BUFFER) : Exec (List UInt8) := do
  let buffer ← buffer.store (decimal type ++ text.terminated)
  return buffer.bytes.take (text.length + 2)

/-- `GetString` up to its `ReadFile`. -/
def getString (key : CString) (buffer : CharArray MAX_BUFFER) : Exec (List UInt8) :=
  writeRequest GET_KEY_STRING key buffer

/-- `ReadFile(_reader_pipe, string, len, &n, NULL)` in `GetString`: what the
caller finds in `string`. -/
def getStringReply {len : ℕ} (string : CharArray len) (reply : List UInt8) : Exec CString := do
  let string ← string.store reply
  string.cstring

/-- `GetInt` up to its `ReadFile`. -/
def getInt (key : CString) (buffer : CharArray MAX_BUFFER) : Exec (List UInt8) :=
  writeRequest GET_KEY_INT key buffer

/-- `ReadFile(_reader_pipe, &res, 4, &n, NULL)` in `GetInt`: the returned
`res`, whose bytes were `res` before. -/
def getIntReply (res : CharArray 4) (reply : List UInt8) : Exec Int32 := do
  let res ← res.store reply
  return Int32.ofNat (leNat res.bytes)

def sendLog (msg : CString) (buffer : CharArray MAX_BUFFER) : Exec (List UInt8) :=
  writeRequest LOG_MSG msg buffer

/-- The macro `Log`: the formatted line goes through its `char log[256]` to
`SendLog`. -/
def logLine (line : CString) (log : CharArray 256) (buffer : CharArray MAX_BUFFER) : Exec (List UInt8) := do
  let log ← log.copy line
  sendLog (← log.cstring) buffer

/-- The first half of `Log`: its `sprintf`. -/
def formatLine (line : CString) (log : CharArray 256) : Exec CString := do
  let log ← log.copy line
  log.cstring

theorem logLine_format (line : CString) (log : CharArray 256) (buffer : CharArray MAX_BUFFER) :
    logLine line log buffer = (do sendLog (← formatLine line log) buffer) := by
  simp only [logLine, formatLine, bind_assoc]

/-- A line is formatted if the array holds it, and only then. -/
theorem formatLine_fits {line : CString} (log : CharArray 256) (room : line.length < 256) :
    formatLine line log = .ok line := by
  obtain ⟨copied, ran, text⟩ := log.copy_fits room
  rw [formatLine, ran, ok_bind, text]

theorem formatLine_ok {line text : CString} {log : CharArray 256} (ran : formatLine line log = .ok text) :
    line.length < 256 ∧ text = line := by
  obtain ⟨copied, formatted, ran⟩ := bind_ok ran
  obtain ⟨room, holds⟩ := CharArray.copy_ok formatted
  rw [holds, Except.ok.injEq] at ran
  exact ⟨room, ran.symm⟩

/-- A line is logged exactly if the buffer of `SendLog` holds its request: the
digit, the text and the terminator. -/
theorem logLine_ok_iff (line : CString) (log : CharArray 256) (buffer : CharArray MAX_BUFFER) :
    (∃ request, logLine line log buffer = .ok request) ↔ line.length + 2 ≤ MAX_BUFFER := by
  have digit : (decimal LOG_MSG).length = 1 := by decide
  rw [logLine_format]
  constructor
  · rintro ⟨request, logged⟩
    obtain ⟨text, formatted, sent⟩ := bind_ok logged
    obtain ⟨_, rfl⟩ := formatLine_ok formatted
    obtain ⟨filled, stored, _⟩ := bind_ok sent
    by_contra large
    rw [CharArray.store_overflows] at stored
    · cases stored
    · simp only [List.length_append, digit, CString.length_terminated]
      omega
  · intro fits
    have small : line.length < 256 := by
      unfold MAX_BUFFER at fits
      omega
    have size : (decimal LOG_MSG ++ line.terminated).length ≤ MAX_BUFFER := by
      simp only [List.length_append, digit, CString.length_terminated]
      omega
    simp [formatLine_fits log small, sendLog, writeRequest, CharArray.store_fits _ size]

end ClrDumper.NamedPipeIO
