import ClrDumper.NamedPipeLoop

/-! What a request becomes on the way: the client formats its kind and its text
without a delimiter, the server scans a number and the rest of the line. A text
survives if it begins with a byte that can neither continue the number nor end
the line; it is then cut at its first newline. -/
namespace ClrDumper.RequestCoding
open Execution CStrings Decimal Memory NamedPipeIO NamedPipeLoop

/-- The three requests, by their function in the client. -/
inductive Kind where
  | getKeyString
  | logMsg
  | getKeyInt
  deriving DecidableEq

namespace Kind

def code : Kind → ℕ
  | getKeyString => GET_KEY_STRING
  | logMsg => LOG_MSG
  | getKeyInt => GET_KEY_INT

/-- The bytes that the client function of this kind writes for a text. -/
def send : Kind → CString → CharArray MAX_BUFFER → Exec (List UInt8)
  | getKeyString => getString
  | logMsg => sendLog
  | getKeyInt => getInt

/-- The one digit that stands for the kind. -/
def digit (kind : Kind) : UInt8 := 48 + UInt8.ofNat kind.code

theorem decimal_code (kind : Kind) : decimal kind.code = [kind.digit] := by
  cases kind <;> decide

theorem send_eq (kind : Kind) : kind.send = writeRequest kind.code := by
  cases kind <;> rfl

theorem digit_scans (kind : Kind) :
    isSpace kind.digit = false ∧ kind.digit ≠ 45 ∧ kind.digit ≠ 43 ∧ isDigit kind.digit = true ∧
      (clamp64 (decimalValue [kind.digit])).bmod (2 ^ 32) = kind.code := by
  cases kind <;> decide

theorem digit_ne_nul (kind : Kind) : kind.digit ≠ 0 := by
  cases kind <;> decide

end Kind

/-- A request on its way: its kind and its text. -/
structure Request where
  kind : Kind
  text : CString

/-- The bytes of a request on the pipe. -/
def Request.bytes (r : Request) : List UInt8 := r.kind.digit :: r.text.terminated

/-- The string that the server finds in its buffer. -/
def Request.line (r : Request) : CString :=
  ⟨r.kind.digit :: r.text.bytes, by
    rw [List.mem_cons, not_or]
    exact ⟨(Kind.digit_ne_nul r.kind).symm, r.text.noNul⟩⟩

theorem Request.bytes_eq_line (r : Request) : r.bytes = r.line.terminated := rfl

/-- A request that fits into the client's buffer is written as its kind and its
text, up to and including the terminator. -/
theorem send_bytes (r : Request) (fits : r.text.length + 2 ≤ MAX_BUFFER) (buffer : CharArray MAX_BUFFER) :
    r.kind.send r.text buffer = .ok r.bytes := by
  have formatted : decimal r.kind.code ++ r.text.terminated = r.bytes := by
    rw [Kind.decimal_code]
    rfl
  have size : r.bytes.length = r.text.length + 2 := by simp [Request.bytes]
  rw [Kind.send_eq, writeRequest, formatted, CharArray.store_fits buffer (by omega)]
  simp [CharArray.overlay, ← size]

/-- The first line of a text. -/
def firstLine (text : CString) : CString where
  bytes := text.bytes.takeWhile (· != 10)
  noNul member := text.noNul ((List.takeWhile_prefix _).mem member)

theorem firstLine_eq_iff (text : CString) : firstLine text = text ↔ 10 ∉ text.bytes := by
  rw [CString.ext_iff]
  simp [firstLine, List.takeWhile_eq_self_iff]
  exact ⟨fun all member => all 10 member rfl, fun absent _ member same => absent (same ▸ member)⟩

/-- The text begins with a byte that ends the number before it and starts a
line: not a digit and not a newline. -/
def Readable (text : CString) : Prop :=
  ∃ first rest, text.bytes = first :: rest ∧ isDigit first = false ∧ first ≠ 10

theorem scanInt_line {r : Request} (readable : Readable r.text) :
    scanInt r.line.bytes = some ((r.kind.code : ℤ), r.text.bytes) := by
  obtain ⟨first, rest, spelled, stops, _⟩ := readable
  obtain ⟨space, minus, plus, digit, value⟩ := Kind.digit_scans r.kind
  have blanks : (r.kind.digit :: r.text.bytes).dropWhile isSpace = r.kind.digit :: r.text.bytes := by
    simp [space]
  have sign : scanSign (r.kind.digit :: r.text.bytes) = (false, r.kind.digit :: r.text.bytes) := by
    unfold scanSign
    split
    · rename_i same
      exact absurd (List.cons.inj same).1 minus
    · rename_i same
      exact absurd (List.cons.inj same).1 plus
    · rfl
  have digits : (r.kind.digit :: r.text.bytes).takeWhile isDigit = [r.kind.digit] := by
    simp [spelled, digit, stops]
  have after : (r.kind.digit :: r.text.bytes).dropWhile isDigit = r.text.bytes := by
    simp [spelled, digit, stops]
  simp only [scanInt, Request.line, blanks, sign, digits, after, value, Bool.false_eq_true, ↓reduceIte,
    reduceCtorEq]

theorem scanLine_text {text : CString} (readable : Readable text) (fits : text.length + 2 ≤ MAX_BUFFER) :
    scanLine text.bytes = some (firstLine text).bytes := by
  obtain ⟨first, rest, spelled, _, line⟩ := readable
  have short : (text.bytes.takeWhile (· != 10)).length ≤ 256 := by
    have below := (List.takeWhile_prefix (l := text.bytes) (· != 10)).length_le
    simp only [CString.length, MAX_BUFFER] at fits
    omega
  have nonempty : text.bytes.takeWhile (· != 10) ≠ [] := by simp [spelled, line]
  simp [scanLine, firstLine, List.take_of_length_le short, nonempty]

/-- **Decoding a request.** Whatever the server's locals held before, a request
whose text begins with neither a digit nor a newline is decoded to its kind and
the first line of its text. -/
theorem receive_request (s : Server) (r : Request) (readable : Readable r.text)
    (fits : r.text.length + 2 ≤ MAX_BUFFER) :
    ∃ t, receive s r.bytes = .ok t ∧ t.type = r.kind.code ∧ t.msg.cstring = .ok (firstLine r.text) ∧
      t.stringKeyMap = s.stringKeyMap ∧ t.intKeyMap = s.intKeyMap := by
  have size : r.bytes.length ≤ MAX_BUFFER := by simp [Request.bytes]; omega
  have short : ((firstLine r.text).bytes ++ [0]).length ≤ MAX_BUFFER := by
    have below := (List.takeWhile_prefix (l := r.text.bytes) (· != 10)).length_le
    simp only [firstLine, List.length_append, List.length_singleton, CString.length] at fits ⊢
    omega
  let buffer := s.buffer.overlay r.bytes size
  let msg := s.msg.overlay ((firstLine r.text).bytes ++ [0]) short
  refine ⟨{ s with buffer, type := r.kind.code, msg }, ?_, rfl,
    CharArray.cstring_overlay s.msg _ [] short, rfl, rfl⟩
  have line : (s.buffer.overlay r.bytes size).cstring = .ok r.line :=
    CharArray.cstring_overlay_terminated s.buffer r.line size
  simp [receive, CharArray.store_fits _ size, scanRequest, line, scanInt_line readable,
    scanLine_text readable fits, CharArray.store_fits _ short, buffer, msg]

/-- The server decodes what the client sends for a text to exactly its kind and
that text, from any contents of the two sides' buffers. -/
def RoundTrip (kind : Kind) (text : CString) : Prop :=
  ∀ (buffer : CharArray MAX_BUFFER) (s : Server), ∃ chunk t,
    kind.send text buffer = .ok chunk ∧ receive s chunk = .ok t ∧ t.type = kind.code ∧
      t.msg.cstring = .ok text

/-- A text that begins with neither a digit nor a newline arrives with its kind,
cut at its first newline; so it arrives unchanged exactly when it is one line. -/
theorem request_round_trip (kind : Kind) (text : CString) (fits : text.length + 2 ≤ MAX_BUFFER)
    (readable : Readable text) (buffer : CharArray MAX_BUFFER) (s : Server) :
    ∃ chunk t, kind.send text buffer = .ok chunk ∧ receive s chunk = .ok t ∧ t.type = kind.code ∧
      t.msg.cstring = .ok (firstLine text) ∧ (t.msg.cstring = .ok text ↔ 10 ∉ text.bytes) := by
  obtain ⟨t, ran, type, msg, _⟩ := receive_request s ⟨kind, text⟩ readable fits
  refine ⟨_, t, send_bytes ⟨kind, text⟩ fits buffer, ran, type, msg, ?_⟩
  rw [msg, Except.ok.injEq]
  exact firstLine_eq_iff text

/-- A server with empty maps that has printed `old` before. -/
def sampleServer : Server where
  stringKeyMap _ := none
  intKeyMap _ := none
  buffer := .filled MAX_BUFFER 1
  type := 1
  msg := (CharArray.filled MAX_BUFFER 1).overlay [111, 108, 100, 0] (by decide)

/-- The message `[+] 1`. -/
def sampleText : CString := CString.ofBytes [91, 43, 93, 32, 49]

theorem request_round_trip_sample :
    ∃ chunk t, Kind.logMsg.send sampleText (.filled MAX_BUFFER 1) = .ok chunk ∧
      receive sampleServer chunk = .ok t ∧ t.type = Kind.logMsg.code ∧
      t.msg.cstring = .ok (firstLine sampleText) ∧
      (t.msg.cstring = .ok sampleText ↔ 10 ∉ sampleText.bytes) :=
  request_round_trip .logMsg sampleText (by decide) ⟨91, [43, 93, 32, 49], rfl, by decide, by decide⟩ _ _

/-- What the sample server has after it received the message `text`. -/
def sampleReceives (text : CString) : Option (ℤ × Option CString) :=
  (receive sampleServer (Request.bytes ⟨.logMsg, text⟩)).toOption.map
    fun t => (t.type, t.msg.cstring.toOption)

theorem sampleReceives_of_roundTrip {text : CString} (fits : text.length + 2 ≤ MAX_BUFFER)
    (holds : RoundTrip .logMsg text) : sampleReceives text = some (1, some text) := by
  obtain ⟨chunk, t, sent, ran, type, msg⟩ := holds (.filled MAX_BUFFER 1) sampleServer
  rw [send_bytes ⟨.logMsg, text⟩ fits, Except.ok.injEq] at sent
  subst sent
  simp [sampleReceives, ran, type, msg, Except.toOption, Kind.code, LOG_MSG]

/-- A text of two lines arrives without its second, a text of one digit becomes
part of the request's kind, and an empty text leaves the previous one there. -/
theorem round_trip_fails :
    (¬ ∀ kind text, text.length + 2 ≤ MAX_BUFFER → RoundTrip kind text) ∧
      ¬ RoundTrip .logMsg (CString.ofBytes [97, 10, 98]) ∧ ¬ RoundTrip .logMsg (CString.ofBytes [53]) ∧
      ¬ RoundTrip .logMsg CString.empty := by
  have twoLines : ¬ RoundTrip .logMsg (CString.ofBytes [97, 10, 98]) := fun holds =>
    absurd (sampleReceives_of_roundTrip (by decide) holds) (by decide)
  refine ⟨fun all => twoLines (all _ _ (by decide)), twoLines, fun holds => ?_, fun holds => ?_⟩
  · exact absurd (sampleReceives_of_roundTrip (by decide) holds) (by decide)
  · exact absurd (sampleReceives_of_roundTrip (by decide) holds) (by decide)

end ClrDumper.RequestCoding
