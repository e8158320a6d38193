import ClrDumper.LeftoverIndependence

/-! Four arrays of 256 bytes lie between a logged message and the server's
output. The first holds the message and its terminator, the second a digit more,
so a message of 255 bytes fits into the one and not into the other. Every
shorter message passes all of them. -/
namespace ClrDumper.LogCapacity
open Execution CStrings NamedPipeIO NamedPipeLoop RequestCoding LeftoverIndependence

/-- A request gets through the server's arrays: one `ReadFile` takes it in with
its terminator, what the scanset stores fits into `msg`, and nothing else is
accessed out of range, whatever the server's locals held before. -/
structure Arrives (request : List UInt8) : Prop where
  whole : request.length ≤ MAX_BUFFER
  terminated : 0 ∈ request
  stored : ∀ type rest text, scanInt (CString.ofBytes request).bytes = some (type, rest) →
    scanLine rest = some text → text.length + 1 ≤ MAX_BUFFER
  received : ∀ s : Server, ∃ t, receive s request = .ok t

/-- A message gets through all the arrays, from whatever they held before. -/
def Survives (line : CString) : Prop :=
  ∀ (log : CharArray 256) (buffer : CharArray MAX_BUFFER), ∃ request,
    logLine line log buffer = .ok request ∧ Arrives request

/-- Any chunk that has a terminator and fits into the server's buffer arrives. -/
theorem arrives_of_terminated {request : List UInt8} (whole : request.length ≤ MAX_BUFFER)
    (terminated : 0 ∈ request) : Arrives request where
  whole := whole
  terminated := terminated
  stored := by
    intro type rest text scanned line
    have shorter := (scanInt_rest scanned).2
    have inside := (LeftoverIndependence.scanLine_text line).length_le
    have before := length_ofBytes terminated
    omega
  received := by
    intro s
    cases scanned : scanInt (CString.ofBytes request).bytes with
    | none =>
      obtain ⟨t, ran, _⟩ := receive_no_number s terminated whole scanned
      exact ⟨t, ran⟩
    | some found =>
      obtain ⟨type, rest⟩ := found
      cases line : scanLine rest with
      | none =>
        obtain ⟨t, ran, _⟩ := receive_no_text s terminated whole scanned line
        exact ⟨t, ran⟩
      | some text =>
        obtain ⟨t, ran, _⟩ := receive_both s terminated whole scanned line
        exact ⟨t, ran⟩

/-- What is logged is the request of the message. -/
theorem logLine_bytes {line : CString} (fits : line.length + 2 ≤ MAX_BUFFER) (log : CharArray 256)
    (buffer : CharArray MAX_BUFFER) : logLine line log buffer = .ok (Request.bytes ⟨.logMsg, line⟩) := by
  have small : line.length < 256 := by
    unfold MAX_BUFFER at fits
    omega
  have sent : sendLog line buffer = .ok (Request.bytes ⟨.logMsg, line⟩) := send_bytes ⟨.logMsg, line⟩ fits buffer
  rw [logLine_format, formatLine_fits log small, ok_bind, sent]

/-- **Capacity.** A message survives exactly if its digit, its text and its
terminator fit into one array together. -/
theorem survives_iff (line : CString) : Survives line ↔ line.length + 2 ≤ MAX_BUFFER := by
  constructor
  · intro survives
    obtain ⟨request, logged, _⟩ := survives (.filled 256 1) (.filled MAX_BUFFER 1)
    exact (logLine_ok_iff line _ _).mp ⟨request, logged⟩
  · intro fits log buffer
    refine ⟨_, logLine_bytes fits log buffer, arrives_of_terminated ?_ ?_⟩
    · simp only [Request.bytes, List.length_cons, CString.length_terminated]
      omega
    · simp [Request.bytes, CString.terminated]

/-- The longest message that the log array holds, `A` 255 times. -/
def longestLine : CString where
  bytes := List.replicate 255 65
  noNul member := absurd (List.eq_of_mem_replicate member) (by decide)

/-- It does not survive. -/
theorem longest_line_overflows : ¬ ∀ line : CString, line.length + 1 ≤ 256 → Survives line := by
  intro all
  have size : longestLine.length = 255 := List.length_replicate
  obtain ⟨request, logged, _⟩ := all longestLine (by omega) (.filled 256 1) (.filled MAX_BUFFER 1)
  have fits := (logLine_ok_iff longestLine _ _).mp ⟨request, logged⟩
  rw [size] at fits
  exact absurd fits (by decide)

end ClrDumper.LogCapacity
