import Mathlib.Data.List.TakeWhile
import ClrDumper.Execution

/-! C strings and the fixed arrays that hold them. Storing past the end of an
array and reading a string from an array without a terminator are faults. -/
namespace ClrDumper.CStrings
open Execution

/-- The text of a NUL-terminated string, without its terminator. -/
structure CString where
  bytes : List UInt8
  noNul : 0 ∉ bytes
  deriving DecidableEq

namespace CString

/-- The string that starts at the first of some bytes: up to their first NUL. -/
def ofBytes (bytes : List UInt8) : CString where
  bytes := bytes.takeWhile (· != 0)
  noNul member := by simpa using List.mem_takeWhile_imp member

/-- A string literal of the source. -/
def literal (text : String) : CString := ofBytes (text.toList.map fun c => UInt8.ofNat c.toNat)

def empty : CString := ⟨[], List.not_mem_nil⟩

/-- One string after another. -/
def append (s t : CString) : CString where
  bytes := s.bytes ++ t.bytes
  noNul member := (List.mem_append.mp member).elim s.noNul t.noNul

instance : Append CString := ⟨append⟩

@[simp] theorem bytes_append (s t : CString) : (s ++ t).bytes = s.bytes ++ t.bytes := rfl

def length (s : CString) : ℕ := s.bytes.length

/-- The string that starts `x` bytes into a string. -/
def drop (s : CString) (x : ℕ) : CString where
  bytes := s.bytes.drop x
  noNul member := s.noNul (List.mem_of_mem_drop member)

def take (s : CString) (x : ℕ) : CString where
  bytes := s.bytes.take x
  noNul member := s.noNul (List.mem_of_mem_take member)

/-- The string as it stands in memory. -/
def terminated (s : CString) : List UInt8 := s.bytes ++ [0]

/-- `lstrcmpA`, as far as the code uses it: whether two strings differ. -/
def lstrcmpA (s t : CString) : Bool := decide (s ≠ t)

@[simp] theorem length_append (s t : CString) : (s ++ t).length = s.length + t.length :=
  List.length_append

@[simp] theorem length_terminated (s : CString) : s.terminated.length = s.length + 1 := by
  simp [terminated, length]

@[ext] theorem ext {s t : CString} (same : s.bytes = t.bytes) : s = t := by
  cases s
  cases t
  cases same
  rfl

theorem bytes_nonzero (s : CString) : ∀ byte ∈ s.bytes, (byte != 0) = true := by
  intro byte member
  rw [bne_iff_ne]
  rintro rfl
  exact s.noNul member

theorem ofBytes_bytes (s : CString) : ofBytes s.bytes = s := by
  ext1
  exact List.takeWhile_eq_self_iff.mpr s.bytes_nonzero

@[simp] theorem ofBytes_append_nul (s : CString) (rest : List UInt8) :
    ofBytes (s.bytes ++ 0 :: rest) = s := by
  ext1
  simp [ofBytes, List.takeWhile_append_of_pos s.bytes_nonzero]

/-- Bytes with a NUL begin with a string and its terminator. -/
theorem ofBytes_split {bytes : List UInt8} (terminated : 0 ∈ bytes) :
    ∃ rest, bytes = (ofBytes bytes).bytes ++ 0 :: rest := by
  obtain ⟨front, rest, split, fresh⟩ := List.eq_append_cons_of_mem terminated
  have text := ofBytes_append_nul ⟨front, fresh⟩ rest
  rw [← split] at text
  exact ⟨rest, by rw [text]; exact split⟩

end CString

/-- `char name[n]`. -/
structure CharArray (n : ℕ) where
  bytes : List UInt8
  size : bytes.length = n

namespace CharArray

variable {n : ℕ}

/-- The array after some bytes were stored from its start on. -/
def overlay (array : CharArray n) (data : List UInt8) (fits : data.length ≤ n) : CharArray n where
  bytes := data ++ array.bytes.drop data.length
  size := by simp [array.size, fits]

/-- Stores bytes `x` bytes into the array. -/
def storeAt (array : CharArray n) (x : ℕ) (data : List UInt8) : Exec (CharArray n) :=
  if fits : x + data.length ≤ n then
    .ok ⟨array.bytes.take x ++ data ++ array.bytes.drop (x + data.length), by simp [array.size]; omega⟩
  else .error .access

/-- Stores bytes from the start of the array on. -/
def store (array : CharArray n) (data : List UInt8) : Exec (CharArray n) :=
  if fits : data.length ≤ n then .ok (array.overlay data fits) else .error .access

/-- The string at the start of the array. -/
def cstring (array : CharArray n) : Exec CString :=
  if 0 ∈ array.bytes then .ok (CString.ofBytes array.bytes) else .error .access

/-- The string that starts `x` bytes into the array. -/
def stringAt (array : CharArray n) (x : ℕ) : Exec CString :=
  if 0 ∈ array.bytes.drop x then .ok (CString.ofBytes (array.bytes.drop x)) else .error .access

/-- `RtlMoveMemory` of `count` bytes of the array to its start. All of them are
read before one is overwritten. -/
def moveToStart (array : CharArray n) (x count : ℕ) : Exec (CharArray n) :=
  if x + count ≤ n then array.store ((array.bytes.drop x).take count) else .error .access

/-- `strcpy`. -/
def copy (array : CharArray n) (s : CString) : Exec (CharArray n) := array.store s.terminated

/-- `strcat`. -/
def concat (array : CharArray n) (s : CString) : Exec (CharArray n) := do
  let front ← array.cstring
  array.store (front ++ s).terminated

theorem store_fits (array : CharArray n) {data : List UInt8} (fits : data.length ≤ n) :
    array.store data = .ok (array.overlay data fits) := dif_pos fits

theorem store_overflows (array : CharArray n) {data : List UInt8} (large : n < data.length) :
    array.store data = .error .access := dif_neg (Nat.not_le.mpr large)

/-- After a terminated string was stored, the array holds that string, whatever
it held before. -/
@[simp] theorem cstring_overlay (array : CharArray n) (s : CString) (rest : List UInt8)
    (fits : (s.bytes ++ 0 :: rest).length ≤ n) :
    (array.overlay (s.bytes ++ 0 :: rest) fits).cstring = .ok s := by
  simp [cstring, overlay]

@[simp] theorem cstring_overlay_terminated (array : CharArray n) (s : CString)
    (fits : s.terminated.length ≤ n) : (array.overlay s.terminated fits).cstring = .ok s :=
  cstring_overlay array s [] fits

/-- An array holds a string if its bytes begin with it and a terminator. -/
theorem cstring_ok_iff {array : CharArray n} {s : CString} :
    array.cstring = .ok s ↔ ∃ rest, array.bytes = s.bytes ++ 0 :: rest := by
  unfold cstring
  constructor
  · intro read
    split at read
    · rename_i terminated
      rw [Except.ok.injEq] at read
      exact read ▸ CString.ofBytes_split terminated
    · cases read
  · rintro ⟨rest, bytes⟩
    rw [bytes, if_pos (by simp), CString.ofBytes_append_nul]

/-- From a place inside its string an array holds the rest of it. -/
theorem tail_bytes {array : CharArray n} {s : CString} {x : ℕ} (holds : array.cstring = .ok s) (inside : x ≤ s.length) :
    ∃ rest, array.bytes.drop x = (s.drop x).bytes ++ 0 :: rest := by
  obtain ⟨rest, bytes⟩ := cstring_ok_iff.mp holds
  refine ⟨rest, ?_⟩
  rw [bytes, List.drop_append_of_le_length inside]
  rfl

theorem stringAt_ok {array : CharArray n} {s : CString} {x : ℕ} (holds : array.cstring = .ok s)
    (inside : x ≤ s.length) : array.stringAt x = .ok (s.drop x) := by
  obtain ⟨rest, tail⟩ := tail_bytes holds inside
  rw [stringAt, tail, if_pos (by simp), CString.ofBytes_append_nul]

/-- Moved to the start with its terminator, it is what the array holds. -/
theorem moveToStart_ok {array : CharArray n} {s : CString} {x : ℕ} (holds : array.cstring = .ok s)
    (inside : x ≤ s.length) :
    ∃ moved, array.moveToStart x ((s.drop x).length + 1) = .ok moved ∧ moved.cstring = .ok (s.drop x) := by
  obtain ⟨rest, tail⟩ := tail_bytes holds inside
  have lengths := congrArg List.length tail
  rw [List.length_drop, array.size, List.length_append, List.length_cons] at lengths
  have room : x + ((s.drop x).length + 1) ≤ n := by
    unfold CString.length at inside ⊢
    omega
  have data : (array.bytes.drop x).take ((s.drop x).length + 1) = (s.drop x).terminated := by
    have spelled : (s.drop x).bytes ++ 0 :: rest = (s.drop x).terminated ++ rest := by simp [CString.terminated]
    rw [tail, spelled]
    exact List.take_left' (CString.length_terminated _)
  have fits : (s.drop x).terminated.length ≤ n := by
    rw [CString.length_terminated]
    omega
  refine ⟨array.overlay (s.drop x).terminated fits, ?_, cstring_overlay_terminated _ _ fits⟩
  rw [moveToStart, if_pos room, data, store_fits _ fits]

/-- A copied string is there if the array holds it and its terminator. -/
theorem copy_fits (array : CharArray n) {s : CString} (fits : s.length < n) :
    ∃ copied, array.copy s = .ok copied ∧ copied.cstring = .ok s := by
  have size : s.terminated.length ≤ n := by
    rw [CString.length_terminated]
    exact fits
  exact ⟨array.overlay s.terminated size, store_fits array size, cstring_overlay_terminated array s size⟩

theorem copy_ok {array copied : CharArray n} {s : CString} (ran : array.copy s = .ok copied) :
    s.length < n ∧ copied.cstring = .ok s := by
  have fits : s.length < n := by
    by_contra large
    rw [copy, store_overflows array (by simp; omega)] at ran
    cases ran
  obtain ⟨same, stored, text⟩ := copy_fits array fits
  rw [ran, Except.ok.injEq] at stored
  exact ⟨fits, stored ▸ text⟩

/-- So is a string that was appended to the one there. -/
theorem concat_eq_copy {array : CharArray n} {s t : CString} (holds : array.cstring = .ok s) :
    array.concat t = array.copy (s ++ t) := by
  simp [concat, copy, holds]

/-- An array filled with one byte. -/
def filled (n : ℕ) (byte : UInt8) : CharArray n := ⟨List.replicate n byte, List.length_replicate⟩

end CharArray

end ClrDumper.CStrings
