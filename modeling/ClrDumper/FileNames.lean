import ClrDumper.CStrings
import ClrDumper.Memory

/-! `utility.cpp`: the file name at the end of a path, cut out in place. The scan
keeps the place after the last separator that something follows other than the
terminator, a backslash or a slash. That splits every path in one way. -/
namespace ClrDumper.FileNames
open Execution Memory CStrings

/-- A backslash, a slash or a colon. -/
def isSeparator (byte : UInt8) : Bool := byte == 92 || byte == 47 || byte == 58

/-- The locals of the loop, as offsets into the path. -/
structure ScanState where
  lpszPath : ℕ
  lastSlash : ℕ

/-- One pass of the `while (lpszPath && *lpszPath)` of `PathFindFileNameA`. The
next byte is looked at behind a separator only. -/
def scanPass (path : BytePtr) (s : ScanState) : Exec (Pass ScanState ℕ) := do
  let here ← path s.lpszPath
  if here = 0 then return .leave s.lastSlash
  else if isSeparator here then do
    let next ← path (s.lpszPath + 1)
    if next ≠ 0 ∧ next ≠ 92 ∧ next ≠ 47 then return .again ⟨s.lpszPath + 1, s.lpszPath + 1⟩
    else return .again { s with lpszPath := s.lpszPath + 1 }
  else return .again { s with lpszPath := s.lpszPath + 1 }

variable {n : ℕ}

/-- `PathFindFileNameA`: the offset of the file name in the path. -/
def pathFindFileNameA (lpszPath : CharArray n) : Exec ℕ :=
  whileLoop (scanPass (arrayPtr lpszPath.bytes)) (n + 1) ⟨0, 0⟩

/-- `IPathStripPathA` of a path that is not NULL. -/
def iPathStripPathA (lpszPath : CharArray n) : Exec (CharArray n) := do
  let lpszFileName ← pathFindFileNameA lpszPath
  if lpszFileName ≠ 0 then do
    let name ← lpszPath.stringAt lpszFileName
    lpszPath.moveToStart lpszFileName (name.length + 1)
  else return lpszPath

theorem isSeparator_iff {byte : UInt8} : isSeparator byte = true ↔ byte = 92 ∨ byte = 47 ∨ byte = 58 := by
  simp [isSeparator, or_assoc]

/-! ## The split of a path -/

/-- A part of a path begins with something other than a backslash or a slash. -/
def StartsName (part : List UInt8) : Prop := ∃ byte, part.head? = some byte ∧ byte ≠ 92 ∧ byte ≠ 47

/-- `r` is the file name of `p`: what comes before it is empty or ends in a
backslash, a slash or a colon that is the last one followed by the start of a
name. -/
structure FileNameOf (p r : List UInt8) : Prop where
  split : ∃ d, p = d ++ r ∧ (d = [] ∨ (∃ s, d.getLast? = some s ∧ (s = 92 ∨ s = 47 ∨ s = 58)) ∧ StartsName r)
  rest : ∀ (i : ℕ) s, r[i]? = some s → s = 92 ∨ s = 47 ∨ s = 58 →
    r[i + 1]? = none ∨ r[i + 1]? = some 92 ∨ r[i + 1]? = some 47

/-- A separator at place `i` of a path, and the start of a name behind it. -/
def Separates (p : List UInt8) (i : ℕ) : Prop :=
  (∃ s, p[i]? = some s ∧ (s = 92 ∨ s = 47 ∨ s = 58)) ∧ ∃ byte, p[i + 1]? = some byte ∧ byte ≠ 92 ∧ byte ≠ 47

/-- A name may start at place `k`. -/
def MayStart (p : List UInt8) (k : ℕ) : Prop := k = 0 ∨ ∃ i, k = i + 1 ∧ Separates p i

/-- The place where the file name starts. -/
def Starts (p : List UInt8) (k : ℕ) : Prop := MayStart p k ∧ ∀ i, k ≤ i → ¬ Separates p i

variable {p r : List UInt8} {k l : ℕ}

theorem starts_unique (first : Starts p k) (second : Starts p l) : k = l := by
  have below : ∀ {k l}, Starts p k → Starts p l → l ≤ k := by
    intro k l first second
    by_contra later
    rcases second.1 with rfl | ⟨i, rfl, separates⟩
    · omega
    · exact first.2 i (by omega) separates
  exact Nat.le_antisymm (below second first) (below first second)

theorem starts_le (starts : Starts p k) : k ≤ p.length := by
  rcases starts.1 with rfl | ⟨i, rfl, _, byte, next, _⟩
  · exact Nat.zero_le _
  · exact Nat.le_of_lt (List.getElem?_eq_some_iff.mp next).1

theorem separates_drop {i : ℕ} : Separates (p.drop k) i ↔ Separates p (k + i) := by
  simp only [Separates, List.getElem?_drop, Nat.add_assoc]

/-- Nothing separates a file name any further. -/
theorem rest_iff : (∀ (i : ℕ) s, r[i]? = some s → s = 92 ∨ s = 47 ∨ s = 58 →
    r[i + 1]? = none ∨ r[i + 1]? = some 92 ∨ r[i + 1]? = some 47) ↔ ∀ i, ¬ Separates r i := by
  constructor
  · rintro rest i ⟨⟨s, here, separator⟩, byte, next, other⟩
    have found := rest i s here separator
    rw [next, Option.some.injEq, Option.some.injEq] at found
    simp [other] at found
  · intro none i s here separator
    cases next : r[i + 1]? with
    | none => exact Or.inl rfl
    | some byte =>
      by_contra other
      simp only [Option.some.injEq, not_or] at other
      exact none i ⟨⟨s, here, separator⟩, byte, next, other.2⟩

/-- The file name is what starts at that place. -/
theorem fileNameOf_iff : FileNameOf p r ↔ ∃ k, Starts p k ∧ r = p.drop k := by
  constructor
  · rintro ⟨⟨d, rfl, front⟩, rest⟩
    refine ⟨d.length, ⟨?_, fun i later separates => ?_⟩, by simp⟩
    · rcases front with rfl | ⟨⟨s, last, separator⟩, byte, next, other⟩
      · exact Or.inl rfl
      · obtain ⟨front, rfl⟩ := List.getLast?_eq_some_iff.mp last
        rw [List.head?_eq_getElem?] at next
        refine Or.inr ⟨front.length, by simp, ⟨s, by simp, separator⟩, byte, ?_, other⟩
        rw [List.getElem?_append_right (by simp)]
        simpa using next
    · obtain ⟨j, rfl⟩ := Nat.exists_eq_add_of_le later
      rw [← separates_drop, List.drop_left] at separates
      exact rest_iff.mp rest j separates
  · rintro ⟨k, ⟨mayStart, none⟩, rfl⟩
    constructor
    case split =>
      refine ⟨p.take k, (List.take_append_drop k p).symm, ?_⟩
      rcases mayStart with rfl | ⟨i, rfl, ⟨s, here, separator⟩, byte, next, other⟩
      · exact Or.inl List.take_zero
      · refine Or.inr ⟨⟨s, ?_, separator⟩, byte, ?_, other⟩
        · simp [List.getLast?_take, here]
        · rwa [List.head?_drop]
    case rest =>
      apply rest_iff.mpr
      intro i separates
      apply none (k + i) (Nat.le_add_right k i)
      exact separates_drop.mp separates

/-! ## The scan -/

/-- Before a pass of the scan: `lastSlash` is the last start of a name up to
here. -/
structure Scanning (p : List UInt8) (s : ScanState) : Prop where
  inside : s.lpszPath ≤ p.length
  mayStart : MayStart p s.lastSlash
  latest : ∀ i, s.lastSlash ≤ i → i < s.lpszPath → ¬ Separates p i

section Scan
variable {path : CString} (rest : List UInt8)

theorem read_inside {x : ℕ} (inside : x < path.bytes.length) :
    arrayPtr (path.bytes ++ 0 :: rest) x = .ok path.bytes[x] ∧ path.bytes[x] ≠ 0 := by
  refine ⟨?_, fun nul => path.noNul (nul ▸ List.getElem_mem inside)⟩
  rw [arrayPtr_ok_iff, List.getElem?_append_left inside, List.getElem?_eq_getElem inside]

theorem read_end : arrayPtr (path.bytes ++ 0 :: rest) path.bytes.length = .ok 0 := by
  rw [arrayPtr_ok_iff]
  simp

/-- The byte behind one of the path: another one of it, or the terminator. -/
theorem read_next {x : ℕ} (inside : x < path.bytes.length) :
    ∃ byte, arrayPtr (path.bytes ++ 0 :: rest) (x + 1) = .ok byte ∧
      ∀ b, path.bytes[x + 1]? = some b ↔ b = byte ∧ byte ≠ 0 := by
  by_cases last : x + 1 = path.bytes.length
  · refine ⟨0, last ▸ read_end rest, fun b => ?_⟩
    simp [last]
  · obtain ⟨read, nonzero⟩ := read_inside rest (show x + 1 < path.bytes.length by omega)
    refine ⟨_, read, fun b => ?_⟩
    rw [List.getElem?_eq_getElem (by omega), Option.some.injEq]
    exact ⟨fun same => ⟨same.symm, nonzero⟩, fun same => same.1.symm⟩

/-- A pass over a byte of the path moves `lastSlash` behind it if it separates. -/
theorem scanPass_inside {x : ℕ} (last : ℕ) (inside : x < path.bytes.length) :
    (Separates path.bytes x ∧
        scanPass (arrayPtr (path.bytes ++ 0 :: rest)) ⟨x, last⟩ = .ok (.again ⟨x + 1, x + 1⟩)) ∨
      (¬ Separates path.bytes x ∧
        scanPass (arrayPtr (path.bytes ++ 0 :: rest)) ⟨x, last⟩ = .ok (.again ⟨x + 1, last⟩)) := by
  obtain ⟨here, nonzero⟩ := read_inside rest inside
  obtain ⟨byte, next, same⟩ := read_next rest inside
  have found : path.bytes[x]? = some path.bytes[x] := List.getElem?_eq_getElem inside
  by_cases separator : isSeparator path.bytes[x] = true
  · by_cases starts : byte ≠ 0 ∧ byte ≠ 92 ∧ byte ≠ 47
    · refine Or.inl ⟨⟨⟨_, found, isSeparator_iff.mp separator⟩, byte, (same byte).mpr ⟨rfl, starts.1⟩, starts.2⟩, ?_⟩
      simp [scanPass, here, nonzero, separator, next, starts]
    · refine Or.inr ⟨?_, by simp [scanPass, here, nonzero, next, starts]⟩
      rintro ⟨_, b, behind, other⟩
      obtain ⟨rfl, nonzero⟩ := (same b).mp behind
      exact starts ⟨nonzero, other⟩
  · refine Or.inr ⟨?_, by simp [scanPass, here, nonzero, separator]⟩
    rintro ⟨⟨s, at_x, separates⟩, _⟩
    rw [found, Option.some.injEq] at at_x
    exact separator (isSeparator_iff.mpr (at_x ▸ separates))

theorem scanPass_spec (s : ScanState) (scanning : Scanning path.bytes s) :
    PassSpec (Scanning path.bytes) (Starts path.bytes) (fun s => path.bytes.length - s.lpszPath)
      (scanPass (arrayPtr (path.bytes ++ 0 :: rest))) s := by
  obtain ⟨x, last⟩ := s
  obtain ⟨inside, mayStart, latest⟩ := scanning
  dsimp only at *
  rcases Nat.lt_or_eq_of_le inside with below | rfl
  · right
    rcases scanPass_inside rest last below with ⟨separates, ran⟩ | ⟨joined, ran⟩
    · refine ⟨_, ran, ⟨below, Or.inr ⟨x, rfl, separates⟩, fun i later before => ?_⟩, by dsimp only; omega⟩
      dsimp only at later before
      omega
    · refine ⟨_, ran, ⟨below, mayStart, fun i later before => ?_⟩, by dsimp only; omega⟩
      rcases Nat.lt_succ_iff_lt_or_eq.mp before with earlier | rfl
      · exact latest i later earlier
      · exact joined
  · left
    refine ⟨last, by simp [scanPass], mayStart, fun i later separates => ?_⟩
    obtain ⟨⟨s, here, _⟩, _⟩ := id separates
    exact latest i later (List.getElem?_eq_some_iff.mp here).1 separates

end Scan

/-- The scan of a path finds the start of its file name. -/
theorem pathFindFileNameA_spec {buffer : CharArray n} {path : CString} (holds : buffer.cstring = .ok path) :
    ∃ k, pathFindFileNameA buffer = .ok k ∧ Starts path.bytes k := by
  obtain ⟨rest, bytes⟩ := CharArray.cstring_ok_iff.mp holds
  have start : Scanning path.bytes ⟨0, 0⟩ := ⟨Nat.zero_le _, Or.inl rfl, fun i _ below => absurd below (Nat.not_lt_zero i)⟩
  have size := buffer.size
  rw [bytes, List.length_append] at size
  obtain ⟨k, ran, starts⟩ := while_total (scanPass_spec rest) start (show _ < n + 1 by dsimp only; omega)
  exact ⟨k, by rw [pathFindFileNameA, bytes, ran], starts⟩

/-- A file name is its own. -/
theorem starts_fileName (starts : Starts p k) : Starts (p.drop k) 0 :=
  ⟨Or.inl rfl, fun i _ separates => starts.2 (k + i) (by omega) (separates_drop.mp separates)⟩

/-- What is left of a path is its tail from there on, with its terminator. -/
theorem iPathStripPathA_tail {buffer : CharArray n} {path : CString} (holds : buffer.cstring = .ok path) {k : ℕ}
    (starts : Starts path.bytes k) :
    ∃ after name, iPathStripPathA buffer = .ok after ∧ after.cstring = .ok name ∧ name.bytes = path.bytes.drop k ∧
      (k = 0 → after = buffer) := by
  obtain ⟨found, scanned, starts'⟩ := pathFindFileNameA_spec holds
  obtain rfl := starts_unique starts starts'
  by_cases whole : k = 0
  · subst whole
    exact ⟨buffer, path, by simp [iPathStripPathA, scanned], holds, List.drop_zero.symm, fun _ => rfl⟩
  · have inside : k ≤ path.length := starts_le starts
    have read := CharArray.stringAt_ok holds inside
    obtain ⟨moved, ran, text⟩ := CharArray.moveToStart_ok holds inside
    refine ⟨moved, path.drop k, ?_, text, rfl, fun start => absurd start whole⟩
    rw [iPathStripPathA, scanned, ok_bind, if_pos whole, read, ok_bind, ran]

/-- **File names.** For every path in an array the call leaves the one file name
of it there, terminated, and a second call changes nothing. -/
theorem iPathStripPathA_fileName (buffer : CharArray n) (path : CString) (holds : buffer.cstring = .ok path) :
    ∃ after name, iPathStripPathA buffer = .ok after ∧ after.cstring = .ok name ∧
      FileNameOf path.bytes name.bytes ∧ (∀ other, FileNameOf path.bytes other → other = name.bytes) ∧
      iPathStripPathA after = .ok after := by
  obtain ⟨k, _, starts⟩ := pathFindFileNameA_spec holds
  obtain ⟨after, name, ran, text, tail, _⟩ := iPathStripPathA_tail holds starts
  refine ⟨after, name, ran, text, fileNameOf_iff.mpr ⟨k, starts, tail⟩, fun other fileName => ?_, ?_⟩
  · obtain ⟨l, starts', rfl⟩ := fileNameOf_iff.mp fileName
    rw [starts_unique starts' starts, tail]
  · have own := starts_fileName starts
    rw [← tail] at own
    obtain ⟨again, _, ran', _, _, same⟩ := iPathStripPathA_tail text own
    rw [ran', same rfl]

/-- `c:\\d/e:` with two bytes behind its terminator. -/
theorem iPathStripPathA_fileName_sample :
    ∃ (after : CharArray 11) (name : CString),
      iPathStripPathA ⟨[99, 58, 92, 92, 100, 47, 101, 58, 0, 65, 66], rfl⟩ = .ok after ∧ after.cstring = .ok name ∧
      FileNameOf (CString.literal "c:\\\\d/e:").bytes name.bytes ∧
      (∀ other, FileNameOf (CString.literal "c:\\\\d/e:").bytes other → other = name.bytes) ∧
      iPathStripPathA after = .ok after :=
  iPathStripPathA_fileName _ _ (by rfl)

end ClrDumper.FileNames
