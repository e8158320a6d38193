import Mathlib.Data.Nat.Digits.Defs
import ClrDumper.CStrings
import ClrDumper.Decimal

/-! `utility.cpp`: the name of a dump file is its tag and the local time of day.
The name determines both. -/
namespace ClrDumper.Utility
open Execution CStrings Decimal

/-- The fields of a `SYSTEMTIME` that the name is made of. -/
structure SystemTime where
  wHour : UInt16
  wMinute : UInt16
  wSecond : UInt16
  wMilliseconds : UInt16
  deriving DecidableEq

/-- `GetLocalTime` when the local time is so many milliseconds after some
midnight. -/
def getLocalTime (millis : ℕ) : SystemTime where
  wHour := UInt16.ofNat (millis / 3600000 % 24)
  wMinute := UInt16.ofNat (millis / 60000 % 60)
  wSecond := UInt16.ofNat (millis / 1000 % 60)
  wMilliseconds := UInt16.ofNat (millis % 1000)

/-- `"%.2u"` of a `WORD`. -/
def field (value : UInt16) : CString where
  bytes := padded 2 value.toNat
  noNul member := absurd (padded_digits 2 value.toNat 0 member) (by decide)

/-- `"\\%s_DUMP%.2u_%.2u_%.2u_%.2u.bin"`. -/
def dumpName (tag : CString) (st : SystemTime) : CString :=
  .literal "\\" ++ tag ++ .literal "_DUMP" ++ field st.wHour ++ .literal "_" ++ field st.wMinute ++
    .literal "_" ++ field st.wSecond ++ .literal "_" ++ field st.wMilliseconds ++ .literal ".bin"

/-- `GetDumpName`. The result is the address of the local `buf`; callers use the
string at once, before anything overwrites it. -/
def getDumpName (tag : CString) (st : SystemTime) (buf : CharArray 100) : Exec CString := do
  let buf ← buf.copy (dumpName tag st)
  buf.cstring

/-- Two local times have the same fields when they are the same time of day. -/
theorem getLocalTime_inj {m n : ℕ} : getLocalTime m = getLocalTime n ↔ m % 86400000 = n % 86400000 := by
  have word : ∀ a b : ℕ, a < 65536 → b < 65536 → (UInt16.ofNat a = UInt16.ofNat b ↔ a = b) := by
    intro a b small small'
    rw [← UInt16.toNat_inj, UInt16.toNat_ofNat', UInt16.toNat_ofNat', Nat.mod_eq_of_lt small,
      Nat.mod_eq_of_lt small']
  rw [getLocalTime, getLocalTime, SystemTime.mk.injEq, word _ _ (by omega) (by omega),
    word _ _ (by omega) (by omega), word _ _ (by omega) (by omega), word _ _ (by omega) (by omega)]
  omega

theorem field_inj {m n : UInt16} : field m = field n ↔ m = n := by
  refine ⟨fun same => ?_, congrArg _⟩
  exact UInt16.toNat_inj.mp (padded_inj.mp (congrArg CString.bytes same))

/-- A field has two digits, or as many as it needs. -/
theorem field_length_le_iff {value : UInt16} {k : ℕ} (two : 2 ≤ k) : (field value).length ≤ k ↔ value.toNat < 10 ^ k := by
  rw [← decimal_length_le_iff (by omega)]
  simp only [field, CString.length, padded_length]
  omega

theorem two_le_field_length (value : UInt16) : 2 ≤ (field value).length := by
  simp only [field, CString.length, padded_length]
  omega

theorem field_length (value : UInt16) : (field value).length ≤ 5 := by
  rw [field_length_le_iff (by decide)]
  have bound := value.toNat_lt
  omega

/-- The last field of a text can be split off, whatever stands before it. -/
theorem field_split {separator : UInt8} (other : isDigit separator = false) {front front' : List UInt8}
    {m n : UInt16} :
    front ++ separator :: (field m).bytes = front' ++ separator :: (field n).bytes ↔ front = front' ∧ m = n := by
  have absent : ∀ value, separator ∉ (field value).bytes := by
    intro value member
    rw [padded_digits 2 value.toNat separator member] at other
    cases other
  rw [last_separator_inj (absent m) (absent n)]
  apply and_congr_right
  intro _
  constructor
  · intro same
    apply field_inj.mp
    exact CString.ext same
  · rintro rfl
    rfl

/-- The name as bytes, split where its fields begin. -/
theorem dumpName_bytes (tag : CString) (st : SystemTime) :
    (dumpName tag st).bytes = ((((92 :: tag.bytes ++ [95, 68, 85, 77]) ++ 80 :: (field st.wHour).bytes) ++
      95 :: (field st.wMinute).bytes) ++ 95 :: (field st.wSecond).bytes ++
      95 :: (field st.wMilliseconds).bytes) ++ [46, 98, 105, 110] := by
  have slash : (CString.literal "\\").bytes = [92] := by decide
  have dump : (CString.literal "_DUMP").bytes = [95, 68, 85, 77, 80] := by decide
  have line : (CString.literal "_").bytes = [95] := by decide
  have extension : (CString.literal ".bin").bytes = [46, 98, 105, 110] := by decide
  simp [dumpName, slash, dump, line, extension]

/-- A name stands for one tag and one time, whatever the tag looks like. -/
theorem dumpName_inj {tag tag' : CString} {st st' : SystemTime} :
    dumpName tag st = dumpName tag' st' ↔ tag = tag' ∧ st = st' := by
  refine ⟨fun same => ?_, fun ⟨tags, times⟩ => by rw [tags, times]⟩
  have bytes := congrArg CString.bytes same
  rw [dumpName_bytes, dumpName_bytes, List.append_left_inj, field_split (by decide), field_split (by decide),
    field_split (by decide), field_split (by decide)] at bytes
  obtain ⟨⟨⟨⟨tags, hour⟩, minute⟩, second⟩, millis⟩ := bytes
  rw [List.append_left_inj, List.cons_inj_right] at tags
  refine ⟨CString.ext tags, ?_⟩
  cases st
  cases st'
  cases hour
  cases minute
  cases second
  cases millis
  rfl

theorem dumpName_length_eq (tag : CString) (st : SystemTime) :
    (dumpName tag st).length = tag.length + 13 + (field st.wHour).length + (field st.wMinute).length +
      (field st.wSecond).length + (field st.wMilliseconds).length := by
  unfold CString.length
  simp only [dumpName_bytes, List.length_append, List.length_cons, List.length_nil]
  omega

theorem dumpName_length (tag : CString) (st : SystemTime) : (dumpName tag st).length ≤ tag.length + 33 := by
  have hour := field_length st.wHour
  have minute := field_length st.wMinute
  have second := field_length st.wSecond
  have millis := field_length st.wMilliseconds
  rw [dumpName_length_eq]
  omega

/-- How many digits the milliseconds of a time take. -/
def milliDigits (millis : ℕ) : ℕ := if millis % 1000 < 100 then 2 else 3

/-- At a time of day only the milliseconds can take more than two digits. -/
theorem dumpName_length_local (tag : CString) (millis : ℕ) :
    (dumpName tag (getLocalTime millis)).length = tag.length + 19 + milliDigits millis := by
  have two : ∀ n < 100, (field (UInt16.ofNat n)).length = 2 := by
    intro n small
    have bound : (field (UInt16.ofNat n)).length ≤ 2 := by
      rw [field_length_le_iff (Nat.le_refl 2), UInt16.toNat_ofNat']
      omega
    exact Nat.le_antisymm bound (two_le_field_length _)
  have last : (field (UInt16.ofNat (millis % 1000))).length = milliDigits millis := by
    unfold milliDigits
    split
    · exact two _ (by omega)
    · have bound : (field (UInt16.ofNat (millis % 1000))).length ≤ 3 := by
        rw [field_length_le_iff (by decide), UInt16.toNat_ofNat']
        omega
      have more : ¬ (field (UInt16.ofNat (millis % 1000))).length ≤ 2 := by
        rw [field_length_le_iff (Nat.le_refl 2), UInt16.toNat_ofNat']
        omega
      omega
  rw [dumpName_length_eq, getLocalTime, two _ (by omega), two _ (by omega), two _ (by omega), last]

/-- **Dump names.** Names that fit into `buf` are equal exactly when the tags and
all four fields of the times are, whatever the tags look like. -/
theorem getDumpName_eq_iff (tag tag' : CString) (st st' : SystemTime) (buf buf' : CharArray 100)
    (fits : (dumpName tag st).length < 100) (fits' : (dumpName tag' st').length < 100) :
    ∃ name name', getDumpName tag st buf = .ok name ∧ getDumpName tag' st' buf' = .ok name' ∧
      (name = name' ↔ tag = tag' ∧ st.wHour = st'.wHour ∧ st.wMinute = st'.wMinute ∧ st.wSecond = st'.wSecond ∧
        st.wMilliseconds = st'.wMilliseconds) := by
  obtain ⟨copied, ran, text⟩ := buf.copy_fits fits
  obtain ⟨copied', ran', text'⟩ := buf'.copy_fits fits'
  refine ⟨dumpName tag st, dumpName tag' st', by simp [getDumpName, ran, text], by simp [getDumpName, ran', text'], ?_⟩
  cases st
  cases st'
  rw [dumpName_inj, SystemTime.mk.injEq]

/-- The tags `A` and `A_DUMP01`, a second before the hour and on it. -/
theorem getDumpName_eq_iff_sample :
    ∃ name name', getDumpName (.literal "A") (getLocalTime 3599000) (.filled 100 1) = .ok name ∧
      getDumpName (.literal "A_DUMP01") (getLocalTime 3600000) (.filled 100 1) = .ok name' ∧
      (name = name' ↔ CString.literal "A" = CString.literal "A_DUMP01" ∧
        (getLocalTime 3599000).wHour = (getLocalTime 3600000).wHour ∧
        (getLocalTime 3599000).wMinute = (getLocalTime 3600000).wMinute ∧
        (getLocalTime 3599000).wSecond = (getLocalTime 3600000).wSecond ∧
        (getLocalTime 3599000).wMilliseconds = (getLocalTime 3600000).wMilliseconds) :=
  getDumpName_eq_iff _ _ _ _ _ _ (by decide) (by decide)

end ClrDumper.Utility
