import Mathlib.Data.Fintype.Pigeonhole
import ClrDumper.ScriptDump

/-! What the dump of a script text holds. The block and the file are as long as
the text has units, while the locale decides how many bytes a unit becomes and
whether the conversion comes to its end. The file is the text's own exactly when
what is stored fills it and the block holds all of that, and two texts are told
apart when the locale does so. -/
namespace ClrDumper.DumpFidelity
open Execution CStrings NamedPipeIO Utility ScriptDump

/-- The two hooks that dump a text. -/
inductive Hook where
  | compileHooked
  | parserHooked

/-- One call of a hook, but for its text. -/
structure Call where
  _dumpPath : CString
  st : SystemTime
  locals : Locals
  host : Host

namespace Hook

def tag : Hook → CString
  | compileHooked => .literal "VB_SCRIPT"
  | parserHooked => .literal "JS_SCRIPT"

def run (hook : Hook) (locale : CodePage) (text : WString) (buffer : CharArray (text.units.length + 1))
    (call : Call) : Exec Host :=
  match hook with
  | compileHooked => VBScript.compileHooked call._dumpPath locale text buffer call.st call.locals call.host
  | parserHooked => JScript.parserHooked call._dumpPath locale text buffer call.st call.locals call.host

/-- The path of the call's dump. -/
def path (hook : Hook) (call : Call) : CString := call._dumpPath ++ dumpName hook.tag call.st

/-- The call creates its dump. -/
structure Creates (hook : Hook) (call : Call) : Prop where
  room : (hook.path call).length < MAX_PATH
  absent : call.host.disk.files (hook.path call) = none

end Hook

/-- Whenever the dump of a text is created, these are its contents when the hook
goes on to its line in the log, whatever was in the block before. -/
def Dumps (hook : Hook) (locale : CodePage) (text : WString) (data : List UInt8) : Prop :=
  ∀ call (buffer : CharArray (text.units.length + 1)), hook.Creates call → ∃ disk : Disk,
    disk.files = Function.update call.host.disk.files (hook.path call) (some data) ∧
      hook.run locale text buffer call =
        Host.log { call.host with disk } call.locals (.literal "[+] Dump written to " ++ hook.path call)

/-- Each text has its contents, and different texts have different ones. -/
def Faithful (locale : CodePage) (hook other : Hook) (text text' : WString) : Prop :=
  ∃ data data', Dumps hook locale text data ∧ Dumps other locale text' data' ∧ (text ≠ text' → data ≠ data')

/-- The bytes of a text in a locale, up to its first unit that has none. -/
def spelled (locale : CodePage) : List UInt16 → List UInt8
  | [] => []
  | unit :: rest =>
    match locale unit with
    | some bytes => bytes ++ spelled locale rest
    | none => []

/-- Every unit of the text is one byte in the locale; or the locale lacks a unit,
and those before it are as many bytes as the text has units, or one less. -/
def FillsFile (locale : CodePage) (text : WString) : Prop :=
  (∀ unit ∈ text.units, ∃ byte, locale unit = some [byte]) ∨
    ((∃ unit ∈ text.units, locale unit = none) ∧
      ((spelled locale text.units).length = text.units.length ∨
        (spelled locale text.units).length + 1 = text.units.length))

/-- The bytes that are left of a text in a file of its length, and a terminator
if there is room. -/
def fileOf (locale : CodePage) (text : WString) : List UInt8 :=
  (spelled locale text.units ++ [0]).take text.units.length

variable {locale : CodePage} {hook other : Hook} {text text' : WString} {units : List UInt16}

/-! ## The conversion -/

theorem whole_or_stops (locale : CodePage) (units : List UInt16) :
    (∀ unit ∈ units, locale unit ≠ none) ∨ ∃ unit ∈ units, locale unit = none := by
  by_contra neither
  obtain ⟨missing, all⟩ := not_or.mp neither
  exact missing fun unit member none => all ⟨unit, member, none⟩

/-- What is stored is what the locale has of the text, terminated. -/
theorem convert_eq (locale : CodePage) (units : List UInt16) :
    convert locale units = spelled locale units ++ [0] := by
  induction units with
  | nil => rfl
  | cons unit rest ih =>
    cases has : locale unit with
    | none => simp [convert, spelled, has]
    | some bytes => simp [convert, spelled, has, ih]

theorem length_convert (locale : CodePage) (units : List UInt16) :
    (convert locale units).length = (spelled locale units).length + 1 := by
  rw [convert_eq, List.length_append, List.length_singleton]

/-- What the CRT promises of a locale: a unit that it has is at least one byte. -/
def Yields (locale : CodePage) : Prop := ∀ unit bytes, locale unit = some bytes → bytes ≠ []

/-- So a text does not get shorter, and keeps its length only byte for unit. -/
theorem spelled_length (yields : Yields locale) (whole : ∀ unit ∈ units, locale unit ≠ none) :
    units.length ≤ (spelled locale units).length ∧
      ((spelled locale units).length ≤ units.length → ∀ unit ∈ units, ∃ byte, locale unit = some [byte]) := by
  induction units with
  | nil => exact ⟨Nat.le_refl _, fun _ unit member => absurd member List.not_mem_nil⟩
  | cons unit rest ih =>
    obtain ⟨bytes, has⟩ := Option.ne_none_iff_exists'.mp (whole unit List.mem_cons_self)
    obtain ⟨longer, exactly⟩ := ih fun unit member => whole unit (List.mem_cons_of_mem _ member)
    have positive := List.length_pos_iff.mpr (yields unit bytes has)
    have split : (spelled locale (unit :: rest)).length = bytes.length + (spelled locale rest).length := by
      simp [spelled, has]
    rw [split, List.length_cons]
    refine ⟨by omega, fun short => List.forall_mem_cons.mpr ⟨?_, exactly (by omega)⟩⟩
    obtain ⟨byte, one⟩ := List.length_eq_one_iff.mp (show bytes.length = 1 by omega)
    exact ⟨byte, one ▸ has⟩

theorem spelled_single (each : ∀ unit ∈ units, ∃ byte, locale unit = some [byte]) :
    (spelled locale units).length = units.length := by
  induction units with
  | nil => rfl
  | cons unit rest ih =>
    obtain ⟨byte, has⟩ := each unit List.mem_cons_self
    have tail := ih fun unit member => each unit (List.mem_cons_of_mem _ member)
    simp [spelled, has, tail]

/-- The condition says that the conversion stores at least what is written to the
file, and at most what the block holds. -/
theorem fillsFile_iff (yields : Yields locale) :
    FillsFile locale text ↔ text.units.length ≤ (convert locale text.units).length ∧
      (convert locale text.units).length ≤ text.units.length + 1 := by
  rw [length_convert]
  rcases whole_or_stops locale text.units with whole | stops
  · obtain ⟨longer, exactly⟩ := spelled_length yields whole
    constructor
    · rintro (each | ⟨⟨unit, member, none⟩, _⟩)
      · have same := spelled_single each
        omega
      · exact absurd none (whole unit member)
    · rintro ⟨_, small⟩
      exact Or.inl (exactly (by omega))
  · constructor
    · rintro (each | ⟨_, size⟩)
      · have same := spelled_single each
        omega
      · omega
    · rintro ⟨large, small⟩
      exact Or.inr ⟨stops, by omega⟩

/-! ## The hooks -/

theorem run_eq (hook : Hook) (buffer : CharArray (text.units.length + 1)) (call : Call) :
    hook.run locale text buffer call = dumpScript hook.tag (.literal "[+] Dump written to ")
      (writeWide locale text buffer) call._dumpPath call.st call.locals call.host := by
  cases hook <;> rfl

theorem tag_short (hook : Hook) : hook.tag.length ≤ 66 := by
  cases hook with
  | compileHooked => simp only [Hook.tag]; decide
  | parserHooked => simp only [Hook.tag]; decide

/-- What is left of a call that creates its dump. -/
theorem run_creates {call : Call} (creates : hook.Creates call) (buffer : CharArray (text.units.length + 1)) :
    hook.run locale text buffer call = (do
      let disk ← writeWide locale text buffer
        ⟨Function.update call.host.disk.files (hook.path call) (some [])⟩ (hook.path call)
      Host.log { call.host with disk } call.locals (.literal "[+] Dump written to " ++ hook.path call)) := by
  have created := createNew_absent creates.absent
  unfold Hook.path at created
  rw [run_eq, dumpScript_room (tag_short hook) creates.room, created]
  rfl

/-- A text that fills its file has the same dump in every call. -/
theorem dumps_of_fills (hook : Hook) (yields : Yields locale) (fills : FillsFile locale text) :
    Dumps hook locale text (fileOf locale text) := by
  intro call buffer creates
  obtain ⟨large, small⟩ := (fillsFile_iff yields).mp fills
  have data : (convert locale text.units ++ buffer.bytes.drop (convert locale text.units).length).take
      text.units.length = fileOf locale text := by
    rw [List.take_append_of_le_length large, convert_eq]
    rfl
  refine ⟨_, write_new call.host.disk.files (hook.path call) (fileOf locale text), ?_⟩
  rw [run_creates creates, writeWide_fits locale text buffer small, data, ok_bind]

/-- A call on an empty disk, with everything else as short as can be. -/
def plainCall : Call where
  _dumpPath := .empty
  st := getLocalTime 0
  locals := ⟨.filled _ 0, .filled _ 0, .filled _ 0, .filled _ 0⟩
  host := ⟨⟨fun _ => none⟩, []⟩

theorem plainCall_creates (hook : Hook) : hook.Creates plainCall ∧
    (CString.literal "[+] Dump written to " ++ hook.path plainCall).length + 2 ≤ MAX_BUFFER := by
  cases hook with
  | compileHooked => exact ⟨⟨by decide, rfl⟩, by decide⟩
  | parserHooked => exact ⟨⟨by decide, rfl⟩, by decide⟩

/-- What a plain call leaves shows that the conversion fits into the block, and
what the file holds. -/
theorem contents_of_dumps {data : List UInt8} (dumps : Dumps hook locale text data)
    (buffer : CharArray (text.units.length + 1)) :
    (convert locale text.units).length ≤ text.units.length + 1 ∧
      data = (convert locale text.units ++ buffer.bytes.drop (convert locale text.units).length).take
        text.units.length := by
  obtain ⟨creates, line⟩ := plainCall_creates hook
  obtain ⟨disk, files, ran⟩ := dumps plainCall buffer creates
  obtain ⟨after, logged⟩ := (log_ok_iff { plainCall.host with disk } plainCall.locals _).mpr line
  rw [run_creates creates, logged] at ran
  obtain ⟨filled, wrote, again⟩ := bind_ok ran
  have small := writeWide_ok wrote
  rw [writeWide_fits locale text buffer small, Except.ok.injEq] at wrote
  subst wrote
  have same := (log_disk logged).symm.trans (log_disk again)
  have now := congrFun (congrArg Disk.files same) (hook.path plainCall)
  rw [write_new] at now
  simp only [files, Function.update_self, Option.some.injEq] at now
  exact ⟨small, now⟩

/-- A text whose dump is its own fills its file: otherwise the file ends with
bytes of the block. -/
theorem fills_of_dumps (yields : Yields locale) {data : List UInt8} (dumps : Dumps hook locale text data) :
    FillsFile locale text ∧ data = fileOf locale text := by
  obtain ⟨small, ones⟩ := contents_of_dumps dumps (.filled _ 1)
  obtain ⟨_, twos⟩ := contents_of_dumps dumps (.filled _ 2)
  have large : text.units.length ≤ (convert locale text.units).length := by
    by_contra short
    have place : (convert locale text.units).length < text.units.length := Nat.lt_of_not_le short
    have differ := congrArg (·[(convert locale text.units).length]?) (ones.symm.trans twos)
    have inside : (convert locale text.units).length < text.units.length + 1 := Nat.lt_succ_of_lt place
    simp [place, CharArray.filled, inside] at differ
  have fills := (fillsFile_iff yields).mpr ⟨large, small⟩
  rw [List.take_append_of_le_length large, convert_eq] at ones
  exact ⟨fills, ones⟩

/-- The file is as long as the text. -/
theorem length_fileOf (yields : Yields locale) (fills : FillsFile locale text) :
    (fileOf locale text).length = text.units.length := by
  obtain ⟨large, _⟩ := (fillsFile_iff yields).mp fills
  rw [fileOf, ← convert_eq, List.length_take]
  exact Nat.min_eq_left large

/-- **Fidelity.** Two dumped texts have contents of their own, which tell them
apart, exactly when each fills its file and, if the texts differ, the locale
gives them different bytes there. -/
theorem faithful_iff (locale : CodePage) (yields : Yields locale) (hook other : Hook) (text text' : WString) :
    Faithful locale hook other text text' ↔ FillsFile locale text ∧ FillsFile locale text' ∧
      (text ≠ text' → fileOf locale text ≠ fileOf locale text') := by
  constructor
  · rintro ⟨data, data', dumps, dumps', apart⟩
    obtain ⟨fills, same⟩ := fills_of_dumps yields dumps
    obtain ⟨fills', same'⟩ := fills_of_dumps yields dumps'
    exact ⟨fills, fills', same ▸ same' ▸ apart⟩
  · rintro ⟨fills, fills', apart⟩
    exact ⟨_, _, dumps_of_fills hook yields fills, dumps_of_fills other yields fills', apart⟩

/-- A text of one unit. -/
def oneUnit (unit : UInt16) (nonzero : 0 ≠ unit) : WString := ⟨[unit], by simpa using nonzero⟩

/-- There are more units than bytes. -/
theorem more_units : ∃ unitOf : Fin 257 → UInt16, (∀ i, 0 ≠ unitOf i) ∧ Function.Injective unitOf := by
  refine ⟨fun i => UInt16.ofNat (i.val + 1), fun i zero => ?_, fun i j same => ?_⟩
  · have value := congrArg UInt16.toNat zero
    have below := i.isLt
    simp only [UInt16.toNat_ofNat', UInt16.toNat_zero] at value
    omega
  · have value := congrArg UInt16.toNat same
    have below := i.isLt
    have below' := j.isLt
    simp only [UInt16.toNat_ofNat'] at value
    exact Fin.ext (by omega)

/-- So no locale makes the dumps of all texts faithful, not even of those of one
unit. -/
theorem every_locale_confuses (yields : Yields locale) (hook : Hook) :
    ∃ text text', ¬ Faithful locale hook hook text text' := by
  by_contra all
  have faithful : ∀ text text', Faithful locale hook hook text text' := by
    intro text text'
    by_contra confused
    exact all ⟨text, text', confused⟩
  obtain ⟨unitOf, nonzero, injective⟩ := more_units
  have single : ∀ i, ∃ byte, fileOf locale (oneUnit _ (nonzero i)) = [byte] := by
    intro i
    obtain ⟨_, _, dumps, _⟩ := faithful (oneUnit _ (nonzero i)) (oneUnit _ (nonzero i))
    exact List.length_eq_one_iff.mp (length_fileOf yields (fills_of_dumps yields dumps).1)
  choose byte has using single
  obtain ⟨i, j, different, same⟩ := Fintype.exists_ne_map_eq_of_card_lt (fun i => (byte i).toFin) (by simp)
  obtain ⟨data, data', dumps, dumps', apart⟩ := faithful (oneUnit _ (nonzero i)) (oneUnit _ (nonzero j))
  refine apart (fun texts => different (injective ?_)) ?_
  · simpa [oneUnit] using texts
  · have equal : byte i = byte j := UInt8.toFin_inj.mp same
    rw [(fills_of_dumps yields dumps).2, (fills_of_dumps yields dumps').2, has, has, equal]

/-- The C locale: one byte for each of the first 256 units, and no other. -/
def cLocale : CodePage := fun unit => if unit < 256 then some [unit.toUInt8] else none

theorem cLocale_yields : Yields cLocale := by
  intro unit bytes has
  unfold cLocale at has
  split at has
  · cases has
    exact List.cons_ne_nil _ _
  · cases has

theorem faithful_iff_sample :
    Faithful cLocale .compileHooked .parserHooked (oneUnit 65 (by decide)) (oneUnit 66 (by decide)) ↔
      FillsFile cLocale (oneUnit 65 (by decide)) ∧ FillsFile cLocale (oneUnit 66 (by decide)) ∧
        (oneUnit 65 (by decide) ≠ oneUnit 66 (by decide) →
          fileOf cLocale (oneUnit 65 (by decide)) ≠ fileOf cLocale (oneUnit 66 (by decide))) :=
  faithful_iff cLocale cLocale_yields .compileHooked .parserHooked _ _

/-- The text `αα`. -/
def alphas : WString := ⟨[0x3B1, 0x3B1], by decide⟩

/-- Its dump in the C locale ends with a byte of the block. -/
theorem unrepresentable_text_leaks :
    ¬ ∀ locale, Yields locale → ∀ hook other text text', Faithful locale hook other text text' := by
  intro all
  obtain ⟨data, _, dumps, _⟩ := all cLocale cLocale_yields .compileHooked .compileHooked alphas alphas
  have large := ((fillsFile_iff cLocale_yields).mp (fills_of_dumps cLocale_yields dumps).1).1
  exact absurd large (by decide)

end ClrDumper.DumpFidelity
