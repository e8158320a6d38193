import ClrDumper.DllLoadCallback
import ClrDumper.ScriptDump

/-! The names that `LdrDllNotification` hands to the callback. The loader counts
a name in bytes and promises no terminator; `wcstombs` takes the count as room
for its output and looks for a terminator, behind the name. -/
namespace ClrDumper.ModuleNames
open Execution CStrings Memory ScriptDump
open DllLoadCallback (Notify Reason)

/-- A `UNICODE_STRING`; the length is in bytes. -/
structure UnicodeString where
  length : UInt16
  buffer : UInt32

/-- `LDR_DLL_LOADED_NOTIFICATION_DATA`. -/
structure LoadedNotificationData where
  fullDllName : UnicodeString
  baseDllName : UnicodeString
  dllBase : UInt32

/-- The loop of `wcstombs` from unit `i` on, with the number of bytes that it may
still write. No unit is converted to nothing, so `left` units are enough. -/
def wcstombsFrom (locale : CodePage) (wcstr : ℕ → Exec UInt16) : (left i room : ℕ) → Exec (List UInt8)
  | 0, _, _ => return []
  | left + 1, i, room => do
    if room = 0 then return []
    let unit ← wcstr i
    if unit = 0 then return [0]
    match locale unit with
    | some bytes =>
      -- A character that does not fit as a whole is left out.
      if bytes.length ≤ room then
        return bytes ++ (← wcstombsFrom locale wcstr left (i + 1) (room - bytes.length))
      else return []
    | none => return []

/-- `wcstombs`, whose result is not looked at. -/
def wcstombs (locale : CodePage) (mbstr : CharArray MAX_PATH) (wcstr : ℕ → Exec UInt16) (count : ℕ) :
    Exec (CharArray MAX_PATH) := do
  mbstr.store (← wcstombsFrom locale wcstr count 0 count)

/-- A call of the registered callback. -/
structure Call (C : Type) where
  callback : C
  base : UInt32
  name : CharArray MAX_PATH
  path : CharArray MAX_PATH

/-- `LdrDllNotification`, with what its two arrays hold at first. -/
def ldrDllNotification {C : Type} (n : Notify C) (locale : CodePage) (mem : Mem) (reason : Reason)
    (data : LoadedNotificationData) (szPathA szNameA : CharArray MAX_PATH) : Exec (Option (Call C)) :=
  match reason with
  | .loaded => do
    let szPathA ← wcstombs locale szPathA (mem.wide data.fullDllName.buffer) data.fullDllName.length.toNat
    let szNameA ← wcstombs locale szNameA (mem.wide data.baseDllName.buffer) data.baseDllName.length.toNat
    match n._callback with
    | some callback => return some ⟨callback, data.dllBase, szNameA, szPathA⟩
    | none => .error .access
  | .unloaded => return none

/-- The callback is the one that the notification is known to call. -/
theorem ldrDllNotification_callback {C : Type} {n : Notify C} {locale : CodePage} {mem : Mem} {reason : Reason}
    {data : LoadedNotificationData} {szPathA szNameA : CharArray MAX_PATH} {called : Option (Call C)}
    (ran : ldrDllNotification n locale mem reason data szPathA szNameA = .ok called) :
    DllLoadCallback.ldrDllNotification n reason = .ok (called.map Call.callback) := by
  cases reason with
  | unloaded =>
    cases ran
    rfl
  | loaded =>
    obtain ⟨path, _, ran⟩ := bind_ok ran
    obtain ⟨name, _, ran⟩ := bind_ok ran
    cases registered : n._callback with
    | none =>
      rw [registered] at ran
      cases ran
    | some callback =>
      rw [registered] at ran
      cases ran
      simp [DllLoadCallback.ldrDllNotification, registered]

/-- The bytes that a name counts. -/
def UnicodeString.Holds (s : UnicodeString) (address : UInt32) : Prop :=
  ∃ x < s.length.toNat, address = s.buffer + UInt32.ofNat x

instance (s : UnicodeString) : DecidablePred s.Holds := fun _ => inferInstanceAs (Decidable (∃ x < _, _))

/-- A counted name of ASCII characters. -/
structure Counted (mem : Mem) (s : UnicodeString) (text : List UInt8) : Prop where
  length : s.length.toNat = 2 * text.length
  ascii : ∀ byte ∈ text, byte < 128
  low : ∀ i (inside : i < text.length), mem.byteAt (s.buffer + UInt32.ofNat (2 * i)) = some text[i]
  high : ∀ i < text.length, mem.byteAt (s.buffer + UInt32.ofNat (2 * i + 1)) = some 0

/-- A notification reads no bytes but those that the two names count, and the
callback gets the names, whatever the arrays held at first. -/
structure Exact {C : Type} (n : Notify C) (locale : CodePage) (mem : Mem) (data : LoadedNotificationData)
    (path name : List UInt8) : Prop where
  contained : ∀ other : Mem,
    (∀ address, data.fullDllName.Holds address ∨ data.baseDllName.Holds address →
      other.byteAt address = mem.byteAt address) →
    ∀ szPathA szNameA, ldrDllNotification n locale other .loaded data szPathA szNameA =
      ldrDllNotification n locale mem .loaded data szPathA szNameA
  strings : ∀ szPathA szNameA, ∃ call pathText nameText,
    ldrDllNotification n locale mem .loaded data szPathA szNameA = .ok (some call) ∧
      call.path.cstring = .ok pathText ∧ pathText.bytes = path ∧
      call.name.cstring = .ok nameText ∧ nameText.bytes = name

/-- Every locale keeps the ASCII characters. -/
def Ascii (locale : CodePage) : Prop := ∀ unit : UInt16, unit ≠ 0 → unit < 128 → locale unit = some [unit.toUInt8]

variable {C : Type} {n : Notify C} {locale : CodePage} {mem : Mem} {s : UnicodeString} {text : List UInt8}
  {data : LoadedNotificationData}

/-! ## One name -/

theorem unit_of_byte {byte : UInt8} (small : byte < 128) (nonzero : byte ≠ 0) :
    byte.toUInt16 ≠ 0 ∧ byte.toUInt16 < 128 ∧ byte.toUInt16.toUInt8 = byte := by
  refine ⟨fun zero => nonzero ?_, ?_, UInt8.toUInt8_toUInt16 byte⟩
  · have value := congrArg UInt16.toNat zero
    rw [UInt8.toNat_toUInt16] at value
    exact UInt8.toNat_inj.mp value
  · have value := UInt8.lt_iff_toNat_lt.mp small
    rw [UInt16.lt_iff_toNat_lt, UInt8.toNat_toUInt16]
    exact value

/-- Characters of a name are converted one by one, as long as there is room. -/
theorem wcstombsFrom_text (ascii : Ascii locale) (wcstr : ℕ → Exec UInt16) (small : ∀ byte ∈ text, byte < 128)
    (noNul : 0 ∉ text) (left i room : ℕ) (units : ∀ x (inside : x < text.length), wcstr (i + x) = .ok text[x].toUInt16)
    (enough : text.length ≤ left) (fits : text.length ≤ room) :
    wcstombsFrom locale wcstr left i room = (do
      return text ++ (← wcstombsFrom locale wcstr (left - text.length) (i + text.length) (room - text.length))) := by
  induction text generalizing left i room with
  | nil => simp
  | cons byte rest ih =>
    rw [List.length_cons] at enough fits
    obtain ⟨more, rfl⟩ := Nat.exists_eq_add_one_of_ne_zero (show left ≠ 0 by omega)
    have nonzero : byte ≠ 0 := fun zero => noNul (zero ▸ List.mem_cons_self)
    obtain ⟨unit, below, back⟩ := unit_of_byte (small byte List.mem_cons_self) nonzero
    have first : wcstr i = .ok byte.toUInt16 := units 0 (Nat.zero_lt_succ _)
    have has : locale byte.toUInt16 = some [byte] := by rw [ascii _ unit below, back]
    have tail := ih (fun b member => small b (List.mem_cons_of_mem _ member))
      (fun member => noNul (List.mem_cons_of_mem _ member)) more (i + 1) (room - 1)
      (fun x inside => by
        rw [Nat.add_assoc, Nat.add_comm 1]
        exact units (x + 1) (Nat.succ_lt_succ inside)) (by omega) (by omega)
    have room_ne : room ≠ 0 := by omega
    have one : 1 ≤ room := by omega
    have left_eq : more + 1 - (rest.length + 1) = more - rest.length := by omega
    have place : i + (rest.length + 1) = i + 1 + rest.length := by omega
    have room_eq : room - (rest.length + 1) = room - 1 - rest.length := by omega
    rw [List.length_cons, left_eq, place, room_eq]
    simp [wcstombsFrom, room_ne, first, unit, has, one, tail]

theorem wide_counted (counted : Counted mem s text) {x : ℕ} (inside : x < text.length) :
    mem.wide s.buffer x = .ok text[x].toUInt16 := by
  simp [Mem.wide, ptr_ok_iff.mpr (counted.low x inside), ptr_ok_iff.mpr (counted.high x inside)]

/-- The whole name is converted, and the conversion goes on behind it. -/
theorem wcstombs_counted (ascii : Ascii locale) (counted : Counted mem s text) (noNul : 0 ∉ text)
    (mbstr : CharArray MAX_PATH) :
    wcstombs locale mbstr (mem.wide s.buffer) s.length.toNat = (do
      mbstr.store (text ++ (← wcstombsFrom locale (mem.wide s.buffer) text.length text.length text.length))) := by
  have half : s.length.toNat - text.length = text.length := by
    have double := counted.length
    omega
  have whole := wcstombsFrom_text ascii (mem.wide s.buffer) counted.ascii noNul s.length.toNat 0 s.length.toNat
    (fun x inside => by rw [Nat.zero_add]; exact wide_counted counted inside)
    (by have double := counted.length; omega) (by have double := counted.length; omega)
  rw [half, Nat.zero_add] at whole
  rw [wcstombs, whole]
  simp

/-- An array that holds a name after a conversion shows that the conversion read
on behind the name: a name without characters leaves the array as it was. -/
theorem reads_behind (ascii : Ascii locale) (counted : Counted mem s text) {array : CharArray MAX_PATH}
    (ran : wcstombs locale (.filled _ 1) (mem.wide s.buffer) s.length.toNat = .ok array) {string : CString}
    (read : array.cstring = .ok string) (same : string.bytes = text) :
    ∃ byte, mem.byteAt (s.buffer + UInt32.ofNat s.length.toNat) = some byte := by
  have noNul : 0 ∉ text := same ▸ string.noNul
  rw [wcstombs_counted ascii counted noNul] at ran
  obtain ⟨more, converted, stored⟩ := bind_ok ran
  cases size : text.length with
  | zero =>
    have empty := List.length_eq_zero_iff.mp size
    rw [size] at converted
    cases converted
    rw [empty, List.append_nil, CharArray.store_fits _ (Nat.zero_le _), Except.ok.injEq] at stored
    subst stored
    simp [CharArray.cstring, CharArray.overlay, CharArray.filled] at read
  | succ k =>
    rw [size] at converted
    obtain ⟨unit, behind, _⟩ := bind_ok (show (mem.wide s.buffer (k + 1) >>= _) = Except.ok more from converted)
    obtain ⟨byte, low, _⟩ := bind_ok behind
    refine ⟨byte, ?_⟩
    rw [counted.length, size]
    exact ptr_ok_iff.mp low

/-- A name that its terminator follows, and that the array holds with it, is put
there. -/
theorem wcstombs_terminated (ascii : Ascii locale) (counted : Counted mem s text) (noNul : 0 ∉ text)
    (nonempty : text ≠ []) (short : text.length < MAX_PATH) (terminated : mem.wide s.buffer text.length = .ok 0)
    (mbstr : CharArray MAX_PATH) :
    ∃ array, wcstombs locale mbstr (mem.wide s.buffer) s.length.toNat = .ok array ∧
      array.cstring = .ok ⟨text, noNul⟩ := by
  have size : (CString.terminated ⟨text, noNul⟩).length ≤ MAX_PATH := by
    rw [CString.length_terminated]
    exact short
  obtain ⟨k, positive⟩ := Nat.exists_eq_add_one_of_ne_zero (List.length_pos_iff.mpr nonempty).ne'
  have ends : wcstombsFrom locale (mem.wide s.buffer) text.length text.length text.length = .ok [0] := by
    rw [positive] at terminated ⊢
    simp [wcstombsFrom, terminated]
  refine ⟨_, ?_, CharArray.cstring_overlay_terminated mbstr ⟨text, noNul⟩ size⟩
  rw [wcstombs_counted ascii counted noNul, ends]
  exact CharArray.store_fits mbstr size

/-! ## A notification -/

theorem converts_of_ok {call : Call C} {szPathA szNameA : CharArray MAX_PATH}
    (ran : ldrDllNotification n locale mem .loaded data szPathA szNameA = .ok (some call)) :
    wcstombs locale szPathA (mem.wide data.fullDllName.buffer) data.fullDllName.length.toNat = .ok call.path ∧
      wcstombs locale szNameA (mem.wide data.baseDllName.buffer) data.baseDllName.length.toNat = .ok call.name := by
  obtain ⟨path, first, ran⟩ := bind_ok ran
  obtain ⟨name, second, ran⟩ := bind_ok ran
  split at ran
  · cases ran
    exact ⟨first, second⟩
  · cases ran

theorem counted_of_agree {other : Mem} (counted : Counted mem s text)
    (agree : ∀ address, s.Holds address → other.byteAt address = mem.byteAt address) : Counted other s text where
  length := counted.length
  ascii := counted.ascii
  low := by
    intro i inside
    rw [agree _ ⟨2 * i, by have double := counted.length; omega, rfl⟩]
    exact counted.low i inside
  high := by
    intro i inside
    rw [agree _ ⟨2 * i + 1, by have double := counted.length; omega, rfl⟩]
    exact counted.high i inside

/-- The byte behind a name is not one of its own, and two names do not lie behind
each other. -/
theorem behind_not_held (s : UnicodeString) : ¬ s.Holds (s.buffer + UInt32.ofNat s.length.toNat) := by
  rintro ⟨x, inside, same⟩
  have value := congrArg UInt32.toNat same
  have small := s.length.toNat_lt
  simp only [UInt32.toNat_add, UInt32.toNat_ofNat'] at value
  omega

theorem behind_not_mutual {s t : UnicodeString} (held : s.Holds (t.buffer + UInt32.ofNat t.length.toNat)) :
    ¬ t.Holds (s.buffer + UInt32.ofNat s.length.toNat) := by
  obtain ⟨x, inside, same⟩ := held
  rintro ⟨y, inside', same'⟩
  have value := congrArg UInt32.toNat same
  have value' := congrArg UInt32.toNat same'
  have small := s.length.toNat_lt
  have small' := t.length.toNat_lt
  simp only [UInt32.toNat_add, UInt32.toNat_ofNat'] at value value'
  omega

/-- **Names.** No notification is exact: the conversion of one of the names reads
behind both, or fails to terminate an empty one. -/
theorem names_never_exact (n : Notify C) (ascii : Ascii locale) {path name : List UInt8}
    (full : Counted mem data.fullDllName path) (base : Counted mem data.baseDllName name) :
    ¬ Exact n locale mem data path name := by
  intro exact
  -- Only the counted bytes are left, and the result is to stay the same.
  let part := mem.without fun address =>
    ¬ (data.fullDllName.Holds address ∨ data.baseDllName.Holds address)
  have kept : ∀ address, data.fullDllName.Holds address ∨ data.baseDllName.Holds address →
      part.byteAt address = mem.byteAt address := fun _ held => mem.without_other (not_not_intro held)
  have gone : ∀ address byte, part.byteAt address = some byte →
      data.fullDllName.Holds address ∨ data.baseDllName.Holds address := by
    intro address byte present
    by_contra outside
    rw [mem.without_gone outside] at present
    cases present
  obtain ⟨call, pathText, nameText, ran, pathRead, pathSame, nameRead, nameSame⟩ :=
    exact.strings (.filled _ 1) (.filled _ 1)
  rw [← exact.contained part kept] at ran
  obtain ⟨first, second⟩ := converts_of_ok ran
  obtain ⟨byte, behind⟩ :=
    reads_behind ascii (counted_of_agree full fun a held => kept a (Or.inl held)) first pathRead pathSame
  obtain ⟨byte', behind'⟩ :=
    reads_behind ascii (counted_of_agree base fun a held => kept a (Or.inr held)) second nameRead nameSame
  rcases gone _ _ behind with own | other
  · exact behind_not_held _ own
  · rcases gone _ _ behind' with other' | own
    · exact behind_not_mutual other other'
    · exact behind_not_held _ own

/-- Names that are not empty, that a terminator follows and that the arrays have
room for reach the callback. -/
theorem terminated_names_arrive (ascii : Ascii locale) {path name : CString} {callback : C}
    (registered : n._callback = some callback) (full : Counted mem data.fullDllName path.bytes)
    (base : Counted mem data.baseDllName name.bytes) (nonempty : path.bytes ≠ [] ∧ name.bytes ≠ [])
    (short : path.length < MAX_PATH ∧ name.length < MAX_PATH)
    (terminated : mem.wide data.fullDllName.buffer path.length = .ok 0 ∧
      mem.wide data.baseDllName.buffer name.length = .ok 0) (szPathA szNameA : CharArray MAX_PATH) :
    ∃ call, ldrDllNotification n locale mem .loaded data szPathA szNameA = .ok (some call) ∧
      call.callback = callback ∧ call.base = data.dllBase ∧ call.path.cstring = .ok path ∧
      call.name.cstring = .ok name := by
  obtain ⟨pathArray, first, pathRead⟩ :=
    wcstombs_terminated ascii full path.noNul nonempty.1 short.1 terminated.1 szPathA
  obtain ⟨nameArray, second, nameRead⟩ :=
    wcstombs_terminated ascii base name.noNul nonempty.2 short.2 terminated.2 szNameA
  exact ⟨⟨callback, data.dllBase, nameArray, pathArray⟩,
    by simp [ldrDllNotification, first, second, registered], rfl, rfl, pathRead, nameRead⟩

/-- The name `a`, with other letters behind it. -/
def sampleMem : Mem where
  byteAt address :=
    match (address - 0x1000).toNat with
    | 0 => some 97
    | 2 => some 98
    | 4 => some 99
    | offset => if offset < 0x100 then some 0 else none

def sampleName : UnicodeString := ⟨2, 0x1000⟩

def sampleData : LoadedNotificationData := ⟨sampleName, sampleName, 0x10000⟩

/-- A process with a callback registered. -/
def sampleNotify : Notify Unit := ⟨some (), 1, true⟩

/-- The units below 128 and no others. -/
def asciiLocale : CodePage := fun unit => if unit < 128 then some [unit.toUInt8] else none

theorem asciiLocale_ascii : Ascii asciiLocale := by
  intro unit _ small
  simp [asciiLocale, small]

theorem sample_counted : Counted sampleMem sampleName [97] where
  length := rfl
  ascii := by simp
  low := by decide
  high := by decide

theorem names_never_exact_sample : ¬ Exact sampleNotify asciiLocale sampleMem sampleData [97] [97] :=
  names_never_exact sampleNotify asciiLocale_ascii sample_counted sample_counted

/-- The two bytes that the name counts are two characters of room, so the path
becomes `ab`, without a terminator. -/
theorem counted_name_not_terminated : ¬ ∀ (n : Notify Unit) locale mem data path name, Ascii locale →
    Counted mem data.fullDllName path → Counted mem data.baseDllName name →
      Exact n locale mem data path name := by
  intro all
  obtain ⟨call, pathText, _, ran, pathRead, _⟩ := (all sampleNotify asciiLocale sampleMem sampleData [97] [97]
    asciiLocale_ascii sample_counted sample_counted).strings (.filled _ 1) (.filled _ 1)
  have first := (converts_of_ok ran).1
  have units : wcstombsFrom asciiLocale (sampleMem.wide 0x1000) 2 0 2 = .ok [97, 98] := by decide
  rw [wcstombs] at first
  change (wcstombsFrom asciiLocale (sampleMem.wide 0x1000) 2 0 2 >>= _) = _ at first
  rw [units, ok_bind, CharArray.store_fits _ (by decide), Except.ok.injEq] at first
  rw [← first] at pathRead
  simp [CharArray.cstring, CharArray.overlay, CharArray.filled] at pathRead

end ClrDumper.ModuleNames
