import ClrDumper.HookClr
import ClrDumper.ScriptDump

/-! `Source.cpp` of the launcher: how `main` turns its two arguments into what it
starts. The first selects a hook type. The second is the program to start, or a
script if the mode is one for scripts and the argument does not end in `.exe`;
then the host of the scripts is started with a command line. -/
namespace ClrDumper.Launcher
open Execution CStrings CString HookClr
open ScriptDump (MAX_PATH)

/-- Lower case of the letters of ASCII. -/
def asciiLower (byte : UInt8) : UInt8 := if 65 ≤ byte ∧ byte ≤ 90 then byte + 32 else byte

/-- What `main` asks Windows for: the directory of `GetSystemDirectoryA`, and the
lower case of a byte that `CharLowerA` knows from the code page. A path has no
quotes, and beyond ASCII no code page maps into it. -/
structure Environment where
  systemDirectory : CString
  noQuote : 34 ∉ systemDirectory.bytes
  charLower : UInt8 → UInt8
  charLower_ascii : ∀ byte < 128, charLower byte = asciiLower byte
  charLower_beyond : ∀ byte, 128 ≤ byte → 128 ≤ charLower byte

/-- `_intKeyMap[HOOK_TYPE]` after the comparisons with `argv[1]`, if one fits. -/
def hookTypeOf (argv1 : CString) : Option ℤ :=
  if lstrcmpA argv1 (.literal "-asmload") = false then some ASM_LOAD_ARG
  else if lstrcmpA argv1 (.literal "-nativeclr") = false then some NATIVE_CLR_ARG
  else if lstrcmpA argv1 (.literal "-vbscript") = false then some VBSCRIPT_ARG
  else if lstrcmpA argv1 (.literal "-jscript") = false then some JSCRIPT_ARG
  else if lstrcmpA argv1 (.literal "-powershell") = false then some POWERSHELL_ARG
  else none

/-- The modes in which a script can be given. -/
def ScriptMode (hookType : ℤ) : Prop :=
  hookType = VBSCRIPT_ARG ∨ hookType = JSCRIPT_ARG ∨ hookType = POWERSHELL_ARG

instance (hookType : ℤ) : Decidable (ScriptMode hookType) := inferInstanceAs (Decidable (_ ∨ _))

/-- A hook type that `main` accepts selects a namespace of the DLL, one for scripts
exactly in those modes. -/
theorem hookTypeOf_selects {argv1 : CString} {hookType : ℤ} (accepted : hookTypeOf argv1 = some hookType) :
    ∃ ns, selected hookType = some ns ∧ (ScriptMode hookType ↔ ns = .vbScript ∨ ns = .jScript ∨ ns = .powershell) := by
  unfold hookTypeOf at accepted
  split_ifs at accepted
  all_goals
    rw [Option.some.injEq] at accepted
    subst accepted
    exact ⟨_, rfl, by decide⟩

/-- What the arrays of `main` hold before anything is stored in them. -/
structure Locals where
  pefile : CharArray MAX_PATH
  buff : CharArray MAX_PATH
  script_path : CharArray MAX_PATH

/-- What is passed to `CreateProcessA`: `pefile`, and `isScript ? script_path : NULL`. -/
structure Target where
  isScript : Bool
  pefile : CString
  script_path : Option CString

/-- A program that runs scripts, below the system directory, and what stands
between it and the script in its command line. -/
structure ScriptHost where
  program : CString
  switches : CString

def wscript : ScriptHost := ⟨.literal "\\wscript.exe", .literal " "⟩

def powershell : ScriptHost :=
  ⟨.literal "\\WindowsPowerShell\\v1.0\\powershell.exe", .literal " -ExecutionPolicy bypass -File "⟩

def hostOf (hookType : ℤ) : ScriptHost := if hookType ≠ POWERSHELL_ARG then wscript else powershell

/-- The block that is entered for a script. -/
def scriptTarget (env : Environment) (hookType : ℤ) (argv2 : CString) (locals : Locals) : Exec Target := do
  let host := hostOf hookType
  let buff ← locals.buff.copy env.systemDirectory
  let buff ← buff.concat host.program
  let pefile ← locals.pefile.copy (← buff.cstring)
  let pefile ← pefile.cstring
  let script_path ← locals.script_path.copy (pefile ++ host.switches ++ argv2)
  return ⟨true, pefile, some (← script_path.cstring)⟩

variable {n : ℕ}

/-- `CharLowerA` of the string `x` bytes into an array, in place. -/
def charLowerA (env : Environment) (array : CharArray n) (x : ℕ) : Exec (CharArray n) := do
  let text ← array.stringAt x
  array.storeAt x (text.bytes.map env.charLower)

/-- `main`, from `lstrcpyA(pefile, argv[2])` on up to the named pipe. -/
def chooseTarget (env : Environment) (hookType : ℤ) (argv2 : CString) (locals : Locals) : Exec Target := do
  let pefile ← locals.pefile.copy argv2
  let length := (← pefile.cstring).length
  -- `&pefile[lstrlenA(pefile) - 4]` lies before the array.
  if length < 4 then .error .access
  else do
    let pefile ← charLowerA env pefile (length - 4)
    let ext ← pefile.stringAt (length - 4)
    if ScriptMode hookType ∧ lstrcmpA ext (.literal ".exe") then
      scriptTarget env hookType argv2 { locals with pefile }
    else
      let pefile ← pefile.cstring
      return ⟨false, pefile, none⟩

/-! ## The command line -/

/-- The path of the host. -/
def hostPath (env : Environment) (hookType : ℤ) : CString := env.systemDirectory ++ (hostOf hookType).program

/-- The command line for a script. -/
def commandLine (env : Environment) (hookType : ℤ) (argv2 : CString) : CString :=
  hostPath env hookType ++ (hostOf hookType).switches ++ argv2

/-- What a command line needs besides the system directory and the script. -/
def overhead (hookType : ℤ) : ℕ := if hookType ≠ POWERSHELL_ARG then 13 else 69

theorem commandLine_length (env : Environment) (hookType : ℤ) (argv2 : CString) :
    (commandLine env hookType argv2).length = env.systemDirectory.length + overhead hookType + argv2.length := by
  have parts : (hostOf hookType).program.length + (hostOf hookType).switches.length = overhead hookType := by
    by_cases script : hookType = POWERSHELL_ARG
    · subst script
      decide
    · rw [hostOf, overhead, if_pos script, if_pos script]
      decide
  simp only [commandLine, hostPath, CString.length_append]
  omega

variable {env : Environment} {hookType : ℤ} {argv2 : CString} {locals : Locals} {target : Target}

/-- A script is started if its command line fits. -/
theorem scriptTarget_fits (fits : (commandLine env hookType argv2).length < MAX_PATH) :
    scriptTarget env hookType argv2 locals =
      .ok ⟨true, hostPath env hookType, some (commandLine env hookType argv2)⟩ := by
  have path : (hostPath env hookType).length < MAX_PATH := by
    rw [commandLine, CString.length_append, CString.length_append] at fits
    omega
  have directory : env.systemDirectory.length < MAX_PATH := by
    rw [hostPath, CString.length_append] at path
    omega
  obtain ⟨buff, copied, text⟩ := locals.buff.copy_fits directory
  obtain ⟨whole, joined, text'⟩ := buff.copy_fits path
  obtain ⟨pefile, stored, program⟩ := locals.pefile.copy_fits path
  obtain ⟨line, printed, result⟩ := locals.script_path.copy_fits fits
  unfold hostPath at joined
  unfold commandLine at printed
  rw [scriptTarget, copied, ok_bind, CharArray.concat_eq_copy text, joined, ok_bind, text', ok_bind, stored, ok_bind,
    program, ok_bind, printed, ok_bind, result, ok_bind]
  rfl

theorem fits_of_scriptTarget (ran : scriptTarget env hookType argv2 locals = .ok target) :
    (commandLine env hookType argv2).length < MAX_PATH := by
  unfold scriptTarget at ran
  obtain ⟨buff, copied, ran⟩ := bind_ok ran
  obtain ⟨whole, joined, ran⟩ := bind_ok ran
  rw [CharArray.concat_eq_copy (CharArray.copy_ok copied).2] at joined
  rw [(CharArray.copy_ok joined).2, ok_bind] at ran
  obtain ⟨pefile, stored, ran⟩ := bind_ok ran
  rw [(CharArray.copy_ok stored).2, ok_bind] at ran
  obtain ⟨line, printed, _⟩ := bind_ok ran
  exact (CharArray.copy_ok printed).1

/-! ## The kind of target -/

/-- The argument ends in `.exe`, in whatever case of its letters. -/
def EndsInExe (argv2 : CString) : Prop := (CString.literal ".exe").bytes <:+ argv2.bytes.map asciiLower

theorem asciiLower_beyond {byte : UInt8} (beyond : 128 ≤ byte) : asciiLower byte = byte := by
  apply if_neg
  rintro ⟨_, upper⟩
  rw [UInt8.le_iff_toNat_le] at beyond upper
  exact absurd (Nat.le_trans beyond upper) (by decide)

/-- Where the result is ASCII, a byte is lowered as ASCII is. -/
theorem charLower_eq_iff (env : Environment) {byte c : UInt8} (ascii : c < 128) :
    env.charLower byte = c ↔ asciiLower byte = c := by
  by_cases small : byte < 128
  · rw [env.charLower_ascii byte small]
  · have large := UInt8.not_lt.mp small
    have lowered := env.charLower_beyond byte large
    rw [asciiLower_beyond large]
    constructor
    · rintro rfl
      exact absurd ascii (UInt8.not_lt.mpr lowered)
    · rintro rfl
      exact absurd ascii small

theorem asciiLower_eq_zero {byte : UInt8} : asciiLower byte = 0 ↔ byte = 0 := by
  unfold asciiLower
  split
  · rename_i upper
    simp only [UInt8.le_iff_toNat_le] at upper
    rw [← UInt8.toNat_inj, ← UInt8.toNat_inj, UInt8.toNat_add]
    simp at upper ⊢
    omega
  · rfl

theorem map_charLower_eq_iff (env : Environment) (bytes text : List UInt8) (ascii : ∀ c ∈ text, c < 128) :
    bytes.map env.charLower = text ↔ bytes.map asciiLower = text := by
  induction bytes generalizing text with
  | nil => rfl
  | cons first rest ih =>
    cases text with
    | nil => simp
    | cons c more =>
      rw [List.map_cons, List.map_cons, List.cons.injEq, List.cons.injEq,
        charLower_eq_iff env (ascii c List.mem_cons_self), ih more fun c member => ascii c (List.mem_cons_of_mem _ member)]

/-- A string in lower case. -/
def lower (env : Environment) (s : CString) : CString where
  bytes := s.bytes.map env.charLower
  noNul member := by
    obtain ⟨byte, inside, zero⟩ := List.mem_map.mp member
    rw [charLower_eq_iff env (by decide), asciiLower_eq_zero] at zero
    exact s.noNul (zero ▸ inside)

/-- The last four bytes in lower case are `.exe` for such an argument only. -/
theorem ext_eq_iff (env : Environment) (argv2 : CString) :
    lower env (argv2.drop (argv2.length - 4)) = .literal ".exe" ↔ EndsInExe argv2 := by
  have all : ((CString.literal ".exe").bytes.all fun c => decide (c < 128)) = true := by decide
  have ascii : ∀ c ∈ (CString.literal ".exe").bytes, c < 128 :=
    fun c member => of_decide_eq_true (List.all_eq_true.mp all c member)
  have size : (CString.literal ".exe").bytes.length = 4 := by decide
  have last : (argv2.drop (argv2.length - 4)).bytes.map asciiLower =
      (argv2.bytes.map asciiLower).drop ((argv2.bytes.map asciiLower).length - 4) := by
    rw [List.length_map, ← List.map_drop]
    rfl
  rw [EndsInExe, List.suffix_iff_eq_drop, size, ← last, CString.ext_iff, lower, map_charLower_eq_iff env _ _ ascii]
  exact eq_comm

/-- The string in the array after its end was lowered. -/
theorem charLowerA_ok (env : Environment) {array : CharArray n} {s : CString} {x : ℕ} (holds : array.cstring = .ok s)
    (inside : x ≤ s.length) :
    ∃ lowered, charLowerA env array x = .ok lowered ∧ lowered.cstring = .ok (s.take x ++ lower env (s.drop x)) ∧
      lowered.stringAt x = .ok (lower env (s.drop x)) := by
  obtain ⟨rest, bytes⟩ := CharArray.cstring_ok_iff.mp holds
  have size := array.size
  rw [bytes, List.length_append, List.length_cons] at size
  unfold CString.length at inside
  have length : ((s.drop x).bytes.map env.charLower).length = s.bytes.length - x := by
    rw [List.length_map]
    exact List.length_drop
  have fits : x + ((s.drop x).bytes.map env.charLower).length ≤ n := by omega
  have front : array.bytes.take x = (s.take x).bytes := by
    rw [bytes, List.take_append_of_le_length inside]
    rfl
  have back : array.bytes.drop (x + ((s.drop x).bytes.map env.charLower).length) = 0 :: rest := by
    rw [bytes, length, Nat.add_sub_cancel' inside, List.drop_left]
  obtain ⟨lowered, stored, result⟩ : ∃ lowered, array.storeAt x ((s.drop x).bytes.map env.charLower) = .ok lowered ∧
      lowered.bytes = (s.take x ++ lower env (s.drop x)).bytes ++ 0 :: rest := by
    refine ⟨_, dif_pos fits, ?_⟩
    dsimp only
    rw [front, back]
    rfl
  have text : lowered.cstring = .ok (s.take x ++ lower env (s.drop x)) := CharArray.cstring_ok_iff.mpr ⟨rest, result⟩
  have start : (s.take x).bytes.length = x := List.length_take_of_le inside
  refine ⟨lowered, by rw [charLowerA, CharArray.stringAt_ok holds inside, ok_bind, stored], text, ?_⟩
  rw [CharArray.stringAt_ok text (by rw [CString.length_append, CString.length, start]; omega)]
  congr 1
  ext1
  exact List.drop_left' start

/-- What is chosen for an argument of at least four bytes: itself, its end in
lower case, if it ends in `.exe` or the mode is not one for scripts. -/
theorem chooseTarget_long (env : Environment) (hookType : ℤ) (locals : Locals) (long : 4 ≤ argv2.length)
    (short : argv2.length < MAX_PATH) :
    (ScriptMode hookType ∧ ¬ EndsInExe argv2 ∧ ∃ locals', chooseTarget env hookType argv2 locals =
        scriptTarget env hookType argv2 locals') ∨
      (¬ (ScriptMode hookType ∧ ¬ EndsInExe argv2) ∧ chooseTarget env hookType argv2 locals =
        .ok ⟨false, argv2.take (argv2.length - 4) ++ lower env (argv2.drop (argv2.length - 4)), none⟩) := by
  obtain ⟨pefile, copied, text⟩ := locals.pefile.copy_fits short
  obtain ⟨lowered, ran, whole, ext⟩ := charLowerA_ok env text (Nat.sub_le argv2.length 4)
  have differs : lstrcmpA (lower env (argv2.drop (argv2.length - 4))) (.literal ".exe") = true ↔ ¬ EndsInExe argv2 := by
    rw [lstrcmpA, decide_eq_true_iff, ← ext_eq_iff env]
  have start : chooseTarget env hookType argv2 locals =
      if ScriptMode hookType ∧ lstrcmpA (lower env (argv2.drop (argv2.length - 4))) (.literal ".exe") then
        scriptTarget env hookType argv2 { locals with pefile := lowered }
      else .ok ⟨false, argv2.take (argv2.length - 4) ++ lower env (argv2.drop (argv2.length - 4)), none⟩ := by
    rw [chooseTarget, copied, ok_bind, text, ok_bind, if_neg (Nat.not_lt.mpr long), ran, ok_bind, ext, ok_bind, whole]
    rfl
  by_cases script : ScriptMode hookType ∧ ¬ EndsInExe argv2
  · left
    rw [start, if_pos (by rwa [differs])]
    exact ⟨script.1, script.2, _, rfl⟩
  · right
    rw [start, if_neg (by rwa [differs])]
    exact ⟨script, rfl⟩

/-- A shorter argument makes `main` leave `pefile`. -/
theorem chooseTarget_short (small : argv2.length < 4) :
    chooseTarget env hookType argv2 locals = .error .access := by
  have short : argv2.length < MAX_PATH := Nat.lt_trans small (by decide)
  obtain ⟨pefile, copied, text⟩ := locals.pefile.copy_fits short
  rw [chooseTarget, copied, ok_bind, text, ok_bind, if_pos small]

/-- `main` stays inside its arrays, takes the argument for a program exactly if it
ends in `.exe`, and otherwise makes the command line for it. -/
def Classifies (env : Environment) (hookType : ℤ) (argv2 : CString) : Prop :=
  ∀ locals, ∃ target, chooseTarget env hookType argv2 locals = .ok target ∧
    (target.isScript = false ↔ EndsInExe argv2) ∧
    (target.isScript = true → target.script_path = some (commandLine env hookType argv2) ∧
      (commandLine env hookType argv2).length + 1 ≤ MAX_PATH)

/-- **The choice of the target.** In a script mode `main` does that exactly for an
argument of four bytes or more that ends in `.exe` or leaves room for the rest of
the command line. -/
theorem classifies_iff (env : Environment) (hookType : ℤ) (argv2 : CString) (script : ScriptMode hookType)
    (short : argv2.length < MAX_PATH) :
    Classifies env hookType argv2 ↔ 4 ≤ argv2.length ∧
      (EndsInExe argv2 ∨ env.systemDirectory.length + overhead hookType + argv2.length < MAX_PATH) := by
  rw [← commandLine_length]
  constructor
  · intro classifies
    obtain ⟨target, ran, program, _⟩ := classifies ⟨.filled _ 1, .filled _ 1, .filled _ 1⟩
    by_cases long : 4 ≤ argv2.length
    · refine ⟨long, ?_⟩
      rcases chooseTarget_long env hookType _ long short with ⟨_, _, locals', same⟩ | ⟨notScript, _⟩
      · rw [same] at ran
        exact Or.inr (fits_of_scriptTarget ran)
      · left
        by_contra notExe
        exact notScript ⟨script, notExe⟩
    · rw [chooseTarget_short (Nat.lt_of_not_le long)] at ran
      cases ran
  · rintro ⟨long, fits⟩ locals
    rcases chooseTarget_long env hookType locals long short with ⟨_, notExe, locals', same⟩ | ⟨notScript, ran⟩
    · have room := fits.resolve_left notExe
      rw [same, scriptTarget_fits room]
      exact ⟨_, rfl, by simp [notExe], fun _ => ⟨rfl, room⟩⟩
    · have exe : EndsInExe argv2 := by
        by_contra notExe
        exact notScript ⟨script, notExe⟩
      exact ⟨_, ran, by simp [exe], fun isScript => absurd isScript Bool.false_ne_true⟩

/-- Windows in its usual place, with the code page of ASCII. -/
def usualEnvironment : Environment where
  systemDirectory := .literal "C:\\Windows\\system32"
  noQuote := by decide
  charLower := asciiLower
  charLower_ascii _ _ := rfl
  charLower_beyond byte beyond := by rwa [asciiLower_beyond beyond]

theorem classifies_iff_sample :
    Classifies usualEnvironment VBSCRIPT_ARG (.literal "C:\\samples\\a.vbs") ↔
      4 ≤ (CString.literal "C:\\samples\\a.vbs").length ∧
        (EndsInExe (.literal "C:\\samples\\a.vbs") ∨ usualEnvironment.systemDirectory.length +
          overhead VBSCRIPT_ARG + (CString.literal "C:\\samples\\a.vbs").length < MAX_PATH) :=
  classifies_iff usualEnvironment VBSCRIPT_ARG (.literal "C:\\samples\\a.vbs") (Or.inl rfl) (by decide)

/-- For the argument `run` the suffix test starts before the array. -/
theorem short_argument_leaves_pefile : ¬ ∀ env hookType argv2, ScriptMode hookType → 1 ≤ argv2.length →
    argv2.length < MAX_PATH → env.systemDirectory.length ≤ 32 → Classifies env hookType argv2 := by
  intro all
  obtain ⟨target, ran, _⟩ := all usualEnvironment VBSCRIPT_ARG (.literal "run") (Or.inl rfl) (by decide) (by decide)
    (by decide) ⟨.filled _ 1, .filled _ 1, .filled _ 1⟩
  rw [chooseTarget_short (by decide)] at ran
  cases ran

end ClrDumper.Launcher
