import ClrDumper.CommandLines
import ClrDumper.Launcher

/-! What the started host reads from the command line that `main` makes for a
script. The templates put the path of the host and the script into it without
quotes, so both come back as arguments exactly if neither contains a blank. -/
namespace ClrDumper.ScriptArguments
open Execution CStrings CommandLines Launcher
open HookClr (POWERSHELL_ARG VBSCRIPT_ARG)
open ScriptDump (MAX_PATH)

/-- The first argument of the command line is the host, and the last one the
script. -/
def PreservesArgument (target : Target) (argv2 : CString) : Prop :=
  ∃ line middle, target.script_path = some line ∧
    splitArguments line.bytes = target.pefile.bytes :: (middle ++ [argv2.bytes])

/-- No byte is a blank. -/
def NoBlank (s : CString) : Prop := ∀ byte ∈ s.bytes, isBlank byte = false

/-- The words between the host and the script. -/
def switchWords (hookType : ℤ) : List (List UInt8) :=
  if hookType ≠ POWERSHELL_ARG then []
  else [(CString.literal "-ExecutionPolicy").bytes, (CString.literal "bypass").bytes, (CString.literal "-File").bytes]

variable {env : Environment} {hookType : ℤ} {argv2 : CString}

theorem switches_words (hookType : ℤ) (argv2 : CString) :
    (hostOf hookType).switches.bytes ++ argv2.bytes = 32 :: unwords (switchWords hookType ++ [argv2.bytes]) := by
  by_cases script : hookType = POWERSHELL_ARG
  · subst script
    have switches : powershell.switches.bytes = 32 :: ((CString.literal "-ExecutionPolicy").bytes ++
        32 :: ((CString.literal "bypass").bytes ++ 32 :: ((CString.literal "-File").bytes ++ [32]))) := by decide
    simp [hostOf, switchWords, switches, unwords]
  · have switches : wscript.switches.bytes = [32] := by decide
    simp [hostOf, switchWords, script, switches, unwords]

/-- The command line as a program name and words. -/
theorem commandLine_words (env : Environment) (hookType : ℤ) (argv2 : CString) :
    (commandLine env hookType argv2).bytes =
      (hostPath env hookType).bytes ++ 32 :: unwords (switchWords hookType ++ [argv2.bytes]) := by
  rw [← switches_words, commandLine, CString.bytes_append, CString.bytes_append, List.append_assoc]

theorem program_ordinary (hookType : ℤ) : ∀ byte ∈ (hostOf hookType).program.bytes, Ordinary byte := by
  apply ordinary_of_all
  by_cases script : hookType = POWERSHELL_ARG
  · subst script
    decide
  · rw [hostOf, if_pos script]
    decide

theorem switchWords_words (hookType : ℤ) : ∀ word ∈ switchWords hookType, Word word := by
  by_cases script : hookType = POWERSHELL_ARG
  · subst script
    intro word member
    rw [switchWords, if_neg (fun differs => differs rfl), List.mem_cons, List.mem_cons, List.mem_singleton] at member
    rcases member with rfl | rfl | rfl
    · exact ⟨by decide, ordinary_of_all (by decide)⟩
    · exact ⟨by decide, ordinary_of_all (by decide)⟩
    · exact ⟨by decide, ordinary_of_all (by decide)⟩
  · rw [switchWords, if_pos script]
    exact fun word member => absurd member List.not_mem_nil

/-- The path of the host has a blank where the system directory has one. -/
theorem hostPath_noBlank_iff : NoBlank (hostPath env hookType) ↔ NoBlank env.systemDirectory := by
  constructor
  · intro whole byte member
    apply whole byte
    exact List.mem_append_left _ member
  · intro directory byte member
    rcases List.mem_append.mp member with front | back
    · exact directory byte front
    · exact (program_ordinary hookType byte back).1

theorem hostPath_noQuote : QUOTE ∉ (hostPath env hookType).bytes := by
  intro member
  rcases List.mem_append.mp member with front | back
  · exact env.noQuote front
  · exact (program_ordinary hookType QUOTE back).2 rfl

theorem switches_noQuote (hookType : ℤ) : QUOTE ∉ (hostOf hookType).switches.bytes := by
  by_cases script : hookType = POWERSHELL_ARG
  · subst script
    decide
  · rw [hostOf, if_pos script]
    decide

theorem commandLine_noQuote (env : Environment) (hookType : ℤ) (noQuote : QUOTE ∉ argv2.bytes) :
    QUOTE ∉ (commandLine env hookType argv2).bytes := by
  intro member
  rcases List.mem_append.mp member with front | back
  · rcases List.mem_append.mp front with path | switches
    · exact hostPath_noQuote path
    · exact switches_noQuote hookType switches
  · exact noQuote back

/-- Without blanks, the command line is split into what it was made of. -/
theorem split_commandLine (nonempty : argv2.bytes ≠ []) (noQuote : QUOTE ∉ argv2.bytes) (script : NoBlank argv2)
    (directory : NoBlank env.systemDirectory) :
    splitArguments (commandLine env hookType argv2).bytes =
      (hostPath env hookType).bytes :: (switchWords hookType ++ [argv2.bytes]) := by
  rw [commandLine_words]
  apply splitArguments_unwords
  · intro byte member
    refine ⟨hostPath_noBlank_iff.mpr directory byte member, ?_⟩
    rintro rfl
    exact hostPath_noQuote member
  · intro word member
    rcases List.mem_append.mp member with switch | last
    · exact switchWords_words hookType word switch
    · rw [List.mem_singleton.mp last]
      refine ⟨nonempty, fun byte inside => ⟨script byte inside, ?_⟩⟩
      rintro rfl
      exact noQuote inside

/-- **The script as an argument.** For every script without quotes whose command
line fits, the host gets its own path first and the script last exactly if the
script and the system directory have no blanks. -/
theorem preservesArgument_iff (env : Environment) (hookType : ℤ) (argv2 : CString) (locals : Locals)
    (nonempty : argv2.bytes ≠ []) (noQuote : QUOTE ∉ argv2.bytes)
    (fits : (commandLine env hookType argv2).length < MAX_PATH) :
    ∃ target, scriptTarget env hookType argv2 locals = .ok target ∧
      (PreservesArgument target argv2 ↔ NoBlank argv2 ∧ NoBlank env.systemDirectory) := by
  refine ⟨_, scriptTarget_fits fits, ?_⟩
  constructor
  · rintro ⟨line, middle, same, arguments⟩
    cases same
    have blankless := splitArguments_blankless (commandLine_noQuote env hookType noQuote)
    rw [arguments] at blankless
    refine ⟨blankless argv2.bytes (by simp), ?_⟩
    exact hostPath_noBlank_iff.mp (blankless (hostPath env hookType).bytes List.mem_cons_self)
  · rintro ⟨script, directory⟩
    exact ⟨_, switchWords hookType, rfl, split_commandLine nonempty noQuote script directory⟩

/-- `C:\\my scripts\\a.vbs`. -/
def scriptInFolder : CString := .literal "C:\\my scripts\\a.vbs"

theorem preservesArgument_iff_sample :
    ∃ target, scriptTarget usualEnvironment VBSCRIPT_ARG scriptInFolder
        ⟨.filled _ 1, .filled _ 1, .filled _ 1⟩ = .ok target ∧
      (PreservesArgument target scriptInFolder ↔
        NoBlank scriptInFolder ∧ NoBlank usualEnvironment.systemDirectory) :=
  preservesArgument_iff usualEnvironment VBSCRIPT_ARG scriptInFolder _ (by decide) (by decide) (by decide)

/-- It reaches the host as `C:\\my` and `scripts\\a.vbs`. -/
theorem blank_splits_script : ¬ ∀ env hookType argv2 locals target, argv2.bytes ≠ [] → QUOTE ∉ argv2.bytes →
    scriptTarget env hookType argv2 locals = .ok target → PreservesArgument target argv2 := by
  intro all
  have fits : (commandLine usualEnvironment VBSCRIPT_ARG scriptInFolder).length < MAX_PATH := by decide
  obtain ⟨line, middle, same, arguments⟩ := all _ _ scriptInFolder ⟨.filled _ 1, .filled _ 1, .filled _ 1⟩ _
    (by decide) (by decide) (scriptTarget_fits fits)
  cases same
  have split : splitArguments (commandLine usualEnvironment VBSCRIPT_ARG scriptInFolder).bytes =
      [(hostPath usualEnvironment VBSCRIPT_ARG).bytes, (CString.literal "C:\\my").bytes,
        (CString.literal "scripts\\a.vbs").bytes] := by decide
  rw [split, List.cons.injEq] at arguments
  have last := congrArg List.getLast? arguments.2
  rw [List.getLast?_concat] at last
  exact absurd last (by decide)

end ClrDumper.ScriptArguments
