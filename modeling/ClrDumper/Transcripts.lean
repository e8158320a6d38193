import ClrDumper.HookLog
import ClrDumper.UnhookTargets

/-! The console of the launcher over the whole life of the hook DLL. In every
interleaving of the two processes the DLL does what it does without its log, and
the console shows one line for each thing that it reports: a hook is announced
exactly if it is in place. -/
namespace ClrDumper.Transcripts
open Execution CStrings CString Memory MinHook DllLoadCallback HookClr HookClrProofs NamedPipeIO NamedPipeLoop
open RequestCoding DumpPaths ClientPrograms HookLog
open Dialogs (Program Service After cost)
open ScriptDump (MAX_PATH)
open UnhookTargets (prepared prepared_installed attach_script)

/-- A line that begins with a bracket and fits into the buffer of `SendLog`. -/
def Loggable (line : CString) : Prop := line.bytes.head? = some 91 ∧ line.length + 2 ≤ MAX_BUFFER

instance (line : CString) : Decidable (Loggable line) := inferInstanceAs (Decidable (_ ∧ _))

/-- With the tables of a server, a routine ends after some questions, with a result
or a fault, and the console shows some more lines. -/
structure Ends (server : Server) {α : Type} (routine : Routine α) (outcome : Exec α) (lines : List CString)
    (asked : ℕ) : Prop where
  run : ∀ log, Program.run (service server) routine.run log = (outcome, log ++ lines)
  carried : ∀ log, ∀ item ∈ Program.sent (service server) routine.run log, Carried server item
  cost : ∀ log, cost (Program.sent (service server) routine.run log) = 2 * lines.length + 3 * asked

/-- It gives a result. -/
abbrev Runs (server : Server) {α : Type} (routine : Routine α) (result : α) (lines : List CString) (asked : ℕ) : Prop :=
  Ends server routine (.ok result) lines asked

variable {server : Server} {α β : Type} {stack : Stack} {layout : Layout}

theorem runs_pure (value : α) : Runs server (pure value) value [] 0 where
  run log := by simp [ExceptT.run_pure]
  carried log := by simp [ExceptT.run_pure]
  cost log := by simp [ExceptT.run_pure, Dialogs.cost]

/-- One routine and then another. -/
theorem runs_andThen {first : Routine α} {rest : α → Routine β} {a : α} {outcome : Exec β}
    {lines more : List CString} {asked later : ℕ} (ran : Runs server first a lines asked)
    (next : Ends server (rest a) outcome more later) :
    Ends server (first >>= rest) outcome (lines ++ more) (later + asked) where
  run log := by
    rw [ExceptT.run_bind, Dialogs.Program.run_bind, ran.run log]
    exact (next.run _).trans (by rw [List.append_assoc])
  carried log item member := by
    rw [ExceptT.run_bind, Dialogs.Program.sent_bind, ran.run log, List.mem_append] at member
    rcases member with early | late
    · exact ran.carried log item early
    · exact next.carried _ item late
  cost log := by
    rw [ExceptT.run_bind, Dialogs.Program.sent_bind, ran.run log, Dialogs.cost_append, ran.cost log, List.length_append]
    have after := next.cost (log ++ lines)
    dsimp only at after ⊢
    omega

/-- The second asks nothing. -/
theorem runs_bind {first : Routine α} {rest : α → Routine β} {a : α} {outcome : Exec β} {lines more : List CString}
    {asked : ℕ} (ran : Runs server first a lines asked) (next : Ends server (rest a) outcome more 0) :
    Ends server (first >>= rest) outcome (lines ++ more) asked := by
  have both := runs_andThen ran next
  rw [Nat.zero_add] at both
  exact both

/-- A fault is the end of it. -/
theorem faults_bind {first : Routine α} {rest : α → Routine β} {fault : Fault} {lines : List CString} {asked : ℕ}
    (ends : Ends server first (.error fault) lines asked) : Ends server (first >>= rest) (.error fault) lines asked where
  run log := by
    rw [ExceptT.run_bind, Dialogs.Program.run_bind, ends.run log]
    rfl
  carried log item member := by
    rw [ExceptT.run_bind, Dialogs.Program.sent_bind, ends.run log, List.mem_append] at member
    rcases member with early | late
    · exact ends.carried log item early
    · exact absurd late List.not_mem_nil
  cost log := by
    rw [ExceptT.run_bind, Dialogs.Program.sent_bind, ends.run log]
    exact (congrArg cost (List.append_nil _)).trans (ends.cost log)

theorem ends_lift (ran : Exec α) : Ends server (Routine.lift ran) ran [] 0 where
  run log := congrArg (Prod.mk ran) (List.append_nil log).symm
  carried _ _ member := absurd member List.not_mem_nil
  cost _ := rfl

theorem runs_lift {ran : Exec α} {a : α} (gives : ran = .ok a) : Runs server (Routine.lift ran) a [] 0 := by
  subst gives
  exact ends_lift (.ok a)

theorem readable_of_bracket {text : CString} (bracket : text.bytes.head? = some 91) : Readable text := by
  obtain ⟨rest, spelled⟩ := List.head?_eq_some_iff.mp bracket
  exact ⟨91, rest, spelled, by decide, by decide⟩

variable (server stack) in
theorem runs_log {line : CString} (loggable : Loggable line) : Runs server (log stack line) () [firstLine line] 0 := by
  have small : line.length < 256 := by
    have room := loggable.2
    unfold MAX_BUFFER at room
    omega
  have formatted : log stack line = ExceptT.lift (.tell line (.done ())) := by
    rw [log, formatLine_fits stack.log small]
    rfl
  rw [formatted]
  constructor
  · exact fun log => rfl
  · intro log item member
    obtain rfl := List.mem_singleton.mp member
    exact ⟨readable_of_bracket loggable.1, loggable.2⟩
  · exact fun log => rfl

/-- The value of a key, for `GetString`. -/
theorem runs_getString {key : CString} (plain : RequestDelivery.Plain key)
    (room : (server.stringKeyMap.lookup CString.empty key).length < MAX_PATH) :
    Runs server (getString key stack) (server.stringKeyMap.lookup CString.empty key) [] 1 := by
  have whole := (firstLine_eq_iff key).mpr plain.line
  constructor
  · intro log
    rw [List.append_nil]
    exact congrArg (fun key => (Except.ok (server.stringKeyMap.lookup CString.empty key), log)) whole
  · intro log item member
    obtain rfl := List.mem_singleton.mp member
    refine ⟨plain.readable, plain.fits, ?_⟩
    rintro _ _ _ ⟨⟩
    rw [whole]
    exact room
  · exact fun log => rfl

theorem runs_getInt {key : CString} (plain : RequestDelivery.Plain key) :
    Runs server (getInt key stack) (server.intKeyMap.lookup 0 key) [] 1 := by
  have whole := (firstLine_eq_iff key).mpr plain.line
  constructor
  · intro log
    rw [List.append_nil]
    exact congrArg (fun key => (Except.ok (server.intKeyMap.lookup 0 key), log)) whole
  · intro log item member
    obtain rfl := List.mem_singleton.mp member
    exact ⟨plain.readable, plain.fits, fun _ _ _ other => by cases other⟩
  · exact fun log => rfl

/-! ## The lines -/

theorem texts_loggable (ns : Namespace) : Loggable (texts ns).hooking ∧ (∀ st, Loggable ((texts ns).cannotCreate st)) ∧
    Loggable (texts ns).disabled := by
  cases ns with
  | nativeClr => exact ⟨by decide, fun st => by cases st <;> decide, by decide⟩
  | assemblyLoad => exact ⟨by decide, fun st => by cases st <;> decide, by decide⟩
  | vbScript => exact ⟨by decide, fun st => by cases st <;> decide, by decide⟩
  | jScript => exact ⟨by decide, fun st => by cases st <;> decide, by decide⟩
  | powershell => exact ⟨by decide, fun st => by cases st <;> decide, by decide⟩

/-- What an engine's callback logs first. -/
def loadedLine (e : ScriptEngine) (base : UInt32) : CString :=
  match e with
  | .vbScript => .literal "[+] Vbscript.dll Loaded! at 0x" ++ hex base
  | .jScript => .literal "[+] Jscript.dll Loaded! at 0x" ++ hex base

theorem hex_length (value : UInt32) : (hex value).length ≤ 8 := by
  have digits : (Nat.toDigits 16 value.toNat).length ≤ 8 :=
    (Nat.length_toDigits_le_iff (by decide) (by decide)).mpr value.toNat_lt
  have cut := (List.takeWhile_prefix (l := (Nat.toDigits 16 value.toNat).map fun c => UInt8.ofNat c.toNat)
    (· != 0)).length_le
  rw [List.length_map] at cut
  exact Nat.le_trans cut digits

theorem loadedLine_loggable (e : ScriptEngine) (base : UInt32) : Loggable (loadedLine e base) := by
  have digits := hex_length base
  cases e with
  | vbScript =>
    have front : (CString.literal "[+] Vbscript.dll Loaded! at 0x").length = 30 := by decide
    have bracket : (CString.literal "[+] Vbscript.dll Loaded! at 0x").bytes.head? = some 91 := by decide
    refine ⟨by simp [loadedLine, List.head?_append, bracket], ?_⟩
    rw [loadedLine, CString.length_append, front, MAX_BUFFER]
    omega
  | jScript =>
    have front : (CString.literal "[+] Jscript.dll Loaded! at 0x").length = 29 := by decide
    have bracket : (CString.literal "[+] Jscript.dll Loaded! at 0x").bytes.head? = some 91 := by decide
    refine ⟨by simp [loadedLine, List.head?_append, bracket], ?_⟩
    rw [loadedLine, CString.length_append, front, MAX_BUFFER]
    omega

/-- The line that an installation ends with. -/
def installLine (layout : Layout) (dll : Dll) (target : UInt32) (ns : Namespace) : CString :=
  match dll.minHook.createHook layout.executable target ns with
  | .ok _ => targetHooked
  | .error st => firstLine ((texts ns).cannotCreate st)

/-! ## What the functions of the DLL do and log -/

variable {dll : Dll} {target : UInt32} {ns : Namespace}

theorem runs_install (ready : dll.minHook.initialized = true) :
    Runs server (install stack layout dll target ns) (dll.install layout target ns) [installLine layout dll target ns]
      0 := by
  rcases @install_cases layout dll target ns ready with ⟨code, new, _⟩ | ⟨refused, _⟩
  · obtain ⟨creates, enables⟩ := Engine.create_enable ns ready code layout.null new
    have line : firstLine targetHooked = targetHooked := by decide
    simp only [install, Dll.install, installLine, creates, enables]
    exact line ▸ runs_bind (runs_log server stack (by decide)) (runs_pure _)
  · obtain ⟨st, fails⟩ := Engine.create_refused ns refused
    simp only [install, Dll.install, installLine, fails]
    exact runs_bind (runs_log server stack ((texts_loggable ns).2.1 st)) (runs_pure _)

variable (server) in
theorem runs_copyPath (p : Process) {dumpPath : CString} (room : dumpPath.length < (handler ns).size) :
    ∃ array, array.cstring = .ok dumpPath ∧ Runs server (p.copyPath ns dumpPath)
      { p with _dumpPath := Function.update p._dumpPath ns array } [] 0 := by
  obtain ⟨array, copied, text⟩ := (p._dumpPath ns).copy_fits room
  exact ⟨array, text, runs_bind (runs_lift copied) (runs_pure _)⟩

/-- Where a namespace hooks as soon as it is selected. -/
def site (layout : Layout) : Namespace → Option UInt32
  | .nativeClr => some layout.safeArrayVariable
  | .assemblyLoad | .powershell => some layout.getProcAddress
  | .vbScript | .jScript => none

/-- What the attach logs. -/
def attachLines (layout : Layout) (hookType : ℤ) : List CString :=
  .literal "[+] Injection Success!" :: match selected hookType with
    | none => []
    | some ns => (texts ns).hooking :: (site layout ns).toList.map fun target => installLine layout (prepared hookType) target ns

theorem firstLine_injection : firstLine (.literal "[+] Injection Success!") = .literal "[+] Injection Success!" := by
  decide

theorem firstLine_hooking (ns : Namespace) : firstLine (texts ns).hooking = (texts ns).hooking := by
  cases ns <;> decide

variable (server) (stack) (layout)

/-- The hook type that the launcher's table holds. -/
def hookTypeOf : ℤ := (server.intKeyMap.lookup 0 HOOK_TYPE).toInt

def dumpPathOf : CString := server.stringKeyMap.lookup CString.empty DUMP_PATH

/-- The directory fits into the arrays of the selected namespace. -/
def Room (server : Server) : Prop :=
  (dumpPathOf server).length < MAX_PATH ∧
    ∀ ns, selected (hookTypeOf server) = some ns → (dumpPathOf server).length < (handler ns).size

theorem keys_plain : RequestDelivery.Plain DUMP_PATH ∧ RequestDelivery.Plain HOOK_TYPE :=
  ⟨⟨by decide, ⟨68, [85, 77, 80, 95, 80, 65, 84, 72], by decide, by decide, by decide⟩, by decide⟩,
    ⟨by decide, ⟨72, [79, 79, 75, 95, 84, 89, 80, 69], by decide, by decide, by decide⟩, by decide⟩⟩

variable {server} {stack} {layout}

variable (server stack layout) in
/-- A namespace that hooks at once: its line, the directory, the installation. -/
theorem runs_hook_now {dumpPath : CString} (room : dumpPath.length < (handler ns).size) (p : Process) (assign : Dll → Dll)
    (ready : (assign p.world.dll).minHook.initialized = true) (target : UInt32) :
    ∃ array, array.cstring = .ok dumpPath ∧
      Runs server (do
          log stack (texts ns).hooking
          let p ← p.copyPath ns dumpPath
          return p.setDll (← install stack layout (assign p.world.dll) target ns))
        ⟨{ p.world with dll := (assign p.world.dll).install layout target ns }, Function.update p._dumpPath ns array⟩
        [(texts ns).hooking, installLine layout (assign p.world.dll) target ns] 0 := by
  obtain ⟨array, text, copied⟩ := runs_copyPath server p room
  have hooking := runs_log server stack (texts_loggable ns).1
  rw [firstLine_hooking] at hooking
  exact ⟨array, text, runs_bind hooking (runs_bind copied (runs_bind (runs_install ready) (runs_pure _)))⟩

variable (server stack) in
/-- A namespace that waits for a DLL. -/
theorem runs_hook_later {dumpPath : CString} (room : dumpPath.length < (handler ns).size) (p : Process)
    (register : World → World) :
    ∃ array, array.cstring = .ok dumpPath ∧
      Runs server (do
          log stack (texts ns).hooking
          let p ← p.copyPath ns dumpPath
          return { p with world := register p.world })
        ⟨register p.world, Function.update p._dumpPath ns array⟩ [(texts ns).hooking] 0 := by
  obtain ⟨array, text, copied⟩ := runs_copyPath server p room
  have hooking := runs_log server stack (texts_loggable ns).1
  rw [firstLine_hooking] at hooking
  exact ⟨array, text, runs_bind hooking (runs_bind copied (runs_pure _))⟩

/-- The world after the pure `HookFunctions`. -/
def hookedWorld (layout : Layout) (hookType : ℤ) (w : World) : World :=
  { w with
    dll := (HookClr.hookFunctions layout hookType .new w.loader).1
    loader := (HookClr.hookFunctions layout hookType .new w.loader).2 }

variable (server stack layout) in
/-- The `switch` of `HookFunctions`, once the engine is ready. -/
theorem runs_hook {hookType : ℤ} {dumpPath : CString} (room : ∀ ns, selected hookType = some ns →
    dumpPath.length < (handler ns).size) (p : Process) (ready : p.world.dll = prepared hookType) :
    ∃ p', Runs server (hook stack layout dumpPath p) p' (attachLines layout hookType).tail 0 ∧
      p'.world = hookedWorld layout hookType p.world ∧
      ∀ ns, selected hookType = some ns → (p'._dumpPath ns).cstring = .ok dumpPath := by
  obtain ⟨⟨attached, dll, loader, modules, stray⟩, paths⟩ := p
  obtain rfl : dll = prepared hookType := ready
  have holds : ∀ {ns array}, array.cstring = .ok dumpPath →
      ∀ other, some ns = some other → (Function.update paths ns array other).cstring = .ok dumpPath := by
    rintro ns array text _ ⟨⟩
    rw [Function.update_self]
    exact text
  have type : (prepared hookType)._hookType = hookType := rfl
  simp only [hook, attachLines, List.tail_cons, hookedWorld, HookClr.hookFunctions, type]
  let p : Process := ⟨⟨attached, prepared hookType, loader, modules, stray⟩, paths⟩
  cases chosen : selected hookType with
  | none => exact ⟨p, runs_pure p, rfl, fun ns other => by cases other⟩
  | some ns =>
    have room := room ns chosen
    cases ns with
    | nativeClr =>
      obtain ⟨array, text, ran⟩ := runs_hook_now server stack layout room p
        (fun dll => { dll with _safeArrayUnaccessData := layout.safeArrayUnaccessData }) rfl layout.safeArrayVariable
      exact ⟨_, ran, rfl, holds text⟩
    | assemblyLoad =>
      obtain ⟨array, text, ran⟩ := runs_hook_now server stack layout room p id rfl
        layout.getProcAddress
      exact ⟨_, ran, rfl, holds text⟩
    | vbScript =>
      obtain ⟨array, text, ran⟩ := runs_hook_later server stack room p fun w =>
        { w with
          dll := (HookClr.VBScript.hookForVBScript w.dll w.loader).1
          loader := (HookClr.VBScript.hookForVBScript w.dll w.loader).2 }
      exact ⟨_, ran, rfl, holds text⟩
    | jScript =>
      obtain ⟨array, text, ran⟩ := runs_hook_later server stack room p fun w =>
        { w with
          dll := (HookClr.JScript.hookForJScript w.dll w.loader).1
          loader := (HookClr.JScript.hookForJScript w.dll w.loader).2 }
      exact ⟨_, ran, rfl, holds text⟩
    | powershell =>
      obtain ⟨array, text, ran⟩ := runs_hook_now server stack layout room p id rfl
        layout.getProcAddress
      exact ⟨_, ran, rfl, holds text⟩

variable (stack layout) in
/-- The attach, with the tables of the launcher. -/
theorem runs_attach (room : Room server) (w : World) :
    ∃ p, Runs server (attach stack layout w) p (attachLines layout (hookTypeOf server)) 2 ∧
      p.world = HookClr.attach layout (hookTypeOf server) w ∧
      ∀ ns, selected (hookTypeOf server) = some ns → (p._dumpPath ns).cstring = .ok (dumpPathOf server) := by
  have asked : Runs server (getString DUMP_PATH stack) (dumpPathOf server) [] 1 := runs_getString keys_plain.1 room.1
  have typed : Runs server (getInt HOOK_TYPE stack) (server.intKeyMap.lookup 0 HOOK_TYPE) [] 1 := runs_getInt keys_plain.2
  have success := runs_log server stack (show Loggable (.literal "[+] Injection Success!") by decide)
  rw [firstLine_injection] at success
  obtain ⟨p, ran, world, paths⟩ := runs_hook server stack layout room.2
    ⟨{ w with dll := prepared (hookTypeOf server) }, fun _ => .filled _ 0⟩ rfl
  refine ⟨{ p with world := { p.world with attached := true } }, ?_, ?_, paths⟩
  · have lines : attachLines layout (hookTypeOf server) = [] ++ ([] ++ ([.literal "[+] Injection Success!"] ++
        ([] ++ (attachLines layout (hookTypeOf server)).tail))) ++ [] := by
      rw [List.append_nil]
      rfl
    rw [lines, HookLog.attach, HookLog.hookFunctions]
    exact runs_bind (runs_andThen asked (runs_bind typed (runs_bind success (runs_bind (runs_pure _) ran)))) (runs_pure _)
  · rw [world]
    rfl

/-! ## The life of the DLL -/

variable {e : ScriptEngine} {m : Module} {after : Dll} {w w' : World} {p : Process}

/-- The callback of an engine, for another DLL and for its own. -/
theorem runs_callback_other (other : m.name ≠ e.dllName) :
    Runs server (HookLog.Callback.run stack layout m e.callback dll) dll [] 0 := by
  cases e with
  | vbScript =>
    have differs : m.name ≠ .literal "vbscript.dll" := other
    simpa [ScriptEngine.callback, HookLog.Callback.run, HookLog.VBScript.callback, lstrcmpA, differs] using runs_pure dll
  | jScript =>
    have differs : m.name ≠ .literal "jscript.dll" := other
    simpa [ScriptEngine.callback, HookLog.Callback.run, HookLog.JScript.callback, lstrcmpA, differs] using runs_pure dll

/-- What the callback of an engine logs for its own DLL. -/
def ownLines (layout : Layout) (dll : Dll) (m : Module) (e : ScriptEngine) : List CString :=
  firstLine (loadedLine e m.base) :: match e.target m.mem m.base with
    | .ok target => [installLine layout dll target e.ns]
    | .error _ => []

theorem runs_callback_own (ready : dll.minHook.initialized = true) (own : m.name = e.dllName)
    (found : e.target m.mem m.base = .ok target) (ran : e.callback.run layout m dll = .ok after) :
    Runs server (HookLog.Callback.run stack layout m e.callback dll) after
      [firstLine (loadedLine e m.base), installLine layout dll target e.ns] 0 := by
  have loaded := runs_log server stack (loadedLine_loggable e m.base)
  cases e with
  | vbScript =>
    have same : m.name = .literal "vbscript.dll" := own
    change compileAddress m.mem m.base = .ok target at found
    simp [ScriptEngine.callback, HookClr.Callback.run, HookClr.VBScript.callback, lstrcmpA, same, HookClr.VBScript.hookVbScript,
      found] at ran
    subst ran
    simp only [ScriptEngine.callback, HookLog.Callback.run, HookLog.VBScript.callback, lstrcmpA, same, ne_eq,
      not_true_eq_false, decide_false, Bool.not_false, if_true, HookLog.VBScript.hookVbScript]
    exact runs_bind loaded (runs_bind (runs_lift found) (runs_install ready))
  | jScript =>
    have same : m.name = .literal "jscript.dll" := own
    obtain ⟨compile, first, second⟩ := bind_ok found
    simp [ScriptEngine.callback, HookClr.Callback.run, HookClr.JScript.callback, lstrcmpA, same, HookClr.JScript.hookJScript,
      first, second] at ran
    subst ran
    simp only [ScriptEngine.callback, HookLog.Callback.run, HookLog.JScript.callback, lstrcmpA, same, ne_eq,
      not_true_eq_false, decide_false, Bool.not_false, if_true, HookLog.JScript.hookJScript]
    apply runs_bind loaded
    refine runs_bind (runs_lift first) (runs_bind (runs_lift second) (runs_install ready))

/-- A search that faults is announced, but not its end. -/
theorem faults_callback_own (own : m.name = e.dllName) {fault : Fault} (failed : e.target m.mem m.base = .error fault) :
    Ends server (HookLog.Callback.run stack layout m e.callback dll) (.error fault) [firstLine (loadedLine e m.base)]
      0 := by
  have loaded := runs_log server stack (loadedLine_loggable e m.base)
  cases e with
  | vbScript =>
    have same : m.name = .literal "vbscript.dll" := own
    change compileAddress m.mem m.base = .error fault at failed
    simp only [ScriptEngine.callback, HookLog.Callback.run, HookLog.VBScript.callback, lstrcmpA, same, ne_eq,
      not_true_eq_false, decide_false, Bool.not_false, if_true, HookLog.VBScript.hookVbScript, failed]
    exact runs_bind loaded (faults_bind (ends_lift _))
  | jScript =>
    have same : m.name = .literal "jscript.dll" := own
    simp only [ScriptEngine.callback, HookLog.Callback.run, HookLog.JScript.callback, lstrcmpA, same, ne_eq,
      not_true_eq_false, decide_false, Bool.not_false, if_true, HookLog.JScript.hookJScript]
    apply runs_bind loaded
    cases compile : compileAddress m.mem m.base with
    | error other =>
      have failed' : (Except.error other : Exec UInt32) = .error fault := by
        simpa [ScriptEngine.target, compile] using failed
      cases failed'
      exact faults_bind (ends_lift _)
    | ok address =>
      have failed' : HookClr.JScript.parserAddress m.mem address = .error fault := by
        simpa [ScriptEngine.target, compile] using failed
      apply runs_bind (runs_lift rfl)
      rw [failed']
      exact faults_bind (ends_lift _)

theorem ends_callback_own (ready : dll.minHook.initialized = true) (own : m.name = e.dllName) :
    Ends server (HookLog.Callback.run stack layout m e.callback dll) (e.callback.run layout m dll)
      (ownLines layout dll m e) 0 := by
  unfold ownLines
  cases found : e.target m.mem m.base with
  | error fault =>
    rw [e.callback_faults own found]
    exact faults_callback_own own found
  | ok target =>
    obtain ⟨compile, ran⟩ := e.callback_own layout dll own found
    rw [ran]
    exact runs_callback_own ready own found ran

/-- The engine that a hook type waits for. -/
def engineOf (hookType : ℤ) : Option ScriptEngine :=
  match selected hookType with
  | some .vbScript => some .vbScript
  | some .jScript => some .jScript
  | _ => none

/-- What a notification of a load makes the DLL log. -/
def loadLines (layout : Layout) (w : World) (m : Module) : List CString :=
  match engineOf w.dll._hookType with
  | some e =>
    if m.name = e.dllName then ownLines layout (w.map m).dll m e else []
  | none => []

/-- What a namespace logs when it is unhooked. -/
def disabledLines (hookType : ℤ) : List CString := (selected hookType).toList.map fun ns => firstLine (texts ns).disabled

/-- The lines of a moment. A DLL that was unloaded logs nothing. -/
def lines (layout : Layout) (w : World) : Moment → List CString
  | .threadAttach | .threadDetach | .unload _ => []
  | .processDetach =>
    if w.attached then disabledLines w.dll._hookType else []
  | .load m => if w.attached then loadLines layout w m else []
  | .call c => if w.attached then c.lines.map firstLine else []

/-- The DLL is loaded: its engine is ready, and it is notified of loads if it
waits for a script engine. -/
structure Alive (w : World) : Prop where
  attached : w.attached = true
  installed : Installed w.dll.minHook
  waits : ∀ e, engineOf w.dll._hookType = some e → Watching e w
  silent : engineOf w.dll._hookType = none → w.loader.registrations = []

theorem ends_load (alive : Alive p.world) :
    Ends server (HookLog.notifyAll stack layout .loaded m { p with world := p.world.map m })
      ((HookClr.step layout p.world (.load m)).map fun w => { p with world := w }) (loadLines layout p.world m) 0 := by
  unfold loadLines
  cases engine : engineOf p.world.dll._hookType with
  | none =>
    have registrations : p.world.loader.registrations = [] := alive.silent engine
    have none : (p.world.map m).loader.registrations = [] := registrations
    rw [step_load_silent registrations]
    simp only [HookLog.notifyAll, none, List.foldlM_nil]
    exact runs_pure _
  | some e =>
    have watching := alive.waits e engine
    obtain ⟨cookie, one⟩ := watching.registered
    have attached : (p.world.map m).attached = true := watching.attached
    have callback : (p.world.map m).dll.notify._callback = some e.callback := watching.callback
    have registered : (p.world.map m).loader.registrations = [cookie] := one
    have ready : (p.world.map m).dll.minHook.initialized = true := alive.installed.ready
    have given : ldrDllNotification (p.world.map m).dll.notify .loaded = .ok (some e.callback) := by
      simp [ldrDllNotification, callback]
    have notified : ∀ {outcome lines},
        Ends server (HookLog.Callback.run stack layout m e.callback (p.world.map m).dll) outcome lines 0 →
        Ends server (HookLog.notifyAll stack layout .loaded m { p with world := p.world.map m })
          (outcome.map fun after => { p with world := { p.world.map m with dll := after } }) lines 0 := by
      intro outcome lines called
      simp only [HookLog.notifyAll, registered, List.foldlM_cons, List.foldlM_nil, HookLog.notifyOne]
      rw [if_pos attached]
      cases outcome with
      | ok after =>
        rw [← List.nil_append lines, ← List.append_nil ([] ++ lines), ← List.append_nil lines]
        exact runs_bind (runs_bind (runs_lift given) (runs_bind called (runs_pure _))) (runs_pure _)
      | error fault =>
        rw [← List.nil_append lines]
        exact faults_bind (runs_bind (runs_lift given) (faults_bind called))
    have loads : (HookClr.step layout p.world (.load m)).map (fun w => ({ p with world := w } : Process)) =
        (e.callback.run layout m (p.world.map m).dll).map fun after =>
          { p with world := { p.world.map m with dll := after } } := by
      rw [step_load_watching watching]
      cases e.callback.run layout m (p.world.map m).dll <;> rfl
    rw [loads]
    dsimp only
    by_cases own : m.name = e.dllName
    · rw [if_pos own]
      exact notified (ends_callback_own ready own)
    · rw [if_neg own, e.callback_other own]
      exact notified (runs_callback_other own)

/-- A notification of an unload calls nothing, and one that finds the DLL unloaded
is only counted. -/
theorem notifyOne_quiet {reason : Reason} (quiet : reason = .unloaded ∨ w.attached = false) :
    HookClr.notifyOne layout reason m w = .ok (if w.attached then w else { w with stray := w.stray + 1 }) := by
  unfold HookClr.notifyOne
  by_cases attached : w.attached = true
  · rcases quiet with rfl | off
    · rw [if_pos attached, if_pos attached]
      rfl
    · rw [attached] at off
      cases off
  · rw [if_neg attached, if_neg attached]
    rfl

theorem runs_notifyOne_quiet {reason : Reason} (quiet : reason = .unloaded ∨ p.world.attached = false) :
    Runs server (HookLog.notifyOne stack layout reason m p)
      { p with world := if p.world.attached then p.world else { p.world with stray := p.world.stray + 1 } } [] 0 := by
  unfold HookLog.notifyOne
  by_cases attached : p.world.attached = true
  · rcases quiet with rfl | off
    · rw [if_pos attached, if_pos attached]
      exact runs_bind (runs_lift (a := none) rfl) (runs_pure p)
    · rw [attached] at off
      cases off
  · rw [if_neg attached, if_neg attached]
    exact runs_pure _

theorem ends_notifyAll_quiet {reason : Reason} (quiet : reason = .unloaded ∨ p.world.attached = false) :
    Ends server (HookLog.notifyAll stack layout reason m p)
      ((HookClr.notifyAll layout reason m p.world).map fun w => { p with world := w }) [] 0 := by
  unfold HookClr.notifyAll HookLog.notifyAll
  generalize p.world.loader.registrations = registrations
  induction registrations generalizing p with
  | nil => exact runs_pure p
  | cons cookie rest ih =>
    rw [List.foldlM_cons, List.foldlM_cons, notifyOne_quiet quiet, ok_bind]
    refine runs_bind (runs_notifyOne_quiet quiet) (ih (p := { p with world := _ }) (quiet.imp_right fun off => ?_))
    dsimp only
    split
    · exact off
    · exact off

/-- Such notifications leave the process as it is, but for their number. -/
theorem notifyAll_quiet {reason : Reason} (quiet : reason = .unloaded ∨ w.attached = false)
    (ran : HookClr.notifyAll layout reason m w = .ok w') :
    ∃ stray, w' = { w with stray } ∧ (w.attached = true → stray = w.stray) := by
  unfold HookClr.notifyAll at ran
  generalize w.loader.registrations = registrations at ran
  induction registrations generalizing w with
  | nil =>
    cases ran
    exact ⟨_, rfl, fun _ => rfl⟩
  | cons cookie rest ih =>
    rw [List.foldlM_cons, notifyOne_quiet quiet, ok_bind] at ran
    by_cases attached : w.attached = true
    · rw [if_pos attached] at ran
      exact ih quiet ran
    · rw [if_neg attached] at ran
      have off : w.attached = false := by simpa using attached
      obtain ⟨stray, same, _⟩ := ih (w := { w with stray := w.stray + 1 }) (Or.inr off) ran
      exact ⟨stray, same, fun on => absurd on attached⟩

theorem runs_unhook :
    Runs server (HookLog.unhook stack layout dll) (HookClr.unhook layout dll) (disabledLines dll._hookType) 0 := by
  unfold HookLog.unhook HookClr.unhook disabledLines
  cases selected dll._hookType with
  | none => exact runs_pure dll
  | some ns =>
    have said := runs_log server stack (texts_loggable ns).2.2
    rw [Option.toList_some, List.map_singleton, ← List.append_nil [firstLine (texts ns).disabled]]
    cases ns with
    | nativeClr => exact runs_bind said (runs_pure _)
    | assemblyLoad => exact runs_bind said (runs_pure _)
    | vbScript => exact runs_bind said (runs_pure _)
    | jScript => exact runs_bind said (runs_pure _)
    | powershell => exact runs_bind said (runs_pure _)

theorem runs_detach : Runs server (HookLog.detach stack layout p) { p with world := HookClr.detach layout p.world }
    (disabledLines p.world.dll._hookType) 0 := by
  have silent : disabledLines p.world.dll._hookType = disabledLines p.world.dll._hookType ++ [] ++ [] := by simp
  rw [silent]
  exact runs_bind (runs_bind runs_unhook (runs_pure _)) (runs_pure _)

/-- What the lines of the handlers begin with. -/
def handlerTexts : List CString :=
  [.literal "[+] .Net Assembly Loaded in, Process : ", .literal "[+] Powershell in, Process : ",
    .literal "[+] Dumped Assembly to ", .literal "[+] Dumped Script to ", .literal "[+] Dump written to ",
    .literal "[-] Could not create dump file!"]

theorem call_begins {c : HandlerCall} {line : CString} (member : line ∈ c.lines) :
    ∃ front ∈ handlerTexts, front.bytes <+: line.bytes := by
  rcases List.mem_append.mp member with first | last
  · have assembly : (CString.literal "[+] .Net Assembly Loaded in, Process : ").bytes <+:
        (Interception.enteredLine c.processPath c.size).bytes := by
      simp only [Interception.enteredLine, CString.bytes_append, List.append_assoc]
      exact List.prefix_append _ _
    have powershell : (CString.literal "[+] Powershell in, Process : ").bytes <+:
        (ScriptDump.powershell.enteredLine c.processPath c.size).bytes := by
      simp only [ScriptDump.powershell.enteredLine, CString.bytes_append, List.append_assoc]
      exact List.prefix_append _ _
    unfold HandlerCall.entered at first
    cases ns : c.ns <;> simp only [ns, List.mem_singleton, List.not_mem_nil] at first
    all_goals subst first
    · exact ⟨_, by simp [handlerTexts], assembly⟩
    · exact ⟨_, by simp [handlerTexts], assembly⟩
    · exact ⟨_, by simp [handlerTexts], powershell⟩
  · obtain rfl := List.mem_singleton.mp last
    unfold HandlerCall.reported
    cases c.dump with
    | none => exact ⟨_, by simp [handlerTexts], List.prefix_refl _⟩
    | some path => exact ⟨_, by cases c.ns <;> simp [handlerTexts, handler], List.prefix_append _ _⟩

theorem call_loggable (c : HandlerCall) (fits : Moment.Fits (.call c)) : ∀ line ∈ c.lines, Loggable line := by
  intro line member
  obtain ⟨front, text, rest, spelled⟩ := call_begins member
  have brackets : ∀ front ∈ handlerTexts, front.bytes.head? = some 91 := by decide
  refine ⟨?_, fits line member⟩
  rw [← spelled, List.head?_append, brackets front text]
  rfl

variable (server stack) in
theorem runs_logAll {texts : List CString} (loggable : ∀ line ∈ texts, Loggable line) :
    Runs server (logAll stack texts) () (texts.map firstLine) 0 := by
  induction texts with
  | nil => exact runs_pure ()
  | cons line rest ih =>
    rw [logAll, List.map_cons, ← List.singleton_append]
    refine runs_bind (runs_log server stack (loggable line List.mem_cons_self)) (ih fun other member => ?_)
    exact loggable other (List.mem_cons_of_mem _ member)

variable (server stack layout) in
/-- **Step lemma.** What happens to the process has its effect without the log,
down to the faults, and is reported in its lines. -/
theorem ends_perform (alive : p.world.attached = true → Alive p.world) (moment : Moment) (fits : moment.Fits) :
    Ends server (perform stack layout p moment)
      ((HookClr.step layout p.world moment.event).map fun w => { p with world := w }) (lines layout p.world moment) 0 := by
  cases moment with
  | threadAttach => exact runs_pure p
  | threadDetach => exact runs_pure p
  | processDetach =>
    by_cases attached : p.world.attached = true
    · rw [Moment.event, step_detach_on attached, perform, if_pos attached, lines, if_pos attached]
      exact runs_detach
    · rw [Moment.event, step_detach_off (Bool.not_eq_true _ ▸ attached), perform, if_neg attached, lines, if_neg attached]
      exact runs_pure p
  | load m =>
    by_cases attached : p.world.attached = true
    · rw [lines, if_pos attached]
      exact ends_load (alive attached)
    · rw [lines, if_neg attached]
      exact ends_notifyAll_quiet (p := { p with world := p.world.map m }) (Or.inr (Bool.not_eq_true _ ▸ attached))
  | unload m => exact ends_notifyAll_quiet (p := { p with world := p.world.unmap m }) (Or.inl rfl)
  | call c =>
    by_cases attached : p.world.attached = true
    · rw [perform, if_pos attached, lines, if_pos attached, ← List.append_nil (c.lines.map firstLine)]
      exact runs_bind (runs_logAll server stack (call_loggable c fits)) (runs_pure p)
    · rw [perform, if_neg attached, lines, if_neg attached]
      exact runs_pure p

theorem engineOf_eq_some {hookType : ℤ} : engineOf hookType = some e ↔ selected hookType = some e.ns := by
  unfold engineOf
  constructor
  · intro chosen
    split at chosen
    all_goals cases chosen
    all_goals assumption
  · intro chosen
    cases e <;> rw [chosen] <;> rfl

/-- A DLL that hooked at once waits for nothing. -/
theorem alive_installed {hookType : ℤ} (none : engineOf hookType = none) (target : UInt32) (ns : Namespace) (dll : Dll)
    (ready : Installed dll.minHook) (type : dll._hookType = hookType) :
    Alive { World.start with attached := true, dll := dll.install layout target ns } := by
  have same : (dll.install layout target ns)._hookType = hookType := by rw [install_hookType, type]
  refine ⟨rfl, installed_install ready, fun e waits => ?_, fun _ => rfl⟩
  rw [show engineOf _ = engineOf hookType from congrArg engineOf same, none] at waits
  cases waits

/-- The attach leaves the DLL alive. -/
theorem alive_attach (layout : Layout) (hookType : ℤ) : Alive (HookClr.attach layout hookType .start) := by
  cases engine : engineOf hookType with
  | some e =>
    rw [attach_script (engineOf_eq_some.mp engine)]
    refine ⟨rfl, prepared_installed hookType, fun other waits => ?_, fun none => ?_⟩
    · cases engine.symm.trans waits
      exact ⟨rfl, ⟨1, rfl⟩, rfl⟩
    · cases engine.symm.trans none
  | none =>
    have waiting : ∀ e : ScriptEngine, selected hookType ≠ some e.ns := by
      intro e chosen
      rw [engineOf_eq_some.mpr chosen] at engine
      cases engine
    unfold HookClr.attach HookClr.hookFunctions
    dsimp only
    cases chosen : selected hookType with
    | none =>
      refine ⟨rfl, prepared_installed hookType, fun e waits => ?_, fun _ => rfl⟩
      cases engine.symm.trans waits
    | some ns =>
      cases ns with
      | nativeClr =>
        exact alive_installed engine layout.safeArrayVariable .nativeClr
          { prepared hookType with _safeArrayUnaccessData := layout.safeArrayUnaccessData } (prepared_installed hookType) rfl
      | assemblyLoad =>
        exact alive_installed engine layout.getProcAddress .assemblyLoad (prepared hookType) (prepared_installed hookType) rfl
      | vbScript => exact absurd chosen (waiting .vbScript)
      | jScript => exact absurd chosen (waiting .jScript)
      | powershell =>
        exact alive_installed engine layout.getProcAddress .powershell (prepared hookType) (prepared_installed hookType) rfl

/-- A callback keeps what the DLL waits for. -/
theorem callback_keeps (ready : Installed dll.minHook) (ran : e.callback.run layout m dll = .ok after) :
    Installed after.minHook ∧ after.notify = dll.notify ∧ after._hookType = dll._hookType := by
  by_cases own : m.name = e.dllName
  · obtain ⟨target, found⟩ := e.target_of_callback own ran
    obtain ⟨compile, same⟩ := e.callback_own layout dll own found
    rw [ran, Except.ok.injEq] at same
    rw [same, install_notify, install_hookType, ScriptEngine.assign_notify, ScriptEngine.assign_hookType]
    refine ⟨installed_install ?_, rfl, rfl⟩
    rw [ScriptEngine.assign_minHook]
    exact ready
  · rw [e.callback_other own, Except.ok.injEq] at ran
    exact ran ▸ ⟨ready, rfl, rfl⟩

theorem alive_load (alive : Alive w) (ran : HookClr.step layout w (.load m) = .ok w') : Alive w' := by
  have ready : Installed (w.map m).dll.minHook := ⟨alive.installed.ready, alive.installed.on, alive.installed.earlier⟩
  cases engine : engineOf w.dll._hookType with
  | none =>
    have registrations := alive.silent engine
    rw [step_load_silent registrations, Except.ok.injEq] at ran
    subst ran
    refine ⟨alive.attached, ready, fun e waits => ?_, fun _ => registrations⟩
    cases engine.symm.trans waits
  | some e =>
    have watching := alive.waits e engine
    rw [step_load_watching watching] at ran
    obtain ⟨after, called, last⟩ := bind_ok ran
    cases last
    obtain ⟨installed, notify, type⟩ := callback_keeps ready called
    have still : engineOf after._hookType = some e := (congrArg engineOf type).trans engine
    refine ⟨alive.attached, installed, fun other waits => ?_, fun none => ?_⟩
    · cases still.symm.trans waits
      refine ⟨watching.attached, watching.registered, ?_⟩
      rw [notify]
      exact watching.callback
    · cases still.symm.trans none

theorem alive_step (alive : w.attached = true → Alive w) {moment : Moment}
    (ran : HookClr.step layout w moment.event = .ok w') (on : w'.attached = true) : Alive w' := by
  cases moment with
  | threadAttach =>
    cases ran
    exact alive on
  | threadDetach =>
    cases ran
    exact alive on
  | processDetach =>
    by_cases attached : w.attached = true
    · cases (@step_detach_on layout _ attached).symm.trans ran
      cases on
    · cases (@step_detach_off layout _ (Bool.not_eq_true _ ▸ attached)).symm.trans ran
      exact alive on
  | load m =>
    by_cases attached : w.attached = true
    · exact alive_load (alive attached) ran
    · obtain ⟨stray, rfl, _⟩ := notifyAll_quiet (Or.inr (Bool.not_eq_true _ ▸ attached)) ran
      exact absurd on attached
  | unload m =>
    obtain ⟨stray, rfl, _⟩ := notifyAll_quiet (Or.inl rfl) ran
    have before := alive on
    exact ⟨before.attached, before.installed, fun e waits =>
      ⟨before.attached, (before.waits e waits).registered, (before.waits e waits).callback⟩, before.silent⟩
  | call c =>
    cases ran
    exact alive on

/-- The lines of a life. -/
def transcript (layout : Layout) (w : World) : List Moment → List CString
  | [] => []
  | moment :: rest =>
    lines layout w moment ++
      match HookClr.step layout w moment.event with
      | .ok next => transcript layout next rest
      | .error _ => []

variable {moments : List Moment}

theorem alive_run (alive : w.attached = true → Alive w) (ran : HookClr.run layout w (moments.map Moment.event) = .ok w')
    (on : w'.attached = true) : Alive w' := by
  induction moments generalizing w with
  | nil =>
    cases ran
    exact alive on
  | cons moment rest ih =>
    rw [HookClr.run, List.map_cons, List.foldlM_cons] at ran
    obtain ⟨next, stepped, ran⟩ := bind_ok ran
    exact ih (alive_step alive stepped) ran

/-- One more moment adds its lines. -/
theorem transcript_snoc (ran : HookClr.run layout w (moments.map Moment.event) = .ok w') (moment : Moment) :
    transcript layout w (moments ++ [moment]) = transcript layout w moments ++ lines layout w' moment := by
  induction moments generalizing w with
  | nil =>
    cases ran
    rw [List.nil_append, transcript, transcript, List.nil_append]
    split <;> simp [transcript]
  | cons first rest ih =>
    rw [HookClr.run, List.map_cons, List.foldlM_cons] at ran
    obtain ⟨next, stepped, ran⟩ := bind_ok ran
    rw [List.cons_append, transcript, transcript, stepped]
    dsimp only
    rw [ih ran, List.append_assoc]

/-- **Run lemma.** A fault ends the run and what it logs. -/
theorem ends_moments (alive : p.world.attached = true → Alive p.world) (fits : ∀ moment ∈ moments, moment.Fits) :
    Ends server (moments.foldlM (perform stack layout) p)
      ((HookClr.run layout p.world (moments.map Moment.event)).map fun w => { p with world := w })
      (transcript layout p.world moments) 0 := by
  induction moments generalizing p with
  | nil => exact runs_pure p
  | cons moment rest ih =>
    have first := ends_perform server stack layout alive moment (fits moment List.mem_cons_self)
    rw [HookClr.run, List.map_cons, List.foldlM_cons, List.foldlM_cons, transcript]
    cases stepped : HookClr.step layout p.world moment.event with
    | error fault =>
      rw [stepped] at first
      rw [List.append_nil]
      exact faults_bind first
    | ok next =>
      rw [stepped] at first
      refine runs_bind first (ih (p := { p with world := next }) (alive_step alive stepped) ?_)
      exact fun other member => fits other (List.mem_cons_of_mem _ member)

variable (server layout moments) in
/-- What the console shows of the whole life. -/
def console : List CString :=
  attachLines layout (hookTypeOf server) ++ transcript layout (HookClr.attach layout (hookTypeOf server) .start) moments

variable (stack layout) in
/-- The whole life: the DLL of `HookClr`, with its lines. -/
theorem ends_live (room : Room server) (fits : ∀ moment ∈ moments, moment.Fits) :
    ∃ p : Process, Ends server (live stack layout moments)
        ((HookClr.run layout .start (.processAttach (hookTypeOf server) :: moments.map Moment.event)).map fun w =>
          { p with world := w }) (console server layout moments) 2 ∧
      ∀ ns, selected (hookTypeOf server) = some ns → (p._dumpPath ns).cstring = .ok (dumpPathOf server) := by
  obtain ⟨p, attached, world, paths⟩ := runs_attach stack layout room .start
  have alive : Alive p.world := world ▸ alive_attach layout (hookTypeOf server)
  have later : Ends server (moments.foldlM (perform stack layout) p) _ _ 0 := ends_moments (fun _ => alive) fits
  rw [world] at later
  exact ⟨p, runs_bind attached later, paths⟩

/-! ## What is announced -/

/-- A line that begins otherwise announces no hook. -/
theorem ne_of_begins {front line : CString} (begins : front.bytes <+: line.bytes) (whole : (front.bytes.all (· != 10)) = true)
    (long : 5 ≤ front.bytes.length) (other : front.bytes.take 5 ≠ targetHooked.bytes.take 5) :
    firstLine line ≠ targetHooked := by
  obtain ⟨rest, spelled⟩ := begins
  have kept : (firstLine line).bytes = front.bytes ++ rest.takeWhile (· != 10) := by
    change line.bytes.takeWhile (· != 10) = _
    rw [← spelled]
    exact List.takeWhile_append_of_pos (List.all_eq_true.mp whole)
  intro same
  have fifth : (firstLine line).bytes.take 5 = targetHooked.bytes.take 5 := by rw [same]
  rw [kept, List.take_append_of_le_length long] at fifth
  exact other fifth

theorem loadedLine_ne (e : ScriptEngine) (base : UInt32) : firstLine (loadedLine e base) ≠ targetHooked := by
  cases e with
  | vbScript =>
    have begins : (CString.literal "[+] Vbscript.dll Loaded! at 0x").bytes <+: (loadedLine .vbScript base).bytes :=
      List.prefix_append _ _
    exact ne_of_begins begins (by decide) (by decide) (by decide)
  | jScript =>
    have begins : (CString.literal "[+] Jscript.dll Loaded! at 0x").bytes <+: (loadedLine .jScript base).bytes :=
      List.prefix_append _ _
    exact ne_of_begins begins (by decide) (by decide) (by decide)

/-- Nor does a handler announce one. -/
theorem call_ne (c : HandlerCall) : targetHooked ∉ c.lines.map firstLine := by
  intro member
  obtain ⟨line, member, same⟩ := List.mem_map.mp member
  obtain ⟨front, text, begins⟩ := call_begins member
  have others : ∀ front ∈ handlerTexts, (front.bytes.all (· != 10)) = true ∧ 5 ≤ front.bytes.length ∧
      front.bytes.take 5 ≠ targetHooked.bytes.take 5 := by decide
  obtain ⟨whole, long, other⟩ := others front text
  exact ne_of_begins begins whole long other same

theorem texts_ne (ns : Namespace) : (texts ns).hooking ≠ targetHooked ∧
    (∀ st, firstLine ((texts ns).cannotCreate st) ≠ targetHooked) ∧ firstLine (texts ns).disabled ≠ targetHooked := by
  cases ns <;> exact ⟨by decide, fun st => by cases st <;> decide, by decide⟩

/-- An installation announces the hook that it makes. -/
theorem count_install (ready : dll.minHook.initialized = true) :
    (dll.install layout target ns).minHook.trampolines =
      dll.minHook.trampolines + [installLine layout dll target ns].count targetHooked := by
  rcases @install_cases layout dll target ns ready with ⟨code, new, same⟩ | ⟨refused, same⟩
  · obtain ⟨creates, _⟩ := Engine.create_enable ns ready code layout.null new
    rw [same]
    simp only [installLine, creates, List.count_cons_self, List.count_nil]
    rfl
  · obtain ⟨st, fails⟩ := Engine.create_refused ns refused
    rw [same]
    simp only [installLine, fails]
    rw [List.count_eq_zero_of_not_mem]
    · rfl
    · intro member
      exact (texts_ne ns).2.1 st (List.mem_singleton.mp member).symm

theorem count_load (alive : Alive w) (ran : HookClr.step layout w (.load m) = .ok w') :
    w'.dll.minHook.trampolines = w.dll.minHook.trampolines + (loadLines layout w m).count targetHooked := by
  unfold loadLines
  cases engine : engineOf w.dll._hookType with
  | none =>
    rw [step_load_silent (alive.silent engine), Except.ok.injEq] at ran
    subst ran
    rfl
  | some e =>
    rw [step_load_watching (alive.waits e engine)] at ran
    obtain ⟨after, called, last⟩ := bind_ok ran
    cases last
    dsimp only
    by_cases own : m.name = e.dllName
    · obtain ⟨target, found⟩ := e.target_of_callback own called
      obtain ⟨compile, same⟩ := e.callback_own layout (w.map m).dll own found
      rw [called, Except.ok.injEq] at same
      have ready : (e.assign compile target (w.map m).dll).minHook.initialized = true := by
        rw [ScriptEngine.assign_minHook]
        exact alive.installed.ready
      have line : installLine layout (e.assign compile target (w.map m).dll) target e.ns =
          installLine layout (w.map m).dll target e.ns := by
        rw [installLine, ScriptEngine.assign_minHook]
        rfl
      rw [same, count_install ready, ScriptEngine.assign_minHook, line, if_pos own, ownLines, found,
        List.count_cons_of_ne (loadedLine_ne e m.base)]
      rfl
    · rw [e.callback_other own, Except.ok.injEq] at called
      subst called
      rw [if_neg own]
      rfl

theorem trampolines_disable (dll : Dll) (target : UInt32) :
    (dll.disable target).minHook.trampolines = dll.minHook.trampolines := by
  simp only [Dll.disable, Engine.disableHook]
  split
  · rename_i changed ran
    obtain ⟨chosen, rfl⟩ := Engine.change_ok ran
    rfl
  · rfl

/-- Unhooking makes no hooks. -/
theorem trampolines_detach (layout : Layout) (w : World) :
    (HookClr.detach layout w).dll.minHook.trampolines = w.dll.minHook.trampolines := by
  have ended : ∀ minHook : Engine Namespace, (minHook.uninit.toOption.getD minHook).trampolines = minHook.trampolines := by
    intro minHook
    unfold Engine.uninit
    split <;> rfl
  have unhooked : (HookClr.unhook layout w.dll).minHook.trampolines = w.dll.minHook.trampolines := by
    unfold HookClr.unhook
    split
    all_goals first | exact trampolines_disable _ _ | rfl
  exact (ended _).trans unhooked

/-- **Step lemma.** What happens announces the hooks that it makes. -/
theorem count_step (alive : w.attached = true → Alive w) {moment : Moment}
    (ran : HookClr.step layout w moment.event = .ok w') :
    w'.dll.minHook.trampolines = w.dll.minHook.trampolines + (lines layout w moment).count targetHooked := by
  cases moment with
  | threadAttach =>
    cases ran
    rfl
  | threadDetach =>
    cases ran
    rfl
  | processDetach =>
    by_cases attached : w.attached = true
    · cases (@step_detach_on layout _ attached).symm.trans ran
      rw [lines, if_pos attached, trampolines_detach, List.count_eq_zero_of_not_mem]
      · rfl
      · intro member
        obtain ⟨ns, _, same⟩ := List.mem_map.mp member
        exact (texts_ne ns).2.2 same
    · cases (@step_detach_off layout _ (Bool.not_eq_true _ ▸ attached)).symm.trans ran
      rw [lines, if_neg attached]
      rfl
  | load m =>
    by_cases attached : w.attached = true
    · rw [lines, if_pos attached]
      exact count_load (alive attached) ran
    · obtain ⟨stray, rfl, _⟩ := notifyAll_quiet (Or.inr (Bool.not_eq_true _ ▸ attached)) ran
      rw [lines, if_neg attached]
      rfl
  | unload m =>
    obtain ⟨stray, rfl, _⟩ := notifyAll_quiet (Or.inl rfl) ran
    rfl
  | call c =>
    cases ran
    by_cases attached : w.attached = true
    · rw [lines, if_pos attached, List.count_eq_zero_of_not_mem (call_ne c)]
      rfl
    · rw [lines, if_neg attached]
      rfl

/-- **Run lemma.** -/
theorem count_transcript (alive : w.attached = true → Alive w)
    (ran : HookClr.run layout w (moments.map Moment.event) = .ok w') :
    w'.dll.minHook.trampolines = w.dll.minHook.trampolines + (transcript layout w moments).count targetHooked := by
  induction moments generalizing w with
  | nil =>
    cases ran
    rfl
  | cons moment rest ih =>
    rw [HookClr.run, List.map_cons, List.foldlM_cons] at ran
    obtain ⟨next, stepped, ran⟩ := bind_ok ran
    rw [transcript, stepped, List.count_append, ih (alive_step alive stepped) ran, count_step alive stepped, Nat.add_assoc]

theorem count_attach (layout : Layout) (hookType : ℤ) :
    (HookClr.attach layout hookType .start).dll.minHook.trampolines = (attachLines layout hookType).count targetHooked := by
  have success : CString.literal "[+] Injection Success!" ≠ targetHooked := by decide
  have installed : ∀ dll : Dll, dll.minHook = (prepared hookType).minHook → ∀ target ns,
      (dll.install layout target ns).minHook.trampolines =
        [installLine layout (prepared hookType) target ns].count targetHooked := by
    intro dll same target ns
    have line : installLine layout dll target ns = installLine layout (prepared hookType) target ns := by
      rw [installLine, installLine, same]
    rw [count_install (by rw [same]; rfl), line, same]
    exact Nat.zero_add _
  unfold attachLines HookClr.attach HookClr.hookFunctions
  dsimp only
  rw [List.count_cons_of_ne success]
  cases selected hookType with
  | none => rfl
  | some ns =>
    rw [List.count_cons_of_ne (texts_ne ns).1]
    cases ns with
    | nativeClr =>
      exact installed { prepared hookType with _safeArrayUnaccessData := layout.safeArrayUnaccessData } rfl
        layout.safeArrayVariable .nativeClr
    | assemblyLoad => exact installed (prepared hookType) rfl layout.getProcAddress .assemblyLoad
    | vbScript => rfl
    | jScript => rfl
    | powershell => exact installed (prepared hookType) rfl layout.getProcAddress .powershell

/-- Each hook is announced once. -/
theorem count_console (ran : HookClr.run layout .start
    (.processAttach (hookTypeOf server) :: moments.map Moment.event) = .ok w) :
    w.dll.minHook.trampolines = (console server layout moments).count targetHooked := by
  have counted := count_transcript (fun _ => alive_attach layout (hookTypeOf server)) ran
  rw [count_attach, ← List.count_append] at counted
  exact counted

/-- Locals that hold ones. -/
def sampleStack : Stack := ⟨.filled MAX_PATH 1, .filled 4 1, .filled 256 1⟩

end ClrDumper.Transcripts
