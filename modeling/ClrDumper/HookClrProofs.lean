import ClrDumper.HookClr

/-! What the hook installations and the notifications of the DLL do, for the
results about its runs. -/
namespace ClrDumper.HookClrProofs
open Execution CStrings CString Memory MemoryUtils MinHook DllLoadCallback HookClr

variable {layout : Layout} {dll after : Dll} {site other : UInt32} {space : Namespace} {w : World} {m : Module}

/-! ## Installing a hook -/

/-- What every installation keeps: all hooks are on, and later trampolines differ
from theirs. -/
structure Installed (minHook : Engine Namespace) : Prop where
  ready : minHook.initialized = true
  on : ∀ h ∈ minHook.hooks, h.isEnabled = true
  earlier : ∀ h ∈ minHook.hooks, h.trampoline < minHook.trampolines

theorem install_new (ready : dll.minHook.initialized = true) (code : layout.executable site = true)
    (new : ¬ dll.minHook.Known site) :
    dll.install layout site space = { dll with
      minHook := dll.minHook.hooked site space
      original := Function.update dll.original space (some dll.minHook.trampolines) } := by
  obtain ⟨creates, enables⟩ := Engine.create_enable space ready code layout.null new
  simp only [Dll.install, creates, enables]

theorem install_refused (refused : layout.executable site = false ∨ dll.minHook.Known site) :
    dll.install layout site space = dll := by
  obtain ⟨status, fails⟩ := Engine.create_refused space refused
  simp only [Dll.install, fails]

/-- The two ways an installation goes. -/
theorem install_cases (ready : dll.minHook.initialized = true) :
    (layout.executable site = true ∧ ¬ dll.minHook.Known site ∧
        dll.install layout site space = { dll with
          minHook := dll.minHook.hooked site space
          original := Function.update dll.original space (some dll.minHook.trampolines) }) ∨
      ((layout.executable site = false ∨ dll.minHook.Known site) ∧ dll.install layout site space = dll) := by
  by_cases code : layout.executable site = true
  · by_cases known : dll.minHook.Known site
    · exact Or.inr ⟨Or.inr known, install_refused (Or.inr known)⟩
    · exact Or.inl ⟨code, known, install_new ready code known⟩
  · have data : layout.executable site = false := by simpa using code
    exact Or.inr ⟨Or.inl data, install_refused (Or.inl data)⟩

theorem installed_hooked {minHook : Engine Namespace} (inv : Installed minHook) :
    Installed (minHook.hooked site space) := by
  refine ⟨inv.ready, ?_, ?_⟩
  · intro h member
    rcases List.mem_append.mp member with old | new
    · exact inv.on h old
    · rw [List.mem_singleton.mp new]
  · intro h member
    rcases List.mem_append.mp member with old | new
    · exact Nat.lt_succ_of_lt (inv.earlier h old)
    · rw [List.mem_singleton.mp new]
      exact Nat.lt_succ_self _

theorem known_hooked {minHook : Engine Namespace} :
    (minHook.hooked site space).Known other ↔ minHook.Known other ∨ other = site := by
  constructor
  · rintro ⟨h, member, rfl⟩
    rcases List.mem_append.mp member with old | new
    · exact Or.inl ⟨h, old, rfl⟩
    · rw [List.mem_singleton.mp new]
      exact Or.inr rfl
  · rintro (⟨h, old, rfl⟩ | rfl)
    · exact ⟨h, List.mem_append_left _ old, rfl⟩
    · exact ⟨_, List.mem_append_right _ List.mem_cons_self, rfl⟩

theorem installed_install (inv : Installed dll.minHook) : Installed (dll.install layout site space).minHook := by
  rcases install_cases inv.ready with ⟨_, _, new⟩ | ⟨_, same⟩
  · rw [new]
    exact installed_hooked inv
  · rw [same]
    exact inv

/-- An installation adds its target to the table, if there is code. -/
theorem known_install (inv : Installed dll.minHook) :
    (dll.install layout site space).minHook.Known other ↔
      dll.minHook.Known other ∨ (other = site ∧ layout.executable site = true) := by
  rcases install_cases inv.ready with ⟨code, _, new⟩ | ⟨refused, same⟩
  · rw [new]
    simp [known_hooked, code]
  · rw [same]
    refine ⟨Or.inl, ?_⟩
    rintro (held | ⟨rfl, code⟩)
    · exact held
    · rcases refused with data | known
      · rw [code] at data
        cases data
      · exact known

theorem enabled_iff_known (inv : Installed dll.minHook) :
    dll.minHook.Enabled other ↔ dll.minHook.Known other :=
  ⟨fun ⟨h, member, same, _⟩ => ⟨h, member, same⟩, fun ⟨h, member, same⟩ => ⟨h, member, same, inv.on h member⟩⟩

/-- An installation changes MinHook and the original pointers, and nothing else. -/
theorem install_frame (layout : Layout) (dll : Dll) (site : UInt32) (space : Namespace) :
    ∃ minHook original, dll.install layout site space = { dll with minHook := minHook, original := original } := by
  unfold Dll.install
  split
  · exact ⟨dll.minHook, dll.original, rfl⟩
  · split
    · exact ⟨_, _, rfl⟩
    · exact ⟨_, _, rfl⟩

@[simp] theorem install_hookType : (dll.install layout site space)._hookType = dll._hookType := by
  obtain ⟨_, _, same⟩ := install_frame layout dll site space
  rw [same]

@[simp] theorem install_notify : (dll.install layout site space).notify = dll.notify := by
  obtain ⟨_, _, same⟩ := install_frame layout dll site space
  rw [same]

@[simp] theorem install_parserAddress :
    (dll.install layout site space).jScriptParserAddress = dll.jScriptParserAddress := by
  obtain ⟨_, _, same⟩ := install_frame layout dll site space
  rw [same]

@[simp] theorem install_disableCalls (ready : dll.minHook.initialized = true) :
    (dll.install layout site space).minHook.disableCalls = dll.minHook.disableCalls := by
  rcases install_cases ready with ⟨_, _, new⟩ | ⟨_, same⟩
  · rw [new]
    rfl
  · rw [same]

/-! ## The script engines -/

/-- The engines whose hooks are installed when their DLL is loaded. -/
inductive ScriptEngine where
  | vbScript
  | jScript

namespace ScriptEngine

def dllName : ScriptEngine → CString
  | vbScript => .literal "vbscript.dll"
  | jScript => .literal "jscript.dll"

def ns : ScriptEngine → Namespace
  | vbScript => .vbScript
  | jScript => .jScript

def hookType : ScriptEngine → ℤ
  | vbScript => VBSCRIPT_ARG
  | jScript => JSCRIPT_ARG

def callback : ScriptEngine → Callback
  | vbScript => .vbScript
  | jScript => .jScript

/-- The address that the engine's hook is put on in an image. -/
def target : ScriptEngine → Mem → UInt32 → Exec UInt32
  | vbScript, mem, base => compileAddress mem base
  | jScript, mem, base => do JScript.parserAddress mem (← compileAddress mem base)

/-- What the engine's hook function assigns before it installs the hook. -/
def assign : ScriptEngine → (compile target : UInt32) → Dll → Dll
  | vbScript, _, _, dll => dll
  | jScript, compile, target, dll =>
    { dll with jScriptCompileAddress := compile, jScriptParserAddress := target }

variable (e : ScriptEngine)

@[simp] theorem assign_minHook (compile target : UInt32) (dll : Dll) :
    (e.assign compile target dll).minHook = dll.minHook := by
  cases e <;> rfl

@[simp] theorem assign_original (compile target : UInt32) (dll : Dll) :
    (e.assign compile target dll).original = dll.original := by
  cases e <;> rfl

@[simp] theorem assign_notify (compile target : UInt32) (dll : Dll) :
    (e.assign compile target dll).notify = dll.notify := by
  cases e <;> rfl

@[simp] theorem assign_hookType (compile target : UInt32) (dll : Dll) :
    (e.assign compile target dll)._hookType = dll._hookType := by
  cases e <;> rfl

theorem callback_other (other : m.name ≠ e.dllName) : e.callback.run layout m dll = .ok dll := by
  cases e with
  | vbScript =>
    have differs : m.name ≠ .literal "vbscript.dll" := other
    simp [callback, Callback.run, VBScript.callback, lstrcmpA, differs]
  | jScript =>
    have differs : m.name ≠ .literal "jscript.dll" := other
    simp [callback, Callback.run, JScript.callback, lstrcmpA, differs]

/-- The callback for the engine's own DLL: it finds the target and installs the
hook there. -/
theorem callback_own (layout : Layout) (dll : Dll) (own : m.name = e.dllName) (found : e.target m.mem m.base = .ok site) :
    ∃ compile, e.callback.run layout m dll = .ok ((e.assign compile site dll).install layout site e.ns) := by
  cases e with
  | vbScript =>
    refine ⟨0, ?_⟩
    change compileAddress m.mem m.base = .ok site at found
    have same : m.name = .literal "vbscript.dll" := own
    simp [callback, Callback.run, VBScript.callback, lstrcmpA, same, VBScript.hookVbScript, found, assign, ns]
  | jScript =>
    obtain ⟨compile, first, second⟩ := bind_ok found
    refine ⟨compile, ?_⟩
    have same : m.name = .literal "jscript.dll" := own
    simp [callback, Callback.run, JScript.callback, lstrcmpA, same, JScript.hookJScript, first, second, assign, ns]

theorem target_of_callback (own : m.name = e.dllName) (ran : e.callback.run layout m dll = .ok after) :
    ∃ target, e.target m.mem m.base = .ok target := by
  cases e with
  | vbScript =>
    have same : m.name = .literal "vbscript.dll" := own
    simp only [callback, Callback.run, VBScript.callback, lstrcmpA, same] at ran
    obtain ⟨address, found, _⟩ := bind_ok ran
    exact ⟨address, found⟩
  | jScript =>
    have same : m.name = .literal "jscript.dll" := own
    simp only [callback, Callback.run, JScript.callback, lstrcmpA, same] at ran
    obtain ⟨compile, first, rest⟩ := bind_ok ran
    obtain ⟨address, second, _⟩ := bind_ok rest
    exact ⟨address, by simp [target, first, second]⟩

/-- A signature that cannot be searched for stops the callback. -/
theorem callback_faults (own : m.name = e.dllName) {fault : Fault} (failed : e.target m.mem m.base = .error fault)
    (dll : Dll) : e.callback.run layout m dll = .error fault := by
  cases e with
  | vbScript =>
    change compileAddress m.mem m.base = .error fault at failed
    have same : m.name = .literal "vbscript.dll" := own
    simp [callback, Callback.run, VBScript.callback, lstrcmpA, same, VBScript.hookVbScript, failed]
  | jScript =>
    have same : m.name = .literal "jscript.dll" := own
    cases compile : compileAddress m.mem m.base with
    | error other =>
      have failed' : (Except.error other : Exec UInt32) = .error fault := by simpa [target, compile] using failed
      cases failed'
      simp [callback, Callback.run, JScript.callback, lstrcmpA, same, JScript.hookJScript, compile]
    | ok address =>
      have failed' : JScript.parserAddress m.mem address = .error fault := by simpa [target, compile] using failed
      simp [callback, Callback.run, JScript.callback, lstrcmpA, same, JScript.hookJScript, compile, failed']

end ScriptEngine

/-- A script case is selected by the engine's hook type alone. -/
theorem selected_script_iff {e : ScriptEngine} {hookType : ℤ} :
    selected hookType = some e.ns ↔ hookType = e.hookType := by
  constructor
  · intro chosen
    unfold selected at chosen
    split at chosen
    · cases e <;> cases chosen
    · split at chosen
      · cases e <;> cases chosen
      · split at chosen
        · cases e <;> cases chosen
          assumption
        · split at chosen
          · cases e <;> cases chosen
            assumption
          · split at chosen <;> cases e <;> cases chosen
  · rintro rfl
    cases e <;> rfl

/-! ## Notifications -/

/-- The DLL is loaded and waits for the engine's DLL. -/
structure Watching (e : ScriptEngine) (w : World) : Prop where
  attached : w.attached = true
  registered : ∃ cookie, w.loader.registrations = [cookie]
  callback : w.dll.notify._callback = some e.callback

theorem step_load_watching {e : ScriptEngine} (watching : Watching e w) (layout : Layout) (m : Module) :
    step layout w (.load m) = (do return { w.map m with dll := ← e.callback.run layout m (w.map m).dll }) := by
  obtain ⟨cookie, one⟩ := watching.registered
  have attached : (w.map m).attached = true := watching.attached
  have callback : (w.map m).dll.notify._callback = some e.callback := watching.callback
  have registered : (w.map m).loader.registrations = [cookie] := one
  simp [step, notifyAll, registered, notifyOne, attached, ldrDllNotification, callback]

theorem step_unload_watching {e : ScriptEngine} (watching : Watching e w) (layout : Layout) (m : Module) :
    step layout w (.unload m) = .ok (w.unmap m) := by
  obtain ⟨cookie, one⟩ := watching.registered
  have attached : (w.unmap m).attached = true := watching.attached
  have registered : (w.unmap m).loader.registrations = [cookie] := one
  simp [step, notifyAll, registered, notifyOne, attached, ldrDllNotification]

/-- Without a registration the loader calls nothing. -/
theorem step_load_silent (silent : w.loader.registrations = []) : step layout w (.load m) = .ok (w.map m) := by
  have none : (w.map m).loader.registrations = [] := silent
  simp [step, notifyAll, none]

/-- An attach reaches the DLL only when it is not loaded. -/
theorem step_attach_on (on : w.attached = true) (hookType : ℤ) :
    step layout w (.processAttach hookType) = .ok w := by
  simp [step, on]

theorem step_attach_off (off : w.attached = false) (hookType : ℤ) :
    step layout w (.processAttach hookType) = .ok (attach layout hookType w) := by
  simp [step, off]

/-- A detach reaches it only when it is. -/
theorem step_detach_on (on : w.attached = true) : step layout w .processDetach = .ok (detach layout w) := by
  simp [step, on]

theorem step_detach_off (off : w.attached = false) : step layout w .processDetach = .ok w := by
  simp [step, off]

/-- A process with code everywhere but in the first byte. -/
def sampleLayout : Layout where
  getProcAddress := 0x70000000
  safeArrayUnaccessData := 0x71000000
  safeArrayVariable := 0x72000000
  variable_ne := by decide
  executable address := address != 0
  code := by decide
  null := by decide

end ClrDumper.HookClrProofs
