import ClrDumper.ClientPrograms
import ClrDumper.DumpPaths
import ClrDumper.Interception

/-! The hook DLL with what it asks the launcher and what it logs. Without that
its functions are those of `HookClr`. -/
namespace ClrDumper.HookLog
open Execution CStrings CString Memory MinHook DllLoadCallback HookClr NamedPipeIO DumpPaths ClientPrograms
open Dialogs (Program)
open ScriptDump (MAX_PATH)

/-- Code of the DLL: it talks to the launcher, and may fault. -/
abbrev Routine := ExceptT Fault (Program Question Answer CString)

def Routine.lift {α : Type} (ran : Exec α) : Routine α := ExceptT.mk (pure ran)

/-- What the local arrays of the functions hold before anything is stored in them. -/
structure Stack where
  dumpPath : CharArray MAX_PATH
  res : CharArray 4
  log : CharArray 256

def getString (key : CString) (stack : Stack) : Routine CString :=
  ExceptT.lift (.ask (.getString key MAX_PATH stack.dumpPath) .done)

def getInt (key : CString) (stack : Stack) : Routine Int32 := ExceptT.lift (.ask (.getInt key stack.res) .done)

/-- `Log`. -/
def log (stack : Stack) (line : CString) : Routine Unit := do
  let text ← Routine.lift (formatLine line stack.log)
  ExceptT.lift (.tell text (.done ()))

/-- `MH_StatusToString`: the name of the status. -/
def statusToString : Status → CString
  | .alreadyInitialized => .literal "MH_ERROR_ALREADY_INITIALIZED"
  | .notInitialized => .literal "MH_ERROR_NOT_INITIALIZED"
  | .alreadyCreated => .literal "MH_ERROR_ALREADY_CREATED"
  | .notCreated => .literal "MH_ERROR_NOT_CREATED"
  | .enabled => .literal "MH_ERROR_ENABLED"
  | .disabled => .literal "MH_ERROR_DISABLED"
  | .notExecutable => .literal "MH_ERROR_NOT_EXECUTABLE"

/-- `%x`. -/
def hex (value : UInt32) : CString := ofBytes ((Nat.toDigits 16 value.toNat).map fun c => UInt8.ofNat c.toNat)

/-- What a namespace logs when it is selected, when a call of MinHook fails, and
when it is unhooked. -/
structure Texts where
  hooking : CString
  cannotCreate : Status → CString
  cannotEnable : CString
  disabled : CString

def texts : Namespace → Texts
  | .nativeClr => ⟨.literal "[+] Hooking for Native CLR!",
      fun _ => .literal "[-] Cannot Create SafeArrayUnaccessData Hook!\n",
      .literal "[-] Cannot enable SafeArrayUnaccessData Hook!\n", .literal "[-] Native Clr Hook Disabled!\n"⟩
  | .assemblyLoad => ⟨.literal "[+] Hooking for Assembly Load!",
      fun _ => .literal "[-] Cannot Create GetProcAddress Hook!\n",
      .literal "[-] Cannot Enable GetProcAddress Hook!\n", .literal "[-] Assembly Load Hook Disabled!\n"⟩
  | .vbScript => ⟨.literal "[+] Hooking for VBScript!",
      fun st => .literal "[-] Cannot Create Hook! " ++ statusToString st,
      .literal "[-] Cannot Enable Hook!", .literal "[+] VBScript Hook Disabled!"⟩
  | .jScript => ⟨.literal "[+] Hooking for JScript!",
      fun st => .literal "[-] Cannot Create Hook! " ++ statusToString st,
      .literal "[-] Cannot Enable Hook!", .literal "[+] JScript Hook Disabled!"⟩
  | .powershell => ⟨.literal "[+] Hooking for Powershell!",
      fun _ => .literal "[-] Cannot Create GetProcAddress Hook!\n",
      .literal "[-] Cannot Enable GetProcAddress Hook!\n", .literal "[-] Powershell Hook Disabled!\n"⟩

def targetHooked : CString := .literal "[+] Target Hooked"

/-- `MH_CreateHook` and `MH_EnableHook` as all five namespaces call them, with
what they log. -/
def install (stack : Stack) (layout : Layout) (dll : Dll) (target : UInt32) (ns : Namespace) : Routine Dll :=
  match dll.minHook.createHook layout.executable target ns with
  | .error st => do
    log stack ((texts ns).cannotCreate st)
    return dll
  | .ok (created, trampoline) =>
    let dll := { dll with minHook := created, original := Function.update dll.original ns (some trampoline) }
    match created.enableHook target with
    | .error _ => do
      log stack (texts ns).cannotEnable
      return dll
    | .ok enabled => do
      log stack targetHooked
      return { dll with minHook := enabled }

/-- The process, with the `_dumpPath` of each namespace. -/
structure Process where
  world : World
  _dumpPath : (ns : Namespace) → CharArray (handler ns).size

def Process.setDll (p : Process) (dll : Dll) : Process := { p with world := { p.world with dll } }

/-- `lstrcpyA(_dumpPath, dumpPath)`. -/
def Process.copyPath (p : Process) (ns : Namespace) (dumpPath : CString) : Routine Process := do
  let array ← Routine.lift ((p._dumpPath ns).copy dumpPath)
  return { p with _dumpPath := Function.update p._dumpPath ns array }

variable (stack : Stack) (layout : Layout)

namespace NativeClr

def hookForNativeClr (dumpPath : CString) (p : Process) : Routine Process := do
  let p ← p.copyPath .nativeClr dumpPath
  let dll := { p.world.dll with _safeArrayUnaccessData := layout.safeArrayUnaccessData }
  return p.setDll (← install stack layout dll layout.safeArrayVariable .nativeClr)

def unhookForNativeClr (dll : Dll) : Routine Dll := do
  log stack (texts .nativeClr).disabled
  return dll.disable layout.safeArrayVariable

end NativeClr

namespace AssemblyLoad

def hookForAssemblyLoad (dumpPath : CString) (p : Process) : Routine Process := do
  let p ← p.copyPath .assemblyLoad dumpPath
  return p.setDll (← install stack layout p.world.dll layout.getProcAddress .assemblyLoad)

def unhookForAssemblyLoad (dll : Dll) : Routine Dll := do
  log stack (texts .assemblyLoad).disabled
  return dll.disable layout.getProcAddress

end AssemblyLoad

namespace powershell

def hookPowershell (dumpPath : CString) (p : Process) : Routine Process := do
  let p ← p.copyPath .powershell dumpPath
  return p.setDll (← install stack layout p.world.dll layout.getProcAddress .powershell)

def unhookPowershell (dll : Dll) : Routine Dll := do
  log stack (texts .powershell).disabled
  return dll.disable layout.getProcAddress

end powershell

namespace VBScript

def hookVbScript (mem : Mem) (vbBase : UInt32) (dll : Dll) : Routine Dll := do
  let _compileAddress ← Routine.lift (compileAddress mem vbBase)
  install stack layout dll _compileAddress .vbScript

def callback (m : Module) (dll : Dll) : Routine Dll :=
  if !lstrcmpA m.name (.literal "vbscript.dll") then do
    log stack (.literal "[+] Vbscript.dll Loaded! at 0x" ++ hex m.base)
    hookVbScript stack layout m.mem m.base dll
  else return dll

def hookForVBScript (dumpPath : CString) (p : Process) : Routine Process := do
  let p ← p.copyPath .vbScript dumpPath
  let (dll, loader) := HookClr.VBScript.hookForVBScript p.world.dll p.world.loader
  return { p with world := { p.world with dll, loader } }

def unhookForVBScript (dll : Dll) : Routine Dll := do
  log stack (texts .vbScript).disabled
  return dll.disable layout.getProcAddress

end VBScript

namespace JScript

def hookJScript (mem : Mem) (base : UInt32) (dll : Dll) : Routine Dll := do
  let dll := { dll with jScriptCompileAddress := ← Routine.lift (compileAddress mem base) }
  let dll := { dll with
    jScriptParserAddress := ← Routine.lift (HookClr.JScript.parserAddress mem dll.jScriptCompileAddress) }
  install stack layout dll dll.jScriptParserAddress .jScript

def callback (m : Module) (dll : Dll) : Routine Dll :=
  if !lstrcmpA m.name (.literal "jscript.dll") then do
    log stack (.literal "[+] Jscript.dll Loaded! at 0x" ++ hex m.base)
    hookJScript stack layout m.mem m.base dll
  else return dll

def hookForJScript (dumpPath : CString) (p : Process) : Routine Process := do
  let p ← p.copyPath .jScript dumpPath
  let (dll, loader) := HookClr.JScript.hookForJScript p.world.dll p.world.loader
  return { p with world := { p.world with dll, loader } }

def unhookForJScript (dll : Dll) : Routine Dll := do
  log stack (texts .jScript).disabled
  return dll.disable dll.jScriptParserAddress

end JScript

def Callback.run (m : Module) : Callback → Dll → Routine Dll
  | .vbScript => VBScript.callback stack layout m
  | .jScript => JScript.callback stack layout m

def DUMP_PATH : CString := .literal "DUMP_PATH"
def HOOK_TYPE : CString := .literal "HOOK_TYPE"

/-- The `switch` of `HookFunctions`. -/
def hook (dumpPath : CString) (p : Process) : Routine Process :=
  match selected p.world.dll._hookType with
  | some .nativeClr => do
    log stack (texts .nativeClr).hooking
    NativeClr.hookForNativeClr stack layout dumpPath p
  | some .assemblyLoad => do
    log stack (texts .assemblyLoad).hooking
    AssemblyLoad.hookForAssemblyLoad stack layout dumpPath p
  | some .vbScript => do
    log stack (texts .vbScript).hooking
    VBScript.hookForVBScript dumpPath p
  | some .jScript => do
    log stack (texts .jScript).hooking
    JScript.hookForJScript dumpPath p
  | some .powershell => do
    log stack (texts .powershell).hooking
    powershell.hookPowershell stack layout dumpPath p
  | none => return p

def hookFunctions (p : Process) : Routine Process := do
  let dumpPath ← getString DUMP_PATH stack
  let hookType ← getInt HOOK_TYPE stack
  let p := p.setDll { p.world.dll with _hookType := hookType.toInt }
  log stack (.literal "[+] Injection Success!")
  let p ← match p.world.dll.minHook.init with
    | .ok minHook => pure (p.setDll { p.world.dll with minHook })
    | .error _ => do
      log stack (.literal "[-] Hook Engine Failed!")
      pure p
  hook stack layout dumpPath p

/-- The `switch` of `UnhookFunctions`. -/
def unhook (dll : Dll) : Routine Dll :=
  match selected dll._hookType with
  | some .nativeClr => NativeClr.unhookForNativeClr stack layout dll
  | some .assemblyLoad => AssemblyLoad.unhookForAssemblyLoad stack layout dll
  | some .vbScript => VBScript.unhookForVBScript stack layout dll
  | some .jScript => JScript.unhookForJScript stack dll
  | some .powershell => powershell.unhookPowershell stack layout dll
  | none => return dll

def unhookFunctions (dll : Dll) : Routine Dll := do
  let dll ← unhook stack layout dll
  return { dll with minHook := dll.minHook.uninit.toOption.getD dll.minHook }

/-- `DLL_PROCESS_ATTACH`, on the initial globals of a DLL just loaded. -/
def attach (w : World) : Routine Process := do
  let p ← hookFunctions stack layout ⟨{ w with dll := .new }, fun _ => .filled _ 0⟩
  return { p with world := { p.world with attached := true } }

/-- `DLL_PROCESS_DETACH`. -/
def detach (p : Process) : Routine Process := do
  let dll ← unhookFunctions stack layout p.world.dll
  return { p with world := { p.world with attached := false, dll } }

/-- One notification about a module. -/
def notifyOne (reason : Reason) (m : Module) (p : Process) : Routine Process :=
  if p.world.attached then do
    match ← Routine.lift (ldrDllNotification p.world.dll.notify reason) with
    | some callback => return p.setDll (← Callback.run stack layout m callback p.world.dll)
    | none => return p
  else return { p with world := { p.world with stray := p.world.stray + 1 } }

/-- The loader notifies every registration. -/
def notifyAll (reason : Reason) (m : Module) (p : Process) : Routine Process :=
  p.world.loader.registrations.foldlM (fun p _ => notifyOne stack layout reason m p) p

/-- A call of a handler, for what it logs of it. -/
structure HandlerCall where
  ns : Namespace
  processPath : CString
  /-- The size of the assembly or of the script. -/
  size : ℕ
  /-- The path of the dump, if the file could be created. -/
  dump : Option CString

/-- The line that a handler begins with. Those of the script engines have none. -/
def HandlerCall.entered (c : HandlerCall) : List CString :=
  match c.ns with
  | .nativeClr | .assemblyLoad => [Interception.enteredLine c.processPath c.size]
  | .powershell => [ScriptDump.powershell.enteredLine c.processPath c.size]
  | .vbScript | .jScript => []

/-- The line that it ends with. -/
def HandlerCall.reported (c : HandlerCall) : CString :=
  match c.dump with
  | some path => (handler c.ns).dumped ++ path
  | none => .literal "[-] Could not create dump file!"

def HandlerCall.lines (c : HandlerCall) : List CString := c.entered ++ [c.reported]

/-- What happens to the process once the DLL is attached. -/
inductive Moment where
  | threadAttach
  | threadDetach
  | processDetach
  | load (m : Module)
  | unload (m : Module)
  /-- A hooked function is called. -/
  | call (c : HandlerCall)

/-- What it is to the hooks: a call is no more to them than a thread. -/
def Moment.event : Moment → Event
  | threadAttach => .threadAttach
  | threadDetach => .threadDetach
  | processDetach => .processDetach
  | load m => .load m
  | unload m => .unload m
  | call _ => .threadAttach

/-- The lines of a handler fit into the buffer of `SendLog`. -/
def Moment.Fits : Moment → Prop
  | call c => ∀ line ∈ c.lines, line.length + 2 ≤ MAX_BUFFER
  | threadAttach | threadDetach | processDetach | load _ | unload _ => True

/-- Some lines, one after another. -/
def logAll : List CString → Routine Unit
  | [] => return
  | line :: rest => do
    log stack line
    logAll rest

def perform (p : Process) : Moment → Routine Process
  | .threadAttach | .threadDetach => return p
  | .processDetach => if p.world.attached then detach stack layout p else return p
  | .load m => notifyAll stack layout .loaded m { p with world := p.world.map m }
  | .unload m => notifyAll stack layout .unloaded m { p with world := p.world.unmap m }
  | .call c =>
    if p.world.attached then do
      logAll stack c.lines
      return p
    else return p

/-- The DLL from its injection on. -/
def live (moments : List Moment) : Routine Process := do
  let p ← attach stack layout .start
  moments.foldlM (perform stack layout) p

end ClrDumper.HookLog
