import ClrDumper.DllLoadCallback
import ClrDumper.MemoryUtils
import ClrDumper.MinHook

/-! The injected DLL: `DllMain`, and what the five hook namespaces install and
remove. What the handlers themselves do, the dump path and the log are left to
other modules. -/
namespace ClrDumper.HookClr
open Execution CStrings CString Memory MemoryUtils MinHook DllLoadCallback

/-- The namespaces of the hooks. Each has one detour and one pointer to the
original function. -/
inductive Namespace where
  | nativeClr
  | assemblyLoad
  | vbScript
  | jScript
  | powershell
  deriving DecidableEq

/-- The addresses in the process that the hooks depend on. -/
structure Layout where
  /-- `&GetProcAddress`. -/
  getProcAddress : UInt32
  /-- `SafeArrayUnaccessData` of `oleaut32.dll`, as `GetProcAddress` finds it. -/
  safeArrayUnaccessData : UInt32
  /-- `&NativeClr::_safeArrayUnaccessData`, the address of a variable. -/
  safeArrayVariable : UInt32
  variable_ne : safeArrayVariable ≠ safeArrayUnaccessData
  /-- Whether there is code at an address. -/
  executable : UInt32 → Bool
  code : executable getProcAddress = true
  null : executable allHooks = false

/-- The two functions given to `RegisterLoadDllCalback`. -/
inductive Callback where
  | vbScript
  | jScript

/-- The globals of the DLL, and of the libraries linked into it. -/
structure Dll where
  _hookType : ℤ
  minHook : Engine Namespace
  notify : Notify Callback
  /-- `NativeClr::_safeArrayUnaccessData`. -/
  _safeArrayUnaccessData : UInt32
  /-- `VBScript::_compileAddress`, which nothing assigns. -/
  vbScriptCompileAddress : UInt32
  /-- `JScript::_compileAddress`. -/
  jScriptCompileAddress : UInt32
  /-- `JScript::_parserAddress`. -/
  jScriptParserAddress : UInt32
  /-- `unaccess`, `originalGetProcAddress`, `originalCompile`,
  `originalParseSource`, `originalGetProcAddress`: the trampolines that the
  detours forward to. -/
  original : Namespace → Option ℕ

def Dll.new : Dll := ⟨-1, .new, .new, 0, 0, 0, 0, fun _ => none⟩

/-- `MH_CreateHook` and `MH_EnableHook` as all five namespaces call them: a
failure of either ends the attempt. -/
def Dll.install (layout : Layout) (dll : Dll) (target : UInt32) (ns : Namespace) : Dll :=
  match dll.minHook.createHook layout.executable target ns with
  | .error _ => dll
  | .ok (created, trampoline) =>
    let dll := { dll with minHook := created, original := Function.update dll.original ns (some trampoline) }
    match created.enableHook target with
    | .error _ => dll
    | .ok enabled => { dll with minHook := enabled }

/-- `MH_DisableHook`. -/
def Dll.disable (dll : Dll) (target : UInt32) : Dll := { dll with minHook := dll.minHook.disableHook target }

/-- A module of the process, with the memory at the time of its notification. -/
structure Module where
  mem : Mem
  base : UInt32
  size : ℕ
  name : CString

/-- Whether an address lies in the module. -/
def Module.holds (m : Module) (address : UInt32) : Bool :=
  m.base.toNat ≤ address.toNat && address.toNat < m.base.toNat + m.size

namespace NativeClr

def hookForNativeClr (layout : Layout) (dll : Dll) : Dll :=
  let dll := { dll with _safeArrayUnaccessData := layout.safeArrayUnaccessData }
  -- The target is `&_safeArrayUnaccessData`, not the value just stored there.
  dll.install layout layout.safeArrayVariable .nativeClr

def unhookForNativeClr (layout : Layout) (dll : Dll) : Dll := dll.disable layout.safeArrayVariable

end NativeClr

namespace AssemblyLoad

def hookForAssemblyLoad (layout : Layout) (dll : Dll) : Dll :=
  dll.install layout layout.getProcAddress .assemblyLoad

def unhookForAssemblyLoad (layout : Layout) (dll : Dll) : Dll := dll.disable layout.getProcAddress

end AssemblyLoad

namespace powershell

def hookPowershell (layout : Layout) (dll : Dll) : Dll :=
  dll.install layout layout.getProcAddress .powershell

def unhookPowershell (layout : Layout) (dll : Dll) : Dll := dll.disable layout.getProcAddress

end powershell

/-- `pattern_COleScript_Compile`, which both script namespaces define. -/
def pattern_COleScript_Compile : List UInt8 := [0xFF, 0x75, 0xFC, 0xFF, 0x75, 0x08, 0x50, 0xE8]

/-- The target of the call whose instruction ends the pattern, as both
namespaces compute it: the pattern's address plus 12, plus the operand. -/
def compileAddress (mem : Mem) (base : UInt32) : Exec UInt32 := do
  let index ← findDataInDLL mem base (arrayPtr pattern_COleScript_Compile) 8
  return (← mem.dword (index + 8)) + (index + 7 + 5)

namespace VBScript

def hookVbScript (layout : Layout) (mem : Mem) (vbBase : UInt32) (dll : Dll) : Exec Dll := do
  -- A local of the same name hides the global `_compileAddress`.
  let _compileAddress ← compileAddress mem vbBase
  return dll.install layout _compileAddress .vbScript

def callback (layout : Layout) (m : Module) (dll : Dll) : Exec Dll :=
  if !lstrcmpA m.name (.literal "vbscript.dll") then hookVbScript layout m.mem m.base dll else return dll

def hookForVBScript (dll : Dll) (loader : Loader) : Dll × Loader :=
  let (notify, loader) := dll.notify.registerLoadDllCalback loader .vbScript
  ({ dll with notify }, loader)

def unhookForVBScript (layout : Layout) (dll : Dll) : Dll := dll.disable layout.getProcAddress

end VBScript

namespace JScript

def pattern_Parser_ParseSourceCall : List UInt8 := [0x50, 0xE8]

/-- The address that `HookJScript` finds from the compile address. -/
def parserAddress (mem : Mem) (_compileAddress : UInt32) : Exec UInt32 := do
  let index ← findData mem _compileAddress 0x180 (arrayPtr pattern_Parser_ParseSourceCall) 2 false
  return (← mem.dword (index + 2)) + (index + 1 + 5)

def hookJScript (layout : Layout) (mem : Mem) (base : UInt32) (dll : Dll) : Exec Dll := do
  let dll := { dll with jScriptCompileAddress := ← compileAddress mem base }
  let dll := { dll with jScriptParserAddress := ← parserAddress mem dll.jScriptCompileAddress }
  return dll.install layout dll.jScriptParserAddress .jScript

def callback (layout : Layout) (m : Module) (dll : Dll) : Exec Dll :=
  if !lstrcmpA m.name (.literal "jscript.dll") then hookJScript layout m.mem m.base dll else return dll

def hookForJScript (dll : Dll) (loader : Loader) : Dll × Loader :=
  let (notify, loader) := dll.notify.registerLoadDllCalback loader .jScript
  ({ dll with notify }, loader)

def unhookForJScript (dll : Dll) : Dll := dll.disable dll.jScriptParserAddress

end JScript

def Callback.run (layout : Layout) (m : Module) : Callback → Dll → Exec Dll
  | vbScript => VBScript.callback layout m
  | jScript => JScript.callback layout m

def NATIVE_CLR_ARG : ℤ := 1
def ASM_LOAD_ARG : ℤ := 2
def VBSCRIPT_ARG : ℤ := 3
def JSCRIPT_ARG : ℤ := 4
def POWERSHELL_ARG : ℤ := 6

/-- The case of the two `switch` statements that a hook type selects; `none` is
the `default`. -/
def selected (_hookType : ℤ) : Option Namespace :=
  if _hookType = NATIVE_CLR_ARG then some .nativeClr
  else if _hookType = ASM_LOAD_ARG then some .assemblyLoad
  else if _hookType = VBSCRIPT_ARG then some .vbScript
  else if _hookType = JSCRIPT_ARG then some .jScript
  else if _hookType = POWERSHELL_ARG then some .powershell
  else none

/-- `HookFunctions`, with what `GetInt(HOOK_TYPE)` returns. -/
def hookFunctions (layout : Layout) (hookType : ℤ) (dll : Dll) (loader : Loader) : Dll × Loader :=
  let dll := { dll with _hookType := hookType }
  -- A failure is only logged.
  let dll := { dll with minHook := dll.minHook.init.toOption.getD dll.minHook }
  match selected dll._hookType with
  | some .nativeClr => (NativeClr.hookForNativeClr layout dll, loader)
  | some .assemblyLoad => (AssemblyLoad.hookForAssemblyLoad layout dll, loader)
  | some .vbScript => VBScript.hookForVBScript dll loader
  | some .jScript => JScript.hookForJScript dll loader
  | some .powershell => (powershell.hookPowershell layout dll, loader)
  | none => (dll, loader)

/-- The `switch` of `UnhookFunctions`. -/
def unhook (layout : Layout) (dll : Dll) : Dll :=
  match selected dll._hookType with
  | some .nativeClr => NativeClr.unhookForNativeClr layout dll
  | some .assemblyLoad => AssemblyLoad.unhookForAssemblyLoad layout dll
  | some .vbScript => VBScript.unhookForVBScript layout dll
  | some .jScript => JScript.unhookForJScript dll
  | some .powershell => powershell.unhookPowershell layout dll
  | none => dll

def unhookFunctions (layout : Layout) (dll : Dll) : Dll :=
  let dll := unhook layout dll
  { dll with minHook := dll.minHook.uninit.toOption.getD dll.minHook }

/-- The process that the DLL is loaded into. -/
structure World where
  /-- Whether the DLL is loaded. -/
  attached : Bool
  dll : Dll
  loader : Loader
  /-- The modules that were mapped and not unmapped. -/
  modules : List Module
  /-- How many notifications went to the address of `LdrDllNotification` while the
  DLL was not loaded. What such a call runs into is not modelled. -/
  stray : ℕ

def World.start : World := ⟨false, .new, ⟨[], 0⟩, [], 0⟩

/-- What happens to the process. -/
inductive Event where
  | processAttach (hookType : ℤ)
  | threadAttach
  | threadDetach
  | processDetach
  | load (m : Module)
  | unload (m : Module)

/-- `DLL_PROCESS_ATTACH`, on the initial globals of a DLL just loaded. -/
def attach (layout : Layout) (hookType : ℤ) (w : World) : World :=
  let (dll, loader) := hookFunctions layout hookType .new w.loader
  { w with attached := true, dll, loader }

/-- `DLL_PROCESS_DETACH`. The globals are gone afterwards. -/
def detach (layout : Layout) (w : World) : World :=
  { w with attached := false, dll := unhookFunctions layout w.dll }

/-- One notification about a module. -/
def notifyOne (layout : Layout) (reason : Reason) (m : Module) (w : World) : Exec World :=
  if w.attached then do
    match ← ldrDllNotification w.dll.notify reason with
    | some callback => return { w with dll := ← callback.run layout m w.dll }
    | none => return w
  else return { w with stray := w.stray + 1 }

/-- The loader notifies every registration. -/
def notifyAll (layout : Layout) (reason : Reason) (m : Module) (w : World) : Exec World :=
  w.loader.registrations.foldlM (fun w _ => notifyOne layout reason m w) w

/-- The process with a fresh image mapped. -/
def World.map (w : World) (m : Module) : World :=
  { w with modules := w.modules ++ [m], dll := { w.dll with minHook := w.dll.minHook.remap m.holds } }

def World.unmap (w : World) (m : Module) : World :=
  { w with modules := w.modules.filter (·.base != m.base) }

/-- The DLL is attached and detached in turn. An event that would do either twice
does not reach it. -/
def step (layout : Layout) (w : World) : Event → Exec World
  | .processAttach hookType => return if w.attached then w else attach layout hookType w
  | .threadAttach | .threadDetach => return w
  | .processDetach => return if w.attached then detach layout w else w
  | .load m => notifyAll layout .loaded m (w.map m)
  | .unload m => notifyAll layout .unloaded m (w.unmap m)

def run (layout : Layout) (w : World) (events : List Event) : Exec World := events.foldlM (step layout) w

end ClrDumper.HookClr
