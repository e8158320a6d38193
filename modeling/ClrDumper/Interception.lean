import ClrDumper.AmsiRedirection
import ClrDumper.DumpRetention
import ClrDumper.HookClr
import ClrDumper.LockStep

/-! The target with the hook DLL in it. A call of a function whose code is patched
goes to the detour of its hook, which dumps what it sees, and goes on to where
the original pointer of the namespace leads, returns on its own or ends the
process. -/
namespace ClrDumper.Interception
open Execution CStrings Utility MinHook HookClr ScriptDump LockStep
open AmsiRedirection (Call Replacements hookedGetProcAddress)
open DumpRetention (Process)

/-! ## The handlers of assemblies -/

/-- A `SAFEARRAY`: `rgsabound->cElements`, and the data. -/
structure SafeArray where
  cElements : ℕ
  small : cElements < 2 ^ 31
  pvData : Buffer

/-- The loop of `WriteFile` calls for the first bytes of some data. -/
def writeFirst (disk : Disk) (path : CString) : ℕ → List UInt8 → Exec Disk
  | 0, _ => .ok disk
  | _ + 1, [] => .error .access
  | n + 1, byte :: rest => writeFirst (disk.write path [byte]) path n rest

/-- The first line that the two handlers log. -/
def enteredLine (processPath : CString) (size : ℕ) : CString :=
  .literal "[+] .Net Assembly Loaded in, Process : " ++ processPath ++ .literal " with, Size : " ++ number size ++
    .literal " bytes"

/-- `NativeClr::HookedUnAccess` up to its `ExitProcess`. -/
def NativeClr.hookedUnAccess (_dumpPath processPath : CString) (psa : SafeArray) (st : SystemTime) (locals : Locals)
    (host : Host) : Exec Host := do
  let host ← host.log locals (enteredLine processPath psa.cElements)
  dumpScript (.literal "NATIVE_CLR") (.literal "[+] Dumped Assembly to ")
    (fun disk path => writeFirst disk path psa.cElements psa.pvData.bytes) _dumpPath st locals host

/-- `AssemblyLoad::AmsiScanBuffer` up to its `ExitProcess`. -/
def AssemblyLoad.amsiScanBuffer (_dumpPath processPath : CString) (buffer : Buffer) (st : SystemTime) (locals : Locals)
    (host : Host) : Exec Host := do
  let host ← host.log locals (enteredLine processPath buffer.bytes.length)
  dumpScript (.literal "ASM_LOAD") (.literal "[+] Dumped Assembly to ")
    (fun disk path => .ok (writeEach disk path buffer.bytes)) _dumpPath st locals host

/-! ## Calls -/

/-- When something is called, and what the arrays of a handler hold then. -/
structure Occasion where
  /-- The local time, in milliseconds since some midnight. -/
  millis : ℕ
  locals : Locals

def Occasion.time (o : Occasion) : SystemTime := getLocalTime o.millis

/-- What the target does. -/
inductive Act where
  | load (m : Module)
  | unload (m : Module)
  /-- A call of a function of a script engine that compiles a text. -/
  | compile (address : UInt32) (text : WString) (block : CharArray (text.units.length + 1)) (o : Occasion)
  | getProcAddress (call : Call)
  | safeArrayUnaccessData (psa : SafeArray) (o : Occasion)
  /-- A call of an address as `AmsiScanBuffer`. -/
  | scan (address : UInt32) (buffer : Buffer) (o : Occasion)

inductive Outcome where
  /-- Control went on to the code of the function at an address. -/
  | went (address : UInt32)
  | returned (value : UInt32)
  | exited

/-- The target and what its hooks changed. -/
structure Target where
  world : World
  host : Host
  /-- The flags of `AssemblyLoad` and of `powershell`. -/
  isAmsiIntializeCalled : Namespace → Bool
  exited : Bool

/-- The two replacements are two functions. -/
structure Addresses extends Replacements where
  distinct : assemblyLoad ≠ powershell

/-- The detour that patched code jumps to. -/
def detourAt (m : Engine Namespace) (address : UInt32) : Option Namespace :=
  if m.patched address then (m.hooks.find? (·.target == address)).map (·.detour) else none

/-- The function that the original pointer of a namespace leads to. -/
def originalOf (dll : Dll) (ns : Namespace) : Exec UInt32 :=
  match dll.original ns with
  | none => .error .access
  | some trampoline =>
    match dll.minHook.hooks.find? (·.trampoline == trampoline) with
    | none => .error .access
    | some h => .ok h.target

/-- `ExitProcess`: the DLL is detached. -/
def Target.exit (layout : Layout) (s : Target) (host : Host) : Target :=
  { s with world := detach layout s.world, host, exited := true }

/-- `HookedGetProcAddress` of a namespace. Its original is `GetProcAddress`; what
the code of another function makes of these arguments is not modelled. -/
def getProcAddressOf (layout : Layout) (replacement : UInt32) (s : Target) (ns : Namespace) (call : Call) :
    Exec (Target × Option Outcome) := do
  let original ← originalOf s.world.dll ns
  if original = layout.getProcAddress then
    let (value, flag) := hookedGetProcAddress replacement (s.isAmsiIntializeCalled ns) call
    return ({ s with isAmsiIntializeCalled := Function.update s.isAmsiIntializeCalled ns flag }, some (.returned value))
  else .error .access

variable (layout : Layout) (dll : Addresses) (p : Process)

/-- One act. A call that gets to the detour of another function is not modelled. -/
def act (s : Target) : Act → Exec (Target × Option Outcome)
  | .load m => do return ({ s with world := ← step layout s.world (.load m) }, none)
  | .unload m => do return ({ s with world := ← step layout s.world (.unload m) }, none)
  | .compile address text block o =>
    match detourAt s.world.dll.minHook address with
    | none => return (s, some (.went address))
    | some .vbScript => do
      let host ← VBScript.compileHooked p.dumpPath p.locale text block o.time o.locals s.host
      return ({ s with host }, some (.went (← originalOf s.world.dll .vbScript)))
    | some .jScript => do
      let host ← JScript.parserHooked p.dumpPath p.locale text block o.time o.locals s.host
      return ({ s with host }, some (.went (← originalOf s.world.dll .jScript)))
    | some _ => .error .access
  | .getProcAddress call =>
    match detourAt s.world.dll.minHook layout.getProcAddress with
    | none => return (s, some (.returned (call.originalGetProcAddress call.hModule call.lpProcName)))
    | some .assemblyLoad => getProcAddressOf layout dll.assemblyLoad s .assemblyLoad call
    | some .powershell => getProcAddressOf layout dll.powershell s .powershell call
    | some _ => .error .access
  | .safeArrayUnaccessData psa o =>
    match detourAt s.world.dll.minHook layout.safeArrayUnaccessData with
    | none => return (s, some (.went layout.safeArrayUnaccessData))
    | some .nativeClr => do
      let host ← NativeClr.hookedUnAccess p.dumpPath p.processPath psa o.time o.locals s.host
      return (s.exit layout host, some .exited)
    | some _ => .error .access
  | .scan address buffer o =>
    if address = dll.assemblyLoad then do
      let host ← AssemblyLoad.amsiScanBuffer p.dumpPath p.processPath buffer o.time o.locals s.host
      return (s.exit layout host, some .exited)
    else if address = dll.powershell then do
      let host ← ScriptDump.powershell.amsiScanBuffer p.dumpPath p.processPath buffer o.time o.locals s.host
      -- `S_OK`
      return ({ s with host }, some (.returned 0))
    else return (s, some (.went address))

/-- The target as a machine. -/
def target : Machine Target Act Outcome := ⟨act layout dll p, Target.exited⟩

/-- The target when the DLL has just been attached. -/
def Target.start (hookType : ℤ) (host : Host) : Target :=
  ⟨attach layout hookType .start, host, fun _ => false, false⟩

end ClrDumper.Interception
