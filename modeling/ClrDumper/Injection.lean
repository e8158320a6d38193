import ClrDumper.HookLog
import ClrDumper.Launcher

/-! `main` of the launcher around the target: the tables of the server, the
suspended process, the remote thread that loads the hook DLL, the server's thread
and the resumption. The threads of the two processes run on their own; what
Windows decides, such as whether a thread can be made, is left open, but for the
pipes: it creates them and lets the DLL open them, so there is one launcher. -/
namespace ClrDumper.Injection
open Execution CStrings CString MinHook HookClr NamedPipeIO NamedPipeLoop Launcher ClientPrograms HookLog
open ScriptDump (MAX_PATH)

/-! ## The arguments -/

/-- `PathRemoveFileSpecA`, which cuts a path off in place. -/
structure Shell where
  pathRemoveFileSpec : CString → CString
  cuts : ∀ path, (pathRemoveFileSpec path).bytes <+: path.bytes

/-- What `main` has made of its arguments before it opens the pipes. -/
structure Prepared where
  /-- `_stringKeyMap[DUMP_PATH]`. -/
  directory : CString
  dll : CString
  /-- `_intKeyMap[HOOK_TYPE]`. -/
  hookType : ℤ
  target : Target

/-- The directory of the launcher and the path of the DLL, by way of `dll`. -/
def dllPath (shell : Shell) (argv0 : CString) (dll : CharArray MAX_PATH) : Exec (CString × CString) := do
  let dll ← dll.copy argv0
  let directory := shell.pathRemoveFileSpec (← dll.cstring)
  let dll ← dll.copy directory
  let dll ← dll.concat (.literal "\\HookClr.dll")
  return (directory, ← dll.cstring)

/-- `main` up to `InitNamedPipe`. Without a result it has printed why and
returned. -/
def prepare (shell : Shell) (env : Environment) (dll : CharArray MAX_PATH) (locals : Locals) :
    List CString → Exec (Option Prepared)
  | argv0 :: argv1 :: argv2 :: _ => do
    let (directory, dll) ← dllPath shell argv0 dll
    let pefile ← locals.pefile.copy argv2
    match Launcher.hookTypeOf argv1 with
    | none => return none
    | some hookType => do
      let target ← chooseTarget env hookType argv2 { locals with pefile }
      return some ⟨directory, dll, hookType, target⟩
  | argv0 :: _ => do
    let _ ← dllPath shell argv0 dll
    return none
  | [] => .error .access

/-- The server with its two tables filled, and whatever its thread finds in its
locals. -/
def Prepared.server (made : Prepared) (buffer msg : CharArray MAX_BUFFER) (type : ℤ) : Server where
  stringKeyMap key := if key = DUMP_PATH then some made.directory else none
  intKeyMap key := if key = HOOK_TYPE then some (Int32.ofInt made.hookType) else none
  buffer := buffer
  type := type
  msg := msg

/-! ## The threads -/

/-- What `main` does next. -/
inductive Stage where
  /-- `GetProcessHandle`. -/
  | findParent
  /-- `CreateProcessA`. -/
  | createProcess
  /-- `VirtualAllocEx`. -/
  | allocate
  /-- `CreateRemoteThread`. -/
  | createRemoteThread
  /-- `ConnectNamedPipe(_writer_pipe, NULL)`. -/
  | connectWriter
  /-- `ConnectNamedPipe(_reader_pipe, NULL)`. -/
  | connectReader
  /-- `CreateThread` for `NamedPipeLoop`. -/
  | createThread
  /-- `WaitForSingleObjectEx(threadHandle, 60000, 0)`. -/
  | waitRemote
  /-- `ResumeThread`. -/
  | resume
  /-- `WaitForSingleObject(hThread, INFINITE)`. -/
  | waitLoop
  /-- It returned without having resumed the target. -/
  | returned
  | finished
  deriving DecidableEq

/-- The remote thread, in `LoadLibraryA`. -/
inductive Remote where
  | absent
  | loading
  /-- In `InitNamedPipe`, between the two calls of `CreateFileA`. -/
  | opening
  /-- In `HookFunctions`. -/
  | hooking
  | exited (loaded : Bool)
  deriving DecidableEq

/-- The thread of `NamedPipeLoop`. -/
inductive Loop where
  | absent
  | running
  | ended
  deriving DecidableEq

/-- The first thread of the target. -/
inductive MainThread where
  | absent
  | suspended
  | running
  | exited
  deriving DecidableEq

/-- The two processes. -/
structure System where
  stage : Stage
  remote : Remote
  loop : Loop
  target : MainThread
  /-- The remote thread was not waited for any longer. -/
  timedOut : Bool
  conversation : Conversation (Except Fault Process)
  /-- What happened to the target since it was resumed. -/
  moments : List Moment

def System.start (server : Server) (stack : Stack) (layout : Layout) : System :=
  ⟨.findParent, .absent, .absent, .absent, false, .start server (live stack layout []).run, []⟩

/-- Whether the DLL's threads can run: one of them while the DLL is attached, the
target's own once it was resumed, and none after the end of the target. -/
def System.MayTalk (s : System) : Party → Prop
  | .client => (s.remote = .hooking ∨ s.target = .running) ∧ s.target ≠ .exited
  | .server => s.loop = .running

/-- One step of one thread. -/
inductive Step (stack : Stack) (layout : Layout) : System → System → Prop where
  | parentFound {s : System} (next : s.stage = .findParent) : Step stack layout s { s with stage := .createProcess }
  | parentMissing {s : System} (next : s.stage = .findParent) : Step stack layout s { s with stage := .returned }
  /-- The process is created suspended. -/
  | created {s : System} (next : s.stage = .createProcess) :
      Step stack layout s { s with stage := .allocate, target := .suspended }
  | notCreated {s : System} (next : s.stage = .createProcess) : Step stack layout s { s with stage := .returned }
  | allocated {s : System} (next : s.stage = .allocate) : Step stack layout s { s with stage := .createRemoteThread }
  | notAllocated {s : System} (next : s.stage = .allocate) : Step stack layout s { s with stage := .returned }
  | remoteCreated {s : System} (next : s.stage = .createRemoteThread) :
      Step stack layout s { s with stage := .connectWriter, remote := .loading }
  /-- This is only printed. -/
  | remoteNotCreated {s : System} (next : s.stage = .createRemoteThread) :
      Step stack layout s { s with stage := .connectWriter }
  /-- Each call returns when the DLL has opened the other end. -/
  | writerConnected {s : System} (next : s.stage = .connectWriter)
      (opened : s.remote = .opening ∨ s.remote = .hooking ∨ s.remote = .exited true) :
      Step stack layout s { s with stage := .connectReader }
  | readerConnected {s : System} (next : s.stage = .connectReader)
      (opened : s.remote = .hooking ∨ s.remote = .exited true) :
      Step stack layout s { s with stage := .createThread }
  | threadCreated {s : System} (next : s.stage = .createThread) :
      Step stack layout s { s with stage := .waitRemote, loop := .running }
  | threadNotCreated {s : System} (next : s.stage = .createThread) : Step stack layout s { s with stage := .returned }
  | remoteEnded {s : System} {loaded : Bool} (next : s.stage = .waitRemote) (exited : s.remote = .exited loaded) :
      Step stack layout s { s with stage := .resume }
  /-- There is no handle to wait for. -/
  | noRemote {s : System} (next : s.stage = .waitRemote) (absent : s.remote = .absent) :
      Step stack layout s { s with stage := .resume }
  | timeout {s : System} (next : s.stage = .waitRemote) :
      Step stack layout s { s with stage := .resume, timedOut := true }
  | resumed {s : System} (next : s.stage = .resume) :
      Step stack layout s { s with stage := .waitLoop, target := .running }
  | loopEnded {s : System} (next : s.stage = .waitLoop) (ended : s.loop = .ended) :
      Step stack layout s { s with stage := .finished }
  /-- The DLL cannot be loaded, and its `DllMain` is not called. -/
  | loadFailed {s : System} (loading : s.remote = .loading) : Step stack layout s { s with remote := .exited false }
  /-- `InitNamedPipe` of the DLL. The pipes are there until `main` returns. -/
  | openReader {s : System} (loading : s.remote = .loading) (pipes : s.stage ≠ .returned) :
      Step stack layout s { s with remote := .opening }
  | openWriter {s : System} (opening : s.remote = .opening) (pipes : s.stage ≠ .returned) :
      Step stack layout s { s with remote := .hooking }
  | talk {s : System} {party : Party} {c : Conversation (Except Fault Process)} (may : s.MayTalk party)
      (pipes : s.stage ≠ .returned) (step : ClientPrograms.Step party s.conversation c) :
      Step stack layout s { s with conversation := c }
  /-- `DllMain` returns, and with it `LoadLibraryA`. -/
  | attached {s : System} {p : Process} (hooking : s.remote = .hooking) (present : s.target ≠ .exited)
      (done : s.conversation.client = .ready (.done (.ok p))) : Step stack layout s { s with remote := .exited true }
  /-- Something happens to the target, one thing after another. Nothing more does
  when it made the DLL fault. What the target does while the remote thread is
  still in the DLL is not modelled, nor what a call does whose lines do not fit. -/
  | moment {s : System} {p : Process} {moment : Moment} (running : s.target = .running)
      (done : s.conversation.client = .ready (.done (.ok p))) (exited : s.remote = .exited true) (fits : moment.Fits) :
      Step stack layout s { s with
        conversation := { s.conversation with client := .ready (perform stack layout p moment).run }
        moments := s.moments ++ [moment] }
  /-- The target ends and its handles are closed. That can be after the DLL was
  detached, or at any other time: because of a fault, of its own or of the DLL,
  or because somebody terminates it. -/
  | exit {s : System} (running : s.target = .running) : Step stack layout s { s with target := .exited }
  /-- `ReadFile` finds the pipe closed and empty. -/
  | loopEnds {s : System} (running : s.loop = .running) (closed : s.target = .exited)
      (empty : s.conversation.requests = []) : Step stack layout s { s with loop := .ended }

abbrev Reachable (server : Server) (stack : Stack) (layout : Layout) (s : System) : Prop :=
  Relation.ReflTransGen (Step stack layout) (.start server stack layout) s

end ClrDumper.Injection
