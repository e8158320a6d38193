import ClrDumper.Captures
import ClrDumper.JoinedReads
import ClrDumper.LogCapacity

/-! What the console tells of the dumps. The handlers report each call, and what
they report is true: a dump is announced once if the run creates it, and otherwise
never. -/
namespace ClrDumper.Reports
open Execution CStrings CString NamedPipeIO NamedPipeLoop ScriptDump RequestCoding RequestDelivery
open DumpRetention (Process Script dump dumpFile intercept sampleHost sampleProcess)
open Interception (Act Addresses Outcome target)
open Captures (Scripted compiled recorded_of_told sampleActs sampleActs_fit sampleActs_orderly scripted_told)
open LockStep (alike_ok)
open ClientPrograms (arrived)
open DumpPaths (handler handler_sizes)
open HookClr (Namespace)
open HookLog (HandlerCall)

/-- A line that a handler logs. -/
inductive Report where
  | entered (processPath : CString) (length : ℕ)
  | dumped (script : Script) (path : CString)
  | refused

namespace Report

def line : Report → CString
  | entered processPath length => powershell.enteredLine processPath length
  | dumped script path => script.dumped ++ path
  | refused => .literal "[-] Could not create dump file!"

/-- The request that carries the line. -/
def bytes (r : Report) : List UInt8 := Request.bytes ⟨.logMsg, r.line⟩

/-- The line says that a dump was written to this path. -/
def announces (path : CString) : Report → Bool
  | dumped _ other => other == path
  | entered _ _ | refused => false

end Report

/-- The reports of a call, whose file is there or not. -/
def reports (p : Process) (x : DumpRetention.Interception) (taken : Bool) : List Report :=
  let last := if taken then .refused else .dumped x.script (dumpFile p x)
  match x.script with
  | .powershell buffer => [.entered p.processPath buffer.bytes.length, last]
  | .vbScript _ _ | .jScript _ _ => [last]

/-- The files that are there. -/
def taken (host : Host) (path : CString) : Bool := (host.disk.files path).isSome

/-- The reports of a run. Each call finds the files of those before it. -/
def transcript (p : Process) : (CString → Bool) → List DumpRetention.Interception → List Report
  | _, [] => []
  | taken, x :: rest =>
    reports p x (taken (dumpFile p x)) ++ transcript p (Function.update taken (dumpFile p x) true) rest

variable {p : Process} {host after final : Host} {x : DumpRetention.Interception}
  {calls : List DumpRetention.Interception} {locals : Locals}

/-! ## What is sent -/

/-- The lines fit, and they are all that was sent. -/
structure Sends (host : Host) (lines : List CString) (after : Host) : Prop where
  fits : ∀ line ∈ lines, line.length + 2 ≤ MAX_BUFFER
  sent : after.sent = host.sent ++ lines.map fun line => Request.bytes ⟨.logMsg, line⟩

theorem sends_append {front back : List CString} {middle : Host} (first : Sends host front middle)
    (next : Sends middle back after) : Sends host (front ++ back) after where
  fits line member := (List.mem_append.mp member).elim (first.fits line) (next.fits line)
  sent := by rw [next.sent, first.sent, List.map_append, List.append_assoc]

theorem log_sends {line : CString} (ran : host.log locals line = .ok after) : Sends host [line] after := by
  have fits := (log_ok_iff host locals line).mp ⟨after, ran⟩
  have request := LogCapacity.logLine_bytes fits locals.log locals.buffer
  rw [Host.log, request, ok_bind] at ran
  cases ran
  exact ⟨fun _ member => by rw [List.mem_singleton.mp member]; exact fits, rfl⟩

/-- The dump that a handler can create. -/
def dumpOf (host : Host) (ns : Namespace) (dumpPath : CString) (st : Utility.SystemTime) : Option CString :=
  let path := dumpPath ++ Utility.dumpName (handler ns).tag st
  if taken host path then none else some path

variable {dumpPath processPath : CString} {st : Utility.SystemTime} {write : Disk → CString → Exec Disk}

theorem dumpScript_sends (ns : Namespace) (processPath : CString) (size : ℕ)
    (ran : dumpScript (handler ns).tag (handler ns).dumped write dumpPath st locals host = .ok after) :
    Sends host [HandlerCall.reported ⟨ns, processPath, size, dumpOf host ns dumpPath st⟩] after := by
  have short : (handler ns).tag.length ≤ 66 := (handler_sizes ns).1
  rw [dumpScript_room short (room_of_dumpScript short ran)] at ran
  cases created : host.disk.createNew (dumpPath ++ Utility.dumpName (handler ns).tag st) with
  | none =>
    have present : taken host (dumpPath ++ Utility.dumpName (handler ns).tag st) = true := by
      by_contra absent
      rw [createNew_absent (by simpa [taken] using absent)] at created
      cases created
    rw [created] at ran
    rw [dumpOf, if_pos present]
    exact log_sends ran
  | some disk =>
    have absent : ¬ taken host (dumpPath ++ Utility.dumpName (handler ns).tag st) = true := by
      simp [taken, (createNew_some created).1]
    rw [created] at ran
    obtain ⟨filled, _, logged⟩ := bind_ok ran
    have sends : Sends { host with disk := filled } [(handler ns).dumped ++ _] after := log_sends logged
    rw [dumpOf, if_neg absent]
    exact ⟨sends.fits, sends.sent⟩

/-- A handler that logs a line first. -/
theorem entered_sends (ns : Namespace) {line : CString} {size : ℕ} (enters : ∀ dump, HandlerCall.entered ⟨ns, processPath, size, dump⟩ = [line])
    (ran : (do dumpScript (handler ns).tag (handler ns).dumped write dumpPath st locals (← host.log locals line)) =
      .ok after) :
    Sends host (HandlerCall.lines ⟨ns, processPath, size, dumpOf host ns dumpPath st⟩) after := by
  obtain ⟨middle, entered, ran⟩ := bind_ok ran
  have next := dumpScript_sends ns processPath size ran
  rw [dumpOf, taken, log_disk entered] at next
  rw [HandlerCall.lines, enters]
  exact sends_append (log_sends entered) next

/-- **Handlers.** If one of the five runs to its end, it has sent the lines of a
call of it. -/
theorem handlers_send (text : WString) (block : CharArray (text.units.length + 1)) (buffer : Buffer)
    (psa : Interception.SafeArray) (locale : CodePage) :
    (Interception.NativeClr.hookedUnAccess dumpPath processPath psa st locals host = .ok after →
        Sends host (HandlerCall.lines ⟨.nativeClr, processPath, psa.cElements, dumpOf host .nativeClr dumpPath st⟩) after) ∧
      (Interception.AssemblyLoad.amsiScanBuffer dumpPath processPath buffer st locals host = .ok after →
        Sends host (HandlerCall.lines ⟨.assemblyLoad, processPath, buffer.bytes.length,
          dumpOf host .assemblyLoad dumpPath st⟩) after) ∧
      (powershell.amsiScanBuffer dumpPath processPath buffer st locals host = .ok after →
        Sends host (HandlerCall.lines ⟨.powershell, processPath, buffer.bytes.length,
          dumpOf host .powershell dumpPath st⟩) after) ∧
      (VBScript.compileHooked dumpPath locale text block st locals host = .ok after →
        Sends host (HandlerCall.lines ⟨.vbScript, processPath, text.units.length, dumpOf host .vbScript dumpPath st⟩)
          after) ∧
      (JScript.parserHooked dumpPath locale text block st locals host = .ok after →
        Sends host (HandlerCall.lines ⟨.jScript, processPath, text.units.length, dumpOf host .jScript dumpPath st⟩)
          after) :=
  ⟨entered_sends .nativeClr fun _ => rfl, entered_sends .assemblyLoad fun _ => rfl,
    entered_sends .powershell fun _ => rfl, dumpScript_sends .vbScript processPath text.units.length,
    dumpScript_sends .jScript processPath text.units.length⟩

/-- The call of the handler that a script goes to. -/
def callOf (p : Process) (x : DumpRetention.Interception) (taken : Bool) : HandlerCall :=
  let dump := if taken then none else some (dumpFile p x)
  match x.script with
  | .powershell buffer => ⟨.powershell, p.processPath, buffer.bytes.length, dump⟩
  | .vbScript text _ => ⟨.vbScript, p.processPath, text.units.length, dump⟩
  | .jScript text _ => ⟨.jScript, p.processPath, text.units.length, dump⟩

/-- The reports of a call are its lines. -/
theorem reports_lines (p : Process) (x : DumpRetention.Interception) (taken : Bool) :
    (reports p x taken).map Report.line = (callOf p x taken).lines := by
  obtain ⟨script, millis, locals⟩ := x
  cases script <;> cases taken <;> rfl

/-- **Step lemma.** A call sends its reports. -/
theorem intercept_sends (ran : intercept p host x = .ok after) :
    Sends host ((reports p x (taken host (dumpFile p x))).map Report.line) after := by
  rw [reports_lines]
  obtain ⟨script, millis, locals⟩ := x
  cases script with
  | powershell buffer => exact entered_sends .powershell (fun _ => rfl) ran
  | vbScript text block => exact dumpScript_sends .vbScript p.processPath text.units.length ran
  | jScript text block => exact dumpScript_sends .jScript p.processPath text.units.length ran

/-- Its file is there from then on. -/
theorem taken_intercept (ran : intercept p host x = .ok after) :
    taken after = Function.update (taken host) (dumpFile p x) true := by
  funext path
  rcases DumpRetention.intercept_ok ran with ⟨present, same⟩ | ⟨_, _, files⟩
  · by_cases here : path = dumpFile p x
    · subst here
      rw [Function.update_self, taken, same]
      exact Option.isSome_iff_ne_none.mpr present
    · rw [Function.update_of_ne here, taken, same, taken]
  · by_cases here : path = dumpFile p x
    · subst here
      simp [taken, files]
    · rw [Function.update_of_ne here, taken, files, Function.update_of_ne here, taken]

/-- **Run lemma.** -/
theorem run_sends (ran : DumpRetention.run p host calls = .ok final) :
    Sends host ((transcript p (taken host) calls).map Report.line) final := by
  induction calls generalizing host with
  | nil =>
    cases ran
    exact ⟨fun _ member => absurd member List.not_mem_nil, (List.append_nil _).symm⟩
  | cons x rest ih =>
    rw [DumpRetention.run_cons] at ran
    obtain ⟨next, first, later⟩ := bind_ok ran
    have tail := ih later
    rw [taken_intercept first] at tail
    rw [transcript, List.map_append]
    exact sends_append (intercept_sends first) tail

/-! ## What is shown -/

theorem readable_line (r : Report) : Readable r.line := by
  apply Transcripts.readable_of_bracket
  cases r with
  | entered processPath length =>
    have bracket : (CString.literal "[+] Powershell in, Process : ").bytes.head? = some 91 := by decide
    simp [Report.line, powershell.enteredLine, List.head?_append, bracket]
  | dumped script path =>
    have bracket : script.dumped.bytes.head? = some 91 := by
      cases script with
      | powershell | vbScript | jScript => simp only [Script.dumped]; decide
    simp [Report.line, List.head?_append, bracket]
  | refused =>
    change (CString.literal "[-] Could not create dump file!").bytes.head? = some 91
    decide

/-- Read one by one, the reports are printed. -/
theorem reports_printed (lines : List Report) (fits : ∀ r ∈ lines, r.line.length + 2 ≤ MAX_BUFFER) (server : Server) :
    ∃ server', namedPipeLoop server (lines.map Report.bytes) =
      .ok (server', lines.map fun r => .print (firstLine r.line)) := by
  let groups : List (Request × List Request) := lines.map fun r => (⟨.logMsg, r.line⟩, [])
  have readable : ∀ g ∈ groups, Readable g.1.text := by
    intro g member
    obtain ⟨r, _, rfl⟩ := List.mem_map.mp member
    exact readable_line r
  have size : ∀ g ∈ groups, (stream (g.1 :: g.2)).length ≤ MAX_BUFFER := by
    intro g member
    obtain ⟨r, inside, rfl⟩ := List.mem_map.mp member
    have room := fits r inside
    rw [JoinedReads.stream_cons, stream, List.flatMap_nil, List.append_nil, JoinedReads.length_bytes]
    exact room
  have requests : groups.map (fun g => stream (g.1 :: g.2)) = lines.map Report.bytes := by
    rw [List.map_map]
    exact List.map_congr_left fun r _ => List.append_nil r.bytes
  have prints : groups.map (fun g => answer server (arrived g.1)) = lines.map fun r => .print (firstLine r.line) :=
    List.map_map
  obtain ⟨server', ran⟩ := JoinedReads.serve_groups groups readable size server
  exact ⟨server', by rw [← requests, ran, prints]⟩

/-! ## Truth -/

theorem count_reports (p : Process) (x : DumpRetention.Interception) (taken : Bool) (path : CString) :
    (reports p x taken).countP (Report.announces path) = if taken = false ∧ dumpFile p x = path then 1 else 0 := by
  unfold reports
  cases taken with
  | true => cases x.script <;> simp [Report.announces]
  | false => cases x.script <;> simp [Report.announces, List.countP_cons]

/-- **Run lemma.** What is announced is what was not there and is there now. -/
theorem count_transcript (ran : DumpRetention.run p host calls = .ok final) (path : CString) :
    (transcript p (taken host) calls).countP (Report.announces path) =
      if taken host path = false ∧ taken final path = true then 1 else 0 := by
  induction calls generalizing host with
  | nil =>
    cases ran
    cases taken final path <;> simp [transcript]
  | cons x rest ih =>
    rw [DumpRetention.run_cons] at ran
    obtain ⟨next, first, later⟩ := bind_ok ran
    have kept : taken next path = true → taken final path = true := by
      intro there
      obtain ⟨data, held⟩ := Option.isSome_iff_exists.mp there
      exact Option.isSome_iff_exists.mpr ⟨data, DumpRetention.run_keeps later held⟩
    have tail := ih later
    rw [taken_intercept first] at tail kept
    rw [transcript, List.countP_append, count_reports, tail]
    by_cases here : path = dumpFile p x
    · subst here
      rw [Function.update_self] at kept ⊢
      simp [kept rfl]
    · rw [Function.update_of_ne here, if_neg (fun both => here both.2.symm), Nat.zero_add]

end ClrDumper.Reports
