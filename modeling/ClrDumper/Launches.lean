import ClrDumper.Captures
import ClrDumper.InjectionSafety

/-! From the command line to the disk: what the launcher, its server and the hook
DLL make of the target before it runs is the target that captures. -/
namespace ClrDumper.Launches
open Execution CStrings CString HookClr HookClrProofs NamedPipeIO LockStep Interception
open Injection InjectionInvariant InjectionSafety Captures
open Launcher (Environment Locals usualEnvironment)
open HookLog (Stack)
open Transcripts (sampleStack)
open ScriptDump (MAX_PATH Host CodePage)
open DumpRetention (dumpFile Fits NoDumps Apart sampleProcess sampleHost)

variable {shell : Shell} {env : Environment} {path : CharArray MAX_PATH} {locals : Locals} {argv : List CString}
  {made : Prepared} {buffer msg : CharArray MAX_BUFFER} {type : ℤ} {stack : Stack} {layout : Layout} {s t : System}

/-- The target as the DLL has left it when nobody has called anything. -/
def resumed (w : World) (host : Host) : Interception.Target := ⟨w, host, fun _ => false, false⟩

/-- When the target is about to be resumed, it is the one that the DLL was just
attached to, with the launcher's directory. -/
theorem resumed_start (ran : prepare shell env path locals argv = .ok (some made))
    (reach : Reachable (made.server buffer msg type) stack layout s) (inTime : s.timedOut = false)
    (next : s.stage = .resume) :
    ∃ q, Idle s q ∧ (∀ ns, selected made.hookType = some ns → (q._dumpPath ns).cstring = .ok made.directory) ∧
      ∀ host, resumed q.world host = .start layout made.hookType host := by
  have inv := inv_reachable (server_room ran) reach
  have here := inv.consistent
  have exited := consistent_resumes here inTime (.inl next)
  simp only [Consistent, next] at here
  have still : s.moments = [] := inv.still (.inr here.2.1)
  obtain ⟨q, idle⟩ := inv.attached exited still
  have lives := (lives_of_idle inv idle).1
  rw [Lives, server_hookType ran, server_directory, still] at lives
  obtain ⟨world, paths⟩ := lives
  have attached : attach layout made.hookType .start = q.world := Except.ok.inj world
  exact ⟨q, idle, paths, fun host => by rw [resumed, Interception.Target.start, attached]⟩

/-- **From the command line to the disk.** Take arguments of a mode for scripts
that `main` accepts, and a moment, in any interleaving in which the pipes are
created and opened, in which the target is about to be resumed in time. Then the process as it really is runs any acts that
leave its hooks alone with the outcomes of that mode, and in the end every script
that went through a hook is on disk in the launcher's directory, if their dumps
fit the arrays, share no name and were not there before. -/
theorem launched_scripts_kept (shell : Shell) (env : Environment) (path : CharArray MAX_PATH) (locals : Locals)
    (argv : List CString) (made : Prepared) (ran : prepare shell env path locals argv = .ok (some made))
    (buffer msg : CharArray MAX_BUFFER) (type : ℤ) (stack : Stack) (layout : Layout) (s : System)
    (reach : Reachable (made.server buffer msg type) stack layout s) (inTime : s.timedOut = false)
    (next : s.stage = .resume) (dll : Addresses) (acts : List Act) (calls : List DumpRetention.Interception)
    (outcomes : List Outcome) (scripted : Scripted layout dll acts made.hookType calls outcomes)
    (p : DumpRetention.Process) (directory : p.dumpPath = made.directory) (host : Host) (fresh : NoDumps p host)
    (fits : ∀ x ∈ calls, Fits p x) (apart : calls.Pairwise Apart) :
    ∃ q, Idle s q ∧ (∀ ns, selected made.hookType = some ns → (q._dumpPath ns).cstring = .ok p.dumpPath) ∧
      ∃ t, (target layout dll p).run (resumed q.world host) acts = .ok (t, outcomes) ∧ t.exited = false ∧
        ∀ x ∈ calls, t.host.disk.files (dumpFile p x) = some (x.script.contents p.locale) := by
  obtain ⟨q, idle, paths, start⟩ := resumed_start ran reach inTime next
  refine ⟨q, idle, directory ▸ paths, ?_⟩
  rw [start host]
  exact (recorded_of_told (scripted_told scripted p host)).kept fresh fits apart

/-! ## A launch -/

/-- What runs after the resumption comes from a moment before it. -/
theorem stage_back (step : Step stack layout s t) (inTime : t.timedOut = false)
    (later : t.stage = .waitLoop ∨ t.stage = .finished) :
    s.timedOut = false ∧ (s.stage = .resume ∨ s.stage = .waitLoop ∨ s.stage = .finished) := by
  cases step with
  | parentFound | parentMissing | created | notCreated | allocated | notAllocated | remoteCreated | remoteNotCreated
    | writerConnected | readerConnected | threadCreated | threadNotCreated | remoteEnded | noRemote | timeout =>
    simp at later
  | resumed next => exact ⟨inTime, .inl next⟩
  | loopEnded next => exact ⟨inTime, .inr (.inl next)⟩
  | loadFailed | openReader | openWriter | talk | attached | moment | exit | loopEnds => exact ⟨inTime, .inr later⟩

theorem resumed_before {server : NamedPipeLoop.Server} (reach : Reachable server stack layout t) (inTime : t.timedOut = false)
    (later : t.stage = .resume ∨ t.stage = .waitLoop ∨ t.stage = .finished) :
    ∃ s, Reachable server stack layout s ∧ s.timedOut = false ∧ s.stage = .resume := by
  induction reach with
  | refl => simp [System.start] at later
  | tail before step ih =>
    rcases later with next | later
    · exact ⟨_, .tail before step, inTime, next⟩
    · obtain ⟨inTime, later⟩ := stage_back step inTime later
      exact ih inTime later

theorem sample_made : ∃ made, prepare sampleShell usualEnvironment (.filled _ 1)
    ⟨.filled _ 1, .filled _ 1, .filled _ 1⟩ sampleArguments = .ok (some made) ∧
    made.hookType = ScriptEngine.vbScript.hookType ∧ sampleProcess.dumpPath = made.directory :=
  ⟨_, rfl, rfl, rfl⟩

theorem launched_scripts_kept_sample : ∃ (q : HookLog.Process) (t : Interception.Target),
    (target sampleLayout sampleAddresses sampleProcess).run (resumed q.world sampleHost) sampleActs =
        .ok (t, sampleActs.filterMap (plain sampleLayout)) ∧
      ∀ x ∈ sampleActs.filterMap (compiled .vbScript),
        t.host.disk.files (dumpFile sampleProcess x) = some (x.script.contents sampleProcess.locale) := by
  obtain ⟨made, ran, mode, directory⟩ := sample_made
  obtain ⟨made', ran', u, reach, finished, inTime, _⟩ := sample_finishes
  obtain rfl : made = made' := by
    rw [ran, Except.ok.injEq, Option.some.injEq] at ran'
    exact ran'
  obtain ⟨s, reach, inTime, next⟩ := resumed_before reach inTime (.inr (.inr finished))
  have scripted := Scripted.engine .vbScript sampleActs_orderly
  rw [← mode] at scripted
  obtain ⟨q, _, _, t, runs, _, files⟩ := launched_scripts_kept sampleShell usualEnvironment _ _ sampleArguments made ran
    _ _ _ sampleStack sampleLayout s reach inTime next sampleAddresses sampleActs _ _ scripted sampleProcess directory
    sampleHost (fun _ _ => rfl) sampleActs_fit (List.pairwise_singleton _ _)
  exact ⟨q, t, runs, files⟩

end ClrDumper.Launches
