import ClrDumper.InjectionInvariant

/-! The launcher in every interleaving: the target's own code runs behind the
hooks that the arguments ask for, the launcher hangs only where the DLL was never
attached, and its runs are as long as what is printed. -/
namespace ClrDumper.InjectionSafety
open Execution CStrings CString MinHook HookClr NamedPipeIO NamedPipeLoop DumpPaths Launcher ClientPrograms HookLog
open Injection Transcripts InjectionInvariant
open HookClrProofs (sampleLayout)
open Dialogs (Program After cost)
open ScriptDump (MAX_PATH)

variable {server : Server} {stack : Stack} {layout : Layout} {s t : System}

/-! ## Progress -/

/-- The launcher waits for a DLL that was never attached. -/
def Hangs (s : System) : Prop := s.stage = .connectWriter ∧ (s.remote = .absent ∨ s.remote = .exited false)

/-- There is nothing that could end the wait. -/
theorem hangs_stuck (inv : Inv server layout s) (hangs : Hangs s) : ¬ Step stack layout s t := by
  obtain ⟨stage, remote⟩ := hangs
  have here := inv.consistent
  simp only [Consistent, stage] at here
  obtain ⟨loop, target⟩ := here
  intro step
  cases step with
  | parentFound next | parentMissing next | created next | notCreated next | allocated next | notAllocated next
    | remoteCreated next | remoteNotCreated next | readerConnected next | threadCreated next | threadNotCreated next
    | remoteEnded next | noRemote next | timeout next | resumed next | loopEnded next => cases stage.symm.trans next
  | writerConnected next opened => rcases remote with same | same <;> simp [same] at opened
  | loadFailed busy | openReader busy | openWriter busy | attached busy =>
    rcases remote with same | same <;> cases same.symm.trans busy
  | @talk party c may pipes step =>
    cases party with
    | client =>
      rcases may.1 with hooking | running
      · rcases remote with same | same <;> cases same.symm.trans hooking
      · cases target.symm.trans running
    | server => cases loop.symm.trans may
  | moment running | exit running => cases target.symm.trans running
  | loopEnds running => cases loop.symm.trans running

/-- The target has not ended, and what happened to it so far has made no fault. -/
def Orderly (server : Server) (layout : Layout) (s : System) : Prop :=
  s.target ≠ .exited ∧ ∃ w, HookClr.run layout .start
    (.processAttach (Transcripts.hookTypeOf server) :: s.moments.map Moment.event) = .ok w

/-- The DLL is detached and in the middle of nothing. -/
def Detached (s : System) : Prop := ∃ p, Idle s p ∧ p.world.attached = false

/-- The launcher can get to its end, without another timeout, and if the target is
still in order by way of a detach. -/
def Finishes (server : Server) (stack : Stack) (layout : Layout) (s : System) : Prop :=
  ∃ t, Relation.ReflTransGen (Step stack layout) s t ∧ t.stage = .finished ∧ t.timedOut = s.timedOut ∧
    (Orderly server layout s → Detached t)

theorem finishes_step (inv : Inv server layout s) (step : Step stack layout s t) (inTime : t.timedOut = s.timedOut)
    (keeps : Orderly server layout s → Orderly server layout t)
    (rest : Inv server layout t → Finishes server stack layout t) : Finishes server stack layout s := by
  obtain ⟨u, later, finished, same, detached⟩ := rest (inv_step inv step)
  exact ⟨u, .head step later, finished, same.trans inTime, fun orderly => detached (keeps orderly)⟩

/-- While the server and the DLL run, what is still to be said can be said. -/
theorem finishes_talk {told : List CString} {result : Except Fault Process × List CString} {left : ℕ}
    (inv : Inv server layout s) (talks : Talks server told result left s.conversation) (loop : s.loop = .running) (client : s.MayTalk .client)
    (pipes : s.stage ≠ .returned)
    (rest : ∀ c, Inv server layout { s with conversation := c } → Talks server told result 0 c →
      Finishes server stack layout { s with conversation := c }) : Finishes server stack layout s := by
  induction left generalizing s with
  | zero => exact rest s.conversation inv talks
  | succ less ih =>
    obtain ⟨c, party, step⟩ := talks_progress talks (Nat.succ_ne_zero less)
    have may : s.MayTalk party := by
      cases party with
      | server => exact loop
      | client => exact client
    obtain ⟨_, one, talks'⟩ := talks_step talks step
    obtain rfl := Nat.succ.inj one
    exact finishes_step inv (.talk may pipes step) rfl id fun inv => ih inv talks' loop client pipes rest

/-- `main` gets to its end without another word of the DLL. -/
def EndsAsItIs (stack : Stack) (layout : Layout) (s : System) : Prop :=
  ∃ t, Relation.ReflTransGen (Step stack layout) s t ∧ t.stage = .finished ∧ t.timedOut = s.timedOut ∧
    t.conversation.client = s.conversation.client

theorem ends_empty (stage : s.stage = .waitLoop) (exited : s.target = .exited) (loop : s.loop = .running)
    (empty : s.conversation.requests = []) : EndsAsItIs stack layout s :=
  ⟨_, .tail (.single (.loopEnds loop exited empty)) (.loopEnded stage rfl), rfl, rfl, rfl⟩

/-- After the target the server takes what is left in the pipe. -/
theorem ends_running {told : List CString} {result : Except Fault Process × List CString} {left : ℕ}
    (talks : Talks server told result left s.conversation) (stage : s.stage = .waitLoop) (exited : s.target = .exited)
    (loop : s.loop = .running) : EndsAsItIs stack layout s := by
  induction left generalizing s with
  | zero => exact ends_empty stage exited loop (talks_ended talks).2.2.1
  | succ less ih =>
    by_cases empty : s.conversation.requests = []
    · exact ends_empty stage exited loop empty
    · obtain ⟨c, step⟩ := talks_serve talks empty
      obtain ⟨_, one, talks'⟩ := talks_step talks step
      obtain rfl := Nat.succ.inj one
      have may : s.MayTalk .server := loop
      obtain ⟨t, later, finished, same, client⟩ := @ih { s with conversation := c } talks' stage exited loop
      exact ⟨t, .head (.talk may (by simp [stage]) step) later, finished, same, client.trans (step_server step)⟩

/-- Then its thread ends, and with it `main`. -/
theorem ends_exited (inv : Inv server layout s) (stage : s.stage = .waitLoop) (exited : s.target = .exited) :
    EndsAsItIs stack layout s := by
  have here := inv.consistent
  simp only [Consistent, stage] at here
  cases loop : s.loop with
  | absent => exact absurd loop here.1
  | ended => exact ⟨_, .single (.loopEnded stage loop), rfl, rfl, rfl⟩
  | running =>
    obtain ⟨_, _, _, talks⟩ := inv.told
    exact ends_running talks stage exited loop

theorem finishes_exited (inv : Inv server layout s) (stage : s.stage = .waitLoop) (exited : s.target = .exited) :
    Finishes server stack layout s := by
  obtain ⟨t, later, finished, same, _⟩ := ends_exited inv stage exited
  exact ⟨t, later, finished, same, fun orderly => absurd exited orderly.1⟩

/-- The target ends. -/
theorem finishes_exit (inv : Inv server layout s) (stage : s.stage = .waitLoop) (running : s.target = .running)
    (last : Orderly server layout s → Detached s) : Finishes server stack layout s := by
  have step : Step stack layout s { s with target := .exited } := .exit running
  obtain ⟨t, later, finished, same, client⟩ := ends_exited (inv_step inv step) stage rfl
  refine ⟨t, .head step later, finished, same, fun orderly => ?_⟩
  obtain ⟨p, idle, detached⟩ := last orderly
  exact ⟨p, client.trans idle, detached⟩

/-- The DLL can always be detached. -/
theorem step_detach (layout : Layout) (w : World) :
    ∃ w', HookClr.step layout w (Moment.event .processDetach) = .ok w' ∧ w'.attached = false := by
  cases attached : w.attached with
  | true => exact ⟨HookClr.detach layout w, by simp [Moment.event, HookClr.step, attached], rfl⟩
  | false => exact ⟨w, by simp [Moment.event, HookClr.step, attached], attached⟩

/-- The target runs with the DLL attached. -/
theorem finishes_running (inv : Inv server layout s) (stage : s.stage = .waitLoop) (running : s.target = .running)
    (attached : s.remote = .exited true) (loop : s.loop = .running) : Finishes server stack layout s := by
  have may : s.MayTalk .client := ⟨.inr running, by simp [running]⟩
  obtain ⟨outcome, left, lived, talks⟩ := inv.told
  apply finishes_talk inv talks loop may (by simp [stage])
  intro c inv ended
  cases outcome with
  | error fault =>
    apply finishes_exit inv stage running
    intro orderly
    obtain ⟨w, ran⟩ := orderly.2
    cases ran.symm.trans lived
  | ok p =>
    obtain ⟨idle, _⟩ := talks_ended ended
    obtain ⟨w, sound, off⟩ := step_detach layout p.world
    have detaches := (lives_snoc lived .processDetach).1
    rw [sound] at detaches
    have fits : Moment.Fits .processDetach := trivial
    refine finishes_step inv (.moment running idle attached fits) rfl (fun orderly => ⟨orderly.1, w, detaches.1⟩)
      fun detaching => ?_
    have said := talks_moment stack inv idle fits ended
    rw [sound] at said
    apply finishes_talk detaching said loop may (by simp [stage])
    intro d detached ended
    exact finishes_exit detached stage running fun _ => ⟨_, (talks_ended ended).1, off⟩

/-- The DLL gets through its attach, which makes no fault. -/
theorem finishes_hooking (inv : Inv server layout s) (hooking : s.remote = .hooking) (present : s.target ≠ .exited)
    (loop : s.loop = .running) (pipes : s.stage ≠ .returned)
    (rest : ∀ c, Inv server layout { s with conversation := c, remote := .exited true } →
      Finishes server stack layout { s with conversation := c, remote := .exited true }) :
    Finishes server stack layout s := by
  have still : s.moments = [] := by
    by_contra more
    cases hooking.symm.trans (inv.later more)
  obtain ⟨outcome, left, lived, talks⟩ := inv.told
  refine finishes_talk inv talks loop ⟨.inl hooking, present⟩ pipes fun c inv ended => ?_
  cases outcome with
  | error fault =>
    rw [still] at lived
    cases lived
  | ok p => exact finishes_step inv (.attached hooking present (talks_ended ended).1) rfl id fun inv => rest c inv

theorem finishes_waitLoop (inv : Inv server layout s) (stage : s.stage = .waitLoop) : Finishes server stack layout s := by
  have here := inv.consistent
  simp only [Consistent, stage] at here
  obtain ⟨present, target, opened, _⟩ := here
  rcases target with running | exited
  · have loop : s.loop = .running := by
      cases loop : s.loop with
      | absent => exact absurd loop present
      | running => rfl
      | ended => cases running.symm.trans (inv.ended loop).1
    have unended : s.target ≠ .exited := by simp [running]
    rcases opened with hooking | attached
    · exact finishes_hooking inv hooking unended loop (by simp [stage]) fun c inv =>
        finishes_running inv stage running rfl loop
    · exact finishes_running inv stage running attached loop
  · exact finishes_exited inv stage exited

theorem finishes_resume (inv : Inv server layout s) (stage : s.stage = .resume) : Finishes server stack layout s :=
  finishes_step inv (.resumed stage) rfl (fun orderly => ⟨nofun, orderly.2⟩) fun inv => finishes_waitLoop inv rfl

/-- The remote thread can end while it is waited for. -/
theorem finishes_waitRemote (inv : Inv server layout s) (stage : s.stage = .waitRemote) : Finishes server stack layout s := by
  have here := inv.consistent
  simp only [Consistent, stage] at here
  obtain ⟨loop, target, opened⟩ := here
  rcases opened with hooking | attached
  · apply finishes_hooking inv hooking (by simp [target]) loop (by simp [stage])
    intro c inv
    exact finishes_step inv (.remoteEnded stage rfl) rfl id fun inv => finishes_resume inv rfl
  · exact finishes_step inv (.remoteEnded stage attached) rfl id fun inv => finishes_resume inv rfl

theorem finishes_createThread (inv : Inv server layout s) (stage : s.stage = .createThread) :
    Finishes server stack layout s :=
  finishes_step inv (.threadCreated stage) rfl id fun inv => finishes_waitRemote inv rfl

theorem finishes_connectReader (inv : Inv server layout s) (stage : s.stage = .connectReader) :
    Finishes server stack layout s := by
  have connected : ∀ {t : System}, Inv server layout t → t.stage = .connectReader → Opened t → Finishes server stack layout t :=
    fun inv next opened => finishes_step inv (.readerConnected next opened) rfl id fun inv => finishes_createThread inv rfl
  have here := inv.consistent
  simp only [Consistent, stage] at here
  rcases here.2.2 with opening | opened
  · exact finishes_step inv (.openWriter opening (by simp [stage])) rfl id fun inv => connected inv stage (.inl rfl)
  · exact connected inv stage opened

theorem finishes_connectWriter (inv : Inv server layout s) (stage : s.stage = .connectWriter) (fine : ¬ Hangs s) :
    Finishes server stack layout s := by
  have connected : ∀ {t : System}, Inv server layout t → t.stage = .connectWriter →
      (t.remote = .opening ∨ t.remote = .hooking ∨ t.remote = .exited true) → Finishes server stack layout t :=
    fun inv next opened => finishes_step inv (.writerConnected next opened) rfl id fun inv => finishes_connectReader inv rfl
  cases remote : s.remote with
  | absent => exact absurd ⟨stage, .inl remote⟩ fine
  | loading => exact finishes_step inv (.openReader remote (by simp [stage])) rfl id fun inv => connected inv stage (.inl rfl)
  | opening => exact connected inv stage (.inl remote)
  | hooking => exact connected inv stage (.inr (.inl remote))
  | exited loaded =>
    cases loaded with
    | false => exact absurd ⟨stage, .inr remote⟩ fine
    | true => exact connected inv stage (.inr (.inr remote))

/-- Until it returns or hangs, the launcher can get to its end. -/
theorem finishes (inv : Inv server layout s) (here : s.stage ≠ .returned) (fine : ¬ Hangs s) :
    Finishes server stack layout s := by
  have created : ∀ {t : System}, Inv server layout t → t.stage = .createRemoteThread → Finishes server stack layout t := by
    intro t inv next
    apply finishes_step inv (.remoteCreated next) rfl id
    intro inv
    apply finishes_connectWriter inv rfl
    intro hangs
    rcases hangs.2 with absent | failed
    · cases absent
    · cases failed
  have allocated : ∀ {t : System}, Inv server layout t → t.stage = .allocate → Finishes server stack layout t := fun inv next =>
    finishes_step inv (.allocated next) rfl id fun inv => created inv rfl
  have suspended : ∀ {t : System}, Inv server layout t → t.stage = .createProcess → Finishes server stack layout t :=
    fun inv next => finishes_step inv (.created next) rfl (fun orderly => ⟨nofun, orderly.2⟩) fun inv => allocated inv rfl
  cases stage : s.stage with
  | findParent => exact finishes_step inv (.parentFound stage) rfl id fun inv => suspended inv rfl
  | createProcess => exact suspended inv stage
  | allocate => exact allocated inv stage
  | createRemoteThread => exact created inv stage
  | connectWriter => exact finishes_connectWriter inv stage fine
  | connectReader => exact finishes_connectReader inv stage
  | createThread => exact finishes_createThread inv stage
  | waitRemote => exact finishes_waitRemote inv stage
  | resume => exact finishes_resume inv stage
  | waitLoop => exact finishes_waitLoop inv stage
  | returned => exact absurd stage here
  | finished =>
    have ended := inv.consistent
    simp only [Consistent, stage] at ended
    exact ⟨s, .refl, stage, rfl, fun orderly => absurd (inv.ended ended.1).1 orderly.1⟩

/-! ## How long it can take -/

def stageRank : Stage → ℕ
  | .findParent => 0
  | .createProcess => 1
  | .allocate => 2
  | .createRemoteThread => 3
  | .connectWriter => 4
  | .connectReader => 5
  | .createThread => 6
  | .waitRemote => 7
  | .resume => 8
  | .waitLoop => 9
  | .returned | .finished => 10

def remoteRank : Remote → ℕ
  | .absent => 0
  | .loading => 1
  | .opening => 2
  | .hooking => 3
  | .exited _ => 4

def loopRank : Loop → ℕ
  | .absent => 0
  | .running => 1
  | .ended => 2

def targetRank : MainThread → ℕ
  | .absent => 0
  | .suspended => 1
  | .running => 2
  | .exited => 3

/-- How far the threads have got. -/
def rank (s : System) : ℕ := stageRank s.stage + remoteRank s.remote + loopRank s.loop + targetRank s.target

theorem rank_le (s : System) : rank s ≤ 19 := by
  have stage : stageRank s.stage ≤ 10 := by cases s.stage <;> decide
  have remote : remoteRank s.remote ≤ 4 := by cases s.remote <;> simp [remoteRank]
  have loop : loopRank s.loop ≤ 2 := by cases s.loop <;> decide
  have target : targetRank s.target ≤ 3 := by cases s.target <;> decide
  unfold rank
  omega

/-- The three kinds of steps: a thread gets on, something is said, or something
happens to the target. -/
theorem step_kinds (consistent : Consistent s) (step : Step stack layout s t) :
    (t.conversation = s.conversation ∧ t.moments = s.moments ∧ rank s < rank t) ∨
      (∃ party c, ClientPrograms.Step party s.conversation c ∧ t = { s with conversation := c }) ∨
      ∃ (p : Process) (moment : Moment), Idle s p ∧ moment.Fits ∧ t = { s with
        conversation := { s.conversation with client := .ready (perform stack layout p moment).run }
        moments := s.moments ++ [moment] } := by
  cases step with
  | created next =>
    simp only [Consistent, next] at consistent
    exact .inl ⟨rfl, rfl, by simp only [rank, next, consistent.2.2, stageRank, targetRank]; omega⟩
  | remoteCreated next =>
    simp only [Consistent, next] at consistent
    exact .inl ⟨rfl, rfl, by simp only [rank, next, consistent.1, stageRank, remoteRank]; omega⟩
  | threadCreated next =>
    simp only [Consistent, next] at consistent
    exact .inl ⟨rfl, rfl, by simp only [rank, next, consistent.1, stageRank, loopRank]; omega⟩
  | resumed next =>
    simp only [Consistent, next] at consistent
    exact .inl ⟨rfl, rfl, by simp only [rank, next, consistent.2.1, stageRank, targetRank]; omega⟩
  | parentFound next | parentMissing next | notCreated next | allocated next | notAllocated next
    | remoteNotCreated next | writerConnected next | readerConnected next | threadNotCreated next | remoteEnded next
    | noRemote next | timeout next | loopEnded next => exact .inl ⟨rfl, rfl, by simp only [rank, next, stageRank]; omega⟩
  | loadFailed busy | openReader busy | openWriter busy | attached busy =>
    exact .inl ⟨rfl, rfl, by simp only [rank, busy, remoteRank]; omega⟩
  | talk _ _ said => exact .inr (.inl ⟨_, _, said, rfl⟩)
  | moment _ idle _ fits => exact .inr (.inr ⟨_, _, idle, fits, rfl⟩)
  | exit running => exact .inl ⟨rfl, rfl, by simp only [rank, running, targetRank]; omega⟩
  | loopEnds running => exact .inl ⟨rfl, rfl, by simp only [rank, running, loopRank]; omega⟩

/-- What a run has done and what is left for it: each line of the console takes
two steps, and each of the two questions takes three. -/
structure Paid (server : Server) (layout : Layout) (n : ℕ) (s : System) : Prop where
  inv : Inv server layout s
  told : ∃ outcome left, Talks server (toldBefore server layout s.moments)
      (outcome, console server layout s.moments) left s.conversation ∧
    n + left ≤ rank s + s.moments.length + (2 * (console server layout s.moments).length + 3 * 2)

theorem paid_start (room : Room server) : Paid server layout 0 (.start server stack layout) := by
  obtain ⟨p, ends, _⟩ := ends_live stack layout room fun _ none => absurd none List.not_mem_nil
  have talks := talks_start (ends.carried [])
  rw [ends.run [], ends.cost []] at talks
  refine ⟨inv_start room, _, _, talks, ?_⟩
  rw [Nat.zero_add]
  exact Nat.le_add_left _ _

/-- **Step lemma.** -/
theorem paid_step {n : ℕ} (paid : Paid server layout n s) (step : Step stack layout s t) :
    Paid server layout (n + 1) t := by
  obtain ⟨inv, outcome, left, talks, budget⟩ := paid
  refine ⟨inv_step inv step, ?_⟩
  rcases step_kinds inv.consistent step with ⟨conversation, moments, more⟩ | ⟨party, c, said, rfl⟩ |
    ⟨p, moment, idle, fits, rfl⟩
  · rw [conversation, moments]
    exact ⟨outcome, left, talks, by omega⟩
  · obtain ⟨less, rfl, talks'⟩ := talks_step talks said
    exact ⟨outcome, less, talks', by dsimp only [rank] at budget ⊢; omega⟩
  · obtain rfl := talks_value talks idle
    have lives := (lives_of_idle inv idle).1
    refine ⟨_, _, talks_moment stack inv idle fits talks, ?_⟩
    dsimp only [rank] at budget ⊢
    rw [(lives_snoc lives moment).2, List.length_append, List.length_append, List.length_singleton]
    omega

/-- **Run lemma.** -/
theorem paid_after (room : Room server) {n : ℕ} (reach : After (Step stack layout) (.start server stack layout) n s) :
    Paid server layout n s := by
  induction reach with
  | start => exact paid_start room
  | step _ step paid => exact paid_step paid step

/-! ## A launcher -/

/-- Paths are cut off before their last backslash. -/
def sampleShell : Shell where
  pathRemoveFileSpec path := path.take ((path.bytes.reverse.dropWhile (· != 92)).length - 1)
  cuts _ := List.take_prefix _ _

/-- `ClrDumper.exe -vbscript C:\samples\a.vbs`, in `C:`. -/
def sampleArguments : List CString :=
  [.literal "C:\\ClrDumper.exe", .literal "-vbscript", .literal "C:\\samples\\a.vbs"]

theorem sample_prepared : ∃ made, prepare sampleShell usualEnvironment (.filled _ 1)
    ⟨.filled _ 1, .filled _ 1, .filled _ 1⟩ sampleArguments = .ok (some made) := ⟨_, rfl⟩

theorem sample_finishes : ∃ made, prepare sampleShell usualEnvironment (.filled _ 1)
    ⟨.filled _ 1, .filled _ 1, .filled _ 1⟩ sampleArguments = .ok (some made) ∧
    ∃ s, Reachable (made.server (.filled _ 1) (.filled _ 1) 1) sampleStack sampleLayout s ∧ s.stage = .finished ∧
      s.timedOut = false ∧ Detached s := by
  obtain ⟨made, ran⟩ := sample_prepared
  obtain ⟨s, reach, finished, inTime, detached⟩ := finishes (inv_start (server_room ran)) nofun fun hangs => by
    cases hangs.1
  exact ⟨made, ran, s, reach, finished, inTime, detached ⟨nofun, _, rfl⟩⟩

/-! ## Every interleaving -/

/-- **The target runs behind its hooks.** Take arguments that `main` accepts. In
every interleaving of the threads, whatever Windows refuses but to create and to
open the pipes, as it does for a second launcher, once the target is about to be
resumed or has been, and the remote thread did not time out, the DLL is attached, and whenever it is in the middle of nothing the process is as the
hook type of the arguments and what happened since make it. That is so when the
target is about to be resumed. -/
theorem target_runs_hooked (shell : Shell) (env : Environment) (dll : CharArray MAX_PATH) (locals : Locals)
    (argv : List CString) (made : Prepared) (ran : prepare shell env dll locals argv = .ok (some made))
    (buffer msg : CharArray MAX_BUFFER) (type : ℤ) (stack : Stack) (layout : Layout) (s : System)
    (reach : Reachable (made.server buffer msg type) stack layout s) (inTime : s.timedOut = false)
    (resumes : s.stage = .resume ∨ s.target = .running ∨ s.target = .exited) :
    s.remote = .exited true ∧ (s.moments = [] → ∃ p, Idle s p) ∧ (s.stage = .resume → s.moments = []) ∧
      ∀ p, Idle s p →
        HookClr.run layout .start (.processAttach made.hookType :: s.moments.map Moment.event) = .ok p.world ∧
          ∀ ns, selected made.hookType = some ns → (p._dumpPath ns).cstring = .ok made.directory := by
  have inv := inv_reachable (server_room ran) reach
  have here := inv.consistent
  have exited := consistent_resumes here inTime resumes
  refine ⟨exited, inv.attached exited, fun next => inv.still (Or.inr ?_), fun p idle => ?_⟩
  · simp only [Consistent, next] at here
    exact here.2.1
  · have lives := (lives_of_idle inv idle).1
    rw [Lives, server_hookType ran, server_directory] at lives
    exact lives

theorem target_runs_hooked_sample : ∃ (made : Prepared) (s : System), s.stage = .finished ∧ s.remote = .exited true ∧
    ∀ p, Idle s p → HookClr.run sampleLayout .start (.processAttach made.hookType :: s.moments.map Moment.event) =
      .ok p.world := by
  obtain ⟨made, ran, s, reach, finished, inTime, _⟩ := sample_finishes
  have here := (inv_reachable (server_room ran) reach).consistent
  simp only [Consistent, finished] at here
  obtain ⟨exited, _, _, lives⟩ := target_runs_hooked sampleShell usualEnvironment _ _ sampleArguments made ran _ _ _
    sampleStack sampleLayout s reach inTime (.inr here.2.1)
  exact ⟨made, s, finished, exited, fun p idle => (lives p idle).1⟩

/-- **Hanging.** Windows creates the pipes and lets the DLL open them. Then `main`,
while it has not returned, can get to its end from every state that the threads
can be in, whatever they did so far, except for one kind: it waits for its pipe to
be opened, and the remote thread could not be made or could not load the DLL. Then
nothing happens any more, and the target stays suspended. To get to its end it
does not need a fault: a target that has not ended and whose moments so far made
none can detach the DLL first. -/
theorem hangs_or_finishes (shell : Shell) (env : Environment) (dll : CharArray MAX_PATH) (locals : Locals)
    (argv : List CString) (made : Prepared) (ran : prepare shell env dll locals argv = .ok (some made))
    (buffer msg : CharArray MAX_BUFFER) (type : ℤ) (stack : Stack) (layout : Layout) (s : System)
    (reach : Reachable (made.server buffer msg type) stack layout s) (here : s.stage ≠ .returned) :
    (¬ Hangs s → ∃ t, Relation.ReflTransGen (Step stack layout) s t ∧ t.stage = .finished ∧ t.timedOut = s.timedOut ∧
        (s.target ≠ .exited →
          (∃ w, HookClr.run layout .start (.processAttach made.hookType :: s.moments.map Moment.event) = .ok w) →
            ∃ p, Idle t p ∧ p.world.attached = false)) ∧
      (Hangs s → s.target = .suspended ∧ ¬ ∃ t, Step stack layout s t) := by
  have inv := inv_reachable (server_room ran) reach
  refine ⟨fun fine => ?_, fun hangs => ⟨?_, fun ⟨t, step⟩ => hangs_stuck inv hangs step⟩⟩
  · obtain ⟨t, later, finished, same, detached⟩ := finishes inv here fine
    rw [Orderly, server_hookType ran] at detached
    exact ⟨t, later, finished, same, fun present sound => detached ⟨present, sound⟩⟩
  · have consistent := inv.consistent
    simp only [Consistent, hangs.1] at consistent
    exact consistent.2

theorem hangs_or_finishes_sample : ∃ (made : Prepared) (t : System),
    Reachable (made.server (.filled _ 1) (.filled _ 1) 1) sampleStack sampleLayout t ∧ t.stage = .finished ∧
      ∃ p, Idle t p ∧ p.world.attached = false := by
  obtain ⟨made, ran⟩ := sample_prepared
  obtain ⟨t, reach, finished, _, detached⟩ := (hangs_or_finishes sampleShell usualEnvironment _ _ sampleArguments made ran
    (.filled _ 1) (.filled _ 1) 1 sampleStack sampleLayout _ .refl nofun).1 fun hangs => by cases hangs.1
  exact ⟨made, t, reach, finished, detached nofun ⟨_, rfl⟩⟩

/-- **How long it can take.** However the threads are interleaved, their steps are
as many as the lines on the console and the moments of the target allow. -/
theorem run_bounded (shell : Shell) (env : Environment) (dll : CharArray MAX_PATH) (locals : Locals)
    (argv : List CString) (made : Prepared) (ran : prepare shell env dll locals argv = .ok (some made))
    (buffer msg : CharArray MAX_BUFFER) (type : ℤ) (stack : Stack) (layout : Layout) (n : ℕ) (s : System)
    (reach : After (Step stack layout) (.start (made.server buffer msg type) stack layout) n s) :
    n ≤ 25 + s.moments.length + 2 * (console (made.server buffer msg type) layout s.moments).length := by
  obtain ⟨_, outcome, left, _, budget⟩ := paid_after (server_room ran) reach
  have most := rank_le s
  omega

theorem run_bounded_sample : ∃ (made : Prepared) (n : ℕ) (s : System), s.stage = .finished ∧ 9 ≤ n ∧
    n ≤ 25 + s.moments.length + 2 * (console (made.server (.filled _ 1) (.filled _ 1) 1) sampleLayout s.moments).length := by
  obtain ⟨made, ran⟩ := sample_prepared
  have first : After (Step sampleStack sampleLayout)
    (.start (made.server (.filled _ 1) (.filled _ 1) 1) sampleStack sampleLayout) 0 _ := .start
  have remote := (((first.step (.parentFound rfl)).step (.created rfl)).step (.allocated rfl)).step (.remoteCreated rfl)
  have writer := (remote.step (.openReader rfl nofun)).step (.writerConnected rfl (.inl rfl))
  have reader := (writer.step (.openWriter rfl nofun)).step (.readerConnected rfl (.inl rfl))
  obtain ⟨u, waits, stage⟩ : ∃ u, After (Step sampleStack sampleLayout)
      (.start (made.server (.filled _ 1) (.filled _ 1) 1) sampleStack sampleLayout) 9 u ∧ u.stage = .waitRemote :=
    ⟨_, reader.step (.threadCreated rfl), rfl⟩
  obtain ⟨s, later, finished, -⟩ := finishes (paid_after (server_room ran) waits).inv (by simp [stage]) fun hangs => by
    cases stage.symm.trans hangs.1
  obtain ⟨n, long, reach⟩ : ∃ n, 9 ≤ n ∧ After (Step sampleStack sampleLayout)
      (.start (made.server (.filled _ 1) (.filled _ 1) 1) sampleStack sampleLayout) n s := by
    clear finished
    induction later with
    | refl => exact ⟨9, Nat.le_refl 9, waits⟩
    | tail _ step ih =>
      obtain ⟨n, long, reach⟩ := ih
      exact ⟨n + 1, Nat.le_succ_of_le long, reach.step step⟩
  exact ⟨made, n, s, finished, long, run_bounded sampleShell usualEnvironment _ _ sampleArguments made ran _ _ _ _ _ n s
    reach⟩

end ClrDumper.InjectionSafety
