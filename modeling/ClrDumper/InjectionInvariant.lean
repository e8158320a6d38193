import ClrDumper.Injection
import ClrDumper.Transcripts

/-! What holds of the launcher, the remote thread and the target in every
interleaving: how far the threads are apart, and what was said so far. -/
namespace ClrDumper.InjectionInvariant
open Execution CStrings CString MinHook HookClr NamedPipeIO NamedPipeLoop DumpPaths Launcher ClientPrograms HookLog
open Injection Transcripts
open Dialogs (Program After cost)
open ScriptDump (MAX_PATH)

/-! ## The tables -/

variable {shell : Shell} {env : Environment} {dll : CharArray MAX_PATH} {locals : Locals} {argv : List CString}
  {made : Prepared} {buffer msg : CharArray MAX_BUFFER} {type : ℤ}

theorem dllPath_ok {argv0 directory path : CString} (ran : dllPath shell argv0 dll = .ok (directory, path)) :
    directory.length + 12 < MAX_PATH := by
  obtain ⟨whole, copied, ran⟩ := bind_ok ran
  rw [(CharArray.copy_ok copied).2, ok_bind] at ran
  obtain ⟨front, cut, ran⟩ := bind_ok ran
  rw [CharArray.concat_eq_copy (CharArray.copy_ok cut).2] at ran
  obtain ⟨joined, stored, ran⟩ := bind_ok ran
  obtain ⟨room, text⟩ := CharArray.copy_ok stored
  rw [text] at ran
  cases ran
  have name : (CString.literal "\\HookClr.dll").length = 12 := by decide
  rw [CString.length_append, name] at room
  exact room

/-- `main` opens the pipes with a directory that leaves room for the name of the
DLL, and with the hook type of its first argument. -/
theorem prepare_ok (ran : prepare shell env dll locals argv = .ok (some made)) :
    made.directory.length + 12 < MAX_PATH ∧ ∃ argv1, Launcher.hookTypeOf argv1 = some made.hookType := by
  unfold prepare at ran
  split at ran
  · rename_i argv0 argv1 argv2 rest
    obtain ⟨⟨directory, path⟩, located, ran⟩ := bind_ok ran
    obtain ⟨pefile, _, ran⟩ := bind_ok ran
    cases accepted : Launcher.hookTypeOf argv1 with
    | none =>
      rw [accepted] at ran
      cases ran
    | some hookType =>
      rw [accepted] at ran
      obtain ⟨target, _, ran⟩ := bind_ok ran
      cases ran
      exact ⟨dllPath_ok located, argv1, accepted⟩
  · obtain ⟨located, _, ran⟩ := bind_ok ran
    cases ran
  · cases ran

theorem hookType_small {argv1 : CString} {hookType : ℤ} (accepted : Launcher.hookTypeOf argv1 = some hookType) :
    (Int32.ofInt hookType).toInt = hookType := by
  unfold Launcher.hookTypeOf at accepted
  split_ifs at accepted
  all_goals
    cases accepted
    decide

theorem server_directory (made : Prepared) : dumpPathOf (made.server buffer msg type) = made.directory := by
  simp [dumpPathOf, KeyMap.lookup, Prepared.server]

theorem server_hookType (ran : prepare shell env dll locals argv = .ok (some made)) :
    Transcripts.hookTypeOf (made.server buffer msg type) = made.hookType := by
  obtain ⟨_, argv1, accepted⟩ := prepare_ok ran
  simpa [Transcripts.hookTypeOf, KeyMap.lookup, Prepared.server] using hookType_small accepted

/-- So the directory fits into the arrays of the DLL. -/
theorem server_room (ran : prepare shell env dll locals argv = .ok (some made)) : Room (made.server buffer msg type) := by
  obtain ⟨room, _⟩ := prepare_ok ran
  rw [Room, server_directory]
  refine ⟨by omega, fun ns _ => ?_⟩
  obtain ⟨_, size, _⟩ := handler_sizes ns
  unfold MAX_PATH at room
  omega

/-! ## The threads -/

variable {server : Server} {stack : Stack} {layout : Layout} {s t : System}

/-- The DLL has opened both pipes. -/
def Opened (s : System) : Prop := s.remote = .hooking ∨ s.remote = .exited true

/-- What the place of `main` says about the other threads. -/
def Consistent (s : System) : Prop :=
  match s.stage with
  | .findParent | .createProcess => s.remote = .absent ∧ s.loop = .absent ∧ s.target = .absent
  | .allocate | .createRemoteThread => s.remote = .absent ∧ s.loop = .absent ∧ s.target = .suspended
  | .connectWriter => s.loop = .absent ∧ s.target = .suspended
  | .connectReader => s.loop = .absent ∧ s.target = .suspended ∧ (s.remote = .opening ∨ Opened s)
  | .createThread => s.loop = .absent ∧ s.target = .suspended ∧ Opened s
  | .waitRemote => s.loop = .running ∧ s.target = .suspended ∧ Opened s
  | .resume => s.loop = .running ∧ s.target = .suspended ∧ Opened s ∧ (s.timedOut = false → s.remote = .exited true)
  | .waitLoop => s.loop ≠ .absent ∧ (s.target = .running ∨ s.target = .exited) ∧ Opened s ∧
      (s.timedOut = false → s.remote = .exited true)
  | .returned => s.loop = .absent ∧ (s.target = .absent ∨ s.target = .suspended)
  | .finished => s.loop = .ended ∧ (s.target = .running ∨ s.target = .exited) ∧ Opened s ∧
      (s.timedOut = false → s.remote = .exited true)

/-- The remote thread goes on. -/
theorem consistent_remote {remote : Remote} (consistent : Consistent s) (present : s.remote ≠ .absent)
    (opening : s.remote = .opening → remote = .opening ∨ remote = .hooking)
    (opened : Opened s → remote = .hooking ∨ remote = .exited true)
    (exited : s.remote = .exited true → remote = .exited true) : Consistent { s with remote := remote } := by
  have reading : s.remote = .opening ∨ Opened s → remote = .opening ∨ (remote = .hooking ∨ remote = .exited true) :=
    fun before => before.elim (fun before => (opening before).imp_right .inl) fun before => .inr (opened before)
  unfold Consistent at consistent ⊢
  dsimp only [Opened] at opened reading ⊢
  cases stage : s.stage with
  | findParent | createProcess | allocate | createRemoteThread =>
    simp only [stage] at consistent
    exact absurd consistent.1 present
  | connectWriter | returned =>
    simp only [stage] at consistent
    exact consistent
  | connectReader =>
    simp only [stage] at consistent
    exact ⟨consistent.1, consistent.2.1, reading consistent.2.2⟩
  | createThread | waitRemote =>
    simp only [stage] at consistent
    exact ⟨consistent.1, consistent.2.1, opened consistent.2.2⟩
  | resume | waitLoop | finished =>
    simp only [stage] at consistent
    exact ⟨consistent.1, consistent.2.1, opened consistent.2.2.1, fun inTime => exited (consistent.2.2.2 inTime)⟩

/-- The target ends. -/
theorem consistent_exit (consistent : Consistent s) (running : s.target = .running) :
    Consistent { s with target := .exited } := by
  unfold Consistent at consistent ⊢
  cases stage : s.stage with
  | findParent | createProcess | allocate | createRemoteThread | connectWriter | connectReader | createThread
    | waitRemote | resume | returned => simp [stage, running] at consistent
  | waitLoop | finished =>
    simp only [stage] at consistent
    exact ⟨consistent.1, .inr rfl, consistent.2.2⟩

/-- The server's thread ends. -/
theorem consistent_loopEnds (consistent : Consistent s) (running : s.loop = .running) (closed : s.target = .exited) :
    Consistent { s with loop := .ended } := by
  unfold Consistent at consistent ⊢
  cases stage : s.stage with
  | findParent | createProcess | allocate | createRemoteThread | connectWriter | connectReader | createThread
    | waitRemote | resume | returned => simp [stage, running, closed] at consistent
  | waitLoop =>
    simp only [stage] at consistent
    exact ⟨nofun, consistent.2⟩
  | finished => simp [stage, running] at consistent

/-- **Step lemma.** -/
theorem consistent_step (consistent : Consistent s) (step : Step stack layout s t) : Consistent t := by
  have here : ∀ {stage}, s.stage = stage → Consistent { s with stage := stage } := by
    rintro _ rfl
    exact consistent
  cases step with
  | parentFound next => exact ⟨(here next).1, (here next).2⟩
  | parentMissing next => exact ⟨(here next).2.1, .inl (here next).2.2⟩
  | created next => exact ⟨(here next).1, (here next).2.1, rfl⟩
  | notCreated next => exact ⟨(here next).2.1, .inl (here next).2.2⟩
  | allocated next => exact ⟨(here next).1, (here next).2⟩
  | notAllocated next => exact ⟨(here next).2.1, .inr (here next).2.2⟩
  | remoteCreated next => exact (here next).2
  | remoteNotCreated next => exact (here next).2
  | writerConnected next opened => exact ⟨(here next).1, (here next).2, opened⟩
  | readerConnected next opened => exact ⟨(here next).1, (here next).2.1, opened⟩
  | threadCreated next => exact ⟨rfl, (here next).2⟩
  | threadNotCreated next => exact ⟨(here next).1, .inr (here next).2.1⟩
  | @remoteEnded loaded next exited =>
    refine ⟨(here next).1, (here next).2.1, (here next).2.2, fun _ => ?_⟩
    rcases (here next).2.2 with hooking | ended
    · cases hooking.symm.trans exited
    · exact ended
  | noRemote next absent =>
    rcases (here next).2.2 with hooking | ended
    · cases hooking.symm.trans absent
    · cases ended.symm.trans absent
  | timeout next => exact ⟨(here next).1, (here next).2.1, (here next).2.2, fun inTime => by cases inTime⟩
  | resumed next =>
    refine ⟨?_, .inl rfl, (here next).2.2⟩
    rw [(here next).1]
    decide
  | loopEnded next ended => exact ⟨ended, (here next).2⟩
  | loadFailed loading =>
    exact consistent_remote consistent (by simp [loading]) (by simp [loading]) (by simp [Opened, loading]) (by simp [loading])
  | openReader loading pipes =>
    exact consistent_remote consistent (by simp [loading]) (by simp [loading]) (by simp [Opened, loading]) (by simp [loading])
  | openWriter opening pipes =>
    exact consistent_remote consistent (by simp [opening]) (fun _ => .inr rfl) (fun _ => .inl rfl) (by simp [opening])
  | talk may pipes step => exact consistent
  | attached hooking present done =>
    exact consistent_remote consistent (by simp [hooking]) (by simp [hooking]) (fun _ => .inr rfl) (fun _ => rfl)
  | moment running done exited fits => exact consistent
  | exit running => exact consistent_exit consistent running
  | loopEnds running closed empty => exact consistent_loopEnds consistent running closed

/-- The target is not resumed before the remote thread has ended, unless that
took too long. -/
theorem consistent_resumes (consistent : Consistent s) (inTime : s.timedOut = false)
    (resumes : s.stage = .resume ∨ s.target = .running ∨ s.target = .exited) : s.remote = .exited true := by
  have early : s.stage ≠ .resume → s.target = .absent ∨ s.target = .suspended → s.remote = .exited true := by
    intro other before
    rcases resumes with next | running | exited
    · exact absurd next other
    · rcases before with same | same <;> cases running.symm.trans same
    · rcases before with same | same <;> cases exited.symm.trans same
  unfold Consistent at consistent
  cases stage : s.stage with
  | findParent | createProcess =>
    simp only [stage] at consistent
    exact early (by simp [stage]) (.inl consistent.2.2)
  | allocate | createRemoteThread =>
    simp only [stage] at consistent
    exact early (by simp [stage]) (.inr consistent.2.2)
  | connectWriter =>
    simp only [stage] at consistent
    exact early (by simp [stage]) (.inr consistent.2)
  | connectReader | createThread | waitRemote =>
    simp only [stage] at consistent
    exact early (by simp [stage]) (.inr consistent.2.1)
  | returned =>
    simp only [stage] at consistent
    exact early (by simp [stage]) consistent.2
  | resume | waitLoop | finished =>
    simp only [stage] at consistent
    exact consistent.2.2.2 inTime

/-! ## What they tell each other -/

/-- The process after the attach and the moments so far, with the launcher's
directory in the selected namespace. -/
def Lives (server : Server) (layout : Layout) (moments : List Moment) (p : Process) : Prop :=
  HookClr.run layout .start (.processAttach (Transcripts.hookTypeOf server) :: moments.map Moment.event) = .ok p.world ∧
    ∀ ns, selected (Transcripts.hookTypeOf server) = some ns → (p._dumpPath ns).cstring = .ok (dumpPathOf server)

/-- The process, or the fault that the attach and the moments so far have ended
with. -/
def Lived (server : Server) (layout : Layout) (moments : List Moment) : Exec Process → Prop
  | .ok p => Lives server layout moments p
  | .error fault =>
    HookClr.run layout .start (.processAttach (Transcripts.hookTypeOf server) :: moments.map Moment.event) = .error fault

/-- What the DLL has told before the last thing that happened to it. -/
def toldBefore (server : Server) (layout : Layout) : List Moment → List CString
  | [] => []
  | moment :: rest => console server layout (moment :: rest).dropLast

theorem toldBefore_snoc (moments : List Moment) (moment : Moment) :
    toldBefore server layout (moments ++ [moment]) = console server layout moments := by
  cases moments with
  | nil => rfl
  | cons first rest =>
    rw [List.cons_append, toldBefore, ← List.cons_append, List.dropLast_concat]

/-- The DLL is not in the middle of anything. -/
def Idle (s : System) (p : Process) : Prop := s.conversation.client = .ready (.done (.ok p))

structure Inv (server : Server) (layout : Layout) (s : System) : Prop where
  consistent : Consistent s
  told : ∃ outcome left, Lived server layout s.moments outcome ∧
    Talks server (toldBefore server layout s.moments) (outcome, console server layout s.moments) left s.conversation
  still : s.target = .absent ∨ s.target = .suspended → s.moments = []
  later : s.moments ≠ [] → s.remote = .exited true
  attached : s.remote = .exited true → s.moments = [] → ∃ p, Idle s p
  ended : s.loop = .ended → s.target = .exited ∧ s.conversation.requests = []

theorem inv_start (room : Room server) : Inv server layout (.start server stack layout) := by
  obtain ⟨p, ends, paths⟩ := ends_live stack layout room fun _ none => absurd none List.not_mem_nil
  have talks := talks_start (ends.carried [])
  rw [ends.run []] at talks
  refine ⟨⟨rfl, rfl, rfl⟩, ⟨_, _, ?_, talks⟩, fun _ => rfl, fun more => absurd rfl more, ?_, ?_⟩
  · exact ⟨rfl, paths⟩
  · intro exited
    cases exited
  · intro ended
    cases ended

/-- A step of `main`, or of a thread that says nothing. -/
structure Silent (s t : System) : Prop where
  conversation : t.conversation = s.conversation
  moments : t.moments = s.moments
  remote : t.remote = .exited true → s.remote = .exited true
  stays : s.remote = .exited true → t.remote = .exited true
  ended : s.target = .exited → t.target = .exited
  suspended : t.target = .absent ∨ t.target = .suspended → s.target = .absent ∨ s.target = .suspended
  loop : t.loop = .ended → s.loop = .ended

theorem inv_silent (inv : Inv server layout s) (consistent : Consistent t) (silent : Silent s t) : Inv server layout t where
  consistent := consistent
  told := by
    rw [silent.moments, silent.conversation]
    exact inv.told
  still before := by
    rw [silent.moments]
    exact inv.still (silent.suspended before)
  later more := by
    rw [silent.moments] at more
    exact silent.stays (inv.later more)
  attached exited none := by
    rw [silent.moments] at none
    unfold Idle
    rw [silent.conversation]
    exact inv.attached (silent.remote exited) none
  ended gone := by
    rw [silent.conversation]
    exact ⟨silent.ended (inv.ended (silent.loop gone)).1, (inv.ended (silent.loop gone)).2⟩

/-- A client that is done says nothing more. -/
theorem step_idle {R : Type} {party : Party} {c c' : Conversation R} {r : R} (step : ClientPrograms.Step party c c')
    (idle : c.client = .ready (.done r)) : party = .server ∧ c'.client = .ready (.done r) := by
  cases step with
  | ask asks => cases idle.symm.trans asks
  | tell tells => cases idle.symm.trans tells
  | serve => exact ⟨rfl, idle⟩
  | receive waits => cases idle.symm.trans waits

theorem inv_talk (inv : Inv server layout s) {party : Party} {c : Conversation (Except Fault Process)}
    (may : s.MayTalk party) (step : ClientPrograms.Step party s.conversation c) :
    Inv server layout { s with conversation := c } where
  consistent := inv.consistent
  told := by
    obtain ⟨outcome, left, lived, talks⟩ := inv.told
    obtain ⟨less, _, talks'⟩ := talks_step talks step
    exact ⟨outcome, less, lived, talks'⟩
  still := inv.still
  later := inv.later
  attached exited none := by
    obtain ⟨p, idle⟩ := inv.attached exited none
    exact ⟨p, (step_idle step idle).2⟩
  ended gone := by
    cases party with
    | server => cases gone.symm.trans may
    | client => exact absurd (inv.ended gone).1 may.2

/-- What an idle DLL is. -/
theorem lives_of_idle (inv : Inv server layout s) {p : Process} (idle : Idle s p) :
    Lives server layout s.moments p ∧ ∃ left, Talks server (toldBefore server layout s.moments)
      (.ok p, console server layout s.moments) left s.conversation := by
  obtain ⟨outcome, left, lived, talks⟩ := inv.told
  obtain rfl := talks_value talks idle
  exact ⟨lived, left, talks⟩

/-- After one more moment the run goes on by a step, and the console by its lines. -/
theorem lives_snoc {moments : List Moment} {p : Process} (lives : Lives server layout moments p) (moment : Moment) :
    Lived server layout (moments ++ [moment])
        ((HookClr.step layout p.world moment.event).map fun w => { p with world := w }) ∧
      console server layout (moments ++ [moment]) =
        console server layout moments ++ lines layout p.world moment := by
  obtain ⟨ran, paths⟩ := lives
  constructor
  · have goes : HookClr.run layout .start (.processAttach (Transcripts.hookTypeOf server) ::
        (moments ++ [moment]).map Moment.event) = HookClr.step layout p.world moment.event := by
      rw [List.map_append, List.map_singleton, ← List.cons_append, HookClr.run, foldlM_snoc]
      rw [HookClr.run] at ran
      rw [ran, ok_bind]
    cases stepped : HookClr.step layout p.world moment.event with
    | ok w => exact ⟨goes.trans stepped, paths⟩
    | error fault => exact goes.trans stepped
  · have later : HookClr.run layout (HookClr.attach layout (Transcripts.hookTypeOf server) .start)
        (moments.map Moment.event) = .ok p.world := ran
    rw [console, console, transcript_snoc later, List.append_assoc]

variable (stack) in
/-- While the DLL is idle, the code of the next moment can follow. -/
theorem talks_moment (inv : Inv server layout s) {p : Process} (idle : Idle s p) {moment : Moment} (fits : moment.Fits)
    {told : List CString} {left : ℕ} (talks : Talks server told (.ok p, console server layout s.moments) left s.conversation) :
    Talks server (toldBefore server layout (s.moments ++ [moment]))
      ((HookClr.step layout p.world moment.event).map (fun w => { p with world := w }),
        console server layout (s.moments ++ [moment]))
      (left + 2 * (lines layout p.world moment).length)
      { s.conversation with client := .ready (perform stack layout p moment).run } := by
  have lives := (lives_of_idle inv idle).1
  have alive := alive_run (fun _ => alive_attach layout (Transcripts.hookTypeOf server)) lives.1
  have ends := ends_perform server stack layout alive moment fits
  obtain ⟨_, next⟩ := talks_next talks idle (perform stack layout p moment).run (ends.carried _)
  rw [ends.run, ends.cost, ← (lives_snoc lives moment).2] at next
  rw [toldBefore_snoc]
  exact next

theorem inv_moment (inv : Inv server layout s) {p : Process} {moment : Moment} (running : s.target = .running)
    (idle : Idle s p) (exited : s.remote = .exited true) (fits : moment.Fits) :
    Inv server layout { s with
      conversation := { s.conversation with client := .ready (perform stack layout p moment).run }
      moments := s.moments ++ [moment] } := by
  obtain ⟨lives, left, talks⟩ := lives_of_idle inv idle
  refine ⟨inv.consistent, ⟨_, _, (lives_snoc lives moment).1, talks_moment stack inv idle fits talks⟩, fun before => ?_,
    fun _ => exited, fun _ none => ?_, fun gone => ?_⟩
  · rcases before with absent | suspended
    · cases running.symm.trans absent
    · cases running.symm.trans suspended
  · exact absurd none (List.append_ne_nil_of_right_ne_nil _ (List.cons_ne_nil _ _))
  · cases running.symm.trans (inv.ended gone).1

/-- **Step lemma.** -/
theorem inv_step (inv : Inv server layout s) (step : Step stack layout s t) : Inv server layout t := by
  have consistent := consistent_step inv.consistent step
  cases step with
  | parentFound | parentMissing | notCreated | allocated | notAllocated | remoteNotCreated | writerConnected
    | readerConnected | threadNotCreated | remoteEnded | noRemote | timeout | loopEnded =>
    exact inv_silent inv consistent ⟨rfl, rfl, id, id, id, id, id⟩
  | created next =>
    have absent : s.target = .absent := by
      have here := inv.consistent
      simp only [Consistent, next] at here
      exact here.2.2
    exact inv_silent inv consistent ⟨rfl, rfl, id, id, fun gone => absurd (absent.symm.trans gone) nofun,
      fun _ => .inl absent, id⟩
  | remoteCreated next =>
    have absent : s.remote = .absent := by
      have here := inv.consistent
      simp only [Consistent, next] at here
      exact here.1
    exact inv_silent inv consistent ⟨rfl, rfl, nofun, fun exited => absurd (absent.symm.trans exited) nofun, id, id, id⟩
  | threadCreated next =>
    exact inv_silent inv consistent ⟨rfl, rfl, id, id, id, id, nofun⟩
  | resumed next =>
    have suspended : s.target = .suspended := by
      have here := inv.consistent
      simp only [Consistent, next] at here
      exact here.2.1
    exact inv_silent inv consistent ⟨rfl, rfl, id, id, fun gone => absurd (suspended.symm.trans gone) nofun, nofun, id⟩
  | loadFailed loading =>
    exact inv_silent inv consistent ⟨rfl, rfl, nofun, fun exited => absurd (loading.symm.trans exited) nofun, id, id, id⟩
  | openReader loading pipes =>
    exact inv_silent inv consistent ⟨rfl, rfl, nofun, fun exited => absurd (loading.symm.trans exited) nofun, id, id, id⟩
  | openWriter opening pipes =>
    exact inv_silent inv consistent ⟨rfl, rfl, nofun, fun exited => absurd (opening.symm.trans exited) nofun, id, id, id⟩
  | talk may pipes step => exact inv_talk inv may step
  | @attached p hooking present done =>
    exact ⟨consistent, inv.told, inv.still, fun _ => rfl, fun _ _ => ⟨p, done⟩, inv.ended⟩
  | moment running done exited fits => exact inv_moment inv running done exited fits
  | exit running => exact ⟨consistent, inv.told, nofun, inv.later, inv.attached, fun gone => ⟨rfl, (inv.ended gone).2⟩⟩
  | loopEnds running closed empty =>
    exact ⟨consistent, inv.told, inv.still, inv.later, inv.attached, fun _ => ⟨closed, empty⟩⟩

theorem inv_reachable (room : Room server) (reach : Reachable server stack layout s) : Inv server layout s := by
  induction reach with
  | refl => exact inv_start room
  | tail _ step inv => exact inv_step inv step

end ClrDumper.InjectionInvariant
