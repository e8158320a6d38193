import ClrDumper.HookClrProofs

/-! What is left with the loader when the DLL goes. The script types register a
notification in the attach, and no function that the detach calls takes it back. -/
namespace ClrDumper.DetachTeardown
open Execution CStrings Memory MinHook DllLoadCallback HookClr HookClrProofs

/-- In every state that the run reaches, no notification has gone to an unloaded
DLL, and while the DLL is not loaded none is registered. -/
def NoCallbackAfterDetach (layout : Layout) (events : List Event) : Prop :=
  ∀ front w, front <+: events → run layout .start front = .ok w →
    w.stray = 0 ∧ (w.attached = false → w.loader.registrations = [])

/-- The hook types that register for module loads. -/
def Registers (hookType : ℤ) : Prop := hookType = VBSCRIPT_ARG ∨ hookType = JSCRIPT_ARG

instance (hookType : ℤ) : Decidable (Registers hookType) := inferInstanceAs (Decidable (_ ∨ _))

/-- The type that the DLL is attached with after some events, if it is. -/
def attachedType (events : List Event) : Option ℤ :=
  events.foldl (fun current event =>
    match event, current with
    | .processAttach hookType, none => some hookType
    | .processDetach, _ => none
    | _, current => current) none

/-- No detach reaches a DLL attached with one of these types. -/
def NeverDetachesScripts (events : List Event) : Prop :=
  ∀ front back hookType, events = front ++ .processDetach :: back → attachedType front = some hookType →
    ¬ Registers hookType

variable {layout : Layout} {w next : World} {front : List Event} {hookType : ℤ}

/-- The script types add a registration in the attach, the others none. -/
theorem hookFunctions_loader (layout : Layout) (hookType : ℤ) (dll : Dll) (loader : Loader) :
    (hookFunctions layout hookType dll loader).2 =
      if Registers hookType then loader.register.1 else loader := by
  by_cases script : Registers hookType
  · rw [if_pos script]
    rcases script with rfl | rfl <;> rfl
  · rw [if_neg script]
    simp only [hookFunctions]
    have other : ∀ e : ScriptEngine, selected hookType ≠ some e.ns := by
      intro e chosen
      rw [selected_script_iff] at chosen
      cases e with
      | vbScript => exact script (Or.inl chosen)
      | jScript => exact script (Or.inr chosen)
    split
    · rfl
    · rfl
    · rename_i chosen
      exact absurd chosen (other .vbScript)
    · rename_i chosen
      exact absurd chosen (other .jScript)
    · rfl
    · rfl

/-! ## What notifications keep -/

/-- Nothing but globals of the DLL and the stray calls has changed, and no call
went astray while the DLL was loaded. -/
structure Kept (w next : World) : Prop where
  attached : next.attached = w.attached
  loader : next.loader = w.loader
  stray : w.attached = true → next.stray = w.stray

theorem Kept.refl (w : World) : Kept w w := ⟨rfl, rfl, fun _ => rfl⟩

theorem Kept.trans {u v w : World} (first : Kept u v) (second : Kept v w) : Kept u w :=
  ⟨second.attached.trans first.attached, second.loader.trans first.loader,
    fun on => (second.stray (first.attached.trans on)).trans (first.stray on)⟩

theorem notifyOne_kept {reason : Reason} {m : Module} (ran : notifyOne layout reason m w = .ok next) :
    Kept w next := by
  unfold notifyOne at ran
  split at ran
  · obtain ⟨called, _, rest⟩ := bind_ok ran
    cases called with
    | none =>
      cases rest
      exact Kept.refl w
    | some callback =>
      obtain ⟨dll, _, rest⟩ := bind_ok rest
      cases rest
      exact ⟨rfl, rfl, fun _ => rfl⟩
  · rename_i off
    cases ran
    exact ⟨rfl, rfl, fun on => absurd on off⟩

theorem notifyAll_kept {reason : Reason} {m : Module} (ran : notifyAll layout reason m w = .ok next) :
    Kept w next := by
  have each : ∀ (registrations : List ℕ) (w : World),
      registrations.foldlM (fun w _ => notifyOne layout reason m w) w = .ok next → Kept w next := by
    intro registrations
    induction registrations with
    | nil =>
      intro w ran
      cases ran
      exact Kept.refl next
    | cons _ rest ih =>
      intro w ran
      rw [List.foldlM_cons] at ran
      obtain ⟨middle, one, others⟩ := bind_ok ran
      exact (notifyOne_kept one).trans (ih middle others)
  exact each _ w ran

/-- Without a registration nobody is notified. -/
theorem notifyAll_silent {reason : Reason} {m : Module} (ran : notifyAll layout reason m w = .ok next)
    (none : w.loader.registrations = []) : next.stray = w.stray := by
  rw [notifyAll, none] at ran
  cases ran
  rfl

theorem attachedType_snoc (front : List Event) (event : Event) :
    attachedType (front ++ [event]) =
      match event, attachedType front with
      | .processAttach hookType, none => some hookType
      | .processDetach, _ => none
      | _, current => current := by
  simp [attachedType]

/-! ## Runs -/

/-- What holds in every state reached: whether the DLL is loaded, and that a
script type that is attached has a registration. -/
structure Registered (front : List Event) (w : World) : Prop where
  attached : w.attached = (attachedType front).isSome
  script : ∀ hookType, attachedType front = some hookType → Registers hookType → w.loader.registrations ≠ []

theorem registered_start : Registered [] .start := ⟨rfl, fun _ none => by cases none⟩

theorem attachedType_none (registered : Registered front w) (off : w.attached = false) :
    attachedType front = none := by
  rw [← Option.not_isSome_iff_eq_none, ← registered.attached, off]
  exact Bool.false_ne_true

theorem attachedType_some (registered : Registered front w) (on : w.attached = true) :
    ∃ hookType, attachedType front = some hookType := by
  rw [← Option.isSome_iff_exists, ← registered.attached]
  exact on

/-- What a step can do: attach a DLL that is not loaded, detach one that is, or
leave both the DLL and the registrations alone. In the last case no call goes
astray if there is no registration. -/
theorem step_cases (registered : Registered front w) {event : Event} (ran : step layout w event = .ok next) :
    (∃ hookType, event = .processAttach hookType ∧ attachedType front = none ∧ next = attach layout hookType w) ∨
      (event = .processDetach ∧ next = detach layout w) ∨
      (attachedType (front ++ [event]) = attachedType front ∧ Kept w next ∧
        (w.loader.registrations = [] → next.stray = w.stray)) := by
  cases event with
  | processAttach hookType =>
    cases on : w.attached with
    | true =>
      rw [step_attach_on on] at ran
      cases ran
      obtain ⟨current, same⟩ := attachedType_some registered on
      exact Or.inr (Or.inr ⟨by rw [attachedType_snoc, same], Kept.refl w, fun _ => rfl⟩)
    | false =>
      rw [step_attach_off on] at ran
      cases ran
      exact Or.inl ⟨hookType, rfl, attachedType_none registered on, rfl⟩
  | threadAttach =>
    cases ran
    exact Or.inr (Or.inr ⟨by rw [attachedType_snoc], Kept.refl w, fun _ => rfl⟩)
  | threadDetach =>
    cases ran
    exact Or.inr (Or.inr ⟨by rw [attachedType_snoc], Kept.refl w, fun _ => rfl⟩)
  | processDetach =>
    cases on : w.attached with
    | true =>
      rw [step_detach_on on] at ran
      cases ran
      exact Or.inr (Or.inl ⟨rfl, rfl⟩)
    | false =>
      rw [step_detach_off on] at ran
      cases ran
      refine Or.inr (Or.inr ⟨?_, Kept.refl w, fun _ => rfl⟩)
      rw [attachedType_snoc, attachedType_none registered on]
  | load m =>
    have kept := notifyAll_kept (w := w.map m) ran
    exact Or.inr (Or.inr ⟨by rw [attachedType_snoc], ⟨kept.attached, kept.loader, kept.stray⟩,
      notifyAll_silent (w := w.map m) ran⟩)
  | unload m =>
    have kept := notifyAll_kept (w := w.unmap m) ran
    exact Or.inr (Or.inr ⟨by rw [attachedType_snoc], ⟨kept.attached, kept.loader, kept.stray⟩,
      notifyAll_silent (w := w.unmap m) ran⟩)

/-- **Step lemma.** -/
theorem registered_step (registered : Registered front w) {event : Event}
    (ran : step layout w event = .ok next) : Registered (front ++ [event]) next := by
  rcases step_cases registered ran with ⟨hookType, rfl, none, rfl⟩ | ⟨rfl, rfl⟩ | ⟨types, kept, _⟩
  · have fresh : attachedType (front ++ [.processAttach hookType]) = some hookType := by
      rw [attachedType_snoc, none]
    refine ⟨by rw [fresh]; rfl, fun current same script => ?_⟩
    rw [fresh, Option.some.injEq] at same
    subst same
    change (hookFunctions layout hookType .new w.loader).2.registrations ≠ []
    rw [hookFunctions_loader, if_pos script]
    simp [Loader.register]
  · have gone : attachedType (front ++ [.processDetach]) = none := by rw [attachedType_snoc]
    refine ⟨by rw [gone]; rfl, fun current same => ?_⟩
    rw [gone] at same
    cases same
  · refine ⟨by rw [kept.attached, types]; exact registered.attached, ?_⟩
    rw [kept.loader, types]
    exact registered.script

/-- **Run lemma.** -/
theorem registered_run (front : List Event) (w : World) (ran : run layout .start front = .ok w) :
    Registered front w :=
  run_invariant registered_start (fun _ _ _ _ registered step => registered_step registered step) front w ran

/-- What holds as long as no script type was detached: nothing went astray, and
only an attached script type has a registration. -/
structure Clean (front : List Event) (w : World) : Prop where
  stray : w.stray = 0
  silent : (∀ hookType, attachedType front = some hookType → ¬ Registers hookType) →
    w.loader.registrations = []

/-- **Step lemma.** A step that detaches no script type keeps this. -/
theorem clean_step (registered : Registered front w) (clean : Clean front w) {event : Event}
    (safe : event = .processDetach → ∀ hookType, attachedType front = some hookType → ¬ Registers hookType)
    (ran : step layout w event = .ok next) : Clean (front ++ [event]) next := by
  have silent_of_none : attachedType front = none → w.loader.registrations = [] := by
    intro none
    apply clean.silent
    intro hookType current
    rw [none] at current
    cases current
  rcases step_cases registered ran with ⟨hookType, rfl, none, rfl⟩ | ⟨rfl, rfl⟩ | ⟨types, kept, silent⟩
  · refine ⟨clean.stray, fun plain => ?_⟩
    rw [attachedType_snoc, none] at plain
    change (hookFunctions layout hookType .new w.loader).2.registrations = []
    rw [hookFunctions_loader, if_neg (plain hookType rfl)]
    exact silent_of_none none
  · have silent := clean.silent (safe rfl)
    exact ⟨clean.stray, fun _ => silent⟩
  · refine ⟨?_, by rw [types, kept.loader]; exact clean.silent⟩
    cases on : w.attached with
    | true => rw [kept.stray on, clean.stray]
    | false => rw [silent (silent_of_none (attachedType_none registered on)), clean.stray]

/-- **Run lemma.** A run that never detaches a script type stays clean. -/
theorem clean_run {events : List Event} (never : NeverDetachesScripts events) (inside : front <+: events)
    (ran : run layout .start front = .ok w) : Clean front w := by
  have both : ∀ front w, run layout .start front = .ok w →
      Registered front w ∧ (front <+: events → Clean front w) := by
    refine run_invariant ⟨registered_start, fun _ => ⟨rfl, fun _ => rfl⟩⟩ ?_
    rintro front w event next ⟨registered, clean⟩ step
    refine ⟨registered_step registered step, ?_⟩
    rintro ⟨back, rfl⟩
    refine clean_step registered (clean ⟨event :: back, by simp⟩) ?_ step
    rintro rfl hookType current
    exact never front back hookType (by simp) current
  exact (both front w ran).2 inside

/-- A run that detaches a script type leaves its registration behind. -/
theorem detach_leaves_registration (ran : run layout .start front = .ok w)
    (current : attachedType front = some hookType) (script : Registers hookType) :
    ∃ gone, run layout .start (front ++ [.processDetach]) = .ok gone ∧ gone.attached = false ∧
      gone.loader.registrations ≠ [] := by
  have registered := registered_run front w ran
  have on : w.attached = true := by rw [registered.attached, current]; rfl
  refine ⟨detach layout w, ?_, rfl, registered.script hookType current script⟩
  rw [run, foldlM_snoc, show front.foldlM (step layout) .start = .ok w from ran]
  exact step_detach_on on

/-- **Teardown.** In a run, no module load after a detach reaches the DLL, and no
registration outlives an attach, exactly when the run never detaches a DLL that
was attached for VBScript or JScript. -/
theorem noCallback_iff_neverDetaches (layout : Layout) (events : List Event) (final : World)
    (ran : run layout .start events = .ok final) :
    NoCallbackAfterDetach layout events ↔ NeverDetachesScripts events := by
  constructor
  · rintro holds front back hookType rfl current script
    rw [run, List.foldlM_append] at ran
    obtain ⟨w, before, _⟩ := bind_ok ran
    obtain ⟨gone, detached, off, left⟩ := detach_leaves_registration before current script
    exact left ((holds (front ++ [.processDetach]) gone ⟨back, by simp⟩ detached).2 off)
  · intro never front w inside reached
    have clean := clean_run never inside reached
    refine ⟨clean.stray, fun off => clean.silent fun hookType current => ?_⟩
    rw [attachedType_none (registered_run front w reached) off] at current
    cases current

def sampleModule : Module := ⟨⟨fun _ => none⟩, 0x10000, 0x1000, .literal "version.dll"⟩

/-- The DLL is attached for PowerShell and unloaded, and then attached for VBScript,
with loads of a module in each of the three phases. -/
def quietEvents : List Event :=
  [.processAttach POWERSHELL_ARG, .load sampleModule, .processDetach, .load sampleModule, .processAttach VBSCRIPT_ARG,
    .load sampleModule]

theorem quietEvents_never : NeverDetachesScripts quietEvents := by
  intro front back hookType split current
  have type : hookType = POWERSHELL_ARG := by
    rcases front with _ | ⟨_, _ | ⟨_, _ | ⟨_, _ | ⟨_, _ | ⟨_, _ | ⟨_, rest⟩⟩⟩⟩⟩⟩
    all_goals
      simp only [quietEvents, List.cons_append, List.nil_append, List.cons.injEq, reduceCtorEq, and_false, false_and,
        List.nil_eq] at split
    · obtain ⟨rfl, rfl, _⟩ := split
      cases current
      rfl
    · simp at split
  rw [type]
  decide

theorem noCallback_iff_neverDetaches_sample : NoCallbackAfterDetach sampleLayout quietEvents := by
  obtain ⟨final, ran⟩ : ∃ final, run sampleLayout .start quietEvents = .ok final := ⟨_, rfl⟩
  exact (noCallback_iff_neverDetaches sampleLayout quietEvents final ran).mpr quietEvents_never

/-- The DLL is attached for VBScript and unloaded, and then a module is loaded. -/
def sampleEvents : List Event :=
  [.processAttach VBSCRIPT_ARG, .processDetach, .load sampleModule]

/-- That load is notified to the address of the unloaded DLL. -/
theorem unloaded_dll_notified :
    ¬ ∀ layout events final, run layout .start events = .ok final → NoCallbackAfterDetach layout events := by
  intro all
  have notified : ∃ w, run sampleLayout .start sampleEvents = .ok w ∧ w.stray = 1 := ⟨_, rfl, rfl⟩
  obtain ⟨w, ran, stray⟩ := notified
  have none := (all _ _ w ran sampleEvents w (List.prefix_refl _) ran).1
  rw [stray] at none
  cases none

end ClrDumper.DetachTeardown
