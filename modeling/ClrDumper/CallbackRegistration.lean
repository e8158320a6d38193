import Mathlib.Data.List.Induction
import ClrDumper.DllLoadCallback

/-! Registering and unregistering a load callback. There is one cookie and one
callback for all registrations with the loader, so they stay consistent exactly
as long as a callback is unregistered before another is registered. -/
namespace ClrDumper.CallbackRegistration
open Execution DllLoadCallback

variable {C : Type}

/-- What happens to the file's globals and to the loader. -/
inductive Event (C : Type) where
  | register (callback : C)
  | unregister
  | load

/-- The globals of `DllLoadCallback.cpp`, and the loader's registrations. -/
structure Registry (C : Type) where
  notify : Notify C
  loader : Loader

namespace Registry

def start : Registry C := ⟨.new, ⟨[], 0⟩⟩

def register (r : Registry C) (callback : C) : Registry C :=
  let (notify, loader) := r.notify.registerLoadDllCalback r.loader callback
  { notify, loader }

def unregister (r : Registry C) : Registry C :=
  let (notify, loader) := r.notify.unRegisterLoadDllCalback r.loader
  { notify, loader }

/-- A module load, delivered to every registration: the callbacks invoked. -/
def load (r : Registry C) : Exec (List C) := do
  let invoked ← r.loader.registrations.mapM fun _ => ldrDllNotification r.notify .loaded
  return invoked.filterMap id

def step (r : Registry C) : Event C → Exec (Registry C)
  | .register callback => return r.register callback
  | .unregister => return r.unregister
  | .load => do
    let _ ← r.load
    return r

end Registry

def run (events : List (Event C)) : Exec (Registry C) := events.foldlM Registry.step .start

/-- The callback that was registered last, unless it was unregistered since. -/
def registered (events : List (Event C)) : Option C :=
  events.foldl (fun current event =>
    match event with
    | .register callback => some callback
    | .unregister => none
    | .load => current) none

/-- What an event must do after the events before it: a load never calls a null
callback and invokes the registered one once, and an unregistration leaves the
loader without registrations. -/
def Upholds (front : List (Event C)) (r : Registry C) : Event C → Prop
  | .register _ => True
  | .unregister => r.unregister.loader.registrations = []
  | .load => (r.loader.registrations ≠ [] → r.notify._callback ≠ none) ∧
    r.load = .ok (registered front).toList

/-- Every event of the run is reached without a fault and does what it must. -/
def Consistent (events : List (Event C)) : Prop :=
  ∀ front event, front ++ [event] <+: events → ∃ r, run front = .ok r ∧ Upholds front r event

/-- No callback is registered while another is. -/
def Alternates (events : List (Event C)) : Prop :=
  ∀ front callback, front ++ [.register callback] <+: events → registered front = none

/-- The event shows how many registrations there are. -/
def Event.Observes : Event C → Prop
  | register _ => False
  | unregister | load => True

/-- No load and no unregistration comes after a second registration. -/
def NoneAfterSecond (events : List (Event C)) : Prop :=
  ∀ front event, front ++ [event] <+: events → event.Observes → Alternates front

variable {front : List (Event C)} {event : Event C} {r : Registry C}

theorem run_snoc (front : List (Event C)) (event : Event C) :
    run (front ++ [event]) = (run front >>= fun r => r.step event) := by
  rw [run, foldlM_snoc]
  rfl

@[simp] theorem registered_register (front : List (Event C)) (callback : C) :
    registered (front ++ [.register callback]) = some callback := by
  simp [registered]

@[simp] theorem registered_unregister (front : List (Event C)) :
    registered (front ++ [.unregister]) = none := by
  simp [registered]

@[simp] theorem registered_load (front : List (Event C)) :
    registered (front ++ [.load]) = registered front := by
  simp [registered]

theorem alternates_snoc : Alternates (front ++ [event]) ↔
    Alternates front ∧ ∀ callback, event = .register callback → registered front = none := by
  constructor
  · intro alternates
    refine ⟨fun before callback inside => alternates before callback (inside.trans (List.prefix_append _ _)), ?_⟩
    rintro callback rfl
    exact alternates front callback (List.prefix_refl _)
  · rintro ⟨alternates, last⟩ before callback inside
    rcases List.prefix_concat_iff.mp inside with same | inner
    · obtain ⟨rfl, single⟩ := List.append_inj' same rfl
      exact last callback (List.cons.inj single).1.symm
    · exact alternates before callback inner

/-- The one registration of a callback, or none. -/
structure Single (current : Option C) (r : Registry C) : Prop where
  callback : r.notify._callback = current
  cookie : r.loader.registrations = if current.isSome then [r.notify.cookie] else []
  resolved : current.isSome → r.notify.canUnregister = true

/-- More registrations than there are cookies for. -/
structure Several (r : Registry C) : Prop where
  registrations : 2 ≤ r.loader.registrations.length
  callback : r.notify._callback.isSome

theorem single_register (single : Single none r) (callback : C) : Single (some callback) (r.register callback) where
  callback := rfl
  cookie := by
    have empty : r.loader.registrations = [] := single.cookie
    simp [Registry.register, Notify.registerLoadDllCalback, Notify.initDllNotify, Loader.register, empty]
  resolved _ := rfl

theorem several_register (some_registration : 1 ≤ r.loader.registrations.length) (callback : C) :
    Several (r.register callback) where
  registrations := by
    simp only [Registry.register, Notify.registerLoadDllCalback, Notify.initDllNotify, Loader.register,
      List.length_append, List.length_singleton]
    omega
  callback := rfl

theorem single_unregister {current : Option C} (single : Single current r) : Single none r.unregister := by
  refine ⟨?_, ?_, fun held => by cases held⟩
  · rfl
  · unfold Registry.unregister Notify.unRegisterLoadDllCalback Notify.deInitDllNotify
    cases current with
    | none =>
      have empty : r.loader.registrations = [] := single.cookie
      by_cases resolved : r.notify.canUnregister = true
      · simp [resolved, Loader.unregister, empty]
      · simp [resolved, empty]
    | some callback =>
      have one : r.loader.registrations = [r.notify.cookie] := single.cookie
      simp [single.resolved rfl, Loader.unregister, one]

/-- A load with a single registration invokes its callback once; without one it
invokes none. -/
theorem load_single {current : Option C} (single : Single current r) : r.load = .ok current.toList := by
  cases current with
  | none =>
    have empty : r.loader.registrations = [] := single.cookie
    simp [Registry.load, empty]
  | some callback =>
    have one : r.loader.registrations = [r.notify.cookie] := single.cookie
    have called : r.notify._callback = some callback := single.callback
    simp [Registry.load, one, ldrDllNotification, called]

/-- With several registrations a load invokes the callback more than once. -/
theorem load_several (several : Several r) {invoked : List C} (ran : r.load = .ok invoked) :
    2 ≤ invoked.length := by
  obtain ⟨callback, called⟩ := Option.isSome_iff_exists.mp several.callback
  have notified : ldrDllNotification r.notify .loaded = .ok (some callback) := by
    simp [ldrDllNotification, called]
  have each := mapM_ok (g := fun _ => some callback) r.loader.registrations fun _ _ => notified
  have total := several.registrations
  simp only [Registry.load, each, ok_bind, pure_ok, Except.ok.injEq] at ran
  rw [← ran]
  simpa using total

/-- And an unregistration leaves some of them behind. -/
theorem unregister_several (several : Several r) : r.unregister.loader.registrations ≠ [] := by
  have total := several.registrations
  intro empty
  have none : r.unregister.loader.registrations.length = 0 := by rw [empty]; rfl
  unfold Registry.unregister Notify.unRegisterLoadDllCalback Notify.deInitDllNotify at none
  by_cases resolved : r.notify.canUnregister = true
  · have left := List.le_length_erase (a := r.notify.cookie) (l := r.loader.registrations)
    simp only [resolved, if_true, Loader.unregister] at none
    omega
  · simp only [resolved, Bool.false_eq_true, if_false] at none
    omega

/-- What holds after any events that no second registration was observed in: one
registration for the registered callback, or more than one after a second. -/
def Tracks (front : List (Event C)) (r : Registry C) : Prop :=
  (Alternates front ∧ Single (registered front) r) ∨ (¬ Alternates front ∧ Several r)

/-- **Step lemma.** -/
theorem tracks_step (tracks : Tracks front r) (seen : event.Observes → Alternates front) :
    ∃ next, r.step event = .ok next ∧ Tracks (front ++ [event]) next := by
  cases event with
  | register callback =>
    refine ⟨r.register callback, rfl, ?_⟩
    rcases tracks with ⟨alternates, single⟩ | ⟨second, several⟩
    · cases current : registered front with
      | none =>
        rw [current] at single
        refine Or.inl ⟨alternates_snoc.mpr ⟨alternates, fun _ _ => current⟩, ?_⟩
        rw [registered_register]
        exact single_register single callback
      | some earlier =>
        rw [current] at single
        refine Or.inr ⟨fun more => ?_, several_register (by rw [single.cookie]; rfl) callback⟩
        rw [(alternates_snoc.mp more).2 callback rfl] at current
        cases current
    · refine Or.inr ⟨fun more => second (alternates_snoc.mp more).1, several_register ?_ callback⟩
      have total := several.registrations
      omega
  | unregister =>
    rcases tracks with ⟨alternates, single⟩ | ⟨second, _⟩
    · refine ⟨r.unregister, rfl, Or.inl ⟨alternates_snoc.mpr ⟨alternates, by simp⟩, ?_⟩⟩
      rw [registered_unregister]
      exact single_unregister single
    · exact absurd (seen trivial) second
  | load =>
    rcases tracks with ⟨alternates, single⟩ | ⟨second, _⟩
    · refine ⟨r, by simp [Registry.step, load_single single], Or.inl ⟨alternates_snoc.mpr ⟨alternates, by simp⟩, ?_⟩⟩
      rw [registered_load]
      exact single
    · exact absurd (seen trivial) second

/-- **Run lemma.** -/
theorem tracks_run (front : List (Event C)) (seen : NoneAfterSecond front) :
    ∃ r, run front = .ok r ∧ Tracks front r := by
  induction front using List.reverseRecOn with
  | nil =>
    refine ⟨.start, rfl, Or.inl ⟨fun before callback inside => ?_, ⟨rfl, rfl, fun held => by cases held⟩⟩⟩
    simp at inside
  | append_singleton front event ih =>
    obtain ⟨r, ran, tracks⟩ := ih fun before event inside =>
      seen before event (inside.trans (List.prefix_append _ _))
    obtain ⟨next, stepped, kept⟩ := tracks_step tracks (seen front event (List.prefix_refl _))
    exact ⟨next, by rw [run_snoc, ran]; exact stepped, kept⟩

/-- An event does what it must exactly when it does not come after a second
registration, or does not show it. -/
theorem upholds_iff (tracks : Tracks front r) : Upholds front r event ↔ (event.Observes → Alternates front) := by
  rcases tracks with ⟨alternates, single⟩ | ⟨second, several⟩
  · refine ⟨fun _ _ => alternates, fun _ => ?_⟩
    cases event with
    | register callback => trivial
    | unregister => exact (single_unregister single).cookie
    | load =>
      refine ⟨fun some_registration absent => some_registration ?_, load_single single⟩
      rw [single.cookie, ← single.callback, absent]
      rfl
  · cases event with
    | register callback => exact ⟨fun _ => False.elim, fun _ => trivial⟩
    | unregister =>
      exact ⟨fun empty => absurd empty (unregister_several several), fun seen => absurd (seen trivial) second⟩
    | load =>
      refine ⟨fun ⟨_, once⟩ => ?_, fun seen => absurd (seen trivial) second⟩
      have invoked := load_several several once
      have single : (registered front).toList.length ≤ 1 := by cases registered front <;> simp
      omega

/-- **Consistency.** A run stays consistent exactly when no load and no
unregistration follows a registration that was made while another was in
force. -/
theorem consistent_iff (events : List (Event C)) : Consistent events ↔ NoneAfterSecond events := by
  constructor
  · intro consistent
    -- Induction on the events: those before the last one show no second registration.
    induction events using List.reverseRecOn with
    | nil =>
      intro front event inside
      simp at inside
    | append_singleton events last ih =>
      have earlier : NoneAfterSecond events := ih fun front event inside =>
        consistent front event (inside.trans (List.prefix_append _ _))
      intro front event inside
      rcases List.prefix_concat_iff.mp inside with same | inner
      · obtain ⟨rfl, single⟩ := List.append_inj' same rfl
        obtain ⟨r, ran, tracks⟩ := tracks_run front earlier
        obtain ⟨r', ran', upholds⟩ := consistent front event inside
        rw [ran, Except.ok.injEq] at ran'
        subst ran'
        exact (upholds_iff tracks).mp upholds
      · exact earlier front event inner
  · intro seen front event inside
    obtain ⟨r, ran, tracks⟩ := tracks_run front fun before other inner =>
      seen before other ((inner.trans (List.prefix_append _ _)).trans inside)
    exact ⟨r, ran, (upholds_iff tracks).mpr (seen front event inside)⟩

/-- After a second registration a load invokes the callback twice, and after one
unregistration a load calls a null callback. -/
theorem second_registration_inconsistent :
    ¬ Consistent [.register (), .register (), .load] ∧
      run [.register (), .register (), .unregister, .load] = (.error .access : Exec (Registry Unit)) := by
  constructor
  · intro consistent
    obtain ⟨r, ran, _, once⟩ := consistent [.register (), .register ()] .load (List.prefix_refl _)
    cases ran
    cases once
  · rfl

end ClrDumper.CallbackRegistration
