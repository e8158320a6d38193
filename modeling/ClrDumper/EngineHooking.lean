import Mathlib.Data.List.Induction
import ClrDumper.HookClrProofs

/-! Which loads of a script engine end with its function intercepted. The engine
has one original pointer and MinHook one entry for each address, so every image
is intercepted and forwarded to its own function exactly when images come one at
a time and never to an address hooked before. -/
namespace ClrDumper.EngineHooking
open Execution CStrings Memory MinHook DllLoadCallback HookClr HookClrProofs

/-- An image of the engine's DLL in which the signatures lead to a function of
the image. -/
structure Image (layout : Layout) (e : ScriptEngine) where
  module : Module
  named : module.name = e.dllName
  target : UInt32
  signatures : e.target module.mem module.base = .ok target
  inside : module.holds target = true
  code : layout.executable target = true

variable {layout : Layout} {e : ScriptEngine} {w : World}

/-- A notification about the engine's DLL. -/
inductive Notification (layout : Layout) (e : ScriptEngine) where
  | load (image : Image layout e)
  | unload (image : Image layout e)

def Notification.event : Notification layout e → Event
  | load image => .load image.module
  | unload image => .unload image.module

/-- The images that some notifications leave mapped. -/
def mapped (events : List (Notification layout e)) : List (Image layout e) :=
  events.foldl (fun images event =>
    match event with
    | .load image => images ++ [image]
    | .unload image => images.filter (·.module.base != image.module.base)) []

/-- The process once the hook DLL waits for the engine. -/
def waiting (layout : Layout) (e : ScriptEngine) : World := attach layout e.hookType .start

/-- The process after some notifications. -/
def after (events : List (Notification layout e)) : Exec World :=
  run layout (waiting layout e) (events.map Notification.event)

/-- The function at `site` is intercepted, and the pointer that the engine's
detour forwards to is the trampoline of that function. -/
structure Hooked (e : ScriptEngine) (w : World) (site : UInt32) : Prop where
  patched : w.dll.minHook.patched site = true
  forwards : ∃ h ∈ w.dll.minHook.hooks, h.target = site ∧ h.detour = e.ns ∧
    w.dll.original e.ns = some h.trampoline

/-- At every moment of the run, every mapped image is hooked. -/
def AlwaysHooked (events : List (Notification layout e)) : Prop :=
  ∀ front, front <+: events → ∃ w, after front = .ok w ∧ ∀ image ∈ mapped front, Hooked e w image.target

/-- Every load finds no other image mapped, and its target is not that of an
earlier load. -/
def OneAtATime (events : List (Notification layout e)) : Prop :=
  ∀ front image back, events = front ++ .load image :: back →
    mapped front = [] ∧ ∀ earlier, .load earlier ∈ front → earlier.target ≠ image.target

/-- What holds after any notifications: the DLL waits for more, and MinHook has
an entry for every target it was ever given. -/
structure Inv (e : ScriptEngine) (w : World) (front : List (Notification layout e)) : Prop where
  watching : Watching e w
  installed : Installed w.dll.minHook
  known : ∀ site, w.dll.minHook.Known site ↔ ∃ image, .load image ∈ front ∧ image.target = site

theorem inv_waiting : Inv e (waiting layout e) ([] : List (Notification layout e)) := by
  cases e <;> exact ⟨⟨rfl, ⟨1, rfl⟩, rfl⟩,
    ⟨rfl, fun _ member => absurd member List.not_mem_nil, fun _ member => absurd member List.not_mem_nil⟩,
    fun site => ⟨fun ⟨_, member, _⟩ => absurd member List.not_mem_nil,
      fun ⟨_, member, _⟩ => absurd member List.not_mem_nil⟩⟩

theorem after_snoc (front : List (Notification layout e)) (event : Notification layout e) :
    after (front ++ [event]) = (after front >>= fun w => step layout w event.event) := by
  rw [after, List.map_append, List.map_singleton, run, foldlM_snoc]
  rfl

theorem mapped_load (front : List (Notification layout e)) (image : Image layout e) :
    mapped (front ++ [.load image]) = mapped front ++ [image] := by
  simp [mapped]

theorem mapped_unload (front : List (Notification layout e)) (image : Image layout e) :
    mapped (front ++ [.unload image]) = (mapped front).filter (·.module.base != image.module.base) := by
  simp [mapped]

variable {front : List (Notification layout e)}

/-- **Step lemma.** A load hooks a target that MinHook does not know, and makes
the engine forward to it. A target that it knows stays as the fresh image has
it. -/
theorem step_load (inv : Inv e w front) (image : Image layout e) :
    ∃ next, step layout w (.load image.module) = .ok next ∧ Inv e next (front ++ [.load image]) ∧
      ((¬ w.dll.minHook.Known image.target ∧
          next.dll.minHook = (w.dll.minHook.remap image.module.holds).hooked image.target e.ns ∧
          next.dll.original = Function.update w.dll.original e.ns (some w.dll.minHook.trampolines)) ∨
        (w.dll.minHook.Known image.target ∧ next.dll.minHook.patched image.target = false)) := by
  obtain ⟨compile, ran⟩ := e.callback_own layout (w.map image.module).dll image.named image.signatures
  have remapped : (e.assign compile image.target (w.map image.module).dll).minHook =
      w.dll.minHook.remap image.module.holds := by
    rw [ScriptEngine.assign_minHook]
    rfl
  have installed : Installed (e.assign compile image.target (w.map image.module).dll).minHook := by
    rw [remapped]
    exact ⟨inv.installed.ready, inv.installed.on, inv.installed.earlier⟩
  refine ⟨{ w.map image.module with
    dll := (e.assign compile image.target (w.map image.module).dll).install layout image.target e.ns },
    by rw [step_load_watching inv.watching, ran]; rfl, ⟨⟨inv.watching.attached,
    inv.watching.registered, ?_⟩, installed_install installed, fun site => ?_⟩, ?_⟩
  · rw [install_notify, ScriptEngine.assign_notify]
    exact inv.watching.callback
  · rw [known_install installed, remapped]
    change w.dll.minHook.Known site ∨ _ ↔ _
    rw [inv.known site]
    constructor
    · rintro (⟨earlier, member, same⟩ | ⟨same, _⟩)
      · exact ⟨earlier, List.mem_append_left _ member, same⟩
      · exact ⟨image, List.mem_append_right _ List.mem_cons_self, same.symm⟩
    · rintro ⟨earlier, member, same⟩
      rcases List.mem_append.mp member with old | new
      · exact Or.inl ⟨earlier, old, same⟩
      · cases List.mem_singleton.mp new
        exact Or.inr ⟨same.symm, image.code⟩
  · by_cases known : w.dll.minHook.Known image.target
    · right
      refine ⟨known, ?_⟩
      rw [install_refused (Or.inr (by rw [remapped]; exact known)), remapped]
      simp [Engine.remap, image.inside]
    · left
      refine ⟨known, ?_⟩
      rw [install_new installed.ready image.code (by rw [remapped]; exact known), remapped,
        ScriptEngine.assign_original]
      exact ⟨rfl, rfl⟩

/-- An unload changes nothing but the modules. -/
theorem step_unload (inv : Inv e w front) (image : Image layout e) :
    step layout w (.unload image.module) = .ok (w.unmap image.module) ∧
      Inv e (w.unmap image.module) (front ++ [.unload image]) := by
  refine ⟨step_unload_watching inv.watching layout image.module, ⟨inv.watching.attached,
    inv.watching.registered, inv.watching.callback⟩, inv.installed, fun site => ?_⟩
  change w.dll.minHook.Known site ↔ _
  simp [inv.known site]

/-- **Run lemma.** Every run goes through and keeps the invariant. -/
theorem inv_after (front : List (Notification layout e)) : ∃ w, after front = .ok w ∧ Inv e w front := by
  induction front using List.reverseRecOn with
  | nil => exact ⟨waiting layout e, rfl, inv_waiting⟩
  | append_singleton front event ih =>
    obtain ⟨w, ran, inv⟩ := ih
    rw [after_snoc, ran]
    cases event with
    | load image =>
      obtain ⟨next, step, kept, _⟩ := step_load inv image
      exact ⟨next, step, kept⟩
    | unload image => exact ⟨_, step_unload inv image⟩

/-- A run that hooks every image loads them one at a time. -/
theorem oneAtATime_of_alwaysHooked {events : List (Notification layout e)} (always : AlwaysHooked events) :
    OneAtATime events := by
  rintro front image back rfl
  obtain ⟨w, ran, inv⟩ := inv_after front
  obtain ⟨next, loaded, _, outcome⟩ := step_load inv image
  obtain ⟨before, same, earlier⟩ := always front (List.prefix_append _ _)
  rw [ran, Except.ok.injEq] at same
  subst same
  obtain ⟨now, same, hooked⟩ := always (front ++ [.load image]) ⟨back, by simp⟩
  rw [after_snoc, ran, ok_bind, Notification.event, loaded, Except.ok.injEq] at same
  subst same
  rw [mapped_load] at hooked
  rcases outcome with ⟨new, engine, original⟩ | ⟨_, unpatched⟩
  · refine ⟨List.eq_nil_iff_forall_not_mem.mpr fun other member => ?_, fun other member same => ?_⟩
    · -- The only pointer leads to the new image, so another one lost its own.
      obtain ⟨h, inside, site, _, forwards⟩ := (hooked other (List.mem_append_left _ member)).forwards
      rw [original, Function.update_self, Option.some.injEq] at forwards
      obtain ⟨h', inside', site', _⟩ := (earlier other member).forwards
      rw [engine] at inside
      rcases List.mem_append.mp inside with old | fresh
      · exact absurd (inv.installed.earlier h old) (by omega)
      · rw [List.mem_singleton] at fresh
        subst fresh
        exact new ⟨h', inside', site'.trans site.symm⟩
    · exact new ((inv.known _).mpr ⟨other, member, same⟩)
  · have patched := (hooked image (List.mem_append_right _ List.mem_cons_self)).patched
    rw [unpatched] at patched
    cases patched

theorem alwaysHooked_of_oneAtATime {events : List (Notification layout e)} (one : OneAtATime events) :
    AlwaysHooked events := by
  intro front
  induction front using List.reverseRecOn with
  | nil => exact fun _ => ⟨waiting layout e, rfl, fun _ member => absurd member List.not_mem_nil⟩
  | append_singleton front event ih =>
    rintro ⟨back, rfl⟩
    obtain ⟨w, ran, hooked⟩ := ih ⟨event :: back, by simp⟩
    obtain ⟨w', ran', inv⟩ := inv_after front
    rw [ran, Except.ok.injEq] at ran'
    subst ran'
    rw [after_snoc, ran]
    cases event with
    | unload image =>
      refine ⟨_, (step_unload inv image).1, fun other member => ?_⟩
      rw [mapped_unload] at member
      obtain ⟨patched, forwards⟩ := hooked other (List.mem_filter.mp member).1
      exact ⟨patched, forwards⟩
    | load image =>
      obtain ⟨next, loaded, _, outcome⟩ := step_load inv image
      obtain ⟨alone, fresh⟩ := one front image back (by simp)
      refine ⟨next, loaded, fun other member => ?_⟩
      rw [mapped_load, alone, List.nil_append, List.mem_singleton] at member
      subst member
      rcases outcome with ⟨_, engine, original⟩ | ⟨known, _⟩
      · refine ⟨by rw [engine]; exact Function.update_self .., _,
          by rw [engine]; exact List.mem_append_right _ List.mem_cons_self, rfl, rfl, ?_⟩
        rw [original, Function.update_self]
        rfl
      · obtain ⟨earlier, member, same⟩ := (inv.known _).mp known
        exact absurd same (fresh earlier member)

/-- **Hooking.** Throughout a run every mapped image is intercepted and forwarded
to its own function exactly when each load finds no other image mapped and a
target that no earlier load had. -/
theorem alwaysHooked_iff_oneAtATime (events : List (Notification layout e)) :
    AlwaysHooked events ↔ OneAtATime events :=
  ⟨oneAtATime_of_alwaysHooked, alwaysHooked_of_oneAtATime⟩

/-- A page that holds an image of `vbscript.dll` with one section: the pattern,
and a call to the instruction behind it. -/
def sampleMem : Mem where
  byteAt address :=
    match (address - 0x10000).toNat with
    | 0x3C => some 0x40
    | 0x46 => some 1
    | 0x140 => some 8
    | 0x144 => some 0x60
    | 0x145 => some 0x01
    | 0x160 => some 0xFF
    | 0x161 => some 0x75
    | 0x162 => some 0xFC
    | 0x163 => some 0xFF
    | 0x164 => some 0x75
    | 0x165 => some 0x08
    | 0x166 => some 0x50
    | 0x167 => some 0xE8
    | offset => if offset < 0x1000 then some 0 else none

def sampleImage : Image sampleLayout .vbScript where
  module := ⟨sampleMem, 0x10000, 0x1000, .literal "vbscript.dll"⟩
  named := rfl
  target := 0x1016C
  signatures := by decide +kernel
  inside := by decide
  code := by decide

/-- An image that is unloaded and loaded again where it was is not hooked. -/
theorem reload_unhooked :
    ¬ ∀ layout e (events : List (Notification layout e)), AlwaysHooked events := by
  intro all
  have one := oneAtATime_of_alwaysHooked
    (all sampleLayout .vbScript [.load sampleImage, .unload sampleImage, .load sampleImage])
  exact (one [.load sampleImage, .unload sampleImage] sampleImage [] rfl).2 sampleImage List.mem_cons_self rfl

end ClrDumper.EngineHooking
