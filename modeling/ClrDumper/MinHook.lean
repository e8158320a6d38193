import Mathlib.Logic.Function.Basic
import Mathlib.Data.Nat.Notation
import Mathlib.Tactic.Common

/-! MinHook, as far as `MinHook.h` documents the functions that the DLL calls. A
hook is known by its target; making one gives a fresh trampoline, and enabling
it patches the code at the target. -/
namespace ClrDumper.MinHook

/-- The failures of `MH_STATUS` that the calls of the DLL can run into. -/
inductive Status where
  | alreadyInitialized
  | notInitialized
  | alreadyCreated
  | notCreated
  | enabled
  | disabled
  | notExecutable
  deriving DecidableEq

/-- `MH_ALL_HOOKS`. -/
def allHooks : UInt32 := 0

/-- An entry of the table. `δ` is the type of the detours. -/
structure Hook (δ : Type) where
  target : UInt32
  detour : δ
  trampoline : ℕ
  isEnabled : Bool

/-- The state of the library, and the addresses whose code is patched. -/
structure Engine (δ : Type) where
  initialized : Bool
  hooks : List (Hook δ)
  /-- How many trampolines were made. -/
  trampolines : ℕ
  patched : UInt32 → Bool
  /-- The targets that `MH_DisableHook` was called with. -/
  disableCalls : List UInt32

namespace Engine

variable {δ : Type}

def new : Engine δ := ⟨false, [], 0, fun _ => false, []⟩

/-- Turns the hooks on some targets on or off. Code is touched only where a hook
changes. -/
def switch (m : Engine δ) (on : Bool) (chosen : UInt32 → Bool) : Engine δ where
  initialized := m.initialized
  hooks := m.hooks.map fun h => if chosen h.target then { h with isEnabled := on } else h
  trampolines := m.trampolines
  patched address :=
    if m.hooks.any (fun h => h.target == address && chosen h.target && h.isEnabled != on) then on
    else m.patched address
  disableCalls := m.disableCalls

/-- `MH_Initialize`. -/
def init (m : Engine δ) : Except Status (Engine δ) :=
  if m.initialized then .error .alreadyInitialized else .ok { m with initialized := true }

/-- `MH_Uninitialize`. -/
def uninit (m : Engine δ) : Except Status (Engine δ) :=
  if m.initialized then .ok { m.switch false (fun _ => true) with initialized := false, hooks := [] }
  else .error .notInitialized

/-- `MH_CreateHook`, with what is written to `ppOriginal`. -/
def createHook (executable : UInt32 → Bool) (m : Engine δ) (target : UInt32) (detour : δ) :
    Except Status (Engine δ × ℕ) :=
  if !m.initialized then .error .notInitialized
  else if !executable target then .error .notExecutable
  else if m.hooks.any (·.target == target) then .error .alreadyCreated
  else .ok ({ m with
    hooks := m.hooks ++ [⟨target, detour, m.trampolines, false⟩]
    trampolines := m.trampolines + 1 }, m.trampolines)

/-- What `MH_EnableHook` and `MH_DisableHook` have in common. -/
def change (m : Engine δ) (on : Bool) (already : Status) (target : UInt32) : Except Status (Engine δ) :=
  if !m.initialized then .error .notInitialized
  else if target = allHooks then .ok (m.switch on fun _ => true)
  else
    match m.hooks.find? (·.target == target) with
    | none => .error .notCreated
    | some h => if h.isEnabled = on then .error already else .ok (m.switch on (· == target))

/-- `MH_EnableHook`. -/
def enableHook (m : Engine δ) (target : UInt32) : Except Status (Engine δ) := m.change true .enabled target

/-- `MH_DisableHook`. Its callers ignore the status; the call itself is recorded. -/
def disableHook (m : Engine δ) (target : UInt32) : Engine δ :=
  let called := { m with disableCalls := m.disableCalls ++ [target] }
  match called.change false .disabled target with
  | .ok changed => changed
  | .error _ => called

/-- A fresh image is mapped over some addresses: no code there is patched, and
the library does not hear of it. -/
def remap (m : Engine δ) (mapped : UInt32 → Bool) : Engine δ :=
  { m with patched := fun address => !mapped address && m.patched address }

/-- The targets of the hooks that are enabled. -/
def Enabled (m : Engine δ) (target : UInt32) : Prop := ∃ h ∈ m.hooks, h.target = target ∧ h.isEnabled = true

/-- There is a hook on the target. -/
def Known (m : Engine δ) (target : UInt32) : Prop := ∃ h ∈ m.hooks, h.target = target

variable {m : Engine δ} {target : UInt32} {detour : δ} {executable : UInt32 → Bool}

theorem any_target_iff : m.hooks.any (·.target == target) = true ↔ m.Known target := by
  simp [Known, List.any_eq_true]

/-- The engine after `MH_CreateHook` and `MH_EnableHook` on a new target. -/
def hooked (m : Engine δ) (target : UInt32) (detour : δ) : Engine δ :=
  { m with
    hooks := m.hooks ++ [⟨target, detour, m.trampolines, true⟩]
    trampolines := m.trampolines + 1
    patched := Function.update m.patched target true }

/-- The table after `MH_CreateHook` on a new target. -/
def created (m : Engine δ) (target : UInt32) (detour : δ) : Engine δ :=
  { m with
    hooks := m.hooks ++ [⟨target, detour, m.trampolines, false⟩]
    trampolines := m.trampolines + 1 }

/-- Turning a new hook on leaves the others as they are. -/
theorem switch_created (new : ¬ m.Known target) :
    (m.created target detour).switch true (· == target) = m.hooked target detour := by
  have others : ∀ h ∈ m.hooks, (if (h.target == target) = true then { h with isEnabled := true } else h) = h :=
    fun h member => if_neg fun same => new ⟨h, member, by simpa using same⟩
  have quiet : ∀ address, (m.hooks.any fun h =>
      h.target == address && h.target == target && h.isEnabled != true) = false := by
    intro address
    rw [List.any_eq_false]
    intro h member
    have distinct : h.target ≠ target := fun same => new ⟨h, member, same⟩
    simp [distinct]
  simp only [switch, created, hooked, List.map_append, List.map_congr_left others, List.map_id',
    List.any_append, quiet]
  simp only [List.map_cons, beq_self_eq_true, if_true, List.map_nil, List.any_cons, List.any_nil, Engine.mk.injEq,
    true_and, and_true]
  funext address
  by_cases same : address = target
  · simp [same]
  · simp [same, Ne.symm same]

/-- A new target can be hooked: the original pointer becomes a fresh trampoline
and the target is patched. -/
theorem create_enable (detour : δ) (ready : m.initialized = true) (code : executable target = true)
    (null : executable allHooks = false) (new : ¬ m.Known target) :
    m.createHook executable target detour = .ok (m.created target detour, m.trampolines) ∧
      (m.created target detour).enableHook target = .ok (m.hooked target detour) := by
  have absent : m.hooks.any (·.target == target) = false := by
    rw [← Bool.not_eq_true, any_target_iff]
    exact new
  have other : target ≠ allHooks := by
    rintro rfl
    rw [code] at null
    cases null
  have none : m.hooks.find? (·.target == target) = .none := by
    rw [List.find?_eq_none]
    intro h member same
    exact new ⟨h, member, by simpa using same⟩
  refine ⟨by simp [createHook, ready, code, absent, created], ?_⟩
  have found : (m.created target detour).hooks.find? (·.target == target) =
      some ⟨target, detour, m.trampolines, false⟩ := by
    simp [created, List.find?_append, none]
  have on : (m.created target detour).initialized = true := ready
  rw [enableHook, change, on, found, if_neg (by decide), if_neg other]
  simp [switch_created new]

/-- A target that has a hook, or no code, is refused. -/
theorem create_refused (detour : δ) (refused : executable target = false ∨ m.Known target) :
    ∃ status, m.createHook executable target detour = .error status := by
  unfold createHook
  split
  · exact ⟨_, rfl⟩
  · split
    · exact ⟨_, rfl⟩
    · rename_i code
      rcases refused with data | known
      · simp [data] at code
      · rw [if_pos (any_target_iff.mpr known)]
        exact ⟨_, rfl⟩

theorem enabled_switch_off (chosen : UInt32 → Bool) {other : UInt32} :
    (m.switch false chosen).Enabled other ↔ m.Enabled other ∧ chosen other = false := by
  constructor
  · rintro ⟨h, member, rfl, on⟩
    obtain ⟨old, inside, rfl⟩ := List.mem_map.mp member
    by_cases hit : chosen old.target = true
    · simp [hit] at on
    · rw [if_neg hit] at on ⊢
      exact ⟨⟨old, inside, rfl, on⟩, by simpa using hit⟩
  · rintro ⟨⟨h, member, rfl, on⟩, miss⟩
    refine ⟨h, List.mem_map.mpr ⟨h, member, by simp [miss]⟩, rfl, on⟩

/-- Where every hook is on, `MH_DisableHook` turns off the hook on its target, or
every hook if that is `MH_ALL_HOOKS`. -/
theorem enabled_disableHook (ready : m.initialized = true) (on : ∀ h ∈ m.hooks, h.isEnabled = true)
    {other : UInt32} :
    (m.disableHook target).Enabled other ↔ m.Enabled other ∧ target ≠ allHooks ∧ other ≠ target := by
  unfold disableHook change
  simp only [ready, Bool.not_true, Bool.false_eq_true, if_false]
  by_cases all : target = allHooks
  · rw [if_pos all]
    simp only [enabled_switch_off, all, ne_eq, not_true, false_and, and_false, Bool.true_eq_false]
  · rw [if_neg all]
    cases found : m.hooks.find? (·.target == target) with
    | none =>
      have missing : m.Enabled other → other ≠ target := by
        rintro ⟨h, member, rfl, _⟩ rfl
        exact absurd (List.find?_eq_none.mp found h member) (by simp)
      exact ⟨fun held => ⟨held, all, missing held⟩, fun held => held.1⟩
    | some h =>
      have member := List.mem_of_find?_eq_some found
      simp only [on h member, Bool.true_eq_false, if_false]
      rw [enabled_switch_off]
      exact and_congr Iff.rfl (by simp [all])

theorem change_ok {on : Bool} {already : Status} {changed : Engine δ}
    (ran : m.change on already target = .ok changed) : ∃ chosen, changed = m.switch on chosen := by
  unfold change at ran
  split at ran
  · cases ran
  · split at ran
    · cases ran
      exact ⟨_, rfl⟩
    · split at ran
      · cases ran
      · split at ran
        · cases ran
        · cases ran
          exact ⟨_, rfl⟩

/-- Every call is recorded, whatever comes of it. -/
theorem disableCalls_disableHook (m : Engine δ) (target : UInt32) :
    (m.disableHook target).disableCalls = m.disableCalls ++ [target] := by
  simp only [disableHook]
  split
  · rename_i changed ran
    obtain ⟨chosen, rfl⟩ := change_ok ran
    rfl
  · rfl

end Engine

end ClrDumper.MinHook
