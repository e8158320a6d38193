import ClrDumper.Interception
import ClrDumper.Transcripts

/-! What the hooks come to: a table of the functions hooked so far and of the code
that is patched. In every mode the target behaves as this table says, and a call
of any hooked function goes on to the one that was hooked last. -/
namespace ClrDumper.HookTables
open Execution CStrings CString Utility MinHook HookClr HookClrProofs ScriptDump LockStep Interception
open AmsiRedirection (Call AsksFor hookedGetProcAddress)
open DumpRetention (Process)
open Transcripts (Alive alive_attach alive_load alive_step engineOf engineOf_eq_some site)
open UnhookTargets (prepared prepared_installed attach_script)

/-! ## The table -/

structure Table where
  /-- The functions that were hooked, in that order. -/
  targets : List UInt32
  patched : UInt32 → Bool

namespace Table

def empty : Table := ⟨[], fun _ => false⟩

/-- A hook is made where there is code and none was made before. -/
def hook (layout : Layout) (t : Table) (target : UInt32) : Table :=
  if layout.executable target = true ∧ target ∉ t.targets then
    ⟨t.targets ++ [target], Function.update t.patched target true⟩
  else t

/-- The table when the DLL has been attached. -/
def attached (layout : Layout) (hookType : ℤ) : Table :=
  match (selected hookType).bind (site layout) with
  | some target => empty.hook layout target
  | none => empty

/-- A fresh image is not patched. An image of the engine that is waited for gets
its hook. -/
def load (layout : Layout) (hookType : ℤ) (t : Table) (m : Module) : Exec Table :=
  let t := { t with patched := fun address => !m.holds address && t.patched address }
  match engineOf hookType with
  | some e =>
    if m.name = e.dllName then do
      let target ← e.target m.mem m.base
      return t.hook layout target
    else return t
  | none => return t

/-- The function that was hooked last. -/
def latest (t : Table) : Exec UInt32 :=
  match t.targets.getLast? with
  | some target => .ok target
  | none => .error .access

end Table

/-- The target as far as its hooks matter. -/
structure Outline where
  table : Table
  host : Host
  /-- Somebody has asked for `AmsiInitialize`. -/
  armed : Bool
  exited : Bool

instance (name : CString) (call : Call) : Decidable (AsksFor name call) := inferInstanceAs (Decidable (_ ∧ _))

/-- `GetProcAddress` while it is hooked. -/
def redirect (layout : Layout) (replacement : UInt32) (s : Outline) (call : Call) : Exec (Outline × Option Outcome) := do
  let original ← s.table.latest
  if original = layout.getProcAddress then
    let value := if AsksFor (.literal "AmsiScanBuffer") call ∧ s.armed = true then replacement
      else call.originalGetProcAddress call.hModule call.lpProcName
    return ({ s with armed := s.armed || decide (AsksFor (.literal "AmsiInitialize") call) }, some (.returned value))
  else .error .access

/-- What an act comes to. -/
def react (layout : Layout) (dll : Addresses) (p : Process) (hookType : ℤ) (s : Outline) :
    Act → Exec (Outline × Option Outcome)
  | .load m => do return ({ s with table := ← s.table.load layout hookType m }, none)
  | .unload _ => return (s, none)
  | .compile address text block o =>
    if s.table.patched address then
      match selected hookType with
      | some .vbScript => do
        let host ← VBScript.compileHooked p.dumpPath p.locale text block o.time o.locals s.host
        return ({ s with host }, some (.went (← s.table.latest)))
      | some .jScript => do
        let host ← JScript.parserHooked p.dumpPath p.locale text block o.time o.locals s.host
        return ({ s with host }, some (.went (← s.table.latest)))
      | _ => .error .access
    else return (s, some (.went address))
  | .getProcAddress call =>
    if s.table.patched layout.getProcAddress then
      match selected hookType with
      | some .assemblyLoad => redirect layout dll.assemblyLoad s call
      | some .powershell => redirect layout dll.powershell s call
      | _ => .error .access
    else return (s, some (.returned (call.originalGetProcAddress call.hModule call.lpProcName)))
  | .safeArrayUnaccessData psa o =>
    if s.table.patched layout.safeArrayUnaccessData then
      match selected hookType with
      | some .nativeClr => do
        let host ← NativeClr.hookedUnAccess p.dumpPath p.processPath psa o.time o.locals s.host
        return ({ s with host, exited := true }, some .exited)
      | _ => .error .access
    else return (s, some (.went layout.safeArrayUnaccessData))
  | .scan address buffer o =>
    if address = dll.assemblyLoad then do
      let host ← AssemblyLoad.amsiScanBuffer p.dumpPath p.processPath buffer o.time o.locals s.host
      return ({ s with host, exited := true }, some .exited)
    else if address = dll.powershell then do
      let host ← ScriptDump.powershell.amsiScanBuffer p.dumpPath p.processPath buffer o.time o.locals s.host
      return ({ s with host }, some (.returned 0))
    else return (s, some (.went address))

def outline (layout : Layout) (dll : Addresses) (p : Process) (hookType : ℤ) : Machine Outline Act Outcome :=
  ⟨react layout dll p hookType, Outline.exited⟩

def Outline.start (layout : Layout) (hookType : ℤ) (host : Host) : Outline :=
  ⟨.attached layout hookType, host, false, false⟩

/-! ## MinHook and the table -/

variable {layout : Layout} {dll : Dll} {t : Table} {hookType : ℤ} {ns : Namespace} {w : World} {m : Module}

/-- The state of MinHook and the original pointers are as the table says. -/
structure Booked (hookType : ℤ) (dll : Dll) (t : Table) : Prop where
  installed : Installed dll.minHook
  targets : dll.minHook.hooks.map (·.target) = t.targets
  patched : dll.minHook.patched = t.patched
  backed : ∀ address, t.patched address = true → address ∈ t.targets
  detours : ∀ h ∈ dll.minHook.hooks, selected hookType = some h.detour
  ordered : dll.minHook.hooks.Pairwise fun h later => h.trampoline < later.trampoline
  original : ∀ ns, selected hookType = some ns → dll.original ns = dll.minHook.hooks.getLast?.map (·.trampoline)

theorem known_iff (booked : Booked hookType dll t) (target : UInt32) :
    dll.minHook.Known target ↔ target ∈ t.targets := by
  rw [← booked.targets, List.mem_map]
  exact Iff.rfl

/-- Only detours of the selected namespace are ever run. -/
theorem detourAt_booked (booked : Booked hookType dll t) (address : UInt32) :
    detourAt dll.minHook address = if t.patched address then selected hookType else none := by
  unfold detourAt
  rw [booked.patched]
  by_cases patched : t.patched address = true
  · rw [if_pos patched, if_pos patched]
    obtain ⟨h, member, site⟩ := (known_iff booked address).mpr (booked.backed address patched)
    have found : (dll.minHook.hooks.find? (·.target == address)).isSome = true :=
      List.find?_isSome.mpr ⟨h, member, by simp [site]⟩
    obtain ⟨first, same⟩ := Option.isSome_iff_exists.mp found
    rw [same, booked.detours first (List.mem_of_find?_eq_some same)]
    rfl
  · rw [if_neg patched, if_neg patched]

/-- Where code is patched, a namespace is selected, and its detour is run. -/
theorem detour_of_patched (booked : Booked hookType dll t) {address : UInt32} (patched : t.patched address = true) :
    ∃ ns, selected hookType = some ns ∧ detourAt dll.minHook address = some ns := by
  obtain ⟨h, member, _⟩ := (known_iff booked address).mpr (booked.backed address patched)
  have chosen := booked.detours h member
  exact ⟨h.detour, chosen, by rw [detourAt_booked booked, if_pos patched, chosen]⟩

/-- They all go on to the function that was hooked last. -/
theorem originalOf_booked (booked : Booked hookType dll t) (chosen : selected hookType = some ns) :
    originalOf dll ns = t.latest := by
  unfold originalOf Table.latest
  rw [booked.original ns chosen, ← booked.targets]
  have ordered := booked.ordered
  rcases List.eq_nil_or_concat dll.minHook.hooks with none | ⟨front, last, all⟩
  · rw [none]
    rfl
  · rw [all, List.concat_eq_append] at ordered ⊢
    have before : ∀ h ∈ front, h.trampoline < last.trampoline := fun h member =>
      (List.pairwise_append.mp ordered).2.2 h member last (List.mem_singleton_self last)
    have missing : front.find? (fun h => h.trampoline == last.trampoline) = none := by
      rw [List.find?_eq_none]
      intro h member same
      have less := before h member
      rw [beq_iff_eq.mp same] at less
      exact absurd less (Nat.lt_irrefl _)
    simp [List.find?_append, missing]

/-- An installation makes the entry of the table. -/
theorem booked_install (booked : Booked hookType dll t) (chosen : selected hookType = some ns) (layout : Layout)
    (target : UInt32) : Booked hookType (dll.install layout target ns) (t.hook layout target) := by
  rcases @install_cases layout dll target ns booked.installed.ready with ⟨code, new, same⟩ | ⟨refused, same⟩
  · have fresh : target ∉ t.targets := fun member => new ((known_iff booked target).mpr member)
    rw [same, Table.hook, if_pos ⟨code, fresh⟩]
    refine ⟨installed_hooked booked.installed, ?_, ?_, fun address patched => ?_, fun h member => ?_, ?_, fun other own => ?_⟩
    · simp [Engine.hooked, booked.targets]
    · simp [Engine.hooked, booked.patched]
    · dsimp only at patched ⊢
      by_cases here : address = target
      · rw [here]
        exact List.mem_append_right _ (List.mem_singleton_self target)
      · rw [Function.update_of_ne here] at patched
        exact List.mem_append_left _ (booked.backed address patched)
    · rcases List.mem_append.mp member with old | last
      · exact booked.detours h old
      · rw [List.mem_singleton.mp last, chosen]
    · refine List.pairwise_append.mpr ⟨booked.ordered, List.pairwise_singleton _ _, fun h member later last => ?_⟩
      rw [List.mem_singleton.mp last]
      exact booked.installed.earlier h member
    · obtain rfl : ns = other := Option.some.inj (chosen.symm.trans own)
      simp [Engine.hooked]
  · rw [same, Table.hook, if_neg]
    · exact booked
    · rintro ⟨code, new⟩
      rcases refused with data | known
      · cases code.symm.trans data
      · exact new ((known_iff booked target).mp known)

theorem booked_remap (booked : Booked hookType dll t) (mapped : UInt32 → Bool) :
    Booked hookType { dll with minHook := dll.minHook.remap mapped }
      { t with patched := fun address => !mapped address && t.patched address } where
  installed := ⟨booked.installed.ready, booked.installed.on, booked.installed.earlier⟩
  targets := booked.targets
  patched := by simp [Engine.remap, booked.patched]
  backed address patched := booked.backed address (Bool.and_eq_true_iff.mp patched).2
  detours := booked.detours
  ordered := booked.ordered
  original := booked.original

theorem booked_of_eq {after : Dll} (booked : Booked hookType dll t) (engine : after.minHook = dll.minHook)
    (pointers : after.original = dll.original) : Booked hookType after t := by
  obtain ⟨installed, targets, patched, backed, detours, ordered, original⟩ := booked
  rw [← engine] at installed targets patched detours ordered original
  rw [← pointers] at original
  exact ⟨installed, targets, patched, backed, detours, ordered, original⟩

theorem booked_prepared (hookType : ℤ) : Booked hookType (prepared hookType) .empty where
  installed := prepared_installed hookType
  targets := rfl
  patched := rfl
  backed _ patched := by cases patched
  detours _ member := absurd member List.not_mem_nil
  ordered := .nil
  original _ _ := rfl

/-- The process with the DLL attached for a hook type is as the table says. -/
structure Tabled (hookType : ℤ) (w : World) (t : Table) : Prop where
  alive : Alive w
  type : w.dll._hookType = hookType
  booked : Booked hookType w.dll t

theorem tabled_attach (layout : Layout) (hookType : ℤ) :
    Tabled hookType (attach layout hookType .start) (.attached layout hookType) := by
  have fresh := booked_prepared hookType
  have alive := alive_attach layout hookType
  unfold Table.attached
  cases chosen : selected hookType with
  | none =>
    have same : attach layout hookType .start = { World.start with attached := true, dll := prepared hookType } := by
      simp only [attach, hookFunctions, chosen]
      rfl
    rw [same] at alive ⊢
    exact ⟨alive, rfl, fresh⟩
  | some ns =>
    have script : ∀ e : ScriptEngine, ns = e.ns → Tabled hookType (attach layout hookType .start) .empty := by
      rintro e rfl
      rw [attach_script chosen] at alive ⊢
      exact ⟨alive, rfl, booked_of_eq fresh rfl rfl⟩
    cases ns with
    | nativeClr =>
      let dll := { prepared hookType with _safeArrayUnaccessData := layout.safeArrayUnaccessData }
      have same : attach layout hookType .start =
          { World.start with attached := true, dll := dll.install layout layout.safeArrayVariable .nativeClr } := by
        simp only [attach, hookFunctions, chosen]
        rfl
      rw [same] at alive ⊢
      have assigned : Booked hookType dll .empty := booked_of_eq fresh rfl rfl
      exact ⟨alive, install_hookType, booked_install assigned chosen layout layout.safeArrayVariable⟩
    | assemblyLoad =>
      have same : attach layout hookType .start = { World.start with
          attached := true
          dll := (prepared hookType).install layout layout.getProcAddress .assemblyLoad } := by
        simp only [attach, hookFunctions, chosen]
        rfl
      rw [same] at alive ⊢
      exact ⟨alive, install_hookType, booked_install fresh chosen layout layout.getProcAddress⟩
    | vbScript => exact script .vbScript rfl
    | jScript => exact script .jScript rfl
    | powershell =>
      have same : attach layout hookType .start = { World.start with
          attached := true
          dll := (prepared hookType).install layout layout.getProcAddress .powershell } := by
        simp only [attach, hookFunctions, chosen]
        rfl
      rw [same] at alive ⊢
      exact ⟨alive, install_hookType, booked_install fresh chosen layout layout.getProcAddress⟩

/-! ## The simulation -/

/-- **Step lemma.** A load makes of the process what it makes of the table. -/
theorem load_alike (tabled : Tabled hookType w t) (m : Module) :
    Alike (Tabled hookType) (step layout w (.load m)) (t.load layout hookType m) := by
  have remapped := booked_remap tabled.booked m.holds
  have after : ∀ {w' : World} {t' : Table}, step layout w (.load m) = .ok w' → w'.dll._hookType = hookType →
      Booked hookType w'.dll t' → Tabled hookType w' t' := fun ran type booked =>
    ⟨alive_load tabled.alive ran, type, booked⟩
  unfold Table.load
  cases engine : engineOf hookType with
  | none =>
    have silent : step layout w (.load m) = .ok (w.map m) := step_load_silent (tabled.alive.silent (tabled.type ▸ engine))
    rw [silent]
    exact .ok (after silent tabled.type remapped)
  | some e =>
    have loads := step_load_watching (tabled.alive.waits e (tabled.type ▸ engine)) layout m
    dsimp only
    by_cases own : m.name = e.dllName
    · rw [if_pos own]
      cases found : e.target m.mem m.base with
      | error fault =>
        rw [loads, e.callback_faults own found]
        exact .error fault
      | ok target =>
        obtain ⟨compile, ran⟩ := e.callback_own layout (w.map m).dll own found
        rw [ran, ok_bind] at loads
        rw [loads]
        refine .ok (after loads ?_ ?_)
        · rw [install_hookType, ScriptEngine.assign_hookType]
          exact tabled.type
        · exact booked_install (booked_of_eq remapped (e.assign_minHook _ _ _) (e.assign_original _ _ _))
            (engineOf_eq_some.mp engine) layout target
    · rw [if_neg own]
      rw [e.callback_other own, ok_bind] at loads
      rw [loads]
      exact .ok (after loads tabled.type remapped)

/-- An unload changes neither. -/
theorem unload_tabled (tabled : Tabled hookType w t) (layout : Layout) (m : Module) :
    ∃ w', step layout w (.unload m) = .ok w' ∧ Tabled hookType w' t := by
  have unloads : step layout w (.unload m) = .ok (w.unmap m) := by
    cases engine : engineOf w.dll._hookType with
    | none =>
      have silent : (w.unmap m).loader.registrations = [] := tabled.alive.silent engine
      simp [step, notifyAll, silent]
    | some e => exact step_unload_watching (tabled.alive.waits e engine) layout m
  have on : (w.unmap m).attached = true := tabled.alive.attached
  have alive := @alive_step _ _ _ (fun _ => tabled.alive) (.unload m) unloads on
  exact ⟨w.unmap m, unloads, alive, tabled.type, tabled.booked⟩

/-- The target is as its outline says. Once it has exited the DLL is detached, and
nothing is said about its hooks. -/
structure Shows (hookType : ℤ) (s : Target) (o : Outline) : Prop where
  host : s.host = o.host
  exited : s.exited = o.exited
  armed : ∀ ns, selected hookType = some ns → s.isAmsiIntializeCalled ns = o.armed
  tabled : s.exited = false → Tabled hookType s.world o.table
  detached : s.exited = true → s.world.attached = false

variable {dll : Addresses} {p : Process} {s : Target} {o : Outline}

/-- `HookedGetProcAddress` is `redirect`. -/
theorem redirect_alike (shows' : Shows hookType s o) (going : s.exited = false) (chosen : selected hookType = some ns)
    (replacement : UInt32) (call : Call) :
    Alike (Beside (Shows hookType)) (getProcAddressOf layout replacement s ns call) (redirect layout replacement o call) := by
  have tabled := shows'.tabled going
  have flag := shows'.armed ns chosen
  unfold getProcAddressOf redirect
  rw [originalOf_booked tabled.booked chosen]
  apply alike_bind (alike_self o.table.latest)
  rintro original _ rfl
  split
  · have value : (hookedGetProcAddress replacement o.armed call).1 =
        if AsksFor (.literal "AmsiScanBuffer") call ∧ o.armed = true then replacement
        else call.originalGetProcAddress call.hModule call.lpProcName := by
      split
      · rename_i scan
        exact AmsiRedirection.redirected scan.1 scan.2
      · rename_i other
        exact AmsiRedirection.forwarded other
    have raised : (hookedGetProcAddress replacement o.armed call).2 =
        (o.armed || decide (AsksFor (.literal "AmsiInitialize") call)) := by
      rw [Bool.eq_iff_iff, AmsiRedirection.flag_iff, Bool.or_eq_true, decide_eq_true_iff]
    rw [flag]
    refine .ok ⟨⟨shows'.host, shows'.exited, fun other own => ?_, shows'.tabled, shows'.detached⟩, ?_⟩
    · obtain rfl : ns = other := Option.some.inj (chosen.symm.trans own)
      exact (Function.update_self ..).trans raised
    · exact congrArg (fun value => some (Outcome.returned value)) value
  · exact .error _

/-- **Step lemma.** Each act does to the target what it does to the outline. -/
theorem act_alike (shows' : Shows hookType s o) (going : s.exited = false) (a : Act) :
    Alike (Beside (Shows hookType)) (act layout dll p s a) (react layout dll p hookType o a) := by
  have tabled := shows'.tabled going
  have direct : ∀ {address}, ¬ o.table.patched address = true → detourAt s.world.dll.minHook address = none :=
    fun unpatched => by rw [detourAt_booked tabled.booked, if_neg unpatched]
  -- A handler that has run, with the function that its call goes on to.
  have goesOn : ∀ {ns} (host : Host), selected hookType = some ns → Alike (Beside (Shows hookType))
      (do return ({ s with host }, some (Outcome.went (← originalOf s.world.dll ns))))
      (do return ({ o with host }, some (Outcome.went (← o.table.latest)))) := by
    intro ns host chosen
    rw [originalOf_booked tabled.booked chosen]
    apply alike_bind (alike_self o.table.latest)
    rintro address _ rfl
    exact .ok ⟨⟨rfl, shows'.exited, shows'.armed, shows'.tabled, shows'.detached⟩, rfl⟩
  have exits : ∀ host, Beside (Shows hookType) (s.exit layout host, some Outcome.exited)
      ({ o with host, exited := true }, some Outcome.exited) :=
    fun host => ⟨⟨rfl, rfl, shows'.armed, nofun, fun _ => rfl⟩, rfl⟩
  cases a with
  | load m =>
    apply alike_bind (load_alike tabled m)
    intro w table loaded
    exact .ok ⟨⟨shows'.host, shows'.exited, shows'.armed, fun _ => loaded, fun exited => by simp [going] at exited⟩, rfl⟩
  | unload m =>
    obtain ⟨w, ran, unloaded⟩ := unload_tabled tabled layout m
    simp only [act, react, ran, ok_bind]
    exact .ok ⟨⟨shows'.host, shows'.exited, shows'.armed, fun _ => unloaded, fun exited => by simp [going] at exited⟩, rfl⟩
  | compile address text block occasion =>
    by_cases patched : o.table.patched address = true
    · obtain ⟨ns, chosen, detour⟩ := detour_of_patched tabled.booked patched
      simp only [act, react, detour, if_pos patched, chosen, shows'.host]
      cases ns with
      | nativeClr | assemblyLoad | powershell => exact .error _
      | vbScript | jScript =>
        apply alike_bind (alike_self _)
        rintro host _ rfl
        exact goesOn host chosen
    · simp only [act, react, direct patched, if_neg patched]
      exact .ok ⟨shows', rfl⟩
  | getProcAddress call =>
    by_cases patched : o.table.patched layout.getProcAddress = true
    · obtain ⟨ns, chosen, detour⟩ := detour_of_patched tabled.booked patched
      simp only [act, react, detour, if_pos patched, chosen]
      cases ns with
      | nativeClr | vbScript | jScript => exact .error _
      | assemblyLoad | powershell => exact redirect_alike shows' going chosen _ call
    · simp only [act, react, direct patched, if_neg patched]
      exact .ok ⟨shows', rfl⟩
  | safeArrayUnaccessData psa occasion =>
    by_cases patched : o.table.patched layout.safeArrayUnaccessData = true
    · obtain ⟨ns, chosen, detour⟩ := detour_of_patched tabled.booked patched
      simp only [act, react, detour, if_pos patched, chosen, shows'.host]
      cases ns with
      | assemblyLoad | powershell | vbScript | jScript => exact .error _
      | nativeClr =>
        apply alike_bind (alike_self _)
        rintro host _ rfl
        exact .ok (exits host)
    · simp only [act, react, direct patched, if_neg patched]
      exact .ok ⟨shows', rfl⟩
  | scan address buffer occasion =>
    simp only [act, react, shows'.host]
    split
    · apply alike_bind (alike_self _)
      rintro host _ rfl
      exact .ok (exits host)
    · split
      · apply alike_bind (alike_self _)
        rintro host _ rfl
        exact .ok ⟨⟨rfl, shows'.exited, shows'.armed, shows'.tabled, shows'.detached⟩, rfl⟩
      · exact .ok ⟨shows', rfl⟩

theorem shows_start (layout : Layout) (hookType : ℤ) (host : Host) :
    Shows hookType (.start layout hookType host) (.start layout hookType host) :=
  ⟨rfl, rfl, fun _ _ => rfl, fun _ => tabled_attach layout hookType, nofun⟩

/-- **Run lemma.** So does every run of them. -/
theorem run_outlined (layout : Layout) (dll : Addresses) (p : Process) (hookType : ℤ) (host : Host) (acts : List Act) :
    Alike (Beside (Shows hookType)) ((target layout dll p).run (.start layout hookType host) acts)
      ((outline layout dll p hookType).run (.start layout hookType host) acts) :=
  @run_alike _ _ _ _ (target layout dll p) (outline layout dll p hookType) (Shows hookType)
    (fun _ _ shows' => shows'.exited) (fun _ _ a shows' going => act_alike shows' going a) _ _
    (shows_start layout hookType host) acts

/-- What it has written, and which code it runs patched, if it still runs. -/
def seen (host : Host) (exited : Bool) (patched : UInt32 → Bool) : Host × Option (UInt32 → Bool) :=
  (host, if exited then none else some patched)

/-- **Hooks.** In every mode and whatever the target does, it does what its
outline does: the same outcomes, the same dumps, the same code patched and the
same faults, although it finds its way through the entries of MinHook, the
detours, the original pointers and the trampolines. -/
theorem target_outlined (layout : Layout) (dll : Addresses) (p : Process) (hookType : ℤ) (host : Host) (acts : List Act) :
    (fun x => (seen x.1.host x.1.exited x.1.world.dll.minHook.patched, x.2)) <$>
        (target layout dll p).run (.start layout hookType host) acts =
      (fun x => (seen x.1.host x.1.exited x.1.table.patched, x.2)) <$>
        (outline layout dll p hookType).run (.start layout hookType host) acts := by
  apply map_eq_of_alike (run_outlined layout dll p hookType host acts)
  rintro ⟨s, outcomes⟩ ⟨o, outcomes'⟩ ⟨shows', same⟩
  obtain rfl : outcomes = outcomes' := same
  have host : s.host = o.host := shows'.host
  have exited : s.exited = o.exited := shows'.exited
  dsimp only [seen]
  rw [host, ← exited]
  cases going : s.exited with
  | true => rfl
  | false =>
    have patched : s.world.dll.minHook.patched = o.table.patched := (shows'.tabled going).booked.patched
    rw [patched]

end ClrDumper.HookTables
