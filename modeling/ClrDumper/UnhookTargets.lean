import ClrDumper.CallTargets

/-! Whether `UnhookFunctions` undoes what a run hooked. Hook and unhook functions
agree on the target where both pass `&GetProcAddress`; the others disagree, or
agree on the last target only. -/
namespace ClrDumper.UnhookTargets
open Execution CStrings Memory MinHook DllLoadCallback HookClr HookClrProofs

/-- A loaded image of the engine's DLL whose signatures lead to `site`. -/
def Leads (e : ScriptEngine) (site : UInt32) (m : Module) : Prop :=
  m.name = e.dllName ∧ e.target m.mem m.base = .ok site

/-- One of the loaded images does. -/
def Resolved (e : ScriptEngine) (loads : List Module) (site : UInt32) : Prop := ∃ m ∈ loads, Leads e site m

/-- The image of the engine's DLL that was loaded last. -/
def lastLoaded (e : ScriptEngine) (loads : List Module) : Option Module :=
  (loads.filter fun m => m.name = e.dllName).getLast?

/-- The functions that a hook type means to intercept. -/
def Meant (layout : Layout) (loads : List Module) (site : UInt32) : Option Namespace → Prop
  | some .nativeClr => site = layout.safeArrayUnaccessData
  | some .assemblyLoad | some .powershell => site = layout.getProcAddress
  | some .vbScript => Resolved .vbScript loads site
  | some .jScript => Resolved .jScript loads site
  | none => False

/-- The hooks that a run enabled are on the functions meant, `UnhookFunctions`
passes exactly their targets to `MH_DisableHook`, and none is left enabled. -/
structure Undoes (layout : Layout) (loads : List Module) (w : World) : Prop where
  meant : ∀ site, w.dll.minHook.Enabled site → Meant layout loads site (selected w.dll._hookType)
  passes : ∀ site, site ∈ (unhook layout w.dll).minHook.disableCalls ↔ w.dll.minHook.Enabled site
  clean : ∀ site, ¬ (unhook layout w.dll).minHook.Enabled site

/-- When hook and unhook functions agree. -/
def Agree (layout : Layout) (loads : List Module) : Option Namespace → Prop
  | some .nativeClr => False
  | some .assemblyLoad | some .powershell | none => True
  | some .vbScript => Resolved .vbScript loads layout.getProcAddress ∧
      ∀ site, Resolved .vbScript loads site → layout.executable site = true → site = layout.getProcAddress
  | some .jScript => ∃ m last, lastLoaded .jScript loads = some m ∧ Leads .jScript last m ∧
      layout.executable last = true ∧
      ∀ site, Resolved .jScript loads site → layout.executable site = true → site = last

variable {layout : Layout} {hookType : ℤ} {loads : List Module} {w : World} {e : ScriptEngine}

/-- The process after the attach and some loads. -/
def after (layout : Layout) (hookType : ℤ) (loads : List Module) : Exec World :=
  run layout .start (.processAttach hookType :: loads.map .load)

/-- What the attach establishes and every load keeps holds after every run. -/
theorem after_invariant {inv : List Module → World → Prop} (start : inv [] (attach layout hookType .start))
    (each : ∀ loads w m next, inv loads w → step layout w (.load m) = .ok next → inv (loads ++ [m]) next)
    (ran : after layout hookType loads = .ok w) : inv loads w := by
  change (loads.map Event.load).foldlM (step layout) (attach layout hookType .start) = .ok w at ran
  rw [List.foldlM_map] at ran
  exact run_invariant start each loads w ran

/-- One call of `MH_DisableHook` undoes the run exactly when its target is the
one that was hooked. -/
theorem passes_iff {site : UInt32} (installed : Installed w.dll.minHook) (quiet : w.dll.minHook.disableCalls = [])
    (same : unhook layout w.dll = w.dll.disable site) :
    Undoes layout loads w ↔ (∀ other, w.dll.minHook.Known other → Meant layout loads other (selected w.dll._hookType)) ∧
      ∀ other, other = site ↔ w.dll.minHook.Known other := by
  have calls : (unhook layout w.dll).minHook.disableCalls = [site] := by
    rw [same]
    change (w.dll.minHook.disableHook site).disableCalls = _
    rw [Engine.disableCalls_disableHook, quiet, List.nil_append]
  constructor
  · rintro ⟨meant, passes, _⟩
    refine ⟨fun other known => meant other ((enabled_iff_known installed).mpr known), fun other => ?_⟩
    rw [← enabled_iff_known installed, ← passes other, calls, List.mem_singleton]
  · rintro ⟨meant, exact⟩
    refine ⟨fun other on => meant other ((enabled_iff_known installed).mp on), fun other => ?_, fun other on => ?_⟩
    · rw [calls, List.mem_singleton, exact other, enabled_iff_known installed]
    · rw [same] at on
      obtain ⟨held, _, different⟩ := (Engine.enabled_disableHook installed.ready installed.on).mp on
      exact different ((exact other).mpr ((enabled_iff_known installed).mp held))

/-! ## Script hook types -/

/-- After some loads, a script type has hooked what they resolved to, where there
was code, and remembers the last. -/
structure ScriptInv (layout : Layout) (e : ScriptEngine) (loads : List Module) (w : World) : Prop where
  watching : Watching e w
  installed : Installed w.dll.minHook
  quiet : w.dll.minHook.disableCalls = []
  type : selected w.dll._hookType = some e.ns
  known : ∀ site, w.dll.minHook.Known site ↔ Resolved e loads site ∧ layout.executable site = true
  parser : e = .jScript → (∃ m, lastLoaded e loads = some m ∧ Leads e w.dll.jScriptParserAddress m) ∨
    (lastLoaded e loads = none ∧ w.dll.jScriptParserAddress = 0)

/-- The globals of the DLL before its hook type's own function runs. -/
def prepared (hookType : ℤ) : Dll := { Dll.new with _hookType := hookType, minHook.initialized := true }

theorem prepared_installed (hookType : ℤ) : Installed (prepared hookType).minHook :=
  ⟨rfl, fun _ member => absurd member List.not_mem_nil, fun _ member => absurd member List.not_mem_nil⟩

theorem prepared_unknown (hookType : ℤ) (site : UInt32) : ¬ (prepared hookType).minHook.Known site :=
  fun ⟨_, member, _⟩ => List.not_mem_nil member

theorem attach_script (chosen : selected hookType = some e.ns) :
    attach layout hookType .start = { World.start with
      attached := true
      dll := { prepared hookType with notify := ⟨some e.callback, 1, true⟩ }
      loader := ⟨[1], 1⟩ } := by
  cases e with
  | vbScript =>
    have case : selected hookType = some .vbScript := chosen
    simp only [attach, hookFunctions, case]
    rfl
  | jScript =>
    have case : selected hookType = some .jScript := chosen
    simp only [attach, hookFunctions, case]
    rfl

theorem scriptInv_attach (chosen : selected hookType = some e.ns) :
    ScriptInv layout e [] (attach layout hookType .start) := by
  rw [attach_script chosen]
  refine ⟨⟨rfl, ⟨1, rfl⟩, rfl⟩, prepared_installed hookType, rfl, chosen, fun site => ?_, fun _ => Or.inr ⟨rfl, rfl⟩⟩
  exact ⟨fun known => absurd known (prepared_unknown hookType site),
    fun ⟨⟨_, member, _⟩, _⟩ => absurd member List.not_mem_nil⟩

/-- Loading another DLL leaves what was resolved as it was. -/
theorem resolved_other {m : Module} (other : m.name ≠ e.dllName) {site : UInt32} :
    Resolved e (loads ++ [m]) site ↔ Resolved e loads site := by
  constructor
  · rintro ⟨image, member, leads⟩
    rcases List.mem_append.mp member with old | new
    · exact ⟨image, old, leads⟩
    · rw [List.mem_singleton] at new
      subst new
      exact absurd leads.1 other
  · rintro ⟨image, member, leads⟩
    exact ⟨image, List.mem_append_left _ member, leads⟩

theorem resolved_own {m : Module} {target : UInt32} (leads : Leads e target m) {site : UInt32} :
    Resolved e (loads ++ [m]) site ↔ Resolved e loads site ∨ site = target := by
  constructor
  · rintro ⟨image, member, goal⟩
    rcases List.mem_append.mp member with old | new
    · exact Or.inl ⟨image, old, goal⟩
    · rw [List.mem_singleton] at new
      subst new
      have same := goal.2.symm.trans leads.2
      exact Or.inr (Except.ok.inj same)
  · rintro (⟨image, member, goal⟩ | rfl)
    · exact ⟨image, List.mem_append_left _ member, goal⟩
    · exact ⟨m, List.mem_append_right _ List.mem_cons_self, leads⟩

theorem lastLoaded_own {m : Module} (own : m.name = e.dllName) : lastLoaded e (loads ++ [m]) = some m := by
  simp [lastLoaded, own]

theorem lastLoaded_other {m : Module} (other : m.name ≠ e.dllName) :
    lastLoaded e (loads ++ [m]) = lastLoaded e loads := by
  simp [lastLoaded, other]

theorem lastLoaded_mem {m : Module} (last : lastLoaded e loads = some m) : m ∈ loads :=
  (List.mem_filter.mp (List.mem_of_getLast? last)).1

/-- **Step lemma.** A load of the engine's DLL installs the hook where it leads;
any other load changes no hook. -/
theorem scriptInv_load {m : Module} {next : World} (inv : ScriptInv layout e loads w)
    (ran : step layout w (.load m) = .ok next) : ScriptInv layout e (loads ++ [m]) next := by
  rw [step_load_watching inv.watching] at ran
  obtain ⟨dll, called, rest⟩ := bind_ok ran
  cases rest
  have mapped : Installed (w.map m).dll.minHook :=
    ⟨inv.installed.ready, inv.installed.on, inv.installed.earlier⟩
  by_cases own : m.name = e.dllName
  · obtain ⟨target, found⟩ := e.target_of_callback own called
    obtain ⟨compile, runs⟩ := e.callback_own layout (w.map m).dll own found
    rw [called, Except.ok.injEq] at runs
    subst runs
    have assigned : Installed (e.assign compile target (w.map m).dll).minHook := by
      rw [ScriptEngine.assign_minHook]
      exact mapped
    refine ⟨⟨inv.watching.attached, inv.watching.registered, ?_⟩, installed_install assigned, ?_, ?_,
      fun site => ?_, ?_⟩
    · rw [install_notify, ScriptEngine.assign_notify]
      exact inv.watching.callback
    · rw [install_disableCalls assigned.ready, ScriptEngine.assign_minHook]
      exact inv.quiet
    · rw [install_hookType, ScriptEngine.assign_hookType]
      exact inv.type
    · rw [known_install assigned, ScriptEngine.assign_minHook, resolved_own ⟨own, found⟩, or_and_right]
      change w.dll.minHook.Known site ∨ _ ↔ _
      rw [inv.known site]
      refine or_congr Iff.rfl ⟨?_, ?_⟩
      · rintro ⟨rfl, code⟩
        exact ⟨rfl, code⟩
      · rintro ⟨rfl, code⟩
        exact ⟨rfl, code⟩
    · rintro rfl
      rw [install_parserAddress]
      exact Or.inl ⟨m, lastLoaded_own own, own, found⟩
  · rw [e.callback_other own, Except.ok.injEq] at called
    subst called
    refine ⟨⟨inv.watching.attached, inv.watching.registered, inv.watching.callback⟩, mapped, inv.quiet,
      inv.type, fun site => ?_, fun js => ?_⟩
    · rw [resolved_other own]
      exact inv.known site
    · rw [lastLoaded_other own]
      exact inv.parser js

/-- **Run lemma.** -/
theorem scriptInv_after (chosen : selected hookType = some e.ns) (ran : after layout hookType loads = .ok w) :
    ScriptInv layout e loads w :=
  after_invariant (scriptInv_attach chosen) (fun _ _ _ _ inv step => scriptInv_load inv step) ran

/-! ## Hook types without a script engine -/

/-- The other types hook one target in the attach, if they hook any, and register
for no loads. -/
structure FixedInv (targets : UInt32 → Prop) (choice : Option Namespace) (w : World) : Prop where
  silent : w.loader.registrations = []
  installed : Installed w.dll.minHook
  quiet : w.dll.minHook.disableCalls = []
  type : selected w.dll._hookType = choice
  known : ∀ site, w.dll.minHook.Known site ↔ targets site

variable {targets : UInt32 → Prop} {choice : Option Namespace}

/-- **Run lemma.** Loads change none of this. -/
theorem fixedInv_after (start : FixedInv targets choice (attach layout hookType .start))
    (ran : after layout hookType loads = .ok w) : FixedInv targets choice w := by
  refine @after_invariant _ _ _ _ (fun _ w => FixedInv targets choice w) start ?_ ran
  intro loads w m next inv step
  rw [step_load_silent inv.silent, Except.ok.injEq] at step
  subst step
  exact ⟨inv.silent, ⟨inv.installed.ready, inv.installed.on, inv.installed.earlier⟩, inv.quiet, inv.type,
    inv.known⟩

/-- An attach that installs one hook on the initial globals. -/
theorem fixedInv_install {site : UInt32} {space : Namespace} {dll : Dll}
    (engine : dll.minHook = (prepared hookType).minHook) (type : selected dll._hookType = choice)
    (attached : attach layout hookType .start =
      { World.start with attached := true, dll := dll.install layout site space }) :
    FixedInv (fun other => other = site ∧ layout.executable site = true) choice
      (attach layout hookType .start) := by
  have installed : Installed dll.minHook := by
    rw [engine]
    exact prepared_installed hookType
  rw [attached]
  refine ⟨rfl, installed_install installed, ?_, ?_, fun other => ?_⟩
  · rw [install_disableCalls installed.ready, engine]
    rfl
  · rw [install_hookType]
    exact type
  · rw [known_install installed, engine, or_iff_right (prepared_unknown hookType other)]

theorem attach_nativeClr (chosen : selected hookType = some .nativeClr) :
    FixedInv (fun other => other = layout.safeArrayVariable ∧ layout.executable layout.safeArrayVariable = true)
      (some .nativeClr) (attach layout hookType .start) := by
  refine @fixedInv_install _ _ _ _ .nativeClr
    { prepared hookType with _safeArrayUnaccessData := layout.safeArrayUnaccessData } rfl chosen ?_
  simp only [attach, hookFunctions, chosen]
  rfl

theorem attach_getProcAddress (chosen : selected hookType = some .assemblyLoad ∨ selected hookType = some .powershell) :
    FixedInv (fun other => other = layout.getProcAddress ∧ layout.executable layout.getProcAddress = true)
      (selected hookType) (attach layout hookType .start) := by
  rcases chosen with chosen | chosen
  · refine @fixedInv_install _ _ _ _ .assemblyLoad (prepared hookType) rfl rfl ?_
    simp only [attach, hookFunctions, chosen]
    rfl
  · refine @fixedInv_install _ _ _ _ .powershell (prepared hookType) rfl rfl ?_
    simp only [attach, hookFunctions, chosen]
    rfl

theorem attach_default (chosen : selected hookType = none) :
    FixedInv (fun _ => False) none (attach layout hookType .start) := by
  have attached : attach layout hookType .start =
      { World.start with attached := true, dll := prepared hookType } := by
    simp only [attach, hookFunctions, chosen]
    rfl
  rw [attached]
  exact ⟨rfl, prepared_installed hookType, rfl, chosen, fun other => iff_false_intro (prepared_unknown hookType other)⟩

/-! ## Every hook type -/

theorem undoes_script {t : UInt32} (inv : ScriptInv layout e loads w)
    (same : unhook layout w.dll = w.dll.disable t) :
    Undoes layout loads w ↔ (Resolved e loads t ∧ layout.executable t = true) ∧
      ∀ site, Resolved e loads site → layout.executable site = true → site = t := by
  rw [passes_iff inv.installed inv.quiet same, inv.type]
  have meant : ∀ other, Resolved e loads other → Meant layout loads other (some e.ns) := by
    intro other resolved
    cases e <;> exact resolved
  simp only [inv.known]
  constructor
  · rintro ⟨_, exact⟩
    exact ⟨(exact t).mp rfl, fun site resolved code => (exact site).mpr ⟨resolved, code⟩⟩
  · rintro ⟨hit, only⟩
    refine ⟨fun other known => meant other known.1, fun other => ⟨?_, fun ⟨resolved, code⟩ => only other resolved code⟩⟩
    rintro rfl
    exact hit

/-- The native type hooks and unhooks the address of a variable. -/
theorem undoes_nativeClr (chosen : selected hookType = some .nativeClr)
    (ran : after layout hookType loads = .ok w) : ¬ Undoes layout loads w := by
  intro undoes
  have inv := fixedInv_after (attach_nativeClr chosen) ran
  have same : unhook layout w.dll = w.dll.disable layout.safeArrayVariable := by
    simp only [unhook, inv.type]
    rfl
  obtain ⟨meant, exact⟩ := (passes_iff inv.installed inv.quiet same).mp undoes
  have wrong := meant _ ((exact _).mp rfl)
  rw [inv.type] at wrong
  exact layout.variable_ne wrong

theorem undoes_getProcAddress (chosen : selected hookType = some .assemblyLoad ∨ selected hookType = some .powershell)
    (ran : after layout hookType loads = .ok w) : Undoes layout loads w := by
  have inv := fixedInv_after (attach_getProcAddress chosen) ran
  have meant : ∀ other, other = layout.getProcAddress →
      Meant layout loads other (selected w.dll._hookType) := by
    intro other same
    rw [inv.type]
    rcases chosen with chosen | chosen <;> rw [chosen] <;> exact same
  have same : unhook layout w.dll = w.dll.disable layout.getProcAddress := by
    rcases chosen with chosen | chosen <;> simp only [unhook, inv.type, chosen] <;> rfl
  refine (passes_iff inv.installed inv.quiet same).mpr ⟨fun other known => ?_, fun other => ?_⟩
  · exact meant other ((inv.known other).mp known).1
  · rw [inv.known other, and_iff_left layout.code]

theorem undoes_default (chosen : selected hookType = none) (ran : after layout hookType loads = .ok w) :
    Undoes layout loads w := by
  have inv := fixedInv_after (attach_default chosen) ran
  have same : unhook layout w.dll = w.dll := by simp only [unhook, inv.type]
  have off : ∀ site, ¬ w.dll.minHook.Enabled site := fun site on =>
    (inv.known site).mp ((enabled_iff_known inv.installed).mp on)
  refine ⟨fun site on => absurd on (off site), fun site => ?_, fun site => ?_⟩
  · rw [same, inv.quiet]
    exact iff_of_false List.not_mem_nil (off site)
  · rw [same]
    exact off site

theorem undoes_vbScript (chosen : selected hookType = some .vbScript) (ran : after layout hookType loads = .ok w) :
    Undoes layout loads w ↔ Agree layout loads (some .vbScript) := by
  have inv := @scriptInv_after layout hookType loads w .vbScript chosen ran
  have type : selected w.dll._hookType = some .vbScript := inv.type
  have same : unhook layout w.dll = w.dll.disable layout.getProcAddress := by
    simp only [unhook, type]
    rfl
  rw [undoes_script inv same, and_iff_left layout.code]
  exact Iff.rfl

theorem undoes_jScript (chosen : selected hookType = some .jScript) (ran : after layout hookType loads = .ok w) :
    Undoes layout loads w ↔ Agree layout loads (some .jScript) := by
  have inv := @scriptInv_after layout hookType loads w .jScript chosen ran
  have type : selected w.dll._hookType = some .jScript := inv.type
  have same : unhook layout w.dll = w.dll.disable w.dll.jScriptParserAddress := by
    simp only [unhook, type]
    rfl
  rw [undoes_script inv same]
  rcases inv.parser rfl with ⟨m, last, leads⟩ | ⟨absent, zero⟩
  · constructor
    · rintro ⟨⟨_, code⟩, only⟩
      exact ⟨m, _, last, leads, code, only⟩
    · rintro ⟨m', site, last', leads', code, only⟩
      rw [last, Option.some.injEq] at last'
      subst last'
      have sites : w.dll.jScriptParserAddress = site := Except.ok.inj (leads.2.symm.trans leads'.2)
      rw [sites]
      exact ⟨⟨⟨m, lastLoaded_mem last, leads'⟩, code⟩, only⟩
  · -- Nothing was loaded, so the address is null, where there is no code.
    refine iff_of_false ?_ ?_
    · rintro ⟨⟨_, code⟩, _⟩
      rw [zero, show layout.executable 0 = false from layout.null] at code
      cases code
    · rintro ⟨m, _, last, _⟩
      rw [absent] at last
      cases last

/-- **Unhooking.** After any run that attaches and then loads modules, the unhook
function undoes the hooks exactly where it agrees with the hook function on their
targets: for the types that hook `GetProcAddress` and for unknown types always,
for native CLR never, for VBScript if `GetProcAddress` is all that was resolved
and hooked, for JScript if the image loaded last was hooked and no other target. -/
theorem undoes_iff_agree (layout : Layout) (hookType : ℤ) (loads : List Module) (w : World)
    (ran : after layout hookType loads = .ok w) :
    Undoes layout loads w ↔ Agree layout loads (selected hookType) := by
  cases chosen : selected hookType with
  | none => exact iff_of_true (undoes_default chosen ran) trivial
  | some space =>
    cases space with
    | nativeClr => exact iff_of_false (undoes_nativeClr chosen ran) id
    | assemblyLoad => exact iff_of_true (undoes_getProcAddress (Or.inl chosen) ran) trivial
    | vbScript => exact undoes_vbScript chosen ran
    | jScript => exact undoes_jScript chosen ran
    | powershell => exact iff_of_true (undoes_getProcAddress (Or.inr chosen) ran) trivial

/-- An image of `jscript.dll` whose signatures lead to `0x10100`. -/
def sampleModule : Module := ⟨CallTargets.sampleMem, 0x10000, 0x1000, .literal "jscript.dll"⟩

theorem sampleModule_leads : Leads .jScript 0x10100 sampleModule := by
  have compile : compileAddress CallTargets.sampleMem 0x10000 = .ok 0x10170 :=
    CallTargets.compileAddress_callee CallTargets.sampleFirst (by decide)
  have parser : HookClr.JScript.parserAddress CallTargets.sampleMem 0x10170 = .ok 0x10100 :=
    CallTargets.parserAddress_callee ⟨⟨by decide, by decide⟩, fun k _ => Nat.zero_le k⟩ (by decide) (by decide)
  refine ⟨rfl, ?_⟩
  change (do HookClr.JScript.parserAddress CallTargets.sampleMem (← compileAddress CallTargets.sampleMem 0x10000)) =
    Except.ok 0x10100
  rw [compile, ok_bind, parser]

theorem undoes_iff_agree_sample : ∃ w, after sampleLayout JSCRIPT_ARG [sampleModule] = .ok w ∧
    w.dll.minHook.Enabled 0x10100 ∧ Undoes sampleLayout [sampleModule] w := by
  have watching : Watching .jScript (attach sampleLayout JSCRIPT_ARG .start) := ⟨rfl, ⟨1, rfl⟩, rfl⟩
  obtain ⟨compile, called⟩ := ScriptEngine.jScript.callback_own sampleLayout
    ((attach sampleLayout JSCRIPT_ARG .start).map sampleModule).dll rfl sampleModule_leads.2
  have loads := step_load_watching watching sampleLayout sampleModule
  rw [called, ok_bind] at loads
  have agree : Agree sampleLayout [sampleModule] (selected JSCRIPT_ARG) := by
    refine ⟨sampleModule, 0x10100, rfl, sampleModule_leads, by decide, ?_⟩
    rintro site ⟨m, member, _, leads⟩ _
    obtain rfl := List.mem_singleton.mp member
    exact Except.ok.inj (leads.symm.trans sampleModule_leads.2)
  refine ⟨_, loads, ?_, (undoes_iff_agree sampleLayout JSCRIPT_ARG [sampleModule] _ loads).mpr agree⟩
  dsimp only
  rw [install_new]
  · exact ⟨_, List.mem_cons_self, rfl, rfl⟩
  · rfl
  · rfl
  · rintro ⟨h, member, _⟩
    cases member

/-- The native type leaves no run undone, not even the shortest. -/
theorem native_not_undone :
    ¬ ∀ layout hookType loads w, after layout hookType loads = .ok w → Undoes layout loads w :=
  fun all => undoes_nativeClr rfl rfl (all sampleLayout NATIVE_CLR_ARG [] _ rfl)

end ClrDumper.UnhookTargets
