import ClrDumper.EngineHooking
import ClrDumper.HookTables

/-! What each mode captures, and what the target notices of it. Seen from outside,
a run is a run without the hooks, and beside it the record of the calls that were
captured. -/
namespace ClrDumper.Captures
open Execution CStrings CString Utility MinHook HookClr HookClrProofs NamedPipeIO ScriptDump LockStep Interception HookTables
open AmsiRedirection (AsksFor Copy)
open DumpRetention (Process intercept dumpFile Fits NoDumps Apart sampleProcess sampleHost)
open EngineHooking (Image)
open Transcripts (engineOf engineOf_eq_some site)

/-- What an act comes to in a process without the DLL. -/
def plain (layout : Layout) : Act → Option Outcome
  | .load _ | .unload _ => none
  | .compile address _ _ _ | .scan address _ _ => some (.went address)
  | .getProcAddress call => some (.returned (call.originalGetProcAddress call.hModule call.lpProcName))
  | .safeArrayUnaccessData _ _ => some (.went layout.safeArrayUnaccessData)

variable {layout : Layout} {dll : Addresses} {p : Process} {host : Host} {e : ScriptEngine} {front : List Act}
  {a : Act} {s : Outline} {h : Host} {calls : List DumpRetention.Interception}

/-- Captures that fit and share no name are all on disk in the end. -/
theorem kept_of_apart (fresh : NoDumps p host) (fits : ∀ x ∈ calls, Fits p x) (apart : calls.Pairwise Apart) :
    ∃ final, DumpRetention.run p host calls = .ok final ∧
      ∀ x ∈ calls, final.disk.files (dumpFile p x) = some (x.script.contents p.locale) := by
  have distinct : calls.Pairwise fun x y => dumpFile p x ≠ dumpFile p y :=
    apart.imp fun {x y} apart => DumpRetention.dumpFile_ne_iff.mpr apart
  obtain ⟨final, ran, _⟩ := DumpRetention.run_new fits (fun x _ => fresh _ _) distinct
  refine ⟨final, ran, fun x member => ?_⟩
  obtain ⟨front, back, rfl⟩ := List.append_of_mem member
  obtain ⟨ahead, _, across⟩ := List.pairwise_append.mp distinct
  obtain ⟨before, first, kept⟩ := DumpRetention.run_new (fun y member => fits y (List.mem_append_left _ member))
    (fun y _ => fresh _ _) ahead
  have absent : before.disk.files (dumpFile p x) = none := by
    rw [kept _ fun y member => across y member x List.mem_cons_self]
    exact fresh _ _
  obtain ⟨after, now, files⟩ := DumpRetention.intercept_new (fits x member) absent
  rw [DumpRetention.run_append, first, ok_bind, DumpRetention.run_cons, now, ok_bind] at ran
  exact DumpRetention.run_keeps ran (by rw [files, Function.update_self])

/-- Some calls are recorded by a run. Beside its outcomes it is the record of them,
down to the faults, and if the record keeps them all, so does the disk that the
run leaves. -/
structure Recorded (p : Process) (host : Host) (calls : List DumpRetention.Interception) (outcomes : List Outcome)
    (run : Exec (Target × List Outcome)) : Prop where
  beside : (fun x => (x.1.host, x.2)) <$> run = (fun final => (final, outcomes)) <$> DumpRetention.run p host calls
  kept : NoDumps p host → (∀ x ∈ calls, Fits p x) → calls.Pairwise Apart →
    ∃ s, run = .ok (s, outcomes) ∧ s.exited = false ∧
      ∀ x ∈ calls, s.host.disk.files (dumpFile p x) = some (x.script.contents p.locale)

/-- The target goes on after these outcomes, and has written what the record has. -/
def Agrees (outcomes : List Outcome) (x : Target × List Outcome) (final : Host) : Prop :=
  x.1.host = final ∧ x.1.exited = false ∧ x.2 = outcomes

/-- The target of an outline that keeps a record keeps it too. -/
theorem target_told {acts : List Act} {hookType : ℤ} {outcomes : List Outcome} {inv : Outline → Host → Prop}
    (alike : Alike (fun x final => inv x.1 final ∧ x.2 = outcomes)
      ((outline layout dll p hookType).run (.start layout hookType host) acts) (DumpRetention.run p host calls))
    (holds : ∀ o final, inv o final → o.host = final ∧ o.exited = false) :
    Alike (Agrees outcomes) ((target layout dll p).run (.start layout hookType host) acts)
      (DumpRetention.run p host calls) := by
  apply alike_imp (alike_trans (run_outlined layout dll p hookType host acts) alike)
  rintro x final ⟨y, ⟨shows', same⟩, kept, told⟩
  obtain ⟨held, going⟩ := holds y.1 final kept
  exact ⟨shows'.host.trans held, shows'.exited.trans going, same.trans told⟩

theorem recorded_of_told {outcomes : List Outcome} {run : Exec (Target × List Outcome)}
    (told : Alike (Agrees outcomes) run (DumpRetention.run p host calls)) : Recorded p host calls outcomes run := by
  refine ⟨map_eq_of_alike told fun x final related => Prod.ext related.1 related.2.2, fun fresh fits apart => ?_⟩
  obtain ⟨final, ran, files⟩ := kept_of_apart fresh fits apart
  obtain ⟨⟨s, outcomes'⟩, same, held, going, rfl⟩ := ok_of_alike told ran
  exact ⟨s, same, going, by rw [held]; exact files⟩

/-! ## Script engines -/

/-- A call of an engine's function, as its detour records it. -/
def compiled (e : ScriptEngine) : Act → Option DumpRetention.Interception
  | .compile _ text block o =>
    match e with
    | .vbScript => some ⟨.vbScript text block, o.millis, o.locals⟩
    | .jScript => some ⟨.jScript text block, o.millis, o.locals⟩
  | _ => none

/-- The image is the last one of the engine, and nothing has been mapped over its
function. -/
def Running (image : Image layout e) (front : List Act) : Prop :=
  ∃ before later, front = before ++ .load image.module :: later ∧
    ∀ m, .load m ∈ later → m.name ≠ e.dllName ∧ m.holds image.target = false

/-- An engine is used as usual: its images can be searched and each has its
function somewhere else, where neither of the other two functions is, and calls
go to the image that runs. Nobody knows the replacements of the DLL. -/
structure Orderly (layout : Layout) (dll : Addresses) (e : ScriptEngine) (acts : List Act) : Prop where
  images : ∀ m, .load m ∈ acts → m.name = e.dllName → ∃ image : Image layout e, image.module = m
  elsewhere : ∀ image : Image layout e, .load image.module ∈ acts →
    image.target ≠ layout.getProcAddress ∧ image.target ≠ layout.safeArrayUnaccessData
  fresh : ∀ front (image : Image layout e) back, acts = front ++ .load image.module :: back →
    ∀ earlier : Image layout e, .load earlier.module ∈ front → earlier.target ≠ image.target
  calls : ∀ front address text block o back, acts = front ++ .compile address text block o :: back →
    ∃ image : Image layout e, Running image front ∧ image.target = address
  scans : ∀ address buffer o, .scan address buffer o ∈ acts → address ≠ dll.assemblyLoad ∧ address ≠ dll.powershell

/-- The images that have been loaded are those that the table knows of, and the
one that runs is hooked and called by the detour. -/
structure Follows (layout : Layout) (e : ScriptEngine) (front : List Act) (s : Outline) (h : Host) : Prop where
  host : s.host = h
  going : s.exited = false
  targets : ∀ site ∈ s.table.targets, ∃ image : Image layout e, .load image.module ∈ front ∧ image.target = site
  backed : ∀ site, s.table.patched site = true → site ∈ s.table.targets
  running : ∀ image : Image layout e, Running image front →
    s.table.latest = .ok image.target ∧ s.table.patched image.target = true

theorem running_snoc {image : Image layout e} (running : Running image (front ++ [a])) :
    a = .load image.module ∨
      (Running image front ∧ ∀ m, a = .load m → m.name ≠ e.dllName ∧ m.holds image.target = false) := by
  obtain ⟨before, later, same, clear⟩ := running
  rcases List.eq_nil_or_concat later with rfl | ⟨later, last, rfl⟩
  · exact .inl (List.append_inj_right' same rfl |> List.singleton_inj.mp)
  · right
    rw [List.concat_eq_append, ← List.cons_append, ← List.append_assoc] at same
    obtain rfl : a = last := List.singleton_inj.mp (List.append_inj_right' same rfl)
    refine ⟨⟨before, later, List.append_inj_left' same rfl, fun m member => clear m ?_⟩, ?_⟩
    · rw [List.concat_eq_append]
      exact List.mem_append_left _ member
    · rintro m rfl
      exact clear m (by rw [List.concat_eq_append]; exact List.mem_append_right _ List.mem_cons_self)

theorem image_target_eq {image other : Image layout e} (same : image.module = other.module) :
    image.target = other.target := by
  have found := image.signatures
  rw [same, other.signatures, Except.ok.injEq] at found
  exact found.symm

theorem follows_start (layout : Layout) (e : ScriptEngine) (host : Host) :
    Follows layout e [] (.start layout e.hookType host) host := by
  have chosen : selected e.hookType = some e.ns := selected_script_iff.mpr rfl
  have empty : Table.attached layout e.hookType = .empty := by
    rw [Table.attached, chosen]
    cases e <;> rfl
  refine ⟨rfl, rfl, ?_, ?_, ?_⟩
  · simp [Outline.start, empty, Table.empty]
  · simp [Outline.start, empty, Table.empty]
  · rintro image ⟨before, later, none, _⟩
    simp at none

/-- Acts other than loads leave the table alone. -/
theorem follows_of_eq {t : Outline} {held : Host} (follows : Follows layout e front s h) (other : ∀ m, a ≠ .load m)
    (host : t.host = held) (going : t.exited = false) (table : t.table = s.table) :
    Follows layout e (front ++ [a]) t held := by
  refine ⟨host, going, fun site known => ?_, ?_, fun image running => ?_⟩
  · rw [table] at known
    obtain ⟨image, member, same⟩ := follows.targets site known
    exact ⟨image, List.mem_append_left _ member, same⟩
  · rw [table]
    exact follows.backed
  · rw [table]
    rcases running_snoc running with same | ⟨running, _⟩
    · exact absurd same (other _)
    · exact follows.running image running

/-- **Step lemma.** A load of an orderly process. -/
theorem follows_load {acts back : List Act} {m : Module} (orderly : Orderly layout dll e acts)
    (all : front ++ .load m :: back = acts) (follows : Follows layout e front s h) :
    ∃ table, s.table.load layout e.hookType m = .ok table ∧
      Follows layout e (front ++ [.load m]) { s with table } h := by
  have member : Act.load m ∈ acts := by simp [← all]
  have engine : engineOf e.hookType = some e := engineOf_eq_some.mpr (selected_script_iff.mpr rfl)
  by_cases own : m.name = e.dllName
  · obtain ⟨image, rfl⟩ := orderly.images m member own
    have new : image.target ∉ s.table.targets := by
      intro known
      obtain ⟨earlier, before, same⟩ := follows.targets _ known
      exact orderly.fresh front image back all.symm earlier before same
    refine ⟨⟨s.table.targets ++ [image.target], Function.update
      (fun address => !image.module.holds address && s.table.patched address) image.target true⟩, ?_, ?_⟩
    · simp only [Table.load, engine, if_pos own, image.signatures, ok_bind]
      exact congrArg Except.ok (if_pos ⟨image.code, new⟩)
    · refine ⟨follows.host, follows.going, fun site known => ?_, fun site patched => ?_, fun other running => ?_⟩
      · rcases List.mem_append.mp known with old | last
        · obtain ⟨earlier, before, same⟩ := follows.targets site old
          exact ⟨earlier, List.mem_append_left _ before, same⟩
        · exact ⟨image, List.mem_append_right _ List.mem_cons_self, (List.mem_singleton.mp last).symm⟩
      · by_cases here : site = image.target
        · rw [here]
          exact List.mem_append_right _ (List.mem_singleton_self _)
        · dsimp only at patched
          rw [Function.update_of_ne here, Bool.and_eq_true] at patched
          exact List.mem_append_left _ (follows.backed site patched.2)
      · rcases running_snoc running with same | ⟨_, apart⟩
        · rw [← image_target_eq (Act.load.inj same)]
          exact ⟨by simp [Table.latest], by simp⟩
        · exact absurd own (apart _ rfl).1
  · refine ⟨{ s.table with patched := fun address => !m.holds address && s.table.patched address }, ?_, ?_⟩
    · simp only [Table.load, engine, if_neg own]
      rfl
    · refine ⟨follows.host, follows.going, fun site known => ?_, fun site patched => ?_, fun other running => ?_⟩
      · obtain ⟨earlier, before, same⟩ := follows.targets site known
        exact ⟨earlier, List.mem_append_left _ before, same⟩
      · exact follows.backed site (Bool.and_eq_true_iff.mp patched).2
      · rcases running_snoc running with same | ⟨running, apart⟩
        · rw [Act.load.inj same] at own
          exact absurd other.named own
        · obtain ⟨latest, patched⟩ := follows.running other running
          exact ⟨latest, by simp [(apart m rfl).2, patched]⟩

/-- **Step lemma.** Each act of an orderly process comes to what it would come to
without the hooks, and a compiled text is recorded. -/
theorem script_step {acts back : List Act} (orderly : Orderly layout dll e acts) (all : front ++ a :: back = acts)
    (follows : Follows layout e front s h) :
    Alike (Told (Follows layout e) (fun _ => plain layout) front a) (react layout dll p e.hookType s a)
      (record (intercept p) (compiled e) h a) := by
  have chosen : selected e.hookType = some e.ns := selected_script_iff.mpr rfl
  have member : a ∈ acts := by simp [← all]
  have known : ∀ site, s.table.patched site = true → site ≠ layout.getProcAddress ∧ site ≠ layout.safeArrayUnaccessData := by
    intro site patched
    obtain ⟨image, before, rfl⟩ := follows.targets site (follows.backed site patched)
    exact orderly.elsewhere image (by simp [← all, before])
  cases a with
  | load m =>
    obtain ⟨table, ran, after⟩ := follows_load orderly all follows
    simp only [react, ran, ok_bind]
    exact .ok ⟨after, rfl⟩
  | unload m => exact .ok ⟨follows_of_eq follows (by simp) follows.host follows.going rfl, rfl⟩
  | compile address text block o =>
    obtain ⟨image, running, rfl⟩ := orderly.calls front address text block o back all.symm
    obtain ⟨latest, patched⟩ := follows.running image running
    simp only [react, if_pos patched, chosen, latest, ok_bind, follows.host]
    have goesOn : ∀ host : Host, Told (Follows layout e) (fun _ => plain layout) front
        (.compile image.target text block o) ({ s with host }, some (.went image.target)) host :=
      fun host => ⟨follows_of_eq follows (by simp) rfl follows.going rfl, rfl⟩
    cases e with
    | vbScript | jScript =>
      apply alike_then (alike_self _)
      rintro host _ rfl
      exact .ok (goesOn host)
  | getProcAddress call =>
    have unpatched : ¬ s.table.patched layout.getProcAddress = true := fun patched => (known _ patched).1 rfl
    simp only [react, if_neg unpatched]
    exact .ok ⟨follows_of_eq follows (by simp) follows.host follows.going rfl, rfl⟩
  | safeArrayUnaccessData psa o =>
    have unpatched : ¬ s.table.patched layout.safeArrayUnaccessData = true := fun patched => (known _ patched).2 rfl
    simp only [react, if_neg unpatched]
    exact .ok ⟨follows_of_eq follows (by simp) follows.host follows.going rfl, rfl⟩
  | scan address buffer o =>
    obtain ⟨assembly, shell⟩ := orderly.scans address buffer o member
    simp only [react, if_neg assembly, if_neg shell]
    exact .ok ⟨follows_of_eq follows (by simp) follows.host follows.going rfl, rfl⟩

/-- **Run lemma.** -/
theorem script_told {acts : List Act} (orderly : Orderly layout dll e acts) (p : Process) (host : Host) :
    Alike (Agrees (acts.filterMap (plain layout)))
      ((target layout dll p).run (.start layout e.hookType host) acts)
      (DumpRetention.run p host (acts.filterMap (compiled e))) := by
  have alike := run_told (m := outline layout dll p e.hookType) (fun _ _ _ follows => follows.going)
    (fun front a back all s h follows => script_step (p := p) orderly all follows) (follows_start layout e host)
  rw [answers_filterMap] at alike
  exact target_told alike fun _ _ follows => ⟨follows.host, follows.going⟩

/-- **Scripts.** In the script modes an orderly process has exactly the outcomes
that it would have without the hooks, and beside them every script that its
engine compiles is recorded, and nothing else. What is recorded is on disk in the
end if the dumps fit, share no name and were not there before. -/
theorem scripts_captured {acts : List Act} (orderly : Orderly layout dll e acts) (p : Process) (host : Host) :
    Recorded p host (acts.filterMap (compiled e)) (acts.filterMap (plain layout))
      ((target layout dll p).run (.start layout e.hookType host) acts) :=
  recorded_of_told (script_told orderly p host)

def sampleOccasion : Occasion := ⟨0, (DumpRetention.sampleScan 0 0).locals⟩

def sampleAddresses : Addresses := ⟨⟨0x60000000, 0x60000100⟩, by decide⟩

/-- An image that is loaded, called once and unloaded. -/
def sampleActs : List Act :=
  [.load EngineHooking.sampleImage.module, .compile 0x1016C ⟨[49], by decide⟩ (.filled _ 0) sampleOccasion,
    .unload EngineHooking.sampleImage.module]

theorem sampleActs_orderly : Orderly sampleLayout sampleAddresses .vbScript sampleActs := by
  have only : ∀ image : Image sampleLayout .vbScript, .load image.module ∈ sampleActs → image.target = 0x1016C := by
    intro image member
    simp only [sampleActs, List.mem_cons, Act.load.injEq, reduceCtorEq, List.not_mem_nil, or_false] at member
    exact @image_target_eq _ _ _ EngineHooking.sampleImage member
  refine ⟨fun m member _ => ?_, fun image member => ?_, fun front image back same earlier before => ?_,
    fun front address text block o back same => ?_, fun address buffer o member => ?_⟩
  · simp only [sampleActs, List.mem_cons, Act.load.injEq, reduceCtorEq, List.not_mem_nil, or_false] at member
    exact ⟨_, member.symm⟩
  · rw [only image member]
    decide
  · rcases front with _ | ⟨x, _ | ⟨y, _ | ⟨z, rest⟩⟩⟩
    · cases before
    · simp [sampleActs] at same
    · simp [sampleActs] at same
    · simp [sampleActs] at same
  · rcases front with _ | ⟨x, _ | ⟨y, _ | ⟨z, rest⟩⟩⟩
    · simp [sampleActs] at same
    · simp only [sampleActs, List.cons_append, List.nil_append, List.cons.injEq, Act.compile.injEq] at same
      obtain ⟨first, ⟨here, _⟩, _⟩ := same
      refine ⟨EngineHooking.sampleImage, ⟨[], [], by rw [first]; rfl, nofun⟩, here⟩
    · simp [sampleActs] at same
    · simp [sampleActs] at same
  · simp [sampleActs] at member

theorem sampleActs_fit : ∀ x ∈ sampleActs.filterMap (compiled .vbScript), Fits sampleProcess x := by
  intro x member
  simp only [sampleActs, List.filterMap_cons, compiled, List.filterMap_nil, List.mem_singleton] at member
  subst member
  have converts : (convert sampleProcess.locale [49]).length ≤ 2 := by decide
  exact ⟨trivial, by decide, converts, by decide⟩

theorem scripts_captured_sample :
    Recorded sampleProcess sampleHost (sampleActs.filterMap (compiled .vbScript)) (sampleActs.filterMap (plain sampleLayout))
      ((target sampleLayout sampleAddresses sampleProcess).run
        (.start sampleLayout ScriptEngine.vbScript.hookType sampleHost) sampleActs) :=
  scripts_captured sampleActs_orderly sampleProcess sampleHost

/-! ## GetProcAddress -/

/-- The namespace of a copy of `HookedGetProcAddress`. -/
def spaceOf : Copy → Namespace
  | .assemblyLoad => .assemblyLoad
  | .powershell => .powershell

/-- The replacement that no call returns. -/
def unknown (dll : Addresses) : Copy → UInt32
  | .assemblyLoad => dll.powershell
  | .powershell => dll.assemblyLoad

/-- Somebody has asked for `AmsiInitialize`. -/
def asked (front : List Act) : Bool :=
  front.any fun
    | .getProcAddress call => decide (AsksFor (.literal "AmsiInitialize") call)
    | _ => false

/-- What an act comes to where a replacement is given out. -/
def redirected (layout : Layout) (replacement : UInt32) (front : List Act) : Act → Option Outcome
  | .getProcAddress call =>
    some (.returned (if AsksFor (.literal "AmsiScanBuffer") call ∧ asked front = true then replacement
      else call.originalGetProcAddress call.hModule call.lpProcName))
  | .scan address _ _ => some (if address = replacement then .returned 0 else .went address)
  | a => plain layout a

/-- A call of a replacement, as it records it. -/
def scanned (replacement : UInt32) : Act → Option DumpRetention.Interception
  | .scan address buffer o => if address = replacement then some ⟨.powershell buffer, o.millis, o.locals⟩ else none
  | _ => none

/-- `GetProcAddress` is a function of its own and stays where it is, and nobody
knows the other replacement. -/
structure Undisturbed (layout : Layout) (dll : Addresses) (copy : Copy) (acts : List Act) : Prop where
  distinct : layout.getProcAddress ≠ layout.safeArrayUnaccessData
  stays : ∀ m, .load m ∈ acts → m.holds layout.getProcAddress = false
  compiles : ∀ address text block o, .compile address text block o ∈ acts → address ≠ layout.getProcAddress
  scans : ∀ address buffer o, .scan address buffer o ∈ acts → address ≠ unknown dll copy

/-- `GetProcAddress` alone is hooked, and the flag says what was asked for. -/
structure Proxied (layout : Layout) (front : List Act) (s : Outline) (h : Host) : Prop where
  host : s.host = h
  going : s.exited = false
  armed : s.armed = asked front
  latest : s.table.latest = .ok layout.getProcAddress
  patched : ∀ site, s.table.patched site = true ↔ site = layout.getProcAddress

theorem asked_snoc (front : List Act) (a : Act) : asked (front ++ [a]) = (asked front || asked [a]) := List.any_append

theorem proxied_start {copy : Copy} {hookType : ℤ} (chosen : selected hookType = some (spaceOf copy)) (layout : Layout)
    (host : Host) : Proxied layout [] (.start layout hookType host) host := by
  have own : site layout (spaceOf copy) = some layout.getProcAddress := by cases copy <;> rfl
  have attached : Table.attached layout hookType =
      ⟨[layout.getProcAddress], Function.update (fun _ => false) layout.getProcAddress true⟩ := by
    simp only [Table.attached, chosen, Option.bind_some, own]
    exact if_pos ⟨layout.code, List.not_mem_nil⟩
  refine ⟨rfl, rfl, rfl, ?_, fun address => ?_⟩
  · simp [Outline.start, attached, Table.latest]
  · simp [Outline.start, attached, Function.update_apply]

/-- **Step lemma.** Each act comes to what it would come to without the hooks,
but for the replacement that is given out, and its calls. -/
theorem proxy_step {acts back : List Act} {copy : Copy} {hookType : ℤ} (chosen : selected hookType = some (spaceOf copy))
    (undisturbed : Undisturbed layout dll copy acts) (all : front ++ a :: back = acts)
    (goesOn : ∀ address buffer o, a = .scan address buffer o → address = copy.replacement dll.toReplacements →
      copy = .powershell) (proxied : Proxied layout front s h) :
    Alike (Told (Proxied layout) (redirected layout (copy.replacement dll.toReplacements)) front a)
      (react layout dll p hookType s a) (record (intercept p) (scanned (copy.replacement dll.toReplacements)) h a) := by
  have member : a ∈ acts := by simp [← all]
  have unasked : asked [a] = false → s.armed = asked (front ++ [a]) := by
    intro silent
    rw [asked_snoc, silent, Bool.or_false, proxied.armed]
  have here : s.table.patched layout.getProcAddress = true := (proxied.patched _).mpr rfl
  cases a with
  | load m =>
    have none : engineOf hookType = none := by
      unfold engineOf
      rw [chosen]
      cases copy <;> rfl
    simp only [react, Table.load, none]
    refine .ok ⟨⟨proxied.host, proxied.going, unasked rfl, proxied.latest, fun address => ?_⟩, rfl⟩
    have away := undisturbed.stays m member
    rw [Bool.and_eq_true, proxied.patched]
    constructor
    · exact And.right
    · rintro rfl
      exact ⟨by simp [away], rfl⟩
  | unload m => exact .ok ⟨⟨proxied.host, proxied.going, unasked rfl, proxied.latest, proxied.patched⟩, rfl⟩
  | compile address text block o =>
    have other : ¬ s.table.patched address = true :=
      mt (proxied.patched address).mp (undisturbed.compiles address text block o member)
    simp only [react, if_neg other]
    exact .ok ⟨⟨proxied.host, proxied.going, unasked rfl, proxied.latest, proxied.patched⟩, rfl⟩
  | getProcAddress call =>
    have redirects : ∀ replacement, Told (Proxied layout) (redirected layout replacement) front (.getProcAddress call)
        ({ s with armed := s.armed || decide (AsksFor (.literal "AmsiInitialize") call) },
          some (.returned (if AsksFor (.literal "AmsiScanBuffer") call ∧ s.armed = true then replacement
            else call.originalGetProcAddress call.hModule call.lpProcName))) h := by
      intro replacement
      refine ⟨⟨proxied.host, proxied.going, ?_, proxied.latest, proxied.patched⟩, ?_⟩
      · rw [asked_snoc, proxied.armed]
        simp [asked]
      · simp only [redirected, proxied.armed]
    have table : ∀ replacement, redirect layout replacement s call = .ok
        ({ s with armed := s.armed || decide (AsksFor (.literal "AmsiInitialize") call) },
          some (.returned (if AsksFor (.literal "AmsiScanBuffer") call ∧ s.armed = true then replacement
            else call.originalGetProcAddress call.hModule call.lpProcName))) := by
      intro replacement
      simp only [redirect, proxied.latest, ok_bind, if_true]
      rfl
    simp only [react, if_pos here, chosen]
    cases copy with
    | assemblyLoad | powershell =>
      simp only [spaceOf, table]
      exact .ok (redirects _)
  | safeArrayUnaccessData psa o =>
    have other : ¬ s.table.patched layout.safeArrayUnaccessData = true :=
      fun patched => undisturbed.distinct ((proxied.patched _).mp patched).symm
    simp only [react, if_neg other]
    exact .ok ⟨⟨proxied.host, proxied.going, unasked rfl, proxied.latest, proxied.patched⟩, rfl⟩
  | scan address buffer o =>
    have next : ∀ host : Host, Proxied layout (front ++ [.scan address buffer o]) { s with host } host :=
      fun host => ⟨rfl, proxied.going, unasked rfl, proxied.latest, proxied.patched⟩
    have away := undisturbed.scans address buffer o member
    by_cases called : address = copy.replacement dll.toReplacements
    · obtain rfl := goesOn address buffer o rfl called
      obtain rfl : address = dll.powershell := called
      have first : dll.powershell ≠ dll.assemblyLoad := away
      simp only [react, if_neg first, if_true, proxied.host]
      simp only [record, scanned, Copy.replacement, if_true]
      apply alike_then (alike_self _)
      rintro host _ rfl
      exact .ok ⟨next host, by simp [redirected]⟩
    · have unknown' : address ≠ dll.assemblyLoad ∧ address ≠ dll.powershell := by
        cases copy with
        | assemblyLoad => exact ⟨called, away⟩
        | powershell => exact ⟨away, called⟩
      simp only [react, if_neg unknown'.1, if_neg unknown'.2]
      simp only [record, scanned, if_neg called]
      exact .ok ⟨⟨proxied.host, proxied.going, unasked rfl, proxied.latest, proxied.patched⟩, by simp [redirected, called]⟩

/-- **Run lemma.** -/
theorem powershell_told {acts : List Act} (undisturbed : Undisturbed layout dll .powershell acts) (p : Process)
    (host : Host) :
    Alike (Agrees (answers (redirected layout dll.powershell) [] acts))
      ((target layout dll p).run (.start layout POWERSHELL_ARG host) acts)
      (DumpRetention.run p host (acts.filterMap (scanned dll.powershell))) := by
  have chosen : selected POWERSHELL_ARG = some (spaceOf .powershell) := rfl
  have alike := run_told (m := outline layout dll p POWERSHELL_ARG) (fun _ _ _ proxied => proxied.going)
    (fun front a back all s h proxied => proxy_step (p := p) chosen undisturbed all (fun _ _ _ _ _ => rfl) proxied)
    (proxied_start chosen layout host)
  exact target_told alike fun _ _ proxied => ⟨proxied.host, proxied.going⟩

/-- **PowerShell.** Whoever asks for `AmsiScanBuffer` after anybody asked for
`AmsiInitialize` gets the replacement. Every script that is scanned with it is
recorded and passes, and nothing else is changed. What is recorded is on disk in
the end if the dumps fit, share no name and were not there before. -/
theorem powershell_captured {acts : List Act} (undisturbed : Undisturbed layout dll .powershell acts) (p : Process)
    (host : Host) :
    Recorded p host (acts.filterMap (scanned dll.powershell)) (answers (redirected layout dll.powershell) [] acts)
      ((target layout dll p).run (.start layout POWERSHELL_ARG host) acts) :=
  recorded_of_told (powershell_told undisturbed p host)

/-- A process that asks for both functions and scans a script with what it got. -/
def sampleSession : List Act :=
  [.getProcAddress ⟨1, 0x10000, fun _ => .literal "AmsiInitialize", fun _ _ => 5⟩,
    .getProcAddress ⟨1, 0x10000, fun _ => .literal "AmsiScanBuffer", fun _ _ => 6⟩,
    .scan 0x60000100 ⟨[49], by decide⟩ sampleOccasion]

theorem powershell_captured_sample :
    Recorded sampleProcess sampleHost (sampleSession.filterMap (scanned sampleAddresses.powershell))
      (answers (redirected sampleLayout sampleAddresses.powershell) [] sampleSession)
      ((target sampleLayout sampleAddresses sampleProcess).run (.start sampleLayout POWERSHELL_ARG sampleHost)
        sampleSession) := by
  refine powershell_captured ⟨by decide, ?_, ?_, ?_⟩ sampleProcess sampleHost
  · simp [sampleSession]
  · simp [sampleSession]
  · intro address buffer o member
    simp only [sampleSession, List.mem_cons, Act.scan.injEq, reduceCtorEq, List.not_mem_nil, or_false, false_or] at member
    rw [member.1]
    decide

/-! ## Scripts of all kinds -/

/-- What is recorded of a process whose hook type is one for scripts, and the
outcomes that it has. -/
inductive Scripted (layout : Layout) (dll : Addresses) (acts : List Act) :
    ℤ → List DumpRetention.Interception → List Outcome → Prop where
  | engine (e : ScriptEngine) (orderly : Orderly layout dll e acts) :
      Scripted layout dll acts e.hookType (acts.filterMap (compiled e)) (acts.filterMap (plain layout))
  | powershell (undisturbed : Undisturbed layout dll .powershell acts) :
      Scripted layout dll acts POWERSHELL_ARG (acts.filterMap (scanned dll.powershell))
        (answers (redirected layout dll.powershell) [] acts)

theorem scripted_told {acts : List Act} {hookType : ℤ} {outcomes : List Outcome}
    (scripted : Scripted layout dll acts hookType calls outcomes) (p : Process) (host : Host) :
    Alike (Agrees outcomes) ((target layout dll p).run (.start layout hookType host) acts)
      (DumpRetention.run p host calls) := by
  cases scripted with
  | engine e orderly => exact script_told orderly p host
  | powershell undisturbed => exact powershell_told undisturbed p host

/-! ## Assemblies -/

/-- The path of the dump of an assembly. -/
def assemblyFile (p : Process) (o : Occasion) : CString := p.dumpPath ++ dumpName (.literal "ASM_LOAD") o.time

/-- The arrays hold what the handler puts there. -/
structure AssemblyFits (p : Process) (buffer : Buffer) (o : Occasion) : Prop where
  enters : (enteredLine p.processPath buffer.bytes.length).length + 2 ≤ MAX_BUFFER
  path : (assemblyFile p o).length < MAX_PATH
  line : (CString.literal "[+] Dumped Assembly to " ++ assemblyFile p o).length + 2 ≤ MAX_BUFFER

theorem assembly_dumped {buffer : Buffer} {o : Occasion} (fits : AssemblyFits p buffer o)
    (absent : host.disk.files (assemblyFile p o) = none) :
    ∃ after, AssemblyLoad.amsiScanBuffer p.dumpPath p.processPath buffer o.time o.locals host = .ok after ∧
      after.disk.files = Function.update host.disk.files (assemblyFile p o) (some buffer.bytes) := by
  obtain ⟨entered, logged⟩ := (log_ok_iff host o.locals _).mpr fits.enters
  have same : entered.disk = host.disk := log_disk logged
  let created : Disk := ⟨Function.update host.disk.files (assemblyFile p o) (some [])⟩
  let filled := writeEach created (assemblyFile p o) buffer.bytes
  obtain ⟨after, ran⟩ := (log_ok_iff { entered with disk := filled } o.locals _).mpr fits.line
  refine ⟨after, ?_, by rw [log_disk ran]; exact (congrArg Disk.files (writeEach_eq ..)).trans (write_new ..)⟩
  have new : host.disk.files (p.dumpPath ++ dumpName (.literal "ASM_LOAD") o.time) = none := absent
  rw [AssemblyLoad.amsiScanBuffer, logged, ok_bind, dumpScript_room (by decide) fits.path, same, createNew_absent new]
  exact ran

/-- The call of the replacement is the last act. -/
theorem run_assembly (going : s.exited = false) (hookType : ℤ) (buffer : Buffer) (o : Occasion) (back : List Act) :
    (outline layout dll p hookType).run s (.scan dll.assemblyLoad buffer o :: back) =
      (AssemblyLoad.amsiScanBuffer p.dumpPath p.processPath buffer o.time o.locals s.host >>= fun final =>
        .ok ({ s with host := final, exited := true }, [.exited])) := by
  have step : (outline layout dll p hookType).step s (.scan dll.assemblyLoad buffer o) =
      (AssemblyLoad.amsiScanBuffer p.dumpPath p.processPath buffer o.time o.locals s.host >>= fun final =>
        .ok ({ s with host := final, exited := true }, some .exited)) := if_pos rfl
  have runs : ¬ (outline layout dll p hookType).stopped s = true := by simp [outline, going]
  rw [Machine.run, if_neg runs, step]
  cases AssemblyLoad.amsiScanBuffer p.dumpPath p.processPath buffer o.time o.locals s.host with
  | error fault => rfl
  | ok final =>
    simp only [ok_bind]
    rw [run_stopped rfl]
    rfl

/-- **Run lemma.** Without a call of the replacement nothing is recorded. -/
theorem assembly_quiet (undisturbed : Undisturbed layout dll .assemblyLoad front)
    (unscanned : ∀ address buffer o, .scan address buffer o ∈ front → address ≠ dll.assemblyLoad) (p : Process)
    (host : Host) :
    Alike (fun x final => Proxied layout front x.1 final ∧
        x.2 = answers (redirected layout dll.assemblyLoad) [] front)
      ((outline layout dll p ASM_LOAD_ARG).run (.start layout ASM_LOAD_ARG host) front)
      (DumpRetention.run p host []) := by
  have chosen : selected ASM_LOAD_ARG = some (spaceOf .assemblyLoad) := rfl
  have alike := run_told (m := outline layout dll p ASM_LOAD_ARG) (fun _ _ _ proxied => proxied.going)
    (fun front' a back all s h proxied => proxy_step (p := p) chosen undisturbed all
      (fun address buffer o same called => absurd called (unscanned address buffer o (by simp [← all, same]))) proxied)
    (proxied_start chosen layout host)
  have silent : front.filterMap (scanned dll.assemblyLoad) = [] := by
    rw [List.filterMap_eq_nil_iff]
    intro a member
    cases a with
    | scan address buffer o => exact if_neg (unscanned address buffer o member)
    | _ => rfl
  change Alike _ _ (DumpRetention.run p host (front.filterMap (scanned dll.assemblyLoad))) at alike
  rw [silent] at alike
  exact alike

/-- The target has ended after these outcomes, without its hooks, and has written
what the handler has. -/
def Ends (outcomes : List Outcome) (x : Target × List Outcome) (final : Host) : Prop :=
  x.1.host = final ∧ x.1.exited = true ∧ x.1.world.attached = false ∧ x.2 = outcomes

/-- **Run lemma.** The call of the replacement ends the process. -/
theorem assembly_ends (undisturbed : Undisturbed layout dll .assemblyLoad front)
    (unscanned : ∀ address buffer o, .scan address buffer o ∈ front → address ≠ dll.assemblyLoad) (p : Process)
    (host : Host) (buffer : Buffer) (o : Occasion) (back : List Act) :
    Alike (Ends (answers (redirected layout dll.assemblyLoad) [] front ++ [.exited]))
      ((target layout dll p).run (.start layout ASM_LOAD_ARG host) (front ++ .scan dll.assemblyLoad buffer o :: back))
      (AssemblyLoad.amsiScanBuffer p.dumpPath p.processPath buffer o.time o.locals host) := by
  obtain ⟨⟨s, outcomes⟩, ran, proxied, told⟩ := ok_of_alike (assembly_quiet undisturbed unscanned p host) rfl
  obtain rfl : outcomes = answers (redirected layout dll.assemblyLoad) [] front := told
  have held : s.host = host := proxied.host
  have going : s.exited = false := proxied.going
  have outlined := run_outlined layout dll p ASM_LOAD_ARG host (front ++ .scan dll.assemblyLoad buffer o :: back)
  have dumps : Alike (fun (y : Outline × List Outcome) final => y.1.host = final ∧ y.1.exited = true ∧
      y.2 = answers (redirected layout dll.assemblyLoad) [] front ++ [.exited])
      ((outline layout dll p ASM_LOAD_ARG).run (.start layout ASM_LOAD_ARG host)
        (front ++ .scan dll.assemblyLoad buffer o :: back))
      (AssemblyLoad.amsiScanBuffer p.dumpPath p.processPath buffer o.time o.locals host) := by
    rw [run_append, ran, ok_bind]
    dsimp only
    rw [run_assembly going, held]
    cases AssemblyLoad.amsiScanBuffer p.dumpPath p.processPath buffer o.time o.locals host with
    | error fault => exact .error fault
    | ok final => exact .ok ⟨rfl, rfl, rfl⟩
  apply alike_imp (alike_trans outlined dumps)
  rintro x final ⟨y, ⟨shows', same⟩, host, exited, told⟩
  have ended : x.1.exited = true := shows'.exited.trans exited
  exact ⟨shows'.host.trans host, ended, shows'.detached ended, same.trans told⟩

/-- **Assemblies.** Until the replacement is called nothing is recorded and only
the replacement itself is given out. The first call of it dumps the assembly and
ends the process, whatever was to come. -/
theorem assembly_captured (undisturbed : Undisturbed layout dll .assemblyLoad front)
    (unscanned : ∀ address buffer o, .scan address buffer o ∈ front → address ≠ dll.assemblyLoad) (p : Process)
    (host : Host) :
    Recorded p host [] (answers (redirected layout dll.assemblyLoad) [] front)
        ((target layout dll p).run (.start layout ASM_LOAD_ARG host) front) ∧
      ∀ buffer o back,
        (fun x => (x.1.host, x.1.exited, x.1.world.attached, x.2)) <$>
            (target layout dll p).run (.start layout ASM_LOAD_ARG host) (front ++ .scan dll.assemblyLoad buffer o :: back) =
          (fun final => (final, true, false, answers (redirected layout dll.assemblyLoad) [] front ++ [.exited])) <$>
            AssemblyLoad.amsiScanBuffer p.dumpPath p.processPath buffer o.time o.locals host ∧
        (AssemblyFits p buffer o → host.disk.files (assemblyFile p o) = none →
          ∃ s, (target layout dll p).run (.start layout ASM_LOAD_ARG host)
              (front ++ .scan dll.assemblyLoad buffer o :: back) =
                .ok (s, answers (redirected layout dll.assemblyLoad) [] front ++ [.exited]) ∧
            s.host.disk.files = Function.update host.disk.files (assemblyFile p o) (some buffer.bytes)) := by
  have quiet := assembly_quiet undisturbed unscanned p host
  refine ⟨recorded_of_told (target_told quiet fun _ _ proxied => ⟨proxied.host, proxied.going⟩), fun buffer o back => ?_⟩
  have ends := assembly_ends undisturbed unscanned p host buffer o back
  refine ⟨map_eq_of_alike ends ?_, fun fits absent => ?_⟩
  · rintro ⟨t, outcomes⟩ final ⟨rfl, exited, detached, rfl⟩
    dsimp only at exited detached ⊢
    rw [exited, detached]
  · obtain ⟨after, dumped, files⟩ := assembly_dumped fits absent
    obtain ⟨⟨t, outcomes⟩, same, rfl, _, _, rfl⟩ := ok_of_alike ends dumped
    exact ⟨t, same, files⟩

/-- One that gives its replacement an assembly. -/
theorem assembly_captured_sample :
    Recorded sampleProcess sampleHost [] (answers (redirected sampleLayout sampleAddresses.assemblyLoad) []
        (sampleSession.take 2))
      ((target sampleLayout sampleAddresses sampleProcess).run (.start sampleLayout ASM_LOAD_ARG sampleHost)
        (sampleSession.take 2)) ∧
      ∃ s outcomes, (target sampleLayout sampleAddresses sampleProcess).run (.start sampleLayout ASM_LOAD_ARG sampleHost)
        (sampleSession.take 2 ++ [.scan 0x60000000 ⟨[77], by decide⟩ sampleOccasion]) = .ok (s, outcomes) ∧
        s.host.disk.files (assemblyFile sampleProcess sampleOccasion) = some [77] := by
  have undisturbed : Undisturbed sampleLayout sampleAddresses .assemblyLoad (sampleSession.take 2) :=
    ⟨by decide, by simp [sampleSession], by simp [sampleSession], by simp [sampleSession]⟩
  obtain ⟨recorded, called⟩ := assembly_captured undisturbed (by simp [sampleSession]) sampleProcess sampleHost
  refine ⟨recorded, ?_⟩
  obtain ⟨s, ran, files⟩ := (called ⟨[77], by decide⟩ sampleOccasion []).2 ⟨by decide, by decide, by decide⟩ rfl
  exact ⟨s, _, ran, by rw [files, Function.update_self]⟩

/-! ## Native assemblies -/

/-- What is hooked, if anything, is a variable. -/
structure Missed (layout : Layout) (s : Outline) (h : Host) : Prop where
  host : s.host = h
  going : s.exited = false
  patched : ∀ site, s.table.patched site = true → site = layout.safeArrayVariable

theorem missed_start (layout : Layout) (host : Host) : Missed layout (.start layout NATIVE_CLR_ARG host) host := by
  refine ⟨rfl, rfl, fun address patched => ?_⟩
  change (Table.empty.hook layout layout.safeArrayVariable).patched address = true at patched
  unfold Table.hook at patched
  split at patched
  · by_contra other
    change Function.update (fun _ => false) layout.safeArrayVariable true address = true at patched
    rw [Function.update_of_ne other] at patched
    cases patched
  · cases patched

/-- Nobody calls the variable, and nobody knows the replacements. -/
structure Unaware (layout : Layout) (dll : Addresses) (acts : List Act) : Prop where
  distinct : layout.getProcAddress ≠ layout.safeArrayVariable
  compiles : ∀ address text block o, .compile address text block o ∈ acts → address ≠ layout.safeArrayVariable
  scans : ∀ address buffer o, .scan address buffer o ∈ acts → address ≠ dll.assemblyLoad ∧ address ≠ dll.powershell

/-- **Step lemma.** No act reaches a detour. -/
theorem missed_step {acts : List Act} (unaware : Unaware layout dll acts) (member : a ∈ acts) (missed : Missed layout s h)
    (hookType : ℤ) (waits : engineOf hookType = none) :
    Alike (Told (fun _ => Missed layout) (fun _ => plain layout) front a) (react layout dll p hookType s a)
      (record (intercept p) (fun _ => none) h a) := by
  have unpatched : ∀ {address}, address ≠ layout.safeArrayVariable → ¬ s.table.patched address = true :=
    fun other patched => other (missed.patched _ patched)
  cases a with
  | load m =>
    simp only [react, Table.load, waits]
    refine .ok ⟨⟨missed.host, missed.going, fun address patched => ?_⟩, rfl⟩
    exact missed.patched address (Bool.and_eq_true_iff.mp patched).2
  | unload m => exact .ok ⟨missed, rfl⟩
  | compile address text block o =>
    simp only [react, if_neg (unpatched (unaware.compiles address text block o member))]
    exact .ok ⟨missed, rfl⟩
  | getProcAddress call =>
    simp only [react, if_neg (unpatched unaware.distinct)]
    exact .ok ⟨missed, rfl⟩
  | safeArrayUnaccessData psa o =>
    simp only [react, if_neg (unpatched layout.variable_ne.symm)]
    exact .ok ⟨missed, rfl⟩
  | scan address buffer o =>
    obtain ⟨assembly, shell⟩ := unaware.scans address buffer o member
    simp only [react, if_neg assembly, if_neg shell]
    exact .ok ⟨missed, rfl⟩

/-- **Native assemblies.** In this mode nothing is ever recorded: calls of
`SafeArrayUnaccessData` and all others come to what they would come to without
the hooks, since the hook is on the variable that holds its address. -/
theorem unaccess_missed {acts : List Act} (unaware : Unaware layout dll acts) (p : Process) (host : Host) :
    Recorded p host [] (acts.filterMap (plain layout))
      ((target layout dll p).run (.start layout NATIVE_CLR_ARG host) acts) := by
  have alike := run_told (m := outline layout dll p NATIVE_CLR_ARG) (fun _ _ _ missed => missed.going)
    (fun front a back (all : front ++ a :: back = acts) s h missed =>
      missed_step (p := p) unaware (by simp [← all]) missed NATIVE_CLR_ARG rfl) (missed_start layout host)
  have silent : acts.filterMap (fun _ => (none : Option DumpRetention.Interception)) = [] := by simp
  rw [answers_filterMap, silent] at alike
  exact recorded_of_told (target_told alike fun _ _ missed => ⟨missed.host, missed.going⟩)

/-- An array of one byte is given back. -/
theorem unaccess_missed_sample :
    Recorded sampleProcess sampleHost [] [.went 0x71000000]
      ((target sampleLayout sampleAddresses sampleProcess).run (.start sampleLayout NATIVE_CLR_ARG sampleHost)
        [.safeArrayUnaccessData ⟨1, by decide, ⟨[77], by decide⟩⟩ sampleOccasion]) := by
  have unaware : Unaware sampleLayout sampleAddresses
      [.safeArrayUnaccessData ⟨1, by decide, ⟨[77], by decide⟩⟩ sampleOccasion] :=
    ⟨by decide, by simp, by simp⟩
  exact unaccess_missed unaware sampleProcess sampleHost

end ClrDumper.Captures
