import Mathlib.Data.List.Pairwise
import ClrDumper.ScriptDump

/-! Which dumps a process keeps. A dump is named by its tag and its time of day,
so interceptions keep their dumps exactly when no two with one tag fall on the
same millisecond of the day. -/
namespace ClrDumper.DumpRetention
open Execution CStrings Decimal NamedPipeIO Utility ScriptDump

/-- A script on its way into one of the three handlers, with what the handler's
heap block for it holds before anything is stored there. -/
inductive Script where
  | powershell (buffer : Buffer)
  | vbScript (text : WString) (block : CharArray (text.units.length + 1))
  | jScript (text : WString) (block : CharArray (text.units.length + 1))

/-- One call of a handler. -/
structure Interception where
  script : Script
  /-- The local time, in milliseconds since some midnight. -/
  millis : ℕ
  locals : Locals

/-- What the handlers find in their process. -/
structure Process where
  dumpPath : CString
  processPath : CString
  locale : CodePage

/-- The call of the handler that the script goes to. -/
def intercept (p : Process) (host : Host) (x : Interception) : Exec Host :=
  match x.script with
  | .powershell buffer =>
    powershell.amsiScanBuffer p.dumpPath p.processPath buffer (getLocalTime x.millis) x.locals host
  | .vbScript text block =>
    VBScript.compileHooked p.dumpPath p.locale text block (getLocalTime x.millis) x.locals host
  | .jScript text block =>
    JScript.parserHooked p.dumpPath p.locale text block (getLocalTime x.millis) x.locals host

/-- The calls of a run, one after another. -/
def run (p : Process) (host : Host) (calls : List Interception) : Exec Host :=
  calls.foldlM (intercept p) host

namespace Script

def tag : Script → CString
  | powershell _ => .literal "PS_SCRIPT"
  | vbScript _ _ => .literal "VB_SCRIPT"
  | jScript _ _ => .literal "JS_SCRIPT"

/-- The text before the path in the line that is logged for a dump. -/
def dumped : Script → CString
  | powershell _ => .literal "[+] Dumped Script to "
  | vbScript _ _ | jScript _ _ => .literal "[+] Dump written to "

/-- How the handler fills the file. -/
def write (locale : CodePage) : Script → Disk → CString → Exec Disk
  | powershell buffer, disk, path => .ok (writeEach disk path buffer.bytes)
  | vbScript text block, disk, path | jScript text block, disk, path => writeWide locale text block disk path

/-- What the filled file holds. -/
def contents (locale : CodePage) : Script → List UInt8
  | powershell buffer => buffer.bytes
  | vbScript text block | jScript text block =>
    let converted := convert locale text.units
    (converted ++ block.bytes.drop converted.length).take text.units.length

/-- The arrays that the handler fills before it opens the file hold what it puts
into them. -/
def Enters (p : Process) : Script → Prop
  | powershell buffer => (powershell.enteredLine p.processPath buffer.bytes.length).length + 2 ≤ MAX_BUFFER
  | vbScript _ _ | jScript _ _ => True

/-- So does the block that it converts a text in. -/
def Converts (locale : CodePage) : Script → Prop
  | powershell _ => True
  | vbScript text _ | jScript text _ => (convert locale text.units).length ≤ text.units.length + 1

end Script

/-- The path of the dump of an interception. -/
def dumpFile (p : Process) (x : Interception) : CString :=
  p.dumpPath ++ dumpName x.script.tag (getLocalTime x.millis)

/-- Everything that an interception puts into an array when it creates its dump
fits there. -/
structure Fits (p : Process) (x : Interception) : Prop where
  enters : x.script.Enters p
  path : (dumpFile p x).length < MAX_PATH
  converts : x.script.Converts p.locale
  line : (x.script.dumped ++ dumpFile p x).length + 2 ≤ MAX_BUFFER

variable {p : Process} {x y : Interception} {host after final : Host} {calls : List Interception}

/-! ## One interception -/

/-- A handler fills a new file with the contents of its script. -/
theorem write_new_file (s : Script) {locale : CodePage} (converts : s.Converts locale)
    (files : CString → Option (List UInt8)) (path : CString) :
    ∃ disk, s.write locale ⟨Function.update files path (some [])⟩ path = .ok disk ∧
      disk.files = Function.update files path (some (s.contents locale)) := by
  cases s with
  | powershell buffer =>
    refine ⟨_, rfl, ?_⟩
    rw [writeEach_eq]
    exact write_new files path buffer.bytes
  | vbScript text block => exact ⟨_, writeWide_fits locale text block converts _ path, write_new files path _⟩
  | jScript text block => exact ⟨_, writeWide_fits locale text block converts _ path, write_new files path _⟩

theorem converts_of_write {s : Script} {locale : CodePage} {disk filled : Disk} {path : CString}
    (ran : s.write locale disk path = .ok filled) : s.Converts locale := by
  cases s with
  | powershell buffer => trivial
  | vbScript text block => exact writeWide_ok ran
  | jScript text block => exact writeWide_ok ran

theorem tag_length (s : Script) : s.tag.length ≤ 66 := by
  cases s with
  | powershell => simp only [Script.tag]; decide
  | vbScript => simp only [Script.tag]; decide
  | jScript => simp only [Script.tag]; decide

/-- What is left of a handler once its first line, if it logs one, was sent. -/
def dump (p : Process) (x : Interception) (host : Host) : Exec Host :=
  dumpScript x.script.tag x.script.dumped (x.script.write p.locale) p.dumpPath (getLocalTime x.millis) x.locals
    host

theorem dump_room (room : (dumpFile p x).length < MAX_PATH) :
    dump p x host =
      match host.disk.createNew (dumpFile p x) with
      | some disk => do
        let disk ← x.script.write p.locale disk (dumpFile p x)
        Host.log { host with disk } x.locals (x.script.dumped ++ dumpFile p x)
      | none => host.log x.locals (.literal "[-] Could not create dump file!") :=
  dumpScript_room (tag_length _) room

theorem intercept_enters (host : Host) (enters : x.script.Enters p) :
    ∃ entered, entered.disk = host.disk ∧ intercept p host x = dump p x entered := by
  obtain ⟨script, millis, locals⟩ := x
  cases script with
  | powershell buffer =>
    obtain ⟨entered, ran⟩ := (log_ok_iff host locals _).mpr enters
    refine ⟨entered, log_disk ran, ?_⟩
    change (host.log locals (powershell.enteredLine p.processPath buffer.bytes.length) >>=
      dump p ⟨.powershell buffer, millis, locals⟩) = _
    rw [ran, ok_bind]
  | vbScript text block => exact ⟨host, rfl, rfl⟩
  | jScript text block => exact ⟨host, rfl, rfl⟩

theorem enters_of_intercept (ran : intercept p host x = .ok after) : x.script.Enters p := by
  obtain ⟨script, millis, locals⟩ := x
  cases script with
  | powershell buffer =>
    obtain ⟨entered, logged, _⟩ := bind_ok ran
    exact (log_ok_iff host locals _).mp ⟨entered, logged⟩
  | vbScript text block => trivial
  | jScript text block => trivial

/-- An interception whose dump does not exist yet creates it, and changes no
other file. -/
theorem intercept_new (fits : Fits p x) (absent : host.disk.files (dumpFile p x) = none) :
    ∃ after, intercept p host x = .ok after ∧ after.disk.files =
      Function.update host.disk.files (dumpFile p x) (some (x.script.contents p.locale)) := by
  obtain ⟨entered, same, ran⟩ := intercept_enters host fits.enters
  obtain ⟨disk, wrote, files⟩ := write_new_file x.script fits.converts host.disk.files (dumpFile p x)
  obtain ⟨after, logged⟩ := (log_ok_iff { entered with disk } x.locals _).mpr fits.line
  refine ⟨after, ?_, by rw [log_disk logged]; exact files⟩
  rw [ran, dump_room fits.path, createNew_absent (by rw [same]; exact absent), same]
  simp only [wrote, ok_bind]
  exact logged

/-- An interception that runs to its end finds its dump there and changes no
file, or has created it. -/
theorem intercept_ok (ran : intercept p host x = .ok after) :
    (host.disk.files (dumpFile p x) ≠ none ∧ after.disk = host.disk) ∨
      (host.disk.files (dumpFile p x) = none ∧ Fits p x ∧ after.disk.files =
        Function.update host.disk.files (dumpFile p x) (some (x.script.contents p.locale))) := by
  have enters := enters_of_intercept ran
  obtain ⟨entered, same, rest⟩ := intercept_enters host enters
  rw [ran] at rest
  have room : (dumpFile p x).length < MAX_PATH := room_of_dumpScript (tag_length _) rest.symm
  rw [dump_room room, same] at rest
  cases created : host.disk.createNew (dumpFile p x) with
  | none =>
    rw [created] at rest
    refine Or.inl ⟨?_, by rw [log_disk rest.symm, same]⟩
    intro absent
    rw [createNew_absent absent] at created
    cases created
  | some disk =>
    rw [created] at rest
    obtain ⟨filled, wrote, logged⟩ := bind_ok rest.symm
    obtain ⟨absent, empty⟩ := createNew_some created
    have converts := converts_of_write wrote
    refine Or.inr ⟨absent, ⟨enters, room, converts, (log_ok_iff _ _ _).mp ⟨after, logged⟩⟩, ?_⟩
    obtain ⟨disk', wrote', files⟩ := write_new_file x.script converts host.disk.files (dumpFile p x)
    obtain rfl : disk = ⟨Function.update host.disk.files (dumpFile p x) (some [])⟩ := by
      cases disk
      cases empty
      rfl
    rw [wrote, Except.ok.injEq] at wrote'
    rw [log_disk logged, ← files, wrote']

/-- No interception changes a file that is there. -/
theorem intercept_keeps (ran : intercept p host x = .ok after) {path : CString} {data : List UInt8}
    (held : host.disk.files path = some data) : after.disk.files path = some data := by
  rcases intercept_ok ran with ⟨_, same⟩ | ⟨absent, _, files⟩
  · rw [same]
    exact held
  · have other : path ≠ dumpFile p x := by
      rintro rfl
      rw [held] at absent
      cases absent
    rw [files, Function.update_of_ne other]
    exact held

/-- Its own dump is there afterwards, created now or earlier. -/
theorem intercept_leaves (ran : intercept p host x = .ok after) :
    ∃ data, after.disk.files (dumpFile p x) = some data := by
  rcases intercept_ok ran with ⟨present, same⟩ | ⟨_, _, files⟩
  · rw [same]
    exact Option.ne_none_iff_exists'.mp present
  · exact ⟨_, by rw [files, Function.update_self]⟩

/-! ## A run of them -/

theorem run_cons (p : Process) (host : Host) (x : Interception) (rest : List Interception) :
    run p host (x :: rest) = (intercept p host x >>= fun next => run p next rest) :=
  List.foldlM_cons

theorem run_append (p : Process) (host : Host) (front back : List Interception) :
    run p host (front ++ back) = (run p host front >>= fun middle => run p middle back) :=
  List.foldlM_append

/-- Nor does a run. -/
theorem run_keeps (ran : run p host calls = .ok final) {path : CString} {data : List UInt8}
    (held : host.disk.files path = some data) : final.disk.files path = some data := by
  induction calls generalizing host with
  | nil =>
    cases ran
    exact held
  | cons x rest ih =>
    rw [run_cons] at ran
    obtain ⟨next, first, later⟩ := bind_ok ran
    exact ih later (intercept_keeps first held)

theorem run_leaves (ran : run p host calls = .ok final) (member : x ∈ calls) :
    ∃ data, final.disk.files (dumpFile p x) = some data := by
  obtain ⟨front, back, rfl⟩ := List.append_of_mem member
  rw [run_append] at ran
  obtain ⟨before, _, ran⟩ := bind_ok ran
  rw [run_cons] at ran
  obtain ⟨after, now, later⟩ := bind_ok ran
  obtain ⟨data, held⟩ := intercept_leaves now
  exact ⟨data, run_keeps later held⟩

/-- Interceptions with dumps of their own run to the end and change no other
file. -/
theorem run_new (fits : ∀ x ∈ calls, Fits p x) (absent : ∀ x ∈ calls, host.disk.files (dumpFile p x) = none)
    (distinct : calls.Pairwise fun x y => dumpFile p x ≠ dumpFile p y) :
    ∃ final, run p host calls = .ok final ∧
      ∀ path, (∀ x ∈ calls, dumpFile p x ≠ path) → final.disk.files path = host.disk.files path := by
  induction calls generalizing host with
  | nil => exact ⟨host, rfl, fun _ _ => rfl⟩
  | cons x rest ih =>
    obtain ⟨next, ran, files⟩ := intercept_new (fits x List.mem_cons_self) (absent x List.mem_cons_self)
    obtain ⟨others, distinct⟩ := List.pairwise_cons.mp distinct
    have untouched : ∀ path, dumpFile p x ≠ path → next.disk.files path = host.disk.files path := by
      intro path other
      rw [files, Function.update_of_ne (Ne.symm other)]
    obtain ⟨final, later, kept⟩ := ih (fun y member => fits y (List.mem_cons_of_mem _ member))
      (fun y member => by
        rw [untouched _ (others y member)]
        exact absent y (List.mem_cons_of_mem _ member)) distinct
    refine ⟨final, by rw [run_cons, ran, ok_bind, later], fun path none => ?_⟩
    rw [kept path (fun y member => none y (List.mem_cons_of_mem _ member)),
      untouched path (none x List.mem_cons_self)]

/-- No dump of the process exists yet. -/
def NoDumps (p : Process) (host : Host) : Prop :=
  ∀ tag st, host.disk.files (p.dumpPath ++ dumpName tag st) = none

/-- Every interception has a file of its own, which was not there before it and
holds its script from then on. -/
def Retained (p : Process) (host : Host) (calls : List Interception) : Prop :=
  ∃ file : ℕ → CString, (∀ i j, i < j → j < calls.length → file i ≠ file j) ∧
    ∀ front x back, calls = front ++ x :: back →
      ∃ before after, run p host front = .ok before ∧ intercept p before x = .ok after ∧
        before.disk.files (file front.length) = none ∧
        ∀ between rest, back = between ++ rest → ∃ later, run p after between = .ok later ∧
          later.disk.files (file front.length) = some (x.script.contents p.locale)

/-- The two interceptions do not share a tag and a time of day. -/
def Apart (x y : Interception) : Prop :=
  x.script.tag = y.script.tag → x.millis % 86400000 ≠ y.millis % 86400000

theorem dumpFile_ne_iff : dumpFile p x ≠ dumpFile p y ↔ Apart x y := by
  have names : dumpFile p x = dumpFile p y ↔
      dumpName x.script.tag (getLocalTime x.millis) = dumpName y.script.tag (getLocalTime y.millis) := by
    refine ⟨fun same => ?_, fun same => by rw [dumpFile, dumpFile, same]⟩
    have bytes := congrArg CString.bytes same
    exact CString.ext (List.append_cancel_left bytes)
  rw [Ne, names, dumpName_inj, getLocalTime_inj, not_and]
  exact Iff.rfl

/-- The path of the dump of the `i`-th interception of a run. -/
def fileOf (p : Process) (calls : List Interception) (i : ℕ) : CString :=
  calls[i]?.elim CString.empty (dumpFile p)

theorem fileOf_getElem {i : ℕ} (inside : i < calls.length) : fileOf p calls i = dumpFile p calls[i] := by
  simp [fileOf, inside]

theorem apart_of_retained (retained : Retained p host calls) :
    (∀ x ∈ calls, Fits p x) ∧ calls.Pairwise Apart := by
  obtain ⟨file, _, each⟩ := retained
  have split : ∀ front x back, calls = front ++ x :: back → Fits p x ∧ ∀ y ∈ front, Apart y x := by
    intro front x back same
    obtain ⟨before, after, ran, now, missing, kept⟩ := each front x back same
    obtain ⟨_, stays, held⟩ := kept [] back rfl
    cases stays
    rcases intercept_ok now with ⟨_, disk⟩ | ⟨absent, fits, _⟩
    · rw [disk, missing] at held
      cases held
    · refine ⟨fits, fun y member => (dumpFile_ne_iff (p := p)).mp fun path => ?_⟩
      obtain ⟨data, held⟩ := run_leaves ran member
      rw [path, absent] at held
      cases held
  constructor
  · intro x member
    obtain ⟨front, back, same⟩ := List.append_of_mem member
    exact (split front x back same).1
  · rw [List.pairwise_iff_getElem]
    intro i j inside inside' less
    have cut : calls = calls.take j ++ calls[j] :: calls.drop (j + 1) := by simp
    refine (split _ _ _ cut).2 _ ?_
    rw [List.mem_take_iff_getElem]
    exact ⟨i, by omega, rfl⟩

theorem retained_of_apart (fresh : NoDumps p host) (fits : ∀ x ∈ calls, Fits p x)
    (apart : calls.Pairwise Apart) : Retained p host calls := by
  have distinct : calls.Pairwise fun x y => dumpFile p x ≠ dumpFile p y :=
    apart.imp fun {x y} apart => dumpFile_ne_iff.mpr apart
  refine ⟨fileOf p calls, ?_, ?_⟩
  · intro i j less inside
    rw [fileOf_getElem (Nat.lt_trans less inside), fileOf_getElem inside]
    exact List.pairwise_iff_getElem.mp distinct i j _ inside less
  · intro front x back same
    subst same
    have file : fileOf p (front ++ x :: back) front.length = dumpFile p x := by simp [fileOf]
    rw [List.pairwise_append, List.pairwise_cons] at distinct
    obtain ⟨ahead, ⟨own, behind⟩, across⟩ := distinct
    obtain ⟨before, ran, kept⟩ := run_new (fun y member => fits y (List.mem_append_left _ member))
      (fun y _ => fresh _ _) ahead
    have absent : before.disk.files (dumpFile p x) = none := by
      rw [kept _ fun y member => across y member x List.mem_cons_self]
      exact fresh _ _
    obtain ⟨after, now, files⟩ := intercept_new (fits x (by simp)) absent
    refine ⟨before, after, ran, now, by rw [file]; exact absent, ?_⟩
    rintro between rest rfl
    have missing : ∀ y ∈ between, after.disk.files (dumpFile p y) = none := by
      intro y member
      have later : y ∈ between ++ rest := List.mem_append_left rest member
      rw [files, Function.update_of_ne (Ne.symm (own y later)),
        kept _ fun z earlier => across z earlier y (List.mem_cons_of_mem _ later)]
      exact fresh _ _
    obtain ⟨later, run, _⟩ := run_new (fun y member => fits y (by simp [member])) missing
      (List.pairwise_append.mp behind).1
    refine ⟨later, run, ?_⟩
    rw [file]
    exact run_keeps run (by rw [files, Function.update_self])

/-- **Retention.** From a directory without dumps, the process keeps the dump of
every interception exactly when its arrays hold what the interceptions put there
and no two interceptions with one tag fall on the same millisecond of the day. -/
theorem retained_iff_apart (fresh : NoDumps p host) :
    Retained p host calls ↔ (∀ x ∈ calls, Fits p x) ∧ calls.Pairwise Apart :=
  ⟨apart_of_retained, fun ⟨fits, apart⟩ => retained_of_apart fresh fits apart⟩

/-- A process that dumps to `C:` in the C locale. -/
def sampleProcess : Process where
  dumpPath := .literal "C:"
  processPath := .literal "a.exe"
  locale unit := if unit < 128 then some [UInt8.ofNat unit.toNat] else none

def sampleHost : Host := ⟨⟨fun _ => none⟩, []⟩

/-- A script of one byte that PowerShell scans at some time. -/
def sampleScan (byte : UInt8) (millis : ℕ) : Interception where
  script := .powershell ⟨[byte], by simp⟩
  millis := millis
  locals := ⟨.filled _ 0, .filled _ 0, .filled _ 0, .filled _ 0⟩

theorem retained_iff_apart_sample :
    Retained sampleProcess sampleHost [sampleScan 49 0, sampleScan 50 1] ↔
      (∀ x ∈ [sampleScan 49 0, sampleScan 50 1], Fits sampleProcess x) ∧
        [sampleScan 49 0, sampleScan 50 1].Pairwise Apart :=
  retained_iff_apart fun _ _ => rfl

/-- Of two scripts in one millisecond, the second is lost: the times do not
decrease, nothing overflows and there was no dump before. -/
theorem same_millisecond_lost :
    ¬ ∀ p host calls, NoDumps p host → (∀ x ∈ calls, Fits p x) →
      calls.Pairwise (fun x y => x.millis ≤ y.millis) → Retained p host calls := by
  intro all
  have fits : ∀ x ∈ [sampleScan 49 0, sampleScan 50 0], Fits sampleProcess x := by
    simp only [List.forall_mem_cons, List.not_mem_nil, false_implies, implies_true, and_true]
    have enters : ∀ byte, (sampleScan byte 0).script.Enters sampleProcess := fun byte =>
      show (powershell.enteredLine sampleProcess.processPath 1).length + 2 ≤ MAX_BUFFER by decide
    exact ⟨⟨enters 49, by decide, trivial, by decide⟩, enters 50, by decide, trivial, by decide⟩
  have retained := all sampleProcess sampleHost [sampleScan 49 0, sampleScan 50 0] (fun _ _ => rfl)
    fits (by simp [sampleScan])
  obtain ⟨_, apart⟩ := apart_of_retained retained
  exact (List.pairwise_cons.mp apart).1 _ List.mem_cons_self rfl rfl

end ClrDumper.DumpRetention
