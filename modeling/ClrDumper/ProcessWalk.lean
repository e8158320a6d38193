import Mathlib.Data.List.Induction
import ClrDumper.CStrings

/-! `GetProcessHandle` of the launcher, which looks for the process to spoof the
parent with. Its loop asks for the next entry before it looks at the first, opens
every other process of the name, and keeps what the last `OpenProcess` returned,
also if that is NULL. -/
namespace ClrDumper.ProcessWalk
open CStrings CString

/-- An entry of the snapshot, and whether `OpenProcess` gives a handle to the
process. -/
structure Process where
  szExeFile : CString
  th32ProcessID : UInt32
  opens : Bool
  deriving DecidableEq

/-- What a handle stands for. -/
inductive Object where
  | snapshot
  | process (p : Process)
  deriving DecidableEq

structure Handle where
  object : Object
  isOpen : Bool
  deriving DecidableEq

/-- The handles of the launcher, in the order in which it got them. -/
abbrev HandleTable := List Handle

/-- A value of type `HANDLE`: one of the two that stand for none, or the place of
a handle in the table. -/
inductive HandleValue where
  | INVALID_HANDLE_VALUE
  | NULL
  | handle (index : ℕ)
  deriving DecidableEq

/-- The locals of the walk, with the table that it changes. -/
structure Walk where
  hProcess : HandleValue
  table : HandleTable

/-- A new handle. -/
def create (table : HandleTable) (object : Object) : HandleValue × HandleTable :=
  (.handle table.length, table ++ [⟨object, true⟩])

def openProcess (table : HandleTable) (p : Process) : HandleValue × HandleTable :=
  if p.opens then create table (.process p) else (.NULL, table)

def closeHandle (table : HandleTable) : HandleValue → HandleTable
  | .handle index =>
    match table[index]? with
    | some handle => table.set index { handle with isOpen := false }
    | none => table
  | _ => table

/-- The body of `while (Process32Next(snapshot, &entry) == TRUE)`. -/
def examine (process_name : CString) (s : Walk) (entry : Process) : Walk :=
  if lstrcmpA entry.szExeFile process_name = false then
    let (hProcess, table) := openProcess s.table entry
    ⟨hProcess, table⟩
  else s

/-- `GetProcessHandle`, for the processes in the order of the snapshot. -/
def getProcessHandle (process_name : CString) (processes : List Process) (table : HandleTable) : Walk :=
  let (snapshot, table) := create table .snapshot
  let s : Walk := ⟨.INVALID_HANDLE_VALUE, table⟩
  let s :=
    match processes with
    | [] => s
    -- `Process32First` has filled in the first entry, and `Process32Next` overwrites it.
    | _ :: rest => rest.foldl (examine process_name) s
  { s with table := closeHandle s.table snapshot }

/-- The test after the call in `main`: whether it goes on with the handle. -/
def spoofs (spoofProcessHandle : HandleValue) : Bool := decide (spoofProcessHandle ≠ .INVALID_HANDLE_VALUE)

/-- A process of the name that can be opened. -/
def Usable (process_name : CString) (p : Process) : Prop := p.szExeFile = process_name ∧ p.opens = true

/-- The call found a usable process if there is one, and left no other handle
open. -/
structure FindsUsable (process_name : CString) (processes : List Process) (before : HandleTable) (result : Walk) :
    Prop where
  usable : (∃ p ∈ processes, Usable process_name p) → ∃ index, ∃ p ∈ processes,
    result.hProcess = .handle index ∧ result.table[index]? = some ⟨.process p, true⟩ ∧ p.szExeFile = process_name
  absent : (∀ p ∈ processes, ¬ Usable process_name p) → result.hProcess = .INVALID_HANDLE_VALUE
  closed : ∀ index handle, before.length ≤ index → result.table[index]? = some handle → handle.isOpen = true →
    result.hProcess = .handle index

/-- The processes of a name. -/
def named (process_name : CString) (processes : List Process) : List Process :=
  processes.filter fun p => p.szExeFile = process_name

/-- Those of them that can be opened. -/
def opened (process_name : CString) (processes : List Process) : List Process :=
  (named process_name processes).filter (·.opens)

variable {process_name : CString} {processes : List Process} {p : Process}

theorem examine_named (name : p.szExeFile = process_name) (s : Walk) :
    examine process_name s p = ⟨(openProcess s.table p).1, (openProcess s.table p).2⟩ := by
  simp [examine, lstrcmpA, name]

theorem examine_other (name : p.szExeFile ≠ process_name) (s : Walk) : examine process_name s p = s := by
  simp [examine, lstrcmpA, name]

/-- What the loop leaves: a handle to every process of the name that could be
opened, and of the last one of the name what `OpenProcess` returned. -/
theorem walk_spec (process_name : CString) (rest : List Process) (s : Walk) :
    (rest.foldl (examine process_name) s).table =
        s.table ++ (opened process_name rest).map (fun p => ⟨.process p, true⟩) ∧
      (rest.foldl (examine process_name) s).hProcess =
        match (named process_name rest).getLast? with
        | none => s.hProcess
        | some last =>
          if last.opens then .handle (s.table.length + (opened process_name rest).length - 1) else .NULL := by
  induction rest using List.reverseRecOn with
  | nil => simp [opened, named]
  | append_singleton front last ih =>
    obtain ⟨table, hProcess⟩ := ih
    rw [List.foldl_append, List.foldl_cons, List.foldl_nil]
    by_cases name : last.szExeFile = process_name
    · rw [examine_named name]
      by_cases opens : last.opens = true
      · simp [openProcess, opens, create, opened, named, name, table]
      · simp [openProcess, opens, opened, named, name, table]
    · rw [examine_other name, table, hProcess]
      simp [opened, named, name]

theorem closeHandle_between (before rest : HandleTable) (object : Object) :
    closeHandle (before ++ ⟨object, true⟩ :: rest) (.handle before.length) = before ++ ⟨object, false⟩ :: rest := by
  simp [closeHandle]

/-- The result of the call. The handle of the snapshot is closed, those of the
processes are not. -/
theorem getProcessHandle_spec (process_name : CString) (processes : List Process) (before : HandleTable) :
    (getProcessHandle process_name processes before).table =
        before ++ ⟨.snapshot, false⟩ :: (opened process_name processes.tail).map (fun p => ⟨.process p, true⟩) ∧
      (getProcessHandle process_name processes before).hProcess =
        match (named process_name processes.tail).getLast? with
        | none => .INVALID_HANDLE_VALUE
        | some last =>
          if last.opens then .handle (before.length + (opened process_name processes.tail).length) else .NULL := by
  obtain ⟨table, hProcess⟩ := walk_spec process_name processes.tail
    ⟨.INVALID_HANDLE_VALUE, before ++ [⟨.snapshot, true⟩]⟩
  have start : getProcessHandle process_name processes before =
      { processes.tail.foldl (examine process_name) ⟨.INVALID_HANDLE_VALUE, before ++ [⟨.snapshot, true⟩]⟩ with
        table := closeHandle (processes.tail.foldl (examine process_name)
          ⟨.INVALID_HANDLE_VALUE, before ++ [⟨.snapshot, true⟩]⟩).table (.handle before.length) } := by
    cases processes <;> rfl
  rw [start]
  dsimp only
  constructor
  · rw [table, List.append_assoc]
    exact closeHandle_between _ _ _
  · rw [hProcess, List.length_append, List.length_singleton, Nat.add_right_comm, Nat.add_sub_cancel]

/-- Where the call does what it is for: no process of the name can be opened and
none after the first has it, or one after the first can be opened that is the
last of the name. -/
def OnlyLastOpens (process_name : CString) (processes : List Process) : Prop :=
  (named process_name processes.tail = [] ∧ ∀ p ∈ processes, ¬ Usable process_name p) ∨
    ∃ front last, named process_name processes.tail = front ++ [last] ∧ last.opens = true ∧
      ∀ p ∈ front, p.opens = false

theorem mem_named : p ∈ named process_name processes ↔ p ∈ processes ∧ p.szExeFile = process_name := by
  simp [named]

/-- The handles that the call adds: first the closed one of the snapshot. -/
theorem added_process (before : HandleTable) (found : List Process) (x : ℕ) :
    (before ++ (⟨.snapshot, false⟩ : Handle) :: found.map (fun p => ⟨.process p, true⟩))[before.length + 1 + x]? =
      found[x]?.map fun p => ⟨.process p, true⟩ := by
  rw [List.getElem?_append_right (by omega), show before.length + 1 + x - before.length = x + 1 by omega,
    List.getElem?_cons_succ, List.getElem?_map]

theorem added_open {before : HandleTable} {found : List Process} {index : ℕ} {handle : Handle}
    (new : before.length ≤ index)
    (here : (before ++ (⟨.snapshot, false⟩ : Handle) :: found.map (fun p => ⟨.process p, true⟩))[index]? = some handle)
    (isOpen : handle.isOpen = true) : ∃ x < found.length, index = before.length + 1 + x := by
  rcases Nat.eq_or_lt_of_le new with rfl | later
  · simp only [List.getElem?_append_right (Nat.le_refl _), Nat.sub_self, List.getElem?_cons_zero,
      Option.some.injEq] at here
    subst here
    cases isOpen
  · obtain ⟨x, rfl⟩ := Nat.exists_eq_add_of_le (show before.length + 1 ≤ index from later)
    rw [added_process, Option.map_eq_some_iff] at here
    obtain ⟨p, at_x, _⟩ := here
    exact ⟨x, (List.getElem?_eq_some_iff.mp at_x).1, rfl⟩

theorem opened_snoc {front : List Process} {last : Process} (split : named process_name processes = front ++ [last])
    (opens : last.opens = true) : opened process_name processes = front.filter (·.opens) ++ [last] := by
  simp [opened, split, opens]

theorem onlyLastOpens_of_findsUsable {before : HandleTable}
    (finds : FindsUsable process_name processes before (getProcessHandle process_name processes before)) :
    OnlyLastOpens process_name processes := by
  obtain ⟨table, hProcess⟩ := getProcessHandle_spec process_name processes before
  rcases List.eq_nil_or_concat (named process_name processes.tail) with unnamed | ⟨front, last, split⟩
  · left
    refine ⟨unnamed, fun p member usable => ?_⟩
    obtain ⟨index, _, _, found, _⟩ := finds.usable ⟨p, member, usable⟩
    rw [hProcess, unnamed] at found
    cases found
  · right
    rw [List.concat_eq_append] at split
    simp only [split, List.getLast?_concat] at hProcess
    by_cases opens : last.opens = true
    · refine ⟨front, last, split, opens, fun p member => ?_⟩
      by_contra also
      have member' : p ∈ front.filter (·.opens) := List.mem_filter.mpr ⟨member, by simpa using also⟩
      have several : 1 < (opened process_name processes.tail).length := by
        have nonempty := List.length_pos_of_mem member'
        rw [opened_snoc split opens, List.length_append, List.length_singleton]
        omega
      have first := added_process before (opened process_name processes.tail) 0
      have present : (opened process_name processes.tail)[0]? = some (opened process_name processes.tail)[0] :=
        List.getElem?_eq_getElem (by omega)
      rw [← table, present, Option.map_some] at first
      have result := finds.closed _ _ (show before.length ≤ before.length + 1 + 0 by omega) first rfl
      rw [hProcess, if_pos opens, HandleValue.handle.injEq] at result
      omega
    · rw [if_neg opens] at hProcess
      exfalso
      by_cases usable : ∃ p ∈ processes, Usable process_name p
      · obtain ⟨index, _, _, found, _⟩ := finds.usable usable
        rw [hProcess] at found
        cases found
      · have found := finds.absent fun p member usable' => usable ⟨p, member, usable'⟩
        rw [hProcess] at found
        cases found

theorem findsUsable_of_onlyLastOpens (only : OnlyLastOpens process_name processes) (before : HandleTable) :
    FindsUsable process_name processes before (getProcessHandle process_name processes before) := by
  obtain ⟨table, hProcess⟩ := getProcessHandle_spec process_name processes before
  rcases only with ⟨unnamed, nobody⟩ | ⟨front, last, split, opens, refused⟩
  · have empty : opened process_name processes.tail = [] := by rw [opened, unnamed, List.filter_nil]
    rw [unnamed] at hProcess
    rw [empty] at table
    constructor
    case usable =>
      rintro ⟨p, member, usable⟩
      exact absurd usable (nobody p member)
    case absent => exact fun _ => hProcess
    case closed =>
      intro index handle new found isOpen
      rw [table] at found
      obtain ⟨x, inside, _⟩ := added_open new found isOpen
      exact absurd inside (Nat.not_lt_zero x)
  · have single : opened process_name processes.tail = [last] := by
      have others : front.filter (·.opens) = [] := by simpa using refused
      rw [opened_snoc split opens, others, List.nil_append]
    simp only [split, List.getLast?_concat, opens, if_true, single, List.length_singleton] at hProcess
    have member : last ∈ named process_name processes.tail := by simp [split]
    obtain ⟨later, name⟩ := mem_named.mp member
    have inside := List.mem_of_mem_tail later
    constructor
    case usable =>
      intro _
      have here := added_process before (opened process_name processes.tail) 0
      rw [← table, single] at here
      exact ⟨before.length + 1, last, inside, hProcess, here, name⟩
    case absent =>
      intro nobody
      exact absurd ⟨name, opens⟩ (nobody last inside)
    case closed =>
      intro index handle new found isOpen
      rw [table] at found
      obtain ⟨x, first, rfl⟩ := added_open new found isOpen
      rw [single, List.length_singleton, Nat.lt_one_iff] at first
      rw [hProcess, first]

/-- `main` goes on whenever a process after the first has the name, also if none
of them could be opened. -/
theorem spoofs_iff (process_name : CString) (processes : List Process) (before : HandleTable) :
    spoofs (getProcessHandle process_name processes before).hProcess = true ↔
      named process_name processes.tail ≠ [] := by
  rw [(getProcessHandle_spec process_name processes before).2]
  rcases List.eq_nil_or_concat (named process_name processes.tail) with unnamed | ⟨front, last, split⟩
  · simp [unnamed, spoofs]
  · rw [List.concat_eq_append] at split
    by_cases opens : last.opens = true
    · simp [split, opens, spoofs]
    · simp [split, opens, spoofs]

/-- **The process to spoof.** The call finds a usable process if there is one, and
leaves no other handle open, exactly if a usable process is the last of its name
and the only usable one after the first process, or there is nothing to find. -/
theorem findsUsable_iff (process_name : CString) (processes : List Process) (before : HandleTable) :
    FindsUsable process_name processes before (getProcessHandle process_name processes before) ↔
      OnlyLastOpens process_name processes :=
  ⟨onlyLastOpens_of_findsUsable, fun only => findsUsable_of_onlyLastOpens only before⟩

/-- Two processes of the name, of which the second cannot be opened. -/
def twoExplorers : List Process :=
  [⟨.literal "[System Process]", 0, false⟩, ⟨.literal "explorer.exe", 4012, true⟩,
    ⟨.literal "explorer.exe", 7340, false⟩]

/-- The handle of the first is overwritten with NULL. -/
theorem refused_process_overwrites : ¬ ∀ process_name processes before,
    FindsUsable process_name processes before (getProcessHandle process_name processes before) := by
  intro all
  have finds := all (.literal "explorer.exe") twoExplorers []
  have null : (getProcessHandle (.literal "explorer.exe") twoExplorers []).hProcess = .NULL := by decide
  obtain ⟨index, _, _, found, _⟩ :=
    finds.usable ⟨⟨.literal "explorer.exe", 4012, true⟩, by simp [twoExplorers], rfl, rfl⟩
  rw [null] at found
  cases found

end ClrDumper.ProcessWalk
