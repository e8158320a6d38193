import Mathlib.Data.Nat.Notation
import ClrDumper.CStrings

/-! `HookedGetProcAddress` of `AssemblyLoadHook.cpp` and `PowershellHook.cpp`.
Whoever asks for `AmsiScanBuffer` gets the hook's own, once anyone has asked for
`AmsiInitialize`; every other request goes to the original `GetProcAddress`. -/
namespace ClrDumper.AmsiRedirection
open CStrings CString

/-- A call of `GetProcAddress`, with what it finds in the process: the string at
an address, and what the original function returns. -/
structure Call where
  hModule : UInt32
  lpProcName : UInt32
  text : UInt32 → CString
  originalGetProcAddress : UInt32 → UInt32 → UInt32

/-- The body of both copies: the returned address and `isAmsiIntializeCalled`
afterwards. They differ in which `AmsiScanBuffer` they return. -/
def hookedGetProcAddress (amsiScanBuffer : UInt32) (isAmsiIntializeCalled : Bool) (call : Call) :
    UInt32 × Bool :=
  -- The second argument can be an ordinal; then it is below 2^16.
  if call.lpProcName >>> 16 ≠ 0 then
    let proc := call.text call.lpProcName
    let isAmsiIntializeCalled := if !lstrcmpA proc (.literal "AmsiInitialize") then true else isAmsiIntializeCalled
    if !lstrcmpA proc (.literal "AmsiScanBuffer") && isAmsiIntializeCalled then
      (amsiScanBuffer, isAmsiIntializeCalled)
    else (call.originalGetProcAddress call.hModule call.lpProcName, isAmsiIntializeCalled)
  else (call.originalGetProcAddress call.hModule call.lpProcName, isAmsiIntializeCalled)

/-- The addresses of the two replacements in the loaded hook DLL. -/
structure Replacements where
  assemblyLoad : UInt32
  powershell : UInt32

/-- `AssemblyLoad::HookedGetProcAddress`. -/
def AssemblyLoad.hookedGetProcAddress (dll : Replacements) : Bool → Call → UInt32 × Bool :=
  AmsiRedirection.hookedGetProcAddress dll.assemblyLoad

/-- `powershell::HookedGetProcAddress`. -/
def powershell.hookedGetProcAddress (dll : Replacements) : Bool → Call → UInt32 × Bool :=
  AmsiRedirection.hookedGetProcAddress dll.powershell

/-- The results of a sequence of calls. -/
def results (hook : Bool → Call → UInt32 × Bool) (flag : Bool) : List Call → List UInt32
  | [] => []
  | call :: rest => (hook flag call).1 :: results hook (hook flag call).2 rest

/-- The call asks for a function by this name. -/
def AsksFor (name : CString) (call : Call) : Prop :=
  0x10000 ≤ call.lpProcName.toNat ∧ call.text call.lpProcName = name

theorem pointer_iff (lpProcName : UInt32) : lpProcName >>> 16 ≠ 0 ↔ 0x10000 ≤ lpProcName.toNat := by
  have high : (lpProcName >>> 16).toNat = lpProcName.toNat / 0x10000 := by
    rw [UInt32.toNat_shiftRight, Nat.shiftRight_eq_div_pow]
    rfl
  rw [Ne, ← UInt32.toNat_inj, high]
  change ¬ lpProcName.toNat / 0x10000 = 0 ↔ _
  omega

variable {amsiScanBuffer : UInt32} {flag : Bool} {call : Call}

theorem names_differ : CString.literal "AmsiScanBuffer" ≠ .literal "AmsiInitialize" := by decide

/-- **Step lemma.** The flag is raised by a request for `AmsiInitialize` and by
nothing else. -/
theorem flag_iff : (hookedGetProcAddress amsiScanBuffer flag call).2 = true ↔
    flag = true ∨ AsksFor (.literal "AmsiInitialize") call := by
  unfold hookedGetProcAddress AsksFor
  rw [← pointer_iff]
  by_cases pointer : call.lpProcName >>> 16 ≠ 0
  · by_cases first : call.text call.lpProcName = .literal "AmsiInitialize"
    · rw [if_pos pointer]
      simp [lstrcmpA, first, pointer, names_differ.symm]
    · rw [if_pos pointer]
      by_cases scan : call.text call.lpProcName = .literal "AmsiScanBuffer"
      · cases flag <;> simp [lstrcmpA, scan, names_differ]
      · simp [lstrcmpA, first, scan]
  · rw [if_neg pointer]
    simp [pointer]

/-- A request for `AmsiScanBuffer` is redirected when the flag was up before it. -/
theorem redirected (scan : AsksFor (.literal "AmsiScanBuffer") call) (up : flag = true) :
    (hookedGetProcAddress amsiScanBuffer flag call).1 = amsiScanBuffer := by
  obtain ⟨pointer, name⟩ := scan
  rw [hookedGetProcAddress, if_pos ((pointer_iff _).mpr pointer)]
  simp [lstrcmpA, name, up]

/-- Any other request is forwarded as it is. -/
theorem forwarded (other : ¬ (AsksFor (.literal "AmsiScanBuffer") call ∧ flag = true)) :
    (hookedGetProcAddress amsiScanBuffer flag call).1 =
      call.originalGetProcAddress call.hModule call.lpProcName := by
  unfold hookedGetProcAddress
  by_cases pointer : call.lpProcName >>> 16 ≠ 0
  · rw [if_pos pointer]
    by_cases scan : call.text call.lpProcName = .literal "AmsiScanBuffer"
    · have down : flag = false := by
        rw [← Bool.not_eq_true]
        exact fun up => other ⟨⟨(pointer_iff _).mp pointer, scan⟩, up⟩
      simp [lstrcmpA, scan, down, names_differ]
    · simp [lstrcmpA, scan]
  · rw [if_neg pointer]

/-- The flag after some calls. -/
def flagAfter (hook : Bool → Call → UInt32 × Bool) (flag : Bool) (calls : List Call) : Bool :=
  calls.foldl (fun flag call => (hook flag call).2) flag

theorem results_append (hook : Bool → Call → UInt32 × Bool) (flag : Bool) (front back : List Call) :
    results hook flag (front ++ back) = results hook flag front ++ results hook (flagAfter hook flag front) back := by
  induction front generalizing flag with
  | nil => rfl
  | cons call rest ih => simp [results, ih, flagAfter]

@[simp] theorem length_results (hook : Bool → Call → UInt32 × Bool) (flag : Bool) (calls : List Call) :
    (results hook flag calls).length = calls.length := by
  induction calls generalizing flag with
  | nil => rfl
  | cons call rest ih => simp [results, ih]

/-- **Run lemma.** After any calls the flag says whether one of them asked for
`AmsiInitialize`. -/
theorem flagAfter_iff (calls : List Call) :
    flagAfter (hookedGetProcAddress amsiScanBuffer) flag calls = true ↔
      flag = true ∨ ∃ earlier ∈ calls, AsksFor (.literal "AmsiInitialize") earlier := by
  induction calls generalizing flag with
  | nil => simp [flagAfter]
  | cons call rest ih =>
    have step := @ih (hookedGetProcAddress amsiScanBuffer flag call).2
    rw [flag_iff] at step
    simpa [flagAfter, or_assoc] using step

/-- The two copies of the hook. -/
inductive Copy where
  | assemblyLoad
  | powershell

/-- What a copy returns instead of the original `AmsiScanBuffer`. -/
def Copy.replacement (dll : Replacements) : Copy → UInt32
  | assemblyLoad => dll.assemblyLoad
  | powershell => dll.powershell

def Copy.hookedGetProcAddress (dll : Replacements) : Copy → Bool → Call → UInt32 × Bool
  | assemblyLoad => AssemblyLoad.hookedGetProcAddress dll
  | powershell => powershell.hookedGetProcAddress dll

theorem Copy.hooked_eq (dll : Replacements) (copy : Copy) :
    copy.hookedGetProcAddress dll = AmsiRedirection.hookedGetProcAddress (copy.replacement dll) := by
  cases copy <;> rfl

/-- The call is redirected after the calls before it. -/
def Redirects (earlier : List Call) (call : Call) : Prop :=
  AsksFor (.literal "AmsiScanBuffer") call ∧ ∃ before ∈ earlier, AsksFor (.literal "AmsiInitialize") before

/-- **Redirection.** In every sequence of calls and in both copies, a call
returns the replacement if it asks for `AmsiScanBuffer` and an earlier one asked
for `AmsiInitialize`, and otherwise what the original function returns for its
arguments. A call that does not ask for `AmsiInitialize` leaves the results of
the calls after it as they would be without it. -/
theorem redirects_iff (dll : Replacements) (copy : Copy) (front : List Call) (call : Call)
    (back : List Call) :
    ∃ result, (results (copy.hookedGetProcAddress dll) false (front ++ call :: back))[front.length]? =
        some result ∧
      (Redirects front call → result = copy.replacement dll) ∧
      (¬ Redirects front call → result = call.originalGetProcAddress call.hModule call.lpProcName) ∧
      (call.originalGetProcAddress call.hModule call.lpProcName ≠ copy.replacement dll →
        (result = copy.replacement dll ↔ Redirects front call)) ∧
      (¬ AsksFor (.literal "AmsiInitialize") call →
        (results (copy.hookedGetProcAddress dll) false (front ++ call :: back)).drop (front.length + 1) =
          (results (copy.hookedGetProcAddress dll) false (front ++ back)).drop front.length) := by
  rw [copy.hooked_eq, results_append, results_append]
  generalize before : flagAfter (hookedGetProcAddress (copy.replacement dll)) false front = flag
  have seen : flag = true ↔ ∃ earlier ∈ front, AsksFor (.literal "AmsiInitialize") earlier := by
    rw [← before, flagAfter_iff]
    simp
  have redirects : Redirects front call ↔ AsksFor (.literal "AmsiScanBuffer") call ∧ flag = true :=
    and_congr Iff.rfl seen.symm
  have taken : Redirects front call →
      (hookedGetProcAddress (copy.replacement dll) flag call).1 = copy.replacement dll := by
    intro holds
    obtain ⟨scan, up⟩ := redirects.mp holds
    exact redirected scan up
  have passed : ¬ Redirects front call → (hookedGetProcAddress (copy.replacement dll) flag call).1 =
      call.originalGetProcAddress call.hModule call.lpProcName :=
    fun fails => forwarded (mt redirects.mpr fails)
  refine ⟨(hookedGetProcAddress (copy.replacement dll) flag call).1, ?_, taken, passed, ?_, ?_⟩
  · simp [results]
  · intro different
    refine ⟨fun same => ?_, taken⟩
    by_contra fails
    exact different ((passed fails).symm.trans same)
  · intro other
    have same : (hookedGetProcAddress (copy.replacement dll) flag call).2 = flag := by
      rw [Bool.eq_iff_iff, flag_iff]
      simp [other]
    simp [results, same, List.drop_append]

end ClrDumper.AmsiRedirection
