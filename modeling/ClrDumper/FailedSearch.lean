import ClrDumper.CallTargets

/-! What the script hooks do when a signature is missing. The searches answer
with a sentinel, and the address arithmetic goes on from it: the operand of a
call is read behind it, round the end of the address space. -/
namespace ClrDumper.FailedSearch
open Execution CStrings Memory Kmp KmpProofs MemoryUtils HookClr HookClrProofs SectionSearch CallTargets

/-- The bytes of the two operands, at their offsets from the sentinel. -/
def FromSentinel (address : UInt32) : Prop :=
  ∃ x < 4, address = notFound + 8 + UInt32.ofNat x ∨ address = notFound + 2 + UInt32.ofNat x

instance : DecidablePred FromSentinel := fun _ => inferInstanceAs (Decidable (∃ x < 4, _))

/-- A signature that the engine's hook function searches for is missing: the
first one in every section, or that of `HookJScript` behind the compile
address. -/
inductive SearchFails (e : ScriptEngine) (m : Module) : Prop where
  | compile (image : MappedImage m.mem m.base)
      (absent : ∀ s ∈ image.sections, ∀ k, ¬ NeedleAt m.mem m.base s pattern_COleScript_Compile k)
  | parser (engine : e = .jScript) {_compileAddress : UInt32}
      (found : compileAddress m.mem m.base = .ok _compileAddress)
      (absent : ∀ k, ¬ StandsIn m.mem _compileAddress 0x180 JScript.pattern_Parser_ParseSourceCall k)

/-- The callback comes back, with no hook made and no global changed, and nothing
that stands at an address from the sentinel has a part in it. -/
structure Harmless (layout : Layout) (e : ScriptEngine) (m : Module) (dll : Dll) : Prop where
  blind : ∀ mem : Mem, (∀ address, ¬ FromSentinel address → mem.byteAt address = m.mem.byteAt address) →
    e.callback.run layout { m with mem } dll = e.callback.run layout m dll
  unchanged : ∃ after, e.callback.run layout m dll = .ok after ∧ after.minHook = dll.minHook ∧
    after.original = dll.original ∧ after.vbScriptCompileAddress = dll.vbScriptCompileAddress ∧
    after.jScriptCompileAddress = dll.jScriptCompileAddress ∧
    after.jScriptParserAddress = dll.jScriptParserAddress

/-! ## Searches in more memory -/

section

variable {pat txt txt' : BytePtr} {part whole : Mem} {M : ℕ} {N : ℤ} {lps : IntBlock}

theorem fallBack_below (reads : ∀ y, Below (txt y) (txt' y)) (s : SearchState) :
    Below (fallBack pat txt N lps s) (fallBack pat txt' N lps s) := by
  unfold fallBack
  apply below_ite
  · exact below_bind (below_refl _) fun _ => below_bind (reads _) fun _ => below_refl _
  · exact below_refl _

theorem searchPass_below {hit : UInt8 → UInt8 → Bool} (reads : ∀ y, Below (txt y) (txt' y)) (s : SearchState) :
    Below (searchPass hit pat M txt N lps s) (searchPass hit pat M txt' N lps s) := by
  unfold searchPass
  apply below_ite
  · apply below_bind (below_refl _)
    intro _
    apply below_bind (reads _)
    intro _
    apply below_ite
    · exact below_refl _
    · exact below_bind (fallBack_below reads _) fun _ => below_refl _
  · exact below_refl _

/-- A search that ends in less text ends the same way in more. -/
theorem kmpSearch_below (reads : ∀ y, Below (txt y) (txt' y)) :
    Below (kmpSearch pat M txt N) (kmpSearch pat M txt' N) :=
  below_bind (below_refl _) fun _ => below_while (searchPass_below reads) _ _

theorem findData_below (inside : part.PartOf whole) (address : UInt32) :
    Below (findData part address N pat M false) (findData whole address N pat M false) :=
  below_bind (kmpSearch_below (inside.ptr address)) fun _ => below_refl _

theorem searchSections_below (inside : part.PartOf whole) (base header : UInt32) (remaining i : ℕ) :
    Below (searchSections part base header pat M remaining i) (searchSections whole base header pat M remaining i) := by
  induction remaining generalizing i with
  | zero => exact below_refl _
  | succ remaining ih =>
    unfold searchSections
    apply below_bind (inside.bytes _ _)
    intro _
    apply below_bind (inside.dword _)
    intro _
    apply below_bind (inside.dword _)
    intro _
    apply below_bind (kmpSearch_below (inside.ptr _))
    intro _
    apply below_ite
    · exact below_refl _
    · exact ih (i + 1)

theorem findDataInDLL_below (inside : part.PartOf whole) (base : UInt32) :
    Below (findDataInDLL part base pat M) (findDataInDLL whole base pat M) :=
  below_bind (inside.dword _) fun _ => below_bind (inside.word _) fun _ => searchSections_below inside _ _ _ _

theorem compileAddress_below (inside : part.PartOf whole) (base : UInt32) :
    Below (compileAddress part base) (compileAddress whole base) :=
  below_bind (findDataInDLL_below inside base) fun _ => below_bind (inside.dword _) fun _ => below_refl _

end

/-! ## The sentinel -/

/-- The memory with a byte everywhere. -/
def filled (mem : Mem) : Mem where
  byteAt address := some ((mem.byteAt address).getD 0)

theorem partOf_filled (mem : Mem) : mem.PartOf (filled mem) := by
  intro address byte held
  simp [filled, held]

theorem held_of_filled {mem : Mem} {address : UInt32} {byte : UInt8} (nonzero : byte ≠ 0)
    (held : (filled mem).byteAt address = some byte) : mem.byteAt address = some byte := by
  cases before : mem.byteAt address with
  | some byte => simpa [filled, before] using held
  | none =>
    have nul : 0 = byte := by simpa [filled, before] using held
    exact absurd nul.symm nonzero

/-- A search that ends gives the sentinel if the needle is not there, also where
some of the bytes that it is to look at are not mapped. -/
theorem findData_absent {mem : Mem} {address result : UInt32} {needle : List UInt8} {size : ℕ}
    (nonempty : needle ≠ []) (noNul : 0 ∉ needle) (absent : ∀ k, ¬ StandsIn mem address size needle k)
    (ran : findData mem address size (arrayPtr needle) needle.length false = .ok result) : result = notFound := by
  have nowhere : ∀ k, ¬ StandsIn (filled mem) address size needle k := by
    rintro k ⟨fits, stands⟩
    refine absent k ⟨fits, fun x inside => held_of_filled ?_ (stands x inside)⟩
    rintro nul
    exact noNul (nul ▸ List.getElem_mem inside)
  have readable : Readable ((filled mem).ptr address) size := fun x _ => ⟨_, rfl⟩
  obtain ⟨index, searched, found⟩ :=
    kmpSearch_spec (arrayPtr_readable needle) (List.length_pos_iff.mpr nonempty) readable
  rcases found with ⟨rfl, _⟩ | ⟨k, _, least⟩
  · have missing : findData (filled mem) address size (arrayPtr needle) needle.length false = .ok notFound := by
      simp [findData, searched, notFound]
    have same := findData_below (partOf_filled mem) address result ran
    rw [missing, Except.ok.injEq] at same
    exact same.symm
  · exact absurd (occurs_iff.mp least.1) (nowhere k)

variable {layout : Layout} {e : ScriptEngine} {m : Module} {dll : Dll}

theorem dword_sentinel (mem : Mem) :
    (mem.without FromSentinel).dword (notFound + 8) = .error .access ∧
      (mem.without FromSentinel).dword (notFound + 2) = .error .access := by
  have first : FromSentinel (notFound + 8) := ⟨0, by decide, Or.inl rfl⟩
  have second : FromSentinel (notFound + 2) := ⟨0, by decide, Or.inr rfl⟩
  exact ⟨Mem.dword_unmapped (mem.without_gone first), Mem.dword_unmapped (mem.without_gone second)⟩

theorem pattern_missing {mem : Mem} {base : UInt32} (image : MappedImage mem base)
    (absent : ∀ s ∈ image.sections, ∀ k, ¬ NeedleAt mem base s pattern_COleScript_Compile k) :
    findDataInDLL mem base (arrayPtr pattern_COleScript_Compile) 8 = .ok notFound :=
  findDataInDLL_absent image (by decide) absent

/-- Without the first pattern, the compile address is what stands behind the
sentinel. -/
theorem compileAddress_absent {mem : Mem} {base : UInt32} (image : MappedImage mem base)
    (absent : ∀ s ∈ image.sections, ∀ k, ¬ NeedleAt mem base s pattern_COleScript_Compile k) :
    compileAddress mem base = (do return (← mem.dword (notFound + 8)) + (notFound + 7 + 5)) := by
  rw [compileAddress, pattern_missing image absent, ok_bind]

/-- Without the memory there, no compile address is computed. -/
theorem compileAddress_missing {mem : Mem} {base : UInt32} (image : MappedImage mem base)
    (absent : ∀ s ∈ image.sections, ∀ k, ¬ NeedleAt mem base s pattern_COleScript_Compile k) (address : UInt32) :
    compileAddress (mem.without FromSentinel) base ≠ .ok address := by
  intro ran
  obtain ⟨index, searched, rest⟩ := bind_ok ran
  have index_eq := findDataInDLL_below (mem.without_partOf FromSentinel) base index searched
  rw [pattern_missing image absent, Except.ok.injEq] at index_eq
  subst index_eq
  rw [(dword_sentinel mem).1, error_bind] at rest
  cases rest

theorem parserAddress_missing {mem : Mem} {compile : UInt32}
    (absent : ∀ k, ¬ StandsIn mem compile 0x180 JScript.pattern_Parser_ParseSourceCall k) (address : UInt32) :
    JScript.parserAddress (mem.without FromSentinel) compile ≠ .ok address := by
  intro ran
  obtain ⟨index, searched, rest⟩ := bind_ok ran
  have whole : findData mem compile (0x180 : ℕ) (arrayPtr JScript.pattern_Parser_ParseSourceCall) 2 false =
      .ok index := findData_below (mem.without_partOf FromSentinel) compile index searched
  have index_eq : index = notFound := findData_absent (by decide) (by decide) absent whole
  subst index_eq
  rw [(dword_sentinel mem).2, error_bind] at rest
  cases rest

/-- So no target is found there if a signature is missing. -/
theorem target_missing (fails : SearchFails e m) (address : UInt32) :
    e.target (m.mem.without FromSentinel) m.base ≠ .ok address := by
  intro found
  cases fails with
  | compile image absent =>
    cases e with
    | vbScript => exact compileAddress_missing image absent address found
    | jScript =>
      obtain ⟨compile, first, _⟩ := bind_ok found
      exact compileAddress_missing image absent compile first
  | parser engine first absent =>
    subst engine
    obtain ⟨compile, again, second⟩ := bind_ok found
    have same := compileAddress_below (m.mem.without_partOf FromSentinel) m.base compile again
    rw [first, Except.ok.injEq] at same
    subst same
    exact parserAddress_missing absent address second

/-- **Failed searches.** No failed search is harmless: the callback either
depends on what stands behind the sentinel, or ends in a fault. -/
theorem failed_search_harms (layout : Layout) (dll : Dll) (named : m.name = e.dllName) (fails : SearchFails e m) :
    ¬ Harmless layout e m dll := by
  intro harmless
  obtain ⟨after, ran, _⟩ := harmless.unchanged
  rw [← harmless.blind (m.mem.without FromSentinel) fun _ outside => m.mem.without_other outside] at ran
  obtain ⟨address, found⟩ := e.target_of_callback (m := { m with mem := m.mem.without FromSentinel }) named ran
  exact target_missing fails address found

/-- An image of `vbscript.dll` without the pattern. -/
def sampleModule : Module := ⟨SectionSearch.sampleMem, 0x10000, 0x1000, .literal "vbscript.dll"⟩

theorem sample_absent : ∀ s ∈ SectionSearch.sampleImage.sections, ∀ k,
    ¬ NeedleAt SectionSearch.sampleMem 0x10000 s pattern_COleScript_Compile k := by
  intro s member k stands
  rw [List.mem_singleton.mp member] at stands
  have start : k = 0 := by
    have fits := stands.1
    simp only [pattern_COleScript_Compile, List.length_cons, List.length_nil] at fits
    change k + 8 ≤ 8 at fits
    omega
  subst start
  exact absurd (stands.2 0 (by decide)) (by decide)

theorem failed_search_harms_sample : ¬ Harmless sampleLayout .vbScript sampleModule .new :=
  failed_search_harms sampleLayout .new rfl (.compile SectionSearch.sampleImage sample_absent)

/-- There is nothing behind the sentinel in the sample, so the process ends. -/
theorem missing_pattern_faults :
    ¬ ∀ layout e (m : Module) dll, m.name = e.dllName → SearchFails e m → Harmless layout e m dll := by
  intro all
  obtain ⟨after, ran, _⟩ :=
    (all sampleLayout .vbScript sampleModule .new rfl (.compile SectionSearch.sampleImage sample_absent)).unchanged
  have nothing : SectionSearch.sampleMem.dword (notFound + 8) = .error .access := Mem.dword_unmapped (by decide)
  obtain ⟨address, found⟩ := ScriptEngine.vbScript.target_of_callback (m := sampleModule) rfl ran
  change compileAddress SectionSearch.sampleMem 0x10000 = .ok address at found
  rw [compileAddress_absent SectionSearch.sampleImage sample_absent, nothing, error_bind] at found
  cases found

end ClrDumper.FailedSearch
