import ClrDumper.HookClrProofs
import ClrDumper.SectionSearch

/-! The addresses that the script hooks are put on. The first pattern ends with
the opcode of a call and the second one is pushed before a call, so the operands
stand at different offsets; both decodings give the function that is called. -/
namespace ClrDumper.CallTargets
open Execution Memory Borders Kmp KmpProofs MemoryUtils SectionSearch HookClr HookClrProofs

/-- The four bytes at `operand` are the displacement of a call to `callee`,
counted from the instruction behind them. -/
def CallsFrom (mem : Mem) (operand callee : UInt32) : Prop := mem.Holds32 operand (callee - (operand + 4))

instance (mem : Mem) (operand callee : UInt32) : Decidable (CallsFrom mem operand callee) :=
  inferInstanceAs (Decidable (Mem.Holds32 _ _ _))

/-- The needle stands at offset `k` of `size` bytes in memory. -/
def StandsIn (mem : Mem) (address : UInt32) (size : ℕ) (needle : List UInt8) (k : ℕ) : Prop :=
  k + needle.length ≤ size ∧ ∀ x (inside : x < needle.length),
    mem.byteAt (address + UInt32.ofNat (k + x)) = some needle[x]

/-- The first place of `pattern_COleScript_Compile` in an image: the first
section that holds it, and the leftmost offset there. -/
structure FirstPattern {mem : Mem} {base : UInt32} (image : MappedImage mem base) (address : UInt32) where
  index : ℕ
  holder : Section
  offset : ℕ
  present : image.sections[index]? = some holder
  least : IsLeast {k | NeedleAt mem base holder pattern_COleScript_Compile k} offset
  before : ∀ (n : ℕ) s, n < index → image.sections[n]? = some s →
    ∀ k, ¬ NeedleAt mem base s pattern_COleScript_Compile k
  address_eq : address = base + holder.virtualAddress + UInt32.ofNat offset

variable {mem : Mem} {base : UInt32} {callee : UInt32}

theorem decode_calls {operand : UInt32} (calls : CallsFrom mem operand callee) :
    mem.dword operand = .ok (callee - (operand + 4)) := Mem.dword_holds calls

/-- The operand stands at offset 8 of the first pattern. -/
theorem compileAddress_callee {image : MappedImage mem base} {p : UInt32} (first : FirstPattern image p)
    (calls : CallsFrom mem (p + 8) callee) : compileAddress mem base = .ok callee := by
  have found : findDataInDLL mem base (arrayPtr pattern_COleScript_Compile) 8 = .ok p := by
    rw [first.address_eq]
    exact findDataInDLL_found image (by decide) first.present first.least first.before
  have next : p + 7 + 5 = p + 8 + 4 := by
    rw [UInt32.add_assoc, UInt32.add_assoc]
    rfl
  simp only [compileAddress, found, ok_bind, decode_calls calls, pure_ok, next, UInt32.sub_add_cancel]

/-- The search for the second pattern needs no memory behind its first place. -/
theorem findData_found {address : UInt32} {needle : List UInt8} (nonempty : needle ≠ []) {size k : ℕ}
    (least : IsLeast {k | StandsIn mem address size needle k} k)
    (mapped : ∀ x < k + needle.length, (mem.byteAt (address + UInt32.ofNat x)).isSome) :
    findData mem address size (arrayPtr needle) needle.length false = .ok (address + UInt32.ofNat k) := by
  have places : Occurrences (arrayPtr needle) (mem.ptr address) needle.length size =
      {k | StandsIn mem address size needle k} := Set.ext fun _ => occurs_iff
  have text : ∀ y < size, (∀ c ∈ Occurrences (arrayPtr needle) (mem.ptr address) needle.length size,
      y < c + needle.length) → ∃ t, mem.ptr address y = .ok t := by
    intro y _ near
    obtain ⟨byte, held⟩ := Option.isSome_iff_exists.mp (mapped y (near k (places ▸ least.1)))
    exact ⟨byte, ptr_ok_iff.mpr held⟩
  obtain ⟨result, ran, found⟩ :=
    kmpSearch_reads (arrayPtr_readable needle) (List.length_pos_iff.mpr nonempty) text
  unfold SearchResult at found
  rw [places] at found
  rcases found with ⟨_, absent⟩ | ⟨c, rfl, leftmost⟩
  · exact absurd least.1 (Set.eq_empty_iff_forall_notMem.mp absent k)
  · have here : (c : ℤ) ≠ -1 := by omega
    rw [leftmost.unique least] at *
    simp [findData, ran, here, asUnsigned_natCast]

/-- The operand stands at offset 2 of the second pattern. -/
theorem parserAddress_callee {compile : UInt32} {q : ℕ}
    (least : IsLeast {k | StandsIn mem compile 0x180 JScript.pattern_Parser_ParseSourceCall k} q)
    (mapped : ∀ x < q + 2, (mem.byteAt (compile + UInt32.ofNat x)).isSome)
    (calls : CallsFrom mem (compile + UInt32.ofNat q + 2) callee) :
    JScript.parserAddress mem compile = .ok callee := by
  have found : findData mem compile (0x180 : ℕ) (arrayPtr JScript.pattern_Parser_ParseSourceCall) 2 false =
      .ok (compile + UInt32.ofNat q) := findData_found (by decide) least mapped
  have next : compile + UInt32.ofNat q + 1 + 5 = compile + UInt32.ofNat q + 2 + 4 := by
    rw [UInt32.add_assoc _ 1, UInt32.add_assoc _ 2]
    rfl
  change (do
    let index ← findData mem compile (0x180 : ℕ) (arrayPtr JScript.pattern_Parser_ParseSourceCall) 2 false
    return (← mem.dword (index + 2)) + (index + 1 + 5)) = _
  rw [found, ok_bind, decode_calls calls, ok_bind, next, UInt32.sub_add_cancel]
  rfl

/-- **The targets.** If the first pattern stands first at `p` and its operand
calls `callee`, then `HookVbScript` hooks `callee`; and if the second pattern
stands first at offset `q` of the bytes there and its operand calls `parser`,
then `HookJScript` records `parser` and hooks it. -/
theorem hooks_callee (layout : Layout) (dll : Dll) (image : MappedImage mem base) {p : UInt32}
    (first : FirstPattern image p) (calls : CallsFrom mem (p + 8) callee) :
    VBScript.hookVbScript layout mem base dll = .ok (dll.install layout callee .vbScript) ∧
      ∀ q parser, IsLeast {k | StandsIn mem callee 0x180 JScript.pattern_Parser_ParseSourceCall k} q →
        (∀ x < q + 2, (mem.byteAt (callee + UInt32.ofNat x)).isSome) →
        CallsFrom mem (callee + UInt32.ofNat q + 2) parser →
          JScript.hookJScript layout mem base dll =
            .ok (Dll.install layout
              { dll with jScriptCompileAddress := callee, jScriptParserAddress := parser } parser .jScript) := by
  have compile := compileAddress_callee first calls
  refine ⟨by simp [VBScript.hookVbScript, compile], fun q parser least mapped second => ?_⟩
  simp [JScript.hookJScript, compile, parserAddress_callee least mapped second]

/-- A page that holds an image with one section, and code behind it: a call
forward to `0x10170`, and there one back to `0x10100`. -/
def sampleMem : Mem where
  byteAt address :=
    match (address - 0x10000).toNat with
    | 0x3C => some 0x40
    | 0x46 => some 1
    | 0x140 => some 8
    | 0x144 => some 0x60
    | 0x145 => some 0x01
    | 0x160 => some 0xFF
    | 0x161 => some 0x75
    | 0x162 => some 0xFC
    | 0x163 => some 0xFF
    | 0x164 => some 0x75
    | 0x165 => some 0x08
    | 0x166 => some 0x50
    | 0x167 => some 0xE8
    | 0x168 => some 0x04
    | 0x170 => some 0x50
    | 0x171 => some 0xE8
    | 0x172 => some 0x8A
    | 0x173 => some 0xFF
    | 0x174 => some 0xFF
    | 0x175 => some 0xFF
    | offset => if offset < 0x1000 then some 0 else none

def sampleImage : MappedImage sampleMem 0x10000 where
  e_lfanew := 0x40
  sections := [⟨0x160, 8⟩]
  dosHeader := by decide
  count := sampleSections_count
  numberOfSections := by decide
  table := by
    apply single_header
    exact ⟨⟨[0, 0, 0, 0, 0, 0, 0, 0], by decide⟩, by decide, by decide⟩
  size := sampleSections_size
  bounded := sampleSections_bounded
  mapped := by
    intro s member
    rw [List.mem_singleton] at member
    subst member
    decide

def sampleFirst : FirstPattern sampleImage 0x10160 where
  index := 0
  holder := ⟨0x160, 8⟩
  offset := 0
  present := rfl
  least := ⟨⟨by decide, by decide⟩, fun k _ => Nat.zero_le k⟩
  before n _ below := absurd below (Nat.not_lt_zero n)
  address_eq := by decide

theorem hooks_callee_sample :
    VBScript.hookVbScript sampleLayout sampleMem 0x10000 .new =
        .ok (Dll.new.install sampleLayout 0x10170 .vbScript) ∧
      JScript.hookJScript sampleLayout sampleMem 0x10000 .new = .ok (Dll.install sampleLayout
        { Dll.new with jScriptCompileAddress := 0x10170, jScriptParserAddress := 0x10100 } 0x10100 .jScript) := by
  have calls : CallsFrom sampleMem (0x10160 + 8) 0x10170 := by decide
  have both := hooks_callee sampleLayout .new sampleImage sampleFirst calls
  exact ⟨both.1, both.2 0 0x10100 ⟨⟨by decide, by decide⟩, fun k _ => Nat.zero_le k⟩ (by decide) (by decide)⟩

end ClrDumper.CallTargets
