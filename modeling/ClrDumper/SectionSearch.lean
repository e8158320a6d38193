import Mathlib.Data.Set.Basic
import ClrDumper.KmpProofs
import ClrDumper.MemoryUtils

/-! The search in a mapped image finds the first section, in table order, that
holds the needle, and the leftmost place in it. The sentinel for "not found" is
never the address of a match. -/
namespace ClrDumper.SectionSearch
open Execution Memory Borders Kmp KmpProofs MemoryUtils

/-- The fields of a section header that the search reads. -/
structure Section where
  virtualAddress : UInt32
  virtualSize : UInt32

/-- The header of a section stands at an address. -/
structure HeaderAt (mem : Mem) (header : UInt32) (s : Section) : Prop where
  name : ∃ bytes, mem.bytes header 8 = .ok bytes
  size : mem.dword (header + 8) = .ok s.virtualSize
  address : mem.dword (header + 12) = .ok s.virtualAddress

/-- A 32-bit image mapped at `base`: its headers and the section table behind
them are there, and so are the bytes of every section, none of which reaches
the last address of the address space. -/
structure MappedImage (mem : Mem) (base : UInt32) where
  e_lfanew : UInt32
  sections : List Section
  dosHeader : mem.dword (base + 0x3C) = .ok e_lfanew
  count : sections.length < 2 ^ 16
  numberOfSections : mem.word (base + e_lfanew + 6) = .ok (UInt32.ofNat sections.length)
  table : ∀ i s, sections[i]? = some s → HeaderAt mem (base + e_lfanew + 248 + 40 * UInt32.ofNat i) s
  size : ∀ s ∈ sections, s.virtualSize.toNat < 2 ^ 31
  bounded : ∀ s ∈ sections,
    base.toNat + s.virtualAddress.toNat + s.virtualSize.toNat ≤ 0xFFFFFFFF
  mapped : ∀ s ∈ sections, ∀ x < s.virtualSize.toNat,
    (mem.byteAt (base + s.virtualAddress + UInt32.ofNat x)).isSome

/-- The needle stands in a section at offset `k`, and ends inside it. -/
def NeedleAt (mem : Mem) (base : UInt32) (s : Section) (needle : List UInt8) (k : ℕ) : Prop :=
  k + needle.length ≤ s.virtualSize.toNat ∧ ∀ x (inside : x < needle.length),
    mem.byteAt (base + s.virtualAddress + UInt32.ofNat (k + x)) = some needle[x]

variable {mem : Mem} {base : UInt32} {needle : List UInt8} {s : Section}

/-- The address that the search computes for a header. -/
theorem sectionHeaderAt_eq (ntHeader : UInt32) (i : ℕ) :
    sectionHeaderAt (sizeofNtHeaders + ntHeader) i = ntHeader + 248 + 40 * UInt32.ofNat i := by
  rw [sectionHeaderAt, UInt32.add_comm sizeofNtHeaders]
  rfl

/-- What the search loop calls an occurrence is the needle standing in memory. -/
theorem occurs_iff {address : UInt32} {size k : ℕ} :
    k ∈ Occurrences (arrayPtr needle) (mem.ptr address) needle.length size ↔
      k + needle.length ≤ size ∧ ∀ x (inside : x < needle.length),
        mem.byteAt (address + UInt32.ofNat (k + x)) = some needle[x] := by
  refine and_congr Iff.rfl (forall_congr' fun x => ?_)
  constructor
  · intro agree inside
    have equal := agree inside
    rw [arrayPtr_getElem inside] at equal
    exact ptr_ok_iff.mp equal.symm
  · intro stands inside
    rw [arrayPtr_getElem inside]
    exact (ptr_ok_iff.mpr (stands inside)).symm

theorem asInt_small (small : s.virtualSize.toNat < 2 ^ 31) :
    asInt s.virtualSize = (s.virtualSize.toNat : ℤ) := by
  unfold asInt
  rw [Int.bmod_eq_of_le] <;> omega

theorem asUnsigned_natCast (k : ℕ) : asUnsigned k = UInt32.ofNat k := by
  unfold asUnsigned
  apply UInt32.toNat_inj.mp
  simp only [UInt32.toNat_ofNat']
  omega

/-- The address of a match lies below its section's end, so it is not the
sentinel. -/
theorem match_ne_notFound (nonempty : needle ≠ []) {k : ℕ} (stands : NeedleAt mem base s needle k)
    (bounded : base.toNat + s.virtualAddress.toNat + s.virtualSize.toNat ≤ 0xFFFFFFFF) :
    base + s.virtualAddress + UInt32.ofNat k ≠ notFound := by
  intro clash
  have positive := List.length_pos_iff.mpr nonempty
  have inside := stands.1
  have value := congrArg UInt32.toNat clash
  have sentinel : notFound.toNat = 0xFFFFFFFF := by decide
  simp only [UInt32.toNat_add, UInt32.toNat_ofNat', sentinel] at value
  omega

/-- The search in one section: the leftmost place of the needle, or `-1`. -/
theorem section_search (nonempty : needle ≠ []) (small : s.virtualSize.toNat < 2 ^ 31)
    (mapped : ∀ x < s.virtualSize.toNat,
      (mem.byteAt (base + s.virtualAddress + UInt32.ofNat x)).isSome) :
    ∃ index, kmpSearch (arrayPtr needle) needle.length (mem.ptr (base + s.virtualAddress))
        (asInt s.virtualSize) = .ok index ∧
      ((index = -1 ∧ ∀ k, ¬ NeedleAt mem base s needle k) ∨
        ∃ k : ℕ, index = k ∧ IsLeast {k | NeedleAt mem base s needle k} k) := by
  have readable : Readable (mem.ptr (base + s.virtualAddress)) s.virtualSize.toNat := by
    intro x below
    obtain ⟨byte, held⟩ := Option.isSome_iff_exists.mp (mapped x below)
    exact ⟨byte, ptr_ok_iff.mpr held⟩
  obtain ⟨index, ran, found⟩ := kmpSearch_spec (arrayPtr_readable needle)
    (List.length_pos_iff.mpr nonempty) readable
  have same : Occurrences (arrayPtr needle) (mem.ptr (base + s.virtualAddress)) needle.length
      s.virtualSize.toNat = {k | NeedleAt mem base s needle k} :=
    Set.ext fun _ => occurs_iff
  unfold SearchResult at found
  rw [same] at found
  refine ⟨index, by rw [asInt_small small]; exact ran, found.imp (fun absent => ?_) id⟩
  exact ⟨absent.1, fun k => Set.eq_empty_iff_forall_notMem.mp absent.2 k⟩

/-- The outcome of a search over the sections from entry `i` on. -/
def FirstMatch (mem : Mem) (base : UInt32) (needle : List UInt8) (sections : List Section) (i : ℕ)
    (address : UInt32) : Prop :=
  (address = notFound ∧ ∀ n s, i ≤ n → sections[n]? = some s → ∀ k, ¬ NeedleAt mem base s needle k) ∨
    ∃ n s k, i ≤ n ∧ sections[n]? = some s ∧ IsLeast {k | NeedleAt mem base s needle k} k ∧
      address = base + s.virtualAddress + UInt32.ofNat k ∧
      ∀ n' s', i ≤ n' → n' < n → sections[n']? = some s' → ∀ k', ¬ NeedleAt mem base s' needle k'

theorem searchSections_spec (image : MappedImage mem base) (nonempty : needle ≠ []) (remaining : ℕ) :
    ∀ i, i + remaining = image.sections.length →
      ∃ address, searchSections mem base (sizeofNtHeaders + (base + image.e_lfanew))
          (arrayPtr needle) needle.length remaining i = .ok address ∧
        FirstMatch mem base needle image.sections i address := by
  induction remaining with
  | zero =>
    intro i finished
    refine ⟨notFound, rfl, Or.inl ⟨rfl, fun n s later present => ?_⟩⟩
    have inside := (List.getElem?_eq_some_iff.mp present).1
    omega
  | succ remaining ih =>
    intro i left
    have inside : i < image.sections.length := by omega
    have present : image.sections[i]? = some image.sections[i] := List.getElem?_eq_getElem inside
    have member : image.sections[i] ∈ image.sections := List.getElem_mem inside
    have header := image.table i _ present
    rw [← sectionHeaderAt_eq] at header
    obtain ⟨name, readName⟩ := header.name
    obtain ⟨index, searched, outcome⟩ := section_search nonempty
      (image.size _ member) (image.mapped _ member)
    rcases outcome with ⟨rfl, absent⟩ | ⟨k, rfl, least⟩
    · obtain ⟨address, ran, found⟩ := ih (i + 1) (by omega)
      refine ⟨address, by simp [searchSections, readName, header.size, header.address, searched, ran], ?_⟩
      have here : ∀ s, image.sections[i]? = some s → ∀ k, ¬ NeedleAt mem base s needle k := by
        intro s same
        rw [present, Option.some.injEq] at same
        exact same ▸ absent
      rcases found with ⟨missing, rest⟩ | ⟨n, s, k, later, at_n, least, value, before⟩
      · refine Or.inl ⟨missing, fun n s low at_n => ?_⟩
        rcases Nat.eq_or_lt_of_le low with rfl | high
        · exact here s at_n
        · exact rest n s high at_n
      · refine Or.inr ⟨n, s, k, by omega, at_n, least, value, fun n' s' low high at_n' => ?_⟩
        rcases Nat.eq_or_lt_of_le low with rfl | above
        · exact here s' at_n'
        · exact before n' s' above high at_n'
    · have found : (k : ℤ) ≠ -1 := by omega
      refine ⟨asUnsigned k + (base + image.sections[i].virtualAddress), ?_,
        Or.inr ⟨i, _, k, Nat.le_refl _, present, least, ?_, ?_⟩⟩
      · simp [searchSections, readName, header.size, header.address, searched, found]
      · rw [asUnsigned_natCast, UInt32.add_comm]
      · intro n' s' low high
        omega

theorem findDataInDLL_spec (image : MappedImage mem base) (nonempty : needle ≠ []) :
    ∃ address, findDataInDLL mem base (arrayPtr needle) needle.length = .ok address ∧
      FirstMatch mem base needle image.sections 0 address := by
  obtain ⟨address, ran, found⟩ := searchSections_spec image nonempty image.sections.length 0 (by omega)
  have count : (UInt32.ofNat image.sections.length).toNat = image.sections.length := by
    have small := image.count
    rw [UInt32.toNat_ofNat']
    omega
  exact ⟨address, by simp [findDataInDLL, image.dosHeader, image.numberOfSections, count, ran], found⟩

/-- The needle's first place, in table order and leftmost in its section, is what
the search returns. -/
theorem findDataInDLL_found (image : MappedImage mem base) (nonempty : needle ≠ []) {n k : ℕ}
    (at_n : image.sections[n]? = some s) (least : IsLeast {k | NeedleAt mem base s needle k} k)
    (before : ∀ (n' : ℕ) s', n' < n → image.sections[n']? = some s' → ∀ k', ¬ NeedleAt mem base s' needle k') :
    findDataInDLL mem base (arrayPtr needle) needle.length =
      .ok (base + s.virtualAddress + UInt32.ofNat k) := by
  obtain ⟨address, ran, ⟨_, absent⟩ | ⟨n', s', k', _, at_n', least', value, before'⟩⟩ :=
    findDataInDLL_spec image nonempty
  · exact absurd least.1 (absent n s (Nat.zero_le _) at_n k)
  · have order : n' = n := by
      rcases Nat.lt_trichotomy n' n with earlier | same | later
      · exact absurd least'.1 (before n' s' earlier at_n' k')
      · exact same
      · exact absurd least.1 (before' n s (Nat.zero_le _) later at_n k)
    subst order
    rw [at_n, Option.some.injEq] at at_n'
    subst at_n'
    rw [ran, value, least.unique least']

theorem findDataInDLL_absent (image : MappedImage mem base) (nonempty : needle ≠ [])
    (absent : ∀ s ∈ image.sections, ∀ k, ¬ NeedleAt mem base s needle k) :
    findDataInDLL mem base (arrayPtr needle) needle.length = .ok notFound := by
  obtain ⟨address, ran, ⟨missing, _⟩ | ⟨n, s, k, _, at_n, least, _⟩⟩ := findDataInDLL_spec image nonempty
  · rw [ran, missing]
  · exact absurd least.1 (absent s (List.mem_of_getElem? at_n) k)

/-- `FindDataInDLL` returns the address of the first match in table order and
leftmost in its section, and the sentinel exactly when no section holds the
needle. The address of a match is never the sentinel. -/
theorem findDataInDLL_exact (image : MappedImage mem base) (needle : List UInt8) (nonempty : needle ≠ []) :
    ∃ address, findDataInDLL mem base (arrayPtr needle) needle.length = .ok address ∧
      (∀ (n : ℕ) s k, image.sections[n]? = some s → IsLeast {k | NeedleAt mem base s needle k} k →
        (∀ (n' : ℕ) s', n' < n → image.sections[n']? = some s' → ∀ k', ¬ NeedleAt mem base s' needle k') →
        address = base + s.virtualAddress + UInt32.ofNat k ∧ address ≠ 0xFFFFFFFF) ∧
      (address = 0xFFFFFFFF ↔ ∀ s ∈ image.sections, ∀ k, ¬ NeedleAt mem base s needle k) := by
  obtain ⟨address, ran, found⟩ := findDataInDLL_spec image nonempty
  have sentinel : (0xFFFFFFFF : UInt32) = notFound := by decide
  rw [sentinel]
  refine ⟨address, ran, fun n s k at_n least before => ?_, fun missing s member k stands => ?_, fun absent => ?_⟩
  · have place := findDataInDLL_found image nonempty at_n least before
    rw [ran, Except.ok.injEq] at place
    have member := List.mem_of_getElem? at_n
    exact ⟨place, place ▸ match_ne_notFound nonempty least.1 (image.bounded s member)⟩
  · rcases found with ⟨_, absent⟩ | ⟨n, s', k', _, at_n, least, value, _⟩
    · obtain ⟨n, at_n⟩ := List.mem_iff_getElem?.mp member
      exact absent n s (Nat.zero_le _) at_n k stands
    · exact match_ne_notFound nonempty least.1 (image.bounded s' (List.mem_of_getElem? at_n)) (value ▸ missing)
  · have missing := findDataInDLL_absent image nonempty absent
    rw [ran, Except.ok.injEq] at missing
    exact missing

/-- A table with one header. -/
theorem single_header {place : ℕ → UInt32} (only : HeaderAt mem (place 0) s) :
    ∀ (i : ℕ) t, [s][i]? = some t → HeaderAt mem (place i) t := by
  intro i t present
  cases i with
  | zero =>
    cases present
    exact only
  | succ i => cases present

theorem sampleSections_count : [(⟨0x160, 8⟩ : Section)].length < 2 ^ 16 := by
  decide

theorem sampleSections_size : ∀ s ∈ [(⟨0x160, 8⟩ : Section)], s.virtualSize.toNat < 2 ^ 31 := by
  simp

theorem sampleSections_bounded : ∀ s ∈ [(⟨0x160, 8⟩ : Section)],
    (0x10000 : UInt32).toNat + s.virtualAddress.toNat + s.virtualSize.toNat ≤ 0xFFFFFFFF := by
  simp

/-- A page that holds an image with one section, and nothing else mapped: the
NT headers at `0x40` of it and eight bytes of code at `0x160`. -/
def sampleMem : Mem where
  byteAt address :=
    match (address - 0x10000).toNat with
    | 0x3C => some 0x40
    | 0x46 => some 1
    | 0x140 => some 8
    | 0x144 => some 0x60
    | 0x145 => some 0x01
    | 0x162 => some 0x50
    | 0x163 => some 0xE8
    | offset => if offset < 0x168 then some 0 else none

def sampleImage : MappedImage sampleMem 0x10000 where
  e_lfanew := 0x40
  sections := [⟨0x160, 8⟩]
  dosHeader := by decide
  count := sampleSections_count
  numberOfSections := by decide
  table := by
    apply single_header
    exact ⟨⟨[0, 0, 0, 0, 0, 0, 0, 0], by decide⟩, by decide, by decide⟩
  size := sampleSections_size
  bounded := sampleSections_bounded
  mapped := by
    intro s member
    rw [List.mem_singleton] at member
    subst member
    decide

/-- An image with two sections, at `0x190` and at `0x198`. The first ends with the
byte that the needle `50 E8` begins with. -/
def tableMem : Mem where
  byteAt address :=
    match (address - 0x10000).toNat with
    | 0x3C => some 0x40
    | 0x46 => some 2
    | 0x140 => some 8
    | 0x144 => some 0x90
    | 0x145 => some 0x01
    | 0x168 => some 8
    | 0x16C => some 0x98
    | 0x16D => some 0x01
    | 0x197 => some 0x50
    | 0x19A => some 0x50
    | 0x19B => some 0xE8
    | offset => if offset < 0x1A0 then some 0 else none

def tableImage : MappedImage tableMem 0x10000 where
  e_lfanew := 0x40
  sections := [⟨0x190, 8⟩, ⟨0x198, 8⟩]
  dosHeader := by decide
  count := by decide
  numberOfSections := by decide
  table := by
    intro i s present
    match i with
    | 0 =>
      cases present
      exact ⟨⟨[0, 0, 0, 0, 0, 0, 0, 0], by decide⟩, by decide, by decide⟩
    | 1 =>
      cases present
      exact ⟨⟨[0, 0, 0, 0, 0, 0, 0, 0], by decide⟩, by decide, by decide⟩
    | i + 2 => cases present
  size := by decide
  bounded := by decide
  mapped := by decide

instance (mem : Mem) (base : UInt32) (s : Section) (needle : List UInt8) (k : ℕ) :
    Decidable (NeedleAt mem base s needle k) := inferInstanceAs (Decidable (_ ∧ _))

theorem findDataInDLL_exact_sample : findDataInDLL tableMem 0x10000 (arrayPtr [0x50, 0xE8]) 2 = .ok 0x1019A := by
  obtain ⟨address, ran, found, _⟩ := findDataInDLL_exact tableImage [0x50, 0xE8] (by decide)
  have first : ∀ k, ¬ NeedleAt tableMem 0x10000 ⟨0x190, 8⟩ [0x50, 0xE8] k := by
    intro k stands
    have inside : k < 7 := Nat.lt_of_succ_le (Nat.le_of_succ_le_succ stands.1)
    have nowhere : ∀ k < 7, ¬ NeedleAt tableMem 0x10000 ⟨0x190, 8⟩ [0x50, 0xE8] k := by decide
    exact nowhere k inside stands
  have least : IsLeast {k | NeedleAt tableMem 0x10000 ⟨0x198, 8⟩ [0x50, 0xE8] k} 2 := by
    have there : NeedleAt tableMem 0x10000 ⟨0x198, 8⟩ [0x50, 0xE8] 2 := by decide
    have earlier : ∀ k < 2, ¬ NeedleAt tableMem 0x10000 ⟨0x198, 8⟩ [0x50, 0xE8] k := by decide
    exact ⟨there, fun k stands => Nat.le_of_not_lt fun before => earlier k before stands⟩
  obtain ⟨place, _⟩ := found 1 ⟨0x198, 8⟩ 2 rfl least fun n' s' before present k' => by
    obtain rfl : n' = 0 := Nat.lt_one_iff.mp before
    cases present
    exact first k'
  rw [place] at ran
  exact ran

end ClrDumper.SectionSearch
