import ClrDumper.KmpProofs
import ClrDumper.MemoryUtils

/-! Where a pattern has no `?`, the wildcard search is the plain one: their
comparisons give the same answers on every byte that they are asked about, so
the two tables and the two searches run in step, also where a text byte is a
`?` or cannot be read. -/
namespace ClrDumper.WildcardAgreement
open Execution Memory Kmp KmpLoops KmpProofs MemoryUtils

/-- No byte of the pattern is a `?`. -/
def Literal (pat : BytePtr) : Prop := ∀ x, pat x ≠ .ok WILDCARD

variable {pat txt : BytePtr} {M : ℕ} {N : ℤ}

theorem literal_array {needle : List UInt8} (absent : WILDCARD ∉ needle) : Literal (arrayPtr needle) :=
  fun _ read => absent (List.mem_of_getElem? (arrayPtr_ok_iff.mp read))

theorem same_eq {a b : UInt8} (first : a ≠ WILDCARD) (second : b ≠ WILDCARD) : sameByteWild a b = sameByte a b := by
  rw [← beq_eq_false_iff_ne] at first second
  simp only [sameByteWild, sameByte, first, second, Bool.or_false]

theorem hit_eq {p t : UInt8} (literal : p ≠ WILDCARD) : hitWild p t = sameByte p t := by
  rw [← beq_eq_false_iff_ne] at literal
  simp only [hitWild, sameByte, literal, Bool.or_false]

/-- A pass of the one table loop is a pass of the other. -/
theorem tablePass_eq (literal : Literal pat) (s : TableState) :
    tablePass sameByteWild pat M s = tablePass sameByte pat M s := by
  unfold tablePass
  cases here : pat s.i with
  | error fault => rfl
  | ok a =>
    cases prior : pat s.len with
    | error fault => rfl
    | ok b =>
      have equal : sameByteWild a b = sameByte a b :=
        same_eq (fun wild => literal s.i (wild ▸ here)) fun wild => literal s.len (wild ▸ prior)
      simp only [ok_bind, equal]

/-- And a pass of the one search loop is a pass of the other. -/
theorem searchPass_eq (literal : Literal pat) (lps : IntBlock) (s : SearchState) :
    searchPass hitWild pat M txt N lps s = searchPass sameByte pat M txt N lps s := by
  unfold searchPass
  cases here : pat s.j with
  | error fault => rfl
  | ok p =>
    have equal : ∀ t, hitWild p t = sameByte p t := fun t => hit_eq fun wild => literal s.j (wild ▸ here)
    simp only [ok_bind, equal]

theorem table_eq (literal : Literal pat) (block : IntBlock) :
    computeLPSArrayWild pat M block = computeLPSArray pat M block := by
  have passes : tablePass sameByteWild pat M = tablePass sameByte pat M := funext (tablePass_eq literal)
  simp only [computeLPSArrayWild, computeLPSArray, computeLPSArrayWith, passes]

theorem search_eq (literal : Literal pat) (txt : BytePtr) (N : ℤ) :
    kmpSearchWild pat M txt N = kmpSearch pat M txt N := by
  have tables : ∀ block, computeLPSArrayWild pat M block = computeLPSArray pat M block := table_eq literal
  have passes : ∀ lps, searchPass hitWild pat M txt N lps = searchPass sameByte pat M txt N lps :=
    fun lps => funext (searchPass_eq literal lps)
  unfold computeLPSArrayWild computeLPSArray at tables
  simp only [kmpSearchWild, kmpSearch, searchWith, tables, passes]

/-- The plain search gives a value on every text that can be read. A length below
zero is that of no text. -/
theorem kmpSearch_returns (readable : Readable pat M) (nonempty : 0 < M) (text : Readable txt N.toNat) :
    ∃ index, kmpSearch pat M txt N = .ok index := by
  have bound : ∀ i : ℕ, (i : ℤ) < N ↔ (i : ℤ) < (N.toNat : ℤ) := fun i => by omega
  have same : kmpSearch pat M txt N = kmpSearch pat M txt (N.toNat : ℤ) := by
    have passes : ∀ lps, searchPass sameByte pat M txt N lps = searchPass sameByte pat M txt (N.toNat : ℤ) lps := by
      intro lps
      funext s
      simp only [searchPass, fallBack, bound]
    simp only [kmpSearch, searchWith, passes, Int.toNat_natCast]
  obtain ⟨index, ran, _⟩ := kmpSearch_spec readable nonempty text
  exact ⟨index, same.trans ran⟩

/-- **Agreement.** For a pattern without a `?`, both tables are completed and
have the same entries, and `FindData` does the same with and without wildcards,
wherever the text lies and whatever it holds. On a text that can be read it
returns one value. -/
theorem findData_agree (mem : Mem) (address : UInt32) (address_len : ℤ) (needle : List UInt8)
    (nonempty : needle ≠ []) (absent : WILDCARD ∉ needle) :
    (∃ plain wild, computeLPSArray (arrayPtr needle) needle.length (tableBlock needle.length) = .ok plain ∧
        computeLPSArrayWild (arrayPtr needle) needle.length (tableBlock needle.length) = .ok wild ∧
        ∀ i < needle.length, ∃ l, plain.get i = .ok l ∧ wild.get i = .ok l) ∧
      findData mem address address_len (arrayPtr needle) needle.length true =
        findData mem address address_len (arrayPtr needle) needle.length false ∧
      (Readable (mem.ptr address) address_len.toNat →
        ∃ value, findData mem address address_len (arrayPtr needle) needle.length true = .ok value ∧
          findData mem address address_len (arrayPtr needle) needle.length false = .ok value) := by
  have literal := literal_array absent
  have positive := List.length_pos_iff.mpr nonempty
  obtain ⟨lps, built, filled, size⟩ := computeLPSArray_fills sameByte (arrayPtr_readable needle) positive
    (tableBlock needle.length) (Nat.le_refl _)
  have equal : findData mem address address_len (arrayPtr needle) needle.length true =
      findData mem address address_len (arrayPtr needle) needle.length false := by
    simp only [findData, search_eq literal, if_true, Bool.false_eq_true, if_false]
  refine ⟨⟨lps, lps, built, ?_, fun i inside => ?_⟩, equal, fun readable => ?_⟩
  · rw [table_eq literal]
    exact built
  · have got := get_entry filled (Nat.le_of_eq size.symm) inside
    exact ⟨entry lps i, got, got⟩
  · obtain ⟨index, ran⟩ := kmpSearch_returns (arrayPtr_readable needle) positive readable
    have value : ∃ value, findData mem address address_len (arrayPtr needle) needle.length false = .ok value := by
      simp only [findData, Bool.false_eq_true, if_false, ran, ok_bind]
      split
      · exact ⟨_, rfl⟩
      · exact ⟨_, rfl⟩
    obtain ⟨value, found⟩ := value
    exact ⟨value, equal.trans found, found⟩

/-- `ab` in a text that holds a `?` before it, at the address 1. -/
theorem findData_agree_sample :
    (∃ plain wild, computeLPSArray (arrayPtr [97, 98]) 2 (tableBlock 2) = .ok plain ∧
        computeLPSArrayWild (arrayPtr [97, 98]) 2 (tableBlock 2) = .ok wild ∧
        ∀ i < 2, ∃ l, plain.get i = .ok l ∧ wild.get i = .ok l) ∧
      findData ⟨fun address => [63, 97, 98][address.toNat - 1]?⟩ 1 3 (arrayPtr [97, 98]) 2 true =
        findData ⟨fun address => [63, 97, 98][address.toNat - 1]?⟩ 1 3 (arrayPtr [97, 98]) 2 false ∧
      (Readable (Mem.ptr ⟨fun address => [63, 97, 98][address.toNat - 1]?⟩ 1) 3 →
        ∃ value, findData ⟨fun address => [63, 97, 98][address.toNat - 1]?⟩ 1 3 (arrayPtr [97, 98]) 2 true =
            .ok value ∧
          findData ⟨fun address => [63, 97, 98][address.toNat - 1]?⟩ 1 3 (arrayPtr [97, 98]) 2 false = .ok value) :=
  findData_agree _ 1 3 [97, 98] (by decide) (by decide)

end ClrDumper.WildcardAgreement
