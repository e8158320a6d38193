import ClrDumper.WildcardSearch

/-! The wildcard search stops on every pattern and every text, wherever the `?`
stand. A byte that a `?` accepts may be compared again at once and rejected, so
a pass can raise `i` and lower `j` in one go; `2 * i - j` goes up in any case,
because no entry of the table is above its index. -/
namespace ClrDumper.WildcardTermination
open Execution Memory Kmp KmpLoops WildcardSearch

/-- The index of a place where the pattern lies inside the text, or `-1`. -/
def InText (M N : ℕ) (result : ℤ) : Prop := result = -1 ∨ (0 ≤ result ∧ result ≤ (N : ℤ) - M)

/-- Nothing else than the ranges of `i` and `j` is needed for that. -/
theorem inText_rule (hit : UInt8 → UInt8 → Bool) (pat txt : List UInt8) (T : ℕ → ℕ) :
    SearchRule hit (arrayPtr pat) (arrayPtr txt) pat.length txt.length T (fun _ _ => True)
      (InText pat.length txt.length) := by
  constructor
  case start => trivial
  case text => exact fun _ _ y within _ => arrayPtr_readable txt y within
  case found =>
    intro i j inside below full _ _
    right
    omega
  case advance => exact fun _ _ _ _ _ _ => trivial
  case drop => exact fun _ _ _ _ _ _ => trivial
  case move => exact fun _ _ _ _ => trivial
  case back => exact fun _ _ _ _ _ _ => trivial
  case out => exact fun _ _ _ => Or.inl rfl

/-- **Termination.** On every pattern that is not empty and every text, the table
is completed with no entry above its index, the search comes to a result without
an access out of range, `j` never exceeds `i` in its loop, and the result is `-1`
or the index of a place inside the text. -/
theorem kmpSearchWild_stops (pat txt : List UInt8) (nonempty : pat ≠ []) :
    ∃ lps result,
      computeLPSArrayWild (arrayPtr pat) pat.length (tableBlock pat.length) = .ok lps ∧
      (∀ i < pat.length, ∃ l ≤ i, lps.get i = .ok l) ∧
      (∀ s, Visits (searchPass hitWild (arrayPtr pat) pat.length (arrayPtr txt) txt.length lps) ⟨0, 0⟩ s →
        s.j ≤ s.i ∧ s.j < pat.length ∧ s.i ≤ txt.length) ∧
      kmpSearchWild (arrayPtr pat) pat.length (arrayPtr txt) txt.length = .ok result ∧
      (result = -1 ∨ (0 ≤ result ∧ result ≤ (txt.length : ℤ) - pat.length)) := by
  have positive := List.length_pos_iff.mpr nonempty
  obtain ⟨lps, built, filled, size⟩ := computeLPSArray_fills sameByteWild (arrayPtr_readable pat) positive
    (tableBlock pat.length) (Nat.le_refl _)
  have room : 4 * pat.length ≤ lps.bytes := Nat.le_of_eq size.symm
  have equal : ∀ p, hitWild p p = true := fun p => by simp [hitWild]
  have rule := inText_rule hitWild pat txt (entry lps)
  obtain ⟨result, ran, inText⟩ := search_total equal (arrayPtr_readable pat) positive filled room rule
  refine ⟨lps, result, built, fun i inside => ?_, fun s visits => ?_, ?_, inText⟩
  · exact ⟨entry lps i, entry_le filled inside, get_entry filled room inside⟩
  · have start : Searching pat.length txt.length (fun _ _ => True) ⟨0, 0⟩ :=
      ⟨Nat.zero_le _, Nat.le_refl _, positive, trivial⟩
    have searching := visits_invariant
      (searchPass_keeps equal (arrayPtr_readable pat) filled room rule) start visits
    exact ⟨searching.matched, searching.short, searching.position⟩
  · simpa [kmpSearchWild, searchWith, computeLPSArrayWild, built] using ran

/-- `?a?` in `ab`: the search falls back after a match, and the text runs out. -/
theorem kmpSearchWild_stops_sample :
    ∃ lps result,
      computeLPSArrayWild (arrayPtr [63, 97, 63]) 3 (tableBlock 3) = .ok lps ∧
      (∀ i < 3, ∃ l ≤ i, lps.get i = .ok l) ∧
      (∀ s, Visits (searchPass hitWild (arrayPtr [63, 97, 63]) 3 (arrayPtr [97, 98]) 2 lps) ⟨0, 0⟩ s →
        s.j ≤ s.i ∧ s.j < 3 ∧ s.i ≤ 2) ∧
      kmpSearchWild (arrayPtr [63, 97, 63]) 3 (arrayPtr [97, 98]) 2 = .ok result ∧
      (result = -1 ∨ (0 ≤ result ∧ result ≤ (2 : ℤ) - 3)) :=
  kmpSearchWild_stops [63, 97, 63] [97, 98] (by decide)

end ClrDumper.WildcardTermination
