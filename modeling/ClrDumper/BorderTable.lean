import ClrDumper.KmpProofs

/-! What `computeLPSArray` leaves in its table, said on the pattern as a list of
bytes: entry `i` is the length of the longest proper prefix of the first `i + 1`
bytes that is also their suffix. -/
namespace ClrDumper.BorderTable
open Execution Memory Borders Kmp KmpLoops KmpProofs

variable {pat : List UInt8}

theorem arrayPtr_eq_iff {x y : ℕ} : arrayPtr pat x = arrayPtr pat y ↔ pat[x]? = pat[y]? := by
  unfold arrayPtr
  cases pat[x]? <;> cases pat[y]? <;> simp

/-- A border of the first `n` bytes, in terms of lists. -/
theorem border_iff_suffix {n l : ℕ} (inside : n ≤ pat.length) :
    Border (arrayPtr pat) n l ↔ l < n ∧ pat.take l <:+ pat.take n := by
  apply and_congr_right
  intro shorter
  have sizes : (pat.take n).length - (pat.take l).length = n - l := by
    rw [List.length_take_of_le inside, List.length_take_of_le (by omega)]
  rw [List.suffix_iff_eq_drop, sizes]
  constructor
  · intro agree
    apply List.ext_getElem?
    intro x
    rw [List.getElem?_drop, List.getElem?_take, List.getElem?_take]
    by_cases below : x < l
    · rw [if_pos below, if_pos (by omega)]
      exact arrayPtr_eq_iff.mp (agree x below)
    · rw [if_neg below, if_neg (by omega)]
  · intro same x below
    have equal := congrArg (·[x]?) same
    simp only [List.getElem?_drop, List.getElem?_take] at equal
    rw [if_pos below, if_pos (by omega)] at equal
    exact arrayPtr_eq_iff.mpr equal

/-- **The border table.** For every pattern that is not empty the loop terminates,
and each entry is the length of the longest proper prefix of the bytes up to its
index that is also a suffix of them. -/
theorem computeLPSArray_borders (pat : List UInt8) (nonempty : pat ≠ []) :
    ∃ lps, computeLPSArray (arrayPtr pat) pat.length (tableBlock pat.length) = .ok lps ∧
      ∀ i < pat.length, ∃ l, lps.get i = .ok l ∧
        IsGreatest {l | l < i + 1 ∧ pat.take l <:+ pat.take (i + 1)} l := by
  obtain ⟨lps, built, table, size⟩ := computeLPSArray_spec (arrayPtr_readable pat)
    (List.length_pos_iff.mpr nonempty) (Nat.le_refl (tableBlock pat.length).bytes)
  refine ⟨lps, built, fun i inside => ?_⟩
  obtain ⟨l, stored, longest⟩ := table i inside
  have borders : {l | Border (arrayPtr pat) (i + 1) l} = {l | l < i + 1 ∧ pat.take l <:+ pat.take (i + 1)} :=
    Set.ext fun _ => border_iff_suffix inside
  have holds : lps.Holds i := by
    simp only [IntBlock.Holds, size, tableBlock, IntBlock.malloc]
    omega
  rw [LongestBorder, borders] at longest
  exact ⟨l, IntBlock.get_stored holds stored, longest⟩

/-- `aabaaab`: entry 5 is reached over a fallback. -/
theorem computeLPSArray_borders_sample :
    ∃ lps, computeLPSArray (arrayPtr [97, 97, 98, 97, 97, 97, 98]) 7 (tableBlock 7) = .ok lps ∧
      ∀ i < 7, ∃ l, lps.get i = .ok l ∧
        IsGreatest {l | l < i + 1 ∧ [97, 97, 98, 97, 97, 97, 98].take l <:+
          ([97, 97, 98, 97, 97, 97, 98] : List UInt8).take (i + 1)} l :=
  computeLPSArray_borders [97, 97, 98, 97, 97, 97, 98] (by decide)

end ClrDumper.BorderTable
