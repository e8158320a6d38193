import ClrDumper.KmpProofs

/-! `KMPSearch` on arrays of bytes finds what comparing the pattern at every
place of the text finds. The arrays and the table are checked: a read at an index
that is not below the length would be a fault. -/
namespace ClrDumper.PlainSearch
open Execution Memory Borders Kmp KmpProofs

/-- The pattern stands in the text at place `k`. -/
def StandsAt (pat txt : List UInt8) (k : ℕ) : Prop :=
  k + pat.length ≤ txt.length ∧ ∀ x < pat.length, pat[x]? = txt[k + x]?

variable {pat txt : List UInt8}

theorem mem_occurrences_iff {k : ℕ} :
    k ∈ Occurrences (arrayPtr pat) (arrayPtr txt) pat.length txt.length ↔ StandsAt pat txt k := by
  apply and_congr_right
  intro fits
  apply forall_congr'
  intro x
  apply forall_congr'
  intro inside
  have within : k + x < txt.length := by omega
  rw [arrayPtr_getElem inside, arrayPtr_getElem within, List.getElem?_eq_getElem inside,
    List.getElem?_eq_getElem within, Except.ok.injEq, Option.some.injEq]

/-- **The search.** For every pattern that is not empty and every text it
terminates without a fault, returns the least place where the pattern stands,
and returns `-1` exactly when there is none. -/
theorem kmpSearch_exact (pat txt : List UInt8) (nonempty : pat ≠ []) :
    ∃ result, kmpSearch (arrayPtr pat) pat.length (arrayPtr txt) txt.length = .ok result ∧
      (∀ k : ℕ, result = k ↔ IsLeast {k | StandsAt pat txt k} k) ∧
      (result = -1 ↔ ∀ k, ¬ StandsAt pat txt k) ∧ (result = -1 ∨ ∃ k : ℕ, result = k) := by
  obtain ⟨result, ran, found⟩ := kmpSearch_spec (arrayPtr_readable pat) (List.length_pos_iff.mpr nonempty)
    (arrayPtr_readable txt)
  have places : Occurrences (arrayPtr pat) (arrayPtr txt) pat.length txt.length = {k | StandsAt pat txt k} :=
    Set.ext fun _ => mem_occurrences_iff
  unfold SearchResult at found
  rw [places] at found
  refine ⟨result, ran, ?_⟩
  rcases found with ⟨rfl, absent⟩ | ⟨k, rfl, least⟩
  · have none : ∀ k, ¬ StandsAt pat txt k := fun k => Set.eq_empty_iff_forall_notMem.mp absent k
    exact ⟨fun k => ⟨fun same => by omega, fun least => absurd least.1 (none k)⟩, ⟨fun _ => none, fun _ => rfl⟩,
      Or.inl rfl⟩
  · refine ⟨fun c => ⟨fun same => ?_, fun other => ?_⟩, ⟨fun same => by omega, fun absent => ?_⟩, Or.inr ⟨k, rfl⟩⟩
    · rwa [← Int.natCast_inj.mp same]
    · rw [least.unique other]
    · exact absurd least.1 (absent k)

/-- `aab` in `aaab`: the byte after `aa` differs, and the search resumes one
place further on. -/
theorem kmpSearch_exact_sample :
    ∃ result, kmpSearch (arrayPtr [97, 97, 98]) 3 (arrayPtr [97, 97, 97, 98]) 4 = .ok result ∧
      (∀ k : ℕ, result = k ↔ IsLeast {k | StandsAt [97, 97, 98] [97, 97, 97, 98] k} k) ∧
      (result = -1 ↔ ∀ k, ¬ StandsAt [97, 97, 98] [97, 97, 97, 98] k) ∧ (result = -1 ∨ ∃ k : ℕ, result = k) :=
  kmpSearch_exact [97, 97, 98] [97, 97, 97, 98] (by decide)

end ClrDumper.PlainSearch
