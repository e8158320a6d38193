import ClrDumper.CompatibleBorders

/-! Where a pattern may be gone on with after a mismatch. A compatible border of
the matched bytes need not stand in the text: under a `?` of the pattern the text
had any byte. The first length below a mismatch that takes another byte is the
one that matters, and if it always stands, the failure table has no wrong entry
that a search uses. -/
namespace ClrDumper.PatternCovers
open Matching FallbackTables Kmp WildcardSearch CompatibleBorders

/-- Position `x` of the pattern accepts the byte. -/
def Accepts (pat : List UInt8) (x : ℕ) (byte : UInt8) : Prop :=
  pat[x]? = some WILDCARD ∨ pat[x]? = some byte

/-- Position `x` accepts a byte other than the one at position `n`. -/
def AcceptsOther (pat : List UInt8) (x n : ℕ) : Prop := pat[x]? = some WILDCARD ∨ pat[x]? ≠ pat[n]?

/-- Laid over the last `l` of the first `j` bytes, the first `l` bytes of the
pattern have only `?` over a byte that is not their own. -/
def Covered (pat : List UInt8) (j l : ℕ) : Prop :=
  ∀ x < l, pat[x]? = some WILDCARD ∨ pat[x]? = pat[j - l + x]?

/-- Going down from the longest compatible border of the first `j` bytes to the
longest one of that and so on, the first that accepts a byte other than the next
covers the bytes that it stands for. -/
def CleanAt (pat : List UInt8) (j : ℕ) : Prop :=
  ∀ b l, LongestOverlap (Compatible pat) j b →
    Reaches (AcceptsOther pat) (LongestOverlap (Compatible pat)) j b l → Covered pat j l

/-- That is so wherever a mismatch can be. -/
def CleanFallbacks (pat : List UInt8) : Prop := ∀ j, 0 < j → j < pat.length → CleanAt pat j

variable {pat : List UInt8} {b c j l m n : ℕ} {byte : UInt8}

/-! ## Covers -/

theorem covered_trans (outer : Covered pat j m) (inner : Covered pat m l) (small : l ≤ m) (below : m ≤ j) :
    Covered pat j l := by
  intro x inside
  rcases inner x inside with wild | same
  · exact Or.inl wild
  · have place : j - m + (m - l + x) = j - l + x := by omega
    have laid := outer (m - l + x) (by omega)
    rw [place, ← same] at laid
    exact laid

/-- A cover is a compatible border. -/
theorem overlap_of_covered (covered : Covered pat j l) (less : l < j) (inside : j ≤ pat.length) :
    Overlap (Compatible pat) j l := by
  refine ⟨less, fun x below => ⟨by omega, pat[x], pat[j - l + x], by simp, by simp, ?_⟩⟩
  rcases covered x below with wild | same
  · rw [List.getElem?_eq_getElem (by omega), Option.some.injEq] at wild
    exact Or.inr (Or.inr wild)
  · rw [List.getElem?_eq_getElem (by omega), List.getElem?_eq_getElem (by omega), Option.some.injEq] at same
    exact Or.inl same.symm

/-- The compatible borders below a cover are its own. -/
theorem overlap_in_cover (covered : Covered pat j b) (overlap : Overlap (Compatible pat) j l) (less : l < b)
    (below : b < j) : Overlap (Compatible pat) b l := by
  refine ⟨less, fun x inside => ?_⟩
  obtain ⟨_, first, last, read, read', agree⟩ := overlap.2 x inside
  have place : j - b + (b - l + x) = j - l + x := by omega
  rcases covered (b - l + x) (by omega) with wild | same
  · exact ⟨by omega, first, WILDCARD, read, wild, Or.inr (Or.inl rfl)⟩
  · rw [place] at same
    exact ⟨by omega, first, last, read, same.trans read', agree⟩

theorem longest_reaches_le {same : ℕ → ℕ → Prop} (reaches : Reaches same (LongestOverlap (Compatible pat)) n b c) :
    c ≤ b := by
  induction reaches with
  | here _ => exact Nat.le_refl _
  | down _ taken _ ih =>
    have less := longestOverlap_lt taken
    omega

/-! ## The table is right wherever it is used -/

/-- A longest border that is no cover goes on for ever: the bytes behind it are
those behind its copy, and no `?`. -/
theorem uncovered_goes_on (clean : ∀ j, 0 < j → j ≤ n → CleanAt pat j) (positive : 0 < j)
    (longest : LongestOverlap (Compatible pat) j b) (uncovered : ¬ Covered pat j b) (d : ℕ) (inside : j + d ≤ n)
    (short : n < pat.length) :
    LongestOverlap (Compatible pat) (j + d) (b + d) ∧ ¬ Covered pat (j + d) (b + d) ∧
      ¬ AcceptsOther pat (b + d) (j + d) := by
  have refuses : ∀ j' b', 0 < j' → j' ≤ n → LongestOverlap (Compatible pat) j' b' → ¬ Covered pat j' b' →
      ¬ AcceptsOther pat b' j' := fun j' b' positive' below longest' uncovered' other =>
    uncovered' (clean j' positive' below b' b' longest' (.here other))
  induction d with
  | zero => exact ⟨longest, uncovered, refuses j b positive inside longest uncovered⟩
  | succ d ih =>
    obtain ⟨longest', uncovered', repeats⟩ := ih (by omega)
    have less := longestOverlap_lt longest'
    simp only [AcceptsOther, not_or, not_not] at repeats
    have extended : Compatible pat (b + d) (j + d) := by
      refine ⟨less, pat[b + d], pat[j + d], by simp, by simp, Or.inl ?_⟩
      have same := repeats.2
      rw [List.getElem?_eq_getElem (by omega), List.getElem?_eq_getElem (by omega), Option.some.injEq] at same
      exact same.symm
    have longer : LongestOverlap (Compatible pat) (j + (d + 1)) (b + (d + 1)) :=
      longest_succ_iff.mpr ⟨⟨longest'.1, extended⟩, fun c candidate => longest'.2 candidate.1⟩
    have still : ¬ Covered pat (j + (d + 1)) (b + (d + 1)) := by
      intro covered
      apply uncovered'
      intro x below
      have place : j + (d + 1) - (b + (d + 1)) = j + d - (b + d) := by omega
      rw [← place]
      exact covered x (by omega)
    exact ⟨longer, still, refuses _ _ (by omega) inside longer still⟩

/-- So before a position that ends its longest border, every longest border is a
cover. -/
theorem covered_before (clean : ∀ j, 0 < j → j ≤ n → CleanAt pat j) (short : n < pat.length)
    (longest : LongestOverlap (Compatible pat) n b) (differs : ¬ Compatible pat b n) (positive : 0 < j) (below : j ≤ n)
    (border : LongestOverlap (Compatible pat) j c) : Covered pat j c := by
  by_contra uncovered
  have place : j + (n - j) = n := by omega
  obtain ⟨longest', _, repeats⟩ := uncovered_goes_on clean positive border uncovered (n - j) (by omega) short
  rw [place] at longest' repeats
  obtain rfl := longest.unique longest'
  have less := longestOverlap_lt longest
  simp only [AcceptsOther, not_or, not_not] at repeats
  have same := repeats.2
  rw [List.getElem?_eq_getElem (by omega), List.getElem?_eq_getElem (by omega), Option.some.injEq] at same
  exact differs ⟨less, pat[c + (n - j)], pat[n], by simp, by simp, Or.inl same.symm⟩

/-- Where every longest border is a cover, going down meets all compatible
borders, the longest first. -/
theorem walk_of_covers (covers : ∀ j c, 0 < j → j ≤ n → LongestOverlap (Compatible pat) j c → Covered pat j c)
    (short : n < pat.length) (covered : Covered pat n b) (less : b < n)
    (highest : ∀ d, Overlap (Compatible pat) n d → Compatible pat d n → d ≤ b) :
    Reaches (Compatible pat) (LongestOverlap (Compatible pat)) n b c ↔ LongestExtended (Compatible pat) n c := by
  constructor
  · intro reaches
    induction reaches with
    | here extended =>
      exact ⟨⟨overlap_of_covered covered less (Nat.le_of_lt short), extended⟩, fun d candidate =>
        highest d candidate.1 candidate.2⟩
    | @down b l c differs taken _ ih =>
      have lower := longestOverlap_lt taken
      have step := covers b l (by omega) (Nat.le_of_lt less) taken
      apply ih (covered_trans covered step (Nat.le_of_lt lower) (Nat.le_of_lt less)) (by omega)
      intro d overlap extended
      have bound := highest d overlap extended
      have other : d ≠ b := fun same => differs (same ▸ extended)
      exact taken.2 (overlap_in_cover covered overlap (by omega) less)
  · intro greatest
    induction b using Nat.strong_induction_on with
    | h b ih =>
      have bound := highest c greatest.1.1 greatest.1.2
      by_cases extended : Compatible pat b n
      · have above := greatest.2 ⟨overlap_of_covered covered less (Nat.le_of_lt short), extended⟩
        obtain rfl : b = c := by omega
        exact .here extended
      · have other : c ≠ b := fun same => extended (same ▸ greatest.1.2)
        obtain ⟨l, taken⟩ := longestOverlap_exists (Compatible pat) (n := b) (by omega)
        have lower := longestOverlap_lt taken
        have step := covers b l (by omega) (Nat.le_of_lt less) taken
        refine .down extended taken (ih l lower ?_ (by omega) fun d overlap more => ?_)
        · exact covered_trans covered step (Nat.le_of_lt lower) (Nat.le_of_lt less)
        · have limit := highest d overlap more
          have apart : d ≠ b := fun same => extended (same ▸ more)
          exact taken.2 (overlap_in_cover covered overlap (by omega) less)

/-- A pattern is straight at a position that comes after clean ones and is one. -/
theorem straightAt_of_clean (clean : ∀ j, 0 < j → j ≤ n → CleanAt pat j) (positive : 0 < n) (short : n < pat.length) :
    StraightAt (Compatible pat) n := by
  intro b c longest
  by_cases extended : Compatible pat b n
  · have here : LongestExtended (Compatible pat) n b :=
      ⟨⟨longest.1, extended⟩, fun d candidate => longest.2 candidate.1⟩
    constructor
    · intro reaches
      cases reaches with
      | here _ => exact here
      | down differs _ _ => exact absurd extended differs
    · intro greatest
      obtain rfl := greatest.unique here
      exact .here extended
  · have covers : ∀ j c, 0 < j → j ≤ n → LongestOverlap (Compatible pat) j c → Covered pat j c :=
      fun j c positive below border => covered_before clean short longest extended positive below border
    exact walk_of_covers covers short (covers n b positive (Nat.le_refl n) longest) (longestOverlap_lt longest)
      fun d overlap _ => longest.2 overlap

/-! ## One byte after another -/

/-- What goes on with some other byte goes on with one. -/
theorem byte_of_other {step : ℕ → ℕ → Prop} (inside : j < pat.length) (within : l < pat.length)
    (reaches : Reaches (AcceptsOther pat) step j b l) :
    ∃ byte, pat[j]? ≠ some byte ∧ Reaches (fun x _ => Accepts pat x byte) step j b l := by
  have refuses : ∀ byte, pat[j]? ≠ some byte → ∀ d, ¬ AcceptsOther pat d j → ¬ Accepts pat d byte := by
    rintro byte differs d same (wild | equal)
    · exact same (Or.inl wild)
    · exact same (Or.inr fun equal' => differs (equal'.symm.trans equal))
  rcases reaches_end reaches with wild | other
  · have differs : pat[j]? ≠ some (pat[j] + 1) := by
      rw [List.getElem?_eq_getElem inside, Ne, Option.some.injEq]
      intro same
      simp at same
    exact ⟨_, differs, reaches_turn (refuses _ differs) (Or.inl wild) reaches⟩
  · have read := List.getElem?_eq_getElem within
    rw [read] at other
    exact ⟨_, Ne.symm other, reaches_turn (refuses _ (Ne.symm other)) (Or.inr read) reaches⟩

/-- Where the fallbacks are clean, whichever byte ends a match is gone on with
under a cover. -/
theorem covered_of_clean (clean : ∀ i, 0 < i → i ≤ j → CleanAt pat i) (positive : 0 < j)
    (differs : pat[j]? ≠ some byte) (longest : LongestOverlap (Compatible pat) j b)
    (reaches : Reaches (fun x _ => Accepts pat x byte) (LongestOverlap (Compatible pat)) j b l) : Covered pat j l := by
  induction j using Nat.strong_induction_on generalizing b with
  | h j ih =>
    have more : ∀ d, Accepts pat d byte → AcceptsOther pat d j := by
      rintro d (wild | equal)
      · exact Or.inl wild
      · exact Or.inr fun same => differs (same.symm.trans equal)
    obtain ⟨d, first, later⟩ := reaches_earlier more reaches
    have covered := clean j positive (Nat.le_refl j) b d longest first
    have below := longestOverlap_lt longest
    have lower := longest_reaches_le first
    cases later with
    | here _ => exact covered
    | @down _ e _ refused taken rest =>
      have less := longestOverlap_lt taken
      have small := longest_reaches_le rest
      have apart : pat[d]? ≠ some byte := fun equal => refused (Or.inr equal)
      have turned : Reaches (fun x _ => Accepts pat x byte) (LongestOverlap (Compatible pat)) d e l :=
        reaches_turn (fun _ => id) (reaches_end rest) rest
      have inner := ih d (by omega) (fun i positive' bound => clean i positive' (by omega)) (by omega) apart taken turned
      exact covered_trans covered inner (by omega) (by omega)

end ClrDumper.PatternCovers
