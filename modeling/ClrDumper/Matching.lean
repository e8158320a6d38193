import Mathlib.Order.Bounds.Basic
import Mathlib.Tactic.Common

/-! Patterns laid over themselves and over texts, for any comparison of their
positions. `same x y` compares position `x` of a pattern with a later position
`y` of it, `hits x z` compares position `x` with position `z` of a text. Nothing
is assumed of either but what `Laws` says, which a failure table needs to be
right: equality of symbols has it, and so has a wildcard in the first place. -/
namespace ClrDumper.Matching

variable {same hits : ℕ → ℕ → Prop} {k l m n : ℕ}

/-- The first `n` positions of the pattern match from place `k` on. -/
def Matches (hits : ℕ → ℕ → Prop) (k n : ℕ) : Prop := ∀ x < n, hits x (k + x)

/-- The first `l` positions match the last `l` of the first `n`, for an `l`
below `n`. -/
def Overlap (same : ℕ → ℕ → Prop) (n l : ℕ) : Prop := l < n ∧ Matches same (n - l) l

/-- The longest overlap of the first `n` positions. -/
def LongestOverlap (same : ℕ → ℕ → Prop) (n l : ℕ) : Prop := IsGreatest {l | Overlap same n l} l

/-- The places where a pattern of length `m` matches inside a text of length
`n`. -/
def Places (hits : ℕ → ℕ → Prop) (m n : ℕ) : Set ℕ := {k | k + m ≤ n ∧ Matches hits k m}

/-- What a match of a later position gives for an earlier one that compares
equal to it, and what two matches of one symbol give. -/
structure Laws (same hits : ℕ → ℕ → Prop) : Prop where
  carry : ∀ {x y z}, x < y → same x y → hits y z → hits x z
  join : ∀ {x y z}, x < y → hits x z → hits y z → same x y

theorem matches_zero : Matches hits k 0 := fun _ below => absurd below (Nat.not_lt_zero _)

theorem matches_mono (matched : Matches hits k n) (le : m ≤ n) : Matches hits k m :=
  fun x below => matched x (by omega)

theorem matches_succ_iff : Matches hits k (n + 1) ↔ Matches hits k n ∧ hits n (k + n) := by
  constructor
  · exact fun matched => ⟨matches_mono matched (by omega), matched n (by omega)⟩
  · rintro ⟨matched, last⟩ x below
    rcases Nat.lt_succ_iff_lt_or_eq.mp below with inside | rfl
    · exact matched x inside
    · exact last

theorem overlap_zero (positive : 0 < n) : Overlap same n 0 := ⟨positive, matches_zero⟩

/-- An overlap of one more position is an overlap extended by that position. -/
theorem overlap_succ_iff : Overlap same (n + 1) (l + 1) ↔ Overlap same n l ∧ same l n := by
  have shift : n + 1 - (l + 1) = n - l := by omega
  constructor
  · rintro ⟨shorter, matched⟩
    rw [shift, matches_succ_iff] at matched
    have place : n - l + l = n := by omega
    exact ⟨⟨by omega, matched.1⟩, place ▸ matched.2⟩
  · rintro ⟨⟨shorter, matched⟩, last⟩
    have place : n - l + l = n := by omega
    refine ⟨by omega, ?_⟩
    rw [shift, matches_succ_iff, place]
    exact ⟨matched, last⟩

/-- A match of the first `n` positions leaves a match of every overlap of them,
which ends where it ends. -/
theorem matches_overlap (laws : Laws same hits) (matched : Matches hits k n) (overlap : Overlap same n l) :
    Matches hits (k + (n - l)) l := by
  intro x below
  have shorter := overlap.1
  have place : k + (n - l) + x = k + (n - l + x) := by omega
  rw [place]
  exact laws.carry (by omega) (overlap.2 x below) (matched (n - l + x) (by omega))

/-- Of two matches that end at one place the shorter is an overlap of the
longer. -/
theorem overlap_of_matches (laws : Laws same hits) (matched : Matches hits k n)
    (shorter : Matches hits (k + (n - l)) l) (less : l < n) : Overlap same n l := by
  refine ⟨less, fun x below => ?_⟩
  have place : k + (n - l + x) = k + (n - l) + x := by omega
  apply laws.join (by omega) (shorter x below)
  rw [← place]
  exact matched (n - l + x) (by omega)

/-- Overlaps of an overlap are overlaps of the whole. -/
theorem overlap_trans (laws : Laws same same) (outer : Overlap same n m) (inner : Overlap same m l) :
    Overlap same n l := by
  have above := outer.1
  have below := inner.1
  have place : n - m + (m - l) = n - l := by omega
  exact ⟨by omega, place ▸ matches_overlap laws outer.2 inner⟩

/-- Of two overlaps of one whole the shorter is an overlap of the longer. -/
theorem overlap_of_overlap (laws : Laws same same) (longer : Overlap same n m) (shorter : Overlap same n l)
    (less : l < m) : Overlap same m l := by
  have above := longer.1
  have place : n - m + (m - l) = n - l := by omega
  apply overlap_of_matches laws longer.2 _ less
  rw [place]
  exact shorter.2

theorem longestOverlap_lt (longest : LongestOverlap same n l) : l < n := longest.1.1

/-- An overlap that the next position extends, with no longer candidate, gives
the longest overlap of one more position. -/
theorem longestOverlap_extend (overlap : Overlap same n l) (last : same l n)
    (rest : ∀ c, Overlap same n c → same c n → c ≤ l) : LongestOverlap same (n + 1) (l + 1) := by
  refine ⟨overlap_succ_iff.mpr ⟨overlap, last⟩, fun c candidate => ?_⟩
  cases c with
  | zero => omega
  | succ c =>
    obtain ⟨shorter, extended⟩ := overlap_succ_iff.mp candidate
    have := rest c shorter extended
    omega

/-- When the next position extends no overlap, only the empty one is left. -/
theorem longestOverlap_none (none : ∀ c, Overlap same n c → ¬ same c n) : LongestOverlap same (n + 1) 0 := by
  refine ⟨overlap_zero (by omega), fun c candidate => ?_⟩
  cases c with
  | zero => omega
  | succ c =>
    obtain ⟨shorter, extended⟩ := overlap_succ_iff.mp candidate
    exact absurd extended (none c shorter)

/-- Falling back from a match of `m` positions to their longest overlap passes
over no place, when the position after the match does not match. -/
theorem fallback_skips_none (laws : Laws same hits) (matched : Matches hits k m)
    (longest : LongestOverlap same m l) (wrong : ¬ hits m (k + m)) (pattern : m < n) {c : ℕ} (low : k ≤ c)
    (high : c < k + (m - l)) : ¬ Matches hits c n := by
  intro occurs
  rcases Nat.eq_or_lt_of_le low with rfl | later
  · exact wrong (occurs m pattern)
  · have place : k + (m - (m - (c - k))) = c := by omega
    have candidate : Overlap same m (m - (c - k)) := by
      apply overlap_of_matches laws matched _ (by omega)
      rw [place]
      exact matches_mono occurs (by omega)
    have := longest.2 candidate
    omega

end ClrDumper.Matching
