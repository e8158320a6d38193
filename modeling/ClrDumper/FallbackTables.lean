import Mathlib.Order.Nat
import ClrDumper.Matching

/-! Tables whose entries follow from the ones before, by falling back over them
until the next position extends what is left. No law is assumed of the
comparison. Such a table holds the longest overlaps exactly where falling back
over longest overlaps meets them. -/
namespace ClrDumper.FallbackTables
open Matching

variable {same : ℕ → ℕ → Prop} {T : ℕ → ℕ}

/-- Going down from `b` in steps, `c` is the first length that position `n`
extends. -/
inductive Reaches (same step : ℕ → ℕ → Prop) (n : ℕ) : ℕ → ℕ → Prop where
  | here {b : ℕ} : same b n → Reaches same step n b b
  | down {b l c : ℕ} : ¬ same b n → step b l → Reaches same step n l c → Reaches same step n b c

/-- The step from a length to the table's entry for it. -/
def EntryStep (T : ℕ → ℕ) (b l : ℕ) : Prop := 0 < b ∧ T (b - 1) = l

/-- What going down from `b` makes of entry `n`. -/
def Makes (same : ℕ → ℕ → Prop) (T : ℕ → ℕ) (n b value : ℕ) : Prop :=
  (∃ c, Reaches same (EntryStep T) n b c ∧ value = c + 1) ∨
    (∀ c, ¬ Reaches same (EntryStep T) n b c) ∧ value = 0

/-- The first `m` entries of a table are made from the entry before them. -/
structure FallsBack (same : ℕ → ℕ → Prop) (T : ℕ → ℕ) (m : ℕ) : Prop where
  small : ∀ n < m, T n ≤ n
  makes : ∀ n < m, 0 < n → Makes same T n (T (n - 1)) (T n)

/-- The longest overlap of the first `n` positions that position `n` extends. -/
def LongestExtended (same : ℕ → ℕ → Prop) (n c : ℕ) : Prop := IsGreatest {c | Overlap same n c ∧ same c n} c

/-- Going down over longest overlaps, the first that position `n` extends is the
longest overlap that it extends. -/
def StraightAt (same : ℕ → ℕ → Prop) (n : ℕ) : Prop :=
  ∀ b c, LongestOverlap same n b → (Reaches same (LongestOverlap same) n b c ↔ LongestExtended same n c)

/-- That is so at every position. -/
def Straight (same : ℕ → ℕ → Prop) (m : ℕ) : Prop := ∀ n < m, 0 < n → StraightAt same n

theorem reaches_mono {step step' : ℕ → ℕ → Prop} {n b c : ℕ}
    (steps : ∀ b' ≤ b, ∀ l, step b' l → step' b' l ∧ l < b') (reaches : Reaches same step n b c) :
    Reaches same step' n b c := by
  induction reaches with
  | here extended => exact .here extended
  | down differs taken _ ih =>
    obtain ⟨taken', less⟩ := steps _ (Nat.le_refl _) _ taken
    apply Reaches.down differs taken'
    apply ih
    intro b' below
    exact steps b' (by omega)

theorem reaches_end {step : ℕ → ℕ → Prop} {n b c : ℕ} (reaches : Reaches same step n b c) : same c n := by
  induction reaches with
  | here extended => exact extended
  | down _ _ _ ih => exact ih

/-- Going down for another comparison ends at the same length, if that refuses
what was refused and takes the last. -/
theorem reaches_turn {same' step : ℕ → ℕ → Prop} {n n' b c : ℕ} (refuses : ∀ d, ¬ same d n → ¬ same' d n')
    (ends : same' c n') (reaches : Reaches same step n b c) : Reaches same' step n' b c := by
  induction reaches with
  | here _ => exact .here ends
  | down differs taken _ ih => exact .down (refuses _ differs) taken (ih ends)

/-- A comparison that takes more ends no later, on the same way. -/
theorem reaches_earlier {same' step : ℕ → ℕ → Prop} {n b c : ℕ} (more : ∀ d, same d n → same' d n)
    (reaches : Reaches same step n b c) : ∃ d, Reaches same' step n b d ∧ Reaches same step n d c := by
  induction reaches with
  | here extended => exact ⟨_, .here (more _ extended), .here extended⟩
  | @down b l c differs taken rest ih =>
    by_cases sooner : same' b n
    · exact ⟨b, .here sooner, .down differs taken rest⟩
    · obtain ⟨d, first, later⟩ := ih
      exact ⟨d, .down sooner taken first, later⟩

/-- Tables with the same entries are gone down alike. -/
theorem reaches_congr {T' : ℕ → ℕ} {n b c : ℕ} (small : ∀ x < b, T x ≤ x) (agree : ∀ x < b, T' x = T x) :
    Reaches same (EntryStep T) n b c ↔ Reaches same (EntryStep T') n b c := by
  constructor
  · apply reaches_mono
    rintro b' below l ⟨positive, rfl⟩
    have bound := small (b' - 1) (by omega)
    exact ⟨⟨positive, agree (b' - 1) (by omega)⟩, by omega⟩
  · apply reaches_mono
    rintro b' below l ⟨positive, rfl⟩
    rw [agree (b' - 1) (by omega)]
    have bound := small (b' - 1) (by omega)
    exact ⟨⟨positive, rfl⟩, by omega⟩

theorem makes_congr {T' : ℕ → ℕ} {n b value : ℕ} (small : ∀ x < b, T x ≤ x) (agree : ∀ x < b, T' x = T x) :
    Makes same T n b value ↔ Makes same T' n b value := by
  simp only [Makes, reaches_congr small agree]

/-- The three ways in which going on from `b` ends or does not. -/
theorem makes_here {n b : ℕ} (extended : same b n) : Makes same T n b (b + 1) := Or.inl ⟨b, .here extended, rfl⟩

theorem makes_down {n b value : ℕ} (differs : ¬ same b n) (positive : 0 < b) (makes : Makes same T n (T (b - 1)) value) :
    Makes same T n b value := by
  rcases makes with ⟨c, reached, value⟩ | ⟨none, value⟩
  · exact Or.inl ⟨c, .down differs ⟨positive, rfl⟩ reached, value⟩
  · refine Or.inr ⟨fun c reached => ?_, value⟩
    cases reached with
    | here extended => exact differs extended
    | down _ taken rest =>
      obtain ⟨_, rfl⟩ := taken
      exact none c rest

theorem makes_none {n : ℕ} (differs : ¬ same 0 n) : Makes same T n 0 0 := by
  refine Or.inr ⟨fun c reached => ?_, rfl⟩
  cases reached with
  | here extended => exact differs extended
  | down _ taken _ => exact absurd taken.1 (Nat.lt_irrefl 0)

theorem fallsBack_zero : FallsBack same T 0 where
  small _ below := absurd below (Nat.not_lt_zero _)
  makes _ below := absurd below (Nat.not_lt_zero _)

/-- One more entry. -/
theorem fallsBack_snoc {T' : ℕ → ℕ} {m : ℕ} (table : FallsBack same T m) (agree : ∀ x < m, T' x = T x)
    (small : T' m ≤ m) (makes : 0 < m → Makes same T m (T (m - 1)) (T' m)) : FallsBack same T' (m + 1) := by
  have carried : ∀ n ≤ m, 0 < n → ∀ value, Makes same T n (T (n - 1)) value → Makes same T' n (T' (n - 1)) value := by
    intro n below positive value made
    have bound := table.small (n - 1) (by omega)
    rw [agree (n - 1) (by omega)]
    apply (makes_congr _ _).mp made
    · exact fun x less => table.small x (by omega)
    · exact fun x less => agree x (by omega)
  constructor
  case small =>
    intro n below
    rcases Nat.lt_succ_iff_lt_or_eq.mp below with inside | rfl
    · rw [agree n inside]
      exact table.small n inside
    · exact small
  case makes =>
    intro n below positive
    rcases Nat.lt_succ_iff_lt_or_eq.mp below with inside | rfl
    · rw [agree n inside]
      exact carried n (Nat.le_of_lt inside) positive _ (table.makes n inside positive)
    · exact carried n (Nat.le_refl n) positive _ (makes positive)

theorem fallsBack_mono {m m' : ℕ} (table : FallsBack same T m) (le : m' ≤ m) : FallsBack same T m' where
  small n below := table.small n (by omega)
  makes n below := table.makes n (by omega)

/-- Going down a table ends in one place. -/
theorem reaches_unique {n b c d : ℕ} (reaches : Reaches same (EntryStep T) n b c)
    (reaches' : Reaches same (EntryStep T) n b d) : c = d := by
  induction reaches with
  | here extended =>
    cases reaches' with
    | here _ => rfl
    | down differs _ _ => exact absurd extended differs
  | down differs taken _ ih =>
    cases reaches' with
    | here extended => exact absurd extended differs
    | down _ taken' rest =>
      obtain ⟨_, rfl⟩ := taken
      obtain ⟨_, rfl⟩ := taken'
      exact ih rest

/-- Where a table holds longest overlaps, its steps are those to longest
overlaps. -/
theorem reaches_longest_iff {kind : ℕ → ℕ → Prop} {n b c : ℕ} (longest : ∀ x < b, LongestOverlap kind (x + 1) (T x)) :
    Reaches same (EntryStep T) n b c ↔ Reaches same (LongestOverlap kind) n b c := by
  have entry : ∀ b' ≤ b, 0 < b' → LongestOverlap kind b' (T (b' - 1)) := by
    intro b' below positive
    have found := longest (b' - 1) (by omega)
    rwa [Nat.sub_add_cancel positive] at found
  constructor
  · apply reaches_mono
    rintro b' below l ⟨positive, rfl⟩
    have found := entry b' below positive
    exact ⟨found, longestOverlap_lt found⟩
  · apply reaches_mono
    intro b' below l found
    have less := longestOverlap_lt found
    have positive : 0 < b' := by omega
    exact ⟨⟨positive, (entry b' below positive).unique found⟩, less⟩

/-- Of the overlaps of a kind, if there are any, one is the longest. -/
theorem greatestOverlap_exists (kind : ℕ → Prop) {n l : ℕ} (overlap : Overlap same n l) (holds : kind l) :
    ∃ c, IsGreatest {c | Overlap same n c ∧ kind c} c := by
  classical
  have distances : ∃ d c, c + d = n ∧ Overlap same n c ∧ kind c :=
    ⟨n - l, l, Nat.add_sub_cancel' (Nat.le_of_lt overlap.1), overlap, holds⟩
  obtain ⟨⟨c, total, candidate⟩, least⟩ := Nat.isLeast_find distances
  refine ⟨c, candidate, fun other longer => ?_⟩
  have shorter := longer.1.1
  have nearest := least ⟨other, Nat.add_sub_cancel' (Nat.le_of_lt shorter), longer⟩
  omega

/-- If an overlap can be extended, one is the longest of those that can. -/
theorem longestExtended_exists {n l : ℕ} (overlap : Overlap same n l) (extended : same l n) :
    ∃ c, LongestExtended same n c :=
  greatestOverlap_exists _ overlap extended

theorem longestOverlap_exists (same : ℕ → ℕ → Prop) {n : ℕ} (positive : 0 < n) : ∃ c, LongestOverlap same n c := by
  have empty : Overlap same n 0 := overlap_zero positive
  obtain ⟨c, candidate, longest⟩ := greatestOverlap_exists (fun _ => True) empty trivial
  exact ⟨c, candidate.1, fun d overlap => longest ⟨overlap, trivial⟩⟩

/-- An overlap of one more position is longest if what it extends is. -/
theorem longest_succ_iff {n c : ℕ} : LongestOverlap same (n + 1) (c + 1) ↔ LongestExtended same n c := by
  constructor
  · intro longest
    refine ⟨overlap_succ_iff.mp longest.1, fun d candidate => ?_⟩
    have bound : d + 1 ≤ c + 1 := longest.2 (overlap_succ_iff.mpr candidate)
    omega
  · intro greatest
    apply longestOverlap_extend greatest.1.1 greatest.1.2
    intro d overlap extended
    exact greatest.2 ⟨overlap, extended⟩

/-- An entry is the longest overlap if those before it are, and the pattern is
straight there. -/
theorem longest_of_straightAt {n : ℕ} (makes : Makes same T n (T (n - 1)) (T n))
    (previous : LongestOverlap same n (T (n - 1))) (longest : ∀ x < n, LongestOverlap same (x + 1) (T x))
    (straight : StraightAt same n) : LongestOverlap same (n + 1) (T n) := by
  have shorter := longestOverlap_lt previous
  have walk : ∀ c, Reaches same (EntryStep T) n (T (n - 1)) c ↔ LongestExtended same n c := fun c =>
    (reaches_longest_iff fun x below => longest x (by omega)).trans (straight _ c previous)
  rcases makes with ⟨c, reached, value⟩ | ⟨none, value⟩
  · rw [value]
    exact longest_succ_iff.mpr ((walk c).mp reached)
  · rw [value]
    apply longestOverlap_none
    intro l overlap extended
    obtain ⟨c, greatest⟩ := longestExtended_exists overlap extended
    exact none c ((walk c).mpr greatest)

/-- And only if it is. -/
theorem straightAt_of_longest {n : ℕ} (makes : Makes same T n (T (n - 1)) (T n)) (positive : 0 < n)
    (longest : ∀ x ≤ n, LongestOverlap same (x + 1) (T x)) : StraightAt same n := by
  intro b c previous
  have before := longest (n - 1) (by omega)
  rw [Nat.sub_add_cancel positive] at before
  obtain rfl := previous.unique before
  have shorter := longestOverlap_lt previous
  rw [← reaches_longest_iff fun x below => longest x (by omega)]
  have here := longest n (Nat.le_refl n)
  rw [← longest_succ_iff]
  constructor
  · intro reached
    rcases makes with ⟨d, found, value⟩ | ⟨none, _⟩
    · rw [reaches_unique reached found, ← value]
      exact here
    · exact absurd reached (none c)
  · intro next
    have value := here.unique next
    rcases makes with ⟨d, found, value'⟩ | ⟨_, value'⟩
    · obtain rfl : d = c := by omega
      exact found
    · omega

/-- **Tables made by falling back** hold the longest overlaps exactly if the
pattern is straight. -/
theorem longest_iff_straight {m : ℕ} (table : FallsBack same T m) :
    (∀ n < m, LongestOverlap same (n + 1) (T n)) ↔ Straight same m := by
  constructor
  · intro longest n inside positive
    apply straightAt_of_longest (table.makes n inside positive) positive
    intro x below
    exact longest x (by omega)
  · intro straight n
    induction n using Nat.strong_induction_on with
    | h n ih =>
      intro inside
      by_cases first : n = 0
      · subst first
        have value := table.small 0 inside
        rw [Nat.le_zero.mp value]
        apply longestOverlap_none
        intro c overlap
        exact absurd overlap.1 (Nat.not_lt_zero c)
      · have positive := Nat.pos_of_ne_zero first
        have previous := ih (n - 1) (by omega) (by omega)
        rw [Nat.sub_add_cancel positive] at previous
        exact longest_of_straightAt (table.makes n inside positive) previous
          (fun x below => ih x below (by omega)) (straight n inside positive)

end ClrDumper.FallbackTables
