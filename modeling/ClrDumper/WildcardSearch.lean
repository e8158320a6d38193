import Mathlib.Order.Nat
import ClrDumper.KmpProofs

/-! What `KMPSearchWild` finds. It always terminates. With no `?` after its first
byte a pattern is searched for exactly; any other pattern is missed in some text,
because a `?` that the search reaches byte by byte is compared with the text as
if it were an ordinary byte. Where the search comes to the first match with
nothing matched before, that comparison alone decides. -/
namespace ClrDumper.WildcardSearch
open Execution Memory Matching Kmp KmpLoops KmpProofs

/-- The pattern stands in the text at place `k`, where a `?` of it stands for any
byte. -/
def StandsAt (pat txt : List UInt8) (k : ℕ) : Prop :=
  k + pat.length ≤ txt.length ∧ ∀ x < pat.length, pat[x]? = some WILDCARD ∨ pat[x]? = txt[k + x]?

/-- `KMPSearchWild` on arrays of bytes. -/
def search (pat txt : List UInt8) : Exec ℤ :=
  kmpSearchWild (arrayPtr pat) pat.length (arrayPtr txt) txt.length

/-- The table that `computeLPSArrayWild` makes of a pattern. -/
def wildTable (pat : List UInt8) : ℕ → ℕ :=
  match computeLPSArrayWild (arrayPtr pat) pat.length (tableBlock pat.length) with
  | .ok lps => entry lps
  | .error _ => fun _ => 0

variable {pat txt : List UInt8}

/-! ## Every run -/

theorem wildTable_le (nonempty : pat ≠ []) {x : ℕ} (inside : x < pat.length) : wildTable pat x ≤ x := by
  obtain ⟨lps, built, filled, _⟩ := computeLPSArray_fills sameByteWild (arrayPtr_readable pat)
    (List.length_pos_iff.mpr nonempty) (tableBlock pat.length) (Nat.le_refl _)
  simp only [wildTable, computeLPSArrayWild, built]
  exact entry_le filled inside

/-- The rule for runs of the wildcard search on arrays. -/
theorem search_rule (inv : ℕ → ℕ → Prop) {post : ℤ → Prop} (nonempty : pat ≠ [])
    (rule : SearchRule hitWild (arrayPtr pat) (arrayPtr txt) pat.length txt.length (wildTable pat) inv post) :
    ∃ result, search pat txt = .ok result ∧ post result := by
  have positive := List.length_pos_iff.mpr nonempty
  obtain ⟨lps, built, filled, size⟩ := computeLPSArray_fills sameByteWild (arrayPtr_readable pat) positive
    (tableBlock pat.length) (Nat.le_refl _)
  have table : wildTable pat = entry lps := by simp only [wildTable, computeLPSArrayWild, built]
  rw [table] at rule
  obtain ⟨result, ran, holds⟩ := search_total (fun p => by simp [hitWild]) (arrayPtr_readable pat) positive
    filled (Nat.le_of_eq size.symm) rule
  exact ⟨result, by simpa [search, kmpSearchWild, searchWith, built] using ran, holds⟩

/-- What the search accepts, in terms of the arrays. -/
theorem hit_iff {x y : ℕ} : Hit hitWild (arrayPtr pat) (arrayPtr txt) x y ↔
    x < pat.length ∧ y < txt.length ∧ (pat[x]? = some WILDCARD ∨ pat[x]? = txt[y]?) := by
  constructor
  · rintro ⟨p, t, readP, readT, test⟩
    rw [arrayPtr_ok_iff] at readP readT
    refine ⟨(List.getElem?_eq_some_iff.mp readP).1, (List.getElem?_eq_some_iff.mp readT).1, ?_⟩
    rw [readP, readT, Option.some.injEq, Option.some.injEq]
    simpa [hitWild, or_comm] using test
  · rintro ⟨inside, within, test⟩
    refine ⟨pat[x], txt[y], arrayPtr_getElem inside, arrayPtr_getElem within, ?_⟩
    rw [List.getElem?_eq_getElem inside, List.getElem?_eq_getElem within, Option.some.injEq,
      Option.some.injEq] at test
    simpa [hitWild, or_comm] using test

theorem places_eq : Places (Hit hitWild (arrayPtr pat) (arrayPtr txt)) pat.length txt.length =
    {k | StandsAt pat txt k} := by
  ext k
  apply and_congr_right
  intro fits
  apply forall_congr'
  intro x
  apply forall_congr'
  intro inside
  have within : k + x < txt.length := by omega
  rw [hit_iff]
  simp [inside, within]

/-! ## Wildcards after the first byte -/

/-- No byte of the pattern after its first is a `?`. -/
def OnlyFirst (pat : List UInt8) : Prop := ∀ x, 0 < x → pat[x]? ≠ some WILDCARD

/-- If the pattern stands in the text, the search does not return `-1`, and
returns no index above the least place where it does. -/
def MissesNothing (pat txt : List UInt8) : Prop :=
  ∀ k, IsLeast {k | StandsAt pat txt k} k → ∃ result : ℕ, search pat txt = .ok (result : ℤ) ∧ result ≤ k

theorem wild_covering (onlyFirst : OnlyFirst pat) :
    Covering sameByteWild hitWild (arrayPtr pat) (fun a b => a = WILDCARD ∨ a = b) where
  same_iff := by
    intro y a b positive read
    have literal : a ≠ WILDCARD := fun wild => onlyFirst y positive (wild ▸ arrayPtr_ok_iff.mp read)
    simp only [sameByteWild, Bool.or_eq_true, beq_iff_eq, literal, or_false]
    rw [or_comm, eq_comm (a := a)]
  hit_iff p t := by simp only [hitWild, Bool.or_eq_true, beq_iff_eq, or_comm]
  refl _ := Or.inr rfl
  trans := by
    rintro a b c (wild | rfl) second
    · exact Or.inl wild
    · exact second
  literal := by
    rintro y a t positive read (wild | equal)
    · exact absurd (wild ▸ arrayPtr_ok_iff.mp read) (onlyFirst y positive)
    · exact equal

/-- A pattern whose first byte alone may be a `?` is searched for exactly. -/
theorem search_onlyFirst (nonempty : pat ≠ []) (onlyFirst : OnlyFirst pat) (txt : List UInt8) :
    ∃ result, search pat txt = .ok result ∧ Leftmost {k | StandsAt pat txt k} result := by
  have text : ∀ y < txt.length, (∀ k ∈ Places (Hit hitWild (arrayPtr pat) (arrayPtr txt)) pat.length txt.length,
      y < k + pat.length) → ∃ t, arrayPtr txt y = .ok t := fun y inside _ => arrayPtr_readable txt y inside
  obtain ⟨result, ran, leftmost⟩ :=
    searchWith_spec (wild_covering onlyFirst) (arrayPtr_readable pat) (List.length_pos_iff.mpr nonempty) text
  rw [places_eq] at leftmost
  exact ⟨result, ran, leftmost⟩

theorem missesNothing_of_onlyFirst (nonempty : pat ≠ []) (onlyFirst : OnlyFirst pat) (txt : List UInt8) :
    MissesNothing pat txt := by
  intro k least
  obtain ⟨result, ran, absent | ⟨c, rfl, leftmost⟩⟩ := search_onlyFirst nonempty onlyFirst txt
  · exact absurd least.1 (Set.eq_empty_iff_forall_notMem.mp absent.2 k)
  · exact ⟨c, ran, Nat.le_of_eq (leftmost.unique least)⟩

/-- The first byte of the pattern accepts no byte of the text before a place. -/
def Untouched (pat txt : List UInt8) (k : ℕ) : Prop := ∀ y < k, pat[0]? ≠ some WILDCARD ∧ pat[0]? ≠ txt[y]?

/-- At a place, each `?` after the first byte stands over the byte `?`. -/
def OverMarks (pat txt : List UInt8) (k : ℕ) : Prop :=
  ∀ x, 0 < x → pat[x]? = some WILDCARD → txt[k + x]? = some WILDCARD

theorem untouched_zero : Untouched pat txt 0 := fun y below => absurd below (Nat.not_lt_zero y)

theorem untouched_not_hit {k y : ℕ} (untouched : Untouched pat txt k) (before : y < k) :
    ¬ Hit hitWild (arrayPtr pat) (arrayPtr txt) 0 y := by
  intro hits
  obtain ⟨_, _, wild | equal⟩ := hit_iff.mp hits
  · exact (untouched y before).1 wild
  · exact (untouched y before).2 equal

/-- A `?` after the first byte, over a text byte that is not one: the match that
the search comes to with nothing matched falls back there, so it is not the one
reported, nor is one before it. -/
theorem search_leaves (nonempty : pat ≠ []) {k p : ℕ} (untouched : Untouched pat txt k) (positive : 0 < p)
    (wild : pat[p]? = some WILDCARD) (within : k + p < txt.length) (literal : txt[k + p]? ≠ some WILDCARD) :
    ∃ result, search pat txt = .ok result ∧ ∀ c : ℕ, result = c → k < c := by
  have inside : p < pat.length := (List.getElem?_eq_some_iff.mp wild).1
  apply search_rule (fun i j => (i < k ∧ j = 0) ∨ (i = k + j ∧ j < p) ∨ k + j < i) nonempty
  constructor
  case start =>
    rcases Nat.eq_zero_or_pos k with rfl | later
    · exact Or.inr (Or.inl ⟨rfl, positive⟩)
    · exact Or.inl ⟨later, rfl⟩
  case text => exact fun _ _ y below _ => arrayPtr_readable txt y below
  case found =>
    rintro i j _ _ full (⟨before, rfl⟩ | ⟨rfl, short⟩ | later) hits c same
    · exact absurd hits (untouched_not_hit untouched before)
    · omega
    · omega
  case advance =>
    rintro i j _ _ _ (⟨before, rfl⟩ | ⟨rfl, short⟩ | later) hits equal
    · exact absurd hits (untouched_not_hit untouched before)
    · refine Or.inr (Or.inl ⟨rfl, ?_⟩)
      -- The search cannot advance to the `?`: the next bytes would have to be equal.
      rcases Nat.lt_or_ge (j + 1) p with below | reached
      · exact below
      · obtain rfl : p = j + 1 := by omega
        have read := equal within
        rw [arrayPtr_ok_iff.mpr wild] at read
        exact absurd (arrayPtr_ok_iff.mp read.symm) literal
    · exact Or.inr (Or.inr (by omega))
  case drop =>
    rintro i j _ _ short (⟨before, rfl⟩ | ⟨rfl, _⟩ | later) hits _
    · exact absurd hits (untouched_not_hit untouched before)
    · have bound := wildTable_le nonempty (x := j) (by omega)
      exact Or.inr (Or.inr (by omega))
    · have bound := wildTable_le nonempty (x := j) (by omega)
      exact Or.inr (Or.inr (by omega))
  case move =>
    rintro i _ _ (⟨before, _⟩ | ⟨rfl, _⟩ | later) _
    · rcases Nat.lt_or_ge (i + 1) k with more | reached
      · exact Or.inl ⟨more, rfl⟩
      · exact Or.inr (Or.inl ⟨by omega, positive⟩)
    · exact Or.inr (Or.inr (by omega))
    · exact Or.inr (Or.inr (by omega))
  case back =>
    rintro i j _ _ short more (⟨_, rfl⟩ | ⟨rfl, _⟩ | later) _
    · exact absurd more (Nat.lt_irrefl 0)
    · have bound := wildTable_le nonempty (x := j - 1) (by omega)
      exact Or.inr (Or.inr (by omega))
    · have bound := wildTable_le nonempty (x := j - 1) (by omega)
      exact Or.inr (Or.inr (by omega))
  case out => exact fun _ _ _ c same => by omega

/-- If every later `?` stands over another there, the search returns the place. -/
theorem search_finds (nonempty : pat ≠ []) {k : ℕ} (stands : StandsAt pat txt k) (untouched : Untouched pat txt k)
    (marks : OverMarks pat txt k) : search pat txt = .ok (k : ℤ) := by
  have fits := stands.1
  have positive := List.length_pos_iff.mpr nonempty
  have hit_all : ∀ {x}, x < pat.length → Hit hitWild (arrayPtr pat) (arrayPtr txt) x (k + x) := fun inside =>
    hit_iff.mpr ⟨inside, by omega, stands.2 _ inside⟩
  have rule : SearchRule hitWild (arrayPtr pat) (arrayPtr txt) pat.length txt.length (wildTable pat)
      (fun i j => (i < k ∧ j = 0) ∨ i = k + j) (fun result => result = (k : ℤ)) := by
    constructor
    case start =>
      rcases Nat.eq_zero_or_pos k with rfl | later
      · exact Or.inr rfl
      · exact Or.inl ⟨later, rfl⟩
    case text => exact fun _ _ y below _ => arrayPtr_readable txt y below
    case found =>
      rintro i j _ _ _ (⟨before, rfl⟩ | rfl) hits
      · exact absurd hits (untouched_not_hit untouched before)
      · rw [Nat.add_sub_cancel]
    case advance =>
      rintro i j _ _ _ (⟨before, rfl⟩ | rfl) hits _
      · exact absurd hits (untouched_not_hit untouched before)
      · exact Or.inr rfl
    case drop =>
      rintro i j within _ short (⟨before, rfl⟩ | rfl) hits differs
      · exact absurd hits (untouched_not_hit untouched before)
      · -- Also a `?` of the pattern is compared as a byte, and is equal to the text's.
        have same : pat[j + 1]? = txt[k + (j + 1)]? := by
          rcases stands.2 (j + 1) short with wild | equal
          · rw [wild, marks (j + 1) (Nat.succ_pos j) wild]
          · exact equal
        rw [← Nat.add_assoc, List.getElem?_eq_getElem short] at same
        refine absurd ?_ differs
        rw [arrayPtr_getElem short, arrayPtr_ok_iff.mpr same.symm]
    case move =>
      rintro i _ _ (⟨before, _⟩ | rfl) miss
      · rcases Nat.lt_or_ge (i + 1) k with more | reached
        · exact Or.inl ⟨more, rfl⟩
        · exact Or.inr (by omega)
      · exact absurd (hit_all positive) miss
    case back =>
      rintro i j _ _ short more (⟨_, rfl⟩ | rfl) miss
      · exact absurd more (Nat.lt_irrefl 0)
      · exact absurd (hit_all short) miss
    case out =>
      rintro j _ short (⟨before, _⟩ | finished)
      · omega
      · omega
  obtain ⟨result, ran, rfl⟩ := search_rule _ nonempty rule
  exact ran

/-- In a text without the byte `?` such a pattern is never found. -/
theorem search_misses (nonempty : pat ≠ []) (absent : WILDCARD ∉ txt) {p : ℕ} (positive : 0 < p)
    (wild : pat[p]? = some WILDCARD) : search pat txt = .ok (-1) := by
  have inside : p < pat.length := (List.getElem?_eq_some_iff.mp wild).1
  have rule : SearchRule hitWild (arrayPtr pat) (arrayPtr txt) pat.length txt.length (wildTable pat)
      (fun i j => j < p ∨ (j = p ∧ i = txt.length)) (fun result => result = -1) := by
    constructor
    case start => exact Or.inl positive
    case text => exact fun _ _ y below _ => arrayPtr_readable txt y below
    case found =>
      rintro i j _ _ full (before | ⟨_, finished⟩) _
      · omega
      · omega
    case advance =>
      rintro i j within _ _ (before | ⟨_, finished⟩) _ equal
      · rcases Nat.lt_or_ge (j + 1) p with below | reached
        · exact Or.inl below
        · obtain rfl : p = j + 1 := by omega
          refine Or.inr ⟨rfl, Nat.le_antisymm within ?_⟩
          by_contra more
          have read := equal (by omega)
          rw [arrayPtr_ok_iff.mpr wild] at read
          exact absent (List.mem_of_getElem? (arrayPtr_ok_iff.mp read.symm))
      · omega
    case drop =>
      rintro i j _ _ short (before | ⟨_, finished⟩) _ _
      · have bound := wildTable_le nonempty (x := j) (by omega)
        exact Or.inl (by omega)
      · omega
    case move => exact fun _ _ _ _ => Or.inl positive
    case back =>
      rintro i j _ _ short later (before | ⟨_, finished⟩) _
      · have bound := wildTable_le nonempty (x := j - 1) (by omega)
        exact Or.inl (by omega)
      · omega
    case out => exact fun _ _ _ => rfl
  obtain ⟨result, ran, rfl⟩ := search_rule _ nonempty rule
  exact ran

/-- The text that a pattern with a `?` at position `p` stands in and is missed
in: the pattern itself, with another byte there. -/
def overwritten (pat : List UInt8) (p N : ℕ) : List UInt8 := pat.set p 0 ++ List.replicate (N - pat.length) 0

theorem overwritten_stands {p N : ℕ} (wild : pat[p]? = some WILDCARD) : StandsAt pat (overwritten pat p N) 0 := by
  refine ⟨by simp [overwritten], fun x inside => ?_⟩
  rw [overwritten, List.getElem?_append_left (by simpa using inside)]
  by_cases same : p = x
  · subst same
    exact Or.inl wild
  · exact Or.inr (by simp [List.getElem?_set_ne same])

theorem length_overwritten {p N : ℕ} (long : pat.length ≤ N) : (overwritten pat p N).length = N := by
  simp only [overwritten, List.length_append, List.length_set, List.length_replicate]
  omega

theorem overwritten_literal {p N : ℕ} (inside : p < pat.length) :
    (overwritten pat p N)[p]? ≠ some WILDCARD := by
  rw [overwritten, List.getElem?_append_left (by simpa using inside), List.getElem?_set_self inside]
  decide

/-- For all texts of a length: those that are too short hold no match, and in the
others only a `?` at the start is harmless. -/
theorem missesNothing_length_iff (nonempty : pat ≠ []) (N : ℕ) :
    (∀ txt, txt.length = N → MissesNothing pat txt) ↔ N < pat.length ∨ OnlyFirst pat := by
  constructor
  · intro holds
    by_contra fails
    obtain ⟨long, later⟩ := not_or.mp fails
    simp only [OnlyFirst, not_forall, not_not] at later
    obtain ⟨p, positive, wild⟩ := later
    have inside : p < pat.length := (List.getElem?_eq_some_iff.mp wild).1
    have size := length_overwritten (p := p) (Nat.le_of_not_lt long)
    have least : IsLeast {k | StandsAt pat (overwritten pat p N) k} 0 :=
      ⟨overwritten_stands wild, fun k _ => Nat.zero_le k⟩
    obtain ⟨found, ran, bound⟩ := holds _ size 0 least
    have literal : (overwritten pat p N)[0 + p]? ≠ some WILDCARD := by
      rw [Nat.zero_add]
      exact overwritten_literal inside
    obtain ⟨result, ran', later⟩ := search_leaves nonempty untouched_zero positive wild (by omega) literal
    rw [ran, Except.ok.injEq] at ran'
    have above := later found ran'.symm
    omega
  · rintro (short | onlyFirst) txt rfl
    · intro k least
      have fits := least.1.1
      omega
    · exact missesNothing_of_onlyFirst nonempty onlyFirst txt

/-- For one text that has no `?` of its own. -/
theorem missesNothing_text_iff (nonempty : pat ≠ []) (absent : WILDCARD ∉ txt) :
    MissesNothing pat txt ↔ OnlyFirst pat ∨ ∀ k, ¬ StandsAt pat txt k := by
  constructor
  · intro holds
    by_contra fails
    obtain ⟨later, stands⟩ := not_or.mp fails
    simp only [OnlyFirst, not_forall, not_not] at later stands
    obtain ⟨p, positive, wild⟩ := later
    classical
    obtain ⟨found, ran, _⟩ := holds _ (Nat.isLeast_find stands)
    rw [search_misses nonempty absent positive wild, Except.ok.injEq] at ran
    omega
  · rintro (onlyFirst | none)
    · exact missesNothing_of_onlyFirst nonempty onlyFirst txt
    · exact fun k least => absurd least.1 (none k)

/-- A place that the search comes to with nothing matched is the first one. -/
theorem least_of_untouched {k : ℕ} (nonempty : pat ≠ []) (stands : StandsAt pat txt k)
    (untouched : Untouched pat txt k) : IsLeast {k | StandsAt pat txt k} k := by
  refine ⟨stands, fun c other => ?_⟩
  by_contra above
  have before : c < k := Nat.lt_of_not_le above
  rcases other.2 0 (List.length_pos_iff.mpr nonempty) with wild | equal
  · exact (untouched c before).1 wild
  · exact (untouched c before).2 equal

/-- For one text where the search comes to the first match with nothing matched. -/
theorem missesNothing_untouched_iff {k : ℕ} (nonempty : pat ≠ []) (stands : StandsAt pat txt k)
    (untouched : Untouched pat txt k) : MissesNothing pat txt ↔ OverMarks pat txt k := by
  have least := least_of_untouched nonempty stands untouched
  constructor
  · intro holds p positive wild
    by_contra literal
    obtain ⟨found, ran, bound⟩ := holds k least
    have fits := stands.1
    have inside : p < pat.length := (List.getElem?_eq_some_iff.mp wild).1
    obtain ⟨result, ran', later⟩ := search_leaves nonempty untouched positive wild (by omega) literal
    rw [ran, Except.ok.injEq] at ran'
    have above := later found ran'.symm
    omega
  · intro marks c other
    exact ⟨k, search_finds nonempty stands untouched marks, Nat.le_of_eq (least.unique other)⟩

/-- What keeps one text from being missed: only the first byte of the pattern can
be a `?`; or the pattern stands nowhere in the text; or the search comes to its
first place with nothing matched, and there each later `?` stands over another. -/
def Unmissable (pat txt : List UInt8) : Prop :=
  OnlyFirst pat ∨ (∀ k, ¬ StandsAt pat txt k) ∨
    ∃ k, StandsAt pat txt k ∧ Untouched pat txt k ∧ OverMarks pat txt k

theorem missesNothing_of_unmissable (nonempty : pat ≠ []) (unmissable : Unmissable pat txt) :
    MissesNothing pat txt := by
  rcases unmissable with onlyFirst | none | ⟨k, stands, untouched, marks⟩
  · exact missesNothing_of_onlyFirst nonempty onlyFirst txt
  · exact fun k least => absurd least.1 (none k)
  · exact (missesNothing_untouched_iff nonempty stands untouched).mpr marks

/-- **What is missed.** In the texts of a length that can hold the pattern, the
search misses nothing exactly when only the first byte of the pattern can be a
`?`. For one text that is enough, and so are two other conditions. They are exact
in a text without the byte `?`, where a pattern with a later one is missed
wherever it stands, and in a text where the search comes to the first place with
nothing matched. -/
theorem missesNothing_iff (pat : List UInt8) (nonempty : pat ≠ []) :
    (∀ N, (∀ txt, txt.length = N → MissesNothing pat txt) ↔ N < pat.length ∨ OnlyFirst pat) ∧
      (∀ txt, Unmissable pat txt → MissesNothing pat txt) ∧
      (∀ txt, WILDCARD ∉ txt → (MissesNothing pat txt ↔ OnlyFirst pat ∨ ∀ k, ¬ StandsAt pat txt k)) ∧
      ∀ txt k, StandsAt pat txt k → Untouched pat txt k → (MissesNothing pat txt ↔ OverMarks pat txt k) :=
  ⟨missesNothing_length_iff nonempty, fun _ => missesNothing_of_unmissable nonempty,
    fun _ absent => missesNothing_text_iff nonempty absent,
    fun _ _ stands untouched => missesNothing_untouched_iff nonempty stands untouched⟩

/-- For the pattern `a?`, and its place in `xa?`. -/
theorem missesNothing_iff_sample :
    ((∀ txt, txt.length = 3 → MissesNothing [97, 63] txt) ↔ 3 < 2 ∨ OnlyFirst [97, 63]) ∧
      (MissesNothing [97, 63] [120, 97, 63] ↔ OverMarks [97, 63] [120, 97, 63] 1) := by
  obtain ⟨lengths, _, _, places⟩ := missesNothing_iff [97, 63] (by decide)
  exact ⟨lengths 3, places [120, 97, 63] 1 ⟨by decide, by decide⟩ (by unfold Untouched; decide)⟩

/-- `a?` stands in `ab`, and is not found there. -/
theorem wildcard_missed :
    ¬ ∀ pat txt, pat ≠ [] → MissesNothing pat txt := by
  intro all
  have least : IsLeast {k | StandsAt [97, 63] [97, 98] k} 0 :=
    ⟨⟨by decide, by decide⟩, fun k _ => Nat.zero_le k⟩
  obtain ⟨result, ran, _⟩ := all [97, 63] [97, 98] (by decide) 0 least
  have missed : search [97, 63] [97, 98] = .ok (-1) := rfl
  rw [missed, Except.ok.injEq] at ran
  omega

end ClrDumper.WildcardSearch
