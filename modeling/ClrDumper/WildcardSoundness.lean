import ClrDumper.PatternCovers

/-! Which patterns `KMPSearchWild` reports real matches of only. After a mismatch
the search goes on as if the bytes before it were a prefix of the pattern again;
for the bytes under a `?` the table takes that for granted. A pattern is reported
truly in every text exactly when it never has to: whenever a byte is accepted
after a mismatch, each literal of the prefix stands over the same literal. In one
text it is enough that the prefix stands there. -/
namespace ClrDumper.WildcardSoundness
open Execution Memory Matching FallbackTables Kmp KmpLoops WildcardSearch CompatibleBorders PatternCovers

/-- An index that the search returns is a place where the pattern stands. -/
def ReportsMatches (pat txt : List UInt8) : Prop :=
  ∀ k : ℕ, search pat txt = .ok (k : ℤ) → StandsAt pat txt k

/-- The first `n` bytes of the pattern stand in the text at place `k`. -/
def PrefixAt (pat txt : List UInt8) (k n : ℕ) : Prop :=
  ∀ x < n, pat[x]? = some WILDCARD ∨ pat[x]? = txt[k + x]?

/-- Wherever the first bytes of the pattern stand in the text before a byte that
is not the pattern's next: the pattern is straight so far, and going down from
their longest compatible border to the longest one of that and so on, the first
that accepts the byte stands before it. -/
def FallbacksStand (pat txt : List UInt8) : Prop :=
  ∀ i j byte, 0 < j → j < pat.length → j ≤ i → PrefixAt pat txt (i - j) j → txt[i]? = some byte →
    pat[j]? ≠ some byte → Straight (Compatible pat) j ∧
      ∀ b l, LongestOverlap (Compatible pat) j b →
        Reaches (fun x _ => Accepts pat x byte) (LongestOverlap (Compatible pat)) j b l → PrefixAt pat txt (i - l) l

variable {pat txt : List UInt8} {i j k l n : ℕ} {byte : UInt8}

theorem accepts_iff_hit (inside : j < pat.length) (read : txt[i]? = some byte) :
    Accepts pat j byte ↔ Hit hitWild (arrayPtr pat) (arrayPtr txt) j i := by
  have within := (List.getElem?_eq_some_iff.mp read).1
  rw [hit_iff, read]
  simp [Accepts, inside, within]

theorem prefixAt_iff_matches (short : n ≤ pat.length) (fits : k + n ≤ txt.length) :
    PrefixAt pat txt k n ↔ Matches (Hit hitWild (arrayPtr pat) (arrayPtr txt)) k n := by
  apply forall_congr'
  intro x
  apply forall_congr'
  intro inside
  have below : x < pat.length := by omega
  have within : k + x < txt.length := by omega
  rw [hit_iff]
  simp [below, within]

/-- A prefix that covers the end of a match stands there itself. -/
theorem covered_stands (covered : Covered pat j l) (shorter : l ≤ j) (below : j ≤ i)
    (stands : PrefixAt pat txt (i - j) j) : PrefixAt pat txt (i - l) l := by
  intro x inside
  have laid := stands (j - l + x) (by omega)
  have place : i - j + (j - l + x) = i - l + x := by omega
  rw [place] at laid
  rcases covered x inside with wild | same
  · exact Or.inl wild
  · rw [same]
    exact laid

/-- Clean fallbacks stand in every text. -/
theorem fallbacksStand_of_clean (clean : CleanFallbacks pat) (txt : List UInt8) : FallbacksStand pat txt := by
  intro i j byte positive short below stands read differs
  have before : ∀ n, n ≤ j → ∀ m, 0 < m → m ≤ n → CleanAt pat m := fun n inside m positive less =>
    clean m positive (by omega)
  constructor
  · intro n inside positive
    exact straightAt_of_clean (before n (Nat.le_of_lt inside)) positive (by omega)
  · intro b l longest reaches
    have less := longestOverlap_lt longest
    have lower := longest_reaches_le reaches
    have covered := covered_of_clean (before j (Nat.le_refl j)) positive differs longest reaches
    exact covered_stands covered (by omega) below stands

/-! ## The table -/

/-- From a position that the table led to, the search goes on at the first one
of the table's chain that accepts the text byte. -/
def Resumes (pat : List UInt8) (byte : UInt8) (j l : ℕ) : Prop :=
  Reaches (fun x _ => Accepts pat x byte) (EntryStep (wildTable pat)) 0 j l

theorem resumes_here (accepts : Accepts pat j byte) : Resumes pat byte j j := .here accepts

theorem resumes_back (refused : ¬ Accepts pat j byte) (positive : 0 < j)
    (resumes : Resumes pat byte (wildTable pat (j - 1)) l) : Resumes pat byte j l :=
  .down refused ⟨positive, rfl⟩ resumes

/-- The chain ends at the first position that accepts the byte. -/
theorem resumes_eq (accepts : Accepts pat j byte) (path : Resumes pat byte j l) : j = l :=
  reaches_unique (resumes_here accepts) path

/-- From any other it goes on. -/
theorem resumes_next (refused : ¬ Accepts pat j byte) (path : Resumes pat byte j l) :
    0 < j ∧ Resumes pat byte (wildTable pat (j - 1)) l := by
  cases path with
  | here accepts => exact absurd accepts refused
  | down _ taken rest =>
    obtain ⟨positive, rfl⟩ := taken
    exact ⟨positive, rest⟩

theorem resumes_le (nonempty : pat ≠ []) (resumes : Resumes pat byte j l) (inside : j < pat.length) : l ≤ j := by
  unfold Resumes at resumes
  induction resumes with
  | here _ => exact Nat.le_refl _
  | @down j next l _ taken _ ih =>
    obtain ⟨positive, rfl⟩ := taken
    have bound := wildTable_le nonempty (x := j - 1) (by omega)
    have below := ih (by omega)
    omega

theorem wildTable_fallsBack (nonempty : pat ≠ []) : FallsBack (Compatible pat) (wildTable pat) pat.length := by
  obtain ⟨lps, built, table, _⟩ := computeLPSArrayWith_fallsBack sameByteWild (arrayPtr_readable pat)
    (List.length_pos_iff.mpr nonempty) (tableBlock pat.length) (Nat.le_refl _)
  have same : wildTable pat = entry lps := by simp only [wildTable, computeLPSArrayWild, built]
  rw [same_eq_compatible] at table
  rwa [same]

/-- As far as the pattern is straight, the table leads to its longest compatible
borders. -/
theorem resumes_iff_reaches (byte : UInt8) (l : ℕ) (nonempty : pat ≠ []) (positive : 0 < j) (short : j ≤ pat.length)
    (straight : Straight (Compatible pat) j) :
    LongestOverlap (Compatible pat) j (wildTable pat (j - 1)) ∧ (Resumes pat byte (wildTable pat (j - 1)) l ↔
      Reaches (fun x _ => Accepts pat x byte) (LongestOverlap (Compatible pat)) j (wildTable pat (j - 1)) l) := by
  have entries := (longest_iff_straight (fallsBack_mono (wildTable_fallsBack nonempty) short)).mpr straight
  have longest := entries (j - 1) (by omega)
  rw [Nat.sub_add_cancel positive] at longest
  have less := longestOverlap_lt longest
  have chain : Resumes pat byte (wildTable pat (j - 1)) l ↔ Reaches (fun x _ => Accepts pat x byte)
      (EntryStep (wildTable pat)) j (wildTable pat (j - 1)) l :=
    ⟨fun path => reaches_turn (fun _ => id) (reaches_end path) path,
      fun path => reaches_turn (fun _ => id) (reaches_end path) path⟩
  exact ⟨longest, chain.trans (reaches_longest_iff fun x below => entries x (by omega))⟩

/-- Wherever the search goes on after a mismatch, the prefix is matched. -/
def ResumesMatched (pat txt : List UInt8) : Prop :=
  ∀ i j byte, 0 < j → j < pat.length → j ≤ i → Matches (Hit hitWild (arrayPtr pat) (arrayPtr txt)) (i - j) j →
    txt[i]? = some byte → pat[j]? ≠ some byte → ∀ l, Resumes pat byte (wildTable pat (j - 1)) l →
      Matches (Hit hitWild (arrayPtr pat) (arrayPtr txt)) (i - l) l

theorem resumesMatched_of_stand (nonempty : pat ≠ []) (stand : FallbacksStand pat txt) : ResumesMatched pat txt := by
  intro i j byte positive short below matched read differs l resumes
  have within := (List.getElem?_eq_some_iff.mp read).1
  have prefixed := (prefixAt_iff_matches (Nat.le_of_lt short) (by omega)).mpr matched
  obtain ⟨straight, walks⟩ := stand i j byte positive short below prefixed read differs
  obtain ⟨longest, chain⟩ := resumes_iff_reaches byte l nonempty positive (Nat.le_of_lt short) straight
  have lower := longest_reaches_le (chain.mp resumes)
  have less := longestOverlap_lt longest
  exact (prefixAt_iff_matches (by omega) (by omega)).mp (walks _ l longest (chain.mp resumes))

/-! ## Fallbacks that stand are enough -/

/-- Before a pass: `j` bytes are matched, or the search is on its way back from a
match of `whole` bytes that `byte` ended. -/
inductive Tracks (pat txt : List UInt8) (i j : ℕ) : Prop
  | matched : Matches (Hit hitWild (arrayPtr pat) (arrayPtr txt)) (i - j) j → Tracks pat txt i j
  | falling {whole : ℕ} {byte : UInt8} : Matches (Hit hitWild (arrayPtr pat) (arrayPtr txt)) (i - whole) whole →
    whole ≤ i → j < whole → whole < pat.length → txt[i]? = some byte → pat[whole]? ≠ some byte →
    (∀ l, Resumes pat byte j l → Resumes pat byte (wildTable pat (whole - 1)) l) → Tracks pat txt i j

/-- Whatever the state, a byte that is accepted is accepted after a real match. -/
theorem tracks_extend (matches' : ResumesMatched pat txt) (below : j ≤ i) (inside : j < pat.length)
    (tracks : Tracks pat txt i j) (hits : Hit hitWild (arrayPtr pat) (arrayPtr txt) j i) :
    Matches (Hit hitWild (arrayPtr pat) (arrayPtr txt)) (i - j) (j + 1) := by
  have place : i - j + j = i := by omega
  rw [matches_succ_iff, place]
  refine ⟨?_, hits⟩
  cases tracks with
  | matched whole => exact whole
  | falling whole bound less short read differs chain =>
    have resumes := chain j (resumes_here ((accepts_iff_hit inside read).mpr hits))
    exact matches' _ _ _ (by omega) short bound whole read differs j resumes

/-- After a mismatch at `j` matched bytes the search is on its way back. -/
theorem tracks_fall (nonempty : pat ≠ []) (below : j ≤ i) (positive : 0 < j) (short : j < pat.length)
    (matched : Matches (Hit hitWild (arrayPtr pat) (arrayPtr txt)) (i - j) j) (read : txt[i]? = some byte)
    (differs : pat[j]? ≠ some byte) : Tracks pat txt i (wildTable pat (j - 1)) := by
  have bound := wildTable_le nonempty (x := j - 1) (by omega)
  exact .falling matched below (by omega) short read differs fun _ resumes => resumes

theorem reportsMatches_of_resumes (nonempty : pat ≠ []) (matches' : ResumesMatched pat txt) :
    ReportsMatches pat txt := by
  have rule : SearchRule hitWild (arrayPtr pat) (arrayPtr txt) pat.length txt.length (wildTable pat)
      (Tracks pat txt) (fun result => ∀ k : ℕ, result = k → StandsAt pat txt k) := by
    constructor
    case start => exact .matched matches_zero
    case text => exact fun _ _ y within _ => arrayPtr_readable txt y within
    case found =>
      intro i j inside below full tracks hits k same
      obtain rfl : k = i - j := by omega
      have whole := tracks_extend matches' below (by omega) tracks hits
      rw [full] at whole
      have place : i - j ∈ Places (Hit hitWild (arrayPtr pat) (arrayPtr txt)) pat.length txt.length :=
        ⟨by omega, whole⟩
      rwa [places_eq] at place
    case advance =>
      intro i j _ below short tracks hits _
      have whole := tracks_extend matches' below (by omega) tracks hits
      have start : i + 1 - (j + 1) = i - j := by omega
      exact .matched (start ▸ whole)
    case drop =>
      intro i j inside below short tracks hits differs
      have whole := tracks_extend matches' below (by omega) tracks hits
      have start : i + 1 - (j + 1) = i - j := by omega
      have read := List.getElem?_eq_getElem inside
      apply tracks_fall (j := j + 1) nonempty (by omega) (Nat.succ_pos j) short (start ▸ whole) read
      rw [Ne, ← arrayPtr_ok_iff, ← arrayPtr_getElem inside]
      exact differs
    case move => exact fun _ _ _ _ => .matched matches_zero
    case back =>
      intro i j inside below short positive tracks miss
      have read := List.getElem?_eq_getElem inside
      cases tracks with
      | matched whole =>
        apply tracks_fall nonempty below positive short whole read
        exact fun equal => miss ((accepts_iff_hit short read).mp (Or.inr equal))
      | falling whole bound less fits read differs chain =>
        have refused := mt (accepts_iff_hit short read).mp miss
        have lower := wildTable_le nonempty (x := j - 1) (by omega)
        exact .falling whole bound (by omega) fits read differs fun l resumes =>
          chain l (resumes_back refused positive resumes)
    case out => exact fun _ _ _ k same => by omega
  obtain ⟨result, ran, holds⟩ := search_rule _ nonempty rule
  intro k found
  rw [ran, Except.ok.injEq] at found
  exact holds k found

/-- In one text it is enough that its fallbacks stand. -/
theorem reportsMatches_of_stand (nonempty : pat ≠ []) (stand : FallbacksStand pat txt) : ReportsMatches pat txt :=
  reportsMatches_of_resumes nonempty (resumesMatched_of_stand nonempty stand)

/-! ## Clean fallbacks are needed -/

/-- The text that leads the search to resume at `l`: the first `j` bytes of the
pattern, a byte that does not continue them, and what follows position `l`. -/
def misleading (pat : List UInt8) (j l : ℕ) (byte : UInt8) : List UInt8 :=
  pat.take j ++ byte :: pat.drop (l + 1)

section Misleading

variable (short : j < pat.length)
include short

theorem misleading_front {y : ℕ} (before : y < j) : (misleading pat j l byte)[y]? = pat[y]? := by
  rw [misleading, List.getElem?_append_left (by simp; omega), List.getElem?_take_of_lt before]

theorem misleading_byte : (misleading pat j l byte)[j]? = some byte := by
  have length : (pat.take j).length = j := by simp; omega
  rw [misleading, List.getElem?_append_right (by omega), length, Nat.sub_self]
  rfl

theorem misleading_back {d : ℕ} (later : 0 < d) : (misleading pat j l byte)[j + d]? = pat[l + d]? := by
  have length : (pat.take j).length = j := by simp; omega
  obtain ⟨e, rfl⟩ : ∃ e, d = e + 1 := ⟨d - 1, by omega⟩
  have shift : j + (e + 1) - j = e + 1 := by omega
  have place : l + 1 + e = l + (e + 1) := by omega
  rw [misleading, List.getElem?_append_right (by omega), length, shift, List.getElem?_cons_succ,
    List.getElem?_drop, place]

theorem misleading_length (byte : UInt8) (within : l < pat.length) :
    (misleading pat j l byte).length = j + (pat.length - l) := by
  simp only [misleading, List.length_append, List.length_take, List.length_cons, List.length_drop]
  omega

end Misleading

/-- Equal bytes are accepted, and do not make the search fall back. -/
theorem hit_of_same (inside : j < pat.length) (within : i < txt.length) (same : txt[i]? = pat[j]?) :
    Hit hitWild (arrayPtr pat) (arrayPtr txt) j i :=
  hit_iff.mpr ⟨inside, within, Or.inr same.symm⟩

theorem reads_of_same (inside : j < pat.length) (same : txt[i]? = pat[j]?) : arrayPtr pat j = arrayPtr txt i := by
  rw [List.getElem?_eq_getElem inside] at same
  rw [arrayPtr_getElem inside, arrayPtr_ok_iff.mpr same]

/-- Where the search is in the misleading text: in the front, on its way back at
the byte that ended it, or behind that byte. -/
inductive Misled (pat : List UInt8) (byte : UInt8) (j l a b : ℕ) : Prop
  | front : a = b → b < j → Misled pat byte j l a b
  | resuming : a = j → Resumes pat byte b l → Misled pat byte j l a b
  | behind {d : ℕ} : 0 < d → a = j + d → b = l + d → Misled pat byte j l a b

theorem misled_rule (nonempty : pat ≠ []) (positive : 0 < j) (short : j < pat.length)
    (differs : pat[j]? ≠ some byte) (resumes : Resumes pat byte (wildTable pat (j - 1)) l) :
    SearchRule hitWild (arrayPtr pat) (arrayPtr (misleading pat j l byte)) pat.length
      (misleading pat j l byte).length (wildTable pat) (Misled pat byte j l)
      (fun result => result = ((j - l : ℕ) : ℤ)) := by
  have bound := wildTable_le nonempty (x := j - 1) (by omega)
  have lower := resumes_le nonempty resumes (by omega)
  have length := misleading_length short byte (l := l) (by omega)
  have differ_reads : arrayPtr pat j ≠ arrayPtr (misleading pat j l byte) j := by
    rw [arrayPtr_ok_iff.mpr (misleading_byte short)]
    exact fun same => differs (arrayPtr_ok_iff.mp same)
  have at_byte : ∀ {x}, x < pat.length → (Accepts pat x byte ↔
      Hit hitWild (arrayPtr pat) (arrayPtr (misleading pat j l byte)) x j) :=
    fun inside => accepts_iff_hit inside (misleading_byte short)
  constructor
  case start => exact .front rfl positive
  case text => exact fun _ _ y within _ => arrayPtr_readable _ y within
  case found =>
    rintro a b within _ full (⟨rfl, before⟩ | ⟨rfl, path⟩ | @⟨d, _, rfl, rfl⟩) hits
    · omega
    · rw [resumes_eq ((at_byte (by omega)).mpr hits) path]
    · congr 1
      omega
  case advance =>
    rintro a b within _ fits (⟨rfl, before⟩ | ⟨rfl, path⟩ | @⟨d, later, rfl, rfl⟩) hits next
    · refine .front rfl (Nat.lt_of_le_of_ne before ?_)
      rintro rfl
      exact differ_reads (next (by omega))
    · rw [resumes_eq ((at_byte (by omega)).mpr hits) path]
      exact .behind Nat.one_pos rfl rfl
    · exact .behind (Nat.succ_pos d) rfl rfl
  case drop =>
    rintro a b within _ fits (⟨rfl, before⟩ | ⟨rfl, path⟩ | @⟨d, later, rfl, rfl⟩) hits next
    · rcases Nat.lt_or_eq_of_le before with less | rfl
      · exact absurd (reads_of_same fits (misleading_front short less)) next
      · exact .resuming rfl resumes
    · rw [resumes_eq ((at_byte (by omega)).mpr hits) path] at next fits
      exact absurd (reads_of_same fits (misleading_back short Nat.one_pos)) next
    · exact absurd (reads_of_same fits (misleading_back short (d := d + 1) (Nat.succ_pos d))) next
  case move =>
    rintro a within _ (⟨rfl, before⟩ | ⟨rfl, path⟩ | @⟨d, later, _, empty⟩) miss
    · exact absurd (hit_of_same (by omega) within (misleading_front short before)) miss
    · have refused := mt (at_byte (by omega)).mp miss
      exact absurd (resumes_next refused path).1 (Nat.lt_irrefl 0)
    · omega
  case back =>
    rintro a b within _ fits more (⟨rfl, before⟩ | ⟨rfl, path⟩ | @⟨d, later, rfl, rfl⟩) miss
    · exact absurd (hit_of_same fits within (misleading_front short before)) miss
    · have refused := mt (at_byte fits).mp miss
      exact .resuming rfl (resumes_next refused path).2
    · exact absurd (hit_of_same fits within (misleading_back short later)) miss
  case out =>
    rintro b _ fits (⟨finished, before⟩ | ⟨finished, _⟩ | @⟨d, _, finished, rfl⟩)
    · omega
    · omega
    · omega

/-- In that text the search reports the place that it resumed at, whether the
pattern stands there or not. -/
theorem search_misleading (nonempty : pat ≠ []) (positive : 0 < j) (short : j < pat.length)
    (differs : pat[j]? ≠ some byte) (resumes : Resumes pat byte (wildTable pat (j - 1)) l) :
    search pat (misleading pat j l byte) = .ok ((j - l : ℕ) : ℤ) := by
  obtain ⟨result, ran, rfl⟩ := search_rule _ nonempty (misled_rule nonempty positive short differs resumes)
  exact ran

/-- So a prefix that the table leads to covers. -/
theorem covered_of_reports (nonempty : pat ≠ []) (holds : ∀ txt, ReportsMatches pat txt) (positive : 0 < j)
    (short : j < pat.length) (differs : pat[j]? ≠ some byte)
    (resumes : Resumes pat byte (wildTable pat (j - 1)) l) : Covered pat j l := by
  intro x inside
  have bound := wildTable_le nonempty (x := j - 1) (by omega)
  have lower := resumes_le nonempty resumes (by omega)
  have stands := holds _ _ (search_misleading nonempty positive short differs resumes)
  have place := stands.2 x (by omega)
  rwa [misleading_front short (by omega)] at place

/-- The table is right as far as the fallbacks are clean, so the next one is clean
too. -/
theorem clean_of_reports (nonempty : pat ≠ []) (holds : ∀ txt, ReportsMatches pat txt) : CleanFallbacks pat := by
  intro j
  induction j using Nat.strong_induction_on with
  | h j ih =>
    intro positive short b l longest reaches
    have straight : Straight (Compatible pat) j := fun n inside later =>
      straightAt_of_clean (fun i first below => ih i (by omega) first (by omega)) later (by omega)
    have less := longestOverlap_lt longest
    have lower := longest_reaches_le reaches
    obtain ⟨byte, differs, path⟩ := byte_of_other short (by omega) reaches
    obtain ⟨longest', chain⟩ := resumes_iff_reaches byte l nonempty positive (Nat.le_of_lt short) straight
    obtain rfl := longest.unique longest'
    exact covered_of_reports nonempty holds positive short differs (chain.mpr path)

/-- The patterns that are searched for exactly have clean fallbacks. -/
theorem clean_of_onlyFirst (nonempty : pat ≠ []) (onlyFirst : OnlyFirst pat) : CleanFallbacks pat := by
  apply clean_of_reports nonempty
  intro txt k found
  obtain ⟨result, ran, absent | ⟨c, rfl, leftmost⟩⟩ := search_onlyFirst nonempty onlyFirst txt
  · rw [ran, absent.1, Except.ok.injEq] at found
    omega
  · rw [ran, Except.ok.injEq, Int.natCast_inj] at found
    exact found ▸ leftmost.1

end ClrDumper.WildcardSoundness
