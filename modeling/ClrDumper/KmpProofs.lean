import Mathlib.Tactic.ByContra
import ClrDumper.Borders
import ClrDumper.KmpLoops
import ClrDumper.Matching

/-! Where its comparisons have the laws of `Matching`, the search is exact: the
table holds the longest overlaps of the pattern with itself, and the search
returns the leftmost place. That is so whenever only the first byte of the
pattern may stand for others; the plain search is the case where none does. -/
namespace ClrDumper.KmpProofs
open Execution Memory Matching Borders Kmp KmpLoops

variable {same hit : UInt8 → UInt8 → Bool} {pat txt : BytePtr} {M N : ℕ}

/-! ## The table -/

/-- The table loop takes position `x` for the later position `y`. -/
def Same (same : UInt8 → UInt8 → Bool) (pat : BytePtr) (x y : ℕ) : Prop :=
  x < y ∧ ∃ a b, pat y = .ok a ∧ pat x = .ok b ∧ same a b = true

/-- The table holds the longest overlap of every prefix up to length `n`. -/
def Table (S : ℕ → ℕ → Prop) (lps : IntBlock) (n : ℕ) : Prop :=
  ∀ x < n, ∃ l, lps.stored x = some l ∧ LongestOverlap S (x + 1) l

/-- Before a pass of the table loop: the entries below `i` are final, `len` is
an overlap of the first `i` positions, and no longer one of them can be extended
by position `i`. -/
structure Tabulating (S : ℕ → ℕ → Prop) (M bytes : ℕ) (s : TableState) : Prop where
  position : s.i ≤ M
  overlap : Overlap S s.i s.len
  rest : ∀ c, Overlap S s.i c → S c s.i → c ≤ s.len
  table : Table S s.lps s.i
  block : s.lps.bytes = bytes

theorem table_update {S : ℕ → ℕ → Prop} {lps : IntBlock} {i l : ℕ} (table : Table S lps i)
    (longest : LongestOverlap S (i + 1) l) :
    Table S { lps with stored := Function.update lps.stored i (some l) } (i + 1) := by
  intro x below
  rcases Nat.lt_succ_iff_lt_or_eq.mp below with inside | rfl
  · obtain ⟨c, stored, overlap⟩ := table x inside
    exact ⟨c, by simp [Function.update_of_ne (Nat.ne_of_lt inside), stored], overlap⟩
  · exact ⟨l, by simp, longest⟩

theorem filled_of_table {S : ℕ → ℕ → Prop} {lps : IntBlock} (table : Table S lps n) : Filled lps n := by
  intro x inside
  obtain ⟨l, stored, longest⟩ := table x inside
  exact ⟨l, Nat.le_of_lt_succ (longestOverlap_lt longest), stored⟩

theorem longest_entry {S : ℕ → ℕ → Prop} {lps : IntBlock} (table : Table S lps n) {j : ℕ} (positive : 0 < j)
    (inside : j ≤ n) : LongestOverlap S j (entry lps (j - 1)) := by
  obtain ⟨l, stored, longest⟩ := table (j - 1) (by omega)
  rw [Nat.sub_add_cancel positive] at longest
  simpa [entry, stored] using longest

/-- The comparisons of a search whose pattern covers other bytes with its first
byte at most: from the second on, a byte covers itself only. -/
structure Covering (same hit : UInt8 → UInt8 → Bool) (pat : BytePtr) (cover : UInt8 → UInt8 → Prop) : Prop where
  same_iff : ∀ {y a} b, 0 < y → pat y = .ok a → (same a b = true ↔ cover b a)
  hit_iff : ∀ p t, hit p t = true ↔ cover p t
  refl : ∀ p, cover p p
  trans : ∀ {a b c}, cover a b → cover b c → cover a c
  literal : ∀ {y a t}, 0 < y → pat y = .ok a → cover a t → a = t

/-- So the pattern can be laid over itself. -/
theorem Covering.own {cover : UInt8 → UInt8 → Prop} (covering : Covering same hit pat cover) :
    Laws (Same same pat) (Same same pat) where
  carry := by
    rintro x y z later ⟨_, a, b, readY, readX, first⟩ ⟨order, c, a', readZ, readY', second⟩
    rw [readY, Except.ok.injEq] at readY'
    subst readY'
    have positive : 0 < y := by omega
    have whole := covering.trans ((covering.same_iff b positive readY).mp first)
      ((covering.same_iff a (by omega) readZ).mp second)
    exact ⟨Nat.lt_trans later order, c, b, readZ, readX, (covering.same_iff b (by omega) readZ).mpr whole⟩
  join := by
    rintro x y z later ⟨_, c, b, readZ, readX, first⟩ ⟨_, c', a, readZ', readY, second⟩
    rw [readZ, Except.ok.injEq] at readZ'
    subst readZ'
    have positive : 0 < y := by omega
    have equal := covering.literal positive readY ((covering.same_iff a (by omega) readZ).mp second)
    subst equal
    have covers := (covering.same_iff b (by omega) readZ).mp first
    exact ⟨later, a, b, readY, readX, (covering.same_iff b positive readY).mpr covers⟩

/-- And over a text. -/
theorem Covering.laws {cover : UInt8 → UInt8 → Prop} (covering : Covering same hit pat cover) :
    Laws (Same same pat) (Hit hit pat txt) where
  carry := by
    rintro x y z later ⟨_, a, b, readY, readX, first⟩ ⟨a', t, readY', readT, second⟩
    rw [readY, Except.ok.injEq] at readY'
    subst readY'
    have whole := covering.trans ((covering.same_iff b (by omega) readY).mp first)
      ((covering.hit_iff a t).mp second)
    exact ⟨b, t, readX, readT, (covering.hit_iff b t).mpr whole⟩
  join := by
    rintro x y z later ⟨b, t, readX, readT, first⟩ ⟨a, t', readY, readT', second⟩
    rw [readT, Except.ok.injEq] at readT'
    subst readT'
    have positive : 0 < y := by omega
    have equal := covering.literal positive readY ((covering.hit_iff a t).mp second)
    subst equal
    exact ⟨later, a, b, readY, readX, (covering.same_iff b positive readY).mpr ((covering.hit_iff b a).mp first)⟩

theorem Covering.bytes {cover : UInt8 → UInt8 → Prop} (covering : Covering same hit pat cover) {x y : ℕ}
    (positive : 0 < x) (hits : Hit hit pat txt x y) : pat x = txt y := by
  obtain ⟨p, t, readP, readT, test⟩ := hits
  rw [readP, readT, covering.literal positive readP ((covering.hit_iff p t).mp test)]

theorem not_same {x y : ℕ} {a b : UInt8} (readY : pat y = .ok a) (readX : pat x = .ok b)
    (differ : same a b = false) : ¬ Same same pat x y := by
  rintro ⟨_, a', b', readY', readX', equal⟩
  rw [readY, Except.ok.injEq] at readY'
  rw [readX, Except.ok.injEq] at readX'
  rw [readY', readX', equal] at differ
  cases differ

/-- A pass of the table loop either ends it with the finished table, or keeps
what is known and raises `2 * i - len`. -/
theorem tablePass_spec (laws : Laws (Same same pat) (Same same pat)) (readable : Readable pat M) {bytes : ℕ}
    (room : 4 * M ≤ bytes) (s : TableState) (inv : Tabulating (Same same pat) M bytes s) :
    PassSpec (Tabulating (Same same pat) M bytes)
      (fun lps => Table (Same same pat) lps M ∧ lps.bytes = bytes)
      (fun s => 2 * (M - s.i) + s.len) (tablePass same pat M) s := by
  obtain ⟨i, len, lps⟩ := s
  obtain ⟨position, overlap, rest, table, block⟩ := inv
  dsimp only at position overlap rest table block
  have shorter := overlap.1
  by_cases inside : i < M
  · right
    obtain ⟨here, readHere⟩ := readable i inside
    obtain ⟨prior, readPrior⟩ := readable len (by omega)
    have holds : lps.Holds i := by simp only [IntBlock.Holds]; omega
    rcases tablePass_cases same lps inside readHere readPrior with
      ⟨equal, ran⟩ | ⟨differ, nonzero, ran⟩ | ⟨differ, rfl, ran⟩
    · have longest := longestOverlap_extend overlap ⟨shorter, here, prior, readHere, readPrior, equal⟩ rest
      refine ⟨⟨i + 1, len + 1, _⟩, by rw [ran, IntBlock.set_holds holds]; rfl, ⟨inside, longest.1,
        fun c candidate _ => longest.2 candidate, table_update table longest, block⟩, by dsimp only; omega⟩
    · have longest := longest_entry table (Nat.pos_of_ne_zero nonzero) (by omega)
      have less := longestOverlap_lt longest
      refine ⟨⟨i, entry lps (len - 1), lps⟩, ?_, ⟨position, overlap_trans laws overlap longest.1, ?_, table,
        block⟩, by dsimp only; omega⟩
      · rw [ran, get_entry (filled_of_table table) (by omega) (by omega)]
        rfl
      · intro c candidate extended
        have differs : c ≠ len := fun same => not_same readHere readPrior differ (same ▸ extended)
        have bound := rest c candidate extended
        exact longest.2 (overlap_of_overlap laws overlap candidate (by omega))
    · have none : ∀ c, Overlap (Same same pat) i c → ¬ Same same pat c i := by
        intro c candidate extended
        have zero : c = 0 := Nat.le_zero.mp (rest c candidate extended)
        exact not_same readHere readPrior differ (zero ▸ extended)
      have longest := longestOverlap_none none
      refine ⟨⟨i + 1, 0, _⟩, by rw [ran, IntBlock.set_holds holds]; rfl, ⟨inside, longest.1,
        fun c candidate _ => longest.2 candidate, table_update table longest, block⟩, by dsimp only; omega⟩
  · left
    have finished : i = M := by omega
    exact ⟨lps, by simp [tablePass, inside], finished ▸ table, block⟩

/-- The table loop terminates with the table of the longest overlaps. -/
theorem computeLPSArrayWith_spec (laws : Laws (Same same pat) (Same same pat)) (readable : Readable pat M)
    (nonempty : 0 < M) (block : IntBlock) (room : 4 * M ≤ block.bytes) :
    ∃ lps, computeLPSArrayWith same pat M block = .ok lps ∧ Table (Same same pat) lps M ∧
      lps.bytes = block.bytes := by
  have holds : block.Holds 0 := by simp only [IntBlock.Holds]; omega
  have first : LongestOverlap (Same same pat) 1 0 :=
    longestOverlap_none fun c overlap => absurd overlap.1 (by omega)
  have start : Tabulating (Same same pat) M block.bytes
      ⟨1, 0, { block with stored := Function.update block.stored 0 (some 0) }⟩ :=
    ⟨nonempty, overlap_zero (by simp), fun c overlap _ => Nat.le_of_lt_succ overlap.1,
      table_update (i := 0) (fun x below => absurd below (by omega)) first, rfl⟩
  have enough : 2 * (M - 1) + 0 < 2 * M + 1 := by omega
  obtain ⟨lps, ran, table, bytes⟩ := while_total (tablePass_spec laws readable room) start enough
  exact ⟨lps, by simpa [computeLPSArrayWith, IntBlock.set_holds holds] using ran, table, bytes⟩

/-! ## The search -/

/-- The leftmost of some places, or `-1` when there is none. -/
def Leftmost (places : Set ℕ) (result : ℤ) : Prop :=
  (result = -1 ∧ places = ∅) ∨ ∃ k : ℕ, result = k ∧ IsLeast places k

/-- Before a pass of the search loop: the `j` text positions before `i` match
the first `j` of the pattern, and no place lies before them. -/
structure Sifting (H : ℕ → ℕ → Prop) (M i j : ℕ) : Prop where
  matched : Matches H (i - j) j
  absent : ∀ k < i - j, ¬ Matches H k M

/-- Advancing over one position keeps what is known, up to a full match. -/
theorem sifting_advance {H : ℕ → ℕ → Prop} {i j : ℕ} (below : j ≤ i) (sifting : Sifting H M i j) (hits : H j i) :
    Sifting H M (i + 1) (j + 1) := by
  have start : i + 1 - (j + 1) = i - j := by omega
  have place : i - j + j = i := by omega
  refine ⟨?_, by rw [start]; exact sifting.absent⟩
  rw [start, matches_succ_iff, place]
  exact ⟨sifting.matched, hits⟩

/-- After a mismatch the search resumes at the longest overlap. -/
theorem sifting_back {S H : ℕ → ℕ → Prop} (laws : Laws S H) {i j l : ℕ} (below : j ≤ i) (short : j < M)
    (sifting : Sifting H M i j) (longest : LongestOverlap S j l) (wrong : ¬ H j i) : Sifting H M i l := by
  have less := longestOverlap_lt longest
  have place : i - j + (j - l) = i - l := by omega
  refine ⟨place ▸ matches_overlap laws sifting.matched longest.1, fun k earlier occurs => ?_⟩
  by_cases before : k < i - j
  · exact sifting.absent k before occurs
  · apply fallback_skips_none laws sifting.matched longest _ short (Nat.le_of_not_lt before)
      (place ▸ earlier) occurs
    rwa [Nat.sub_add_cancel below]

/-- A byte that starts no match is passed. -/
theorem sifting_move {H : ℕ → ℕ → Prop} {i : ℕ} (nonempty : 0 < M) (sifting : Sifting H M i 0) (wrong : ¬ H 0 i) :
    Sifting H M (i + 1) 0 := by
  refine ⟨matches_zero, fun k earlier occurs => ?_⟩
  rcases Nat.lt_succ_iff_lt_or_eq.mp earlier with before | rfl
  · exact sifting.absent k before occurs
  · exact wrong (occurs 0 nonempty)

/-- The search is exact. It reads the text up to the end of the first match. -/
theorem searchWith_spec {cover : UInt8 → UInt8 → Prop} (covering : Covering same hit pat cover)
    (readable : Readable pat M) (nonempty : 0 < M)
    (text : ∀ y < N, (∀ k ∈ Places (Hit hit pat txt) M N, y < k + M) → ∃ t, txt y = .ok t) :
    ∃ result, searchWith same hit (tableBlock M) pat M txt N = .ok result ∧
      Leftmost (Places (Hit hit pat txt) M N) result := by
  obtain ⟨lps, built, table, size⟩ :=
    computeLPSArrayWith_spec covering.own readable nonempty (tableBlock M) (Nat.le_refl _)
  have rule : SearchRule hit pat txt M N (entry lps) (Sifting (Hit hit pat txt) M)
      (Leftmost (Places (Hit hit pat txt) M N)) := by
    constructor
    case start => exact ⟨matches_zero, fun k below => absurd below (Nat.not_lt_zero k)⟩
    case text =>
      intro i j below sifting y inside near
      apply text y inside
      intro k place
      have later : ¬ k < i - j := fun earlier => sifting.absent k earlier place.2
      omega
    case found =>
      intro i j inside below full sifting hits
      have whole := sifting_advance below sifting hits
      have start : i + 1 - (j + 1) = i - j := by omega
      rw [full] at whole start
      refine Or.inr ⟨i - j, rfl, ⟨by omega, start ▸ whole.matched⟩, fun k place => ?_⟩
      by_contra earlier
      exact whole.absent k (by omega) place.2
    case advance => exact fun _ below _ sifting hits _ => sifting_advance below sifting hits
    case drop =>
      intro i j inside below short sifting hits differs
      exact sifting_back covering.laws (by omega) short (sifting_advance below sifting hits)
        (longest_entry table (Nat.succ_pos j) (Nat.le_of_lt short))
        fun next => differs (covering.bytes (Nat.succ_pos j) next)
    case move => exact fun _ nonempty sifting miss => sifting_move nonempty sifting miss
    case back =>
      intro i j inside below short positive sifting miss
      exact sifting_back covering.laws below short sifting (longest_entry table positive (Nat.le_of_lt short)) miss
    case out =>
      intro j below short sifting
      refine Or.inl ⟨rfl, Set.eq_empty_of_forall_notMem fun k place => ?_⟩
      have fits := place.1
      exact sifting.absent k (by omega) place.2
  obtain ⟨result, ran, leftmost⟩ :=
    search_total (fun p => (covering.hit_iff p p).mpr (covering.refl p)) readable nonempty (filled_of_table table) (Nat.le_of_eq size.symm) rule
  exact ⟨result, by simpa [searchWith, built] using ran, leftmost⟩

/-! ## The plain comparisons -/

theorem same_iff {x y : ℕ} (readable : Readable pat M) (inside : x < M) (later : x < y) :
    Same sameByte pat x y ↔ pat x = pat y := by
  obtain ⟨b, readX⟩ := readable x inside
  constructor
  · rintro ⟨_, a, b', readY, readX', equal⟩
    rw [readX', readY, beq_iff_eq.mp equal]
  · intro equal
    exact ⟨later, b, b, equal ▸ readX, readX, beq_self_eq_true b⟩

theorem hit_iff {x y : ℕ} (readable : Readable pat M) (inside : x < M) :
    Hit sameByte pat txt x y ↔ pat x = txt y := by
  obtain ⟨p, readX⟩ := readable x inside
  constructor
  · rintro ⟨p', t, readX', readY, equal⟩
    rw [readX', readY, beq_iff_eq.mp equal]
  · intro equal
    exact ⟨p, p, readX, equal ▸ readX, beq_self_eq_true p⟩

theorem plain_covering (pat : BytePtr) : Covering sameByte sameByte pat Eq where
  same_iff b _ _ := by
    rw [sameByte, beq_iff_eq]
    exact eq_comm
  hit_iff _ _ := beq_iff_eq
  refl _ := rfl
  trans := Eq.trans
  literal _ _ equal := equal

/-- The table holds the longest border of every prefix up to length `n`. -/
def TableOk (pat : BytePtr) (lps : IntBlock) (n : ℕ) : Prop :=
  ∀ x < n, ∃ l, lps.stored x = some l ∧ LongestBorder pat (x + 1) l

theorem longestBorder_iff (readable : Readable pat M) {n l : ℕ} (inside : n ≤ M) :
    LongestOverlap (Same sameByte pat) n l ↔ LongestBorder pat n l := by
  have same : {l | Overlap (Same sameByte pat) n l} = {l | Border pat n l} := by
    ext l
    apply and_congr_right
    intro shorter
    apply forall_congr'
    intro x
    exact forall_congr' fun below => same_iff readable (by omega) (by omega)
  rw [LongestOverlap, LongestBorder, same]

/-- `computeLPSArray` terminates with the border table of the pattern. -/
theorem computeLPSArray_spec (readable : Readable pat M) (nonempty : 0 < M) {block : IntBlock}
    (room : 4 * M ≤ block.bytes) :
    ∃ lps, computeLPSArray pat M block = .ok lps ∧ TableOk pat lps M ∧ lps.bytes = block.bytes := by
  obtain ⟨lps, ran, table, bytes⟩ := computeLPSArrayWith_spec (plain_covering pat).own readable nonempty block room
  refine ⟨lps, ran, fun x inside => ?_, bytes⟩
  obtain ⟨l, stored, longest⟩ := table x inside
  exact ⟨l, stored, (longestBorder_iff readable inside).mp longest⟩

/-- What a search returns: the leftmost occurrence, or `-1` when there is none. -/
def SearchResult (pat txt : BytePtr) (M N : ℕ) (result : ℤ) : Prop :=
  (result = -1 ∧ Occurrences pat txt M N = ∅) ∨
    ∃ k : ℕ, result = k ∧ IsLeast (Occurrences pat txt M N) k

theorem places_plain (readable : Readable pat M) :
    Places (Hit sameByte pat txt) M N = Occurrences pat txt M N := by
  ext k
  apply and_congr_right
  intro _
  apply forall_congr'
  intro x
  exact forall_congr' fun below => hit_iff readable below

/-- `KMPSearch` terminates and returns the leftmost occurrence of the pattern in
the text, or `-1` exactly when there is none. It needs no text behind the first
occurrence. -/
theorem kmpSearch_reads (readPat : Readable pat M) (nonempty : 0 < M)
    (text : ∀ y < N, (∀ k ∈ Occurrences pat txt M N, y < k + M) → ∃ t, txt y = .ok t) :
    ∃ result, kmpSearch pat M txt N = .ok result ∧ SearchResult pat txt M N result := by
  rw [← places_plain readPat] at text
  obtain ⟨result, ran, leftmost⟩ := searchWith_spec (plain_covering pat) readPat nonempty text
  refine ⟨result, ran, ?_⟩
  rw [places_plain readPat] at leftmost
  exact leftmost

theorem kmpSearch_spec (readPat : Readable pat M) (nonempty : 0 < M) (readTxt : Readable txt N) :
    ∃ result, kmpSearch pat M txt N = .ok result ∧ SearchResult pat txt M N result :=
  kmpSearch_reads readPat nonempty fun y inside _ => readTxt y inside

end ClrDumper.KmpProofs
