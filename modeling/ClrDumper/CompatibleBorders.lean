import ClrDumper.FallbackTables
import ClrDumper.WildcardSearch

/-! What `computeLPSArrayWild` leaves in its table. Each entry is made by falling
back over the entries before it, as in the plain version. With a `?` after the
first byte that can end in a length that is no border of the pattern, or pass
over the longest one: two bytes that a `?` may stand for need not be equal. -/
namespace ClrDumper.CompatibleBorders
open Execution Memory Matching FallbackTables Kmp KmpLoops KmpProofs WildcardSearch

variable {same : UInt8 → UInt8 → Bool} {pat : BytePtr} {M : ℕ}

/-! ## Every table -/

/-- Before a pass of the table loop: the entries below `i` are made by falling
back, and going on from `len` makes entry `i`. -/
structure Recording (S : ℕ → ℕ → Prop) (M bytes : ℕ) (s : TableState) : Prop where
  building : Building M bytes s
  entries : FallsBack S (entry s.lps) s.i
  pending : ∀ value, Makes S (entry s.lps) s.i s.len value → Makes S (entry s.lps) s.i (entry s.lps (s.i - 1)) value

theorem entry_stored (lps : IntBlock) (i l : ℕ) :
    entry { lps with stored := Function.update lps.stored i (some l) } i = l := by
  simp [entry]

theorem entry_other (lps : IntBlock) {i x : ℕ} (l : ℕ) (other : x ≠ i) :
    entry { lps with stored := Function.update lps.stored i (some l) } x = entry lps x := by
  simp [entry, other]

/-- Storing what going on from `len` makes completes the table up to `i`. -/
theorem recording_store {S : ℕ → ℕ → Prop} {bytes i len l : ℕ} {lps : IntBlock}
    (recording : Recording S M bytes ⟨i, len, lps⟩) (inside : i < M) (room : 4 * M ≤ bytes) (small : l ≤ i)
    (makes : Makes S (entry lps) i len l) :
    Recording S M bytes ⟨i + 1, l, { lps with stored := Function.update lps.stored i (some l) }⟩ := by
  obtain ⟨⟨position, shorter, filled, held, block⟩, entries, pending⟩ := recording
  dsimp only at *
  have stored := entry_stored lps i l
  constructor
  case building =>
    refine ⟨inside, ?_, filled_update filled small, ?_, block⟩ <;> dsimp only <;> omega
  case entries =>
    apply fallsBack_snoc entries fun x below => entry_other lps l (Nat.ne_of_lt below)
    · rwa [stored]
    · intro _
      rw [stored]
      exact pending l makes
  case pending =>
    intro value made
    dsimp only at *
    rwa [Nat.add_sub_cancel, stored]

/-- A pass of the table loop either ends it, or goes on to make entries by
falling back. -/
theorem tablePass_records (same : UInt8 → UInt8 → Bool) (readable : Readable pat M) {bytes : ℕ}
    (room : 4 * M ≤ bytes) (s : TableState) (recording : Recording (Same same pat) M bytes s) :
    PassSpec (Recording (Same same pat) M bytes)
      (fun lps => FallsBack (Same same pat) (entry lps) M ∧ Filled lps M ∧ lps.bytes = bytes)
      (fun s => 2 * (M - s.i) + s.len) (tablePass same pat M) s := by
  obtain ⟨i, len, lps⟩ := s
  obtain ⟨⟨position, shorter, filled, held, block⟩, entries, pending⟩ := id recording
  dsimp only at *
  by_cases inside : i < M
  · right
    obtain ⟨a, here⟩ := readable i inside
    obtain ⟨b, prior⟩ := readable len (by omega)
    have holds : lps.Holds i := by simp only [IntBlock.Holds]; omega
    rcases tablePass_cases same lps inside here prior with
      ⟨equal, ran⟩ | ⟨differ, nonzero, ran⟩ | ⟨differ, rfl, ran⟩
    · have extended : Same same pat len i := ⟨shorter, a, b, here, prior, equal⟩
      exact ⟨_, by rw [ran, IntBlock.set_holds holds]; rfl,
        recording_store recording inside room shorter (makes_here extended), by dsimp only; omega⟩
    · have positive := Nat.pos_of_ne_zero nonzero
      have less := entry_le filled (x := len - 1) (by omega)
      refine ⟨⟨i, entry lps (len - 1), lps⟩, ?_, ⟨⟨position, ?_, filled, held, block⟩, entries, ?_⟩, ?_⟩
      · rw [ran, get_entry filled held (by omega)]
        rfl
      · dsimp only
        omega
      · intro value made
        apply pending value
        exact makes_down (not_same here prior differ) positive made
      · dsimp only
        omega
    · exact ⟨_, by rw [ran, IntBlock.set_holds holds]; rfl,
        recording_store recording inside room (Nat.zero_le i) (makes_none (not_same here prior differ)),
        by dsimp only; omega⟩
  · left
    have finished : i = M := by omega
    exact ⟨lps, by simp [tablePass, inside], finished ▸ entries, finished ▸ filled, block⟩

/-- Whatever the comparison, the table is made by falling back. -/
theorem computeLPSArrayWith_fallsBack (same : UInt8 → UInt8 → Bool) (readable : Readable pat M) (nonempty : 0 < M)
    (block : IntBlock) (room : 4 * M ≤ block.bytes) :
    ∃ lps, computeLPSArrayWith same pat M block = .ok lps ∧ FallsBack (Same same pat) (entry lps) M ∧
      Filled lps M ∧ lps.bytes = block.bytes := by
  have holds : block.Holds 0 := by simp only [IntBlock.Holds]; omega
  have first := entry_stored block 0 0
  have start : Recording (Same same pat) M block.bytes
      ⟨1, 0, { block with stored := Function.update block.stored 0 (some 0) }⟩ := by
    constructor
    case building => exact building_start nonempty (by omega)
    case entries =>
      apply fallsBack_snoc (T := fun _ => 0) fallsBack_zero fun x below => absurd below (Nat.not_lt_zero x)
      · exact Nat.le_of_eq first
      · exact fun positive => absurd positive (Nat.lt_irrefl 0)
    case pending =>
      intro value made
      dsimp only at *
      rwa [Nat.sub_self, first]
  have enough : 2 * (M - 1) + 0 < 2 * M + 1 := by omega
  obtain ⟨lps, ran, made⟩ := while_total (tablePass_records same readable room) start enough
  exact ⟨lps, by simpa [computeLPSArrayWith, IntBlock.set_holds holds] using ran, made⟩

/-! ## Wildcards -/

/-- The byte at `x` and the later one at `y` are equal, or one of them is a `?`. -/
def Compatible (pat : List UInt8) (x y : ℕ) : Prop :=
  x < y ∧ ∃ a b, pat[x]? = some a ∧ pat[y]? = some b ∧ (b = a ∨ b = WILDCARD ∨ a = WILDCARD)

/-- The lengths of the compatible borders of the bytes up to index `i`: as many
of the first bytes as of the last ones, each compatible with its counterpart. -/
def compatibleBorders (pat : List UInt8) (i : ℕ) : Set ℕ := {l | l ≤ i ∧ ∀ t < l, Compatible pat t (i - l + 1 + t)}

/-- `computeLPSArrayWild` terminates with the longest compatible borders. -/
def TableLongest (pat : List UInt8) : Prop :=
  ∃ lps, computeLPSArrayWild (arrayPtr pat) pat.length (tableBlock pat.length) = .ok lps ∧
    ∀ i < pat.length, ∃ l, lps.get i = .ok l ∧ IsGreatest (compatibleBorders pat i) l

theorem same_eq_compatible (pat : List UInt8) : Same sameByteWild (arrayPtr pat) = Compatible pat := by
  funext x y
  simp only [Same, Compatible, arrayPtr_ok_iff, eq_iff_iff]
  apply and_congr_right
  intro _
  constructor
  · rintro ⟨b, a, readY, readX, test⟩
    exact ⟨a, b, readX, readY, by simpa [sameByteWild, or_assoc] using test⟩
  · rintro ⟨a, b, readX, readY, test⟩
    exact ⟨b, a, readY, readX, by simpa [sameByteWild, or_assoc] using test⟩

theorem longest_iff_greatest {pat : List UInt8} {i l : ℕ} :
    LongestOverlap (Compatible pat) (i + 1) l ↔ IsGreatest (compatibleBorders pat i) l := by
  have borders : {l | Overlap (Compatible pat) (i + 1) l} = compatibleBorders pat i := by
    ext l
    simp only [Overlap, Matches, compatibleBorders, Set.mem_ofPred_eq, Nat.lt_succ_iff]
    apply and_congr_right
    intro small
    rw [Nat.sub_add_comm small]
  rw [LongestOverlap, borders]

/-- A pattern whose first byte alone may be a `?` is straight. -/
theorem straight_of_onlyFirst {pat : List UInt8} (nonempty : pat ≠ []) (onlyFirst : OnlyFirst pat) :
    Straight (Compatible pat) pat.length := by
  have readable := arrayPtr_readable pat
  have positive := List.length_pos_iff.mpr nonempty
  obtain ⟨lps, built, table, _⟩ := computeLPSArrayWith_fallsBack sameByteWild readable positive
    (tableBlock pat.length) (Nat.le_refl _)
  obtain ⟨lps', built', exact_table, _⟩ := computeLPSArrayWith_spec (wild_covering onlyFirst).own readable positive
    (tableBlock pat.length) (Nat.le_refl _)
  rw [built, Except.ok.injEq] at built'
  subst built'
  rw [same_eq_compatible] at table exact_table
  apply (longest_iff_straight table).mp
  intro n inside
  obtain ⟨l, stored, longest⟩ := exact_table n inside
  simpa [entry, stored] using longest

/-- **Compatible borders.** The table holds the longest ones exactly if, at every
position of the pattern, going down from the longest compatible border to the
longest one of that and so on first meets, of those that the position extends,
the longest. -/
theorem tableLongest_iff (pat : List UInt8) (nonempty : pat ≠ []) :
    TableLongest pat ↔ Straight (Compatible pat) pat.length := by
  obtain ⟨lps, built, table, filled, size⟩ := computeLPSArrayWith_fallsBack sameByteWild (arrayPtr_readable pat)
    (List.length_pos_iff.mpr nonempty) (tableBlock pat.length) (Nat.le_refl _)
  rw [same_eq_compatible] at table
  rw [← longest_iff_straight table]
  have room : 4 * pat.length ≤ lps.bytes := Nat.le_of_eq size.symm
  constructor
  · rintro ⟨lps', built', longest⟩ i inside
    rw [computeLPSArrayWild, built, Except.ok.injEq] at built'
    subst built'
    obtain ⟨l, got, greatest⟩ := longest i inside
    rw [get_entry filled room inside, Except.ok.injEq] at got
    rw [got]
    exact longest_iff_greatest.mpr greatest
  · intro longest
    refine ⟨lps, built, fun i inside => ⟨entry lps i, get_entry filled room inside, ?_⟩⟩
    exact longest_iff_greatest.mp (longest i inside)

/-- For the pattern `a?b`. -/
theorem tableLongest_iff_sample : TableLongest [97, 63, 98] ↔ Straight (Compatible [97, 63, 98]) 3 :=
  tableLongest_iff [97, 63, 98] (by decide)

/-- The last entry for `a?bc` is 2, but `a?` is not compatible with `bc`. -/
theorem chain_leaves_borders : ¬ ∀ pat, pat ≠ [] → TableLongest pat := by
  intro all
  obtain ⟨lps, built, longest⟩ := all [97, 63, 98, 99] (by decide)
  obtain ⟨l, got, greatest⟩ := longest 3 (by decide)
  have table : (do (← computeLPSArrayWild (arrayPtr [97, 63, 98, 99]) 4 (tableBlock 4)).get 3) = .ok 2 := rfl
  change computeLPSArrayWild (arrayPtr [97, 63, 98, 99]) 4 (tableBlock 4) = .ok lps at built
  rw [built, ok_bind, got, Except.ok.injEq] at table
  subst table
  obtain ⟨_, a, b, readA, readB, test⟩ := greatest.1.2 0 (by decide)
  cases readA
  cases readB
  exact absurd test (by decide)

end ClrDumper.CompatibleBorders
