import ClrDumper.Kmp

/-! The two loops of `kmp.cpp`, whatever their comparisons are: what a pass does,
what the table holds in any case, and a rule for the search that leaves to its
user only what the states of a run have in common. -/
namespace ClrDumper.KmpLoops
open Execution Memory Kmp

variable {same hit : UInt8 → UInt8 → Bool} {pat txt : BytePtr} {M N : ℕ} {lps : IntBlock}

/-! ## The table -/

/-- Entry `x` of a table. -/
def entry (lps : IntBlock) (x : ℕ) : ℕ := (lps.stored x).getD 0

/-- The first `n` entries were stored, each as a number not above its index. -/
def Filled (lps : IntBlock) (n : ℕ) : Prop := ∀ x < n, ∃ l ≤ x, lps.stored x = some l

theorem filled_update {l : ℕ} (filled : Filled lps n) (small : l ≤ n) :
    Filled { lps with stored := Function.update lps.stored n (some l) } (n + 1) := by
  intro x below
  rcases Nat.lt_succ_iff_lt_or_eq.mp below with inside | rfl
  · obtain ⟨c, bound, stored⟩ := filled x inside
    exact ⟨c, bound, by simp [Function.update_of_ne (Nat.ne_of_lt inside), stored]⟩
  · exact ⟨l, small, by simp⟩

theorem entry_le (filled : Filled lps n) {x : ℕ} (inside : x < n) : entry lps x ≤ x := by
  obtain ⟨l, bound, stored⟩ := filled x inside
  simpa [entry, stored] using bound

theorem get_entry (filled : Filled lps n) (room : 4 * n ≤ lps.bytes) {x : ℕ} (inside : x < n) :
    lps.get x = .ok (entry lps x) := by
  obtain ⟨l, _, stored⟩ := filled x inside
  have holds : lps.Holds x := by simp only [IntBlock.Holds]; omega
  rw [IntBlock.get_stored holds stored]
  simp [entry, stored]

/-- The three things that a pass of the table loop can do. -/
theorem tablePass_cases (same : UInt8 → UInt8 → Bool) (lps : IntBlock) {i len : ℕ} (inside : i < M) {a b : UInt8} (here : pat i = .ok a)
    (prior : pat len = .ok b) :
    (same a b = true ∧ tablePass same pat M ⟨i, len, lps⟩ =
        (do return .again ⟨i + 1, len + 1, ← lps.set i (len + 1)⟩)) ∨
      (same a b = false ∧ len ≠ 0 ∧ tablePass same pat M ⟨i, len, lps⟩ =
        (do return .again ⟨i, ← lps.get (len - 1), lps⟩)) ∨
      (same a b = false ∧ len = 0 ∧ tablePass same pat M ⟨i, len, lps⟩ =
        (do return .again ⟨i + 1, 0, ← lps.set i 0⟩)) := by
  cases test : same a b with
  | true => exact Or.inl ⟨rfl, by simp [tablePass, inside, here, prior, test]⟩
  | false =>
    by_cases empty : len = 0
    · subst empty
      exact Or.inr (Or.inr ⟨rfl, rfl, by simp [tablePass, inside, here, prior, test]⟩)
    · exact Or.inr (Or.inl ⟨rfl, empty, by simp [tablePass, inside, here, prior, test, empty]⟩)

/-- Before a pass of the table loop on a block: the entries below `i` were
stored, and the block holds them. -/
structure Building (M bytes : ℕ) (s : TableState) : Prop where
  position : s.i ≤ M
  shorter : s.len < s.i
  filled : Filled s.lps s.i
  held : 4 * s.i ≤ s.lps.bytes
  block : s.lps.bytes = bytes

/-- A pass goes on to a state of that kind and raises `2 * i - len`, unless the
entry that it stores lies beyond the block. -/
theorem tablePass_building (same : UInt8 → UInt8 → Bool) (readable : Readable pat M) {bytes : ℕ} {s : TableState}
    (building : Building M bytes s) (inside : s.i < M) :
    (∃ next, tablePass same pat M s = .ok (.again next) ∧ Building M bytes next ∧
        2 * (M - next.i) + next.len < 2 * (M - s.i) + s.len) ∨
      (bytes < 4 * s.i + 4 ∧ tablePass same pat M s = .error .access) := by
  obtain ⟨i, len, lps⟩ := s
  obtain ⟨position, shorter, filled, held, block⟩ := building
  dsimp only at *
  obtain ⟨a, here⟩ := readable i inside
  obtain ⟨b, prior⟩ := readable len (by omega)
  have store : ∀ l, l ≤ i → (∃ next, lps.set i l = .ok next ∧ Filled next (i + 1) ∧
      4 * (i + 1) ≤ next.bytes ∧ next.bytes = bytes) ∨ (bytes < 4 * i + 4 ∧ lps.set i l = .error .access) := by
    intro l small
    by_cases room : 4 * i + 4 ≤ lps.bytes
    · exact Or.inl ⟨_, IntBlock.set_holds room, filled_update filled small, room, block⟩
    · have outside : ¬ lps.Holds i := room
      exact Or.inr ⟨by omega, by simp [IntBlock.set, outside]⟩
  rcases tablePass_cases same lps inside here prior with
    ⟨_, ran⟩ | ⟨_, positive, ran⟩ | ⟨_, rfl, ran⟩
  · rcases store (len + 1) shorter with ⟨next, stored, more, room, size⟩ | ⟨small, fails⟩
    · exact Or.inl ⟨⟨i + 1, len + 1, next⟩, by rw [ran, stored]; rfl, ⟨inside, by dsimp only; omega, more, room, size⟩,
        by dsimp only; omega⟩
    · exact Or.inr ⟨small, by rw [ran, fails]; rfl⟩
  · have less := entry_le filled (x := len - 1) (by omega)
    refine Or.inl ⟨⟨i, entry lps (len - 1), lps⟩, ?_, ⟨position, by dsimp only; omega, filled, held, block⟩, by
      dsimp only; omega⟩
    rw [ran, get_entry filled held (by omega)]
    rfl
  · rcases store 0 (Nat.zero_le _) with ⟨next, stored, more, room, size⟩ | ⟨small, fails⟩
    · exact Or.inl ⟨⟨i + 1, 0, next⟩, by rw [ran, stored]; rfl, ⟨inside, by dsimp only; omega, more, room, size⟩,
        by dsimp only; omega⟩
    · exact Or.inr ⟨small, by rw [ran, fails]; rfl⟩

/-- The state in which the loop is entered, if the block holds entry 0. -/
theorem building_start (nonempty : 0 < M) {block : IntBlock} (room : 4 ≤ block.bytes) :
    Building M block.bytes ⟨1, 0, { block with stored := Function.update block.stored 0 (some 0) }⟩ :=
  ⟨nonempty, Nat.zero_lt_one, filled_update (fun x below => absurd below (Nat.not_lt_zero x)) (Nat.le_refl 0),
    room, rfl⟩

/-- On a block with room for `M` entries the table is completed, whatever the
comparison. -/
theorem computeLPSArray_fills (same : UInt8 → UInt8 → Bool) (readable : Readable pat M) (nonempty : 0 < M)
    (block : IntBlock) (room : 4 * M ≤ block.bytes) :
    ∃ lps, computeLPSArrayWith same pat M block = .ok lps ∧ Filled lps M ∧ lps.bytes = block.bytes := by
  have first : block.Holds 0 := by simp only [IntBlock.Holds]; omega
  have enough : 2 * (M - 1) + 0 < 2 * M + 1 := by omega
  have pass : ∀ s, Building M block.bytes s →
      PassSpec (Building M block.bytes) (fun lps => Filled lps M ∧ lps.bytes = block.bytes)
        (fun s => 2 * (M - s.i) + s.len) (tablePass same pat M) s := by
    intro s building
    by_cases inside : s.i < M
    · right
      rcases tablePass_building same readable building inside with more | ⟨small, _⟩
      · exact more
      · omega
    · left
      have position := building.position
      have finished : s.i = M := by omega
      exact ⟨s.lps, by simp [tablePass, inside], finished ▸ building.filled, building.block⟩
  obtain ⟨lps, ran, filled, bytes⟩ := while_total pass (building_start nonempty (by omega)) enough
  exact ⟨lps, by simpa [computeLPSArrayWith, IntBlock.set_holds first] using ran, filled, bytes⟩

/-- On a smaller block an entry is stored beyond its end, whatever the
comparison and whatever the pattern. -/
theorem computeLPSArray_faults (same : UInt8 → UInt8 → Bool) (readable : Readable pat M) (nonempty : 0 < M)
    {block : IntBlock} (small : block.bytes < 4 * M) :
    computeLPSArrayWith same pat M block = .error .access := by
  by_cases first : block.Holds 0
  · have pass : ∀ s, Building M block.bytes s → tablePass same pat M s = .error .access ∨
        ∃ next, tablePass same pat M s = .ok (.again next) ∧ Building M block.bytes next ∧
          2 * (M - next.i) + next.len < 2 * (M - s.i) + s.len := by
      intro s building
      have held := building.held
      rw [building.block] at held
      rcases tablePass_building same readable building (by omega) with more | ⟨_, fails⟩
      · exact Or.inr more
      · exact Or.inl fails
    have enough : 2 * (M - 1) + 0 < 2 * M + 1 := by omega
    have fails := while_faults pass (building_start nonempty (by simpa [IntBlock.Holds] using first)) enough
    simpa [computeLPSArrayWith, IntBlock.set_holds first] using fails
  · simp [computeLPSArrayWith, IntBlock.set, first]

/-! ## The search -/

/-- The search accepts text byte `y` at position `x` of the pattern. -/
def Hit (hit : UInt8 → UInt8 → Bool) (pat txt : BytePtr) (x y : ℕ) : Prop :=
  ∃ p t, pat x = .ok p ∧ txt y = .ok t ∧ hit p t = true

/-- What a user of the search has to know of `inv`, which relates `i` and `j`
before every pass, and of `post`. In every case `i` and `j` are in range, with
`j` bytes matched before `i`. The text is read only where the pattern would
stand if the matched bytes were its first. -/
structure SearchRule (hit : UInt8 → UInt8 → Bool) (pat txt : BytePtr) (M N : ℕ) (T : ℕ → ℕ)
    (inv : ℕ → ℕ → Prop) (post : ℤ → Prop) : Prop where
  start : inv 0 0
  text : ∀ {i j}, j ≤ i → inv i j → ∀ y < N, y < i - j + M → ∃ t, txt y = .ok t
  /-- The whole pattern is matched. -/
  found : ∀ {i j}, i < N → j ≤ i → j + 1 = M → inv i j → Hit hit pat txt j i → post ((i - j : ℕ) : ℤ)
  /-- A byte is matched, and the next one is the pattern's next. -/
  advance : ∀ {i j}, i < N → j ≤ i → j + 1 < M → inv i j → Hit hit pat txt j i →
    (i + 1 < N → pat (j + 1) = txt (i + 1)) → inv (i + 1) (j + 1)
  /-- A byte is matched, but the next one differs from the pattern's next. -/
  drop : ∀ {i j}, i + 1 < N → j ≤ i → j + 1 < M → inv i j → Hit hit pat txt j i →
    pat (j + 1) ≠ txt (i + 1) → inv (i + 1) (T j)
  /-- No byte was matched, and none is. -/
  move : ∀ {i}, i < N → 0 < M → inv i 0 → ¬ Hit hit pat txt 0 i → inv (i + 1) 0
  /-- The byte after the matched ones is not. -/
  back : ∀ {i j}, i < N → j ≤ i → j < M → 0 < j → inv i j → ¬ Hit hit pat txt j i → inv i (T (j - 1))
  /-- The text is used up. -/
  out : ∀ {j}, j ≤ N → j < M → inv N j → post (-1)

/-- What is known before every pass. -/
structure Searching (M N : ℕ) (inv : ℕ → ℕ → Prop) (s : SearchState) : Prop where
  position : s.i ≤ N
  matched : s.j ≤ s.i
  short : s.j < M
  holds : inv s.i s.j

variable {inv : ℕ → ℕ → Prop} {post : ℤ → Prop}

theorem not_hit {i j : ℕ} {p t : UInt8} (readP : pat j = .ok p) (readT : txt i = .ok t) (miss : hit p t = false) :
    ¬ Hit hit pat txt j i := by
  rintro ⟨p', t', readP', readT', hits⟩
  rw [readP, Except.ok.injEq] at readP'
  rw [readT, Except.ok.injEq] at readT'
  rw [readP', readT', hits] at miss
  cases miss

/-- After a byte was matched the next one is looked at: the search falls back at
once if it differs, and stays otherwise. -/
theorem fallBack_next (txt : BytePtr) (N : ℕ) (readable : Readable pat M) (filled : Filled lps M)
    (room : 4 * M ≤ lps.bytes) {i j : ℕ}
    (short : j < M) (positive : 0 < j) (text : i < N → ∃ t, txt i = .ok t) :
    ((i < N → pat j = txt i) ∧ fallBack pat txt N lps ⟨i, j⟩ = .ok ⟨i, j⟩) ∨
      (i < N ∧ pat j ≠ txt i ∧ fallBack pat txt N lps ⟨i, j⟩ = .ok ⟨i, entry lps (j - 1)⟩) := by
  by_cases inside : i < N
  · obtain ⟨p, readP⟩ := readable j short
    obtain ⟨t, readT⟩ := text inside
    have nonzero : j ≠ 0 := Nat.ne_of_gt positive
    by_cases equal : p = t
    · exact Or.inl ⟨fun _ => by rw [readP, readT, equal], by simp [fallBack, inside, readP, readT, equal]⟩
    · have differs : pat j ≠ txt i := by rwa [readP, readT, Ne, Except.ok.injEq]
      refine Or.inr ⟨inside, differs, ?_⟩
      simp [fallBack, inside, readP, readT, equal, nonzero, get_entry filled room (show j - 1 < M by omega)]
  · exact Or.inl ⟨fun less => absurd less inside, by simp [fallBack, inside]⟩

/-- A pass keeps what the rule's user knows, and raises `2 * i - j`. -/
theorem searchPass_keeps (equal : ∀ p, hit p p = true) (readable : Readable pat M) (filled : Filled lps M)
    (room : 4 * M ≤ lps.bytes) (rule : SearchRule hit pat txt M N (entry lps) inv post) (s : SearchState)
    (searching : Searching M N inv s) :
    PassSpec (Searching M N inv) post (fun s => 2 * (N - s.i) + s.j) (searchPass hit pat M txt N lps) s := by
  obtain ⟨i, j⟩ := s
  obtain ⟨position, matched, short, holds⟩ := searching
  dsimp only at position matched short holds
  by_cases inside : i < N
  · obtain ⟨p, readP⟩ := readable j short
    obtain ⟨t, readT⟩ := rule.text matched holds i inside (by omega)
    cases test : hit p t with
    | true =>
      have hits : Hit hit pat txt j i := ⟨p, t, readP, readT, test⟩
      by_cases full : j + 1 = M
      · left
        refine ⟨_, ?_, rule.found inside matched full holds hits⟩
        simp [searchPass, inside, readP, readT, test, full]
        omega
      · right
        have bound := entry_le filled short
        rcases fallBack_next txt N (i := i + 1) readable filled room (show j + 1 < M by omega)
          (by omega) (fun less => rule.text matched holds _ less (by omega)) with ⟨same, stays⟩ | ⟨less, differs, falls⟩
        · refine ⟨⟨i + 1, j + 1⟩, by simp [searchPass, inside, readP, readT, test, full, stays], ⟨inside, ?_, ?_,
            rule.advance inside matched (by omega) holds hits same⟩, ?_⟩ <;> dsimp only <;> omega
        · refine ⟨⟨i + 1, entry lps j⟩, by simp [searchPass, inside, readP, readT, test, full, falls],
            ⟨inside, ?_, ?_, rule.drop less matched (by omega) holds hits differs⟩, ?_⟩ <;> dsimp only <;> omega
    | false =>
      right
      have miss := not_hit readP readT test
      have differs : p ≠ t := by
        rintro rfl
        rw [equal p] at test
        cases test
      by_cases empty : j = 0
      · subst empty
        refine ⟨⟨i + 1, 0⟩, ?_, ⟨inside, Nat.zero_le _, short, rule.move inside short holds miss⟩, ?_⟩
        · simp [searchPass, fallBack, inside, readP, readT, test, differs, Nat.ne_of_lt short]
        · dsimp only
          omega
      · have bound := entry_le filled (show j - 1 < M by omega)
        refine ⟨⟨i, entry lps (j - 1)⟩, ?_, ⟨position, ?_, ?_,
          rule.back inside matched short (Nat.pos_of_ne_zero empty) holds miss⟩, ?_⟩
        · simp [searchPass, fallBack, inside, readP, readT, test, differs, empty, Nat.ne_of_lt short,
            get_entry filled room (show j - 1 < M by omega)]
        all_goals dsimp only; omega
  · left
    have finished : i = N := by omega
    subst finished
    exact ⟨-1, by simp [searchPass], rule.out matched short holds⟩

/-- **The rule for the search.** It terminates, accesses nothing out of range,
and what its user knows of a result holds of the one that it returns. -/
theorem search_total (equal : ∀ p, hit p p = true) (readable : Readable pat M) (nonempty : 0 < M)
    (filled : Filled lps M) (room : 4 * M ≤ lps.bytes)
    (rule : SearchRule hit pat txt M N (entry lps) inv post) :
    ∃ result, whileLoop (searchPass hit pat M txt N lps) (2 * (N : ℤ).toNat + 1) ⟨0, 0⟩ = .ok result ∧
      post result := by
  have start : Searching M N inv ⟨0, 0⟩ := ⟨Nat.zero_le _, Nat.le_refl _, nonempty, rule.start⟩
  have enough : 2 * (N - 0) + 0 < 2 * (N : ℤ).toNat + 1 := by omega
  exact while_total (searchPass_keeps equal readable filled room rule) start enough

end ClrDumper.KmpLoops
