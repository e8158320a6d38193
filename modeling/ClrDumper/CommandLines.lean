import Mathlib.Data.Nat.Notation
import Mathlib.Tactic.Common

/-! The standard rules by which a Windows program splits its command line into
arguments. Blanks outside quotes separate them, and backslashes are special only
in front of a quote. A line without quotes is split at its blanks: words that
are joined by single blanks come back as they were, and no argument of such a
line contains a blank. -/
namespace ClrDumper.CommandLines

/-- A space or a tab. -/
def isBlank (byte : UInt8) : Bool := byte == 32 || byte == 9

def BACKSLASH : UInt8 := 92

def QUOTE : UInt8 := 34

/-- The program name: everything up to the first blank outside quotes, without
the quotes; backslashes are ordinary in it. And what comes after that blank. -/
def programName : (quoted : Bool) → List UInt8 → List UInt8 × List UInt8
  | _, [] => ([], [])
  | quoted, byte :: rest =>
    if byte = QUOTE then programName (!quoted) rest
    else if isBlank byte && !quoted then ([], rest)
    else
      let (name, after) := programName quoted rest
      (byte :: name, after)

inductive Mode where
  | plain
  | quoted
  /-- Directly behind the quote that ended a quoted part. -/
  | closed
  deriving DecidableEq

/-- How far the arguments after the program name have been read. -/
structure Reading where
  finished : List (List UInt8)
  /-- The argument being read, if one has begun, up to the last backslashes. -/
  current : Option (List UInt8)
  /-- The backslashes that a quote would turn into half as many. -/
  slashes : ℕ
  mode : Mode

/-- The argument being read, with its backslashes as they stand. -/
def Reading.text (r : Reading) : List UInt8 := r.current.getD [] ++ List.replicate r.slashes BACKSLASH

def readByte (r : Reading) (byte : UInt8) : Reading :=
  if byte = BACKSLASH then
    { r with current := some (r.current.getD []), slashes := r.slashes + 1,
             mode := if r.mode = .quoted then .quoted else .plain }
  else if byte = QUOTE then
    let halved := r.current.getD [] ++ List.replicate (r.slashes / 2) BACKSLASH
    if r.slashes % 2 = 1 then { r with current := some (halved ++ [QUOTE]), slashes := 0 }
    else
      match r.mode with
      | .plain => { r with current := some halved, slashes := 0, mode := .quoted }
      | .quoted => { r with current := some halved, slashes := 0, mode := .closed }
      -- A doubled quote inside quotes stands for one.
      | .closed => { r with current := some (halved ++ [QUOTE]), slashes := 0, mode := .quoted }
  else if isBlank byte && r.mode ≠ .quoted then
    match r.current with
    | some _ => { finished := r.finished ++ [r.text], current := none, slashes := 0, mode := .plain }
    | none => r
  else
    { r with current := some (r.text ++ [byte]), slashes := 0,
             mode := if r.mode = .quoted then .quoted else .plain }

/-- The arguments when the line is used up. -/
def Reading.arguments (r : Reading) : List (List UInt8) :=
  match r.current with
  | some _ => r.finished ++ [r.text]
  | none => r.finished

def splitArguments (line : List UInt8) : List (List UInt8) :=
  let (name, after) := programName false line
  name :: (after.foldl readByte ⟨[], none, 0, .plain⟩).arguments

/-! ## Lines without quotes -/

/-- A byte that is neither a blank nor a quote. -/
def Ordinary (byte : UInt8) : Prop := isBlank byte = false ∧ byte ≠ QUOTE

instance (byte : UInt8) : Decidable (Ordinary byte) := inferInstanceAs (Decidable (_ ∧ _))

/-- A nonempty word of such bytes. -/
def Word (word : List UInt8) : Prop := word ≠ [] ∧ ∀ byte ∈ word, Ordinary byte

variable {word : List UInt8} {byte : UInt8} {r : Reading}

theorem ordinary_of_all {bytes : List UInt8} (all : (bytes.all fun byte => decide (Ordinary byte)) = true) :
    ∀ byte ∈ bytes, Ordinary byte :=
  fun byte member => of_decide_eq_true (List.all_eq_true.mp all byte member)

/-- An ordinary byte is one more of the argument. -/
theorem read_ordinary (plain : r.mode = .plain) (ordinary : Ordinary byte) :
    (readByte r byte).finished = r.finished ∧ (readByte r byte).text = r.text ++ [byte] ∧
      (readByte r byte).current.isSome = true ∧ (readByte r byte).mode = .plain := by
  by_cases slash : byte = BACKSLASH
  · simp [readByte, slash, Reading.text, plain, List.replicate_succ']
  · simp [readByte, slash, ordinary.1, ordinary.2, Reading.text, plain]

/-- So a word is read into the argument as it stands. -/
theorem read_word (plain : r.mode = .plain) (isWord : Word word) :
    (word.foldl readByte r).finished = r.finished ∧ (word.foldl readByte r).text = r.text ++ word ∧
      (word.foldl readByte r).current.isSome = true ∧ (word.foldl readByte r).mode = .plain := by
  obtain ⟨nonempty, ordinary⟩ := isWord
  induction word generalizing r with
  | nil => exact absurd rfl nonempty
  | cons first rest ih =>
    obtain ⟨finished, text, begun, mode⟩ := read_ordinary plain (ordinary first List.mem_cons_self)
    rw [List.foldl_cons]
    by_cases last : rest = []
    · subst last
      exact ⟨finished, text, begun, mode⟩
    · obtain ⟨finished', text', begun', mode'⟩ :=
        ih mode last fun byte member => ordinary byte (List.mem_cons_of_mem _ member)
      exact ⟨finished'.trans finished, by rw [text', text, List.append_assoc]; rfl, begun', mode'⟩

theorem blank_other (blank : isBlank byte = true) : byte ≠ BACKSLASH ∧ byte ≠ QUOTE := by
  constructor
  · rintro rfl
    cases blank
  · rintro rfl
    cases blank

/-- And a blank behind it ends the argument. -/
theorem read_blank (plain : r.mode = .plain) (begun : r.current.isSome = true) (blank : isBlank byte = true) :
    readByte r byte = ⟨r.finished ++ [r.text], none, 0, .plain⟩ := by
  obtain ⟨notSlash, notQuote⟩ := blank_other blank
  obtain ⟨text, current⟩ := Option.isSome_iff_exists.mp begun
  simp [readByte, notSlash, notQuote, blank, plain, current]

/-- Between arguments it changes nothing. -/
theorem read_blank_between (plain : r.mode = .plain) (between : r.current = none) (blank : isBlank byte = true) :
    readByte r byte = r := by
  obtain ⟨notSlash, notQuote⟩ := blank_other blank
  simp [readByte, notSlash, notQuote, blank, plain, between]

/-- Words joined by single blanks. -/
def unwords : List (List UInt8) → List UInt8
  | [] => []
  | [word] => word
  | word :: rest => word ++ 32 :: unwords rest

theorem read_unwords (words : List (List UInt8)) (areWords : ∀ word ∈ words, Word word)
    (finished : List (List UInt8)) :
    ((unwords words).foldl readByte ⟨finished, none, 0, .plain⟩).arguments = finished ++ words := by
  induction words generalizing finished with
  | nil => simp [unwords, Reading.arguments]
  | cons first rest ih =>
    have isWord := areWords first List.mem_cons_self
    obtain ⟨same, text, begun, mode⟩ := read_word (r := ⟨finished, none, 0, .plain⟩) rfl isWord
    have whole : (first.foldl readByte ⟨finished, none, 0, .plain⟩).text = first := text
    cases rest with
    | nil =>
      obtain ⟨current, begun⟩ := Option.isSome_iff_exists.mp begun
      simp only [unwords, Reading.arguments, begun, same, whole]
    | cons second more =>
      have blank : isBlank 32 = true := rfl
      rw [unwords, List.foldl_append, List.foldl_cons, read_blank mode begun blank, same, whole,
        ih fun word member => areWords word (List.mem_cons_of_mem _ member), List.append_assoc]
      · rfl
      · exact List.cons_ne_nil _ _

theorem programName_word (ordinary : ∀ byte ∈ word, Ordinary byte) (rest : List UInt8) :
    programName false (word ++ 32 :: rest) = (word, rest) := by
  induction word with
  | nil => rfl
  | cons first more ih =>
    obtain ⟨filled, unquoted⟩ := ordinary first List.mem_cons_self
    have tail := ih fun byte member => ordinary byte (List.mem_cons_of_mem _ member)
    rw [List.cons_append, programName, if_neg unquoted, filled, Bool.false_and, if_neg Bool.false_ne_true, tail]

/-- **Joined words.** A program name and words, joined by blanks, are split into
what was joined. -/
theorem splitArguments_unwords (program : List UInt8) (words : List (List UInt8))
    (ordinary : ∀ byte ∈ program, Ordinary byte) (areWords : ∀ word ∈ words, Word word) :
    splitArguments (program ++ 32 :: unwords words) = program :: words := by
  rw [splitArguments, programName_word ordinary]
  dsimp only
  rw [read_unwords words areWords, List.nil_append]

/-- What has been read of a line without quotes holds no blank. -/
structure Blankless (r : Reading) : Prop where
  finished : ∀ argument ∈ r.finished, ∀ byte ∈ argument, isBlank byte = false
  text : ∀ byte ∈ r.text, isBlank byte = false
  mode : r.mode = .plain

theorem blankless_read (blankless : Blankless r) (noQuote : byte ≠ QUOTE) : Blankless (readByte r byte) := by
  obtain ⟨finished, text, mode⟩ := blankless
  by_cases blank : isBlank byte = true
  · cases begun : r.current with
    | none =>
      rw [read_blank_between mode begun blank]
      exact ⟨finished, text, mode⟩
    | some current =>
      rw [read_blank mode (by rw [begun]; rfl) blank]
      refine ⟨fun argument member => ?_, fun byte member => absurd member List.not_mem_nil, rfl⟩
      rcases List.mem_append.mp member with before | last
      · exact finished argument before
      · rw [List.mem_singleton.mp last]
        exact text
  · have ordinary : Ordinary byte := ⟨Bool.eq_false_iff.mpr blank, noQuote⟩
    obtain ⟨same, longer, _, mode'⟩ := read_ordinary mode ordinary
    refine ⟨same ▸ finished, fun other member => ?_, mode'⟩
    rw [longer] at member
    rcases List.mem_append.mp member with before | last
    · exact text other before
    · rw [List.mem_singleton.mp last]
      exact ordinary.1

theorem blankless_arguments (blankless : Blankless r) :
    ∀ argument ∈ r.arguments, ∀ byte ∈ argument, isBlank byte = false := by
  intro argument member
  unfold Reading.arguments at member
  split at member
  · rcases List.mem_append.mp member with before | last
    · exact blankless.finished argument before
    · rw [List.mem_singleton.mp last]
      exact blankless.text
  · exact blankless.finished argument member

theorem programName_blankless {line : List UInt8} (noQuote : QUOTE ∉ line) :
    (∀ byte ∈ (programName false line).1, isBlank byte = false) ∧ QUOTE ∉ (programName false line).2 := by
  induction line with
  | nil => exact ⟨fun byte member => absurd member List.not_mem_nil, List.not_mem_nil⟩
  | cons first rest ih =>
    rw [List.mem_cons, not_or] at noQuote
    obtain ⟨name, after⟩ := ih noQuote.2
    rw [programName, if_neg (Ne.symm noQuote.1)]
    by_cases blank : isBlank first = true
    · rw [blank, if_pos (by rfl)]
      exact ⟨fun byte member => absurd member List.not_mem_nil, noQuote.2⟩
    · rw [if_neg (by simpa using blank)]
      refine ⟨fun byte member => ?_, after⟩
      rcases List.mem_cons.mp member with rfl | later
      · exact Bool.eq_false_iff.mpr blank
      · exact name byte later

/-- **No blanks.** An argument of a line without quotes contains no blank. -/
theorem splitArguments_blankless {line : List UInt8} (noQuote : QUOTE ∉ line) :
    ∀ argument ∈ splitArguments line, ∀ byte ∈ argument, isBlank byte = false := by
  obtain ⟨name, after⟩ := programName_blankless noQuote
  have run : ∀ (rest : List UInt8) (r : Reading), QUOTE ∉ rest → Blankless r → Blankless (rest.foldl readByte r) := by
    intro rest
    induction rest with
    | nil => exact fun _ _ blankless => blankless
    | cons first rest ih =>
      intro r noQuote blankless
      rw [List.mem_cons, not_or] at noQuote
      exact ih _ noQuote.2 (blankless_read blankless (Ne.symm noQuote.1))
  have start : Blankless ⟨[], none, 0, .plain⟩ :=
    ⟨fun argument member => absurd member List.not_mem_nil, fun byte member => absurd member List.not_mem_nil, rfl⟩
  intro argument member
  rcases List.mem_cons.mp member with rfl | later
  · exact name
  · exact blankless_arguments (run _ _ after start) argument later

end ClrDumper.CommandLines
