import ClrDumper.RequestDelivery

/-! What a round of the server can reveal of earlier ones. The round reacts to
its chunk alone exactly when the chunk holds a terminated string from which
`sscanf` takes a number and, if the number is a request, a text too. Any other
chunk is completed from what earlier rounds left in the locals. -/
namespace ClrDumper.LeftoverIndependence
open Execution CStrings Decimal Memory NamedPipeIO NamedPipeLoop RequestDelivery

/-- What a round does for a chunk. -/
def reaction (s : Server) (chunk : List UInt8) : Exec (Option Action) := do
  let (_, action) ← serve s chunk
  return action

/-- A number that the `switch` has a case for. -/
def IsRequest (type : ℤ) : Prop := type = GET_KEY_STRING ∨ type = GET_KEY_INT ∨ type = LOG_MSG

/-- The chunk's own string gives `sscanf` both a type and a text. -/
def AssignsBoth (chunk : List UInt8) : Prop :=
  ∃ type rest text, scanInt (CString.ofBytes chunk).bytes = some (type, rest) ∧ scanLine rest = some text

/-- For any two runs from servers with the same answers, whatever chunks each
of them was given before, the reactions to this chunk are the same; and there is
none if the chunk does not assign both a type and a text. -/
def Independent (chunk : List UInt8) : Prop :=
  ∀ (s t s' t' : Server) (earlier earlier' : List (List UInt8)) (actions actions' : List Action),
    SameAnswers s t → namedPipeLoop s earlier = .ok (s', actions) →
      namedPipeLoop t earlier' = .ok (t', actions') →
        ∃ action, reaction s' chunk = .ok action ∧ reaction t' chunk = .ok action ∧
          (¬ AssignsBoth chunk → action = none)

/-- The chunk holds a terminator, its string begins with a number, and if what
`%d` stores of the number is a request then a text follows it on the same line. -/
def SelfContained (chunk : List UInt8) : Prop :=
  0 ∈ chunk ∧ ∃ type rest, scanInt (CString.ofBytes chunk).bytes = some (type, rest) ∧
    (IsRequest type → ∃ text, scanLine rest = some text)

theorem dispatch_sameAnswers (ran : dispatch s = .ok (t, action)) : SameAnswers s t := by
  unfold dispatch at ran
  split at ran
  · obtain ⟨key, _, ran⟩ := bind_ok ran
    cases ran
    exact ⟨fun other => (KeyMap.lookup_touch _ _ _ other).symm, fun _ => rfl⟩
  · split at ran
    · obtain ⟨key, _, ran⟩ := bind_ok ran
      cases ran
      exact ⟨fun _ => rfl, fun other => (KeyMap.lookup_touch _ _ _ other).symm⟩
    · split at ran
      · obtain ⟨line, _, ran⟩ := bind_ok ran
        cases ran
        exact SameAnswers.refl s
      · cases ran
        exact SameAnswers.refl s

theorem scanRequest_maps (ran : scanRequest s = .ok t) :
    t.stringKeyMap = s.stringKeyMap ∧ t.intKeyMap = s.intKeyMap := by
  unfold scanRequest at ran
  obtain ⟨input, _, ran⟩ := bind_ok ran
  split at ran
  · cases ran
    exact ⟨rfl, rfl⟩
  · split at ran
    · cases ran
      exact ⟨rfl, rfl⟩
    · obtain ⟨msg, _, ran⟩ := bind_ok ran
      cases ran
      exact ⟨rfl, rfl⟩

theorem receive_sameAnswers (ran : receive s chunk = .ok t) : SameAnswers s t := by
  obtain ⟨buffer, _, ran⟩ := bind_ok ran
  obtain ⟨strings, ints⟩ := scanRequest_maps ran
  unfold SameAnswers
  rw [strings, ints]
  exact ⟨fun _ => rfl, fun _ => rfl⟩

theorem serve_sameAnswers (ran : serve s chunk = .ok (t, action)) : SameAnswers s t := by
  obtain ⟨middle, received, ran⟩ := bind_ok ran
  exact (receive_sameAnswers received).trans (dispatch_sameAnswers ran)

/-- A run of the loop never changes what the maps answer. -/
theorem run_sameAnswers (chunks : List (List UInt8)) {s t : Server} {actions : List Action}
    (ran : namedPipeLoop s chunks = .ok (t, actions)) : SameAnswers s t := by
  induction chunks generalizing s t actions with
  | nil =>
    cases ran
    exact SameAnswers.refl s
  | cons chunk rest ih =>
    simp only [namedPipeLoop] at ran
    split at ran
    · cases ran
      exact SameAnswers.refl s
    · obtain ⟨⟨middle, action⟩, served, ran⟩ := bind_ok ran
      obtain ⟨⟨last, later⟩, below, ran⟩ := bind_ok ran
      cases ran
      exact (serve_sameAnswers served).trans (ih below)

/-- The action of the `switch`, from the answers, the type and the text. -/
def actionOf (strings : CString → CString) (ints : CString → Int32) (type : ℤ) (msg : Exec CString) :
    Exec (Option Action) :=
  if type = GET_KEY_STRING then do
    let key ← msg
    return some (.reply (strings key).terminated)
  else if type = GET_KEY_INT then do
    let key ← msg
    return some (.reply (leBytes 4 (ints key).toUInt32.toNat))
  else if type = LOG_MSG then do
    let line ← msg
    return some (.print line)
  else return none

theorem actionOf_other {strings : CString → CString} {ints : CString → Int32} {type : ℤ} {msg : Exec CString}
    (other : ¬ IsRequest type) : actionOf strings ints type msg = .ok none := by
  simp only [IsRequest, not_or] at other
  simp [actionOf, other]

theorem dispatch_action (s : Server) :
    (do let (_, action) ← dispatch s; return action : Exec (Option Action)) =
      actionOf (s.stringKeyMap.lookup CString.empty) (s.intKeyMap.lookup 0) s.type s.msg.cstring := by
  unfold dispatch actionOf
  split
  · cases s.msg.cstring <;> rfl
  · split
    · cases s.msg.cstring <;> rfl
    · split
      · cases s.msg.cstring <;> rfl
      · rfl

/-- A round whose chunk was received as `t` reacts as `t` does. -/
theorem reaction_received (received : receive s chunk = .ok t) :
    reaction s chunk =
      actionOf (s.stringKeyMap.lookup CString.empty) (s.intKeyMap.lookup 0) t.type t.msg.cstring := by
  have same := receive_sameAnswers received
  have strings : s.stringKeyMap.lookup CString.empty = t.stringKeyMap.lookup CString.empty := funext same.1
  have ints : s.intKeyMap.lookup 0 = t.intKeyMap.lookup 0 := funext same.2
  rw [strings, ints, ← dispatch_action]
  simp only [reaction, serve, received, ok_bind]

section Scan

theorem scanSign_suffix (input : List UInt8) : (scanSign input).2 <:+ input := by
  unfold scanSign
  split
  · exact List.suffix_cons _ _
  · exact List.suffix_cons _ _
  · exact List.suffix_refl _

/-- A number takes at least one byte of the input. -/
theorem scanInt_rest {input rest : List UInt8} {type : ℤ} (scanned : scanInt input = some (type, rest)) :
    rest <:+ input ∧ rest.length < input.length := by
  simp only [scanInt] at scanned
  split at scanned
  · cases scanned
  · rename_i digits
    cases scanned
    have signed := (scanSign_suffix (input.dropWhile isSpace)).trans (List.dropWhile_suffix isSpace)
    refine ⟨(List.dropWhile_suffix isDigit).trans signed, ?_⟩
    have split := congrArg List.length
      (List.takeWhile_append_dropWhile (p := isDigit) (l := (scanSign (input.dropWhile isSpace)).2))
    have taken := List.length_pos_iff.mpr digits
    have bound := signed.length_le
    simp only [List.length_append] at split
    omega

theorem scanLine_text {rest text : List UInt8} (scanned : scanLine rest = some text) :
    text <+: rest := by
  simp only [scanLine] at scanned
  split at scanned
  · cases scanned
  · cases scanned
    exact (List.take_prefix _ _).trans (List.takeWhile_prefix _)

variable {chunk rest text : List UInt8} {type : ℤ}

theorem ofBytes_append {bytes : List UInt8} (terminated : 0 ∈ chunk) :
    CString.ofBytes (chunk ++ bytes) = CString.ofBytes chunk := by
  obtain ⟨behind, split⟩ := CString.ofBytes_split terminated
  calc
    CString.ofBytes (chunk ++ bytes) = CString.ofBytes ((CString.ofBytes chunk).bytes ++ 0 :: (behind ++ bytes)) := by
      rw [← List.cons_append, ← List.append_assoc, ← split]
    _ = CString.ofBytes chunk := CString.ofBytes_append_nul _ _

theorem length_ofBytes (terminated : 0 ∈ chunk) : (CString.ofBytes chunk).bytes.length < chunk.length := by
  obtain ⟨behind, split⟩ := CString.ofBytes_split terminated
  have lengths := congrArg List.length split
  rw [List.length_append, List.length_cons] at lengths
  omega

/-- The scan of a terminated chunk, whatever stood behind it in the buffer. -/
theorem receive_terminated (s : Server) (terminated : 0 ∈ chunk) (size : chunk.length ≤ MAX_BUFFER) :
    receive s chunk =
      scanRequest { s with buffer := s.buffer.overlay chunk size } ∧
      (s.buffer.overlay chunk size).cstring = .ok (CString.ofBytes chunk) := by
  constructor
  · simp [receive, CharArray.store_fits _ size]
  · simp [CharArray.cstring, CharArray.overlay, terminated, ofBytes_append terminated]

theorem receive_no_number (s : Server) (terminated : 0 ∈ chunk) (size : chunk.length ≤ MAX_BUFFER)
    (scanned : scanInt (CString.ofBytes chunk).bytes = none) :
    ∃ t, receive s chunk = .ok t ∧ t.type = s.type ∧ t.msg = s.msg := by
  obtain ⟨received, string⟩ := receive_terminated s terminated size
  exact ⟨{ s with buffer := s.buffer.overlay chunk size },
    by simp [received, scanRequest, string, scanned], rfl, rfl⟩

theorem receive_no_text (s : Server) (terminated : 0 ∈ chunk) (size : chunk.length ≤ MAX_BUFFER)
    (scanned : scanInt (CString.ofBytes chunk).bytes = some (type, rest)) (empty : scanLine rest = none) :
    ∃ t, receive s chunk = .ok t ∧ t.type = type ∧ t.msg = s.msg := by
  obtain ⟨received, string⟩ := receive_terminated s terminated size
  exact ⟨{ s with buffer := s.buffer.overlay chunk size, type },
    by simp [received, scanRequest, string, scanned, empty], rfl, rfl⟩

theorem receive_both (s : Server) (terminated : 0 ∈ chunk) (size : chunk.length ≤ MAX_BUFFER)
    (scanned : scanInt (CString.ofBytes chunk).bytes = some (type, rest)) (line : scanLine rest = some text) :
    ∃ t, receive s chunk = .ok t ∧ t.type = type ∧ t.msg.cstring = .ok (CString.ofBytes text) := by
  obtain ⟨received, string⟩ := receive_terminated s terminated size
  obtain ⟨suffix, shorter⟩ := scanInt_rest scanned
  have pre := scanLine_text line
  have bound := length_ofBytes terminated
  have below := pre.length_le
  have fits : (text ++ [0]).length ≤ MAX_BUFFER := by
    rw [List.length_append, List.length_singleton]
    omega
  have fresh : 0 ∉ text := fun member => (CString.ofBytes chunk).noNul (suffix.mem (pre.mem member))
  have same : CString.ofBytes text = ⟨text, fresh⟩ := CString.ofBytes_bytes ⟨text, fresh⟩
  refine ⟨{ s with buffer := s.buffer.overlay chunk size, type, msg := s.msg.overlay (text ++ [0]) fits },
    by simp [received, scanRequest, string, scanned, line, CharArray.store_fits _ fits], rfl, ?_⟩
  rw [same]
  exact CharArray.cstring_overlay s.msg ⟨text, fresh⟩ [] fits

end Scan

/-- A self-contained chunk is reacted to from its own string and the answers. -/
theorem reaction_selfContained {chunk : List UInt8} (size : chunk.length ≤ MAX_BUFFER)
    (contained : SelfContained chunk) :
    ∃ outcome : (CString → CString) → (CString → Int32) → Option Action,
      (∀ s, reaction s chunk =
        .ok (outcome (s.stringKeyMap.lookup CString.empty) (s.intKeyMap.lookup 0))) ∧
      (¬ AssignsBoth chunk → ∀ strings ints, outcome strings ints = none) := by
  obtain ⟨terminated, type, rest, scanned, texts⟩ := contained
  by_cases request : IsRequest type
  · obtain ⟨text, line⟩ := texts request
    have decided : ∀ strings ints, ∃ action,
        actionOf strings ints type (.ok (CString.ofBytes text)) = .ok action := by
      intro strings ints
      unfold actionOf
      split
      · exact ⟨_, rfl⟩
      · split
        · exact ⟨_, rfl⟩
        · split
          · exact ⟨_, rfl⟩
          · exact ⟨_, rfl⟩
    choose outcome computed using decided
    refine ⟨outcome, fun s => ?_, fun missing => absurd ⟨type, rest, text, scanned, line⟩ missing⟩
    obtain ⟨t, received, type', msg⟩ := receive_both s terminated size scanned line
    rw [reaction_received received, type', msg, computed]
  · refine ⟨fun _ _ => none, fun s => ?_, fun _ _ _ => rfl⟩
    cases line : scanLine rest with
    | none =>
      obtain ⟨t, received, type', _⟩ := receive_no_text s terminated size scanned line
      rw [reaction_received received, type', actionOf_other request]
    | some text =>
      obtain ⟨t, received, type', _⟩ := receive_both s terminated size scanned line
      rw [reaction_received received, type', actionOf_other request]

private theorem letter_fits (letter : UInt8) :
    (CString.ofBytes [letter]).terminated.length ≤ MAX_BUFFER := by
  have below := (List.takeWhile_prefix (l := [letter]) (· != 0)).length_le
  rw [CString.length_terminated]
  simp only [CString.length, CString.ofBytes, List.length_singleton, MAX_BUFFER] at below ⊢
  omega

/-- A server whose maps know the key `a` only, that was last asked for the
one-letter text in `msg`, and whose buffer holds no terminator. -/
def leftover (letter : UInt8) : Server where
  stringKeyMap key := if key = CString.ofBytes [97] then some (CString.ofBytes [120]) else none
  intKeyMap key := if key = CString.ofBytes [97] then some 1 else none
  buffer := .filled MAX_BUFFER 1
  type := LOG_MSG
  msg := (CharArray.filled MAX_BUFFER 1).overlay (CString.ofBytes [letter]).terminated (letter_fits letter)

theorem leftover_sameAnswers : SameAnswers (leftover 97) (leftover 98) := ⟨fun _ => rfl, fun _ => rfl⟩

/-- The action of each request tells the texts `a` and `b` apart. -/
theorem leftover_differ {type : ℤ} (request : IsRequest type) :
    actionOf ((leftover 97).stringKeyMap.lookup CString.empty) ((leftover 97).intKeyMap.lookup 0) type
        (leftover 97).msg.cstring ≠
      actionOf ((leftover 98).stringKeyMap.lookup CString.empty) ((leftover 98).intKeyMap.lookup 0) type
        (leftover 98).msg.cstring := by
  rcases request with rfl | rfl | rfl <;> decide

/-- **What a round can reveal.** Runs with the same answers react alike to a
chunk, whatever they were given before, exactly when the chunk is
self-contained. -/
theorem independent_iff_selfContained (chunk : List UInt8) (size : chunk.length ≤ MAX_BUFFER) :
    Independent chunk ↔ SelfContained chunk := by
  constructor
  · intro independent
    obtain ⟨action, first, second, _⟩ := independent (leftover 97) (leftover 98) _ _ [] [] [] []
      leftover_sameAnswers rfl rfl
    have reveals : ∀ t u type, receive (leftover 97) chunk = .ok t → receive (leftover 98) chunk = .ok u →
        t.type = type → u.type = type → t.msg = (leftover 97).msg → u.msg = (leftover 98).msg →
        ¬ IsRequest type := by
      intro t u type received received' type_t type_u msg_t msg_u request
      rw [reaction_received received, type_t, msg_t] at first
      rw [reaction_received received', type_u, msg_u] at second
      exact leftover_differ request (first.trans second.symm)
    have terminated : 0 ∈ chunk := by
      by_contra missing
      have open' : 0 ∉ ((leftover 97).buffer.overlay chunk size).bytes := by
        simp [CharArray.overlay, leftover, CharArray.filled, missing]
      have stuck : receive (leftover 97) chunk = .error .access := by
        simp [receive, CharArray.store_fits _ size, scanRequest, CharArray.cstring, open']
      simp [reaction, serve, stuck] at first
    cases scanned : scanInt (CString.ofBytes chunk).bytes with
    | none =>
      obtain ⟨t, received, type_t, msg_t⟩ := receive_no_number (leftover 97) terminated size scanned
      obtain ⟨u, received', type_u, msg_u⟩ := receive_no_number (leftover 98) terminated size scanned
      exact absurd (Or.inr (Or.inr rfl)) (reveals t u LOG_MSG received received' type_t type_u msg_t msg_u)
    | some number =>
      obtain ⟨type, rest⟩ := number
      refine ⟨terminated, type, rest, scanned, fun request => ?_⟩
      cases line : scanLine rest with
      | some text => exact ⟨text, rfl⟩
      | none =>
        obtain ⟨t, received, type_t, msg_t⟩ := receive_no_text (leftover 97) terminated size scanned line
        obtain ⟨u, received', type_u, msg_u⟩ := receive_no_text (leftover 98) terminated size scanned line
        exact absurd request (reveals t u type received received' type_t type_u msg_t msg_u)
  · intro contained s t s' t' earlier earlier' actions actions' same ran ran'
    obtain ⟨outcome, reacts, silent⟩ := reaction_selfContained size contained
    have later : SameAnswers s' t' :=
      ((run_sameAnswers earlier ran).symm.trans same).trans (run_sameAnswers earlier' ran')
    have strings : s'.stringKeyMap.lookup CString.empty = t'.stringKeyMap.lookup CString.empty :=
      funext later.1
    have ints : s'.intKeyMap.lookup 0 = t'.intKeyMap.lookup 0 := funext later.2
    refine ⟨_, reacts s', ?_, fun missing => silent missing _ _⟩
    rw [reacts t', strings, ints]

theorem independent_iff_selfContained_sample :
    Independent [49, 97, 0] ↔ SelfContained [49, 97, 0] :=
  independent_iff_selfContained [49, 97, 0] (by decide)

/-- What the sample server does for an empty message after it was given one. -/
def emptyAfter (message : List UInt8) : Option (Option Action) :=
  ((namedPipeLoop RequestCoding.sampleServer [message]).bind fun (s, _) =>
    reaction s [49, 0]).toOption

/-- An empty message prints the message before it. -/
theorem empty_message_reveals :
    ¬ ∀ chunk : List UInt8, 1 ≤ chunk.length → chunk.length ≤ MAX_BUFFER → Independent chunk := by
  intro all
  have independent := all [49, 0] (by decide) (by decide)
  have prints : emptyAfter [49, 97, 0] = some (some (.print (CString.ofBytes [97]))) ∧
      emptyAfter [49, 98, 0] = some (some (.print (CString.ofBytes [98]))) := by decide
  obtain ⟨first, second⟩ := prints
  unfold emptyAfter at first second
  cases run : namedPipeLoop RequestCoding.sampleServer [[49, 97, 0]] with
  | error fault => rw [run] at first; cases first
  | ok final =>
    cases run' : namedPipeLoop RequestCoding.sampleServer [[49, 98, 0]] with
    | error fault => rw [run'] at second; cases second
    | ok final' =>
      obtain ⟨action, here, there, _⟩ := independent _ _ final.1 final'.1 _ _ final.2 final'.2
        (SameAnswers.refl _) run run'
      rw [run] at first
      rw [run'] at second
      simp only [Except.bind, here, there, Except.toOption, Option.some.injEq] at first second
      rw [first] at second
      exact absurd second (by decide)

end ClrDumper.LeftoverIndependence
