import ClrDumper.RequestCoding

/-! Delivery over the byte pipe. The pipe hands the server the clients' bytes in
pieces of its own choosing; the server takes every piece for one request. Each
request is served once and in order when every read ends at a request's end and
spans no other. -/
namespace ClrDumper.RequestDelivery
open Execution CStrings Decimal Memory NamedPipeIO NamedPipeLoop RequestCoding

/-- A text that one request can carry unchanged. -/
structure Plain (text : CString) : Prop where
  fits : text.length + 2 ≤ MAX_BUFFER
  readable : Readable text
  line : 10 ∉ text.bytes

/-- What a request asks of a server with these maps. -/
def answer (s : Server) (r : Request) : Action :=
  match r.kind with
  | .getKeyString => .reply (s.stringKeyMap.lookup CString.empty r.text).terminated
  | .getKeyInt => .reply (leBytes 4 (s.intKeyMap.lookup 0 r.text).toUInt32.toNat)
  | .logMsg => .print r.text

/-- The maps of two servers give the same answers. -/
def SameAnswers (s t : Server) : Prop :=
  (∀ key, s.stringKeyMap.lookup CString.empty key = t.stringKeyMap.lookup CString.empty key) ∧
    ∀ key, s.intKeyMap.lookup 0 key = t.intKeyMap.lookup 0 key

theorem SameAnswers.refl (s : Server) : SameAnswers s s := ⟨fun _ => rfl, fun _ => rfl⟩

theorem SameAnswers.symm (same : SameAnswers s t) : SameAnswers t s :=
  ⟨fun key => (same.1 key).symm, fun key => (same.2 key).symm⟩

theorem SameAnswers.trans (first : SameAnswers s t) (second : SameAnswers t u) : SameAnswers s u :=
  ⟨fun key => (first.1 key).trans (second.1 key), fun key => (first.2 key).trans (second.2 key)⟩

theorem answer_congr (same : SameAnswers s t) (r : Request) : answer s r = answer t r := by
  obtain ⟨kind, text⟩ := r
  cases kind with
  | getKeyString => simp [answer, same.1]
  | getKeyInt => simp [answer, same.2]
  | logMsg => rfl

/-- The `switch` on a request that was decoded performs what it asks for, and
leaves the answers as they were. -/
theorem dispatch_request (s : Server) (r : Request) (type : s.type = r.kind.code)
    (msg : s.msg.cstring = .ok r.text) :
    ∃ t, dispatch s = .ok (t, some (answer s r)) ∧ SameAnswers s t := by
  obtain ⟨kind, text⟩ := r
  cases kind with
  | getKeyString =>
    have code : s.type = GET_KEY_STRING := type
    refine ⟨{ s with stringKeyMap := s.stringKeyMap.touch CString.empty text }, ?_, ?_, fun _ => rfl⟩
    · rw [dispatch, if_pos code]
      simp [msg, answer]
    · exact fun key => (KeyMap.lookup_touch _ _ _ key).symm
  | getKeyInt =>
    have code : s.type = GET_KEY_INT := type
    have other : ¬ s.type = GET_KEY_STRING := by rw [code]; decide
    refine ⟨{ s with intKeyMap := s.intKeyMap.touch 0 text }, ?_, fun _ => rfl, ?_⟩
    · rw [dispatch, if_neg other, if_pos code]
      simp [msg, answer]
    · exact fun key => (KeyMap.lookup_touch _ _ _ key).symm
  | logMsg =>
    have code : s.type = LOG_MSG := type
    have other : ¬ s.type = GET_KEY_STRING ∧ ¬ s.type = GET_KEY_INT := by rw [code]; decide
    refine ⟨s, ?_, SameAnswers.refl s⟩
    rw [dispatch, if_neg other.1, if_neg other.2, if_pos code]
    simp [msg, answer]

/-- **One request, one action.** A read that returns exactly one plain request
makes the server do what it asks for, whatever the locals held before. -/
theorem serve_request (s : Server) (r : Request) (plain : Plain r.text) :
    ∃ t, serve s r.bytes = .ok (t, some (answer s r)) ∧ SameAnswers s t := by
  obtain ⟨middle, ran, type, msg, strings, ints⟩ := receive_request s r plain.readable plain.fits
  rw [(firstLine_eq_iff r.text).mpr plain.line] at msg
  have same : SameAnswers s middle := by
    unfold SameAnswers
    rw [strings, ints]
    exact ⟨fun _ => rfl, fun _ => rfl⟩
  obtain ⟨t, answered, kept⟩ := dispatch_request middle r type msg
  rw [answer_congr same.symm r] at answered
  exact ⟨t, by simp [serve, ran, answered], same.trans kept⟩

/-- The bytes of the requests, in the order in which they were written. -/
def stream (requests : List Request) : List UInt8 := requests.flatMap Request.bytes

/-- A way in which the byte pipe can hand out a stream: between one byte and a
whole buffer in each read. -/
structure Segmentation (bytes : List UInt8) (chunks : List (List UInt8)) : Prop where
  all : chunks.flatten = bytes
  size : ∀ chunk ∈ chunks, 1 ≤ chunk.length ∧ chunk.length ≤ MAX_BUFFER

/-- The server performed exactly what the requests ask for, once each and in
their order. -/
def Delivers (s : Server) (requests : List Request) (chunks : List (List UInt8)) : Prop :=
  ∃ t, namedPipeLoop s chunks = .ok (t, requests.map (answer s))

/-- A read that ends with a terminator and holds no other: it ends where a
request ends, and begins where one begins if the read before it did. -/
def EndsOneRequest (chunk : List UInt8) : Prop := ∃ text : CString, chunk = text.terminated

theorem terminated_append_inj {a b : CString} {x y : List UInt8} :
    a.terminated ++ x = b.terminated ++ y ↔ a = b ∧ x = y := by
  refine ⟨fun same => ?_, fun ⟨left, right⟩ => by rw [left, right]⟩
  simp only [CString.terminated, List.append_assoc, List.singleton_append] at same
  have first : a = b := by
    have strings := congrArg CString.ofBytes same
    simpa using strings
  subst first
  exact ⟨rfl, by simpa using same⟩

/-- Reads of that kind return the requests one by one. -/
theorem whole_reads (requests : List Request) (chunks : List (List UInt8))
    (all : chunks.flatten = stream requests) (whole : ∀ chunk ∈ chunks, EndsOneRequest chunk) :
    chunks = requests.map Request.bytes := by
  induction requests generalizing chunks with
  | nil =>
    cases chunks with
    | nil => rfl
    | cons chunk rest =>
      obtain ⟨text, rfl⟩ := whole chunk List.mem_cons_self
      simp [stream, CString.terminated] at all
  | cons r requests ih =>
    cases chunks with
    | nil => simp [stream, Request.bytes] at all
    | cons chunk rest =>
      obtain ⟨text, rfl⟩ := whole chunk List.mem_cons_self
      simp only [List.flatten_cons, stream, List.flatMap_cons, Request.bytes_eq_line] at all
      obtain ⟨same, remaining⟩ := terminated_append_inj.mp all
      rw [same, List.map_cons, Request.bytes_eq_line,
        ih rest remaining fun chunk member => whole chunk (List.mem_cons_of_mem _ member)]

/-- Serving the requests one by one performs exactly their actions. -/
theorem serves_each (requests : List Request) (plain : ∀ r ∈ requests, Plain r.text) (s : Server) :
    ∃ t, namedPipeLoop s (requests.map Request.bytes) = .ok (t, requests.map (answer s)) ∧
      SameAnswers s t := by
  induction requests generalizing s with
  | nil => exact ⟨s, rfl, SameAnswers.refl s⟩
  | cons r requests ih =>
    obtain ⟨middle, served, same⟩ := serve_request s r (plain r List.mem_cons_self)
    obtain ⟨t, ran, kept⟩ := ih (fun r member => plain r (List.mem_cons_of_mem _ member)) middle
    have answers : requests.map (answer middle) = requests.map (answer s) :=
      List.map_congr_left fun r _ => answer_congr same.symm r
    have nonempty : r.bytes ≠ [] := List.cons_ne_nil _ _
    exact ⟨t, by simp [namedPipeLoop, nonempty, served, ran, answers], same.trans kept⟩

/-- **Delivery.** Whatever the server's locals hold at the start, and however
the pipe cuts the stream, if every read ends one request then each request is
served exactly once, in the order sent. -/
theorem delivers_of_whole_reads (s : Server) (requests : List Request) (plain : ∀ r ∈ requests, Plain r.text)
    (chunks : List (List UInt8)) (segmentation : Segmentation (stream requests) chunks)
    (whole : ∀ chunk ∈ chunks, EndsOneRequest chunk) : Delivers s requests chunks := by
  rw [whole_reads requests chunks segmentation.all whole]
  obtain ⟨t, ran, _⟩ := serves_each requests plain s
  exact ⟨t, ran⟩

/-- A run of the loop performs at most one action for each read. -/
theorem actions_le_reads (chunks : List (List UInt8)) {s t : Server} {actions : List Action}
    (ran : namedPipeLoop s chunks = .ok (t, actions)) : actions.length ≤ chunks.length := by
  induction chunks generalizing s t actions with
  | nil =>
    cases ran
    exact Nat.le_refl _
  | cons chunk rest ih =>
    simp only [namedPipeLoop] at ran
    split at ran
    · cases ran
      exact Nat.zero_le _
    · obtain ⟨⟨middle, action⟩, _, ran⟩ := bind_ok ran
      obtain ⟨⟨last, later⟩, below, ran⟩ := bind_ok ran
      cases ran
      have bound := ih below
      cases action <;> simp <;> omega

/-- So whenever the pipe joins requests, and thus needs fewer reads than there
are requests, at least one of them is lost. -/
theorem joined_reads_lose (s : Server) (requests : List Request) (chunks : List (List UInt8))
    (joined : chunks.length < requests.length) : ¬ Delivers s requests chunks := by
  rintro ⟨t, ran⟩
  have bound := actions_le_reads chunks ran
  rw [List.length_map] at bound
  omega

/-- The messages `a` and `b`, as two threads log them at once. -/
def sampleRequests : List Request :=
  [⟨.logMsg, CString.ofBytes [97]⟩, ⟨.logMsg, CString.ofBytes [98]⟩]

theorem sampleRequests_plain : ∀ r ∈ sampleRequests, Plain r.text := by
  simp only [sampleRequests, List.mem_cons, List.not_mem_nil, or_false, forall_eq_or_imp, forall_eq]
  exact ⟨⟨by decide, ⟨97, [], rfl, by decide, by decide⟩, by decide⟩,
    ⟨by decide, ⟨98, [], rfl, by decide, by decide⟩, by decide⟩⟩

theorem delivers_of_whole_reads_sample :
    Delivers sampleServer sampleRequests [[49, 97, 0], [49, 98, 0]] :=
  delivers_of_whole_reads sampleServer sampleRequests sampleRequests_plain _
    ⟨by decide, by decide⟩ (by
      simp only [List.mem_cons, List.not_mem_nil, or_false, forall_eq_or_imp, forall_eq]
      exact ⟨⟨CString.ofBytes [49, 97], rfl⟩, ⟨CString.ofBytes [49, 98], rfl⟩⟩)

/-- One read that returns both messages prints the first only. -/
theorem joined_messages_lost :
    ¬ ∀ (s : Server) (requests : List Request) (chunks : List (List UInt8)),
      (∀ r ∈ requests, Plain r.text) → Segmentation (stream requests) chunks →
        Delivers s requests chunks := by
  intro all
  exact joined_reads_lose sampleServer sampleRequests [[49, 97, 0, 49, 98, 0]] (by decide)
    (all _ _ _ sampleRequests_plain ⟨by decide, by decide⟩)

end ClrDumper.RequestDelivery
