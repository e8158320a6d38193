import ClrDumper.ClientPrograms
import ClrDumper.LeftoverIndependence

/-! The server's loop when a read returns more or less than one request. It never
leaves its arrays, and of several requests that end with one read it serves the
first. -/
namespace ClrDumper.JoinedReads
open Execution CStrings NamedPipeIO NamedPipeLoop RequestCoding RequestDelivery LeftoverIndependence ClientPrograms

variable {s t : Server} {chunk front back : List UInt8} {chunks : List (List UInt8)} {r first : Request}
  {requests : List Request}

/-! ## One read -/

/-- There is a string in `msg`. -/
def Ready (s : Server) : Prop := ∃ text, s.msg.cstring = .ok text

/-- A read with a terminator leaves a string there, new or old. -/
theorem receive_ready (ready : Ready s) (terminated : 0 ∈ chunk) (size : chunk.length ≤ MAX_BUFFER) :
    ∃ t, receive s chunk = .ok t ∧ Ready t := by
  cases scanned : scanInt (CString.ofBytes chunk).bytes with
  | none =>
    obtain ⟨t, ran, _, msg⟩ := receive_no_number s terminated size scanned
    exact ⟨t, ran, by rwa [Ready, msg]⟩
  | some number =>
    obtain ⟨type, rest⟩ := number
    cases line : scanLine rest with
    | none =>
      obtain ⟨t, ran, _, msg⟩ := receive_no_text s terminated size scanned line
      exact ⟨t, ran, by rwa [Ready, msg]⟩
    | some text =>
      obtain ⟨t, ran, _, msg⟩ := receive_both s terminated size scanned line
      exact ⟨t, ran, _, msg⟩

theorem dispatch_msg {action : Option Action} (ran : dispatch s = .ok (t, action)) : t.msg = s.msg := by
  unfold dispatch at ran
  split at ran
  · obtain ⟨key, _, ran⟩ := bind_ok ran
    cases ran
    rfl
  · split at ran
    · obtain ⟨key, _, ran⟩ := bind_ok ran
      cases ran
      rfl
    · split at ran
      · obtain ⟨line, _, ran⟩ := bind_ok ran
        cases ran
        rfl
      · cases ran
        rfl

theorem dispatch_ready (ready : Ready s) : ∃ t action, dispatch s = .ok (t, action) ∧ Ready t := by
  obtain ⟨text, msg⟩ := ready
  obtain ⟨⟨t, action⟩, ran⟩ : ∃ outcome, dispatch s = .ok outcome := by
    unfold dispatch
    rw [msg]
    split
    · exact ⟨_, rfl⟩
    · split
      · exact ⟨_, rfl⟩
      · split <;> exact ⟨_, rfl⟩
  exact ⟨t, action, ran, text, by rw [dispatch_msg ran, msg]⟩

/-- **Run lemma.** From then on no read with a terminator makes the loop fault. -/
theorem loop_ready (chunks : List (List UInt8)) (ready : Ready s) (terminated : ∀ chunk ∈ chunks, 0 ∈ chunk)
    (size : ∀ chunk ∈ chunks, chunk.length ≤ MAX_BUFFER) : ∃ outcome, namedPipeLoop s chunks = .ok outcome := by
  induction chunks generalizing s with
  | nil => exact ⟨_, rfl⟩
  | cons chunk rest ih =>
    have nul := terminated chunk List.mem_cons_self
    obtain ⟨middle, received, kept⟩ := receive_ready ready nul (size chunk List.mem_cons_self)
    obtain ⟨t, action, ran, ready'⟩ := dispatch_ready kept
    obtain ⟨⟨final, actions⟩, later⟩ := ih ready' (fun chunk member => terminated chunk (List.mem_cons_of_mem _ member))
      fun chunk member => size chunk (List.mem_cons_of_mem _ member)
    exact ⟨(final, action.toList ++ actions),
      by simp [namedPipeLoop, List.ne_nil_of_mem nul, serve, received, ran, later]⟩

theorem nul_mem_bytes (r : Request) : 0 ∈ r.bytes := by
  rw [Request.bytes_eq_line, CString.terminated]
  simp

theorem length_bytes (r : Request) : r.bytes.length = r.text.length + 2 := by
  simp [Request.bytes]

/-- A read that begins with a request serves it, whatever follows it there. -/
theorem serve_first (s : Server) (readable : Readable r.text) (size : (r.bytes ++ back).length ≤ MAX_BUFFER) :
    ∃ t, serve s (r.bytes ++ back) = .ok (t, some (answer s (arrived r))) ∧ SameAnswers s t ∧ Ready t := by
  have fits : r.text.length + 2 ≤ MAX_BUFFER := by
    rw [List.length_append, length_bytes] at size
    omega
  have string : CString.ofBytes (r.bytes ++ back) = r.line := by
    rw [Request.bytes_eq_line, CString.terminated, List.append_assoc]
    exact CString.ofBytes_append_nul r.line back
  have scanned : scanInt (CString.ofBytes (r.bytes ++ back)).bytes = some ((r.kind.code : ℤ), r.text.bytes) := by
    rw [string, scanInt_line readable]
  obtain ⟨middle, received, type, msg⟩ := receive_both s (List.mem_append_left back (nul_mem_bytes r)) size scanned
    (scanLine_text readable fits)
  rw [CString.ofBytes_bytes] at msg
  obtain ⟨t, ran, kept⟩ := dispatch_request middle (arrived r) type msg
  have same := receive_sameAnswers received
  rw [answer_congr same.symm] at ran
  exact ⟨t, by rw [serve, received, ok_bind, ran], same.trans kept, _, (congrArg CharArray.cstring (dispatch_msg ran)).trans msg⟩

/-! ## The stream -/

theorem stream_cons (r : Request) (requests : List Request) : stream (r :: requests) = r.bytes ++ stream requests :=
  List.flatMap_cons

/-- A part of a request that holds its end is the whole of it. -/
theorem whole_of_nul (split : front ++ back = r.bytes) (nul : 0 ∈ front) : back = [] ∧ front = r.bytes := by
  rw [Request.bytes_eq_line, CString.terminated] at split
  rcases List.eq_nil_or_concat back with rfl | ⟨rest, last, rfl⟩
  · rw [List.append_nil] at split
    exact ⟨rfl, by rw [split, Request.bytes_eq_line, CString.terminated]⟩
  · rw [List.concat_eq_append, ← List.append_assoc] at split
    have inner := List.append_inj_left' split rfl
    exact absurd (inner ▸ List.mem_append_left rest nul) r.line.noNul

/-- Wherever the stream is cut, the next end of a request is within a buffer. -/
theorem window_terminated (fits : ∀ r ∈ requests, r.text.length + 2 ≤ MAX_BUFFER) (split : front ++ back = stream requests)
    (more : back ≠ []) : 0 ∈ back.take MAX_BUFFER := by
  induction requests generalizing front back with
  | nil =>
    rw [stream, List.flatMap_nil, List.append_eq_nil_iff] at split
    exact absurd split.2 more
  | cons r rest ih =>
    have later := fun r member => fits r (List.mem_cons_of_mem _ member)
    rw [stream_cons] at split
    rcases List.append_eq_append_iff.mp split with ⟨tail, bytes, rfl⟩ | ⟨skipped, rfl, rest'⟩
    · rcases List.eq_nil_or_concat tail with rfl | ⟨inner, last, rfl⟩
      · exact ih later (List.nil_append _) more
      · -- The cut is inside this request, which ends with a terminator.
        have room := fits r List.mem_cons_self
        have size := congrArg List.length bytes
        rw [List.concat_eq_append] at bytes size ⊢
        rw [length_bytes, List.length_append] at size
        rw [Request.bytes_eq_line, CString.terminated, ← List.append_assoc] at bytes
        obtain ⟨_, nul⟩ := List.append_inj' bytes rfl
        have inside : inner ++ [last] <+: (inner ++ [last] ++ stream rest).take MAX_BUFFER :=
          List.prefix_take_iff.mpr ⟨List.prefix_append _ _, by omega⟩
        exact inside.mem (List.mem_append_right _ (nul ▸ List.mem_singleton_self 0))
    · exact ih later rest'.symm more

/-- A way in which the byte pipe hands out whole requests: a read fills the
buffer, or ends where a request ends. -/
structure Readings (requests : List Request) (chunks : List (List UInt8)) : Prop where
  segmentation : Segmentation (stream requests) chunks
  stops : ∀ chunk ∈ chunks, chunk.length = MAX_BUFFER ∨ chunk.getLast? = some 0

/-- So each read holds a terminator. -/
theorem chunk_terminated (readings : Readings requests chunks) (fits : ∀ r ∈ requests, r.text.length + 2 ≤ MAX_BUFFER)
    (member : chunk ∈ chunks) : 0 ∈ chunk := by
  rcases readings.stops chunk member with full | ends
  · obtain ⟨before, after, rfl⟩ := List.append_of_mem member
    have all := readings.segmentation.all
    rw [List.flatten_append, List.flatten_cons] at all
    have size := (readings.segmentation.size chunk member).1
    have window := window_terminated fits all (by
      intro none
      rw [List.append_eq_nil_iff] at none
      rw [none.1] at size
      exact absurd size (by decide))
    rwa [← full, List.take_left] at window
  · exact List.mem_of_getLast? ends

/-- The first read begins with the first request. -/
theorem first_whole (split : chunk ++ back = stream (first :: requests)) (nul : 0 ∈ chunk) :
    ∃ joined, chunk = first.bytes ++ joined := by
  rw [stream_cons] at split
  rcases List.append_eq_append_iff.mp split with ⟨tail, bytes, _⟩ | ⟨joined, whole, _⟩
  · obtain ⟨_, whole⟩ := whole_of_nul bytes.symm nul
    exact ⟨[], by rw [whole, List.append_nil]⟩
  · exact ⟨joined, whole⟩

/-- **The server stays inside its arrays.** Let clients send requests that fit
into a buffer, the first with a text that can be read. However the pipe joins
them and wherever full reads cut them, and whatever the server's locals held
before, the loop comes to its end without a fault. The first request is served,
and each read makes at most one action. -/
theorem server_stays_inside (s : Server) (first : Request) (requests : List Request) (readable : Readable first.text)
    (fits : ∀ r ∈ first :: requests, r.text.length + 2 ≤ MAX_BUFFER) (chunks : List (List UInt8))
    (readings : Readings (first :: requests) chunks) :
    ∃ t actions, namedPipeLoop s chunks = .ok (t, answer s (arrived first) :: actions) ∧
      actions.length + 1 ≤ chunks.length := by
  have terminated := fun chunk (member : chunk ∈ chunks) => chunk_terminated readings fits member
  have size := readings.segmentation.size
  have all := readings.segmentation.all
  cases chunks with
  | nil =>
    rw [List.flatten_nil, stream_cons] at all
    exact absurd (List.append_eq_nil_iff.mp all.symm).1 (List.ne_nil_of_mem (nul_mem_bytes first))
  | cons chunk rest =>
    have nul := terminated chunk List.mem_cons_self
    rw [List.flatten_cons] at all
    obtain ⟨joined, rfl⟩ := first_whole all nul
    obtain ⟨middle, served, _, ready⟩ := serve_first s readable (size _ List.mem_cons_self).2
    obtain ⟨⟨t, actions⟩, later⟩ := loop_ready rest ready
      (fun chunk member => terminated chunk (List.mem_cons_of_mem _ member))
      fun chunk member => (size chunk (List.mem_cons_of_mem _ member)).2
    refine ⟨t, actions, by simp [namedPipeLoop, List.ne_nil_of_mem nul, served, later], ?_⟩
    exact Nat.succ_le_succ (actions_le_reads rest later)

/-- Three requests of which the pipe joins two. -/
def sampleReadings : List (List UInt8) := [[49, 97, 0, 49, 98, 0], [49, 97, 0]]

theorem server_stays_inside_sample : ∃ t actions, namedPipeLoop sampleServer sampleReadings =
    .ok (t, answer sampleServer (arrived ⟨.logMsg, CString.ofBytes [97]⟩) :: actions) ∧ actions.length + 1 ≤ 2 :=
  server_stays_inside sampleServer ⟨.logMsg, CString.ofBytes [97]⟩
    [⟨.logMsg, CString.ofBytes [98]⟩, ⟨.logMsg, CString.ofBytes [97]⟩] ⟨97, [], by decide, by decide, by decide⟩
    (by decide) sampleReadings ⟨⟨by decide, by decide⟩, by decide⟩

/-! ## Joined requests -/

/-- What ends where a request ends is some requests. -/
theorem cut_at_end (split : chunk ++ back = stream requests) (ends : chunk.getLast? = some 0) :
    ∃ first joined later, requests = first :: joined ++ later ∧ chunk = stream (first :: joined) ∧
      back = stream later := by
  induction requests generalizing chunk with
  | nil =>
    rw [stream, List.flatMap_nil, List.append_eq_nil_iff] at split
    rw [split.1] at ends
    cases ends
  | cons r rest ih =>
    have one : ∀ {bytes}, bytes = r.bytes → bytes = stream [r] := by
      rintro _ rfl
      rw [stream_cons, stream, List.flatMap_nil, List.append_nil]
    rw [stream_cons] at split
    rcases List.append_eq_append_iff.mp split with ⟨tail, bytes, back'⟩ | ⟨skipped, rfl, rest'⟩
    · obtain ⟨rfl, whole⟩ := whole_of_nul bytes.symm (List.mem_of_getLast? ends)
      exact ⟨r, [], rest, rfl, one whole, back'⟩
    · rcases List.eq_nil_or_concat skipped with rfl | ⟨inner, last, same⟩
      · exact ⟨r, [], rest, rfl, one (List.append_nil _), rest'.symm⟩
      · have ends' : skipped.getLast? = some 0 := by
          rw [same, List.concat_eq_append] at ends ⊢
          rw [← List.append_assoc, List.getLast?_concat] at ends
          rw [List.getLast?_concat, ends]
        obtain ⟨first, joined, later, rfl, stream', after⟩ := ih rest'.symm ends'
        exact ⟨r, first :: joined, later, rfl, by rw [stream_cons, ← stream'], after⟩

/-- Reads that end where requests end divide the requests into groups. -/
theorem groups_of_reads (all : chunks.flatten = stream requests) (ends : ∀ chunk ∈ chunks, chunk.getLast? = some 0) :
    ∃ groups : List (Request × List Request), requests = groups.flatMap (fun g => g.1 :: g.2) ∧
      chunks = groups.map fun g => stream (g.1 :: g.2) := by
  induction chunks generalizing requests with
  | nil =>
    cases requests with
    | nil => exact ⟨[], rfl, rfl⟩
    | cons r rest =>
      rw [List.flatten_nil, stream_cons] at all
      exact absurd (List.append_eq_nil_iff.mp all.symm).1 (List.ne_nil_of_mem (nul_mem_bytes r))
  | cons chunk rest ih =>
    rw [List.flatten_cons] at all
    obtain ⟨first, joined, later, rfl, rfl, others⟩ := cut_at_end all (ends chunk List.mem_cons_self)
    obtain ⟨groups, rfl, rfl⟩ := ih others fun chunk member => ends chunk (List.mem_cons_of_mem _ member)
    exact ⟨(first, joined) :: groups, rfl, rfl⟩

/-- **Run lemma.** Of each group the first is served. -/
theorem serve_groups (groups : List (Request × List Request)) (readable : ∀ g ∈ groups, Readable g.1.text)
    (size : ∀ g ∈ groups, (stream (g.1 :: g.2)).length ≤ MAX_BUFFER) (s : Server) :
    ∃ t, namedPipeLoop s (groups.map fun g => stream (g.1 :: g.2)) =
      .ok (t, groups.map fun g => answer s (arrived g.1)) := by
  induction groups generalizing s with
  | nil => exact ⟨s, rfl⟩
  | cons g rest ih =>
    obtain ⟨first, joined⟩ := g
    have room := size (first, joined) List.mem_cons_self
    dsimp only at room
    rw [stream_cons] at room
    obtain ⟨middle, served, same, _⟩ := serve_first s (readable (first, joined) List.mem_cons_self) room
    obtain ⟨t, ran⟩ := ih (fun g member => readable g (List.mem_cons_of_mem _ member))
      (fun g member => size g (List.mem_cons_of_mem _ member)) middle
    have answers : (rest.map fun g => answer middle (arrived g.1)) = rest.map fun g => answer s (arrived g.1) :=
      List.map_congr_left fun g _ => answer_congr same.symm (arrived g.1)
    rw [answers] at ran
    have nonempty : first.bytes ++ stream joined ≠ [] :=
      List.append_ne_nil_of_left_ne_nil (List.ne_nil_of_mem (nul_mem_bytes first)) _
    refine ⟨t, ?_⟩
    rw [List.map_cons, List.map_cons, stream_cons, namedPipeLoop, if_neg nonempty, served, ok_bind]
    dsimp only
    rw [ran]
    rfl

/-- **Joined requests.** Take texts that begin with neither a digit nor a newline.
When each read ends where a request ends, the reads divide the requests into
groups, and the server does what the first of each group asks for, with the first
line of its text. The others of the group are lost. -/
theorem joined_reads_serve_first (s : Server) (requests : List Request) (readable : ∀ r ∈ requests, Readable r.text)
    (chunks : List (List UInt8)) (segmentation : Segmentation (stream requests) chunks)
    (ends : ∀ chunk ∈ chunks, chunk.getLast? = some 0) :
    ∃ groups : List (Request × List Request), requests = groups.flatMap (fun g => g.1 :: g.2) ∧
      chunks = groups.map (fun g => stream (g.1 :: g.2)) ∧
      ∃ t, namedPipeLoop s chunks = .ok (t, groups.map fun g => answer s (arrived g.1)) := by
  obtain ⟨groups, rfl, rfl⟩ := groups_of_reads segmentation.all ends
  refine ⟨groups, rfl, rfl, serve_groups groups (fun g member => ?_) (fun g member => ?_) s⟩
  · exact readable g.1 (List.mem_flatMap.mpr ⟨g, member, List.mem_cons_self⟩)
  · exact (segmentation.size _ (List.mem_map.mpr ⟨g, member, rfl⟩)).2

theorem joined_reads_serve_first_sample : ∃ groups : List (Request × List Request),
    sampleRequests = groups.flatMap (fun g => g.1 :: g.2) ∧
      [[49, 97, 0, 49, 98, 0]] = groups.map (fun g => stream (g.1 :: g.2)) ∧
      ∃ t, namedPipeLoop sampleServer [[49, 97, 0, 49, 98, 0]] =
        .ok (t, groups.map fun g => answer sampleServer (arrived g.1)) :=
  joined_reads_serve_first sampleServer sampleRequests (fun r member => (sampleRequests_plain r member).readable) _
    ⟨by decide, by decide⟩ (by decide)

end ClrDumper.JoinedReads
