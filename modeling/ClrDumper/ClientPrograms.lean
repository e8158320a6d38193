import ClrDumper.Dialogs
import ClrDumper.SessionRefinement

/-! The injected DLL as a program of the functions of `NamedPipeIO.h`: what it
asks and logs may depend on the answers it got. Its bytes and the server's run
through the two pipes in every interleaving, and the program comes to what it
comes to with the service at hand. -/
namespace ClrDumper.ClientPrograms
open Execution CStrings Decimal Memory NamedPipeIO NamedPipeLoop RequestCoding RequestDelivery SessionRefinement
open Dialogs hiding Step

/-- A call of `GetString` or of `GetInt`, with what the memory that it returns its
result in held before. -/
inductive Question where
  | getString (key : CString) (len : ℕ) (string : CharArray len)
  | getInt (key : CString) (res : CharArray 4)

def Answer : Question → Type
  | .getString _ _ _ => CString
  | .getInt _ _ => Int32

namespace Question

def call : Question → Call
  | getString key len string => .getString key len string
  | getInt key res => .getInt key res

/-- What the call makes of the bytes that it read. -/
def finish : (q : Question) → List UInt8 → Exec (Answer q)
  | getString _ _ string, bytes => getStringReply string bytes
  | getInt _ res, bytes => getIntReply res bytes

/-- What the tables of a server hold for the key, as far as it arrives. -/
def value (server : Server) : (q : Question) → Answer q
  | getString key _ _ => server.stringKeyMap.lookup CString.empty (firstLine key)
  | getInt key _ => server.intKeyMap.lookup 0 (firstLine key)

end Question

/-- The service that a server provides: it answers from its tables and prints the
first line of a message. -/
def service (server : Server) : Service Question Answer CString (List CString) where
  answer log q := (q.value server, log)
  take log msg := log ++ [firstLine msg]

/-- The client, the server and the two pipes between them. -/
structure Conversation (R : Type) where
  client : Client Question Answer CString R
  /-- What was written to the server and not read by it. -/
  requests : List (List UInt8)
  /-- What the server replied and was not read by the client. -/
  replies : List (List UInt8)
  server : Server
  /-- The lines on the console. -/
  printed : List CString

def Conversation.start {R : Type} (server : Server) (program : Program Question Answer CString R) : Conversation R :=
  ⟨.ready program, [], [], server, []⟩

/-- Who takes a step. -/
inductive Party where
  | client
  | server

/-- One step of the client or of the server. A step that would fault does not
exist. -/
inductive Step {R : Type} : Party → Conversation R → Conversation R → Prop where
  /-- A request is written, and the client waits in its `ReadFile`. -/
  | ask {c : Conversation R} {q : Question} {next : Answer q → Program Question Answer CString R}
      {buffer : CharArray MAX_BUFFER} {bytes : List UInt8} (asks : c.client = .ready (.ask q next))
      (sent : q.call.send buffer = .ok bytes) :
      Step .client c { c with client := .waiting q next, requests := c.requests ++ [bytes] }
  | tell {c : Conversation R} {msg : CString} {next : Program Question Answer CString R}
      {buffer : CharArray MAX_BUFFER} {bytes : List UInt8} (tells : c.client = .ready (.tell msg next))
      (sent : sendLog msg buffer = .ok bytes) :
      Step .client c { c with client := .ready next, requests := c.requests ++ [bytes] }
  /-- The server takes a request and serves it. -/
  | serve {c : Conversation R} {chunk : List UInt8} {rest : List (List UInt8)} {server : Server}
      {action : Option Action} (read : readFile MAX_BUFFER c.requests = some (chunk, rest))
      (ran : NamedPipeLoop.serve c.server chunk = .ok (server, action)) :
      Step .server c { c with
        requests := rest
        server := server
        replies := c.replies ++ replyOf action
        printed := c.printed ++ lineOf action }
  /-- The waiting call gets its reply. -/
  | receive {c : Conversation R} {q : Question} {next : Answer q → Program Question Answer CString R}
      {bytes : List UInt8} {rest : List (List UInt8)} {a : Answer q} (waits : c.client = .waiting q next)
      (read : readFile q.call.readSize c.replies = some (bytes, rest)) (ran : q.finish bytes = .ok a) :
      Step .client c { c with client := .ready (next a), replies := rest }

/-- One step of either. -/
def Steps {R : Type} (c c' : Conversation R) : Prop := ∃ party, Step party c c'

/-- What the server must be able to take of what a client sends: texts that begin
with neither a digit nor a newline and fit, and for `GetString` room for the
value of the key. -/
def Carried (server : Server) : Sent Question CString → Prop
  | .question q => Readable q.call.request.text ∧ q.call.request.text.length + 2 ≤ MAX_BUFFER ∧
      ∀ key len string, q = .getString key len string →
        (server.stringKeyMap.lookup CString.empty (firstLine key)).length < len
  | .message msg => Readable msg ∧ msg.length + 2 ≤ MAX_BUFFER

/-- The request for an item. -/
def request : Sent Question CString → Request
  | .question q => q.call.request
  | .message msg => ⟨.logMsg, msg⟩

/-- The request as far as it arrives. -/
def arrived (r : Request) : Request := ⟨r.kind, firstLine r.text⟩

/-- **One request, one action**, for a text of any number of lines. -/
theorem serve_arrived (s : Server) (r : Request) (readable : Readable r.text) (fits : r.text.length + 2 ≤ MAX_BUFFER) :
    ∃ t, NamedPipeLoop.serve s r.bytes = .ok (t, some (answer s (arrived r))) ∧ SameAnswers s t := by
  obtain ⟨middle, ran, type, msg, strings, ints⟩ := receive_request s r readable fits
  have same : SameAnswers s middle := by
    unfold SameAnswers
    rw [strings, ints]
    exact ⟨fun _ => rfl, fun _ => rfl⟩
  obtain ⟨t, answered, kept⟩ := dispatch_request middle (arrived r) type msg
  rw [answer_congr same.symm (arrived r)] at answered
  exact ⟨t, by simp [NamedPipeLoop.serve, ran, answered], same.trans kept⟩

theorem plain_firstLine {text : CString} (readable : Readable text) (fits : text.length + 2 ≤ MAX_BUFFER) :
    Plain (firstLine text) := by
  obtain ⟨first, rest, spelled, digit, line⟩ := readable
  have shorter := (List.takeWhile_prefix (l := text.bytes) (· != 10)).length_le
  refine ⟨?_, ⟨first, rest.takeWhile (· != 10), by simp [firstLine, spelled, line], digit, line⟩, ?_⟩
  · simp only [firstLine, CString.length] at fits ⊢
    omega
  · intro newline
    simpa using List.mem_takeWhile_imp newline

/-- What the server writes for a question. -/
def replyTo (server : Server) (q : Question) : List (List UInt8) := replyOf (some (answer server (arrived q.call.request)))

/-- The reply is one write, and the call makes the value of it. -/
theorem finish_value {server : Server} {q : Question} (carried : Carried server (.question q)) :
    ∃ bytes, replyTo server q = [bytes] ∧ bytes.length ≤ q.call.readSize ∧ q.finish bytes = .ok (q.value server) := by
  obtain ⟨readable, fits, room⟩ := carried
  cases q with
  | getString key len string =>
    have valid : Fits server (.getString (firstLine key) len string) :=
      ⟨plain_firstLine readable fits, by rintro _ _ _ ⟨⟩; exact room key len string rfl⟩
    obtain ⟨bytes, one, size, ran⟩ := finish_reply valid rfl
    obtain ⟨value, read, last⟩ := bind_ok ran
    cases last
    exact ⟨bytes, one, size, read⟩
  | getInt key res =>
    have valid : Fits server (.getInt (firstLine key) res) :=
      ⟨plain_firstLine readable fits, fun _ _ _ other => by cases other⟩
    obtain ⟨bytes, one, size, ran⟩ := finish_reply valid rfl
    obtain ⟨value, read, last⟩ := bind_ok ran
    cases last
    exact ⟨bytes, one, size, read⟩

theorem send_question {q : Question} (fits : q.call.request.text.length + 2 ≤ MAX_BUFFER) (buffer : CharArray MAX_BUFFER) :
    q.call.send buffer = .ok (request (.question q)).bytes := by
  rw [send_request]
  exact send_bytes q.call.request fits buffer

theorem send_message {msg : CString} (fits : msg.length + 2 ≤ MAX_BUFFER) (buffer : CharArray MAX_BUFFER) :
    sendLog msg buffer = .ok (request (.message msg)).bytes := send_bytes ⟨.logMsg, msg⟩ fits buffer

/-- A request is taken from the pipe whole. -/
theorem read_request {r : Request} (fits : r.text.length + 2 ≤ MAX_BUFFER) (rest : List (List UInt8)) :
    readFile MAX_BUFFER (r.bytes :: rest) = some (r.bytes, rest) := by
  have size : r.bytes.length ≤ MAX_BUFFER := by
    rw [Request.bytes, List.length_cons, CString.length_terminated]
    omega
  rw [readFile, if_pos size]

variable {R : Type} {server : Server} {result : R × List CString} {later : List (Sent Question CString)} {left : ℕ}
  {d : Dialog Question Answer CString R (List CString)} {c c' : Conversation R}

/-- The pipes carry a dialog with the service. -/
structure Carries (server : Server) (d : Dialog Question Answer CString R (List CString)) (c : Conversation R) :
    Prop where
  client : c.client = d.client
  requests : c.requests = d.queue.map fun item => (request item).bytes
  replies : c.replies = d.answers.flatMap fun x => replyTo server x.1
  answers : ∀ x ∈ d.answers, x.2 = x.1.value server
  server : SameAnswers server c.server
  printed : c.printed = d.state

/-- The server serves the item that was sent first. -/
theorem serve_first {item : Sent Question CString} {queue : List (Sent Question CString)} {answers : List (Sigma Answer)}
    {client : Client Question Answer CString R} {log : List CString} (carried : Carried server item)
    (carries : Carries server ⟨client, item :: queue, answers, log⟩ c) :
    ∃ t, readFile MAX_BUFFER c.requests = some ((request item).bytes, queue.map fun item => (request item).bytes) ∧
      NamedPipeLoop.serve c.server (request item).bytes = .ok (t, some (answer server (arrived (request item)))) ∧
      SameAnswers server t := by
  have texts : Readable (request item).text ∧ (request item).text.length + 2 ≤ MAX_BUFFER := by
    cases item with
    | question q => exact ⟨carried.1, carried.2.1⟩
    | message msg => exact carried
  obtain ⟨t, ran, same⟩ := serve_arrived c.server (request item) texts.1 texts.2
  rw [answer_congr carries.server.symm] at ran
  refine ⟨t, ?_, ran, carries.server.trans same⟩
  rw [carries.requests, List.map_cons, read_request texts.2]

/-- A step of the conversation is one of the dialog. -/
theorem carries_step (carries : Carries server d c) (phase : Phase (service server) result later left d)
    (fits : ∀ item ∈ later, Carried server item) {party : Party} (step : Step party c c') :
    ∃ e, Dialogs.Step (service server) d e ∧ Carries server e c' := by
  obtain ⟨client, queue, answers, log⟩ := d
  cases step with
  | @ask _ q next buffer bytes asks sent =>
    obtain rfl : client = .ready (.ask q next) := carries.client.symm.trans asks
    have carried := fits _ (phase_asks phase rfl)
    rw [send_question carried.2.1, Except.ok.injEq] at sent
    subst sent
    exact ⟨_, .ask, rfl, by simp [carries.requests], carries.replies, carries.answers, carries.server, carries.printed⟩
  | @tell _ msg next buffer bytes tells sent =>
    obtain rfl : client = .ready (.tell msg next) := carries.client.symm.trans tells
    have carried := fits _ (phase_tells phase rfl)
    rw [send_message carried.2, Except.ok.injEq] at sent
    subst sent
    exact ⟨_, .tell, rfl, by simp [carries.requests], carries.replies, carries.answers, carries.server, carries.printed⟩
  | @serve _ chunk rest t action read ran =>
    cases queue with
    | nil =>
      rw [carries.requests] at read
      cases read
    | cons item queue =>
      have carried := fits item ((phase_queue phase).subset List.mem_cons_self)
      obtain ⟨t', first, served, same⟩ := serve_first carried carries
      rw [first, Option.some.injEq, Prod.mk.injEq] at read
      obtain ⟨rfl, rfl⟩ := read
      rw [served, Except.ok.injEq, Prod.mk.injEq] at ran
      obtain ⟨rfl, rfl⟩ := ran
      cases item with
      | question q =>
        have quiet : lineOf (some (answer server (arrived q.call.request))) = [] := by cases q <;> rfl
        refine ⟨_, .answer, carries.client, rfl, ?_, ?_, same, ?_⟩
        · simp only [carries.replies, List.flatMap_append, List.flatMap_singleton]
          rfl
        · intro x member
          rcases List.mem_append.mp member with old | new
          · exact carries.answers x old
          · rw [List.mem_singleton.mp new]
            rfl
        · simp only [request, quiet, List.append_nil]
          exact carries.printed
      | message msg =>
        refine ⟨_, .take, carries.client, rfl, ?_, carries.answers, same, ?_⟩
        · exact (List.append_nil _).trans carries.replies
        · simp only [carries.printed]
          rfl
  | @receive _ q next bytes rest a waits read ran =>
    obtain rfl : client = .waiting q next := carries.client.symm.trans waits
    cases answers with
    | nil =>
      rw [carries.replies] at read
      cases read
    | cons x answers =>
      obtain ⟨value, rfl⟩ := phase_answers phase rfl rfl
      obtain ⟨reply, one, size, made⟩ := finish_value (fits _ (phase_waits phase rfl))
      rw [carries.replies, List.flatMap_cons, one, List.singleton_append, readFile, if_pos size, Option.some.injEq,
        Prod.mk.injEq] at read
      obtain ⟨rfl, rfl⟩ := read
      rw [made, Except.ok.injEq] at ran
      have told : value = q.value server := carries.answers _ List.mem_cons_self
      rw [← ran, ← told]
      exact ⟨_, .receive, rfl, carries.requests, rfl, fun x member => carries.answers x (List.mem_cons_of_mem _ member),
        carries.server, carries.printed⟩

/-- Where the dialog can go on, so can the conversation. -/
theorem carries_progress (carries : Carries server d c) (phase : Phase (service server) result later left d)
    (fits : ∀ item ∈ later, Carried server item) {e : Dialog Question Answer CString R (List CString)}
    (step : Dialogs.Step (service server) d e) : ∃ c', Steps c c' := by
  cases step with
  | @ask q next queue answers log =>
    have carried := fits _ (phase_asks phase rfl)
    exact ⟨_, .client, .ask carries.client (send_question carried.2.1 (.filled _ 0))⟩
  | @tell msg next queue answers log =>
    have carried := fits _ (phase_tells phase rfl)
    exact ⟨_, .client, .tell carries.client (send_message carried.2 (.filled _ 0))⟩
  | answer =>
    obtain ⟨t, read, ran, _⟩ := serve_first (fits _ ((phase_queue phase).subset List.mem_cons_self)) carries
    exact ⟨_, .server, .serve read ran⟩
  | take =>
    obtain ⟨t, read, ran, _⟩ := serve_first (fits _ ((phase_queue phase).subset List.mem_cons_self)) carries
    exact ⟨_, .server, .serve read ran⟩
  | @receive q next value queue answers log =>
    obtain ⟨reply, one, size, made⟩ := finish_value (fits _ (phase_waits phase rfl))
    have replies := carries.replies
    rw [List.flatMap_cons, one, List.singleton_append] at replies
    exact ⟨_, .client, .receive carries.client (by rw [replies, readFile, if_pos size]) made⟩

/-- The console only gets longer. -/
theorem printed_grows (server : Server) : Grows (service server) (· <+: ·) where
  refl := List.prefix_refl
  trans := List.IsPrefix.trans
  answer _ _ := List.prefix_refl _
  take _ _ := List.prefix_append _ _

/-- A conversation that is on its way to a result: it carries a dialog with the
service, and all that is still to be sent can be carried. Some first lines were
sent already. -/
def Talks (server : Server) (told : List CString) (result : R × List CString) (left : ℕ) (c : Conversation R) : Prop :=
  ∃ d later, (∀ item ∈ later, Carried server item) ∧ Phase (service server) result later left d ∧ Carries server d c ∧
    told <+: (service server).settle d.state d.queue

variable {told : List CString}

theorem talks_start {program : Program Question Answer CString R}
    (fits : ∀ item ∈ program.sent (service server) [], Carried server item) :
    Talks server [] (program.run (service server) []) (cost (program.sent (service server) []))
      (Conversation.start server program) :=
  ⟨_, _, fits, phase_start (service server) program [],
    ⟨rfl, rfl, rfl, fun _ none => absurd none List.not_mem_nil, SameAnswers.refl server, rfl⟩, List.nil_prefix⟩

/-- **Step lemma.** Every step takes one away. -/
theorem talks_step (talks : Talks server told result left c) {party : Party} (step : Step party c c') :
    ∃ less, left = less + 1 ∧ Talks server told result less c' := by
  obtain ⟨d, later, fits, phase, carries, sent⟩ := talks
  obtain ⟨e, moves, carries'⟩ := carries_step carries phase fits step
  obtain ⟨later', less, suffix, one, phase'⟩ := phase_step phase moves
  exact ⟨less, one, e, later', fun item member => fits item (suffix.subset member), phase', carries',
    sent.trans (settle_grows (printed_grows server) moves)⟩

theorem talks_progress (talks : Talks server told result left c) (more : left ≠ 0) : ∃ c', Steps c c' := by
  obtain ⟨d, later, fits, phase, carries, _⟩ := talks
  obtain ⟨e, moves⟩ := phase_progress phase more
  exact carries_progress carries phase fits moves

/-- The server does not need the client to take what was sent. -/
theorem talks_serve (talks : Talks server told result left c) (more : c.requests ≠ []) : ∃ c', Step .server c c' := by
  obtain ⟨⟨client, queue, answers, log⟩, later, fits, phase, carries, _⟩ := talks
  cases queue with
  | nil => exact absurd carries.requests more
  | cons item queue =>
    obtain ⟨t, read, ran, _⟩ := serve_first (fits _ ((phase_queue phase).subset List.mem_cons_self)) carries
    exact ⟨_, .serve read ran⟩

theorem step_server (step : Step .server c c') : c'.client = c.client := by
  cases step
  rfl

theorem talks_ended (talks : Talks server told result 0 c) : c.client = .ready (.done result.1) ∧
    c.printed = result.2 ∧ c.requests = [] ∧ c.replies = [] := by
  obtain ⟨d, later, fits, phase, carries, _⟩ := talks
  obtain rfl := phase_ended phase
  exact ⟨carries.client, carries.printed, carries.requests, carries.replies⟩

/-- When the client is done, it has the result, and another program can follow. -/
theorem talks_next {value : R} (talks : Talks server told result left c) (idle : c.client = .ready (.done value))
    (program : Program Question Answer CString R)
    (fits : ∀ item ∈ program.sent (service server) result.2, Carried server item) :
    value = result.1 ∧ Talks server result.2 (program.run (service server) result.2)
      (left + cost (program.sent (service server) result.2)) { c with client := .ready program } := by
  obtain ⟨d, later, carried, phase, carries, _⟩ := talks
  obtain ⟨same, phase'⟩ := phase_next phase (carries.client.symm.trans idle) program
  have all := phase_settled phase (carries.client.symm.trans idle)
  refine ⟨same, _, _, fun item member => ?_, phase',
    ⟨rfl, carries.requests, carries.replies, carries.answers, carries.server, carries.printed⟩,
    all ▸ List.prefix_refl _⟩
  rcases List.mem_append.mp member with old | new
  · exact carried item old
  · exact fits item new

theorem talks_value {value : R} (talks : Talks server told result left c) (idle : c.client = .ready (.done value)) :
    value = result.1 :=
  (talks_next talks idle (.done value) fun _ none => absurd none List.not_mem_nil).1

/-- Once the server has taken everything, nothing is left. -/
theorem talks_idle {value : R} (talks : Talks server told result left c) (idle : c.client = .ready (.done value))
    (empty : c.requests = []) : left = 0 := by
  obtain ⟨d, later, carried, phase, carries, _⟩ := talks
  have taken := carries.requests.symm.trans empty
  exact phase_idle phase (carries.client.symm.trans idle) (List.map_eq_nil_iff.mp taken)

theorem talks_printed (talks : Talks server told result left c) : c.printed <+: result.2 := by
  obtain ⟨d, later, fits, phase, carries, _⟩ := talks
  rw [carries.printed]
  exact phase_below (printed_grows server) phase

/-- Then the lines that were sent are on the console. -/
theorem talks_told (talks : Talks server told result left c) (empty : c.requests = []) : told <+: c.printed := by
  obtain ⟨d, later, fits, phase, carries, sent⟩ := talks
  have taken : d.queue = [] := List.map_eq_nil_iff.mp (carries.requests.symm.trans empty)
  rw [taken] at sent
  rw [carries.printed]
  exact sent

/-- **Conversations run their program.** Whatever a client does with the answers
that it gets, as long as its texts can be carried, the values of its keys are
shorter than the lengths that it gives, and each of its writes is delivered by a
read of its own, as for one thread on pipes of size 0: each interleaving takes the
same number of steps and cannot stop before it has taken them. On the way the
console shows the first part of what the program logs with the service at hand.
In the end the client has the result that it has there, the console shows all of
its lines, and both pipes are empty. -/
theorem conversation_runs_program (server : Server) (program : Program Question Answer CString R)
    (fits : ∀ item ∈ program.sent (service server) [], Carried server item) (n : ℕ) (c : Conversation R)
    (reach : After Steps (Conversation.start server program) n c) :
    n ≤ cost (program.sent (service server) []) ∧ c.printed <+: (program.run (service server) []).2 ∧
      (n < cost (program.sent (service server) []) → ∃ c', Steps c c') ∧
      (n = cost (program.sent (service server) []) →
        c.client = .ready (.done (program.run (service server) []).1) ∧
          c.printed = (program.run (service server) []).2 ∧ c.requests = [] ∧ c.replies = []) := by
  obtain ⟨left, total, talks⟩ : ∃ left, n + left = cost (program.sent (service server) []) ∧
      Talks server [] (program.run (service server) []) left c := by
    induction reach with
    | start => exact ⟨_, Nat.zero_add _, talks_start fits⟩
    | step _ step ih =>
      obtain ⟨left, total, talks⟩ := ih
      obtain ⟨party, step⟩ := step
      obtain ⟨less, one, talks'⟩ := talks_step talks step
      exact ⟨less, by omega, talks'⟩
  refine ⟨by omega, talks_printed talks, fun more => talks_progress talks (by omega), fun all => ?_⟩
  obtain rfl : left = 0 := by omega
  exact talks_ended talks

/-- A client that logs the name of what it asked for, if there is something. -/
def sampleProgram : Program Question Answer CString Int32 :=
  .ask (.getInt sampleText (.filled 4 1)) fun (value : Int32) =>
    if value = 0 then .done value else .tell sampleText (.done value)

/-- A server with a 7. -/
def sampleTable : Server := { sampleServer with intKeyMap := fun key => if key = sampleText then some 7 else none }

theorem conversation_runs_program_sample : ∃ c, After Steps (Conversation.start sampleTable sampleProgram) 5 c ∧
    c.client = .ready (.done 7) ∧ c.printed = [sampleText] ∧ c.requests = [] := by
  have fits : ∀ item ∈ sampleProgram.sent (service sampleTable) [], Carried sampleTable item := by
    have sent : sampleProgram.sent (service sampleTable) [] =
      [.question (.getInt sampleText (.filled 4 1)), .message sampleText] := rfl
    rw [sent]
    intro item member
    rcases List.mem_pair.mp member with rfl | rfl
    · exact ⟨sampleText_plain.readable, by decide, fun _ _ _ other => by cases other⟩
    · exact ⟨sampleText_plain.readable, by decide⟩
  have runs : ∀ n ≤ 5, ∃ c, After Steps (Conversation.start sampleTable sampleProgram) n c := by
    intro n
    induction n with
    | zero => exact fun _ => ⟨_, .start⟩
    | succ n ih =>
      intro small
      obtain ⟨c, before⟩ := ih (by omega)
      obtain ⟨_, _, more, _⟩ := conversation_runs_program sampleTable sampleProgram fits n c before
      obtain ⟨c', step⟩ := more (by change n < 5; omega)
      exact ⟨c', .step before step⟩
  obtain ⟨c, all⟩ := runs 5 (by decide)
  obtain ⟨client, printed, requests, _⟩ := (conversation_runs_program sampleTable sampleProgram fits 5 c all).2.2.2 rfl
  exact ⟨c, all, client, printed, requests⟩

end ClrDumper.ClientPrograms
