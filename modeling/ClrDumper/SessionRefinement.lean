import Mathlib.Logic.Relation
import ClrDumper.RequestDelivery

/-! A session of one client thread with the server. Client and server run on
their own, joined by two pipes that deliver each write with one read; every
interleaving of their steps is a run of `Step`. Whatever the interleaving, the
calls get the answers of a key-value service whose contents never change, and
the log comes out complete and in order. -/
namespace ClrDumper.SessionRefinement
open Execution CStrings Decimal Memory NamedPipeIO NamedPipeLoop RequestCoding RequestDelivery

/-- A call of the client, with what the memory that it returns its result in
held before. -/
inductive Call where
  | getString (key : CString) (len : ℕ) (string : CharArray len)
  | getInt (key : CString) (res : CharArray 4)
  | sendLog (msg : CString)

/-- What a call gives back to its caller. -/
inductive Result where
  | string (value : CString)
  | int (value : Int32)
  | done
  deriving DecidableEq

namespace Call

def request : Call → Request
  | getString key _ _ => ⟨.getKeyString, key⟩
  | getInt key _ => ⟨.getKeyInt, key⟩
  | sendLog msg => ⟨.logMsg, msg⟩

/-- Whether the call waits for a reply. -/
def blocks : Call → Bool
  | sendLog _ => false
  | _ => true

/-- The bytes that the call writes. -/
def send : Call → CharArray MAX_BUFFER → Exec (List UInt8)
  | getString key _ _ => NamedPipeIO.getString key
  | getInt key _ => NamedPipeIO.getInt key
  | sendLog msg => NamedPipeIO.sendLog msg

/-- How many bytes the call asks `ReadFile` for. -/
def readSize : Call → ℕ
  | getString _ len _ => len
  | getInt _ _ => 4
  | sendLog _ => 0

/-- What the call makes of the bytes that it read. -/
def finish : Call → List UInt8 → Exec Result
  | getString _ _ string, bytes => return .string (← getStringReply string bytes)
  | getInt _ res, bytes => return .int (← getIntReply res bytes)
  | sendLog _, _ => return .done

end Call

/-- `ReadFile` on a pipe that keeps its writes apart: the first of them, or as
much of it as was asked for. The rest stays at the front. -/
def readFile (size : ℕ) : List (List UInt8) → Option (List UInt8 × List (List UInt8))
  | [] => none
  | chunk :: rest =>
    if chunk.length ≤ size then some (chunk, rest) else some (chunk.take size, chunk.drop size :: rest)

/-- The client, the server and the two pipes between them. -/
structure Session where
  /-- The calls not made yet. -/
  calls : List Call
  /-- The call that waits in its `ReadFile`. -/
  waiting : Option Call
  /-- The results of the completed calls. -/
  results : List Result
  /-- What was written to the server and not read by it. -/
  requests : List (List UInt8)
  /-- What the server replied and was not read by the client. -/
  replies : List (List UInt8)
  server : Server
  /-- How many requests the server has taken from the pipe. -/
  served : ℕ
  /-- The lines on the console. -/
  printed : List CString

def Session.start (server : Server) (calls : List Call) : Session :=
  ⟨calls, none, [], [], [], server, 0, []⟩

def replyOf : Option Action → List (List UInt8)
  | some (.reply bytes) => [bytes]
  | _ => []

def lineOf : Option Action → List CString
  | some (.print line) => [line]
  | _ => []

/-- One step of the client or of the server. A step that would fault does not
exist, so a faulting session is stuck. -/
inductive Step : Session → Session → Prop where
  /-- The client makes a call that waits for a reply. -/
  | ask {s : Session} {call : Call} {rest : List Call} {buffer : CharArray MAX_BUFFER} {bytes : List UInt8}
      (idle : s.waiting = none) (next : s.calls = call :: rest) (blocks : call.blocks = true)
      (sent : call.send buffer = .ok bytes) :
      Step s { s with calls := rest, waiting := some call, requests := s.requests ++ [bytes] }
  /-- The client makes a call that does not. -/
  | log {s : Session} {call : Call} {rest : List Call} {buffer : CharArray MAX_BUFFER} {bytes : List UInt8}
      (idle : s.waiting = none) (next : s.calls = call :: rest) (blocks : call.blocks = false)
      (sent : call.send buffer = .ok bytes) :
      Step s { s with calls := rest, results := s.results ++ [.done], requests := s.requests ++ [bytes] }
  /-- The server takes a request and serves it. -/
  | serve {s : Session} {chunk : List UInt8} {rest : List (List UInt8)} {server : Server}
      {action : Option Action}
      (read : readFile MAX_BUFFER s.requests = some (chunk, rest))
      (ran : NamedPipeLoop.serve s.server chunk = .ok (server, action)) :
      Step s { s with
        requests := rest
        server := server
        served := s.served + 1
        replies := s.replies ++ replyOf action
        printed := s.printed ++ lineOf action }
  /-- The waiting call gets its reply and completes. -/
  | receive {s : Session} {call : Call} {bytes : List UInt8} {rest : List (List UInt8)} {result : Result}
      (waits : s.waiting = some call) (read : readFile call.readSize s.replies = some (bytes, rest))
      (ran : call.finish bytes = .ok result) :
      Step s { s with waiting := none, replies := rest, results := s.results ++ [result] }

abbrev Reachable (server : Server) (calls : List Call) (s : Session) : Prop :=
  Relation.ReflTransGen Step (Session.start server calls) s

/-! ## The service -/

/-- What the server is for: two tables that answer every key, and a log. -/
structure Service where
  strings : CString → CString
  ints : CString → Int32
  log : List CString

namespace Service

/-- The service that the maps of a server stand for. -/
def ofServer (server : Server) : Service where
  strings := server.stringKeyMap.lookup CString.empty
  ints := server.intKeyMap.lookup 0
  log := []

/-- A call answers from the tables, which it does not change, or adds to the log. -/
def call (service : Service) : Call → Result × Service
  | .getString key _ _ => (.string (service.strings key), service)
  | .getInt key _ => (.int (service.ints key), service)
  | .sendLog msg => (.done, { service with log := service.log ++ [msg] })

/-- The results of a sequence of calls, and the service after them. -/
def run (service : Service) : List Call → List Result × Service
  | [] => ([], service)
  | c :: rest =>
    let (result, service) := service.call c
    let (results, service) := service.run rest
    (result :: results, service)

end Service

/-- What a call leaves in the log. -/
def Call.logged : Call → List CString
  | .sendLog msg => [msg]
  | _ => []

namespace Service

/-- The answer of a call. -/
def answer (service : Service) (c : Call) : Result := (service.call c).1

theorem call_snd (service : Service) (c : Call) :
    (service.call c).2 = { service with log := service.log ++ c.logged } := by
  cases c <;> simp [call, Call.logged]

theorem answer_log (service : Service) (log : List CString) (c : Call) :
    ({ service with log } : Service).answer c = service.answer c := by
  cases c <;> rfl

/-- The tables never change, so every call of a run is answered as if it were
the first, and the log is what the calls logged. -/
theorem run_eq (service : Service) (calls : List Call) :
    service.run calls =
      (calls.map service.answer, { service with log := service.log ++ calls.flatMap Call.logged }) := by
  induction calls generalizing service with
  | nil => simp [run]
  | cons c rest ih =>
    simp only [run, call_snd, ih, List.map_cons, List.flatMap_cons, List.append_assoc]
    congr 2
    exact List.map_congr_left fun other _ => answer_log service _ other

end Service

/-! ## What every run keeps -/

/-- A call that the protocol can carry: a plain text, and for `GetString` room
for the value of the key and its terminator. -/
def Fits (server : Server) (c : Call) : Prop :=
  Plain c.request.text ∧ ∀ key len string, c = .getString key len string →
    (server.stringKeyMap.lookup CString.empty key).length < len

/-- The bytes that the server replies to a call. -/
def reply (server : Server) (c : Call) : List (List UInt8) := replyOf (some (answer server c.request))

/-- How far the exchange of the last call has got: it needs no reply, its
request is still on the way behind earlier ones, or its reply is. -/
inductive Exchange (server : Server) (made queued : List Call) : Option Call → List Result → List (List UInt8) →
    Prop where
  | idle (results : List Result) (logs : ∀ c ∈ queued, c.blocks = false)
      (answered : results = made.map (Service.ofServer server).answer) :
      Exchange server made queued none results []
  | asked (results : List Result) (earlier before : List Call) (c : Call) (blocks : c.blocks = true)
      (last : queued = earlier ++ [c]) (logs : ∀ c ∈ earlier, c.blocks = false)
      (all : made = before ++ [c]) (answered : results = before.map (Service.ofServer server).answer) :
      Exchange server made queued (some c) results []
  | replied (results : List Result) (before : List Call) (c : Call) (blocks : c.blocks = true)
      (served : queued = []) (all : made = before ++ [c])
      (answered : results = before.map (Service.ofServer server).answer) :
      Exchange server made queued (some c) results (reply server c)

/-- The calls made so far are the served ones followed by those whose requests
are in the pipe. -/
structure Inv (server : Server) (calls : List Call) (s : Session) (served queued : List Call) : Prop where
  order : calls = served ++ queued ++ s.calls
  count : s.served = served.length
  requests : s.requests = queued.map fun c => c.request.bytes
  printed : s.printed = served.flatMap Call.logged
  answers : SameAnswers server s.server
  exchange : Exchange server (served ++ queued) queued s.waiting s.results s.replies

theorem send_request (c : Call) (buffer : CharArray MAX_BUFFER) :
    c.send buffer = c.request.kind.send c.request.text buffer := by
  cases c <;> rfl

theorem lineOf_answer (server : Server) (c : Call) :
    lineOf (some (answer server c.request)) = c.logged := by
  cases c <;> rfl

theorem reply_log (server : Server) {c : Call} (log : c.blocks = false) : reply server c = [] := by
  cases c with
  | sendLog msg => rfl
  | getString key len string => cases log
  | getInt key res => cases log

/-- A waiting call turns its reply into the answer of the service. -/
theorem finish_reply {server : Server} {c : Call} (fits : Fits server c) (blocks : c.blocks = true) :
    ∃ bytes, reply server c = [bytes] ∧ bytes.length ≤ c.readSize ∧
      c.finish bytes = .ok ((Service.ofServer server).answer c) := by
  cases c with
  | sendLog msg => cases blocks
  | getString key len string =>
    have room := fits.2 key len string rfl
    refine ⟨(server.stringKeyMap.lookup CString.empty key).terminated, rfl, ?_, ?_⟩
    · rw [CString.length_terminated]
      exact room
    · have stored : (server.stringKeyMap.lookup CString.empty key).terminated.length ≤ len := by
        rw [CString.length_terminated]
        exact room
      simp [Call.finish, getStringReply, CharArray.store_fits _ stored, Service.answer, Service.call,
        Service.ofServer]
  | getInt key res =>
    have size : (leBytes 4 (server.intKeyMap.lookup 0 key).toUInt32.toNat).length ≤ 4 := by simp
    refine ⟨leBytes 4 (server.intKeyMap.lookup 0 key).toUInt32.toNat, rfl, size, ?_⟩
    have bits : UInt32.ofNat (leNat (leBytes 4 (server.intKeyMap.lookup 0 key).toUInt32.toNat)) =
        (server.intKeyMap.lookup 0 key).toUInt32 := by
      rw [leNat_leBytes]
      apply UInt32.toNat_inj.mp
      have bound := UInt32.toNat_lt (server.intKeyMap.lookup 0 key).toUInt32
      rw [UInt32.toNat_ofNat']
      omega
    have value : Int32.ofNat (leNat (leBytes 4 (server.intKeyMap.lookup 0 key).toUInt32.toNat)) =
        server.intKeyMap.lookup 0 key := by
      simpa using congrArg UInt32.toInt32 bits
    have whole : (res.overlay _ size).bytes = leBytes 4 (server.intKeyMap.lookup 0 key).toUInt32.toNat := by
      simp [CharArray.overlay, res.size]
    simp [Call.finish, getIntReply, CharArray.store_fits _ size, whole, value, Service.answer, Service.call,
      Service.ofServer]

variable {server : Server} {calls served queued : List Call} {s t : Session}

theorem inv_start (server : Server) (calls : List Call) : Inv server calls (Session.start server calls) [] [] :=
  ⟨rfl, rfl, rfl, rfl, SameAnswers.refl server, .idle [] (fun _ member => absurd member List.not_mem_nil) rfl⟩

/-- Making a call appends its request to the pipe. -/
theorem inv_send (inv : Inv server calls s served queued) (valid : ∀ c ∈ calls, Fits server c) {call : Call}
    {rest : List Call} (next : s.calls = call :: rest) {buffer : CharArray MAX_BUFFER} {bytes : List UInt8}
    (sent : call.send buffer = .ok bytes) :
    calls = served ++ (queued ++ [call]) ++ rest ∧
      s.requests ++ [bytes] = (queued ++ [call]).map fun c => c.request.bytes := by
  have order := inv.order
  rw [next] at order
  have fits := valid call (by rw [order]; simp)
  rw [send_request, send_bytes call.request fits.1.fits, Except.ok.injEq] at sent
  exact ⟨by rw [order]; simp, by simp [inv.requests, sent]⟩

theorem inv_ask (inv : Inv server calls s served queued) (valid : ∀ c ∈ calls, Fits server c) {call : Call}
    {rest : List Call} (idle : s.waiting = none) (next : s.calls = call :: rest) (blocks : call.blocks = true)
    {buffer : CharArray MAX_BUFFER} {bytes : List UInt8} (sent : call.send buffer = .ok bytes) :
    Inv server calls { s with calls := rest, waiting := some call, requests := s.requests ++ [bytes] }
      served (queued ++ [call]) := by
  obtain ⟨order, requests⟩ := inv_send inv valid next sent
  refine ⟨order, inv.count, requests, inv.printed, inv.answers, ?_⟩
  have exchange := inv.exchange
  rw [idle] at exchange
  generalize s.replies = replies at exchange
  cases exchange with
  | idle results logs answered =>
    exact .asked _ queued (served ++ queued) call blocks rfl logs (by simp) answered

theorem inv_log (inv : Inv server calls s served queued) (valid : ∀ c ∈ calls, Fits server c) {call : Call}
    {rest : List Call} (idle : s.waiting = none) (next : s.calls = call :: rest) (blocks : call.blocks = false)
    {buffer : CharArray MAX_BUFFER} {bytes : List UInt8} (sent : call.send buffer = .ok bytes) :
    Inv server calls { s with calls := rest, results := s.results ++ [.done], requests := s.requests ++ [bytes] }
      served (queued ++ [call]) := by
  obtain ⟨order, requests⟩ := inv_send inv valid next sent
  refine ⟨order, inv.count, requests, inv.printed, inv.answers, ?_⟩
  have exchange := inv.exchange
  simp only [idle] at exchange ⊢
  generalize s.replies = replies at exchange ⊢
  cases exchange with
  | idle results logs answered =>
    refine .idle _ ?_ ?_
    · intro c member
      rcases List.mem_append.mp member with earlier | last
      · exact logs c earlier
      · rw [List.mem_singleton.mp last]
        exact blocks
    · cases call with
      | sendLog msg =>
        simp only [answered, List.map_append, List.append_assoc]
        rfl
      | getString key len string => cases blocks
      | getInt key res => cases blocks

private theorem request_size {c : Call} (fits : Fits server c) : c.request.bytes.length ≤ MAX_BUFFER := by
  have room := fits.1.fits
  simp only [Request.bytes, List.length_cons, CString.length_terminated]
  omega

/-- The server takes the oldest request in the pipe and does what the service
does for it. -/
theorem inv_serve (inv : Inv server calls s served queued) (valid : ∀ c ∈ calls, Fits server c)
    {chunk : List UInt8} {rest : List (List UInt8)} {after : Server} {action : Option Action}
    (read : readFile MAX_BUFFER s.requests = some (chunk, rest))
    (ran : NamedPipeLoop.serve s.server chunk = .ok (after, action)) :
    ∃ c later, queued = c :: later ∧ Inv server calls { s with
      requests := rest
      server := after
      served := s.served + 1
      replies := s.replies ++ replyOf action
      printed := s.printed ++ lineOf action } (served ++ [c]) later := by
  rw [inv.requests] at read
  have exchange := inv.exchange
  cases queued with
  | nil => simp [readFile] at read
  | cons c later =>
    have fits := valid c (by rw [inv.order]; simp)
    rw [List.map_cons, readFile, if_pos (request_size fits), Option.some.injEq, Prod.mk.injEq] at read
    obtain ⟨rfl, rfl⟩ := read
    obtain ⟨t, answered, same⟩ := serve_request s.server c.request fits.1
    rw [ran, Except.ok.injEq, Prod.mk.injEq] at answered
    obtain ⟨rfl, rfl⟩ := answered
    rw [← answer_congr inv.answers]
    have order : served ++ [c] ++ later = served ++ c :: later := by simp
    refine ⟨c, later, rfl, by rw [order]; exact inv.order, by simp [inv.count], rfl, ?_,
      inv.answers.trans same, ?_⟩
    · simp [inv.printed, lineOf_answer]
    · rw [order]
      change Exchange server _ later s.waiting s.results (s.replies ++ reply server c)
      generalize s.waiting = waiting, s.results = results, s.replies = replies at exchange ⊢
      cases exchange with
      | idle _ logs results_eq =>
        rw [reply_log server (logs c List.mem_cons_self)]
        exact .idle _ (fun other member => logs other (List.mem_cons_of_mem _ member)) results_eq
      | asked _ earlier before asker blocks last logs all results_eq =>
        cases earlier with
        | nil =>
          obtain ⟨rfl, rfl⟩ := List.cons.inj last
          exact .replied _ before _ blocks rfl all results_eq
        | cons first earlier =>
          obtain ⟨rfl, rfl⟩ := List.cons.inj last
          rw [reply_log server (logs c List.mem_cons_self)]
          exact .asked _ earlier before asker blocks rfl
            (fun other member => logs other (List.mem_cons_of_mem _ member)) all results_eq
      | replied _ before asker blocks empty => cases empty

/-- The waiting call reads the whole of its reply, and nothing else. -/
theorem inv_receive (inv : Inv server calls s served queued) (valid : ∀ c ∈ calls, Fits server c)
    {call : Call} {bytes : List UInt8} {rest : List (List UInt8)} {result : Result}
    (waits : s.waiting = some call) (read : readFile call.readSize s.replies = some (bytes, rest))
    (ran : call.finish bytes = .ok result) :
    Inv server calls { s with waiting := none, replies := rest, results := s.results ++ [result] }
      served queued := by
  refine ⟨inv.order, inv.count, inv.requests, inv.printed, inv.answers, ?_⟩
  have exchange := inv.exchange
  have order := inv.order
  rw [waits] at exchange
  generalize s.replies = replies at exchange read
  cases exchange with
  | asked => simp [readFile] at read
  | replied _ before _ blocks empty all answered =>
    have member : call ∈ calls := by rw [order, all]; simp
    obtain ⟨expected, replied, size, finished⟩ := finish_reply (valid call member) blocks
    rw [replied, readFile, if_pos size, Option.some.injEq, Prod.mk.injEq] at read
    obtain ⟨rfl, rfl⟩ := read
    rw [ran, Except.ok.injEq] at finished
    refine .idle _ (fun c member => by simp [empty] at member) ?_
    simp [all, answered, finished]

/-- **Step lemma.** Every step of the client and of the server keeps the
invariant. -/
theorem inv_step (inv : Inv server calls s served queued) (valid : ∀ c ∈ calls, Fits server c)
    (step : Step s t) : ∃ served queued, Inv server calls t served queued := by
  cases step with
  | ask idle next blocks sent => exact ⟨_, _, inv_ask inv valid idle next blocks sent⟩
  | log idle next blocks sent => exact ⟨_, _, inv_log inv valid idle next blocks sent⟩
  | serve read ran =>
    obtain ⟨c, later, _, kept⟩ := inv_serve inv valid read ran
    exact ⟨_, _, kept⟩
  | receive waits read ran => exact ⟨_, _, inv_receive inv valid waits read ran⟩

/-- **Run lemma.** So does every run. -/
theorem inv_reachable (valid : ∀ c ∈ calls, Fits server c) (reach : Reachable server calls s) :
    ∃ served queued, Inv server calls s served queued := by
  induction reach with
  | refl => exact ⟨[], [], inv_start server calls⟩
  | tail _ step ih =>
    obtain ⟨served, queued, inv⟩ := ih
    exact inv_step inv valid step

/-! ## What it says about a session -/

/-- The results are those of a prefix of the calls made. -/
theorem exchange_results {made : List Call} {waiting : Option Call} {results : List Result}
    {replies : List (List UInt8)} (exchange : Exchange server made queued waiting results replies) :
    ∃ completed rest, made = completed ++ rest ∧ results = completed.map (Service.ofServer server).answer := by
  cases exchange with
  | idle _ logs answered => exact ⟨made, [], (List.append_nil _).symm, answered⟩
  | asked _ earlier before c blocks last logs all answered => exact ⟨before, [c], all, answered⟩
  | replied _ before c blocks empty all answered => exact ⟨before, [c], all, answered⟩

/-- A session can go on until everything is done. -/
theorem inv_progress (inv : Inv server calls s served queued) (valid : ∀ c ∈ calls, Fits server c) :
    (∃ t, Step s t) ∨ (s.calls = [] ∧ s.waiting = none ∧ queued = [] ∧ s.replies = []) := by
  have exchange := inv.exchange
  have order := inv.order
  cases queued with
  | cons c later =>
    have fits := valid c (by rw [order]; simp)
    obtain ⟨t, ran, _⟩ := serve_request s.server c.request fits.1
    refine Or.inl ⟨_, @Step.serve s _ (later.map fun c => c.request.bytes) _ _ ?_ ran⟩
    rw [inv.requests, List.map_cons, readFile, if_pos (request_size fits)]
  | nil =>
    generalize waits : s.waiting = waiting at exchange
    generalize answered : s.results = results at exchange
    generalize replied : s.replies = replies at exchange
    cases exchange with
    | idle =>
      cases next : s.calls with
      | nil => exact Or.inr ⟨rfl, rfl, rfl, rfl⟩
      | cons call rest =>
        have fits := valid call (by rw [order, next]; simp)
        have sent : call.send (.filled MAX_BUFFER 0) = .ok call.request.bytes := by
          rw [send_request, send_bytes call.request fits.1.fits]
        cases blocks : call.blocks with
        | true => exact Or.inl ⟨_, .ask waits next blocks sent⟩
        | false => exact Or.inl ⟨_, .log waits next blocks sent⟩
    | asked _ earlier before c blocks last => simp at last
    | replied _ before c blocks empty all =>
      have member : c ∈ calls := by rw [order, all]; simp
      obtain ⟨bytes, same, size, finished⟩ := finish_reply (valid c member) blocks
      refine Or.inl ⟨_, @Step.receive s c bytes [] _ waits ?_ finished⟩
      rw [replied, same, readFile, if_pos size]

/-- What is left to do: calls to make, requests to serve, replies to read. -/
def remaining (s : Session) : ℕ :=
  4 * s.calls.length + 2 * s.requests.length + s.replies.length + s.waiting.toList.length

theorem step_remaining (inv : Inv server calls s served queued) (valid : ∀ c ∈ calls, Fits server c)
    (step : Step s t) : remaining t < remaining s := by
  have order := inv.order
  have requests := inv.requests
  cases step with
  | ask idle next blocks sent => simp [remaining, next, idle]; omega
  | log idle next blocks sent => simp [remaining, next, idle]; omega
  | @serve chunk rest after action read ran =>
    obtain ⟨c, later, rfl, kept⟩ := inv_serve inv valid read ran
    have left := kept.requests
    simp only at left
    have one : (replyOf action).length ≤ 1 := by
      unfold replyOf
      split <;> simp
    simp [remaining, requests, left]
    omega
  | @receive call bytes rest result waits read ran =>
    have fewer : rest.length ≤ s.replies.length := by
      cases replies : s.replies with
      | nil => simp [replies, readFile] at read
      | cons chunk later =>
        rw [replies, readFile] at read
        split at read <;> cases read <;> simp
    simp [remaining, waits]
    omega

/-- **Sessions refine the service.** In every state that a session can reach,
the results are those of the service for the completed calls and the lines
printed are its log for the served ones; when the last call has completed and
been served, both pipes are empty. The session cannot get stuck and cannot go on
forever, and it ends with every call answered and every message printed. -/
theorem session_refines_service (server : Server) (calls : List Call) (valid : ∀ c ∈ calls, Fits server c)
    (s : Session) (reach : Reachable server calls s) :
    s.results = ((Service.ofServer server).run (calls.take s.results.length)).1 ∧
      s.printed = ((Service.ofServer server).run (calls.take s.served)).2.log ∧
      (s.waiting = none → s.served + s.calls.length = calls.length → s.requests = [] ∧ s.replies = []) ∧
      (∀ t, Step s t → remaining t < remaining s) ∧
      ((∃ t, Step s t) ∨
        (s.calls = [] ∧ s.waiting = none ∧ s.requests = [] ∧ s.replies = [] ∧
          s.results = ((Service.ofServer server).run calls).1 ∧
          s.printed = ((Service.ofServer server).run calls).2.log)) := by
  obtain ⟨served, queued, inv⟩ := inv_reachable valid reach
  obtain ⟨completed, rest, made, answered⟩ := exchange_results inv.exchange
  have size : s.results.length = completed.length := by rw [answered, List.length_map]
  have prefixed : calls.take s.results.length = completed := by
    rw [inv.order, made, size, List.append_assoc, List.take_left]
  have done : calls.take s.served = served := by
    rw [inv.order, inv.count, List.append_assoc, List.take_left]
  have log : (Service.ofServer server).log = [] := rfl
  have results : s.results = ((Service.ofServer server).run (calls.take s.results.length)).1 := by
    rw [prefixed, Service.run_eq]
    exact answered
  have printed : s.printed = ((Service.ofServer server).run (calls.take s.served)).2.log := by
    rw [done, Service.run_eq, log, List.nil_append]
    exact inv.printed
  refine ⟨results, printed, ?_, fun t step => step_remaining inv valid step, ?_⟩
  · intro idle all
    have empty : queued = [] := by
      have total := congrArg List.length inv.order
      have count := inv.count
      simp only [List.length_append] at total
      exact List.eq_nil_of_length_eq_zero (by omega)
    have exchange := inv.exchange
    rw [idle] at exchange
    generalize s.replies = replies at exchange
    cases exchange with
    | idle => exact ⟨by rw [inv.requests, empty]; rfl, rfl⟩
  · refine (inv_progress inv valid).imp id fun ⟨finished, idle, empty, replies⟩ => ?_
    have exchange := inv.exchange
    have order := inv.order
    subst empty
    rw [idle] at exchange
    rw [finished, List.append_nil] at order
    refine ⟨finished, idle, inv.requests, replies, ?_, ?_⟩
    · generalize s.replies = left, s.results = results at exchange
      cases exchange with
      | idle _ logs all =>
        rw [Service.run_eq, all, order]
    · rw [Service.run_eq, log, List.nil_append, inv.printed, order, List.append_nil]

/-- A session that asks for a string and for a number, with a message in
between. -/
def sampleCalls : List Call :=
  [.getString sampleText 8 (.filled 8 0), .sendLog sampleText, .getInt sampleText (.filled 4 0)]

theorem sampleText_plain : Plain sampleText :=
  ⟨by decide, ⟨91, [43, 93, 32, 49], rfl, by decide, by decide⟩, by decide⟩

theorem sampleCalls_fit : ∀ c ∈ sampleCalls, Fits sampleServer c := by
  simp only [sampleCalls, List.forall_mem_cons, List.not_mem_nil, false_implies, implies_true, and_true]
  refine ⟨⟨sampleText_plain, ?_⟩, ⟨sampleText_plain, ?_⟩, ⟨sampleText_plain, ?_⟩⟩
  · rintro key len string ⟨⟩
    decide
  · rintro key len string ⟨⟩
  · rintro key len string ⟨⟩

theorem session_refines_service_sample : ∃ s, Reachable sampleServer sampleCalls s ∧ s.calls = [] ∧
    s.results = [.string CString.empty, .done, .int 0] ∧ s.printed = [sampleText] := by
  have ends : ∀ n s, Reachable sampleServer sampleCalls s → remaining s = n →
      ∃ t, Reachable sampleServer sampleCalls t ∧ t.calls = [] ∧
        t.results = [.string CString.empty, .done, .int 0] ∧ t.printed = [sampleText] := by
    intro n
    induction n using Nat.strong_induction_on with
    | h n ih =>
      intro s reach size
      obtain ⟨_, _, _, fewer, ⟨t, step⟩ | ⟨finished, _, _, _, results, printed⟩⟩ :=
        session_refines_service sampleServer sampleCalls sampleCalls_fit s reach
      · exact ih _ (size ▸ fewer t step) t (.tail reach step) rfl
      · exact ⟨s, reach, finished, results, printed⟩
  exact ends _ _ .refl rfl

end ClrDumper.SessionRefinement
