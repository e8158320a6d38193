import Mathlib.Data.List.Infix
import Mathlib.Data.Nat.Notation
import Mathlib.Tactic.Common

/-! Programs that talk to a server. A question waits for its answer, a message
does not. The two sides run on their own, joined by a queue of what was sent and
a queue of the answers. Whatever the interleaving, a program ends as if it had
used the service directly, and the server takes what it sends in its order. -/
namespace ClrDumper.Dialogs

/-- The states that are reached in so many steps. -/
inductive After {σ : Type} (step : σ → σ → Prop) (start : σ) : ℕ → σ → Prop where
  | start : After step start 0 start
  | step {n : ℕ} {s t : σ} : After step start n s → step s t → After step start (n + 1) t

/-- What a client sends. -/
inductive Sent (Q M : Type) where
  | question (q : Q)
  | message (m : M)

/-- A program that asks questions, each with its own type of answers, and sends
messages. -/
inductive Program (Q : Type) (A : Q → Type) (M R : Type) where
  | done (result : R)
  | ask (q : Q) (next : A q → Program Q A M R)
  | tell (m : M) (next : Program Q A M R)

/-- What a server is for: how it answers a question and takes a message. -/
structure Service (Q : Type) (A : Q → Type) (M S : Type) where
  answer : S → (q : Q) → A q × S
  take : S → M → S

section
variable {Q M R T S : Type} {A : Q → Type}

namespace Program

/-- One program and then another. -/
def andThen : Program Q A M R → (R → Program Q A M T) → Program Q A M T
  | done result, rest => rest result
  | ask q next, rest => ask q fun a => (next a).andThen rest
  | tell m next, rest => tell m (next.andThen rest)

instance : Monad (Program Q A M) where
  pure := done
  bind := andThen

instance : LawfulMonad (Program Q A M) := LawfulMonad.mk' _
  (fun program => by
    induction program with
    | done result => rfl
    | ask q next ih => exact congrArg (ask q) (funext ih)
    | tell m next ih => exact congrArg (tell m) ih)
  (fun _ _ => rfl)
  (fun program first second => by
    induction program with
    | done result => rfl
    | ask q next ih => exact congrArg (ask q) (funext ih)
    | tell m next ih => exact congrArg (tell m) ih)

/-- What the program comes to with the service at hand. -/
def run (service : Service Q A M S) : Program Q A M R → S → R × S
  | done result, s => (result, s)
  | ask q next, s => (next (service.answer s q).1).run service (service.answer s q).2
  | tell m next, s => next.run service (service.take s m)

/-- What it sends on the way, in order. -/
def sent (service : Service Q A M S) : Program Q A M R → S → List (Sent Q M)
  | done _, _ => []
  | ask q next, s => .question q :: (next (service.answer s q).1).sent service (service.answer s q).2
  | tell m next, s => .message m :: next.sent service (service.take s m)

@[simp] theorem run_pure (service : Service Q A M S) (result : R) (s : S) :
    (pure result : Program Q A M R).run service s = (result, s) := rfl

@[simp] theorem sent_pure (service : Service Q A M S) (result : R) (s : S) :
    (pure result : Program Q A M R).sent service s = [] := rfl

@[simp] theorem run_bind (service : Service Q A M S) (program : Program Q A M R) (rest : R → Program Q A M T) (s : S) :
    (program >>= rest).run service s = (rest (program.run service s).1).run service (program.run service s).2 := by
  induction program generalizing s with
  | done result => rfl
  | ask q next ih => exact ih _ _
  | tell m next ih => exact ih _

@[simp] theorem sent_bind (service : Service Q A M S) (program : Program Q A M R) (rest : R → Program Q A M T) (s : S) :
    (program >>= rest).sent service s =
      program.sent service s ++ (rest (program.run service s).1).sent service (program.run service s).2 := by
  induction program generalizing s with
  | done result => rfl
  | ask q next ih => exact congrArg _ (ih _ _)
  | tell m next ih => exact congrArg _ (ih _)

end Program

/-- Where the client is. -/
inductive Client (Q : Type) (A : Q → Type) (M R : Type) where
  | ready (program : Program Q A M R)
  /-- In the middle of a question. -/
  | waiting (q : Q) (next : A q → Program Q A M R)

/-- The client, the server and the two queues between them. -/
structure Dialog (Q : Type) (A : Q → Type) (M R S : Type) where
  client : Client Q A M R
  /-- What was sent and not taken by the server. -/
  queue : List (Sent Q M)
  /-- The answers that the client has not received. -/
  answers : List (Sigma A)
  state : S

/-- One step of the client or of the server. -/
inductive Step (service : Service Q A M S) : Dialog Q A M R S → Dialog Q A M R S → Prop where
  | ask {q : Q} {next : A q → Program Q A M R} {queue : List (Sent Q M)} {answers : List (Sigma A)} {s : S} :
      Step service ⟨.ready (.ask q next), queue, answers, s⟩ ⟨.waiting q next, queue ++ [.question q], answers, s⟩
  | tell {m : M} {next : Program Q A M R} {queue : List (Sent Q M)} {answers : List (Sigma A)} {s : S} :
      Step service ⟨.ready (.tell m next), queue, answers, s⟩ ⟨.ready next, queue ++ [.message m], answers, s⟩
  | answer {client : Client Q A M R} {q : Q} {queue : List (Sent Q M)} {answers : List (Sigma A)} {s : S} :
      Step service ⟨client, .question q :: queue, answers, s⟩
        ⟨client, queue, answers ++ [⟨q, (service.answer s q).1⟩], (service.answer s q).2⟩
  | take {client : Client Q A M R} {m : M} {queue : List (Sent Q M)} {answers : List (Sigma A)} {s : S} :
      Step service ⟨client, .message m :: queue, answers, s⟩ ⟨client, queue, answers, service.take s m⟩
  | receive {q : Q} {next : A q → Program Q A M R} {a : A q} {queue : List (Sent Q M)} {answers : List (Sigma A)}
      {s : S} :
      Step service ⟨.waiting q next, queue, ⟨q, a⟩ :: answers, s⟩ ⟨.ready (next a), queue, answers, s⟩

/-- How many steps are left for some items: both sides handle each, and an answer
is received. -/
def cost : List (Sent Q M) → ℕ
  | [] => 0
  | .question _ :: rest => cost rest + 3
  | .message _ :: rest => cost rest + 2

@[simp] theorem cost_append (front back : List (Sent Q M)) : cost (front ++ back) = cost front + cost back := by
  induction front with
  | nil => simp [cost]
  | cons item rest ih => cases item <;> simp [cost, ih] <;> omega

/-- Without questions the service takes the messages one after another. -/
def Service.takeAll (service : Service Q A M S) (s : S) (messages : List M) : S := messages.foldl service.take s

/-- The state that the server comes to when it takes what is on the way and the
client does nothing more. -/
def Service.settle (service : Service Q A M S) : S → List (Sent Q M) → S
  | s, [] => s
  | s, .question q :: rest => service.settle (service.answer s q).2 rest
  | s, .message m :: rest => service.settle (service.take s m) rest

theorem settle_append (service : Service Q A M S) (s : S) (front back : List (Sent Q M)) :
    service.settle s (front ++ back) = service.settle (service.settle s front) back := by
  induction front generalizing s with
  | nil => rfl
  | cons item rest ih => cases item <;> exact ih _

theorem settle_messages (service : Service Q A M S) (s : S) (messages : List M) :
    service.settle s (messages.map .message) = service.takeAll s messages := by
  induction messages generalizing s with
  | nil => rfl
  | cons m rest ih => exact ih _

/-- How far a dialog has got that ends with `result`: what of what it sends is not
yet taken or answered, and how many steps are left. -/
inductive Phase (service : Service Q A M S) (result : R × S) (later : List (Sent Q M)) (left : ℕ) :
    Dialog Q A M R S → Prop where
  | ready (program : Program Q A M R) (messages : List M) (s : S)
      (ends : program.run service (service.takeAll s messages) = result)
      (all : later = messages.map .message ++ program.sent service (service.takeAll s messages))
      (size : left = messages.length + cost (program.sent service (service.takeAll s messages))) :
      Phase service result later left ⟨.ready program, messages.map .message, [], s⟩
  | asked (q : Q) (next : A q → Program Q A M R) (messages : List M) (s : S)
      (ends : (Program.ask q next).run service (service.takeAll s messages) = result)
      (all : later = messages.map .message ++ (Program.ask q next).sent service (service.takeAll s messages))
      (size : left + 1 = messages.length + cost ((Program.ask q next).sent service (service.takeAll s messages))) :
      Phase service result later left ⟨.waiting q next, messages.map .message ++ [.question q], [], s⟩
  | answered (q : Q) (next : A q → Program Q A M R) (a : A q) (s : S) (ends : (next a).run service s = result)
      (all : later = .question q :: (next a).sent service s) (size : left = cost ((next a).sent service s) + 1) :
      Phase service result later left ⟨.waiting q next, [], [⟨q, a⟩], s⟩

variable {service : Service Q A M S} {result : R × S} {later : List (Sent Q M)} {left : ℕ} {d e : Dialog Q A M R S}

/-- What is on the way is still to be taken. -/
theorem phase_queue (phase : Phase service result later left d) : d.queue <+: later := by
  cases phase with
  | ready program messages s ends all => exact ⟨_, all.symm⟩
  | asked q next messages s ends all =>
    rw [all]
    exact ⟨_, List.append_assoc _ _ _⟩
  | answered q next a s ends all => exact List.nil_prefix

/-- So is what the client sends next. -/
theorem phase_asks {q : Q} {next : A q → Program Q A M R} (phase : Phase service result later left d)
    (asks : d.client = .ready (.ask q next)) : .question q ∈ later := by
  cases phase with
  | ready program messages s ends all =>
    cases asks
    simp [all, Program.sent]
  | asked => cases asks
  | answered => cases asks

theorem phase_tells {m : M} {next : Program Q A M R} (phase : Phase service result later left d)
    (tells : d.client = .ready (.tell m next)) : .message m ∈ later := by
  cases phase with
  | ready program messages s ends all =>
    cases tells
    simp [all, Program.sent]
  | asked => cases tells
  | answered => cases tells

/-- The question that waits is not done. -/
theorem phase_waits {q : Q} {next : A q → Program Q A M R} (phase : Phase service result later left d)
    (waits : d.client = .waiting q next) : .question q ∈ later := by
  cases phase with
  | ready => cases waits
  | asked q' next' messages s ends all =>
    cases waits
    simp [all, Program.sent]
  | answered q' next' a s ends all =>
    cases waits
    simp [all]

/-- An answer is for the question that waits, and the only one. -/
theorem phase_answers {q : Q} {next : A q → Program Q A M R} {x : Sigma A} {rest : List (Sigma A)}
    (phase : Phase service result later left d) (waits : d.client = .waiting q next) (answers : d.answers = x :: rest) :
    ∃ a, x = ⟨q, a⟩ := by
  cases phase with
  | ready => cases answers
  | asked => cases answers
  | answered q' next' a =>
    cases waits
    cases answers
    exact ⟨a, rfl⟩

/-- A program that starts with empty queues. -/
theorem phase_start (service : Service Q A M S) (program : Program Q A M R) (s : S) :
    Phase service (program.run service s) (program.sent service s) (cost (program.sent service s))
      ⟨.ready program, [], [], s⟩ :=
  .ready program [] s rfl rfl (Nat.zero_add _).symm

@[simp] theorem takeAll_nil (service : Service Q A M S) (s : S) : service.takeAll s [] = s := rfl

@[simp] theorem takeAll_cons (service : Service Q A M S) (s : S) (m : M) (messages : List M) :
    service.takeAll s (m :: messages) = service.takeAll (service.take s m) messages := rfl

@[simp] theorem takeAll_snoc (service : Service Q A M S) (s : S) (messages : List M) (m : M) :
    service.takeAll s (messages ++ [m]) = service.take (service.takeAll s messages) m := by
  simp [Service.takeAll]

/-- **Step lemma.** Each step leaves one less, and the same result. -/
theorem phase_step (phase : Phase service result later left d) (step : Step service d e) :
    ∃ later' left', later' <:+ later ∧ left = left' + 1 ∧ Phase service result later' left' e := by
  cases phase with
  | ready program messages s ends all size =>
    generalize queued : messages.map (Sent.message (Q := Q)) = queue at step
    cases step with
    | @ask q next =>
      subst queued
      refine ⟨later, left - 1, List.suffix_refl _, ?_, .asked q next messages s ends all ?_⟩
      all_goals
        simp only [Program.sent, cost] at size ⊢
        omega
    | @tell m next =>
      subst queued
      have moved := Phase.ready next (messages ++ [m]) s (by simpa [Program.run] using ends)
        (by simpa [Program.sent] using all) rfl
      rw [List.map_append] at moved
      refine ⟨later, _, List.suffix_refl _, ?_, moved⟩
      simp only [Program.sent, cost, List.length_append, List.length_singleton, takeAll_snoc] at size ⊢
      omega
    | answer =>
      cases messages with
      | nil => cases queued
      | cons first rest => cases queued
    | take =>
      cases messages with
      | nil => cases queued
      | cons first rest =>
        cases queued
        refine ⟨_, _, ⟨[_], all.symm⟩, ?_, .ready program rest _ ends rfl rfl⟩
        rw [size, List.length_cons, takeAll_cons]
        omega
  | asked q next messages s ends all size =>
    generalize queued : messages.map Sent.message ++ [Sent.question q] = queue at step
    cases step with
    | answer =>
      cases messages with
      | nil =>
        cases queued
        refine ⟨later, _, List.suffix_refl _, ?_, .answered q next _ _ ends all rfl⟩
        simp only [Program.sent, cost, takeAll_nil, List.length_nil] at size
        omega
      | cons first rest => cases queued
    | take =>
      cases messages with
      | nil => cases queued
      | cons first rest =>
        cases queued
        refine ⟨_, left - 1, ⟨[_], all.symm⟩, ?_, .asked q next rest _ ends rfl ?_⟩
        all_goals
          simp only [Program.sent, cost, List.length_cons, takeAll_cons] at size ⊢
          omega
  | answered q next a s ends all size =>
    cases step with
    | receive =>
      have moved := Phase.ready (next a) [] s ends rfl rfl
      exact ⟨_, _, ⟨[_], all.symm⟩, by simpa using size, moved⟩

/-- A dialog that has not ended can go on. -/
theorem phase_progress (phase : Phase service result later left d) (more : left ≠ 0) : ∃ e, Step service d e := by
  cases phase with
  | ready program messages s ends all size =>
    cases messages with
    | cons m rest => exact ⟨_, .take⟩
    | nil =>
      cases program with
      | done value => exact absurd size more
      | ask q next => exact ⟨_, .ask⟩
      | tell m next => exact ⟨_, .tell⟩
  | asked q next messages s ends all size =>
    cases messages with
    | nil => exact ⟨_, .answer⟩
    | cons m rest => exact ⟨_, .take⟩
  | answered q next a s ends all size => exact ⟨_, .receive⟩

/-- Without steps left, the program has its result and nothing is on the way. -/
theorem phase_ended (phase : Phase service result later 0 d) :
    d = ⟨.ready (.done result.1), [], [], result.2⟩ := by
  cases phase with
  | ready program messages s ends all size =>
    have none : messages = [] := List.eq_nil_of_length_eq_zero (by omega)
    subst none
    cases program with
    | done value =>
      subst ends
      rfl
    | ask q next => simp [Program.sent, cost] at size
    | tell m next => simp [Program.sent, cost] at size
  | asked q next messages s ends all size =>
    simp only [Program.sent, cost] at size
    omega
  | answered q next a s ends all size => cases size

/-- When the program is done, another one can follow, whatever is still on the way. -/
theorem phase_next {value : R} (phase : Phase service result later left d) (idle : d.client = .ready (.done value))
    (program : Program Q A M R) :
    value = result.1 ∧ Phase service (program.run service result.2) (later ++ program.sent service result.2)
      (left + cost (program.sent service result.2)) { d with client := .ready program } := by
  cases phase with
  | ready done messages s ends all size =>
    cases idle
    have state : service.takeAll s messages = result.2 := congrArg Prod.snd ends
    refine ⟨congrArg Prod.fst ends, .ready program messages s (by rw [state]) ?_ ?_⟩
    · rw [all, state, Program.sent, List.append_nil]
    · rw [size, state, Program.sent, cost, Nat.add_zero]
  | asked => cases idle
  | answered => cases idle

/-- Then nothing is left but what is on the way. -/
theorem phase_idle {value : R} (phase : Phase service result later left d) (idle : d.client = .ready (.done value))
    (empty : d.queue = []) : left = 0 := by
  cases phase with
  | ready done messages s ends all size =>
    cases idle
    have none : messages = [] := List.map_eq_nil_iff.mp empty
    rw [size, none, Program.sent, cost]
    rfl
  | asked => cases idle
  | answered => cases idle

/-- An order in which the state of the server only grows. -/
structure Grows (service : Service Q A M S) (below : S → S → Prop) : Prop where
  refl : ∀ s, below s s
  trans : ∀ {s t u}, below s t → below t u → below s u
  answer : ∀ s q, below s (service.answer s q).2
  take : ∀ s m, below s (service.take s m)

variable {below : S → S → Prop}

theorem grows_run (grows : Grows service below) (program : Program Q A M R) (s : S) :
    below s (program.run service s).2 := by
  induction program generalizing s with
  | done value => exact grows.refl s
  | ask q next ih => exact grows.trans (grows.answer s q) (ih _ _)
  | tell m next ih => exact grows.trans (grows.take s m) (ih _)

theorem grows_takeAll (grows : Grows service below) (messages : List M) (s : S) : below s (service.takeAll s messages) := by
  induction messages generalizing s with
  | nil => exact grows.refl s
  | cons m rest ih => exact grows.trans (grows.take s m) (ih _)

/-- What a client has sent stays sent. -/
theorem settle_grows (grows : Grows service below) (step : Step service d e) :
    below (service.settle d.state d.queue) (service.settle e.state e.queue) := by
  cases step with
  | ask =>
    rw [settle_append]
    exact grows.answer _ _
  | tell =>
    rw [settle_append]
    exact grows.take _ _
  | answer | take | receive => exact grows.refl _

/-- A client that is done has sent all of it. -/
theorem phase_settled {value : R} (phase : Phase service result later left d) (idle : d.client = .ready (.done value)) :
    service.settle d.state d.queue = result.2 := by
  cases phase with
  | ready done messages s ends =>
    cases idle
    rw [settle_messages]
    exact congrArg Prod.snd ends
  | asked => cases idle
  | answered => cases idle

/-- The state is never beyond the one that the dialog ends with. -/
theorem phase_below (grows : Grows service below) (phase : Phase service result later left d) :
    below d.state result.2 := by
  cases phase with
  | ready program messages s ends =>
    rw [← ends]
    exact grows.trans (grows_takeAll grows messages s) (grows_run grows program _)
  | asked q next messages s ends =>
    rw [← ends]
    exact grows.trans (grows_takeAll grows messages s) (grows_run grows (.ask q next) _)
  | answered q next a s ends =>
    rw [← ends]
    exact grows_run grows (next a) s

end

end ClrDumper.Dialogs
