import ClrDumper.Execution

/-! Machines that take one input after another, side by side. Two of them are
alike when related states stay related, with the same outputs and the same
faults, whatever comes in. -/
namespace ClrDumper.LockStep
open Execution

/-- Both give values that are related, or both stop with the same fault. -/
inductive Alike {α β : Type} (rel : α → β → Prop) : Exec α → Exec β → Prop where
  | ok {a : α} {b : β} (related : rel a b) : Alike rel (.ok a) (.ok b)
  | error (fault : Fault) : Alike rel (.error fault) (.error fault)

section
variable {α β γ δ : Type} {rel : α → β → Prop} {later : γ → δ → Prop} {x : Exec α} {y : Exec β}

theorem alike_self (x : Exec α) : Alike Eq x x := by
  cases x with
  | ok a => exact .ok rfl
  | error fault => exact .error fault

theorem alike_imp {rel' : α → β → Prop} (alike : Alike rel x y) (weaker : ∀ a b, rel a b → rel' a b) :
    Alike rel' x y := by
  cases alike with
  | ok related => exact .ok (weaker _ _ related)
  | error fault => exact .error fault

/-- One computation and then another. -/
theorem alike_bind {f : α → Exec γ} {g : β → Exec δ} (first : Alike rel x y)
    (next : ∀ a b, rel a b → Alike later (f a) (g b)) : Alike later (x >>= f) (y >>= g) := by
  cases first with
  | ok related => exact next _ _ related
  | error fault => exact .error fault

/-- One computation goes on alone. -/
theorem alike_then {later : γ → β → Prop} {f : α → Exec γ} (first : Alike rel x y)
    (next : ∀ a b, rel a b → Alike later (f a) (.ok b)) : Alike later (x >>= f) y := by
  cases first with
  | ok related => exact next _ _ related
  | error fault => exact .error fault

theorem alike_trans {χ : Type} {back : β → χ → Prop} {z : Exec χ} (alike : Alike rel x y) (then' : Alike back y z) :
    Alike (fun a c => ∃ b, rel a b ∧ back b c) x z := by
  cases alike with
  | ok related =>
    cases then' with
    | ok later => exact .ok ⟨_, related, later⟩
  | error fault =>
    cases then' with
    | error => exact .error fault

theorem alike_ok {a : α} (alike : Alike rel x y) (ran : x = .ok a) : ∃ b, y = .ok b ∧ rel a b := by
  cases alike with
  | ok related =>
    cases ran
    exact ⟨_, rfl, related⟩
  | error fault => cases ran

theorem ok_of_alike {b : β} (alike : Alike rel x y) (ran : y = .ok b) : ∃ a, x = .ok a ∧ rel a b := by
  cases alike with
  | ok related =>
    cases ran
    exact ⟨_, rfl, related⟩
  | error fault => cases ran

/-- What can be seen of related values is all the same. -/
theorem map_eq_of_alike {f : α → γ} {g : β → γ} (alike : Alike rel x y) (same : ∀ a b, rel a b → f a = g b) :
    f <$> x = g <$> y := by
  cases alike with
  | ok related => exact congrArg Except.ok (same _ _ related)
  | error fault => rfl

end

/-- A machine: what an input makes of a state, with or without an output, and the
states in which it takes no more inputs. -/
structure Machine (σ ι ο : Type) where
  step : σ → ι → Exec (σ × Option ο)
  stopped : σ → Bool

section
variable {σ τ ι ο : Type} {m : Machine σ ι ο} {n : Machine τ ι ο}

/-- The state after some inputs, and the outputs on the way. -/
def Machine.run (m : Machine σ ι ο) (s : σ) : List ι → Exec (σ × List ο)
  | [] => return (s, [])
  | input :: rest =>
    if m.stopped s then return (s, [])
    else do
      let (s, output) ← m.step s input
      let (s, outputs) ← m.run s rest
      return (s, output.toList ++ outputs)

/-- A machine that has stopped stays as it is. -/
theorem run_stopped {s : σ} (stopped : m.stopped s = true) (inputs : List ι) : m.run s inputs = .ok (s, []) := by
  cases inputs with
  | nil => rfl
  | cons input rest => exact if_pos stopped

theorem run_append (s : σ) (front back : List ι) :
    m.run s (front ++ back) = (do
      let (s, outputs) ← m.run s front
      let (s, later) ← m.run s back
      return (s, outputs ++ later)) := by
  induction front generalizing s with
  | nil => exact (bind_pure (m.run s back)).symm
  | cons input rest ih =>
    rw [List.cons_append, Machine.run, Machine.run]
    split
    · rename_i stopped
      simp [run_stopped stopped]
    · simp [ih, bind_assoc, List.append_assoc]

/-- Related states, and the same outputs. -/
def Beside {υ : Type} (rel : σ → τ → Prop) (x : σ × υ) (y : τ × υ) : Prop := rel x.1 y.1 ∧ x.2 = y.2

/-- **Run lemma.** Machines that are alike in each step are alike in each run. -/
theorem run_alike {rel : σ → τ → Prop} (stops : ∀ s t, rel s t → m.stopped s = n.stopped t)
    (each : ∀ s t input, rel s t → m.stopped s = false → Alike (Beside rel) (m.step s input) (n.step t input))
    {s : σ} {t : τ} (start : rel s t) (inputs : List ι) : Alike (Beside rel) (m.run s inputs) (n.run t inputs) := by
  induction inputs generalizing s t with
  | nil => exact .ok ⟨start, rfl⟩
  | cons input rest ih =>
    rw [Machine.run, Machine.run, ← stops s t start]
    split
    · exact .ok ⟨start, rfl⟩
    · rename_i going
      apply alike_bind (each s t input start (by simpa using going))
      rintro ⟨s', output⟩ ⟨t', output'⟩ ⟨related, same⟩
      obtain rfl : output = output' := same
      apply alike_bind (ih related)
      rintro ⟨s'', outputs⟩ ⟨t'', outputs'⟩ ⟨final, same⟩
      obtain rfl : outputs = outputs' := same
      exact .ok ⟨final, rfl⟩

end

/-! ## Records

A machine beside a record of some of its inputs, whose outputs are told by what
came in before. -/

section
variable {σ ι ο η χ : Type}

/-- The outputs for some inputs, after those in `front`. -/
def answers (answer : List ι → ι → Option ο) : List ι → List ι → List ο
  | _, [] => []
  | front, input :: rest => (answer front input).toList ++ answers answer (front ++ [input]) rest

/-- Where nothing depends on what came before. -/
theorem answers_filterMap (answer : ι → Option ο) (front inputs : List ι) :
    answers (fun _ => answer) front inputs = inputs.filterMap answer := by
  induction inputs generalizing front with
  | nil => rfl
  | cons input rest ih =>
    rw [answers, ih, List.filterMap_cons]
    cases answer input <;> rfl

/-- An input is put on record or not. -/
def record (note : η → χ → Exec η) (capture : ι → Option χ) (h : η) (input : ι) : Exec η :=
  match capture input with
  | some x => note h x
  | none => pure h

/-- The machine and the record fit what came in, and the output is the answer. -/
def Told (inv : List ι → σ → η → Prop) (answer : List ι → ι → Option ο) (front : List ι) (input : ι) (x : σ × Option ο)
    (h : η) : Prop := inv (front ++ [input]) x.1 h ∧ x.2 = answer front input

variable {m : Machine σ ι ο} {inv : List ι → σ → η → Prop} {answer : List ι → ι → Option ο} {note : η → χ → Exec η}
  {capture : ι → Option χ}

theorem run_told_after {inputs : List ι} (going : ∀ front s h, inv front s h → m.stopped s = false)
    (each : ∀ front input back, front ++ input :: back = inputs → ∀ s h, inv front s h →
      Alike (Told inv answer front input) (m.step s input) (record note capture h input))
    (back : List ι) : ∀ (front : List ι) (s : σ) (h : η), front ++ back = inputs → inv front s h →
      Alike (fun x final => inv inputs x.1 final ∧ x.2 = answers answer front back) (m.run s back)
        ((back.filterMap capture).foldlM note h) := by
  induction back with
  | nil =>
    rintro front s h rfl start
    rw [List.append_nil] at *
    exact .ok ⟨start, rfl⟩
  | cons input rest ih =>
    intro front s h all start
    have folded : ((input :: rest).filterMap capture).foldlM note h =
        (record note capture h input >>= fun h => (rest.filterMap capture).foldlM note h) := by
      rw [List.filterMap_cons, record]
      cases capture input with
      | none => rfl
      | some x => exact List.foldlM_cons
    rw [Machine.run, if_neg (by simp [going front s h start]), folded]
    apply alike_bind (each front input rest all s h start)
    rintro ⟨s', output⟩ h' ⟨kept, told⟩
    obtain rfl : output = answer front input := told
    apply alike_then (ih (front ++ [input]) s' h' (by simpa using all) kept)
    rintro ⟨s'', outputs⟩ final ⟨ends, same⟩
    obtain rfl : outputs = answers answer (front ++ [input]) rest := same
    exact .ok ⟨ends, rfl⟩

/-- **Run lemma.** If each input finds the machine as the inputs before it say,
leaves it so, and is answered as they say, then a run puts the captured inputs on
record, and nothing else. -/
theorem run_told {inputs : List ι} {s : σ} {h : η} (going : ∀ front s h, inv front s h → m.stopped s = false)
    (each : ∀ front input back, front ++ input :: back = inputs → ∀ s h, inv front s h →
      Alike (Told inv answer front input) (m.step s input) (record note capture h input))
    (start : inv [] s h) : Alike (fun x final => inv inputs x.1 final ∧ x.2 = answers answer [] inputs) (m.run s inputs)
      ((inputs.filterMap capture).foldlM note h) :=
  run_told_after going each inputs [] s h rfl start

end

end ClrDumper.LockStep
