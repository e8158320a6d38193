import Mathlib.Data.List.Induction
import Mathlib.Tactic.Common

/-! Checked execution of C code: a step either gives a value or stops with the
fault that made its behaviour undefined. A `while` loop is its body run on
fuel, and `while_total` turns an invariant and a decreasing measure into a
result: a loop that satisfies it neither faults nor runs out of fuel.
`run_invariant` is the rule for a system that takes one step for each of a list
of inputs. `Below` orders executions by the values that they give. -/
namespace ClrDumper.Execution

/-- Why an execution stopped without a value. -/
inductive Fault where
  /-- An access outside the object, or at an address that is not mapped. -/
  | access
  /-- A read of storage nothing was ever written to. -/
  | uninitialized
  /-- The fuel of a loop ran out: the model says nothing about the code. -/
  | fuel
  deriving DecidableEq, Repr

abbrev Exec := Except Fault

/-- What one pass through a loop body decides: leave with a result, or go
round again. -/
inductive Pass (σ ρ : Type _) where
  | leave (result : ρ)
  | again (state : σ)

/-- The loop that runs `body` until it leaves. -/
def whileLoop (body : σ → Exec (Pass σ ρ)) : Nat → σ → Exec ρ
  | 0, _ => .error .fuel
  | fuel + 1, state =>
    match body state with
    | .error fault => .error fault
    | .ok (.leave result) => .ok result
    | .ok (.again next) => whileLoop body fuel next

@[simp] theorem ok_bind (value : α) (rest : α → Exec β) : (Except.ok value >>= rest) = rest value := rfl

@[simp] theorem error_bind (fault : Fault) (rest : α → Exec β) :
    (Except.error fault >>= rest) = Except.error fault := rfl

@[simp] theorem pure_ok (value : α) : (pure value : Exec α) = .ok value := rfl

@[simp] theorem bind_ok_self (last : Exec α) : (last >>= fun value => Except.ok value) = last := bind_pure last

/-- A sequence that gave a value ran its first part to a value, and its rest
from there. -/
theorem bind_ok {first : Exec α} {rest : α → Exec β} (ran : (first >>= rest) = .ok result) :
    ∃ value, first = .ok value ∧ rest value = .ok result := by
  cases first with
  | error fault => simp at ran
  | ok value => exact ⟨value, rfl, ran⟩

/-- A list of computations that all give their values. -/
theorem mapM_ok {f : α → Exec β} {g : α → β} (inputs : List α) (each : ∀ a ∈ inputs, f a = .ok (g a)) :
    inputs.mapM f = .ok (inputs.map g) := by
  induction inputs with
  | nil => rfl
  | cons first rest ih =>
    rw [List.mapM_cons, each first List.mem_cons_self, ih fun a member => each a (List.mem_cons_of_mem _ member)]
    rfl

/-- Wherever one execution gives a value the other one gives it too. -/
def Below (less more : Exec α) : Prop := ∀ value, less = .ok value → more = .ok value

theorem below_refl (ran : Exec α) : Below ran ran := fun _ same => same

theorem below_bind {less more : Exec α} {rest rest' : α → Exec β} (first : Below less more)
    (next : ∀ value, Below (rest value) (rest' value)) : Below (less >>= rest) (more >>= rest') := by
  intro result ran
  obtain ⟨value, gave, ran⟩ := bind_ok ran
  rw [first value gave, ok_bind]
  exact next value result ran

theorem below_ite {p : Prop} [Decidable p] {yes yes' no no' : Exec α} (first : Below yes yes')
    (second : Below no no') : Below (if p then yes else no) (if p then yes' else no') := by
  split
  · exact first
  · exact second

theorem below_mapM {f g : α → Exec β} (each : ∀ a, Below (f a) (g a)) (inputs : List α) :
    Below (inputs.mapM f) (inputs.mapM g) := by
  induction inputs with
  | nil => exact below_refl _
  | cons first rest ih =>
    rw [List.mapM_cons, List.mapM_cons]
    exact below_bind (each first) fun _ => below_bind ih fun _ => below_refl _

theorem below_while {body body' : σ → Exec (Pass σ ρ)} (each : ∀ state, Below (body state) (body' state))
    (fuel : Nat) (state : σ) : Below (whileLoop body fuel state) (whileLoop body' fuel state) := by
  induction fuel generalizing state with
  | zero => exact below_refl _
  | succ fuel ih =>
    intro result ran
    unfold whileLoop at ran ⊢
    cases pass : body state with
    | error fault =>
      rw [pass] at ran
      cases ran
    | ok outcome =>
      rw [pass] at ran
      rw [each state outcome pass]
      cases outcome with
      | leave left => exact ran
      | again next => exact ih next result ran

/-- One pass of a totally correct loop: it leaves with a good result, or keeps
the invariant and decreases the measure. -/
def PassSpec (inv : σ → Prop) (post : ρ → Prop) (measure : σ → Nat)
    (body : σ → Exec (Pass σ ρ)) (state : σ) : Prop :=
  (∃ result, body state = .ok (.leave result) ∧ post result) ∨
    ∃ next, body state = .ok (.again next) ∧ inv next ∧ measure next < measure state

/-- The total-correctness rule for `while`. -/
theorem while_total {body : σ → Exec (Pass σ ρ)} {inv : σ → Prop} {post : ρ → Prop}
    {measure : σ → Nat} (pass : ∀ state, inv state → PassSpec inv post measure body state)
    {fuel : Nat} {state : σ} (start : inv state) (enough : measure state < fuel) :
    ∃ result, whileLoop body fuel state = .ok result ∧ post result := by
  induction fuel generalizing state with
  | zero => omega
  | succ fuel ih =>
    rcases pass state start with ⟨result, ran, good⟩ | ⟨next, ran, kept, less⟩
    · exact ⟨result, by simp [whileLoop, ran], good⟩
    · obtain ⟨result, rest, good⟩ := ih kept (by omega)
      exact ⟨result, by simpa [whileLoop, ran] using rest, good⟩

/-- The states that a loop comes to before a pass. -/
inductive Visits (body : σ → Exec (Pass σ ρ)) (start : σ) : σ → Prop where
  | start : Visits body start start
  | again : Visits body start state → body state = .ok (.again next) → Visits body start next

/-- What every pass of a totally correct loop keeps holds whenever it comes to a
pass. -/
theorem visits_invariant {body : σ → Exec (Pass σ ρ)} {inv : σ → Prop} {post : ρ → Prop} {measure : σ → Nat}
    (pass : ∀ state, inv state → PassSpec inv post measure body state) {start state : σ} (initial : inv start)
    (visits : Visits body start state) : inv state := by
  induction visits with
  | start => exact initial
  | again _ ran ih =>
    rcases pass _ ih with ⟨result, left, _⟩ | ⟨next, went, kept, _⟩
    · rw [ran] at left
      cases left
    · rw [ran] at went
      cases went
      exact kept

/-- The rule for a `while` that ends in a fault: a pass either runs into it, or
keeps the invariant and decreases the measure. -/
theorem while_faults {body : σ → Exec (Pass σ ρ)} {fault : Fault} {inv : σ → Prop} {measure : σ → Nat}
    (pass : ∀ state, inv state → body state = .error fault ∨
      ∃ next, body state = .ok (.again next) ∧ inv next ∧ measure next < measure state)
    {fuel : Nat} {state : σ} (start : inv state) (enough : measure state < fuel) :
    whileLoop body fuel state = .error fault := by
  induction fuel generalizing state with
  | zero => omega
  | succ fuel ih =>
    rcases pass state start with fails | ⟨next, ran, kept, less⟩
    · simp [whileLoop, fails]
    · simpa [whileLoop, ran] using ih kept (by omega)

theorem foldlM_snoc (step : σ → α → Exec σ) (start : σ) (front : List α) (last : α) :
    (front ++ [last]).foldlM step start = (front.foldlM step start >>= fun state => step state last) := by
  simp

/-- The rule for runs: what holds at the start, of no inputs, and is carried by
every step to one more input, holds after every run of the inputs that were
taken. -/
theorem run_invariant {step : σ → α → Exec σ} {inv : List α → σ → Prop} {start : σ} (initial : inv [] start)
    (each : ∀ front state input next, inv front state → step state input = .ok next →
      inv (front ++ [input]) next) :
    ∀ inputs final, inputs.foldlM step start = .ok final → inv inputs final := by
  intro inputs
  induction inputs using List.reverseRecOn with
  | nil =>
    intro final ran
    cases ran
    exact initial
  | append_singleton front input ih =>
    intro final ran
    rw [foldlM_snoc] at ran
    obtain ⟨state, before, last⟩ := bind_ok ran
    exact each front state input final (ih state before) last

end ClrDumper.Execution
