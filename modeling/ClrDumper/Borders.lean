import Mathlib.Order.Bounds.Basic

/-! Borders of words and leftmost occurrences, over any symbols. A word is a
function on positions, so that no length has to be carried along: `p` stands
for the pattern, `t` for the text, and every statement names the positions it
is about. -/
namespace ClrDumper.Borders

variable {α : Type*}

/-- The first `n` symbols of `p` stand in `t` at `k`. -/
def Agree (p t : ℕ → α) (k n : ℕ) : Prop := ∀ x < n, p x = t (k + x)

/-- `l` is the length of a proper border of the prefix of length `n`: a prefix
of it, shorter than it, that is also its suffix. -/
def Border (p : ℕ → α) (n l : ℕ) : Prop := l < n ∧ Agree p p (n - l) l

/-- The longest proper border of the prefix of length `n`. -/
def LongestBorder (p : ℕ → α) (n l : ℕ) : Prop := IsGreatest {l | Border p n l} l

/-- The places where a pattern of length `m` stands in a text of length `n`. -/
def Occurrences (p t : ℕ → α) (m n : ℕ) : Set ℕ := {k | k + m ≤ n ∧ Agree p t k m}

end ClrDumper.Borders
