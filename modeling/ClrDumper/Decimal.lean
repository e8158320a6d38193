import Mathlib.Algebra.Group.Nat.Defs
import Mathlib.Data.Nat.Notation
import Mathlib.Tactic.Common

/-! Decimal numerals as bytes, and the splitting of a text at its last
separator. A numeral keeps its value under leading zeros, so texts built from
numerals and separators can be read back from the right. -/
namespace ClrDumper.Decimal

/-- `isdigit`. -/
def isDigit (byte : UInt8) : Bool := 48 ≤ byte && byte ≤ 57

/-- The digits of a number, most significant first: `%u`. -/
def decimal (n : ℕ) : List UInt8 := (Nat.toDigits 10 n).map fun c => UInt8.ofNat c.toNat

/-- Digits padded with zeros on the left up to a precision: `%.2u` for 2. -/
def padded (precision n : ℕ) : List UInt8 :=
  List.replicate (precision - (decimal n).length) 48 ++ decimal n

/-- The value of a run of digits, with a value for the digits before it. -/
def valueFrom (initial : ℕ) (digits : List UInt8) : ℕ :=
  digits.foldl (fun value digit => 10 * value + (digit.toNat - 48)) initial

def decimalValue (digits : List UInt8) : ℕ := valueFrom 0 digits

private theorem digit_char {c : Char} (digit : c.isDigit = true) :
    48 ≤ c.toNat ∧ c.toNat ≤ 57 ∧ (UInt8.ofNat c.toNat).toNat = c.toNat := by
  obtain ⟨low, high⟩ : 48 ≤ c.toNat ∧ c.toNat ≤ 57 := Char.isDigit_iff_toNat.mp digit
  exact ⟨low, high, by rw [UInt8.toNat_ofNat']; omega⟩

theorem decimal_digits (n : ℕ) : ∀ byte ∈ decimal n, isDigit byte = true := by
  intro byte member
  obtain ⟨c, inside, rfl⟩ := List.mem_map.mp member
  obtain ⟨low, high, same⟩ :=
    digit_char (Nat.isDigit_of_mem_toDigits (by decide) (by decide) inside)
  simp only [isDigit, Bool.and_eq_true, decide_eq_true_eq, UInt8.le_iff_toNat_le, same]
  exact ⟨low, high⟩

private theorem valueFrom_map (chars : List Char) (digits : ∀ c ∈ chars, c.isDigit = true) (initial : ℕ) :
    valueFrom initial (chars.map fun c => UInt8.ofNat c.toNat) = Nat.ofDigitChars 10 chars initial := by
  induction chars generalizing initial with
  | nil => simp [valueFrom]
  | cons c chars ih =>
    rw [Nat.ofDigitChars_cons, ← ih (fun c member => digits c (List.mem_cons_of_mem _ member))]
    simp only [valueFrom, List.map_cons, List.foldl_cons, (digit_char (digits c List.mem_cons_self)).2.2]
    rfl

@[simp] theorem decimalValue_decimal (n : ℕ) : decimalValue (decimal n) = n := by
  unfold decimalValue decimal
  rw [valueFrom_map _ fun c member => Nat.isDigit_of_mem_toDigits (by decide) (by decide) member]
  exact Nat.ofDigitChars_ten_toDigits

/-- Leading zeros do not change the value. -/
@[simp] theorem decimalValue_padded (precision n : ℕ) : decimalValue (padded precision n) = n := by
  have zeros : ∀ k, valueFrom 0 (List.replicate k 48) = 0 := by
    intro k
    induction k with
    | zero => rfl
    | succ k ih => simpa [List.replicate_succ, valueFrom] using ih
  unfold decimalValue padded
  rw [show ∀ a b, valueFrom 0 (a ++ b) = valueFrom (valueFrom 0 a) b from fun a b => List.foldl_append,
    zeros]
  exact decimalValue_decimal n

theorem decimal_length_le_iff {n k : ℕ} (positive : 0 < k) : (decimal n).length ≤ k ↔ n < 10 ^ k := by
  rw [decimal, List.length_map]
  exact Nat.length_toDigits_le_iff (by decide) positive

theorem padded_length (precision n : ℕ) : (padded precision n).length = max precision (decimal n).length := by
  rw [padded, List.length_append, List.length_replicate]
  omega

theorem padded_digits (precision n : ℕ) : ∀ byte ∈ padded precision n, isDigit byte = true := by
  intro byte member
  rcases List.mem_append.mp member with zero | digit
  · rw [List.eq_of_mem_replicate zero]
    decide
  · exact decimal_digits n byte digit

theorem padded_inj {precision m n : ℕ} : padded precision m = padded precision n ↔ m = n := by
  refine ⟨fun same => ?_, congrArg _⟩
  have value := congrArg decimalValue same
  simpa using value

/-- A text is split at its last separator in one way only. -/
theorem last_separator_inj {α : Type*} {a b a' b' : List α} {separator : α}
    (absent : separator ∉ b) (absent' : separator ∉ b') :
    a ++ separator :: b = a' ++ separator :: b' ↔ a = a' ∧ b = b' := by
  refine ⟨fun same => ?_, fun ⟨left, right⟩ => by rw [left, right]⟩
  rcases List.append_eq_append_iff.mp same with ⟨c, rest, tail⟩ | ⟨c, rest, tail⟩
  · cases c with
    | nil =>
      simp only [List.nil_append, List.cons.injEq, true_and] at tail
      exact ⟨by simpa using rest.symm, tail⟩
    | cons first c =>
      simp only [List.cons_append, List.cons.injEq] at tail
      exact absurd (tail.2 ▸ List.mem_append_right c List.mem_cons_self) absent
  · cases c with
    | nil =>
      simp only [List.nil_append, List.cons.injEq, true_and] at tail
      exact ⟨by simpa using rest, tail.symm⟩
    | cons first c =>
      simp only [List.cons_append, List.cons.injEq] at tail
      exact absurd (tail.2 ▸ List.mem_append_right c List.mem_cons_self) absent'

end ClrDumper.Decimal
