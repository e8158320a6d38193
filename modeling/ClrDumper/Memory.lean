import Mathlib.Algebra.Group.Int.Defs
import Mathlib.Algebra.Group.Nat.Defs
import Mathlib.Logic.Function.Basic
import Mathlib.Data.Int.Notation
import Mathlib.Data.Nat.Notation
import ClrDumper.Execution

/-! The memory of a 32-bit process as the code reads it: bytes behind an
address, little-endian words, and heap blocks of `int` elements. Addresses are
`UInt32`, so pointer arithmetic wraps as the hardware's does. -/
namespace ClrDumper.Memory
open Execution

/-- An `unsigned char*`: the byte at an offset from it, where it may be read. -/
abbrev BytePtr := ℕ → Exec UInt8

/-- The first `n` bytes behind a pointer may be read. -/
def Readable (p : BytePtr) (n : ℕ) : Prop := ∀ x < n, ∃ byte, p x = .ok byte

/-- A pointer to an array of constants. -/
def arrayPtr (bytes : List UInt8) : BytePtr := fun x =>
  match bytes[x]? with
  | some byte => .ok byte
  | none => .error .access

@[simp] theorem arrayPtr_getElem {bytes : List UInt8} {x : ℕ} (inside : x < bytes.length) :
    arrayPtr bytes x = .ok bytes[x] := by
  simp [arrayPtr, inside]

theorem arrayPtr_ok_iff {bytes : List UInt8} {x : ℕ} {byte : UInt8} :
    arrayPtr bytes x = .ok byte ↔ bytes[x]? = some byte := by
  unfold arrayPtr
  cases bytes[x]? <;> simp

theorem arrayPtr_readable (bytes : List UInt8) : Readable (arrayPtr bytes) bytes.length :=
  fun x inside => ⟨bytes[x], arrayPtr_getElem inside⟩

/-- The number that bytes stand for in little-endian order. -/
def leNat : List UInt8 → ℕ
  | [] => 0
  | byte :: rest => byte.toNat + 256 * leNat rest

/-- The first `n` bytes of a number in little-endian order. -/
def leBytes : ℕ → ℕ → List UInt8
  | 0, _ => []
  | n + 1, value => UInt8.ofNat value :: leBytes n (value / 256)

@[simp] theorem length_leBytes (n value : ℕ) : (leBytes n value).length = n := by
  induction n generalizing value with
  | zero => rfl
  | succ n ih => simp [leBytes, ih]

/-- Writing a number as bytes and reading it back loses what does not fit. -/
theorem leNat_leBytes (n value : ℕ) : leNat (leBytes n value) = value % 256 ^ n := by
  induction n generalizing value with
  | zero => simp [leBytes, leNat, Nat.mod_one]
  | succ n ih =>
    have power : 256 ^ (n + 1) = 256 * 256 ^ n := Nat.pow_succ'
    rw [leBytes, leNat, ih, UInt8.toNat_ofNat', power, Nat.mod_mul]

/-- The address space: the bytes of the mapped addresses. -/
structure Mem where
  byteAt : UInt32 → Option UInt8

/-- The pointer with a given address. -/
def Mem.ptr (mem : Mem) (address : UInt32) : BytePtr := fun x =>
  match mem.byteAt (address + UInt32.ofNat x) with
  | some byte => .ok byte
  | none => .error .access

theorem ptr_ok_iff {mem : Mem} {address : UInt32} {x : ℕ} {byte : UInt8} :
    mem.ptr address x = .ok byte ↔ mem.byteAt (address + UInt32.ofNat x) = some byte := by
  unfold Mem.ptr
  cases mem.byteAt (address + UInt32.ofNat x) <;> simp

/-- `memcpy` from memory: `n` bytes from an address on. -/
def Mem.bytes (mem : Mem) (address : UInt32) (n : ℕ) : Exec (List UInt8) :=
  (List.range n).mapM (mem.ptr address)

/-- A `WORD` in memory. -/
def Mem.word (mem : Mem) (address : UInt32) : Exec UInt32 := do
  return UInt32.ofNat (leNat (← mem.bytes address 2))

/-- A `DWORD` in memory. -/
def Mem.dword (mem : Mem) (address : UInt32) : Exec UInt32 := do
  return UInt32.ofNat (leNat (← mem.bytes address 4))

/-- A `wchar_t` of an array in memory. -/
def Mem.wide (mem : Mem) (address : UInt32) (i : ℕ) : Exec UInt16 := do
  let low ← mem.ptr address (2 * i)
  let high ← mem.ptr address (2 * i + 1)
  return low.toUInt16 + 256 * high.toUInt16

/-- What is mapped in one memory is mapped in the other, with the same bytes. -/
def Mem.PartOf (part whole : Mem) : Prop :=
  ∀ address byte, part.byteAt address = some byte → whole.byteAt address = some byte

theorem Mem.PartOf.ptr {part whole : Mem} (inside : part.PartOf whole) (address : UInt32) (x : ℕ) :
    Below (part.ptr address x) (whole.ptr address x) := by
  intro byte read
  unfold Mem.ptr at read ⊢
  cases held : part.byteAt (address + UInt32.ofNat x) with
  | none =>
    rw [held] at read
    cases read
  | some byte =>
    rw [held] at read
    rw [inside _ byte held]
    exact read

theorem Mem.PartOf.bytes {part whole : Mem} (inside : part.PartOf whole) (address : UInt32) (n : ℕ) :
    Below (part.bytes address n) (whole.bytes address n) :=
  below_mapM (inside.ptr address) _

theorem Mem.PartOf.word {part whole : Mem} (inside : part.PartOf whole) (address : UInt32) :
    Below (part.word address) (whole.word address) :=
  below_bind (inside.bytes address 2) fun _ => below_refl _

theorem Mem.PartOf.dword {part whole : Mem} (inside : part.PartOf whole) (address : UInt32) :
    Below (part.dword address) (whole.dword address) :=
  below_bind (inside.bytes address 4) fun _ => below_refl _

/-- The memory with some addresses unmapped. -/
def Mem.without (mem : Mem) (gone : UInt32 → Prop) [DecidablePred gone] : Mem where
  byteAt address := if gone address then none else mem.byteAt address

theorem Mem.without_gone (mem : Mem) {gone : UInt32 → Prop} [DecidablePred gone] {address : UInt32}
    (here : gone address) : (mem.without gone).byteAt address = none := by
  simp [Mem.without, here]

theorem Mem.without_other (mem : Mem) {gone : UInt32 → Prop} [DecidablePred gone] {address : UInt32}
    (other : ¬ gone address) : (mem.without gone).byteAt address = mem.byteAt address := by
  simp [Mem.without, other]

theorem Mem.without_partOf (mem : Mem) (gone : UInt32 → Prop) [DecidablePred gone] :
    (mem.without gone).PartOf mem := by
  intro address byte held
  change (if gone address then none else mem.byteAt address) = some byte at held
  split at held
  · cases held
  · exact held

theorem Mem.dword_unmapped {mem : Mem} {address : UInt32} (unmapped : mem.byteAt address = none) :
    mem.dword address = .error .access := by
  have first : mem.ptr address 0 = .error .access := by simp [Mem.ptr, unmapped]
  have range : List.range 4 = [0, 1, 2, 3] := rfl
  simp [Mem.dword, Mem.bytes, range, List.mapM_cons, first]

/-- Four bytes in memory stand for a number in little-endian order. -/
def Mem.Holds32 (mem : Mem) (address value : UInt32) : Prop :=
  ∀ x < 4, mem.byteAt (address + UInt32.ofNat x) = (leBytes 4 value.toNat)[x]?

instance (mem : Mem) (address value : UInt32) : Decidable (mem.Holds32 address value) :=
  inferInstanceAs (Decidable (∀ x < 4, _))

/-- So they are read as that number. -/
theorem Mem.dword_holds {mem : Mem} {address value : UInt32} (holds : mem.Holds32 address value) :
    mem.dword address = .ok value := by
  have read : ∀ x ∈ List.range 4, mem.ptr address x = .ok ((leBytes 4 value.toNat)[x]?.getD 0) := by
    intro x member
    have inside : x < (leBytes 4 value.toNat).length := by simpa using member
    simp [Mem.ptr, holds x (by simpa using member), List.getElem?_eq_getElem inside]
  have spelled : (List.range 4).map (fun x => (leBytes 4 value.toNat)[x]?.getD 0) = leBytes 4 value.toNat := rfl
  have small : value.toNat % 256 ^ 4 = value.toNat := Nat.mod_eq_of_lt value.toNat_lt
  rw [Mem.dword, Mem.bytes, mapM_ok _ read, spelled, ok_bind, leNat_leBytes, small, UInt32.ofNat_toNat]
  rfl

/-- A heap block used as an array of 4-byte `int` elements: how many bytes it
has, and what was stored at each element. -/
structure IntBlock where
  bytes : ℕ
  stored : ℕ → Option ℕ

namespace IntBlock

/-- What `malloc(bytes)` returns: nothing is stored in it yet. -/
def malloc (bytes : ℕ) : IntBlock := ⟨bytes, fun _ => none⟩

/-- Element `x` lies inside the block. -/
def Holds (block : IntBlock) (x : ℕ) : Prop := 4 * x + 4 ≤ block.bytes

instance (block : IntBlock) (x : ℕ) : Decidable (block.Holds x) :=
  inferInstanceAs (Decidable (_ ≤ _))

def get (block : IntBlock) (x : ℕ) : Exec ℕ :=
  if block.Holds x then
    match block.stored x with
    | some value => .ok value
    | none => .error .uninitialized
  else .error .access

def set (block : IntBlock) (x value : ℕ) : Exec IntBlock :=
  if block.Holds x then .ok { block with stored := Function.update block.stored x (some value) }
  else .error .access

variable {block : IntBlock} {x value : ℕ}

theorem get_stored (holds : block.Holds x) (stored : block.stored x = some value) :
    block.get x = .ok value := by
  simp [get, holds, stored]

theorem set_holds (holds : block.Holds x) :
    block.set x value = .ok { block with stored := Function.update block.stored x (some value) } := by
  simp [set, holds]

end IntBlock

end ClrDumper.Memory
