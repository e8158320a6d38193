import ClrDumper.KmpLoops

/-! The size of the block that both searches put their failure table in. A table
of `M` elements has `4 * M` bytes; the source asks `malloc` for `M`. -/
namespace ClrDumper.TableAllocation
open Execution Memory Kmp KmpLoops

/-- The two versions of the search. -/
inductive Version where
  | plain
  | wild

namespace Version

def same : Version → UInt8 → UInt8 → Bool
  | plain => sameByte
  | wild => sameByteWild

def hit : Version → UInt8 → UInt8 → Bool
  | plain => sameByte
  | wild => hitWild

theorem hit_refl (version : Version) (p : UInt8) : version.hit p p = true := by
  cases version <;> simp [hit, sameByte, hitWild]

/-- A run of the search on arrays, with a given block for the table. -/
def run (version : Version) (block : IntBlock) (pat txt : List UInt8) : Exec ℤ :=
  searchWith version.same version.hit block (arrayPtr pat) pat.length (arrayPtr txt) txt.length

/-- On a table as the algorithm means it these are the two searches. -/
theorem run_tableBlock (pat txt : List UInt8) :
    plain.run (tableBlock pat.length) pat txt =
        kmpSearch (arrayPtr pat) pat.length (arrayPtr txt) txt.length ∧
      wild.run (tableBlock pat.length) pat txt =
        kmpSearchWild (arrayPtr pat) pat.length (arrayPtr txt) txt.length :=
  ⟨rfl, rfl⟩

end Version

/-- Every element of the table that the run reads or writes lies in the block,
and so does everything else that it accesses in its object. -/
def Fits (version : Version) (block : IntBlock) (pat txt : List UInt8) : Prop :=
  ∃ result, version.run block pat txt = .ok result

variable {pat txt : List UInt8}

/-- With room for the table, a run accesses nothing out of range. -/
theorem fits_of_room (version : Version) (nonempty : pat ≠ []) {block : IntBlock}
    (room : 4 * pat.length ≤ block.bytes) : Fits version block pat txt := by
  have positive := List.length_pos_iff.mpr nonempty
  obtain ⟨lps, built, filled, size⟩ :=
    computeLPSArray_fills version.same (arrayPtr_readable pat) positive _ room
  have rule : SearchRule version.hit (arrayPtr pat) (arrayPtr txt) pat.length txt.length (entry lps)
      (fun _ _ => True) (fun _ => True) := by
    constructor
    case text => exact fun _ _ y within _ => arrayPtr_readable txt y within
    all_goals intros; trivial
  obtain ⟨result, ran, _⟩ := search_total version.hit_refl (arrayPtr_readable pat) positive filled
    (by rw [size]; exact room) rule
  exact ⟨result, by simpa [Version.run, searchWith, built] using ran⟩

/-- Without, the construction of the table stores an element beyond the block,
before the search has begun. -/
theorem overflows (version : Version) (nonempty : pat ≠ []) {block : IntBlock}
    (small : block.bytes < 4 * pat.length) : version.run block pat txt = .error .access := by
  have fails := computeLPSArray_faults version.same (arrayPtr_readable pat) (List.length_pos_iff.mpr nonempty) small
  simp [Version.run, searchWith, fails]

/-- **The failure table.** A block fits exactly if it has four bytes for each byte
of the pattern. The one that the source allocates has one, so no run of either
search stays inside it. -/
theorem table_never_fits (version : Version) (pat txt : List UInt8) (nonempty : pat ≠ []) :
    (∀ bytes, Fits version (IntBlock.malloc bytes) pat txt ↔ 4 * pat.length ≤ bytes) ∧
      ¬ Fits version (mallocBlock pat.length) pat txt := by
  have exact_size : ∀ bytes, Fits version (IntBlock.malloc bytes) pat txt ↔ 4 * pat.length ≤ bytes := by
    intro bytes
    refine ⟨fun ⟨result, ran⟩ => ?_, fun room => fits_of_room version nonempty room⟩
    by_contra small
    rw [overflows version nonempty (Nat.lt_of_not_le small)] at ran
    cases ran
  refine ⟨exact_size, fun fits => ?_⟩
  have room := (exact_size pat.length).mp fits
  have positive := List.length_pos_iff.mpr nonempty
  omega

/-- For the pattern of the call to `Parser::ParseSource`. -/
theorem table_never_fits_sample :
    (∀ bytes, Fits .plain (IntBlock.malloc bytes) [0x50, 0xE8] [0x90] ↔ 8 ≤ bytes) ∧
      ¬ Fits .plain (mallocBlock 2) [0x50, 0xE8] [0x90] :=
  table_never_fits .plain [0x50, 0xE8] [0x90] (by decide)

/-- A search for that pattern writes its first element beyond the two bytes
allocated. -/
theorem short_table_overflows :
    ¬ ∀ version pat txt, pat ≠ [] → Fits version (mallocBlock pat.length) pat txt := by
  intro all
  obtain ⟨result, ran⟩ := all .plain [0x50, 0xE8] [0x90] (by decide)
  have fails : Version.plain.run (mallocBlock 2) [0x50, 0xE8] [0x90] = .error .access := rfl
  change Version.plain.run (mallocBlock 2) [0x50, 0xE8] [0x90] = .ok result at ran
  rw [fails] at ran
  cases ran

end ClrDumper.TableAllocation
