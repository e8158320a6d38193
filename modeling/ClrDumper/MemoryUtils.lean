import ClrDumper.Kmp

/-! `MemoryUtils.cpp`: pattern searches over the address space of the process,
in one range and in the sections of a mapped 32-bit image. -/
namespace ClrDumper.MemoryUtils
open Execution Memory Kmp

/-- A value of the code's 32-bit `unsigned int` read as `int`. -/
def asInt (value : UInt32) : ℤ := (value.toNat : ℤ).bmod (2 ^ 32)

/-- A value of the code's `int` read as `unsigned int`. -/
def asUnsigned (value : ℤ) : UInt32 := UInt32.ofNat (value % 2 ^ 32).toNat

/-- The `-1` that the searches return as `unsigned int` for "not found". -/
def notFound : UInt32 := asUnsigned (-1)

def findData (mem : Mem) (address : UInt32) (address_len : ℤ) (needle : BytePtr) (needle_len : ℕ)
    (wildcard : Bool) : Exec UInt32 := do
  let index ←
    if wildcard then kmpSearchWild needle needle_len (mem.ptr address) address_len
    else kmpSearch needle needle_len (mem.ptr address) address_len
  if index = -1 then return asUnsigned index
  else return address + asUnsigned index

/-- `sizeof(_IMAGE_NT_HEADERS)` of the 32-bit headers. -/
def sizeofNtHeaders : UInt32 := 248

/-- `sizeof(IMAGE_SECTION_HEADER)`. -/
def sizeofSectionHeader : UInt32 := 40

/-- `&sectionHeader[i]`. -/
def sectionHeaderAt (sectionHeader : UInt32) (i : ℕ) : UInt32 :=
  sectionHeader + sizeofSectionHeader * UInt32.ofNat i

/-- The `for` loop over the section table from entry `i` on, with the number of
entries left. -/
def searchSections (mem : Mem) (dllBase sectionHeader : UInt32) (needle : BytePtr) (needle_size : ℕ) :
    (remaining i : ℕ) → Exec UInt32
  | 0, _ => return notFound
  | remaining + 1, i => do
    let header := sectionHeaderAt sectionHeader i
    -- `memcpy(section_name, sectionHeader[i].Name, 8)`; the name is not used.
    let _ ← mem.bytes header 8
    let section_address := dllBase + (← mem.dword (header + 12))
    let section_size := asInt (← mem.dword (header + 8))
    let index ← kmpSearch needle needle_size (mem.ptr section_address) section_size
    if index ≠ -1 then return asUnsigned index + section_address
    else searchSections mem dllBase sectionHeader needle needle_size remaining (i + 1)

/-- `FindDataInDLL`. Nothing in the loop writes to the image, so the count that
the source reads in every test is read once. -/
def findDataInDLL (mem : Mem) (dllBase : UInt32) (needle : BytePtr) (needle_size : ℕ) :
    Exec UInt32 := do
  let e_lfanew ← mem.dword (dllBase + 0x3C)
  let ntHeader := dllBase + e_lfanew
  let sectionHeader := sizeofNtHeaders + ntHeader
  let numberOfSections ← mem.word (ntHeader + 6)
  searchSections mem dllBase sectionHeader needle needle_size numberOfSections.toNat 0

end ClrDumper.MemoryUtils
