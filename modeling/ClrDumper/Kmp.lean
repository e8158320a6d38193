import ClrDumper.Memory

/-! `kmp.cpp`: the failure table and the search, each in the plain version and
in the one where a `?` of the pattern stands for any byte. The two versions
differ in their comparisons only, so each function is written once over the
comparison and instantiated twice. -/
namespace ClrDumper.Kmp
open Execution Memory

/-- The locals of the table loop. -/
structure TableState where
  i : ℕ
  len : ℕ
  lps : IntBlock

/-- One pass of the `while (i < M)` of `computeLPSArray`; `same` is the test
that extends a border. -/
def tablePass (same : UInt8 → UInt8 → Bool) (pat : BytePtr) (M : ℕ) (s : TableState) :
    Exec (Pass TableState IntBlock) :=
  if s.i < M then do
    let here ← pat s.i
    let border ← pat s.len
    if same here border then do
      let lps ← s.lps.set s.i (s.len + 1)
      return .again ⟨s.i + 1, s.len + 1, lps⟩
    else if s.len ≠ 0 then do
      let len ← s.lps.get (s.len - 1)
      return .again { s with len }
    else do
      let lps ← s.lps.set s.i 0
      return .again ⟨s.i + 1, s.len, lps⟩
  else return .leave s.lps

/-- `lps[0] = 0` and the loop from `i = 1`. A pass raises `i` or lowers `len`,
so the fuel is more than it can use. -/
def computeLPSArrayWith (same : UInt8 → UInt8 → Bool) (pat : BytePtr) (M : ℕ) (lps : IntBlock) :
    Exec IntBlock := do
  let lps ← lps.set 0 0
  whileLoop (tablePass same pat M) (2 * M + 1) ⟨1, 0, lps⟩

/-- The locals of the search loop. -/
structure SearchState where
  i : ℕ
  j : ℕ

/-- The `else if (i < N && pat[j] != txt[i])` of the search loop. It compares
the bytes themselves, also in the wildcard version. -/
def fallBack (pat txt : BytePtr) (N : ℤ) (lps : IntBlock) (s : SearchState) : Exec SearchState :=
  if (s.i : ℤ) < N then do
    let p ← pat s.j
    let t ← txt s.i
    if p ≠ t then
      if s.j ≠ 0 then do
        let j ← lps.get (s.j - 1)
        return { s with j }
      else return { s with i := s.i + 1 }
    else return s
  else return s

/-- One pass of the `while (i < N)` of `KMPSearch`; `hit` is the test that
accepts a text byte. -/
def searchPass (hit : UInt8 → UInt8 → Bool) (pat : BytePtr) (M : ℕ) (txt : BytePtr) (N : ℤ)
    (lps : IntBlock) (s : SearchState) : Exec (Pass SearchState ℤ) :=
  if (s.i : ℤ) < N then do
    let p ← pat s.j
    let t ← txt s.i
    let s := if hit p t then ⟨s.i + 1, s.j + 1⟩ else s
    if s.j = M then return .leave ((s.i : ℤ) - s.j)
    else do
      let s ← fallBack pat txt N lps s
      return .again s
  else return .leave (-1)

/-- The search with the block that `malloc` returned for the table. -/
def searchWith (same hit : UInt8 → UInt8 → Bool) (block : IntBlock) (pat : BytePtr) (M : ℕ)
    (txt : BytePtr) (N : ℤ) : Exec ℤ := do
  let lps ← computeLPSArrayWith same pat M block
  whileLoop (searchPass hit pat M txt N lps) (2 * N.toNat + 1) ⟨0, 0⟩

def WILDCARD : UInt8 := 63

/-- `pat[i] == pat[len]`, and `pat[j] == txt[i]`. -/
def sameByte (a b : UInt8) : Bool := a == b

/-- `pat[i] == pat[len] || pat[i] == WILDCARD || pat[len] == WILDCARD`. -/
def sameByteWild (a b : UInt8) : Bool := a == b || a == WILDCARD || b == WILDCARD

/-- `pat[j] == txt[i] || pat[j] == WILDCARD`. -/
def hitWild (p t : UInt8) : Bool := p == t || p == WILDCARD

def computeLPSArray (pat : BytePtr) (M : ℕ) (lps : IntBlock) : Exec IntBlock :=
  computeLPSArrayWith sameByte pat M lps

def computeLPSArrayWild (pat : BytePtr) (M : ℕ) (lps : IntBlock) : Exec IntBlock :=
  computeLPSArrayWith sameByteWild pat M lps

/-- The table as the algorithm means it: room for `M` elements. The source asks
`malloc` for `M` bytes, see `mallocBlock`; its stores past them land in the
heap behind the block and are read back from there. -/
def tableBlock (M : ℕ) : IntBlock := IntBlock.malloc (4 * M)

/-- `(int*)malloc(M)`: the block that the source asks for. -/
def mallocBlock (M : ℕ) : IntBlock := IntBlock.malloc M

def kmpSearch (pat : BytePtr) (patlen : ℕ) (txt : BytePtr) (txtLen : ℤ) : Exec ℤ :=
  searchWith sameByte sameByte (tableBlock patlen) pat patlen txt txtLen

def kmpSearchWild (pat : BytePtr) (patlen : ℕ) (txt : BytePtr) (txtLen : ℤ) : Exec ℤ :=
  searchWith sameByteWild hitWild (tableBlock patlen) pat patlen txt txtLen

end ClrDumper.Kmp
