import ClrDumper.NamedPipeIO

/-! `NamedPipeLoop` of `ClrDumper/Source.cpp`: the server thread that answers
the requests of the injected DLL. Its `buffer`, `type` and `msg` are locals that
nothing initializes; what one round leaves in them the next round finds there,
so they are part of the state. -/
namespace ClrDumper.NamedPipeLoop
open Execution CStrings Decimal Memory NamedPipeIO

/-- `unordered_map<string, V>`: the entries, by key. Keys and values come from
`char*`, so both are NUL-free. -/
def KeyMap (V : Type) := CString → Option V

namespace KeyMap

variable {V : Type}

/-- The value that `operator[]` yields: the entry, or the default value that it
inserts. -/
def lookup (map : KeyMap V) (default : V) (key : CString) : V := (map key).getD default

/-- The map after `operator[]`. -/
def touch (map : KeyMap V) (default : V) (key : CString) : KeyMap V := fun k =>
  if k = key then some (map.lookup default key) else map k

/-- Reading an unknown key inserts it, with the value it had already answered. -/
@[simp] theorem lookup_touch (map : KeyMap V) (default : V) (key other : CString) :
    (map.touch default key).lookup default other = map.lookup default other := by
  by_cases same : other = key
  · subst same
    simp [lookup, touch]
  · simp [lookup, touch, same]

end KeyMap

/-- The globals and the locals of the server. -/
structure Server where
  stringKeyMap : KeyMap CString
  intKeyMap : KeyMap Int32
  buffer : CharArray MAX_BUFFER
  type : ℤ
  msg : CharArray MAX_BUFFER

/-- `isspace` in the C locale. -/
def isSpace (byte : UInt8) : Bool := byte == 32 || (9 ≤ byte && byte ≤ 13)

/-- An optional sign: whether the number is negative, and what follows. -/
def scanSign : List UInt8 → Bool × List UInt8
  | 45 :: rest => (true, rest)
  | 43 :: rest => (false, rest)
  | input => (false, input)

/-- The nearest number of 64 bits. -/
def clamp64 (value : ℤ) : ℤ := max (-2 ^ 63) (min value (2 ^ 63 - 1))

/-- `%d`: blanks, an optional sign and digits. They are read as a number of 64
bits, and what is stored is its low half, as a 32-bit `int`. -/
def scanInt (input : List UInt8) : Option (ℤ × List UInt8) :=
  let (negative, input) := scanSign (input.dropWhile isSpace)
  let digits := input.takeWhile isDigit
  let value : ℤ := decimalValue digits
  if digits = [] then none
  else some ((clamp64 (if negative then -value else value)).bmod (2 ^ 32), input.dropWhile isDigit)

/-- `%256[^\n]`: at least one and at most 256 bytes other than a newline. -/
def scanLine (input : List UInt8) : Option (List UInt8) :=
  let text := (input.takeWhile (· != 10)).take 256
  if text = [] then none else some text

/-- `sscanf(buffer, "%d%256[^\n]", &type, msg)`, whose result is not looked at:
a conversion that fails leaves its argument and the ones after it alone. -/
def scanRequest (s : Server) : Exec Server := do
  let input ← s.buffer.cstring
  match scanInt input.bytes with
  | none => return s
  | some (type, rest) =>
    match scanLine rest with
    | none => return { s with type }
    | some text => do
      let msg ← s.msg.store (text ++ [0])
      return { s with type, msg }

/-- What a round does that can be seen from outside. -/
inductive Action where
  /-- `WriteFile(_writer_pipe, ...)`. -/
  | reply (bytes : List UInt8)
  /-- `printf("%s\n", msg)`. -/
  | print (line : CString)
  deriving DecidableEq

/-- The `switch (type)`. -/
def dispatch (s : Server) : Exec (Server × Option Action) :=
  if s.type = GET_KEY_STRING then do
    let key ← s.msg.cstring
    let strVal := s.stringKeyMap.lookup CString.empty key
    return ({ s with stringKeyMap := s.stringKeyMap.touch CString.empty key }, some (.reply strVal.terminated))
  else if s.type = GET_KEY_INT then do
    let key ← s.msg.cstring
    let intVal := s.intKeyMap.lookup 0 key
    return ({ s with intKeyMap := s.intKeyMap.touch 0 key }, some (.reply (leBytes 4 intVal.toUInt32.toNat)))
  else if s.type = LOG_MSG then do
    let line ← s.msg.cstring
    return (s, some (.print line))
  else return (s, none)

/-- `ReadFile` puts a chunk at the start of the buffer, over what was there, and
the buffer is scanned. -/
def receive (s : Server) (chunk : List UInt8) : Exec Server := do
  let buffer ← s.buffer.store chunk
  scanRequest { s with buffer }

/-- One round of the loop. -/
def serve (s : Server) (chunk : List UInt8) : Exec (Server × Option Action) := do
  let s ← receive s chunk
  dispatch s

/-- The loop over the chunks that `ReadFile` returns. It ends with the first
empty one, or when the client has closed its end. -/
def namedPipeLoop (s : Server) : List (List UInt8) → Exec (Server × List Action)
  | [] => return (s, [])
  | chunk :: rest =>
    if chunk = [] then return (s, [])
    else do
      let (s, action) ← serve s chunk
      let (s, actions) ← namedPipeLoop s rest
      return (s, action.toList ++ actions)

end ClrDumper.NamedPipeLoop
