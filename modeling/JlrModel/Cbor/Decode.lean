import JlrModel.Cbor.Value

namespace Cbor

structure Decoder where
  input : Bytes
  pos   : Nat

-- A computation that moves the position of a decoder or fails.
abbrev Decode := StateT Decoder (Except Error)

-- The string that the bytes spell, `str::from_utf8`.
def fromUtf8 (raw : Bytes) : Option String :=
  String.fromUTF8? ⟨raw.toArray⟩

namespace Decoder

def remaining (d : Decoder) : Nat :=
  d.input.length - d.pos

def take (n : Nat) : Decode Bytes := fun d =>
  if n > d.remaining then
    .error .truncated
  else
    .ok ((d.input.drop d.pos).take n, { d with pos := d.pos + n })

def byte : Decode UInt8 := do
  return (← take 1).headD 0

-- An argument of `width` bytes, which has to be too large for the next shorter form. Floating point
-- and simple values use the same forms for contents that are not arguments.
def wide (major : UInt8) (width : Nat) (shorter : UInt64) : Decode UInt64 := do
  let v := .ofNat (Bytes.toNat (← take width))
  if v ≤ shorter ∧ major ≠ 7 then throw .nonShortestArgument else return v

def argument (major ai : UInt8) : Decode UInt64 :=
  if ai ≤ 23 then return ai.toUInt64
  else if ai = 24 then wide major 1 23
  else if ai = 25 then wide major 2 0xff
  else if ai = 26 then wide major 4 0xffff
  else if ai = 27 then wide major 8 0xffffffff
  else if ai ≤ 30 then throw .reservedAdditionalInfo
  else throw .indefiniteLength

-- The major type, the additional information and the argument of a head.
def head : Decode (UInt8 × UInt8 × UInt64) := do
  let initial ← byte
  let major := initial >>> 5
  let ai := initial &&& 0x1f
  let arg ← argument major ai
  return (major, ai, arg)

def length (arg : UInt64) : Decode Nat := fun d =>
  if arg.toNat > d.remaining then .error .lengthExceedsInput else .ok (arg.toNat, d)

def items (item : Decode Value) : (count : Nat) → Decode (List Value)
  | 0 => return []
  | n + 1 => do
    let v ← item
    let vs ← items item n
    return v :: vs

-- The bytes that were read since the position `start`.
def since (start : Nat) : Decode Bytes := fun d =>
  .ok ((d.input.drop start).take (d.pos - start), d)

-- A key has to be larger than the one before it.
def ordered (previous : Option Bytes) (keyBytes : Bytes) : Except Error Unit :=
  match previous with
  | none => return
  | some prev =>
    if prev < keyBytes then return
    else if prev = keyBytes then throw .duplicateKey
    else throw .unsortedMapKeys

def entries (item : Decode Value) : (count : Nat) → Option Bytes → Map → Decode Map
  | 0, _, map => return map
  | n + 1, previous, map => do
    let start := (← get).pos
    let key ← item
    let keyBytes ← since start
    ordered previous keyBytes
    let value ← item
    entries item n (some keyBytes) (SortedMap.insert keyBytes (key, value) map)

-- What follows the head, `inner` decodes the values one level below.
def body (inner : Decode Value) (major ai : UInt8) (arg : UInt64) : Decode Value :=
  if major = 0 then return .uint arg
  else if major = 1 then return .nint arg
  else if major = 2 then do return .bytes (← take (← length arg))
  else if major = 3 then do
    match fromUtf8 (← take (← length arg)) with
    | none   => throw .invalidUtf8
    | some s => return .text s
  else if major = 4 then do return .array (← items inner (← length arg))
  else if major = 5 then do return .map (← entries inner (← length arg) none Map.new)
  else if major = 6 then do return .tag arg (← inner)
  else if ai = 20 then return .bool false
  else if ai = 21 then return .bool true
  else if ai = 22 then return .null
  else throw .unsupportedSimpleOrFloat

-- The source counts the depth up and fails once it exceeds `MAX_DEPTH`. Here `left` is the number of
-- levels that are left, which is `MAX_DEPTH + 1 - depth`.
def value : (left : Nat) → Decode Value
  | 0 => throw .tooDeep
  | left + 1 => do
    let (major, ai, arg) ← head
    body (value left) major ai arg

end Decoder

-- Decodes exactly one item and rejects every byte string that is not its encoding.
def decode (input : Bytes) : Except Error Value := do
  let (v, d) ← Decoder.value (MAX_DEPTH + 1) { input, pos := 0 }
  if d.pos ≠ input.length then throw .trailingBytes else return v

example : (decode [0x82, 0x01, 0x20]).toOption.map encode = some [0x82, 0x01, 0x20] := by decide

end Cbor
