import JlrModel.Cbor.Decode
import JlrModel.Lib.Result
import JlrModel.Lib.Text

namespace Cbor

namespace Value

def ofI64 (n : Int64) : Value :=
  if 0 ≤ n then .uint n.toUInt64 else .nint (~~~ n.toUInt64)

def asU64 : Value → Except Error UInt64
  | .uint n => .ok n
  | _       => .error <| .type "unsigned integer"

def asI64 : Value → Except Error Int64
  | .uint n => if n ≤ 0x7fffffffffffffff then .ok n.toInt64 else .error .outOfRange
  | .nint n => if n ≤ 0x7fffffffffffffff then .ok (-1 - n.toInt64) else .error .outOfRange
  | _       => .error <| .type "integer"

def asU32 (v : Value) : Except Error UInt32 := do
  let n ← v.asU64
  if n ≤ 0xffffffff then return n.toUInt32 else throw .outOfRange

def asU16 (v : Value) : Except Error UInt16 := do
  let n ← v.asU64
  if n ≤ 0xffff then return n.toUInt16 else throw .outOfRange

def asU8 (v : Value) : Except Error UInt8 := do
  let n ← v.asU64
  if n ≤ 0xff then return n.toUInt8 else throw .outOfRange

def asBytes : Value → Except Error Bytes
  | .bytes b => .ok b
  | _        => .error <| .type "byte string"

def asByteArray (n : Nat) (v : Value) : Except Error (Bytes.Fixed n) := do
  let b ← v.asBytes
  if h : b.length = n then return ⟨b, h⟩ else throw <| .invalid "byte string has wrong length"

def asText : Value → Except Error String
  | .text s => .ok s
  | _       => .error <| .type "text string"

def asArray : Value → Except Error (List Value)
  | .array a => .ok a
  | _        => .error <| .type "array"

def asMap : Value → Except Error Map
  | .map m => .ok m
  | _      => .error <| .type "map"

def asBool : Value → Except Error Bool
  | .bool b => .ok b
  | _       => .error <| .type "bool"

def asTag (expected : UInt64) : Value → Except Error Value
  | .tag t inner => if t = expected then .ok inner else .error <| .type "tagged item"
  | _            => .error <| .type "tagged item"

def isNull : Value → Bool
  | .null => true
  | _     => false

def escape (s : String) : String :=
  .join <| s.toList.map fun c =>
    if c = '"' then "\\\""
    else if c = '\\' then "\\\\"
    else if Text.isControl c then
      let digits := Nat.toDigits 16 c.toNat
      "\\u" ++ .ofList (List.replicate (4 - digits.length) '0' ++ digits)
    else .singleton c

-- Diagnostic notation. It is only ever shown.
mutual
def diag : Value → String
  | .uint n      => toString n
  | .nint n      => "-" ++ toString (n.toNat + 1)
  | .bytes b     => "h'" ++ Text.hex b ++ "'"
  | .text s      => "\"" ++ escape s ++ "\""
  | .array items => "[" ++ diagItems items ++ "]"
  | .map entries => "\x7b" ++ diagEntries entries ++ "\x7d"
  | .tag t inner => toString t ++ "(" ++ diag inner ++ ")"
  | .bool b      => toString b
  | .null        => "null"

def diagItems : List Value → String
  | []      => ""
  | [v]     => diag v
  | v :: vs => diag v ++ ", " ++ diagItems vs

def diagEntries : List (Bytes × Value × Value) → String
  | []                => ""
  | [(_, k, v)]       => diag k ++ ": " ++ diag v
  | (_, k, v) :: rest => diag k ++ ": " ++ diag v ++ ", " ++ diagEntries rest
end

end Value

-- A record map that is being read, with the keys that were asked for.
structure Fields where
  map  : Map
  used : List UInt64

namespace Fields

abbrev Read := StateT Fields (Except Error)

def new (v : Value) : Except Error Fields := do
  return { map := ← v.asMap, used := [] }

def req (key : UInt64) : Read Value := do
  modify fun f => { f with used := key :: f.used }
  match (← get).map.getUint key with
  | none   => throw <| .missingField key
  | some v => return v

-- An explicit null counts as absent.
def opt (key : UInt64) : Read (Option Value) := do
  modify fun f => { f with used := key :: f.used }
  return (← get).map.getUint key |>.filter (! ·.isNull)

def known (f : Fields) : Value → Bool
  | .uint n => n ∈ f.used
  | _       => false

-- Fails at the first key that was not read.
def finish (f : Fields) : Except Error Unit :=
  f.map.forM fun (_, k, _) => if f.known k then .ok () else .error <| .unknownField k.diag

end Fields

-- Types with a canonical representation, under the name of the trait.
set_option linter.dupNamespace false in
class Cbor (α : Type) where
  toValue   : α → Value
  fromValue : Value → Except Error α

export Cbor (toValue fromValue)

def toCbor [Cbor α] (a : α) : Bytes :=
  encode <| toValue a

def fromCbor (α) [Cbor α] (bytes : Bytes) : Except Error α := do
  let parsed ← fromValue (← decode bytes)
  if toCbor parsed ≠ bytes then
    throw <| .invalid "record is not in canonical form"
  else
    return parsed

instance : Cbor UInt16 where
  toValue n := .uint n.toUInt64
  fromValue := Value.asU16

instance : Cbor UInt32 where
  toValue n := .uint n.toUInt64
  fromValue := Value.asU32

instance : Cbor UInt64 where
  toValue   := .uint
  fromValue := Value.asU64

instance : Cbor Int64 where
  toValue   := Value.ofI64
  fromValue := Value.asI64

instance : Cbor Bool where
  toValue   := .bool
  fromValue := Value.asBool

instance : Cbor String where
  toValue   := .text
  fromValue := Value.asText

instance : Cbor Bytes where
  toValue   := .bytes
  fromValue := Value.asBytes

instance : Cbor (Bytes.Fixed n) where
  toValue b := .bytes b.val
  fromValue := Value.asByteArray n

-- There is no instance for `UInt8`, a list of bytes is always a byte string.
instance [Cbor α] : Cbor (List α) where
  toValue as  := .array <| as.map toValue
  fromValue v := do (← v.asArray).mapM fromValue

-- The keys of a record are distinct, an entry that exists already would stay.
def Map.put (m : Map) (key : UInt64) (v : Value) : Map :=
  match m.insert (.uint key) v with
  | .ok m'   => m'
  | .error _ => m

-- The type of a field of a record: required, or optional if it is an `Option`.
class Field (β : Type) where
  put : β → Map → UInt64 → Map
  get : UInt64 → Fields.Read β

instance [Cbor β] : Field β where
  put b m key := m.put key (toValue b)
  get key     := do fromValue (← Fields.req key)

instance [Cbor β] : Field (Option β) where
  put
    | none, m, _     => m
    | some b, m, key => m.put key (toValue b)
  get key := do
    match ← Fields.opt key with
    | none   => return none
    | some v => return some (← fromValue v)

-- The fields of a record in the order of their declaration. The second type is that of what is left
-- to be applied of the record's constructor.
inductive Schema (ρ : Type) : Type → Type 1
  | done : Schema ρ ρ
  | field [Field β] (key : UInt64) (proj : ρ → β) (rest : Schema ρ κ) : Schema ρ (β → κ)

namespace Schema

def keys : Schema ρ κ → List UInt64
  | done             => []
  | field key _ rest => key :: rest.keys

def put (r : ρ) : Schema ρ κ → Map → Map
  | done, m                => m
  | field key proj rest, m => rest.put r (Field.put (proj r) m key)

def get : Schema ρ κ → κ → Fields.Read ρ
  | done, r              => return r
  | field key _ rest, mk => do rest.get (mk (← Field.get key))

-- The constructor applied to the fields of a given record.
def rebuild (r : ρ) : Schema ρ κ → κ → ρ
  | done, r'              => r'
  | field _ proj rest, mk => rest.rebuild r (mk (proj r))

end Schema

-- What `record!` declares. The fields determine the record and their keys are distinct.
class Record (ρ : Type) {κ : outParam Type} (ctor : outParam κ) (schema : outParam <| Schema ρ κ) :
    Prop where
  eta r : schema.rebuild r ctor = r := by intro; rfl
  nodup : schema.keys.Nodup := by decide

instance {schema : Schema ρ κ} [Record ρ ctor schema] : Cbor ρ where
  toValue r := .map <| schema.put r Map.new
  fromValue v := do
    let (r, fields) ← schema.get ctor (← Fields.new v)
    fields.finish
    return r

end Cbor
