import JlrModel.Lib.Bytes
import JlrModel.Lib.SortedMap

namespace Cbor

-- The maximum nesting depth that `decode` accepts.
def MAX_DEPTH : Nat := 32

-- The data model of JLR-DCBOR/1. A text string is a `String` and therefore valid UTF-8. The entries
-- of a map are those of a `BTreeMap`: each entry is held under the encoding of its key.
inductive Value
  | uint (n : UInt64)
  | nint (n : UInt64)
  | bytes (b : Bytes)
  | text (s : String)
  | array (items : List Value)
  | map (entries : List (Bytes × Value × Value))
  | tag (t : UInt64) (inner : Value)
  | bool (b : Bool)
  | null
  deriving Inhabited

abbrev Map := List (Bytes × Value × Value)

inductive Error
  | truncated
  | trailingBytes
  | nonShortestArgument
  | indefiniteLength
  | reservedAdditionalInfo
  | unsupportedSimpleOrFloat
  | invalidUtf8
  | unsortedMapKeys
  | duplicateKey
  | tooDeep
  | lengthExceedsInput
  | type (expected : String)
  | missingField (key : UInt64)
  | unknownField (key : String)
  | outOfRange
  | invalid (what : String)
  deriving DecidableEq

def Error.display : Error → String
  | .truncated                => "truncated CBOR input"
  | .trailingBytes            => "trailing bytes after CBOR item"
  | .nonShortestArgument      => "non-shortest CBOR argument"
  | .indefiniteLength         => "indefinite-length CBOR item"
  | .reservedAdditionalInfo   => "reserved CBOR additional information"
  | .unsupportedSimpleOrFloat => "float or unsupported simple value"
  | .invalidUtf8              => "text string is not valid UTF-8"
  | .unsortedMapKeys          => "map keys are not in canonical order"
  | .duplicateKey             => "duplicate map key"
  | .tooDeep                  => "CBOR nesting too deep"
  | .lengthExceedsInput       => "declared length exceeds input"
  | .type expected            => "wrong type: expected " ++ expected
  | .missingField key         => "missing required field " ++ toString key
  | .unknownField key         => "unknown field " ++ key
  | .outOfRange               => "integer out of range"
  | .invalid what             => "invalid value: " ++ what

-- The bytes of a string, `str::as_bytes`.
def utf8 (s : String) : Bytes :=
  s.toByteArray.data.toList

-- Every head uses the shortest argument.
def writeHead (major : UInt8) (arg : UInt64) : Bytes :=
  let mt := major <<< 5
  if arg < 24 then [mt ||| arg.toUInt8]
  else if arg ≤ 0xff then [mt ||| 24, arg.toUInt8]
  else if arg ≤ 0xffff then (mt ||| 25) :: Bytes.ofNat 2 arg.toNat
  else if arg ≤ 0xffffffff then (mt ||| 26) :: Bytes.ofNat 4 arg.toNat
  else (mt ||| 27) :: Bytes.ofNat 8 arg.toNat

-- The source appends to a buffer in `encode_into`, here the appended bytes are returned.
mutual
def encode : Value → Bytes
  | .uint n => writeHead 0 n
  | .nint n => writeHead 1 n
  | .bytes b => writeHead 2 (.ofNat b.length) ++ b
  | .text s => writeHead 3 (.ofNat (utf8 s).length) ++ utf8 s
  | .array items => writeHead 4 (.ofNat items.length) ++ encodeItems items
  | .map entries => writeHead 5 (.ofNat entries.length) ++ encodeEntries entries
  | .tag t inner => writeHead 6 t ++ encode inner
  | .bool false => [0xf4]
  | .bool true => [0xf5]
  | .null => [0xf6]

def encodeItems : List Value → Bytes
  | [] => []
  | v :: vs => encode v ++ encodeItems vs

-- The stored encoding of a key is written, the key itself is not encoded again.
def encodeEntries : List (Bytes × Value × Value) → Bytes
  | [] => []
  | (key, _, value) :: es => key ++ (encode value ++ encodeEntries es)
end

namespace Map

def new : Map := []

def insert (m : Map) (key value : Value) : Except Error Map :=
  match SortedMap.get (encode key) m with
  | some _ => .error .duplicateKey
  | none   => .ok <| SortedMap.insert (encode key) (key, value) m

def get (m : Map) (key : Value) : Option Value :=
  SortedMap.get (encode key) m |>.map Prod.snd

def getUint (m : Map) (key : UInt64) : Option Value :=
  m.get (.uint key)

end Map

namespace Value

-- Items of an array, keys and values of a map and the content of a tag are each one level below it.
mutual
def depth : Value → Nat
  | .array items => depthItems items
  | .map entries => depthEntries entries
  | .tag _ inner => inner.depth + 1
  | .uint _ | .nint _ | .bytes _ | .text _ | .bool _ | .null => 0

def depthItems : List Value → Nat
  | [] => 0
  | v :: vs => max (v.depth + 1) (depthItems vs)

def depthEntries : List (Bytes × Value × Value) → Nat
  | [] => 0
  | (_, key, value) :: es => max (max (key.depth + 1) (value.depth + 1)) (depthEntries es)
end

-- Every map holds its entries under the encodings of their keys, in strictly increasing order.
inductive WellFormed : Value → Prop
  | uint : WellFormed (.uint n)
  | nint : WellFormed (.nint n)
  | bytes : WellFormed (.bytes b)
  | text : WellFormed (.text s)
  | array : (∀ v ∈ items, WellFormed v) → WellFormed (.array items)
  | map :
    (SortedMap.Sorted entries) → (∀ e ∈ entries, e.1 = encode e.2.1) →
    (∀ e ∈ entries, WellFormed e.2.1) → (∀ e ∈ entries, WellFormed e.2.2) →
    WellFormed (.map entries)
  | tag {v : Value} : WellFormed v → WellFormed (.tag t v)
  | bool : WellFormed (.bool b)
  | null : WellFormed .null

-- Every length in the value fits into the 64 bits that an argument has. This is so for every value
-- that exists in the source, as the length of a vector or a string is a `usize` there.
inductive InRange : Value → Prop
  | uint : InRange (.uint n)
  | nint : InRange (.nint n)
  | bytes : b.length < 2 ^ 64 → InRange (.bytes b)
  | text : (utf8 s).length < 2 ^ 64 → InRange (.text s)
  | array : items.length < 2 ^ 64 → (∀ v ∈ items, InRange v) → InRange (.array items)
  | map :
    (entries.length < 2 ^ 64) → (∀ e ∈ entries, InRange e.2.1) → (∀ e ∈ entries, InRange e.2.2) →
    InRange (.map entries)
  | tag {v : Value} : InRange v → InRange (.tag t v)
  | bool : InRange (.bool b)
  | null : InRange .null

end Value
end Cbor
