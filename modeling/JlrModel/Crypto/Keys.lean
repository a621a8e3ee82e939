import JlrModel.Crypto.Digest

-- The authority that a key holds.
inductive Role
  | root | release | policy | recovery | device
  deriving DecidableEq

def Role.name : Role → String
  | .root     => "root"
  | .release  => "release"
  | .policy   => "policy"
  | .recovery => "recovery"
  | .device   => "device"

inductive KeyError
  | malformed (what : String)
  | weakKey
  deriving DecidableEq

-- The SHA-256 of the raw bytes of a public key.
structure KeyId where
  bytes : Bytes.Fixed 32
  deriving DecidableEq

def KeyId.short (kid : KeyId) : String :=
  .ofList <| (Text.hexDigits kid.bytes.val).take 16

def KeyId.display (kid : KeyId) : String :=
  "kid:" ++ kid.short

-- A verification key together with the role that it may exercise.
structure PublicKey where
  bytes : Bytes.Fixed 32
  role  : Role
  deriving DecidableEq

variable [Crypto]

def PublicKey.id (key : PublicKey) : KeyId :=
  ⟨(Digest.of key.bytes.val).bytes⟩

structure SigningKeypair where
  seed : Bytes.Fixed 32
  role : Role
  deriving DecidableEq

namespace SigningKeypair

def pub (key : SigningKeypair) : PublicKey :=
  { bytes := Crypto.publicKey key.seed, role := key.role }

def sign (key : SigningKeypair) (message : Bytes) : Bytes.Fixed 64 :=
  Crypto.sign key.seed message

end SigningKeypair

-- The verification keys that a verifier accepts, each held under its own identifier.
structure TrustAnchors where
  keys   : List (Bytes × PublicKey)
  sorted : SortedMap.Sorted keys
  keyed  : ∀ e ∈ keys, e.1 = e.2.id.bytes.val

namespace TrustAnchors

def new : TrustAnchors where
  keys   := []
  sorted := SortedMap.sorted_nil
  keyed  := by simp

def insert (anchors : TrustAnchors) (key : PublicKey) : TrustAnchors where
  keys      := SortedMap.insert key.id.bytes.val key anchors.keys
  sorted    := anchors.sorted.insert
  keyed e h := by
    obtain rfl | h := SortedMap.mem_insert_fst h
    · rfl
    · exact anchors.keyed e h

def get (anchors : TrustAnchors) (id : KeyId) : Option PublicKey :=
  SortedMap.get id.bytes.val anchors.keys

variable {anchors : TrustAnchors} {kid : KeyId} {key : PublicKey}

theorem id_of_get (h : anchors.get kid = some key) : key.id = kid := by
  have hm := SortedMap.mem_of_get h
  have hk := anchors.keyed _ hm
  cases kid
  exact congrArg KeyId.mk (Subtype.ext hk.symm)

theorem get_insert_self : (anchors.insert key).get key.id = some key :=
  SortedMap.get_insert_self

end TrustAnchors

def verifySignature (key : PublicKey) (message : Bytes) (signature : Bytes.Fixed 64) :
    Except KeyError Unit :=
  if ¬ Crypto.isPoint key.bytes then .error <| .malformed "not a curve point"
  else if Crypto.verifyStrict key.bytes message signature then .ok ()
  else .error <| .malformed "signature invalid"
