import JlrModel.Crypto.Digest
import JlrModel.Lib.Merkle

-- The hashes of the ledger. A leaf can not be mistaken for a node, as they begin with different bytes.

variable [Crypto]

def leafHash (data : Bytes) : Digest :=
  Digest.of <| 0x00 :: data

def nodeHash (left right : Digest) : Digest :=
  Digest.of <| 0x01 :: (left.bytes.val ++ right.bytes.val)

def emptyRoot : Digest :=
  Digest.of []

instance : Merkle.Hash Digest where
  node  := nodeHash
  empty := emptyRoot
