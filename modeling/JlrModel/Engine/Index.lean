import JlrModel.Cbor.Record

open Cbor

-- The identity of this installation.
structure NodeInfo where
  nodeId    : String
  createdAt : UInt64
  mode      : String
  deriving DecidableEq

instance : Record NodeInfo .mk <|
    .field 1 NodeInfo.nodeId <| .field 2 NodeInfo.createdAt <| .field 3 NodeInfo.mode .done where

-- What was last seen at one path.
structure IndexRow where
  path        : String
  epn         : String
  size        : UInt64
  mtimeNs     : UInt64
  ctimeNs     : UInt64
  ino         : UInt64
  dev         : UInt64
  measuredAt  : UInt64
  validUntil  : UInt64
  policyEpoch : UInt64
  deriving DecidableEq

instance : Record IndexRow .mk <|
    .field 1 IndexRow.path <| .field 2 IndexRow.epn <| .field 3 IndexRow.size <|
    .field 4 IndexRow.mtimeNs <| .field 5 IndexRow.ctimeNs <| .field 6 IndexRow.ino <|
    .field 7 IndexRow.dev <| .field 8 IndexRow.measuredAt <| .field 9 IndexRow.validUntil <|
    .field 10 IndexRow.policyEpoch .done where

structure IndexFile where
  rows : List IndexRow
  deriving DecidableEq

instance : Record IndexFile .mk <|
    .field 1 IndexFile.rows .done where
