import JlrModel.Crypto.Digest
import JlrModel.Model.State

open Cbor

-- On what basis a state was reached.
inductive Basis
  | cryptographic | policy | manualOverride | none
  deriving DecidableEq

instance : Coded Basis where
  typeName := "Basis"
  table    := [
    (.cryptographic,  1, "CRYPTOGRAPHIC"),
    (.policy,         2, "POLICY"),
    (.manualOverride, 3, "MANUAL_OVERRIDE"),
    (.none,           4, "NONE")
  ]

inductive EventKind
  | genesis | boot | selfMeasure | discover | transition | mismatch | override | enforcement
  | policyLoad | keyEvent | checkpoint | recovery | degraded | revocation
  deriving DecidableEq

instance : Coded EventKind where
  typeName := "EventKind"
  table    := [
    (.genesis,      1, "GENESIS"),
    (.boot,         2, "BOOT"),
    (.selfMeasure,  3, "SELF_MEASURE"),
    (.discover,     4, "DISCOVER"),
    (.transition,   5, "TRANSITION"),
    (.mismatch,     6, "MISMATCH"),
    (.override,     7, "OVERRIDE"),
    (.enforcement,  8, "ENFORCEMENT"),
    (.policyLoad,   9, "POLICY_LOAD"),
    (.keyEvent,    10, "KEY_EVENT"),
    (.checkpoint,  11, "CHECKPOINT"),
    (.recovery,    12, "RECOVERY"),
    (.degraded,    13, "DEGRADED"),
    (.revocation,  14, "REVOCATION")
  ]

-- One entry of the append-only evidence ledger. The previous link is the digest of the envelope of
-- the preceding event, or zero for the first event.
structure Event where
  seq      : UInt64
  bootId   : Bytes.Fixed 16
  wallTime : UInt64
  monoNs   : UInt64
  actor    : String
  subject  : Option String
  kind     : EventKind
  oldState : Option AdmissionState
  newState : Option AdmissionState
  policy   : Digest
  evidence : List Digest
  basis    : Basis
  detail   : String
  prev     : Digest
  deriving DecidableEq

namespace Event

instance : Record Event .mk <|
    .field 1 seq <| .field 2 bootId <| .field 3 wallTime <| .field 4 monoNs <| .field 5 actor <|
    .field 6 subject <| .field 7 kind <| .field 8 oldState <| .field 9 newState <|
    .field 10 policy <| .field 11 evidence <| .field 12 basis <| .field 13 detail <|
    .field 14 prev .done where

end Event
