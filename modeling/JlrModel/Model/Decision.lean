import JlrModel.Model.Capability
import JlrModel.Model.Event

open Cbor

inductive EvidenceKind
  | contentDigestMatch | contentDigestMismatch | signatureValid | signatureInvalid
  | managedInstaller | packageSignature | reproducibleMatch | setuidBit | writablePath
  | staticFinding | observation | operatorApproval | revocationHit | missing | forbiddenBehavior
  | packageManifestMatch | baselineMember
  deriving DecidableEq

instance : Coded EvidenceKind where
  typeName := "EvidenceKind"
  table    := [
    (.contentDigestMatch,     1, "CONTENT_DIGEST_MATCH"),
    (.contentDigestMismatch,  2, "CONTENT_DIGEST_MISMATCH"),
    (.signatureValid,         3, "SIGNATURE_VALID"),
    (.signatureInvalid,       4, "SIGNATURE_INVALID"),
    (.managedInstaller,       5, "MANAGED_INSTALLER"),
    (.packageSignature,       6, "PACKAGE_SIGNATURE"),
    (.reproducibleMatch,      7, "REPRODUCIBLE_MATCH"),
    (.setuidBit,              8, "SETUID_BIT"),
    (.writablePath,           9, "WRITABLE_PATH"),
    (.staticFinding,         10, "STATIC_FINDING"),
    (.observation,           11, "OBSERVATION"),
    (.operatorApproval,      12, "OPERATOR_APPROVAL"),
    (.revocationHit,         13, "REVOCATION_HIT"),
    (.missing,               14, "MISSING"),
    (.forbiddenBehavior,     15, "FORBIDDEN_BEHAVIOR"),
    (.packageManifestMatch,  16, "PACKAGE_MANIFEST_MATCH"),
    (.baselineMember,        17, "BASELINE_MEMBER")
  ]

inductive ReasonCode
  | revoked | contentChanged | managedInstall | pinnedVendorSignature | weakProvenance
  | noProvenance | highRiskCapability | setuidExecutable | writableLocation | policyProhibition
  | badSignature | operatorAuthorized | evidenceMissing | defaultTier | signatureVerified
  | observationPending | reproducedBuild | checksumVerified | cellCapped | previouslyRevoked
  deriving DecidableEq

instance : Coded ReasonCode where
  typeName := "ReasonCode"
  table    := [
    (.revoked,                1, "REVOKED"),
    (.contentChanged,         2, "CONTENT_CHANGED"),
    (.managedInstall,         3, "MANAGED_INSTALL"),
    (.pinnedVendorSignature,  4, "PINNED_VENDOR_SIGNATURE"),
    (.weakProvenance,         5, "WEAK_PROVENANCE"),
    (.noProvenance,           6, "NO_PROVENANCE"),
    (.highRiskCapability,     7, "HIGH_RISK_CAPABILITY"),
    (.setuidExecutable,       8, "SETUID_EXECUTABLE"),
    (.writableLocation,       9, "WRITABLE_LOCATION"),
    (.policyProhibition,     10, "POLICY_PROHIBITION"),
    (.badSignature,          11, "BAD_SIGNATURE"),
    (.operatorAuthorized,    12, "OPERATOR_AUTHORIZED"),
    (.evidenceMissing,       13, "EVIDENCE_MISSING"),
    (.defaultTier,           14, "DEFAULT_TIER"),
    (.signatureVerified,     15, "SIGNATURE_VERIFIED"),
    (.observationPending,    16, "OBSERVATION_PENDING"),
    (.reproducedBuild,       17, "REPRODUCED_BUILD"),
    (.checksumVerified,      18, "CHECKSUM_VERIFIED"),
    (.cellCapped,            19, "CELL_CAPPED"),
    (.previouslyRevoked,     20, "PREVIOUSLY_REVOKED")
  ]

-- One normalized piece of evidence.
structure EvidenceItem where
  kind   : EvidenceKind
  source : String
  «at»   : UInt64
  detail : String
  digest : Option Digest
  deriving DecidableEq

instance : Record EvidenceItem .mk <|
    .field 1 EvidenceItem.kind <| .field 2 EvidenceItem.source <| .field 3 EvidenceItem.«at» <|
    .field 4 EvidenceItem.detail <| .field 5 EvidenceItem.digest .done where

-- The trust engine's output for one artifact under one policy version.
structure Decision where
  state        : AdmissionState
  cell         : CellClass
  network      : NetworkMode
  capabilities : List Capability
  reasons      : List ReasonCode
  basis        : Basis
  needsUser    : Option String
  policy       : Digest
  deriving DecidableEq

instance : Record Decision .mk <|
    .field 1 Decision.state <| .field 2 Decision.cell <| .field 3 Decision.network <|
    .field 4 Decision.capabilities <| .field 5 Decision.reasons <| .field 6 Decision.basis <|
    .field 7 Decision.needsUser <| .field 8 Decision.policy .done where
