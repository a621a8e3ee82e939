import JlrModel.Model.Coded

-- The trust state of one artifact.
inductive AdmissionState
  | unknown
  | quarantined
  | observed
  | verified
  | admitted
  | degraded
  | revoked
  | policyBlocked
  deriving DecidableEq

namespace AdmissionState

instance : Coded AdmissionState where
  typeName := "AdmissionState"
  table    := [
    (unknown,       1, "UNKNOWN"),
    (quarantined,   2, "QUARANTINED"),
    (observed,      3, "OBSERVED"),
    (verified,      4, "VERIFIED"),
    (admitted,      5, "ADMITTED"),
    (degraded,      6, "DEGRADED"),
    (revoked,       7, "REVOKED"),
    (policyBlocked, 8, "POLICY_BLOCKED")
  ]

-- The transitions that the state machine permits at all. A revoked artifact stays revoked.
def canBecome (s t : AdmissionState) : Bool :=
  if s = t then true else
  match s, t with
  | _, revoked                                                          => true
  | unknown, quarantined                                                => true
  | unknown, observed | unknown, verified | unknown, policyBlocked      => true
  | quarantined, observed | quarantined, verified
  | quarantined, policyBlocked                                          => true
  | observed, verified | observed, quarantined | observed, policyBlocked => true
  | verified, admitted | verified, degraded | verified, quarantined
  | verified, policyBlocked                                             => true
  | admitted, degraded | admitted, quarantined | admitted, policyBlocked => true
  | degraded, quarantined | degraded, verified | degraded, observed
  | degraded, policyBlocked                                             => true
  | policyBlocked, quarantined                                          => true
  | _, _                                                                => false

structure TransitionError where
  «from» : AdmissionState
  «to»   : AdmissionState

def transition (s t : AdmissionState) : Except TransitionError AdmissionState :=
  if s.canBecome t then .ok t else .error ⟨s, t⟩

def permitsNormalExecution : AdmissionState → Bool
  | verified | admitted => true
  | _                   => false

end AdmissionState
