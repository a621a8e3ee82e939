import JlrModel.Crypto.Keys

-- The names of the signed record types, and the roles that may sign them.

namespace RecordType

def EPN         := "epn"
def POLICY      := "policy"
def REVOCATIONS := "revocations"
def RELEASE     := "release-manifest"
def EVENT       := "event"
def CHECKPOINT  := "checkpoint"
def RECOVERY    := "recovery-authorization"
def APPROVAL    := "approval"

def allowedSigners (recordType : String) : List Role :=
  if recordType = EPN then [.device, .release]
  else if recordType = POLICY then [.policy]
  else if recordType = REVOCATIONS then [.root, .policy, .release]
  else if recordType = RELEASE then [.release]
  else if recordType = EVENT ∨ recordType = CHECKPOINT then [.device]
  else if recordType = RECOVERY then [.recovery]
  else if recordType = APPROVAL then [.policy, .recovery]
  else []

@[simp]
theorem allowedSigners_event : allowedSigners EVENT = [.device] := by
  decide

@[simp]
theorem allowedSigners_checkpoint : allowedSigners CHECKPOINT = [.device] := by
  decide

end RecordType
