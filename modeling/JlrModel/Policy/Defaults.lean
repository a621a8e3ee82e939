import JlrModel.Policy.Validate

-- The built-in policies.

namespace Policy

def evidenceTiers : List Tier := [
  {
    name            := "managed-boot"
    classes         := [.boot, .kernel, .initrd, .module, .firmware]
    maxProvenance   := .distroSigned
    requireEvidence := [.managedInstaller, .packageSignature]
    state           := .admitted
    cell            := .cell3
    network         := .none
    needsUser       := false
    reason          := .managedInstall
  },
  {
    name            := "managed-package"
    classes         := []
    maxProvenance   := .distroSigned
    requireEvidence := [.managedInstaller, .packageSignature]
    state           := .admitted
    cell            := .cell2
    network         := .fullUserNetwork
    needsUser       := false
    reason          := .managedInstall
  },
  {
    name            := "pinned-vendor"
    classes         := []
    maxProvenance   := .pinnedVendor
    requireEvidence := [.signatureValid]
    state           := .admitted
    cell            := .cell2
    network         := .fullUserNetwork
    needsUser       := false
    reason          := .pinnedVendorSignature
  },
  {
    name            := "reproduced"
    classes         := []
    maxProvenance   := .reproduced
    requireEvidence := [.reproducibleMatch]
    state           := .admitted
    cell            := .cell2
    network         := .fullUserNetwork
    needsUser       := false
    reason          := .reproducedBuild
  }
]

-- Managed software is admitted silently, the rest is observed.
def workstation (epoch : UInt64) : Policy where
  schema              := SCHEMA
  name                := "workstation"
  epoch               := epoch
  tiers               := evidenceTiers ++ [
    {
      name            := "checksum-verified"
      classes         := []
      maxProvenance   := .verifiedChecksum
      requireEvidence := [.contentDigestMatch]
      state           := .verified
      cell            := .cell1
      network         := .loopbackOnly
      needsUser       := false
      reason          := .checksumVerified
    },
    {
      name            := "observe-unknown"
      classes         := []
      maxProvenance   := .unknown
      requireEvidence := []
      state           := .observed
      cell            := .cell0
      network         := .none
      needsUser       := false
      reason          := .defaultTier
    }
  ]
  blockClasses        := []
  setuidMinProvenance := .distroSigned
  writablePathMaxCell := .cell1
  maxManualCell       := .cell2
  evidenceMaxAgeSecs  := 7 * 24 * 3600
  enforceExec         := false

-- Everything without strong evidence is quarantined.
def strict (epoch : UInt64) : Policy where
  schema              := SCHEMA
  name                := "strict"
  epoch               := epoch
  tiers               := evidenceTiers ++ [
    {
      name            := "quarantine-unknown"
      classes         := []
      maxProvenance   := .unknown
      requireEvidence := []
      state           := .quarantined
      cell            := .cell0
      network         := .none
      needsUser       := true
      reason          := .defaultTier
    }
  ]
  blockClasses        := []
  setuidMinProvenance := .pinnedVendor
  writablePathMaxCell := .cell0
  maxManualCell       := .cell1
  evidenceMaxAgeSecs  := 24 * 3600
  enforceExec         := false

end Policy
