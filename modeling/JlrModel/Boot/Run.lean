import JlrModel.Boot.Choose

namespace Boot

-- What can happen to the boot state of a medium.
inductive Event
  | install (slot : String)
  | boot (slot : String)
  | refuse
  | markBad (slot : String)
  | markSuccessful (slot : String)
  | crash
  deriving DecidableEq

-- The state on the medium, and the slot that has been booted from it with its manifest.
structure System where
  state   : BootState
  running : Option (String × ReleaseManifest)

def System.fresh : System where
  state   := .fresh
  running := none

variable [Crypto]

-- The manifests of a medium that were verified with the floor of its state.
def Verified (anchors : TrustAnchors) (floor : UInt64) (verified : List (String × ReleaseManifest)) : Prop :=
  ∀ v ∈ verified, ∃ bytes, verifyManifest bytes anchors floor = .ok v.2

-- A boot starts with the state that its choice has written. Only the slot that runs is marked successful.
inductive Step (anchors : TrustAnchors) : System → Event → System → Prop
  | install : Step anchors ⟨b, r⟩ (.install name) ⟨b.install name, r⟩
  | boot {c : Choice} {m : ReleaseManifest} : Verified anchors b.floor verified → choose b verified = .ok c →
      verified.find? (·.1 = c.slot) = some (name, m) → Step anchors ⟨b, r⟩ (.boot c.slot) ⟨c.next, some (c.slot, m)⟩
  | refuse : Verified anchors b.floor verified → choose b verified = .error e → Step anchors ⟨b, r⟩ .refuse ⟨b, none⟩
  | markBad : Step anchors ⟨b, r⟩ (.markBad name) ⟨b.markBad name, r⟩
  | markSuccessful {m : ReleaseManifest} :
      Step anchors ⟨b, some (name, m)⟩ (.markSuccessful name) ⟨b.markSuccessful name m, some (name, m)⟩
  | crash : Step anchors ⟨b, r⟩ .crash ⟨b, none⟩

inductive Runs (anchors : TrustAnchors) : System → List Event → System → Prop
  | refl : Runs anchors s [] s
  | step : Step anchors s e t → Runs anchors t es u → Runs anchors s (e :: es) u

end Boot
