import JlrModel.Engine.Route
import Mathlib.Data.List.Chain

namespace AdmissionState

-- The steps that a route is made of.
def Leads (s t : AdmissionState) : Prop :=
  s.canBecome t ∧ s ≠ t

instance : DecidableRel Leads :=
  fun s t => inferInstanceAs (Decidable (s.canBecome t ∧ s ≠ t))

-- Every route is made of legal steps, and ends where it should.
theorem route_legal {s t : AdmissionState} {steps : List AdmissionState} (h : route s t = some steps) :
    (s :: steps).IsChain Leads ∧ (s :: steps).getLast (List.cons_ne_nil _ _) = t := by
  have hr : ∀ steps ∈ route s t, (s :: steps).IsChain Leads ∧ (s :: steps).getLast (List.cons_ne_nil _ _) = t := by
    cases s <;> cases t <;> decide
  exact hr steps h

-- There is a route to every state but one that is not known, unless the artifact is revoked.
theorem route_exists {s t : AdmissionState} (hs : s = .revoked → t = .revoked) (ht : t ≠ .unknown) :
    (route s t).isSome := by
  revert hs ht
  cases s <;> cases t <;> decide

end AdmissionState
