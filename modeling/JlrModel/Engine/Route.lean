import JlrModel.Model.State

namespace AdmissionState

-- The search for the shortest legal route. `prev` says from where each state was reached first.
abbrev Visited := List (AdmissionState × AdmissionState)

-- The states on the way to `cur`, except the first one, in front of those that come after it.
def trace («from» : AdmissionState) (prev : Visited) :
    (fuel : Nat) → (cur : AdmissionState) → List AdmissionState → List AdmissionState
  | 0, _, path           => path
  | fuel + 1, cur, path  =>
    match prev.lookup cur with
    | some p => if p = «from» then path else trace «from» prev fuel p (p :: path)
    | none   => path

-- Visits those of the given states that can be reached from `s` in one step and were not reached before.
-- Stops at `to`.
def expand («from» «to» s : AdmissionState) :
    List AdmissionState → Visited → (queue : List AdmissionState) → Visited × List AdmissionState × Bool
  | [], prev, queue      => (prev, queue, false)
  | n :: ns, prev, queue =>
    if n ≠ s ∧ n ≠ «from» ∧ (prev.lookup n).isNone ∧ s.canBecome n then
      if n = «to» then
        ((n, s) :: prev, queue, true)
      else
        expand «from» «to» s ns ((n, s) :: prev) (queue ++ [n])
    else
      expand «from» «to» s ns prev queue

-- Every state is taken from the queue at most once.
def search («from» «to» : AdmissionState) :
    (fuel : Nat) → Visited → (queue : List AdmissionState) → Option (List AdmissionState)
  | 0, _, _                 => none
  | _, _, []                => none
  | fuel + 1, prev, s :: queue =>
    match expand «from» «to» s (Coded.ALL AdmissionState) prev queue with
    | (prev, _, true)      => some (trace «from» prev (Coded.ALL AdmissionState).length «to» [«to»])
    | (prev, queue, false) => search «from» «to» fuel prev queue

-- The shortest legal route through the admission state machine.
def route («from» «to» : AdmissionState) : Option (List AdmissionState) :=
  if «from» = «to» then
    some []
  else
    search «from» «to» (Coded.ALL AdmissionState).length [] [«from»]

end AdmissionState
