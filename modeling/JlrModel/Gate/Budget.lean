import JlrModel.Lib.Window
import Mathlib.Data.List.AList

-- The time that measurements may take, for each user and for all of them together. Instants and durations are
-- numbers of nanoseconds.

namespace Gate

-- The start of the window of each user, and what was charged to it.
abbrev Users := AList fun _ : UInt32 => Nat × Nat

-- `HashMap::retain`
def Users.retain (p : Nat × Nat → Bool) (users : Users) : Users where
  entries   := users.entries.filter (p ·.2)
  nodupKeys := users.nodupKeys.sublist List.filter_sublist

structure Budgets where
  window          : Nat
  allowance       : Nat
  globalAllowance : Nat
  global          : Option Nat × Nat
  users           : Users

namespace Budgets

def USERS_LIMIT : Nat := 4096

def new (allowance globalAllowance window : Nat) : Budgets where
  window          := window
  allowance       := allowance
  globalAllowance := globalAllowance
  global          := (none, 0)
  users           := ∅

-- Starts a new global window when the current one has run out, or none has started.
def rollGlobal (b : Budgets) (now : Nat) : Budgets :=
  match b.global.1 with
  | some start => if now - start < b.window then b else { b with global := (some now, 0) }
  | none       => { b with global := (some now, 0) }

-- Whether the user, or all users together, have used up what they may spend in the current window.
def exhausted (b : Budgets) (uid : UInt32) (now : Nat) : Bool × Budgets :=
  let b := b.rollGlobal now
  if b.globalAllowance ≤ b.global.2 then
    (true, b)
  else
    match b.users.lookup uid with
    | some (start, spent) =>
      if b.window ≤ now - start then
        (b.allowance ≤ 0, { b with users := b.users.insert uid (now, 0) })
      else
        (b.allowance ≤ spent, b)
    | none                => (false, b)

-- Records time that was spent for a user. If there are too many users, those whose window has passed are forgotten.
def charge (b : Budgets) (uid : UInt32) (spent now : Nat) : Budgets :=
  let b := b.rollGlobal now
  let b := { b with global := (b.global.1, b.global.2 + spent) }
  let entry := (b.users.lookup uid).getD (now, 0)
  let entry := if b.window ≤ now - entry.1 then (now, 0) else entry
  let users := b.users.insert uid (entry.1, entry.2 + spent)
  let users := if USERS_LIMIT < users.entries.length then Users.retain (now - ·.1 < b.window) users else users
  { b with users }

-- Time that was spent for a user, with the instant at which it was charged.
structure Charge where
  uid   : UInt32
  time  : Nat
  spent : Nat

def all (charges : List Charge) : List (Nat × Nat) :=
  charges.map fun c => (c.time, c.spent)

def of (uid : UInt32) (charges : List Charge) : List (Nat × Nat) :=
  all (charges.filter (·.uid = uid))

-- The loop of the gate, with what was charged so far. Nobody is charged more than `limit` for one execution, and only
-- after asking.
inductive Runs (limit : Nat) (b₀ : Budgets) : Budgets → Nat → List Charge → Prop
  | start : Runs limit b₀ b₀ now []
  | ask : Runs limit b₀ b now charges → now ≤ t → Runs limit b₀ (b.exhausted uid t).2 t charges
  | serve : Runs limit b₀ b now charges → now ≤ t → b.exhausted uid t = (false, b') → t ≤ t' → spent ≤ limit →
    Runs limit b₀ (b'.charge uid spent t') t' (charges ++ [⟨uid, t', spent⟩])

end Budgets

end Gate
