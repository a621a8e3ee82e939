import JlrModel.Boot.Manifest
import Mathlib.Data.List.Sort

-- Selection between the slots of a medium, with a rollback floor.

-- The tries of a slot that was just installed.
def DEFAULT_TRIES : UInt16 := 3

def MAX_PRIORITY : UInt16 := 15

-- The outcome of the selection: the slot, and the state to write before it is booted.
structure Choice where
  slot : String
  next : BootState
  deriving DecidableEq

namespace SlotState

-- The slot of a release that has not booted yet.
def installed (name : String) : SlotState where
  name       := name
  priority   := MAX_PRIORITY
  tries      := DEFAULT_TRIES
  successful := false

-- Makes room at the top for another slot.
def demote (s : SlotState) : SlotState :=
  if MAX_PRIORITY ≤ s.priority then { s with priority := MAX_PRIORITY - 1 } else s

def bad (s : SlotState) : SlotState :=
  { s with priority := 0, successful := false, tries := 0 }

def proven (s : SlotState) : SlotState :=
  { s with successful := true, tries := 0 }

def spent (s : SlotState) : SlotState :=
  { s with tries := s.tries - 1 }

-- Higher priorities first, then by name.
def before (a b : SlotState) : Bool :=
  b.priority < a.priority ∨ a.priority = b.priority ∧ a.name ≤ b.name

end SlotState

namespace BootState

-- One proven slot, and nothing else.
def fresh : BootState where
  floor := 0
  slots := [{ name := "a", priority := MAX_PRIORITY, tries := 0, successful := true }]

-- Changes the first slot of a name, if there is one.
def modify (name : String) (f : SlotState → SlotState) : List SlotState → List SlotState
  | []      => []
  | s :: ss => if s.name = name then f s :: ss else s :: modify name f ss

-- Installs a release that is not proven into a slot and prefers it. The others stay as a fallback.
def install (b : BootState) (name : String) : BootState :=
  let slots := b.slots.map fun s => if s.name ≠ name then s.demote else s
  { b with slots :=
    if slots.any (·.name = name) then modify name (fun _ => .installed name) slots else slots ++ [.installed name] }

def markBad (b : BootState) (name : String) : BootState :=
  { b with slots := modify name .bad b.slots }

-- Only a failure that proves the content bad retires a slot. Returns whether the state has changed.
def recordImageFailure (b : BootState) (name : String) (why : BootError) : Bool × BootState :=
  if why.provesBadContent then (true, b.markBad name) else (false, b)

-- The slot has booted and passed its self-test, so that older releases may not boot any more.
def markSuccessful (b : BootState) (name : String) (m : ReleaseManifest) : BootState where
  slots := modify name .proven b.slots
  floor := max b.floor m.minEpoch

end BootState

-- Whether a slot may be booted with one of the given manifests.
def bootable (floor : UInt64) (verified : List (String × ReleaseManifest)) (s : SlotState) : Bool :=
  match verified.find? (·.1 = s.name) with
  | none        => false
  | some (_, m) => floor ≤ m.epoch ∧ (s.successful ∨ 0 < s.tries)

-- Picks the slot to boot from those whose manifests were verified.
def choose (state : BootState) (verified : List (String × ReleaseManifest)) : Except BootError Choice :=
  let order := (state.slots.filter (0 < ·.priority)).insertionSort fun a b => a.before b
  match order.find? (bootable state.floor verified) with
  | none   => .error .noBootableSlot
  | some s => .ok {
      slot := s.name
      next := if s.successful then state else { state with slots := BootState.modify s.name .spent state.slots }
    }
