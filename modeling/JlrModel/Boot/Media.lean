import JlrModel.Boot.Choose
import JlrModel.Lib.Program

-- How the boot state is read from a medium and written to it.

open Cbor Program

def STATE_FILE : String := "bootstate.cbor"

-- What is at a path. Something that can not be read, a directory for example, comes with the error.
inductive Entry
  | file (data : Bytes)
  | unreadable (e : IoError)
  deriving DecidableEq

-- The state file and the replacement beside it (`.new`).
structure Disk where
  state : Option Entry
  new   : Option Entry
  deriving DecidableEq

-- What reading the state of a medium found.
inductive StateRead
  | fresh (state : BootState)
  | loaded (state : BootState)
  | recovered (state : BootState)
  deriving DecidableEq

def StateRead.intoState : StateRead → BootState
  | fresh s | loaded s | recovered s => s

-- Only a missing file means a fresh medium.
def readState (media : String) (d : Disk) : Except BootError StateRead :=
  let path := media ++ "/jlr/" ++ STATE_FILE
  match d.state with
  | some (.file b)       =>
    ((fromCbor BootState b).mapError fun e => .io ("boot state is damaged: " ++ e.display)).map .loaded
  | some (.unreadable e) => .error (.io (path ++ ": " ++ e))
  | none                 =>
    match d.new with
    | some (.file b)       =>
      match fromCbor BootState b with
      | .ok state => .ok (.recovered state)
      | .error _  => .ok (.fresh .fresh)
    | some (.unreadable e) => .error (.io (path ++ ".new: " ++ e))
    | none                 => .ok (.fresh .fresh)

-- How an operation goes. The machine may stop during any of them.
inductive MediaFate
  | succeeds
  | fails (e : IoError)
  | stops
  deriving DecidableEq

-- What a rename that does not succeed leaves behind.
inductive Renaming
  | unchanged | unlinked | renamed
  deriving DecidableEq

def Renaming.apply (d : Disk) : Renaming → Disk
  | unchanged => d
  | unlinked  => { d with state := none }
  | renamed   => { state := d.new, new := none }

-- How the operations of one write of the state go, in their order.
structure WriteIo where
  stateExists    : MediaFate
  newExists      : MediaFate
  readNew        : MediaFate
  promote        : MediaFate × Renaming
  removeTorn     : MediaFate
  create         : MediaFate
  write          : MediaFate × Nat
  sync           : MediaFate × Nat
  rename         : MediaFate × Renaming
  syncDir        : MediaFate
  stateRemains   : MediaFate
  removeNew      : MediaFate

inductive MediaHalt
  | stopped
  | failed (e : IoError)
  deriving DecidableEq

-- What a stopped program has done so far is all that is on the disk.
abbrev MediaM := Program Disk MediaHalt

namespace MediaHalt

-- An error can be handled, a stop can not.
def error? : MediaHalt → Option IoError
  | stopped  => none
  | failed e => some e

end MediaHalt

namespace Media

-- Does an operation, or a part of it.
def operate (fate : MediaFate) (whole part : Disk → Disk) : MediaM Unit :=
  match fate with
  | .succeeds => update whole
  | .fails e  => do update part; halt (.failed e)
  | .stops    => do update part; halt .stopped

-- `Path::exists` does not tell an error from a path that does not exist.
def «exists» (fate : MediaFate) (entry : Disk → Option Entry) : MediaM Bool :=
  match fate with
  | .succeeds => view fun d => (entry d).isSome
  | .fails _  => return false
  | .stops    => halt .stopped

def readNew (fate : MediaFate) : MediaM Bytes := do
  operate fate id id
  match ← view (·.new) with
  | some (.file b)       => return b
  | some (.unreadable e) => halt (.failed e)
  | none                 => halt (.failed "No such file or directory (os error 2)")

def setNew (bytes : Bytes) (d : Disk) : Disk :=
  { d with new := some (.file bytes) }

def removeNew (fate : MediaFate) : MediaM Unit :=
  operate fate (fun d => { d with new := none }) id

def rename (r : MediaFate × Renaming) : MediaM Unit :=
  operate r.1 (Renaming.apply · .renamed) (Renaming.apply · r.2)

end Media

-- Makes a complete replacement the state file if there is none. A torn one is removed.
def promoteRecovered (io : WriteIo) : MediaM Bool := do
  if ← Media.exists io.stateExists (·.state) then
    return false
  else if ! (← Media.exists io.newExists (·.new)) then
    return false
  else
    let bytes ← Media.readNew io.readNew
    match fromCbor BootState bytes with
    | .ok _    => do
      Media.rename io.promote
      return true
    | .error _ => do
      let _ ← attempt MediaHalt.error? (Media.removeNew io.removeTorn)
      return false

-- Writes a replacement and puts it in the place of the state file.
def replaceState (io : WriteIo) (state : BootState) : MediaM Unit := do
  Media.operate io.create (Media.setNew []) id
  Media.operate io.write.1 (Media.setNew (toCbor state)) (Media.setNew ((toCbor state).take io.write.2))
  Media.operate io.sync.1 id (Media.setNew ((toCbor state).take io.sync.2))
  Media.rename io.rename
  Media.operate io.syncDir id id

def writeState (io : WriteIo) (state : BootState) : MediaM Unit := do
  let _ ← promoteRecovered io
  let result ← attempt MediaHalt.error? (replaceState io state)
  match result with
  | .ok ()   => return ()
  | .error e => do
    -- The partial replacement is removed only beside a state file. Otherwise it may be the only copy.
    if ← Media.exists io.stateRemains (·.state) then
      let _ ← attempt MediaHalt.error? (Media.removeNew io.removeNew)
    halt (.failed e)
