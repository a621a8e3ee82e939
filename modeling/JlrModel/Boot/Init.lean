import JlrModel.Boot.Choose
import JlrModel.Lib.Program

-- The part of the boot program that tries the slots of one medium.

open Program

-- Where the medium is mounted.
def MEDIA : String := "/mnt/boot"

-- Why an image could not be loaded.
inductive LoadFailure
  | transient (why : String)
  | provenBad (e : BootError)
  deriving DecidableEq

inductive Reading
  | first | confirming
  deriving DecidableEq

-- Whether two failures are the same wrong answer.
def sameMismatch : BootError → BootError → Bool
  | .imageDigest _ x, .imageDigest _ y => x = y
  | .imageSize _ x, .imageSize _ y     => x = y
  | _, _                               => false

-- Reads once, and once more if that has given a mismatch. Only the same wrong answer twice is proof.
def confirm (read : Reading → Program σ ε (Except LoadFailure α)) : Program σ ε (Except LoadFailure α) := do
  match ← read .first with
  | .error (.provenBad first) => do
    match ← read .confirming with
    | .error (.provenBad second) =>
      if sameMismatch first second then
        return .error (.provenBad first)
      else
        return .error <| .transient <| "two reads of the image disagreed with each other (" ++ first.display ++ "; " ++
          second.display ++ "): the medium is unreliable"
    | other                      => return other
  | other                     => return other

-- How one reading of an image goes.
structure ImageIo where
  memory : Except IoError Unit
  «open» : Except IoError (Reader IoError)
  write  : Nat → Bytes → Except IoError Unit

-- How the operations on a medium go, each of them by the number of operations before it.
structure MediumIo where
  mount    : Option String
  manifest : Nat → Except IoError Bytes
  image    : Nat → ImageIo
  remount  : Nat → Except IoError Unit
  write    : Nat → Except IoError Unit
  addSeals : Except IoError Unit

-- What is done on a medium that matters later.
inductive BootAction
  | read (slot : String) (result : Except LoadFailure File)
  | write (state : BootState) (result : Except IoError Unit)

-- A trial of the slots of a medium, with what it has done so far.
structure Trial where
  io       : MediumIo
  tick     : Nat
  writable : Bool
  done     : List BootAction

def Trial.new (io : MediumIo) : Trial where
  io       := io
  tick     := 0
  writable := false
  done     := []

-- A program that ends early has refused to boot at all.
abbrev TrialM := Program Trial String

namespace Trial

-- Does one operation on the medium.
def operate (op : MediumIo → Nat → α) : TrialM α := do
  let result ← view fun t => op t.io t.tick
  update fun t => { t with tick := t.tick + 1 }
  return result

def note (a : BootAction) : TrialM Unit :=
  update fun t => { t with done := t.done ++ [a] }

end Trial

-- A medium with the state that was found on it.
structure Medium where
  dev   : String
  state : BootState

-- What a boot goes on with.
structure Booted where
  slot          : String
  manifest      : ReleaseManifest
  manifestBytes : Bytes
  image         : File
  dev           : String
  fstype        : String

-- Writes the state to the medium, which is made writable first.
def persist (state : BootState) : TrialM (Except String Unit) := do
  let writable ← view (·.writable)
  let remounted ← (if writable then return .ok () else Trial.operate MediumIo.remount)
  match remounted with
  | .error e => return .error ("cannot remount read-write: " ++ e)
  | .ok ()   => do
    update fun t => { t with writable := true }
    let written ← Trial.operate MediumIo.write
    Trial.note (.write state written)
    return written

-- The verified manifests of the other slots.
def without (slot : String) (verified : List (String × ReleaseManifest × Bytes)) :
    List (String × ReleaseManifest × Bytes) :=
  verified.filter (·.1 ≠ slot)

theorem length_without {slot : String} {verified : List (String × ReleaseManifest × Bytes)}
    {v : String × ReleaseManifest × Bytes} (h : verified.find? (·.1 = slot) = some v) :
    (without slot verified).length < verified.length := by
  have hs : v.1 = slot := by simpa using List.find?_some h
  exact List.length_filter_lt_length_iff_exists.mpr ⟨v, List.mem_of_find?_eq_some h, by simp [hs]⟩

variable [Crypto]

-- What reading an image comes to. Nothing but a mismatch says that the content is bad.
def ImageIo.result (io : ImageIo) (path : String) (m : ReleaseManifest) : Except LoadFailure File := do
  io.memory.mapError fun e => .transient ("cannot allocate RAM for the base image: " ++ e)
  let source ← io.open.mapError fun e => .transient (path ++ ": " ++ e)
  (verifyImage m source io.write).mapError fun e => if e.provesBadContent then .provenBad e else .transient e.display

-- Reads the image of a slot into memory.
def readImage (slot : String) (m : ReleaseManifest) (_ : Reading) : TrialM (Except LoadFailure File) := do
  let io ← Trial.operate MediumIo.image
  let result := io.result (MEDIA ++ "/jlr/slot-" ++ slot ++ "/base.sqfs") m
  Trial.note (.read slot result)
  return result

def loadImage (slot : String) (m : ReleaseManifest) : TrialM (Except LoadFailure File) :=
  confirm (readImage slot m)

-- The manifests of the slots that are accepted, each with its file.
def verifyManifests (io : MediumIo) (anchors : TrustAnchors) (floor : UInt64) (slots : List SlotState) :
    List (String × ReleaseManifest × Bytes) :=
  slots.zipIdx.filterMap fun (s, i) =>
    match io.manifest i with
    | .error _  => none
    | .ok bytes =>
      match verifyManifest bytes anchors floor with
      | .error _ => none
      | .ok m    => some (s.name, m, bytes)

-- Tries the slot that was chosen. If it can not be used, goes on with the others and the state in memory.
def trySlot (dev fstype : String) (state : BootState) (choice : Choice) (m : ReleaseManifest) (bytes : Bytes)
    (others : BootState → TrialM (Option Booted)) : TrialM (Option Booted) := do
  match ← loadImage choice.slot m with
  | .error (.transient _) => others state
  | .error (.provenBad e) => do
    let state := (state.recordImageFailure choice.slot e).2
    let _ ← persist state
    others state
  | .ok sink              => do
    -- The try is spent before the slot is used. A proven slot spends nothing.
    let spent ← (if choice.next ≠ state then persist choice.next else return .ok ())
    match spent with
    | .error _ => others state
    | .ok ()   => do
      let «sealed» ← view (·.io.addSeals)
      ofExcept («sealed».mapError ("cannot seal the RAM image: " ++ ·))
      return some {
        slot          := choice.slot
        manifest      := m
        manifestBytes := bytes
        image         := sink
        dev, fstype
      }

-- Tries the slots in their order until one of them is verified from end to end.
def trySlots (dev fstype : String) (state : BootState) (verified : List (String × ReleaseManifest × Bytes)) :
    TrialM (Option Booted) :=
  match choose state (verified.map fun v => (v.1, v.2.1)) with
  | .error _   => return none
  | .ok choice =>
    match _ : verified.find? (·.1 = choice.slot) with
    | none               => halt "chosen slot is verified"
    | some (_, m, bytes) =>
      trySlot dev fstype state choice m bytes fun state => trySlots dev fstype state (without choice.slot verified)
termination_by verified.length
decreasing_by exact length_without ‹_›

-- Tries the slots of one medium. The floor that applies is the highest one of any medium.
def tryMedium (medium : Medium) (floor : UInt64) (anchors : TrustAnchors) : TrialM (Option Booted) := do
  let io ← view (·.io)
  match io.mount with
  | none        => return none
  | some fstype =>
    let state := { medium.state with floor := max medium.state.floor floor }
    trySlots medium.dev fstype state (verifyManifests io anchors state.floor state.slots)
