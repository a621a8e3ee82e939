import JlrModel.Engine.Host
import JlrModel.Model.Artifact
import Mathlib.Data.String.Basic

-- The content-addressed object store, and the path index.

open Cbor Program

variable [Crypto]

namespace StateDir

def putFile (kind : ObjectKind) (d : Digest) (f : File) (dir : StateDir) : StateDir :=
  { dir with objects := Function.update dir.objects kind (Function.update (dir.objects kind) d (some f)) }

def hasObject (dir : StateDir) (kind : ObjectKind) (d : Digest) : Bool :=
  (dir.objects kind d).isSome

-- The content of an object, which must still hash to its name.
def getObject (dir : StateDir) (kind : ObjectKind) (d : Digest) : Option Bytes :=
  (dir.objects kind d).map (·.data) |>.filter (Digest.of · = d)

def loadRecord (dir : StateDir) (id : EpnId) : Option EpnRecord := do
  (fromCbor EpnRecord (← dir.getObject .epn id.digest)).toOption

-- The index, and whether it was lost: the file is missing or does not parse.
def loadIndex (dir : StateDir) : IndexFile × Bool :=
  match dir.index.map fun f => fromCbor IndexFile f.data with
  | some (.ok file) => (file, false)
  | _               => (⟨[]⟩, true)

def putGrant (kind : GrantKind) (name : String) (f : File) (dir : StateDir) : StateDir :=
  { dir with grants := Function.update dir.grants kind (SortedMap.insert name f (dir.grants kind)) }

def removeGrant (kind : GrantKind) (name : String) (dir : StateDir) : StateDir :=
  { dir with grants := Function.update dir.grants kind (SortedMap.erase name (dir.grants kind)) }

end StateDir

namespace Host

-- An object that is there with the right length is not written again.
def putObject (kind : ObjectKind) (data : Bytes) : HostM Digest := do
  let d := Digest.of data
  let intact ← view fun h => (h.dir.objects kind d).any (·.data.length = data.length)
  onlyIf (¬ intact) (writeAtomic data (StateDir.putFile kind d))
  return d

-- Saves the rows of the index in the order of their paths.
def saveIndex (index : List (String × IndexRow)) : HostM Unit :=
  writeAtomic (toCbor (⟨index.map Prod.snd⟩ : IndexFile)) fun f dir => { dir with index := some f }

end Host
