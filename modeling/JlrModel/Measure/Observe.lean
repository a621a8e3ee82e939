import JlrModel.Measure.Classify
import JlrModel.Measure.File

-- From a path to a record and its evidence.

-- What the package database says about one path.
structure DpkgOwnership where
  package     : String
  version     : String
  manifestMd5 : Option String

-- The installed packages: the package that owns a path, with its version, and the checksums that a package lists.
structure DpkgDb where
  find     : String → Option (String × String)
  manifest : String → String → Option String

-- The other name of a path below the directories that have been merged into `/usr`.
def stripUsrmerge (p : String) : Option String :=
  if ["/bin", "/sbin", "/lib", "/lib32", "/lib64", "/libx32"].any fun d => p = d ∨ Text.startsWith p (d ++ "/") then
    some ("/usr" ++ p)
  else
    none

def DpkgDb.ownership (db : DpkgDb) (path : String) : Option DpkgOwnership :=
  [some path, stripUsrmerge path, Text.stripPrefix "/usr" path].reduceOption.findSome? fun cand =>
    (db.find cand).map fun (package, version) =>
      let listed := db.manifest package
      { package, version, manifestMd5 := listed cand <|> listed path <|> listed ("/usr" ++ cand) }

-- Permission facts about a file and the way to it.
structure PathFacts where
  setuid              : Bool
  setgid              : Bool
  writableByUntrusted : Bool

structure ObserveOptions where
  maxSize : UInt64
  now     : UInt64

-- What the file system says about a path during an observation. Where the path leads is looked up twice.
structure PathIo where
  path     : String
  fileName : Option FileName
  before   : Except IoError String
  after    : Except IoError String
  facts    : Except IoError PathFacts

-- Where a path leads, or the path itself.
def PathIo.real (p : PathIo) : Except IoError String → String
  | .ok real => real
  | .error _ => p.path

-- The record schema.
def EpnRecord.SCHEMA : UInt32 := 1

namespace Observe

def item (kind : EvidenceKind) (source : String) (now : UInt64) (detail : String) : EvidenceItem where
  kind   := kind
  source := source
  «at»   := now
  detail := detail
  digest := none

-- The checksum that the package lists against the one that was computed.
def checksumEvidence (m : Measured) (now : UInt64) (expected : Option String) : Except MeasureError EvidenceItem :=
  match expected with
  | none          => return item .missing "dpkg" now "package lists no checksum for this file"
  | some expected => do
    let actual ← Except.okOr (.io "the package checksum was not computed") m.md5Hex
    return if actual = expected then
      item .packageManifestMatch "dpkg" now "matches the local package manifest (unauthenticated)"
    else
      item .contentDigestMismatch "dpkg" now "differs from the local package manifest"

def packageEvidence (m : Measured) (now : UInt64) : Option DpkgOwnership → Except MeasureError (List EvidenceItem)
  | none     => return []
  | some own => do
    let checksum ← checksumEvidence m now own.manifestMd5
    return [item .managedInstaller "dpkg" now ("owned by " ++ own.package), checksum]

def factsEvidence (now : UInt64) : Except IoError PathFacts → List EvidenceItem
  | .ok f    =>
    (if f.setuid ∨ f.setgid then [item .setuidBit "measure" now "setuid or setgid bit is set"] else []) ++
    (if f.writableByUntrusted then
      [item .writablePath "measure" now "file or a parent directory is writable by an untrusted actor"] else [])
  | .error e => [item .missing "measure" now ("path facts unavailable: " ++ e)]

-- A package database is not authenticated, so that it only makes the source known.
def provenance : Option DpkgOwnership → ProvenanceRank
  | some _ => .sourceKnown
  | none   => .unknown

def source (real : String) (own : Option DpkgOwnership) : Source where
  channel := if own.isSome then "dpkg" else "unmanaged"
  origin  := own.map DpkgOwnership.package
  path    := some real

def record (m : Measured) (p : PathIo) (real : String) (own : Option DpkgOwnership) : EpnRecord where
  schema       := EpnRecord.SCHEMA
  cls          := classify m.head p.fileName m.mode
  name         := (p.fileName.map FileName.lossy).getD ""
  version      := own.map DpkgOwnership.version
  size         := m.size
  digest       := m.digest
  provenance   := provenance own
  signer       := none
  source       := source real own
  dependencies := []

end Observe

def observeMeasured (m : Measured) (p : PathIo) (dpkg : Option DpkgDb) (opts : ObserveOptions) :
    Except MeasureError Observation := do
  let real := p.real p.after
  let own := dpkg.bind (·.ownership real)
  let managed ← Observe.packageEvidence m opts.now own
  return {
    record   := Observe.record m p real own
    evidence := Observe.item .contentDigestMatch "measure" opts.now "hashed through the open descriptor" ::
      (managed ++ Observe.factsEvidence opts.now p.facts)
    path     := real
    stamp    := m.stamp
    located  := rfl
  }

-- Whether the package lists a checksum for a path. If so it is computed in the same pass as the digest.
def wantsMd5 (dpkg : Option DpkgDb) (p : PathIo) : Bool :=
  (dpkg.bind (·.ownership (p.real p.before))).any (·.manifestMd5.isSome)

variable [Crypto] [Md5]

def observe (p : PathIo) (dpkg : Option DpkgDb) (opts : ObserveOptions) (opened : Except OpenError Unit)
    (io : MeasureIo) : Except MeasureError Observation := do
  let m ← openMeasured opened io opts.maxSize (wantsMd5 dpkg p)
  observeMeasured m p dpkg opts

-- The same for a descriptor that the caller already holds.
def observeOpen (p : PathIo) (dpkg : Option DpkgDb) (opts : ObserveOptions) (io : MeasureIo) :
    Except MeasureError Observation := do
  let m ← measureFileStable io opts.maxSize (wantsMd5 dpkg p)
  observeMeasured m p dpkg opts

-- The observations that measuring a file can yield.
inductive Observation.Measured (obs : Observation) : Prop
  | path       : observe p dpkg opts opened io = .ok obs → Measured obs
  | descriptor : observeOpen p dpkg opts io = .ok obs → Measured obs
