import Mathlib.Data.List.AList
import Mathlib.Data.List.Destutter
import JlrModel.Cbor.Decode
import JlrModel.Lib.BinarySearch
import JlrModel.Lib.Layout
import JlrModel.Lib.Result
import JlrModel.Measure.Observe

-- The index of the installed packages and of the paths they own.

namespace Dpkg

open Cbor (utf8 fromUtf8)
open Layout (Read)

-- A file of the directory that has the lists. Its name need not be text, and what it has need not be readable as text.
structure Entry where
  name    : Option String
  content : Except IoError String

-- What is read of the package manager: the status of its packages, the directory with the lists of their files, and
-- the checksums that a package has there.
structure Files where
  status  : Except IoError String
  info    : Except IoError (List (Except IoError Entry))
  md5sums : String → Except IoError String

-- The parts of a text between empty lines.
def stanzas : List Char → List (List Char)
  | '\n' :: '\n' :: rest => [] :: stanzas rest
  | c :: rest            => (stanzas rest).modifyHead (c :: ·)
  | []                   => [[]]

-- What the lines of a stanza say of a package.
structure Stanza where
  name      : Option String := none
  arch      : Option String := none
  version   : Option String := none
  installed : Bool          := false
  multi     : Bool          := false

namespace Stanza

def read (st : Stanza) (line : String) : Stanza :=
  if let some v := Text.stripPrefix "Package: " line then
    { st with name := some (Text.trim v) }
  else if let some v := Text.stripPrefix "Architecture: " line then
    { st with arch := some (Text.trim v) }
  else if let some v := Text.stripPrefix "Version: " line then
    { st with version := some (Text.trim v) }
  else if let some v := Text.stripPrefix "Status: " line then
    { st with installed := Text.endsWith (Text.trim v) " installed" }
  else if let some v := Text.stripPrefix "Multi-Arch: " line then
    { st with multi := Text.trim v = "same" }
  else
    st

-- The name of the list of a package has the architecture only if there may be several of them.
def package (st : Stanza) : Option (String × String) :=
  match st.name, st.version, st.installed with
  | some n, some v, true =>
    match st.multi, st.arch with
    | true, some a => some (n ++ ":" ++ a, v)
    | _, _         => some (n, v)
  | _, _, _ => none

end Stanza

-- The names and the versions of the installed packages.
def packages (status : String) : List (String × String) :=
  (stanzas status.toList).filterMap fun stanza => ((Text.lines (.ofList stanza)).foldl Stanza.read {}).package

-- A name that was there before is overwritten.
def indexOf (packages : List (String × String)) : AList fun _ : String => UInt32 :=
  packages.zipIdx.foldl (fun index entry => index.insert entry.1.1 (.ofNat entry.2)) ∅

-- Whether a line of a list is a path that is indexed.
def isPath (line : String) : Bool :=
  Text.startsWith line "/" ∧ line ≠ "/."

-- The paths of a file of the directory, with the package whose list it is.
def Entry.claims (index : AList fun _ : String => UInt32) (entry : Entry) : List (String × UInt32) :=
  match entry.name.bind (Text.stripSuffix ".list") |>.bind index.lookup with
  | none     => []
  | some idx => (Text.lines (entry.content.toOption.getD "")).filter isPath |>.map (·, idx)

-- The paths in order, each with the first package that claims it. The sort is stable.
def distinct (pairs : List (String × UInt32)) : List (String × UInt32) :=
  (pairs.mergeSort fun a b => utf8 a.1 ≤ utf8 b.1).destutter fun first later => first.1 ≠ later.1

abbrev Manifest := AList fun _ : String => String

-- Path `i` is between the offsets `i` and `i + 1` of the blob.
structure Db where
  packages : List (String × String)
  blob     : Bytes
  offsets  : List UInt32
  owners   : List UInt32
  md5      : AList fun _ : String => Manifest

namespace Db

def push (db : Db) (pair : String × UInt32) : Db :=
  { db with
    offsets := db.offsets ++ [.ofNat db.blob.length]
    blob    := db.blob ++ utf8 pair.1
    owners  := db.owners ++ [pair.2] }

-- The last offset closes the last path.
def pack (packages : List (String × String)) (pairs : List (String × UInt32)) : Db :=
  let db := pairs.foldl push { packages, blob := [], offsets := [], owners := [], md5 := ∅ }
  { db with offsets := db.offsets ++ [.ofNat db.blob.length] }

def build (files : Files) : Except IoError Db := do
  let status ← files.status
  let packages := Dpkg.packages status
  let entries ← (← files.info).mapM id
  return pack packages (distinct (entries.flatMap (Entry.claims (indexOf packages))))

-- An index or a slice that is out of range.
inductive Panic
  | index
  | slice

def path (db : Db) (i : Nat) : Except Panic Bytes := do
  let start ← Except.okOr .index db.offsets[i]?
  let stop ← Except.okOr .index db.offsets[i + 1]?
  Except.ensure (start.toNat ≤ stop.toNat ∧ stop.toNat ≤ db.blob.length) .slice
  return (db.blob.drop start.toNat).take (stop.toNat - start.toNat)

-- The comparison of a path with what is looked for.
def probe (db : Db) (target : String) (i : Nat) : Except Panic Ordering := do
  return compareOfLessAndEq (← db.path i) (utf8 target)

def find (db : Db) (target : String) : Except Panic (Option UInt32) := do
  match ← BinarySearch.search (db.probe target) 0 db.owners.length with
  | none   => return none
  | some i => some <$> Except.okOr .index db.owners[i]?

end Db

-- A line of a manifest.
def addSum (manifest : Manifest) (line : String) : Manifest :=
  match Text.splitOnceAt "  " line with
  | some (sum, file) => manifest.insert ("/" ++ file) sum
  | none             => manifest

-- The checksums that a package lists, or none if they cannot be read.
def readManifest (files : Files) (package : String) : Manifest :=
  match files.md5sums package with
  | .error _ => ∅
  | .ok text => (Text.lines text).foldl addSum ∅

namespace Db

-- A manifest is read once.
def manifest (files : Files) (db : Db) (package : String) : Manifest × Db :=
  match db.md5.lookup package with
  | some manifest => (manifest, db)
  | none          =>
    let manifest := readManifest files package
    (manifest, { db with md5 := db.md5.insert package manifest })

def ownershipOf (files : Files) (db : Db) (path : String) : List String → Except Panic (Option DpkgOwnership × Db)
  | []           => return (none, db)
  | cand :: rest => do
    match ← db.find cand with
    | none     => ownershipOf files db path rest
    | some idx =>
      let (package, version) ← Except.okOr .index db.packages[idx.toNat]?
      let (listed, db) := db.manifest files package
      let manifestMd5 := listed.lookup cand <|> listed.lookup path <|> listed.lookup ("/usr" ++ cand)
      return (some { package, version, manifestMd5 }, db)

def ownership (files : Files) (db : Db) (path : String) : Except Panic (Option DpkgOwnership × Db) :=
  db.ownershipOf files path [some path, stripUsrmerge path, Text.stripPrefix "/usr" path].reduceOption

end Db

-- `JLRDPKG1`
def CACHE_MAGIC : Bytes := [0x4a, 0x4c, 0x52, 0x44, 0x50, 0x4b, 0x47, 0x31]

-- A length is written with its low-order bytes only.
def packageBytes (package : String × String) : Bytes :=
  Layout.le 2 (utf8 package.1).length ++ Layout.le 2 (utf8 package.2).length ++ utf8 package.1 ++ utf8 package.2

def u32Bytes (n : UInt32) : Bytes :=
  Layout.le 4 n.toNat

def Db.writeCache (db : Db) (fp : Bytes.Fixed 32) : Bytes :=
  CACHE_MAGIC ++ fp.val ++ Layout.le 4 db.packages.length ++ db.packages.flatMap packageBytes ++
  Layout.le 4 db.owners.length ++ db.offsets.flatMap u32Bytes ++ db.owners.flatMap u32Bytes ++ db.blob

def readText (length : Nat) : Read String := do
  match fromUtf8 (← Layout.take length) with
  | some s => return s
  | none   => failure

def readPackage : Read (String × String) := do
  let nl ← Layout.number 2
  let vl ← Layout.number 2
  return (← readText nl, ← readText vl)

def readU32 : Read UInt32 := do
  return .ofNat (← Layout.number 4)

def readOwner (packages : Nat) : Read UInt32 := do
  let o ← readU32
  Layout.check (o.toNat < packages)
  return o

def readFields (fp : Bytes.Fixed 32) : Read Db := do
  Layout.check ((← Layout.take 8) = CACHE_MAGIC)
  Layout.check ((← Layout.take 32) = fp.val)
  let packages ← Layout.times readPackage (← Layout.number 4)
  let paths ← Layout.number 4
  let offsets ← Layout.times readU32 (paths + 1)
  let owners ← Layout.times (readOwner packages.length) paths
  let blob ← get
  -- The offsets are in order and within the blob.
  Layout.check (offsets.head? = some 0)
  Layout.check (offsets.getLast?.map UInt32.toNat = some blob.length)
  Layout.check (offsets.IsChain (· ≤ ·))
  return { packages, blob, offsets, owners, md5 := ∅ }

def readCache (fp : Bytes.Fixed 32) (data : Bytes) : Option Db :=
  (readFields fp data).map Prod.fst

-- The index of the cache, or one that is built from the files. The bytes that are then to be cached are given as well.
def loadCached (files : Files) (fingerprint : Except IoError (Bytes.Fixed 32)) (cache : Except IoError Bytes) :
    Except IoError (Db × Option Bytes) := do
  let fp ← fingerprint
  match cache.toOption.bind (readCache fp) with
  | some db => return (db, none)
  | none    =>
    let db ← Db.build files
    return (db, some (db.writeCache fp))

end Dpkg
