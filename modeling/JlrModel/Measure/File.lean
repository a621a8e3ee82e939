import JlrModel.Crypto.Digest
import JlrModel.Engine.Process
import JlrModel.Lib.File

-- Measurement of a file through the descriptor that will be used.

-- The checksums of the package manager are compared, but nothing rests on them.
class Md5 where
  md5 (data : Bytes) : Bytes.Fixed 16

deriving instance DecidableEq for Stamp

-- What a descriptor says about its file.
structure FileStat extends Metadata where
  isFile : Bool
  mode   : UInt32

def Stamp.of (m : Metadata) : Stamp where
  size    := m.len
  mtimeNs := nowNs m.mtime m.mtimeNsec
  ctimeNs := nowNs m.ctime m.ctimeNsec
  ino     := m.ino
  dev     := m.dev

-- What was measured through a descriptor.
structure Measured where
  -- The state of the file before it was hashed.
  stamp  : Stamp
  digest : Digest
  size   : UInt64
  mode   : UInt32
  -- The first bytes of the file, for its class.
  head   : Bytes
  md5Hex : Option String

inductive MeasureError
  | symlink
  | notRegular
  | tooLarge (size : UInt64)
  | changedWhileReading
  | io (e : IoError)

def MeasureError.display : MeasureError → String
  | symlink             => "path is a symbolic link"
  | notRegular          => "not a regular file"
  | tooLarge n          => "file of " ++ toString n ++ " bytes exceeds the size limit"
  | changedWhileReading => "file changed while it was being measured"
  | io e                => e

def HEAD_LEN : Nat := 64

-- Files up to this size get a second attempt.
def RETRY_UP_TO : UInt64 := 16 * 1024 * 1024

-- What one attempt at a measurement meets with. Others may change the file all the time.
structure Attempt where
  before : Except IoError FileStat
  seek   : Except IoError Unit
  source : Reader IoError
  after  : Except IoError FileStat
  rewind : Except IoError Unit

-- The size that is looked at first, and the attempts.
structure MeasureIo where
  size    : Except IoError UInt64
  attempt : Nat → Attempt

-- How opening a file can fail. A symbolic link is not followed.
inductive OpenError
  | loop
  | other (e : IoError)

def OpenError.toMeasure : OpenError → MeasureError
  | loop    => .symlink
  | other e => .io e

variable [Crypto] [Md5]

-- The bytes that an attempt reads, up to a limit.
def Attempt.content (a : Attempt) (maxSize : UInt64) : Except MeasureError File :=
  (a.source.mapError MeasureError.io).copy maxSize .tooLarge (fun _ _ => .ok ()) 0 .empty

-- Hashes a file from its start and rewinds it. The state of the file must be the same before and after.
def measureInner (a : Attempt) (maxSize : UInt64) (wantMd5 : Bool) : Except MeasureError Measured := do
  let before ← a.before.mapError .io
  Except.ensure before.isFile .notRegular
  let stamp := Stamp.of before.toMetadata
  Except.ensure (before.len ≤ maxSize) (.tooLarge before.len)
  a.seek.mapError .io
  let content ← a.content maxSize
  let total := UInt64.ofNat content.data.length
  let after ← a.after.mapError .io
  Except.ensure (Stamp.of after.toMetadata = stamp ∧ after.len = total) .changedWhileReading
  a.rewind.mapError .io
  return {
    stamp
    digest := Digest.of content.data
    size   := total
    mode   := before.mode
    head   := content.data.take HEAD_LEN
    md5Hex := if wantMd5 then some (Text.hex (Md5.md5 content.data).val) else none
  }

-- The attempts from the `i`th on. Only a file that has changed is measured again.
def measureAttempts (io : MeasureIo) (maxSize : UInt64) (wantMd5 : Bool) : (attempts i : Nat) →
    Except MeasureError Measured
  | 0, _            => .error .changedWhileReading
  | attempts + 1, i =>
    match measureInner (io.attempt i) maxSize wantMd5 with
    | .error .changedWhileReading => measureAttempts io maxSize wantMd5 attempts (i + 1)
    | other                       => other

-- A large file is read only once, so that touching it does not multiply the work.
def MeasureIo.attempts (io : MeasureIo) : Nat :=
  match io.size with
  | .ok len  => if len ≤ RETRY_UP_TO then 2 else 1
  | .error _ => 1

def measureFileStable (io : MeasureIo) (maxSize : UInt64) (wantMd5 : Bool) : Except MeasureError Measured :=
  measureAttempts io maxSize wantMd5 io.attempts 0

def openMeasured (opened : Except OpenError Unit) (io : MeasureIo) (maxSize : UInt64) (wantMd5 : Bool) :
    Except MeasureError Measured := do
  opened.mapError OpenError.toMeasure
  measureFileStable io maxSize wantMd5
