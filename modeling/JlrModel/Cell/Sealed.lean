import JlrModel.Crypto.Digest
import JlrModel.Lib.File
import JlrModel.Lib.Result

-- A sealed copy of an executable in memory.

inductive SealError
  | digestMismatch (expected actual : Digest)
  | tooLarge (size : UInt64)
  | io (e : IoError)

def SealError.display : SealError → String
  | digestMismatch expected actual =>
    "content changed since it was measured: expected " ++ expected.display ++ ", read " ++ actual.display
  | tooLarge n => "executable of " ++ toString n ++ " bytes is too large to seal"
  | io e       => e

-- What copying an executable meets with. Others may change the original all the time, but not the copy.
structure SealIo where
  seek     : Except IoError Unit
  memfd    : Except IoError Unit
  source   : Reader IoError
  write    : Nat → Bytes → Except IoError Unit
  addSeals : Except IoError Unit
  rewind   : Except IoError Unit

variable [Crypto]

-- The copy can not be changed any more, and its digest is known.
structure SealedExe where
  file   : File
  digest : Digest
  size   : UInt64
  hashes : Digest.of file.data = digest

namespace SealedExe

-- Copies a file into memory, hashing while copying, and seals the copy if its digest is the expected one.
def «seal» (io : SealIo) (expected : Digest) (maxSize : UInt64) : Except SealError SealedExe := do
  io.seek.mapError .io
  io.memfd.mapError .io
  let source : Reader SealError := io.source.mapError .io
  let mem ← source.copy maxSize .tooLarge (fun i bytes => (io.write i bytes).mapError .io) 0 .empty
  let actual := Digest.of mem.data
  Except.ensure (actual = expected) (.digestMismatch expected actual)
  io.addSeals.mapError .io
  io.rewind.mapError .io
  return { file := mem, digest := actual, size := .ofNat mem.data.length, hashes := rfl }

end SealedExe
