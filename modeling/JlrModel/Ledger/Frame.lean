import JlrModel.Crypto.Digest
import JlrModel.Lib.File

-- Upper bound on one framed record, which guards against corrupt lengths.
def MAX_FRAME : Nat := 2 ^ 20

-- The size of a frame header, a length and a check on that length.
def HEADER : Nat := 8

inductive LedgerError
  | io (e : IoError)
  | locked
  | corrupt (seq : UInt64) (reason : String)
  | truncated (committed found : UInt64)
  | forked (size : UInt64)
  | empty
  deriving DecidableEq

variable [Crypto]

def frameHeader (len : UInt32) : Bytes :=
  let be := Bytes.ofNat 4 len.toNat
  be ++ (Digest.ofParts "JLR-frame" [be]).bytes.val.take 4

-- The length field has 32 bits, whatever the length of the envelope is.
def frame (envelope : Bytes) : Bytes :=
  frameHeader (.ofNat envelope.length) ++ envelope

-- Takes frames from the front of `data`, which comes after `count` frames, up to the bytes that do not
-- make up a whole frame.
def takeFrames (count : Nat) (data : Bytes) : Except LedgerError (List Bytes × Bytes) :=
  if data.length < HEADER then
    .ok ([], data)
  else
    let len := UInt32.ofNat (Bytes.toNat (data.take 4))
    if data.take HEADER ≠ frameHeader len then
      .error <| .corrupt (.ofNat count) "frame header check failed"
    else if len = 0 ∨ MAX_FRAME < len.toNat then
      .error <| .corrupt (.ofNat count) ("implausible frame length " ++ toString len)
    else if data.length - HEADER < len.toNat then
      .ok ([], data)
    else
      match takeFrames (count + 1) (data.drop (HEADER + len.toNat)) with
      | .error e            => .error e
      | .ok (frames, rest)  => .ok ((data.drop HEADER).take len.toNat :: frames, rest)
termination_by data.length
decreasing_by simp only [HEADER, List.length_drop] at *; omega

-- The complete frames of a log, the number of bytes that they cover and the number of bytes after them.
def splitFrames (data : Bytes) : Except LedgerError (List Bytes × Nat × UInt64) := do
  let (frames, rest) ← takeFrames 0 data
  let pos := data.length - rest.length
  return (frames, pos, .ofNat (data.length - pos))
