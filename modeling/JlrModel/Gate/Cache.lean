import JlrModel.Lib.Saturating

-- The answers that the gate remembers.

namespace Gate

-- The device and the inode of a file.
abbrev FileKey := UInt64 × UInt64

structure FileMeta where
  dev       : UInt64
  ino       : UInt64
  len       : UInt64
  mtime     : Int64
  mtimeNsec : Int64
  ctime     : Int64
  ctimeNsec : Int64
  deriving DecidableEq

namespace FileMeta

def key (m : FileMeta) : FileKey :=
  (m.dev, m.ino)

-- The size and the two times in nanoseconds, as far as these fit.
def stamp (m : FileMeta) : UInt64 × Int64 × Int64 :=
  (m.len, m.mtime * 1000000000 + m.mtimeNsec, m.ctime * 1000000000 + m.ctimeNsec)

end FileMeta

-- The monotonic clock and the clock on the wall, in nanoseconds. The seconds of the latter are a signed number.
structure Clock where
  mono    : Nat
  wall    : Nat
  wall_lt : wall < 2 ^ 63 * 10 ^ 9

namespace Clock

-- Neither clock goes backwards, but they need not advance by the same amount.
structure Le (c c' : Clock) : Prop where
  mono : c.mono ≤ c'.mono
  wall : c.wall ≤ c'.wall

instance : LE Clock := ⟨Le⟩

def wallSecs (c : Clock) : UInt64 :=
  .ofNat (c.wall / 10 ^ 9)

end Clock

structure CacheEntry where
  stamp      : UInt64 × Int64 × Int64
  generation : Nat
  allow      : Bool
  expires    : Nat
  validUntil : UInt64
  deriving DecidableEq

-- Whether the answer is still the one for this file.
def CacheEntry.answers (c : CacheEntry) (stamp : UInt64 × Int64 × Int64) (generation now : Nat) : Bool :=
  c.stamp = stamp ∧ c.generation = generation ∧ now < c.expires

-- Whether a file may run though nobody measures it now.
def CacheEntry.knownGood (c : CacheEntry) (stamp : UInt64 × Int64 × Int64) (generation : Nat) (now : UInt64) : Bool :=
  c.stamp = stamp ∧ c.generation = generation ∧ c.allow ∧ now < c.validUntil

-- The answer for a user who has used up the time for measurements.
def throttledAnswer (entry : Option CacheEntry) (stamp : UInt64 × Int64 × Int64) (generation : Nat) (now : UInt64)
    (enforcing : Bool) : Bool :=
  entry.any (·.knownGood stamp generation now) || ! enforcing

end Gate
