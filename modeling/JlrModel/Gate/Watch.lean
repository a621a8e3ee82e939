import JlrModel.Gate.Mounts

-- The thread that marks file systems again whenever the table of mounts has changed.

namespace Gate

-- What is mounted, each mount with its superblock, and the superblocks that paths lead to, as far as they can be
-- examined. A device number is only ever that of one superblock at a time, but it is used again for another one later.
structure MountNs where
  mounts  : List (Mount × Nat)
  resolve : Bytes → Option Nat
  dev     : Nat → UInt64
  named   : ∀ m ∈ mounts, m.1.root ≠ [0x2d] ∧ m.1.mountPoint ≠ [0x2d]
  mounted : ∀ path sb, resolve path = some sb → sb ∈ mounts.map Prod.snd
  dev_inj : ∀ sb ∈ mounts.map Prod.snd, ∀ sb' ∈ mounts.map Prod.snd, dev sb = dev sb' → sb = sb'

namespace MountNs

def device (ns : MountNs) (path : Bytes) : Option UInt64 :=
  (ns.resolve path).map ns.dev

def table (ns : MountNs) : Bytes :=
  mountinfo (ns.mounts.map Prod.fst)

-- A mount of a real file system that its mount point leads to.
structure Visible (ns : MountNs) (m : Mount) (sb : Nat) : Prop where
  mounted : (m, sb) ∈ ns.mounts
  real    : Utf8.fromLossy (escapeMountinfo m.fsType) ∉ PSEUDO_FS
  leads   : ns.resolve m.mountPoint = some sb

end MountNs

-- Where the thread is: what it has still to examine with what it has found, or what it has still to mark.
inductive Pass
  | waiting
  | reading
  | examining (left : List (Bytes × String)) (found : List UInt64 × List Bytes)
  | marking (left : List Bytes)

-- A change is reported by the first poll after it and not again.
structure Watch where
  ns      : MountNs
  changed : Bool
  retry   : Bool
  pass    : Pass
  marked  : List Nat
  refused : List Nat

namespace Watch

inductive Actor
  | kernel | thread | failure
  deriving DecidableEq

inductive Step : Actor → Watch → Watch → Prop
  -- A mark belongs to a superblock and disappears with it.
  | change (ns : MountNs) :
    Step .kernel s { s with ns, changed := true, marked := s.marked.filter (· ∈ ns.mounts.map Prod.snd) }
  | poll : s.pass = .waiting →
    Step .thread s { s with pass := if s.changed ∨ s.retry then .reading else .waiting, changed := false }
  -- If there is a change while the table is read, it may be read in part before and in part after.
  | read (bytes : Bytes) : s.pass = .reading → (s.changed = false → bytes = s.ns.table) →
    Step .thread s { s with pass := .examining (parseMountinfo bytes) ([], []) }
  | unreadable : s.pass = .reading → Step .failure s { s with pass := .waiting, retry := true }
  | examine : s.pass = .examining (m :: left) found →
    Step .thread s { s with pass := .examining left (addMark s.ns.device found m) }
  | examined : s.pass = .examining [] found →
    Step .thread s { s with pass := .marking found.2, retry := false, refused := [] }
  | mark : s.pass = .marking (path :: left) → s.ns.resolve path = some sb →
    Step .thread s { s with pass := .marking left, marked := sb :: s.marked }
  | refuse : s.pass = .marking (path :: left) →
    Step .thread s { s with pass := .marking left, refused := (s.ns.resolve path).toList ++ s.refused }
  | done : s.pass = .marking [] → Step .thread s { s with pass := .waiting }

-- The thread starts with a pass, whatever was marked before.
structure Starts (s : Watch) : Prop where
  pass  : s.pass = .waiting
  retry : s.retry

inductive Runs (start : Watch) : Watch → Prop
  | start : Runs start start
  | step : Runs start s → Step a s s' → Runs start s'

-- Nothing is left to do.
structure AtRest (s : Watch) : Prop where
  pass    : s.pass = .waiting
  changed : s.changed = false
  retry   : s.retry = false

end Watch

end Gate
