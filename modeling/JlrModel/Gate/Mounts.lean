import JlrModel.Lib.Text
import JlrModel.Lib.Utf8

-- The table of mounts, as the kernel writes it and as the gate reads it.

namespace Gate

def isOctal (b : UInt8) : Bool :=
  0x30 ≤ b ∧ b ≤ 0x37

-- Decodes the octal escapes of a mount point. Every other byte stands for itself.
def unescapeMountinfo : Bytes → Bytes
  | 0x5c :: a :: b :: c :: rest =>
    if isOctal a ∧ isOctal b ∧ isOctal c then
      .ofNat ((a - 0x30).toNat * 64 + (b - 0x30).toNat * 8 + (c - 0x30).toNat) :: unescapeMountinfo rest
    else
      0x5c :: unescapeMountinfo (a :: b :: c :: rest)
  | b :: rest                   => b :: unescapeMountinfo rest
  | []                          => []

-- The parts of a line before and after the first ` - `.
def cutSeparator : Bytes → Option (Bytes × Bytes)
  | 0x20 :: 0x2d :: 0x20 :: post => some ([], post)
  | b :: rest                    => (cutSeparator rest).map fun (pre, post) => (b :: pre, post)
  | []                           => none

-- The mount point and the type of a line.
def parseMount (line : Bytes) : Option (Bytes × String) := do
  let (pre, post) ← cutSeparator line
  let mountpoint ← (pre.splitOn 0x20)[4]?
  return (unescapeMountinfo mountpoint, Utf8.fromLossy ((post.splitOn 0x20).headD []))

def parseMountinfo (table : Bytes) : List (Bytes × String) :=
  (table.splitOn 0x0a).filterMap parseMount

def PSEUDO_FS : List String := [
  "proc", "sysfs", "cgroup", "cgroup2", "devpts", "devtmpfs", "mqueue", "debugfs", "tracefs", "securityfs", "pstore",
  "bpf", "autofs", "binfmt_misc", "configfs", "fusectl", "hugetlbfs", "rpc_pipefs", "nsfs", "efivarfs", "selinuxfs",
  "fuse.gvfsd-fuse", "fuse.portal"
]

-- Adds a mount point to the marks if it is the first one of its device.
def addMark (device : Bytes → Option UInt64) (marks : List UInt64 × List Bytes) (mount : Bytes × String) :
    List UInt64 × List Bytes :=
  if mount.2 ∈ PSEUDO_FS then marks else
  match device mount.1 with
  | none     => marks
  | some dev => if dev ∈ marks.1 then marks else (dev :: marks.1, marks.2 ++ [mount.1])

-- One mount point for each device of a real file system. Those that cannot be examined have no device here.
def discoverMarks (device : Bytes → Option UInt64) (table : Bytes) : List Bytes :=
  ((parseMountinfo table).foldl (addMark device) ([], [])).2

-- A part of a line that the kernel writes without escapes.
structure MountField where
  bytes     : Bytes
  noSpace   : 0x20 ∉ bytes
  noNewline : 0x0a ∉ bytes
  ne_dash   : bytes ≠ [0x2d]

-- A mount, with the fields of its line.
structure Mount where
  id           : Nat
  parent       : Nat
  major        : Nat
  minor        : Nat
  root         : Bytes
  mountPoint   : Bytes
  options      : MountField
  optional     : List MountField
  fsType       : Bytes
  source       : Bytes
  superOptions : { bs : Bytes // 0x0a ∉ bs }

-- How the kernel writes a name.
def escapeMountinfo (bs : Bytes) : Bytes :=
  bs.flatMap fun b =>
    if b ∈ [0x20, 0x09, 0x0a, 0x5c] then [0x5c, 0x30 + b / 64, 0x30 + b / 8 % 8, 0x30 + b % 8] else [b]

def decimal (n : Nat) : Bytes :=
  (Nat.toDigits 10 n).map fun c => .ofNat c.toNat

namespace Mount

def head (m : Mount) : List Bytes :=
  [decimal m.id, decimal m.parent, decimal m.major ++ 0x3a :: decimal m.minor, escapeMountinfo m.root,
    escapeMountinfo m.mountPoint, m.options.bytes] ++ m.optional.map MountField.bytes

def line (m : Mount) : Bytes :=
  [0x20].intercalate m.head ++ [0x20, 0x2d, 0x20] ++
  [0x20].intercalate [escapeMountinfo m.fsType, escapeMountinfo m.source, m.superOptions.val]

end Mount

def mountinfo (mounts : List Mount) : Bytes :=
  mounts.flatMap fun m => m.line ++ [0x0a]

end Gate
