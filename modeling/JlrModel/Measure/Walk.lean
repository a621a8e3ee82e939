import JlrModel.Cbor.Decode
import JlrModel.Lib.Worklist
import JlrModel.Measure.Classify
import JlrModel.Measure.File

-- Traversal of directories that never follows a symbolic link.

-- The components of an absolute path.
abbrev PathBuf := List Bytes

inductive FileType
  | symlink | dir | file | other
  deriving DecidableEq

structure EntryMeta where
  type : FileType
  dev  : UInt64
  mode : UInt32

-- What a traversal meets with. Every path is looked at once at most, so others may change the tree all the time.
structure FileTree where
  lstat   : PathBuf → Except IoError EntryMeta
  -- The entries that can be read, if the directory can.
  readDir : PathBuf → Option (List Bytes)
  -- The first bytes, or none if the file can not be opened any more.
  head    : PathBuf → Bytes

structure WalkOptions where
  oneFileSystem : Bool
  exclude       : List PathBuf
  maxDepth      : Nat
  governedOnly  : Bool

namespace WalkOptions

def default : WalkOptions where
  oneFileSystem := true
  exclude       := [["proc"], ["sys"], ["dev"], ["run"], ["tmp", ".X11-unix"]].map (·.map Cbor.utf8)
  maxDepth      := 64
  governedOnly  := true

-- `Path::starts_with`
def excludes (opts : WalkOptions) (dir : PathBuf) : Bool :=
  opts.exclude.any (·.isPrefixOf dir)

end WalkOptions

def isGoverned (cls : ArtifactClass) : Bool :=
  cls ∉ [.other, .dataset, .config, .key]

-- A name as text, as far as it is UTF-8.
def FileName.of (name : Bytes) : FileName :=
  match Cbor.fromUtf8 name with
  | some s => ⟨s, true⟩
  | none   => ⟨"", false⟩

namespace Walk

variable (fs : FileTree) (opts : WalkOptions) (dev : UInt64)

-- Whether a directory is entered, and whether a file is listed.
def enters (depth : Nat) (m : EntryMeta) : Bool :=
  depth < opts.maxDepth ∧ (opts.oneFileSystem → m.dev = dev)

def lists (path : PathBuf) (name : Bytes) (m : EntryMeta) : Bool :=
  opts.governedOnly → isGoverned (classify ((fs.head path).take HEAD_LEN) (some (.of name)) m.mode)

-- One entry of a directory.
def entry (dir : PathBuf) (depth : Nat) (found : List (PathBuf × Nat) × List PathBuf) (name : Bytes) :
    List (PathBuf × Nat) × List PathBuf :=
  let path := dir ++ [name]
  match fs.lstat path with
  | .error _ => found
  | .ok m    =>
    match m.type with
    | .symlink => found
    | .dir     => if enters opts dev depth m then (found.1 ++ [(path, depth + 1)], found.2) else found
    | .file    => if lists fs opts path name m then (found.1, found.2 ++ [path]) else found
    | .other   => found

-- One directory from the top of the stack, with the directories that go on it and the files that are listed.
def turn (d : PathBuf × Nat) : List (PathBuf × Nat) × List PathBuf :=
  if opts.excludes d.1 then
    ([], [])
  else
    match fs.readDir d.1 with
    | none       => ([], [])
    | some names => (names.mergeSort (· ≤ ·)).foldl (entry fs opts dev d.1 d.2) ([], [])

variable {fs opts dev} {dir : PathBuf} {depth : Nat} {found : List (PathBuf × Nat) × List PathBuf} {names : List Bytes}

-- What the entries of a directory give.
def subdir? (fs : FileTree) (opts : WalkOptions) (dev : UInt64) (dir : PathBuf) (depth : Nat) (name : Bytes) :
    Option (PathBuf × Nat) :=
  match fs.lstat (dir ++ [name]) with
  | .ok m    => if m.type = .dir ∧ enters opts dev depth m then some (dir ++ [name], depth + 1) else none
  | .error _ => none

def file? (fs : FileTree) (opts : WalkOptions) (dir : PathBuf) (name : Bytes) : Option PathBuf :=
  match fs.lstat (dir ++ [name]) with
  | .ok m    => if m.type = .file ∧ lists fs opts (dir ++ [name]) name m then some (dir ++ [name]) else none
  | .error _ => none

theorem entry_eq {name : Bytes} : entry fs opts dev dir depth found name =
    (found.1 ++ (subdir? fs opts dev dir depth name).toList, found.2 ++ (file? fs opts dir name).toList) := by
  cases h : fs.lstat (dir ++ [name])
  case error => simp [entry, subdir?, file?, h]
  case ok m =>
    cases ht : m.type <;> simp only [entry, subdir?, file?, h, ht, reduceCtorEq, false_and, true_and, if_false]
    case symlink => simp
    case dir => split_ifs <;> simp
    case file => split_ifs <;> simp
    case other => simp

theorem foldl_entry : names.foldl (entry fs opts dev dir depth) found =
    (found.1 ++ names.filterMap (subdir? fs opts dev dir depth), found.2 ++ names.filterMap (file? fs opts dir)) := by
  induction names generalizing found
  case nil => simp
  case cons name names ih =>
    rw [List.foldl_cons, ih, entry_eq, List.filterMap_cons, List.filterMap_cons]
    cases subdir? fs opts dev dir depth name <;> cases file? fs opts dir name <;> simp

-- The entries of a directory that is looked into, in their order.
def entries (fs : FileTree) (opts : WalkOptions) (dir : PathBuf) : List Bytes :=
  if opts.excludes dir then [] else ((fs.readDir dir).getD []).mergeSort (· ≤ ·)

theorem turn_eq (d : PathBuf × Nat) : turn fs opts dev d =
    ((entries fs opts d.1).filterMap (subdir? fs opts dev d.1 d.2),
      (entries fs opts d.1).filterMap (file? fs opts d.1)) := by
  unfold turn entries
  split
  case isTrue => rfl
  case isFalse =>
    cases fs.readDir d.1
    case none => simp
    case some names => simp only [foldl_entry, List.nil_append, Option.getD_some]

theorem subdir?_eq_some {name : Bytes} {d : PathBuf × Nat} : subdir? fs opts dev dir depth name = some d ↔
    ∃ m, fs.lstat (dir ++ [name]) = .ok m ∧ m.type = .dir ∧ enters opts dev depth m ∧
      d = (dir ++ [name], depth + 1) := by
  unfold subdir?
  cases fs.lstat (dir ++ [name])
  case error => simp
  case ok m =>
    simp only [Option.ite_none_right_eq_some, Option.some.injEq, Except.ok.injEq, exists_eq_left', and_assoc]
    exact ⟨fun ⟨ht, he, hd⟩ => ⟨ht, he, hd.symm⟩, fun ⟨ht, he, hd⟩ => ⟨ht, he, hd.symm⟩⟩

theorem file?_eq_some {name : Bytes} {path : PathBuf} : file? fs opts dir name = some path ↔
    ∃ m, fs.lstat (dir ++ [name]) = .ok m ∧ m.type = .file ∧ lists fs opts path name m ∧ path = dir ++ [name] := by
  unfold file?
  cases fs.lstat (dir ++ [name])
  case error => simp
  case ok m =>
    simp only [Option.ite_none_right_eq_some, Option.some.injEq, Except.ok.injEq, exists_eq_left']
    constructor
    · rintro ⟨⟨ht, hl⟩, rfl⟩
      exact ⟨ht, hl, rfl⟩
    · rintro ⟨ht, hl, rfl⟩
      exact ⟨⟨ht, hl⟩, rfl⟩

-- Directories are only entered down to a depth.
def search (fs : FileTree) (opts : WalkOptions) (dev : UInt64) : Search (PathBuf × Nat) PathBuf where
  turn         := turn fs opts dev
  rank d       := opts.maxDepth - d.2
  falls d c hc := by
    rw [turn_eq] at hc
    obtain ⟨name, _, hs⟩ := List.mem_filterMap.mp hc
    obtain ⟨m, _, _, he, rfl⟩ := subdir?_eq_some.mp hs
    have hd := (of_decide_eq_true he).left
    dsimp only
    omega

end Walk

-- The regular files below a directory, in the order of their paths.
def walk (fs : FileTree) (root : PathBuf) (opts : WalkOptions) : Except IoError (List PathBuf) := do
  let m ← fs.lstat root
  return ((Walk.search fs opts m.dev).loop [(root, 0)] []).mergeSort (· ≤ ·)

-- The options of a scan, which adds directories to those that are never looked into.
def WalkOptions.scanning (oneFileSystem : Bool) (exclude : List PathBuf) : WalkOptions :=
  { WalkOptions.default with oneFileSystem, exclude := WalkOptions.default.exclude ++ exclude }

-- The governed files below some directories.
def listArtifacts (fs : FileTree) (roots : List PathBuf) (oneFileSystem : Bool) (exclude : List PathBuf) :
    Except IoError (List PathBuf) :=
  roots.foldlM (fun all root => do return all ++ (← walk fs root (.scanning oneFileSystem exclude))) []
