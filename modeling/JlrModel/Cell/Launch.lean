import JlrModel.Cell.Init
import JlrModel.Cell.Sealed
import JlrModel.Lib.SortedMap
import JlrModel.Lib.Text
import Mathlib.Data.String.Basic

-- How a cell is started: the launcher, the two stages of its helper, and the pipe between them.

open Cbor

namespace Cell

-- `u8::from_str_radix` for two characters, which may begin with a sign.
def hexByte (hi lo : Char) : Option UInt8 :=
  if hi = '+' then
    (Text.toDigit lo).map .ofNat
  else do
    return .ofNat ((← Text.toDigit hi) * 16 + (← Text.toDigit lo))

def hexBytes : List Char → Option Bytes
  | hi :: lo :: rest => do return (← hexByte hi lo) :: (← hexBytes rest)
  | _                => some []

def unhex (s : String) : Option Bytes :=
  if Text.len s % 2 ≠ 0 ∨ ¬ Text.isAscii s then none else hexBytes s.toList

-- A specification on the command line of the helper.
def encodeSpec (spec : CellSpec) : String :=
  Text.hex (toCbor spec)

-- A report as it is written to the pipe.
def message (r : EnforcementReport) : Bytes :=
  let body := toCbor r
  Bytes.ofNat 4 body.length ++ body

-- The program that is started in the cell.
structure Workload where
  exe  : File
  arg0 : String
  args : List String
  env  : List (String × String)

-- Later settings of a variable replace earlier ones. What is no setting is left out.
def environment (env : List String) : List (String × String) :=
  env.filterMap (Text.splitOnce '=') |>.foldl (fun m kv => SortedMap.insert kv.1 kv.2 m) []

def workload (exe : File) (spec : CellSpec) : Workload where
  exe  := exe
  arg0 := spec.argv.head?.getD "cell"
  args := spec.argv.tail
  env  := environment spec.env

inductive Namespace
  | mount | pid | ipc | uts | net | user
  deriving DecidableEq

-- How the steps that are made outside of the cell go.
structure Stage1Io where
  kernel      : String
  landlockAbi : Option UInt32
  setsid      : Except String Unit
  euid        : UInt32
  egid        : UInt32
  unshare     : List Namespace → Except String Unit
  write       : String → String → Except String Unit
  pid         : UInt32
  currentExe  : Except String Unit
  spawn       : Except String Unit

-- What a process of the helper does.
inductive Course
  | exits (code : Nat)
  | refuses (report : EnforcementReport)
  | spawns (args : List String)
  | executes (report : EnforcementReport) (w : Workload)

-- The report of a cell that could not be established.
def refuse (b : Builder) (kernel why : String) : EnforcementReport :=
  let r := (b.fail .mountNs why).finish kernel
  { r with
    status           := .refused
    mandatoryMissing := if r.mandatoryMissing = [] then ["setup"] else r.mandatoryMissing }

namespace Stage1

variable (io : Stage1Io) (spec : CellSpec)

def useUserNs : Bool := io.euid ≠ 0
def useNetNs  : Bool := spec.network = .none ∨ spec.network = .loopbackOnly

def namespaces : List Namespace :=
  [.mount, .pid, .ipc, .uts] ++ (if useNetNs spec then [.net] else []) ++ (if useUserNs io then [.user] else [])

-- Every namespace is reported, also those that were not asked for.
def unshared (e : String) (b : Builder) : Builder :=
  ([.userNs, .mountNs, .pidNs, .ipcNs, .utsNs, .netNs] : List Control).foldl (fun b c => b.fail c ("unshare: " ++ e)) b

def mapIds : Except String Unit := do
  io.write "/proc/self/setgroups" "deny"
  io.write "/proc/self/uid_map" ("0 " ++ toString io.euid ++ " 1")
  io.write "/proc/self/gid_map" ("0 " ++ toString io.egid ++ " 1")

def nsNote : String :=
  (if useUserNs io then "u" else "-") ++ (if useNetNs spec then "n" else "-")

def cgroupName : String :=
  "jlr-cell-" ++ toString io.pid

end Stage1

open Stage1 in
-- Makes the namespaces and starts the second stage in them, as the first process of the new ones.
def stage1 (io : Stage1Io) (spec : CellSpec) (specHex : String) : Except EnforcementReport (List String) := do
  let b := Builder.new spec io.landlockAbi
  let refuse (b : Builder) (why : String) := refuse b io.kernel why
  io.setsid.mapError fun e => refuse b ("cannot detach from the controlling terminal: " ++ e)
  (io.unshare (namespaces io spec)).mapError fun e => refuse (unshared e b) ("cannot create namespaces: " ++ e)
  if useUserNs io then
    (mapIds io).mapError fun e => refuse (b.fail .userNs ("id mapping: " ++ e)) ("cannot map ids: " ++ e)
  io.currentExe.mapError fun e => refuse b ("cannot locate helper: " ++ e)
  io.spawn.mapError fun e => refuse b ("cannot start stage 2: " ++ e)
  return ["stage2", specHex, nsNote io spec, cgroupName io]

-- What starting a cell meets with, in the launcher and in the helper.
structure Launch [Crypto] where
  exe           : SealedExe
  spec          : CellSpec
  isFullySealed : Bool
  pipe          : Except String Unit
  spawn         : Except String Unit
  outer         : Stage1Io
  inner         : Stage2Io

variable [Crypto]

namespace Launch

open Stage1

def first (l : Launch) (spec : CellSpec) (specHex : String) : Course :=
  match stage1 l.outer spec specHex with
  | .error report => .refuses report
  | .ok args      => .spawns args

def second (l : Launch) (spec : CellSpec) (nsNote cgroupName : String) : Course :=
  let cell := stage2 l.inner spec nsNote cgroupName
  if cell.executes then .executes cell.report (workload l.exe.file spec) else .refuses cell.report

-- The helper, by its arguments.
def cellMain (l : Launch) : List String → Course
  | stage :: specHex :: rest =>
    match unhex specHex with
    | none       => .exits 2
    | some bytes =>
      match fromCbor CellSpec bytes with
      | .error _ => .exits 2
      | .ok spec =>
        if stage = "stage1" then l.first spec specHex
        else if stage = "stage2" then l.second spec (rest.head?.getD "--") (rest.tail.head?.getD "")
        else .exits 2
  | _ => .exits 2

-- The cell as the second stage establishes it, once the first one has come to its end.
def cell (l : Launch) : Stage2 :=
  stage2 l.inner l.spec (nsNote l.outer l.spec) (cgroupName l.outer)

-- The launcher up to the start of the helper.
def opening (l : Launch) : Except CellError Unit := do
  Except.ensure l.isFullySealed (.setup "executable is not sealed")
  l.pipe.mapError .io
  l.spawn.mapError .io

end Launch

-- What the helper does once its report is sent.
inductive Next
  | leaves
  | executes (w : Workload)

-- The processes of the helper. All of them hold the pipe, until the last one ends.
inductive Helper
  | started (args : List String)
  | sending (rest : Bytes) (next : Next)
  | executing (w : Workload)
  | ended

-- The launcher reads the length and then the report. After a refusal it waits for the helper, just as it does if there
-- is no length to read.
inductive Parent
  | length
  | body (n : Nat)
  | waiting (refusal : Option EnforcementReport)
  | done (result : Except CellError EnforcementReport)

-- What was ever written to the pipe, and how much of it was read.
structure System where
  helper  : Helper
  written : Bytes
  read    : Nat
  parent  : Parent

def System.start (l : Launch) : System :=
  match l.opening with
  | .error e => ⟨.ended, [], 0, .done (.error e)⟩
  | .ok ()   => ⟨.started ["stage1", encodeSpec l.spec], [], 0, .length⟩

namespace Parent

def afterLength (len : Bytes) : Parent :=
  let n := Bytes.toNat len
  if n = 0 ∨ 2 ^ 20 < n then .done (.error (.setup "implausible report length")) else .body n

def afterBody (body : Bytes) : Parent :=
  match fromCbor EnforcementReport body with
  | .error e   => .done (.error (.setup ("bad report: " ++ e.display)))
  | .ok report => if report.status = .refused then .waiting (some report) else .done (.ok report)

def afterWait (status : Except String String) : Option EnforcementReport → CellError
  | some report => .refused report
  | none        =>
    match status with
    | .ok st   => .setup ("cell helper exited (" ++ st ++ ") before reporting")
    | .error e => .io e

def afterFailure (e : String) : Parent → Parent
  | .length => .waiting none
  | _       => .done (.error (.io e))

end Parent

-- The parent is still reading, and expects so many bytes in all.
inductive Parent.Expects : Parent → Nat → Prop
  | length : Expects .length 4
  | body   : Expects (.body n) (4 + n)

-- Who makes a step. What nobody intends is a fault.
inductive Actor
  | helper | launcher | workload | fault
  deriving DecidableEq

inductive Step (l : Launch) : Actor → System → System → Prop
  -- The helper
  | exits : s.helper = .started args → l.cellMain args = .exits code → Step l .helper s { s with helper := .ended }
  | refuses : s.helper = .started args → l.cellMain args = .refuses report →
    Step l .helper s { s with helper := .sending (message report) .leaves }
  | spawns : s.helper = .started args → l.cellMain args = .spawns args' →
    Step l .helper s { s with helper := .started args' }
  | executes : s.helper = .started args → l.cellMain args = .executes report w →
    Step l .helper s { s with helper := .sending (message report) (.executes w) }
  | write (chunk rest : Bytes) : s.helper = .sending (chunk ++ rest) next → chunk ≠ [] → (∀ r, s.parent ≠ .done r) →
    Step l .helper s { s with helper := .sending rest next, written := s.written ++ chunk }
  | unread : s.helper = .sending rest next → rest ≠ [] → s.parent = .done r →
    Step l .helper s { s with helper := .sending [] next }
  | leave : s.helper = .sending [] .leaves → Step l .helper s { s with helper := .ended }
  | exec : s.helper = .sending [] (.executes w) → Step l .helper s { s with helper := .executing w }
  -- The launcher
  | read (k : Nat) : s.parent.Expects n → s.read < k → k ≤ n → k ≤ s.written.length →
    Step l .launcher s { s with read := k }
  | length : s.parent = .length → s.read = 4 →
    Step l .launcher s { s with parent := .afterLength (s.written.take 4) }
  | body : s.parent = .body n → s.read = 4 + n →
    Step l .launcher s { s with parent := .afterBody ((s.written.drop 4).take n) }
  | closed (e : String) : s.parent.Expects n → s.read < n → s.read = s.written.length → s.helper = .ended →
    Step l .launcher s { s with parent := s.parent.afterFailure e }
  | waited (status : Except String String) : s.parent = .waiting refusal → s.helper = .ended →
    Step l .launcher s { s with parent := .done (.error (Parent.afterWait status refusal)) }
  -- The workload
  | finish : s.helper = .executing w → Step l .workload s { s with helper := .ended }
  -- A report that can not be written is given up, and the helper goes on.
  | lose : s.helper = .sending rest next → Step l .fault s { s with helper := .sending [] next }
  | noExec : s.helper = .sending [] (.executes w) → Step l .fault s { s with helper := .ended }
  | kill : Step l .fault s { s with helper := .ended }
  | unreadable (e : String) : s.parent.Expects n → Step l .fault s { s with parent := s.parent.afterFailure e }

-- The runs of a launch by the actors that have taken part, one for each step.
inductive Runs (l : Launch) : List Actor → System → Prop
  | start : Runs l [] (.start l)
  | step  : Runs l as s → Step l a s s' → Runs l (as ++ [a]) s'

end Cell
