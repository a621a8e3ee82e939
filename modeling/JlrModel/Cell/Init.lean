import JlrModel.Cell.Derive
import Mathlib.Data.List.Sort

-- How a cell is established from inside, and what is reported of it.

namespace Control

-- Every control, in the order of a report.
def ALL : List Control :=
  [.userNs, .mountNs, .pidNs, .ipcNs, .utsNs, .netNs, .noNewPrivs, .capDrop, .seccomp, .landlockFs, .landlockNet,
    .rlimits, .cgroup]

def parse (s : String) : Option Control :=
  ALL.find? (·.asStr = s)

def le (a b : Control) : Bool :=
  ALL.idxOf a ≤ ALL.idxOf b

end Control

namespace CellSpec

-- The controls that a specification asks for.
def requestedControls (spec : CellSpec) : List Control :=
  ([.mountNs, .pidNs, .ipcNs, .utsNs, .noNewPrivs, .capDrop, .seccomp, .landlockFs, .rlimits] : List Control) ++
  (if spec.network = .none ∨ spec.network = .loopbackOnly then [.netNs] else []) ++
  (if spec.network = .destinationAllowlist then [.landlockNet] else []) ++
  (if spec.memoryBytes.isSome ∨ spec.pidsMax.isSome then [.cgroup] else [])

-- The mandatory controls, parsed back.
def parsedMandatory (spec : CellSpec) : List Control :=
  spec.mandatory.filterMap Control.parse

def ports (spec : CellSpec) : List UInt16 × List UInt16 where
  fst := spec.capabilities.filterMap fun | .netConnect _ p => some p | _ => none
  snd := spec.capabilities.filterMap fun | .netListen _ p => some p | _ => none

end CellSpec

-- Accumulates what was established and what was not.
structure Builder where
  spec          : CellSpec
  active        : List Control
  unavailable   : List (Control × String)
  landlockAbi   : Option UInt32
  seccompDenied : UInt32
  skipped       : List String

namespace Builder

def new (spec : CellSpec) (landlockAbi : Option UInt32) : Builder where
  spec          := spec
  active        := []
  unavailable   := []
  landlockAbi   := landlockAbi
  seccompDenied := 0
  skipped       := []

def ok (b : Builder) (c : Control) : Builder :=
  if c ∈ b.active then b else { b with active := b.active ++ [c] }

def fail (b : Builder) (c : Control) (why : String) : Builder :=
  { b with unavailable := b.unavailable ++ [(c, why)] }

-- Notes how the one step for a control has gone.
def result (b : Builder) (c : Control) : Except String Unit → Builder
  | .ok ()   => b.ok c
  | .error e => b.fail c e

def missingMandatory (b : Builder) : List Control :=
  b.spec.parsedMandatory.filter (· ∉ b.active)

-- The requested controls that no step has said anything about.
def notEstablished (b : Builder) : List Control :=
  b.spec.requestedControls.filter fun c => c ∉ b.active ∧ ¬ b.unavailable.any (·.1 = c)

def finish (b : Builder) (kernel : String) : EnforcementReport where
  kernel           := kernel
  requested        := b.spec.requestedControls.map Control.asStr
  active           := (b.active.insertionSort (Control.le · ·)).map Control.asStr
  unavailable      :=
    b.unavailable.map (fun u => u.1.asStr ++ ": " ++ u.2) ++
    b.notEstablished.map (fun c => c.asStr ++ ": not established") ++
    b.skipped.map ("capability: " ++ ·)
  mandatoryMissing := b.missingMandatory.map Control.asStr
  status           :=
    if b.missingMandatory ≠ [] then .refused
    else if b.spec.requestedControls.all (· ∈ b.active) ∧ b.skipped = [] then .full
    else .partly
  landlockAbi      := b.landlockAbi
  seccompDenied    := b.seccompDenied

end Builder

inductive Resource
  | core | nofile | cpu

-- The private root. A grant that can not be applied is skipped.
structure Layout where
  write   : List String
  skipped : List String

structure LandlockPlan where
  write : List String
  tcp   : Option (List UInt16 × List UInt16)

structure LandlockOutcome where
  fs  : Bool
  net : Bool

-- How the steps that are made from inside the cell go.
structure Stage2Io where
  kernel           : String
  landlockAbi      : Option UInt32
  pid              : UInt32
  noNewPrivs       : Except String Unit
  hostname         : String → Except String Unit
  cgroup           : CellSpec → String → Except String Unit
  buildRoot        : CellSpec → Except String Layout
  rlimit           : Resource → UInt64 → Except String Unit
  landlock         : LandlockPlan → Except String LandlockOutcome
  dropCapabilities : Bool → Except String Unit
  filters          : Except String UInt32
  install          : Except String Unit

-- The report that is sent, and whether the program is started.
structure Stage2 where
  report   : EnforcementReport
  executes : Bool

namespace Stage2

variable (io : Stage2Io) (spec : CellSpec) (nsNote : String)

def usedUserNs : Bool := nsNote.toList.head? = some 'u'
def usedNetNs  : Bool := nsNote.toList.getLast? = some 'n'

def needsCgroup : Bool := spec.memoryBytes.isSome ∨ spec.pidsMax.isSome

-- Whether every limit that is asked for is set.
def limited : Bool :=
  (io.rlimit .core 0).isOk ∧ (spec.nofile.all fun n => (io.rlimit .nofile n).isOk) ∧
    (spec.cpuSecs.all fun s => (io.rlimit .cpu s).isOk)

def plan (layout : Layout) : LandlockPlan where
  write := layout.write
  tcp   := if spec.network = .destinationAllowlist then some spec.ports else none

-- Why no rules for the network are enforced.
def noTcp : Option UInt32 → String
  | some v =>
    if 4 ≤ v then
      "TCP rules were not fully enforced (kernel ABI " ++ toString v ++ ")"
    else
      "kernel Landlock ABI " ++ toString v ++ " has no TCP rules (needs 4)"
  | none   => "Landlock is not available"

-- The steps before the root is replaced. The namespaces were made before, outside of the cell.
def enter (cgroupName : String) (b : Builder) : Builder :=
  let b := if usedUserNs nsNote then b.ok .userNs else b
  let b := b.ok .ipcNs
  let b := b.ok .utsNs
  let b := if io.pid = 1 then b.ok .pidNs else b.fail .pidNs "helper is not PID 1 of a new namespace"
  let b := if usedNetNs nsNote then b.ok .netNs else b
  let b := b.result .noNewPrivs io.noNewPrivs
  let b := match io.hostname spec.hostname with
    | .ok ()   => b
    | .error e => b.fail .utsNs ("sethostname: " ++ e)
  if needsCgroup spec then b.result .cgroup (io.cgroup spec cgroupName) else b

def landlock (plan : LandlockPlan) (b : Builder) : Builder :=
  match io.landlock plan with
  | .ok o    =>
    let b := if o.fs then b.ok .landlockFs else b.fail .landlockFs "kernel does not enforce Landlock"
    if plan.tcp.isSome then
      if o.net then b.ok .landlockNet else b.fail .landlockNet (noTcp b.landlockAbi)
    else
      b
  | .error e =>
    let b := b.fail .landlockFs e
    if plan.tcp.isSome then b.fail .landlockNet e else b

def seccomp (b : Builder) : Builder :=
  match io.filters with
  | .ok denied => { b with seccompDenied := denied }.result .seccomp io.install
  | .error e   => b.fail .seccomp e

-- The steps in the new root.
def confine (layout : Layout) (b : Builder) : Builder :=
  let b := b.ok .mountNs
  let b := { b with skipped := b.skipped ++ layout.skipped }
  let b := if limited io spec then b.ok .rlimits else b.fail .rlimits "setrlimit failed"
  let b := landlock io (plan spec layout) b
  let b := b.result .capDrop (io.dropCapabilities (! usedUserNs nsNote))
  seccomp io b

end Stage2

-- Establishes the cell around its own process, and starts the program unless a mandatory control is missing.
def stage2 (io : Stage2Io) (spec : CellSpec) (nsNote cgroupName : String) : Stage2 :=
  let b := Stage2.enter io spec nsNote cgroupName (.new spec io.landlockAbi)
  match io.buildRoot spec with
  | .error e   => ⟨(b.fail .mountNs e).finish io.kernel, false⟩
  | .ok layout =>
    let report := (Stage2.confine io spec nsNote layout b).finish io.kernel
    ⟨report, report.status ≠ .refused⟩
