import JlrModel.Cell.Spec
import JlrModel.Model.Decision

-- One isolation control.
inductive Control
  | userNs | mountNs | pidNs | ipcNs | utsNs | netNs | noNewPrivs | capDrop | seccomp | landlockFs
  | landlockNet | rlimits | cgroup
  deriving DecidableEq

def Control.asStr : Control → String
  | userNs      => "user-ns"
  | mountNs     => "mount-ns"
  | pidNs       => "pid-ns"
  | ipcNs       => "ipc-ns"
  | utsNs       => "uts-ns"
  | netNs       => "net-ns"
  | noNewPrivs  => "no-new-privs"
  | capDrop     => "cap-drop"
  | seccomp     => "seccomp"
  | landlockFs  => "landlock-fs"
  | landlockNet => "landlock-net"
  | rlimits     => "rlimits"
  | cgroup      => "cgroup"

inductive CellError
  | notRunnable (state : AdmissionState)
  | unsupported (what : String)
  | refused (report : EnforcementReport)
  | setup (what : String)
  | io (e : String)

-- What a cell may use at most.
structure Limits where
  memoryBytes : Option UInt64
  pidsMax     : Option UInt64
  cpuSecs     : Option UInt64
  wallSecs    : Option UInt64
  nofile      : Option UInt64

namespace CellSpec

-- The limits of a cell, and the size of its temporary file system.
def limits : CellClass → Except CellError (Limits × UInt64)
  | .cell0 => .ok ({
      memoryBytes := some ((512 : UInt64) <<< 20)
      pidsMax     := some 64
      cpuSecs     := some 120
      wallSecs    := some 600
      nofile      := some 256
    }, 16)
  | .cell1 => .ok ({
      memoryBytes := some ((2 : UInt64) <<< 30)
      pidsMax     := some 512
      cpuSecs     := none
      wallSecs    := none
      nofile      := some 1024
    }, 128)
  | .cell2 => .ok ({
      memoryBytes := none
      pidsMax     := none
      cpuSecs     := none
      wallSecs    := none
      nofile      := some 65536
    }, 512)
  | cell   => .error <| .unsupported (Coded.asStr cell ++ " components are not launched through cells")

def mandatoryControls (network : NetworkMode) : List Control :=
  ([.mountNs, .pidNs, .noNewPrivs, .capDrop, .seccomp] : List Control) ++
  (if network = .none ∨ network = .loopbackOnly then [.netNs] else []) ++
  (if network = .destinationAllowlist then [.landlockNet] else [])

-- The name of the program after the last slash, as far as it may stand in a host name.
def hostName (argv : List String) : String :=
  let name := argv.head?.getD ""
  let last := name.toList.reverse.takeWhile (· ≠ '/') |>.reverse
  "cell-" ++ .ofList ((last.filter Char.isAlphanum).take 20)

-- Derives the jail for a decision.
def fromDecision (d : Decision) (argv env : List String) : Except CellError CellSpec := do
  Except.ensure (d.state = .observed ∨ d.state = .verified ∨ d.state = .admitted) (.notRunnable d.state)
  Except.ensure (d.state = .observed → d.cell = .cell0) (.unsupported "observed artifacts run only in CELL-0")
  let (limits, tmpMib) ← limits d.cell
  Except.ensure (d.network ≠ .mediatedProxy ∧ d.network ≠ .privilegedNetwork)
    (.unsupported ("network mode " ++ Coded.asStr d.network ++ " is not implemented"))
  return {
    cls          := d.cell
    network      := d.network
    capabilities := d.capabilities
    memoryBytes  := limits.memoryBytes
    pidsMax      := limits.pidsMax
    cpuSecs      := limits.cpuSecs
    wallSecs     := limits.wallSecs
    nofile       := limits.nofile
    tmpMib
    hostname     := hostName argv
    mandatory    := (mandatoryControls d.network).map Control.asStr
    env, argv
  }

end CellSpec
