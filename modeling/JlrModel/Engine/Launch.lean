import JlrModel.Cell.Sealed
import JlrModel.Measure.Observe

-- The way of a program from its path to a sealed copy that is ready to run.

open Program

-- The size up to which programs are measured and copied.
def MAX_PROGRAM : UInt64 := 512 * 1024 * 1024

-- What preparing a run meets with outside of the engine.
structure Launch where
  path    : PathIo
  dpkg    : Option DpkgDb
  now     : UInt64
  opened  : Except OpenError Unit
  measure : MeasureIo
  copy    : SealIo

variable [Crypto] [Md5]

namespace Launch

def observed (l : Launch) : Except MeasureError Observation :=
  observe l.path l.dpkg { maxSize := MAX_PROGRAM, now := l.now } l.opened l.measure

-- What copying the program comes to after it was observed.
def «sealed» (l : Launch) (obs : Observation) : Except SealError SealedExe :=
  SealedExe.seal l.copy obs.record.digest MAX_PROGRAM

-- The content that the measurement has read.
def Reads (l : Launch) (content : File) : Prop :=
  ∃ i, (l.measure.attempt i).content MAX_PROGRAM = .ok content

end Launch

namespace Engine

-- The program is copied through the descriptor that was measured, and only what is in the copy can run.
def prepareSealed (l : Launch) (args env : List String) (requested : List Capability) :
    EngineM (SealedExe × PreparedRun) := do
  let observed := l.observed.mapError MeasureError.display
  let exe : Except String SealedExe := observed.bind fun obs => (l.sealed obs).mapError SealError.display
  let run ← prepareRun observed args env requested (exe.map fun _ => ())
  let exe ← ofExcept (exe.mapError (.error ∘ .seal))
  return (exe, run)

end Engine
