import Mathlib.Data.List.Infix
import JlrModel.Model.Coded

open Cbor

-- The jail class of an execution cell, from least to most authority with recovery last.
inductive CellClass
  | cell0 | cell1 | cell2 | cell3 | cellR
  deriving DecidableEq

instance : Coded CellClass where
  typeName := "CellClass"
  table    := [
    (.cell0, 0, "CELL-0"),
    (.cell1, 1, "CELL-1"),
    (.cell2, 2, "CELL-2"),
    (.cell3, 3, "CELL-3"),
    (.cellR, 4, "CELL-R")
  ]

inductive NetworkMode
  | none | loopbackOnly | destinationAllowlist | mediatedProxy | fullUserNetwork | privilegedNetwork
  deriving DecidableEq

instance : Coded NetworkMode where
  typeName := "NetworkMode"
  table    := [
    (.none,                 0, "NONE"),
    (.loopbackOnly,         1, "LOOPBACK_ONLY"),
    (.destinationAllowlist, 2, "DESTINATION_ALLOWLIST"),
    (.mediatedProxy,        3, "MEDIATED_PROXY"),
    (.fullUserNetwork,      4, "FULL_USER_NETWORK"),
    (.privilegedNetwork,    5, "PRIVILEGED_NETWORK")
  ]

-- The reasons for which a capability string is malformed, with the data that their texts quote.
inductive CapabilityError
  | notAbsolute (path : String)
  | notNormalized (path : String)
  | notCanonical (path : String)
  | badToken (kind s : String)
  | needsHostPort (what : String)
  | badPort (what : String)
  | needsArgument (name : String)
  | takesNoArgument (name : String)
  | unknown (name : String)
  deriving DecidableEq

inductive Capability
  | fsRead (path : String)
  | fsWrite (path : String)
  | netConnect (host : String) (port : UInt16)
  | netListen (host : String) (port : UInt16)
  | devAudio
  | devGpu
  | devUsb (cls : String)
  | procSpawn (epn : String)
  | ipcDbus (name : String)
  | hostServiceControl (service : String)
  | kernelModuleLoad
  | rawNetwork
  | rawBlockWrite
  deriving DecidableEq

namespace Capability

def validatePath (p : String) : Except CapabilityError String :=
  if p.toList.head? ≠ some '/' ∨ '\x00' ∈ p.toList then
    .error <| .notAbsolute p
  else if (Text.split '/' p).any fun c => c = "." ∨ c = ".." then
    .error <| .notNormalized p
  else if ['/', '/'] <:+: p.toList ∨ (1 < Text.len p ∧ p.toList.getLast? = some '/') then
    .error <| .notCanonical p
  else
    .ok p

def validateToken (kind s : String) : Except CapabilityError String :=
  if s = "" ∨ 253 < Text.len s ∨ ¬ s.toList.all fun c => c.isAlphanum ∨ c ∈ "-_.:*@".toList then
    .error <| .badToken kind s
  else
    .ok s

def splitHostport (what s : String) : Except CapabilityError (String × UInt16) := do
  let (host, port) ← Except.okOr (.needsHostPort what) (Text.rsplitOnce ':' s)
  let port ← Except.okOr (.badPort what) (Text.parseUint (2 ^ 16) port)
  return (← validateToken "host" host, .ofNat port)

def need (name : String) (arg : Option String) : Except CapabilityError String :=
  Except.okOr (.needsArgument name) arg

def none (name : String) : Option String → Except CapabilityError Unit
  | .none   => .ok ()
  | .some _ => .error <| .takesNoArgument name

-- The part of `parse` that follows the split at the first colon.
def parseNamed (name : String) (arg : Option String) : Except CapabilityError Capability := do
  match name with
  | "FS_READ"              => return .fsRead (← validatePath (← need name arg))
  | "FS_WRITE"             => return .fsWrite (← validatePath (← need name arg))
  | "NET_CONNECT"          => let (h, p) ← splitHostport name (← need name arg); return .netConnect h p
  | "NET_LISTEN"           => let (h, p) ← splitHostport name (← need name arg); return .netListen h p
  | "DEV_AUDIO"            => none name arg; return .devAudio
  | "DEV_GPU"              => none name arg; return .devGpu
  | "DEV_USB"              => return .devUsb (← validateToken "usb class" (← need name arg))
  | "PROC_SPAWN"           => return .procSpawn (← validateToken "epn" (← need name arg))
  | "IPC_DBUS"             => return .ipcDbus (← validateToken "bus name" (← need name arg))
  | "HOST_SERVICE_CONTROL" => return .hostServiceControl (← validateToken "service" (← need name arg))
  | "KERNEL_MODULE_LOAD"   => none name arg; return .kernelModuleLoad
  | "RAW_NETWORK"          => none name arg; return .rawNetwork
  | "RAW_BLOCK_WRITE"      => none name arg; return .rawBlockWrite
  | other                  => throw <| .unknown other

def parse (s : String) : Except CapabilityError Capability :=
  match Text.splitOnce ':' s with
  | some (n, a) => parseNamed n (some a)
  | .none       => parseNamed s .none

def isHighRisk : Capability → Bool
  | kernelModuleLoad | rawNetwork | rawBlockWrite | hostServiceControl _ | devUsb _ => true
  | _                                                                              => false

def display : Capability → String
  | fsRead p             => "FS_READ:" ++ p
  | fsWrite p            => "FS_WRITE:" ++ p
  | netConnect h p       => "NET_CONNECT:" ++ h ++ ":" ++ toString p.toNat
  | netListen h p        => "NET_LISTEN:" ++ h ++ ":" ++ toString p.toNat
  | devAudio             => "DEV_AUDIO"
  | devGpu               => "DEV_GPU"
  | devUsb c             => "DEV_USB:" ++ c
  | procSpawn e          => "PROC_SPAWN:" ++ e
  | ipcDbus n            => "IPC_DBUS:" ++ n
  | hostServiceControl s => "HOST_SERVICE_CONTROL:" ++ s
  | kernelModuleLoad     => "KERNEL_MODULE_LOAD"
  | rawNetwork           => "RAW_NETWORK"
  | rawBlockWrite        => "RAW_BLOCK_WRITE"

instance : Cbor Capability where
  toValue c   := .text c.display
  fromValue v := do (parse (← v.asText)).mapError fun _ => .invalid "capability"

end Capability
