import JlrModel.Lib.BinarySearch
import JlrModel.Lib.Bytes
import JlrModel.Lib.File
import JlrModel.Lib.Layout
import JlrModel.Lib.Merkle
import JlrModel.Lib.MerkleLevel
import JlrModel.Lib.MerkleProof
import JlrModel.Lib.MerkleVerify
import JlrModel.Lib.Path
import JlrModel.Lib.Program
import JlrModel.Lib.Result
import JlrModel.Lib.Saturating
import JlrModel.Lib.Sorted
import JlrModel.Lib.SortedMap
import JlrModel.Lib.Spelling
import JlrModel.Lib.Text
import JlrModel.Lib.Utf8
import JlrModel.Lib.Window
import JlrModel.Lib.Worklist
import JlrModel.Cbor.Decode
import JlrModel.Cbor.Record
import JlrModel.Cbor.Value
import JlrModel.Cbor.Theorems.Accessor
import JlrModel.Cbor.Theorems.Exact
import JlrModel.Cbor.Theorems.Head
import JlrModel.Cbor.Theorems.Length
import JlrModel.Cbor.Theorems.Record
import JlrModel.Crypto.Digest
import JlrModel.Crypto.Envelope
import JlrModel.Crypto.KeyFile
import JlrModel.Crypto.Keys
import JlrModel.Crypto.Theorems.Digest
import JlrModel.Crypto.Theorems.Envelope
import JlrModel.Crypto.Theorems.KeyFile
import JlrModel.Model.Artifact
import JlrModel.Model.Capability
import JlrModel.Model.Coded
import JlrModel.Model.Decision
import JlrModel.Model.Event
import JlrModel.Model.RecordType
import JlrModel.Model.Sanitize
import JlrModel.Model.State
import JlrModel.Model.Theorems.Capability
import JlrModel.Model.Theorems.Epn
import JlrModel.Model.Theorems.Sanitize
import JlrModel.Policy.Defaults
import JlrModel.Policy.Evaluate
import JlrModel.Policy.Grant
import JlrModel.Policy.Policy
import JlrModel.Policy.Revocation
import JlrModel.Policy.Signed
import JlrModel.Policy.Source
import JlrModel.Policy.Validate
import JlrModel.Policy.Theorems.Authority
import JlrModel.Policy.Theorems.Evaluate
import JlrModel.Policy.Theorems.Signed
import JlrModel.Policy.Theorems.Source
import JlrModel.Policy.Theorems.Validate
import JlrModel.Ledger.Checkpoint
import JlrModel.Ledger.Frame
import JlrModel.Ledger.Journal
import JlrModel.Ledger.Merkle
import JlrModel.Ledger.Open
import JlrModel.Ledger.Reader
import JlrModel.Ledger.Replay
import JlrModel.Ledger.Run
import JlrModel.Ledger.Store
import JlrModel.Ledger.Trust
import JlrModel.Ledger.Theorems.Append
import JlrModel.Ledger.Theorems.Frame
import JlrModel.Ledger.Theorems.Merkle
import JlrModel.Ledger.Theorems.Open
import JlrModel.Ledger.Theorems.Pin
import JlrModel.Ledger.Theorems.Readable
import JlrModel.Ledger.Theorems.Reader
import JlrModel.Ledger.Theorems.Recover
import JlrModel.Ledger.Theorems.Repair
import JlrModel.Ledger.Theorems.Replay
import JlrModel.Ledger.Theorems.Run
import JlrModel.Ledger.Theorems.Size
import JlrModel.Ledger.Theorems.Trust
import JlrModel.Engine.Act
import JlrModel.Engine.Authority
import JlrModel.Engine.Host
import JlrModel.Engine.Index
import JlrModel.Engine.Launch
import JlrModel.Engine.Open
import JlrModel.Engine.Process
import JlrModel.Engine.Route
import JlrModel.Engine.Run
import JlrModel.Engine.Setup
import JlrModel.Engine.State
import JlrModel.Engine.Store
import JlrModel.Engine.Theorems.Act
import JlrModel.Engine.Theorems.Again
import JlrModel.Engine.Theorems.Approve
import JlrModel.Engine.Theorems.Authority
import JlrModel.Engine.Theorems.Epoch
import JlrModel.Engine.Theorems.Expiry
import JlrModel.Engine.Theorems.Floor
import JlrModel.Engine.Theorems.History
import JlrModel.Engine.Theorems.Host
import JlrModel.Engine.Theorems.Installation
import JlrModel.Engine.Theorems.Launch
import JlrModel.Engine.Theorems.Leaves
import JlrModel.Engine.Theorems.Mend
import JlrModel.Engine.Theorems.Open
import JlrModel.Engine.Theorems.Outcomes
import JlrModel.Engine.Theorems.Policy
import JlrModel.Engine.Theorems.Process
import JlrModel.Engine.Theorems.Refine
import JlrModel.Engine.Theorems.Refused
import JlrModel.Engine.Theorems.Reopen
import JlrModel.Engine.Theorems.Replaced
import JlrModel.Engine.Theorems.Revoke
import JlrModel.Engine.Theorems.Route
import JlrModel.Engine.Theorems.Rows
import JlrModel.Engine.Theorems.Run
import JlrModel.Engine.Theorems.Saved
import JlrModel.Engine.Theorems.Setup
import JlrModel.Engine.Theorems.Spares
import JlrModel.Engine.Theorems.Target
import JlrModel.Engine.Theorems.Walk
import JlrModel.Cell.Assembly
import JlrModel.Cell.Derive
import JlrModel.Cell.Init
import JlrModel.Cell.Launch
import JlrModel.Cell.Sealed
import JlrModel.Cell.Spec
import JlrModel.Cell.Theorems.Assembly
import JlrModel.Cell.Theorems.Init
import JlrModel.Cell.Theorems.Launch
import JlrModel.Boot.Choose
import JlrModel.Boot.Init
import JlrModel.Boot.Manifest
import JlrModel.Boot.Media
import JlrModel.Boot.Run
import JlrModel.Boot.State
import JlrModel.Boot.Theorems.Choose
import JlrModel.Boot.Theorems.Exact
import JlrModel.Boot.Theorems.Image
import JlrModel.Boot.Theorems.Init
import JlrModel.Boot.Theorems.Install
import JlrModel.Boot.Theorems.Media
import JlrModel.Boot.Theorems.Run
import JlrModel.Gate.Budget
import JlrModel.Gate.Cache
import JlrModel.Gate.Mounts
import JlrModel.Gate.Run
import JlrModel.Gate.Tally
import JlrModel.Gate.Watch
import JlrModel.Gate.Theorems.Answer
import JlrModel.Gate.Theorems.Budget
import JlrModel.Gate.Theorems.Cache
import JlrModel.Gate.Theorems.Mounts
import JlrModel.Gate.Theorems.Stamp
import JlrModel.Gate.Theorems.Tally
import JlrModel.Gate.Theorems.Watch
import JlrModel.Measure.Classify
import JlrModel.Measure.Dpkg
import JlrModel.Measure.File
import JlrModel.Measure.Observe
import JlrModel.Measure.Walk
import JlrModel.Measure.Theorems.Dpkg
import JlrModel.Measure.Theorems.DpkgCache
import JlrModel.Measure.Theorems.Observe
import JlrModel.Measure.Theorems.Walk
import JlrModel.Theorems.Records
