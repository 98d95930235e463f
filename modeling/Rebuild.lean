import Rebuild.Affected
import Rebuild.Basic
import Rebuild.BuildInfo.Document
import Rebuild.BuildInfo.Layout
import Rebuild.BuildInfo.Store
import Rebuild.CommandLine
import Rebuild.Config
import Rebuild.Digest
import Rebuild.EmitQueue
import Rebuild.Glob.Match
import Rebuild.Glob.Pattern
import Rebuild.Graph
import Rebuild.Host
import Rebuild.Json.Reader
import Rebuild.Json.Value
import Rebuild.Main
import Rebuild.Program.Basic
import Rebuild.Program.Pull
import Rebuild.Project.Host
import Rebuild.Project.Matcher
import Rebuild.Run
import Rebuild.ScriptedHost
import Rebuild.Session
import Rebuild.Signature
import Rebuild.Source.Line
import Rebuild.Source.Unit
import Rebuild.State
import Rebuild.Storage.Basic
import Rebuild.Storage.FileTable
import Rebuild.Storage.FileTree
import Rebuild.Text.Blank
import Rebuild.Text.Lowercase
import Rebuild.Text.Quoted
import Rebuild.Text.Utf8
import Rebuild.Text.Word
import Rebuild.Toml.Reader
import Rebuild.Toml.Scalar
import Rebuild.Toml.Value
import Rebuild.Proofs.Graph
import Rebuild.Proofs.State
import Rebuild.Proofs.Pass
import Rebuild.Proofs.Frontier
import Rebuild.Proofs.Round
import Rebuild.Proofs.Recheck
import Rebuild.Proofs.Update
import Rebuild.Proofs.Answers
import Rebuild.Proofs.BuildInfo.Document
import Rebuild.Proofs.Reachable
import Rebuild.Proofs.Pair
import Rebuild.Proofs.Handout
import Rebuild.Proofs.Propagation
import Rebuild.Proofs.Flags
import Rebuild.Proofs.Leak
import Rebuild.Proofs.Everything
import Rebuild.Proofs.Skipped
import Rebuild.Proofs.Sound
import Rebuild.Proofs.Soundness
import Rebuild.Proofs.Resume
import Rebuild.Proofs.Supersede
import Rebuild.Proofs.Drain
import Rebuild.Proofs.Signature
import Rebuild.Proofs.Project.Interface
import Rebuild.Proofs.Project.Compare
import Rebuild.Proofs.Project.Tree
import Rebuild.Proofs.Project.Answers
import Rebuild.Proofs.Project.Incremental
import Rebuild.Proofs.Json.RoundTrip
import Rebuild.Proofs.BuildInfo.Layout
import Rebuild.Proofs.Restore
import Rebuild.Proofs.Interruption
import Rebuild.Proofs.Action
import Rebuild.Proofs.Orderly
import Rebuild.Proofs.History
import Rebuild.Proofs.BuildInfo.RoundTrip
import Rebuild.Proofs.Takeover
import Rebuild.Proofs.Obligation
import Rebuild.Proofs.Cached
import Rebuild.Proofs.Restart
import Rebuild.Proofs.Settled
import Rebuild.Proofs.Project.Outputs
import Rebuild.Proofs.Project.Delivery
import Rebuild.Proofs.Project.CleanBuild
import Rebuild.Proofs.BuildInfo.Fidelity
import Rebuild.Proofs.Termination
import Rebuild.Proofs.Justified
import Rebuild.Proofs.Cycle
import Rebuild.Proofs.Text.Utf8
import Rebuild.Proofs.Project.Report
import Rebuild.Proofs.Project.ExitCode
import Rebuild.Proofs.Mirror
import Rebuild.Proofs.Insist
import Rebuild.Proofs.Recorded
import Rebuild.Proofs.Phases
import Rebuild.Proofs.Cancellation
import Rebuild.Proofs.Work
import Rebuild.Proofs.EmitDriven
import Rebuild.Proofs.Undoubled
import Rebuild.Proofs.Healing
import Rebuild.Proofs.SignatureHistory
import Rebuild.Proofs.InStep
import Rebuild.Proofs.EmitPlan
import Rebuild.Proofs.Reads
import Rebuild.Proofs.Bounds
import Rebuild.Proofs.BuildInfo.Acceptance
import Rebuild.Proofs.BuildInfo.Canonical
import Rebuild.Proofs.Project.Trails
import Rebuild.Proofs.Project.Footprint
import Rebuild.Proofs.Project.Republished
import Rebuild.Proofs.Graph.Adjacency
import Rebuild.Proofs.Graph.Search
import Rebuild.Proofs.Graph.Components
import Rebuild.Proofs.Project.Body
import Rebuild.Proofs.Project.Memoryless
import Rebuild.Proofs.Inquiry
import Rebuild.Proofs.Project.Walk
import Rebuild.Proofs.Project.FailedReport
import Rebuild.Proofs.Source.Lines
import Rebuild.Proofs.Source.Layout
import Rebuild.Proofs.Project.Formatting
import Rebuild.Proofs.Storage.Path
import Rebuild.Proofs.Project.Scan
import Rebuild.Proofs.Storage.Table
import Rebuild.Proofs.Storage.Listing
import Rebuild.Proofs.Storage.Tree
import Rebuild.Proofs.Project.Keys
import Rebuild.Proofs.UnitPath
import Rebuild.Proofs.EmitHistory
import Rebuild.Proofs.PassLife
