import Cascade.Artifact
import Cascade.Build.Command
import Cascade.Cli.Run
import Cascade.Environment.Workspace
import Cascade.Eval.Describe
import Cascade.Expr.Describe
import Cascade.Files.Add
import Cascade.Hierarchy.Describe
import Cascade.Main
import Cascade.Node.Dump
import Cascade.Node.Write
import Cascade.Proofs.Confinement
import Cascade.Proofs.Node.Coherence
import Cascade.Proofs.Node.Properties
import Cascade.Proofs.Node.Requests
import Cascade.Proofs.Node.Transparency
import Cascade.Proofs.SingleFlight.Deadlock
import Cascade.Proofs.SingleFlight.Exactness
import Cascade.SingleFlight.Scenario
import Cascade.Text.Lossy
import Cascade.Value.Tagged
import Cascade.Proofs.Eval.Frame
import Cascade.Proofs.Node.Provenance
import Cascade.Proofs.Eval.Halt
import Cascade.Proofs.Node.Termination
import Cascade.Proofs.Eval.Hints
import Cascade.Proofs.Eval.Nodes
import Cascade.Proofs.Eval.Isolation
import Cascade.Proofs.Decode
import Cascade.Proofs.Components
import Cascade.Proofs.Tree
import Cascade.Proofs.Build.Scan
import Cascade.Proofs.Build.Freshness
import Cascade.Proofs.Store
import Cascade.Proofs.Mirror
import Cascade.Proofs.Node.Failures
import Cascade.Proofs.Node.Overrides
import Cascade.Proofs.Node.Rebinding
import Cascade.Proofs.Trust
import Cascade.Proofs.Warnings
import Cascade.Proofs.Node.Globals
import Cascade.Proofs.SingleFlight.Candor
import Cascade.Proofs.Eval.Interrupts
import Cascade.Proofs.Grammar.Decoding
import Cascade.Proofs.Node.Sealing
import Cascade.Proofs.Extensions
import Cascade.Proofs.Saving
import Cascade.Proofs.Node.Levels
import Cascade.Proofs.Node.Inheritance
import Cascade.Proofs.Eval.Descriptors
import Cascade.Proofs.Eval.Arguments
import Cascade.Proofs.Node.Probing
import Cascade.Proofs.Node.Seeding
import Cascade.Proofs.Eval.Arithmetic
import Cascade.Proofs.Eval.Comparison
import Cascade.Proofs.Node.Invalidation
import Cascade.Proofs.Build.Report
import Cascade.Proofs.Eval.Collections
import Cascade.Proofs.Eval.Hashes
import Cascade.Proofs.Conversions
import Cascade.Proofs.Interpolation
import Cascade.Proofs.Eval.Choices
import Cascade.Proofs.Node.Included
import Cascade.Proofs.Build.Autoload
import Cascade.Proofs.Eval.Slices
