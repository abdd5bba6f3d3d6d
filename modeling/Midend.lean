import Midend.Dataflow.Dominance
import Midend.Dataflow.Reaching
import Midend.DeadStore.Passes
import Midend.Lang.Encode
import Midend.Lang.Load
import Midend.Numbering.Simplify
import Midend.Options.CommandLine
import Midend.Proofs.Entries
import Midend.Proofs.Execution
import Midend.Proofs.Traversal
import Midend.Proofs.Numbering.Meaning
import Midend.Proofs.Block.Code
import Midend.Proofs.Numbering.Lockstep
import Midend.Proofs.Graph.Links
import Midend.Proofs.Graph.Search
import Midend.Proofs.Block.Layout
import Midend.Proofs.Block.Places
import Midend.Proofs.Block.Successors
import Midend.Proofs.Block.Names
import Midend.Proofs.Graph.Blocks
import Midend.Proofs.Graph.Instructions
import Midend.Proofs.Block.Flow
import Midend.Proofs.Graph.Flow
import Midend.Proofs.DeadStore.Live
import Midend.Proofs.DeadStore.Simulation
import Midend.Proofs.DeadStore.Passes
import Midend.Proofs.DeadStore.Speculation
import Midend.Proofs.DeadStore.Walk
import Midend.Proofs.DeadStore.Exactness
import Midend.Proofs.DeadStore.Paths
import Midend.Proofs.DeadStore.Agreement
import Midend.Proofs.Dataflow.Engine
import Midend.Proofs.Dataflow.Facts
import Midend.Proofs.Dataflow.FixedPoint
import Midend.Proofs.Dataflow.GenKill
import Midend.Proofs.Dataflow.Paths
import Midend.Proofs.Dataflow.Reaching
import Midend.Proofs.Dataflow.Dominance
import Midend.Proofs.Dataflow.Order
import Midend.Proofs.Dataflow.Termination
import Midend.Proofs.Dataflow.Values
import Midend.Proofs.Dataflow.Annotation
import Midend.Proofs.Numbering.Typing
import Midend.Proofs.Json.Nesting
import Midend.Proofs.Json.Numerals
import Midend.Proofs.Json.Text
import Midend.Proofs.Json.Records
import Midend.Proofs.Lang.Codec
import Midend.Proofs.Lang.Nesting
import Midend.Proofs.Lang.RoundTrip
import Midend.Proofs.Lang.Delimiting
import Midend.Proofs.Lang.TextForm
import Midend.Proofs.Block.Boundaries
import Midend.Proofs.Block.Shape
import Midend.Proofs.Numbering.Reading
import Midend.Proofs.Numbering.Results
import Midend.Proofs.Numbering.Prefix
import Midend.Proofs.Numbering.Keeping
import Midend.Proofs.Numbering.Equality
import Midend.Proofs.Numbering.Merging
import Midend.Proofs.Numbering.Idempotence
import Midend.Proofs.Numbering.Redundancy
import Midend.Proofs.Numbering.Commuting
import Midend.Proofs.Numbering.Holders
import Midend.Proofs.Decimal.Shortest
import Midend.Proofs.Json.Reals
import Midend.Proofs.Numbering.Form
import Midend.Proofs.Numbering.Fingerprint
import Midend.Proofs.Numbering.Interning
import Midend.Proofs.Graph.Contraction
import Midend.Proofs.Graph.Changes
import Midend.Proofs.DeadStore.Chain
import Midend.Proofs.DeadStore.Snapshots
import Midend.Proofs.DeadStore.Bodies
import Midend.Proofs.DeadStore.Resumption
