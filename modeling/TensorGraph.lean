import TensorGraph.Arithmetic
import TensorGraph.CompactGraph
import TensorGraph.ElementType
import TensorGraph.Encoding.Descriptor
import TensorGraph.Encoding.Element
import TensorGraph.Encoding.Graph
import TensorGraph.Encoding.Symbols
import TensorGraph.Entries
import TensorGraph.Error
import TensorGraph.Execution
import TensorGraph.ExpressionArena
import TensorGraph.Graph
import TensorGraph.Graph.BackwardSearch
import TensorGraph.Graph.Blocks
import TensorGraph.Graph.Build
import TensorGraph.Graph.Connections
import TensorGraph.Graph.DepthFirst
import TensorGraph.Graph.Dot
import TensorGraph.Graph.Extents
import TensorGraph.Graph.Grouping
import TensorGraph.Graph.Indices
import TensorGraph.Graph.Order
import TensorGraph.Graph.Ranking
import TensorGraph.Graph.Reachability
import TensorGraph.Graph.ReadySearch
import TensorGraph.Graph.Report
import TensorGraph.Graph.Rotation
import TensorGraph.Graph.Schedule
import TensorGraph.Graph.StepwiseBuild
import TensorGraph.Graph.Subgraph
import TensorGraph.Guarded
import TensorGraph.GuardedRun
import TensorGraph.Json
import TensorGraph.Json.Binary64
import TensorGraph.Json.Reader
import TensorGraph.Json.Record
import TensorGraph.Json.Value
import TensorGraph.Json.Writer
import TensorGraph.Kernel.Call
import TensorGraph.Kernel.Elementwise
import TensorGraph.Kernel.Guarded
import TensorGraph.Kernel.Matrix
import TensorGraph.Kernel.Progress
import TensorGraph.Kernel.Standard
import TensorGraph.Limits
import TensorGraph.Memory.Cutting
import TensorGraph.Memory.Error
import TensorGraph.Memory.Sizing
import TensorGraph.Memory.Span
import TensorGraph.Memory.Split
import TensorGraph.Memory.Store
import TensorGraph.Operation
import TensorGraph.Operation.Constructors
import TensorGraph.Operation.Kind
import TensorGraph.Parameters
import TensorGraph.Proofs.Acceptance
import TensorGraph.Proofs.Admissible
import TensorGraph.Proofs.ArenaListing
import TensorGraph.Proofs.ArenaMerging
import TensorGraph.Proofs.ArenaPlans
import TensorGraph.Proofs.ArenaReachability
import TensorGraph.Proofs.Arrangement
import TensorGraph.Proofs.BackwardClosure
import TensorGraph.Proofs.BackwardSearch
import TensorGraph.Proofs.BlamedGroups
import TensorGraph.Proofs.BlockDependencies
import TensorGraph.Proofs.BlockExtents
import TensorGraph.Proofs.BlockRanks
import TensorGraph.Proofs.Blocks
import TensorGraph.Proofs.Building
import TensorGraph.Proofs.ClosedParts
import TensorGraph.Proofs.CompactForm
import TensorGraph.Proofs.Compaction
import TensorGraph.Proofs.Completeness
import TensorGraph.Proofs.Connections
import TensorGraph.Proofs.Contents
import TensorGraph.Proofs.Cycles
import TensorGraph.Proofs.Deduplication
import TensorGraph.Proofs.DepthFirstRanking
import TensorGraph.Proofs.Descriptors
import TensorGraph.Proofs.Determinacy
import TensorGraph.Proofs.DrawingNames
import TensorGraph.Proofs.DrawingTexts
import TensorGraph.Proofs.Drawings
import TensorGraph.Proofs.Equations
import TensorGraph.Proofs.ExactDeduplication
import TensorGraph.Proofs.ExactRankings
import TensorGraph.Proofs.ExactSplitting
import TensorGraph.Proofs.Execution
import TensorGraph.Proofs.Extraction
import TensorGraph.Proofs.Failures
import TensorGraph.Proofs.FirstOccurrences
import TensorGraph.Proofs.FlatResolution
import TensorGraph.Proofs.GroupRotation
import TensorGraph.Proofs.Grouping
import TensorGraph.Proofs.Guarded
import TensorGraph.Proofs.GuardedKernels
import TensorGraph.Proofs.GuardedRuns
import TensorGraph.Proofs.Hoisting
import TensorGraph.Proofs.IndependentArrays
import TensorGraph.Proofs.IndexGeneration
import TensorGraph.Proofs.IntegerArithmetic
import TensorGraph.Proofs.IntegerDivision
import TensorGraph.Proofs.IntegerMeans
import TensorGraph.Proofs.InterruptedRuns
import TensorGraph.Proofs.JsonDocuments
import TensorGraph.Proofs.JsonTokens
import TensorGraph.Proofs.KernelCorrectness
import TensorGraph.Proofs.KernelFaults
import TensorGraph.Proofs.Layout
import TensorGraph.Proofs.Marks
import TensorGraph.Proofs.MatrixKernels
import TensorGraph.Proofs.MirroredOutputs
import TensorGraph.Proofs.ModularKernels
import TensorGraph.Proofs.NestedParts
import TensorGraph.Proofs.NormalForm
import TensorGraph.Proofs.Obtained
import TensorGraph.Proofs.Operations
import TensorGraph.Proofs.Order
import TensorGraph.Proofs.Overwriting
import TensorGraph.Proofs.PartialRuns
import TensorGraph.Proofs.PendingInputs
import TensorGraph.Proofs.PoolSizing
import TensorGraph.Proofs.Ranking
import TensorGraph.Proofs.Reachability
import TensorGraph.Proofs.ReadyRanking
import TensorGraph.Proofs.Rebuilding
import TensorGraph.Proofs.Reports
import TensorGraph.Proofs.Resolvable
import TensorGraph.Proofs.Resorting
import TensorGraph.Proofs.Results
import TensorGraph.Proofs.Rounds
import TensorGraph.Proofs.RunOrder
import TensorGraph.Proofs.Running
import TensorGraph.Proofs.Runs
import TensorGraph.Proofs.SafeRuns
import TensorGraph.Proofs.Schedule
import TensorGraph.Proofs.SizeLimits
import TensorGraph.Proofs.Slots
import TensorGraph.Proofs.SnapshotTexts
import TensorGraph.Proofs.Solutions
import TensorGraph.Proofs.SortedParts
import TensorGraph.Proofs.Spans
import TensorGraph.Proofs.Splitting
import TensorGraph.Proofs.StableSort
import TensorGraph.Proofs.StandardKernels
import TensorGraph.Proofs.StepwiseBuild
import TensorGraph.Proofs.Tensors
import TensorGraph.Proofs.Tiling
import TensorGraph.Proofs.Totals
import TensorGraph.Proofs.WellFormed
import TensorGraph.Proofs.WholeParts
import TensorGraph.Resolution
import TensorGraph.Resolution.Arena
import TensorGraph.Snapshot
import TensorGraph.StableSort
import TensorGraph.SymbolTable
import TensorGraph.Tensor
import TensorGraph.Word
