import Dataflow.Graph.Reach
import Dataflow.Pass.Action
import Dataflow.Recurrent.Bidirectional
import Dataflow.Recurrent.LoopConversion
import Dataflow.Recurrent.Reversal
import Dataflow.Skip
import Dataflow.Proofs.Graph.Slots
import Dataflow.Proofs.Graph.Store
import Dataflow.Proofs.Graph.Order
import Dataflow.Proofs.Graph.Redirect
import Dataflow.Proofs.Graph.Changes
import Dataflow.Proofs.Pattern.Search
import Dataflow.Proofs.Pattern.Embedding
import Dataflow.Proofs.Pattern.Extension
import Dataflow.Proofs.Pattern.Matching
import Dataflow.Proofs.Graph.References
import Dataflow.Proofs.Graph.BreadthFirst
import Dataflow.Proofs.Graph.Walk
import Dataflow.Proofs.Build
import Dataflow.Proofs.Graph.Rerouting
import Dataflow.Proofs.Recurrent.BidirectionalPlan
import Dataflow.Proofs.Rule
import Dataflow.Proofs.Graph.Specs
import Dataflow.Proofs.Recurrent.BidirectionalFusion
import Dataflow.Proofs.Runtime.Grid
import Dataflow.Proofs.Runtime.Reshaping
import Dataflow.Proofs.Runtime.Recurrence
import Dataflow.Proofs.Runtime.Evaluation
import Dataflow.Proofs.Runtime.Computing
import Dataflow.Proofs.Graph.Substitution
import Dataflow.Proofs.Runtime.Operations
import Dataflow.Proofs.Runtime.Shapes
import Dataflow.Proofs.Runtime.Layouts
import Dataflow.Proofs.Runtime.Builders
import Dataflow.Proofs.Recurrent.LoopPlan
import Dataflow.Proofs.Runtime.Iterations
import Dataflow.Proofs.Recurrent.StepRun
import Dataflow.Proofs.Recurrent.LoopRun
import Dataflow.Proofs.Runtime.Simulation
import Dataflow.Proofs.Recurrent.LoopConversion
import Dataflow.Proofs.Recurrent.LoopReferences
import Dataflow.Proofs.Recurrent.SequenceNode
import Dataflow.Proofs.Recurrent.LoopMeaning
import Dataflow.Proofs.Runtime.Reversal
import Dataflow.Proofs.Recurrent.ReversalPlan
import Dataflow.Proofs.Recurrent.Directions
import Dataflow.Proofs.Recurrent.ReversalFusion
import Dataflow.Proofs.Recurrent.ReversalMeaning
import Dataflow.Proofs.Runtime.BothDirections
import Dataflow.Proofs.Runtime.PairBuilders
import Dataflow.Proofs.Recurrent.TwoDirections
import Dataflow.Proofs.Recurrent.BidirectionalNode
import Dataflow.Proofs.Recurrent.BidirectionalMeaning
import Dataflow.Proofs.Recurrent.ReversalReferences
import Dataflow.Proofs.Invariant
import Dataflow.Proofs.Graph.Insertion
import Dataflow.Proofs.Recurrent.Cycles
import Dataflow.Proofs.Success
import Dataflow.Proofs.Recurrent.BidirectionalAtomicity
import Dataflow.Proofs.Recurrent.LoopAtomicity
import Dataflow.Proofs.Pass.FixedPoint
import Dataflow.Proofs.Graph.Elimination
import Dataflow.Proofs.Recurrent.ReversalAtomicity
import Dataflow.Proofs.Reads.Direct
import Dataflow.Proofs.Reads.Matching
import Dataflow.Proofs.Reads.Builders
import Dataflow.Proofs.Reads.Loop
import Dataflow.Proofs.Reads.Reversal
import Dataflow.Proofs.Reads.Bidirectional
import Dataflow.Proofs.Reads.Skip
import Dataflow.Proofs.Reads.Passes
import Dataflow.Proofs.Graph.Steps
import Dataflow.Proofs.Graph.Census
import Dataflow.Proofs.Pass.Steps
import Dataflow.Proofs.Pass.Trials
import Dataflow.Proofs.Pass.Rounds
import Dataflow.Proofs.Recurrent.Passes
import Dataflow.Proofs.Pass.Unchanged
import Dataflow.Proofs.Pass.Marking
import Dataflow.Proofs.Pass.Accounting
import Dataflow.Proofs.Recurrent.Targets
import Dataflow.Proofs.Pass.Convergence
import Dataflow.Proofs.Pass.Idle
import Dataflow.Proofs.Pass.Skipping
import Dataflow.Proofs.Pass.Reordering
import Dataflow.Proofs.Pattern.Compacted
import Dataflow.Proofs.Recurrent.Exclusion
import Dataflow.Proofs.Runtime.Extents
import Dataflow.Proofs.Runtime.ShapeCalls
import Dataflow.Proofs.Graph.MovedUses
import Dataflow.Proofs.Graph.Cycles
import Dataflow.Proofs.Graph.Reachability
import Dataflow.Proofs.Graph.Predecessors
import Dataflow.Proofs.Runtime.Slices
import Dataflow.Proofs.Graph.Bridge
import Dataflow.Proofs.Graph.DeadNodes
import Dataflow.Proofs.Runtime.ElementCount
import Dataflow.Proofs.Runtime.AxisOrders
import Dataflow.Proofs.Runtime.EqualParts
import Dataflow.Proofs.Runtime.BatchLengths
import Dataflow.Proofs.Runtime.JoinedGrids
import Dataflow.Proofs.Runtime.JoinedConstants
import Dataflow.Proofs.Graph.ListedReaders
import Dataflow.Proofs.Recurrent.LoopReaders
import Dataflow.Proofs.Recurrent.LoopLayouts
import Dataflow.Proofs.Recurrent.BidirectionalReaders
import Dataflow.Proofs.Recurrent.BidirectionalLayouts
import Dataflow.Proofs.Graph.UnusedConstants
import Dataflow.Proofs.Recurrent.Constants
import Dataflow.Proofs.Atomicity
import Dataflow.Proofs.Single
import Dataflow.Proofs.Runtime.WholeElements
