import FrameGraph.Main
import FrameGraph.Script
import FrameGraph.Proofs.Plan.Layering
import FrameGraph.Proofs.Graph.Integrity
import FrameGraph.Proofs.Graph.Wiring
import FrameGraph.Proofs.Graph.Freshness
import FrameGraph.Proofs.Plan.Inference
import FrameGraph.Proofs.Plan.Schedule
import FrameGraph.Proofs.Graph.Acceptance
import FrameGraph.Proofs.Plan.Steps
import FrameGraph.Proofs.Graph.Order
import FrameGraph.Proofs.Plan.Lifetimes
import FrameGraph.Proofs.Graph.Storage
import FrameGraph.Proofs.Loop.Balance
import FrameGraph.Proofs.Loop.Drain
import FrameGraph.Proofs.Frame.Ending
import FrameGraph.Proofs.Frame.Memory
import FrameGraph.Proofs.Frame.Turns
import FrameGraph.Proofs.Frame.Succession
import FrameGraph.Proofs.Frame.Reorder
import FrameGraph.Proofs.Frame.Accounting
import FrameGraph.Proofs.Frame.Relocation
import FrameGraph.Proofs.Frame.Bystander
import FrameGraph.Proofs.Graph.Identity
import FrameGraph.Proofs.Frame.Typing
import FrameGraph.Proofs.Frame.Composition
import FrameGraph.Proofs.Graph.Propagation
import FrameGraph.Proofs.Loop.Boundaries
import FrameGraph.Proofs.Frame.Query
import FrameGraph.Proofs.Frame.Failure
import FrameGraph.Proofs.Graph.Refusal
import FrameGraph.Proofs.Graph.Routing
import FrameGraph.Proofs.Graph.Devices
import FrameGraph.Proofs.Plan.Relisting
import FrameGraph.Proofs.Plan.Renumbering
import FrameGraph.Proofs.Graph.Relisting
import FrameGraph.Proofs.Graph.Cycles
import FrameGraph.Proofs.Graph.Grouping
import FrameGraph.Proofs.Graph.Economy
import FrameGraph.Proofs.Loop.Traces
import FrameGraph.Proofs.Graph.Inventory
import FrameGraph.Proofs.Graph.Renaming
import FrameGraph.Proofs.Graph.Pinning
import FrameGraph.Proofs.Clock.Laps
import FrameGraph.Proofs.Graph.Validity
import FrameGraph.Proofs.Loop.Deltas
import FrameGraph.Proofs.Graph.Indexing
