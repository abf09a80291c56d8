import LogicNet.Graph.Dump
import LogicNet.Network.Analysis
import LogicNet.Network.Compaction
import LogicNet.Network.Reduction
import LogicNet.Network.Subscription
import LogicNet.Network.Substitution
import LogicNet.TruthTable.Text
import LogicNet.Visit
import LogicNet.Proofs.Action
import LogicNet.Proofs.Acyclic
import LogicNet.Proofs.Operation
import LogicNet.Proofs.Growth
import LogicNet.Proofs.Search
import LogicNet.Proofs.Indexing
import LogicNet.Proofs.WellFormed
import LogicNet.Proofs.Uses
import LogicNet.Proofs.Redirection
import LogicNet.Proofs.Invariants
import LogicNet.Proofs.Copying
import LogicNet.Proofs.Consistency
import LogicNet.Proofs.Terminals
import LogicNet.Proofs.Function
import LogicNet.Proofs.Soundness
import LogicNet.Proofs.Simulation
import LogicNet.Proofs.Transfer
import LogicNet.Proofs.Compaction
import LogicNet.Proofs.Lanes
import LogicNet.Proofs.Evaluation
import LogicNet.Proofs.Override
import LogicNet.Proofs.Mirror
import LogicNet.Proofs.Shape
import LogicNet.Proofs.Persistence
import LogicNet.Proofs.Run
import LogicNet.Proofs.History
import LogicNet.Proofs.DepthFirst
import LogicNet.Proofs.Recopying
import LogicNet.Proofs.Idempotence
import LogicNet.Proofs.Program
import LogicNet.Proofs.Folding
import LogicNet.Proofs.Abreast
import LogicNet.Proofs.Parallel
import LogicNet.Proofs.Quotient
import LogicNet.Proofs.RoundTrip
import LogicNet.Proofs.Canonical
import LogicNet.Proofs.Outcome
import LogicNet.Proofs.Deliveries
import LogicNet.Proofs.Listening
import LogicNet.Proofs.Independence
import LogicNet.Proofs.Refusal
import LogicNet.Proofs.Requests
import LogicNet.Proofs.Legible
import LogicNet.Proofs.Listing
import LogicNet.Proofs.Resemblance
import LogicNet.Proofs.Rewiring
import LogicNet.Proofs.Stability
import LogicNet.Proofs.Reading
import LogicNet.Proofs.Postorder
import LogicNet.Proofs.Depth
import LogicNet.Proofs.Statistics
import LogicNet.Proofs.Bracketing
import LogicNet.Proofs.Reduction
import LogicNet.Proofs.Balance
import LogicNet.Proofs.Measurement
import LogicNet.Proofs.Dependence
import LogicNet.Proofs.Modes
import LogicNet.Proofs.Minterms
import LogicNet.Proofs.ReadBack
import LogicNet.Proofs.Enumeration
import LogicNet.Proofs.TableText
import LogicNet.Proofs.Conservation
