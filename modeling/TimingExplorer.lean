import TimingExplorer.Config.Load
import TimingExplorer.Design.Load
import TimingExplorer.Design.Search
import TimingExplorer.NameTable
import TimingExplorer.Proofs.Cone.Duality
import TimingExplorer.Proofs.Cone.Merge
import TimingExplorer.Query.Describe
import TimingExplorer.Proofs.Design.Ranking
import TimingExplorer.Proofs.Node.Data
import TimingExplorer.Proofs.Record.Linking
import TimingExplorer.Proofs.Record.ClockEnds
import TimingExplorer.Proofs.Record.Sides
import TimingExplorer.Proofs.Query.Cones
import TimingExplorer.Proofs.Query.Records
import TimingExplorer.Proofs.Query.Requests
import TimingExplorer.Proofs.Design.Replay
import TimingExplorer.Proofs.Design.Demands
import TimingExplorer.Proofs.Design.Netlist
import TimingExplorer.Proofs.Design.Connection
import TimingExplorer.Proofs.Design.Contents
import TimingExplorer.Proofs.Design.Naming
import TimingExplorer.Proofs.Design.Fidelity
import TimingExplorer.Proofs.Design.Locality
import TimingExplorer.Proofs.Design.SelfContained
import TimingExplorer.Proofs.Cone.Appending
import TimingExplorer.Proofs.Query.Failures
import TimingExplorer.Proofs.Query.Loaded
import TimingExplorer.Proofs.Query.Labels
import TimingExplorer.Proofs.Record.Collapsing
import TimingExplorer.Proofs.Record.Replacing
import TimingExplorer.Json.Writer
import TimingExplorer.Proofs.Design.Written
import TimingExplorer.Proofs.Cone.Linking
import TimingExplorer.Proofs.Cone.Nodes
import TimingExplorer.Proofs.Cone.Counterparts
import TimingExplorer.Proofs.Cone.Pairs
import TimingExplorer.Proofs.Record.Pairing
import TimingExplorer.Proofs.Query.Outcome
import TimingExplorer.Proofs.Query.Unconstrained
import TimingExplorer.Proofs.Query.Roles
import TimingExplorer.Proofs.Config.Loading
import TimingExplorer.Proofs.Cone.Order
import TimingExplorer.Proofs.Cone.Levels
import TimingExplorer.Proofs.Node.Compaction
import TimingExplorer.Proofs.Node.Integrity
import TimingExplorer.Proofs.Node.Boxes
