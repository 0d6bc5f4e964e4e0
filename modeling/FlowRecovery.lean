import FlowRecovery.Main
import FlowRecovery.Proofs.Analysis.CallStacks
import FlowRecovery.Proofs.Analysis.Coverage
import FlowRecovery.Proofs.Analysis.Pointers
import FlowRecovery.Proofs.Analysis.Projection
import FlowRecovery.Proofs.Analysis.Propagation
import FlowRecovery.Proofs.Container.Updates
import FlowRecovery.Proofs.Directed.Search
import FlowRecovery.Proofs.Domain.Sets
import FlowRecovery.Proofs.Exploration.Closure
import FlowRecovery.Proofs.Expr.Canonical
import FlowRecovery.Proofs.Expr.Partial
import FlowRecovery.Proofs.Expr.Simplified
import FlowRecovery.Proofs.IA32.Carry
import FlowRecovery.Proofs.IA32.Encoding
import FlowRecovery.Proofs.IA32.Loops
import FlowRecovery.Proofs.Image.Linkage
import FlowRecovery.Proofs.Interval.Arithmetic
import FlowRecovery.Proofs.Interval.Regions
import FlowRecovery.Proofs.Memory.Copying
import FlowRecovery.Proofs.Memory.Order
import FlowRecovery.Proofs.Recovery.Resolution
import FlowRecovery.Proofs.Service.Following
import FlowRecovery.Proofs.Service.Framing
import FlowRecovery.Proofs.Service.Routes
import FlowRecovery.Query.Containers
import FlowRecovery.Query.Memories
import FlowRecovery.Service.Server
import FlowRecovery.Service.Workload
