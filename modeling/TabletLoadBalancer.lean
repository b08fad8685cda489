import TabletLoadBalancer.Model.Topology
import TabletLoadBalancer.Model.Heap
import TabletLoadBalancer.Model.LoadSketch
import TabletLoadBalancer.Model.NodeLoad
import TabletLoadBalancer.Model.Phases
import TabletLoadBalancer.Model.MakePlan
import TabletLoadBalancer.Analysis.HeapIndex
import TabletLoadBalancer.Analysis.HeapOrder
import TabletLoadBalancer.Analysis.HeapPerm
import TabletLoadBalancer.Analysis.HeapQueue
import TabletLoadBalancer.Analysis.Body
import TabletLoadBalancer.Analysis.Constraints
import TabletLoadBalancer.Analysis.Step
import TabletLoadBalancer.Analysis.NodeInv
import TabletLoadBalancer.Analysis.LoopInv
import TabletLoadBalancer.Analysis.LoopEmit
import TabletLoadBalancer.Analysis.Snapshot
import TabletLoadBalancer.Analysis.Prepare
import TabletLoadBalancer.Analysis.Run
import TabletLoadBalancer.Analysis.Plan
import TabletLoadBalancer.Analysis.Order
import TabletLoadBalancer.Analysis.Routes
import TabletLoadBalancer.Analysis.Isolation
import TabletLoadBalancer.Analysis.Safety
import TabletLoadBalancer.Analysis.Termination
import TabletLoadBalancer.Analysis.Balance
import TabletLoadBalancer.Analysis.Potential
import TabletLoadBalancer.Analysis.Counts
import TabletLoadBalancer.Analysis.Accounting
import TabletLoadBalancer.Analysis.Outcome
