import TabletLoadBalancer.Model.NodeLoad

/-!
# The phases of `load_balancer::make_plan(dc)` before its selection loop

`tablet_allocator.cc:144-278` and the constraint check of the loop body (lines 353-385). Each
phase that walks the snapshot is written as the step its loop body takes for one element, so that
the phase is a fold of that step: select the normal nodes of the datacenter (A, `selectNode`),
count each node's tablets (B, `countReplica`), find the least- and most-loaded nodes (C,
`scanLoad`), build the per-shard loads and candidate sets (D, `addCandidate`), and make the heaps
(E, `makeHeaps`). The nested `for_each_tablet` loops of phases B and D visit the replicas in the
order of `TabletMetadata.allReplicas`, so a fold over that list is the same traversal.

`LoopEnv` and `LoopState` are the loop's fixed context and its changing state.
-/

set_option autoImplicit false

namespace TabletLoadBalancer

/-- `topology::get_node`. -/
def getNode (topo : Topology) (h : HostId) : Except PlanError Node :=
  match topo.findNode h with
  | some n => pure n
  | none => throw (.nodeNotFound h)

/-- `tablet_metadata::get_tablet_map`, which throws for a table without a tablet map. -/
def TabletMetadata.getTabletMap (tm : TabletMetadata) (table : TableId) :
    Except PlanError TabletMap :=
  match tm.findTabletMap table with
  | some m => pure m
  | none => throw (.noTabletMap table)

/-- `tablet_map::get_tablet_info`; a tablet id past the map's end is undefined. -/
def TabletMap.getTabletInfo (m : TabletMap) (tid : TabletId) : Except PlanError TabletInfo :=
  match m.findTabletInfo tid with
  | some i => pure i
  | none => throw (.undefined .tabletOutOfRange)

/-- `std::vector::resize`: keep the first `n` elements, pad with default-constructed ones. -/
def resize {α : Type} [Inhabited α] (v : List α) (n : Nat) : List α :=
  v.take n ++ List.replicate (n - v.length) default

/-- Phase A (lines 151-161), for one node: give every normal node of `dc` a `node_load` sized to
its shard count, and throw if that count is zero. -/
def selectNode (dc : DcName) (nodes : NodeMap) (node : Node) : Except PlanError NodeMap :=
  if node.state = .normal ∧ node.dc = dc then
    let load := nodes.get node.hostId
    let nodes := nodes.insert node.hostId
      { load with shardCount := node.shardCount, shards := resize load.shards node.shardCount }
    if node.shardCount = 0 then throw (.shardCountNotFound node.hostId) else pure nodes
  else pure nodes

/-- Phase B (lines 165-178), for one replica: count it on its host if the host is balanced, and
stop with an internal error if it names a shard the host does not have. -/
def countReplica (nodes : NodeMap) (r : GlobalTabletId × TabletReplica) :
    Except PlanError NodeMap :=
  if r.2.host ∈ nodes.keys then
    let nodes := nodes.modify r.2.host fun n => { n with tabletCount := n.tabletCount + 1 }
    if (nodes.get r.2.host).shardCount ≤ r.2.shard then throw (.nonExistentShard r.1 r.2)
    else pure nodes
  else pure nodes

/-- The accumulator of phase C: the node map and `max_load`, `min_load`, `min_load_node`. -/
abbrev MinMax := NodeMap × ℚ × ℚ × Option HostId

/-- Phase C (lines 185-194), for one host: `update()` its load and fold it into the running
maximum, minimum and least-loaded host. -/
def scanLoad (acc : MinMax) (host : HostId) : Except PlanError MinMax := do
  let load ← (acc.1.get host).update
  let least := if acc.2.2.2 = none ∨ load.avgLoad < acc.2.2.1 then (load.avgLoad, some host)
    else acc.2.2
  pure (acc.1.modify host fun _ => load,
    if acc.2.1 < load.avgLoad then load.avgLoad else acc.2.1, least)

/-- Phase D (lines 240-251), for one replica on a balanced host: count it on its shard, push the
shard on the host's heap vector when it was empty, and make the tablet a candidate there. -/
def addCandidate (nodes : NodeMap) (r : GlobalTabletId × TabletReplica) :
    Except PlanError NodeMap :=
  if r.2.host ∈ nodes.keys then do
    let s ← match (nodes.get r.2.host).shards[r.2.shard]? with
      | some s => pure s
      | none => throw (.undefined (.shardOutOfRange 245))
    pure (nodes.modify r.2.host fun n =>
      { n with
        shardsByLoad := if s.tabletCount = 0 then n.shardsByLoad ++ [r.2.shard] else n.shardsByLoad
        shards := n.shards.set r.2.shard ⟨s.tabletCount + 1, s.candidates.insert r.1⟩ })
  else pure nodes

/-- Phase D (lines 233-252), for one table: `none` once a table had pending transitions (the
early `co_return`), otherwise the candidates of this table's replicas added. -/
def addTableCandidates (acc : Option NodeMap) (table : TableId × TabletMap) :
    Except PlanError (Option NodeMap) :=
  match acc with
  | none => pure none
  | some nodes =>
    if table.2.transitions ≠ [] then pure none
    else some <$> (table.2.replicasOf table.1).foldlM addCandidate nodes

/-- Phase D (lines 232-253): the per-shard loads and candidates over all tables, or `none` as soon
as a table has pending transitions. -/
def computeShardLoad (tm : TabletMetadata) (nodes : NodeMap) : Except PlanError (Option NodeMap) :=
  tm.tables.foldlM addTableCandidates (some nodes)

/-- Phase E (lines 258-278): make a heap of every host's shard vector, then the heap of hosts. -/
def makeHeaps (nodes : NodeMap) : NodeMap × List HostId :=
  let nodes := nodes.keys.foldl (fun nodes host => nodes.modify host fun n =>
    { n with shardsByLoad := makeHeap n.shardsByLoadCmp n.shardsByLoad }) nodes
  (nodes, makeHeap (nodesCmp nodes) nodes.keys)

/-- What stays fixed while the selection loop runs: the snapshot, the datacenter, the target,
its rack (`target_node->dc_rack().rack`) and `batch_size`. -/
structure LoopEnv where
  tm : TokenMetadata
  dc : DcName
  target : HostId
  targetRack : RackName
  batchSize : Nat

/-- What the selection loop changes: the node map, `nodes_by_load`, the plan so far,
`max_off_candidate_load` and the target's load sketch. -/
structure LoopState where
  nodes : NodeMap
  nodesByLoad : List HostId
  plan : MigrationPlan
  maxOffCandidateLoad : ℚ
  targetLoad : LoadSketch

/-- Lines 357-368: scan the candidate's replicas, stopping with `true` at one on the target;
across racks, count each replica in `dc` on its rack. The `rack_load` histogram is the bag of
counted racks: a rack's count is its multiplicity. -/
def scanReplicas (topo : Topology) (dc : DcName) (target : HostId) (sameRack : Bool) :
    List TabletReplica → List RackName → Except PlanError (Bool × List RackName)
  | [], rackLoad => pure (false, rackLoad)
  | r :: rs, rackLoad =>
    if r.host = target then pure (true, rackLoad)
    else if sameRack then scanReplicas topo dc target sameRack rs rackLoad
    else do
      let node ← getNode topo r.host
      scanReplicas topo dc target sameRack rs
        (if node.dc = dc then rackLoad ++ [node.rack] else rackLoad)

/-- `std::max_element(rack_load, by count)->second` (lines 377-378). -/
def maxRackLoad (rackLoad : List RackName) : Except PlanError Nat :=
  match (rackLoad.map rackLoad.count).max? with
  | some m => pure m
  | none => throw (.undefined .emptyRackLoad)

/-- Lines 353-385: `false` when the candidate is skipped, because it has a replica on the target
or because, across racks, the move would raise the target rack's count above the largest one. -/
def passesConstraints (env : LoopEnv) (t : GlobalTabletId) (srcHost : HostId) :
    Except PlanError Bool := do
  let srcNode ← getNode env.tm.topology srcHost
  let sameRack := decide (env.targetRack = srcNode.rack)
  let tmap ← env.tm.tablets.getTabletMap t.table
  let info ← tmap.getTabletInfo t.tablet
  let (hasReplicaOnTarget, rackLoad) ←
    scanReplicas env.tm.topology env.dc env.target sameRack info.replicas []
  if hasReplicaOnTarget then pure false
  else if sameRack then pure true
  else do pure (rackLoad.count env.targetRack + 1 ≤ (← maxRackLoad rackLoad))

end TabletLoadBalancer
