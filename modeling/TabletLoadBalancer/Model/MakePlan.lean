import TabletLoadBalancer.Model.Phases

/-!
# The selection loop and `make_plan`

One iteration of the `while` loop of `tablet_allocator.cc:286-406` is `body` followed by
`Deferred.finish`. `body` pops the most-loaded host, applies the three termination checks, and
then takes one of four paths: drop a host that ran out of shards (lines 324-330), drop a shard
that ran out of candidates (339-343), skip a candidate that breaks a replication constraint
(370-385), or emit a migration and update the counts (387-405). The `seastar::defer` guards
`push_back_node_candidate` and `push_back_shard_candidate` run at the end of the iteration
unless the body cancelled them; `Deferred` records which are still armed, and `finish` runs
them in the order they are destroyed, shard heap first.

`*candidates.begin()` of the unordered set is the candidate at position `pick` (modulo the set's
size): the set's iteration order is unspecified, and the loop's caller supplies one position per
iteration (`choose`, read at the iteration's remaining fuel, which no two iterations share), so
every sequence of choices the source can make is the run of some `choose`. The loop carries
fuel: `loopBound`, the number of iterations the termination theorem bounds it by.
-/

set_option autoImplicit false

namespace TabletLoadBalancer

/-- An iteration whose body has run: the state it left, the source host, and whether the
deferred pushes of the shard heap and of the node heap are still armed. -/
structure Deferred where
  state : LoopState
  srcHost : HostId
  pushShard : Bool
  pushNode : Bool

/-- The deferred `std::push_heap` of the source's shard vector (lines 344-346). -/
def LoopState.pushShardOf (s : LoopState) (srcHost : HostId) : LoopState :=
  { s with nodes := s.nodes.modify srcHost fun n =>
    { n with shardsByLoad := pushHeap n.shardsByLoadCmp n.shardsByLoad } }

/-- The deferred `std::push_heap` of `nodes_by_load` (lines 331-333). -/
def LoopState.pushNode (s : LoopState) : LoopState :=
  { s with nodesByLoad := pushHeap (nodesCmp s.nodes) s.nodesByLoad }

/-- The end of an iteration: the armed guards run, the shard heap's first. -/
def Deferred.finish (d : Deferred) : LoopState :=
  let s := if d.pushShard then d.state.pushShardOf d.srcHost else d.state
  if d.pushNode then s.pushNode else s

/-- Lines 387-405: emit the migration of `t` from `(srcHost, srcShard)` to the target's next
shard and update the counts, cancelling the pushes of a shard or host left with no tablets. -/
def emit (env : LoopEnv) (s : LoopState) (nodes : NodeMap) (nodesByLoad : List HostId)
    (srcHost : HostId) (srcShard : ShardId) (t : GlobalTabletId) : Except PlanError Deferred := do
  let (dstShard, targetLoad) := s.targetLoad.nextShard
  let plan := s.plan ++ [⟨t, ⟨srcHost, srcShard⟩, ⟨env.target, dstShard⟩⟩]
  let targetInfo ← ({ nodes.get env.target with
    tabletCount := (nodes.get env.target).tabletCount + 1 } : NodeLoad).update
  let nodes := nodes.modify env.target fun _ => targetInfo
  let shardCount ← decrement 394 ((nodes.get srcHost).shards.getD srcShard default).tabletCount
  let nodes := nodes.modify srcHost fun n =>
    { n with shards := n.shards.modify (fun sh => { sh with tabletCount := shardCount }) srcShard }
  let nodes := if shardCount = 0 then
      nodes.modify srcHost fun n => { n with shardsByLoad := n.shardsByLoad.dropLast }
    else nodes
  let srcCount ← decrement 400 (nodes.get srcHost).tabletCount
  let srcInfo ← ({ nodes.get srcHost with tabletCount := srcCount } : NodeLoad).update
  let nodes := nodes.modify srcHost fun _ => srcInfo
  pure ⟨⟨nodes, if srcCount = 0 then nodesByLoad.dropLast else nodesByLoad, plan,
    s.maxOffCandidateLoad, targetLoad⟩, srcHost, shardCount ≠ 0, srcCount ≠ 0⟩

/-- Lines 331-405, once the source host has shards: pop its most-loaded shard, drop the shard if
it has no candidates left, otherwise take the candidate at position `pick`, and skip it or emit
its migration. -/
def pickCandidate (env : LoopEnv) (pick : Nat) (s : LoopState) (nodesByLoad : List HostId)
    (srcHost : HostId) : Except PlanError Deferred := do
  let nodes := s.nodes.modify srcHost fun n =>
    { n with shardsByLoad := popHeap n.shardsByLoadCmp n.shardsByLoad }
  let srcShard ← back 336 (nodes.get srcHost).shardsByLoad
  let srcShardInfo ← match (nodes.get srcHost).shards[srcShard]? with
    | some sh => pure sh
    | none => throw (.undefined (.shardOutOfRange 338))
  if srcShardInfo.candidates = [] then
    pure ⟨{ s with nodes := nodes.modify srcHost (fun n =>
      { n with shardsByLoad := n.shardsByLoad.dropLast }), nodesByLoad }, srcHost, false, true⟩
  else
    let t := srcShardInfo.candidates.getD (pick % srcShardInfo.candidates.length) default
    let nodes := nodes.modify srcHost fun n =>
      { n with
        shards := n.shards.modify (fun sh => { sh with candidates := sh.candidates.erase t }) srcShard }
    if (← passesConstraints env t srcHost) then emit env s nodes nodesByLoad srcHost srcShard t
    else pure ⟨{ s with nodes, nodesByLoad }, srcHost, true, true⟩

/-- Lines 289-405 up to the end of the iteration: `none` when a termination check breaks the
loop, otherwise the state with the guards still to run. -/
def body (env : LoopEnv) (pick : Nat) (s : LoopState) : Except PlanError (Option Deferred) := do
  let nodesByLoad := popHeap (nodesCmp s.nodes) s.nodesByLoad
  let srcHost ← back 290 nodesByLoad
  let srcNodeInfo := s.nodes.get srcHost
  let targetInfo := s.nodes.get env.target
  if stdMax s.maxOffCandidateLoad srcNodeInfo.avgLoad = targetInfo.avgLoad then pure none
  else if srcNodeInfo.avgLoad ≤ targetInfo.avgLoad then pure none
  else do
    let srcAfter ← srcNodeInfo.getAvgLoad (← decrement 317 srcNodeInfo.tabletCount)
    let targetAfter ← targetInfo.getAvgLoad (targetInfo.tabletCount + 1)
    if srcAfter < targetAfter then pure none
    else if srcNodeInfo.shardsByLoad = [] then
      pure (some ⟨{ s with
        nodesByLoad := nodesByLoad.dropLast
        maxOffCandidateLoad := stdMax s.maxOffCandidateLoad srcNodeInfo.avgLoad }, srcHost, false, false⟩)
    else some <$> pickCandidate env pick s nodesByLoad srcHost

/-- One iteration of the selection loop. -/
def step (env : LoopEnv) (pick : Nat) (s : LoopState) : Except PlanError (Option LoopState) :=
  (body env pick s).map (Option.map Deferred.finish)

/-- The `while` condition of line 286. -/
def LoopState.Continues (env : LoopEnv) (s : LoopState) : Prop :=
  s.plan.length < env.batchSize ∧ s.nodesByLoad ≠ []

instance (env : LoopEnv) (s : LoopState) : Decidable (s.Continues env) :=
  inferInstanceAs (Decidable (_ ∧ _))

/-- The selection loop with `fuel` iterations to spare; iteration `fuel + 1` picks candidate
position `choose fuel`. -/
def balanceLoop (env : LoopEnv) (choose : Nat → Nat) : Nat → LoopState → Except PlanError LoopState
  | 0, s => if s.Continues env then throw .outOfFuel else pure s
  | fuel + 1, s =>
    if s.Continues env then do
      match ← step env (choose fuel) s with
      | none => pure s
      | some s' => balanceLoop env choose fuel s'
    else pure s

/-- The loop's iteration bound: the tablets on the balanced hosts, their shards, the hosts, and
one iteration more. -/
def loopBound (s : LoopState) : Nat :=
  (s.nodes.keys.map fun h => (s.nodes.get h).tabletCount + (s.nodes.get h).shardCount).sum +
    s.nodes.keys.length + 1

/-- How `make_plan(dc)` continues after phase E: with a plan already decided (balanced, or
pending transitions), or into the selection loop. -/
inductive Prepared where
  | done (plan : MigrationPlan)
  | run (env : LoopEnv) (s : LoopState)

/-- Phases A to E of `make_plan(dc)` (lines 147-285). -/
def prepare (tm : TokenMetadata) (dc : DcName) : Except PlanError Prepared := do
  let nodes ← tm.topology.nodes.foldlM (selectNode dc) NodeMap.empty
  let nodes ← tm.tablets.allReplicas.foldlM countReplica nodes
  let (nodes, maxLoad, minLoad, minLoadNode) ← nodes.keys.foldlM scanLoad (nodes, 0, 0, none)
  if maxLoad = minLoad then return .done []
  let target ← match minLoadNode with
    | some h => pure h
    | none => throw (.undefined .emptyMinLoadNode)
  let targetNode ← match tm.topology.findNode target with
    | some n => pure n
    | none => throw (.undefined .nullTargetNode)
  match ← computeShardLoad tm.tablets nodes with
  | none => return .done []
  | some nodes =>
    let (nodes, nodesByLoad) := makeHeaps nodes
    return .run ⟨tm, dc, target, targetNode.rack, targetNode.shardCount⟩
      ⟨nodes, nodesByLoad, [], 0, LoadSketch.populate tm.tablets target targetNode.shardCount⟩

/-- `load_balancer::make_plan(dc)`. -/
def makePlanDc (tm : TokenMetadata) (choose : Nat → Nat) (dc : DcName) :
    Except PlanError MigrationPlan := do
  match ← prepare tm dc with
  | .done plan => pure plan
  | .run env s => pure (← balanceLoop env choose (loopBound s) s).plan

/-- `load_balancer::make_plan()`: the plans of all datacenters, concatenated. -/
def makePlan (tm : TokenMetadata) (choose : DcName → Nat → Nat) : Except PlanError MigrationPlan :=
  tm.topology.getDatacenters.foldlM (fun plan dc => do
    pure (plan ++ (← makePlanDc tm (choose dc) dc))) []

end TabletLoadBalancer
