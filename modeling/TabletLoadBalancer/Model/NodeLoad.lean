import Mathlib.Data.Rat.Defs
import Mathlib.Algebra.Order.Field.Rat
import TabletLoadBalancer.Model.Heap
import TabletLoadBalancer.Model.LoadSketch

/-!
# The planner's bookkeeping: `shard_load`, `node_load`, the node map and the migration plan

These are the data structures `load_balancer::make_plan(dc)` builds from the snapshot, mutates in
its selection loop and discards on return (`tablet_allocator.cc:81-121, 151, 258, 282-284`).

`load_type` is `double` in the source. The model computes the exact quotient `tablets /
shard_count` as a rational (`mkRat`, so that concrete plans evaluate by `decide`), and every
comparison of loads in the model, and every statement about loads over it, is one of exact
rationals: rounding of the `double` quotients is not modelled.

Everything `make_plan` can run into instead of returning a plan is a `PlanError`: the two
exceptions it throws itself, the exceptions of the snapshot's lookups, and each operation whose
behaviour C++ leaves undefined (or that wraps an unsigned count), recorded with its source line
rather than executed. A run that never produces `undefined` performs none of them.
-/

set_option autoImplicit false

namespace TabletLoadBalancer

/-- An operation of `make_plan` that C++ does not define, or that would wrap an unsigned count. -/
inductive UndefinedBehaviour where
  /-- `tablet_count - 1` (or `-= 1`) on a zero count, at `line` (317, 394 or 400). -/
  | tabletCountUnderflow (line : Nat)
  /-- `std::max_element(...)->second` on an empty `rack_load` (lines 377-378). -/
  | emptyRackLoad
  /-- `shards[shard]` with `shard >= shard_count`, at `line` (245 or 338). -/
  | shardOutOfRange (line : Nat)
  /-- `get_avg_load` on a node whose `shard_count` is zero. -/
  | divisionByZero
  /-- `*min_load_node` while it is empty (line 206). -/
  | emptyMinLoadNode
  /-- `back()` of an empty heap vector, at `line` (290 or 336). -/
  | emptyHeap (line : Nat)
  /-- `target_node->` after `find_node` found no node (line 228). -/
  | nullTargetNode
  /-- `get_tablet_info` past the end of the tablet map. -/
  | tabletOutOfRange
deriving DecidableEq, Repr

/-- What a call of `make_plan` ends in when it returns no plan. -/
inductive PlanError where
  /-- `"Shard count of {host} not found in topology"` (line 158). -/
  | shardCountNotFound (host : HostId)
  /-- `"Tablet {tablet} replica {replica} targets non-existent shard"` (line 173). -/
  | nonExistentShard (tablet : GlobalTabletId) (replica : TabletReplica)
  /-- `topology::get_node` of a host the topology does not know. -/
  | nodeNotFound (host : HostId)
  /-- `tablet_metadata::get_tablet_map` of a table without a tablet map. -/
  | noTabletMap (table : TableId)
  /-- An operation C++ leaves undefined. -/
  | undefined (ub : UndefinedBehaviour)
  /-- The selection loop ran past its bound; the termination theorem shows it never does. -/
  | outOfFuel
deriving DecidableEq, Repr

/-- `n - 1` on an unsigned count, at source line `line`. -/
def decrement (line n : Nat) : Except PlanError Nat :=
  if n = 0 then throw (.undefined (.tabletCountUnderflow line)) else pure (n - 1)

/-- `v.back()` of a heap vector, at source line `line`. -/
def back (line : Nat) (v : List Nat) : Except PlanError Nat :=
  match v.getLast? with
  | some a => pure a
  | none => throw (.undefined (.emptyHeap line))

/-- `std::max` on loads: `(a < b) ? b : a`. -/
def stdMax (a b : ℚ) : ℚ := if a < b then b else a

/-- `load_balancer::shard_load`: the tablets on one shard and the candidates still on it. The
`std::unordered_set` of candidates is a duplicate-free list; which element `begin()` yields is
left to the caller of the loop (see `step`). -/
structure ShardLoad where
  tabletCount : Nat
  candidates : List GlobalTabletId
deriving DecidableEq, Repr, Inhabited

/-- `load_balancer::node_load`. The never-assigned `node` member is left out. -/
structure NodeLoad where
  shardCount : Nat
  tabletCount : Nat
  avgLoad : ℚ
  shardsByLoad : List ShardId
  shards : List ShardLoad
deriving DecidableEq, Repr, Inhabited

/-- `node_load::get_avg_load`: `double(tablets) / shard_count`. -/
def NodeLoad.getAvgLoad (n : NodeLoad) (tablets : Nat) : Except PlanError ℚ :=
  if n.shardCount = 0 then throw (.undefined .divisionByZero)
  else pure (mkRat tablets n.shardCount)

/-- `node_load::update`: recompute `avg_load` from `tablet_count`. -/
def NodeLoad.update (n : NodeLoad) : Except PlanError NodeLoad := do
  pure { n with avgLoad := ← n.getAvgLoad n.tabletCount }

/-- `node_load::shards_by_load_cmp`: order shards by their tablet count. -/
def NodeLoad.shardsByLoadCmp (n : NodeLoad) (a b : ShardId) : Bool :=
  decide ((n.shards.getD a default).tabletCount < (n.shards.getD b default).tabletCount)

/-- `std::unordered_map<host_id, node_load>`: the hosts it holds, in iteration order, and the
entry of each host (`operator[]` of an absent host reads a default-constructed entry). -/
structure NodeMap where
  keys : List HostId
  get : HostId → NodeLoad

/-- The empty map. -/
def NodeMap.empty : NodeMap := ⟨[], fun _ => default⟩

/-- Write the entry of `h`, inserting `h` if it is absent. -/
def NodeMap.insert (m : NodeMap) (h : HostId) (n : NodeLoad) : NodeMap :=
  ⟨if h ∈ m.keys then m.keys else m.keys ++ [h], Function.update m.get h n⟩

/-- Change the entry of a host already in the map. -/
def NodeMap.modify (m : NodeMap) (h : HostId) (f : NodeLoad → NodeLoad) : NodeMap :=
  ⟨m.keys, Function.update m.get h (f (m.get h))⟩

/-- `nodes_cmp`: order hosts by their current `avg_load`. -/
def nodesCmp (nodes : NodeMap) (a b : HostId) : Bool :=
  decide ((nodes.get a).avgLoad < (nodes.get b).avgLoad)

/-- `locator::tablet_migration_info`: move `tablet`'s replica `src` to `dst`. -/
structure TabletMigrationInfo where
  tablet : GlobalTabletId
  src : TabletReplica
  dst : TabletReplica
deriving DecidableEq, Repr

/-- `locator::migration_plan`: the migrations, in the order they were chosen. -/
abbrev MigrationPlan := List TabletMigrationInfo

@[simp] theorem NodeMap.modify_keys (m : NodeMap) (h : HostId) (f : NodeLoad → NodeLoad) :
    (m.modify h f).keys = m.keys := rfl

@[simp] theorem NodeMap.modify_get (m : NodeMap) (h h' : HostId) (f : NodeLoad → NodeLoad) :
    (m.modify h f).get h' = if h' = h then f (m.get h) else m.get h' := by
  simp [NodeMap.modify, Function.update_apply]

@[simp] theorem NodeMap.modify_modify (m : NodeMap) (h : HostId) (f g : NodeLoad → NodeLoad) :
    (m.modify h f).modify h g = m.modify h (fun n => g (f n)) := by
  simp [NodeMap.modify, Function.update_idem]

theorem stdMax_eq_max (a b : ℚ) : stdMax a b = max a b := by
  unfold stdMax; split <;> simp_all [le_of_lt, max_def, not_lt.mp]

end TabletLoadBalancer
