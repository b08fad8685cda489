import TabletLoadBalancer.Model.Topology

/-!
# The target's load sketch

`make_plan` asks `locator::load_sketch` for the shard of the target that receives each migrated
tablet. The sketch lives in `locator/load_sketch.hh`, which is not in `src/`; it is modelled
here from the spec (§4.2): it holds the live tablet count of every shard of one node, taken from
the same snapshot, and `next_shard` returns the least-loaded shard, the lowest id among equals,
and counts the new tablet on it.
-/

set_option autoImplicit false

namespace TabletLoadBalancer

/-- Modelled from the spec: `locator::load_sketch` (its header is not in `src/`), for the one
node it is populated for: the tablet count of each of its shards, indexed by shard id. -/
structure LoadSketch where
  shardLoads : List Nat
deriving DecidableEq, Repr

/-- Modelled from the spec: `load_sketch::populate(host)`, the current number of replicas of
`host` on each of its `shardCount` shards. -/
def LoadSketch.populate (tm : TabletMetadata) (host : HostId) (shardCount : Nat) : LoadSketch :=
  ⟨(List.range shardCount).map fun s => (tm.allReplicas.filter (·.2 = ⟨host, s⟩)).length⟩

/-- Modelled from the spec: `load_sketch::next_shard`, the first shard of least load, with that
load raised by one. -/
def LoadSketch.nextShard (ls : LoadSketch) : ShardId × LoadSketch :=
  let s := ls.shardLoads.findIdx fun c => decide (∀ d ∈ ls.shardLoads, c ≤ d)
  (s, ⟨ls.shardLoads.modify (· + 1) s⟩)

/-- The shard `next_shard` returns is one of the node's shards. -/
theorem LoadSketch.nextShard_lt (ls : LoadSketch) (h : 0 < ls.shardLoads.length) :
    ls.nextShard.1 < ls.shardLoads.length := by
  obtain ⟨c, hc⟩ : ∃ c, ls.shardLoads.min? = some c := Option.ne_none_iff_exists'.mp
    (by simpa [List.min?_eq_none_iff] using List.ne_nil_of_length_pos h)
  obtain ⟨hmem, hmin⟩ := List.min?_eq_some_iff'.mp hc
  exact List.findIdx_lt_length_of_exists ⟨c, hmem, by simpa using hmin⟩

/-- A populated sketch has one entry per shard. -/
@[simp] theorem LoadSketch.populate_length (tm : TabletMetadata) (host : HostId) (n : Nat) :
    (LoadSketch.populate tm host n).shardLoads.length = n := by
  simp [LoadSketch.populate]

/-- `next_shard` keeps one entry per shard. -/
@[simp] theorem LoadSketch.nextShard_length (ls : LoadSketch) :
    ls.nextShard.2.shardLoads.length = ls.shardLoads.length := by
  simp [LoadSketch.nextShard]

end TabletLoadBalancer
