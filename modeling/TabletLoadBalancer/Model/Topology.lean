import Mathlib.Data.List.Dedup

/-!
# The snapshot the balancer plans over

`load_balancer` reads one `token_metadata` snapshot: the topology (which hosts exist, their
datacenter, rack, state and shard count) and the tablet metadata (for every table, the replica
list of each of its tablets and its pending transitions). This file is that snapshot as data.

The types behind it (`locator::topology`, `locator::tablet_map`, `locator::tablet_metadata`)
are not in the repository's `src/`; only the operations `tablet_allocator.cc` calls on them are
modelled, with the meaning the spec's topology view (§4.1) gives them. Identifiers (host ids,
table ids, datacenter and rack names) are opaque: only their equality is ever used, so they are
natural numbers here. A table id occurs once in the metadata and a host id once in the topology,
as in the maps these come from; the structures carry both facts.
-/

set_option autoImplicit false

namespace TabletLoadBalancer

/-- `locator::host_id`. -/
abbrev HostId := Nat
/-- `seastar::shard_id`. -/
abbrev ShardId := Nat
/-- `table_id`. -/
abbrev TableId := Nat
/-- `locator::tablet_id`: the position of a tablet in its table's tablet map. -/
abbrev TabletId := Nat
/-- A datacenter name (`sstring` in the source). -/
abbrev DcName := Nat
/-- A rack name (`sstring` in the source). -/
abbrev RackName := Nat

/-- `locator::tablet_replica`: one replica, pinned to a shard of a host. -/
structure TabletReplica where
  host : HostId
  shard : ShardId
deriving DecidableEq, Repr, Inhabited

/-- `locator::global_tablet_id`: a tablet named across tables. -/
structure GlobalTabletId where
  table : TableId
  tablet : TabletId
deriving DecidableEq, Repr, Inhabited

/-- `locator::tablet_info`: the replica list of one tablet. -/
structure TabletInfo where
  replicas : List TabletReplica
deriving DecidableEq, Repr

/-- `locator::tablet_map`: the tablets of one table, in `tablet_id` order, and the ids of those
with a pending transition (`transitions()`). -/
structure TabletMap where
  tablets : List TabletInfo
  transitions : List TabletId
deriving DecidableEq, Repr

/-- The tablet at position `tid`, if the map has one. -/
def TabletMap.findTabletInfo (m : TabletMap) (tid : TabletId) : Option TabletInfo :=
  m.tablets[tid]?

/-- `locator::tablet_metadata`: the tablet map of every table (`all_tables()`, in its iteration
order). Table ids are distinct, as the keys of the map this comes from. -/
structure TabletMetadata where
  tables : List (TableId × TabletMap)
  nodup : (tables.map Prod.fst).Nodup

/-- The tablet map of `table`, if the metadata has one. -/
def TabletMetadata.findTabletMap (tm : TabletMetadata) (table : TableId) : Option TabletMap :=
  tm.tables.lookup table

/-- The replica list of a tablet, if the tablet exists. -/
def TabletMetadata.tabletInfo (tm : TabletMetadata) (t : GlobalTabletId) : Option TabletInfo :=
  (tm.findTabletMap t.table).bind (·.findTabletInfo t.tablet)

/-- `r` is one of the replicas of tablet `t`. -/
def TabletMetadata.HasReplica (tm : TabletMetadata) (t : GlobalTabletId) (r : TabletReplica) :
    Prop :=
  ∃ info, tm.tabletInfo t = some info ∧ r ∈ info.replicas

/-- The replicas a `for_each_tablet` traversal of table `table`'s map visits, each with its
tablet: tablets in id order, replicas in list order. -/
def TabletMap.replicasOf (m : TabletMap) (table : TableId) :
    List (GlobalTabletId × TabletReplica) :=
  m.tablets.enum.flatMap fun (tid, info) => info.replicas.map fun r => (⟨table, tid⟩, r)

/-- Every replica of every tablet, in the order of a traversal of all tables. -/
def TabletMetadata.allReplicas (tm : TabletMetadata) : List (GlobalTabletId × TabletReplica) :=
  tm.tables.flatMap fun (table, m) => m.replicasOf table

/-- The state of a node; the balancer only asks whether it is *normal*. -/
inductive NodeState where
  | normal
  | notNormal
deriving DecidableEq, Repr

/-- `locator::node`: host id, datacenter and rack (`dc_rack()`), state, and shard count. -/
structure Node where
  hostId : HostId
  dc : DcName
  rack : RackName
  state : NodeState
  shardCount : Nat
deriving DecidableEq, Repr

/-- `locator::topology`: the nodes, in `for_each_node` order. Host ids are distinct. -/
structure Topology where
  nodes : List Node
  nodup : (nodes.map Node.hostId).Nodup

/-- `topology::get_datacenters`: the datacenters of the topology's nodes. -/
def Topology.getDatacenters (t : Topology) : List DcName :=
  (t.nodes.map Node.dc).dedup

/-- `topology::find_node`. -/
def Topology.findNode (t : Topology) (h : HostId) : Option Node :=
  t.nodes.find? (·.hostId == h)

/-- `locator::token_metadata`, as far as the balancer reads it. -/
structure TokenMetadata where
  topology : Topology
  tablets : TabletMetadata

end TabletLoadBalancer
