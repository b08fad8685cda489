import TabletLoadBalancer.Analysis.Body

/-!
# The replication constraints a migration passes

`passesConstraints` (lines 353-385) walks the candidate's replica list once. This file says what
the walk computes: whether a replica lies on the target, and otherwise, across racks, the bag of
the racks of the replicas in the datacenter (`rackHistogram`), so that the check compares the
target rack's count with the largest count (`ConstraintsHold`). A candidate with a replica on a
node of the datacenter puts that node's rack into the bag, which is then not empty: the check
fails for it only to look up an unknown host, and performs no undefined operation.
-/

set_option autoImplicit false

namespace TabletLoadBalancer

/-- The rack of each replica in `rs` whose host is a node of `dc`, one entry per replica. -/
def rackHistogram (topo : Topology) (dc : DcName) (rs : List TabletReplica) : List RackName :=
  rs.filterMap fun r => (topo.findNode r.host).bind fun n => if n.dc = dc then some n.rack else none

/-- How many replicas in `rs` lie on nodes of `dc` in rack `rack`. -/
def rackCount (topo : Topology) (dc : DcName) (rs : List TabletReplica) (rack : RackName) : Nat :=
  (rackHistogram topo dc rs).count rack

/-- The largest `rackCount` over all racks (zero when no replica is in `dc`). -/
def maxRackCount (topo : Topology) (dc : DcName) (rs : List TabletReplica) : Nat :=
  ((rackHistogram topo dc rs).map (rackCount topo dc rs)).max?.getD 0

/-- The constraints of lines 353-385 on moving a tablet with replica list `info` from `srcNode`
to the target: no replica is there already, and across racks the target rack does not end above
the most-loaded rack. -/
def ConstraintsHold (env : LoopEnv) (srcNode : Node) (info : TabletInfo) : Prop :=
  (∀ r ∈ info.replicas, r.host ≠ env.target) ∧
    (env.targetRack = srcNode.rack ∨
      rackCount env.tm.topology env.dc info.replicas env.targetRack + 1 ≤
        maxRackCount env.tm.topology env.dc info.replicas)

theorem rackHistogram_cons {topo : Topology} {dc : DcName} {r : TabletReplica} {n : Node}
    (rs : List TabletReplica) (hn : topo.findNode r.host = some n) :
    rackHistogram topo dc (r :: rs) = (if n.dc = dc then [n.rack] else []) ++ rackHistogram topo dc rs := by
  by_cases h : n.dc = dc <;> simp [rackHistogram, List.filterMap_cons, hn, h]

/-- Every rack count is at most the largest one. -/
theorem rackCount_le_maxRackCount (topo : Topology) (dc : DcName) (rs : List TabletReplica)
    (rack : RackName) : rackCount topo dc rs rack ≤ maxRackCount topo dc rs := by
  by_cases h : rack ∈ rackHistogram topo dc rs
  · exact List.le_max?_getD_of_mem (List.mem_map_of_mem _ h)
  · simp [rackCount, List.count_eq_zero_of_not_mem h]

/-- A bound on every rack count bounds the largest one. -/
theorem maxRackCount_le {topo : Topology} {dc : DcName} {rs : List TabletReplica} {m : Nat}
    (h : ∀ rack, rackCount topo dc rs rack ≤ m) : maxRackCount topo dc rs ≤ m := by
  unfold maxRackCount
  cases hm : ((rackHistogram topo dc rs).map (rackCount topo dc rs)).max? with
  | none => simp
  | some a =>
    obtain ⟨ha, -⟩ := List.max?_eq_some_iff'.mp hm
    obtain ⟨rack, -, rfl⟩ := List.mem_map.mp ha
    exact h rack

@[simp] theorem getNode_eq_ok {topo : Topology} {h : HostId} {n : Node} :
    getNode topo h = .ok n ↔ topo.findNode h = some n := by
  unfold getNode; split <;> simp_all [throw, throwThe, MonadExceptOf.throw, pure, Except.pure]

@[simp] theorem getNode_eq_error {topo : Topology} {h : HostId} {e : PlanError} :
    getNode topo h = .error e ↔ topo.findNode h = none ∧ e = .nodeNotFound h := by
  unfold getNode
  cases topo.findNode h <;> simp [throw, throwThe, MonadExceptOf.throw, pure, Except.pure, eq_comm]

/-- The walk finds a replica on the target exactly when there is one; when it finds none across
racks, it has counted every replica in the datacenter. -/
theorem scanReplicas_eq_ok {topo : Topology} {dc : DcName} {target : HostId} {sameRack : Bool} :
    ∀ {rs : List TabletReplica} {acc : List RackName} {found : Bool} {rl : List RackName},
      scanReplicas topo dc target sameRack rs acc = .ok (found, rl) →
      (found = true ↔ ∃ r ∈ rs, r.host = target) ∧
        (found = false → sameRack = false → rl = acc ++ rackHistogram topo dc rs)
  | [], acc, found, rl, h => by
    simp only [scanReplicas, except_pure_eq_ok, Prod.mk.injEq] at h
    obtain ⟨rfl, rfl⟩ := h
    simp [rackHistogram]
  | r :: rs, acc, found, rl, h => by
    unfold scanReplicas at h
    by_cases hr : r.host = target
    · simp only [hr, if_true, except_pure_eq_ok, Prod.mk.injEq] at h
      obtain ⟨rfl, rfl⟩ := h
      exact ⟨by simp only [true_iff]; exact ⟨r, List.mem_cons_self _ _, hr⟩, by simp⟩
    by_cases hs : sameRack = true
    · simp only [hr, hs, if_true, if_false] at h
      obtain ⟨ih, -⟩ := scanReplicas_eq_ok h
      exact ⟨by simp [ih, hr], by simp [hs]⟩
    · simp only [hr, hs, if_false, bind, Except.bind] at h
      rcases hg : getNode topo r.host with _ | n
      · simp [hg] at h
      have hn := getNode_eq_ok.mp hg
      simp only [hg] at h
      obtain ⟨ih, hrl⟩ := scanReplicas_eq_ok h
      refine ⟨by simp [ih, hr], fun hf _ => ?_⟩
      rw [hrl hf (by simp [hs]), rackHistogram_cons _ hn]
      split <;> simp

/-- The walk fails only to look up the host of one of the replicas, which the topology does not
know. -/
theorem scanReplicas_eq_error (topo : Topology) (dc : DcName) (target : HostId)
    (sameRack : Bool) {e : PlanError} :
    ∀ (rs : List TabletReplica) (acc : List RackName),
      scanReplicas topo dc target sameRack rs acc = .error e →
        ∃ r ∈ rs, topo.findNode r.host = none ∧ e = .nodeNotFound r.host
  | [], acc, hs => by cases hs
  | r :: rs, acc, hs => by
    have tail : ∀ acc', scanReplicas topo dc target sameRack rs acc' = .error e →
        ∃ r' ∈ r :: rs, topo.findNode r'.host = none ∧ e = .nodeNotFound r'.host := fun acc' h =>
      let ⟨r', hr', he⟩ := scanReplicas_eq_error topo dc target sameRack rs acc' h
      ⟨r', List.mem_cons_of_mem _ hr', he⟩
    unfold scanReplicas at hs
    split at hs
    · cases hs
    split at hs
    · exact tail acc hs
    · simp only [except_bind_eq_error, getNode_eq_error] at hs
      rcases hs with ⟨hf, rfl⟩ | ⟨_, -, hs⟩
      · exact ⟨r, List.mem_cons_self _ _, hf, rfl⟩
      · exact tail _ hs

theorem maxRackLoad_eq_ok {rl : List RackName} {m : Nat} :
    maxRackLoad rl = .ok m ↔ (rl.map rl.count).max? = some m := by
  unfold maxRackLoad; split <;> simp_all [throw, throwThe, MonadExceptOf.throw, pure, Except.pure]

@[simp] theorem getTabletMap_eq_ok {tm : TabletMetadata} {table : TableId} {m : TabletMap} :
    tm.getTabletMap table = .ok m ↔ tm.findTabletMap table = some m := by
  unfold TabletMetadata.getTabletMap
  split <;> simp_all [throw, throwThe, MonadExceptOf.throw, pure, Except.pure]

@[simp] theorem getTabletInfo_eq_ok {m : TabletMap} {tid : TabletId} {i : TabletInfo} :
    m.getTabletInfo tid = .ok i ↔ m.findTabletInfo tid = some i := by
  unfold TabletMap.getTabletInfo
  split <;> simp_all [throw, throwThe, MonadExceptOf.throw, pure, Except.pure]

theorem tabletInfo_eq_some {tm : TabletMetadata} {t : GlobalTabletId} {info : TabletInfo} :
    tm.tabletInfo t = some info ↔
      ∃ m, tm.findTabletMap t.table = some m ∧ m.findTabletInfo t.tablet = some info :=
  Option.bind_eq_some

/-- The check's verdict: `true` exactly when the constraints hold for the source's node and the
candidate's replica list, both of which exist. -/
theorem passesConstraints_eq_ok {env : LoopEnv} {t : GlobalTabletId} {srcHost : HostId} {b : Bool}
    (h : passesConstraints env t srcHost = .ok b) :
    ∃ srcNode info, env.tm.topology.findNode srcHost = some srcNode ∧
      env.tm.tablets.tabletInfo t = some info ∧ (b = true ↔ ConstraintsHold env srcNode info) := by
  unfold passesConstraints at h
  simp only [except_bind_eq_ok, getNode_eq_ok, getTabletMap_eq_ok, getTabletInfo_eq_ok] at h
  obtain ⟨srcNode, hn, m, hm, info, hi, ⟨found, rl⟩, hs, h⟩ := h
  refine ⟨srcNode, info, hn, tabletInfo_eq_some.mpr ⟨m, hm, hi⟩, ?_⟩
  obtain ⟨hfound, hrl⟩ := scanReplicas_eq_ok hs
  by_cases hf : found = true
  · simp only [hf, if_true, except_pure_eq_ok] at h
    obtain ⟨r, hr, hrt⟩ := hfound.mp hf
    simp only [← h, Bool.false_eq_true, false_iff, ConstraintsHold, not_and]
    exact fun hno => absurd hrt (hno r hr)
  have hno : ∀ r ∈ info.replicas, r.host ≠ env.target := fun r hr hrt =>
    hf (hfound.mpr ⟨r, hr, hrt⟩)
  by_cases hsr : env.targetRack = srcNode.rack
  · simp only [hf, hsr, decide_True, if_true, if_false, except_pure_eq_ok, Bool.false_eq_true] at h
    simp only [← h, true_iff, ConstraintsHold]
    exact ⟨hno, .inl hsr⟩
  · simp only [hf, hsr, decide_False, if_false, Bool.false_eq_true, except_bind_eq_ok,
      except_pure_eq_ok, maxRackLoad_eq_ok] at h
    obtain ⟨mx, hmx, rfl⟩ := h
    rw [hrl (by simpa using hf) (by simpa using hsr), List.nil_append] at hmx ⊢
    have hmax : maxRackCount env.tm.topology env.dc info.replicas = mx := by
      unfold maxRackCount rackCount; rw [hmx]; rfl
    simp only [ConstraintsHold, rackCount, hmax, hsr, false_or, decide_eq_true_iff]
    exact ⟨fun h => ⟨hno, h⟩, fun h => h.2⟩

/-- The check of a candidate with a replica on a source node of the datacenter fails only to look
up the host of one of the candidate's replicas, which the topology does not know: in particular
it performs no undefined operation. -/
theorem passesConstraints_eq_error {env : LoopEnv} {t : GlobalTabletId} {srcHost : HostId}
    {shard : ShardId} {srcNode : Node} (hr : env.tm.tablets.HasReplica t ⟨srcHost, shard⟩)
    (hn : env.tm.topology.findNode srcHost = some srcNode) (hdc : srcNode.dc = env.dc)
    {e : PlanError} (h : passesConstraints env t srcHost = .error e) :
    ∃ r, env.tm.tablets.HasReplica t r ∧ env.tm.topology.findNode r.host = none ∧
      e = .nodeNotFound r.host := by
  obtain ⟨info, hi, hmem⟩ := hr
  obtain ⟨m, hm, hi⟩ := tabletInfo_eq_some.mp hi
  have hm' : env.tm.tablets.getTabletMap t.table = .ok m := getTabletMap_eq_ok.mpr hm
  have hi' : m.getTabletInfo t.tablet = .ok info := getTabletInfo_eq_ok.mpr hi
  unfold passesConstraints at h
  simp only [except_bind_eq_error, getNode_eq_error, getNode_eq_ok, hn, hm', hi',
    reduceCtorEq, false_and, Except.ok.injEq, Option.some.injEq, exists_eq_left', false_or] at h
  rcases h with h | ⟨⟨found, rl⟩, hs, h⟩
  · obtain ⟨r, hr, he⟩ := scanReplicas_eq_error _ _ _ _ _ _ h
    exact ⟨r, ⟨info, tabletInfo_eq_some.mpr ⟨m, hm, hi⟩, hr⟩, he⟩
  obtain ⟨-, hrl⟩ := scanReplicas_eq_ok hs
  cases found
  · by_cases hsr : env.targetRack = srcNode.rack
    · simp [hsr, pure, Except.pure] at h
    have hrack : srcNode.rack ∈ rl := by
      rw [hrl rfl (by simpa using hsr), List.nil_append]
      exact List.mem_filterMap.mpr ⟨_, hmem, by simp [hn, hdc]⟩
    obtain ⟨mx, hmx⟩ : ∃ mx, (rl.map rl.count).max? = some mx :=
      Option.ne_none_iff_exists'.mp (by simpa using List.ne_nil_of_mem hrack)
    simp [hsr, maxRackLoad_eq_ok.mpr hmx, bind, Except.bind, pure, Except.pure] at h
  · simp [pure, Except.pure] at h

end TabletLoadBalancer
