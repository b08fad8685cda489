import TabletLoadBalancer.Analysis.NodeInv

/-!
# The invariant of the selection loop

`LoopInv env s` is what holds at the head of every iteration: every balanced host is a normal
node of the datacenter and its entry is `NodeOk`; `nodes_by_load` holds distinct balanced hosts,
the target among them, and is a heap of `loadKey`, each host's load clipped from below at the
target's; `max_off_candidate_load`, once set, bounds those keys; a host off the heap has no
shards or no tablets left; every migration of the plan moves a replica of its tablet from a
balanced host other than the target to the target, passed the replication constraints, and its
tablet is no longer a candidate there; every replica on a balanced host is still a candidate,
was rejected, or was moved; and the hosts' counts are the input's counts with the plan applied,
each migration having passed the inversion check on the counts of its time (`Guarded`).

This file defines it and proves that the paths that move no tablet keep it; `LoopEmit` does the
emission.
-/

set_option autoImplicit false

namespace TabletLoadBalancer

/-- The order `nodes_by_load` keeps: a host's load, or the target's when that is larger. The
target's load grows while it sits in the heap (lines 391-392), which breaks the heap order of
`nodes_cmp` itself but not this one. -/
def loadKey (env : LoopEnv) (s : LoopState) (h : HostId) : ℚ :=
  max (s.nodes.get h).avgLoad (s.nodes.get env.target).avgLoad

theorem nodesCmp_consistent (env : LoopEnv) (s : LoopState) :
    Consistent (nodesCmp s.nodes) (loadKey env s) :=
  consistent_of_monotone (fun h => (s.nodes.get h).avgLoad)
    (fun q => max q (s.nodes.get env.target).avgLoad) fun _ _ hab => max_le_max hab le_rfl

/-- The number of replicas the input places on host `h`. -/
def replicaCount (tm : TabletMetadata) (h : HostId) : Nat :=
  (tm.allReplicas.filter fun r => r.2.host = h).length

/-- The per-host counts once migration `m` has moved one tablet. -/
def moveCount (c : HostId → Nat) (m : TabletMigrationInfo) (h : HostId) : Nat :=
  if h = m.src.host then c h - 1 else if h = m.dst.host then c h + 1 else c h

/-- The per-host counts once the migrations of `plan` are applied in order. -/
def runningCounts (c : HostId → Nat) (plan : MigrationPlan) : HostId → Nat :=
  plan.foldl moveCount c

/-- Each migration of `plan`, applied in order to the counts `c`, leaves the loads of its source
no lower than its destination's (the check of lines 316-322 on the counts of its time), from a
source that had a tablet. -/
def Guarded (sc : HostId → Nat) : (HostId → Nat) → MigrationPlan → Prop
  | _, [] => True
  | c, m :: plan => 0 < c m.src.host ∧
      mkRat (c m.dst.host + 1) (sc m.dst.host) ≤ mkRat (c m.src.host - 1 : Nat) (sc m.src.host) ∧
      Guarded sc (moveCount c m) plan

/-- What every migration of the plan satisfies once the loop's node map is `nodes`. -/
structure MigrationOk (env : LoopEnv) (nodes : NodeMap) (m : TabletMigrationInfo) : Prop where
  src_mem : m.src.host ∈ nodes.keys
  src_ne : m.src.host ≠ env.target
  dst : m.dst.host = env.target
  replica : env.tm.tablets.HasReplica m.tablet m.src
  accepted : passesConstraints env m.tablet m.src.host = .ok true
  taken : m.tablet ∉ (nodes.get m.src.host).candidatesOf m.src.shard

/-- What holds at the head of every iteration of the selection loop. -/
structure LoopInv (env : LoopEnv) (s : LoopState) : Prop where
  node : ∀ h ∈ s.nodes.keys, ∃ n, env.tm.topology.findNode h = some n ∧ n.state = .normal ∧
    n.dc = env.dc ∧ (s.nodes.get h).shardCount = n.shardCount ∧ 0 < n.shardCount
  target_mem : env.target ∈ s.nodes.keys
  nodeOk : ∀ h ∈ s.nodes.keys, NodeOk env.tm.tablets h (s.nodes.get h)
  nbl_keys : ∀ h ∈ s.nodesByLoad, h ∈ s.nodes.keys
  nbl_nodup : s.nodesByLoad.Nodup
  target_nbl : env.target ∈ s.nodesByLoad
  heap : HeapBelow (loadKey env s) s.nodesByLoad s.nodesByLoad.length 0
  maxOff : s.maxOffCandidateLoad ≠ 0 → ∀ h ∈ s.nodesByLoad,
    loadKey env s h ≤ s.maxOffCandidateLoad
  off : ∀ h ∈ s.nodes.keys, h ∉ s.nodesByLoad →
    (s.nodes.get h).shardsByLoad = [] ∨ (s.nodes.get h).tabletCount = 0
  plan : ∀ m ∈ s.plan, MigrationOk env s.nodes m
  plan_nodup : (s.plan.map fun m => (m.tablet, m.src)).Nodup
  plan_length : s.plan.length ≤ env.batchSize
  accounted : ∀ h ∈ s.nodes.keys, ∀ t sh, env.tm.tablets.HasReplica t ⟨h, sh⟩ →
    t ∈ (s.nodes.get h).candidatesOf sh ∨ passesConstraints env t h = .ok false ∨
      (t, ⟨h, sh⟩) ∈ s.plan.map fun m => (m.tablet, m.src)
  counts : ∀ h ∈ s.nodes.keys,
    (s.nodes.get h).tabletCount = runningCounts (replicaCount env.tm.tablets) s.plan h
  guarded : Guarded (fun h => (s.nodes.get h).shardCount) (replicaCount env.tm.tablets) s.plan

/-- What an iteration from `s` that popped `src` leaves in `s'`: the invariant, and every host
still in `nodes_by_load` with a key at most the source's load when it was popped. -/
def StepOk (env : LoopEnv) (s : LoopState) (src : HostId) (s' : LoopState) : Prop :=
  LoopInv env s' ∧ ∀ h ∈ s'.nodesByLoad, loadKey env s' h ≤ (s.nodes.get src).avgLoad

variable {env : LoopEnv} {s s' : LoopState} {src : HostId}

/-- What the pop of an iteration that passes the checks gives: the source is the heap's root, a
balanced host other than the target, whose key is its own load and bounds the keys of the rest. -/
theorem LoopInv.popped (inv : LoopInv env s) (hc : s.Continues env) (hp : Popped env s src) :
    src = s.nodesByLoad.getD 0 default ∧ src ∈ s.nodesByLoad ∧ src ≠ env.target ∧
      loadKey env s src = (s.nodes.get src).avgLoad ∧
      (popHeap (nodesCmp s.nodes) s.nodesByLoad).dropLast.Nodup ∧
      (∀ h, h ∈ (popHeap (nodesCmp s.nodes) s.nodesByLoad).dropLast ↔
        h ∈ s.nodesByLoad ∧ h ≠ src) ∧
      ∀ h ∈ s.nodesByLoad, loadKey env s h ≤ (s.nodes.get src).avgLoad := by
  have hv : 0 < s.nodesByLoad.length := List.length_pos.mpr hc.2
  obtain ⟨hsrc, hmem⟩ := popHeap_back (nodesCmp s.nodes) hv hp.pop
  have hne : src ≠ env.target := fun heq => by
    have := hp.checks.above; rw [heq] at this; exact lt_irrefl _ this
  have hkey : loadKey env s src = (s.nodes.get src).avgLoad :=
    max_eq_left (le_of_lt hp.checks.above)
  obtain ⟨hnd, -, hrest⟩ := popHeap_split (nodesCmp s.nodes) hv inv.nbl_nodup
  refine ⟨hsrc, hmem, hne, hkey, hnd, fun h => by rw [hrest, ← hsrc], fun h hh => ?_⟩
  rw [← hkey, hsrc]
  exact inv.heap.le_root hh

/-! ## What the paths that move no tablet keep -/

/-- The balanced hosts and their shard counts, which no iteration changes. -/
structure SameHosts (N N' : NodeMap) : Prop where
  keys : N'.keys = N.keys
  shardCount : ∀ h, (N'.get h).shardCount = (N.get h).shardCount

theorem LoopInv.node_of_sameHosts (inv : LoopInv env s) {N : NodeMap} (hs : SameHosts s.nodes N) :
    ∀ h ∈ N.keys, ∃ n, env.tm.topology.findNode h = some n ∧ n.state = .normal ∧
      n.dc = env.dc ∧ (N.get h).shardCount = n.shardCount ∧ 0 < n.shardCount := by
  intro h hk
  rw [hs.keys] at hk
  rw [hs.shardCount]
  exact inv.node h hk

/-- A migration stays `MigrationOk` while the hosts stay and candidates are only removed. -/
theorem MigrationOk.mono {m : TabletMigrationInfo} {N N' : NodeMap} (hm : MigrationOk env N m)
    (hs : SameHosts N N') (hsub : ∀ h sh, (N'.get h).candidatesOf sh ⊆ (N.get h).candidatesOf sh) :
    MigrationOk env N' m :=
  { hm with
    src_mem := hs.keys ▸ hm.src_mem
    taken := fun ht => hm.taken (hsub _ _ ht) }

theorem loadKey_congr {N : NodeMap} (havg : ∀ h, (N.get h).avgLoad = (s.nodes.get h).avgLoad) :
    loadKey env { s with nodes := N } = loadKey env s := funext fun h => by
  simp only [loadKey, havg]

/-- Pushing the popped source back, when no load changed, restores the members of
`nodes_by_load` and its heap order. -/
theorem LoopInv.pushBack (inv : LoopInv env s) (hc : s.Continues env) (N : NodeMap)
    (havg : ∀ h, (N.get h).avgLoad = (s.nodes.get h).avgLoad) :
    (pushHeap (nodesCmp N) (popHeap (nodesCmp s.nodes) s.nodesByLoad)).Perm s.nodesByLoad ∧
      HeapBelow (loadKey env { s with nodes := N })
        (pushHeap (nodesCmp N) (popHeap (nodesCmp s.nodes) s.nodesByLoad))
        (pushHeap (nodesCmp N) (popHeap (nodesCmp s.nodes) s.nodesByLoad)).length 0 := by
  refine ⟨(pushHeap_perm _ _).trans (popHeap_perm _ _), ?_⟩
  rw [pushHeap_length, popHeap_length, loadKey_congr havg]
  exact pushHeap_popHeap_order (nodesCmp_consistent env s)
    (by simpa only [loadKey_congr havg] using nodesCmp_consistent env { s with nodes := N })
    (List.length_pos.mpr hc.2) inv.heap fun _ _ _ _ => id

/-- Lines 324-330: dropping a source without shards keeps the invariant. -/
theorem LoopInv.dropNode (inv : LoopInv env s) (hc : s.Continues env) (hp : Popped env s src)
    (hsh : (s.nodes.get src).shardsByLoad = []) :
    StepOk env s src { s with
      nodesByLoad := (popHeap (nodesCmp s.nodes) s.nodesByLoad).dropLast
      maxOffCandidateLoad := stdMax s.maxOffCandidateLoad (s.nodes.get src).avgLoad } := by
  obtain ⟨-, -, hne, -, hnd, hrest, hle⟩ := inv.popped hc hp
  refine ⟨{ inv with
    nbl_keys := fun h hh => inv.nbl_keys h ((hrest h).mp hh).1
    nbl_nodup := hnd
    target_nbl := (hrest _).mpr ⟨inv.target_nbl, hne.symm⟩
    heap := popHeap_dropLast_order (nodesCmp_consistent env s) inv.heap fun _ _ _ _ => id
    maxOff := fun _ h hh => (hle h ((hrest h).mp hh).1).trans
      (by rw [stdMax_eq_max]; exact le_max_right _ _)
    off := fun h hk hh => ?_ }, fun h hh => hle h ((hrest h).mp hh).1⟩
  by_cases hs : h = src
  · exact .inl (hs ▸ hsh)
  · exact inv.off h hk fun hn => hh ((hrest h).mpr ⟨hn, hs⟩)

theorem ShardPopped.root {srcShard : ShardId} {sh : ShardLoad}
    (hp : ShardPopped s src srcShard sh) :
    srcShard = (s.nodes.get src).shardsByLoad.getD 0 default := by
  have := popHeap_getLast (s.nodes.get src).shardsByLoadCmp (List.length_pos.mpr hp.nonempty)
  rw [hp.pop, Option.some.injEq] at this
  exact this

theorem ShardPopped.candidatesOf {srcShard : ShardId} {sh : ShardLoad}
    (hp : ShardPopped s src srcShard sh) :
    (s.nodes.get src).candidatesOf srcShard = sh.candidates := by
  simp [NodeLoad.candidatesOf, hp.get]

/-- An iteration that changes only the source's entry, keeps its counts and its load, removes
only candidates it rejected, and pushes the source back keeps the invariant. -/
theorem LoopInv.pushBack_step (inv : LoopInv env s) (hc : s.Continues env) (hp : Popped env s src)
    (f : NodeLoad → NodeLoad) (hok : NodeOk env.tm.tablets src (f (s.nodes.get src)))
    (hcount : (f (s.nodes.get src)).tabletCount = (s.nodes.get src).tabletCount)
    (hsc : (f (s.nodes.get src)).shardCount = (s.nodes.get src).shardCount)
    (havg : (f (s.nodes.get src)).avgLoad = (s.nodes.get src).avgLoad)
    (hsub : ∀ sh, (f (s.nodes.get src)).candidatesOf sh ⊆ (s.nodes.get src).candidatesOf sh)
    (hrej : ∀ sh, ∀ t ∈ (s.nodes.get src).candidatesOf sh,
      t ∉ (f (s.nodes.get src)).candidatesOf sh → passesConstraints env t src = .ok false) :
    StepOk env s src (LoopState.pushNode { s with
      nodes := s.nodes.modify src f
      nodesByLoad := popHeap (nodesCmp s.nodes) s.nodesByLoad }) := by
  obtain ⟨-, hmem, -, -, -, -, hle⟩ := inv.popped hc hp
  have hget : ∀ h, (s.nodes.modify src f).get h =
      if h = src then f (s.nodes.get src) else s.nodes.get h := fun h => NodeMap.modify_get _ _ _ _
  have havg' : ∀ h, ((s.nodes.modify src f).get h).avgLoad = (s.nodes.get h).avgLoad := fun h => by
    rw [hget]; split_ifs with e
    · rw [e, havg]
    · rfl
  obtain ⟨hperm, hheap⟩ := inv.pushBack hc _ havg'
  have hs : SameHosts s.nodes (s.nodes.modify src f) := ⟨rfl, fun h => by
    rw [hget]; split_ifs with e
    · rw [e, hsc]
    · rfl⟩
  have hkey : ∀ h, loadKey env { s with nodes := s.nodes.modify src f } h = loadKey env s h :=
    fun h => congrFun (loadKey_congr havg') h
  have hsub' : ∀ h sh, ((s.nodes.modify src f).get h).candidatesOf sh ⊆
      (s.nodes.get h).candidatesOf sh := fun h sh => by
    rw [hget]; split_ifs with e
    · exact e ▸ hsub sh
    · exact List.Subset.refl _
  refine ⟨⟨inv.node_of_sameHosts hs, inv.target_mem, fun h hk => ?_,
    fun h hh => inv.nbl_keys h (hperm.subset hh), hperm.nodup_iff.mpr inv.nbl_nodup,
    hperm.symm.subset inv.target_nbl, hheap, fun h0 h hh => ?_, fun h hk hh => ?_,
    fun m hm => MigrationOk.mono (inv.plan m hm) hs hsub', inv.plan_nodup, inv.plan_length,
    fun h hk t sh ht => ?_, fun h hk => ?_, ?_⟩, fun h hh => (hkey h).trans_le (hle h (hperm.subset hh))⟩
  · show NodeOk _ h ((s.nodes.modify src f).get h)
    rw [hget]; split_ifs with e
    · exact e ▸ hok
    · exact inv.nodeOk h hk
  · exact (hkey h).trans_le (inv.maxOff h0 h (hperm.subset hh))
  · have hne : h ≠ src := fun e => hh (hperm.symm.subset (e ▸ hmem))
    show ((s.nodes.modify src f).get h).shardsByLoad = [] ∨ ((s.nodes.modify src f).get h).tabletCount = 0
    rw [hget, if_neg hne]
    exact inv.off h hk fun hn => hh (hperm.symm.subset hn)
  · show t ∈ ((s.nodes.modify src f).get h).candidatesOf sh ∨ _ ∨ _
    rcases inv.accounted h hk t sh ht with hin | hrest
    · by_cases hin' : t ∈ ((s.nodes.modify src f).get h).candidatesOf sh
      · exact .inl hin'
      · by_cases e : h = src
        · subst e
          rw [hget, if_pos rfl] at hin'
          exact .inr (.inl (hrej sh t hin hin'))
        · rw [hget, if_neg e] at hin'
          exact absurd hin hin'
    · exact .inr hrest
  · show ((s.nodes.modify src f).get h).tabletCount = _
    rw [hget]; split_ifs with e
    · rw [e, hcount]; exact inv.counts src (e ▸ hk)
    · exact inv.counts h hk
  · have : (fun h => ((s.nodes.modify src f).get h).shardCount) =
        fun h => (s.nodes.get h).shardCount := funext hs.shardCount
    show Guarded (fun h => ((s.nodes.modify src f).get h).shardCount) _ _
    rw [this]; exact inv.guarded

/-- Lines 335-343: dropping a popped shard without candidates keeps the invariant. -/
theorem LoopInv.dropShard (inv : LoopInv env s) (hc : s.Continues env) (hp : Popped env s src)
    {srcShard : ShardId} {sh : ShardLoad} (hsp : ShardPopped s src srcShard sh)
    (hcand : sh.candidates = []) :
    StepOk env s src (LoopState.pushNode { s with
      nodes := s.nodes.modify src fun n =>
        { n with shardsByLoad := (popHeap n.shardsByLoadCmp n.shardsByLoad).dropLast }
      nodesByLoad := popHeap (nodesCmp s.nodes) s.nodesByLoad }) := by
  obtain ⟨-, hmem, -⟩ := inv.popped hc hp
  have hok := (inv.nodeOk src (inv.nbl_keys src hmem)).dropShard hsp.nonempty
    (by rw [← hsp.root, hsp.candidatesOf, hcand])
  exact inv.pushBack_step hc hp
    (fun n => { n with shardsByLoad := (popHeap n.shardsByLoadCmp n.shardsByLoad).dropLast }) hok
    rfl rfl rfl (fun _ => List.Subset.refl _) fun _ _ ht hn => absurd ht hn

/-- Lines 348-385: taking a candidate that fails the replication constraints keeps the
invariant. -/
theorem LoopInv.skip (inv : LoopInv env s) (hc : s.Continues env) (hp : Popped env s src)
    {srcShard : ShardId} {sh : ShardLoad} {t : GlobalTabletId} (hsp : ShardPopped s src srcShard sh)
    (hrej : passesConstraints env t src = .ok false) :
    StepOk env s src (LoopState.pushNode (LoopState.pushShardOf { s with
      nodes := takeCandidate s.nodes src srcShard t
      nodesByLoad := popHeap (nodesCmp s.nodes) s.nodesByLoad } src)) := by
  have heq : LoopState.pushShardOf { s with
      nodes := takeCandidate s.nodes src srcShard t
      nodesByLoad := popHeap (nodesCmp s.nodes) s.nodesByLoad } src = { s with
      nodes := s.nodes.modify src fun n => (n.take srcShard t).pushShard
      nodesByLoad := popHeap (nodesCmp s.nodes) s.nodesByLoad } := by
    simp only [LoopState.pushShardOf_eq, takeCandidate, NodeMap.modify_modify]
  rw [heq]
  obtain ⟨-, hmem, -⟩ := inv.popped hc hp
  have o := inv.nodeOk src (inv.nbl_keys src hmem)
  have hx := hsp.root
  subst hx
  have hlt := (o.popped hsp.nonempty).1
  refine inv.pushBack_step hc hp (fun n => (n.take _ t).pushShard) (o.skip hsp.nonempty t)
    rfl rfl rfl (fun sh' => ?_) fun sh' t' ht' hn => ?_
  · rw [candidatesOf_pushShard, candidatesOf_take t hlt]; split_ifs
    exacts [List.erase_subset _ _, List.Subset.refl _]
  · rw [candidatesOf_pushShard, candidatesOf_take t hlt] at hn
    split_ifs at hn
    · obtain rfl : t' = t := by
        by_contra hne; exact hn ((List.mem_erase_of_ne hne).mpr ht')
      exact hrej
    · exact absurd ht' hn

end TabletLoadBalancer
