import TabletLoadBalancer.Analysis.Accounting

/-!
# What `make_plan` returns on inputs of a given shape

* **balanced datacenters** (`makePlanDc_balanced_empty`): a datacenter whose normal nodes all
  carry the same load is a fixed point. Either phase C sees no imbalance (lines 196-200), or the
  loop cannot let a first source through, since no host is above the target.
* **no inversion at any step** (`makePlan_moves_guarded`): every migration of `make_plan()`,
  applied in order to the input counts, leaves a host that still has a tablet, and leaves it no
  less loaded than its destination at that time (lines 316-322). This is the check the code
  makes, on the counts of its time; the whole plan applied at once can still invert loads
  (see the balance module).
* **any order of execution** (`makePlan_any_order`): `make_plan()` concatenates the datacenters'
  plans "to be executed in parallel" (line 133). In every order, on any destination shards, the
  migrations leave every host with its input count less the migrations leaving it plus those
  arriving. The steps need not commute on counts (a decrement at zero would be lost), so both
  sides are shown to meet that closed form: no host of the plan both gives and receives
  (`makePlan_src_ne_dst`), and no host gives more than it holds (`PlanSound.departures_le`).
* **destination shards** (`makePlan_dst_shard`): every migration goes to a shard its destination
  node has. The batch size is the target's shard count, the target's load sketch has one entry
  per shard, and `next_shard` returns one of them (line 387).
* **exceptions name their cause** (`makePlan_error_reported`): when `make_plan()` throws, what the
  exception names is in the snapshot as the message says, in one of the datacenters: a normal
  node without shards (line 158), a replica naming a shard its normal node lacks (line 173), or
  a replica's host the topology does not know (`topology::get_node` in the constraint check).
-/

set_option autoImplicit false

namespace TabletLoadBalancer

variable {tm : TokenMetadata}

/-! ## Balanced datacenters -/

/-- Every migration of `make_plan()`, applied in order to the input counts, leaves a host with a
tablet and leaves it no less loaded than its destination at that time. -/
theorem makePlan_moves_guarded {choose : DcName → Nat → Nat} {plan : MigrationPlan}
    (h : makePlan tm choose = .ok plan) :
    Guarded tm.topology.shardCountOf (replicaCount tm.tablets) plan :=
  (makePlan_sound h).1.guarded

theorem makePlan_moves_guarded_skewed :
    ∃ plan, makePlan skewedSnapshot (fun _ _ => 0) = .ok plan ∧ plan ≠ [] ∧
      Guarded skewedSnapshot.topology.shardCountOf (replicaCount skewedSnapshot.tablets) plan :=
  ⟨_, rfl, by decide,
    makePlan_moves_guarded (rfl : makePlan skewedSnapshot (fun _ _ => 0) = _)⟩

/-! ## Executing the plan in any order -/

/-- In a plan of `make_plan(dc)` no migration leaves the host another enters: all enter the
target, and none leaves it. -/
theorem makePlanDc_src_ne_dst {choose : Nat → Nat} {dc : DcName} {plan : MigrationPlan}
    (h : makePlanDc tm choose dc = .ok plan) : ∀ m ∈ plan, ∀ m' ∈ plan, m.src.host ≠ m'.dst.host := by
  rcases makePlanDc_eq_ok h with ⟨-, rfl⟩ | ⟨env, s0, sf, hp, hr, -, rfl⟩
  · nofun
  have hosts := (hr.loopInv_of_prepare hp).plan_hosts
  intro m hm m' hm'
  rw [(hosts m' hm').2.1]
  exact (hosts m hm).2.2

/-- Nor in the plan of `make_plan()`: hosts of different datacenters differ. -/
theorem makePlan_src_ne_dst {choose : DcName → Nat → Nat} {plan : MigrationPlan}
    (h : makePlan tm choose = .ok plan) : ∀ m ∈ plan, ∀ m' ∈ plan, m.src.host ≠ m'.dst.host := by
  obtain ⟨plans, hf, rfl⟩ := makePlan_eq_ok h
  have locate : ∀ m ∈ plans.flatten, ∃ dc p, makePlanDc tm (choose dc) dc = .ok p ∧ m ∈ p :=
    fun m hm => by
      obtain ⟨p, hp, hmp⟩ := List.mem_flatten.mp hm
      obtain ⟨dc, hdc⟩ := forall₂_exists_of_mem hf.flip hp
      exact ⟨dc, p, hdc, hmp⟩
  intro m hm m' hm'
  obtain ⟨dc, p, hp, hmp⟩ := locate m hm
  obtain ⟨dc', p', hp', hmp'⟩ := locate m' hm'
  by_cases hdc : dc = dc'
  · subst hdc
    obtain rfl : p = p' := Except.ok.inj (hp.symm.trans hp')
    exact makePlanDc_src_ne_dst hp m hmp m' hmp'
  · exact ((makePlanDc_sound hp).2.1 m hmp).src.ne ((makePlanDc_sound hp').2.1 m' hmp').dst hdc

/-- A sound plan takes from a host at most as many tablets as it holds: its sources are distinct
input replicas. -/
theorem PlanSound.departures_le {plan : MigrationPlan} (hs : PlanSound tm plan) (h : HostId) :
    (plan.filter fun m => m.src.host = h).length ≤ replicaCount tm.tablets h := by
  have hnd : ((plan.filter fun m => m.src.host = h).map fun m => (m.tablet, m.src)).Nodup :=
    List.Nodup.sublist ((List.filter_sublist _).map _) hs.nodup
  have hsub : ((plan.filter fun m => m.src.host = h).map fun m => (m.tablet, m.src)) ⊆
      tm.tablets.allReplicas.filter fun r => r.2.host = h := by
    intro x hx
    obtain ⟨m, hm, rfl⟩ := List.mem_map.mp hx
    obtain ⟨hm, hh⟩ := List.mem_filter.mp hm
    exact List.mem_filter.mpr ⟨mem_allReplicas.mpr (hs.replica m hm), hh⟩
  simpa only [List.length_map] using (hnd.subperm hsub).length_le

/-- `make_plan()` combines the datacenters' plans to be executed in parallel (line 133). Executed
in any order, on any destination shards of the targets, its migrations leave every host with its
input count, less the migrations leaving it, plus those arriving. -/
theorem makePlan_any_order {choose : DcName → Nat → Nat} {plan order applied : MigrationPlan}
    (h : makePlan tm choose = .ok plan) (hperm : plan.Perm order)
    (hex : List.Forall₂ (ExecutedAs tm.topology) order applied) (host : HostId) :
    replicaCount (tm.tablets.applyPlan applied) host +
        (plan.filter fun m => m.src.host = host).length =
      replicaCount tm.tablets host + (plan.filter fun m => m.dst.host = host).length := by
  have hs := (makePlan_sound h).1
  have hdis := makePlan_src_ne_dst h
  have mem : ∀ m, m ∈ order → m ∈ plan := fun m => hperm.mem_iff.mpr
  have hne : ∀ m ∈ order, m.src.host ≠ m.dst.host := fun m hm => hdis m (mem m hm) m (mem m hm)
  have hdep : ∀ x, (order.filter fun m => m.src.host = x).length ≤ replicaCount tm.tablets x :=
    fun x => (hperm.filter _).length_eq ▸ hs.departures_le x
  have hcount := replicaCount_applyPlan hex ((hperm.map _).nodup_iff.mp hs.nodup)
    fun m hm => ⟨hs.replica m (mem m hm), hne m hm⟩
  have hflow := (sourced_of_le (fun m hm m' hm' => hdis m (mem m hm) m' (mem m' hm')) hdep).runningCounts_flow hne host
  rw [hcount, (hperm.filter fun m => decide (m.src.host = host)).length_eq,
    (hperm.filter fun m => decide (m.dst.host = host)).length_eq]
  exact hflow

theorem makePlan_any_order_skewed :
    ∃ plan, makePlan skewedSnapshot (fun _ _ => 0) = .ok plan ∧ plan.Perm plan.reverse ∧
      List.Forall₂ (ExecutedAs skewedSnapshot.topology) plan.reverse plan.reverse ∧
      ∀ host, replicaCount (skewedSnapshot.tablets.applyPlan plan.reverse) host +
          (plan.filter fun m => m.src.host = host).length =
        replicaCount skewedSnapshot.tablets host + (plan.filter fun m => m.dst.host = host).length := by
  refine ⟨_, rfl, (List.reverse_perm _).symm, ?hex,
    makePlan_any_order (rfl : makePlan skewedSnapshot (fun _ _ => 0) = _) (List.reverse_perm _).symm ?hex⟩
  refine List.forall₂_same.mpr fun m hm => ⟨rfl, rfl, rfl, ?_⟩
  revert m
  decide

/-! ## Destination shards -/

/-- The target's load sketch has one entry per shard of the target (the batch size is the
target's shard count), and every migration planned so far goes to one of those shards. -/
structure DstShardsOk (env : LoopEnv) (s : LoopState) : Prop where
  sketch : s.targetLoad.shardLoads.length = env.batchSize
  plan : ∀ m ∈ s.plan, m.dst.shard < env.batchSize

@[simp] theorem Deferred.finish_targetLoad (d : Deferred) :
    d.finish.targetLoad = d.state.targetLoad := by
  unfold Deferred.finish; split_ifs <;> rfl

/-- `prepare` populates the sketch with the target's shards, and the plan is empty. -/
theorem prepare_dstShardsOk {dc : DcName} {env : LoopEnv} {s0 : LoopState}
    (hp : prepare tm dc = .ok (.run env s0)) : DstShardsOk env s0 := by
  obtain ⟨_, _, _, _, _, _, _, _, -, -, -, -, -, -, rfl, rfl⟩ := prepare_eq_run hp
  exact ⟨LoadSketch.populate_length _ _ _, fun _ h => absurd h (List.not_mem_nil _)⟩

/-- Only an emission changes the sketch or the plan, and it sends the tablet to the sketch's next
shard, one of the target's: the `while` condition leaves the batch size positive. -/
theorem LoopStep.dstShardsOk {env : LoopEnv} {s s' : LoopState} {src : HostId}
    (hok : DstShardsOk env s) (hc : s.Continues env) (hp : Popped env s src)
    (hs : LoopStep env s src s') : DstShardsOk env s' := by
  cases hs with
  | emit _ _ _ he =>
    have hne : src ≠ env.target := fun e => lt_irrefl _ (e ▸ hp.checks.above)
    obtain ⟨-, -, -, -, -, -, -, -, -, -, hplan, -, hsketch⟩ := emit_eq_ok hne he
    have hpos : 0 < s.targetLoad.shardLoads.length := hok.sketch ▸ Nat.zero_lt_of_lt hc.1
    refine ⟨by rw [Deferred.finish_targetLoad, hsketch, LoadSketch.nextShard_length, hok.sketch],
      fun m hm => ?_⟩
    rw [Deferred.finish_plan, hplan, List.mem_append, List.mem_singleton] at hm
    rcases hm with hm | rfl
    · exact hok.plan m hm
    · exact hok.sketch ▸ LoadSketch.nextShard_lt _ hpos
  | _ => exact ⟨hok.sketch, hok.plan⟩

theorem Reachable.dstShardsOk {dc : DcName} {env : LoopEnv} {s0 s : LoopState}
    (hp : prepare tm dc = .ok (.run env s0)) (hr : Reachable env s0 s) : DstShardsOk env s := by
  induction hr with
  | init => exact prepare_dstShardsOk hp
  | step _ hc hpop hs ih => exact hs.dstShardsOk ih hc hpop

/-- Every migration of `make_plan(dc)` goes to a shard its destination node has. -/
theorem makePlanDc_dst_shard {choose : Nat → Nat} {dc : DcName} {plan : MigrationPlan}
    (h : makePlanDc tm choose dc = .ok plan) :
    ∀ m ∈ plan, m.dst.shard < tm.topology.shardCountOf m.dst.host := by
  rcases makePlanDc_eq_ok h with ⟨-, rfl⟩ | ⟨env, s0, sf, hp, hr, -, rfl⟩
  · nofun
  have init := prepare_initial hp
  have inv := hr.loopInv init.inv
  obtain ⟨tn, htn, hid, hbs, -⟩ := inv.targetNode init
  intro m hm
  have hdst : m.dst.host = tn.hostId := (inv.plan m hm).dst.trans hid.symm
  rw [hdst, Topology.shardCountOf, findNode_eq_some (List.mem_filter.mp htn).1, Option.map_some',
    Option.getD_some, ← hbs]
  exact (hr.dstShardsOk hp).plan m hm

/-- Every migration of `make_plan()` goes to a shard its destination node has; so executing the
plan exactly as emitted is one of the executions `ExecutedAs` admits. -/
theorem makePlan_dst_shard {choose : DcName → Nat → Nat} {plan : MigrationPlan}
    (h : makePlan tm choose = .ok plan) :
    ∀ m ∈ plan, m.dst.shard < tm.topology.shardCountOf m.dst.host := by
  obtain ⟨plans, hf, rfl⟩ := makePlan_eq_ok h
  intro m hm
  obtain ⟨p, hp, hmp⟩ := List.mem_flatten.mp hm
  obtain ⟨dc, hdc⟩ := forall₂_exists_of_mem hf.flip hp
  exact makePlanDc_dst_shard hdc m hmp

theorem makePlan_dst_shard_skewed :
    ∃ plan, makePlan skewedSnapshot (fun _ _ => 0) = .ok plan ∧ plan ≠ [] ∧
      ∀ m ∈ plan, m.dst.shard < skewedSnapshot.topology.shardCountOf m.dst.host :=
  ⟨_, rfl, by decide, makePlan_dst_shard (rfl : makePlan skewedSnapshot (fun _ _ => 0) = _)⟩

/-! ## Exceptions -/

/-- Every exception of `make_plan()` reports, for one of the datacenters, what is in the snapshot:
a normal node without shards, a replica naming a shard its normal node lacks, or a replica's host
the topology does not know. -/
theorem makePlan_error_reported {choose : DcName → Nat → Nat} {e : PlanError}
    (h : makePlan tm choose = .error e) : ∃ dc ∈ tm.topology.getDatacenters, e.Reported tm dc :=
  let ⟨dc, hdc, h⟩ := makePlan_eq_error_dc h
  ⟨dc, hdc, makePlanDc_eq_error h⟩

/-- Two normal nodes of datacenter 0 in racks 0 and 1, one shard each; host 1 holds three tablets,
the last of which also has a replica on host 9, which the topology does not know. -/
def strayReplicaSnapshot : TokenMetadata where
  topology := ⟨[⟨1, 0, 0, .normal, 1⟩, ⟨2, 0, 1, .normal, 1⟩], by decide⟩
  tablets := ⟨[(0, ⟨[⟨[⟨1, 0⟩]⟩, ⟨[⟨1, 0⟩]⟩, ⟨[⟨1, 0⟩, ⟨9, 0⟩]⟩], []⟩)], by decide⟩

theorem makePlan_error_reported_stray :
    makePlan strayReplicaSnapshot (fun _ _ => 0) = .error (.nodeNotFound 9) ∧
      ∃ dc ∈ strayReplicaSnapshot.topology.getDatacenters,
        (PlanError.nodeNotFound 9).Reported strayReplicaSnapshot dc :=
  ⟨rfl, makePlan_error_reported (rfl : makePlan strayReplicaSnapshot (fun _ _ => 0) = _)⟩

end TabletLoadBalancer
