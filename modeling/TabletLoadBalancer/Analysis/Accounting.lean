import TabletLoadBalancer.Analysis.Counts
import TabletLoadBalancer.Analysis.Potential

/-!
# What the selection loop does with every tablet

Four facts about every run of the selection loop of `make_plan(dc)`, at the head of every
iteration and for every choice of candidates:

* **flow** (`makePlanDc_counts_flow`): the loop's per-host counts change only by the plan's
  migrations. The target holds its input count plus one per migration, every other balanced host
  its input count less one per migration leaving it (lines 391-400). The per-migration step is
  `moveCount_flow`, summed over any plan whose sources have tablets (`Sourced`) by
  `Sourced.runningCounts_flow`.
* **coherence** (`makePlanDc_loads_executed`): the counts and loads the loop compares are the
  counts and loads the executor produces once it has applied the plan so far, whatever destination
  shards it picks. So the loop's checks see the loads the plan leads to.
* **exit** (`makePlanDc_loop_exit`): the target never leaves `nodes_by_load`, so the loop's
  `!nodes_by_load.empty()` test never ends it. It stops at one of its three checks or with a full
  batch.
* **accounting** (`makePlanDc_replicas_accounted`): every input replica on a balanced host is still
  a candidate on its shard, was rejected by the replication constraints, or has been moved by a
  migration of the plan. No replica is dropped from consideration any other way.

Each fact is proved once for every state of the loop invariant (`LoopInv.counts_flow`,
`LoopInv.loads_executed`, `LoopInv.loop_exit`, `LoopInv.replicas_accounted`), then read at every
reachable state and at every state the code's own loop passes through (`LoopVisit`).
-/

set_option autoImplicit false

namespace TabletLoadBalancer

/-! ## Counts as flows -/

/-- One migration between two hosts, from a source with a tablet: the source loses one, the
destination gains one. -/
theorem moveCount_flow {c : HostId → Nat} {m : TabletMigrationInfo} (hpos : 0 < c m.src.host)
    (hne : m.src.host ≠ m.dst.host) (h : HostId) :
    moveCount c m h + (if m.src.host = h then 1 else 0) =
      c h + (if m.dst.host = h then 1 else 0) := by
  unfold moveCount
  by_cases hs : m.src.host = h
  · subst hs; simp only [if_true, if_neg (Ne.symm hne)]; omega
  · by_cases hd : m.dst.host = h
    · subst hd; simp [hs, Ne.symm hs]
    · simp [hs, hd, Ne.symm hs, Ne.symm hd]

/-- Each migration of `plan`, applied in order to the counts `c`, leaves a host that has a
tablet. -/
def Sourced : (HostId → Nat) → MigrationPlan → Prop
  | _, [] => True
  | c, m :: plan => 0 < c m.src.host ∧ Sourced (moveCount c m) plan

/-- Along a plan of migrations between distinct hosts, each from a host with a tablet, a host
ends with its count plus the migrations into it, less those out of it. -/
theorem Sourced.runningCounts_flow :
    ∀ {c : HostId → Nat} {plan : MigrationPlan}, Sourced c plan →
      (∀ m ∈ plan, m.src.host ≠ m.dst.host) → ∀ h,
      runningCounts c plan h + (plan.filter fun m => m.src.host = h).length =
        c h + (plan.filter fun m => m.dst.host = h).length
  | _, [], _, _, _ => rfl
  | c, m :: plan, ⟨hpos, hs⟩, hne, h => by
    have ih := Sourced.runningCounts_flow hs (fun x hx => hne x (List.mem_cons_of_mem _ hx)) h
    have hmv := moveCount_flow hpos (hne m (List.mem_cons_self _ _)) h
    change runningCounts (moveCount c m) plan h + _ = _
    simp only [List.filter_cons, decide_eq_true_eq]
    split_ifs at hmv ⊢ <;> (try simp only [List.length_cons]) <;> omega

/-- The loop's own check takes every migration from a host with a tablet. -/
theorem Guarded.sourced {sc : HostId → Nat} :
    ∀ {c : HostId → Nat} {plan : MigrationPlan}, Guarded sc c plan → Sourced c plan
  | _, [], _ => trivial
  | _, _ :: _, ⟨hpos, _, hg⟩ => ⟨hpos, hg.sourced⟩

/-- A plan in which no host is both a source and a destination, and no host gives away more
tablets than it has, takes every migration from a host with a tablet, in every order. -/
theorem sourced_of_le :
    ∀ {c : HostId → Nat} {plan : MigrationPlan},
      (∀ m ∈ plan, ∀ m' ∈ plan, m.src.host ≠ m'.dst.host) →
      (∀ h, (plan.filter fun m => m.src.host = h).length ≤ c h) → Sourced c plan
  | _, [], _, _ => trivial
  | c, m :: plan, hdis, hle => by
    have hm := hle m.src.host
    simp only [List.filter_cons, decide_True, if_true, List.length_cons] at hm
    refine ⟨by omega, sourced_of_le (fun x hx y hy =>
      hdis x (List.mem_cons_of_mem _ hx) y (List.mem_cons_of_mem _ hy)) fun h => ?_⟩
    have hh := hle h
    unfold moveCount
    by_cases hs : h = m.src.host
    · subst hs
      simp only [if_true]
      omega
    · simp only [List.filter_cons, decide_eq_true_eq, if_neg (Ne.symm hs), if_neg hs] at hh ⊢
      split_ifs <;> omega

section Run

variable {tm : TokenMetadata} {dc : DcName} {env : LoopEnv} {s0 s : LoopState}

/-- The migrations of a reachable plan lead from balanced hosts other than the target to the
target. -/
theorem LoopInv.plan_hosts (inv : LoopInv env s) :
    ∀ m ∈ s.plan, m.src.host ≠ m.dst.host ∧ m.dst.host = env.target ∧ m.src.host ≠ env.target :=
  fun m hm => ⟨(inv.plan m hm).dst ▸ (inv.plan m hm).src_ne, (inv.plan m hm).dst,
    (inv.plan m hm).src_ne⟩

/-- In a state of the invariant, the target holds its input count plus the plan's length, and
every other balanced host its input count less the migrations leaving it. -/
theorem LoopInv.counts_flow (inv : LoopInv env s) :
    (s.nodes.get env.target).tabletCount = replicaCount env.tm.tablets env.target + s.plan.length ∧
    ∀ h ∈ s.nodes.keys, h ≠ env.target →
      (s.nodes.get h).tabletCount + (s.plan.filter fun m => m.src.host = h).length =
        replicaCount env.tm.tablets h := by
  have hosts := inv.plan_hosts
  have flow := inv.guarded.sourced.runningCounts_flow fun m hm => (hosts m hm).1
  refine ⟨?_, fun h hh hT => ?_⟩
  · have hout : (s.plan.filter fun m => m.src.host = env.target) = [] :=
      List.filter_eq_nil_iff.mpr fun m hm => by simpa using (hosts m hm).2.2
    have hin : (s.plan.filter fun m => m.dst.host = env.target) = s.plan :=
      List.filter_eq_self.mpr fun m hm => by simpa using (hosts m hm).2.1
    have := flow env.target
    rw [← inv.counts _ inv.target_mem, hout, hin] at this
    simpa using this
  · have hin : (s.plan.filter fun m => m.dst.host = h) = [] :=
      List.filter_eq_nil_iff.mpr fun m hm => by simpa [(hosts m hm).2.1] using Ne.symm hT
    have := flow h
    rw [← inv.counts h hh, hin] at this
    simpa using this

/-- In a state of the invariant, every balanced host's count and load are those the executor
leaves once it has applied the plan so far, on any destination shards of the target. -/
theorem LoopInv.loads_executed (inv : LoopInv env s) {applied : MigrationPlan}
    (hex : List.Forall₂ (ExecutedAs env.tm.topology) s.plan applied) :
    ∀ h ∈ s.nodes.keys,
      (s.nodes.get h).tabletCount = replicaCount (env.tm.tablets.applyPlan applied) h ∧
      (s.nodes.get h).avgLoad =
        mkRat (replicaCount (env.tm.tablets.applyPlan applied) h) (s.nodes.get h).shardCount := by
  have happ := replicaCount_applyPlan hex inv.plan_nodup fun m hm =>
    ⟨(inv.plan m hm).replica, (inv.plan_hosts m hm).1⟩
  intro h hh
  have hc : (s.nodes.get h).tabletCount = replicaCount (env.tm.tablets.applyPlan applied) h := by
    rw [happ]; exact inv.counts h hh
  exact ⟨hc, hc ▸ (inv.nodeOk h hh).avg⟩

/-- In a state of the invariant the target is in `nodes_by_load`; so when the `while` condition
fails, the batch is full. -/
theorem LoopInv.loop_exit (inv : LoopInv env s) :
    env.target ∈ s.nodesByLoad ∧ (¬ s.Continues env → s.plan.length = env.batchSize) := by
  refine ⟨inv.target_nbl, fun hc => ?_⟩
  have hfull : ¬ s.plan.length < env.batchSize := fun hlt =>
    hc ⟨hlt, List.ne_nil_of_mem inv.target_nbl⟩
  have := inv.plan_length
  omega

/-- In a state of the invariant, every input replica on a balanced host is still a candidate on
its shard, was rejected by the replication constraints, or has been moved by a migration of the
plan. -/
theorem LoopInv.replicas_accounted (inv : LoopInv env s) :
    ∀ h ∈ s.nodes.keys, ∀ t sh, env.tm.tablets.HasReplica t ⟨h, sh⟩ →
      t ∈ (s.nodes.get h).candidatesOf sh ∨ passesConstraints env t h = .ok false ∨
        ∃ m ∈ s.plan, m.tablet = t ∧ m.src = ⟨h, sh⟩ := by
  intro h hh t sh ht
  rcases inv.accounted h hh t sh ht with hc | hrej | hmoved
  · exact .inl hc
  · exact .inr (.inl hrej)
  · obtain ⟨m, hm, he⟩ := List.mem_map.mp hmoved
    exact .inr (.inr ⟨m, hm, (Prod.mk.inj he).1, (Prod.mk.inj he).2⟩)

/-- At the head of every iteration of `make_plan(dc)`, the target holds its input count plus the
plan's length, and every other balanced host its input count less the migrations leaving it. -/
theorem makePlanDc_counts_flow (hp : prepare tm dc = .ok (.run env s0))
    (hr : Reachable env s0 s) :
    (s.nodes.get env.target).tabletCount = replicaCount tm.tablets env.target + s.plan.length ∧
    ∀ h ∈ s.nodes.keys, h ≠ env.target →
      (s.nodes.get h).tabletCount + (s.plan.filter fun m => m.src.host = h).length =
        replicaCount tm.tablets h := by
  obtain rfl := (prepare_initial hp).tm_eq
  exact (hr.loopInv_of_prepare hp).counts_flow

theorem makePlanDc_counts_flow_skewed :
    ∃ env s0 s, prepare skewedSnapshot 0 = .ok (.run env s0) ∧ step env 0 s0 = .ok (some s) ∧
      Reachable env s0 s ∧ s.plan ≠ [] ∧
      (s.nodes.get env.target).tabletCount =
        replicaCount skewedSnapshot.tablets env.target + s.plan.length ∧
      ∀ h ∈ s.nodes.keys, h ≠ env.target →
        (s.nodes.get h).tabletCount + (s.plan.filter fun m => m.src.host = h).length =
          replicaCount skewedSnapshot.tablets h := by
  refine ⟨_, _, _, rfl, rfl, ?hr, by decide,
    makePlanDc_counts_flow (rfl : prepare skewedSnapshot 0 = _) ?hr⟩
  exact @Reachable.of_step _ _ _ _ 0 .init (by decide) rfl

/-- At the head of every iteration of `make_plan(dc)`, every balanced host's count and load are
those the executor leaves once it has applied the plan so far, on any destination shards of the
target. -/
theorem makePlanDc_loads_executed (hp : prepare tm dc = .ok (.run env s0))
    (hr : Reachable env s0 s) {applied : MigrationPlan}
    (hex : List.Forall₂ (ExecutedAs tm.topology) s.plan applied) :
    ∀ h ∈ s.nodes.keys,
      (s.nodes.get h).tabletCount = replicaCount (tm.tablets.applyPlan applied) h ∧
      (s.nodes.get h).avgLoad =
        mkRat (replicaCount (tm.tablets.applyPlan applied) h) (s.nodes.get h).shardCount := by
  obtain rfl := (prepare_initial hp).tm_eq
  exact (hr.loopInv_of_prepare hp).loads_executed hex

theorem makePlanDc_loads_executed_skewed :
    ∃ env s0 s, prepare skewedSnapshot 0 = .ok (.run env s0) ∧ step env 0 s0 = .ok (some s) ∧
      Reachable env s0 s ∧ s.plan ≠ [] ∧
      List.Forall₂ (ExecutedAs skewedSnapshot.topology) s.plan s.plan ∧
      ∀ h ∈ s.nodes.keys,
        (s.nodes.get h).tabletCount = replicaCount (skewedSnapshot.tablets.applyPlan s.plan) h ∧
        (s.nodes.get h).avgLoad =
          mkRat (replicaCount (skewedSnapshot.tablets.applyPlan s.plan) h)
            (s.nodes.get h).shardCount := by
  refine ⟨_, _, _, rfl, rfl, ?hr, by decide, ?hex,
    makePlanDc_loads_executed (rfl : prepare skewedSnapshot 0 = _) ?hr ?hex⟩
  case hr => exact @Reachable.of_step _ _ _ _ 0 .init (by decide) rfl
  case hex =>
    refine List.forall₂_same.mpr fun m hm => ⟨rfl, rfl, rfl, ?_⟩
    revert m
    decide

/-- At the head of every iteration of `make_plan(dc)` the target is in `nodes_by_load`; so when
the `while` condition fails, the batch is full. -/
theorem makePlanDc_loop_exit (hp : prepare tm dc = .ok (.run env s0)) (hr : Reachable env s0 s) :
    env.target ∈ s.nodesByLoad ∧ (¬ s.Continues env → s.plan.length = env.batchSize) :=
  (hr.loopInv_of_prepare hp).loop_exit

theorem makePlanDc_loop_exit_skewed :
    ∃ env s0 s, prepare skewedSnapshot 0 = .ok (.run env s0) ∧ step env 0 s0 = .ok (some s) ∧
      Reachable env s0 s ∧ s.plan ≠ [] ∧
      (s0.nodes.get env.target).avgLoad < (s.nodes.get env.target).avgLoad ∧
      env.target ∈ s.nodesByLoad ∧ (¬ s.Continues env → s.plan.length = env.batchSize) := by
  refine ⟨_, _, _, rfl, rfl, ?hr, by decide, by decide,
    makePlanDc_loop_exit (rfl : prepare skewedSnapshot 0 = _) ?hr⟩
  exact @Reachable.of_step _ _ _ _ 0 .init (by decide) rfl

/-- At the head of every iteration of `make_plan(dc)`, every input replica on a balanced host is
still a candidate on its shard, was rejected by the replication constraints, or has been moved by
a migration of the plan. -/
theorem makePlanDc_replicas_accounted (hp : prepare tm dc = .ok (.run env s0))
    (hr : Reachable env s0 s) :
    ∀ h ∈ s.nodes.keys, ∀ t sh, tm.tablets.HasReplica t ⟨h, sh⟩ →
      t ∈ (s.nodes.get h).candidatesOf sh ∨ passesConstraints env t h = .ok false ∨
        ∃ m ∈ s.plan, m.tablet = t ∧ m.src = ⟨h, sh⟩ := by
  obtain rfl := (prepare_initial hp).tm_eq
  exact (hr.loopInv_of_prepare hp).replicas_accounted

theorem makePlanDc_replicas_accounted_skewed :
    ∃ env s0 s, prepare skewedSnapshot 0 = .ok (.run env s0) ∧ step env 0 s0 = .ok (some s) ∧
      Reachable env s0 s ∧ s.plan ≠ [] ∧
      ∀ h ∈ s.nodes.keys, ∀ t sh, skewedSnapshot.tablets.HasReplica t ⟨h, sh⟩ →
        t ∈ (s.nodes.get h).candidatesOf sh ∨ passesConstraints env t h = .ok false ∨
          ∃ m ∈ s.plan, m.tablet = t ∧ m.src = ⟨h, sh⟩ := by
  refine ⟨_, _, _, rfl, rfl, ?hr, by decide,
    makePlanDc_replicas_accounted (rfl : prepare skewedSnapshot 0 = _) ?hr⟩
  exact @Reachable.of_step _ _ _ _ 0 .init (by decide) rfl

/-! ## The same at every state the code's loop passes through -/

variable {choose : Nat → Nat} {f : Nat}

theorem makePlanDc_visit_counts_flow (hp : prepare tm dc = .ok (.run env s0))
    (hv : LoopVisit env choose (loopBound s0) s0 f s) :
    (s.nodes.get env.target).tabletCount = replicaCount tm.tablets env.target + s.plan.length ∧
    ∀ h ∈ s.nodes.keys, h ≠ env.target →
      (s.nodes.get h).tabletCount + (s.plan.filter fun m => m.src.host = h).length =
        replicaCount tm.tablets h := by
  obtain rfl := (prepare_initial hp).tm_eq
  exact (hv.reachable.loopInv_of_prepare hp).counts_flow

theorem makePlanDc_visit_loads_executed (hp : prepare tm dc = .ok (.run env s0))
    (hv : LoopVisit env choose (loopBound s0) s0 f s) {applied : MigrationPlan}
    (hex : List.Forall₂ (ExecutedAs tm.topology) s.plan applied) :
    ∀ h ∈ s.nodes.keys,
      (s.nodes.get h).tabletCount = replicaCount (tm.tablets.applyPlan applied) h ∧
      (s.nodes.get h).avgLoad =
        mkRat (replicaCount (tm.tablets.applyPlan applied) h) (s.nodes.get h).shardCount := by
  obtain rfl := (prepare_initial hp).tm_eq
  exact (hv.reachable.loopInv_of_prepare hp).loads_executed hex

theorem makePlanDc_visit_loop_exit (hp : prepare tm dc = .ok (.run env s0))
    (hv : LoopVisit env choose (loopBound s0) s0 f s) :
    env.target ∈ s.nodesByLoad ∧ (¬ s.Continues env → s.plan.length = env.batchSize) :=
  (hv.reachable.loopInv_of_prepare hp).loop_exit

theorem makePlanDc_visit_replicas_accounted (hp : prepare tm dc = .ok (.run env s0))
    (hv : LoopVisit env choose (loopBound s0) s0 f s) :
    ∀ h ∈ s.nodes.keys, ∀ t sh, tm.tablets.HasReplica t ⟨h, sh⟩ →
      t ∈ (s.nodes.get h).candidatesOf sh ∨ passesConstraints env t h = .ok false ∨
        ∃ m ∈ s.plan, m.tablet = t ∧ m.src = ⟨h, sh⟩ := by
  obtain rfl := (prepare_initial hp).tm_eq
  exact (hv.reachable.loopInv_of_prepare hp).replicas_accounted

end Run

end TabletLoadBalancer
