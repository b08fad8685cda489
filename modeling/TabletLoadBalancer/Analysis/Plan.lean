import TabletLoadBalancer.Analysis.Run

/-!
# What the migrations of a plan are

Every migration the selection loop emits is recorded in the loop invariant (`MigrationOk`): it
moves a replica of its tablet from a balanced host other than the target to the target, and it
passed the replication constraints. Read back over the input, this says that `make_plan(dc)`
moves existing replicas inside `dc` to the least-loaded node, which holds no replica of the
tablet, at most once per `(tablet, source)` pair and at most once per shard of the target, and
that a move never raises the number of the tablet's replicas that share a rack.
-/

set_option autoImplicit false

namespace TabletLoadBalancer

section Migration

variable {tm : TokenMetadata} {dc : DcName} {env : LoopEnv} {s0 s : LoopState}
  {m : TabletMigrationInfo}

/-- A migration in the plan of a reachable state, read over the input: its source is a normal
node of `dc` holding the replica, its destination is the target, which holds no replica of the
tablet, and the constraint check accepted it for the source's node and the tablet's replicas. -/
theorem MigrationOk.of_initial (init : Initial tm dc env s0) (inv : LoopInv env s)
    (hm : MigrationOk env s.nodes m) :
    ∃ ns info, tm.topology.findNode m.src.host = some ns ∧ ns ∈ dcNodes tm.topology dc ∧
      tm.tablets.tabletInfo m.tablet = some info ∧ m.src ∈ info.replicas ∧
      m.dst.host = env.target ∧ (∀ r ∈ info.replicas, r.host ≠ env.target) ∧
      (env.targetRack = ns.rack ∨
        rackCount tm.topology dc info.replicas env.targetRack + 1 ≤
          maxRackCount tm.topology dc info.replicas) := by
  obtain ⟨ns, info, hns, hinfo, hok⟩ := passesConstraints_eq_ok hm.accepted
  obtain ⟨hno, hrack⟩ := hok.mp rfl
  obtain ⟨n, hn, hst, hdc, -⟩ := inv.node _ hm.src_mem
  rw [hns, Option.some.injEq] at hn
  subst hn
  obtain ⟨info', hinfo', hsrc⟩ := hm.replica
  rw [hinfo, Option.some.injEq] at hinfo'
  subst hinfo'
  rw [init.tm_eq] at hns hinfo
  rw [init.tm_eq, init.dc_eq] at hrack
  exact ⟨ns, info, hns, List.mem_filter.mpr ⟨(findNode_mem hns).1,
    decide_eq_true ⟨hst, init.dc_eq ▸ hdc⟩⟩, hinfo, hsrc, hm.dst, hno, hrack⟩

end Migration

/-- `make_plan(dc)` moves, at most once per `(tablet, source)` pair and at most once per shard of
the target, a replica of a tablet from a normal node of `dc` other than the target to the
target: a normal node of `dc` with the least load, which holds no replica of that tablet.
`make_plan()` concatenates these plans. -/
theorem makePlan_moves_valid (tm : TokenMetadata) (choose : DcName → Nat → Nat) :
    (∀ dc plan, makePlanDc tm (choose dc) dc = .ok plan →
      (plan.map fun m => (m.tablet, m.src)).Nodup ∧
      (plan = [] ∨ ∃ target ∈ dcNodes tm.topology dc, plan.length ≤ target.shardCount ∧
        (∀ n ∈ dcNodes tm.topology dc, mkRat (replicaCount tm.tablets target.hostId) target.shardCount ≤
          mkRat (replicaCount tm.tablets n.hostId) n.shardCount) ∧
        ∀ m ∈ plan, tm.tablets.HasReplica m.tablet m.src ∧
          (∃ n ∈ dcNodes tm.topology dc, n.hostId = m.src.host) ∧ m.src.host ≠ target.hostId ∧
          m.dst.host = target.hostId ∧ ∀ r, tm.tablets.HasReplica m.tablet r → r.host ≠ m.dst.host)) ∧
    ∀ plan, makePlan tm choose = .ok plan →
      ∃ plans, List.Forall₂ (fun dc p => makePlanDc tm (choose dc) dc = .ok p)
        tm.topology.getDatacenters plans ∧ plan = plans.flatten := by
  refine ⟨fun dc plan h => ?_, fun plan h => makePlan_eq_ok h⟩
  rcases makePlanDc_eq_ok h with ⟨-, rfl⟩ | ⟨env, s0, sf, hp, hr, -, rfl⟩
  · exact ⟨List.nodup_nil, .inl rfl⟩
  have init := prepare_initial hp
  have inv := hr.loopInv init.inv
  obtain ⟨tn, htn, hid, hbs, -⟩ := inv.targetNode init
  have hload := fun n (hn : n ∈ dcNodes tm.topology dc) => (init.entry hn).2.2.2
  refine ⟨inv.plan_nodup, .inr ⟨tn, htn, hbs ▸ inv.plan_length, fun n hn => ?_, fun m hm => ?_⟩⟩
  · rw [← hload n hn, ← hload tn htn, hid]
    exact init.least _ (init.keys ▸ List.mem_map_of_mem _ hn)
  have mo := inv.plan m hm
  obtain ⟨ns, info, hns, hnsd, hinfo, hsrc, hdst, hno, -⟩ := mo.of_initial init inv
  refine ⟨⟨info, hinfo, hsrc⟩, ⟨ns, hnsd, (findNode_mem hns).2⟩, hid ▸ mo.src_ne, hid ▸ hdst,
    fun r ⟨info', hinfo', hr⟩ => ?_⟩
  rw [hinfo, Option.some.injEq] at hinfo'
  subst hinfo'
  exact hdst ▸ hno r hr

/-! ## Applying a plan -/

/-- The executor's step on the tablet map of `m`'s table: the replica list of `m`'s tablet has its
first occurrence of `m.src` replaced by `m.dst`. -/
def TabletMap.applyMigration (mp : TabletMap) (m : TabletMigrationInfo) : TabletMap :=
  { mp with
    tablets := mp.tablets.modify (fun info => ⟨info.replicas.replace m.src m.dst⟩) m.tablet.tablet }

/-- The executor's step (the executor is not part of this repository): migration `m` replaces
the first occurrence of its tablet's replica `m.src` by `m.dst`, in the table of `m`'s tablet. -/
def TabletMetadata.applyMigration (tm : TabletMetadata) (m : TabletMigrationInfo) :
    TabletMetadata where
  tables := tm.tables.map fun p => (p.1, if p.1 = m.tablet.table then p.2.applyMigration m else p.2)
  nodup := by rw [List.map_map]; exact tm.nodup

/-- The executor applies the migrations of a plan in order. -/
def TabletMetadata.applyPlan (tm : TabletMetadata) (plan : MigrationPlan) : TabletMetadata :=
  plan.foldl TabletMetadata.applyMigration tm

/-- Two 1-shard hosts share tablet `(0, 0)` and hold two more tablets each; the target, host 3, has
two shards. All three are normal nodes of datacenter 0, in one rack. -/
def sharedTabletSnapshot : TokenMetadata where
  topology := ⟨[⟨1, 0, 0, .normal, 1⟩, ⟨2, 0, 0, .normal, 1⟩, ⟨3, 0, 0, .normal, 2⟩], by decide⟩
  tablets := ⟨[(0, ⟨[⟨[⟨1, 0⟩, ⟨2, 0⟩]⟩, ⟨[⟨1, 0⟩]⟩, ⟨[⟨1, 0⟩]⟩, ⟨[⟨2, 0⟩]⟩, ⟨[⟨2, 0⟩]⟩], []⟩)],
    by decide⟩

/-- When both sources yield tablet `(0, 0)` as their candidate, `make_plan(dc)` moves it from each
of them to the target: `has_replica_on_target` reads the input's replica list, and the tablet is
erased from the candidates of one shard only. Applied in order, the plan puts both of the
tablet's replicas on the target. -/
theorem makePlanDc_moves_tablet_twice :
    sharedTabletSnapshot.tablets.tabletInfo ⟨0, 0⟩ = some ⟨[⟨1, 0⟩, ⟨2, 0⟩]⟩ ∧
    ∃ plan, makePlanDc sharedTabletSnapshot (fun _ => 2) 0 = .ok plan ∧
      (∃ m₁ ∈ plan, ∃ m₂ ∈ plan, m₁ ≠ m₂ ∧ m₁.tablet = m₂.tablet) ∧
      (sharedTabletSnapshot.tablets.applyPlan plan).tabletInfo ⟨0, 0⟩ = some ⟨[⟨3, 1⟩, ⟨3, 0⟩]⟩ :=
  ⟨rfl, [⟨⟨0, 0⟩, ⟨2, 0⟩, ⟨3, 0⟩⟩, ⟨⟨0, 0⟩, ⟨1, 0⟩, ⟨3, 1⟩⟩], rfl, by decide, rfl⟩

/-! ## Rack spread -/

/-- Replacing replica `src` by `dst`, both on nodes of `dc`, moves one replica from `src`'s rack
to `dst`'s. -/
theorem rackCount_replace {topo : Topology} {dc : DcName} {src dst : TabletReplica} {ns nd : Node}
    (hns : topo.findNode src.host = some ns) (hnd : topo.findNode dst.host = some nd)
    (hdcs : ns.dc = dc) (hdcd : nd.dc = dc) (x : RackName) :
    ∀ (rs : List TabletReplica), src ∈ rs →
      rackCount topo dc (rs.replace src dst) x + (if ns.rack = x then 1 else 0) =
        rackCount topo dc rs x + (if nd.rack = x then 1 else 0)
  | [], h => absurd h (List.not_mem_nil _)
  | r :: rs, h => by
    by_cases e : r = src
    · subst e
      simp only [List.replace_cons_self, rackCount, rackHistogram_cons _ hnd,
        rackHistogram_cons _ hns, hdcd, hdcs, if_true, List.singleton_append, List.count_cons,
        beq_iff_eq]
      omega
    · have ih := rackCount_replace hns hnd hdcs hdcd x rs (by simpa [Ne.symm e] using h)
      rw [show (r :: rs).replace src dst = r :: rs.replace src dst by
        simp [List.replace_cons, beq_false_of_ne (Ne.symm e)]]
      simp only [rackCount, rackHistogram, List.filterMap_cons] at ih ⊢
      split <;> (try simp only [List.count_cons]) <;> omega

/-- A migration of `make_plan(dc)` never raises the largest number of its tablet's replicas that
share a rack of `dc`, whether or not the source and the target share a rack. -/
theorem makePlanDc_rack_spread {tm : TokenMetadata} {choose : Nat → Nat} {dc : DcName}
    {plan : MigrationPlan} (h : makePlanDc tm choose dc = .ok plan) :
    ∀ m ∈ plan, ∀ info, tm.tablets.tabletInfo m.tablet = some info →
      maxRackCount tm.topology dc (info.replicas.replace m.src m.dst) ≤
        maxRackCount tm.topology dc info.replicas := by
  intro m hm info hinfo
  rcases makePlanDc_eq_ok h with ⟨-, rfl⟩ | ⟨env, s0, sf, hp, hr, -, rfl⟩
  · exact absurd hm (List.not_mem_nil _)
  have init := prepare_initial hp
  have inv := hr.loopInv init.inv
  obtain ⟨tn, htn, hid, -, hrack⟩ := inv.targetNode init
  obtain ⟨ns, info', hns, hnsd, hinfo', hsrc, hdst, -, hspread⟩ := (inv.plan m hm).of_initial init inv
  rw [hinfo, Option.some.injEq] at hinfo'
  subst hinfo'
  have hnd : tm.topology.findNode m.dst.host = some tn := by
    rw [hdst, ← hid]; exact findNode_eq_some (List.mem_filter.mp htn).1
  have hdc : ∀ n ∈ dcNodes tm.topology dc, n.dc = dc := fun n hn =>
    (of_decide_eq_true (List.mem_filter.mp hn).2).2
  have hmove := fun x => rackCount_replace hns hnd (hdc ns hnsd) (hdc tn htn) x _ hsrc
  apply maxRackCount_le
  intro x
  have hle := rackCount_le_maxRackCount tm.topology dc info.replicas x
  have := hmove x
  rw [hrack] at hspread
  rcases hspread with hsame | hroom
  · rw [hsame] at this; omega
  · by_cases hx : tn.rack = x
    · subst hx; split_ifs at this <;> omega
    · split_ifs at this <;> omega

/-- Host 1 in rack 0 holds three tablets, one of them shared with host 2 in rack 1; the target,
host 3, is in rack 1 with two shards. -/
def crossRackSnapshot : TokenMetadata where
  topology := ⟨[⟨1, 0, 0, .normal, 1⟩, ⟨2, 0, 1, .normal, 1⟩, ⟨3, 0, 1, .normal, 2⟩], by decide⟩
  tablets := ⟨[(0, ⟨[⟨[⟨1, 0⟩, ⟨2, 0⟩]⟩, ⟨[⟨1, 0⟩]⟩, ⟨[⟨1, 0⟩]⟩], []⟩)], by decide⟩

theorem makePlanDc_rack_spread_crossRack :
    ∃ plan, makePlanDc crossRackSnapshot (fun _ => 0) 0 = .ok plan ∧ plan ≠ [] ∧
      ∀ m ∈ plan, ∀ info, crossRackSnapshot.tablets.tabletInfo m.tablet = some info →
        maxRackCount crossRackSnapshot.topology 0 (info.replicas.replace m.src m.dst) ≤
          maxRackCount crossRackSnapshot.topology 0 info.replicas :=
  ⟨[⟨⟨0, 2⟩, ⟨1, 0⟩, ⟨3, 0⟩⟩, ⟨⟨0, 1⟩, ⟨1, 0⟩, ⟨3, 1⟩⟩], rfl, by decide,
    makePlanDc_rack_spread (rfl : makePlanDc crossRackSnapshot (fun _ => 0) 0 = _)⟩

end TabletLoadBalancer
