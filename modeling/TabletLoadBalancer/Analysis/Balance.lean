import TabletLoadBalancer.Analysis.Plan
import TabletLoadBalancer.Analysis.Termination

/-!
# Loads before and after a plan

Every migration of `make_plan(dc)` passed the inversion check of lines 316-322 on the counts of
its time (`makePlanDc_guarded`): the source's load after giving the tablet is no lower than the
target's after receiving it. The target keeps receiving tablets from later sources, so an earlier
source can still end below it once the whole plan is applied (`makePlanDc_inverts_final_load`),
against the invariant the comment at lines 293-297 states.

An empty plan says less than that no move is possible. The loop pursues one target and stops at
the first host whose move to it would invert the loads: what it leaves behind is that no host
loaded above that one has a move to the target that the replication constraints allow
(`makePlanDc_empty`), while a host below it may still have an admissible move
(`makePlanDc_empty_admissible`). That is against the comments at lines 307-308 and 408-422,
which have the loop go on to every candidate loaded above the target and put an empty plan down
to the replication constraints.
-/

set_option autoImplicit false

namespace TabletLoadBalancer

/-! ## The inversion check, migration by migration -/

/-- The shard count of host `h` in the topology; zero for a host it does not know. -/
def Topology.shardCountOf (topo : Topology) (h : HostId) : Nat :=
  ((topo.findNode h).map Node.shardCount).getD 0

/-- `Guarded` reads the shard counts of the migrations' hosts only. -/
theorem Guarded.congr_sc {sc sc' : HostId → Nat} :
    ∀ {c : HostId → Nat} {plan : MigrationPlan},
      (∀ m ∈ plan, sc' m.src.host = sc m.src.host ∧ sc' m.dst.host = sc m.dst.host) →
      Guarded sc c plan → Guarded sc' c plan
  | _, [], _, _ => trivial
  | _, m :: _, h, ⟨hpos, hle, hg⟩ => by
    obtain ⟨hs, hd⟩ := h m (List.mem_cons_self _ _)
    exact ⟨hpos, by rwa [hs, hd], Guarded.congr_sc (fun m' hm' => h m' (List.mem_cons_of_mem _ hm')) hg⟩

/-- Every migration of `make_plan(dc)`, applied in order to the input counts, passed the inversion
check of lines 316-322: its source had a tablet, and the source's load after the move is no lower
than the target's. -/
theorem makePlanDc_guarded {tm : TokenMetadata} {choose : Nat → Nat} {dc : DcName}
    {plan : MigrationPlan} (h : makePlanDc tm choose dc = .ok plan) :
    Guarded tm.topology.shardCountOf (replicaCount tm.tablets) plan := by
  rcases makePlanDc_eq_ok h with ⟨-, rfl⟩ | ⟨env, s0, sf, hp, hr, -, rfl⟩
  · trivial
  have init := prepare_initial hp
  have inv := hr.loopInv init.inv
  have hsc : ∀ h ∈ sf.nodes.keys, tm.topology.shardCountOf h = (sf.nodes.get h).shardCount :=
    fun h hh => by
      obtain ⟨n, hn, -, -, hsc, -⟩ := inv.node h hh
      rw [Topology.shardCountOf, ← init.tm_eq, hn, hsc]; rfl
  have hg := inv.guarded
  rw [init.tm_eq] at hg
  refine hg.congr_sc fun m hm => ⟨hsc _ (inv.plan m hm).src_mem, ?_⟩
  rw [(inv.plan m hm).dst]
  exact hsc _ inv.target_mem

/-- The target, host 1, has four shards and three tablets; host 2 has one shard and two tablets;
host 3 has eight shards and fifteen tablets. All are normal nodes of datacenter 0, in one rack. -/
def shardMixSnapshot : TokenMetadata where
  topology := ⟨[⟨1, 0, 0, .normal, 4⟩, ⟨2, 0, 0, .normal, 1⟩, ⟨3, 0, 0, .normal, 8⟩], by decide⟩
  tablets := ⟨[(0, ⟨((List.range 3).map fun i => ⟨[⟨1, i⟩]⟩) ++ [⟨[⟨2, 0⟩]⟩, ⟨[⟨2, 0⟩]⟩] ++
    (List.range 15).map fun i => ⟨[⟨3, i % 8⟩]⟩, []⟩)], by decide⟩

/-- Host 2 gives the first tablet and host 3 the next two, each move passing the check on the
counts of its time. Once the plan is applied, host 2 holds one tablet on its one shard, a load
of 1, and the target six tablets on four shards, a load of 3/2. -/
theorem makePlanDc_inverts_final_load :
    ∃ plan, makePlanDc shardMixSnapshot (fun _ => 0) 0 = .ok plan ∧
      (∃ m ∈ plan, m.src.host = 2) ∧ (∀ m ∈ plan, m.dst.host = 1) ∧
      mkRat (runningCounts (replicaCount shardMixSnapshot.tablets) plan 2) 1 <
        mkRat (runningCounts (replicaCount shardMixSnapshot.tablets) plan 1) 4 :=
  ⟨[⟨⟨0, 4⟩, ⟨2, 0⟩, ⟨1, 3⟩⟩, ⟨⟨0, 19⟩, ⟨3, 6⟩, ⟨1, 0⟩⟩, ⟨⟨0, 15⟩, ⟨3, 2⟩, ⟨1, 1⟩⟩], rfl,
    by decide, by decide, by decide⟩

/-! ## What an empty plan says -/

/-- An admissible move of tablet `t` from node `n` to node `m` of datacenter `dc`, on the input
counts: `t` has a replica on `n` and none on `m`, the move leaves `n` no less loaded than
`m`, and across racks the target rack's count of `t`'s replicas does not end above the largest. -/
structure AdmissibleMove (tm : TokenMetadata) (dc : DcName) (t : GlobalTabletId) (n m : Node) :
    Prop where
  src_mem : n ∈ dcNodes tm.topology dc
  dst_mem : m ∈ dcNodes tm.topology dc
  ne : m.hostId ≠ n.hostId
  replica : ∃ shard, tm.tablets.HasReplica t ⟨n.hostId, shard⟩
  fresh : ∀ r, tm.tablets.HasReplica t r → r.host ≠ m.hostId
  no_inversion : mkRat (replicaCount tm.tablets m.hostId + 1) m.shardCount ≤
    mkRat (replicaCount tm.tablets n.hostId - 1 : Nat) n.shardCount
  racks : n.rack = m.rack ∨ ∃ info, tm.tablets.tabletInfo t = some info ∧
    rackCount tm.topology dc info.replicas m.rack + 1 ≤ maxRackCount tm.topology dc info.replicas

/-- Host 1 has one shard and one tablet, host 2 ten shards and nine tablets, and the target,
host 3, ten shards and none. All are normal nodes of datacenter 0, in one rack. -/
def tightHostSnapshot : TokenMetadata where
  topology := ⟨[⟨1, 0, 0, .normal, 1⟩, ⟨2, 0, 0, .normal, 10⟩, ⟨3, 0, 0, .normal, 10⟩], by decide⟩
  tablets := ⟨[(0, ⟨⟨[⟨1, 0⟩]⟩ :: (List.range 9).map fun i => ⟨[⟨2, i⟩]⟩, []⟩)], by decide⟩

/-- Whatever candidates it would pick, `make_plan(0)` pops host 1 first and breaks at its
inversion check (a load of 0 after the move against the target's 1/10), so its plan is empty;
yet moving tablet `(0, 1)` from host 2 to host 3 is admissible. -/
theorem makePlanDc_empty_admissible :
    (∀ choose, makePlanDc tightHostSnapshot choose 0 = .ok []) ∧
      AdmissibleMove tightHostSnapshot 0 ⟨0, 1⟩ ⟨2, 0, 0, .normal, 10⟩ ⟨3, 0, 0, .normal, 10⟩ := by
  refine ⟨fun _ => rfl, by decide, by decide, by decide, ⟨0, _, rfl, by decide⟩, ?_, by decide,
    .inl rfl⟩
  rintro r ⟨info, hi, hr⟩
  rw [show tightHostSnapshot.tablets.tabletInfo ⟨0, 1⟩ = some ⟨[⟨2, 0⟩]⟩ from rfl,
    Option.some.injEq] at hi
  subst hi
  rw [List.mem_singleton.mp hr]
  decide

theorem replicaCount_pos {tm : TabletMetadata} {t : GlobalTabletId} {r : TabletReplica}
    (h : tm.HasReplica t r) : 0 < replicaCount tm r.host :=
  List.length_pos.mpr (List.ne_nil_of_mem (List.mem_filter.mpr ⟨mem_allReplicas.mpr h, by simp⟩))

/-- Phases A-E decide without the loop, for a snapshot without pending transitions, only when all
normal nodes of the datacenter have the same load. -/
theorem prepare_done_balanced {tm : TokenMetadata} {dc : DcName} {plan : MigrationPlan}
    (hsettled : ∀ p ∈ tm.tablets.tables, p.2.transitions = [])
    (h : prepare tm dc = .ok (.done plan)) :
    ∀ a ∈ dcNodes tm.topology dc, ∀ b ∈ dcNodes tm.topology dc,
      mkRat (replicaCount tm.tablets a.hostId) a.shardCount =
        mkRat (replicaCount tm.tablets b.hostId) b.shardCount := by
  obtain ⟨-, m1, m2, m3, mx, mn, mnode, h1, h2, h3, hstop⟩ := prepare_eq_done h
  have hmx : mx = mn := hstop.resolve_right (computeShardLoad_ne_none hsettled)
  obtain ⟨hk2, hAB⟩ := countedNodes_eq_ok h1 h2
  obtain ⟨hs3, -, hget3⟩ := scanLoads_eq_ok _ [] _ _ (scanned_nil m2) h3
  have hk : ∀ n ∈ dcNodes tm.topology dc, n.hostId ∈ [] ++ m2.keys := fun n hn => by
    rw [List.nil_append, hk2]; exact List.mem_map_of_mem _ hn
  have hload : ∀ n ∈ dcNodes tm.topology dc, (m3.get n.hostId).avgLoad =
      mkRat (replicaCount tm.tablets n.hostId) n.shardCount := fun n hn => by
    obtain ⟨q, hq⟩ := hget3 n.hostId
    rw [hs3.loaded _ (hk n hn), hq, (hAB n hn).1]; rfl
  intro a ha b hb
  obtain ⟨t, ht⟩ := Option.ne_none_iff_exists'.mp (hs3.found (List.ne_nil_of_mem (hk a ha)))
  obtain ⟨-, hmn, hleast⟩ := hs3.least t ht
  change mn = (m3.get t).avgLoad at hmn
  have heq : ∀ n ∈ dcNodes tm.topology dc, (m3.get n.hostId).avgLoad = mn := fun n hn =>
    le_antisymm (hmx ▸ hs3.max _ (hk n hn)) (hmn ▸ hleast _ (hk n hn))
  rw [← hload a ha, ← hload b hb, heq a ha, heq b hb]

section Empty

variable {tm : TokenMetadata} {dc : DcName} {env : LoopEnv} {s0 s : LoopState} {tn : Node}

/-- An admissible move to the target passes the replication constraints of the loop. -/
theorem AdmissibleMove.passes (init : Initial tm dc env s0) (htn : tn.hostId = env.target)
    (hrack : env.targetRack = tn.rack) {t : GlobalTabletId} {n : Node}
    (h : AdmissibleMove tm dc t n tn) : passesConstraints env t n.hostId ≠ .ok false := by
  intro hp
  obtain ⟨srcNode, info, hn, hinfo, hiff⟩ := passesConstraints_eq_ok hp
  rw [init.tm_eq, findNode_eq_some (List.mem_filter.mp h.src_mem).1, Option.some.injEq] at hn
  subst hn
  rw [init.tm_eq] at hinfo
  refine absurd (hiff.mpr ⟨fun r hr => htn ▸ h.fresh r ⟨info, hinfo, hr⟩, ?_⟩) Bool.false_ne_true
  rw [hrack, init.tm_eq, init.dc_eq]
  rcases h.racks with hsame | ⟨info', hinfo', hle⟩
  · exact .inl hsame.symm
  · rw [hinfo, Option.some.injEq] at hinfo'
    subst hinfo'
    exact .inr hle

/-- While the plan is empty, a host off `nodes_by_load` has had every candidate rejected: none of
its tablets has an admissible move to the target. -/
theorem LoopInv.not_admissible_of_off (init : Initial tm dc env s0) (inv : LoopInv env s)
    (hplan : s.plan = []) (htn : tn.hostId = env.target) (hrack : env.targetRack = tn.rack)
    {n : Node} (hk : n.hostId ∈ s.nodes.keys) (hoff : n.hostId ∉ s.nodesByLoad)
    (t : GlobalTabletId) : ¬ AdmissibleMove tm dc t n tn := by
  intro h
  obtain ⟨shard, hrep⟩ := h.replica
  rcases inv.accounted _ hk t shard (init.tm_eq ▸ hrep) with hc | hrej | hmv
  · rcases inv.off _ hk hoff with hsbl | hzero
    · exact absurd ((inv.nodeOk _ hk).mem shard (List.ne_nil_of_mem hc)) (hsbl ▸ List.not_mem_nil _)
    · have hc0 : replicaCount tm.tablets n.hostId = 0 := by
        rw [inv.counts _ hk, hplan, init.tm_eq] at hzero; exact hzero
      exact absurd hc0 (Nat.pos_iff_ne_zero.mp (replicaCount_pos hrep))
  · exact h.passes init htn hrack hrej
  · rw [hplan] at hmv
    exact List.not_mem_nil _ hmv

/-- With nothing emitted yet, a balanced host still has its input count and load. -/
theorem Reachable.entry_of_plan_nil (init : Initial tm dc env s0) (hr : Reachable env s0 s)
    (hplan : s.plan = []) {n : Node} (hn : n ∈ dcNodes tm.topology dc) :
    n.hostId ∈ s.nodes.keys ∧
      (s.nodes.get n.hostId).tabletCount = replicaCount tm.tablets n.hostId ∧
      (s.nodes.get n.hostId).shardCount = n.shardCount ∧
      (s.nodes.get n.hostId).avgLoad = mkRat (replicaCount tm.tablets n.hostId) n.shardCount := by
  obtain ⟨hk, hc, hsc, havg⟩ := hr.entry init hn
  have hc' : (s.nodes.get n.hostId).tabletCount = replicaCount tm.tablets n.hostId := by
    rw [hc, hplan]; rfl
  exact ⟨hk, hc', hsc, hc' ▸ havg⟩

/-- With the plan still empty the loop has not stopped on its own: the target is on
`nodes_by_load`, and the batch is the target's shard count, which is positive. -/
theorem LoopInv.continues_of_plan_nil (init : Initial tm dc env s0) (inv : LoopInv env s)
    (hplan : s.plan = []) : s.Continues env := by
  obtain ⟨tn, htn, hid, hbs, -⟩ := inv.targetNode init
  obtain ⟨n0, hn0, -, -, -, hpos⟩ := inv.node _ inv.target_mem
  rw [← hid, init.tm_eq, findNode_eq_some (List.mem_filter.mp htn).1, Option.some.injEq] at hn0
  subst hn0
  exact ⟨by rw [hplan, hbs]; exact hpos, List.ne_nil_of_mem inv.target_nbl⟩

/-- An iteration that breaks pops the root of `nodes_by_load`, which no host on it outweighs, and
breaks at one of the checks of lines 301-322. -/
theorem LoopInv.break_root (inv : LoopInv env s) {pick : Nat}
    (hs : TabletLoadBalancer.step env pick s = .ok none)
    (hv : s.nodesByLoad ≠ []) :
    ∃ src ∈ s.nodesByLoad, (∀ h ∈ s.nodesByLoad, loadKey env s h ≤ loadKey env s src) ∧
      (stdMax s.maxOffCandidateLoad (s.nodes.get src).avgLoad = (s.nodes.get env.target).avgLoad ∨
        (s.nodes.get src).avgLoad ≤ (s.nodes.get env.target).avgLoad ∨
        mkRat ((s.nodes.get src).tabletCount - 1 : Nat) (s.nodes.get src).shardCount <
          mkRat ((s.nodes.get env.target).tabletCount + 1) (s.nodes.get env.target).shardCount) := by
  obtain ⟨src, hpop, hbrk⟩ := body_eq_none (step_eq_ok_none.mp hs)
  obtain ⟨hroot, hsrc⟩ := popHeap_back (nodesCmp s.nodes) (List.length_pos.mpr hv) hpop
  exact ⟨src, hsrc, fun h hh => hroot ▸ inv.heap.le_root hh, hbrk⟩

end Empty

/-- When `make_plan(dc)` returns an empty plan for a snapshot without pending transitions, the
datacenter has no normal node, or it has a least-loaded normal node `m` and a normal node `n` such
that no tablet has an admissible move to `m` from `n`, nor from any normal node loaded above `n`.
The loop broke at `n`, whose move to the target would invert the loads, or `n` is the target. -/
theorem makePlanDc_empty {tm : TokenMetadata} {choose : Nat → Nat} {dc : DcName}
    (hsettled : ∀ p ∈ tm.tablets.tables, p.2.transitions = [])
    (h : makePlanDc tm choose dc = .ok []) :
    dcNodes tm.topology dc = [] ∨ ∃ m ∈ dcNodes tm.topology dc,
      (∀ n' ∈ dcNodes tm.topology dc, mkRat (replicaCount tm.tablets m.hostId) m.shardCount ≤
        mkRat (replicaCount tm.tablets n'.hostId) n'.shardCount) ∧
      ∃ n ∈ dcNodes tm.topology dc, ∀ n' ∈ dcNodes tm.topology dc,
        (n' = n ∨ mkRat (replicaCount tm.tablets n.hostId) n.shardCount <
          mkRat (replicaCount tm.tablets n'.hostId) n'.shardCount) →
        ∀ t, ¬ AdmissibleMove tm dc t n' m := by
  by_cases hd : dcNodes tm.topology dc = []
  · exact .inl hd
  right
  rcases makePlanDc_eq_ok h with ⟨hp, -⟩ | ⟨env, s0, sf, hp, hr, hstop, hplan⟩
  · obtain ⟨m, hm⟩ := List.exists_mem_of_ne_nil _ hd
    have hbal := prepare_done_balanced hsettled hp
    refine ⟨m, hm, fun n' hn' => (hbal m hm n' hn').le, m, hm, fun n' hn' hor t hadm => ?_⟩
    rcases hor with rfl | hlt
    · exact hadm.ne rfl
    · exact ne_of_lt hlt (hbal m hm n' hn')
  have init := prepare_initial hp
  have inv := hr.loopInv init.inv
  obtain ⟨tn, htn, hid, -, hrack⟩ := inv.targetNode init
  have entry := fun n (hn : n ∈ dcNodes tm.topology dc) => hr.entry_of_plan_nil init hplan hn
  refine ⟨tn, htn, fun n' hn' => ?_, ?_⟩
  · rw [← (init.entry htn).2.2.2, ← (init.entry hn').2.2.2, hid]
    exact init.least _ (init.entry hn').1
  have hc := inv.continues_of_plan_nil init hplan
  obtain ⟨pick, hs⟩ := hstop.resolve_left fun hnc => hnc hc
  obtain ⟨src, hsrc, hroot, hbrk⟩ := inv.break_root hs hc.2
  obtain ⟨ns, hns, rfl⟩ := List.mem_map.mp (init.keys ▸ hr.keys ▸ inv.nbl_keys _ hsrc)
  rw [← hid] at hbrk
  -- the host the loop broke at: the target when the root is not above it, the root otherwise
  obtain ⟨n, hn, hkey, hnot⟩ : ∃ n ∈ dcNodes tm.topology dc, loadKey env sf ns.hostId =
      mkRat (replicaCount tm.tablets n.hostId) n.shardCount ∧ ∀ t, ¬ AdmissibleMove tm dc t n tn := by
    by_cases hlow : (sf.nodes.get ns.hostId).avgLoad ≤ (sf.nodes.get tn.hostId).avgLoad
    · exact ⟨tn, htn, by rw [loadKey, ← hid, max_eq_right hlow, (entry tn htn).2.2.2],
        fun t hadm => hadm.ne rfl⟩
    refine ⟨ns, hns, by rw [loadKey, ← hid, max_eq_left (le_of_lt (not_le.mp hlow)),
      (entry ns hns).2.2.2], fun t hadm => ?_⟩
    have hinv : mkRat ((sf.nodes.get ns.hostId).tabletCount - 1 : Nat)
        (sf.nodes.get ns.hostId).shardCount <
        mkRat ((sf.nodes.get tn.hostId).tabletCount + 1) (sf.nodes.get tn.hostId).shardCount := by
      rcases hbrk with h1 | h2 | h3
      · rw [stdMax_eq_max] at h1
        exact absurd (h1 ▸ le_max_right _ _) hlow
      · exact absurd h2 hlow
      · exact h3
    rw [(entry ns hns).2.1, (entry ns hns).2.2.1, (entry tn htn).2.1, (entry tn htn).2.2.1] at hinv
    exact absurd hadm.no_inversion (not_le.mpr hinv)
  refine ⟨n, hn, fun n' hn' hor t hadm => ?_⟩
  rcases hor with rfl | hlt
  · exact hnot t hadm
  refine inv.not_admissible_of_off init hplan hid hrack (entry n' hn').1 (fun hin => ?_) t hadm
  have hle := le_trans (le_max_left _ _) ((hroot _ hin).trans_eq hkey)
  rw [(entry n' hn').2.2.2] at hle
  exact absurd hle (not_le.mpr hlt)

theorem makePlanDc_empty_tightHost :
    (∀ p ∈ tightHostSnapshot.tablets.tables, p.2.transitions = []) ∧
    makePlanDc tightHostSnapshot (fun _ => 0) 0 = .ok [] ∧
    (dcNodes tightHostSnapshot.topology 0 = [] ∨ ∃ m ∈ dcNodes tightHostSnapshot.topology 0,
      (∀ n' ∈ dcNodes tightHostSnapshot.topology 0,
        mkRat (replicaCount tightHostSnapshot.tablets m.hostId) m.shardCount ≤
          mkRat (replicaCount tightHostSnapshot.tablets n'.hostId) n'.shardCount) ∧
      ∃ n ∈ dcNodes tightHostSnapshot.topology 0, ∀ n' ∈ dcNodes tightHostSnapshot.topology 0,
        (n' = n ∨ mkRat (replicaCount tightHostSnapshot.tablets n.hostId) n.shardCount <
          mkRat (replicaCount tightHostSnapshot.tablets n'.hostId) n'.shardCount) →
        ∀ t, ¬ AdmissibleMove tightHostSnapshot 0 t n' m) :=
  ⟨by decide, rfl,
    makePlanDc_empty (by decide) (rfl : makePlanDc tightHostSnapshot (fun _ => 0) 0 = _)⟩

end TabletLoadBalancer
