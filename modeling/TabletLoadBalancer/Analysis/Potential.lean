import TabletLoadBalancer.Analysis.Balance
import Mathlib.Algebra.GCDMonoid.Multiset
import Mathlib.Algebra.GCDMonoid.Nat
import Mathlib.Algebra.Order.Field.Basic
import Mathlib.Tactic.Linarith
import Mathlib.Tactic.Ring

/-!
# A potential that every plan lowers

The executor applies a plan by replacing, migration by migration, the moved replica of each
tablet (`TabletMetadata.applyMigration`); this changes one entry of the replica traversal
(`allReplicas_applyMigration`) and so the per-host counts exactly as `moveCount` says, as long
as the source replica is still there, which distinct `(tablet, source)` pairs guarantee.

`Φ = Σ count(n)² / shard_count(n)` over the normal nodes is lowered by every migration that
passed the inversion check of lines 316-322, by at least `1/s_src + 1/s_dst`
(`potential_moveCount_le`). The plans of all datacenters are such migrations, on disjoint hosts
(`makePlan_sound`), so the whole plan of `make_plan()` lowers `Φ` migration by migration. As
`Φ ≥ 0` and each migration takes at least `1/L` off it, for `L` the least common multiple of
the shard counts, the executor's iteration of plan and apply makes at most `Φ(tm₀) · L`
migrations before a round's plan is empty (`makePlan_potential_decreases`), as long as
`make_plan()` keeps returning a plan: a replica on a host the topology does not know can make a
later round throw (`makePlan_round_then_throws`).
-/

set_option autoImplicit false

namespace TabletLoadBalancer

/-! ## Applying a migration to the tablet metadata -/

/-- The traversal entries of the tablet at position `p.1` of table `table`. -/
def tabletReplicas (table : TableId) (p : TabletId × TabletInfo) :
    List (GlobalTabletId × TabletReplica) :=
  p.2.replicas.map fun r => (⟨table, p.1⟩, r)

/-- The traversal entries of one table: `TabletMap.replicasOf`, and `allReplicas` is their
concatenation over the tables. -/
def tableReplicas (p : TableId × TabletMap) : List (GlobalTabletId × TabletReplica) :=
  p.2.tablets.enum.flatMap (tabletReplicas p.1)

theorem mem_tabletReplicas {table : TableId} {p : TabletId × TabletInfo} {t : GlobalTabletId}
    {r : TabletReplica} : (t, r) ∈ tabletReplicas table p ↔ t = ⟨table, p.1⟩ ∧ r ∈ p.2.replicas := by
  simp only [tabletReplicas, List.mem_map, Prod.mk.injEq]
  constructor
  · rintro ⟨r, hr, rfl, rfl⟩
    exact ⟨rfl, hr⟩
  · rintro ⟨rfl, hr⟩
    exact ⟨r, hr, rfl, rfl⟩

/-- Replacing a replica commutes with tagging the replicas by their tablet. -/
theorem replace_tabletReplicas (table : TableId) (tid : TabletId) (a b : TabletReplica) :
    ∀ rs : List TabletReplica, (tabletReplicas table (tid, ⟨rs⟩)).replace (⟨table, tid⟩, a)
      (⟨table, tid⟩, b) = tabletReplicas table (tid, ⟨rs.replace a b⟩)
  | [] => rfl
  | r :: rs => by
    have ih := replace_tabletReplicas table tid a b rs
    by_cases h : a = r
    · subst h
      simp [tabletReplicas]
    · have h1 : (a == r) = false := by simp [h]
      have h2 : (((⟨table, tid⟩ : GlobalTabletId), a) == (⟨table, tid⟩, r)) = false := by simp [h]
      simp only [tabletReplicas, List.map_cons, List.replace_cons, h1, h2] at ih ⊢
      rw [ih]

/-- Modifying the replica list of the tablet at position `i` replaces its traversal entry. -/
theorem flatMap_enumFrom_modify (table : TableId) (a b : TabletReplica) :
    ∀ (L : List TabletInfo) (k i : Nat) (info : TabletInfo), L[i]? = some info →
      a ∈ info.replicas →
      ((L.modify (fun info => ⟨info.replicas.replace a b⟩) i).enumFrom k).flatMap
          (tabletReplicas table) =
        ((L.enumFrom k).flatMap (tabletReplicas table)).replace (⟨table, k + i⟩, a)
          (⟨table, k + i⟩, b)
  | [], _, _, _, h, _ => by simp at h
  | x :: xs, k, 0, info, h, ha => by
    simp only [List.getElem?_cons_zero, Option.some.injEq] at h
    subst h
    have hm : ((⟨table, k + 0⟩ : GlobalTabletId), a) ∈ tabletReplicas table (k, x) :=
      mem_tabletReplicas.mpr ⟨rfl, ha⟩
    rw [List.modify_zero_cons, List.enumFrom_cons, List.enumFrom_cons, List.flatMap_cons,
      List.flatMap_cons, List.replace_append_left hm]
    exact congrArg (· ++ _) (replace_tabletReplicas table k a b x.replicas).symm
  | x :: xs, k, i + 1, info, h, ha => by
    rw [List.getElem?_cons_succ] at h
    have hm : ((⟨table, k + (i + 1)⟩ : GlobalTabletId), a) ∉ tabletReplicas table (k, x) :=
      fun hm => by
        have := congrArg GlobalTabletId.tablet (mem_tabletReplicas.mp hm).1
        simp at this
    rw [List.modify_succ_cons, List.enumFrom_cons, List.enumFrom_cons, List.flatMap_cons,
      List.flatMap_cons, List.replace_append_right hm, show k + (i + 1) = k + 1 + i by omega]
    exact congrArg (_ ++ ·) (flatMap_enumFrom_modify table a b xs (k + 1) i info h ha)

theorem mem_tableReplicas {p : TableId × TabletMap} {t : GlobalTabletId} {r : TabletReplica} :
    (t, r) ∈ tableReplicas p ↔
      t.table = p.1 ∧ ∃ info, p.2.tablets[t.tablet]? = some info ∧ r ∈ info.replicas := by
  simp only [tableReplicas, List.mem_flatMap, mem_tabletReplicas]
  constructor
  · rintro ⟨⟨tid, info⟩, hi, rfl, hr⟩
    exact ⟨rfl, info, List.mem_enum_iff_getElem?.mp hi, hr⟩
  · rintro ⟨ht, info, hi, hr⟩
    exact ⟨(t.tablet, info), List.mem_enum_iff_getElem?.mpr hi, by rw [← ht], hr⟩

/-- Applying a migration to the table map of its tablet replaces the first traversal entry of
its source replica in that table. -/
theorem tableReplicas_applyMigration {m : TabletMigrationInfo} {mp : TabletMap} {info : TabletInfo}
    (hi : mp.tablets[m.tablet.tablet]? = some info) (hsrc : m.src ∈ info.replicas) :
    tableReplicas (m.tablet.table, mp.applyMigration m) =
      (tableReplicas (m.tablet.table, mp)).replace (m.tablet, m.src) (m.tablet, m.dst) := by
  have := flatMap_enumFrom_modify m.tablet.table m.src m.dst mp.tablets 0 m.tablet.tablet info
    hi hsrc
  rw [Nat.zero_add] at this
  exact this

/-- Over tables with distinct ids, applying a migration to the table map of its tablet replaces
the first traversal entry of its source replica. -/
theorem flatMap_tables_applyMigration (m : TabletMigrationInfo) (mp : TabletMap) (info : TabletInfo)
    (hi : mp.tablets[m.tablet.tablet]? = some info) (hsrc : m.src ∈ info.replicas) :
    ∀ T : List (TableId × TabletMap), (T.map Prod.fst).Nodup → T.lookup m.tablet.table = some mp →
      (T.map fun p => (p.1, if p.1 = m.tablet.table then p.2.applyMigration m else p.2)).flatMap
          tableReplicas =
        (T.flatMap tableReplicas).replace (m.tablet, m.src) (m.tablet, m.dst)
  | [], _, h => by simp at h
  | (tb, mp') :: T, hnd, h => by
    simp only [List.map_cons, List.nodup_cons, List.mem_map] at hnd
    rw [List.lookup_cons] at h
    simp only [List.map_cons, List.flatMap_cons]
    by_cases htb : m.tablet.table = tb
    · subst htb
      simp only [beq_self_eq_true, Option.some.injEq] at h
      subst h
      have hrest : (T.map fun p => (p.1, if p.1 = m.tablet.table then p.2.applyMigration m
          else p.2)) = T :=
        (List.map_congr_left fun p hp => by
          have : p.1 ≠ m.tablet.table := fun e => hnd.1 ⟨p, hp, e⟩
          simp [this]).trans (List.map_id T)
      rw [if_pos rfl, hrest, List.replace_append_left (mem_tableReplicas.mpr ⟨rfl, info, hi, hsrc⟩),
        tableReplicas_applyMigration hi hsrc]
    · rw [beq_false_of_ne htb] at h
      rw [if_neg (Ne.symm htb), flatMap_tables_applyMigration m mp info hi hsrc T hnd.2 h,
        List.replace_append_right fun hm => htb (mem_tableReplicas.mp hm).1]

/-- Applying a migration whose source is a replica of its tablet replaces the first traversal
entry of that replica by the destination. -/
theorem allReplicas_applyMigration {tm : TabletMetadata} {m : TabletMigrationInfo}
    (h : tm.HasReplica m.tablet m.src) :
    (tm.applyMigration m).allReplicas =
      tm.allReplicas.replace (m.tablet, m.src) (m.tablet, m.dst) := by
  obtain ⟨info, hinfo, hsrc⟩ := h
  simp only [TabletMetadata.tabletInfo, TabletMetadata.findTabletMap, Option.bind_eq_some,
    TabletMap.findTabletInfo] at hinfo
  obtain ⟨mp, hmp, hi⟩ := hinfo
  exact flatMap_tables_applyMigration m mp info hi hsrc tm.tables tm.nodup hmp

/-- Replacing an occurrence of `a` by `b` moves one count from `a` to `b`. -/
theorem countP_replace {α : Type} [BEq α] [LawfulBEq α] (p : α → Bool) {a : α} (b : α) :
    ∀ {l : List α}, a ∈ l →
      (l.replace a b).countP p + (if p a then 1 else 0) = l.countP p + (if p b then 1 else 0)
  | x :: l, h => by
    by_cases e : a = x
    · subst e
      simp only [List.replace_cons_self, List.countP_cons]
      omega
    · have ih := countP_replace p b ((List.mem_cons.mp h).resolve_left e)
      simp only [List.replace_cons, beq_false_of_ne e, List.countP_cons]
      omega

theorem mem_replace_of_ne {α : Type} [BEq α] [LawfulBEq α] {a b x : α} (hx : x ≠ a) :
    ∀ {l : List α}, x ∈ l → x ∈ l.replace a b
  | y :: l, h => by
    rw [List.replace_cons]
    by_cases e : a = y
    · subst e
      rw [beq_self_eq_true]
      exact List.mem_cons_of_mem _ ((List.mem_cons.mp h).resolve_left hx)
    · rw [beq_false_of_ne e]
      rcases List.mem_cons.mp h with rfl | h
      · exact List.mem_cons_self _ _
      · exact List.mem_cons_of_mem _ (mem_replace_of_ne hx h)

section Apply

variable {tm : TabletMetadata} {m : TabletMigrationInfo}

/-- Applying a migration whose source is a replica of its tablet, to another host, moves one
tablet from the source's count to the destination's, as the loop's bookkeeping does. -/
theorem replicaCount_applyMigration (hr : tm.HasReplica m.tablet m.src)
    (hne : m.src.host ≠ m.dst.host) :
    replicaCount (tm.applyMigration m) = moveCount (replicaCount tm) m := by
  funext h
  have hc := countP_replace (fun r : GlobalTabletId × TabletReplica => decide (r.2.host = h))
    (m.tablet, m.dst) (mem_allReplicas.mpr hr)
  rw [← allReplicas_applyMigration hr] at hc
  simp only [replicaCount, moveCount, ← List.countP_eq_length_filter]
  split_ifs with hs hd
  · subst hs
    simp [Ne.symm hne] at hc
    omega
  · subst hd
    simp [hne] at hc
    omega
  · simp [Ne.symm hs, Ne.symm hd] at hc
    omega

/-- Applying a migration keeps every other replica of every tablet. -/
theorem hasReplica_applyMigration (hr : tm.HasReplica m.tablet m.src) {t : GlobalTabletId}
    {r : TabletReplica} (h : tm.HasReplica t r) (hne : (t, r) ≠ (m.tablet, m.src)) :
    (tm.applyMigration m).HasReplica t r :=
  mem_allReplicas.mp (allReplicas_applyMigration hr ▸ mem_replace_of_ne hne (mem_allReplicas.mpr h))

end Apply

/-- The executor's migration for `m`: the same tablet, source and destination host, on a
destination shard of its choice below the target's shard count. -/
def ExecutedAs (topo : Topology) (m m' : TabletMigrationInfo) : Prop :=
  m'.tablet = m.tablet ∧ m'.src = m.src ∧ m'.dst.host = m.dst.host ∧
    m'.dst.shard < topo.shardCountOf m.dst.host

/-- Applying, in order, the migrations of a plan whose `(tablet, source)` pairs are distinct and
whose sources are input replicas on other hosts than their destinations changes the per-host
counts as the plan's running counts say, whatever destination shards the executor picks. -/
theorem replicaCount_applyPlan {topo : Topology} :
    ∀ {plan applied : MigrationPlan} {tm : TabletMetadata},
      List.Forall₂ (ExecutedAs topo) plan applied → (plan.map fun m => (m.tablet, m.src)).Nodup →
      (∀ m ∈ plan, tm.HasReplica m.tablet m.src ∧ m.src.host ≠ m.dst.host) →
      replicaCount (tm.applyPlan applied) = runningCounts (replicaCount tm) plan
  | [], [], _, .nil, _, _ => rfl
  | m :: plan, m' :: applied, tm, .cons ⟨ht, hs, hd, _⟩ hf, hnd, hok => by
    rw [List.map_cons, List.nodup_cons] at hnd
    have hm := hok m (List.mem_cons_self _ _)
    have hr : tm.HasReplica m'.tablet m'.src := ht ▸ hs ▸ hm.1
    have ih := replicaCount_applyPlan hf hnd.2 fun x hx =>
      ⟨hasReplica_applyMigration hr (hok x (List.mem_cons_of_mem _ hx)).1
        fun e => hnd.1 (List.mem_map.mpr ⟨x, hx, by rw [e, ht, hs]⟩),
       (hok x (List.mem_cons_of_mem _ hx)).2⟩
    have hmove : moveCount (replicaCount tm) m' = moveCount (replicaCount tm) m := by
      funext h
      simp only [moveCount, hs, hd]
    show replicaCount ((tm.applyMigration m').applyPlan applied) =
      runningCounts (moveCount (replicaCount tm) m) plan
    rw [ih, replicaCount_applyMigration hr (by rw [hs, hd]; exact hm.2), hmove]

/-! ## The potential -/

/-- The normal nodes of the topology, in all datacenters. -/
def Topology.normalNodes (topo : Topology) : List Node :=
  topo.nodes.filter fun n => n.state = .normal

/-- `Φ`: over the normal nodes, the square of the node's tablet count over its shard count. -/
def potential (topo : Topology) (c : HostId → Nat) : ℚ :=
  (topo.normalNodes.map fun n => (c n.hostId : ℚ) ^ 2 / n.shardCount).sum

theorem normalNodes_hostId_nodup (topo : Topology) : (topo.normalNodes.map Node.hostId).Nodup :=
  ((List.filter_sublist _).map Node.hostId).nodup topo.nodup

theorem potential_nonneg (topo : Topology) (c : HostId → Nat) : 0 ≤ potential topo c :=
  List.sum_nonneg fun _ hq => by
    obtain ⟨n, -, rfl⟩ := List.mem_map.mp hq
    exact div_nonneg (sq_nonneg _) (Nat.cast_nonneg _)

/-- Over nodes with distinct host ids, a change of the counts at one node's host changes only
that node's summand. -/
theorem sum_map_update {l : List Node} (hnd : (l.map Node.hostId).Nodup) {n0 : Node}
    (hn0 : n0 ∈ l) {c c' : HostId → Nat} (hc : ∀ h, h ≠ n0.hostId → c' h = c h)
    (F : Node → Nat → ℚ) :
    (l.map fun n => F n (c' n.hostId)).sum + F n0 (c n0.hostId) =
      (l.map fun n => F n (c n.hostId)).sum + F n0 (c' n0.hostId) := by
  induction l with
  | nil => exact absurd hn0 (List.not_mem_nil _)
  | cons a l ih =>
    rw [List.map_cons, List.nodup_cons, List.mem_map] at hnd
    simp only [List.map_cons, List.sum_cons]
    rcases List.mem_cons.mp hn0 with rfl | hn0
    · rw [List.map_congr_left fun n hn => congrArg (F n) (hc _ fun e => hnd.1 ⟨n, hn, e⟩)]
      ring
    · rw [hc _ fun e => hnd.1 ⟨n0, hn0, e.symm⟩, add_assoc, add_assoc, ih hnd.2 hn0]

/-- A migration between two normal nodes changes the potential in their two summands only. -/
theorem potential_moveCount {topo : Topology} (c : HostId → Nat) {m : TabletMigrationInfo}
    {ns nd : Node} (hns : ns ∈ topo.normalNodes) (hnd : nd ∈ topo.normalNodes)
    (hs : ns.hostId = m.src.host) (hd : nd.hostId = m.dst.host) (hne : m.src.host ≠ m.dst.host) :
    potential topo (moveCount c m) + (c m.src.host : ℚ) ^ 2 / ns.shardCount +
        (c m.dst.host : ℚ) ^ 2 / nd.shardCount =
      potential topo c + ((c m.src.host - 1 : Nat) : ℚ) ^ 2 / ns.shardCount +
        ((c m.dst.host + 1 : Nat) : ℚ) ^ 2 / nd.shardCount := by
  let c₁ : HostId → Nat := fun h => if h = m.src.host then c h - 1 else c h
  have h1 := sum_map_update (normalNodes_hostId_nodup topo) hnd
    (show ∀ h, h ≠ nd.hostId → moveCount c m h = c₁ h from fun h hh => by
      simp only [moveCount, c₁, show h ≠ m.dst.host from hd ▸ hh, if_false])
    fun n v => (v : ℚ) ^ 2 / n.shardCount
  have h2 := sum_map_update (normalNodes_hostId_nodup topo) hns
    (show ∀ h, h ≠ ns.hostId → c₁ h = c h from fun h hh => by simp only [c₁, ← hs, hh, if_false])
    fun n v => (v : ℚ) ^ 2 / n.shardCount
  have e1 : c₁ m.dst.host = c m.dst.host := if_neg (Ne.symm hne)
  have e2 : moveCount c m m.dst.host = c m.dst.host + 1 := by simp [moveCount, Ne.symm hne]
  have e3 : c₁ m.src.host = c m.src.host - 1 := if_pos rfl
  simp only [hd, hs, e1, e2, e3] at h1 h2
  unfold potential
  rw [add_right_comm, h1, add_right_comm, h2]

/-- The arithmetic of one migration: moving a tablet from `x + 1` tablets on `S` shards to `y`
tablets on `D` shards, when the source stays no lower than the destination, lowers
`x²/S + y²/D` by at least `1/S + 1/D`. -/
theorem sq_div_move {x y S D : ℚ} (h : (y + 1) / D ≤ x / S) :
    x ^ 2 / S + (y + 1) ^ 2 / D + (1 / S + 1 / D) ≤ (x + 1) ^ 2 / S + y ^ 2 / D := by
  have e : (x + 1) ^ 2 / S + y ^ 2 / D - (x ^ 2 / S + (y + 1) ^ 2 / D + (1 / S + 1 / D)) =
      2 * (x / S - (y + 1) / D) := by ring
  linarith only [e, h]

/-- A migration between distinct normal nodes that passed the inversion check on the counts `c`
lowers the potential by at least `1/s_src + 1/s_dst`. -/
theorem potential_moveCount_le {topo : Topology} (c : HostId → Nat) {m : TabletMigrationInfo}
    {ns nd : Node} (hns : ns ∈ topo.normalNodes) (hnd : nd ∈ topo.normalNodes)
    (hs : ns.hostId = m.src.host) (hd : nd.hostId = m.dst.host) (hne : m.src.host ≠ m.dst.host)
    (hpos : 0 < c m.src.host)
    (hg : mkRat (c m.dst.host + 1) nd.shardCount ≤ mkRat (c m.src.host - 1 : Nat) ns.shardCount) :
    potential topo (moveCount c m) + (1 / (ns.shardCount : ℚ) + 1 / (nd.shardCount : ℚ)) ≤
      potential topo c := by
  have he := potential_moveCount c hns hnd hs hd hne
  obtain ⟨x, hx⟩ : ∃ x, c m.src.host = x + 1 := ⟨_, (Nat.succ_pred_eq_of_pos hpos).symm⟩
  rw [Rat.mkRat_eq_div, Rat.mkRat_eq_div, hx, Nat.add_sub_cancel] at hg
  rw [hx, Nat.add_sub_cancel] at he
  push_cast at hg he
  linarith only [he, sq_div_move hg]

/-! ## Plans of `make_plan()` -/

/-- Host `h` is a normal node of datacenter `dc` with shards. -/
def InDc (topo : Topology) (dc : DcName) (h : HostId) : Prop :=
  ∃ n ∈ topo.normalNodes, n.hostId = h ∧ n.dc = dc ∧ 0 < n.shardCount

/-- A migration between two distinct normal nodes of datacenter `dc` with shards. -/
structure NormalMove (topo : Topology) (dc : DcName) (m : TabletMigrationInfo) : Prop where
  src : InDc topo dc m.src.host
  dst : InDc topo dc m.dst.host
  ne : m.src.host ≠ m.dst.host

theorem shardCountOf_of_mem {topo : Topology} {n : Node} (hn : n ∈ topo.nodes) :
    topo.shardCountOf n.hostId = n.shardCount := by
  simp [Topology.shardCountOf, findNode_eq_some hn]

/-- A host belongs to one datacenter only. -/
theorem InDc.ne {topo : Topology} {dc dc' : DcName} {h h' : HostId} (hh : InDc topo dc h)
    (hh' : InDc topo dc' h') (hdc : dc ≠ dc') : h ≠ h' := by
  rintro rfl
  obtain ⟨n, hn, rfl, rfl, -⟩ := hh
  obtain ⟨n', hn', he, rfl, -⟩ := hh'
  have := (findNode_eq_some (List.mem_filter.mp hn).1).symm.trans
    (he ▸ findNode_eq_some (List.mem_filter.mp hn').1)
  exact hdc (congrArg Node.dc (Option.some.inj this))

/-- The least common multiple of the normal nodes' shard counts. -/
def shardLcm (topo : Topology) : Nat :=
  Multiset.lcm (topo.normalNodes.map Node.shardCount : Multiset Nat)

theorem shardLcm_pos {topo : Topology} (h : ∀ n ∈ topo.normalNodes, 0 < n.shardCount) :
    0 < shardLcm topo :=
  Nat.pos_of_ne_zero fun h0 => by
    obtain ⟨n, hn, h0'⟩ := List.mem_map.mp (Multiset.mem_coe.mp ((Multiset.lcm_eq_zero_iff _).mp h0))
    exact absurd (h n hn) (by omega)

theorem InDc.shardCountOf {topo : Topology} {dc : DcName} {h : HostId} (hh : InDc topo dc h) :
    0 < topo.shardCountOf h ∧ topo.shardCountOf h ∣ shardLcm topo := by
  obtain ⟨n, hn, rfl, -, hpos⟩ := hh
  rw [shardCountOf_of_mem (List.mem_filter.mp hn).1]
  exact ⟨hpos, Multiset.dvd_lcm (Multiset.mem_coe.mpr (List.mem_map_of_mem _ hn))⟩

/-- The first migration of a guarded plan lowers the potential by `1/s_src + 1/s_dst`. -/
theorem Guarded.potential_step {topo : Topology} {dc : DcName} {c : HostId → Nat}
    {m : TabletMigrationInfo} {plan : MigrationPlan} (hg : Guarded topo.shardCountOf c (m :: plan))
    (hm : NormalMove topo dc m) :
    potential topo (moveCount c m) + (1 / (topo.shardCountOf m.src.host : ℚ) +
      1 / (topo.shardCountOf m.dst.host : ℚ)) ≤ potential topo c := by
  obtain ⟨ns, hns, hs, -, -⟩ := hm.src
  obtain ⟨nd, hnd, hd, -, -⟩ := hm.dst
  obtain ⟨hpos, hle, -⟩ := hg
  rw [← hs, ← hd, shardCountOf_of_mem (List.mem_filter.mp hns).1,
    shardCountOf_of_mem (List.mem_filter.mp hnd).1] at hle ⊢
  rw [hs, hd] at hle
  exact potential_moveCount_le c hns hnd hs hd hm.ne hpos hle

/-- Along a guarded plan of normal moves, every migration lowers the potential strictly. -/
theorem Guarded.potential_take_lt {topo : Topology} :
    ∀ {c : HostId → Nat} {plan : MigrationPlan}, Guarded topo.shardCountOf c plan →
      (∀ m ∈ plan, ∃ dc, NormalMove topo dc m) → ∀ i < plan.length,
      potential topo (runningCounts c (plan.take (i + 1))) <
        potential topo (runningCounts c (plan.take i))
  | _, [], _, _, _, hi => absurd hi (Nat.not_lt_zero _)
  | c, m :: plan, hg, hm, 0, _ => by
    obtain ⟨dc, hmv⟩ := hm m (List.mem_cons_self _ _)
    have hstep := hg.potential_step hmv
    have hS : (0 : ℚ) < 1 / (topo.shardCountOf m.src.host : ℚ) :=
      one_div_pos.mpr (Nat.cast_pos.mpr hmv.src.shardCountOf.1)
    have hD : (0 : ℚ) < 1 / (topo.shardCountOf m.dst.host : ℚ) :=
      one_div_pos.mpr (Nat.cast_pos.mpr hmv.dst.shardCountOf.1)
    show potential topo (moveCount c m) < potential topo c
    linarith
  | c, m :: plan, hg, hm, i + 1, hi =>
    Guarded.potential_take_lt hg.2.2 (fun x hx => hm x (List.mem_cons_of_mem _ hx)) i
      (Nat.lt_of_succ_lt_succ hi)

/-- Along a guarded plan of normal moves, each migration takes at least `1/L` off the potential,
for `L` the least common multiple of the shard counts. -/
theorem Guarded.potential_le {topo : Topology} (hL : 0 < shardLcm topo) :
    ∀ {c : HostId → Nat} {plan : MigrationPlan}, Guarded topo.shardCountOf c plan →
      (∀ m ∈ plan, ∃ dc, NormalMove topo dc m) →
      potential topo (runningCounts c plan) + plan.length / (shardLcm topo : ℚ) ≤ potential topo c
  | _, [], _, _ => by simp [runningCounts]
  | c, m :: plan, hg, hm => by
    obtain ⟨dc, hmv⟩ := hm m (List.mem_cons_self _ _)
    have hstep := hg.potential_step hmv
    have ih := Guarded.potential_le hL hg.2.2 fun x hx => hm x (List.mem_cons_of_mem _ hx)
    obtain ⟨hS, hdvd⟩ := hmv.src.shardCountOf
    have hLS : 1 / (shardLcm topo : ℚ) ≤ 1 / (topo.shardCountOf m.src.host : ℚ) :=
      one_div_le_one_div_of_le (Nat.cast_pos.mpr hS) (Nat.cast_le.mpr (Nat.le_of_dvd hL hdvd))
    have hD : (0 : ℚ) ≤ 1 / (topo.shardCountOf m.dst.host : ℚ) :=
      div_nonneg zero_le_one (Nat.cast_nonneg _)
    show potential topo (runningCounts (moveCount c m) plan) +
      ((plan.length + 1 : Nat) : ℚ) / shardLcm topo ≤ potential topo c
    rw [Nat.cast_succ, add_div]
    linarith only [hstep, ih, hLS, hD]

theorem Guarded.append {sc : HostId → Nat} :
    ∀ {c : HostId → Nat} {p q : MigrationPlan},
      Guarded sc c (p ++ q) ↔ Guarded sc c p ∧ Guarded sc (runningCounts c p) q
  | _, [], _ => by simp [Guarded, runningCounts]
  | c, m :: p, q => by
    show (0 < c m.src.host ∧ _ ∧ Guarded sc (moveCount c m) (p ++ q)) ↔
      (0 < c m.src.host ∧ _ ∧ Guarded sc (moveCount c m) p) ∧
        Guarded sc (runningCounts (moveCount c m) p) q
    rw [Guarded.append]
    simp only [and_assoc]

theorem moveCount_congr {c c' : HostId → Nat} (m : TabletMigrationInfo) {x : HostId}
    (h : c' x = c x) : moveCount c' m x = moveCount c m x := by
  simp only [moveCount, h]

/-- `Guarded` reads the counts of the migrations' hosts only. -/
theorem Guarded.congr_counts {sc : HostId → Nat} :
    ∀ {c c' : HostId → Nat} {plan : MigrationPlan},
      (∀ m ∈ plan, c' m.src.host = c m.src.host ∧ c' m.dst.host = c m.dst.host) →
      Guarded sc c plan → Guarded sc c' plan
  | _, _, [], _, _ => trivial
  | _, _, m :: _, h, ⟨hpos, hle, hg⟩ => by
    obtain ⟨hs, hd⟩ := h m (List.mem_cons_self _ _)
    refine ⟨hs ▸ hpos, by rwa [hs, hd], Guarded.congr_counts (fun m' hm' => ?_) hg⟩
    obtain ⟨hs', hd'⟩ := h m' (List.mem_cons_of_mem _ hm')
    exact ⟨moveCount_congr m hs', moveCount_congr m hd'⟩

/-- A plan leaves the counts of hosts it does not touch unchanged. -/
theorem runningCounts_of_forall_ne {x : HostId} :
    ∀ {c : HostId → Nat} {plan : MigrationPlan},
      (∀ m ∈ plan, m.src.host ≠ x ∧ m.dst.host ≠ x) → runningCounts c plan x = c x
  | _, [], _ => rfl
  | c, m :: plan, h => by
    obtain ⟨hs, hd⟩ := h m (List.mem_cons_self _ _)
    show runningCounts (moveCount c m) plan x = c x
    rw [runningCounts_of_forall_ne fun m' hm' => h m' (List.mem_cons_of_mem _ hm')]
    simp [moveCount, Ne.symm hs, Ne.symm hd]

/-- What the potential argument reads from a plan of `make_plan()`: every migration passed the
inversion check on the counts of its time, moves an input replica between distinct normal nodes
of one datacenter, and no `(tablet, source)` pair occurs twice. -/
structure PlanSound (tm : TokenMetadata) (plan : MigrationPlan) : Prop where
  guarded : Guarded tm.topology.shardCountOf (replicaCount tm.tablets) plan
  nodup : (plan.map fun m => (m.tablet, m.src)).Nodup
  replica : ∀ m ∈ plan, tm.tablets.HasReplica m.tablet m.src
  normal : ∀ m ∈ plan, ∃ dc, NormalMove tm.topology dc m

/-- Phases A and B of a successful `make_plan(dc)` found shards on every normal node of `dc`. -/
theorem prepare_shardCount_pos {tm : TokenMetadata} {dc : DcName} {r : Prepared}
    (h : prepare tm dc = .ok r) : ∀ n ∈ dcNodes tm.topology dc, 0 < n.shardCount := by
  unfold prepare at h
  simp only [except_bind_eq_ok] at h
  obtain ⟨m1, h1, m2, h2, -⟩ := h
  exact fun n hn => ((countedNodes_eq_ok h1 h2).2 n hn).2.1

/-- The plan of `make_plan(dc)` is sound, its migrations stay among the normal nodes of `dc`, and
all of these have shards. -/
theorem makePlanDc_sound {tm : TokenMetadata} {choose : Nat → Nat} {dc : DcName}
    {plan : MigrationPlan} (h : makePlanDc tm choose dc = .ok plan) :
    PlanSound tm plan ∧ (∀ m ∈ plan, NormalMove tm.topology dc m) ∧
      ∀ n ∈ dcNodes tm.topology dc, 0 < n.shardCount := by
  have hg := makePlanDc_guarded h
  rcases makePlanDc_eq_ok h with ⟨hp, rfl⟩ | ⟨env, s0, sf, hp, hr, -, rfl⟩
  · exact ⟨⟨hg, List.nodup_nil, nofun, nofun⟩, nofun, prepare_shardCount_pos hp⟩
  have init := prepare_initial hp
  have inv := hr.loopInv init.inv
  have hin : ∀ h ∈ sf.nodes.keys, InDc tm.topology dc h := fun h hh => by
    obtain ⟨n, hn, hst, hdc, -, hpos⟩ := inv.node h hh
    rw [init.tm_eq] at hn
    obtain ⟨hmem, rfl⟩ := findNode_mem hn
    exact ⟨n, List.mem_filter.mpr ⟨hmem, by simpa using hst⟩, rfl, init.dc_eq ▸ hdc, hpos⟩
  have hmv : ∀ m ∈ sf.plan, NormalMove tm.topology dc m := fun m hm =>
    have mo := inv.plan m hm
    ⟨hin _ mo.src_mem, mo.dst ▸ hin _ inv.target_mem, mo.dst ▸ mo.src_ne⟩
  exact ⟨⟨hg, inv.plan_nodup, fun m hm => init.tm_eq ▸ (inv.plan m hm).replica,
    fun m hm => ⟨dc, hmv m hm⟩⟩, hmv, prepare_shardCount_pos hp⟩

/-- A sound plan of datacenter `dc` followed by a sound plan of other datacenters is sound: the
second starts on counts the first did not touch. -/
theorem PlanSound.append {tm : TokenMetadata} {dc : DcName} {p q : MigrationPlan}
    (hp : PlanSound tm p) (hpd : ∀ m ∈ p, NormalMove tm.topology dc m) (hq : PlanSound tm q)
    (hqd : ∀ m ∈ q, ∃ dc', dc' ≠ dc ∧ NormalMove tm.topology dc' m) : PlanSound tm (p ++ q) := by
  have hfree : ∀ m' ∈ q, ∀ m ∈ p,
      (m.src.host ≠ m'.src.host ∧ m.dst.host ≠ m'.src.host) ∧
        m.src.host ≠ m'.dst.host ∧ m.dst.host ≠ m'.dst.host := fun m' hm' m hm => by
    obtain ⟨dc', hne, hmv'⟩ := hqd m' hm'
    have hmv := hpd m hm
    have hdc := Ne.symm hne
    exact ⟨⟨hmv.src.ne hmv'.src hdc, hmv.dst.ne hmv'.src hdc⟩, hmv.src.ne hmv'.dst hdc,
      hmv.dst.ne hmv'.dst hdc⟩
  refine ⟨Guarded.append.mpr ⟨hp.guarded, hq.guarded.congr_counts fun m' hm' =>
      ⟨runningCounts_of_forall_ne fun m hm => (hfree m' hm' m hm).1,
       runningCounts_of_forall_ne fun m hm => (hfree m' hm' m hm).2⟩⟩, ?_, ?_, ?_⟩
  · rw [List.map_append, List.nodup_append]
    refine ⟨hp.nodup, hq.nodup, fun a ha hb => ?_⟩
    obtain ⟨m, hm, rfl⟩ := List.mem_map.mp ha
    obtain ⟨m', hm', he⟩ := List.mem_map.mp hb
    exact (hfree m' hm' m hm).1.1 (congrArg (·.2.host) he).symm
  · intro m hm
    rcases List.mem_append.mp hm with hm | hm
    exacts [hp.replica m hm, hq.replica m hm]
  · intro m hm
    rcases List.mem_append.mp hm with hm | hm
    exacts [⟨dc, hpd m hm⟩, hq.normal m hm]

/-- The concatenated plans of distinct datacenters are sound. -/
theorem flatten_sound {tm : TokenMetadata} :
    ∀ {dcs : List DcName} {plans : List MigrationPlan}, dcs.Nodup →
      List.Forall₂ (fun dc p => PlanSound tm p ∧ ∀ m ∈ p, NormalMove tm.topology dc m) dcs plans →
      PlanSound tm plans.flatten ∧ ∀ m ∈ plans.flatten, ∃ dc ∈ dcs, NormalMove tm.topology dc m
  | [], [], _, .nil => ⟨⟨trivial, List.nodup_nil, nofun, nofun⟩, nofun⟩
  | dc :: _, _ :: _, hnd, .cons ⟨hp, hpd⟩ hf => by
    obtain ⟨hs, hsd⟩ := flatten_sound (List.nodup_cons.mp hnd).2 hf
    refine ⟨hp.append hpd hs fun m hm => ?_, fun m hm => ?_⟩
    · obtain ⟨dc', hdc', hmv⟩ := hsd m hm
      exact ⟨dc', fun e => (List.nodup_cons.mp hnd).1 (e ▸ hdc'), hmv⟩
    · rcases List.mem_append.mp hm with hm | hm
      · exact ⟨dc, List.mem_cons_self _ _, hpd m hm⟩
      · obtain ⟨dc', hdc', hmv⟩ := hsd m hm
        exact ⟨dc', List.mem_cons_of_mem _ hdc', hmv⟩

theorem forall₂_exists_of_mem {α β : Type} {R : α → β → Prop} :
    ∀ {l₁ : List α} {l₂ : List β}, List.Forall₂ R l₁ l₂ → ∀ {a : α}, a ∈ l₁ → ∃ b, R a b
  | _, _, .cons h _, _, .head _ => ⟨_, h⟩
  | _, _, .cons _ t, _, .tail _ ha => forall₂_exists_of_mem t ha

/-- The plan of `make_plan()` is sound, and all normal nodes have shards. -/
theorem makePlan_sound {tm : TokenMetadata} {choose : DcName → Nat → Nat} {plan : MigrationPlan}
    (h : makePlan tm choose = .ok plan) :
    PlanSound tm plan ∧ ∀ n ∈ tm.topology.normalNodes, 0 < n.shardCount := by
  obtain ⟨plans, hf, rfl⟩ := makePlan_eq_ok h
  have hf' := hf.imp fun _ _ hp => makePlanDc_sound hp
  refine ⟨(flatten_sound (List.nodup_dedup _) (hf'.imp fun _ _ h => ⟨h.1, h.2.1⟩)).1,
    fun n hn => ?_⟩
  obtain ⟨hmem, hst⟩ := List.mem_filter.mp hn
  obtain ⟨p, hp⟩ := forall₂_exists_of_mem hf'
    (List.mem_dedup.mpr (List.mem_map_of_mem Node.dc hmem))
  exact hp.2.2 n (List.mem_filter.mpr ⟨hmem, by simpa [Selected] using hst⟩)

/-! ## Rounds of plan and apply -/

/-- One round of the executor's iteration: `make_plan()` returns a plan with a migration, and the
executor applies it, choosing the destination shards. -/
inductive Round (tm : TokenMetadata) : TokenMetadata → MigrationPlan → Prop
  | mk (choose : DcName → Nat → Nat) (plan applied : MigrationPlan) :
      makePlan tm choose = .ok plan → plan ≠ [] →
      List.Forall₂ (ExecutedAs tm.topology) plan applied →
      Round tm { tm with tablets := tm.tablets.applyPlan applied } plan

/-- `Rounds tm k n tm'`: `k` rounds, with `n` migrations in all, lead from `tm` to `tm'`. -/
inductive Rounds : TokenMetadata → Nat → Nat → TokenMetadata → Prop
  | refl (tm : TokenMetadata) : Rounds tm 0 0 tm
  | step {tm tm' tm'' : TokenMetadata} {plan : MigrationPlan} {k n : Nat} :
      Round tm tm' plan → Rounds tm' k n tm'' → Rounds tm (k + 1) (plan.length + n) tm''

/-- A round keeps the topology and takes at least `1/L` off the potential per migration. -/
theorem Round.potential_le {tm tm' : TokenMetadata} {plan : MigrationPlan}
    (h : Round tm tm' plan) :
    tm'.topology = tm.topology ∧ 0 < plan.length ∧ 0 < shardLcm tm.topology ∧
      potential tm.topology (replicaCount tm'.tablets) + plan.length / (shardLcm tm.topology : ℚ) ≤
        potential tm.topology (replicaCount tm.tablets) := by
  obtain ⟨choose, plan, applied, hp, hne, hf⟩ := h
  obtain ⟨hs, hpos⟩ := makePlan_sound hp
  have hL := shardLcm_pos hpos
  refine ⟨rfl, List.length_pos.mpr hne, hL, ?_⟩
  show potential _ (replicaCount (tm.tablets.applyPlan applied)) + _ ≤ _
  rw [replicaCount_applyPlan hf hs.nodup fun m hm =>
    ⟨hs.replica m hm, (hs.normal m hm).elim fun _ h => h.ne⟩]
  exact hs.guarded.potential_le hL hs.normal

/-- Over rounds, the migrations made so far, over `L`, are at most what the potential lost. -/
theorem Rounds.potential_le {tm tm' : TokenMetadata} {k n : Nat} (h : Rounds tm k n tm') :
    tm'.topology = tm.topology ∧ k ≤ n ∧ (n = 0 ∨ 0 < shardLcm tm.topology) ∧
      potential tm.topology (replicaCount tm'.tablets) + n / (shardLcm tm.topology : ℚ) ≤
        potential tm.topology (replicaCount tm.tablets) := by
  induction h with
  | refl => exact ⟨rfl, le_rfl, .inl rfl, by simp⟩
  | step hr _ ih =>
    obtain ⟨ht, hlen, hL, hle⟩ := hr.potential_le
    obtain ⟨ht', hk, -, hle'⟩ := ih
    rw [ht] at ht' hle'
    refine ⟨ht', by omega, .inr hL, ?_⟩
    rw [Nat.cast_add, add_div]
    linarith

/-- Every migration of `make_plan()`, applied in order to the per-node tablet counts, strictly
lowers `Φ = Σ count(n)² / shard_count(n)` over the normal nodes; and along any rounds of
plan-and-apply in which `make_plan()` returns a nonempty plan, with any candidate choices and
any destination shards, the number of migrations, and so of rounds, is at most `Φ(tm) · L`, for
`L` the least common multiple of the normal nodes' shard counts. -/
theorem makePlan_potential_decreases (tm : TokenMetadata) :
    (∀ choose plan, makePlan tm choose = .ok plan → ∀ i < plan.length,
      potential tm.topology (runningCounts (replicaCount tm.tablets) (plan.take (i + 1))) <
        potential tm.topology (runningCounts (replicaCount tm.tablets) (plan.take i))) ∧
    ∀ k n tm', Rounds tm k n tm' →
      k ≤ n ∧ (n : ℚ) ≤ potential tm.topology (replicaCount tm.tablets) * shardLcm tm.topology := by
  refine ⟨fun choose plan h => ?_, fun k n tm' h => ?_⟩
  · have hs := (makePlan_sound h).1
    exact hs.guarded.potential_take_lt hs.normal
  obtain ⟨-, hk, hL, hle⟩ := h.potential_le
  refine ⟨hk, ?_⟩
  have h0 := potential_nonneg tm.topology (replicaCount tm'.tablets)
  rcases hL with rfl | hL
  · rw [Nat.cast_zero]
    exact mul_nonneg (potential_nonneg _ _) (Nat.cast_nonneg _)
  · rw [← div_le_iff₀ (Nat.cast_pos.mpr hL)]
    linarith

/-- Host 1, in rack 0, holds five tablets whose other replica is on host 9, a host the topology
does not know; host 2, in rack 1, holds one tablet, and host 3, in rack 0, none. Each of these
normal nodes of datacenter 0 has one shard. -/
def unknownReplicaSnapshot : TokenMetadata where
  topology := ⟨[⟨1, 0, 0, .normal, 1⟩, ⟨2, 0, 1, .normal, 1⟩, ⟨3, 0, 0, .normal, 1⟩], by decide⟩
  tablets := ⟨[(0, ⟨⟨[⟨2, 0⟩]⟩ :: (List.range 5).map fun _ => ⟨[⟨9, 0⟩, ⟨1, 0⟩]⟩, []⟩)], by decide⟩

/-- The first round moves tablet `(0, 5)` from host 1 to host 3, in the same rack, without asking
the topology for host 9. In the second round the target is host 2, in the other rack; counting the
racks of host 1's candidate looks up host 9, and `make_plan()` throws: the iteration stops without
reaching an empty plan. -/
theorem makePlan_round_then_throws :
    ∃ tm₁, Round unknownReplicaSnapshot tm₁ [⟨⟨0, 5⟩, ⟨1, 0⟩, ⟨3, 0⟩⟩] ∧
      makePlan tm₁ (fun _ _ => 0) = .error (.nodeNotFound 9) :=
  ⟨_, .mk (fun _ _ => 0) _ _ rfl (by decide) (.cons ⟨rfl, rfl, rfl, by decide⟩ .nil), rfl⟩

end TabletLoadBalancer
