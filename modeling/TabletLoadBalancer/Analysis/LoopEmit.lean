import TabletLoadBalancer.Analysis.LoopInv

/-!
# The emission keeps the loop invariant

Lines 387-405 are the one path that moves a tablet: the plan grows by the migration, the source
loses the tablet and the target gains it, and the guards push back the shard and the host unless
they were left empty. The delicate part is `nodes_by_load`: the target's load rises while it is
in the heap, so the heap is no longer one of `nodes_cmp`. It stays a heap of `loadKey`, the loads
clipped at the target's, because raising the clip threshold keeps every comparison among hosts
whose loads did not change (`clip_le_clip`), and the source, whose load fell, is the one element
outside the heap when it is pushed back.
-/

set_option autoImplicit false

namespace TabletLoadBalancer

theorem Deferred.finish_nodes (d : Deferred) : d.finish.nodes =
    if d.pushShard then d.state.nodes.modify d.srcHost NodeLoad.pushShard else d.state.nodes := by
  unfold Deferred.finish; split_ifs <;> rfl

theorem Deferred.finish_nodesByLoad (d : Deferred) : d.finish.nodesByLoad =
    if d.pushNode then pushHeap (nodesCmp d.finish.nodes) d.state.nodesByLoad
    else d.state.nodesByLoad := by
  unfold Deferred.finish; split_ifs <;> rfl

@[simp] theorem Deferred.finish_plan (d : Deferred) : d.finish.plan = d.state.plan := by
  unfold Deferred.finish; split_ifs <;> rfl

@[simp] theorem Deferred.finish_maxOffCandidateLoad (d : Deferred) :
    d.finish.maxOffCandidateLoad = d.state.maxOffCandidateLoad := by
  unfold Deferred.finish; split_ifs <;> rfl

theorem mkRat_le_mkRat_of_le {a b d : Nat} (h : a ≤ b) : mkRat a d ≤ mkRat b d := by
  rw [Rat.mkRat_eq_div, Rat.mkRat_eq_div]
  rw [Int.cast_natCast, Int.cast_natCast]
  exact div_le_div_of_nonneg_right (Nat.cast_le.mpr h) (Nat.cast_nonneg _)

/-- Raising the clip threshold from the target's old load to its new one keeps every comparison
of clipped loads among hosts whose loads did not change. -/
theorem clip_le_clip {f f' : HostId → ℚ} {T x y : HostId} (hT : f T ≤ f' T)
    (hx : x = T ∨ f' x = f x) (hy : y = T ∨ f' y = f y)
    (h : max (f x) (f T) ≤ max (f y) (f T)) : max (f' x) (f' T) ≤ max (f' y) (f' T) := by
  rcases hx with rfl | hx
  · simp
  rcases hy with rfl | hy
  · simp only [max_self, max_le_iff] at h ⊢
    exact ⟨hx ▸ h.1.trans hT, le_rfl⟩
  · rw [hx, hy]
    exact max_le ((le_max_iff.mp (max_le_iff.mp h).1).elim (fun h => le_max_of_le_left h)
      fun h => le_max_of_le_right (h.trans hT)) (le_max_right _ _)

theorem runningCounts_append_singleton (c : HostId → Nat) (plan : MigrationPlan)
    (m : TabletMigrationInfo) :
    runningCounts c (plan ++ [m]) = moveCount (runningCounts c plan) m := by
  simp [runningCounts, List.foldl_append]

theorem guarded_append_singleton {sc c : HostId → Nat} {plan : MigrationPlan}
    {m : TabletMigrationInfo} :
    Guarded sc c (plan ++ [m]) ↔ Guarded sc c plan ∧ 0 < runningCounts c plan m.src.host ∧
      mkRat (runningCounts c plan m.dst.host + 1) (sc m.dst.host) ≤
        mkRat (runningCounts c plan m.src.host - 1 : Nat) (sc m.src.host) := by
  induction plan generalizing c with
  | nil => simp [Guarded, runningCounts]
  | cons m' plan ih =>
    show (_ ∧ _ ∧ Guarded sc (moveCount c m') (plan ++ [m])) ↔
      (_ ∧ _ ∧ Guarded sc (moveCount c m') plan) ∧ _
    rw [ih]
    simp only [runningCounts, List.foldl_cons, and_assoc]

variable {env : LoopEnv} {s : LoopState} {src : HostId}

/-- The state an emission of `t` from shard `x` of `src` leaves, once the guards have run: the
source gives the tablet and has the shard pushed back unless it is empty, the target receives
it, the host is pushed back unless it is empty, and the plan grows by the migration. -/
theorem emit_finish {x : ShardId} {t : GlobalTabletId} {d : Deferred} (hne : src ≠ env.target)
    (he : emit env s (takeCandidate s.nodes src x t) (popHeap (nodesCmp s.nodes) s.nodesByLoad)
      src x t = .ok d) :
    d.finish.nodes.keys = s.nodes.keys ∧
    (∀ h, d.finish.nodes.get h = if h = src then
        (if shardKey (s.nodes.get src) x - 1 ≠ 0 then (((s.nodes.get src).take x t).give x).pushShard
          else ((s.nodes.get src).take x t).give x)
      else if h = env.target then (s.nodes.get env.target).receive else s.nodes.get h) ∧
    d.finish.nodesByLoad = (if (s.nodes.get src).tabletCount - 1 ≠ 0 then
        pushHeap (nodesCmp d.finish.nodes) (popHeap (nodesCmp s.nodes) s.nodesByLoad)
      else (popHeap (nodesCmp s.nodes) s.nodesByLoad).dropLast) ∧
    d.finish.plan = s.plan ++ [⟨t, ⟨src, x⟩, ⟨env.target, s.targetLoad.nextShard.1⟩⟩] ∧
    d.finish.maxOffCandidateLoad = s.maxOffCandidateLoad := by
  obtain ⟨-, -, -, -, hds, hpsh, hpn, hkeys, hget, hnbl, hplan, hmax, -⟩ := emit_eq_ok hne he
  have hN : ∀ h, (takeCandidate s.nodes src x t).get h =
      if h = src then (s.nodes.get src).take x t else s.nodes.get h := fun h =>
    NodeMap.modify_get _ _ _ _
  have hkey : ((takeCandidate s.nodes src x t).get src).shards.getD x default =
      ((s.nodes.get src).take x t).shards.getD x default := by rw [hN, if_pos rfl]
  have hcount : ((takeCandidate s.nodes src x t).get src).tabletCount =
      (s.nodes.get src).tabletCount := by rw [hN, if_pos rfl]; rfl
  refine ⟨?_, fun h => ?_, ?_, by simp [hplan], by simp [hmax]⟩
  · rw [Deferred.finish_nodes]; split_ifs <;> simp [hkeys, takeCandidate]
  · rw [Deferred.finish_nodes, hds, hpsh, hkey]
    have hk : (((s.nodes.get src).take x t).shards.getD x default).tabletCount =
        shardKey (s.nodes.get src) x := congrFun (shardKey_take _ x t) x
    rw [hk]
    have hT : (takeCandidate s.nodes src x t).get env.target = s.nodes.get env.target := by
      rw [hN, if_neg (Ne.symm hne)]
    by_cases e : h = src
    · subst e
      by_cases hz : shardKey (s.nodes.get h) x - 1 ≠ 0
      · rw [if_pos (decide_eq_true hz), NodeMap.modify_get, if_pos rfl, if_pos rfl, if_pos hz,
          hget, if_pos rfl, hN, if_pos rfl]
      · rw [if_neg (by simpa using hz), hget, if_pos rfl, if_pos rfl, if_neg hz, hN, if_pos rfl]
    · have hd : d.state.nodes.get h = if h = env.target then (s.nodes.get env.target).receive
          else s.nodes.get h := by
        rw [hget, if_neg e, hT, hN, if_neg e]
      rw [if_neg e, ← hd]
      split_ifs
      · rw [NodeMap.modify_get, if_neg e]
      · rfl
  · rw [Deferred.finish_nodesByLoad, hpn, hnbl, hcount]
    by_cases hz : (s.nodes.get src).tabletCount - 1 ≠ 0 <;> simp [hz]

/-- Lines 387-405: emitting the migration of a candidate that passes the constraints keeps the
invariant; every host left in `nodes_by_load` has a key at most the source's load before the
move. -/
theorem LoopInv.emit (inv : LoopInv env s) (hc : s.Continues env) (hp : Popped env s src)
    {srcShard : ShardId} {sh : ShardLoad} {t : GlobalTabletId} {d : Deferred}
    (hsp : ShardPopped s src srcShard sh) (ht : t ∈ sh.candidates)
    (hacc : passesConstraints env t src = .ok true)
    (he : emit env s (takeCandidate s.nodes src srcShard t)
      (popHeap (nodesCmp s.nodes) s.nodesByLoad) src srcShard t = .ok d) :
    StepOk env s src d.finish := by
  obtain ⟨-, hmem, hne, hkey, hnd, hrest, hle⟩ := inv.popped hc hp
  have hsrc := inv.nbl_keys src hmem
  have o := inv.nodeOk src hsrc
  have oT := inv.nodeOk env.target inv.target_mem
  rw [← hsp.candidatesOf] at ht
  have hx := hsp.root
  subst hx
  obtain ⟨hkeys, hget, hnbl, hplan, hmax⟩ := emit_finish hne he
  have hlt := (o.popped hsp.nonempty).1
  have hok := o.emit hsp.nonempty ht
  generalize (s.nodes.get src).shardsByLoad.getD 0 default = x at hget hplan ht hlt hok
  -- the entries of the three hosts the emission touches
  have hgs : d.finish.nodes.get src =
      if shardKey (s.nodes.get src) x - 1 ≠ 0 then (((s.nodes.get src).take x t).give x).pushShard
      else ((s.nodes.get src).take x t).give x := by rw [hget, if_pos rfl]
  have hgT : d.finish.nodes.get env.target = (s.nodes.get env.target).receive := by
    rw [hget, if_neg (Ne.symm hne), if_pos rfl]
  have hgo : ∀ h, h ≠ src → h ≠ env.target → d.finish.nodes.get h = s.nodes.get h :=
    fun h h1 h2 => by rw [hget, if_neg h1, if_neg h2]
  have hcs : (d.finish.nodes.get src).candidatesOf = ((s.nodes.get src).take x t).candidatesOf := by
    rw [hgs]; split_ifs <;> exact funext (candidatesOf_give t hlt)
  -- the loads: the target's rises, to at most the source's new load, which fell
  have hvs : (d.finish.nodes.get src).avgLoad =
      mkRat ((s.nodes.get src).tabletCount - 1 : Nat) (s.nodes.get src).shardCount := by
    rw [hgs]; split_ifs <;> rfl
  have hvT : (d.finish.nodes.get env.target).avgLoad =
      mkRat ((s.nodes.get env.target).tabletCount + 1 : Nat) (s.nodes.get env.target).shardCount := by
    rw [hgT]; rfl
  have le1 : (s.nodes.get env.target).avgLoad ≤ (d.finish.nodes.get env.target).avgLoad := by
    rw [oT.avg, hvT]; exact mkRat_le_mkRat_of_le (Nat.le_succ _)
  have le2 : (d.finish.nodes.get env.target).avgLoad ≤ (d.finish.nodes.get src).avgLoad := by
    rw [hvT, hvs, Nat.cast_succ]; exact not_lt.mp hp.checks.no_inversion
  have le3 : (d.finish.nodes.get src).avgLoad ≤ (s.nodes.get src).avgLoad := by
    rw [hvs, o.avg]; exact mkRat_le_mkRat_of_le (Nat.sub_le _ _)
  have hfix : ∀ y ∈ (popHeap (nodesCmp s.nodes) s.nodesByLoad).dropLast, y = env.target ∨
      (d.finish.nodes.get y).avgLoad = (s.nodes.get y).avgLoad := fun y hy => by
    by_cases hyT : y = env.target
    · exact .inl hyT
    · exact .inr (by rw [hgo y ((hrest y).mp hy).2 hyT])
  have hcmp : ∀ y ∈ (popHeap (nodesCmp s.nodes) s.nodesByLoad).dropLast,
      ∀ z ∈ (popHeap (nodesCmp s.nodes) s.nodesByLoad).dropLast,
      loadKey env s y ≤ loadKey env s z → loadKey env d.finish y ≤ loadKey env d.finish z :=
    fun y hy z hz hyz => @clip_le_clip (fun h => (s.nodes.get h).avgLoad)
      (fun h => (d.finish.nodes.get h).avgLoad) env.target y z le1 (hfix y hy) (hfix z hz) hyz
  -- `nodes_by_load` after the guards: the source is pushed back unless it is empty
  have hmembers : ∀ h, h ∈ d.finish.nodesByLoad ↔
      h ∈ s.nodesByLoad ∧ (h = src → (s.nodes.get src).tabletCount - 1 ≠ 0) := fun h => by
    rw [hnbl]; split_ifs with hz
    · rw [((pushHeap_perm _ _).trans (popHeap_perm _ _)).mem_iff]
      exact ⟨fun hh => ⟨hh, fun _ => hz⟩, fun hh => hh.1⟩
    · rw [hrest]
      exact ⟨fun hh => ⟨hh.1, fun e => absurd e hh.2⟩, fun hh => ⟨hh.1, fun e => hz (hh.2 e)⟩⟩
  have hnodup : d.finish.nodesByLoad.Nodup := by
    rw [hnbl]; split_ifs
    · exact ((pushHeap_perm _ _).trans (popHeap_perm _ _)).nodup_iff.mpr inv.nbl_nodup
    · exact hnd
  have hheap : HeapBelow (loadKey env d.finish) d.finish.nodesByLoad
      d.finish.nodesByLoad.length 0 := by
    rw [hnbl]; split_ifs
    · have := pushHeap_popHeap_order (nodesCmp_consistent env s)
        (nodesCmp_consistent env d.finish) (List.length_pos.mpr hc.2) inv.heap hcmp
      simpa using this
    · exact popHeap_dropLast_order (nodesCmp_consistent env s) inv.heap hcmp
  have hbound : ∀ h ∈ d.finish.nodesByLoad, loadKey env d.finish h ≤ (s.nodes.get src).avgLoad := by
    intro h hh
    refine max_le ?_ (le2.trans le3)
    by_cases e : h = src
    · exact e ▸ le3
    by_cases eT : h = env.target
    · exact eT ▸ le2.trans le3
    rw [hgo h e eT]
    exact (le_max_left _ _).trans (hle h ((hmembers h).mp hh).1)
  have hs : SameHosts s.nodes d.finish.nodes := ⟨hkeys, fun h => by
    by_cases e : h = src
    · rw [e, hgs]; split_ifs <;> rfl
    by_cases eT : h = env.target
    · rw [eT, hgT]; rfl
    · rw [hgo h e eT]⟩
  have hcand : ∀ h sh', (d.finish.nodes.get h).candidatesOf sh' = if h = src ∧ x = sh' then
      ((s.nodes.get h).candidatesOf sh').erase t else (s.nodes.get h).candidatesOf sh' := by
    intro h sh'
    by_cases e : h = src
    · subst e; rw [hcs, candidatesOf_take t hlt]; simp
    by_cases eT : h = env.target
    · rw [eT, hgT, if_neg fun hh => hne (hh.1.symm)]; rfl
    · rw [hgo h e eT, if_neg fun hh => e hh.1]
  have hsub : ∀ h sh', (d.finish.nodes.get h).candidatesOf sh' ⊆
      (s.nodes.get h).candidatesOf sh' := fun h sh' => by
    rw [hcand]; split_ifs
    exacts [List.erase_subset _ _, List.Subset.refl _]
  have hcounts : ∀ h ∈ s.nodes.keys, (d.finish.nodes.get h).tabletCount =
      moveCount (runningCounts (replicaCount env.tm.tablets) s.plan)
        ⟨t, ⟨src, x⟩, ⟨env.target, s.targetLoad.nextShard.1⟩⟩ h := by
    intro h hk
    simp only [moveCount]
    rw [← inv.counts h hk]
    by_cases e : h = src
    · subst e; rw [if_pos rfl, hgs]; split_ifs <;> rfl
    by_cases eT : h = env.target
    · subst eT; rw [if_neg e, if_pos rfl, hgT]; rfl
    · rw [if_neg e, if_neg eT, hgo h e eT]
  have hsc : (fun h => (d.finish.nodes.get h).shardCount) = fun h => (s.nodes.get h).shardCount :=
    funext hs.shardCount
  refine ⟨⟨inv.node_of_sameHosts hs, hkeys ▸ inv.target_mem, fun h hk => ?_,
    fun h hh => hkeys ▸ inv.nbl_keys h ((hmembers h).mp hh).1, hnodup,
    (hmembers _).mpr ⟨inv.target_nbl, fun e => absurd e.symm hne⟩, hheap, fun h0 h hh => ?_,
    fun h hk hh => ?_, fun m hm => ?_, ?_, ?_, fun h hk t' sh' hr => ?_, fun h hk => ?_, ?_⟩, hbound⟩
  · rw [hkeys] at hk
    by_cases e : h = src
    · subst e; rw [hgs]; exact hok
    by_cases eT : h = env.target
    · subst eT; rw [hgT]; exact oT.receive
    · rw [hgo h e eT]; exact inv.nodeOk h hk
  · rw [hmax] at h0 ⊢
    exact (hbound h hh).trans (hkey ▸ inv.maxOff h0 src hmem)
  · rw [hkeys] at hk
    by_cases e : h = src
    · subst e
      have hz : (s.nodes.get h).tabletCount - 1 = 0 := by
        by_contra hz; exact hh ((hmembers h).mpr ⟨hmem, fun _ => hz⟩)
      right; rw [hgs]; split_ifs <;> exact hz
    · have hnot : h ∉ s.nodesByLoad := fun hn => hh ((hmembers h).mpr ⟨hn, fun e' => absurd e' e⟩)
      have eT : h ≠ env.target := fun eT => hnot (eT ▸ inv.target_nbl)
      rw [hgo h e eT]; exact inv.off h hk hnot
  · rw [hplan] at hm
    rcases List.mem_append.mp hm with hm | hm
    · exact MigrationOk.mono (inv.plan m hm) hs hsub
    · rw [List.mem_singleton] at hm; subst hm
      refine ⟨hkeys ▸ hsrc, hne, rfl, o.replica x t ht, hacc, ?_⟩
      show t ∉ (d.finish.nodes.get src).candidatesOf x
      rw [hcand, if_pos ⟨rfl, rfl⟩]; exact (o.nodup x).not_mem_erase
  · rw [hplan, List.map_append, List.map_singleton]
    refine List.nodup_append.mpr ⟨inv.plan_nodup, List.nodup_singleton _, ?_⟩
    rw [List.disjoint_singleton]
    intro hin
    obtain ⟨m, hm, hmeq⟩ := List.mem_map.mp hin
    simp only [Prod.mk.injEq] at hmeq
    obtain ⟨hmt, hms⟩ := hmeq
    exact (inv.plan m hm).taken (by rw [hms, hmt]; exact ht)
  · rw [hplan, List.length_append, List.length_singleton]; exact hc.1
  · rw [hkeys] at hk
    rw [hplan, List.map_append, List.mem_append]
    rcases inv.accounted h hk t' sh' hr with hin | hrej | hold
    · by_cases hnew : h = src ∧ x = sh' ∧ t' = t
      · obtain ⟨rfl, rfl, rfl⟩ := hnew; exact .inr (.inr (.inr (by simp)))
      · left; rw [hcand]; split_ifs with hh
        · exact (List.mem_erase_of_ne fun e => hnew ⟨hh.1, hh.2, e⟩).mpr hin
        · exact hin
    · exact .inr (.inl hrej)
    · exact .inr (.inr (.inl hold))
  · rw [hkeys] at hk; rw [hplan, runningCounts_append_singleton]; exact hcounts h hk
  · rw [hplan, hsc, guarded_append_singleton]
    refine ⟨inv.guarded, ?_, ?_⟩
    · rw [← inv.counts src hsrc]; exact Nat.pos_of_ne_zero hp.count_pos
    · rw [← inv.counts src hsrc, ← inv.counts env.target inv.target_mem]
      exact not_lt.mp hp.checks.no_inversion

/-- Every iteration that passes the checks keeps the invariant, whichever path it takes. -/
theorem LoopInv.step {s' : LoopState} (inv : LoopInv env s) (hc : s.Continues env)
    (hp : Popped env s src) (hs : LoopStep env s src s') : StepOk env s src s' := by
  cases hs with
  | dropNode hsh => exact inv.dropNode hc hp hsh
  | dropShard hsp hcand => exact inv.dropShard hc hp hsp hcand
  | skip hsp _ hrej => exact inv.skip hc hp hsp hrej
  | emit hsp ht hacc he => exact inv.emit hc hp hsp ht hacc he

/-- The invariant holds in every state the loop reaches from a state where it holds. -/
theorem Reachable.loopInv {s0 : LoopState} (h0 : LoopInv env s0) {s : LoopState}
    (hr : Reachable env s0 s) : LoopInv env s := by
  induction hr with
  | init => exact h0
  | step _ hc hp hs ih => exact (ih.step hc hp hs).1

end TabletLoadBalancer
