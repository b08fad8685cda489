import TabletLoadBalancer.Analysis.Order
import TabletLoadBalancer.Analysis.Termination

/-!
# The bookkeeping of the selection loop

`Bookkeeping tm env s` collects what the node map and `nodes_by_load` satisfy at the head of
every iteration of `make_plan(dc)`. `LoopInv.bookkeeping` derives it from the loop invariant and
`CountsAgree`; `makePlanDc_bookkeeping` reads it at every reachable state, and
`makePlanDc_visit_bookkeeping` at every state the code's own loop passes through:

* **loads and counts**: a host's load is its count over its shards (`NodeOk.avg`); a host's count
  is the sum of its shards' counts, except the target's, which exceeds it by the plan's length.
  Phase D counts every replica on its shard as well as on its host (lines 244-249), and an
  emission (lines 391-401) takes the tablet off both counts of the source but adds it only to the
  target's host count: the destination shard comes from the load sketch, not from `shards`
  (`CountsAgree`, kept by each of the four paths, `LoopStep.countsAgree`);
* **candidates**: every candidate of a shard has a replica there, and a shard has no more
  candidates than tablets (`NodeOk.replica`, `NodeOk.cand_le`);
* **shard heaps**: they hold distinct shards of the host, each with tablets, and every shard with
  candidates (`NodeOk`);
* **`nodes_by_load`**: it holds distinct balanced hosts, and every host with a candidate left
  (`LoopInv.mem_nodesByLoad`): a host leaves it only once its shard heap or its count is empty,
  and an empty count leaves no tablet, hence no candidate, on any of its shards.
-/

set_option autoImplicit false

namespace TabletLoadBalancer

/-- The tablets on the shards of an entry. -/
def NodeLoad.shardTotal (n : NodeLoad) : Nat := (n.shards.map fun sh => sh.tabletCount).sum

theorem shardKey_le_shardTotal (n : NodeLoad) (s : ShardId) : shardKey n s ≤ n.shardTotal := by
  unfold shardKey NodeLoad.shardTotal
  rw [List.getD_eq_getElem?_getD]
  cases hs : n.shards[s]? with
  | none => exact Nat.zero_le _
  | some sh => exact List.le_sum_of_mem (List.mem_map_of_mem _ (List.getElem?_mem hs))

@[simp] theorem NodeLoad.shardTotal_take (n : NodeLoad) (x : ShardId) (t : GlobalTabletId) :
    (n.take x t).shardTotal = n.shardTotal := by
  unfold NodeLoad.shardTotal NodeLoad.take
  exact congrArg List.sum (map_modify_eq_self (by intro; rfl) _ _)

/-- Giving a tablet away from a shard that has one lowers the shard sum by one. -/
theorem NodeLoad.shardTotal_give {n : NodeLoad} {x : ShardId} (hx : x < n.shards.length)
    (hk : 0 < shardKey n x) : (n.give x).shardTotal + 1 = n.shardTotal := by
  have hset := sum_map_set (fun sh : ShardLoad => sh.tabletCount) default n.shards x
    { n.shards[x]?.getD default with tabletCount := shardKey n x - 1 } hx
  unfold shardKey at hk hset
  rw [List.getD_eq_getElem?_getD] at hk hset
  simp only [NodeLoad.shardTotal, NodeLoad.give, List.modify_eq_set, List.getD_eq_getElem?_getD]
  dsimp only at hset ⊢
  omega

@[simp] theorem NodeLoad.shardTotal_receive (n : NodeLoad) :
    n.receive.shardTotal = n.shardTotal := rfl

@[simp] theorem NodeLoad.tabletCount_receive (n : NodeLoad) :
    n.receive.tabletCount = n.tabletCount + 1 := rfl

/-- The source of an emission, whose count was its shard sum, takes the tablet off both. -/
theorem NodeLoad.tabletCount_give {n : NodeLoad} {x : ShardId} (t : GlobalTabletId)
    (hx : x < n.shards.length) (hk : 0 < shardKey n x) (h : n.tabletCount = n.shardTotal) :
    ((n.take x t).give x).tabletCount = ((n.take x t).give x).shardTotal := by
  have := NodeLoad.shardTotal_give (n := n.take x t) (by simpa [NodeLoad.take] using hx)
    (by simpa using hk)
  rw [NodeLoad.shardTotal_take] at this
  show n.tabletCount - 1 = _
  omega

/-! ## Counts against shard sums -/

/-- Every balanced host's count is the sum of its shards' counts, plus the plan's length on the
target. -/
def CountsAgree (env : LoopEnv) (s : LoopState) : Prop :=
  ∀ h ∈ s.nodes.keys, (s.nodes.get h).tabletCount =
    (s.nodes.get h).shardTotal + if h = env.target then s.plan.length else 0

/-- Changing only the entry of `src`, keeping its count and its shard sum, and not the plan,
keeps the agreement. -/
theorem CountsAgree.modify {env : LoopEnv} {s s' : LoopState} (hca : CountsAgree env s)
    (src : HostId) (f : NodeLoad → NodeLoad)
    (hN : s'.nodes = s.nodes.modify src f) (hplan : s'.plan = s.plan)
    (htc : (f (s.nodes.get src)).tabletCount = (s.nodes.get src).tabletCount)
    (hst : (f (s.nodes.get src)).shardTotal = (s.nodes.get src).shardTotal) :
    CountsAgree env s' := by
  intro h hh
  rw [hN, NodeMap.modify_keys] at hh
  rw [hN, hplan, NodeMap.modify_get]
  by_cases e : h = src
  · subst e; rw [if_pos rfl, htc, hst]; exact hca h hh
  · rw [if_neg e]; exact hca h hh

variable {env : LoopEnv} {s s' : LoopState} {src : HostId}

/-- The emission: the source loses a tablet from its count and from the popped shard, the target
gains one on its count alone, and the plan one migration. -/
theorem CountsAgree.emit (inv : LoopInv env s) (hca : CountsAgree env s) (hc : s.Continues env)
    (hp : Popped env s src) {x : ShardId} {sh : ShardLoad} {t : GlobalTabletId} {d : Deferred}
    (hsp : ShardPopped s src x sh) (ht : t ∈ sh.candidates)
    (he : emit env s (takeCandidate s.nodes src x t) (popHeap (nodesCmp s.nodes) s.nodesByLoad)
      src x t = .ok d) : CountsAgree env d.finish := by
  obtain ⟨-, hmem, hne, -⟩ := inv.popped hc hp
  obtain ⟨hkeys, hget, -, hplan, -⟩ := emit_finish hne he
  intro h hh
  rw [hkeys] at hh
  have hh0 := hca h hh
  rw [hget, hplan, List.length_append, List.length_singleton]
  by_cases e : h = src
  · subst e
    have hx := (List.getElem?_eq_some_iff.mp hsp.get).1
    have hk : 0 < shardKey (s.nodes.get h) x := lt_of_lt_of_le
      (List.length_pos_of_mem (hsp.candidatesOf ▸ ht)) ((inv.nodeOk h hh).cand_le x)
    have key := NodeLoad.tabletCount_give t hx hk (by simpa [hne] using hh0)
    rw [if_pos rfl, if_neg hne, Nat.add_zero]
    split_ifs <;> exact key
  · by_cases e' : h = env.target
    · subst e'
      simp only [if_neg e, if_true, NodeLoad.tabletCount_receive,
        NodeLoad.shardTotal_receive] at hh0 ⊢
      omega
    · simpa [e, e'] using hh0

/-- Every iteration that passes the checks keeps the agreement, whichever path it takes. -/
theorem LoopStep.countsAgree (inv : LoopInv env s) (hca : CountsAgree env s) (hc : s.Continues env)
    (hp : Popped env s src) (hs : LoopStep env s src s') : CountsAgree env s' := by
  cases hs with
  | dropNode _ => exact hca
  | dropShard _ _ =>
    exact hca.modify src
      (fun n => { n with shardsByLoad := (popHeap n.shardsByLoadCmp n.shardsByLoad).dropLast })
      rfl rfl rfl rfl
  | @skip x _ t _ _ _ =>
    exact hca.modify src (fun n => (n.take x t).pushShard)
      (by simp [LoopState.pushNode, LoopState.pushShardOf_eq, takeCandidate]) rfl rfl
      (NodeLoad.shardTotal_take _ x t)
  | emit hsp ht _ he => exact hca.emit inv hc hp hsp ht he

section Prepare

variable {tm : TokenMetadata} {dc : DcName} {s0 : LoopState}

/-- Phases A-E leave every balanced host with as many tablets as its shards hold, and the plan
empty. -/
theorem prepare_countsAgree (hp : prepare tm dc = .ok (.run env s0)) : CountsAgree env s0 := by
  have init := prepare_initial hp
  intro h hh
  obtain ⟨n, hn, rfl⟩ := List.mem_map.mp (init.keys ▸ hh)
  obtain ⟨hentry, hrs⟩ := prepare_entry hp hn
  have htotal := (built_entry hrs).total
  have htc := (foldl_addCandidate_fields (tm.tablets.allReplicas.filter fun r => r.2.host = n.hostId)
    (scannedEntry n.shardCount (replicaCount tm.tablets n.hostId))).2.1
  rw [init.plan, hentry, List.length_nil, ite_self, Nat.add_zero]
  exact htc.trans htotal.symm

/-- Every state the selection loop of `make_plan(dc)` reaches has its counts agree with its shard
sums. -/
theorem Reachable.countsAgree (hp : prepare tm dc = .ok (.run env s0)) (hr : Reachable env s0 s) :
    CountsAgree env s := by
  induction hr with
  | init => exact prepare_countsAgree hp
  | step hr hc hpop hs ih => exact hs.countsAgree (hr.loopInv_of_prepare hp) ih hc hpop

end Prepare

/-! ## `nodes_by_load` -/

/-- A balanced host with a candidate left is in `nodes_by_load`: off it, its shard heap is empty,
which leaves it no candidate, or its count is, which leaves no tablet on its shards. -/
theorem LoopInv.mem_nodesByLoad (inv : LoopInv env s) (hca : CountsAgree env s) {h : HostId}
    (hh : h ∈ s.nodes.keys) {sh : ShardId} (hsh : (s.nodes.get h).candidatesOf sh ≠ []) :
    h ∈ s.nodesByLoad := by
  by_contra hn
  have o := inv.nodeOk h hh
  rcases inv.off h hh hn with hsbl | htc
  · exact List.not_mem_nil _ (hsbl ▸ o.mem sh hsh)
  · have hne : h ≠ env.target := fun e => hn (e ▸ inv.target_nbl)
    have h0 := hca h hh
    rw [if_neg hne, htc] at h0
    have := (o.cand_le sh).trans (shardKey_le_shardTotal _ sh)
    exact hsh (List.length_eq_zero.mp (by omega))

/-! ## The bookkeeping at every iteration -/

/-- What the node map and `nodes_by_load` satisfy at the head of every iteration: loads and
counts, candidates, shard heaps and `nodes_by_load` (lines 81-121 and 230-271). -/
structure Bookkeeping (tm : TabletMetadata) (env : LoopEnv) (s : LoopState) : Prop where
  avg : ∀ h ∈ s.nodes.keys,
    (s.nodes.get h).avgLoad = mkRat (s.nodes.get h).tabletCount (s.nodes.get h).shardCount
  count : ∀ h ∈ s.nodes.keys, h ≠ env.target →
    (s.nodes.get h).tabletCount = (s.nodes.get h).shardTotal
  target_count :
    (s.nodes.get env.target).tabletCount = (s.nodes.get env.target).shardTotal + s.plan.length
  replica : ∀ h ∈ s.nodes.keys, ∀ sh, ∀ t ∈ (s.nodes.get h).candidatesOf sh,
    tm.HasReplica t ⟨h, sh⟩
  cand_le : ∀ h ∈ s.nodes.keys, ∀ sh,
    ((s.nodes.get h).candidatesOf sh).length ≤ shardKey (s.nodes.get h) sh
  sbl_nodup : ∀ h ∈ s.nodes.keys, (s.nodes.get h).shardsByLoad.Nodup
  sbl_shard : ∀ h ∈ s.nodes.keys, ∀ sh ∈ (s.nodes.get h).shardsByLoad,
    sh < (s.nodes.get h).shardCount ∧ 0 < shardKey (s.nodes.get h) sh
  sbl_mem : ∀ h ∈ s.nodes.keys, ∀ sh,
    (s.nodes.get h).candidatesOf sh ≠ [] → sh ∈ (s.nodes.get h).shardsByLoad
  nbl_nodup : s.nodesByLoad.Nodup
  nbl_keys : ∀ h ∈ s.nodesByLoad, h ∈ s.nodes.keys
  nbl_mem : ∀ h ∈ s.nodes.keys, ∀ sh, (s.nodes.get h).candidatesOf sh ≠ [] → h ∈ s.nodesByLoad

/-- The loop invariant and the agreement of counts with shard sums give the bookkeeping. -/
theorem LoopInv.bookkeeping {env : LoopEnv} {s : LoopState} (inv : LoopInv env s)
    (hca : CountsAgree env s) : Bookkeeping env.tm.tablets env s := by
  have htarget := hca _ inv.target_mem
  rw [if_pos rfl] at htarget
  exact ⟨fun h hh => (inv.nodeOk h hh).avg, fun h hh hne => by simpa [hne] using hca h hh,
    htarget, fun h hh => (inv.nodeOk h hh).replica, fun h hh => (inv.nodeOk h hh).cand_le,
    fun h hh => (inv.nodeOk h hh).sbl_nodup,
    fun h hh sh hs => ⟨(inv.nodeOk h hh).lt sh hs, (inv.nodeOk h hh).pos sh hs⟩,
    fun h hh => (inv.nodeOk h hh).mem, inv.nbl_nodup, inv.nbl_keys,
    fun h hh _ hsh => inv.mem_nodesByLoad hca hh hsh⟩

/-- At the head of every iteration of the selection loop of `make_plan(dc)`, over every choice of
candidates, the bookkeeping holds. -/
theorem makePlanDc_bookkeeping {tm : TokenMetadata} {dc : DcName} {env : LoopEnv}
    {s0 s : LoopState} (hp : prepare tm dc = .ok (.run env s0)) (hr : Reachable env s0 s) :
    Bookkeeping tm.tablets env s := by
  obtain rfl := (prepare_initial hp).tm_eq
  exact (hr.loopInv_of_prepare hp).bookkeeping (hr.countsAgree hp)

theorem makePlanDc_bookkeeping_skewed :
    ∃ env s0 s, prepare skewedSnapshot 0 = .ok (.run env s0) ∧ step env 0 s0 = .ok (some s) ∧
      Reachable env s0 s ∧ s.plan ≠ [] ∧
      (s0.nodes.get env.target).avgLoad < (s.nodes.get env.target).avgLoad ∧
      Bookkeeping skewedSnapshot.tablets env s := by
  refine ⟨_, _, _, rfl, rfl, ?hr, by decide, by decide,
    makePlanDc_bookkeeping (rfl : prepare skewedSnapshot 0 = _) ?hr⟩
  exact @Reachable.of_step _ _ _ _ 0 .init (by decide) rfl

/-- The bookkeeping holds at every state the loop of `make_plan(dc)` itself passes through. -/
theorem makePlanDc_visit_bookkeeping {tm : TokenMetadata} {dc : DcName} {env : LoopEnv}
    {choose : Nat → Nat} {s0 s : LoopState} {f : Nat} (hp : prepare tm dc = .ok (.run env s0))
    (hv : LoopVisit env choose (loopBound s0) s0 f s) : Bookkeeping tm.tablets env s := by
  obtain rfl := (prepare_initial hp).tm_eq
  exact (hv.reachable.loopInv_of_prepare hp).bookkeeping (hv.reachable.countsAgree hp)

end TabletLoadBalancer
