import TabletLoadBalancer.Analysis.Safety

/-!
# The selection loop terminates, and how a run of `make_plan` ends

`loopMeasure` counts what the loop still has to consume: the candidates left on every shard of
every balanced host, the shards in every host's heap vector, and the hosts in `nodes_by_load`.
Every iteration that passes the three checks lowers it (`LoopStep.measure_lt`): dropping a host
shortens `nodes_by_load`, dropping a shard shortens its host's heap vector, and a skip or an
emission erases a candidate, while the deferred pushes put back only the host and the shard that
were popped. The measure starts below `loopBound`, the fuel `make_plan(dc)` gives the loop, so
the loop never runs out of it.

With the error lemmas of the phases, this says exactly how a run ends: with a plan, or with one
of the exceptions the code throws itself (`makePlan_eq_error`); never with an undefined
operation, and never at the loop's bound.
-/

set_option autoImplicit false

namespace TabletLoadBalancer

/-! ## The measure -/

/-- What a balanced host leaves the loop to consume: its candidates and its heap vector. -/
def NodeLoad.weight (n : NodeLoad) : Nat := n.candidateCount + n.shardsByLoad.length

/-- The weights of all balanced hosts. -/
def NodeMap.weight (m : NodeMap) : Nat := (m.keys.map fun h => (m.get h).weight).sum

/-- The measure of the selection loop. -/
def loopMeasure (s : LoopState) : Nat := s.nodes.weight + s.nodesByLoad.length

theorem map_modify_eq_self {α β : Type} {f : α → α} {g : α → β} (hg : ∀ a, g (f a) = g a) :
    ∀ (l : List α) (i : Nat), (l.modify f i).map g = l.map g
  | [], _ => by simp
  | a :: l, 0 => by simp [hg]
  | a :: l, i + 1 => by simp [map_modify_eq_self hg l i]

@[simp] theorem NodeLoad.candidateCount_pushShard (n : NodeLoad) :
    n.pushShard.candidateCount = n.candidateCount := rfl

@[simp] theorem NodeLoad.weight_pushShard (n : NodeLoad) : n.pushShard.weight = n.weight := by
  unfold NodeLoad.weight
  rw [NodeLoad.candidateCount_pushShard]
  simp [NodeLoad.pushShard]

@[simp] theorem NodeLoad.weight_receive (n : NodeLoad) : n.receive.weight = n.weight := rfl

/-- Taking candidate `t` off shard `x`, where it is, leaves one candidate less. -/
theorem NodeLoad.candidateCount_take {n : NodeLoad} {x : ShardId} {t : GlobalTabletId}
    (hx : x < n.shards.length) (ht : t ∈ n.candidatesOf x) :
    (n.take x t).candidateCount + 1 = n.candidateCount := by
  have hset := sum_map_set (fun sh : ShardLoad => sh.candidates.length) default n.shards x
    { n.shards[x]?.getD default with
      candidates := (n.shards[x]?.getD default).candidates.erase t } hx
  rw [List.getD_eq_getElem?_getD] at hset
  have hpos := List.length_pos_of_mem ht
  rw [NodeLoad.candidatesOf, List.getD_eq_getElem?_getD] at ht hpos
  simp only [List.length_erase_of_mem ht] at hset
  simp only [NodeLoad.candidateCount, NodeLoad.take, List.modify_eq_set]
  omega

theorem NodeLoad.candidateCount_give (n : NodeLoad) (x : ShardId) :
    (n.give x).candidateCount = n.candidateCount := by
  exact congrArg List.sum (map_modify_eq_self (by intro; rfl) _ _)

/-- Skipping candidate `t` of the popped shard `x` lowers the source's weight. -/
theorem NodeLoad.weight_skip_lt {n : NodeLoad} {x : ShardId} {t : GlobalTabletId}
    (hx : x < n.shards.length) (ht : t ∈ n.candidatesOf x) :
    (n.take x t).pushShard.weight < n.weight := by
  have := NodeLoad.candidateCount_take hx ht
  have hl : (n.take x t).shardsByLoad.length = n.shardsByLoad.length := by simp [NodeLoad.take]
  rw [NodeLoad.weight_pushShard, NodeLoad.weight, NodeLoad.weight, hl]
  omega

/-- Emitting candidate `t` of the popped shard `x` lowers the source's weight, whether the shard
stays in the heap vector or leaves it. -/
theorem NodeLoad.weight_give_lt {n : NodeLoad} {x : ShardId} {t : GlobalTabletId}
    (hx : x < n.shards.length) (ht : t ∈ n.candidatesOf x) :
    ((n.take x t).give x).weight < n.weight := by
  have := NodeLoad.candidateCount_take hx ht
  have hsbl : ((n.take x t).give x).shardsByLoad.length ≤ n.shardsByLoad.length := by
    rw [shardsByLoad_give]
    split_ifs <;> simp
  simp only [NodeLoad.weight, NodeLoad.candidateCount_give]
  omega

/-- Lowering the weight of one balanced host, and of no other, lowers the sum. -/
theorem NodeMap.weight_lt {N N' : NodeMap} {src : HostId} (hk : N'.keys = N.keys)
    (hle : ∀ h, (N'.get h).weight ≤ (N.get h).weight) (hsrc : src ∈ N.keys)
    (hlt : (N'.get src).weight < (N.get src).weight) : N'.weight < N.weight := by
  unfold NodeMap.weight
  rw [hk]
  exact List.sum_lt_sum _ _ (fun h _ => hle h) ⟨src, hsrc, hlt⟩

theorem NodeMap.weight_modify_lt {N : NodeMap} {src : HostId} {f : NodeLoad → NodeLoad}
    (hsrc : src ∈ N.keys) (hlt : (f (N.get src)).weight < (N.get src).weight) :
    (N.modify src f).weight < N.weight := by
  refine NodeMap.weight_lt rfl (fun h => ?_) hsrc (by simpa using hlt)
  rw [NodeMap.modify_get]
  split_ifs with e
  · exact e ▸ hlt.le
  · exact le_rfl

@[simp] theorem loopMeasure_pushNode (s : LoopState) : loopMeasure s.pushNode = loopMeasure s := by
  simp [loopMeasure, LoopState.pushNode]

/-- **Every iteration that passes the checks lowers the measure**, on each of its four paths. -/
theorem LoopStep.measure_lt {env : LoopEnv} {s s' : LoopState} {src : HostId}
    (hp : Popped env s src) (hsrc : src ∈ s.nodes.keys) (hs : LoopStep env s src s') :
    loopMeasure s' < loopMeasure s := by
  have hnbl : 0 < s.nodesByLoad.length := by
    simpa using List.length_pos_of_mem (List.mem_of_getLast?_eq_some hp.pop)
  cases hs with
  | dropNode hsh =>
    simp only [loopMeasure, List.length_dropLast, popHeap_length]
    omega
  | dropShard hsp hc =>
    have hlt : (s.nodes.modify src fun n => { n with
        shardsByLoad := (popHeap n.shardsByLoadCmp n.shardsByLoad).dropLast }).weight <
        s.nodes.weight := NodeMap.weight_modify_lt hsrc (by
      have := List.length_pos.mpr hsp.nonempty
      simp only [NodeLoad.weight, List.length_dropLast, popHeap_length]
      show (s.nodes.get src).candidateCount + _ < _
      omega)
    rw [loopMeasure_pushNode]
    simp only [loopMeasure, popHeap_length]
    omega
  | skip hsp ht hrej =>
    rename_i srcShard sh t
    have hx := (List.getElem?_eq_some_iff.mp hsp.get).1
    have hlt : (s.nodes.modify src fun n => (n.take srcShard t).pushShard).weight <
        s.nodes.weight := NodeMap.weight_modify_lt hsrc
      (NodeLoad.weight_skip_lt hx (hsp.candidatesOf ▸ ht))
    rw [loopMeasure_pushNode]
    simp only [loopMeasure, LoopState.pushShardOf_eq, takeCandidate, NodeMap.modify_modify,
      popHeap_length]
    omega
  | emit hsp ht hacc he =>
    rename_i srcShard sh t d
    have hne : src ≠ env.target := fun e => lt_irrefl _ (e ▸ hp.checks.above)
    obtain ⟨hkeys, hget, hnbl', -, -⟩ := emit_finish hne he
    have hx := (List.getElem?_eq_some_iff.mp hsp.get).1
    have hlt : (d.finish.nodes.get src).weight < (s.nodes.get src).weight := by
      rw [hget, if_pos rfl]
      split_ifs
      · rw [NodeLoad.weight_pushShard]; exact NodeLoad.weight_give_lt hx (hsp.candidatesOf ▸ ht)
      · exact NodeLoad.weight_give_lt hx (hsp.candidatesOf ▸ ht)
    have hW := NodeMap.weight_lt hkeys (fun h => by
      by_cases e : h = src
      · exact e ▸ hlt.le
      · rw [hget, if_neg e]
        split_ifs with e'
        · rw [e', NodeLoad.weight_receive]
        · exact le_rfl) hsrc hlt
    have hL : d.finish.nodesByLoad.length ≤ s.nodesByLoad.length := by
      rw [hnbl']; split_ifs <;> simp
    unfold loopMeasure
    omega

/-! ## Enough fuel -/

/-- A host's heap vector holds distinct shards of the host: no more than it has. -/
theorem NodeOk.shardsByLoad_length_le {tm : TabletMetadata} {h : HostId} {n : NodeLoad}
    (o : NodeOk tm h n) : n.shardsByLoad.length ≤ n.shardCount := by
  simpa using (List.subperm_of_subset o.sbl_nodup fun s hs => List.mem_range.mpr (o.lt s hs)).length_le

section Initial

variable {tm : TokenMetadata} {dc : DcName} {env : LoopEnv} {s0 : LoopState}

/-- The loop starts with a measure below its fuel: a host has no more candidates than tablets,
no more shards in its heap vector than it has, and `nodes_by_load` holds distinct hosts. -/
theorem Initial.measure_lt (init : Initial tm dc env s0) : loopMeasure s0 < loopBound s0 := by
  have hw : s0.nodes.weight ≤ (s0.nodes.keys.map fun h =>
      (s0.nodes.get h).tabletCount + (s0.nodes.get h).shardCount).sum :=
    List.sum_le_sum fun h hh => Nat.add_le_add (init.candidateCount h hh)
      (NodeOk.shardsByLoad_length_le (init.inv.nodeOk h hh))
  have hn : s0.nodesByLoad.length ≤ s0.nodes.keys.length :=
    (List.subperm_of_subset init.inv.nbl_nodup init.inv.nbl_keys).length_le
  unfold loopMeasure loopBound
  omega

/-- The fuel `make_plan(dc)` gives the loop: the replicas on the datacenter's normal nodes, their
shards, the nodes, and one more. -/
theorem Initial.loopBound_eq (init : Initial tm dc env s0) :
    loopBound s0 = ((dcNodes tm.topology dc).map fun n =>
      replicaCount tm.tablets n.hostId + n.shardCount).sum + (dcNodes tm.topology dc).length + 1 := by
  have hentry : ∀ n ∈ dcNodes tm.topology dc,
      (s0.nodes.get n.hostId).tabletCount + (s0.nodes.get n.hostId).shardCount =
        replicaCount tm.tablets n.hostId + n.shardCount := fun n hn => by
    rw [(init.entry hn).2.1, (init.entry hn).2.2.1]
  unfold loopBound
  rw [init.keys, List.map_map, List.length_map]
  exact congrArg (· + _ + 1) (congrArg List.sum (List.map_congr_left hentry))

end Initial

/-- **The loop runs out of fuel only with no more fuel than its measure.** From a reachable
state, the selection loop fails only to look up an unknown host, or at its bound. -/
theorem balanceLoop_eq_error {env : LoopEnv} {s0 : LoopState} (h0 : LoopInv env s0)
    (choose : Nat → Nat) {e : PlanError} :
    ∀ (fuel : Nat) (s : LoopState), Reachable env s0 s → balanceLoop env choose fuel s = .error e →
      (e = .outOfFuel ∧ fuel ≤ loopMeasure s) ∨ e.UnknownHost env.tm
  | 0, s, _, h => by
    unfold balanceLoop at h
    split at h
    · cases h; exact .inl ⟨rfl, Nat.zero_le _⟩
    · cases h
  | fuel + 1, s, hr, h => by
    unfold balanceLoop at h
    split at h
    · next hc =>
      rw [except_bind_eq_error] at h
      rcases h with h | ⟨r, hs, h⟩
      · exact .inr (step_eq_error (hr.loopInv h0) hc h)
      cases r with
      | none => cases h
      | some s' =>
        obtain ⟨src, hp, hstep⟩ := step_eq_some hs
        have inv := hr.loopInv h0
        have hlt := hstep.measure_lt hp (inv.nbl_keys src (inv.popped hc hp).2.1)
        rcases balanceLoop_eq_error h0 choose fuel s' (hr.of_step hc hs) h with ⟨rfl, hle⟩ | hn
        · exact .inl ⟨rfl, by omega⟩
        · exact .inr hn
    · cases h

/-! ## How a run ends -/

/-- `make_plan(dc)` fails only with an exception the code throws: a balanced node without shards,
a replica naming a shard its host lacks, or a replica on a host the topology does not know. -/
theorem makePlanDc_eq_error {tm : TokenMetadata} {choose : Nat → Nat} {dc : DcName} {e : PlanError}
    (h : makePlanDc tm choose dc = .error e) : e.Reported tm dc := by
  unfold makePlanDc at h
  rw [except_bind_eq_error] at h
  rcases h with h | ⟨p, hp, h⟩
  · exact prepare_eq_error h
  rcases p with plan | ⟨env, s0⟩
  · cases h
  rw [except_bind_eq_error] at h
  rcases h with h | ⟨sf, -, h⟩
  · have init := prepare_initial hp
    rcases balanceLoop_eq_error init.inv choose _ s0 .init h with ⟨-, hle⟩ | hunk
    · exact absurd init.measure_lt (not_lt.mpr hle)
    · rw [← init.tm_eq]; exact hunk.reported dc
  · cases h

/-- `make_plan()` fails only where one of the `make_plan(dc)` it calls fails. -/
theorem makePlan_eq_error_dc {tm : TokenMetadata} {choose : DcName → Nat → Nat} {e : PlanError}
    (h : makePlan tm choose = .error e) :
    ∃ dc ∈ tm.topology.getDatacenters, makePlanDc tm (choose dc) dc = .error e := by
  refine foldlM_eq_error (fun _ => True)
    (fun e => ∃ dc ∈ tm.topology.getDatacenters, makePlanDc tm (choose dc) dc = .error e)
    tm.topology.getDatacenters
    (fun _ dc hdc _ => ⟨fun e he => ?_, fun _ _ => trivial⟩) _ (List.Subset.refl _) [] trivial e h
  rw [except_bind_eq_error] at he
  rcases he with he | ⟨p, -, he⟩
  · exact ⟨dc, hdc, he⟩
  · cases he

/-- `make_plan()` fails only as the `make_plan(dc)` it calls do. -/
theorem makePlan_eq_error {tm : TokenMetadata} {choose : DcName → Nat → Nat} {e : PlanError}
    (h : makePlan tm choose = .error e) : e.Thrown :=
  let ⟨_, _, hdc⟩ := makePlan_eq_error_dc h
  PlanError.Reported.thrown (makePlanDc_eq_error hdc)

/-- `make_plan(dc)` and `make_plan()` perform no operation that C++ leaves undefined or that would
wrap an unsigned count, on any input and for any choice of candidates: no decrement of a zero
`tablet_count` (lines 317, 394, 400), no `std::max_element` of an empty `rack_load`, no index
past `shard_count` (lines 245, 338), no division by a zero `shard_count`, no dereference of the
empty `min_load_node` or of a missing target node, no `back()` of an empty heap vector. -/
theorem makePlan_no_undefined (tm : TokenMetadata) (choose : DcName → Nat → Nat)
    (u : UndefinedBehaviour) :
    makePlan tm choose ≠ .error (.undefined u) ∧
      ∀ dc, makePlanDc tm (choose dc) dc ≠ .error (.undefined u) :=
  ⟨fun h => makePlan_eq_error h, fun _ h => makePlanDc_eq_error h⟩

/-- **The selection loop of `make_plan(dc)` terminates**, on every input and for every choice of
candidates. Every iteration that passes the checks lowers `loopMeasure`, which starts below
`loopBound`: the replicas on the datacenter's normal nodes, plus their shards, plus the number of
those nodes, plus one. So the loop ends within `loopBound` iterations, the fuel `make_plan` gives
it, and neither `make_plan(dc)` nor `make_plan()` ever stops at that bound. -/
theorem makePlanDc_terminates (tm : TokenMetadata) (choose : Nat → Nat) (dc : DcName) :
    makePlanDc tm choose dc ≠ .error .outOfFuel ∧
    makePlan tm (fun _ => choose) ≠ .error .outOfFuel ∧
    ∀ env s0, prepare tm dc = .ok (.run env s0) →
      loopBound s0 = ((dcNodes tm.topology dc).map fun n =>
          replicaCount tm.tablets n.hostId + n.shardCount).sum + (dcNodes tm.topology dc).length + 1 ∧
      loopMeasure s0 < loopBound s0 ∧
      ∀ s src s', Reachable env s0 s → s.Continues env → Popped env s src →
        LoopStep env s src s' → loopMeasure s' < loopMeasure s := by
  refine ⟨fun h => makePlanDc_eq_error h, fun h => makePlan_eq_error h, fun env s0 hp => ?_⟩
  have init := prepare_initial hp
  refine ⟨init.loopBound_eq, init.measure_lt, fun s src s' hr hc hpop hs => ?_⟩
  have inv := hr.loopInv init.inv
  exact hs.measure_lt hpop (inv.nbl_keys src (inv.popped hc hpop).2.1)

end TabletLoadBalancer
