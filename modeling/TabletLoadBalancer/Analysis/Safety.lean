import TabletLoadBalancer.Analysis.Run

/-!
# What an iteration can fail with

An iteration of the selection loop from a state satisfying the invariant fails only when a
replica of its candidate lies on a host the topology does not know (`step_eq_error`): it
performs none of the operations C++ leaves undefined, or that would wrap an unsigned count. Each
guard comes from the invariant: `nodes_by_load` is non-empty while the loop runs; a source lets
through the checks only above the target, so it has tablets; every balanced host has shards; a
heap vector that is not empty holds shards in range, with tablets; and a candidate has a replica
on its source node, which lies in the datacenter, so that its table and tablet exist and
`rack_load` holds at least the source's rack.
-/

set_option autoImplicit false

namespace TabletLoadBalancer

theorem back_ne_error {line : Nat} {v : List Nat} (hv : v ≠ []) (e : PlanError) :
    back line v ≠ .error e := by
  obtain ⟨a, ha⟩ := Option.ne_none_iff_exists'.mp (by simpa using hv : v.getLast? ≠ none)
  simp [back, ha, pure, Except.pure]

theorem mkRat_nat_nonneg (a d : Nat) : 0 ≤ mkRat a d := by
  rw [Rat.mkRat_eq_div, Int.cast_natCast]
  exact div_nonneg (Nat.cast_nonneg a) (Nat.cast_nonneg d)

/-- The emission fails in no way when the counts it decrements and divides by are positive. -/
theorem emit_ne_error {env : LoopEnv} {s : LoopState} {nodes : NodeMap} {nbl : List HostId}
    {srcHost : HostId} {srcShard : ShardId} {t : GlobalTabletId} (hne : srcHost ≠ env.target)
    (ht : (nodes.get env.target).shardCount ≠ 0) (hs : (nodes.get srcHost).shardCount ≠ 0)
    (hsh : ((nodes.get srcHost).shards.getD srcShard default).tabletCount ≠ 0)
    (hc : (nodes.get srcHost).tabletCount ≠ 0) (e : PlanError) :
    emit env s nodes nbl srcHost srcShard t ≠ .error e := by
  rw [List.getD_eq_getElem?_getD] at hsh
  intro h
  unfold emit at h
  by_cases hz : ((nodes.get srcHost).shards[srcShard]?.getD default).tabletCount - 1 = 0 <;>
    simp [ht, hs, hsh, hc, hne, hz, NodeMap.modify_get] at h

variable {env : LoopEnv} {s : LoopState}

/-- Lines 331-405, for a balanced source other than the target, with tablets and a non-empty
shard heap, fail only to look up an unknown host. -/
theorem pickCandidate_eq_error (inv : LoopInv env s) {pick : Nat} {nbl : List HostId}
    {srcHost : HostId} (hsrc : srcHost ∈ s.nodes.keys) (hne : srcHost ≠ env.target)
    (hsbl : (s.nodes.get srcHost).shardsByLoad ≠ []) (hc : (s.nodes.get srcHost).tabletCount ≠ 0)
    {e : PlanError} (h : pickCandidate env pick s nbl srcHost = .error e) : e.UnknownHost env.tm := by
  have ok := inv.nodeOk _ hsrc
  obtain ⟨n, hn, -, hdc, hsc, hpos⟩ := inv.node _ hsrc
  obtain ⟨nt, -, -, -, htsc, htpos⟩ := inv.node _ inv.target_mem
  have hs0 : (s.nodes.get srcHost).shardCount ≠ 0 := by omega
  have ht0 : (s.nodes.get env.target).shardCount ≠ 0 := by omega
  set v := (s.nodes.get srcHost).shardsByLoad
  have hv : 0 < v.length := List.length_pos.mpr hsbl
  unfold pickCandidate at h
  simp only [except_bind_eq_error, NodeMap.modify_get, if_pos] at h
  rcases h with h | ⟨x, hx, h⟩
  · exact absurd h (back_ne_error (List.ne_nil_of_length_pos (by rw [popHeap_length]; exact hv)) _)
  rw [back_eq_ok, popHeap_getLast _ hv, Option.some.injEq] at hx
  have hmem : x ∈ v := by rw [← hx]; simp [List.getElem?_eq_getElem hv, List.getElem_mem]
  have hlt : x < (s.nodes.get srcHost).shards.length := ok.shards_length ▸ ok.lt x hmem
  simp only [List.getElem?_eq_getElem hlt, pure_bind] at h
  split_ifs at h with hcand
  · cases h
  set t := (s.nodes.get srcHost).shards[x].candidates.getD
    (pick % (s.nodes.get srcHost).shards[x].candidates.length) default
  have hget : (s.nodes.get srcHost).shards.getD x default = (s.nodes.get srcHost).shards[x] := by
    simp [List.getD_eq_getElem?_getD, List.getElem?_eq_getElem hlt]
  have ht : t ∈ (s.nodes.get srcHost).candidatesOf x := by
    rw [NodeLoad.candidatesOf, hget]; exact getD_mod_mem hcand _ _
  simp only [except_bind_eq_error] at h
  rcases h with h | ⟨b, -, h⟩
  · obtain ⟨r, hr, hf, rfl⟩ := passesConstraints_eq_error (ok.replica x t ht) hn hdc h
    exact ⟨t, r, hr, hf, rfl⟩
  cases b
  · cases h
  rw [if_pos rfl, NodeMap.modify_modify] at h
  change emit env s (takeCandidate s.nodes srcHost x t) nbl srcHost x t = .error e at h
  refine absurd h (emit_ne_error hne ?_ ?_ ?_ ?_ _)
  all_goals rw [takeCandidate, NodeMap.modify_get]
  · rw [if_neg (Ne.symm hne)]; exact ht0
  · rw [if_pos rfl]; exact hs0
  · rw [if_pos rfl]
    show shardKey _ x ≠ 0
    rw [shardKey_take]; exact Nat.pos_iff_ne_zero.mp (ok.pos x hmem)
  · rw [if_pos rfl]; exact hc

/-- One iteration from a state satisfying the invariant fails only to look up an unknown host. -/
theorem body_eq_error (inv : LoopInv env s) (hc : s.Continues env) {pick : Nat} {e : PlanError}
    (h : body env pick s = .error e) : e.UnknownHost env.tm := by
  have hv : 0 < s.nodesByLoad.length := List.length_pos.mpr hc.2
  have hT := (inv.nodeOk _ inv.target_mem).avg
  obtain ⟨nt, -, -, -, htsc, htpos⟩ := inv.node _ inv.target_mem
  unfold body at h
  rw [except_bind_eq_error] at h
  rcases h with h | ⟨src, hsrc, h⟩
  · exact absurd h (back_ne_error (by simpa using List.length_pos.mp (by simpa using hv)) _)
  rw [back_eq_ok, popHeap_getLast _ hv, Option.some.injEq] at hsrc
  have hmem : src ∈ s.nodes.keys := inv.nbl_keys _ (by
    rw [← hsrc]; simp [List.getElem?_eq_getElem hv, List.getElem_mem])
  obtain ⟨n, -, -, -, hsc, hpos⟩ := inv.node _ hmem
  have hS := (inv.nodeOk _ hmem).avg
  dsimp only at h
  by_cases h1 : stdMax s.maxOffCandidateLoad (s.nodes.get src).avgLoad =
      (s.nodes.get env.target).avgLoad
  · rw [if_pos h1] at h; cases h
  rw [if_neg h1] at h
  by_cases h2 : (s.nodes.get src).avgLoad ≤ (s.nodes.get env.target).avgLoad
  · rw [if_pos h2] at h; cases h
  rw [if_neg h2] at h
  have hne : src ≠ env.target := fun e => h2 (e ▸ le_rfl)
  have hcount : (s.nodes.get src).tabletCount ≠ 0 := fun h0 => h2 (by
    rw [hS, h0, Nat.cast_zero, Rat.zero_mkRat, hT]; exact mkRat_nat_nonneg _ _)
  have hsc0 : (s.nodes.get src).shardCount ≠ 0 := hsc ▸ Nat.pos_iff_ne_zero.mp hpos
  have htsc0 : (s.nodes.get env.target).shardCount ≠ 0 := htsc ▸ Nat.pos_iff_ne_zero.mp htpos
  simp only [except_bind_eq_error, decrement_eq_error, decrement_eq_ok, getAvgLoad_eq_error,
    getAvgLoad_eq_ok, hcount, hsc0, htsc0, false_and, false_or, exists_eq_left, true_and,
    ne_eq, not_false_eq_true] at h
  split_ifs at h with h3 h4
  · cases h
  · cases h
  · exact pickCandidate_eq_error inv hmem hne h4 hcount ((except_map_eq_error _ _ _).mp h)

/-- An iteration of the loop from a state satisfying the invariant fails only to look up an
unknown host. -/
theorem step_eq_error (inv : LoopInv env s) (hc : s.Continues env) {pick : Nat} {e : PlanError}
    (h : step env pick s = .error e) : e.UnknownHost env.tm := by
  unfold step at h
  cases hb : body env pick s with
  | error e' =>
    rw [hb] at h
    cases h
    exact body_eq_error inv hc hb
  | ok r => rw [hb] at h; cases h

end TabletLoadBalancer
