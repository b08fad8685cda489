import TabletLoadBalancer.Analysis.Order

/-!
# The load sketch does not steer the plan

The only thing `make_plan(dc)` asks the target's `load_sketch` for is the destination shard of a
migration (line 387), and nothing the loop compares afterwards reads that shard: the target's
`tablet_count` grows by one whichever shard receives the tablet (lines 391-392), and its per-shard
entries are never touched. So two runs that differ only in the sketch, or only in the destination
shards planned so far, make the same decisions at every iteration.

`LoopState.routes` is what of a loop state the destination shards cannot reach: the node map,
`nodes_by_load`, `max_off_candidate_load`, and the plan with each migration cut to its tablet,
source replica and destination host (`TabletMigrationInfo.route`). One lemma per function says
that equal routes give equal routes after it, errors included (`emit_routes`,
`pickCandidate_routes`, `body_routes`, `step_routes`); `balanceLoop_routes` carries that over a
whole run by induction on the fuel; and `makePlanDc_routes_sketch_free` reads it for
`make_plan(dc)`: from any sketch, the loop fails exactly when `make_plan(dc)` does, and otherwise
moves the same tablets from the same replicas. The sketch is the one part of the model taken
from the spec rather than from `src/`, so no property of which tablets move depends on it.
-/

set_option autoImplicit false

namespace TabletLoadBalancer

/-- A migration without its destination shard. -/
def TabletMigrationInfo.route (m : TabletMigrationInfo) : GlobalTabletId × TabletReplica × HostId :=
  (m.tablet, m.src, m.dst.host)

/-- What of a loop state the destination shards do not reach. -/
def LoopState.routes (s : LoopState) :
    NodeMap × List HostId × ℚ × List (GlobalTabletId × TabletReplica × HostId) :=
  (s.nodes, s.nodesByLoad, s.maxOffCandidateLoad, s.plan.map TabletMigrationInfo.route)

/-- What of an iteration's result the destination shards do not reach. -/
def Deferred.routes (d : Deferred) :
    (NodeMap × List HostId × ℚ × List (GlobalTabletId × TabletReplica × HostId)) × HostId ×
      Bool × Bool :=
  (d.state.routes, d.srcHost, d.pushShard, d.pushNode)

theorem LoopState.routes_eq_iff {s s' : LoopState} :
    s.routes = s'.routes ↔ s.nodes = s'.nodes ∧ s.nodesByLoad = s'.nodesByLoad ∧
      s.maxOffCandidateLoad = s'.maxOffCandidateLoad ∧
      s.plan.map TabletMigrationInfo.route = s'.plan.map TabletMigrationInfo.route := by
  simp only [LoopState.routes, Prod.mk.injEq]

/-- Two computations that agree after their common first step agree. -/
theorem map_bind_congr {ε α β γ : Type} {x : Except ε α} {f g : α → Except ε β} {k : β → γ}
    (h : ∀ a, x = .ok a → k <$> f a = k <$> g a) : k <$> (x >>= f) = k <$> (x >>= g) := by
  cases x with
  | error e => rfl
  | ok a => exact h a rfl

section OneIteration

variable (env : LoopEnv) {s s' : LoopState}

/-- The emission reads the plan and the sketch only to append the migration. -/
theorem emit_routes (h : s.routes = s'.routes) (nodes : NodeMap) (nbl : List HostId)
    (src : HostId) (sh : ShardId) (t : GlobalTabletId) :
    Deferred.routes <$> emit env s nodes nbl src sh t =
      Deferred.routes <$> emit env s' nodes nbl src sh t := by
  obtain ⟨-, -, hM, hP⟩ := LoopState.routes_eq_iff.mp h
  simp only [emit, map_bind, map_pure, Deferred.routes, LoopState.routes, List.map_append, hP, hM]
  rfl

theorem pickCandidate_routes (h : s.routes = s'.routes) (pick : Nat) (nbl : List HostId)
    (src : HostId) :
    Deferred.routes <$> pickCandidate env pick s nbl src =
      Deferred.routes <$> pickCandidate env pick s' nbl src := by
  have he := emit_routes env h
  obtain ⟨hN, -, hM, hP⟩ := LoopState.routes_eq_iff.mp h
  unfold pickCandidate
  rw [hN]
  refine map_bind_congr fun _ _ => ?_
  split
  · simp only [pure_bind]
    split_ifs
    · simp only [map_pure, Deferred.routes, LoopState.routes, hP, hM]
    · refine map_bind_congr fun _ _ => ?_
      split_ifs
      · exact he _ _ _ _ _
      · simp only [map_pure, Deferred.routes, LoopState.routes, hP, hM]
  · rfl

theorem body_routes (h : s.routes = s'.routes) (pick : Nat) :
    Option.map Deferred.routes <$> body env pick s =
      Option.map Deferred.routes <$> body env pick s' := by
  have hp := pickCandidate_routes env h pick
  obtain ⟨hN, hB, hM, hP⟩ := LoopState.routes_eq_iff.mp h
  have some_map : ∀ X : Except PlanError Deferred,
      Option.map Deferred.routes <$> (some <$> X) = some <$> (Deferred.routes <$> X) := fun X => by
    cases X <;> rfl
  unfold body
  rw [hN, hB, hM]
  refine map_bind_congr fun _ _ => ?_
  dsimp only
  split_ifs
  · rfl
  · rfl
  -- past the first two checks: the third check, then dropping the source or picking a shard
  all_goals
    refine map_bind_congr fun _ _ => map_bind_congr fun _ _ => map_bind_congr fun _ _ => ?_
    split_ifs
  · rfl
  · simp only [map_pure, Option.map_some', Deferred.routes, LoopState.routes, hP]
  · rfl
  · rw [some_map, some_map, hp]

/-- The deferred pushes read only the node map and `nodes_by_load`. -/
theorem Deferred.finish_routes {d d' : Deferred} (h : d.routes = d'.routes) :
    d.finish.routes = d'.finish.routes := by
  simp only [Deferred.routes, Prod.mk.injEq] at h
  obtain ⟨hr, hsrc, hs, hn⟩ := h
  obtain ⟨hN, hB, hM, hP⟩ := LoopState.routes_eq_iff.mp hr
  simp only [Deferred.finish, hs, hn, hsrc]
  split_ifs <;>
    simp only [LoopState.pushShardOf, LoopState.pushNode, LoopState.routes, hN, hB, hM, hP]

theorem step_routes (h : s.routes = s'.routes) (pick : Nat) :
    Option.map LoopState.routes <$> step env pick s =
      Option.map LoopState.routes <$> step env pick s' := by
  have hb := body_routes env h pick
  unfold step
  cases hx : body env pick s <;> cases hy : body env pick s' <;>
    simp only [hx, hy, Functor.map, Except.map, Except.error.injEq, Except.ok.injEq,
      reduceCtorEq] at hb ⊢
  · exact hb
  · rename_i o o'
    cases o <;> cases o' <;>
      simp only [Option.map_none', Option.map_some', Option.some.injEq, reduceCtorEq] at hb ⊢
    exact Deferred.finish_routes hb

end OneIteration

theorem LoopState.continues_iff_of_routes {env : LoopEnv} {s s' : LoopState}
    (h : s.routes = s'.routes) : s.Continues env ↔ s'.Continues env := by
  obtain ⟨-, hB, -, hP⟩ := LoopState.routes_eq_iff.mp h
  have hl : s.plan.length = s'.plan.length := by
    simpa only [List.length_map] using congrArg List.length hP
  simp only [LoopState.Continues, hl, hB]

/-- Two runs of the selection loop from states with the same routes fail with the same error or
end in states with the same routes. -/
theorem balanceLoop_routes (env : LoopEnv) (choose : Nat → Nat) :
    ∀ (fuel : Nat) {s s' : LoopState}, s.routes = s'.routes →
      LoopState.routes <$> balanceLoop env choose fuel s =
        LoopState.routes <$> balanceLoop env choose fuel s'
  | 0, s, s', h => by
    unfold balanceLoop
    by_cases hc : s.Continues env
    · rw [if_pos hc, if_pos ((LoopState.continues_iff_of_routes h).mp hc)]
    · rw [if_neg hc, if_neg (mt (LoopState.continues_iff_of_routes h).mpr hc)]
      exact congrArg Except.ok h
  | fuel + 1, s, s', h => by
    have hstep := step_routes env h (choose fuel)
    unfold balanceLoop
    by_cases hc : s.Continues env
    · rw [if_pos hc, if_pos ((LoopState.continues_iff_of_routes h).mp hc)]
      cases hx : step env (choose fuel) s <;> cases hy : step env (choose fuel) s' <;>
        simp only [hx, hy, Functor.map, Except.map, Except.error.injEq, Except.ok.injEq,
          reduceCtorEq] at hstep
      · simp only [hstep, bind, Except.bind]
      · rename_i o o'
        cases o <;> cases o' <;>
          simp only [Option.map_none', Option.map_some', Option.some.injEq, reduceCtorEq] at hstep
        · exact congrArg Except.ok h
        · exact balanceLoop_routes env choose fuel hstep
    · rw [if_neg hc, if_neg (mt (LoopState.continues_iff_of_routes h).mpr hc)]
      exact congrArg Except.ok h

variable {tm : TokenMetadata} {dc : DcName} {env : LoopEnv} {s0 : LoopState}

/-- Whatever load sketch the selection loop of `make_plan(dc)` starts from, it fails exactly when
`make_plan(dc)` does, and otherwise plans the same tablets from the same replicas to the same
host: the sketch picks destination shards and nothing else. -/
theorem makePlanDc_routes_sketch_free {choose : Nat → Nat}
    (hp : prepare tm dc = .ok (.run env s0)) (ls : LoadSketch) :
    List.map TabletMigrationInfo.route <$> makePlanDc tm choose dc =
      (fun sf => sf.plan.map TabletMigrationInfo.route) <$>
        balanceLoop env choose (loopBound s0) { s0 with targetLoad := ls } := by
  have h := balanceLoop_routes env choose (loopBound s0)
    (show s0.routes = { s0 with targetLoad := ls }.routes from rfl)
  have hplan : List.map TabletMigrationInfo.route <$> makePlanDc tm choose dc =
      (fun r => r.2.2.2) <$> (LoopState.routes <$> balanceLoop env choose (loopBound s0) s0) := by
    unfold makePlanDc
    rw [hp]
    show _ <$> (balanceLoop env choose (loopBound s0) s0 >>= fun sf => pure sf.plan) = _
    cases balanceLoop env choose (loopBound s0) s0 <;> rfl
  rw [hplan, h, ← comp_map]
  rfl

theorem makePlanDc_routes_sketch_free_skewed :
    ∃ env s0, prepare skewedSnapshot 0 = .ok (.run env s0) ∧
      List.map TabletMigrationInfo.route <$> makePlanDc skewedSnapshot (fun _ => 0) 0 =
        (fun sf => sf.plan.map TabletMigrationInfo.route) <$>
          balanceLoop env (fun _ => 0) (loopBound s0) { s0 with targetLoad := ⟨[]⟩ } :=
  ⟨_, _, rfl, makePlanDc_routes_sketch_free (rfl : prepare skewedSnapshot 0 = _) ⟨[]⟩⟩

end TabletLoadBalancer
