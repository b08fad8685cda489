import TabletLoadBalancer.Analysis.Prepare

/-!
# Runs of `make_plan`

`make_plan(dc)` either decides in phases A-E (the loads are balanced, or a table has pending
transitions, and the plan is empty) or runs the selection loop from the state `prepare` leaves,
which satisfies `LoopInv`, and returns the plan of a reachable state where the loop stopped
(`makePlanDc_eq_ok`). `make_plan()` concatenates the plans of the datacenters
(`makePlan_eq_ok`).

The step relation `Reachable` covers every choice of candidates. `LoopVisit` follows the code's
own recursion instead: the states `balanceLoop` passes through for one choice and one fuel, each
entered by a call of `step` (`LoopVisit.reachable`). The loop from the start is the loop from
any of them (`LoopVisit.balanceLoop_eq`), and the state `make_plan(dc)` takes its plan from is
one of them (`makePlanDc_eq_ok_visit`).
-/

set_option autoImplicit false

namespace TabletLoadBalancer

/-- Phases A-E decide without the loop only on the empty plan, after phases A-C succeeded, when
the largest and least loads are equal or a table has pending transitions (phase D). -/
theorem prepare_eq_done {tm : TokenMetadata} {dc : DcName} {plan : MigrationPlan}
    (h : prepare tm dc = .ok (.done plan)) :
    plan = [] ∧ ∃ m1 m2 m3 mx mn mnode,
      tm.topology.nodes.foldlM (selectNode dc) NodeMap.empty = .ok m1 ∧
      tm.tablets.allReplicas.foldlM countReplica m1 = .ok m2 ∧
      m2.keys.foldlM scanLoad (m2, 0, 0, none) = .ok (m3, mx, mn, mnode) ∧
      (mx = mn ∨ computeShardLoad tm.tablets m3 = .ok none) := by
  unfold prepare at h
  simp only [except_bind_eq_ok] at h
  obtain ⟨m1, h1, m2, h2, ⟨m3, mx, mn, mnode⟩, h3, h⟩ := h
  dsimp only at h
  split_ifs at h with hmx
  · cases h
    exact ⟨rfl, m1, m2, m3, mx, mn, mnode, h1, h2, h3, .inl hmx⟩
  rcases mnode with _ | target
  · simp at h
  simp only [pure_bind] at h
  rcases hf : tm.topology.findNode target with _ | tn <;> simp only [hf] at h
  · simp at h
  simp only [pure_bind, except_bind_eq_ok] at h
  obtain ⟨o, ho, h⟩ := h
  rcases o with _ | m4 <;> cases h
  exact ⟨rfl, m1, m2, m3, mx, mn, some target, h1, h2, h3, .inr ho⟩

/-- A plan of `make_plan(dc)`: empty when phases A-E decide, otherwise the plan of a reachable
state of the selection loop where the `while` condition fails or an iteration breaks. -/
theorem makePlanDc_eq_ok {tm : TokenMetadata} {choose : Nat → Nat} {dc : DcName}
    {plan : MigrationPlan} (h : makePlanDc tm choose dc = .ok plan) :
    (prepare tm dc = .ok (.done []) ∧ plan = []) ∨
    ∃ env s0 sf, prepare tm dc = .ok (.run env s0) ∧ Reachable env s0 sf ∧
      (¬ sf.Continues env ∨ ∃ pick, step env pick sf = .ok none) ∧ sf.plan = plan := by
  unfold makePlanDc at h
  simp only [except_bind_eq_ok] at h
  obtain ⟨p, hp, h⟩ := h
  rcases p with plan' | ⟨env, s0⟩
  · obtain rfl := (prepare_eq_done hp).1
    exact .inl ⟨hp, ((except_pure_eq_ok _ _).mp h).symm⟩
  · simp only [except_bind_eq_ok] at h
    obtain ⟨sf, hl, h⟩ := h
    obtain ⟨hr, hstop⟩ := balanceLoop_eq_ok _ s0 sf .init hl
    exact .inr ⟨env, s0, sf, hp, hr, hstop, (except_pure_eq_ok _ _).mp h⟩

/-- `make_plan()` is the concatenation of the plans of `make_plan(dc)` over the datacenters. -/
theorem makePlan_eq_ok {tm : TokenMetadata} {choose : DcName → Nat → Nat} {plan : MigrationPlan}
    (h : makePlan tm choose = .ok plan) :
    ∃ plans, List.Forall₂ (fun dc p => makePlanDc tm (choose dc) dc = .ok p)
      tm.topology.getDatacenters plans ∧ plan = plans.flatten := by
  have key : ∀ (dcs : List DcName) (acc : MigrationPlan), dcs.foldlM (fun plan dc => do
      pure (plan ++ (← makePlanDc tm (choose dc) dc))) acc = .ok plan →
      ∃ plans, List.Forall₂ (fun dc p => makePlanDc tm (choose dc) dc = .ok p) dcs plans ∧
        plan = acc ++ plans.flatten := by
    intro dcs
    induction dcs with
    | nil => exact fun acc h => ⟨[], .nil, by simpa using ((except_pure_eq_ok _ _).mp h).symm⟩
    | cons dc dcs ih =>
      intro acc h
      obtain ⟨c, hc, h⟩ := foldlM_cons_eq_ok.mp h
      simp only [except_bind_eq_ok, except_pure_eq_ok] at hc
      obtain ⟨p, hp, rfl⟩ := hc
      obtain ⟨plans, hf, rfl⟩ := ih _ h
      exact ⟨p :: plans, .cons hp hf, by simp⟩
  simpa using key _ [] h

/-! ## The states the code's loop passes through -/

/-- `LoopVisit env choose fuel s0 f s`: `balanceLoop env choose fuel s0` is in `s` at the head of
an iteration, with `f` iterations of fuel left. Each iteration is the code's own: the `while`
condition holds and `step` at candidate position `choose f` returns the next state. -/
inductive LoopVisit (env : LoopEnv) (choose : Nat → Nat) (fuel : Nat) (s0 : LoopState) :
    Nat → LoopState → Prop where
  | start : LoopVisit env choose fuel s0 fuel s0
  | next {f : Nat} {s s' : LoopState} (hv : LoopVisit env choose fuel s0 (f + 1) s)
      (hc : s.Continues env) (hs : step env (choose f) s = .ok (some s')) :
      LoopVisit env choose fuel s0 f s'

section Visit

variable {env : LoopEnv} {choose : Nat → Nat} {fuel : Nat} {s0 : LoopState}

/-- Every state the loop passes through is reachable. -/
theorem LoopVisit.reachable {f : Nat} {s : LoopState} (hv : LoopVisit env choose fuel s0 f s) :
    Reachable env s0 s := by
  induction hv with
  | start => exact .init
  | next _ hc hs ih => exact ih.of_step hc hs

/-- The loop from the start is the loop from any state it passes through. -/
theorem LoopVisit.balanceLoop_eq {f : Nat} {s : LoopState}
    (hv : LoopVisit env choose fuel s0 f s) :
    balanceLoop env choose fuel s0 = balanceLoop env choose f s := by
  induction hv with
  | start => rfl
  | next _ hc hs ih =>
    rw [ih]
    simp only [balanceLoop, if_pos hc, hs]
    rfl

/-- The state the loop returns is one it passes through. -/
theorem LoopVisit.of_balanceLoop_eq_ok :
    ∀ {f : Nat} {s sf : LoopState}, LoopVisit env choose fuel s0 f s →
      balanceLoop env choose f s = .ok sf → ∃ g, LoopVisit env choose fuel s0 g sf
  | 0, s, sf, hv, h => by
    unfold balanceLoop at h
    split at h
    · simp at h
    · exact (except_pure_eq_ok _ _).mp h ▸ ⟨0, hv⟩
  | f + 1, s, sf, hv, h => by
    unfold balanceLoop at h
    split at h
    · next hc =>
      simp only [except_bind_eq_ok] at h
      obtain ⟨r, hs, h⟩ := h
      cases r with
      | none => exact (except_pure_eq_ok _ _).mp h ▸ ⟨f + 1, hv⟩
      | some s' => exact LoopVisit.of_balanceLoop_eq_ok (hv.next hc hs) h
    · exact (except_pure_eq_ok _ _).mp h ▸ ⟨f + 1, hv⟩

end Visit

/-- A plan `make_plan(dc)` takes from its loop is the plan of a state the loop passed through. -/
theorem makePlanDc_eq_ok_visit {tm : TokenMetadata} {choose : Nat → Nat} {dc : DcName}
    {env : LoopEnv} {s0 : LoopState} {plan : MigrationPlan}
    (hp : prepare tm dc = .ok (.run env s0)) (h : makePlanDc tm choose dc = .ok plan) :
    ∃ f sf, LoopVisit env choose (loopBound s0) s0 f sf ∧ sf.plan = plan := by
  unfold makePlanDc at h
  rw [hp] at h
  change (balanceLoop env choose (loopBound s0) s0 >>= fun sf => pure sf.plan) = _ at h
  obtain ⟨sf, hl, h⟩ := (except_bind_eq_ok _ _ _).mp h
  obtain ⟨f, hv⟩ := LoopVisit.start.of_balanceLoop_eq_ok hl
  exact ⟨f, sf, hv, (except_pure_eq_ok _ _).mp h⟩

/-- Every state the selection loop of `make_plan(dc)` reaches satisfies the loop invariant. -/
theorem Reachable.loopInv_of_prepare {tm : TokenMetadata} {dc : DcName} {env : LoopEnv}
    {s0 s : LoopState} (hp : prepare tm dc = .ok (.run env s0)) (hr : Reachable env s0 s) :
    LoopInv env s :=
  hr.loopInv (prepare_initial hp).inv

/-- No iteration adds or removes a balanced host. -/
theorem LoopStep.keys {env : LoopEnv} {s s' : LoopState} {src : HostId} (hp : Popped env s src)
    (hs : LoopStep env s src s') : s'.nodes.keys = s.nodes.keys := by
  cases hs with
  | emit hsp ht hacc he =>
    exact (emit_finish (fun e => lt_irrefl _ (e ▸ hp.checks.above)) he).1
  | _ => rfl

theorem Reachable.keys {env : LoopEnv} {s0 s : LoopState} (hr : Reachable env s0 s) :
    s.nodes.keys = s0.nodes.keys := by
  induction hr with
  | init => rfl
  | step _ _ hp hs ih => exact (hs.keys hp).trans ih

/-- The entry of a normal node of the datacenter in a reachable state: the node's input count
with the plan so far applied, its shard count, and their quotient as its load. -/
theorem Reachable.entry {tm : TokenMetadata} {dc : DcName} {env : LoopEnv} {s0 s : LoopState}
    (init : Initial tm dc env s0) (hr : Reachable env s0 s) {n : Node}
    (hn : n ∈ dcNodes tm.topology dc) :
    n.hostId ∈ s.nodes.keys ∧
      (s.nodes.get n.hostId).tabletCount =
        runningCounts (replicaCount tm.tablets) s.plan n.hostId ∧
      (s.nodes.get n.hostId).shardCount = n.shardCount ∧
      (s.nodes.get n.hostId).avgLoad = mkRat (s.nodes.get n.hostId).tabletCount n.shardCount := by
  have inv := hr.loopInv init.inv
  have hk : n.hostId ∈ s.nodes.keys := hr.keys ▸ init.keys ▸ List.mem_map_of_mem _ hn
  obtain ⟨n', hf, -, -, hsc, -⟩ := inv.node _ hk
  rw [init.tm_eq, findNode_eq_some (List.mem_filter.mp hn).1, Option.some.injEq] at hf
  subst hf
  exact ⟨hk, init.tm_eq ▸ inv.counts _ hk, hsc, hsc ▸ (inv.nodeOk _ hk).avg⟩

/-- The entry phases A-E leave for a normal node of the datacenter: the node's input count, its
shard count, and their quotient as its load. -/
theorem Initial.entry {tm : TokenMetadata} {dc : DcName} {env : LoopEnv} {s0 : LoopState}
    (init : Initial tm dc env s0) {n : Node} (hn : n ∈ dcNodes tm.topology dc) :
    n.hostId ∈ s0.nodes.keys ∧
      (s0.nodes.get n.hostId).tabletCount = replicaCount tm.tablets n.hostId ∧
      (s0.nodes.get n.hostId).shardCount = n.shardCount ∧
      (s0.nodes.get n.hostId).avgLoad = mkRat (replicaCount tm.tablets n.hostId) n.shardCount := by
  obtain ⟨hk, hc, hsc, havg⟩ := Reachable.entry init .init hn
  have hc' : (s0.nodes.get n.hostId).tabletCount = replicaCount tm.tablets n.hostId := by
    rw [hc, init.plan]; rfl
  exact ⟨hk, hc', hsc, hc' ▸ havg⟩

/-- The target is a normal node of the datacenter, and its entry's shard count is its own. -/
theorem LoopInv.targetNode {tm : TokenMetadata} {dc : DcName} {env : LoopEnv} {s0 s : LoopState}
    (init : Initial tm dc env s0) (inv : LoopInv env s) :
    ∃ tn ∈ dcNodes tm.topology dc, tn.hostId = env.target ∧ env.batchSize = tn.shardCount ∧
      env.targetRack = tn.rack := by
  obtain ⟨tn, hf, hrack, hbs⟩ := init.target
  obtain ⟨n, hn, hst, hdc, -⟩ := inv.node _ inv.target_mem
  rw [init.tm_eq, hf, Option.some.injEq] at hn
  subst hn
  obtain ⟨hmem, hid⟩ := findNode_mem hf
  refine ⟨tn, List.mem_filter.mpr ⟨hmem, decide_eq_true ⟨hst, init.dc_eq ▸ hdc⟩⟩, hid, hbs, hrack⟩

end TabletLoadBalancer
