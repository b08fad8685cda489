import TabletLoadBalancer.Model.MakePlan

/-!
# What one iteration of the selection loop can do

The spec lemmas of the loop body, one per function, so that no later proof unfolds `body`,
`pickCandidate` or `emit`. `body_eq_some` says that an iteration that does not break popped a
source that passes the three termination checks (`PassesChecks`), without any of the checked
operations failing, and then either dropped the source (it has no shards left) or went on into
`pickCandidate`. `pickCandidate_eq_ok` splits that into dropping the shard, skipping the
candidate, and emitting its migration; `emit_eq_ok` gives every entry the emission writes.
-/

set_option autoImplicit false

namespace TabletLoadBalancer

/-- The errors a run of `make_plan` can end in with its own hand: the two exceptions it throws
(lines 158 and 173), and `topology::get_node` of a host the topology does not know. Neither an
undefined operation nor the model's loop bound is among them. -/
def PlanError.Thrown : PlanError → Prop
  | .shardCountNotFound _ | .nonExistentShard _ _ | .nodeNotFound _ => True
  | _ => False

/-! ## The checked operations -/

@[simp] theorem except_bind_eq_ok {ε α β : Type} (x : Except ε α) (f : α → Except ε β) (b : β) :
    x >>= f = .ok b ↔ ∃ a, x = .ok a ∧ f a = .ok b := by
  cases x <;> simp [bind, Except.bind]

@[simp] theorem except_bind_eq_error {ε α β : Type} (x : Except ε α) (f : α → Except ε β) (e : ε) :
    x >>= f = .error e ↔ x = .error e ∨ ∃ a, x = .ok a ∧ f a = .error e := by
  cases x <;> simp [bind, Except.bind]

@[simp] theorem except_map_eq_ok {ε α β : Type} (x : Except ε α) (f : α → β) (b : β) :
    f <$> x = .ok b ↔ ∃ a, x = .ok a ∧ f a = b := by
  cases x <;> simp [Functor.map, Except.map]

@[simp] theorem except_map_eq_error {ε α β : Type} (x : Except ε α) (f : α → β) (e : ε) :
    f <$> x = .error e ↔ x = .error e := by
  cases x <;> simp [Functor.map, Except.map]

@[simp] theorem except_pure_eq_ok {ε α : Type} (a b : α) : (pure a : Except ε α) = .ok b ↔ a = b :=
  ⟨fun h => Except.ok.inj h, fun h => h ▸ rfl⟩

@[simp] theorem except_throw_ne_ok {ε α : Type} (e : ε) (a : α) : (throw e : Except ε α) ≠ .ok a :=
  nofun

@[simp] theorem decrement_eq_ok {line n m : Nat} : decrement line n = .ok m ↔ n ≠ 0 ∧ m = n - 1 := by
  unfold decrement; split <;> simp_all [throw, throwThe, MonadExceptOf.throw, pure, Except.pure,
    eq_comm]

@[simp] theorem decrement_eq_error {line n : Nat} {e : PlanError} :
    decrement line n = .error e ↔ n = 0 ∧ e = .undefined (.tabletCountUnderflow line) := by
  unfold decrement; split <;> simp_all [throw, throwThe, MonadExceptOf.throw, pure, Except.pure,
    eq_comm]

@[simp] theorem back_eq_ok {line : Nat} {v : List Nat} {a : Nat} :
    back line v = .ok a ↔ v.getLast? = some a := by
  unfold back; split <;> simp_all [throw, throwThe, MonadExceptOf.throw]

@[simp] theorem getAvgLoad_eq_ok {n : NodeLoad} {t : Nat} {q : ℚ} :
    n.getAvgLoad t = .ok q ↔ n.shardCount ≠ 0 ∧ q = mkRat t n.shardCount := by
  unfold NodeLoad.getAvgLoad; split <;> simp_all [throw, throwThe, MonadExceptOf.throw, pure,
    Except.pure, eq_comm]

@[simp] theorem getAvgLoad_eq_error {n : NodeLoad} {t : Nat} {e : PlanError} :
    n.getAvgLoad t = .error e ↔ n.shardCount = 0 ∧ e = .undefined .divisionByZero := by
  unfold NodeLoad.getAvgLoad; split <;> simp_all [throw, throwThe, MonadExceptOf.throw, pure,
    Except.pure, eq_comm]

@[simp] theorem update_eq_ok {n n' : NodeLoad} :
    n.update = .ok n' ↔ n.shardCount ≠ 0 ∧ n' = { n with avgLoad := mkRat n.tabletCount n.shardCount } := by
  simp only [NodeLoad.update, bind_pure_comp, except_map_eq_ok, getAvgLoad_eq_ok]
  constructor
  · rintro ⟨q, ⟨h0, rfl⟩, rfl⟩; exact ⟨h0, rfl⟩
  · rintro ⟨h0, rfl⟩; exact ⟨_, ⟨h0, rfl⟩, rfl⟩

@[simp] theorem update_eq_error {n : NodeLoad} {e : PlanError} :
    n.update = .error e ↔ n.shardCount = 0 ∧ e = .undefined .divisionByZero := by
  simp only [NodeLoad.update, NodeLoad.getAvgLoad, bind_pure_comp]
  split <;> simp_all [throw, throwThe, MonadExceptOf.throw, Functor.map, Except.map, pure,
    Except.pure, eq_comm]

/-! ## The body -/

/-- The three termination checks of lines 302-322 let the popped host `srcHost` through: the
loads are not all equal, it is above the target, and one move would not invert them. -/
structure PassesChecks (env : LoopEnv) (s : LoopState) (srcHost : HostId) : Prop where
  unbalanced :
    stdMax s.maxOffCandidateLoad (s.nodes.get srcHost).avgLoad ≠ (s.nodes.get env.target).avgLoad
  above : (s.nodes.get env.target).avgLoad < (s.nodes.get srcHost).avgLoad
  no_inversion : ¬ mkRat ((s.nodes.get srcHost).tabletCount - 1 : Nat) (s.nodes.get srcHost).shardCount <
    mkRat ((s.nodes.get env.target).tabletCount + 1) (s.nodes.get env.target).shardCount

/-- An iteration that does not break popped a host that passes the checks, without a failed
checked operation, and then dropped it for want of shards or went on to pick a candidate. -/
theorem body_eq_some {env : LoopEnv} {pick : Nat} {s : LoopState} {d : Deferred}
    (h : body env pick s = .ok (some d)) :
    ∃ srcHost, (popHeap (nodesCmp s.nodes) s.nodesByLoad).getLast? = some srcHost ∧
      PassesChecks env s srcHost ∧ (s.nodes.get srcHost).tabletCount ≠ 0 ∧
      (s.nodes.get srcHost).shardCount ≠ 0 ∧ (s.nodes.get env.target).shardCount ≠ 0 ∧
      ((s.nodes.get srcHost).shardsByLoad = [] ∧
        d = ⟨{ s with
          nodesByLoad := (popHeap (nodesCmp s.nodes) s.nodesByLoad).dropLast
          maxOffCandidateLoad := stdMax s.maxOffCandidateLoad (s.nodes.get srcHost).avgLoad },
          srcHost, false, false⟩ ∨
       (s.nodes.get srcHost).shardsByLoad ≠ [] ∧
        pickCandidate env pick s (popHeap (nodesCmp s.nodes) s.nodesByLoad) srcHost = .ok d) := by
  unfold body at h
  simp only [except_bind_eq_ok, back_eq_ok] at h
  obtain ⟨srcHost, hsrc, h⟩ := h
  by_cases h1 : stdMax s.maxOffCandidateLoad (s.nodes.get srcHost).avgLoad =
    (s.nodes.get env.target).avgLoad
  · simp [h1] at h
  by_cases h2 : (s.nodes.get srcHost).avgLoad ≤ (s.nodes.get env.target).avgLoad
  · simp [h1, h2] at h
  simp only [h1, h2, if_false, except_bind_eq_ok, decrement_eq_ok, getAvgLoad_eq_ok] at h
  obtain ⟨c, ⟨hc, rfl⟩, q1, ⟨hs1, rfl⟩, q2, ⟨hs2, rfl⟩, h⟩ := h
  split at h
  · simp at h
  rename_i h3
  refine ⟨srcHost, hsrc, ⟨h1, lt_of_not_le h2, by exact_mod_cast h3⟩, hc, hs1, hs2, ?_⟩
  split at h
  · rename_i h4
    simp only [except_pure_eq_ok, Option.some.injEq] at h
    exact .inl ⟨h4, h.symm⟩
  · rename_i h4
    simp only [except_map_eq_ok, Option.some.injEq] at h
    obtain ⟨d', hd', rfl⟩ := h
    exact .inr ⟨h4, hd'⟩

/-- An iteration breaks only at one of the three termination checks, for the host it popped. -/
theorem body_eq_none {env : LoopEnv} {pick : Nat} {s : LoopState}
    (h : body env pick s = .ok none) :
    ∃ srcHost, (popHeap (nodesCmp s.nodes) s.nodesByLoad).getLast? = some srcHost ∧
      (stdMax s.maxOffCandidateLoad (s.nodes.get srcHost).avgLoad =
          (s.nodes.get env.target).avgLoad ∨
        (s.nodes.get srcHost).avgLoad ≤ (s.nodes.get env.target).avgLoad ∨
        mkRat ((s.nodes.get srcHost).tabletCount - 1 : Nat) (s.nodes.get srcHost).shardCount <
          mkRat ((s.nodes.get env.target).tabletCount + 1) (s.nodes.get env.target).shardCount) := by
  unfold body at h
  simp only [except_bind_eq_ok, back_eq_ok] at h
  obtain ⟨srcHost, hsrc, h⟩ := h
  refine ⟨srcHost, hsrc, ?_⟩
  by_cases h1 : stdMax s.maxOffCandidateLoad (s.nodes.get srcHost).avgLoad =
    (s.nodes.get env.target).avgLoad
  · exact .inl h1
  by_cases h2 : (s.nodes.get srcHost).avgLoad ≤ (s.nodes.get env.target).avgLoad
  · exact .inr (.inl h2)
  simp only [h1, h2, if_false, except_bind_eq_ok, decrement_eq_ok, getAvgLoad_eq_ok] at h
  obtain ⟨c, ⟨hc, rfl⟩, q1, ⟨hs1, rfl⟩, q2, ⟨hs2, rfl⟩, h⟩ := h
  split at h
  · exact .inr (.inr ‹_›)
  split at h
  · simp at h
  · simp at h

/-- `pickCandidate` popped a shard of the source, and then dropped it (no candidates), skipped
its candidate at position `pick`, or emitted that candidate's migration. -/
theorem pickCandidate_eq_ok {env : LoopEnv} {pick : Nat} {s : LoopState} {nbl : List HostId}
    {srcHost : HostId} {d : Deferred} (h : pickCandidate env pick s nbl srcHost = .ok d) :
    ∃ srcShard sh, (popHeap (s.nodes.get srcHost).shardsByLoadCmp
        (s.nodes.get srcHost).shardsByLoad).getLast? = some srcShard ∧
      (s.nodes.get srcHost).shards[srcShard]? = some sh ∧
      (sh.candidates = [] ∧
        d = ⟨{ s with
          nodes := s.nodes.modify srcHost fun n =>
            { n with shardsByLoad := (popHeap n.shardsByLoadCmp n.shardsByLoad).dropLast }
          nodesByLoad := nbl }, srcHost, false, true⟩ ∨
       sh.candidates ≠ [] ∧ ∃ b,
        passesConstraints env (sh.candidates.getD (pick % sh.candidates.length) default) srcHost =
          .ok b ∧
        (b = false ∧ d = ⟨{ s with
            nodes := s.nodes.modify srcHost fun n =>
              { n with
                shardsByLoad := popHeap n.shardsByLoadCmp n.shardsByLoad
                shards := n.shards.modify (fun x => { x with candidates := (x.candidates.erase
                  (sh.candidates.getD (pick % sh.candidates.length) default)) }) srcShard }
            nodesByLoad := nbl }, srcHost, true, true⟩ ∨
         b = true ∧ emit env s (s.nodes.modify srcHost fun n =>
              { n with
                shardsByLoad := popHeap n.shardsByLoadCmp n.shardsByLoad
                shards := n.shards.modify (fun x => { x with candidates := (x.candidates.erase
                  (sh.candidates.getD (pick % sh.candidates.length) default)) }) srcShard })
            nbl srcHost srcShard (sh.candidates.getD (pick % sh.candidates.length) default) = .ok d)) := by
  unfold pickCandidate at h
  simp only [except_bind_eq_ok, back_eq_ok, NodeMap.modify_get, if_pos] at h
  obtain ⟨srcShard, hss, h⟩ := h
  cases hsh : (s.nodes.get srcHost).shards[srcShard]? with
  | none => simp [hsh, throw, throwThe, MonadExceptOf.throw] at h
  | some sh =>
    simp only [hsh, pure_bind] at h
    refine ⟨srcShard, sh, hss, hsh, ?_⟩
    simp only [NodeMap.modify_modify] at h
    split at h
    · rename_i hc
      exact .inl ⟨hc, (except_pure_eq_ok _ _).mp h |>.symm⟩
    · rename_i hc
      simp only [except_bind_eq_ok] at h
      obtain ⟨b, hb, h⟩ := h
      refine .inr ⟨hc, b, hb, ?_⟩
      cases b
      · exact .inl ⟨rfl, (except_pure_eq_ok _ _).mp h |>.symm⟩
      · exact .inr ⟨rfl, h⟩

/-! ## The emission -/

/-- The target's entry once it has received a tablet (lines 391-392). -/
def NodeLoad.receive (n : NodeLoad) : NodeLoad :=
  { n with tabletCount := n.tabletCount + 1, avgLoad := mkRat (n.tabletCount + 1 : Nat) n.shardCount }

/-- The source's entry once shard `sh` has given a tablet away (lines 394-401): both counts drop
by one, and a shard left empty leaves the heap vector (it sits at its back). -/
def NodeLoad.give (n : NodeLoad) (sh : ShardId) : NodeLoad :=
  { n with
    tabletCount := n.tabletCount - 1
    avgLoad := mkRat (n.tabletCount - 1 : Nat) n.shardCount
    shards := n.shards.modify (fun x => { x with
      tabletCount := (n.shards.getD sh default).tabletCount - 1 }) sh
    shardsByLoad := if (n.shards.getD sh default).tabletCount - 1 = 0 then n.shardsByLoad.dropLast
      else n.shardsByLoad }

/-- What an emission does, when the source is not the target: the counts it decrements were
positive, the source gives and the target receives one tablet, every other entry stays, the plan
grows by the migration to the target's next shard, and the pushes of an emptied shard or host are
cancelled. -/
theorem emit_eq_ok {env : LoopEnv} {s : LoopState} {nodes : NodeMap} {nbl : List HostId}
    {srcHost : HostId} {srcShard : ShardId} {t : GlobalTabletId} {d : Deferred}
    (hne : srcHost ≠ env.target) (h : emit env s nodes nbl srcHost srcShard t = .ok d) :
    (nodes.get env.target).shardCount ≠ 0 ∧ (nodes.get srcHost).shardCount ≠ 0 ∧
    ((nodes.get srcHost).shards.getD srcShard default).tabletCount ≠ 0 ∧
    (nodes.get srcHost).tabletCount ≠ 0 ∧ d.srcHost = srcHost ∧
    d.pushShard = decide (((nodes.get srcHost).shards.getD srcShard default).tabletCount - 1 ≠ 0) ∧
    d.pushNode = decide ((nodes.get srcHost).tabletCount - 1 ≠ 0) ∧
    d.state.nodes.keys = nodes.keys ∧
    (∀ h, d.state.nodes.get h = if h = srcHost then (nodes.get srcHost).give srcShard
      else if h = env.target then (nodes.get env.target).receive else nodes.get h) ∧
    d.state.nodesByLoad = (if (nodes.get srcHost).tabletCount - 1 = 0 then nbl.dropLast else nbl) ∧
    d.state.plan = s.plan ++ [⟨t, ⟨srcHost, srcShard⟩, ⟨env.target, s.targetLoad.nextShard.1⟩⟩] ∧
    d.state.maxOffCandidateLoad = s.maxOffCandidateLoad ∧
    d.state.targetLoad = s.targetLoad.nextShard.2 := by
  unfold emit at h
  simp only [except_bind_eq_ok, update_eq_ok, decrement_eq_ok, NodeMap.modify_get, if_neg hne,
    if_pos] at h
  obtain ⟨_, ⟨ht, rfl⟩, c, ⟨hc, rfl⟩, c', ⟨hc', rfl⟩, _, ⟨hs, rfl⟩, h⟩ := h
  simp only [except_pure_eq_ok] at h
  subst h
  by_cases hz : ((nodes.get srcHost).shards.getD srcShard default).tabletCount - 1 = 0 <;>
    simp only [hz, if_true, if_false, NodeMap.modify_get, NodeMap.modify_modify, if_neg hne,
      ite_true] at hs hc' ⊢
  all_goals
    refine ⟨ht, hs, hc, hc', ?_⟩
    simp only [true_and, and_true, NodeMap.modify_keys]
    intro h
    split_ifs <;> simp only [NodeLoad.give, NodeLoad.receive, hz, if_true, if_false]

end TabletLoadBalancer
