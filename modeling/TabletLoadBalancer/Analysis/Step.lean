import TabletLoadBalancer.Analysis.Constraints

/-!
# The selection loop as a step relation

`LoopStep env s src s'` is what one iteration that passes the termination checks can do from
`s`, having popped the host `src`: the four paths of lines 324-405, each with the guards it
passed, for whichever candidate `*candidates.begin()` yields. `step_eq_some` shows that every
iteration of the code is one of them, so that the invariants are proved once per path and never
by unfolding the body again. `Reachable env s0` is the set of states the loop can reach from the
state phases A-E leave, over every choice of candidates, and `balanceLoop_eq_ok` shows that the
loop of the model only ever stops in one of them, where the `while` condition fails or an
iteration breaks.
-/

set_option autoImplicit false

namespace TabletLoadBalancer

/-- The source's entry once its shard heap is popped and candidate `t` is erased from shard `x`
(lines 335 and 349). -/
def NodeLoad.take (n : NodeLoad) (x : ShardId) (t : GlobalTabletId) : NodeLoad :=
  { n with
    shardsByLoad := popHeap n.shardsByLoadCmp n.shardsByLoad
    shards := n.shards.modify (fun sh => { sh with candidates := sh.candidates.erase t }) x }

/-- The entry once the deferred `push_heap` of its shard vector has run (lines 344-346). -/
def NodeLoad.pushShard (n : NodeLoad) : NodeLoad :=
  { n with shardsByLoad := pushHeap n.shardsByLoadCmp n.shardsByLoad }

/-- The node map once the source's entry is `take`n. -/
def takeCandidate (nodes : NodeMap) (src : HostId) (srcShard : ShardId) (t : GlobalTabletId) :
    NodeMap :=
  nodes.modify src fun n => n.take srcShard t

theorem LoopState.pushShardOf_eq (s : LoopState) (h : HostId) :
    s.pushShardOf h = { s with nodes := s.nodes.modify h NodeLoad.pushShard } := rfl

/-- The host an iteration pops and lets through the checks of lines 302-322, with the counts the
checks decrement or divide by, which were positive. -/
structure Popped (env : LoopEnv) (s : LoopState) (src : HostId) : Prop where
  pop : (popHeap (nodesCmp s.nodes) s.nodesByLoad).getLast? = some src
  checks : PassesChecks env s src
  count_pos : (s.nodes.get src).tabletCount ≠ 0
  shards_pos : (s.nodes.get src).shardCount ≠ 0
  target_shards_pos : (s.nodes.get env.target).shardCount ≠ 0

/-- The shard `srcShard` that lines 335-338 pop from `src`'s heap, and its entry `sh`. -/
structure ShardPopped (s : LoopState) (src : HostId) (srcShard : ShardId) (sh : ShardLoad) :
    Prop where
  nonempty : (s.nodes.get src).shardsByLoad ≠ []
  pop : (popHeap (s.nodes.get src).shardsByLoadCmp (s.nodes.get src).shardsByLoad).getLast? =
    some srcShard
  get : (s.nodes.get src).shards[srcShard]? = some sh

/-- The four ways an iteration from `s` that popped `src` and passed the checks ends. -/
inductive LoopStep (env : LoopEnv) (s : LoopState) (src : HostId) : LoopState → Prop where
  /-- Lines 324-330: the source has no shards left and leaves `nodes_by_load`. -/
  | dropNode (hsh : (s.nodes.get src).shardsByLoad = []) :
      LoopStep env s src { s with
        nodesByLoad := (popHeap (nodesCmp s.nodes) s.nodesByLoad).dropLast
        maxOffCandidateLoad := stdMax s.maxOffCandidateLoad (s.nodes.get src).avgLoad }
  /-- Lines 335-343: the popped shard has no candidates left and leaves the source's heap. -/
  | dropShard {srcShard : ShardId} {sh : ShardLoad} (hp : ShardPopped s src srcShard sh)
      (hc : sh.candidates = []) :
      LoopStep env s src (LoopState.pushNode { s with
        nodes := s.nodes.modify src fun n =>
          { n with shardsByLoad := (popHeap n.shardsByLoadCmp n.shardsByLoad).dropLast }
        nodesByLoad := popHeap (nodesCmp s.nodes) s.nodesByLoad })
  /-- Lines 348-385: candidate `t` is taken and fails the replication constraints. -/
  | skip {srcShard : ShardId} {sh : ShardLoad} {t : GlobalTabletId}
      (hp : ShardPopped s src srcShard sh) (ht : t ∈ sh.candidates)
      (hrej : passesConstraints env t src = .ok false) :
      LoopStep env s src (LoopState.pushNode (LoopState.pushShardOf { s with
        nodes := takeCandidate s.nodes src srcShard t
        nodesByLoad := popHeap (nodesCmp s.nodes) s.nodesByLoad } src))
  /-- Lines 387-405: candidate `t` passes and its migration is emitted. -/
  | emit {srcShard : ShardId} {sh : ShardLoad} {t : GlobalTabletId} {d : Deferred}
      (hp : ShardPopped s src srcShard sh) (ht : t ∈ sh.candidates)
      (hacc : passesConstraints env t src = .ok true)
      (he : emit env s (takeCandidate s.nodes src srcShard t)
        (popHeap (nodesCmp s.nodes) s.nodesByLoad) src srcShard t = .ok d) :
      LoopStep env s src d.finish

theorem getD_mod_mem {α : Type} {l : List α} (hl : l ≠ []) (k : Nat) (d : α) :
    l.getD (k % l.length) d ∈ l := by
  have hk : k % l.length < l.length := Nat.mod_lt _ (List.length_pos.mpr hl)
  simp [List.getElem?_eq_getElem hk]

theorem step_eq_ok_some {env : LoopEnv} {pick : Nat} {s s' : LoopState} :
    step env pick s = .ok (some s') ↔ ∃ d, body env pick s = .ok (some d) ∧ d.finish = s' := by
  unfold step
  cases body env pick s with
  | error e => simp [Except.map]
  | ok r => cases r <;> simp [Except.map]

theorem step_eq_ok_none {env : LoopEnv} {pick : Nat} {s : LoopState} :
    step env pick s = .ok none ↔ body env pick s = .ok none := by
  unfold step
  cases body env pick s with
  | error e => simp [Except.map]
  | ok r => cases r <;> simp [Except.map]

/-- Every iteration of the code that does not break pops a host that passes the checks and then
takes one of the four paths. -/
theorem step_eq_some {env : LoopEnv} {pick : Nat} {s s' : LoopState}
    (h : step env pick s = .ok (some s')) : ∃ src, Popped env s src ∧ LoopStep env s src s' := by
  obtain ⟨d, hb, rfl⟩ := step_eq_ok_some.mp h
  obtain ⟨src, hpop, hc, htc, hsc, htsc, hpath⟩ := body_eq_some hb
  refine ⟨src, ⟨hpop, hc, htc, hsc, htsc⟩, ?_⟩
  rcases hpath with ⟨hsh, rfl⟩ | ⟨hsh, hpc⟩
  · exact .dropNode hsh
  obtain ⟨srcShard, sh, hss, hget, hpath⟩ := pickCandidate_eq_ok hpc
  have hp : ShardPopped s src srcShard sh := ⟨hsh, hss, hget⟩
  rcases hpath with ⟨hc, rfl⟩ | ⟨hc, b, hpass, ⟨rfl, rfl⟩ | ⟨rfl, he⟩⟩
  · exact .dropShard hp hc
  · exact .skip hp (getD_mod_mem hc _ _) hpass
  · exact .emit hp (getD_mod_mem hc _ _) hpass he

/-- The states the selection loop can be in at the head of an iteration, starting from `s0`,
over every choice of candidates. -/
inductive Reachable (env : LoopEnv) (s0 : LoopState) : LoopState → Prop where
  | init : Reachable env s0 s0
  | step {s s' : LoopState} {src : HostId} (hr : Reachable env s0 s) (hc : s.Continues env)
      (hp : Popped env s src) (hs : LoopStep env s src s') : Reachable env s0 s'

/-- A step of the code from a state where the loop continues is a step of `Reachable`. -/
theorem Reachable.of_step {env : LoopEnv} {s0 s s' : LoopState} {pick : Nat}
    (hr : Reachable env s0 s) (hc : s.Continues env)
    (h : TabletLoadBalancer.step env pick s = .ok (some s')) :
    Reachable env s0 s' :=
  let ⟨_, hp, hs⟩ := step_eq_some h
  .step hr hc hp hs

/-- The loop of the model stops only in a reachable state, where the `while` condition fails or
an iteration breaks. -/
theorem balanceLoop_eq_ok {env : LoopEnv} {choose : Nat → Nat} {s0 : LoopState} :
    ∀ (fuel : Nat) (s sf : LoopState), Reachable env s0 s →
      balanceLoop env choose fuel s = .ok sf →
        Reachable env s0 sf ∧ (¬ sf.Continues env ∨ ∃ pick, step env pick sf = .ok none)
  | 0, s, sf, hr, h => by
    unfold balanceLoop at h
    split at h
    · simp at h
    · next hc => exact (except_pure_eq_ok _ _).mp h ▸ ⟨hr, .inl hc⟩
  | fuel + 1, s, sf, hr, h => by
    unfold balanceLoop at h
    split at h
    · next hc =>
      simp only [except_bind_eq_ok] at h
      obtain ⟨r, hs, h⟩ := h
      cases r with
      | none => exact (except_pure_eq_ok _ _).mp h ▸ ⟨hr, .inr ⟨_, hs⟩⟩
      | some s' => exact balanceLoop_eq_ok fuel s' sf (hr.of_step hc hs) h
    · next hc => exact (except_pure_eq_ok _ _).mp h ▸ ⟨hr, .inl hc⟩

end TabletLoadBalancer
