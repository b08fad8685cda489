import TabletLoadBalancer.Analysis.Run

/-!
# The order in which the loop visits hosts and shards

`nodes_by_load` is a heap of `loadKey`, each host's load clipped from below at the target's, and
every shard heap is a heap of the shards' counts (`LoopInv`). So the host an iteration pops and
lets through the checks has the largest load among those left in `nodes_by_load`, its popped
shard the largest count among its shards left, successive sources come in non-increasing order
of load, and `max_off_candidate_load` bounds the loads still in the heap. `PopOrder` collects
these facts; `LoopInv.popOrder` derives them from the invariant, `makePlanDc_pops_max` reads them
at every reachable state, and `makePlanDc_visit_popOrder` at every state the code's own loop
passes through.

The heap is not one of `nodes_cmp` on the current loads: the target's load grows while it sits
inside `nodes_by_load`, so that a later `std::push_heap` can be called on a range that is no
heap of `nodes_cmp` (`pushHeap_precondition_fails`).
-/

set_option autoImplicit false

namespace TabletLoadBalancer

/-- The order of one iteration's pops: the popped host's load is at least that of every host left
in `nodes_by_load`, the shard then popped from its heap has at least the tablets of every shard left
there, the next source that passes the checks has no larger a load (measured when it is popped),
and `max_off_candidate_load`, once non-zero, is at least the load of every host left in
`nodes_by_load`. -/
structure PopOrder (env : LoopEnv) (s : LoopState) (src : HostId) : Prop where
  rest : ∀ h ∈ (popHeap (nodesCmp s.nodes) s.nodesByLoad).dropLast,
    (s.nodes.get h).avgLoad ≤ (s.nodes.get src).avgLoad
  shard : ∀ x, (popHeap (s.nodes.get src).shardsByLoadCmp (s.nodes.get src).shardsByLoad).getLast? =
      some x →
    ∀ y ∈ (popHeap (s.nodes.get src).shardsByLoadCmp (s.nodes.get src).shardsByLoad).dropLast,
      shardKey (s.nodes.get src) y ≤ shardKey (s.nodes.get src) x
  next : ∀ s' src', LoopStep env s src s' → s'.Continues env → Popped env s' src' →
    (s'.nodes.get src').avgLoad ≤ (s.nodes.get src).avgLoad
  maxOff : s.maxOffCandidateLoad ≠ 0 → ∀ h ∈ s.nodesByLoad,
    (s.nodes.get h).avgLoad ≤ s.maxOffCandidateLoad

/-- The loop invariant orders the pops of every iteration that passes the termination checks:
`nodes_by_load` is a heap of the clipped loads, each shard heap one of the shards' counts. -/
theorem LoopInv.popOrder {env : LoopEnv} {s : LoopState} {src : HostId} (inv : LoopInv env s)
    (hc : s.Continues env) (hpop : Popped env s src) : PopOrder env s src := by
  obtain ⟨-, hmem, -, -, -, hrest, hle⟩ := inv.popped hc hpop
  refine ⟨fun h hh => le_trans (le_max_left _ _) (hle h ((hrest h).mp hh).1), fun x hx y hy => ?_,
    fun s' src' hs hc' hpop' => ?_, fun hoff h hh => le_trans (le_max_left _ _) (inv.maxOff hoff h hh)⟩
  · have ok := inv.nodeOk _ (inv.nbl_keys _ hmem)
    set v := (s.nodes.get src).shardsByLoad
    have hv : 0 < v.length := by
      rw [← popHeap_length (s.nodes.get src).shardsByLoadCmp v]
      exact List.length_pos.mpr fun h0 => by simp [h0] at hx
    rw [popHeap_getLast _ hv, Option.some.injEq] at hx
    subst hx
    exact ok.heap.le_root ((popHeap_split _ hv ok.sbl_nodup).2.2 y |>.mp hy).1
  · have hstep := inv.step hc hpop hs
    obtain ⟨-, hmem', -, hkey', -⟩ := hstep.1.popped hc' hpop'
    exact hkey' ▸ hstep.2 src' hmem'

/-- In every iteration of a run of `make_plan(dc)` that passes the termination checks, the popped
host's load is at least that of every host left in `nodes_by_load`, and the shard then popped from
its heap has at least the tablets of every shard left there; the next source that passes the
checks has no larger a load (measured when it is popped); and `max_off_candidate_load`, once
non-zero, is at least the load of every host left in `nodes_by_load`. -/
theorem makePlanDc_pops_max {tm : TokenMetadata} {dc : DcName} {env : LoopEnv}
    {s0 s : LoopState} {src : HostId} (hp : prepare tm dc = .ok (.run env s0))
    (hr : Reachable env s0 s) (hc : s.Continues env) (hpop : Popped env s src) :
    (∀ h ∈ (popHeap (nodesCmp s.nodes) s.nodesByLoad).dropLast,
      (s.nodes.get h).avgLoad ≤ (s.nodes.get src).avgLoad) ∧
    (∀ x, (popHeap (s.nodes.get src).shardsByLoadCmp (s.nodes.get src).shardsByLoad).getLast? =
        some x →
      ∀ y ∈ (popHeap (s.nodes.get src).shardsByLoadCmp (s.nodes.get src).shardsByLoad).dropLast,
        shardKey (s.nodes.get src) y ≤ shardKey (s.nodes.get src) x) ∧
    (∀ s' src', LoopStep env s src s' → s'.Continues env → Popped env s' src' →
      (s'.nodes.get src').avgLoad ≤ (s.nodes.get src).avgLoad) ∧
    (s.maxOffCandidateLoad ≠ 0 → ∀ h ∈ s.nodesByLoad,
      (s.nodes.get h).avgLoad ≤ s.maxOffCandidateLoad) :=
  let p := (hr.loopInv_of_prepare hp).popOrder hc hpop
  ⟨p.rest, p.shard, p.next, p.maxOff⟩

/-- A datacenter of three normal nodes in one rack: host 1 with one shard and four tablets, host 2
with ten shards and one tablet, host 3 with two shards and none. The target is host 3. Its first
iteration moves a tablet from host 1 to host 3, which raises the target's load from 0 to 1/2
while it sits inside `nodes_by_load`. -/
def skewedSnapshot : TokenMetadata where
  topology := ⟨[⟨1, 0, 0, .normal, 1⟩, ⟨2, 0, 0, .normal, 10⟩, ⟨3, 0, 0, .normal, 2⟩], by decide⟩
  tablets := ⟨[(0, ⟨[⟨[⟨1, 0⟩]⟩, ⟨[⟨1, 0⟩]⟩, ⟨[⟨1, 0⟩]⟩, ⟨[⟨1, 0⟩]⟩, ⟨[⟨2, 0⟩]⟩], []⟩)], by decide⟩

theorem makePlanDc_pops_max_skewed :
    ∃ env s0 s, prepare skewedSnapshot 0 = .ok (.run env s0) ∧ step env 0 s0 = .ok (some s) ∧
    Reachable env s0 s ∧ s.plan ≠ [] ∧
    (s0.nodes.get env.target).avgLoad < (s.nodes.get env.target).avgLoad ∧
    env.target ∈ s.nodesByLoad ∧ s.Continues env ∧ Popped env s 1 ∧
    (∀ h ∈ (popHeap (nodesCmp s.nodes) s.nodesByLoad).dropLast,
      (s.nodes.get h).avgLoad ≤ (s.nodes.get 1).avgLoad) ∧
    (∀ x, (popHeap (s.nodes.get 1).shardsByLoadCmp (s.nodes.get 1).shardsByLoad).getLast? =
        some x →
      ∀ y ∈ (popHeap (s.nodes.get 1).shardsByLoadCmp (s.nodes.get 1).shardsByLoad).dropLast,
        shardKey (s.nodes.get 1) y ≤ shardKey (s.nodes.get 1) x) ∧
    (∀ s' src', LoopStep env s 1 s' → s'.Continues env → Popped env s' src' →
      (s'.nodes.get src').avgLoad ≤ (s.nodes.get 1).avgLoad) ∧
    (s.maxOffCandidateLoad ≠ 0 → ∀ h ∈ s.nodesByLoad,
      (s.nodes.get h).avgLoad ≤ s.maxOffCandidateLoad) := by
  refine ⟨_, _, _, rfl, rfl, ?hr, by decide, by decide, by decide, by decide, ?hpop,
    makePlanDc_pops_max (rfl : prepare skewedSnapshot 0 = _) ?hr (by decide) ?hpop⟩
  case hr => exact @Reachable.of_step _ _ _ _ 0 .init (by decide) rfl
  case hpop => exact ⟨by decide, ⟨by decide, by decide, by decide⟩, by decide, by decide, by decide⟩

/-- The same order at every state the loop of `make_plan(dc)` itself passes through. -/
theorem makePlanDc_visit_popOrder {tm : TokenMetadata} {dc : DcName} {env : LoopEnv}
    {choose : Nat → Nat} {s0 s : LoopState} {f : Nat} {src : HostId}
    (hp : prepare tm dc = .ok (.run env s0)) (hv : LoopVisit env choose (loopBound s0) s0 f s)
    (hc : s.Continues env) (hpop : Popped env s src) : PopOrder env s src :=
  (hv.reachable.loopInv_of_prepare hp).popOrder hc hpop

/-- The first iteration moves a tablet from host 1 to the target, raising the target's load to
1/2 inside `nodes_by_load`, right below host 2 with load 1/10: the deferred `std::push_heap` of
host 1 (lines 331-333) is then called on a range whose first part is no heap of `nodes_cmp`. -/
theorem pushHeap_precondition_fails :
    ∃ env s0 d, prepare skewedSnapshot 0 = .ok (.run env s0) ∧ body env 0 s0 = .ok (some d) ∧
      d.pushNode = true ∧
      ¬ IsHeap (nodesCmp (if d.pushShard then d.state.pushShardOf d.srcHost else d.state).nodes)
        d.state.nodesByLoad (d.state.nodesByLoad.length - 1) :=
  ⟨_, _, _, rfl, rfl, rfl, by decide⟩

end TabletLoadBalancer
