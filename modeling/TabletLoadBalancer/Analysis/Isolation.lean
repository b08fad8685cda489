import TabletLoadBalancer.Analysis.Prepare

/-!
# `make_plan(dc)` sees little of the other datacenters

`make_plan(dc)` reads the topology in three places: phase A keeps the normal nodes of `dc`
(lines 151-161), the target's rack and shard count are looked up once (lines 227-228), and the
replica-placement checks call `get_node` on every replica of a candidate tablet, wherever it
lives, for its datacenter and rack (lines 353-366). Nothing else of a node of another
datacenter is read: neither its state nor its shard count.

`SameForDc dc tm tm'` says that two snapshots agree on what `make_plan(dc)` can see: the same
tablets, the same normal nodes of `dc` in the same order, and every host placed alike
(`Node.place`). One lemma per reading of the topology says that such snapshots give the same
answer (`getNode_frame`, `scanReplicas_frame`, `passesConstraints_frame`), the loop lemmas carry
that through a run (`balanceLoop_frame`, by induction on the fuel), and
`makePlanDc_dc_isolated` is the statement for `make_plan(dc)`: draining a node of another
datacenter, or changing its shard count, leaves the plan of `dc` as it was, failures included.
-/

set_option autoImplicit false

namespace TabletLoadBalancer

/-- Where a node sits: its host, datacenter and rack. -/
def Node.place (n : Node) : HostId × DcName × RackName := (n.hostId, n.dc, n.rack)

theorem Node.place_eq {n n' : Node} (h : n.place = n'.place) :
    n.hostId = n'.hostId ∧ n.dc = n'.dc ∧ n.rack = n'.rack := by
  simpa only [Node.place, Prod.mk.injEq] using h

/-- Two snapshots `make_plan(dc)` cannot tell apart: the same tablets, the same normal nodes of
`dc` in the same order, and the same hosts at the same places. -/
structure SameForDc (dc : DcName) (tm tm' : TokenMetadata) : Prop where
  tablets : tm'.tablets = tm.tablets
  nodes : dcNodes tm.topology dc = dcNodes tm'.topology dc
  places : (tm.topology.nodes.map Node.place).Perm (tm'.topology.nodes.map Node.place)

/-- A host found in one topology is found, at the same place, in any topology with the same
places. -/
theorem findNode_of_places {t t' : Topology}
    (hp : (t.nodes.map Node.place).Perm (t'.nodes.map Node.place)) {h : HostId} {n : Node}
    (hn : t.findNode h = some n) : ∃ n', t'.findNode h = some n' ∧ n'.place = n.place := by
  obtain ⟨hmem, rfl⟩ := findNode_mem hn
  obtain ⟨n', hn', he⟩ := List.mem_map.mp (hp.subset (List.mem_map_of_mem Node.place hmem))
  exact ⟨n', (Node.place_eq he).1 ▸ findNode_eq_some hn', he⟩

theorem SameForDc.findNode_place {dc : DcName} {tm tm' : TokenMetadata} (hs : SameForDc dc tm tm')
    (h : HostId) :
    (tm.topology.findNode h).map Node.place = (tm'.topology.findNode h).map Node.place := by
  cases ht : tm.topology.findNode h with
  | none =>
    cases ht' : tm'.topology.findNode h with
    | none => rfl
    | some n' =>
      obtain ⟨n, hn, -⟩ := findNode_of_places hs.places.symm ht'
      cases ht.symm.trans hn
  | some n =>
    obtain ⟨n', hn', he⟩ := findNode_of_places hs.places ht
    rw [hn']
    exact congrArg some he.symm

/-- `get_node` on two topologies placing every host alike, followed by what reads only the place
of the node it returns: the same failure, or the same result. -/
theorem getNode_frame {t t' : Topology}
    (hp : ∀ h, (t.findNode h).map Node.place = (t'.findNode h).map Node.place)
    {β : Type} (h : HostId) {f : Node → Except PlanError β}
    (hf : ∀ n n', n.place = n'.place → f n = f n') : getNode t h >>= f = getNode t' h >>= f := by
  have := hp h
  unfold getNode
  cases ht : t.findNode h <;> cases ht' : t'.findNode h <;>
    simp only [ht, ht', Option.map_none', Option.map_some', reduceCtorEq, Option.some.injEq] at this ⊢
  exact hf _ _ this

/-- The replica scan reads of each replica's node its datacenter and rack. -/
theorem scanReplicas_frame {t t' : Topology}
    (hp : ∀ h, (t.findNode h).map Node.place = (t'.findNode h).map Node.place)
    (dc : DcName) (target : HostId) (sameRack : Bool) :
    ∀ (rs : List TabletReplica) (acc : List RackName),
      scanReplicas t dc target sameRack rs acc = scanReplicas t' dc target sameRack rs acc
  | [], _ => rfl
  | r :: rs, acc => by
    have ih := fun acc' => scanReplicas_frame hp dc target sameRack rs acc'
    unfold scanReplicas
    split_ifs
    · rfl
    · exact ih acc
    · simp only [ih]
      exact getNode_frame hp r.host fun n n' he => by
        rw [(Node.place_eq he).2.1, (Node.place_eq he).2.2]

theorem passesConstraints_frame {env env' : LoopEnv} (hdc : env'.dc = env.dc)
    (htarget : env'.target = env.target) (hrack : env'.targetRack = env.targetRack)
    (htab : env'.tm.tablets = env.tm.tablets)
    (hp : ∀ h, (env.tm.topology.findNode h).map Node.place =
      (env'.tm.topology.findNode h).map Node.place) (t : GlobalTabletId) (src : HostId) :
    passesConstraints env t src = passesConstraints env' t src := by
  unfold passesConstraints
  rw [htab, hdc, htarget, hrack]
  simp only [scanReplicas_frame hp]
  exact getNode_frame hp src fun n n' he => by rw [(Node.place_eq he).2.2]

section Loop

/-! The loop reads its environment through the placement checks, the target host and the batch
size only. -/

variable {env env' : LoopEnv} (htarget : env'.target = env.target)
  (hpc : ∀ t src, passesConstraints env t src = passesConstraints env' t src)

include htarget in
theorem emit_frame (s : LoopState) (nodes : NodeMap) (nbl : List HostId) (src : HostId)
    (sh : ShardId) (t : GlobalTabletId) :
    emit env s nodes nbl src sh t = emit env' s nodes nbl src sh t := by
  unfold emit
  rw [htarget]

include htarget hpc in
theorem pickCandidate_frame (pick : Nat) (s : LoopState) (nbl : List HostId) (src : HostId) :
    pickCandidate env pick s nbl src = pickCandidate env' pick s nbl src := by
  unfold pickCandidate
  simp only [hpc, emit_frame htarget]

include htarget hpc in
theorem body_frame (pick : Nat) (s : LoopState) : body env pick s = body env' pick s := by
  unfold body
  simp only [pickCandidate_frame htarget hpc, htarget]

include htarget hpc in
theorem balanceLoop_frame (hbs : env'.batchSize = env.batchSize) (choose : Nat → Nat) :
    ∀ fuel s, balanceLoop env choose fuel s = balanceLoop env' choose fuel s
  | 0, s => by
    unfold balanceLoop
    simp only [LoopState.Continues, hbs]
  | fuel + 1, s => by
    unfold balanceLoop step
    simp only [LoopState.Continues, hbs, body_frame htarget hpc, balanceLoop_frame hbs choose fuel]

end Loop

/-- Phase A skips every node it does not select. -/
theorem foldlM_selectNode_filter (dc : DcName) : ∀ (l : List Node) (m : NodeMap),
    l.foldlM (selectNode dc) m = (l.filter (Selected dc)).foldlM (selectNode dc) m
  | [], _ => rfl
  | n :: l, m => by
    by_cases hn : n.state = .normal ∧ n.dc = dc
    · have hsel : Selected dc n = true := decide_eq_true hn
      simp only [List.filter_cons, hsel, if_true, List.foldlM_cons, foldlM_selectNode_filter dc l]
    · have hsel : Selected dc n = false := decide_eq_false hn
      simp only [List.filter_cons, hsel, Bool.false_eq_true, if_false, List.foldlM_cons, selectNode,
        if_neg hn, pure_bind, foldlM_selectNode_filter dc l]

theorem selectNodes_dcNodes (topo : Topology) (dc : DcName) (m : NodeMap) :
    topo.nodes.foldlM (selectNode dc) m = (dcNodes topo dc).foldlM (selectNode dc) m :=
  foldlM_selectNode_filter dc topo.nodes m

/-- Two computations that agree after every successful first step agree. -/
theorem bind_congr_ok {ε α β : Type} {x : Except ε α} {f g : α → Except ε β}
    (h : ∀ a, x = .ok a → f a = g a) : x >>= f = x >>= g := by
  cases x with
  | error e => rfl
  | ok a => exact h a rfl

variable {tm tm' : TokenMetadata} {dc : DcName}

/-- Two snapshots that agree on what `make_plan(dc)` can see give the same plan for `dc`, or the
same failure: the states and shard counts of the other datacenters' nodes are never read. -/
theorem makePlanDc_dc_isolated (choose : Nat → Nat) (hs : SameForDc dc tm tm') :
    makePlanDc tm choose dc = makePlanDc tm' choose dc := by
  unfold makePlanDc prepare
  rw [selectNodes_dcNodes tm.topology, selectNodes_dcNodes tm'.topology, hs.nodes, hs.tablets]
  simp only [bind_assoc]
  refine bind_congr_ok fun m1 h1 => bind_congr_ok fun m2 h2 =>
    bind_congr_ok fun ⟨m3, mx, mn, mnode⟩ h3 => ?_
  dsimp only
  split_ifs with hmx
  · rfl
  rcases mnode with _ | target
  · rfl
  -- the target is a normal node of `dc`, the same one in both snapshots
  rw [← selectNodes_dcNodes] at h1
  rw [← hs.tablets] at h2
  obtain ⟨n, hn, rfl⟩ := scannedTarget_mem h1 h2 h3 rfl
  have hn' : n ∈ tm.topology.nodes := (List.mem_filter.mp (hs.nodes ▸ hn)).1
  simp only [pure_bind, bind_assoc, findNode_eq_some hn', findNode_eq_some (List.mem_filter.mp hn).1]
  refine bind_congr_ok fun o _ => ?_
  rcases o with _ | nodes
  · rfl
  simp only [pure_bind]
  refine congrArg (· >>= _) (balanceLoop_frame ?_ ?_ ?_ _ _ _)
  exacts [rfl, passesConstraints_frame rfl rfl rfl hs.tablets hs.findNode_place, rfl]

/-- Two datacenters sharing a tablet; in the second snapshot the node of datacenter 1 is drained
and has lost shards. -/
def twoDcSnapshot : TokenMetadata where
  topology := ⟨[⟨1, 0, 0, .normal, 1⟩, ⟨2, 0, 1, .normal, 2⟩, ⟨4, 1, 0, .normal, 4⟩], by decide⟩
  tablets := ⟨[(0, ⟨[⟨[⟨1, 0⟩, ⟨4, 0⟩]⟩, ⟨[⟨1, 0⟩]⟩, ⟨[⟨1, 0⟩]⟩], []⟩)], by decide⟩

def twoDcDrainedSnapshot : TokenMetadata :=
  { twoDcSnapshot with
    topology := ⟨[⟨1, 0, 0, .normal, 1⟩, ⟨2, 0, 1, .normal, 2⟩, ⟨4, 1, 0, .notNormal, 2⟩],
      by decide⟩ }

theorem makePlanDc_dc_isolated_drained :
    SameForDc 0 twoDcSnapshot twoDcDrainedSnapshot ∧
      makePlanDc twoDcSnapshot (fun _ => 0) 0 = makePlanDc twoDcDrainedSnapshot (fun _ => 0) 0 :=
  have hs : SameForDc 0 twoDcSnapshot twoDcDrainedSnapshot := ⟨rfl, by decide, .of_eq rfl⟩
  ⟨hs, makePlanDc_dc_isolated (fun _ => 0) hs⟩

end TabletLoadBalancer
