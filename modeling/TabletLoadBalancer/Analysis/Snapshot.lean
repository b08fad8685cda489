import TabletLoadBalancer.Analysis.LoopEmit

/-!
# Reading the snapshot

The traversal `allReplicas` visits exactly the replicas of the tablet metadata (`HasReplica`),
because table ids are distinct; `findNode` finds exactly the topology's node of a host id,
because host ids are distinct. `dcNodes` are the nodes phase A selects. `PlanError.Reported`
says what each exception names in the snapshot. The last part gives the folds of `Except` that
phases A-D are the facts every phase proof uses: a fold that succeeds succeeded at each step and
keeps what each step keeps, and a fold fails only as its steps do.
-/

set_option autoImplicit false

namespace TabletLoadBalancer

/-- Whether `make_plan(dc)` balances a node: a normal node of `dc` (line 153). -/
def Selected (dc : DcName) (n : Node) : Bool := decide (n.state = .normal ∧ n.dc = dc)

/-- The normal nodes of datacenter `dc`: the hosts `make_plan(dc)` balances (lines 151-161). -/
def dcNodes (topo : Topology) (dc : DcName) : List Node := topo.nodes.filter (Selected dc)

theorem lookup_eq_some_of_mem {α β : Type} [DecidableEq α] {l : List (α × β)} {k : α} {b : β}
    (hmem : (k, b) ∈ l) (hnd : (l.map Prod.fst).Nodup) : l.lookup k = some b := by
  induction l with
  | nil => simp at hmem
  | cons p l ih =>
    obtain ⟨k', b'⟩ := p
    simp only [List.map_cons, List.nodup_cons, List.mem_map] at hnd
    rw [List.lookup_cons]
    by_cases hk : k = k'
    · subst hk
      rcases List.mem_cons.mp hmem with h | h
      · simp_all
      · exact absurd ⟨(k, b), h, rfl⟩ hnd.1
    · simp only [beq_false_of_ne hk]
      exact ih (by simpa [hk] using hmem) hnd.2

theorem mem_of_lookup_eq_some {α β : Type} [DecidableEq α] {l : List (α × β)} {k : α} {b : β}
    (h : l.lookup k = some b) : (k, b) ∈ l := by
  obtain ⟨l₁, l₂, rfl, -⟩ := List.lookup_eq_some_iff.mp h
  simp

/-- The traversal of all tables visits a replica exactly when it is one of its tablet's. -/
theorem mem_allReplicas {tm : TabletMetadata} {t : GlobalTabletId} {r : TabletReplica} :
    (t, r) ∈ tm.allReplicas ↔ tm.HasReplica t r := by
  simp only [TabletMetadata.allReplicas, TabletMap.replicasOf, List.mem_flatMap, List.mem_map,
    Prod.mk.injEq, TabletMetadata.HasReplica, TabletMetadata.tabletInfo, Option.bind_eq_some,
    TabletMetadata.findTabletMap, TabletMap.findTabletInfo]
  constructor
  · rintro ⟨⟨table, m⟩, hm, ⟨tid, info⟩, hi, r', hr', rfl, rfl⟩
    exact ⟨info, ⟨m, lookup_eq_some_of_mem hm tm.nodup, List.mem_enum_iff_getElem?.mp hi⟩, hr'⟩
  · rintro ⟨info, ⟨m, hm, hi⟩, hr⟩
    exact ⟨(t.table, m), mem_of_lookup_eq_some hm, (t.tablet, info),
      List.mem_enum_iff_getElem?.mpr hi, r, hr, rfl, rfl⟩

theorem find?_hostId_eq_some {l : List Node} (hnd : (l.map Node.hostId).Nodup) {n : Node}
    (hn : n ∈ l) : l.find? (·.hostId == n.hostId) = some n := by
  induction l with
  | nil => simp at hn
  | cons a l ih =>
    simp only [List.map_cons, List.nodup_cons, List.mem_map] at hnd
    rcases List.mem_cons.mp hn with rfl | h
    · simp [List.find?_cons]
    · have hne : a.hostId ≠ n.hostId := fun e => hnd.1 ⟨n, h, e.symm⟩
      rw [List.find?_cons]
      simp only [beq_false_of_ne hne]
      exact ih hnd.2 h

/-- `find_node` finds the topology's node of a host id, which is unique. -/
theorem findNode_eq_some {topo : Topology} {n : Node} (hn : n ∈ topo.nodes) :
    topo.findNode n.hostId = some n :=
  find?_hostId_eq_some topo.nodup hn

theorem findNode_mem {topo : Topology} {h : HostId} {n : Node} (hf : topo.findNode h = some n) :
    n ∈ topo.nodes ∧ n.hostId = h := by
  unfold Topology.findNode at hf
  exact ⟨List.mem_of_find?_eq_some hf, by simpa using List.find?_some hf⟩

/-! ## What an exception reports -/

/-- `e` is the failure of `topology::get_node` on the host of a replica of `tm`, a host its
topology does not know. -/
def PlanError.UnknownHost (tm : TokenMetadata) (e : PlanError) : Prop :=
  ∃ t r, tm.tablets.HasReplica t r ∧ tm.topology.findNode r.host = none ∧ e = .nodeNotFound r.host

/-- What an exception of `make_plan(dc)` says about the snapshot: the host of line 158 is a normal
node of `dc` without shards; the replica of line 173 is one of its tablet's, on a normal node of
`dc` that lacks the shard it names; the host `topology::get_node` fails on holds a replica and is
not in the topology. -/
def PlanError.Reported (tm : TokenMetadata) (dc : DcName) : PlanError → Prop
  | .shardCountNotFound h => ∃ n ∈ dcNodes tm.topology dc, n.hostId = h ∧ n.shardCount = 0
  | .nonExistentShard t r => tm.tablets.HasReplica t r ∧
      ∃ n ∈ dcNodes tm.topology dc, n.hostId = r.host ∧ n.shardCount ≤ r.shard
  | .nodeNotFound h => tm.topology.findNode h = none ∧ ∃ t r, tm.tablets.HasReplica t r ∧ r.host = h
  | _ => False

theorem PlanError.UnknownHost.reported {tm : TokenMetadata} {e : PlanError} (dc : DcName)
    (h : e.UnknownHost tm) : e.Reported tm dc := by
  obtain ⟨t, r, hr, hf, rfl⟩ := h
  exact ⟨hf, t, r, hr, rfl⟩

theorem PlanError.Reported.thrown {tm : TokenMetadata} {dc : DcName} {e : PlanError}
    (h : e.Reported tm dc) : e.Thrown := by
  cases e with
  | shardCountNotFound | nonExistentShard | nodeNotFound => trivial
  | noTabletMap | undefined | outOfFuel => exact h.elim

/-! ## Folds in `Except` -/

@[simp] theorem foldlM_cons_eq_ok {α β ε : Type} {f : β → α → Except ε β} {a : α} {l : List α}
    {b b' : β} : (a :: l).foldlM f b = .ok b' ↔ ∃ c, f b a = .ok c ∧ l.foldlM f c = .ok b' := by
  simp [List.foldlM_cons]

/-- A fold over elements of `S` whose steps, from states satisfying `P`, fail only with errors
satisfying `Q` and keep `P`, fails only with errors satisfying `Q`. -/
theorem foldlM_eq_error {α β ε : Type} {f : β → α → Except ε β} (P : β → Prop) (Q : ε → Prop)
    (S : List α)
    (hstep : ∀ b a, a ∈ S → P b → (∀ e, f b a = .error e → Q e) ∧ ∀ c, f b a = .ok c → P c) :
    ∀ (l : List α), l ⊆ S → ∀ (b : β), P b → ∀ e, l.foldlM f b = .error e → Q e
  | [], _, b, _, e, h => by cases h
  | a :: l, hl, b, hb, e, h => by
    have ha := hstep b a (hl (List.mem_cons_self _ _)) hb
    rw [List.foldlM_cons, except_bind_eq_error] at h
    rcases h with h | ⟨c, hc, h⟩
    · exact ha.1 e h
    · exact foldlM_eq_error P Q S hstep l (fun x hx => hl (List.mem_cons_of_mem _ hx)) c
        (ha.2 c hc) e h

/-- A fold over elements of `S` whose steps keep `P` ends in a state satisfying `P`. -/
theorem foldlM_inv {α β ε : Type} {f : β → α → Except ε β} (P : β → Prop) (S : List α)
    (hstep : ∀ b a c, a ∈ S → P b → f b a = .ok c → P c) :
    ∀ (l : List α), l ⊆ S → ∀ (b c : β), P b → l.foldlM f b = .ok c → P c
  | [], _, b, c, hb, h => by
    simp only [List.foldlM_nil, pure, Except.pure, Except.ok.injEq] at h
    exact h ▸ hb
  | a :: l, hl, b, c, hb, h => by
    obtain ⟨d, hd, h⟩ := foldlM_cons_eq_ok.mp h
    exact foldlM_inv P S hstep l (fun x hx => hl (List.mem_cons_of_mem _ hx)) d c
      (hstep b a d (hl (List.mem_cons_self _ _)) hb hd) h

end TabletLoadBalancer
