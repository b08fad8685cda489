import Mathlib.Algebra.Order.BigOperators.Group.List
import TabletLoadBalancer.Analysis.Snapshot

/-!
# The state phases A-E leave

Each phase is a fold, and each gets one lemma that says what its fold computes from what it
starts with: phase A gives every normal node of the datacenter an entry with its shard count
(`selectNodes_eq_ok`), phase B counts each host's replicas and checks their shards
(`countReplicas_eq_ok`), phase C sets the loads and finds the least-loaded host
(`scanLoads_eq_ok`), phase D builds the per-shard counts, candidate sets and heap vectors
(`addCandidates_eq_ok`), phase E makes the heaps. `prepare_eq_run` puts them together: the loop
starts in a state satisfying `LoopInv`, with the least-loaded host as its target; and
`prepare_eq_error` shows that the phases fail only with the two exceptions they throw, each naming
what it reports.
-/

set_option autoImplicit false

namespace TabletLoadBalancer

/-! ## Phase A -/

/-- The entry phase A gives a selected node: its shard count and that many empty shards. -/
def initialEntry (n : Node) : NodeLoad :=
  { (default : NodeLoad) with shardCount := n.shardCount, shards := resize [] n.shardCount }

theorem NodeMap.insert_get (m : NodeMap) (h h' : HostId) (n : NodeLoad) :
    (m.insert h n).get h' = if h' = h then n else m.get h' := by
  simp [NodeMap.insert, Function.update_apply]

/-- Phase A over the nodes `l`: the selected nodes are appended to the keys, each with its
initial entry and a positive shard count, and no other entry changes. -/
theorem selectNodes_eq_ok {dc : DcName} :
    ∀ (l : List Node) (m m' : NodeMap), (l.map Node.hostId).Nodup →
      (∀ n ∈ l, n.hostId ∉ m.keys ∧ m.get n.hostId = default) →
      l.foldlM (selectNode dc) m = .ok m' →
      m'.keys = m.keys ++ (l.filter (Selected dc)).map Node.hostId ∧
      (∀ n ∈ l.filter (Selected dc), m'.get n.hostId = initialEntry n ∧ 0 < n.shardCount) ∧
      ∀ h, h ∉ (l.filter (Selected dc)).map Node.hostId → m'.get h = m.get h
  | [], m, m', _, _, h => by
    simp only [List.foldlM_nil, except_pure_eq_ok] at h
    subst h; simp
  | a :: l, m, m', hnd, hfresh, h => by
    simp only [List.map_cons, List.nodup_cons, List.mem_map] at hnd
    simp only [foldlM_cons_eq_ok] at h
    obtain ⟨c, hc, h⟩ := h
    have hfa := hfresh a (List.mem_cons_self _ _)
    by_cases hsel : Selected dc a = true
    · have hsel' : a.state = .normal ∧ a.dc = dc := by simpa [Selected] using hsel
      unfold selectNode at hc
      rw [if_pos hsel'] at hc
      by_cases hz : a.shardCount = 0
      · simp [hz] at hc
      simp only [hz, if_false, except_pure_eq_ok] at hc
      subst hc
      have hne : ∀ n ∈ l, n.hostId ≠ a.hostId := fun n hn e => hnd.1 ⟨n, hn, e⟩
      obtain ⟨hk, hget, hrest⟩ := selectNodes_eq_ok l _ m' hnd.2 (fun n hn => ⟨by
        simp [NodeMap.insert, hfa.1, hne n hn, (hfresh n (List.mem_cons_of_mem _ hn)).1], by
        rw [NodeMap.insert_get, if_neg (hne n hn), (hfresh n (List.mem_cons_of_mem _ hn)).2]⟩) h
      have hentry : m'.get a.hostId = initialEntry a := by
        rw [hrest _ (by simpa using fun n _ _ e => hne n ‹_› e), NodeMap.insert_get, if_pos rfl,
          hfa.2]; rfl
      refine ⟨by simp [hk, NodeMap.insert, hfa.1, List.filter_cons, hsel], fun n hn => ?_,
        fun h' hh' => ?_⟩
      · rw [List.filter_cons, if_pos hsel, List.mem_cons] at hn
        rcases hn with rfl | hn
        · exact ⟨hentry, Nat.pos_of_ne_zero hz⟩
        · exact hget n hn
      · rw [List.filter_cons, if_pos hsel, List.map_cons, List.mem_cons, not_or] at hh'
        rw [hrest h' hh'.2, NodeMap.insert_get, if_neg hh'.1]
    · have hc' : c = m := by
        unfold selectNode at hc
        rw [if_neg (by simpa [Selected] using hsel)] at hc
        exact ((except_pure_eq_ok _ _).mp hc).symm
      subst hc'
      obtain ⟨hk, hget, hrest⟩ := selectNodes_eq_ok l c m' hnd.2
        (fun n hn => hfresh n (List.mem_cons_of_mem _ hn)) h
      simp only [List.filter_cons, hsel, if_false, Bool.false_eq_true]
      exact ⟨hk, hget, hrest⟩

/-- Phase A fails only on a balanced node without shards, naming it. -/
theorem selectNode_eq_error {dc : DcName} {m : NodeMap} {n : Node} {e : PlanError}
    (h : selectNode dc m n = .error e) :
    e = .shardCountNotFound n.hostId ∧ Selected dc n = true ∧ n.shardCount = 0 := by
  unfold selectNode at h; dsimp only at h
  split_ifs at h with hsel hz <;> cases h
  exact ⟨rfl, by simpa [Selected] using hsel, hz⟩

/-! ## Phase B -/

/-- Phase B over the replicas `l`: every balanced host's count grows by its replicas in `l`, and
every replica on a balanced host names one of its shards. -/
theorem countReplicas_eq_ok :
    ∀ (l : List (GlobalTabletId × TabletReplica)) (m m' : NodeMap),
      l.foldlM countReplica m = .ok m' →
      m'.keys = m.keys ∧
      (∀ h ∈ m.keys, m'.get h = { m.get h with
        tabletCount := (m.get h).tabletCount + (l.filter fun r => r.2.host = h).length }) ∧
      ∀ r ∈ l, r.2.host ∈ m.keys → r.2.shard < (m.get r.2.host).shardCount
  | [], m, m', h => by
    simp only [List.foldlM_nil, except_pure_eq_ok] at h
    subst h; simp
  | r :: l, m, m', h => by
    simp only [foldlM_cons_eq_ok] at h
    obtain ⟨c, hc, h⟩ := h
    unfold countReplica at hc
    by_cases hk : r.2.host ∈ m.keys
    · by_cases hs : (m.get r.2.host).shardCount ≤ r.2.shard
      · simp [hk, hs] at hc
      simp only [hk, if_true, NodeMap.modify_get, hs, if_false, except_pure_eq_ok] at hc
      subst hc
      obtain ⟨hk', hget, hsh⟩ := countReplicas_eq_ok l _ m' h
      refine ⟨hk', fun h' hh' => ?_, fun r' hr' hk'' => ?_⟩
      · rw [hget h' hh', NodeMap.modify_get]
        by_cases e : h' = r.2.host
        · subst e; simp [List.filter_cons]; omega
        · simp [List.filter_cons, e, Ne.symm e]
      · rcases List.mem_cons.mp hr' with rfl | hr'
        · exact not_le.mp hs
        · have := hsh r' hr' hk''
          rw [NodeMap.modify_get] at this
          split_ifs at this with e
          · rw [e]; exact this
          · exact this
    · rw [if_neg hk, except_pure_eq_ok] at hc
      subst hc
      obtain ⟨hk', hget, hsh⟩ := countReplicas_eq_ok l m m' h
      refine ⟨hk', fun h' hh' => ?_, fun r' hr' hk'' => ?_⟩
      · rw [hget h' hh', List.filter_cons,
          if_neg (by simp only [decide_eq_true_eq]; rintro rfl; exact hk hh')]
      · rcases List.mem_cons.mp hr' with rfl | hr'
        · exact absurd hk'' hk
        · exact hsh r' hr' hk''

/-- Phase B fails only on a replica that names a shard its balanced host lacks, naming the
replica. -/
theorem countReplica_eq_error {m : NodeMap} {r : GlobalTabletId × TabletReplica} {e : PlanError}
    (h : countReplica m r = .error e) :
    e = .nonExistentShard r.1 r.2 ∧ r.2.host ∈ m.keys ∧ (m.get r.2.host).shardCount ≤ r.2.shard := by
  unfold countReplica at h; dsimp only at h
  split_ifs at h with hk hs <;> cases h
  exact ⟨rfl, hk, by simpa using hs⟩

/-- A step of phase B changes no host's shard count. -/
theorem countReplica_keep {m m' : NodeMap} {r : GlobalTabletId × TabletReplica}
    (h : countReplica m r = .ok m') :
    m'.keys = m.keys ∧ ∀ x, (m'.get x).shardCount = (m.get x).shardCount := by
  unfold countReplica at h; dsimp only at h
  split_ifs at h <;> cases h
  · exact ⟨NodeMap.modify_keys _ _ _, fun x => by rw [NodeMap.modify_get]; split_ifs with hx <;> simp only [hx]⟩
  · exact ⟨rfl, fun _ => rfl⟩

/-! ## Phase C -/

/-- What phase C knows once it has scanned the hosts `P`: their loads are set, the running
maximum bounds them, and the least-loaded host, found as soon as one host was scanned, has the
least load among them. -/
structure Scanned (acc : MinMax) (P : List HostId) : Prop where
  loaded : ∀ h ∈ P, (acc.1.get h).avgLoad =
    mkRat (acc.1.get h).tabletCount (acc.1.get h).shardCount
  max : ∀ h ∈ P, (acc.1.get h).avgLoad ≤ acc.2.1
  found : P ≠ [] → acc.2.2.2 ≠ none
  least : ∀ t, acc.2.2.2 = some t → t ∈ P ∧ acc.2.2.1 = (acc.1.get t).avgLoad ∧
    ∀ h ∈ P, (acc.1.get t).avgLoad ≤ (acc.1.get h).avgLoad

theorem scanned_nil (m : NodeMap) : Scanned (m, 0, 0, none) [] :=
  ⟨nofun, nofun, fun h => absurd rfl h, fun _ h => by cases h⟩

/-- One host scanned: only its load changes, and only `update()` can fail. -/
theorem scanLoad_keep {acc acc' : MinMax} {x : HostId} (h : scanLoad acc x = .ok acc') :
    acc'.1.keys = acc.1.keys ∧ ∀ h, (acc'.1.get h).shardCount = (acc.1.get h).shardCount := by
  simp only [scanLoad, except_bind_eq_ok, update_eq_ok, except_pure_eq_ok] at h
  obtain ⟨_, ⟨-, rfl⟩, rfl⟩ := h
  refine ⟨rfl, fun h => ?_⟩
  simp only [NodeMap.modify_get]
  split_ifs with e
  · rw [e]
  · rfl

/-- One host scanned: only its load changes, to its count over its shards. -/
theorem scanLoad_eq_ok {acc acc' : MinMax} {x : HostId} {P : List HostId} (hs : Scanned acc P)
    (h : scanLoad acc x = .ok acc') :
    Scanned acc' (P ++ [x]) ∧ acc'.1.keys = acc.1.keys ∧
      ∀ h, ∃ q, acc'.1.get h = { acc.1.get h with avgLoad := q } := by
  simp only [scanLoad, except_bind_eq_ok, update_eq_ok, except_pure_eq_ok] at h
  obtain ⟨_, ⟨-, rfl⟩, rfl⟩ := h
  set L : NodeLoad := { acc.1.get x with
    avgLoad := mkRat (acc.1.get x).tabletCount (acc.1.get x).shardCount } with hL
  have hget : ∀ h, (acc.1.modify x fun _ => L).get h = if h = x then L else acc.1.get h :=
    fun h => NodeMap.modify_get _ _ _ _
  have hold : ∀ h ∈ P, ((acc.1.modify x fun _ => L).get h).avgLoad = (acc.1.get h).avgLoad := by
    intro h hh
    rw [hget]; split_ifs with e
    · subst e; exact (hs.loaded h hh).symm
    · rfl
  have hnew : ((acc.1.modify x fun _ => L).get x).avgLoad = L.avgLoad := by rw [hget, if_pos rfl]
  have hmem : ∀ h, h ∈ P ++ [x] → h ∈ P ∨ h = x := fun h hh => by simpa using hh
  refine ⟨⟨fun h hh => ?_, fun h hh => ?_, fun _ => ?_, fun t ht => ?_⟩, rfl, fun h => ?_⟩
  · rw [hget]; split_ifs with e
    · rfl
    · exact hs.loaded h ((hmem h hh).resolve_right e)
  · dsimp only
    rcases hmem h hh with hh | rfl
    · rw [hold h hh]; split_ifs with hlt
      · exact le_trans (hs.max h hh) (le_of_lt hlt)
      · exact hs.max h hh
    · rw [hnew]; split_ifs with hlt
      · exact le_rfl
      · exact not_lt.mp hlt
  · dsimp only; split_ifs <;> simp_all
  · dsimp only at ht ⊢
    split_ifs at ht ⊢ with hc
    · simp only [Option.some.injEq] at ht
      subst ht
      refine ⟨by simp, hnew.symm, fun h hh => ?_⟩
      rcases hmem h hh with hh | rfl
      · rw [hnew, hold h hh]
        rcases hc with hc | hc
        · exact absurd hc (hs.found (List.ne_nil_of_mem hh))
        · obtain ⟨t', ht'⟩ := Option.ne_none_iff_exists'.mp (hs.found (List.ne_nil_of_mem hh))
          obtain ⟨-, hmin, hle⟩ := hs.least t' ht'
          rw [hmin] at hc
          exact le_trans (le_of_lt hc) (hle h hh)
      · exact le_rfl
    · obtain ⟨htP, hmin, hle⟩ := hs.least t ht
      have hxt := not_or.mp hc
      refine ⟨List.mem_append_left _ htP, by rw [hold t htP]; exact hmin, fun h hh => ?_⟩
      rw [hold t htP]
      rcases hmem h hh with hh | rfl
      · rw [hold h hh]; exact hle h hh
      · rw [hnew, ← hmin]; exact not_lt.mp hxt.2
  · rw [hget]; split_ifs with e
    · subst e; exact ⟨_, rfl⟩
    · exact ⟨(acc.1.get h).avgLoad, rfl⟩

/-- Phase C over the hosts `l`, from a state that has scanned `P`. -/
theorem scanLoads_eq_ok :
    ∀ (l P : List HostId) (acc acc' : MinMax), Scanned acc P → l.foldlM scanLoad acc = .ok acc' →
      Scanned acc' (P ++ l) ∧ acc'.1.keys = acc.1.keys ∧
        ∀ h, ∃ q, acc'.1.get h = { acc.1.get h with avgLoad := q }
  | [], P, acc, acc', hs, h => by
    simp only [List.foldlM_nil, except_pure_eq_ok] at h
    subst h
    exact ⟨by simpa using hs, rfl, fun h => ⟨_, rfl⟩⟩
  | x :: l, P, acc, acc', hs, h => by
    simp only [foldlM_cons_eq_ok] at h
    obtain ⟨c, hc, h⟩ := h
    obtain ⟨hs', hk, hq⟩ := scanLoad_eq_ok hs hc
    obtain ⟨hs'', hk', hq'⟩ := scanLoads_eq_ok l _ c acc' hs' h
    refine ⟨by simpa using hs'', hk'.trans hk, fun h => ?_⟩
    obtain ⟨q, hq⟩ := hq h
    obtain ⟨q', hq'⟩ := hq' h
    exact ⟨q', by rw [hq', hq]⟩

theorem scanLoad_ne_error (acc : MinMax) (x : HostId) (hx : (acc.1.get x).shardCount ≠ 0)
    (e : PlanError) : scanLoad acc x ≠ .error e := by
  simp [scanLoad, NodeLoad.update, NodeLoad.getAvgLoad, hx, bind, Except.bind, pure, Except.pure]

/-! ## Phase D -/

theorem NodeMap.modify_congr {m : NodeMap} {h : HostId} {f g : NodeLoad → NodeLoad}
    (e : f (m.get h) = g (m.get h)) : m.modify h f = m.modify h g := by
  unfold NodeMap.modify; rw [e]

/-- What phase D does to the entry of a replica's host (lines 243-250). -/
def NodeLoad.addCandidate (n : NodeLoad) (r : GlobalTabletId × TabletReplica) : NodeLoad :=
  let s := n.shards.getD r.2.shard default
  { n with
    shardsByLoad := if s.tabletCount = 0 then n.shardsByLoad ++ [r.2.shard] else n.shardsByLoad
    shards := n.shards.set r.2.shard ⟨s.tabletCount + 1, s.candidates.insert r.1⟩ }

theorem addCandidate_eq_ok {m m' : NodeMap} {r : GlobalTabletId × TabletReplica}
    (h : addCandidate m r = .ok m') :
    m' = (if r.2.host ∈ m.keys then m.modify r.2.host (·.addCandidate r) else m) ∧
      (r.2.host ∈ m.keys → r.2.shard < (m.get r.2.host).shards.length) := by
  unfold addCandidate at h
  by_cases hk : r.2.host ∈ m.keys
  · rw [if_pos hk] at h
    rw [if_pos hk]
    rcases hsh : (m.get r.2.host).shards[r.2.shard]? with _ | s <;>
      simp only [hsh, except_bind_eq_ok, except_pure_eq_ok] at h
    · obtain ⟨_, h, -⟩ := h; exact absurd h (except_throw_ne_ok _ _)
    · obtain ⟨_, rfl, rfl⟩ := h
      obtain ⟨hlt, hs⟩ := List.getElem?_eq_some_iff.mp hsh
      refine ⟨?_, fun _ => hlt⟩
      have : (m.get r.2.host).shards.getD r.2.shard default = s := by
        simp [List.getD_eq_getElem?_getD, hsh]
      exact NodeMap.modify_congr (by simp only [NodeLoad.addCandidate, this])
  · rw [if_neg hk, except_pure_eq_ok] at h
    exact ⟨by rw [if_neg hk, h], fun h => absurd h hk⟩

theorem addCandidate_ne_error (m : NodeMap) (r : GlobalTabletId × TabletReplica)
    (hr : r.2.host ∈ m.keys → r.2.shard < (m.get r.2.host).shards.length)
    (e : PlanError) : addCandidate m r ≠ .error e := by
  unfold addCandidate
  split_ifs with hk
  · rw [List.getElem?_eq_getElem (hr hk)]
    simp [bind, Except.bind, pure, Except.pure]
  · simp [pure, Except.pure]

/-- Phase D over the replicas `l`: every balanced host's entry has the candidates of its
replicas in `l` added, in order. -/
theorem addCandidates_eq_ok :
    ∀ (l : List (GlobalTabletId × TabletReplica)) (m m' : NodeMap),
      l.foldlM addCandidate m = .ok m' →
      m'.keys = m.keys ∧
      ∀ h ∈ m.keys, m'.get h = (l.filter fun r => r.2.host = h).foldl NodeLoad.addCandidate (m.get h)
  | [], m, m', h => by
    simp only [List.foldlM_nil, except_pure_eq_ok] at h
    subst h; simp
  | r :: l, m, m', h => by
    simp only [foldlM_cons_eq_ok] at h
    obtain ⟨c, hc, h⟩ := h
    obtain ⟨hc', -⟩ := addCandidate_eq_ok hc
    have hkeys : c.keys = m.keys := by rw [hc']; split_ifs <;> rfl
    obtain ⟨hk, hget⟩ := addCandidates_eq_ok l c m' h
    refine ⟨hk.trans hkeys, fun h' hh' => ?_⟩
    rw [hget h' (hkeys.symm ▸ hh'), List.filter_cons, hc']
    by_cases e : r.2.host = h'
    · subst e; simp [hh']
    · simp only [e, decide_False, Bool.false_eq_true, if_false]
      split_ifs
      · rw [NodeMap.modify_get, if_neg (Ne.symm e)]
      · rfl

/-- What phase D has built in an entry once it has added the replicas `acc` of its host: each
shard's count and candidates are those of its replicas, and the heap vector holds, once each,
the shards with tablets. -/
structure Built (n : NodeLoad) (acc : List (GlobalTabletId × TabletReplica)) : Prop where
  key : ∀ s, shardKey n s = (acc.filter fun r => r.2.shard = s).length
  cand : ∀ s t, t ∈ n.candidatesOf s ↔ (t, s) ∈ acc.map fun r => (r.1, r.2.shard)
  nodup : ∀ s, (n.candidatesOf s).Nodup
  cand_le : ∀ s, (n.candidatesOf s).length ≤ shardKey n s
  sbl : ∀ s, s ∈ n.shardsByLoad ↔ 0 < shardKey n s
  sbl_nodup : n.shardsByLoad.Nodup
  total : (n.shards.map fun sh => sh.tabletCount).sum = acc.length
  elem_le : ∀ sh ∈ n.shards, sh.candidates.length ≤ sh.tabletCount

theorem length_insert_le_succ {α : Type} [DecidableEq α] (l : List α) (a : α) :
    (l.insert a).length ≤ l.length + 1 := by
  by_cases h : a ∈ l <;> simp [h]

theorem sum_map_set {α : Type} (g : α → Nat) (d : α) :
    ∀ (l : List α) (i : Nat) (a : α), i < l.length →
      ((l.set i a).map g).sum + g (l.getD i d) = (l.map g).sum + g a
  | [], _, _, h => absurd h (Nat.not_lt_zero _)
  | b :: l, 0, a, _ => by simp; omega
  | b :: l, i + 1, a, h => by
    have := sum_map_set g d l i a (by simpa using h)
    simp only [List.set_cons_succ, List.map_cons, List.sum_cons, List.getD_cons_succ]
    omega

section Entry

variable {n : NodeLoad} {r : GlobalTabletId × TabletReplica}

theorem shardKey_addCandidate (hr : r.2.shard < n.shards.length) (s : ShardId) :
    shardKey (n.addCandidate r) s = if r.2.shard = s then shardKey n s + 1 else shardKey n s := by
  simp only [shardKey, NodeLoad.addCandidate]
  split_ifs with e
  · subst e; rw [getD_set_self _ _ _ hr]
  · rw [getD_set_ne _ _ _ e]

theorem candidatesOf_addCandidate (hr : r.2.shard < n.shards.length) (s : ShardId) :
    (n.addCandidate r).candidatesOf s =
      if r.2.shard = s then (n.candidatesOf s).insert r.1 else n.candidatesOf s := by
  simp only [NodeLoad.candidatesOf, NodeLoad.addCandidate]
  split_ifs with e
  · subst e; rw [getD_set_self _ _ _ hr]
  · rw [getD_set_ne _ _ _ e]

/-- Adding one replica of the host keeps what phase D has built. -/
theorem Built.addCandidate {acc : List (GlobalTabletId × TabletReplica)} (hb : Built n acc)
    (hr : r.2.shard < n.shards.length) : Built (n.addCandidate r) (acc ++ [r]) := by
  have hk := shardKey_addCandidate hr
  have hc := candidatesOf_addCandidate hr
  have hsbl : (n.addCandidate r).shardsByLoad =
      if shardKey n r.2.shard = 0 then n.shardsByLoad ++ [r.2.shard] else n.shardsByLoad := rfl
  have hset : (n.addCandidate r).shards = n.shards.set r.2.shard
      ⟨(n.shards.getD r.2.shard default).tabletCount + 1,
        (n.shards.getD r.2.shard default).candidates.insert r.1⟩ := rfl
  have hin : n.shards.getD r.2.shard default ∈ n.shards := by
    rw [List.getD_eq_getElem?_getD, List.getElem?_eq_getElem hr]; exact List.getElem_mem hr
  refine ⟨fun s => ?_, fun s t => ?_, fun s => ?_, fun s => ?_, fun s => ?_, ?_, ?_, ?_⟩
  · rw [hk, hb.key]
    split_ifs with e <;> simp [List.filter_append, e]
  · rw [hc]
    split_ifs with e
    · subst e
      simp only [List.mem_insert_iff, hb.cand, List.mem_map, Prod.mk.injEq, Prod.exists,
        List.map_append, List.map_cons, List.map_nil, List.mem_append, List.mem_singleton,
        and_true, or_comm]
    · simp [hb.cand, Ne.symm e]
  · rw [hc]; split_ifs
    · exact (hb.nodup s).insert
    · exact hb.nodup s
  · rw [hc, hk]; split_ifs
    · have := hb.cand_le s
      by_cases hm : r.1 ∈ n.candidatesOf s
      · rw [List.length_insert_of_mem hm]; omega
      · rw [List.length_insert_of_not_mem hm]; omega
    · exact hb.cand_le s
  · rw [hsbl, hk]
    by_cases e : r.2.shard = s
    · subst e
      rw [if_pos rfl]
      split_ifs with h0
      · simp
      · rw [hb.sbl]; exact ⟨fun _ => Nat.succ_pos _, fun _ => Nat.pos_of_ne_zero h0⟩
    · rw [if_neg e]; split_ifs
      · simp [hb.sbl, Ne.symm e]
      · exact hb.sbl s
  · rw [hsbl]; split_ifs with h0
    · exact hb.sbl_nodup.append (List.nodup_singleton _)
        (List.disjoint_singleton.mpr fun hm => by have := (hb.sbl _).mp hm; omega)
    · exact hb.sbl_nodup
  · have := sum_map_set (fun sh : ShardLoad => sh.tabletCount) default n.shards r.2.shard
      ⟨(n.shards.getD r.2.shard default).tabletCount + 1,
        (n.shards.getD r.2.shard default).candidates.insert r.1⟩ hr
    rw [hset, List.length_append, List.length_singleton, ← hb.total]
    dsimp only at this ⊢
    omega
  · intro sh hsh
    rw [hset] at hsh
    rcases List.mem_or_eq_of_mem_set hsh with hsh | rfl
    · exact hb.elem_le sh hsh
    · have := hb.elem_le _ hin
      have := length_insert_le_succ (n.shards.getD r.2.shard default).candidates r.1
      dsimp only; omega

theorem Built.foldl : ∀ (l : List (GlobalTabletId × TabletReplica)) (n : NodeLoad) acc,
    Built n acc → (∀ r ∈ l, r.2.shard < n.shards.length) →
      Built (l.foldl NodeLoad.addCandidate n) (acc ++ l)
  | [], n, acc, hb, _ => by simpa using hb
  | r :: l, n, acc, hb, hl => by
    simpa using Built.foldl l _ _ (hb.addCandidate (hl r (List.mem_cons_self _ _)))
      fun r' hr' => by simpa [NodeLoad.addCandidate] using hl r' (List.mem_cons_of_mem _ hr')

/-- Phase D changes only the shards and the heap vector of an entry. -/
theorem foldl_addCandidate_fields (l : List (GlobalTabletId × TabletReplica)) (n : NodeLoad) :
    (l.foldl NodeLoad.addCandidate n).shardCount = n.shardCount ∧
      (l.foldl NodeLoad.addCandidate n).tabletCount = n.tabletCount ∧
      (l.foldl NodeLoad.addCandidate n).avgLoad = n.avgLoad ∧
      (l.foldl NodeLoad.addCandidate n).shards.length = n.shards.length := by
  induction l generalizing n with
  | nil => simp
  | cons r l ih =>
    obtain ⟨h1, h2, h3, h4⟩ := ih (n.addCandidate r)
    simp only [List.foldl_cons, h1, h2, h3, h4]
    simp [NodeLoad.addCandidate]

end Entry

/-- Phase D over all tables: when no table has pending transitions, the fold of `addCandidate`
over every replica; `none` otherwise. -/
theorem computeShardLoad_eq_some {tm : TabletMetadata} {nodes nodes' : NodeMap}
    (h : computeShardLoad tm nodes = .ok (some nodes')) :
    (∀ p ∈ tm.tables, p.2.transitions = []) ∧
      tm.allReplicas.foldlM addCandidate nodes = .ok nodes' := by
  have none_stays : ∀ L : List (TableId × TabletMap),
      L.foldlM addTableCandidates none = .ok none := by
    intro L
    induction L with
    | nil => rfl
    | cons p L ih => simpa [List.foldlM_cons, addTableCandidates] using ih
  have key : ∀ (L : List (TableId × TabletMap)) (n : NodeMap),
      L.foldlM addTableCandidates (some n) = .ok (some nodes') →
      (∀ p ∈ L, p.2.transitions = []) ∧
        (L.flatMap fun (table, m) => m.replicasOf table).foldlM addCandidate n = .ok nodes' := by
    intro L
    induction L with
    | nil =>
      intro n h
      simp only [List.foldlM_nil, except_pure_eq_ok, Option.some.injEq] at h
      subst h; simp
    | cons p L ih =>
      obtain ⟨table, m⟩ := p
      intro n h
      obtain ⟨c, hc, h⟩ := foldlM_cons_eq_ok.mp h
      simp only [addTableCandidates] at hc
      split_ifs at hc with ht
      · rw [except_pure_eq_ok] at hc
        subst hc
        rw [none_stays] at h
        cases h
      · obtain ⟨n1, h1, rfl⟩ := (except_map_eq_ok _ _ _).mp hc
        obtain ⟨hL, hf⟩ := ih n1 h
        refine ⟨fun q hq => ?_, ?_⟩
        · rcases List.mem_cons.mp hq with rfl | hq
          · simpa using ht
          · exact hL q hq
        · rw [List.flatMap_cons, List.foldlM_append]
          simp [h1, hf]
  exact key _ _ h

/-- Phase D stops early only at a table with pending transitions. -/
theorem computeShardLoad_ne_none {tm : TabletMetadata} {nodes : NodeMap}
    (hsettled : ∀ p ∈ tm.tables, p.2.transitions = []) : computeShardLoad tm nodes ≠ .ok none := by
  have key : ∀ L : List (TableId × TabletMap), (∀ p ∈ L, p.2.transitions = []) →
      ∀ n, L.foldlM addTableCandidates (some n) ≠ .ok none := by
    intro L
    induction L with
    | nil => intro _ n h; cases h
    | cons p L ih =>
      intro hL n h
      obtain ⟨c, hc, h⟩ := foldlM_cons_eq_ok.mp h
      simp only [addTableCandidates, hL p (List.mem_cons_self _ _), ne_eq, not_true_eq_false,
        if_false] at hc
      obtain ⟨n1, -, rfl⟩ := (except_map_eq_ok _ _ _).mp hc
      exact ih (fun q hq => hL q (List.mem_cons_of_mem _ hq)) n1 h
  exact key _ hsettled _

/-- Phase D does not fail when every replica on a balanced host names one of its shards. -/
theorem computeShardLoad_ne_error {tm : TabletMetadata} {nodes : NodeMap}
    (hr : ∀ r ∈ tm.allReplicas, r.2.host ∈ nodes.keys →
      r.2.shard < (nodes.get r.2.host).shards.length)
    (e : PlanError) : computeShardLoad tm nodes ≠ .error e := by
  let Q : NodeMap → Prop := fun n => n.keys = nodes.keys ∧
    ∀ h, (n.get h).shards.length = (nodes.get h).shards.length
  have hkeep : ∀ n r c, r ∈ tm.allReplicas → Q n → addCandidate n r = .ok c → Q c := by
    rintro n r c - ⟨hk, hl⟩ hc
    obtain ⟨rfl, -⟩ := addCandidate_eq_ok hc
    split_ifs
    · refine ⟨hk, fun h => ?_⟩
      rw [NodeMap.modify_get]
      split_ifs with e
      · rw [← hl h, e]; simp [NodeLoad.addCandidate]
      · exact hl h
    · exact ⟨hk, hl⟩
  have hsafe : ∀ n r, r ∈ tm.allReplicas → Q n →
      (∀ e, addCandidate n r = .error e → False) ∧ ∀ c, addCandidate n r = .ok c → Q c :=
    fun n r hr' hq => ⟨addCandidate_ne_error n r fun h => by
      rw [hq.2]; exact hr r hr' (hq.1 ▸ h), fun c => hkeep n r c hr' hq⟩
  refine foldlM_eq_error (fun acc => ∀ n, acc = some n → Q n) (fun _ => False) tm.tables ?_
    tm.tables (List.Subset.refl _) _ (fun n hn => by cases hn; exact ⟨rfl, fun _ => rfl⟩) e
  rintro (_ | n) ⟨table, m⟩ hp hacc
  · simp [addTableCandidates, pure, Except.pure]
  · have hsub : m.replicasOf table ⊆ tm.allReplicas := fun x hx =>
      List.mem_flatMap.mpr ⟨(table, m), hp, hx⟩
    simp only [addTableCandidates]
    split_ifs
    · simp [pure, Except.pure]
    · refine ⟨fun e he => ?_, fun c hc => ?_⟩
      · exact foldlM_eq_error Q (fun _ => False) tm.allReplicas hsafe _ hsub n (hacc n rfl) e
          ((except_map_eq_error _ _ _).mp he)
      · obtain ⟨n1, h1, rfl⟩ := (except_map_eq_ok _ _ _).mp hc
        rintro _ ⟨⟩
        exact foldlM_inv Q tm.allReplicas hkeep _ hsub n n1 (hacc n rfl) h1

/-! ## Phase E -/

/-- Phase E on one entry (line 271): its shard vector made a heap. -/
def NodeLoad.heapify (n : NodeLoad) : NodeLoad :=
  { n with shardsByLoad := makeHeap n.shardsByLoadCmp n.shardsByLoad }

/-- Phase E's first loop makes a heap of the shard vector of every balanced host, which are
distinct. -/
theorem makeHeaps_fst {nodes : NodeMap} (hnd : nodes.keys.Nodup) :
    (makeHeaps nodes).1.keys = nodes.keys ∧
      ∀ h ∈ nodes.keys, (makeHeaps nodes).1.get h = (nodes.get h).heapify := by
  have key : ∀ (l : List HostId) (m : NodeMap), l.Nodup →
      (l.foldl (fun nodes host => nodes.modify host fun n =>
        { n with shardsByLoad := makeHeap n.shardsByLoadCmp n.shardsByLoad }) m).keys = m.keys ∧
      ∀ h ∈ l, (l.foldl (fun nodes host => nodes.modify host fun n =>
        { n with shardsByLoad := makeHeap n.shardsByLoadCmp n.shardsByLoad }) m).get h =
        { m.get h with shardsByLoad := makeHeap (m.get h).shardsByLoadCmp (m.get h).shardsByLoad } := by
    intro l
    induction l with
    | nil => simp
    | cons x l ih =>
      intro m hnd
      obtain ⟨hx, hl⟩ := List.nodup_cons.mp hnd
      obtain ⟨hk, hget⟩ := ih (m.modify x _) hl
      refine ⟨hk, fun h hh => ?_⟩
      rw [List.foldl_cons]
      rcases List.mem_cons.mp hh with rfl | hh
      · have hfr : ∀ (l : List HostId) (m' : NodeMap), h ∉ l → (l.foldl (fun nodes host =>
            nodes.modify host fun n =>
              { n with shardsByLoad := makeHeap n.shardsByLoadCmp n.shardsByLoad }) m').get h =
              m'.get h := by
          intro l
          induction l with
          | nil => simp
          | cons y l ih' =>
            intro m' hy
            rw [List.foldl_cons, ih' _ (fun e => hy (List.mem_cons_of_mem _ e)), NodeMap.modify_get,
              if_neg (fun e : h = y => hy (e ▸ List.mem_cons_self _ _))]
        rw [hfr l _ hx, NodeMap.modify_get, if_pos rfl]
      · rw [hget h hh, NodeMap.modify_get, if_neg (fun e : h = x => hx (e ▸ hh))]
  exact key _ _ hnd

/-! ## The loop's start -/

/-- Phase A: the balanced hosts are the datacenter's normal nodes, each with its initial entry
and shards. -/
theorem selectedNodes_eq_ok {tm : TokenMetadata} {dc : DcName} {m1 : NodeMap}
    (h1 : tm.topology.nodes.foldlM (selectNode dc) NodeMap.empty = .ok m1) :
    m1.keys = (dcNodes tm.topology dc).map Node.hostId ∧
    ∀ n ∈ dcNodes tm.topology dc, m1.get n.hostId = initialEntry n ∧ 0 < n.shardCount := by
  obtain ⟨hkA, hgetA, -⟩ := selectNodes_eq_ok tm.topology.nodes NodeMap.empty m1
    tm.topology.nodup (fun n _ => ⟨List.not_mem_nil _, rfl⟩) h1
  exact ⟨by rw [hkA]; rfl, hgetA⟩

/-- Phases A and B: the balanced hosts are the datacenter's normal nodes, each with its initial
entry counting its replicas, and every replica on one of them names one of its shards. -/
theorem countedNodes_eq_ok {tm : TokenMetadata} {dc : DcName} {m1 m2 : NodeMap}
    (h1 : tm.topology.nodes.foldlM (selectNode dc) NodeMap.empty = .ok m1)
    (h2 : tm.tablets.allReplicas.foldlM countReplica m1 = .ok m2) :
    m2.keys = (dcNodes tm.topology dc).map Node.hostId ∧
    ∀ n ∈ dcNodes tm.topology dc, m2.get n.hostId =
      { initialEntry n with tabletCount := replicaCount tm.tablets n.hostId } ∧ 0 < n.shardCount ∧
      ∀ r ∈ tm.tablets.allReplicas, r.2.host = n.hostId → r.2.shard < n.shardCount := by
  obtain ⟨hk1, hgetA⟩ := selectedNodes_eq_ok h1
  obtain ⟨hk2, hget2, hsh2⟩ := countReplicas_eq_ok _ _ _ h2
  refine ⟨hk2.trans hk1, fun n hn => ⟨?_, (hgetA n hn).2, fun r hr hh => ?_⟩⟩
  · rw [hget2 _ (hk1 ▸ List.mem_map_of_mem _ hn), (hgetA n hn).1]
    simp [initialEntry, replicaCount, show (default : NodeLoad).tabletCount = 0 from rfl]
  · have := hsh2 r hr (by rw [hk1, hh]; exact List.mem_map_of_mem _ hn)
    rwa [hh, (hgetA n hn).1] at this

/-- Phases A to C: the least-loaded host phase C finds is a normal node of the datacenter. -/
theorem scannedTarget_mem {tm : TokenMetadata} {dc : DcName} {m1 m2 : NodeMap} {acc : MinMax}
    {target : HostId} (h1 : tm.topology.nodes.foldlM (selectNode dc) NodeMap.empty = .ok m1)
    (h2 : tm.tablets.allReplicas.foldlM countReplica m1 = .ok m2)
    (h3 : m2.keys.foldlM scanLoad (m2, 0, 0, none) = .ok acc) (ht : acc.2.2.2 = some target) :
    ∃ n ∈ dcNodes tm.topology dc, n.hostId = target := by
  obtain ⟨hs3, -, -⟩ := scanLoads_eq_ok _ [] _ _ (scanned_nil m2) h3
  obtain ⟨htK, -, -⟩ := hs3.least target ht
  rw [List.nil_append, (countedNodes_eq_ok h1 h2).1] at htK
  exact List.mem_map.mp htK

/-- `prepare`, when it goes on into the selection loop, phase by phase. -/
theorem prepare_eq_run {tm : TokenMetadata} {dc : DcName} {env : LoopEnv} {s0 : LoopState}
    (h : prepare tm dc = .ok (.run env s0)) :
    ∃ m1 m2 m3 m4 mx mn target tn,
      tm.topology.nodes.foldlM (selectNode dc) NodeMap.empty = .ok m1 ∧
      tm.tablets.allReplicas.foldlM countReplica m1 = .ok m2 ∧
      m2.keys.foldlM scanLoad (m2, 0, 0, none) = .ok (m3, mx, mn, some target) ∧ mx ≠ mn ∧
      tm.topology.findNode target = some tn ∧
      computeShardLoad tm.tablets m3 = .ok (some m4) ∧
      env = ⟨tm, dc, target, tn.rack, tn.shardCount⟩ ∧
      s0 = ⟨(makeHeaps m4).1, (makeHeaps m4).2, [], 0,
        LoadSketch.populate tm.tablets target tn.shardCount⟩ := by
  unfold prepare at h
  simp only [except_bind_eq_ok] at h
  obtain ⟨m1, h1, m2, h2, ⟨m3, mx, mn, mnode⟩, h3, h⟩ := h
  dsimp only at h
  split_ifs at h with hmx
  · cases h
  rcases mnode with _ | target
  · simp at h
  simp only [pure_bind] at h
  rcases hf : tm.topology.findNode target with _ | tn <;> simp only [hf] at h
  · simp at h
  simp only [pure_bind, except_bind_eq_ok] at h
  obtain ⟨o, ho, h⟩ := h
  rcases o with _ | m4
  · cases h
  simp only [except_pure_eq_ok, Prepared.run.injEq] at h
  obtain ⟨rfl, rfl⟩ := h
  exact ⟨m1, m2, m3, m4, mx, mn, target, tn, h1, h2, h3, hmx, hf, ho, rfl, rfl⟩

/-- The entry phases A-C leave for a host with `sc` shards and `tablets` replicas. -/
def scannedEntry (sc tablets : Nat) : NodeLoad :=
  ⟨sc, tablets, mkRat tablets sc, [], resize [] sc⟩

theorem getD_resize_nil {α : Type} [Inhabited α] (n s : Nat) :
    (resize ([] : List α) n).getD s default = default := by
  simp only [resize, List.take_nil, List.nil_append, List.length_nil, Nat.sub_zero,
    List.getD_eq_getElem?_getD, List.getElem?_replicate]
  split <;> rfl

theorem built_scannedEntry (sc tablets : Nat) : Built (scannedEntry sc tablets) [] := by
  have hk : ∀ s, shardKey (scannedEntry sc tablets) s = 0 := fun s => by
    simp only [shardKey, scannedEntry]; rw [getD_resize_nil]; rfl
  have hc : ∀ s, (scannedEntry sc tablets).candidatesOf s = [] := fun s => by
    simp only [NodeLoad.candidatesOf, scannedEntry]; rw [getD_resize_nil]; rfl
  have hsh : (scannedEntry sc tablets).shards = List.replicate sc default := by
    simp [scannedEntry, resize]
  exact ⟨fun s => by simp [hk], fun s t => by simp [hc], fun s => by simp [hc],
    fun s => by simp [hc], fun s => by rw [hk]; simp [scannedEntry], List.nodup_nil,
    by rw [hsh]; clear hk hc hsh; induction sc <;> simp_all [List.replicate_succ]; rfl, fun sh h => by rw [hsh, List.mem_replicate] at h; rw [h.2]; exact le_rfl⟩

/-- Phase D on a balanced host `h` whose replicas all name one of its `sc` shards builds its
entry from them. -/
theorem built_entry {tm : TabletMetadata} {h : HostId} {sc : Nat}
    (hrs : ∀ r ∈ tm.allReplicas, r.2.host = h → r.2.shard < sc) :
    Built ((tm.allReplicas.filter fun r => r.2.host = h).foldl NodeLoad.addCandidate
      (scannedEntry sc (replicaCount tm h))) (tm.allReplicas.filter fun r => r.2.host = h) := by
  have hL : ∀ r ∈ tm.allReplicas.filter fun r => r.2.host = h,
      r.2.shard < (scannedEntry sc (replicaCount tm h)).shards.length := fun r hr => by
    obtain ⟨hr, hh⟩ := List.mem_filter.mp hr
    simpa [scannedEntry, resize] using hrs r hr (by simpa using hh)
  simpa using Built.foldl _ _ [] (built_scannedEntry _ _) hL

/-- The entry phases D and E build for a balanced host `h`: it is `NodeOk`, its candidates are
exactly its replicas, and it has no more candidates than tablets. -/
theorem initial_entry {tm : TabletMetadata} {h : HostId} {sc : Nat}
    (hrs : ∀ r ∈ tm.allReplicas, r.2.host = h → r.2.shard < sc) :
    NodeOk tm h (((tm.allReplicas.filter fun r => r.2.host = h).foldl NodeLoad.addCandidate
        (scannedEntry sc (replicaCount tm h))).heapify) ∧
      (∀ s t, t ∈ (((tm.allReplicas.filter fun r => r.2.host = h).foldl NodeLoad.addCandidate
        (scannedEntry sc (replicaCount tm h))).heapify).candidatesOf s ↔
          tm.HasReplica t ⟨h, s⟩) ∧
      (((tm.allReplicas.filter fun r => r.2.host = h).foldl NodeLoad.addCandidate
        (scannedEntry sc (replicaCount tm h))).heapify).candidateCount ≤ replicaCount tm h := by
  set L := tm.allReplicas.filter fun r => r.2.host = h with hLdef
  set C := scannedEntry sc (replicaCount tm h)
  have hb : Built (L.foldl NodeLoad.addCandidate C) L := built_entry hrs
  obtain ⟨hsc, htc, havg, hlen⟩ := foldl_addCandidate_fields L C
  set D := L.foldl NodeLoad.addCandidate C
  have hperm : D.heapify.shardsByLoad.Perm D.shardsByLoad := makeHeap_perm _ _
  have hmemL : ∀ s t, (t, s) ∈ L.map (fun r => (r.1, r.2.shard)) ↔ tm.HasReplica t ⟨h, s⟩ := by
    intro s t
    simp only [List.mem_map, List.mem_filter, hLdef, Prod.mk.injEq, decide_eq_true_eq]
    constructor
    · rintro ⟨⟨t', ⟨h', s'⟩⟩, ⟨hr, rfl⟩, rfl, rfl⟩
      exact mem_allReplicas.mp hr
    · intro hr
      exact ⟨(t, ⟨h, s⟩), ⟨mem_allReplicas.mpr hr, rfl⟩, rfl, rfl⟩
  have hcand : ∀ s t, t ∈ D.heapify.candidatesOf s ↔ tm.HasReplica t ⟨h, s⟩ :=
    fun s t => (hb.cand s t).trans (hmemL s t)
  have hlt : ∀ s, 0 < shardKey D s → s < sc := by
    intro s hs
    rw [hb.key] at hs
    obtain ⟨r, hr⟩ := List.exists_mem_of_length_pos hs
    obtain ⟨hr, hrs'⟩ := List.mem_filter.mp hr
    obtain ⟨hr, hh⟩ := List.mem_filter.mp hr
    simpa using (of_decide_eq_true hrs') ▸ hrs r hr (by simpa using hh)
  have hcount : D.heapify.candidateCount ≤ replicaCount tm h := calc
    D.heapify.candidateCount ≤ (D.shards.map fun sh => sh.tabletCount).sum :=
      List.sum_le_sum hb.elem_le
    _ = replicaCount tm h := hb.total
  refine ⟨⟨?_, ?_, fun s t ht => (hcand s t).mp ht, hb.nodup, hb.cand_le, fun s hs => ?_,
    hperm.nodup_iff.mpr hb.sbl_nodup, fun s hs => (hb.sbl s).mp (hperm.mem_iff.mp hs),
    fun s hs => ?_, ?_⟩, hcand, hcount⟩
  · show D.shards.length = D.shardCount
    rw [hlen, hsc]; simp [C, scannedEntry, resize]
  · show D.avgLoad = mkRat D.tabletCount D.shardCount
    rw [havg, htc, hsc]; rfl
  · show s < D.shardCount
    rw [hsc]; exact hlt s ((hb.sbl s).mp (hperm.mem_iff.mp hs))
  · obtain ⟨t, ht⟩ := List.exists_mem_of_ne_nil _ hs
    refine hperm.mem_iff.mpr ((hb.sbl s).mpr ?_)
    rw [hb.key]
    obtain ⟨r, hr, hrt⟩ := List.mem_map.mp ((hb.cand s t).mp ht)
    exact List.length_pos_of_mem (List.mem_filter.mpr ⟨hr, by simp [(Prod.mk.injEq _ _ _ _).mp hrt]⟩)
  · show HeapBelow (shardKey D) (makeHeap D.shardsByLoadCmp D.shardsByLoad)
      (makeHeap D.shardsByLoadCmp D.shardsByLoad).length 0
    rw [makeHeap_length]
    exact makeHeap_order (shardsByLoadCmp_consistent D) _

/-- The entry phases A-E leave for a balanced node `n`: its replicas added as candidates to the
entry phases A-C built, the shard vector made a heap; and every replica on `n` names one of its
shards. -/
theorem prepare_entry {tm : TokenMetadata} {dc : DcName} {env : LoopEnv} {s0 : LoopState}
    (h : prepare tm dc = .ok (.run env s0)) {n : Node} (hn : n ∈ dcNodes tm.topology dc) :
    s0.nodes.get n.hostId = ((tm.tablets.allReplicas.filter fun r => r.2.host = n.hostId).foldl
        NodeLoad.addCandidate (scannedEntry n.shardCount (replicaCount tm.tablets n.hostId))).heapify ∧
      ∀ r ∈ tm.tablets.allReplicas, r.2.host = n.hostId → r.2.shard < n.shardCount := by
  obtain ⟨m1, m2, m3, m4, mx, mn, target, tn, h1, h2, h3, -, -, ho, rfl, rfl⟩ := prepare_eq_run h
  have hnd : ((dcNodes tm.topology dc).map Node.hostId).Nodup :=
    List.Nodup.sublist ((List.filter_sublist _).map _) tm.topology.nodup
  obtain ⟨hk2, hAB⟩ := countedNodes_eq_ok h1 h2
  obtain ⟨hs3, hk3, hget3⟩ := scanLoads_eq_ok _ [] _ _ (scanned_nil m2) h3
  obtain ⟨hk4, hget4⟩ := addCandidates_eq_ok _ _ _ (computeShardLoad_eq_some ho).2
  have hh : n.hostId ∈ m3.keys := by rw [hk3, hk2]; exact List.mem_map_of_mem _ hn
  obtain ⟨hk5, hget5⟩ := makeHeaps_fst (show m4.keys.Nodup by rw [hk4, hk3, hk2]; exact hnd)
  obtain ⟨q, hq⟩ := hget3 n.hostId
  have hl := hs3.loaded n.hostId (by rw [List.nil_append, ← hk3]; exact hh)
  rw [hq, (hAB n hn).1] at hl
  dsimp only at hl
  subst hl
  refine ⟨?_, (hAB n hn).2.2⟩
  rw [hget5 _ (hk4 ▸ hh), hget4 _ hh, hq, (hAB n hn).1]
  rfl

/-- The state the selection loop starts from, and what it knows of its environment. -/
structure Initial (tm : TokenMetadata) (dc : DcName) (env : LoopEnv) (s0 : LoopState) : Prop where
  tm_eq : env.tm = tm
  dc_eq : env.dc = dc
  keys : s0.nodes.keys = (dcNodes tm.topology dc).map Node.hostId
  target : ∃ n, tm.topology.findNode env.target = some n ∧ env.targetRack = n.rack ∧
    env.batchSize = n.shardCount
  least : ∀ h ∈ s0.nodes.keys, (s0.nodes.get env.target).avgLoad ≤ (s0.nodes.get h).avgLoad
  settled : ∀ p ∈ tm.tablets.tables, p.2.transitions = []
  candidates : ∀ h ∈ s0.nodes.keys, ∀ s t,
    t ∈ (s0.nodes.get h).candidatesOf s ↔ tm.tablets.HasReplica t ⟨h, s⟩
  candidateCount : ∀ h ∈ s0.nodes.keys,
    (s0.nodes.get h).candidateCount ≤ (s0.nodes.get h).tabletCount
  plan : s0.plan = []
  maxOff : s0.maxOffCandidateLoad = 0
  inv : LoopInv env s0

/-- The selection loop starts in a state that satisfies its invariant, with the least-loaded
balanced host as its target and every replica on a balanced host a candidate. -/
theorem prepare_initial {tm : TokenMetadata} {dc : DcName} {env : LoopEnv} {s0 : LoopState}
    (h : prepare tm dc = .ok (.run env s0)) : Initial tm dc env s0 := by
  obtain ⟨m1, m2, m3, m4, mx, mn, target, tn, h1, h2, h3, -, hf, ho, rfl, rfl⟩ := prepare_eq_run h
  set K := (dcNodes tm.topology dc).map Node.hostId
  have hnd : K.Nodup := List.Nodup.sublist ((List.filter_sublist _).map _) tm.topology.nodup
  obtain ⟨hk2, hAB⟩ := countedNodes_eq_ok h1 h2
  obtain ⟨hs3, hk3, -⟩ := scanLoads_eq_ok _ [] _ _ (scanned_nil m2) h3
  obtain ⟨hsettled, h4⟩ := computeShardLoad_eq_some ho
  obtain ⟨hk4, hget4⟩ := addCandidates_eq_ok _ _ _ h4
  have hk34 : m3.keys = K := hk3.trans hk2
  obtain ⟨hk5, hget5⟩ := makeHeaps_fst (show m4.keys.Nodup by rw [hk4, hk34]; exact hnd)
  have hkeys : (makeHeaps m4).1.keys = K := by rw [hk5, hk4, hk34]
  have hK3 : ∀ h ∈ K, h ∈ [] ++ m2.keys := fun h hh => by rwa [List.nil_append, hk2]
  have havg : ∀ h ∈ K, ((makeHeaps m4).1.get h).avgLoad = (m3.get h).avgLoad := fun h hh => by
    rw [hget5 _ (by rw [hk4, hk34]; exact hh), hget4 _ (by rw [hk34]; exact hh)]
    exact (foldl_addCandidate_fields _ _).2.2.1
  have hok : ∀ n ∈ dcNodes tm.topology dc,
      NodeOk tm.tablets n.hostId ((makeHeaps m4).1.get n.hostId) ∧
      (∀ s t, t ∈ ((makeHeaps m4).1.get n.hostId).candidatesOf s ↔
        tm.tablets.HasReplica t ⟨n.hostId, s⟩) ∧
      ((makeHeaps m4).1.get n.hostId).shardCount = n.shardCount ∧
      ((makeHeaps m4).1.get n.hostId).tabletCount = replicaCount tm.tablets n.hostId ∧
      ((makeHeaps m4).1.get n.hostId).candidateCount ≤ replicaCount tm.tablets n.hostId := by
    intro n hn
    obtain ⟨hentry, hrs⟩ := prepare_entry h hn
    rw [show (makeHeaps m4).1.get n.hostId = _ from hentry]
    obtain ⟨hsc, htc, -, -⟩ := foldl_addCandidate_fields
      (tm.tablets.allReplicas.filter fun r => r.2.host = n.hostId)
      (scannedEntry n.shardCount (replicaCount tm.tablets n.hostId))
    obtain ⟨hok, hcand, hcount⟩ := initial_entry hrs
    exact ⟨hok, hcand, hsc, htc, hcount⟩
  obtain ⟨htK, -, hleast⟩ := hs3.least target rfl
  have htK' : target ∈ K := by rwa [List.nil_append, hk2] at htK
  have hperm : (makeHeaps m4).2.Perm K := by
    rw [← hkeys]; exact makeHeap_perm _ _
  refine ⟨rfl, rfl, hkeys, ⟨tn, hf, rfl, rfl⟩, fun h hh => ?_, hsettled, fun h hh => ?_,
    fun h hh => ?_, rfl, rfl,
    ⟨fun h hh => ?_, hkeys ▸ htK', fun h hh => ?_, fun h hh => hkeys ▸ hperm.mem_iff.mp hh,
      hperm.nodup_iff.mpr hnd, hperm.mem_iff.mpr htK', ?_, fun h => absurd rfl h,
      fun h hh hn => absurd (hperm.mem_iff.mpr (hkeys ▸ hh)) hn, fun _ hm => absurd hm (List.not_mem_nil _),
      List.nodup_nil, Nat.zero_le _, fun h hh t sh hr => ?_, fun h hh => ?_, trivial⟩⟩
  · rw [hkeys] at hh
    rw [havg _ htK', havg _ hh]
    exact hleast h (hK3 _ hh)
  · obtain ⟨n, hn, rfl⟩ := List.mem_map.mp (hkeys ▸ hh)
    exact (hok n hn).2.1
  · obtain ⟨n, hn, rfl⟩ := List.mem_map.mp (hkeys ▸ hh)
    rw [(hok n hn).2.2.2.1]; exact (hok n hn).2.2.2.2
  · obtain ⟨n, hn, rfl⟩ := List.mem_map.mp (hkeys ▸ hh)
    obtain ⟨hmem, hsel⟩ := List.mem_filter.mp hn
    obtain ⟨hst, hdc⟩ := of_decide_eq_true hsel
    exact ⟨n, findNode_eq_some hmem, hst, hdc, (hok n hn).2.2.1, (hAB n hn).2.1⟩
  · obtain ⟨n, hn, rfl⟩ := List.mem_map.mp (hkeys ▸ hh)
    exact (hok n hn).1
  · show HeapBelow _ (makeHeap _ _) (makeHeap _ _).length 0
    rw [makeHeap_length]
    exact makeHeap_order (nodesCmp_consistent _ _) _
  · obtain ⟨n, hn, rfl⟩ := List.mem_map.mp (hkeys ▸ hh)
    exact .inl (((hok n hn).2.1 sh t).mpr hr)
  · obtain ⟨n, hn, rfl⟩ := List.mem_map.mp (hkeys ▸ hh)
    exact (hok n hn).2.2.2.1

/-- Phases A-E fail only with the two exceptions they throw: a balanced node without shards, or
a replica naming a shard its balanced host lacks. -/
theorem prepare_eq_error {tm : TokenMetadata} {dc : DcName} {e : PlanError}
    (h : prepare tm dc = .error e) : e.Reported tm dc := by
  unfold prepare at h
  simp only [except_bind_eq_error] at h
  rcases h with h | ⟨m1, h1, h | ⟨m2, h2, h | ⟨⟨m3, mx, mn, mnode⟩, h3, h⟩⟩⟩
  · refine foldlM_eq_error (fun _ => True) (PlanError.Reported tm dc) tm.topology.nodes
      (fun _ a ha _ => ⟨fun e he => ?_, fun _ _ => trivial⟩) _ (List.Subset.refl _) _ trivial e h
    obtain ⟨rfl, hsel, hz⟩ := selectNode_eq_error he
    exact ⟨a, List.mem_filter.mpr ⟨ha, hsel⟩, rfl, hz⟩
  · -- phase B keeps the shard counts of phase A
    obtain ⟨hk1, hgetA⟩ := selectedNodes_eq_ok h1
    refine foldlM_eq_error (fun acc : NodeMap => acc.keys = m1.keys ∧
        ∀ x ∈ m1.keys, (acc.get x).shardCount = (m1.get x).shardCount) (PlanError.Reported tm dc)
      tm.tablets.allReplicas (fun acc r hr hacc => ⟨fun e he => ?_, fun c hc => ?_⟩) _
      (List.Subset.refl _) _ ⟨rfl, fun _ _ => rfl⟩ e h
    · obtain ⟨rfl, hk, hle⟩ := countReplica_eq_error he
      rw [hacc.1] at hk
      rw [hacc.2 _ hk] at hle
      rw [hk1] at hk
      obtain ⟨n, hn, hh⟩ := List.mem_map.mp hk
      rw [← hh, (hgetA n hn).1] at hle
      exact ⟨mem_allReplicas.mp hr, n, hn, hh, hle⟩
    · obtain ⟨hkc, hsc⟩ := countReplica_keep hc
      exact ⟨hkc.trans hacc.1, fun x hx => (hsc x).trans (hacc.2 x hx)⟩
  all_goals obtain ⟨hk2, hAB⟩ := countedNodes_eq_ok h1 h2
  · refine (foldlM_eq_error (fun acc : MinMax => ∀ h ∈ m2.keys,
      (acc.1.get h).shardCount = (m2.get h).shardCount) (fun _ => False) m2.keys ?_ _
      (List.Subset.refl _) _ (fun _ _ => rfl) e h).elim
    refine fun acc x hx hsc => ⟨scanLoad_ne_error acc x ?_, fun c hc h hh =>
      ((scanLoad_keep hc).2 h).trans (hsc h hh)⟩
    rw [hsc x hx]
    rw [hk2] at hx
    obtain ⟨n, hn, rfl⟩ := List.mem_map.mp hx
    rw [(hAB n hn).1]
    exact Nat.pos_iff_ne_zero.mp (hAB n hn).2.1
  · obtain ⟨hs3, hk3, hget3⟩ := scanLoads_eq_ok _ [] _ _ (scanned_nil m2) h3
    dsimp only at h
    split_ifs at h with hmx
    · cases h
    rcases mnode with _ | target
    · have hnil : m2.keys = [] := by
        by_contra hne
        exact hs3.found (by simpa using hne) rfl
      rw [hnil] at h3
      simp only [List.foldlM_nil, except_pure_eq_ok, Prod.mk.injEq] at h3
      exact (hmx (h3.2.1.symm.trans h3.2.2.1)).elim
    obtain ⟨n, hn, rfl⟩ := scannedTarget_mem h1 h2 h3 rfl
    simp only [pure_bind, findNode_eq_some (List.mem_filter.mp hn).1, except_bind_eq_error] at h
    rcases h with h | ⟨o, -, h⟩
    · refine (computeShardLoad_ne_error (fun r hr hk => ?_) e h).elim
      rw [hk3, hk2] at hk
      obtain ⟨n', hn', hh⟩ := List.mem_map.mp hk
      obtain ⟨q, hq⟩ := hget3 r.2.host
      rw [hq, ← hh, (hAB n' hn').1]
      simpa [initialEntry, resize] using (hAB n' hn').2.2 r hr hh.symm
    · rcases o <;> cases h

end TabletLoadBalancer
