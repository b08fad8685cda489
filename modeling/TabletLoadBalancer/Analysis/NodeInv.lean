import TabletLoadBalancer.Analysis.Step
import TabletLoadBalancer.Analysis.HeapPerm

/-!
# The invariant of one host's entry

`NodeOk tm h n` is what the entry `n` of a balanced host `h` satisfies at the head of every
iteration: its load is its count over its shards, every candidate of a shard has a replica
there, a shard has no more candidates than tablets, the shard heap holds distinct shards of the
host, each with tablets and together all shards with candidates, and it is a heap of their
tablet counts (`shardKey`).

An iteration changes at most two entries: the source's, which loses a shard (`dropShard`), a
candidate (`skip`) or a tablet (`emit`), and the target's, which receives one (`receive`). One
lemma per change shows that it keeps `NodeOk`.
-/

set_option autoImplicit false

namespace TabletLoadBalancer

/-- The order of a host's shard heap: a shard's tablet count. -/
def shardKey (n : NodeLoad) (s : ShardId) : Nat := (n.shards.getD s default).tabletCount

/-- The candidates left on shard `s` of an entry. -/
def NodeLoad.candidatesOf (n : NodeLoad) (s : ShardId) : List GlobalTabletId :=
  (n.shards.getD s default).candidates

/-- The candidates left on all shards of an entry. -/
def NodeLoad.candidateCount (n : NodeLoad) : Nat :=
  (n.shards.map fun sh => sh.candidates.length).sum

theorem shardsByLoadCmp_consistent (n : NodeLoad) : Consistent n.shardsByLoadCmp (shardKey n) :=
  consistent_of_monotone (shardKey n) id monotone_id

/-- What the entry `n` of balanced host `h` satisfies at the head of every iteration. -/
structure NodeOk (tm : TabletMetadata) (h : HostId) (n : NodeLoad) : Prop where
  shards_length : n.shards.length = n.shardCount
  avg : n.avgLoad = mkRat n.tabletCount n.shardCount
  replica : ∀ s, ∀ t ∈ n.candidatesOf s, tm.HasReplica t ⟨h, s⟩
  nodup : ∀ s, (n.candidatesOf s).Nodup
  cand_le : ∀ s, (n.candidatesOf s).length ≤ shardKey n s
  lt : ∀ s ∈ n.shardsByLoad, s < n.shardCount
  sbl_nodup : n.shardsByLoad.Nodup
  pos : ∀ s ∈ n.shardsByLoad, 0 < shardKey n s
  mem : ∀ s, n.candidatesOf s ≠ [] → s ∈ n.shardsByLoad
  heap : HeapBelow (shardKey n) n.shardsByLoad n.shardsByLoad.length 0

theorem getD_modify {α : Type} (f : α → α) (l : List α) {i : Nat} (hi : i < l.length) (j : Nat)
    (d : α) : (l.modify f i).getD j d = if i = j then f (l.getD j d) else l.getD j d := by
  by_cases h : i = j
  · subst h; simp [hi, List.getElem?_eq_getElem]
  · simp [List.getElem?_modify_ne _ _ h, h]

/-! ## The entry of the source -/

section Source

variable {tm : TabletMetadata} {h : HostId} {n : NodeLoad}

@[simp] theorem shardKey_take (n : NodeLoad) (x : ShardId) (t : GlobalTabletId) :
    shardKey (n.take x t) = shardKey n := funext fun s => by
  unfold shardKey NodeLoad.take
  by_cases hx : x < n.shards.length
  · rw [getD_modify _ _ hx]; split_ifs <;> rfl
  · rw [List.modify_eq_self (not_lt.mp hx)]

theorem candidatesOf_take {x : ShardId} (t : GlobalTabletId) (hx : x < n.shards.length) (s : ShardId) :
    (n.take x t).candidatesOf s = if x = s then (n.candidatesOf s).erase t else n.candidatesOf s := by
  unfold NodeLoad.candidatesOf NodeLoad.take
  rw [getD_modify _ _ hx]; split_ifs <;> rfl

theorem shardKey_give {x : ShardId} (t : GlobalTabletId) (hx : x < n.shards.length) (s : ShardId) :
    shardKey ((n.take x t).give x) s = if x = s then shardKey n x - 1 else shardKey n s := by
  have hx' : x < (n.take x t).shards.length := by simpa [NodeLoad.take] using hx
  unfold NodeLoad.give
  simp only [shardKey, getD_modify _ _ hx']
  split_ifs with hxs
  · rw [← hxs]
    show shardKey (n.take x t) x - 1 = shardKey n x - 1
    rw [shardKey_take]
  · exact congrFun (shardKey_take n x t) s

theorem candidatesOf_give {x : ShardId} (t : GlobalTabletId) (hx : x < n.shards.length)
    (s : ShardId) : ((n.take x t).give x).candidatesOf s = (n.take x t).candidatesOf s := by
  have hx' : x < (n.take x t).shards.length := by simpa [NodeLoad.take] using hx
  unfold NodeLoad.give NodeLoad.candidatesOf
  rw [getD_modify _ _ hx']; split_ifs with hxs
  · subst hxs; rfl
  · rfl

theorem shardsByLoad_give (n : NodeLoad) (x : ShardId) (t : GlobalTabletId) :
    ((n.take x t).give x).shardsByLoad = if shardKey n x - 1 = 0 then
      (popHeap n.shardsByLoadCmp n.shardsByLoad).dropLast
      else popHeap n.shardsByLoadCmp n.shardsByLoad := by
  show (if shardKey (n.take x t) x - 1 = 0 then _ else _) = _
  rw [shardKey_take]; rfl

/-- The facts every change of the source uses: the popped shard `x` is the heap's root, a shard
of the host, and off the rest of the heap. -/
theorem NodeOk.popped (o : NodeOk tm h n) (hne : n.shardsByLoad ≠ []) :
    n.shardsByLoad.getD 0 default < n.shards.length ∧
      (popHeap n.shardsByLoadCmp n.shardsByLoad).dropLast.Nodup ∧
      ∀ y, y ∈ (popHeap n.shardsByLoadCmp n.shardsByLoad).dropLast ↔
        y ∈ n.shardsByLoad ∧ y ≠ n.shardsByLoad.getD 0 default := by
  have hv := List.length_pos.mpr hne
  obtain ⟨hnd, -, hmem⟩ := popHeap_split n.shardsByLoadCmp hv o.sbl_nodup
  refine ⟨?_, hnd, hmem⟩
  rw [o.shards_length]
  exact o.lt _ (by simp [List.getElem?_eq_getElem hv, List.getElem_mem])

/-- Lines 339-343: dropping a popped shard without candidates keeps the invariant. -/
theorem NodeOk.dropShard (o : NodeOk tm h n) (hne : n.shardsByLoad ≠ [])
    (hc : n.candidatesOf (n.shardsByLoad.getD 0 default) = []) :
    NodeOk tm h { n with shardsByLoad := (popHeap n.shardsByLoadCmp n.shardsByLoad).dropLast } := by
  obtain ⟨-, hnd, hmem⟩ := o.popped hne
  exact { o with
    lt := fun s hs => o.lt s ((hmem s).mp hs).1
    sbl_nodup := hnd
    pos := fun s hs => o.pos s ((hmem s).mp hs).1
    mem := fun s hs => (hmem s).mpr ⟨o.mem s hs, fun hsx => hs (hsx ▸ hc)⟩
    heap := popHeap_dropLast_order (shardsByLoadCmp_consistent n) o.heap fun _ _ _ _ => id }

@[simp] theorem shardKey_pushShard (n : NodeLoad) : shardKey n.pushShard = shardKey n := rfl

@[simp] theorem candidatesOf_pushShard (n : NodeLoad) : n.pushShard.candidatesOf = n.candidatesOf :=
  rfl

/-- Lines 348-385: taking a candidate and pushing its shard back keeps the invariant. -/
theorem NodeOk.skip (o : NodeOk tm h n) (hne : n.shardsByLoad ≠ []) (t : GlobalTabletId) :
    NodeOk tm h (n.take (n.shardsByLoad.getD 0 default) t).pushShard := by
  obtain ⟨hx, -, -⟩ := o.popped hne
  have hcand := candidatesOf_take t hx
  have hperm : (n.take (n.shardsByLoad.getD 0 default) t).pushShard.shardsByLoad.Perm
      n.shardsByLoad := (pushHeap_perm _ _).trans (popHeap_perm _ _)
  have hsub : ∀ s, (n.take (n.shardsByLoad.getD 0 default) t).candidatesOf s ⊆ n.candidatesOf s := by
    intro s; rw [hcand]; split_ifs
    exacts [List.erase_subset _ _, List.Subset.refl _]
  refine ⟨by simp [NodeLoad.pushShard, NodeLoad.take, o.shards_length], o.avg,
    fun s t' ht' => o.replica s t' (hsub s (by simpa using ht')), fun s => ?_, fun s => ?_,
    fun s hs => o.lt s (hperm.subset hs), hperm.nodup_iff.mpr o.sbl_nodup,
    fun s hs => by simpa using o.pos s (hperm.subset hs), fun s hs => ?_, ?_⟩
  · rw [candidatesOf_pushShard, hcand]; split_ifs
    exacts [(o.nodup s).erase t, o.nodup s]
  · rw [candidatesOf_pushShard, shardKey_pushShard, shardKey_take, hcand]; split_ifs
    exacts [(List.erase_sublist _ _).length_le.trans (o.cand_le s), o.cand_le s]
  · refine hperm.symm.subset (o.mem s fun hn => hs ?_)
    simpa [hn] using hsub s
  · have := pushHeap_popHeap_order (shardsByLoadCmp_consistent n)
      (shardsByLoadCmp_consistent (n.take (n.shardsByLoad.getD 0 default) t))
      (List.length_pos.mpr hne) o.heap (by simp)
    simpa [NodeLoad.pushShard, NodeLoad.take] using this

/-- Lines 394-399: emitting a candidate of the popped shard keeps the invariant, whether the
shard, left with no tablets, leaves the heap, or is pushed back. -/
theorem NodeOk.emit (o : NodeOk tm h n) (hne : n.shardsByLoad ≠ []) {t : GlobalTabletId}
    (ht : t ∈ n.candidatesOf (n.shardsByLoad.getD 0 default)) :
    NodeOk tm h (if shardKey n (n.shardsByLoad.getD 0 default) - 1 ≠ 0 then
      ((n.take (n.shardsByLoad.getD 0 default) t).give (n.shardsByLoad.getD 0 default)).pushShard
      else (n.take (n.shardsByLoad.getD 0 default) t).give (n.shardsByLoad.getD 0 default)) := by
  obtain ⟨hx, hnd, hmem⟩ := o.popped hne
  generalize hxdef : n.shardsByLoad.getD 0 default = x at hx hnd hmem ht ⊢
  have hcand : ∀ s, ((n.take x t).give x).candidatesOf s =
      if x = s then (n.candidatesOf s).erase t else n.candidatesOf s := fun s => by
    rw [candidatesOf_give t hx, candidatesOf_take t hx]
  have hkey := shardKey_give t hx
  have hsub : ∀ s, ((n.take x t).give x).candidatesOf s ⊆ n.candidatesOf s := by
    intro s; rw [hcand]; split_ifs
    exacts [List.erase_subset _ _, List.Subset.refl _]
  have hle : ∀ s, (((n.take x t).give x).candidatesOf s).length ≤ shardKey ((n.take x t).give x) s := by
    intro s; rw [hcand, hkey]; split_ifs with hxs
    · subst hxs; rw [List.length_erase_of_mem ht]; exact Nat.sub_le_sub_right (o.cand_le x) 1
    · exact o.cand_le s
  have hrest : ∀ y ∈ (popHeap n.shardsByLoadCmp n.shardsByLoad).dropLast,
      shardKey ((n.take x t).give x) y = shardKey n y := fun y hy => by
    rw [hkey, if_neg (Ne.symm ((hmem y).mp hy).2)]
  have hsl : ((n.take x t).give x).shards.length = n.shardCount := by
    simp [NodeLoad.give, NodeLoad.take, o.shards_length]
  have hnodup : ∀ s, (((n.take x t).give x).candidatesOf s).Nodup := fun s => by
    rw [hcand]; split_ifs
    exacts [(o.nodup s).erase t, o.nodup s]
  have hreplica : ∀ s, ∀ t' ∈ ((n.take x t).give x).candidatesOf s, tm.HasReplica t' ⟨h, s⟩ :=
    fun s t' ht' => o.replica s t' (hsub s ht')
  have hkeep : ∀ y ∈ (popHeap n.shardsByLoadCmp n.shardsByLoad).dropLast,
      ∀ z ∈ (popHeap n.shardsByLoadCmp n.shardsByLoad).dropLast,
      shardKey n y ≤ shardKey n z → shardKey ((n.take x t).give x) y ≤ shardKey ((n.take x t).give x) z :=
    fun y hy z hz hyz => by rwa [hrest y hy, hrest z hz]
  split_ifs with hz
  · have hsbl : ((n.take x t).give x).shardsByLoad = popHeap n.shardsByLoadCmp n.shardsByLoad := by
      rw [shardsByLoad_give, if_neg hz]
    have hperm : ((n.take x t).give x).pushShard.shardsByLoad.Perm n.shardsByLoad := by
      show (pushHeap _ ((n.take x t).give x).shardsByLoad).Perm _
      rw [hsbl]; exact (pushHeap_perm _ _).trans (popHeap_perm _ _)
    refine ⟨hsl, rfl, hreplica, hnodup, hle, fun s hs => o.lt s (hperm.subset hs),
      hperm.nodup_iff.mpr o.sbl_nodup, fun s hs => ?_,
      fun s hs => hperm.symm.subset (o.mem s fun hn => hs (by simpa [hn] using hsub s)), ?_⟩
    · rw [shardKey_pushShard, hkey]; split_ifs
      · omega
      · exact o.pos s (hperm.subset hs)
    · have := pushHeap_popHeap_order (shardsByLoadCmp_consistent n)
        (shardsByLoadCmp_consistent ((n.take x t).give x)) (List.length_pos.mpr hne) o.heap hkeep
      show HeapBelow (shardKey ((n.take x t).give x))
        (pushHeap _ ((n.take x t).give x).shardsByLoad) (pushHeap _ _).length 0
      rwa [pushHeap_length, hsbl, popHeap_length]
  · have hz' : shardKey n x - 1 = 0 := not_not.mp hz
    have hsbl : ((n.take x t).give x).shardsByLoad =
        (popHeap n.shardsByLoadCmp n.shardsByLoad).dropLast := by
      rw [shardsByLoad_give, if_pos hz']
    refine ⟨hsl, rfl, hreplica, hnodup, hle, fun s hs => o.lt s ((hmem s).mp (hsbl ▸ hs)).1,
      hsbl ▸ hnd, fun s hs => ?_, fun s hs => ?_, ?_⟩
    · rw [hsbl] at hs; rw [hrest s hs]; exact o.pos s ((hmem s).mp hs).1
    · rw [hsbl, hmem]
      by_cases hxs : x = s
      · subst hxs
        have := hle x
        rw [hkey, if_pos rfl, hz'] at this
        exact absurd (List.eq_nil_of_length_eq_zero (by omega)) hs
      · exact ⟨o.mem s fun hn => hs (by simpa [hn] using hsub s), Ne.symm hxs⟩
    · rw [hsbl]
      exact popHeap_dropLast_order (shardsByLoadCmp_consistent n) o.heap hkeep

end Source

/-- Lines 391-392: the target's entry keeps the invariant when it receives a tablet. -/
theorem NodeOk.receive {tm : TabletMetadata} {h : HostId} {n : NodeLoad} (o : NodeOk tm h n) :
    NodeOk tm h n.receive :=
  { o with avg := rfl }

end TabletLoadBalancer
