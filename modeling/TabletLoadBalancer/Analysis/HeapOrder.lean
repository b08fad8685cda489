import TabletLoadBalancer.Analysis.HeapIndex

/-!
# The libstdc++ heap algorithms keep a heap, for any consistent comparator

The comparator `make_plan` hands to the heap algorithms reads live loads, and one of those loads
(the target's) rises while its host sits in the heap. So the order the algorithms preserve is
not stated for the comparator itself but for a key `K` that the comparator is merely
*consistent* with: when `lt a b` holds the key of `a` is at most that of `b`, and when it does
not the key of `b` is at most that of `a`. Ties of `K` may be decided either way.

`HeapBelow K v len top` is the heap order on the first `len` positions for every position whose
parent is at `top` or after, so that `std::make_heap` can establish it one parent at a time. The
proofs follow the hole: `DownOrder` is what the descent of `__adjust_heap` keeps (every pair off
the hole is ordered, and the hole's children are no greater than its parent), `UpOrder` adds what
`__push_heap` needs (the value being placed dominates the hole's children). One `move` lemma per
direction and a `finish` lemma give each loop by induction on its fuel.
-/

set_option autoImplicit false

namespace TabletLoadBalancer

variable {α : Type} [Inhabited α] {β : Type} [LinearOrder β]

/-! ## The algorithms keep the length -/

@[simp] theorem siftUp_length (lt : α → α → Bool) (value : α) :
    ∀ fuel (v : List α) hole top, (siftUp lt value fuel v hole top).length = v.length
  | 0, _, _, _ => by simp [siftUp]
  | fuel + 1, v, hole, top => by
    unfold siftUp; split <;> simp [siftUp_length lt value fuel]

@[simp] theorem siftDown_length (lt : α → α → Bool) (len : Nat) :
    ∀ fuel (v : List α) hole, (siftDown lt len fuel v hole).1.length = v.length
  | 0, _, _ => rfl
  | fuel + 1, v, hole => by
    unfold siftDown; split <;> simp [siftDown_length lt len fuel]

@[simp] theorem adjustHeap_length (lt : α → α → Bool) (v : List α) (hole len : Nat) (value : α) :
    (adjustHeap lt v hole len value).length = v.length := by
  unfold adjustHeap; dsimp only; split <;> simp

@[simp] theorem popHeap_length (lt : α → α → Bool) (v : List α) :
    (popHeap lt v).length = v.length := by
  unfold popHeap; split <;> simp

@[simp] theorem pushHeap_length (lt : α → α → Bool) (v : List α) :
    (pushHeap lt v).length = v.length := by
  simp [pushHeap]

@[simp] theorem makeHeapFrom_length (lt : α → α → Bool) (len : Nat) :
    ∀ p (v : List α), (makeHeapFrom lt len p v).length = v.length
  | 0, _ => by simp [makeHeapFrom]
  | p + 1, v => by simp [makeHeapFrom, makeHeapFrom_length lt len p]

@[simp] theorem makeHeap_length (lt : α → α → Bool) (v : List α) :
    (makeHeap lt v).length = v.length := by
  unfold makeHeap; split <;> simp

/-! ## Orders -/

/-- `lt` decides like `<` on the keys `K`, ties either way. -/
def Consistent (lt : α → α → Bool) (K : α → β) : Prop :=
  ∀ a b, (lt a b = true → K a ≤ K b) ∧ (lt a b = false → K b ≤ K a)

omit [Inhabited α] in
/-- A comparator of keys `k` is consistent with every monotone image of `k`. -/
theorem consistent_of_monotone {γ : Type} [LinearOrder γ] (k : α → γ) (f : γ → β)
    (hf : Monotone f) : Consistent (fun a b => decide (k a < k b)) (f ∘ k) := by
  intro a b
  constructor
  · intro h; exact hf (le_of_lt (of_decide_eq_true h))
  · intro h; exact hf (not_lt.mp (of_decide_eq_false h))

/-- The heap order on the first `len` positions, for every position whose parent is at `top` or
after. -/
def HeapBelow (K : α → β) (v : List α) (len top : Nat) : Prop :=
  ∀ c, c < len → 0 < c → top ≤ parent c → K (v.getD c default) ≤ K (v.getD (parent c) default)

/-- The root of a heap has the largest key. -/
theorem HeapBelow.root_max {K : α → β} {v : List α} {n : Nat} (h : HeapBelow K v n 0) :
    ∀ i, i < n → K (v.getD i default) ≤ K (v.getD 0 default) := by
  intro i
  induction i using Nat.strong_induction_on with
  | _ i ih =>
    intro hi
    rcases Nat.eq_zero_or_pos i with rfl | h0
    · exact le_rfl
    · exact (h i hi h0 (Nat.zero_le _)).trans (ih _ (parent_lt h0) (by have := parent_lt h0; omega))

/-- What the descent of `__adjust_heap` keeps with its hole at `hole`, inside `top`'s subtree. -/
structure DownOrder (K : α → β) (v : List α) (len top hole : Nat) : Prop where
  sub : InSubtree top hole
  lt_len : hole < len
  except : ∀ c, c < len → 0 < c → top ≤ parent c → c ≠ hole → parent c ≠ hole →
    K (v.getD c default) ≤ K (v.getD (parent c) default)
  grand : hole ≠ top → ∀ c, c < len → 0 < c → parent c = hole →
    K (v.getD c default) ≤ K (v.getD (parent hole) default)

/-- What `__push_heap` keeps while it moves the hole up to place `value`. -/
structure UpOrder (K : α → β) (v : List α) (len top hole : Nat) (value : α)
    extends DownOrder K v len top hole : Prop where
  below : ∀ c, c < len → 0 < c → parent c = hole → K (v.getD c default) ≤ K value

/-! ## One step of each sift -/

section Steps

variable {K : α → β} {v : List α} {len top hole : Nat}

/-- Descending: moving a largest child `c` of the hole up into it keeps `DownOrder`, with the
hole at `c`. -/
theorem DownOrder.move (o : DownOrder K v len top hole) (hlen : len ≤ v.length) {c : Nat}
    (hc : c < len) (hc0 : 0 < c) (hpc : parent c = hole)
    (hmax : ∀ c', c' < len → 0 < c' → parent c' = hole →
      K (v.getD c' default) ≤ K (v.getD c default)) :
    DownOrder K (v.set hole (v.getD c default)) len top c := by
  have hhc : hole < c := hpc ▸ parent_lt hc0
  have htop := o.sub.le
  refine ⟨o.sub.child hc0 hpc, hc, fun x hx hx0 hxt hxc hpx => ?_, fun _ x hx hx0 hpx => ?_⟩
  · by_cases hxh : x = hole
    · subst hxh
      have hp := parent_lt hx0
      rw [getD_set_self _ _ _ (by omega), getD_set_ne _ _ _ (by omega)]
      exact o.grand (by omega) c hc hc0 hpc
    · rw [getD_set_ne _ _ _ (Ne.symm hxh)]
      by_cases hpxh : parent x = hole
      · rw [hpxh, getD_set_self _ _ _ (by omega)]
        exact hmax x hx hx0 hpxh
      · rw [getD_set_ne _ _ _ (Ne.symm hpxh)]
        exact o.except x hx hx0 hxt hxh hpxh
  · have hcx : c < x := hpx ▸ parent_lt hx0
    rw [hpc, getD_set_ne _ _ _ (by omega), getD_set_self _ _ _ (by omega)]
    exact hpx ▸ o.except x hx hx0 (by omega) (by omega) (by omega)

/-- A hole with no child left is ready for the ascent, whatever the value to place. -/
theorem DownOrder.toUpOrder (o : DownOrder K v len top hole) (hleaf : len ≤ 2 * hole + 1)
    (value : α) : UpOrder K v len top hole value :=
  { o with below := fun c hc hc0 hpc => by rw [parent_eq_iff hc0] at hpc; omega }

/-- Ascending: when the hole's parent is no greater than `value`, moving the parent down keeps
`UpOrder`, with the hole at the parent. -/
theorem UpOrder.move {value : α} (o : UpOrder K v len top hole value) (hlen : len ≤ v.length)
    (htop : top < hole) (hle : K (v.getD (parent hole) default) ≤ K value) :
    UpOrder K (v.set hole (v.getD (parent hole) default)) len top (parent hole) value := by
  have hp := parent_lt (show 0 < hole by omega)
  have hlt := o.lt_len
  have hsub := o.sub.parent (by omega)
  -- a child `x` of the new hole other than the old hole sits below it in order
  have hsib : ∀ x, x < len → 0 < x → parent x = parent hole → x ≠ hole →
      K (v.getD x default) ≤ K (v.getD (parent hole) default) := fun x hx hx0 hpx hxh =>
    hpx ▸ o.except x hx hx0 (hpx ▸ hsub.le) hxh (by omega)
  refine ⟨⟨hsub, by omega, fun x hx hx0 hxt hxp hpx => ?_, fun hpt x hx hx0 hpx => ?_⟩,
    fun x hx hx0 hpx => ?_⟩
  · have hxh : x ≠ hole := fun h => hpx (h ▸ rfl)
    rw [getD_set_ne _ _ _ (Ne.symm hxh)]
    by_cases hpxh : parent x = hole
    · rw [hpxh, getD_set_self _ _ _ (by omega)]
      exact o.grand (by omega) x hx hx0 hpxh
    · rw [getD_set_ne _ _ _ (Ne.symm hpxh)]
      exact o.except x hx hx0 hxt hxh hpxh
  · have hpp := parent_lt (show 0 < parent hole by have := hsub.le; omega)
    have hup : K (v.getD (parent hole) default) ≤
        K (v.getD (parent (parent hole)) default) :=
      o.except _ (by omega) (by omega) (hsub.parent hpt).le (by omega) (by omega)
    rw [getD_set_ne _ _ _ (show hole ≠ parent (parent hole) by omega)]
    by_cases hxh : x = hole
    · rw [hxh, getD_set_self _ _ _ (by omega)]; exact hup
    · rw [getD_set_ne _ _ _ (Ne.symm hxh)]; exact (hsib x hx hx0 hpx hxh).trans hup
  · by_cases hxh : x = hole
    · rw [hxh, getD_set_self _ _ _ (by omega)]; exact hle
    · rw [getD_set_ne _ _ _ (Ne.symm hxh)]; exact (hsib x hx hx0 hpx hxh).trans hle

/-- Placing `value` where the ascent stops gives the heap order below `top`. -/
theorem UpOrder.finish {value : α} (o : UpOrder K v len top hole value) (hlen : len ≤ v.length)
    (hstop : top < hole → K value ≤ K (v.getD (parent hole) default)) :
    HeapBelow K (v.set hole value) len top := by
  have hlt := o.lt_len
  intro x hx hx0 hxt
  by_cases hxh : x = hole
  · subst hxh
    have hp := parent_lt hx0
    rw [getD_set_self _ _ _ (by omega), getD_set_ne _ _ _ (by omega)]
    exact hstop (by omega)
  · rw [getD_set_ne _ _ _ (Ne.symm hxh)]
    by_cases hpxh : parent x = hole
    · rw [hpxh, getD_set_self _ _ _ (by omega)]
      exact o.below x hx hx0 hpxh
    · rw [getD_set_ne _ _ _ (Ne.symm hpxh)]
      exact o.except x hx hx0 hxt hxh hpxh

end Steps

/-! ## Whole sifts and the three algorithms -/

section Runs

variable {lt : α → α → Bool} {K : α → β}

/-- The child the descent picks dominates both children of the hole. -/
theorem larger_child (hK : Consistent lt K) (v : List α) (hole : Nat) (c : Nat) (hc0 : 0 < c)
    (hpc : parent c = hole) :
    K (v.getD c default) ≤ K (v.getD (if lt (v.getD (2 * (hole + 1)) default)
      (v.getD (2 * (hole + 1) - 1) default) then 2 * (hole + 1) - 1 else 2 * (hole + 1))
      default) := by
  rw [show 2 * (hole + 1) - 1 = 2 * hole + 1 by omega, show 2 * (hole + 1) = 2 * hole + 2 by omega]
  rcases (parent_eq_iff hc0).mp hpc with rfl | rfl <;>
    cases h : lt (v.getD (2 * hole + 2) default) (v.getD (2 * hole + 1) default) <;>
    simp only [if_true, if_false, Bool.false_eq_true, le_refl] <;>
    first | exact (hK _ _).2 h | exact (hK _ _).1 h

/-- The descent of `__adjust_heap` keeps `DownOrder` and stops with the hole at or past
`(len - 1) / 2`. -/
theorem siftDown_order (hK : Consistent lt K) (len top : Nat) :
    ∀ fuel (v : List α) hole, DownOrder K v len top hole → len ≤ v.length → len ≤ hole + fuel →
      DownOrder K (siftDown lt len fuel v hole).1 len top (siftDown lt len fuel v hole).2 ∧
      (len - 1) / 2 ≤ (siftDown lt len fuel v hole).2
  | 0, v, hole, o, _, hf => ⟨o, by simp only [siftDown]; omega⟩
  | fuel + 1, v, hole, o, hlen, hf => by
    unfold siftDown
    split
    · rename_i hin
      have hch : ∀ b : Bool, 2 * hole + 1 ≤ (if b then 2 * (hole + 1) - 1 else 2 * (hole + 1)) ∧
          (if b then 2 * (hole + 1) - 1 else 2 * (hole + 1)) < len ∧
          parent (if b then 2 * (hole + 1) - 1 else 2 * (hole + 1)) = hole := by
        intro b; cases b <;> simp only [if_true, if_false, Bool.false_eq_true] <;>
          refine ⟨by omega, by omega, ?_⟩ <;> unfold parent <;> omega
      obtain ⟨h1, h2, h3⟩ := hch (lt (v.getD (2 * (hole + 1)) default)
        (v.getD (2 * (hole + 1) - 1) default))
      exact siftDown_order hK len top fuel _ _
        (o.move hlen h2 (by omega) h3 fun c' _ hc0 hpc => larger_child hK v hole c' hc0 hpc)
        (by simpa using hlen) (by omega)
    · exact ⟨o, by omega⟩

/-- The ascent of `__push_heap` ends in the heap order below `top`. -/
theorem siftUp_order (hK : Consistent lt K) {len top : Nat} (value : α) :
    ∀ fuel (v : List α) hole, UpOrder K v len top hole value → len ≤ v.length → hole ≤ fuel →
      HeapBelow K (siftUp lt value fuel v hole top) len top
  | 0, v, hole, o, hlen, hf => o.finish hlen (by omega)
  | fuel + 1, v, hole, o, hlen, hf => by
    unfold siftUp
    split
    · rename_i hin
      have hp := parent_lt (show 0 < hole by omega)
      exact siftUp_order hK value fuel _ _ (o.move hlen hin.1 ((hK _ _).1 hin.2))
        (by simpa using hlen) (by omega)
    · rename_i hin
      exact o.finish hlen fun htop => (hK _ _).2 (by simpa [htop] using hin)

/-- `std::__adjust_heap` from `top`, where the subtrees below `top` are heaps, makes `top`'s
subtree a heap. -/
theorem adjustHeap_order (hK : Consistent lt K) {v : List α} {top len : Nat} (value : α)
    (h : HeapBelow K v len (top + 1)) (htl : top < len) (hlen : len ≤ v.length) :
    HeapBelow K (adjustHeap lt v top len value) len top := by
  have init : DownOrder K v len top top :=
    ⟨InSubtree.refl top, htl, fun c hc hc0 hct _ hpc => h c hc hc0 (by omega),
      fun hne => absurd rfl hne⟩
  have hd := siftDown_order hK len top len v top init hlen (by omega)
  have hl := siftDown_length lt len len v top
  unfold adjustHeap
  generalize siftDown lt len len v top = down at hd hl ⊢
  obtain ⟨o, hge⟩ := hd
  have hlen' : len ≤ down.1.length := hl ▸ hlen
  dsimp only
  split
  · rename_i hodd
    have hc : parent (2 * (down.2 + 1) - 1) = down.2 := by unfold parent; omega
    exact siftUp_order hK value _ _ _
      ((o.move hlen' (by omega) (by omega) hc fun c' hc' hc0 hpc => by
        rw [parent_eq_iff hc0] at hpc
        have : c' = 2 * (down.2 + 1) - 1 := by omega
        rw [this]).toUpOrder (by omega) value) (by simpa using hlen') le_rfl
  · exact siftUp_order hK value _ _ _ (o.toUpOrder (by omega) value) hlen' le_rfl

/-- `std::pop_heap` of a heap leaves a heap on all but the last position. -/
theorem popHeap_order (hK : Consistent lt K) {v : List α} (h : HeapBelow K v v.length 0) :
    HeapBelow K (popHeap lt v) (v.length - 1) 0 := by
  unfold popHeap
  split
  · apply adjustHeap_order hK _ _ (by omega) (by simp)
    intro c hc hc0 _
    have hp := parent_lt hc0
    rw [getD_set_ne _ _ _ (by omega), getD_set_ne _ _ _ (by omega)]
    exact h c (by omega) hc0 (Nat.zero_le _)
  · intro c hc hc0; omega

/-- `std::push_heap` onto a heap of all but the last position makes the whole vector a heap. -/
theorem pushHeap_order (hK : Consistent lt K) {v : List α} (hv : 0 < v.length)
    (h : HeapBelow K v (v.length - 1) 0) : HeapBelow K (pushHeap lt v) v.length 0 := by
  have nochild : ∀ c, c < v.length → 0 < c → parent c ≠ v.length - 1 := by
    intro c hc hc0 hpc; rw [parent_eq_iff hc0] at hpc; omega
  exact siftUp_order hK _ _ _ _
    ⟨⟨inSubtree_zero _, by omega, fun c hc hc0 _ hcn _ => h c (by omega) hc0 (Nat.zero_le _),
      fun _ c hc hc0 hpc => absurd hpc (nochild c hc hc0)⟩,
      fun c hc hc0 hpc => absurd hpc (nochild c hc hc0)⟩ le_rfl le_rfl

/-- The loop of `std::__make_heap`, from parent `p` down, makes a heap of what has heaps below
`p`. -/
theorem makeHeapFrom_order (hK : Consistent lt K) (len : Nat) :
    ∀ p (v : List α), HeapBelow K v len (p + 1) → p < len → len ≤ v.length →
      HeapBelow K (makeHeapFrom lt len p v) len 0
  | 0, v, h, hp, hlen => adjustHeap_order hK _ h hp hlen
  | p + 1, v, h, hp, hlen =>
    makeHeapFrom_order hK len p _ (adjustHeap_order hK _ h hp hlen) (by omega) (by simpa using hlen)

/-- `std::make_heap` makes a heap. -/
theorem makeHeap_order (hK : Consistent lt K) (v : List α) :
    HeapBelow K (makeHeap lt v) v.length 0 := by
  unfold makeHeap
  split
  · intro c hc hc0; omega
  · exact makeHeapFrom_order hK _ _ _ (fun c hc hc0 hpc => by unfold parent at hpc; omega)
      (by omega) le_rfl

end Runs

end TabletLoadBalancer
