import TabletLoadBalancer.Analysis.HeapOrder

/-!
# The libstdc++ heap algorithms permute their vector

A sift does not swap: it saves one value, moves elements into a hole, and writes the value where
the hole stops. The invariant is that writing the saved value into the current hole would give a
permutation of the start, and one hole move keeps it because it only exchanges the contents of
two positions (`perm_set_set`). Then `pop_heap` moves the old root to the back and leaves the
positions before it a permutation of the rest.
-/

set_option autoImplicit false

namespace TabletLoadBalancer

variable {α : Type} [Inhabited α]

/-- Moving position `j`'s element into `i` and writing `x` at `j` permutes what writing `x` at
`i` gives. -/
theorem perm_set_set [DecidableEq α] (v : List α) {i j : Nat} (x : α) (hi : i < v.length)
    (hj : j < v.length) : ((v.set i (v.getD j default)).set j x).Perm (v.set i x) := by
  by_cases hij : i = j
  · subst hij; simp
  rw [show v.getD j default = v[j] by simp [hj], List.perm_iff_count]
  intro b
  rw [List.count_set _ _ _ _ (by simpa using hj), List.count_set _ _ _ _ hi,
    List.count_set _ _ _ _ hi, List.getElem_set_ne hij]
  split_ifs <;> omega

/-- `__push_heap` permutes what writing its value into the starting hole gives. -/
theorem siftUp_perm [DecidableEq α] (lt : α → α → Bool) (value : α) :
    ∀ fuel (v : List α) hole top, hole < v.length →
      (siftUp lt value fuel v hole top).Perm (v.set hole value)
  | 0, v, hole, top, _ => by simp [siftUp]
  | fuel + 1, v, hole, top, hh => by
    unfold siftUp
    split
    · rename_i hin
      have hp : parent hole < hole := parent_lt (by omega)
      exact (siftUp_perm lt value fuel _ _ top (by simp; omega)).trans
        (perm_set_set v value hh (by omega))
    · exact List.Perm.refl _

/-- The descent of `__adjust_heap` keeps its hole in range, and writing any value into the final
hole permutes writing it into the first. -/
theorem siftDown_perm [DecidableEq α] (lt : α → α → Bool) (len : Nat) :
    ∀ fuel (v : List α) hole, hole < len → len ≤ v.length →
      (siftDown lt len fuel v hole).2 < len ∧ ∀ value,
        ((siftDown lt len fuel v hole).1.set (siftDown lt len fuel v hole).2 value).Perm
          (v.set hole value)
  | 0, v, hole, hh, _ => ⟨hh, fun _ => List.Perm.refl _⟩
  | fuel + 1, v, hole, hh, hlen => by
    unfold siftDown
    split
    · rename_i hin
      have hc : ∀ b : Bool, (if b then 2 * (hole + 1) - 1 else 2 * (hole + 1)) < len := by
        intro b; cases b <;> simp <;> omega
      obtain ⟨hlt, hp⟩ := siftDown_perm lt len fuel
        (v.set hole (v.getD _ default)) _ (hc _) (by simpa using hlen)
      exact ⟨hlt, fun value => (hp value).trans (perm_set_set v value (by omega) (by
        have := hc (lt (v.getD (2 * (hole + 1)) default) (v.getD (2 * (hole + 1) - 1) default))
        omega))⟩
    · exact ⟨hh, fun _ => List.Perm.refl _⟩

/-- `__adjust_heap` permutes what writing its value into the starting hole gives. -/
theorem adjustHeap_perm [DecidableEq α] (lt : α → α → Bool) {v : List α} {hole len : Nat}
    (value : α) (hh : hole < len) (hlen : len ≤ v.length) :
    (adjustHeap lt v hole len value).Perm (v.set hole value) := by
  obtain ⟨hlt, hp⟩ := siftDown_perm lt len len v hole hh hlen
  have hl := siftDown_length lt len len v hole
  unfold adjustHeap
  generalize siftDown lt len len v hole = down at hlt hp hl ⊢
  dsimp only
  split
  · rename_i hodd
    refine (siftUp_perm lt value _ _ _ _ (by simp; omega)).trans ?_
    exact (perm_set_set down.1 value (by omega) (by omega)).trans (hp value)
  · exact (siftUp_perm lt value _ _ _ _ (by omega)).trans (hp value)

/-- `std::pop_heap` permutes its vector. -/
theorem popHeap_perm [DecidableEq α] (lt : α → α → Bool) (v : List α) : (popHeap lt v).Perm v := by
  unfold popHeap
  split
  · refine (adjustHeap_perm lt _ (by omega) (by simp)).trans ?_
    refine (perm_set_set v _ (by omega) (by omega)).trans ?_
    rw [set_getD_self]
  · exact List.Perm.refl _

/-- `std::push_heap` permutes its vector. -/
theorem pushHeap_perm [DecidableEq α] (lt : α → α → Bool) (v : List α) :
    (pushHeap lt v).Perm v := by
  unfold pushHeap
  rcases Nat.eq_zero_or_pos v.length with h | h
  · rw [List.length_eq_zero.mp h]; simp [siftUp]
  · exact (siftUp_perm lt _ _ _ _ _ (by omega)).trans (by rw [set_getD_self])

/-- `std::make_heap` permutes its vector. -/
theorem makeHeap_perm [DecidableEq α] (lt : α → α → Bool) (v : List α) :
    (makeHeap lt v).Perm v := by
  have step : ∀ p (w : List α), p < w.length →
      (adjustHeap lt w p w.length (w.getD p default)).Perm w := fun p w hp => by
    exact (adjustHeap_perm lt _ hp le_rfl).trans (by rw [set_getD_self])
  have loop : ∀ p (w : List α), p < w.length → (makeHeapFrom lt w.length p w).Perm w := by
    intro p
    induction p with
    | zero => exact step 0
    | succ p ih =>
      intro w hp
      have := ih (adjustHeap lt w (p + 1) w.length (w.getD (p + 1) default)) (by simp; omega)
      simp only [adjustHeap_length] at this
      exact this.trans (step _ w hp)
  unfold makeHeap
  split
  · exact List.Perm.refl _
  · exact loop _ _ (by omega)

/-! ## What stays in place -/

/-- `__push_heap` writes nothing after its starting hole. -/
theorem siftUp_frame (lt : α → α → Bool) (value : α) :
    ∀ fuel (v : List α) hole top i, hole < i →
      (siftUp lt value fuel v hole top).getD i default = v.getD i default
  | 0, v, hole, top, i, hi => getD_set_ne _ _ _ (by omega)
  | fuel + 1, v, hole, top, i, hi => by
    unfold siftUp
    split
    · have hp : parent hole < hole := parent_lt (by omega)
      rw [siftUp_frame lt value fuel _ _ top i (by omega), getD_set_ne _ _ _ (by omega)]
    · exact getD_set_ne _ _ _ (by omega)

/-- The descent of `__adjust_heap` writes nothing at or past `len`. -/
theorem siftDown_frame (lt : α → α → Bool) (len : Nat) :
    ∀ fuel (v : List α) hole, hole < len → ∀ i, len ≤ i →
      (siftDown lt len fuel v hole).1.getD i default = v.getD i default
  | 0, v, hole, _, i, _ => rfl
  | fuel + 1, v, hole, hh, i, hi => by
    unfold siftDown
    split
    · have hc : ∀ b : Bool, (if b then 2 * (hole + 1) - 1 else 2 * (hole + 1)) < len := by
        intro b; cases b <;> simp <;> omega
      rw [siftDown_frame lt len fuel _ _ (hc _) i hi, getD_set_ne _ _ _ (by omega)]
    · rfl

/-- `__adjust_heap` writes nothing at or past `len`. -/
theorem adjustHeap_frame [DecidableEq α] (lt : α → α → Bool) {v : List α} {hole len : Nat}
    (value : α) (hh : hole < len) (hlen : len ≤ v.length) (i : Nat) (hi : len ≤ i) :
    (adjustHeap lt v hole len value).getD i default = v.getD i default := by
  have hlt := (siftDown_perm lt len len v hole hh hlen).1
  have hf := siftDown_frame lt len len v hole hh i hi
  unfold adjustHeap
  generalize siftDown lt len len v hole = down at hlt hf ⊢
  dsimp only
  split
  · rw [siftUp_frame lt value _ _ _ _ _ (by omega), getD_set_ne _ _ _ (by omega), hf]
  · rw [siftUp_frame lt value _ _ _ _ _ (by omega), hf]

/-- `std::pop_heap` leaves the old root at the back. -/
theorem popHeap_getLast [DecidableEq α] (lt : α → α → Bool) {v : List α} (hv : 0 < v.length) :
    (popHeap lt v).getLast? = some (v.getD 0 default) := by
  rw [List.getLast?_eq_getElem?, popHeap_length]
  unfold popHeap
  split
  · have hf : (adjustHeap lt (v.set (v.length - 1) (v.getD 0 default)) 0 (v.length - 1)
        (v.getD (v.length - 1) default)).getD (v.length - 1) default = v.getD 0 default := by
      rw [adjustHeap_frame lt _ (by omega) (by simp) _ le_rfl, getD_set_self _ _ _ (by omega)]
    rw [List.getD_eq_getElem?_getD, List.getElem?_eq_getElem (by simp; omega),
      Option.getD_some] at hf
    rw [List.getElem?_eq_getElem (by simp; omega), hf]
  · rw [show v.length - 1 = 0 by omega]
    simp [List.getElem?_eq_getElem hv]

/-- What `pop_heap` leaves at the back is the old root, an element of the vector. -/
theorem popHeap_back [DecidableEq α] (lt : α → α → Bool) {v : List α} (hv : 0 < v.length) {x : α}
    (h : (popHeap lt v).getLast? = some x) : x = v.getD 0 default ∧ x ∈ v := by
  rw [popHeap_getLast lt hv, Option.some.injEq] at h
  subst h
  exact ⟨rfl, by simp [List.getElem?_eq_getElem hv, List.getElem_mem]⟩

/-! ## Popping the root and pushing an element back -/

/-- A popped vector is the rest followed by the old root. -/
theorem popHeap_eq_dropLast_append [DecidableEq α] (lt : α → α → Bool) {v : List α}
    (hv : 0 < v.length) : popHeap lt v = (popHeap lt v).dropLast ++ [v.getD 0 default] := by
  have hne : popHeap lt v ≠ [] := List.ne_nil_of_length_pos (by simpa using hv)
  have hl := popHeap_getLast lt hv
  rw [List.getLast?_eq_getLast _ hne, Option.some.injEq] at hl
  conv_lhs => rw [← List.dropLast_concat_getLast hne]
  rw [hl]

/-- The rest of a popped vector, with the old root, is a permutation of the vector. -/
theorem popHeap_dropLast_perm [DecidableEq α] (lt : α → α → Bool) {v : List α}
    (hv : 0 < v.length) : ((popHeap lt v).dropLast ++ [v.getD 0 default]).Perm v := by
  rw [← popHeap_eq_dropLast_append lt hv]; exact popHeap_perm lt v

/-- Popping a heap without duplicates splits it into its root and a duplicate-free rest. -/
theorem popHeap_split [DecidableEq α] (lt : α → α → Bool) {v : List α} (hv : 0 < v.length)
    (hnd : v.Nodup) : (popHeap lt v).dropLast.Nodup ∧ v.getD 0 default ∉ (popHeap lt v).dropLast ∧
      ∀ y, y ∈ (popHeap lt v).dropLast ↔ y ∈ v ∧ y ≠ v.getD 0 default := by
  have hp := popHeap_dropLast_perm lt hv
  have hnd' := hp.nodup_iff.mpr hnd
  rw [List.Nodup, List.pairwise_append] at hnd'
  obtain ⟨hrest, -, hdisj⟩ := hnd'
  have hx : v.getD 0 default ∉ (popHeap lt v).dropLast := fun hx =>
    hdisj _ hx _ (List.mem_singleton_self _) rfl
  refine ⟨hrest, hx, fun y => ⟨fun hy => ⟨hp.subset (List.mem_append_left _ hy), ?_⟩, fun ⟨hy, hne⟩ => ?_⟩⟩
  · rintro rfl; exact hx hy
  · rcases List.mem_append.mp (hp.symm.subset hy) with h | h
    · exact h
    · exact absurd (List.mem_singleton.mp h) hne

section Keys

variable {β : Type} [LinearOrder β] {K K' : α → β}

omit [Inhabited α] in
theorem getD_dropLast (v : List α) {i : Nat} (d : α) (hi : i < v.length - 1) :
    v.dropLast.getD i d = v.getD i d := by
  rw [List.getD_eq_getElem?_getD, List.getD_eq_getElem?_getD, List.getElem?_dropLast, if_pos hi]

/-- Every element of a heap has a key at most the root's. -/
theorem HeapBelow.le_root {v : List α} (h : HeapBelow K v v.length 0) {x : α} (hx : x ∈ v) :
    K x ≤ K (v.getD 0 default) := by
  obtain ⟨i, hi, rfl⟩ := List.getElem_of_mem hx
  simpa [hi] using h.root_max i hi

/-- The heap order on all but the last position is the heap order of the vector without it. -/
theorem HeapBelow.dropLast {v : List α} (h : HeapBelow K v (v.length - 1) 0) :
    HeapBelow K v.dropLast v.dropLast.length 0 := by
  intro c hc hc0 _
  have hp := parent_lt hc0
  simp only [List.length_dropLast] at hc
  rw [getD_dropLast _ _ hc, getD_dropLast _ _ (by omega)]
  exact h c hc hc0 (Nat.zero_le _)

/-- A heap with an element appended is a heap on all but the last position. -/
theorem HeapBelow.append_singleton {l : List α} (h : HeapBelow K l l.length 0) (x : α) :
    HeapBelow K (l ++ [x]) ((l ++ [x]).length - 1) 0 := by
  intro c hc hc0 _
  have hp := parent_lt hc0
  simp only [List.length_append, List.length_singleton, Nat.add_sub_cancel] at hc
  have hpl : parent c < l.length := by omega
  simp only [List.getD_eq_getElem?_getD, List.getElem?_append_left hc,
    List.getElem?_append_left hpl]
  simpa [hc, hpl] using h c hc hc0 (Nat.zero_le _)

/-- A heap order survives a change of keys that keeps every comparison of the vector's
elements. -/
theorem HeapBelow.of_le_imp {v : List α} {len top : Nat} (h : HeapBelow K v len top)
    (hlen : len ≤ v.length) (hK : ∀ x ∈ v, ∀ y ∈ v, K x ≤ K y → K' x ≤ K' y) :
    HeapBelow K' v len top := by
  intro c hc hc0 hpc
  have hp := parent_lt hc0
  have mem : ∀ i, i < len → v.getD i default ∈ v := fun i hi => by
    simp [List.getElem?_eq_getElem (show i < v.length by omega)]
  exact hK _ (mem c hc) _ (mem _ (by omega)) (h c hc hc0 hpc)

variable {lt lt' : α → α → Bool}

/-- Popping a heap and dropping its root leaves a heap, also under new keys that keep the
comparisons of what is left. -/
theorem popHeap_dropLast_order [DecidableEq α] (hK : Consistent lt K) {v : List α}
    (h : HeapBelow K v v.length 0)
    (hrest : ∀ x ∈ (popHeap lt v).dropLast, ∀ y ∈ (popHeap lt v).dropLast, K x ≤ K y → K' x ≤ K' y) :
    HeapBelow K' (popHeap lt v).dropLast (popHeap lt v).dropLast.length 0 :=
  HeapBelow.of_le_imp (HeapBelow.dropLast (by simpa using popHeap_order hK h)) le_rfl hrest

/-- Popping a heap and pushing its root back makes a heap, also under new keys that keep the
comparisons of the rest. -/
theorem pushHeap_popHeap_order [DecidableEq α] (hK : Consistent lt K) (hK' : Consistent lt' K')
    {v : List α} (hv : 0 < v.length) (h : HeapBelow K v v.length 0)
    (hrest : ∀ x ∈ (popHeap lt v).dropLast, ∀ y ∈ (popHeap lt v).dropLast, K x ≤ K y → K' x ≤ K' y) :
    HeapBelow K' (pushHeap lt' (popHeap lt v)) v.length 0 := by
  have hd := popHeap_dropLast_order hK h hrest
  rw [popHeap_eq_dropLast_append lt hv] at hd ⊢
  have hp := pushHeap_order hK' (by simp) (hd.append_singleton (v.getD 0 default))
  rwa [List.length_append, List.length_singleton, List.dropLast_concat, List.length_dropLast,
    popHeap_length, Nat.sub_add_cancel hv] at hp

end Keys

end TabletLoadBalancer
