import TabletLoadBalancer.Analysis.HeapPerm
import Mathlib.Data.Multiset.Basic

/-!
# The libstdc++ heap algorithms as a priority queue

`make_plan` keeps its hosts (`nodes_by_load`) and each host's shards (`shards_by_load`) in
vectors ordered by `std::make_heap`, `std::pop_heap` and `std::push_heap`, and means by them a
max-priority queue. This module reads the vector model of those algorithms against that abstract
queue, a bag of elements:

* `HeapOf K v q`: the vector `v` holds the bag `q` and is a heap of the keys `K`;
* `makeHeap_heapOf`: `make_heap` of any vector is a queue of its elements;
* `pushHeap_heapOf`: `push_back` then `push_heap` inserts the element into the queue;
* `popHeap_heapOf`: `pop_heap` of a non-empty queue leaves at the back an element of the queue
  with the largest key, and before it a queue of the rest, as `pop_back` expects;
* `heap_maxQueue`: the three together, for every comparator that decides like `<` on the keys.

The keys are fixed here; when the loop changes a key between two calls it leaves this reading,
and the order lemmas of `HeapPerm` say what survives.
-/

set_option autoImplicit false

namespace TabletLoadBalancer

variable {α : Type} [Inhabited α] [DecidableEq α] {β : Type} [LinearOrder β]

/-- The vector `v` holds the bag `q` and is a heap of the keys `K`. -/
structure HeapOf (K : α → β) (v : List α) (q : Multiset α) : Prop where
  bag : (v : Multiset α) = q
  heap : HeapBelow K v v.length 0

/-- `make_heap`, `push_heap` and `pop_heap` with comparator `lt` implement a max-priority queue
of the keys `K`. -/
structure MaxQueue (lt : α → α → Bool) (K : α → β) : Prop where
  make : ∀ v, HeapOf K (makeHeap lt v) v
  push : ∀ {l : List α} {q : Multiset α} (x : α),
    HeapOf K l q → HeapOf K (pushHeap lt (l ++ [x])) (x ::ₘ q)
  pop : ∀ {v : List α} {q : Multiset α}, HeapOf K v q → v ≠ [] →
    ∃ x, (popHeap lt v).getLast? = some x ∧ x ∈ q ∧ (∀ y ∈ q, K y ≤ K x) ∧
      HeapOf K (popHeap lt v).dropLast (q.erase x)

variable {lt : α → α → Bool} {K : α → β}

/-- `std::make_heap` of any vector is a queue of its elements. -/
theorem makeHeap_heapOf (hK : Consistent lt K) (v : List α) : HeapOf K (makeHeap lt v) v :=
  ⟨Multiset.coe_eq_coe.mpr (makeHeap_perm lt v), by
    simpa only [makeHeap_length] using makeHeap_order hK v⟩

/-- Appending an element to a queue and calling `std::push_heap` inserts it. -/
theorem pushHeap_heapOf (hK : Consistent lt K) {l : List α} {q : Multiset α} (x : α)
    (h : HeapOf K l q) : HeapOf K (pushHeap lt (l ++ [x])) (x ::ₘ q) := by
  refine ⟨?_, ?_⟩
  · rw [← h.bag, Multiset.cons_coe, Multiset.coe_eq_coe]
    exact (pushHeap_perm lt _).trans (List.perm_append_singleton x l)
  · simpa only [pushHeap_length] using
      pushHeap_order hK (by simp) (h.heap.append_singleton x)

/-- `std::pop_heap` of a non-empty queue moves to the back an element of largest key and leaves
the rest of the queue before it. -/
theorem popHeap_heapOf (hK : Consistent lt K) {v : List α} {q : Multiset α} (h : HeapOf K v q)
    (hv : v ≠ []) :
    ∃ x, (popHeap lt v).getLast? = some x ∧ x ∈ q ∧ (∀ y ∈ q, K y ≤ K x) ∧
      HeapOf K (popHeap lt v).dropLast (q.erase x) := by
  have hlen := List.length_pos.mpr hv
  obtain ⟨-, hroot⟩ := popHeap_back lt hlen (popHeap_getLast lt hlen)
  -- the rest is the vector without its root
  have hrest : ((popHeap lt v).dropLast).Perm (v.erase (v.getD 0 default)) := by
    have hp := (List.perm_append_singleton _ _).symm.trans (popHeap_dropLast_perm lt hlen)
    simpa only [List.erase_cons_head] using hp.erase (v.getD 0 default)
  obtain ⟨rfl, hheap⟩ := h
  refine ⟨v.getD 0 default, popHeap_getLast lt hlen, Multiset.mem_coe.mpr hroot,
    fun y hy => hheap.le_root (Multiset.mem_coe.mp hy),
    ⟨?_, popHeap_dropLast_order hK hheap fun _ _ _ _ => id⟩⟩
  rw [Multiset.coe_erase, Multiset.coe_eq_coe]
  exact hrest

/-- For every comparator that decides like `<` on the keys `K`, the libstdc++ heap algorithms
implement a max-priority queue of `K`. -/
theorem heap_maxQueue (hK : Consistent lt K) : MaxQueue lt K :=
  ⟨makeHeap_heapOf hK, fun x => pushHeap_heapOf hK x, fun h => popHeap_heapOf hK h⟩

theorem heap_maxQueue_nat :
    Consistent (fun a b : Nat => decide (id a < id b)) (id ∘ id) ∧
      MaxQueue (fun a b : Nat => decide (id a < id b)) (id ∘ id) :=
  ⟨consistent_of_monotone id id monotone_id,
    heap_maxQueue (consistent_of_monotone id id monotone_id)⟩

end TabletLoadBalancer
