import TabletLoadBalancer.Model.Heap
import Mathlib.Algebra.Order.Group.Nat

/-!
# Positions in a level-order heap, and writes into a vector

The arithmetic the heap proofs share: `parent` moves strictly up, the children of `h` are
`2h + 1` and `2h + 2`, and `InSubtree top h` says that `h` lies below `top` (its ancestors
reach `top`). `__adjust_heap` started at `top` only ever moves its hole inside that subtree, which
is what lets `std::make_heap` adjust one parent at a time. Then the two facts about `List.set`
every sift step uses: reading the written position, and reading any other.
-/

set_option autoImplicit false

namespace TabletLoadBalancer

theorem parent_lt {i : Nat} (h : 0 < i) : parent i < i := by
  unfold parent; omega

@[simp] theorem parent_left (h : Nat) : parent (2 * h + 1) = h := by
  unfold parent; omega

@[simp] theorem parent_right (h : Nat) : parent (2 * h + 2) = h := by
  unfold parent; omega

/-- The children of `h` are exactly `2h + 1` and `2h + 2`. -/
theorem parent_eq_iff {c h : Nat} (hc : 0 < c) : parent c = h ↔ c = 2 * h + 1 ∨ c = 2 * h + 2 := by
  unfold parent; omega

/-- `h` lies in the subtree rooted at `top`: some ancestor of `h`, or `h` itself, is `top`. -/
def InSubtree (top h : Nat) : Prop := ∃ k, (h + 1) / 2 ^ k = top + 1

theorem InSubtree.refl (top : Nat) : InSubtree top top := ⟨0, by simp⟩

theorem InSubtree.child {top h c : Nat} (hs : InSubtree top h) (hc : 0 < c) (hp : parent c = h) :
    InSubtree top c := by
  obtain ⟨k, hk⟩ := hs
  have hup : (c + 1) / 2 = h + 1 := by unfold parent at hp; omega
  exact ⟨k + 1, by rw [pow_succ', ← Nat.div_div_eq_div_mul, hup, hk]⟩

theorem InSubtree.le {top h : Nat} (hs : InSubtree top h) : top ≤ h := by
  obtain ⟨k, hk⟩ := hs
  have := Nat.div_le_self (h + 1) (2 ^ k)
  omega

theorem InSubtree.parent {top h : Nat} (hs : InSubtree top h) (hne : h ≠ top) :
    InSubtree top (parent h) := by
  obtain ⟨k, hk⟩ := hs
  cases k with
  | zero => simp at hk; omega
  | succ k =>
    rw [pow_succ', ← Nat.div_div_eq_div_mul] at hk
    have h0 : 0 < h := by
      rcases Nat.eq_zero_or_pos h with rfl | h0
      · simp at hk
      · exact h0
    have hup : TabletLoadBalancer.parent h + 1 = (h + 1) / 2 := by
      unfold TabletLoadBalancer.parent; omega
    exact ⟨k, by rw [hup, hk]⟩

/-- Every position lies below the root. -/
theorem inSubtree_zero (h : Nat) : InSubtree 0 h := by
  induction h using Nat.strong_induction_on with
  | _ h ih =>
    rcases Nat.eq_zero_or_pos h with rfl | h0
    · exact InSubtree.refl 0
    · exact (ih _ (parent_lt h0)).child h0 rfl

variable {α : Type}

@[simp] theorem getD_set_self (v : List α) {i : Nat} (a d : α) (h : i < v.length) :
    (v.set i a).getD i d = a := by
  simp [h]

theorem getD_set_ne (v : List α) {i j : Nat} (a d : α) (h : i ≠ j) :
    (v.set i a).getD j d = v.getD j d := by
  simp [List.getElem?_set_ne h]

/-- Writing back what a position holds changes nothing. -/
@[simp] theorem set_getD_self (v : List α) (i : Nat) (d : α) : v.set i (v.getD i d) = v := by
  apply List.ext_getElem?
  intro j
  by_cases h : i = j
  · subst h
    by_cases hi : i < v.length
    · simp [hi]
    · simp [List.set_eq_of_length_le (not_lt.mp hi)]
  · simp [List.getElem?_set_ne h]

end TabletLoadBalancer
