import Mathlib.Data.List.Basic

/-!
# The standard heap algorithms, as libstdc++ runs them

`make_plan` keeps two kinds of heaps in `std::vector`s and maintains them with `std::make_heap`,
`std::pop_heap` and `std::push_heap` under a comparator that reads live loads. Which element a
pop returns once a key has changed inside the heap depends on the exact moves of the library,
so this file follows libstdc++'s `bits/stl_heap.h` step by step: `__push_heap` moves a hole up,
`__adjust_heap` moves a hole down to a leaf along the larger children and then pushes the saved
value up from there, `__pop_heap` saves the last element, moves the root to the back and adjusts
from the root, and `__make_heap` adjusts every parent from the last one down to the root.

A vector is a list, read with `getD` (every index read is in range in the library's loops).
Indices are the library's signed `_Distance`; every call here has a length of at least one,
where natural-number subtraction and division agree with it. The loops carry fuel in place of
the `while`: each round moves the hole strictly up (`__push_heap`) or strictly down inside the
range (`__adjust_heap`), so fuel equal to the start position, or to the length, is never the
reason a loop stops.
-/

set_option autoImplicit false

namespace TabletLoadBalancer

variable {α : Type} [Inhabited α]

/-- The parent of position `i` in a level-order binary tree, `(i - 1) / 2`. -/
def parent (i : Nat) : Nat := (i - 1) / 2

/-- `std::__push_heap`: while the hole is below `top` and its parent is less than `value`, move
the parent down into the hole; then store `value` in the hole. -/
def siftUp (lt : α → α → Bool) (value : α) : Nat → List α → Nat → Nat → List α
  | 0, v, hole, _ => v.set hole value
  | fuel + 1, v, hole, top =>
    if top < hole ∧ lt (v.getD (parent hole) default) value then
      siftUp lt value fuel (v.set hole (v.getD (parent hole) default)) (parent hole) top
    else v.set hole value

/-- The `while` loop of `std::__adjust_heap`: while the hole has two children inside `len`,
move the larger one (the right one unless it is less than the left one) up into the hole. -/
def siftDown (lt : α → α → Bool) (len : Nat) : Nat → List α → Nat → List α × Nat
  | 0, v, hole => (v, hole)
  | fuel + 1, v, hole =>
    if hole < (len - 1) / 2 then
      let right := 2 * (hole + 1)
      let child := if lt (v.getD right default) (v.getD (right - 1) default) then right - 1
        else right
      siftDown lt len fuel (v.set hole (v.getD child default)) child
    else (v, hole)

/-- `std::__adjust_heap`: sift the hole at `hole` down to a leaf of the first `len` positions
(moving a lone left child up when `len` is even), then push `value` up from there, no higher
than the starting position. -/
def adjustHeap (lt : α → α → Bool) (v : List α) (hole len : Nat) (value : α) : List α :=
  let down := siftDown lt len len v hole
  let leaf := if len % 2 = 0 ∧ down.2 = (len - 2) / 2 then
      (down.1.set down.2 (down.1.getD (2 * (down.2 + 1) - 1) default), 2 * (down.2 + 1) - 1)
    else down
  siftUp lt value leaf.2 leaf.1 leaf.2 hole

/-- `std::pop_heap`: for more than one element, move the root to the back and restore the heap
on the rest by adjusting from the root with the former last element. -/
def popHeap (lt : α → α → Bool) (v : List α) : List α :=
  if 1 < v.length then
    adjustHeap lt (v.set (v.length - 1) (v.getD 0 default)) 0 (v.length - 1)
      (v.getD (v.length - 1) default)
  else v

/-- `std::push_heap`: push the last element up into the heap formed by the others. -/
def pushHeap (lt : α → α → Bool) (v : List α) : List α :=
  siftUp lt (v.getD (v.length - 1) default) (v.length - 1) v (v.length - 1) 0

/-- The loop of `std::__make_heap`: adjust from position `p`, then from every position below
it down to the root. -/
def makeHeapFrom (lt : α → α → Bool) (len : Nat) : Nat → List α → List α
  | 0, v => adjustHeap lt v 0 len (v.getD 0 default)
  | p + 1, v => makeHeapFrom lt len p (adjustHeap lt v (p + 1) len (v.getD (p + 1) default))

/-- `std::make_heap`: for at least two elements, adjust every parent from the last one,
`(len - 2) / 2`, down to the root. -/
def makeHeap (lt : α → α → Bool) (v : List α) : List α :=
  if v.length < 2 then v else makeHeapFrom lt v.length ((v.length - 2) / 2) v

/-- A max-heap in the standard's sense on the first `n` positions: no element is greater than
its parent under `lt` (`!comp(v[parent(i)], v[i])`). -/
def IsHeap (lt : α → α → Bool) (v : List α) (n : Nat) : Prop :=
  ∀ i, i < n → 0 < i → lt (v.getD (parent i) default) (v.getD i default) = false

instance (lt : α → α → Bool) (v : List α) (n : Nat) : Decidable (IsHeap lt v n) :=
  inferInstanceAs (Decidable (∀ i, i < n → 0 < i → _))

end TabletLoadBalancer
