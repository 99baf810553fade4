import Mathlib.Data.List.Basic

/-!
# `Bigpipe.Lib.CircularBuffer`: a ring of fixed capacity

The contents of a circular buffer, oldest first. The bound on the size
is a field, so a buffer above its capacity cannot be built.

`pushBack` into a full buffer overwrites the oldest item, and does
nothing in a buffer of capacity
0. This is what a queue must never come to: its methods test for a
   free slot first, and `items_pushBack` says that `pushBack` appends
   where there is one.
-/

set_option autoImplicit false

namespace Bigpipe.Lib

/-- The contents of a ring of the given capacity, oldest item first.
Where in its memory the ring begins is not seen from outside, and is
left out. -/
structure CircularBuffer (α : Type) (capacity : Nat) where
  items : List α
  size_le : items.length ≤ capacity

namespace CircularBuffer

variable {α : Type} {capacity : Nat}

/-- Two rings with the same contents are equal. -/
@[ext] theorem ext {b b' : CircularBuffer α capacity} (h : b.items = b'.items) : b = b' := by
  cases b
  cases b'
  cases h
  rfl

/-- The ring without items. -/
def empty : CircularBuffer α capacity :=
  ⟨[], Nat.zero_le _⟩

/-- The number of items. -/
def size (b : CircularBuffer α capacity) : Nat :=
  b.items.length

/-- No item in the ring. -/
def isEmpty (b : CircularBuffer α capacity) : Bool :=
  b.size == 0

/-- No free slot in the ring. -/
def isFull (b : CircularBuffer α capacity) : Bool :=
  b.size == capacity

/-- Appends `x`. In a full ring the oldest item makes room for it, so
the number of items stays. Where the capacity is 0 there is no room to
be made, and `x` itself is dropped. -/
def pushBack (b : CircularBuffer α capacity) (x : α) : CircularBuffer α capacity :=
  ⟨(b.items ++ [x]).drop (b.items.length + 1 - capacity), by
    simp only [List.length_drop, List.length_append, List.length_singleton]
    omega⟩

/-- The oldest item. There is none in an empty ring, where the source
must not ask for it. -/
def front (b : CircularBuffer α capacity) : Option α :=
  b.items.head?

/-- Removes the oldest item. On an empty ring, where the source must
not call it, it does nothing here. -/
def popFront (b : CircularBuffer α capacity) : CircularBuffer α capacity :=
  ⟨b.items.tail, by
    rw [List.length_tail]
    exact Nat.le_trans (Nat.sub_le _ _) b.size_le⟩

@[simp] theorem items_popFront (b : CircularBuffer α capacity) :
    b.popFront.items = b.items.tail := rfl

theorem isEmpty_eq_true_iff (b : CircularBuffer α capacity) :
    b.isEmpty = true ↔ b.items = [] := by
  simp [isEmpty, size]

theorem isEmpty_eq_false_iff (b : CircularBuffer α capacity) :
    b.isEmpty = false ↔ b.items ≠ [] := by
  simp [isEmpty, size]

theorem isFull_eq_false_iff (b : CircularBuffer α capacity) :
    b.isFull = false ↔ b.items.length < capacity := by
  have hle := b.size_le
  simp only [isFull, size, beq_eq_false_iff_ne, ne_eq]
  omega

/-- With a free slot, `pushBack` appends and overwrites nothing. -/
theorem items_pushBack {b : CircularBuffer α capacity} (h : b.isFull = false) (x : α) :
    (b.pushBack x).items = b.items ++ [x] := by
  have hlt := b.isFull_eq_false_iff.mp h
  have hdrop : b.items.length + 1 - capacity = 0 := by omega
  simp only [pushBack, hdrop, List.drop_zero]

/-- A non-empty ring is its oldest item and the ring that is left
without it. -/
theorem items_of_front {b : CircularBuffer α capacity} {x : α} (h : b.front = some x) :
    b.items = x :: b.popFront.items := by
  rw [items_popFront]
  exact List.eq_cons_of_mem_head? h

/-- A ring that is not empty has an oldest item. -/
theorem front_ne_none {b : CircularBuffer α capacity} (h : b.isEmpty = false) :
    b.front ≠ none := by
  rw [isEmpty_eq_false_iff] at h
  simpa [front] using h

end CircularBuffer

end Bigpipe.Lib
