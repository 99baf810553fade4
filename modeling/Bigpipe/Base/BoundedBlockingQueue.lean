import Bigpipe.Lib.CircularBuffer
import Bigpipe.Lib.Monitor

/-!
# `Bigpipe.Base.BoundedBlockingQueue`: the bounded queue

The class `BoundedBlockingQueue<T>` of `base/BoundedBlockingQueue.hpp`
as a monitor over `boost::circular_buffer`. `notEmpty_` and `notFull_`
are its condition variables. Each method is one `Method` in the order
of the source: the wait, the body, the notification.

The two notifications are not alike. `take` notifies `notFull_` on
every item that it removes. `put` notifies `notEmpty_` only where its
item is the only one in the ring, so of two items that are put in a
row only the first is announced. Whether a sleeping taker can miss the
second is a question about schedules, and not about one call. The
answers are in `Bigpipe.Proofs.Wakeups`, `Bigpipe.Proofs.Takers` and
`Bigpipe.Proofs.Reservations`.

Both the job channel of the process and the queue of the thread pool
are queues of this class.
-/

set_option autoImplicit false

namespace Bigpipe.BoundedBlockingQueue

open Bigpipe.Lib

/-- `notEmpty_` and `notFull_`. -/
inductive Cond where
  | notEmpty
  | notFull
  deriving DecidableEq, Repr

/-- A call of a method of the queue. The four tests take the mutex as
`put` and `take` do, and answer what was true when they had it. -/
inductive Call (α : Type) where
  | put (x : α)
  | putMove (x : α)
  | take
  | empty
  | full
  | size
  | capacity
  deriving DecidableEq, Repr

/-- The result of a call: nothing for the two `put`s, the element for
`take`, a truth value for `empty` and `full`, a number for `size` and
`capacity`. -/
inductive Ret (α : Type) where
  | unit
  | item (x : α)
  | flag (b : Bool)
  | count (n : Nat)
  deriving DecidableEq, Repr

variable {α : Type} {cap : Nat}

/-- `put(const T&)`: waits for a free slot, appends, and notifies a
taker when the item is the only one. -/
def put (x : α) : Method (CircularBuffer α cap) Cond (Ret α) where
  guard := some (.notFull, fun ringbuffer => !ringbuffer.isFull)
  body ringbuffer :=
    let ringbuffer := ringbuffer.pushBack x
    -- The source notifies only on the transition from an empty ring.
    some (ringbuffer, .unit, if ringbuffer.size = 1 then some .notEmpty else none)

/-- `put(T&&)`: the same statements as `put(const T&)`, where the
named argument is an lvalue and is copied too. `Stop` of the producer
and of the pool use it, for their null items. -/
def putMove (x : α) : Method (CircularBuffer α cap) Cond (Ret α) :=
  put x

/-- `take()`: waits for an item, asserts that there is one, removes
the oldest and notifies a putter. -/
def take : Method (CircularBuffer α cap) Cond (Ret α) where
  guard := some (.notEmpty, fun ringbuffer => !ringbuffer.isEmpty)
  body ringbuffer :=
    match ringbuffer.front with
    -- `assert(!ringbuffer_.empty())`.
    | none => none
    | some front => some (ringbuffer.popFront, .item front, some .notFull)

/-- The four observers read the ring under the mutex and neither wait
nor notify. -/
def observe (f : CircularBuffer α cap → Ret α) : Method (CircularBuffer α cap) Cond (Ret α) where
  guard := none
  body ringbuffer := some (ringbuffer, f ringbuffer, none)

/-- `empty()`. -/
def empty : Method (CircularBuffer α cap) Cond (Ret α) :=
  observe fun ringbuffer => .flag ringbuffer.isEmpty

/-- `full()`. -/
def full : Method (CircularBuffer α cap) Cond (Ret α) :=
  observe fun ringbuffer => .flag ringbuffer.isFull

/-- `size()`. -/
def size : Method (CircularBuffer α cap) Cond (Ret α) :=
  observe fun ringbuffer => .count ringbuffer.size

/-- `capacity()`. -/
def capacity : Method (CircularBuffer α cap) Cond (Ret α) :=
  observe fun _ => .count cap

/-- The queue that the constructor builds from `maxSize`, with an
empty ring. A ring of capacity 0 is full and empty at once, and
nothing can ever be put in it. -/
def queue (α : Type) (maxSize : Nat) :
    Monitor (CircularBuffer α maxSize) Cond (Call α) (Ret α) where
  init := .empty
  method
    | .put x => put x
    | .putMove x => putMove x
    | .take => take
    | .empty => empty
    | .full => full
    | .size => size
    | .capacity => capacity

/-- The state of a queue that the threads `τ` share. -/
abbrev State (τ α : Type) (cap : Nat) :=
  Monitor.State τ (CircularBuffer α cap) (Call α) (Ret α)

/-- The item that a call of either `put` carries. -/
def Call.putItem : Call α → Option α
  | .put x | .putMove x => some x
  | _ => none

/-- The item that a result of `take` carries. -/
def Ret.taken : Ret α → Option α
  | .item x => some x
  | _ => none

variable {τ : Type}

/-- The items given to the completed `put`s of a history, in lock
order. It is the order in which they enter the ring. -/
def puts (hist : List (Monitor.Done τ (Call α) (Ret α))) : List α :=
  hist.filterMap fun c => c.call.putItem

/-- The items returned by the completed `take`s of a history, in lock
order. -/
def takes (hist : List (Monitor.Done τ (Call α) (Ret α))) : List α :=
  hist.filterMap fun c => c.result.taken

@[simp] theorem puts_snoc (hist : List (Monitor.Done τ (Call α) (Ret α)))
    (c : Monitor.Done τ (Call α) (Ret α)) :
    puts (hist ++ [c]) = puts hist ++ c.call.putItem.toList := by
  unfold puts
  rw [List.filterMap_append]
  cases h : c.call.putItem <;> simp [h]

@[simp] theorem takes_snoc (hist : List (Monitor.Done τ (Call α) (Ret α)))
    (c : Monitor.Done τ (Call α) (Ret α)) :
    takes (hist ++ [c]) = takes hist ++ c.result.taken.toList := by
  unfold takes
  rw [List.filterMap_append]
  cases h : c.result.taken <;> simp [h]

/-! ### The predicates and the bodies of the methods -/

/-- Only `take` waits on `notEmpty_`. -/
theorem waitsOn_eq_notEmpty_iff (m : Call α) :
    ((queue α cap).method m).waitsOn = some .notEmpty ↔ m = .take := by
  cases m <;> simp [queue, put, putMove, take, empty, full, size, capacity, observe,
    Method.waitsOn]

/-- Only the two `put`s wait on `notFull_`. So a signal of `take`
never wakes another taker. -/
theorem waitsOn_eq_notFull_iff (m : Call α) :
    ((queue α cap).method m).waitsOn = some .notFull ↔ ∃ x, m.putItem = some x := by
  cases m <;> simp [queue, put, putMove, take, empty, full, size, capacity, observe,
    Method.waitsOn, Call.putItem]

/-- What the body of a call does, where the predicate of its wait
holds: it appends the item of a `put`, removes the item of a `take`,
or leaves the ring as it is. The last argument is the condition
variable that it notifies. -/
inductive Effect (b : CircularBuffer α cap) :
    Call α → CircularBuffer α cap → Ret α → Option Cond → Prop where
  | put {m : Call α} {b' : CircularBuffer α cap} (x : α) (hm : m.putItem = some x)
      (hfull : b.isFull = false) (hitems : b'.items = b.items ++ [x]) :
      Effect b m b' .unit (if b.items = [] then some .notEmpty else none)
  | take {b' : CircularBuffer α cap} (x : α) (hitems : b.items = x :: b'.items) :
      Effect b .take b' (.item x) (some .notFull)
  | observe {m : Call α} {r : Ret α} (hm : m.putItem = none) (hne : m ≠ .take)
      (hr : r.taken = none) :
      Effect b m b r none

/-- The spec of either `put`. The ring has a free slot, so nothing is
overwritten, and the item is the only one exactly where the ring was
empty. -/
theorem put_effect {b : CircularBuffer α cap} {m : Call α} {x : α} (hm : m.putItem = some x)
    {d : CircularBuffer α cap} {r : Ret α} {sig : Option Cond}
    (hready : (put x).ready b = true)
    (hbody : (put x).body b = some (d, r, sig)) : Effect b m d r sig := by
  have hfull : b.isFull = false := by simpa [put, Method.ready] using hready
  have hitems := CircularBuffer.items_pushBack hfull x
  simp only [put, Option.some.injEq, Prod.mk.injEq] at hbody
  obtain ⟨rfl, rfl, rfl⟩ := hbody
  -- The size after the append is 1 exactly when the ring was empty.
  have hsig : ((b.pushBack x).size = 1) = (b.items = []) := by
    simp [CircularBuffer.size, hitems]
  simp only [hsig]
  exact .put x hm hfull hitems

/-- The spec of `take`. -/
theorem take_effect {b : CircularBuffer α cap} {d : CircularBuffer α cap} {r : Ret α}
    {sig : Option Cond} (hbody : take.body b = some (d, r, sig)) :
    Effect b .take d r sig := by
  simp only [take] at hbody
  split at hbody
  · cases hbody
  · rename_i front hfront
    cases hbody
    exact .take front (CircularBuffer.items_of_front hfront)

/-- The body of every call has one of the three effects. Proofs about
the queue use it and never unfold a method. -/
theorem effect_of_body {b d : CircularBuffer α cap} {m : Call α} {r : Ret α}
    {sig : Option Cond} (hready : ((queue α cap).method m).ready b = true)
    (hbody : ((queue α cap).method m).body b = some (d, r, sig)) : Effect b m d r sig := by
  cases m with
  | put x => exact put_effect rfl hready hbody
  | putMove x => exact put_effect rfl hready hbody
  | take => exact take_effect hbody
  | empty => cases hbody; exact .observe rfl nofun rfl
  | full => cases hbody; exact .observe rfl nofun rfl
  | size => cases hbody; exact .observe rfl nofun rfl
  | capacity => cases hbody; exact .observe rfl nofun rfl

/-- Where the predicate of the wait holds, every body is defined: the
assertion of `take` follows from the predicate of its wait. -/
theorem body_ne_none (m : Call α) (b : CircularBuffer α cap)
    (hready : ((queue α cap).method m).ready b = true) :
    ((queue α cap).method m).body b ≠ none := by
  cases m with
  | take =>
      have hempty : b.isEmpty = false := by simpa [queue, take, Method.ready] using hready
      have hfront := CircularBuffer.front_ne_none hempty
      simp only [queue, take]
      split
      · rename_i hnone
        exact absurd hnone hfront
      · simp
  | _ => simp [queue, put, putMove, empty, full, size, capacity, observe]

/-- A call whose predicate fails is a `put` on a full ring or a `take`
on an empty one. -/
theorem not_ready_cases {m : Call α} {b : CircularBuffer α cap}
    (h : ((queue α cap).method m).ready b = false) :
    ((∃ x, m.putItem = some x) ∧ b.isFull = true) ∨ (m = .take ∧ b.items = []) := by
  cases m with
  | put x => exact .inl ⟨⟨x, rfl⟩, by simpa [queue, put, Method.ready] using h⟩
  | putMove x => exact .inl ⟨⟨x, rfl⟩, by simpa [queue, putMove, put, Method.ready] using h⟩
  | take =>
      exact .inr ⟨rfl, b.isEmpty_eq_true_iff.mp (by simpa [queue, take, Method.ready] using h)⟩
  | _ => simp [queue, empty, full, size, capacity, observe, Method.ready] at h

end Bigpipe.BoundedBlockingQueue
