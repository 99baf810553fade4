import Bigpipe.Lib.Fifo

/-!
# `Bigpipe.Base.BlockingQueue`: the unbounded queue

The class `BlockingQueue<T>` of `base/BlockingQueue.hpp` as a monitor
over a `std::deque`, which is a list here. `cond_` is its only
condition variable. Both `put`s notify it on every item.

Nothing bounds the deque, so a `put` never waits and there is no
second condition variable. It is the sibling of the bounded queue,
whose `put` notifies only where it finds the ring empty. The two
differ in what a sleeping `take` can rely on.
-/

set_option autoImplicit false

namespace Bigpipe.BlockingQueue

open Bigpipe.Lib

/-- `cond_`. -/
inductive Cond where
  | cond
  deriving DecidableEq, Repr

/-- A call of a method of the queue. The two overloads of `put` have
the same body: both append a copy, since a named rvalue reference is
an lvalue. -/
inductive Call (α : Type) where
  | put (x : α)
  | putMove (x : α)
  | take
  | size
  deriving DecidableEq, Repr

/-- The result of a call: nothing for the two `put`s, the element for
`take`, a number for `size`. -/
inductive Ret (α : Type) where
  | unit
  | item (x : α)
  | count (n : Nat)
  deriving DecidableEq, Repr

variable {α : Type}

/-- `put(const T&)`: appends and notifies one taker. The notification
does not look at how many items there were before. -/
def put (x : α) : Method (List α) Cond (Ret α) where
  guard := none
  body queue := some (queue ++ [x], .unit, some .cond)

/-- `put(T&&)`: the same statements as `put(const T&)`, where the
named argument is an lvalue and is copied too. -/
def putMove (x : α) : Method (List α) Cond (Ret α) :=
  put x

/-- `take()`: waits for an item, asserts that there is one and removes
the oldest. It notifies nobody, as nobody waits for room. -/
def take : Method (List α) Cond (Ret α) where
  guard := some (.cond, fun queue => !queue.isEmpty)
  body
    -- `assert(!queue_.empty())`.
    | [] => none
    | front :: queue => some (queue, .item front, none)

/-- `size()` reads the length under the mutex. -/
def size : Method (List α) Cond (Ret α) where
  guard := none
  body queue := some (queue, .count queue.length, none)

/-- The queue that the constructor builds, without items. Its methods
are one `Method` each. -/
def queue (α : Type) : Monitor (List α) Cond (Call α) (Ret α) where
  init := []
  method
    | .put x => put x
    | .putMove x => putMove x
    | .take => take
    | .size => size

/-- The state of a queue that the threads `τ` share. -/
abbrev State (τ α : Type) :=
  Monitor.State τ (List α) (Call α) (Ret α)

/-- The item that a call of either `put` carries. -/
def Call.putItem : Call α → Option α
  | .put x | .putMove x => some x
  | .take | .size => none

/-- The item that a result of `take` carries. -/
def Ret.taken : Ret α → Option α
  | .item x => some x
  | .unit | .count _ => none

variable {τ : Type}

/-- The items given to the completed `put`s of a history, in lock
order. That need not be the order in which the threads called. -/
def puts (hist : List (Monitor.Done τ (Call α) (Ret α))) : List α :=
  Monitor.brought Call.putItem hist

/-- The items returned by the completed `take`s of a history, in lock
order. -/
def takes (hist : List (Monitor.Done τ (Call α) (Ret α))) : List α :=
  Monitor.handedOut Ret.taken hist

/-! ### The predicates and the bodies of the methods -/

/-- Only `take` waits. -/
theorem waitsOn_eq_cond_iff (m : Call α) :
    ((queue α).method m).waitsOn = some .cond ↔ m = .take := by
  cases m <;> simp [queue, put, putMove, take, size, Method.waitsOn]

/-- The predicate of a call fails exactly for a `take` on an empty
queue. -/
theorem ready_eq_false_iff (m : Call α) (items : List α) :
    ((queue α).method m).ready items = false ↔ m = .take ∧ items = [] := by
  cases m <;> simp [queue, put, putMove, take, size, Method.ready]

/-- What the body of a call does, where it is defined. `take` has a
case for a queue with a front element only: its wait does not let it
go on without one. -/
inductive Effect (items : List α) : Call α → List α → Ret α → Option Cond → Prop where
  | put {m : Call α} (x : α) (hm : m.putItem = some x) :
      Effect items m (items ++ [x]) .unit (some .cond)
  | take {items' : List α} (x : α) (hitems : items = x :: items') :
      Effect items .take items' (.item x) none
  | size : Effect items .size items (.count items.length) none

/-- The body of every call has one of the three effects. Proofs about
the queue use it and never unfold a method. -/
theorem effect_of_body {items items' : List α} {m : Call α} {r : Ret α} {sig : Option Cond}
    (hbody : ((queue α).method m).body items = some (items', r, sig)) :
    Effect items m items' r sig := by
  cases m with
  | put x =>
      cases hbody
      exact .put x rfl
  | putMove x =>
      cases hbody
      exact .put x rfl
  | take =>
      cases items with
      | nil => cases hbody
      | cons x rest =>
          cases hbody
          exact .take x rfl
  | size =>
      cases hbody
      exact .size

/-- Where the predicate of the wait holds, every body is defined: the
assertion of `take` follows from the predicate of its wait, since the
mutex is held in between. -/
theorem body_ne_none (m : Call α) (items : List α)
    (hready : ((queue α).method m).ready items = true) :
    ((queue α).method m).body items ≠ none := by
  cases m with
  | take =>
      cases items with
      | nil => cases hready
      | cons x rest => nofun
  | put | putMove | size => nofun

end Bigpipe.BlockingQueue
