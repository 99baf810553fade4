import Bigpipe.Base.BoundedBlockingQueue
import Mathlib.Data.Fintype.Sum
import Mathlib.Tactic.DeriveFintype

/-!
# `Bigpipe.Base.ThreadPool`: the thread pool

The class `ThreadPool` of `base/ThreadPool.hpp`. The threads are the
workers in `RunInLoop`, the callers of `PutTask`, and the owner, which
calls `Start` and `Stop`. Each event is the next shared access of one
thread: a read or a write of `IsRunning`, a lock section of `queue_`,
a spawn or a join. The local steps before the next shared access
belong to the event. A task is a `std::function`, and the null task is
`none`.

The flag and the queue are two different things to a worker. It tests
`IsRunning` without the mutex, and then goes into `take` and sleeps
there until it gets an item. `Stop` clears the flag and puts one null
task for each worker, so that a worker that sleeps gets up and sees
the flag. Between the test and the `take` anything may happen, which
is where the schedules come from that the proofs about `Stop` are
about.

`started` and `stopped` of the owner are the returns of `Start` and
`Stop`. A pool is started once and stopped once.
`Bigpipe.Base.ThreadPoolCycles` has a pool that is started and stopped
again and again.
-/

set_option autoImplicit false

namespace Bigpipe.ThreadPool

open Bigpipe.Lib
open Bigpipe.BoundedBlockingQueue (queue)

/-- The threads of a pool with `maxThreads = n` and callers `C`. The
callers are a type of their own: how many threads call `PutTask` is
not up to the pool. -/
inductive Tid (n : Nat) (C : Type) where
  | worker (i : Fin n)
  | caller (c : C)
  | owner
  deriving DecidableEq, Fintype

/-- Where a worker is in `RunInLoop`. The body of the loop is `auto
todo = queue_.take(); if (todo) todo();`, and the flag is tested in
front of it only, so a worker that waits in `take` sees a cleared flag
after its next task. -/
inductive WorkerPc (Task : Type) where
  /-- Not spawned yet. -/
  | unborn
  /-- At the test of `IsRunning`. -/
  | loop
  /-- In `queue_.take()`. -/
  | taking
  /-- At `if (todo) todo()`. -/
  | todo (task : Option Task)
  /-- It left the loop, and the thread has ended. -/
  | left
  deriving DecidableEq, Repr

/-- Where the owner is in `Start` and `Stop`. The index is the loop
variable. -/
inductive OwnerPc where
  /-- Before `Start`. -/
  | idle
  /-- In the loop of `Start`, about to spawn the thread `i`. -/
  | starting (i : Nat)
  /-- `Start` has returned. -/
  | started
  /-- In the loop of `Stop`, about to call `queue_.put(Task())` for the
  thread `i`. -/
  | stopPut (i : Nat)
  /-- In that `put`. -/
  | stopPutting (i : Nat)
  /-- In `thread.join()` on the thread `i`. -/
  | stopJoin (i : Nat)
  /-- `Stop` has returned. -/
  | stopped
  deriving DecidableEq, Repr

/-- The state of `queue_`, whose items are tasks. -/
abbrev Queue (n : Nat) (C Task : Type) (cap : Nat) :=
  BoundedBlockingQueue.State (Tid n C) (Option Task) cap

/-- The state of a pool. `executed` lists the tasks that were run, in
order. -/
structure State (n : Nat) (C Task : Type) (cap : Nat) where
  queue : Queue n C Task cap
  isRunning : Bool
  worker : Fin n → WorkerPc Task
  owner : OwnerPc
  executed : List Task

/-- The events of a pool. The events of a lock section name the thread
that its notification wakes, if any. -/
inductive Event (n : Nat) (C Task : Type) where
  | start
  | spawn
  | stop
  | stopPut
  | stopSection (pick : Option (Tid n C))
  | join
  | test (i : Fin n)
  | workerSection (i : Fin n) (pick : Option (Tid n C))
  | runTask (i : Fin n)
  | putTask (c : C) (task : Option Task)
  | callerSection (c : C) (pick : Option (Tid n C))
  | spurious (t : Tid n C)

section

variable {n : Nat} {C Task : Type} {cap : Nat}

/-- The worker `i` moves to `pc`. -/
def State.setWorker (s : State n C Task cap) (i : Fin n) (pc : WorkerPc Task) :
    State n C Task cap :=
  { s with worker := Function.update s.worker i pc }

@[simp] theorem State.setWorker_worker (s : State n C Task cap) (i j : Fin n)
    (pc : WorkerPc Task) :
    (s.setWorker i pc).worker j = if j = i then pc else s.worker j :=
  Function.update_apply s.worker i pc j

@[simp] theorem State.setWorker_queue (s : State n C Task cap) (i : Fin n)
    (pc : WorkerPc Task) : (s.setWorker i pc).queue = s.queue := rfl
@[simp] theorem State.setWorker_owner (s : State n C Task cap) (i : Fin n)
    (pc : WorkerPc Task) : (s.setWorker i pc).owner = s.owner := rfl

variable [DecidableEq C] [Fintype C]

/-- The constructor: nothing runs, and the queue has `maxTasks = cap`
slots. `IsRunning` is cleared until `Start`. -/
def initial : State n C Task cap where
  queue := (queue (Option Task) cap).initial
  isRunning := false
  worker _ := .unborn
  owner := .idle
  executed := []

/-- `Start`: sets the flag before the loop that spawns the threads. A
worker that is spawned therefore finds it set, unless `Stop` has come
in between. -/
def start (s : State n C Task cap) : Option (State n C Task cap) :=
  match s.owner with
  | .idle => some { s with isRunning := true, owner := .starting 0 }
  | _ => none

/-- The loop of `Start`: spawns the next thread, or returns after the
last. -/
def spawn (s : State n C Task cap) : Option (State n C Task cap) :=
  match s.owner with
  | .starting i =>
    if h : i < n then some { s.setWorker ⟨i, h⟩ .loop with owner := .starting (i + 1) }
    else some { s with owner := .started }
  | _ => none

/-- The head of the loop of `Stop` at the index `i`. -/
def stopNext (n i : Nat) : OwnerPc :=
  if i < n then .stopPut i else .stopped

/-- `Stop`: clears the flag and enters its loop. From here on a worker
that comes back to the test leaves, whatever is still in the queue. -/
def stop (s : State n C Task cap) : Option (State n C Task cap) :=
  match s.owner with
  | .started => some { s with isRunning := false, owner := stopNext n 0 }
  | _ => none

/-- `Stop` calls `queue_.put(Task())` with the null task, a temporary.
It puts one for each thread, and joins that thread before it puts the
next. -/
def stopPut (s : State n C Task cap) : Option (State n C Task cap) :=
  match s.owner with
  | .stopPut i =>
    (Monitor.call s.queue .owner (.putMove none)).map fun q =>
      { s with queue := q, owner := .stopPutting i }
  | _ => none

/-- A lock section of that `put`. When it returns, `Stop` goes on to
`thread.join()`. On a full queue the `put` waits like any other. -/
def stopSection (s : State n C Task cap) (pick : Option (Tid n C)) :
    Option (State n C Task cap) :=
  match s.owner with
  | .stopPutting i =>
    (Monitor.acquire (queue (Option Task) cap) s.queue .owner pick).map fun
      | (q, .returned _) => { s with queue := q, owner := .stopJoin i }
      | (q, _) => { s with queue := q }
  | _ => none

/-- `thread.join()` returns once the thread has ended. The loop of
`Stop` joins a thread before it puts the empty function for the next
one. -/
def join (s : State n C Task cap) : Option (State n C Task cap) :=
  match s.owner with
  | .stopJoin i =>
    if h : i < n then
      match s.worker ⟨i, h⟩ with
      | .left => some { s with owner := stopNext n (i + 1) }
      | _ => none
    else none
  | _ => none

/-- `while (IsRunning)`: into `queue_.take()`, or out of the loop. The
flag is read without the mutex of the queue, so it may change before
the worker comes to the `take`. -/
def test (s : State n C Task cap) (i : Fin n) : Option (State n C Task cap) :=
  match s.worker i, s.isRunning with
  | .loop, true =>
    (Monitor.call s.queue (.worker i) .take).map fun q => { s.setWorker i .taking with queue := q }
  | .loop, false => some (s.setWorker i .left)
  | _, _ => none

/-- A lock section of `queue_.take()`. The worker may go to sleep in
it and come back for another one. -/
def workerSection (s : State n C Task cap) (i : Fin n) (pick : Option (Tid n C)) :
    Option (State n C Task cap) :=
  match s.worker i with
  | .taking =>
    (Monitor.acquire (queue (Option Task) cap) s.queue (.worker i) pick).map fun
      | (q, .returned (.item todo)) => { s.setWorker i (.todo todo) with queue := q }
      | (q, _) => { s with queue := q }
  | _ => none

/-- `if (todo) todo()`, for a task that terminates. The null task of
`Stop` is skipped, and the worker goes on to the test like after any
other. -/
def runTask (s : State n C Task cap) (i : Fin n) : Option (State n C Task cap) :=
  match s.worker i with
  -- The null task adds nothing to the executed ones.
  | .todo task => some { s.setWorker i .loop with executed := s.executed ++ task.toList }
  | _ => none

/-- `PutTask` calls `queue_.put(task)`. -/
def putTask (s : State n C Task cap) (c : C) (task : Option Task) : Option (State n C Task cap) :=
  (Monitor.call s.queue (.caller c) (.put task)).map fun q => { s with queue := q }

/-- A lock section of that `put`. -/
def callerSection (s : State n C Task cap) (c : C) (pick : Option (Tid n C)) :
    Option (State n C Task cap) :=
  (Monitor.acquire (queue (Option Task) cap) s.queue (.caller c) pick).map fun
    | (q, _) => { s with queue := q }

/-- A thread that sleeps in the queue wakes without a notification. -/
def spurious (s : State n C Task cap) (t : Tid n C) : Option (State n C Task cap) :=
  (Monitor.spurious s.queue t).map fun q => { s with queue := q }

/-- The pool as a transition system. The callers call `PutTask` when
they like and with whatever task, before `Start` and after `Stop` as
well. -/
def system (n : Nat) (C Task : Type) (cap : Nat) [DecidableEq C] [Fintype C] :
    System (State n C Task cap) (Event n C Task) where
  init s := s = initial
  step s
    | .start => start s
    | .spawn => spawn s
    | .stop => stop s
    | .stopPut => stopPut s
    | .stopSection pick => stopSection s pick
    | .join => join s
    | .test i => test s i
    | .workerSection i pick => workerSection s i pick
    | .runTask i => runTask s i
    | .putTask c task => putTask s c task
    | .callerSection c pick => callerSection s c pick
    | .spurious t => spurious s t

end

end Bigpipe.ThreadPool
