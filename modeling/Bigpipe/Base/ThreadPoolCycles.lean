import Bigpipe.Base.ThreadPool
import Mathlib.Data.Finset.Card

/-!
# `Bigpipe.Base.ThreadPoolCycles`: a thread pool over all its calls

`Start` and `Stop` of `ThreadPool` called one after another, in any
order, and the destructor. What a worker, a caller of `PutTask`, and
the `put` of `Stop` do is `Bigpipe.Base.ThreadPool`. What is added is
`threads_`, to which every `Start` appends, over which every `Stop`
iterates, and from which nothing is removed.

So a second `Start` runs twice as many workers, and a second `Stop`
also comes to the threads that the first one has joined already. The
first of them is not joinable any more, and `join` on it throws. The
model keeps the flags of the threads for that, and the list of calls
that are still to come, so that a run is about a whole program of
calls.

* A `std::thread` of `threads_` is modelled by whether it is joinable.
  Its index is that of the worker that it runs.
* `join` throws where the thread is not joinable. A run ends there.
-/

set_option autoImplicit false

namespace Bigpipe.ThreadPoolCycles

open Bigpipe.Lib
open Bigpipe.ThreadPool (OwnerPc WorkerPc stopNext)

/-- A call of the owner. -/
inductive Call where
  | start
  | stop
  deriving DecidableEq, Repr

/-- The life of the pool: the owner makes its calls, it is in the
`Stop` of the destructor, or the body of the destructor has
returned. -/
inductive Phase where
  | used
  | destroying
  | destroyed
  deriving DecidableEq, Repr

/-- The state of a pool with at most `N` threads. `threads` says which
threads of `threads_` are joinable. `joined` lists the indices of the
threads that were joined, `made` the calls so far, and `calls` those
to come. `thrown` is set where `join` throws. `N` is the number of
workers that all the calls of `Start` together spawn. -/
structure State (N : Nat) (C Task : Type) (cap : Nat) where
  pool : ThreadPool.State N C Task cap
  threads : List Bool
  joined : List Nat
  made : List Call
  calls : List Call
  phase : Phase
  thrown : Bool

/-- The events of a pool. `within` is an event of a worker, of a
caller, or of the `put` in `Stop`. The events of the owner are its
calls, the rounds of their loops, and the destructor. -/
inductive Event (N : Nat) (C Task : Type) where
  | call
  | spawn
  | join
  | destroy
  | destroyed
  | within (e : ThreadPool.Event N C Task)

section

variable {N : Nat} {C Task : Type} {cap : Nat}

/-- No call is in progress: there was none, `Start` has returned, or
`Stop` has. -/
def between : OwnerPc → Bool
  | .idle | .started | .stopped => true
  | .starting _ | .stopPut _ | .stopPutting _ | .stopJoin _ => false

/-- `Start` sets the flag before its loop. -/
def State.start (s : State N C Task cap) : State N C Task cap :=
  { s with pool := { s.pool with isRunning := true, owner := .starting 0 } }

/-- `Stop` clears the flag before its loop over `threads_`. The loop
runs over all of them, those of earlier cycles included. -/
def State.stop (s : State N C Task cap) : State N C Task cap :=
  { s with pool := { s.pool with isRunning := false, owner := stopNext s.threads.length 0 } }

/-- The owner makes its next call. It does so where no call is in
progress: the owner is one thread, and the list of its calls is given
beforehand. -/
def call (s : State N C Task cap) : Option (State N C Task cap) :=
  match s.phase, between s.pool.owner, s.calls with
  | .used, true, .start :: calls => some { s.start with made := s.made ++ [.start], calls }
  | .used, true, .stop :: calls => some { s.stop with made := s.made ++ [.stop], calls }
  | _, _, _ => none

/-- The loop of `Start`, for `maxThreads = n`: `emplace_back` of the
next thread, or the return. -/
def spawn (n : Nat) (s : State N C Task cap) : Option (State N C Task cap) :=
  match s.pool.owner with
  | .starting i =>
    if i < n then
      -- The events have no name for more than `N` threads. `spawn_room`:
      -- there are no more.
      if h : s.threads.length < N then
        some { s with
          pool := { s.pool.setWorker ⟨s.threads.length, h⟩ .loop with owner := .starting (i + 1) }
          threads := s.threads ++ [true] }
      else none
    else some { s with pool := { s.pool with owner := .started } }
  | _ => none

/-- `thread.join()` in the loop of `Stop`: throws where the thread is
not joinable. Otherwise it returns once the thread has ended, which is
not joinable from then on. -/
def join (s : State N C Task cap) : Option (State N C Task cap) :=
  match s.pool.owner with
  | .stopJoin i =>
    match s.threads[i]? with
    | some true =>
      if h : i < N then
        match s.pool.worker ⟨i, h⟩ with
        | .left => some { s with
            pool := { s.pool with owner := stopNext s.threads.length (i + 1) }
            threads := s.threads.set i false
            joined := s.joined ++ [i] }
        | _ => none
      else none
    | some false => some { s with thrown := true }
    | none => none
  | _ => none

/-- `~ThreadPool()`, after the last call: `if (IsRunning) Stop()`. The
destructor of `threads_` comes behind it. -/
def destroy (s : State N C Task cap) : Option (State N C Task cap) :=
  match s.phase, between s.pool.owner, s.calls with
  | .used, true, [] =>
    if s.pool.isRunning then some { s.stop with phase := .destroying }
    else some { s with phase := .destroyed }
  | _, _, _ => none

/-- The `Stop` of the destructor has returned. -/
def destroyed (s : State N C Task cap) : Option (State N C Task cap) :=
  match s.phase, s.pool.owner with
  | .destroying, .stopped => some { s with phase := .destroyed }
  | _, _ => none

variable [DecidableEq C] [Fintype C]

/-- A step that goes past `threads_`: one of a worker or of a caller,
or of the `put` in `Stop`. These are the steps of
`Bigpipe.Base.ThreadPool`, on the pool with `N` workers. -/
def within (s : State N C Task cap) (e : ThreadPool.Event N C Task) :
    Option (State N C Task cap) :=
  match e with
  | .start | .spawn | .stop | .join => none
  | e => ((ThreadPool.system N C Task cap).step s.pool e).map fun pool => { s with pool }

/-- The constructor, before the calls. It sets the two sizes and the
flag; the threads are made by `Start`. -/
def initial (calls : List Call) : State N C Task cap where
  pool := ThreadPool.initial
  threads := []
  joined := []
  made := []
  calls
  phase := .used
  thrown := false

/-- A pool with `maxThreads = n` on which the owner makes `calls`, and
which it then destroys. Each `Start` among the calls spawns `n`
threads, so `n` times the number of them bounds the workers. -/
def system (n : Nat) (C Task : Type) (cap : Nat) [DecidableEq C] [Fintype C] (calls : List Call) :
    System (State (n * calls.count .start) C Task cap) (Event (n * calls.count .start) C Task) where
  init s := s = initial calls
  step s
    | .call => call s
    | .spawn => spawn n s
    | .join => join s
    | .destroy => destroy s
    | .destroyed => destroyed s
    | .within e => within s e

end

end Bigpipe.ThreadPoolCycles
