import Bigpipe.Client.AsyncClient

/-!
# `Bigpipe.Client.LimitedClient`: the workers with their token bucket and circuit breaker

The workers of `Bigpipe.Client.AsyncClient` with the two objects of
the client that all of them use: `Call` asks the circuit breaker and
takes a token from the bucket, and each answer of the server is
reported to the breaker.

There the answers of the two objects are inputs. Here they are
computed, from the fields of the objects, the readings of the clock
and the draws. So a run can come to what the source does not define:
the first report to a breaker looks for the last bucket of a deque
that nothing has ever filled. The run ends at that point, as no
statement about what comes behind it would be one about the program.

* An event carries the readings of the clock and the draw that its
  call makes.
* `GetToken` holds the mutex of the bucket while it sleeps, so until
  then no other worker enters it.
* `buckets.back()` on the empty deque and a sleep that does not fit an
  `int` are not defined, and end the run.
-/

set_option autoImplicit false

namespace Bigpipe.AsyncClient

open Bigpipe.Lib

/-- `notifyCircuitBreaker`, at the time `now`. Without a breaker it
does nothing, and with one it is as defined as the report itself. -/
def notifyCircuitBreaker (client : AsyncClient) (success : Bool) (now : Int) :
    Option AsyncClient :=
  match client.circuitBreaker with
  | none => some client
  | some breaker =>
    (if success then breaker.onSuccess now else breaker.onFail now).map fun breaker =>
      { client with circuitBreaker := some breaker }

/-- The state of the workers and of their client. `sleeper` is the
worker that sleeps in `GetToken`, and `undefined` is set where the
source has no defined behaviour any more. -/
structure Limited (n : Nat) where
  call : Fin n → Option CallPc
  client : AsyncClient
  sleeper : Option (Fin n)
  undefined : Bool

/-- The events. `getToken` is the call up to its return or its sleep,
and `slept` the end of the sleep. -/
inductive LimitedEvent (n : Nat) where
  | call (i : Fin n)
  | isBreak (i : Fin n) (now healthNow : Int) (rand : Nat)
  | getToken (i : Fin n) (now : Int)
  | slept (i : Fin n)
  | attempt (i : Fin n) (msg : RequestMessage) (outcome : Outcome) (now : Int)
  | next (i : Fin n)

namespace Limited

variable {n : Nat}

/-- The worker `i` moves to `pc`. -/
def move (s : Limited n) (i : Fin n) (pc : Option CallPc) : Limited n :=
  { s with call := Function.update s.call i pc }

/-- The workers of a client, all outside of `Call`, with nobody asleep
in `GetToken`. The client is as its `Set` functions have left it. -/
def initial (client : AsyncClient) : Limited n where
  call _ := none
  client
  sleeper := none
  undefined := false

/-- `todo()`, which is `Call(msg)`. -/
def enter (s : Limited n) (i : Fin n) : Option (Limited n) :=
  match s.call i with
  | none => some (s.move i (some (AsyncClient.call s.client.conf)))
  | some _ => none

/-- `circuitBreaker->IsBreak()`. Where it returns true, the worker
sleeps and asks again. -/
def isBreak (s : Limited n) (i : Fin n) (now healthNow : Int) (rand : Nat) :
    Option (Limited n) :=
  match s.call i, s.client.circuitBreaker with
  | some .breaker, some breaker =>
    let (breaker, isBreak) := breaker.isBreak now healthNow rand
    some { s.move i (some (if isBreak then .breaker else .token)) with
      client := { s.client with circuitBreaker := some breaker } }
  | _, _ => none

/-- `rateLimit->GetToken(1)` behind the assertion. It holds the lock
of the bucket while it sleeps, so another worker has no step here
until the sleeper has woken. -/
def getToken (s : Limited n) (i : Fin n) (now : Int) : Option (Limited n) :=
  match s.call i, s.client.rateLimit with
  -- `assert(rateLimit != nullptr)`.
  | some .token, none => some (s.move i (some .aborted))
  | some .token, some bucket =>
    if s.sleeper.isSome then none
    else
      match bucket.getToken now 1 with
      | none => some { s with undefined := true }
      | some (bucket, time) =>
        let client := { s.client with rateLimit := some bucket }
        if time = now then
          some { s.move i (some (retry s.client.retries 0)) with client }
        else some { s with client, sleeper := some i }
  | _, _ => none

/-- The sleep in `GetToken` ends, and it returns. -/
def slept (s : Limited n) (i : Fin n) : Option (Limited n) :=
  if s.sleeper = some i then
    some { s.move i (some (retry s.client.retries 0)) with sleeper := none }
  else none

/-- An attempt of `CallWithRetry`, with its `notifyCircuitBreaker` at
the time `now`. -/
def attempt (s : Limited n) (i : Fin n) (msg : RequestMessage) (outcome : Outcome) (now : Int) :
    Option (Limited n) :=
  match s.call i with
  | some (.attempt k) =>
    let done := AsyncClient.attempt s.client.retries k msg outcome
    match done.notified with
    | none => some (s.move i (some done.next))
    | some success =>
      match s.client.notifyCircuitBreaker success now with
      | none => some { s with undefined := true }
      | some client => some { s.move i (some done.next) with client }
  | _ => none

/-- `Call` has returned, and `RunInLoop` goes on. -/
def next (s : Limited n) (i : Fin n) : Option (Limited n) :=
  match s.call i with
  | some .returned => some (s.move i none)
  | _ => none

end Limited

/-- The workers of a client as a transition system. They take no step
after the end of the process, or after behaviour that is not
defined. -/
def limited (client : AsyncClient) (n : Nat) : System (Limited n) (LimitedEvent n) where
  init s := s = .initial client
  step s e :=
    if hasEnded s.call ∨ s.undefined = true then none
    else
      match e with
      | .call i => s.enter i
      | .isBreak i now healthNow rand => s.isBreak i now healthNow rand
      | .getToken i now => s.getToken i now
      | .slept i => s.slept i
      | .attempt i msg outcome now => s.attempt i msg outcome now
      | .next i => s.next i

end Bigpipe.AsyncClient
