import Bigpipe.Client.CircuitBreaker
import Bigpipe.Client.RateLimit
import Bigpipe.Lib.MultiMap
import Bigpipe.Proto.Messages

/-!
# `Bigpipe.Client.AsyncClient`: a call and its attempts

The class `AsyncClient` of `client/async_client.hpp` with its
constructor and setters, and its methods `Call` and `CallWithRetry`. A
call is a program counter and one step for each thing it waits for:
the answer of `IsBreak`, the return of `GetToken`, the outcome of an
HTTP attempt. A step is given the message that it reads, because
`Call` has a reference to a message that somebody else owns.

`cpprest` is not part of the repository. `HttpRequest` is what the
program uses of its request: a header that is added under a name that
is there joins the values of that name, names are compared without
regard to case, and the body is empty unless it is set.

`workers` are the workers of the thread pool with respect to `Call`:
each takes a task, goes through its call, and takes the next. Which
task it takes, and which message, is left to the events. So is what
the token bucket and the circuit breaker say, whose own states are not
here: with a breaker set, these workers have every run of the source
and go on where the report of an outcome to the breaker is undefined.
`Bigpipe.Client.LimitedClient` runs them with the two objects, ends
the run there, and is what the results on the reports are about.
-/

set_option autoImplicit false

/-- The fields of `AsyncClient`. Of the pool it is the number of
workers; the pool itself has a model of its own, with 20 places in its
queue. -/
structure Bigpipe.AsyncClient where
  nWorkers : Int
  retries : Int
  timeout : Int
  rateLimit : Option Client.TokenBucket := none
  circuitBreaker : Option Client.CircuitBreaker := none

namespace Bigpipe.AsyncClient

open Bigpipe.Lib
open Bigpipe.Client (addInt)

/-- The constructor. It sets no token bucket and no circuit breaker,
and the program never sets them later. -/
def new (nWorkers retries timeout : Int) : AsyncClient where
  nWorkers
  retries
  timeout

/-- `SetTokenBucket`, at the reading `now`. -/
def setTokenBucket (client : AsyncClient) (rate : ℚ) (now : Int) : AsyncClient :=
  { client with rateLimit := some (.new rate now) }

/-- `SetCircuitBreaker`, at the time `now`. -/
def setCircuitBreaker (client : AsyncClient) (conf : Client.CircuitBreakerConf) (now : Int) :
    AsyncClient :=
  { client with circuitBreaker := some (.new conf now) }

/-! ### The HTTP request -/

/-- `http_headers`: the values under each name. -/
abbrev HttpHeaders := MultiMap String String

/-- What names of headers are compared by: their letters without
regard to case. `headers().add` appends to the value under an equal
name. -/
def headerName (name : String) : List Char :=
  name.toList.map Char.toLower

/-- What the client sends of an `http_request`. The body is a field
here because the type of the source has one, although `CallWithRetry`
never sets it. -/
structure HttpRequest where
  method : String
  url : String
  headers : HttpHeaders := []
  body : String := ""
  deriving DecidableEq, Repr

/-- The values of a header. -/
def HttpRequest.header (request : HttpRequest) (name : String) : List String :=
  MultiMap.values headerName request.headers name

/-- `headers().add`. -/
def HttpRequest.addHeader (request : HttpRequest) (name value : String) : HttpRequest :=
  { request with headers := MultiMap.add headerName request.headers name value }

/-- The headers of a message, in the order of its map. Names that
differ only in case are different keys of the map, and meet again in
the request. -/
def httpHeaders (msg : RequestMessage) : List (String × String) :=
  msg.headers.entries.map fun head => (head.1, head.2)

/-- The request that an attempt of `CallWithRetry` builds from the
message: its URL, its headers, and behind them a content type and the
length of its data. The body is never set, so the request announces
the data and does not have it. -/
def httpRequest (msg : RequestMessage) : HttpRequest :=
  let request : HttpRequest := { method := "POST", url := msg.url }
  let request := (httpHeaders msg).foldl (fun request head => request.addHeader head.1 head.2)
    request
  let request := request.addHeader "Content-Type" "application/octet-stream"
  -- The data is counted, and is not put in the body.
  request.addHeader "Content-Length" (toString msg.data.utf8ByteSize)

/-- What becomes of an attempt. The first two are exceptions, of the
constructor of `http_client` and of `client.request(request).get()`,
and nothing in the client catches either. -/
inductive Outcome where
  /-- The constructor of `http_client` throws, and nothing is sent. -/
  | refused
  /-- `client.request(request).get()` throws. -/
  | thrown
  /-- The server answers. -/
  | status (code : Nat)
  deriving DecidableEq, Repr

/-! ### `CallWithRetry` -/

/-- Where a call is. The last three are its ends: `Call` returns, it
is left by an exception, or its assertion stops the process. -/
inductive CallPc where
  /-- In front of `circuitBreaker->IsBreak()`. -/
  | breaker
  /-- In front of `rateLimit->GetToken(1)`. -/
  | token
  /-- In the loop of `CallWithRetry`, in front of the attempt `i`. -/
  | attempt (i : Int)
  | returned
  /-- An exception left the call. -/
  | thrown
  /-- The assertion in `Call` failed. -/
  | aborted
  deriving DecidableEq, Repr

/-- The test of the loop, which is `retries + 1` and nothing else. The
source compares nothing with `i`, so the loop goes on for ever or is
never entered. -/
def retry (retries i : Int) : CallPc :=
  if addInt retries 1 ≠ 0 then .attempt i else .returned

/-- What an attempt does: the request that it sends, the argument of
its `notifyCircuitBreaker`, and where the call goes on. -/
structure Attempt where
  request : Option HttpRequest
  notified : Option Bool
  next : CallPc
  deriving DecidableEq, Repr

/-- The body of the loop of `CallWithRetry` for the attempt `i`. An
exception leaves the call and its thread, since nobody catches it. Any
code but 200 is a failure, and the loop goes on. -/
def attempt (retries i : Int) (msg : RequestMessage) : Outcome → Attempt
  | .refused => ⟨none, none, .thrown⟩
  | .thrown => ⟨some (httpRequest msg), none, .thrown⟩
  | .status code =>
    if code ≠ 200 then ⟨some (httpRequest msg), some false, retry retries (addInt i 1)⟩
    else ⟨some (httpRequest msg), some true, .returned⟩

/-- The state of `CallWithRetry`: the requests sent and the
notifications of the breaker, both in order. -/
structure RetryState where
  pc : CallPc
  requests : List HttpRequest := []
  notified : List Bool := []
  deriving DecidableEq, Repr

/-- `CallWithRetry` for one message. An event is the outcome of the
next attempt, so a list of outcomes is a run. -/
def callWithRetry (retries : Int) (msg : RequestMessage) : System RetryState Outcome where
  init s := s = { pc := retry retries 0 }
  step s outcome :=
    match s.pc with
    | .attempt i =>
      let done := attempt retries i msg outcome
      some {
        pc := done.next
        requests := s.requests ++ done.request.toList
        notified := s.notified ++ done.notified.toList }
    | _ => none

/-! ### `Call` -/

/-- The fields of `AsyncClient` that `Call` uses: the number of
retries, and whether a token bucket and a circuit breaker have been
set. -/
structure Conf where
  retries : Int
  rateLimit : Bool
  circuitBreaker : Bool
  deriving DecidableEq, Repr

/-- What `Call` uses of the fields of a client. -/
def conf (client : AsyncClient) : Conf where
  retries := client.retries
  rateLimit := client.rateLimit.isSome
  circuitBreaker := client.circuitBreaker.isSome

/-- What `Call` waits for before its first attempt. The answer of the
breaker is part of the event, so a run may have any answers. -/
inductive Gate where
  /-- `IsBreak` answers. -/
  | isBreak (isBreak : Bool)
  /-- `GetToken(1)` returns. -/
  | getToken
  deriving DecidableEq, Repr

/-- The start of `Call`: at the loop around `IsBreak`, or past it
where no breaker is set. -/
def call (conf : Conf) : CallPc :=
  if conf.circuitBreaker then .breaker else .token

/-- `Call` up to `CallWithRetry`. While the circuit is broken it
sleeps and asks again. `GetToken` is called once, in front of the
loop, so the retries take no tokens. -/
def gate (conf : Conf) : CallPc → Gate → Option CallPc
  | .breaker, .isBreak isBreak => some (if isBreak then .breaker else .token)
  -- `assert(rateLimit != nullptr)`.
  | .token, .getToken => some (if conf.rateLimit then retry conf.retries 0 else .aborted)
  | _, _ => none

/-! ### The workers -/

/-- What a worker does in `Call`, as far as the rest of the program,
the breaker and the server see it. The log of a run is a list of these
with the worker that did them. -/
inductive Action where
  /-- It enters `Call`. -/
  | called
  /-- `IsBreak` answered. -/
  | isBreak (isBreak : Bool)
  /-- `GetToken(1)` returned. -/
  | getToken
  /-- It started an HTTP request. -/
  | requested (request : HttpRequest)
  deriving DecidableEq, Repr

/-- The events of the workers. An attempt has the message that it read
and its outcome; where these come from is left open, so that the
result holds of any messages and any server. -/
inductive WorkerEvent (n : Nat) where
  /-- `RunInLoop` calls `todo()`, which is `Call(msg)`. -/
  | call (i : Fin n)
  | gate (i : Fin n) (gate : Gate)
  | attempt (i : Fin n) (msg : RequestMessage) (outcome : Outcome)
  /-- `Call` has returned, and `RunInLoop` goes on. -/
  | next (i : Fin n)

section

variable {n : Nat}

/-- The worker of an event. -/
def WorkerEvent.worker : WorkerEvent n → Fin n
  | .call i | .gate i _ | .attempt i _ _ | .next i => i

/-- An exception left a worker, or an assertion failed in one. Either
ends the process, and so the steps of all workers. -/
def hasEnded (s : Fin n → Option CallPc) : Prop :=
  ∃ i, s i = some .thrown ∨ s i = some .aborted

instance (s : Fin n → Option CallPc) : Decidable (hasEnded s) :=
  inferInstanceAs (Decidable (∃ _, _))

/-- Where a worker goes on in an event, where it can. Outside of
`Call` it is at `none`. -/
def workerStep (conf : Conf) (pc : Option CallPc) : WorkerEvent n → Option (Option CallPc)
  | .call _ => if pc = none then some (some (call conf)) else none
  | .gate _ g =>
    match pc with
    | some pc => (gate conf pc g).map some
    | none => none
  | .attempt _ msg outcome =>
    match pc with
    | some (.attempt k) => some (some (attempt conf.retries k msg outcome).next)
    | _ => none
  | .next _ => if pc = some .returned then some none else none

/-- The workers of an `AsyncClient`. They take no step after the end
of the process, which an exception of one of them brings about for
all. -/
def workers (conf : Conf) (n : Nat) : System (Fin n → Option CallPc) (WorkerEvent n) where
  init s := s = fun _ => none
  step s e :=
    if hasEnded s then none
    else (workerStep conf (s e.worker) e).map fun pc => Function.update s e.worker pc

/-- What the worker of an event does in it: the calls of `Call`, and
the start of a request. An attempt that is refused sends nothing. -/
def workerActions (conf : Conf) (pc : Option CallPc) : WorkerEvent n → List Action
  | .call _ => [.called]
  | .gate _ (.isBreak isBreak) => [.isBreak isBreak]
  -- The assertion comes before the call of `GetToken`.
  | .gate _ .getToken => if conf.rateLimit then [.getToken] else []
  | .attempt _ msg outcome =>
    match pc with
    | some (.attempt k) =>
      (attempt conf.retries k msg outcome).request.toList.map .requested
    | _ => []
  | .next _ => []

/-- The workers with the log of what they do. -/
def workersLog (conf : Conf) (n : Nat) :
    System ((Fin n → Option CallPc) × List (Fin n × Action)) (WorkerEvent n) :=
  (workers conf n).logged fun s e =>
    (workerActions conf (s e.worker) e).map fun action => (e.worker, action)

end

end Bigpipe.AsyncClient
