import Bigpipe.Acceptor.Acceptor
import Bigpipe.Base.BoundedBlockingQueue
import Bigpipe.Kafka.Producer
import Mathlib.Data.Fintype.Sum
import Mathlib.Tactic.DeriveFintype

/-!
# `Bigpipe.Main`: the acceptor and the producer together

The threads of `main.cpp` around the job channel: the handler threads
of the HTTP server, the thread in `KafkaProducer::Pushing`, and
`main`, which calls `Start` and `Stop` of the producer and of the
acceptor. Each event is the next shared access of one thread, as in
`Bigpipe.Base.ThreadPool`. The local steps before the next shared
access belong to the event.

The HTTP server takes requests between `Acceptor::Start` and
`Acceptor::Stop`. A handler that is in `RpcCallback` at `Stop` goes
on. `produced` lists what was passed to `kafkaClient->produce`, and
`answers` lists the answered requests, both in order.

`Start` of the producer spawns the thread first and sets `IsRunning`
afterwards. A thread that comes to its test in between reads a flag
that nobody has set, and which value it has then is up to chance: the
constructor leaves it open. So the initial state has any value of the
flag, and the two halves of `Start` are two events.

At its end `producer.Stop()` asks the Kafka client for the length of
its out queue, once a second, until it is 0. The client is not part of
the repository, and nothing in the program polls it. So each answer
comes with its event, and `main` may stay in that loop for good.
-/

set_option autoImplicit false

namespace Bigpipe.Main

open Bigpipe.Lib
open Bigpipe.Acceptor (HandlerPc Answer receive success overloaded)
open Bigpipe.BoundedBlockingQueue (queue)
open Bigpipe.KafkaProducer (PushingPc push)

/-- The threads, with handler threads `H`. How many handlers there are
is up to the HTTP server. -/
inductive Tid (H : Type) where
  | pushing
  | handler (h : H)
  | main
  deriving DecidableEq, Fintype

/-- Where `main` is. It starts the producer and the acceptor, waits
for the interrupt and stops them in the order of the source; the
consumer has a model of its own. -/
inductive MainPc where
  /-- Before `producer.Start()`. -/
  | idle
  /-- In `producer.Start()`, after the loop that spawns `Pushing`. -/
  | spawned
  /-- `producer.Start()` has returned. -/
  | started
  /-- `acceptor.Start()` has returned. -/
  | serving
  /-- `acceptor.Stop()` has returned. -/
  | closed
  /-- In `producer.Stop()`, about to call
  `taskchan->put(RequestMessage())`. -/
  | stopPut
  /-- In that `put`. -/
  | stopPutting
  /-- In `join()`. -/
  | stopJoin
  /-- In the loop that waits for the out queue of the Kafka client. -/
  | flushing
  /-- `producer.Stop()` has returned. -/
  | stopped
  deriving DecidableEq, Repr

/-- `producer.Stop()` has not been called. -/
def MainPc.beforeStop : MainPc → Bool
  | .idle | .spawned | .started | .serving | .closed => true
  | .stopPut | .stopPutting | .stopJoin | .flushing | .stopped => false

/-- The state of the job channel: the bounded queue, shared by all of
these threads. -/
abbrev Channel (H : Type) (cap : Nat) :=
  BoundedBlockingQueue.State (Tid H) RequestMessage cap

/-- The state of the process. `crashed` is set when a trap or an
exception that nobody catches ends it. -/
structure State (H : Type) (cap : Nat) where
  taskchan : Channel H cap
  isRunning : Bool
  topics : Topics
  main : MainPc
  pushing : PushingPc
  handler : H → HandlerPc
  produced : List MessageBuilder
  answers : List Answer
  crashed : Bool

/-- The events. The events of a lock section name the thread that its
notification wakes, if any. `request` carries the request and the file
system that its handler reads, `push` the number that `random_device`
draws and whether `produce` throws, and `flush` what
`get_out_queue_length()` returns. -/
inductive Event (H : Type) where
  | start
  | setRunning
  | serve
  | close
  | stop
  | stopPut
  | stopSection (pick : Option (Tid H))
  | join
  | flush (length : Nat)
  | test
  | takeSection (pick : Option (Tid H))
  | push (rd : UInt32) (throws : Bool)
  | request (h : H) (fs : FileSystem) (headers : UnorderedMap String) (body : String)
  | fullSection (h : H) (pick : Option (Tid H))
  | put (h : H)
  | putSection (h : H) (pick : Option (Tid H))
  | spurious (t : Tid H)

section

variable {H : Type} {cap : Nat} [DecidableEq H]

/-- The handler `h` moves to `pc`. -/
def State.setHandler (s : State H cap) (h : H) (pc : HandlerPc) : State H cap :=
  { s with handler := Function.update s.handler h pc }

@[simp] theorem State.setHandler_handler (s : State H cap) (h k : H) (pc : HandlerPc) :
    (s.setHandler h pc).handler k = if k = h then pc else s.handler k :=
  Function.update_apply s.handler h pc k

/-- The handler `h` writes `status`, and the request is answered. -/
def State.answer (s : State H cap) (h : H) (reqmsg : RequestMessage) (resp : List CallResp)
    (status : CallResp) : State H cap :=
  { s.setHandler h .idle with answers := s.answers ++ [⟨reqmsg, resp ++ [status]⟩] }

variable [Fintype H]

/-- The state before `producer.Start()`, with the configured topics.
`IsRunning` was not initialized, so it may have either value. -/
def initial (topics : Topics) (isRunning : Bool) : State H cap where
  taskchan := (queue RequestMessage cap).initial
  isRunning := isRunning
  topics := topics
  main := .idle
  pushing := .unborn
  handler _ := .idle
  produced := []
  answers := []
  crashed := false

/-- `producer.Start()` up to the assignment of `IsRunning`: spawns one
thread, which may test the flag at once. -/
def start (s : State H cap) : Option (State H cap) :=
  match s.main with
  | .idle => some { s with main := .spawned, pushing := .loop }
  | _ => none

/-- The rest of `producer.Start()`. -/
def setRunning (s : State H cap) : Option (State H cap) :=
  match s.main with
  | .spawned => some { s with main := .started, isRunning := true }
  | _ => none

/-- `acceptor.Start()`. -/
def serve (s : State H cap) : Option (State H cap) :=
  match s.main with
  | .started => some { s with main := .serving }
  | _ => none

/-- `acceptor.Stop()`. It takes no new requests from here on, and
waits for none of those that are in a handler. -/
def close (s : State H cap) : Option (State H cap) :=
  match s.main with
  | .serving => some { s with main := .closed }
  | _ => none

/-- `producer.Stop()` clears the flag. `Pushing` sees it at its next
test, and leaves what is in the channel behind. -/
def stop (s : State H cap) : Option (State H cap) :=
  match s.main with
  | .closed => some { s with main := .stopPut, isRunning := false }
  | _ => none

/-- `producer.Stop()` calls `taskchan->put(RequestMessage())` with a
temporary. The message without a topic is meant to wake `Pushing` out
of `take`. -/
def stopPut (s : State H cap) : Option (State H cap) :=
  match s.main with
  | .stopPut =>
    (Monitor.call s.taskchan .main (.putMove {})).map fun q =>
      { s with taskchan := q, main := .stopPutting }
  | _ => none

/-- A lock section of that `put`. When it returns, `Stop` goes on to
`join()`. -/
def stopSection (s : State H cap) (pick : Option (Tid H)) : Option (State H cap) :=
  match s.main with
  | .stopPutting =>
    (Monitor.acquire (queue RequestMessage cap) s.taskchan .main pick).map fun
      | (q, .returned _) => { s with taskchan := q, main := .stopJoin }
      | (q, _) => { s with taskchan := q }
  | _ => none

/-- `join()` returns once the thread has ended. -/
def join (s : State H cap) : Option (State H cap) :=
  match s.main, s.pushing with
  | .stopJoin, .left => some { s with main := .flushing }
  | _, _ => none

/-- One round of `while (kafkaClient->get_out_queue_length() > 0)`:
the test, and where it is true the body. `length` is what the client
answers. No step of the model lowers it, as no call of the program
does. -/
def flush (s : State H cap) (length : Nat) : Option (State H cap) :=
  match s.main with
  | .flushing =>
    -- The body of the loop logs a line and sleeps for a second.
    if length > 0 then some s
    -- The out queue is empty, and `Stop` returns.
    else some { s with main := .stopped }
  | _ => none

/-- `while (IsRunning)`: into `taskchan->take()`, or out of the
loop. -/
def test (s : State H cap) : Option (State H cap) :=
  match s.pushing, s.isRunning with
  | .loop, true =>
    (Monitor.call s.taskchan .pushing .take).map fun q =>
      { s with taskchan := q, pushing := .taking }
  | .loop, false => some { s with pushing := .left }
  | _, _ => none

/-- A lock section of `taskchan->take()`. Where it returns a message,
`Pushing` holds it; where it ends asleep, only the channel has
changed. -/
def takeSection (s : State H cap) (pick : Option (Tid H)) : Option (State H cap) :=
  match s.pushing with
  | .taking =>
    (Monitor.acquire (queue RequestMessage cap) s.taskchan .pushing pick).map fun
      | (q, .returned (.item reqmsg)) => { s with taskchan := q, pushing := .taken reqmsg }
      | (q, _) => { s with taskchan := q }
  | _ => none

/-- The rest of the loop body of `Pushing`. What `produce` throws
leaves the thread and ends the process. -/
def pushTaken (lib : Libraries) (s : State H cap) (rd : UInt32) (throws : Bool) :
    Option (State H cap) :=
  match s.pushing with
  | .taken reqmsg =>
    match push lib rd s.topics reqmsg with
    | .skipped => some { s with pushing := .loop }
    | .trapped topics => some { s with topics, crashed := true }
    | .message topics builder =>
      if throws then some { s with topics, crashed := true }
      else some { s with topics, pushing := .loop, produced := s.produced ++ [builder] }
  | _ => none

/-- `RpcCallback` up to the call of `taskchan->full()`. The server
takes requests between the return of `acceptor.Start()` and the call
of `acceptor.Stop()`. -/
def request (lib : Libraries) (s : State H cap) (h : H) (fs : FileSystem)
    (headers : UnorderedMap String) (body : String) : Option (State H cap) :=
  match s.main, s.handler h with
  | .serving, .idle =>
    (Monitor.call s.taskchan (.handler h) .full).map fun q =>
      let (reqmsg, resp) := receive lib.folly fs headers body
      { s.setHandler h (.checking reqmsg resp) with taskchan := q }
  | _, _ => none

/-- The lock section of `taskchan->full()`. On a full channel the
request is answered. Otherwise the handler goes on to `put`, and the
lock is free in between. -/
def fullSection (s : State H cap) (h : H) (pick : Option (Tid H)) : Option (State H cap) :=
  match s.handler h with
  | .checking reqmsg resp =>
    (Monitor.acquire (queue RequestMessage cap) s.taskchan (.handler h) pick).map fun
      | (q, .returned (.flag true)) => { s.answer h reqmsg resp overloaded with taskchan := q }
      | (q, .returned (.flag false)) =>
        { s.setHandler h (.free reqmsg resp) with taskchan := q }
      | (q, _) => { s with taskchan := q }
  | _ => none

/-- `RpcCallback` calls `taskchan->put(reqmsg)`. The channel was not
full a moment ago, and may be by now. -/
def put (s : State H cap) (h : H) : Option (State H cap) :=
  match s.handler h with
  | .free reqmsg resp =>
    (Monitor.call s.taskchan (.handler h) (.put reqmsg)).map fun q =>
      { s.setHandler h (.putting reqmsg resp) with taskchan := q }
  | _ => none

/-- A lock section of that `put`. When it returns, the request is
answered. -/
def putSection (s : State H cap) (h : H) (pick : Option (Tid H)) : Option (State H cap) :=
  match s.handler h with
  | .putting reqmsg resp =>
    (Monitor.acquire (queue RequestMessage cap) s.taskchan (.handler h) pick).map fun
      | (q, .returned _) => { s.answer h reqmsg resp success with taskchan := q }
      | (q, _) => { s with taskchan := q }
  | _ => none

/-- A thread that sleeps in the channel wakes without a
notification. -/
def spurious (s : State H cap) (t : Tid H) : Option (State H cap) :=
  (Monitor.spurious s.taskchan t).map fun q => { s with taskchan := q }

/-- The process as a transition system. Nothing happens after a crash.
The handlers take requests in any number and any order, with any
body. -/
def system (lib : Libraries) (topics : Topics) (H : Type) (cap : Nat) [DecidableEq H]
    [Fintype H] : System (State H cap) (Event H) where
  init s := ∃ isRunning, s = initial topics isRunning
  step s e :=
    if s.crashed then none
    else
      match e with
      | .start => start s
      | .setRunning => setRunning s
      | .serve => serve s
      | .close => close s
      | .stop => stop s
      | .stopPut => stopPut s
      | .stopSection pick => stopSection s pick
      | .join => join s
      | .flush length => flush s length
      | .test => test s
      | .takeSection pick => takeSection s pick
      | .push rd throws => pushTaken lib s rd throws
      | .request h fs headers body => request lib s h fs headers body
      | .fullSection h pick => fullSection s h pick
      | .put h => put s h
      | .putSection h pick => putSection s h pick
      | .spurious t => spurious s t

end

end Bigpipe.Main
