import Bigpipe.Kafka.Consumer
import Bigpipe.Main

/-!
# `Bigpipe.Process`: the process with all its threads

`main` of `main.cpp` after the calls of `Init`: the acceptor and the
producer of `Bigpipe.Main`, the consumer of `Bigpipe.Kafka.Consumer`,
and `SignalHandler` of `base/SignalHandler.hpp`.

The two halves share `main` and nothing else in memory. What joins
them is Kafka, which is not part of the repository: the process passes
payloads to `produce`, and the consumer gets payloads from `consume`.
A theorem that joins them names what it asks of the broker, as a
condition on the events.

* `main` calls `consumer.Start()`, `producer.Start()`,
  `acceptor.Start()` and `waitForUserInterrupt()`, and then the three
  `Stop`s. Its place in the calls of each object is part of the state
  of the object.
* An exception or a trap in one of the objects ends the process, and
  with it the others.
* `waitForUserInterrupt` waits without a condition.
  `handleUserInterrupt` wakes `main` where it sleeps in there, and
  does nothing anywhere else. That a signal handler may neither log
  nor call `notify_one` is left out.
* Both objects are there, and so are the two pointers of
  `Bigpipe.Startup`.
-/

set_option autoImplicit false

namespace Bigpipe.Process

open Bigpipe.Lib

/-- Where `main` is in `waitForUserInterrupt`. The wait has no
predicate, so an interrupt that comes before it is lost. -/
inductive WaitPc where
  /-- It has not come to `cond_.wait(lock)`. -/
  | before
  /-- It sleeps in `cond_.wait(lock)`. -/
  | asleep
  /-- It was woken. -/
  | woken
  | returned
  deriving DecidableEq, Repr

/-- The state of the process: that of the acceptor and the producer,
that of the consumer, and where `main` is in its wait. `exited` is set
when `main` returns. -/
structure State (H : Type) (cap n : Nat) where
  server : Main.State H cap
  consumer : KafkaConsumer.State n
  wait : WaitPc
  exited : Bool

/-- The events: those of the acceptor and the producer, those of the
consumer, the call of `cond_.wait(lock)` and its end, a wake-up that
nobody caused, a SIGINT, and the return of `main`. -/
inductive Event (H : Type) (n : Nat) where
  | server (e : Main.Event H)
  | consumer (e : KafkaConsumer.Event n)
  | wait
  | spurious
  | wake
  | sigint
  | exit

section

variable {H : Type} {cap n : Nat} [DecidableEq H] [Fintype H]

/-- The state before `consumer.Start()`, with the configured topics.
Neither `IsRunning` was initialized. -/
def initial (topics : Topics) (producing consuming : Bool) : State H cap n where
  server := Main.initial topics producing
  consumer := KafkaConsumer.initial consuming
  wait := .before
  exited := false

/-- The process has ended. -/
def State.hasEnded (s : State H cap n) : Bool :=
  s.server.crashed || s.consumer.ended.isSome || s.exited

/-- What `main` has done before a call that it makes on the acceptor
or the producer. `main` is one thread, so its calls on one object wait
for its calls on the other. -/
def serverTurn (s : State H cap n) : Main.Event H → Bool
  -- `consumer.Start()` has returned.
  | .start => s.consumer.main = .started
  | .close => s.wait = .returned
  | _ => true

/-- What `main` has done before a call that it makes on the
consumer. -/
def consumerTurn (s : State H cap n) : KafkaConsumer.Event n → Bool
  -- `producer.Stop()` has returned.
  | .stop => s.server.main = .stopped
  | _ => true

/-- A step of the acceptor or the producer. Two calls of `main` wait
for what it does elsewhere: `producer.Start()` and `acceptor.Stop()`.
The other threads wait for nothing. -/
def server (lib : Libraries) (topics : Topics) (s : State H cap n) (e : Main.Event H) :
    Option (State H cap n) :=
  if serverTurn s e then
    ((Main.system lib topics H cap).step s.server e).map fun server => { s with server }
  else none

/-- A step of the consumer. `main` starts it first and stops it last,
so its `Stop` waits for that of the producer. -/
def consumer (lib : Libraries) (conf : AsyncClient.Conf) (s : State H cap n)
    (e : KafkaConsumer.Event n) : Option (State H cap n) :=
  if consumerTurn s e then
    ((KafkaConsumer.system lib.folly conf n).step s.consumer e).map fun consumer =>
      { s with consumer }
  else none

/-- `waitForUserInterrupt()` up to the sleep. `acceptor.Start()` has
returned. -/
def wait (s : State H cap n) : Option (State H cap n) :=
  match s.server.main, s.wait with
  | .serving, .before => some { s with wait := .asleep }
  | _, _ => none

/-- A wake-up that nobody caused. `cond_.wait` has no predicate here,
so it ends the wait like a SIGINT. -/
def spurious (s : State H cap n) : Option (State H cap n) :=
  match s.wait with
  | .asleep => some { s with wait := .woken }
  | _ => none

/-- `cond_.wait(lock)` has the mutex again, and
`waitForUserInterrupt()` returns. -/
def wake (s : State H cap n) : Option (State H cap n) :=
  match s.wait with
  | .woken => some { s with wait := .returned }
  | _ => none

/-- `handleUserInterrupt`. Where `main` does not sleep in
`cond_.wait`, the notification is lost and the signal has no
effect. -/
def sigint (s : State H cap n) : State H cap n :=
  match s.wait with
  | .asleep => { s with wait := .woken }
  | _ => s

/-- `main` returns after `consumer.Stop()`, that is, once the thread
pool of the client has stopped. -/
def exit (s : State H cap n) : Option (State H cap n) :=
  match s.consumer.main, s.consumer.workers.owner with
  | .stopping, .stopped => some { s with exited := true }
  | _, _ => none

/-- The process as a transition system. Nothing happens after its end,
be it a crash of one of its objects or the return of `main`. -/
def system (lib : Libraries) (topics : Topics) (conf : AsyncClient.Conf) (H : Type) (cap n : Nat)
    [DecidableEq H] [Fintype H] : System (State H cap n) (Event H n) where
  init s := ∃ producing consuming, s = initial topics producing consuming
  step s e :=
    if s.hasEnded then none
    else
      match e with
      | .server e => server lib topics s e
      | .consumer e => consumer lib conf s e
      | .wait => wait s
      | .spurious => spurious s
      | .wake => wake s
      | .sigint => some (sigint s)
      | .exit => exit s

end

end Bigpipe.Process
