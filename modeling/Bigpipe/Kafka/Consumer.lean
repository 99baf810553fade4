import Bigpipe.Base.ThreadPool
import Bigpipe.Client.AsyncClient
import Bigpipe.Config.Config

/-!
# `Bigpipe.Kafka.Consumer`: the consumer and its workers

The class `KafkaConsumer` of `kafka/consumer.hpp` with `AsyncCall`,
`Start` and `Stop` of `client/async_client.hpp`. The threads are
`main`, the one thread in `ConsumeLoop` and the workers of the thread
pool. Each event is the next shared access of one thread, as in
`Bigpipe.Base.ThreadPool`.

The thing to watch is the life of the messages. `ConsumeLoop` declares
its message inside of the loop, hands a reference to it over to the
pool, and goes on. The worker that gets the task reads the message
through the reference, field by field, when it comes to it. By then
the iteration may have ended, and the message with it. So the loop
variables are cells with a number, which are there or not, and a read
of a cell that is not there any more is what ends the run. That a
worker nearly always comes in time is no help to a proof: the
schedules in which it does not are runs as well.

* Each iteration of `ConsumeLoop` that gets a message creates a loop
  variable `reqmsg` and ends it. The loop variables are numbered in
  the order of their creation.
* The lambda of `AsyncCall` captures by reference (`[&]`). So the task
  is the number of the loop variable that it refers to, and the worker
  reads the variable as it is then.
* A read of a variable that has ended has no defined behaviour, and
  ends the run. An assertion that fails and an exception that leaves a
  thread end the process.
* `Start` and `Stop` of `AsyncClient` have no `return`. Nobody uses
  their result, and here they return to the caller.
-/

set_option autoImplicit false

namespace Bigpipe.KafkaConsumer

open Bigpipe.Lib
open Bigpipe.AsyncClient (CallPc Gate Outcome)

/-- The client that `Init` makes. Its bucket and its breaker are never
set. -/
def init (config : Config) : AsyncClient :=
  .new config.kafkaConsumer.concurrency config.kafkaConsumer.retries config.kafkaConsumer.timeout

/-- Where `main` is in `Start` and `Stop`. `Stop` clears the flag
before it joins, and the pool is stopped only behind the join, so no
task is handed over after it. -/
inductive MainPc where
  /-- Before `Start`. -/
  | idle
  /-- In `asyncClient->Start()`. -/
  | starting
  /-- `Start` has returned. -/
  | started
  /-- In `join()` on the thread in `ConsumeLoop`. -/
  | joining
  /-- In `asyncClient->Stop()`, and out of `Stop` where the pool has
  stopped. -/
  | stopping
  deriving DecidableEq, Repr

/-- Where the thread is in `ConsumeLoop`. The number is that of the
loop variable. -/
inductive LoopPc where
  /-- Not spawned yet. -/
  | unborn
  /-- At the test of `IsRunning`. -/
  | loop
  /-- In `queue.consume()`. -/
  | consuming
  /-- In front of `asyncClient->AsyncCall(reqmsg)`. -/
  | calling (reqmsg : Nat)
  /-- In `workers->PutTask`. -/
  | putting (reqmsg : Nat)
  /-- At the end of the iteration. -/
  | ending (reqmsg : Nat)
  /-- It left the loop, and the thread has ended. -/
  | left
  deriving DecidableEq, Repr

/-- The loop variable of the iteration that the thread is in. -/
def LoopPc.reqmsg : LoopPc → Option Nat
  | .calling reqmsg | .putting reqmsg | .ending reqmsg => some reqmsg
  | .unborn | .loop | .consuming | .left => none

/-- What an attempt of `CallWithRetry` reads next of its message. The
reads are steps of their own, since the loop variable that they read
may end between two of them. -/
inductive Field where
  /-- `msg.GetURL()`. -/
  | url
  /-- `msg.GetHTTPHeaders()`. -/
  | headers
  /-- `msg.GetData()`. -/
  | data
  /-- Nothing more. -/
  | done
  deriving DecidableEq, Repr

/-- An attempt that is under way: what it reads next, and what it has
read. Each attempt reads its message anew. -/
structure Reading where
  next : Field := .url
  msg : RequestMessage := {}

/-- The attempt reads the next field of `msg`, and keeps what it has
read before. -/
def Reading.read (reading : Reading) (msg : RequestMessage) : Option Reading :=
  match reading.next with
  | .url => some ⟨.headers, { reading.msg with url := msg.url }⟩
  | .headers => some ⟨.data, { reading.msg with headers := msg.headers }⟩
  | .data => some ⟨.done, { reading.msg with data := msg.data }⟩
  | .done => none

/-- An attempt can end so after what it has read: the constructor of
`http_client` throws after the URL, and the request is sent after the
data. -/
def Reading.canEnd (reading : Reading) : Outcome → Bool
  | .refused => reading.next = .headers
  | .thrown | .status _ => reading.next = .done

/-- How the process or its defined behaviour ends. In the first two
cases the process is gone; after the third the source says nothing,
and the model takes no step either. -/
inductive Ending where
  /-- An assertion failed. -/
  | aborted
  /-- An exception left a thread. -/
  | terminated
  /-- A variable was read after its end. -/
  | undefined
  deriving DecidableEq, Repr

/-- The state of a consumer with `nWorkers = n`. `cells` holds the
loop variables between their creation and their end, `created` counts
them, and `called` holds the messages that `AsyncCall` was called
with. `called` is there for the proofs: it keeps what a loop variable
was when the task was queued. -/
structure State (n : Nat) where
  isRunning : Bool
  main : MainPc
  loop : LoopPc
  workers : ThreadPool.State n Unit Nat 20
  call : Fin n → Option CallPc
  reading : Fin n → Reading
  cells : Nat → Option RequestMessage
  created : Nat
  called : Nat → Option RequestMessage
  ended : Option Ending

/-- The events. `consume` carries the payload of the message, or none
at the end of a partition, and the file system that `FromJSON` reads.
`pool` is a step of the pool inside `Start` and `Stop` of the pool, of
`RunInLoop` outside of a task, or a spurious wake-up. -/
inductive Event (n : Nat) where
  | start
  | spawn
  | stop
  | join
  | test
  | consume (payload : Option String) (fs : FileSystem)
  | asyncCall
  | putSection (pick : Option (ThreadPool.Tid n Unit))
  | endIteration
  | pool (e : ThreadPool.Event n Unit Nat)
  | runTask (i : Fin n)
  | call (i : Fin n)
  | gate (i : Fin n) (gate : Gate)
  | read (i : Fin n)
  | attempt (i : Fin n) (outcome : Outcome)

section

variable {n : Nat}

/-- The state after `Init`. The constructor leaves `IsRunning` without
a value, and `Start` sets it before anybody reads it. -/
def initial (isRunning : Bool) : State n where
  isRunning
  main := .idle
  loop := .unborn
  workers := ThreadPool.initial
  call _ := none
  reading _ := {}
  cells _ := none
  created := 0
  called _ := none
  ended := none

/-! ### `main` -/

/-- `Start`: sets the flag and enters `asyncClient->Start()`. The
thread in `ConsumeLoop` is spawned once that has returned. -/
def start (s : State n) : Option (State n) :=
  match s.main with
  | .idle => (ThreadPool.start s.workers).map fun workers =>
      { s with isRunning := true, workers, main := .starting }
  | _ => none

/-- The loop of `Start`, after `asyncClient->Start()`: it spawns the
one thread. -/
def spawn (s : State n) : Option (State n) :=
  match s.main, s.workers.owner with
  | .starting, .started => some { s with loop := .loop, main := .started }
  | _, _ => none

/-- `Stop`: clears the flag. `ConsumeLoop` sees it at its next test,
which it only comes to when `queue.consume()` has returned. -/
def stop (s : State n) : Option (State n) :=
  match s.main with
  | .started => some { s with isRunning := false, main := .joining }
  | _ => none

/-- `join()` returns once `ConsumeLoop` has ended, and `Stop` enters
`asyncClient->Stop()`. -/
def join (s : State n) : Option (State n) :=
  match s.main, s.loop with
  | .joining, .left => (ThreadPool.stop s.workers).map fun workers =>
      { s with workers, main := .stopping }
  | _, _ => none

/-! ### `ConsumeLoop` -/

/-- `while (IsRunning)`. -/
def test (s : State n) : Option (State n) :=
  match s.loop with
  | .loop => some { s with loop := if s.isRunning then .consuming else .left }
  | _ => none

/-- An iteration creates its loop variable and gives it the value
`msg`. -/
def State.create (s : State n) (msg : RequestMessage) (pc : LoopPc) : State n :=
  { s with
    cells := Function.update s.cells s.created (some msg)
    created := s.created + 1
    loop := pc }

/-- `queue.consume()` returns a message, and `FromJSON` reads it into
the loop variable. What Kafka gives and what the files hold at that
time comes with the event. -/
def consume (folly : Folly) (s : State n) (payload : Option String) (fs : FileSystem) :
    Option (State n) :=
  match s.loop, payload with
  -- The end of a partition leaves the loop.
  | .consuming, none => some { s with loop := .left }
  | .consuming, some payload =>
    match RequestMessage.fromJSON folly fs payload {} with
    | (.ok true, msg) => some (s.create msg (.calling s.created))
    | (.ok false, msg) => some (s.create msg (.ending s.created))
    -- Nobody catches the exception.
    | (.error _, _) => some { s with ended := some .terminated }
  | _, _ => none

/-- `AsyncCall(reqmsg)`: asserts that the pool has been started, and
calls `PutTask` with a reference to the loop variable. Nothing is
copied. -/
def asyncCall (s : State n) : Option (State n) :=
  match s.loop with
  | .calling reqmsg =>
    if s.workers.isRunning then
      (ThreadPool.putTask s.workers () (some reqmsg)).map fun workers =>
        { s with
          workers
          called := Function.update s.called reqmsg (s.cells reqmsg)
          loop := .putting reqmsg }
    else some { s with ended := some .aborted }
  | _ => none

/-- A lock section of the `put` in `PutTask`. When it returns, the
iteration comes to its end, whether a worker has taken the task or
not. -/
def putSection (s : State n) (pick : Option (ThreadPool.Tid n Unit)) : Option (State n) :=
  match s.loop with
  | .putting reqmsg =>
    (ThreadPool.callerSection s.workers () pick).map fun workers =>
      match workers.queue.pos (.caller ()) with
      | .outside => { s with workers, loop := .ending reqmsg }
      | _ => { s with workers }
  | _ => none

/-- The end of the iteration ends its loop variable. A worker that
still refers to it refers to nothing. -/
def endIteration (s : State n) : Option (State n) :=
  match s.loop with
  | .ending reqmsg => some { s with
      cells := Function.update s.cells reqmsg none
      loop := .loop }
  | _ => none

/-! ### The workers -/

/-- The steps of the pool outside of tasks and of `PutTask`, after
`Start` and `Stop` of the pool were called. -/
def inPool : ThreadPool.Event n Unit Nat → Bool
  | .spawn | .stopPut | .stopSection _ | .join | .test _ | .workerSection _ _ | .spurious _ => true
  | .start | .stop | .runTask _ | .putTask _ _ | .callerSection _ _ => false

/-- Such a step of the pool. -/
def poolStep (s : State n) (e : ThreadPool.Event n Unit Nat) : Option (State n) :=
  if inPool e then
    ((ThreadPool.system n Unit Nat 20).step s.workers e).map fun workers => { s with workers }
  else none

/-- The worker `i` is done with what it took: its call has returned,
or it took the null task of `Stop`. -/
def hasReturned (s : State n) (i : Fin n) : Bool :=
  match s.workers.worker i with
  | .todo (some _) => s.call i = some .returned
  | _ => true

/-- `todo()` returns, or `todo` is the null task. The worker is back
at the test of its loop, and has no call any more. -/
def runTask (s : State n) (i : Fin n) : Option (State n) :=
  if hasReturned s i then
    (ThreadPool.runTask s.workers i).map fun workers =>
      { s with workers, call := Function.update s.call i none }
  else none

/-- The worker `i` goes on at `pc` in its call, or ends the process.
The next attempt starts with nothing read. -/
def State.goOn (s : State n) (i : Fin n) (pc : CallPc) : State n :=
  { s with
    call := Function.update s.call i (some pc)
    reading := Function.update s.reading i {}
    ended :=
      match pc with
      | .thrown => some .terminated
      | .aborted => some .aborted
      | _ => none }

/-- `todo()`, which is `Call(msg)`. The worker holds the task until
the call has returned. -/
def call (conf : AsyncClient.Conf) (s : State n) (i : Fin n) : Option (State n) :=
  match s.workers.worker i, s.call i with
  | .todo (some _), none => some (s.goOn i (AsyncClient.call conf))
  | _, _ => none

/-- A step of `Call` before its first attempt, with the answer that
comes from outside. -/
def gate (conf : AsyncClient.Conf) (s : State n) (i : Fin n) (gate : Gate) : Option (State n) :=
  match s.call i with
  | some pc => (AsyncClient.gate conf pc gate).map (s.goOn i)
  | none => none

/-- An attempt reads a field of its message, by the reference that the
task captured. Where the message has ended, the run ends. -/
def read (s : State n) (i : Fin n) : Option (State n) :=
  match s.workers.worker i, s.call i with
  | .todo (some reqmsg), some (.attempt _) =>
    match s.cells reqmsg with
    | some msg => ((s.reading i).read msg).map fun reading =>
        { s with reading := Function.update s.reading i reading }
    | none => some { s with ended := some .undefined }
  | _, _ => none

/-- An attempt ends. Its request is made of what the attempt has read,
which need not be one message as a whole. -/
def attempt (conf : AsyncClient.Conf) (s : State n) (i : Fin n) (outcome : Outcome) :
    Option (State n) :=
  match s.call i with
  | some (.attempt k) =>
    if (s.reading i).canEnd outcome then
      some (s.goOn i (AsyncClient.attempt conf.retries k (s.reading i).msg outcome).next)
    else none
  | _ => none

/-- What an event does. An event whose guard fails has no step. -/
def step (folly : Folly) (conf : AsyncClient.Conf) (s : State n) : Event n → Option (State n)
  | .start => start s
  | .spawn => spawn s
  | .stop => stop s
  | .join => join s
  | .test => test s
  | .consume payload fs => consume folly s payload fs
  | .asyncCall => asyncCall s
  | .putSection pick => putSection s pick
  | .endIteration => endIteration s
  | .pool e => poolStep s e
  | .runTask i => runTask s i
  | .call i => call conf s i
  | .gate i g => gate conf s i g
  | .read i => read s i
  | .attempt i outcome => attempt conf s i outcome

/-- The consumer as a transition system. Nothing happens after the end
of the process. -/
def system (folly : Folly) (conf : AsyncClient.Conf) (n : Nat) : System (State n) (Event n) where
  init s := ∃ isRunning, s = initial isRunning
  step s e := if s.ended.isSome then none else step folly conf s e

end

end Bigpipe.KafkaConsumer
