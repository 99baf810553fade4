import Bigpipe.Config.Config
import Bigpipe.Lib.System

/-!
# `Bigpipe.Startup`: the order of the calls in `main`

`main` of `main.cpp` with `Init`, `Start` and `Stop` of `Acceptor` and
of `KafkaProducer`, for the pointers `httpServer` and `taskchan` that
they pass on and dereference. A null pointer is `none`. `main` does
not use what `Init` and `Start` return.

Nothing here is about what the threads do with the channel. The
question is whether there is one. `Init` of the acceptor makes the
server and the channel behind a guard, and `main` goes on whatever
`Init` has returned, so a guard that is wrong shows up as a null
pointer some calls later. Every dereference on the way is a step that
may end the process.

* A step of `main` is one of its calls, or a part of one that other
  threads can see. Beside it the thread in `Pushing` and the handlers
  of the HTTP server dereference `taskchan`.
* The calls of the consumer touch neither of the two pointers, and
  neither does the wait of `producer.Stop()` for the out queue.
* `KafkaProducer::Init` has no `return`. Here it returns to `main`.
* What the threads do with a channel that is there is in
  `Bigpipe.Main`.
-/

set_option autoImplicit false

namespace Bigpipe.Startup

open Bigpipe.Lib (System)

/-- How the process or its defined behaviour ends. The two kinds of
undefined behaviour are kept apart, since the results are about the
null pointers. -/
inductive Ending where
  /-- `main` returned. -/
  | returned (code : Int)
  /-- An exception left a thread. -/
  | terminated (what : String)
  /-- A null pointer was dereferenced. -/
  | nullDereference
  /-- The behaviour is undefined for another reason. -/
  | undefined
  deriving DecidableEq, Repr

/-- What the program uses of the `served` library. -/
structure Served where
  /-- The constructor of `served::net::server` for a port: throws where
  it cannot listen. -/
  listen : Int → Except String Unit

/-- The HTTP server that `Init` makes, with the numbers that it is
given and has as its options. -/
structure HttpServer where
  port : Int
  readTimeout : Int
  writeTimeout : Int
  deriving DecidableEq, Repr

/-- The task channel that `Init` makes. Two pointers to it are equal
where its address is. -/
structure Channel where
  address : Nat
  capacity : Nat
  deriving DecidableEq, Repr

/-- The constructor of `BoundedBlockingQueue`. The `int` becomes the
`size_t` of a buffer, and a negative one is more than a buffer can
have, so it throws. -/
def newChannel (address : Nat) (maxSize : Int) : Except String Channel :=
  if maxSize < 0 then .error "circular_buffer" else .ok ⟨address, maxSize.toNat⟩

/-- `*p` and `p->`. -/
def deref {α : Type} : Option α → Except Ending α
  | some a => .ok a
  | none => .error .nullDereference

/-! ### `Acceptor` -/

/-- The fields of `Acceptor`. Nothing reads its `IsRunning`. -/
structure Acceptor where
  bigConf : Option Config := none
  httpServer : Option HttpServer := none
  taskchan : Option Channel := none

namespace Acceptor

/-- `Init`, with the address of the channel that it makes. Both the
server and the channel may throw. -/
def init (served : Served) (address : Nat) (pConf : Config) (acceptor : Acceptor) :
    Except Ending (Bool × Acceptor) :=
  -- The guard asks for the field, which is assigned behind it.
  if acceptor.bigConf.isNone then .ok (false, acceptor)
  else do
    (served.listen pConf.httpServerPort).mapError .terminated
    let httpServer : HttpServer :=
      ⟨pConf.httpServerPort, pConf.httpServerReadTimeout, pConf.httpServerWriteTimeout⟩
    let taskchan ←
      (newChannel address pConf.httpServerHandlerChannelSize).mapError .terminated
    return (true, ⟨some pConf, some httpServer, some taskchan⟩)

/-- `GetTaskChannel`. -/
def getTaskChannel (acceptor : Acceptor) : Option Channel := acceptor.taskchan

/-- `Start`: `httpServer->run(1)`. -/
def start (acceptor : Acceptor) : Except Ending Bool := do
  let _ ← deref acceptor.httpServer
  return true

/-- `Stop`: `httpServer->stop()`. -/
def stop (acceptor : Acceptor) : Except Ending Bool := do
  let _ ← deref acceptor.httpServer
  return true

/-- `RpcCallback`, up to `taskchan->full()` or to
`taskchan->put(reqmsg)`. -/
def rpcCallback (acceptor : Acceptor) : Except Ending Unit := do
  let _ ← deref acceptor.taskchan

end Acceptor

/-! ### `KafkaProducer` -/

/-- The fields of `KafkaProducer` without the Kafka client. The
threads in `producers` are in the state of the process. -/
structure KafkaProducer where
  bigConf : Option Config := none
  isRunning : Bool
  taskchan : Option Channel := none

namespace KafkaProducer

/-- `Init`. -/
def init (pConf : Config) (producer : KafkaProducer) : KafkaProducer :=
  { producer with bigConf := some pConf }

/-- `SetJobChannel`. -/
def setJobChannel (chan : Option Channel) (producer : KafkaProducer) : KafkaProducer :=
  { producer with taskchan := chan }

end KafkaProducer

/-! ### The process -/

/-- The call that `main` makes next. The order is that of the source,
with `producer.Start()` in two steps, as the flag is set behind the
spawn. -/
inductive MainPc where
  /-- `Config::ParseConfig(FLAGS_configFile)`. -/
  | parseConfig
  /-- `acceptor.Init(config)`. -/
  | initAcceptor
  /-- `producer.Init(config)`. -/
  | initProducer
  /-- `producer.SetJobChannel(acceptor.GetTaskChannel())`. -/
  | setJobChannel
  /-- `consumer.Init(config)`. -/
  | initConsumer
  /-- `consumer.Start()`. -/
  | startConsumer
  /-- `producer.Start()`. -/
  | startProducer
  /-- The rest of it, after the loop that spawns `Pushing`. -/
  | setRunning
  /-- `acceptor.Start()`. -/
  | startAcceptor
  /-- `SignalHandler::waitForUserInterrupt()`. -/
  | waitForUserInterrupt
  /-- `acceptor.Stop()`. -/
  | stopAcceptor
  /-- `producer.Stop()`. -/
  | stopProducer
  /-- `taskchan->put(RequestMessage())` in it. -/
  | stopPut
  /-- `producers[0].join()` in it. -/
  | stopJoin
  /-- `consumer.Stop()`. -/
  | stopConsumer
  deriving DecidableEq, Repr

/-- The thread in `Pushing`. It dereferences the channel in each
round. -/
inductive Pushing where
  /-- Not spawned. -/
  | unborn
  | running
  | left
  deriving DecidableEq, Repr

/-- The state of the process. `config` is the pointer that `main` has,
and `serving` says that there may be handlers. -/
structure State where
  main : MainPc
  config : Option Config
  acceptor : Acceptor
  producer : KafkaProducer
  pushing : Pushing
  serving : Bool
  ended : Option Ending

/-- The events: the next step of `main`, one iteration of `Pushing` up
to `taskchan->take()`, and a handler in `RpcCallback`. What the
threads do with a channel that is there is not looked at here. -/
inductive Event where
  | main
  | pushing
  | rpcCallback
  deriving DecidableEq, Repr

/-- The state before `ParseConfig`, for the acceptor that `main`
constructs. `IsRunning` of the producer was not initialized. The
acceptor is a parameter, since the guard of its `Init` asks for a
field. -/
def initial (acceptor : Acceptor) (isRunning : Bool) : State where
  main := .parseConfig
  config := none
  acceptor := acceptor
  producer := { isRunning }
  pushing := .unborn
  serving := false
  ended := none

/-- One iteration of `Pushing`, up to `taskchan->take()`. The channel
is dereferenced only behind the test of the flag. -/
def pushing (s : State) : Option (Except Ending State) :=
  match s.pushing with
  | .running =>
    if s.producer.isRunning then some do
      let _ ← deref s.producer.taskchan
      return s
    else some (.ok { s with pushing := .left })
  | .unborn | .left => none

/-- A handler in `RpcCallback`. It may still run after `Stop`, as
nothing in `Stop` waits for it. -/
def rpcCallback (s : State) : Option (Except Ending State) :=
  if s.serving then some do
    s.acceptor.rpcCallback
    return s
  else none

section

variable (folly : Folly) (conv : Conversions) (fs : FileSystem) (path : String) (served : Served)

/-- The next step of `main`, or what ends the process in it. It has no
step while the thread that it joins has not left. -/
def main (s : State) : Option (Except Ending State) :=
  match s.main with
  | .parseConfig =>
    match Config.parseConfig folly conv fs path with
    | .ok (some config) => some (.ok { s with main := .initAcceptor, config := some config })
    | .ok none => some (.error (.returned (-1)))
    | .error (.exception what) => some (.error (.terminated what))
    | .error _ => some (.error .undefined)
  | .initAcceptor => some do
    let config ← deref s.config
    -- No other call makes a channel.
    let (_, acceptor) ← s.acceptor.init served 0 config
    return { s with main := .initProducer, acceptor }
  | .initProducer => some do
    let config ← deref s.config
    return { s with main := .setJobChannel, producer := s.producer.init config }
  | .setJobChannel =>
    let producer := s.producer.setJobChannel s.acceptor.getTaskChannel
    some (.ok { s with main := .initConsumer, producer })
  | .initConsumer => some (.ok { s with main := .startConsumer })
  | .startConsumer => some (.ok { s with main := .startProducer })
  | .startProducer =>
    -- Without a channel `Start` returns false, and `main` goes on.
    if s.producer.taskchan.isNone then some (.ok { s with main := .startAcceptor })
    else some (.ok { s with main := .setRunning, pushing := .running })
  | .setRunning =>
    some (.ok { s with main := .startAcceptor, producer := { s.producer with isRunning := true } })
  | .startAcceptor => some do
    let _ ← s.acceptor.start
    return { s with main := .waitForUserInterrupt, serving := true }
  | .waitForUserInterrupt => some (.ok { s with main := .stopAcceptor })
  | .stopAcceptor => some do
    let _ ← s.acceptor.stop
    return { s with main := .stopProducer }
  | .stopProducer =>
    some (.ok { s with main := .stopPut, producer := { s.producer with isRunning := false } })
  | .stopPut => some do
    let _ ← deref s.producer.taskchan
    return { s with main := .stopJoin }
  | .stopJoin =>
    match s.pushing with
    -- There is no `producers[0]`.
    | .unborn => some (.error .undefined)
    | .running => none
    | .left => some (.ok { s with main := .stopConsumer })
  | .stopConsumer => some (.error (.returned 0))

/-- What the threads do. -/
def move (s : State) : Event → Option (Except Ending State)
  | .main => main folly conv fs path served s
  | .pushing => pushing s
  | .rpcCallback => rpcCallback s

end

/-- The state after a step. What ends the process leaves the rest of
the state as it was before the step. -/
def State.after (s : State) : Except Ending State → State
  | .ok s' => s'
  | .error ending => { s with ended := some ending }

/-- The process as a transition system. Nothing happens after its
end. -/
def system (folly : Folly) (conv : Conversions) (fs : FileSystem) (path : String)
    (served : Served) (acceptor : Acceptor) : System State Event where
  init s := ∃ isRunning, s = initial acceptor isRunning
  step s e :=
    if s.ended.isSome then none
    else (move folly conv fs path served s e).map s.after

end Bigpipe.Startup
