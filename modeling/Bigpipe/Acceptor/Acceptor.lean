import Bigpipe.Lib.CircularBuffer
import Bigpipe.Proto.Messages

/-!
# `Bigpipe.Acceptor.Acceptor`: the HTTP handler

`Acceptor::RpcCallback` of `acceptor/acceptor.cpp`. The handler
answers with the `CallResp`s that it writes to the response, one after
another. An exception of `ParseFromJSON` is answered with -1, and the
handler goes on with what `ParseFromJSON` had assigned.

So a request that cannot be read gets two `CallResp`s and may still
put a message in the channel: the `catch` writes its answer and does
not return. And the handler asks `full()` first and calls `put`
afterwards, under two different locks, so another handler may take the
last slot in between. The handler then waits in `put`, with the HTTP
request still open.

* `callback` is one run of the handler, for what it finds out about
  the channel, and `rpcCallback` one run on a channel. `Bigpipe.Main`
  has the handlers as threads beside the others.
* The model starts where `Init` has made the task channel.
-/

set_option autoImplicit false

namespace Bigpipe.Acceptor

open Bigpipe.Lib (CircularBuffer)

/-- `RpcCallback` up to the test of `taskchan->full()`: the message,
and what is written to the response. An error leaves the message with
the fields that were read before it. -/
def receive (folly : Folly) (fs : FileSystem) (headers : UnorderedMap String) (body : String) :
    RequestMessage × List CallResp :=
  match RequestBody.parseFromJSON folly fs body {} with
  | (.ok _, reqbody) => (.ofRequest headers reqbody, [])
  | (.error what, reqbody) => (.ofRequest headers reqbody, [⟨-1, what, .str ""⟩])

/-- The answer after `taskchan->put`. It says that the message is in
the channel, and not that Kafka has it. -/
def success : CallResp := ⟨0, "发送成功", .str ""⟩

/-- The answer when the channel is full. -/
def overloaded : CallResp := ⟨-1, "系统过载", .str ""⟩

/-- `RpcCallback` where `taskchan->full()` answers `full`: what is
written to the response, and the message that is put in the
channel. -/
def callback (folly : Folly) (fs : FileSystem) (headers : UnorderedMap String) (body : String)
    (full : Bool) : List CallResp × Option RequestMessage :=
  let (reqmsg, resp) := receive folly fs headers body
  if full then (resp ++ [overloaded], none) else (resp ++ [success], some reqmsg)

/-- The body of the response: `resp <<` appends the text of each
`CallResp`. -/
def responseBody (folly : Folly) (resp : List CallResp) : String :=
  resp.foldl (fun text status => text ++ status.toJSON folly) ""

/-- `RpcCallback` beside no other user of the channel: what is written
to the response, and the channel after it. -/
def rpcCallback {cap : Nat} (folly : Folly) (fs : FileSystem) (headers : UnorderedMap String)
    (body : String) (taskchan : CircularBuffer RequestMessage cap) :
    List CallResp × CircularBuffer RequestMessage cap :=
  match callback folly fs headers body taskchan.isFull with
  | (resp, none) => (resp, taskchan)
  | (resp, some reqmsg) => (resp, taskchan.pushBack reqmsg)

/-- Where a handler thread is in `RpcCallback`, with the message and
what is written to the response. The position in the queue, asleep or
not, is that of the thread in the channel. -/
inductive HandlerPc where
  /-- Not in `RpcCallback`. -/
  | idle
  /-- In `taskchan->full()`. -/
  | checking (reqmsg : RequestMessage) (resp : List CallResp)
  /-- The channel was not full. About to call
  `taskchan->put(reqmsg)`. -/
  | free (reqmsg : RequestMessage) (resp : List CallResp)
  /-- In that `put`. -/
  | putting (reqmsg : RequestMessage) (resp : List CallResp)

/-- The message that the handler has made of the request. -/
def HandlerPc.reqmsg : HandlerPc → Option RequestMessage
  | .idle => none
  | .checking reqmsg _ | .free reqmsg _ | .putting reqmsg _ => some reqmsg

/-- What the handler has written to the response. -/
def HandlerPc.resp : HandlerPc → List CallResp
  | .idle => []
  | .checking _ resp | .free _ resp | .putting _ resp => resp

/-- A request that was answered: the message that its handler made of
it, and the response. -/
structure Answer where
  reqmsg : RequestMessage
  resp : List CallResp

/-- The response has a `CallResp` with errno 0. -/
def Answer.isSuccess (a : Answer) : Bool :=
  a.resp.any fun status => status.errcode = 0

end Bigpipe.Acceptor
