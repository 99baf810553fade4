import Bigpipe.Lib.Trace
import Bigpipe.Proofs.Config
import Bigpipe.Proofs.Main
import Bigpipe.Proofs.RequestMessage

/-!
# `Bigpipe.Proofs.RpcCallback`: what one request leads to

The handler goes on after an exception of `ParseFromJSON`.
`ParseFromJSON` opens the file that the body names. The ACL of the
configuration is not looked at.

Each of the three makes a promise of the handler depend on something
that it does not check. Whether the answer tells the truth depends on
whether `ParseFromJSON` throws, since after an exception there are two
`CallResp`s in one response. Whether the answer depends on the files
of the server depends on the name that the body happens to be. And
whether the producer is authorised depends on the request alone, as
nobody asks the configuration. Each equivalence says exactly when it
comes out right.

A handler is one of many, and its two lock sections are interleaved
with those of the others. `callback_of_run` says that this makes no
difference to what it does, but for the one bit that it gets from the
channel.

* `parseFromJSON_returns_iff`: when `ParseFromJSON` does not throw.
* `truthful_iff`: the answer tells what happened exactly where
  `ParseFromJSON` does not throw. `answeredTwice`: a body that is no
  JSON.
* `sameForAllFiles_iff`: the files of the server do not matter exactly
  where none of them can be opened under the name that is the body.
  `readsFile`: a body that names one.
* `onlyAuthorised_iff`: a message with a topic comes from an
  authorised producer exactly where the request happens to be that of
  one. `notAuthorised`: a producer that nobody knows.
* `callback_of_run`: a handler thread does what `callback` says,
  whatever the other threads do.
-/

set_option autoImplicit false

namespace Bigpipe

open Bigpipe.Lib Bigpipe.Lib.Throws

variable {folly : Folly} {fs fs' : FileSystem} {headers : UnorderedMap String} {body : String}

/-! ### Where `ParseFromJSON` throws -/

/-- `FromJSON` of an ACL throws at a text that is no JSON, and nowhere
else. -/
theorem AccessControlList.fromJSON_returns_iff {json : String} {acl : AccessControlList} :
    (∃ b acl', AccessControlList.fromJSON folly json acl = (.ok b, acl')) ↔
      ∃ dict, folly.parseJson json = .ok dict := by
  constructor
  · intro ⟨b, acl', h⟩
    obtain ⟨dict, hdict, -⟩ := lift_bind_iff.mp h
    exact ⟨dict, hdict⟩
  · intro ⟨dict, hdict⟩
    unfold AccessControlList.fromJSON
    rw [lift_bind_ok hdict]
    exact tryCatch_returns fun e s => rfl

/-- The file that the body names holds an object with the strings
`url`, `data`, `partitionKey` and `acl`, and the last one is JSON. -/
def Parses (folly : Folly) (fs : FileSystem) (body : String) : Prop :=
  ∃ dict url data partitionKey text acl, folly.parseJson (fs.read body) = .ok dict ∧
    folly.stringAt dict "url" = .ok url ∧ folly.stringAt dict "data" = .ok data ∧
    folly.stringAt dict "partitionKey" = .ok partitionKey ∧
    folly.stringAt dict "acl" = .ok text ∧ folly.parseJson text = .ok acl

/-- `ParseFromJSON` returns exactly there. -/
theorem parseFromJSON_returns_iff {reqbody : RequestBody} :
    (∃ b reqbody', RequestBody.parseFromJSON folly fs body reqbody = (.ok b, reqbody')) ↔
      Parses folly fs body := by
  constructor
  · intro ⟨b, reqbody', h⟩
    obtain ⟨-, dict, url, data, partitionKey, text, ok, acl', hdict, hurl, hdata, hkey, htext,
      hacl, -⟩ := RequestBody.parseFromJSON_iff.mp h
    -- The ACL returned, so its text is JSON.
    obtain ⟨acl, hjson⟩ := AccessControlList.fromJSON_returns_iff.mp ⟨ok, acl', hacl⟩
    exact ⟨dict, url, data, partitionKey, text, acl, hdict, hurl, hdata, hkey, htext, hjson⟩
  · intro ⟨dict, url, data, partitionKey, text, acl, hdict, hurl, hdata, hkey, htext, hjson⟩
    obtain ⟨b, acl', hacl⟩ := AccessControlList.fromJSON_returns_iff.mpr ⟨acl, hjson⟩
    exact ⟨true, _, RequestBody.parseFromJSON_ok reqbody hdict hurl hdata hkey htext hacl⟩

/-- Elsewhere it throws. -/
theorem parseFromJSON_throws (h : ¬ Parses folly fs body) :
    ∃ what reqbody, RequestBody.parseFromJSON folly fs body {} = (.error what, reqbody) := by
  cases hparse : RequestBody.parseFromJSON folly fs body {} with
  | mk r reqbody =>
      cases r with
      | ok b => exact absurd (parseFromJSON_returns_iff.mp ⟨b, reqbody, hparse⟩) h
      | error what => exact ⟨what, reqbody, rfl⟩

namespace Acceptor

variable {cap : Nat} {taskchan : CircularBuffer RequestMessage cap}

/-- The handler writes nothing before it looks at the channel, or one
`CallResp` with errno -1 where `ParseFromJSON` throws. -/
theorem receive_cases (folly : Folly) (fs : FileSystem) (headers : UnorderedMap String)
    (body : String) :
    (Parses folly fs body ∧ (receive folly fs headers body).2 = []) ∨
    (¬ Parses folly fs body ∧
      ∃ what, (receive folly fs headers body).2 = [⟨-1, what, .str ""⟩]) := by
  by_cases hparses : Parses folly fs body
  · obtain ⟨b, reqbody, hparse⟩ := parseFromJSON_returns_iff.mpr hparses
    refine .inl ⟨hparses, ?_⟩
    rw [receive, hparse]
  · obtain ⟨what, reqbody, hparse⟩ := parseFromJSON_throws hparses
    refine .inr ⟨hparses, what, ?_⟩
    rw [receive, hparse]

/-- A full channel: it stays as it is. -/
theorem rpcCallback_full (h : taskchan.isFull = true) :
    rpcCallback folly fs headers body taskchan =
      ((receive folly fs headers body).2 ++ [overloaded], taskchan) := by
  simp [rpcCallback, callback, h]

/-- A free slot: the message takes it. -/
theorem rpcCallback_free (h : taskchan.isFull = false) :
    rpcCallback folly fs headers body taskchan =
      ((receive folly fs headers body).2 ++ [success],
        taskchan.pushBack (receive folly fs headers body).1) := by
  simp [rpcCallback, callback, h]

/-- The handler puts the message in a channel with a free slot, and in
no other. Whether the parser has thrown does not matter: it puts the
message that there is. -/
theorem put_iff {reqmsg : RequestMessage} :
    (rpcCallback folly fs headers body taskchan).2.items = taskchan.items ++ [reqmsg] ↔
      taskchan.isFull = false ∧ reqmsg = (receive folly fs headers body).1 := by
  cases hfull : taskchan.isFull with
  | true =>
      rw [rpcCallback_full hfull]
      simp
  | false =>
      rw [rpcCallback_free hfull, CircularBuffer.items_pushBack hfull]
      simp [eq_comm]

/-! ### The truth of the answer -/

/-- One `CallResp` is written. At most one message is put in the
channel, and errno 0 says that it was. Where `ParseFromJSON` throws
the answer is errno -1, and the channel stays as it was. -/
structure Truthful (folly : Folly) (fs : FileSystem) (headers : UnorderedMap String)
    (body : String) (taskchan : CircularBuffer RequestMessage cap) : Prop where
  once : (rpcCallback folly fs headers body taskchan).1.length = 1
  atMostOne : (rpcCallback folly fs headers body taskchan).2 = taskchan ∨
    ∃ reqmsg, (rpcCallback folly fs headers body taskchan).2.items = taskchan.items ++ [reqmsg]
  errcode : (∃ status ∈ (rpcCallback folly fs headers body taskchan).1, status.errcode = 0) ↔
    ∃ reqmsg, (rpcCallback folly fs headers body taskchan).2.items = taskchan.items ++ [reqmsg]
  throws : ∀ what reqbody, RequestBody.parseFromJSON folly fs body {} = (.error what, reqbody) →
    (∀ status ∈ (rpcCallback folly fs headers body taskchan).1, status.errcode = -1) ∧
      (rpcCallback folly fs headers body taskchan).2 = taskchan

/-- The length of the response. -/
theorem length_rpcCallback :
    (rpcCallback folly fs headers body taskchan).1.length =
      (receive folly fs headers body).2.length + 1 := by
  cases hfull : taskchan.isFull with
  | true => simp [rpcCallback_full hfull]
  | false => simp [rpcCallback_free hfull]

/-- One `CallResp` is written exactly where `ParseFromJSON` returns.
The other one, after an exception, comes from the handler of the
exception. -/
theorem once_iff :
    (rpcCallback folly fs headers body taskchan).1.length = 1 ↔ Parses folly fs body := by
  rw [length_rpcCallback]
  rcases receive_cases folly fs headers body with ⟨hparses, hresp⟩ | ⟨hparses, what, hresp⟩
  · simp [hresp, hparses]
  · simp [hresp, hparses]

/-- The answer of a request tells what happened exactly where the file
that its body names holds what `ParseFromJSON` wants to read.

One direction needs no more than the number of `CallResp`s: after an
exception there are two of them, whatever the channel is like. -/
theorem truthful_iff (folly : Folly) (fs : FileSystem) (headers : UnorderedMap String)
    (body : String) (taskchan : CircularBuffer RequestMessage cap) :
    Truthful folly fs headers body taskchan ↔ Parses folly fs body := by
  constructor
  · intro h
    exact once_iff.mp h.once
  · intro hparses
    -- A body that parses answers nothing before the channel is looked at.
    have hresp : (receive folly fs headers body).2 = [] := by
      rcases receive_cases folly fs headers body with ⟨-, hresp⟩ | ⟨hnot, -⟩
      · exact hresp
      · exact absurd hparses hnot
    refine ⟨once_iff.mpr hparses, ?_, ?_, fun what reqbody hthrows => ?_⟩
    · cases hfull : taskchan.isFull with
      | true => exact .inl (by rw [rpcCallback_full hfull])
      | false => exact .inr ⟨_, put_iff.mpr ⟨hfull, rfl⟩⟩
    · simp only [put_iff]
      cases hfull : taskchan.isFull with
      | true => simp [rpcCallback_full hfull, hresp, overloaded]
      | false => simp [rpcCallback_free hfull, hresp, success]
    · obtain ⟨b, reqbody', hreturns⟩ := parseFromJSON_returns_iff.mpr hparses
      cases hreturns.symm.trans hthrows

/-- A channel without messages. -/
def noMessages : CircularBuffer RequestMessage 20 := .empty

/-- A server without files. -/
def noFiles : FileSystem := fun _ => none

/-- Without files no body can be read. -/
theorem not_parses_noFiles (body : String) : ¬ Parses compactFolly noFiles body := by
  have hempty : compactFolly.parseJson "" = .error "json parse error" := rfl
  intro ⟨dict, _, _, _, _, _, hdict, _⟩
  cases hdict.symm.trans hempty

/-- A body that is no file is answered twice, with -1 and with 0, and
its empty message is put in the channel. -/
theorem answeredTwice :
    (rpcCallback compactFolly noFiles ∅ "request" noMessages).1.map CallResp.errcode = [-1, 0] ∧
      (rpcCallback compactFolly noFiles ∅ "request" noMessages).2.items.length = 1 ∧
      ¬ Truthful compactFolly noFiles ∅ "request" noMessages := by
  have hfree : noMessages.isFull = false := rfl
  refine ⟨?_, ?_, fun h => not_parses_noFiles "request" (once_iff.mp h.once)⟩
  · rcases receive_cases compactFolly noFiles ∅ "request" with ⟨h, -⟩ | ⟨-, what, hresp⟩
    · exact absurd h (not_parses_noFiles "request")
    · rw [rpcCallback_free hfree, hresp]
      rfl
  · rw [rpcCallback_free hfree, CircularBuffer.items_pushBack hfree]
    rfl

/-! ### The files of the server -/

/-- Only under these names can files be opened. -/
def FileSystem.Over (names : String → Prop) (fs : FileSystem) : Prop :=
  ∀ name, fs name ≠ none → names name

/-- The response and the channel are the same for all contents of the
files. It compares two runs of the handler, on two servers that may
differ in what is in their files and in which of them exist. -/
def SameForAllFiles (folly : Folly) (names : String → Prop) (headers : UnorderedMap String)
    (body : String) (taskchan : CircularBuffer RequestMessage cap) : Prop :=
  ∀ fs fs', FileSystem.Over names fs → FileSystem.Over names fs' →
    rpcCallback folly fs headers body taskchan = rpcCallback folly fs' headers body taskchan

/-- The handler reads the text under the name that is the body, and no
other. -/
theorem rpcCallback_congr (h : fs.read body = fs'.read body) :
    rpcCallback folly fs headers body taskchan = rpcCallback folly fs' headers body taskchan := by
  unfold rpcCallback callback receive RequestBody.parseFromJSON
  rw [h]

/-- One file. -/
def oneFile (name text : String) : FileSystem := fun name' =>
  if name' = name then some text else none

theorem read_oneFile (name text : String) : (oneFile name text).read name = text := by
  simp [FileSystem.read, oneFile]

theorem over_oneFile {names : String → Prop} {name : String} (h : names name) (text : String) :
    FileSystem.Over names (oneFile name text) := by
  intro name' hname'
  by_cases heq : name' = name
  · rw [heq]
    exact h
  · simp [oneFile, heq] at hname'

/-- A request of empty strings with an ACL. -/
def blankRequest (acl : String) : Dynamic :=
  .obj [("url", .str ""), ("data", .str ""), ("partitionKey", .str ""), ("acl", .str acl)]

/-- A printed request is read. -/
theorem parses_request (hfolly : folly.Lawful) (body : String) :
    Parses folly (oneFile body (folly.toJson (blankRequest (folly.toJson (.obj []))))) body := by
  obtain ⟨acl, hacl, -, -⟩ := hfolly.parseJson_toJson (.obj []) (.obj List.nodup_nil nofun)
  have hrequest : OfStrings (blankRequest (folly.toJson (.obj []))) := .of_str (by simp) (by simp)
  obtain ⟨dict, hdict, -, hsame⟩ := hfolly.parseJson_toJson _ hrequest
  obtain ⟨fields, rfl⟩ := hsame.eq_obj
  refine ⟨.obj fields, "", "", "", folly.toJson (.obj []), acl, ?_, ?_, ?_, ?_, ?_, hacl⟩
  · rw [read_oneFile]
    exact hdict
  all_goals exact RequestMessage.stringAt_of_same hsame rfl

/-- An object without fields is no request. With `parses_request` this
gives two contents of one file that the handler tells apart. -/
theorem not_parses_empty (hfolly : folly.Lawful) (body : String) :
    ¬ Parses folly (oneFile body (folly.toJson (.obj []))) body := by
  intro ⟨dict, url, _, _, _, _, hdict, hurl, _⟩
  obtain ⟨dict', hdict', -, hsame⟩ :=
    hfolly.parseJson_toJson (.obj []) (.obj List.nodup_nil nofun)
  rw [read_oneFile, hdict'] at hdict
  cases hdict
  obtain ⟨fields, rfl⟩ := hsame.eq_obj
  -- The field is missing, so null is read, which is no string.
  have hnone : field "url" fields = none := by
    cases hsame with
    | obj hkeys hfields =>
        have hsome := hkeys "url"
        rw [field_nil] at hsome
        simpa using hsome.symm
  have hnull : folly.stringAt (.obj fields) "url" =
      folly.asString ((field "url" fields).getD .null) := rfl
  rw [hnull, hnone] at hurl
  cases hurl

/-- What the handler does is the same for all contents of the files
exactly where none of them can be opened under the name that is the
body.

Where one can, the two servers are one with a request in that file and
one with an empty object there. -/
theorem sameForAllFiles_iff (hfolly : folly.Lawful) (names : String → Prop)
    (headers : UnorderedMap String) (body : String)
    (taskchan : CircularBuffer RequestMessage cap) :
    SameForAllFiles folly names headers body taskchan ↔ ¬ names body := by
  constructor
  · intro hsame hbody
    -- One file is answered once, and the other twice.
    have hone : (rpcCallback folly
        (oneFile body (folly.toJson (blankRequest (folly.toJson (.obj []))))) headers body
        taskchan).1.length = 1 := once_iff.mpr (parses_request hfolly body)
    rw [hsame _ (oneFile body (folly.toJson (.obj []))) (over_oneFile hbody _)
      (over_oneFile hbody _)] at hone
    exact not_parses_empty hfolly body (once_iff.mp hone)
  · intro hbody fs fs' hfs hfs'
    refine rpcCallback_congr ?_
    have hnone : ∀ fs, FileSystem.Over names fs → fs body = none := by
      intro fs hfs
      by_contra hne
      exact hbody (hfs body hne)
    rw [FileSystem.read, hnone fs hfs, FileSystem.read, hnone fs' hfs']

/-- A request as a client means to send it: the body is the JSON text,
with a header. -/
def payBody : String :=
  "\x7b\"url\":\"http://127.0.0.1/pay\",\"data\":\"42\",\"acl\":\"\"\x7d"

def jsonHeaders : UnorderedMap String := AList.singleton "Content-Type" "application/json"

/-- `sameForAllFiles_iff` where the server has its configuration and a
request in files, and the body is neither of their names. One message
is in the channel already. -/
theorem sameForAllFiles_payBody :
    compactFolly.Lawful ∧ ¬ (payBody = "bigpipe.json" ∨ payBody = "request.json") ∧
    SameForAllFiles compactFolly (fun name => name = "bigpipe.json" ∨ name = "request.json")
      jsonHeaders payBody (noMessages.pushBack { topic := "orders" }) :=
  ⟨compactFolly_lawful, by decide, (sameForAllFiles_iff compactFolly_lawful
    (fun name => name = "bigpipe.json" ∨ name = "request.json") jsonHeaders payBody
    (noMessages.pushBack { topic := "orders" })).mpr (by decide)⟩

/-- A body that names a file of the server: whether the file is there
decides the response. -/
theorem readsFile :
    ¬ SameForAllFiles compactFolly (fun name => name ≠ "") ∅ "request.json" noMessages := by
  intro hsame
  have hone : (rpcCallback compactFolly (oneFile "request.json" (compactFolly.toJson
      (blankRequest (compactFolly.toJson (.obj []))))) ∅ "request.json" noMessages).1.length = 1 :=
    once_iff.mpr (parses_request compactFolly_lawful "request.json")
  rw [hsame _ noFiles (over_oneFile (by decide) _) fun name hname => absurd rfl hname] at hone
  exact not_parses_noFiles "request.json" (once_iff.mp hone)

/-! ### The producers -/

/-- The name and the secret in the ACL of a request. -/
def RequestAcl (folly : Folly) (fs : FileSystem) (body name secret : String) : Prop :=
  ∃ dict text acl, folly.parseJson (fs.read body) = .ok dict ∧
    folly.stringAt dict "acl" = .ok text ∧ folly.parseJson text = .ok acl ∧
    folly.stringAt acl "name" = .ok name ∧ folly.stringAt acl "secret" = .ok secret

/-- The configuration has an entry under the name of the request, with
its secret and the topic. It is what `kafka.producer.acl` is in the
file for. -/
def Authorised (config : Config) (folly : Folly) (fs : FileSystem) (body topic : String) : Prop :=
  ∃ name secret entry, RequestAcl folly fs body name secret ∧
    config.kafkaProducerAcl.lookup name = some entry ∧ entry.secret = secret ∧ entry.topic = topic

/-- A message is put in the channel only if its topic is authorised.
What is put is what the channel has at its end afterwards. -/
def OnlyAuthorised (config : Config) (folly : Folly) (fs : FileSystem)
    (headers : UnorderedMap String) (body : String)
    (taskchan : CircularBuffer RequestMessage cap) : Prop :=
  ∀ reqmsg,
    (rpcCallback folly fs headers body taskchan).2.items = taskchan.items ++ [reqmsg] →
    Authorised config folly fs body reqmsg.topic

/-- The topic that `ParseFromJSON` leaves in the ACL of the request.
It is empty where there is none or where the parse fails before it. -/
def requestTopic (folly : Folly) (fs : FileSystem) (body : String) : String :=
  (RequestBody.parseFromJSON folly fs body {}).2.acl.topic

/-- The message has that topic. -/
theorem topic_receive (folly : Folly) (fs : FileSystem) (headers : UnorderedMap String)
    (body : String) :
    (receive folly fs headers body).1.topic = requestTopic folly fs body := by
  unfold receive requestTopic
  split
  · rename_i hparse
    rw [hparse]
    rfl
  · rename_i hparse
    rw [hparse]
    rfl

/-- For every configuration, the messages that a request leads to are
those of authorised producers exactly where the channel is full or the
configuration has an entry for the name, the secret and the topic of
the request. -/
theorem onlyAuthorised_iff (config : Config) (folly : Folly) (fs : FileSystem)
    (headers : UnorderedMap String) (body : String)
    (taskchan : CircularBuffer RequestMessage cap) :
    OnlyAuthorised config folly fs headers body taskchan ↔
      taskchan.isFull = true ∨ Authorised config folly fs body (requestTopic folly fs body) := by
  unfold OnlyAuthorised
  simp only [put_iff]
  cases hfull : taskchan.isFull with
  | true => simp
  | false =>
      rw [← topic_receive folly fs headers body]
      simp

/-- The configuration authorises nobody, and the message with the
topic `test` is put in the channel. -/
theorem notAuthorised :
    Config.parseConfig compactFolly compactConversions Config.ordersFile "bigpipe.json"
        = .ok (some Config.ordersConfig) ∧
      ¬ OnlyAuthorised Config.ordersConfig compactFolly (requestFile topicAcl) ∅ "request.json"
        noMessages := by
  refine ⟨Config.parseConfig_ordersFile, fun h => ?_⟩
  obtain ⟨name, secret, entry, -, hentry, -⟩ := h _ (put_iff.mpr ⟨rfl, rfl⟩)
  cases hentry

end Acceptor

/-! ### The handlers of the process -/

namespace Main

open Bigpipe.Acceptor (HandlerPc receive callback success overloaded)
open Bigpipe.BoundedBlockingQueue (queue)
open Bigpipe.Lib.Monitor (acquire)
open Bigpipe.Lib.Trace (trace)

variable {lib : Libraries} {topics : Topics} {H : Type} {cap : Nat} [DecidableEq H] [Fintype H]
  {s s' : State H cap} {e : Event H} {h : H}

/-- What a handler does that others see: the channel gets a message,
or the client of the request an answer. -/
inductive HandlerAction where
  /-- It put a message in the channel. -/
  | put (reqmsg : RequestMessage)
  /-- It answered with these `CallResp`s. -/
  | answered (resp : List CallResp)

/-- What a handler does in a lock section that ends so: where `full()`
returns true it answers, and where `put` returns it has put its
message and answers. -/
def sectionActions : HandlerPc → Monitor.Outcome (BoundedBlockingQueue.Ret RequestMessage) →
    List HandlerAction
  | .checking _ resp, .returned (.flag true) => [.answered (resp ++ [overloaded])]
  | .putting reqmsg resp, .returned _ => [.put reqmsg, .answered (resp ++ [success])]
  | _, _ => []

/-- What the handlers do in a step. A handler acts in the lock
sections of the channel only, and what it does depends on what the
section answers. -/
def handlerActions (s : State H cap) : Event H → List (H × HandlerAction)
  | .fullSection h pick | .putSection h pick =>
    match acquire (queue RequestMessage cap) s.taskchan (.handler h) pick with
    | some (_, o) => (sectionActions (s.handler h) o).map fun action => (h, action)
    | none => []
  | _ => []

/-- The actions of one run of `RpcCallback`. -/
def callbackActions (run : List CallResp × Option RequestMessage) : List HandlerAction :=
  run.2.toList.map .put ++ [.answered run.1]

/-- Where the handler is in its run of `RpcCallback`, and what it has
done so far. It does nothing that others see before its last lock
section. -/
def InCallback (folly : Folly) (fs : FileSystem) (headers : UnorderedMap String) (body : String)
    (actions : List HandlerAction) : HandlerPc → Prop
  | .idle => ∃ full, actions = callbackActions (callback folly fs headers body full)
  | .checking reqmsg resp | .free reqmsg resp | .putting reqmsg resp =>
    receive folly fs headers body = (reqmsg, resp) ∧ actions = []

/-- The step is not the start of another run of the handler `h`. -/
def NoRequest (h : H) (e : Event H) : Prop :=
  ∀ fs headers body, e ≠ .request h fs headers body

/-- The moves of a handler in `RpcCallback`, with what it does. A
message that was put is answered with the success in the same step, as
no other step of the handler lies between. -/
inductive HandlerMove : HandlerPc → HandlerPc → List HandlerAction → Prop where
  | stays (pc : HandlerPc) : HandlerMove pc pc []
  | overloaded (reqmsg : RequestMessage) (resp : List CallResp) :
      HandlerMove (.checking reqmsg resp) .idle [.answered (resp ++ [Acceptor.overloaded])]
  | free (reqmsg : RequestMessage) (resp : List CallResp) :
      HandlerMove (.checking reqmsg resp) (.free reqmsg resp) []
  | put (reqmsg : RequestMessage) (resp : List CallResp) :
      HandlerMove (.free reqmsg resp) (.putting reqmsg resp) []
  | success (reqmsg : RequestMessage) (resp : List CallResp) :
      HandlerMove (.putting reqmsg resp) .idle
        [.put reqmsg, .answered (resp ++ [Acceptor.success])]

/-- The move of the handler `k`, for the handler `h`. -/
theorem HandlerMove.of_handler {k : H} {pc : HandlerPc} {actions : List HandlerAction}
    (hmove : HandlerMove (s.handler k) pc actions)
    (hs' : s'.handler = Function.update s.handler k pc)
    (hactions : handlerActions s e = actions.map fun action => (k, action)) :
    HandlerMove (s.handler h) (s'.handler h) (trace h (handlerActions s e)) := by
  rw [hs', hactions]
  by_cases hk : h = k
  · rw [hk, Function.update_self, Trace.trace_own]
    exact hmove
  · rw [Function.update_of_ne hk, Trace.trace_other fun heq => hk heq.symm]
    exact .stays _

/-- Every step that starts no run of the handler is a move of it. For
the steps of the other threads that is the move that stays. -/
theorem handlerMove_of_step (hstep : Step lib s e s') (he : NoRequest h e) :
    HandlerMove (s.handler h) (s'.handler h) (trace h (handlerActions s e)) := by
  cases hstep with
  | @request k fs headers body q hm hh hq =>
      -- The request that is excluded is this handler's own, so the one taken
      -- up here is another's.
      have hne : h ≠ k := by
        intro heq
        exact he fs headers body (by rw [heq])
      show HandlerMove (s.handler h) (Function.update s.handler k _ h) []
      rw [Function.update_of_ne hne]
      exact .stays _
  | @fullWait k q pick reqmsg resp o hh hq hret =>
      refine HandlerMove.of_handler (k := k) (.stays _)
        (Function.update_eq_self k s.handler).symm ?_
      simp only [handlerActions, hq]
      unfold sectionActions
      split
      · exact absurd rfl (hret true)
      · rename_i hputting
        rw [hh] at hputting
        cases hputting
      · rfl
  -- From here on handler `k` moves. If `k` is not `h` nothing of it shows in
  -- the trace of `h`.
  | @full k q pick reqmsg resp hh hq =>
      have hmove : HandlerMove (s.handler k) .idle [.answered (resp ++ [overloaded])] := by
        rw [hh]
        exact .overloaded reqmsg resp
      exact hmove.of_handler rfl (by simp [handlerActions, hq, sectionActions, hh])
  | @free k q pick reqmsg resp hh hq =>
      have hmove : HandlerMove (s.handler k) (.free reqmsg resp) [] := by
        rw [hh]
        exact .free reqmsg resp
      exact hmove.of_handler rfl (by simp [handlerActions, hq, sectionActions, hh])
  | @put k q reqmsg resp hh hq =>
      have hmove : HandlerMove (s.handler k) (.putting reqmsg resp) [] := by
        rw [hh]
        exact .put reqmsg resp
      exact hmove.of_handler rfl rfl
  | @putWait k q pick reqmsg resp o hh hq hret =>
      refine HandlerMove.of_handler (k := k) (.stays _)
        (Function.update_eq_self k s.handler).symm ?_
      simp only [handlerActions, hq]
      unfold sectionActions
      split
      · cases hret
      · cases hret
      · rfl
  | @putDone k q pick reqmsg resp r hh hq =>
      have hmove : HandlerMove (s.handler k) .idle
          [.put reqmsg, .answered (resp ++ [success])] := by
        rw [hh]
        exact .success reqmsg resp
      exact hmove.of_handler rfl (by simp [handlerActions, hq, sectionActions, hh])
  -- No other thread writes a handler's position or logs for it.
  | start | setRunning | serve | close | stop | stopPut | stopWait | stopPutDone | join | flushWait
    | flushed | take | leave | takeWait | takeDone | skip | crash | produce | spurious =>
      exact .stays _

/-- A move keeps the handler in its run: what it has done so far is
the beginning of what `RpcCallback` does. -/
theorem InCallback.move {fs : FileSystem} {headers : UnorderedMap String} {body : String}
    {actions actions' : List HandlerAction} {pc pc' : HandlerPc}
    (hmove : HandlerMove pc pc' actions')
    (hin : InCallback folly fs headers body actions pc) :
    InCallback folly fs headers body (actions ++ actions') pc' := by
  cases hmove with
  | stays =>
      rw [List.append_nil]
      exact hin
  | overloaded reqmsg resp =>
      -- `isFull` has just answered: this settles which callback the actions
      -- are a prefix of.
      obtain ⟨hreceive, hnone⟩ := hin
      refine ⟨true, ?_⟩
      simp [hnone, callback, hreceive, callbackActions]
  | success reqmsg resp =>
      obtain ⟨hreceive, hnone⟩ := hin
      refine ⟨false, ?_⟩
      simp [hnone, callback, hreceive, callbackActions]
  | free | put =>
      rw [List.append_nil]
      exact hin

/-- The start of a run. -/
theorem handler_request {fs : FileSystem} {headers : UnorderedMap String} {body : String}
    (hstep : Step lib s (.request h fs headers body) s') :
    s'.handler h = .checking (receive lib.folly fs headers body).1
      (receive lib.folly fs headers body).2 := by
  cases hstep with
  | request hm hh hq => exact Function.update_self _ _ _

/-- From a request on, whatever the other threads do: when the handler
is idle again it has done what `callback` does, for what it found out
about the channel.

So the results above, about one call of `RpcCallback`, hold of every
handler in every run of the process. -/
theorem callback_of_run {fs : FileSystem} {headers : UnorderedMap String} {body : String}
    {es : List (Event H)} {log log' : List (H × HandlerAction)} (hes : ∀ e ∈ es, NoRequest h e)
    (hrun : ((system lib topics H cap).logged handlerActions).run (s, log)
      (.request h fs headers body :: es) = some (s', log')) (hidle : s'.handler h = .idle) :
    ∃ full, trace h log' =
      trace h log ++ callbackActions (callback lib.folly fs headers body full) := by
  obtain ⟨p, hfirst, hrest⟩ := Option.bind_eq_some_iff.mp hrun
  have hin : ∃ actions, trace h log' = trace h log ++ actions ∧
      InCallback lib.folly fs headers body actions (s'.handler h) := by
    -- By induction on the rest of the run: the trace of `h` so far is a
    -- prefix of the callback's actions, the one its position stands for.
    refine System.run_induct (I := fun p : State H cap × List (H × HandlerAction) =>
      ∃ actions, trace h p.2 = trace h log ++ actions ∧
        InCallback lib.folly fs headers body actions (p.1.handler h)) ?_ ?_ hrest
    · intro p e p' he hp hs
      obtain ⟨actions, htrace, hin⟩ := hp
      obtain ⟨hstep, hlog⟩ := System.logged_step_iff.mp hs
      refine ⟨_, ?_, hin.move (handlerMove_of_step (step_cases hstep).2 (hes e he))⟩
      rw [hlog, Trace.trace_append, htrace, List.append_assoc]
    · obtain ⟨hstep, hlog⟩ := System.logged_step_iff.mp hfirst
      refine ⟨[], ?_, ?_⟩
      · rw [hlog, Trace.trace_append]
        rfl
      · rw [handler_request (step_cases hstep).2]
        exact ⟨rfl, rfl⟩
  obtain ⟨actions, htrace, hin⟩ := hin
  rw [hidle] at hin
  obtain ⟨full, rfl⟩ := hin
  exact ⟨full, htrace⟩

/-- `callback_of_run` for a request that finds room in the channel. -/
theorem callback_of_run_served :
    let lib : Libraries := { folly := compactFolly, hash := fun _ => 0 }
    let served := (system lib ∅ Unit 20).logged handlerActions
    ∃ s s' log', served.run (initial ∅ false, []) [.start, .setRunning, .serve] = some (s, []) ∧
      served.run (s, []) (.request () (fun _ => none) ∅ "request.json" ::
        [.fullSection () none, .put (), .putSection () none]) = some (s', log') ∧
      ∃ full, trace () log' = trace () [] ++
        callbackActions (callback compactFolly (fun _ => none) ∅ "request.json" full) := by
  intro lib served
  obtain ⟨s, s', log', hserving, hrun, hidle⟩ : ∃ s s' log',
      served.run (initial ∅ false, []) [.start, .setRunning, .serve] = some (s, []) ∧
      served.run (s, []) (.request () (fun _ => none) ∅ "request.json" ::
        [.fullSection () none, .put (), .putSection () none]) = some (s', log') ∧
      s'.handler () = .idle := ⟨_, _, _, rfl, rfl, rfl⟩
  exact ⟨s, s', log', hserving, hrun, callback_of_run (by simp [NoRequest]) hrun hidle⟩

end Main

end Bigpipe
