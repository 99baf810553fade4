import Bigpipe.Acceptor.Acceptor
import Bigpipe.Folly.Compact

/-!
# `Bigpipe.Proofs.Acceptor`: what the handler makes of a request

The handler parses the body, writes a `CallResp` where the parser
throws, and asks the channel. The results here are about the first
part, up to the question whether the channel has room.

`ParseFromJSON` throws or returns true, and the body that it leaves
when it returns is determined by the file that it opened. An ACL
without a topic is no failure: `topic` is optional in `FromJSON`, so
such a request is read to its end, and its message has the empty
topic.

* `errcode_of_mem_receive`: nothing is answered with errno 0 before
  the channel is looked at.
* `parseFromJSON_iff`: when `ParseFromJSON` returns, and with which
  body.
* `receive_ok`: the message of a request whose parts are all there.
  `fromJSON_noTopic`: an ACL without a topic is such a part.
* `receive_noTopicFile` and `receive_topicFile`: two requests.
-/

set_option autoImplicit false

namespace Bigpipe

open Bigpipe.Lib Bigpipe.Lib.Throws

/-! ### Requests whose parts are all there -/

/-- `FromJSON` reads an ACL without a topic, and leaves the topic as
it was. -/
theorem AccessControlList.fromJSON_noTopic {folly : Folly} {json : String} {dict : Dynamic}
    {name secret : String} (acl : AccessControlList) (hdict : folly.parseJson json = .ok dict)
    (hname : folly.stringAt dict "name" = .ok name)
    (hsecret : folly.stringAt dict "secret" = .ok secret)
    (hcount : folly.count dict "topic" = .ok 0) :
    AccessControlList.fromJSON folly json acl = (.ok true, { acl with name, secret }) := by
  unfold AccessControlList.fromJSON
  rw [lift_bind_ok hdict]
  apply tryCatch_ok
  rw [lift_bind_ok hname, assign_bind, lift_bind_ok hsecret, assign_bind, lift_bind_ok hcount]
  rfl

/-- `FromJSON` reads an ACL with a topic. -/
theorem AccessControlList.fromJSON_topic {folly : Folly} {json : String} {dict : Dynamic}
    {name secret topic : String} (acl : AccessControlList)
    (hdict : folly.parseJson json = .ok dict)
    (hname : folly.stringAt dict "name" = .ok name)
    (hsecret : folly.stringAt dict "secret" = .ok secret)
    (hcount : folly.count dict "topic" = .ok 1)
    (htopic : folly.stringAt dict "topic" = .ok topic) :
    AccessControlList.fromJSON folly json acl = (.ok true, { topic, name, secret }) := by
  unfold AccessControlList.fromJSON
  rw [lift_bind_ok hdict]
  apply tryCatch_ok
  rw [lift_bind_ok hname, assign_bind, lift_bind_ok hsecret, assign_bind, lift_bind_ok hcount]
  exact lift_bind_iff.mpr ⟨topic, htopic, rfl⟩

/-- `ParseFromJSON` of a body whose parts are all there. It returns
true even where the text of the ACL is malformed, as it does not look
at what `FromJSON` of the ACL returns. -/
theorem RequestBody.parseFromJSON_ok {folly : Folly} {fs : FileSystem} {body : String}
    {dict : Dynamic} {url data partitionKey text : String} {acl : AccessControlList} {ok : Bool}
    (reqbody : RequestBody) (hdict : folly.parseJson (fs.read body) = .ok dict)
    (hurl : folly.stringAt dict "url" = .ok url)
    (hdata : folly.stringAt dict "data" = .ok data)
    (hkey : folly.stringAt dict "partitionKey" = .ok partitionKey)
    (htext : folly.stringAt dict "acl" = .ok text)
    (hacl : AccessControlList.fromJSON folly text reqbody.acl = (.ok ok, acl)) :
    RequestBody.parseFromJSON folly fs body reqbody =
      (.ok true, { acl, url, data, partitionKey }) := by
  unfold RequestBody.parseFromJSON
  rw [lift_bind_ok hdict, lift_bind_ok hurl, assign_bind, lift_bind_ok hdata, assign_bind,
    lift_bind_ok hkey, assign_bind, lift_bind_ok htext]
  -- The answer of the ACL is dropped, so a failed ACL is kept as far as it
  -- was read.
  exact bind_ok (onMember_apply hacl)

/-- `ParseFromJSON` returns from such bodies only, and true. There is
no path on which it returns false, so the boolean says nothing to its
callers. -/
theorem RequestBody.parseFromJSON_iff {folly : Folly} {fs : FileSystem} {body : String}
    {reqbody reqbody' : RequestBody} {b : Bool} :
    RequestBody.parseFromJSON folly fs body reqbody = (.ok b, reqbody') ↔
      b = true ∧ ∃ dict url data partitionKey text ok acl,
        folly.parseJson (fs.read body) = .ok dict ∧ folly.stringAt dict "url" = .ok url ∧
        folly.stringAt dict "data" = .ok data ∧
        folly.stringAt dict "partitionKey" = .ok partitionKey ∧
        folly.stringAt dict "acl" = .ok text ∧
        AccessControlList.fromJSON folly text reqbody.acl = (.ok ok, acl) ∧
        reqbody' = { acl, url, data, partitionKey } := by
  constructor
  · intro h
    obtain ⟨dict, hdict, h⟩ := lift_bind_iff.mp h
    obtain ⟨url, hurl, h⟩ := lift_bind_iff.mp h
    rw [assign_bind] at h
    obtain ⟨data, hdata, h⟩ := lift_bind_iff.mp h
    rw [assign_bind] at h
    obtain ⟨partitionKey, hkey, h⟩ := lift_bind_iff.mp h
    rw [assign_bind] at h
    obtain ⟨text, htext, h⟩ := lift_bind_iff.mp h
    obtain ⟨ok, s₁, hmember, h⟩ := ok_of_bind h
    obtain ⟨acl, hacl, rfl⟩ := ok_of_onMember hmember
    cases h
    exact ⟨rfl, dict, url, data, partitionKey, text, ok, acl, hdict, hurl, hdata, hkey, htext,
      hacl, rfl⟩
  · rintro ⟨rfl, dict, url, data, partitionKey, text, ok, acl, hdict, hurl, hdata, hkey, htext,
      hacl, rfl⟩
    exact parseFromJSON_ok reqbody hdict hurl hdata hkey htext hacl

namespace Acceptor

/-- The message of such a request has the topic of the ACL, and
nothing is answered yet. -/
theorem receive_ok {folly : Folly} {fs : FileSystem} {headers : UnorderedMap String}
    {body : String} {dict : Dynamic} {url data partitionKey text : String}
    {acl : AccessControlList} {ok : Bool} (hdict : folly.parseJson (fs.read body) = .ok dict)
    (hurl : folly.stringAt dict "url" = .ok url)
    (hdata : folly.stringAt dict "data" = .ok data)
    (hkey : folly.stringAt dict "partitionKey" = .ok partitionKey)
    (htext : folly.stringAt dict "acl" = .ok text)
    (hacl : AccessControlList.fromJSON folly text {} = (.ok ok, acl)) :
    receive folly fs headers body =
      ({ headers, partitionKey, topic := acl.topic, url, data }, []) := by
  unfold receive
  rw [RequestBody.parseFromJSON_ok {} hdict hurl hdata hkey htext hacl]
  rfl

/-! ### Answers -/

/-- Before the channel is looked at, no `CallResp` has errno 0. -/
theorem errcode_of_mem_receive {folly : Folly} {fs : FileSystem} {headers : UnorderedMap String}
    {body : String} {status : CallResp} (h : status ∈ (receive folly fs headers body).2) :
    status.errcode ≠ 0 := by
  unfold receive at h
  split at h
  · cases h
  · cases List.mem_singleton.mp h
    exact nofun

/-- A response without errno 0 becomes a success by errno 0 alone.
`RpcCallback` appends its verdict on the channel to what the parser
has left there. -/
theorem isSuccess_concat {reqmsg : RequestMessage} {resp : List CallResp} {status : CallResp}
    (h : ∀ st ∈ resp, st.errcode ≠ 0) :
    Answer.isSuccess ⟨reqmsg, resp ++ [status]⟩ = decide (status.errcode = 0) := by
  have hnone : (resp.any fun st => st.errcode = 0) = false := by
    rw [List.any_eq_false]
    intro st hst
    simpa using h st hst
  rw [Answer.isSuccess, List.any_append, hnone, Bool.false_or]
  simp

/-! ### Two requests -/

/-- The ACL of a request without a topic. -/
def noTopicAcl : Dynamic :=
  .obj [("name", .str "system-1"), ("secret", .str "you are good")]

/-- The ACL of a request with the topic `test`. -/
def topicAcl : Dynamic :=
  .obj [("name", .str "system-1"), ("secret", .str "you are good"), ("topic", .str "test")]

/-- The body of a request with an ACL. -/
def requestBody (acl : Dynamic) : Dynamic :=
  .obj [("url", .str "/pay"), ("data", .str "x"), ("partitionKey", .str ""),
    ("acl", .str (compactFolly.toJson acl))]

/-- A file with that body. -/
def requestFile (acl : Dynamic) : FileSystem := fun name =>
  if name = "request.json" then some (compactFolly.toJson (requestBody acl)) else none

/-- The message of a request in a file. -/
theorem receive_requestFile {acl : Dynamic} {acl' : AccessControlList} {ok : Bool}
    (hacl : AccessControlList.fromJSON compactFolly (compactFolly.toJson acl) {} =
      (.ok ok, acl')) :
    receive compactFolly (requestFile acl) ∅ "request.json" =
      ({ headers := ∅, topic := acl'.topic, url := "/pay", data := "x" }, []) := by
  have hbody : OfStrings (requestBody acl) := .of_str (by simp) (by simp)
  have hdict : compactFolly.parseJson ((requestFile acl).read "request.json") =
      .ok (requestBody acl) := by
    rw [show (requestFile acl).read "request.json" = compactFolly.toJson (requestBody acl) by
      simp [FileSystem.read, requestFile]]
    exact compactFolly_parseJson hbody
  exact receive_ok hdict rfl rfl rfl rfl hacl

/-- The message of the request without a topic. -/
theorem receive_noTopicFile :
    receive compactFolly (requestFile noTopicAcl) ∅ "request.json" =
      ({ headers := ∅, topic := "", url := "/pay", data := "x" }, []) := by
  have hacl : OfStrings noTopicAcl := .of_str (by decide) (by simp)
  exact receive_requestFile
    (AccessControlList.fromJSON_noTopic {} (compactFolly_parseJson hacl) rfl rfl rfl)

/-- The message of the request with a topic. -/
theorem receive_topicFile :
    receive compactFolly (requestFile topicAcl) ∅ "request.json" =
      ({ headers := ∅, topic := "test", url := "/pay", data := "x" }, []) := by
  have hacl : OfStrings topicAcl := .of_str (by decide) (by simp)
  exact receive_requestFile
    (AccessControlList.fromJSON_topic {} (compactFolly_parseJson hacl) rfl rfl rfl rfl)

end Acceptor

end Bigpipe
