import Bigpipe.Proofs.AccessControl

/-!
# `Bigpipe.Proofs.RequestBody`: request bodies of a client library

A client sets the fields of an ACL and of a body, prints the body, and
the server parses the text. The two printers and the two parsers fit
together. The setters assign their parameter to itself, and the parser
opens the file that its argument names.

So of the three parts of a round trip the middle one works, for every
character that a field may have (`encodes_toJSON`), and the two others
do not. A setter with a parameter of the same name as the field
assigns the parameter, and the field keeps the empty string it was
constructed with. And the parser takes the text for a file name.

What is left of the round trip is then a condition on the file system:
there has to be a file whose name is the text of an empty body, and it
has to hold what the client meant to set.

* `encodes_toJSON`: the text that `ToJSON` prints encodes the body,
  with its ACL.
* `parseFromJSON_iff_encodes`: `ParseFromJSON` gives the body that the
  text of its file encodes.
* `run_setters`: no sequence of setters changes anything.
* `roundTrips_iff`: what was set is what is parsed exactly when it is
  what the file encodes that has the text of an empty body as its
  name. `neverSet`: a request that is lost.
* `roundTrips_ofFile_iff`: with the printed text in the file, exactly
  when nothing was set.
-/

set_option autoImplicit false

namespace Bigpipe

open Bigpipe.Lib Bigpipe.Lib.Throws
open Bigpipe.RequestMessage (stringAt_of_same)

variable {folly : Folly} {fs : FileSystem}

/-! ### What a text encodes -/

/-- The text is that of an object with the strings of the body, and
its ACL is what `FromJSON` leaves in a fresh object, whether or not it
could read all of it. -/
def RequestBody.Encodes (folly : Folly) (text : String) (b : RequestBody) : Prop :=
  ∃ dict aclText ok, folly.parseJson text = .ok dict ∧ folly.stringAt dict "url" = .ok b.url ∧
    folly.stringAt dict "data" = .ok b.data ∧
    folly.stringAt dict "partitionKey" = .ok b.partitionKey ∧
    folly.stringAt dict "acl" = .ok aclText ∧
    AccessControlList.Outcome folly aclText {} (.ok ok) b.acl

/-- `ParseFromJSON` on a fresh body gives the body that the text of
its file encodes. -/
theorem RequestBody.parseFromJSON_iff_encodes {body : String} {b : RequestBody} :
    parseFromJSON folly fs body {} = (.ok true, b) ↔ Encodes folly (fs.read body) b := by
  rw [parseFromJSON_iff]
  constructor
  · rintro ⟨-, dict, url, data, partitionKey, text, ok, acl, hdict, hurl, hdata, hkey, htext, hacl,
      rfl⟩
    exact ⟨dict, text, ok, hdict, hurl, hdata, hkey, htext, AccessControlList.fromJSON_iff.mp hacl⟩
  · rintro ⟨dict, text, ok, hdict, hurl, hdata, hkey, htext, hacl⟩
    exact ⟨rfl, dict, b.url, b.data, b.partitionKey, text, ok, b.acl, hdict, hurl, hdata, hkey,
      htext, AccessControlList.fromJSON_iff.mpr hacl, rfl⟩

/-- A printed ACL is read back, whatever characters its fields
have. -/
theorem AccessControlList.outcome_toJSON (hfolly : folly.Lawful) (acl : AccessControlList) :
    Outcome folly (acl.toJSON folly) {} (.ok true) acl := by
  have hstrings : OfStrings acl.toDynamic := .of_str (by simp) (by simp)
  obtain ⟨dict, hdict, -, hsame⟩ := hfolly.parseJson_toJson _ hstrings
  obtain ⟨fields, rfl⟩ := hsame.eq_obj
  have hcount : folly.count (.obj fields) "topic" = .ok 1 := by
    obtain ⟨d, hd, -⟩ := hsame.exists_field
      (show field "topic" _ = some (.str acl.topic) from rfl)
    show Except.ok (if (field "topic" fields).isSome then 1 else 0) = _
    rw [hd]
    rfl
  exact .read hdict (stringAt_of_same hsame rfl) (stringAt_of_same hsame rfl) hcount
    (stringAt_of_same hsame rfl)

/-- The printed text encodes the body: the text of the ACL is printed
into a string, and parsed from it. -/
theorem RequestBody.encodes_toJSON (hfolly : folly.Lawful) (b : RequestBody) :
    Encodes folly (b.toJSON folly) b := by
  have hstrings : OfStrings (b.toDynamic folly) := .of_str (by simp) (by simp)
  obtain ⟨dict, hdict, -, hsame⟩ := hfolly.parseJson_toJson _ hstrings
  obtain ⟨fields, rfl⟩ := hsame.eq_obj
  exact ⟨_, b.acl.toJSON folly, true, hdict, stringAt_of_same hsame rfl,
    stringAt_of_same hsame rfl, stringAt_of_same hsame rfl, stringAt_of_same hsame rfl,
    b.acl.outcome_toJSON hfolly⟩

/-! ### Setters -/

/-- A call of a setter of `AccessControlList` or of `RequestBody`,
with the value that it is given. -/
inductive SetterCall where
  | setTopic (topic : String)
  | setName (name : String)
  | setSecret (secret : String)
  | setURL (url : String)
  | setPartitionKey (partitionKey : String)
  | setData (data : String)
  /-- The body is given the list as it is. -/
  | setACL
  deriving DecidableEq, Repr

/-- The list and the body that a client fills. -/
structure Filled where
  acl : AccessControlList := {}
  body : RequestBody := {}
  deriving DecidableEq, Repr

/-- What the call does. `setACL` gives the body the list, and the
other setters assign to their parameter. -/
def SetterCall.apply (s : Filled) : SetterCall → Filled
  | setTopic topic => { s with acl := s.acl.setTopic topic }
  | setName name => { s with acl := s.acl.setName name }
  | setSecret secret => { s with acl := s.acl.setSecret secret }
  | setURL url => { s with body := s.body.setURL url }
  | setPartitionKey partitionKey => { s with body := s.body.setPartitionKey partitionKey }
  | setData data => { s with body := s.body.setData data }
  | setACL => { s with body := s.body.setACL s.acl }

/-- What the call is for: its field holds the value from then on, and
the others what they held. It is the abstract counterpart of
`apply`. -/
def SetterCall.intend (s : Filled) : SetterCall → Filled
  | setTopic topic => { s with acl := { s.acl with topic } }
  | setName name => { s with acl := { s.acl with name } }
  | setSecret secret => { s with acl := { s.acl with secret } }
  | setURL url => { s with body := { s.body with url } }
  | setPartitionKey partitionKey => { s with body := { s.body with partitionKey } }
  | setData data => { s with body := { s.body with data } }
  | setACL => { s with body := { s.body with acl := s.acl } }

/-- The body with the last value of every field, or the empty string.
It is what the calls are for, and not what they do. -/
def lastSet (calls : List SetterCall) : RequestBody :=
  (calls.foldl SetterCall.intend {}).body

/-- What the client prints is parsed into a fresh body with the last
values. It asks for both: that the parse returns true, and that each
field is what was set. -/
def RoundTrips (folly : Folly) (fs : FileSystem) (calls : List SetterCall) : Prop :=
  RequestBody.parseFromJSON folly fs ((calls.foldl SetterCall.apply {}).body.toJSON folly) {} =
    (.ok true, lastSet calls)

/-- The setters change nothing. The list that `setACL` hands over is
an empty one, since nothing was set in it either. -/
theorem run_setters (s : Filled) (calls : List SetterCall) :
    calls.foldl SetterCall.apply s = s := by
  induction calls with
  | nil => rfl
  | cons c calls ih =>
      have hstep : c.apply s = s := by cases c <;> rfl
      rw [List.foldl_cons, hstep]
      exact ih

/-- What was set is what is parsed exactly when it is what the file
encodes that has the text of an empty body as its name. Two defects
meet here: the setters assign to their own parameter, so the text is
that of an empty body whatever was set, and `ParseFromJSON` opens a
file of that name in the place of parsing the text. -/
theorem roundTrips_iff (folly : Folly) (fs : FileSystem) (calls : List SetterCall) :
    RoundTrips folly fs calls ↔
      RequestBody.Encodes folly (fs.read (RequestBody.toJSON folly {})) (lastSet calls) := by
  rw [RoundTrips, run_setters]
  exact RequestBody.parseFromJSON_iff_encodes

/-- Where that file holds the printed text, what was set is parsed
exactly when every last value is empty. -/
theorem roundTrips_ofFile_iff (hfolly : folly.Lawful) {calls : List SetterCall}
    (hfile : fs.read (RequestBody.toJSON folly {}) = RequestBody.toJSON folly {}) :
    RoundTrips folly fs calls ↔ lastSet calls = {} := by
  have hempty : RequestBody.parseFromJSON folly fs (RequestBody.toJSON folly {}) {} =
      (.ok true, {}) := by
    rw [RequestBody.parseFromJSON_iff_encodes, hfile]
    exact RequestBody.encodes_toJSON hfolly {}
  rw [RoundTrips, run_setters, hempty, Prod.mk.injEq, and_iff_right rfl]
  exact eq_comm

/-- The calls of a client that fills a request. -/
def oneRequest : List SetterCall :=
  [.setName "system-1", .setSecret "you are good", .setACL, .setURL "/pay", .setData "x"]

/-- The request is lost where no file has the text as its name, and
where every file holds its own name. -/
theorem neverSet :
    compactFolly.Lawful ∧ ¬ RoundTrips compactFolly (fun _ => none) oneRequest ∧
      ¬ RoundTrips compactFolly (fun name => some name) oneRequest := by
  refine ⟨compactFolly_lawful, fun h => ?_, fun h => ?_⟩
  · obtain ⟨dict, text, ok, hdict, -⟩ := RequestBody.parseFromJSON_iff_encodes.mp h
    have hempty : compactFolly.parseJson "" = .error "json parse error" := rfl
    cases hdict.symm.trans hempty
  · have hlast : lastSet oneRequest = {} := (roundTrips_ofFile_iff compactFolly_lawful rfl).mp h
    exact absurd hlast (by decide)

end Bigpipe
