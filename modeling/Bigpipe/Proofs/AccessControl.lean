import Bigpipe.Proofs.ConfigChecks
import Bigpipe.Proofs.RpcCallback

/-!
# `Bigpipe.Proofs.AccessControl`: the ACLs of a configuration and of a request

`FromJSON` of an ACL assigns each field before it asks for the next
one. Where the text is no JSON it throws, and where a field cannot be
read it returns false. `ParseConfig` and `ParseFromJSON` do not look
at what it returns. `ParseConfig` checks the topic that it leaves in
the object.

The function has six ends, and each leaves the object in a state of
its own. `Outcome` lists them with what was read up to there, and the
rest of the module is about which of them can be reached in which
caller. So a failed parse of an ACL has three consequences, and each
has its own condition: in the configuration it is stopped by the check
of the topic unless a topic is called like the default, in a body it
is not stopped at all, and in the object it leaves what was assigned
before the failure.

For an accepted configuration the maps are those that the loops
inserted, one entry of the file after the other. What they keep of the
file is decided by two things: of several entries under one name the
last one stays, and `int(asInt())` narrows its number.

* `fromJSON_iff`: the ways in which `FromJSON` ends, each with the
  fields it leaves.
* `foldlM_readAcl_eq_ok`: the loop over `kafka.producer.acl` inserts
  the ACLs that it checked.
* `referentialIntegrity_iff`: the maps of an accepted configuration
  fit each other and the entries of the file, exactly where the number
  of partitions that each name has last fits an `int`.
* `partitionsNarrowed`: a file with one that does not.
* `failedParse_iff`: where an ACL that was not parsed is accepted, or
  changes the object. `usesFailedParse`: the three at once.
-/

set_option autoImplicit false

namespace Bigpipe

open Bigpipe.Lib Bigpipe.Lib.Throws
open Bigpipe.Lib.Validation
open Bigpipe.Acceptor (oneFile read_oneFile blankRequest)
open Bigpipe.Client (FitsInt)

variable {folly : Folly} {conv : Conversions} {fs : FileSystem}

/-! ### `FromJSON` -/

namespace AccessControlList

variable {json : String} {acl acl' : AccessControlList} {r : Except String Bool}

/-- How `FromJSON` ends, and what the object is then. The cases are in
the order of the source, and each has the values that were read before
it was reached. -/
inductive Outcome (folly : Folly) (json : String) (acl : AccessControlList) :
    Except String Bool → AccessControlList → Prop where
  /-- The text is no JSON. -/
  | noJson {what : String} (hjson : folly.parseJson json = .error what) :
      Outcome folly json acl (.error what) acl
  | noName {dict : Dynamic} {what : String} (hjson : folly.parseJson json = .ok dict)
      (hname : folly.stringAt dict "name" = .error what) : Outcome folly json acl (.ok false) acl
  /-- The name was assigned before. -/
  | noSecret {dict : Dynamic} {name what : String} (hjson : folly.parseJson json = .ok dict)
      (hname : folly.stringAt dict "name" = .ok name)
      (hsecret : folly.stringAt dict "secret" = .error what) :
      Outcome folly json acl (.ok false) { acl with name }
  /-- The name and the secret were assigned before. -/
  | badTopic {dict : Dynamic} {name secret what : String}
      (hjson : folly.parseJson json = .ok dict)
      (hname : folly.stringAt dict "name" = .ok name)
      (hsecret : folly.stringAt dict "secret" = .ok secret)
      (hcount : folly.count dict "topic" = .ok 1)
      (htopic : folly.stringAt dict "topic" = .error what) :
      Outcome folly json acl (.ok false) { acl with name, secret }
  | noTopic {dict : Dynamic} {name secret : String} (hjson : folly.parseJson json = .ok dict)
      (hname : folly.stringAt dict "name" = .ok name)
      (hsecret : folly.stringAt dict "secret" = .ok secret)
      (hcount : folly.count dict "topic" = .ok 0) :
      Outcome folly json acl (.ok true) { acl with name, secret }
  | read {dict : Dynamic} {name secret topic : String} (hjson : folly.parseJson json = .ok dict)
      (hname : folly.stringAt dict "name" = .ok name)
      (hsecret : folly.stringAt dict "secret" = .ok secret)
      (hcount : folly.count dict "topic" = .ok 1)
      (htopic : folly.stringAt dict "topic" = .ok topic) :
      Outcome folly json acl (.ok true) { topic, name, secret }

/-- A value with a string under a key is an object, so its fields can
be counted. -/
theorem count_of_stringAt {dict : Dynamic} {key value : String}
    (h : folly.stringAt dict key = .ok value) (key' : String) :
    folly.count dict key' = .ok 0 ∨ folly.count dict key' = .ok 1 := by
  cases dict with
  | obj fields =>
      show Except.ok (if (field key' fields).isSome then 1 else 0) = _ ∨
        Except.ok (if (field key' fields).isSome then 1 else 0) = _
      split
      · exact .inr rfl
      · exact .inl rfl
  | null | bool | num | str | arr => cases h

/-- `FromJSON` ends in one of these ways. Each is found by reading the
keys in the order of the code. -/
theorem exists_outcome (folly : Folly) (json : String) (acl : AccessControlList) :
    ∃ r acl', Outcome folly json acl r acl' := by
  cases hjson : folly.parseJson json with
  | error what => exact ⟨_, _, .noJson hjson⟩
  | ok dict =>
      cases hname : folly.stringAt dict "name" with
      | error what => exact ⟨_, _, .noName hjson hname⟩
      | ok name =>
          cases hsecret : folly.stringAt dict "secret" with
          | error what => exact ⟨_, _, .noSecret hjson hname hsecret⟩
          | ok secret =>
              rcases count_of_stringAt hname "topic" with hcount | hcount
              · exact ⟨_, _, .noTopic hjson hname hsecret hcount⟩
              · cases htopic : folly.stringAt dict "topic" with
                | error what => exact ⟨_, _, .badTopic hjson hname hsecret hcount htopic⟩
                | ok topic => exact ⟨_, _, .read hjson hname hsecret hcount htopic⟩

/-- It does what the case says. -/
theorem fromJSON_of_outcome (h : Outcome folly json acl r acl') :
    AccessControlList.fromJSON folly json acl = (r, acl') := by
  cases h with
  | noJson hjson => exact lift_bind_error hjson
  | noName hjson hname =>
      unfold AccessControlList.fromJSON
      rw [lift_bind_ok hjson]
      exact tryCatch_error (lift_bind_error hname)
  | noSecret hjson hname hsecret =>
      unfold AccessControlList.fromJSON
      rw [lift_bind_ok hjson, tryCatch_error]
      · rfl
      · rw [lift_bind_ok hname, assign_bind]
        exact lift_bind_error hsecret
  | badTopic hjson hname hsecret hcount htopic =>
      unfold AccessControlList.fromJSON
      rw [lift_bind_ok hjson, tryCatch_error]
      · rfl
      · rw [lift_bind_ok hname, assign_bind, lift_bind_ok hsecret, assign_bind,
          lift_bind_ok hcount]
        exact lift_bind_error htopic
  | noTopic hjson hname hsecret hcount => exact fromJSON_noTopic acl hjson hname hsecret hcount
  | read hjson hname hsecret hcount htopic =>
      exact fromJSON_topic acl hjson hname hsecret hcount htopic

/-- `FromJSON` ends in no other way. Statements about it are proved by
cases on `Outcome` from here on. -/
theorem fromJSON_iff :
    AccessControlList.fromJSON folly json acl = (r, acl') ↔ Outcome folly json acl r acl' := by
  constructor
  · intro h
    obtain ⟨r', acl'', houtcome⟩ := exists_outcome folly json acl
    cases h.symm.trans (fromJSON_of_outcome houtcome)
    exact houtcome
  · exact fromJSON_of_outcome

/-- The text is that of an object with a name, a secret, and a topic
that is a string if there is one. -/
def WellFormed (folly : Folly) (json : String) : Prop :=
  ∃ dict name secret, folly.parseJson json = .ok dict ∧
    folly.stringAt dict "name" = .ok name ∧ folly.stringAt dict "secret" = .ok secret ∧
    (folly.count dict "topic" = .ok 1 → ∃ topic, folly.stringAt dict "topic" = .ok topic)

/-- `FromJSON` returns true there, whatever the object was. What it
held before is overwritten or kept, and neither decides the result. -/
theorem fromJSON_true_iff :
    (∃ acl', AccessControlList.fromJSON folly json acl = (.ok true, acl')) ↔
      WellFormed folly json := by
  simp only [fromJSON_iff]
  constructor
  · rintro ⟨acl', houtcome⟩
    cases houtcome with
    | noTopic hjson hname hsecret hcount =>
        refine ⟨_, _, _, hjson, hname, hsecret, fun hone => ?_⟩
        cases hcount.symm.trans hone
    | read hjson hname hsecret hcount htopic =>
        exact ⟨_, _, _, hjson, hname, hsecret, fun _ => ⟨_, htopic⟩⟩
  · rintro ⟨dict, name, secret, hjson, hname, hsecret, htopic⟩
    rcases count_of_stringAt hname "topic" with hcount | hcount
    · exact ⟨_, .noTopic hjson hname hsecret hcount⟩
    · obtain ⟨topic, htopic⟩ := htopic hcount
      exact ⟨_, .read hjson hname hsecret hcount htopic⟩

/-- Where it does not return true, it leaves the topic as it was. The
topic is the last field that it reads. -/
theorem topic_of_failure (h : AccessControlList.fromJSON folly json acl = (r, acl'))
    (hr : r ≠ .ok true) : acl'.topic = acl.topic := by
  cases fromJSON_iff.mp h with
  | noJson | noName | noSecret | badTopic => rfl
  | noTopic | read => exact absurd rfl hr

/-- Where `FromJSON` returns false or throws, the object is what it
was. The fields are assigned one by one as they are read. -/
def UnchangedOnFailure (folly : Folly) (json : String) (acl : AccessControlList) : Prop :=
  ∀ r acl', AccessControlList.fromJSON folly json acl = (r, acl') → r ≠ .ok true → acl' = acl

/-- What can be read in front of a field that cannot be read is what
the object has already. For a fresh object these are empty strings. -/
def ReadsNothingNew (folly : Folly) (json : String) (acl : AccessControlList) : Prop :=
  ∀ dict name, folly.parseJson json = .ok dict → folly.stringAt dict "name" = .ok name →
    (∀ what, folly.stringAt dict "secret" = .error what → name = acl.name) ∧
    ∀ secret what, folly.stringAt dict "secret" = .ok secret →
      folly.count dict "topic" = .ok 1 → folly.stringAt dict "topic" = .error what →
      name = acl.name ∧ secret = acl.secret

/-- A failed `FromJSON` leaves the object as it was exactly there.
What has been read by then has been assigned. -/
theorem unchangedOnFailure_iff :
    UnchangedOnFailure folly json acl ↔ ReadsNothingNew folly json acl := by
  constructor
  · intro hsame dict name hjson hname
    refine ⟨fun what hsecret => ?_, fun secret what hsecret hcount htopic => ?_⟩
    · have heq := hsame _ _ (fromJSON_of_outcome (.noSecret hjson hname hsecret)) nofun
      exact congrArg AccessControlList.name heq
    · have heq := hsame _ _ (fromJSON_of_outcome (.badTopic hjson hname hsecret hcount htopic))
        nofun
      exact ⟨congrArg AccessControlList.name heq, congrArg AccessControlList.secret heq⟩
  · intro hnothing r acl' hend hr
    cases fromJSON_iff.mp hend with
    | noJson | noName => rfl
    | noSecret hjson hname hsecret =>
        rw [(hnothing _ _ hjson hname).1 _ hsecret]
    | badTopic hjson hname hsecret hcount htopic =>
        obtain ⟨hname', hsecret'⟩ := (hnothing _ _ hjson hname).2 _ _ hsecret hcount htopic
        rw [hname', hsecret']
    | noTopic | read => exact absurd rfl hr

end AccessControlList

/-! ### The ACL of a request -/

/-- Where `ParseFromJSON` returns, `FromJSON` returned true for the
ACL of the body. `ParseFromJSON` returns true whatever it returned. -/
def BodyAclParsed (folly : Folly) (fs : FileSystem) (body : String) (reqbody : RequestBody) :
    Prop :=
  ∀ b reqbody', RequestBody.parseFromJSON folly fs body reqbody = (.ok b, reqbody') →
    ∃ dict text acl, folly.parseJson (fs.read body) = .ok dict ∧
      folly.stringAt dict "acl" = .ok text ∧
      AccessControlList.fromJSON folly text reqbody.acl = (.ok true, acl)

/-- In a body whose parts are all there, the ACL is well formed. -/
def BodyAclWellFormed (folly : Folly) (fs : FileSystem) (body : String) : Prop :=
  Parses folly fs body → ∃ dict text, folly.parseJson (fs.read body) = .ok dict ∧
    folly.stringAt dict "acl" = .ok text ∧ AccessControlList.WellFormed folly text

/-- `ParseFromJSON` returns only with a parsed ACL exactly where the
ACL is well formed, if all the parts of the body are there. It does
not look at the boolean that `FromJSON` returns, so nothing else could
make it stop. -/
theorem bodyAclParsed_iff {body : String} {reqbody : RequestBody} :
    BodyAclParsed folly fs body reqbody ↔ BodyAclWellFormed folly fs body := by
  constructor
  · intro hparsed hparses
    have hreturns : ∃ b reqbody', RequestBody.parseFromJSON folly fs body reqbody =
        (.ok b, reqbody') := parseFromJSON_returns_iff.mpr hparses
    obtain ⟨b, reqbody', hreturns⟩ := hreturns
    obtain ⟨dict, text, acl, hdict, htext, htrue⟩ := hparsed b reqbody' hreturns
    exact ⟨dict, text, hdict, htext, AccessControlList.fromJSON_true_iff.mp ⟨acl, htrue⟩⟩
  · intro hformed b reqbody' hreturns
    obtain ⟨dict, text, hdict, htext, hformed⟩ :=
      hformed (parseFromJSON_returns_iff.mp ⟨b, reqbody', hreturns⟩)
    obtain ⟨acl, htrue⟩ := AccessControlList.fromJSON_true_iff.mpr hformed
    exact ⟨dict, text, acl, hdict, htext, htrue⟩

/-! ### The loop over `kafka.producer.acl` -/

namespace Config

variable {path : String} {config : Config} {dict : Dynamic} {topics : Topics}
  {acls acls' : UnorderedMap AccessControlList}

/-- The element is a string from which `FromJSON` does not throw, and
the topic that it leaves in a fresh object is one of the topics. -/
def Checked (folly : Folly) (topics : Topics) (aclMap : Dynamic) (acl : AccessControlList) :
    Prop :=
  ∃ json b, folly.asString aclMap = .ok json ∧
    AccessControlList.fromJSON folly json {} = (.ok b, acl) ∧ acl.topic ∈ topics

/-- A round of the loop stores the ACL under its name. It goes on if
the topic is there. What `FromJSON` has returned is `b` here, and
nothing depends on it. -/
theorem readAcl_eq_ok (acls : UnorderedMap AccessControlList) (aclMap : Dynamic)
    (acls' : UnorderedMap AccessControlList) :
    readAcl folly topics acls aclMap = .ok acls' ↔
      ∃ acl, Checked folly topics aclMap acl ∧ acls.insert acl.name acl = acls' := by
  simp only [readAcl, bind_eq_ok, reject, ite_error_eq_ok, pure_eq_ok, attempt_eq_ok, Checked]
  constructor
  · rintro ⟨json, hjson, b, hb, htopic, heq⟩
    refine ⟨(AccessControlList.fromJSON folly json {}).2, ⟨json, b, hjson, ?_, ?_⟩, heq⟩
    · rw [← hb]
    · by_contra hmem
      exact htopic (Option.isNone_iff_eq_none.mpr (AList.lookup_eq_none.mpr hmem))
  · rintro ⟨acl, ⟨json, b, hjson, hread, hmem⟩, heq⟩
    refine ⟨json, hjson, b, ?_, ?_, ?_⟩
    · rw [hread]
    · rw [hread, Option.isNone_iff_eq_none, AList.lookup_eq_none]
      exact fun h => h hmem
    · rw [hread]
      exact heq

/-- The loop inserts the ACLs that it checked. -/
theorem foldlM_readAcl_eq_ok {aclMaps : List Dynamic} :
    aclMaps.foldlM (readAcl folly topics) ∅ = .ok acls ↔
      ∃ checked, List.Forall₂ (Checked folly topics) aclMaps checked ∧
        insertAll (checked.map fun acl => (acl.name, acl)) = acls := by
  rw [foldlM_forall₂ readAcl_eq_ok]
  refine exists_congr fun checked => and_congr_right fun _ => ?_
  rw [insertAll, List.foldl_map]

/-- Every element of an accepted file was checked. -/
theorem checked_of_mem {aclMaps : List Dynamic} {aclMap : Dynamic}
    (h : aclMaps.foldlM (readAcl folly topics) ∅ = .ok acls) (hmem : aclMap ∈ aclMaps) :
    ∃ acl, Checked folly topics aclMap acl := by
  obtain ⟨checked, hall, -⟩ := foldlM_readAcl_eq_ok.mp h
  obtain ⟨acl, -, hcheck⟩ := exists_read hall hmem
  exact ⟨acl, hcheck⟩

/-- Every ACL that the loop stored is stored under its name, and its
topic is there. -/
theorem stored_of_lookup {aclMaps : List Dynamic} {name : String} {acl : AccessControlList}
    (h : aclMaps.foldlM (readAcl folly topics) ∅ = .ok acls)
    (hlookup : acls.lookup name = some acl) :
    acl.name = name ∧ acl.topic ∈ topics := by
  obtain ⟨checked, hall, rfl⟩ := foldlM_readAcl_eq_ok.mp h
  rw [lookup_insertAll] at hlookup
  obtain ⟨acl', hmem, heq⟩ := List.mem_map.mp (mem_of_lastOf hlookup)
  cases heq
  obtain ⟨aclMap, -, json, b, -, -, htopic⟩ := exists_source hall hmem
  exact ⟨rfl, htopic⟩

/-! ### The maps of an accepted configuration -/

/-- What the maps have to do with each other, and with the entries of
`kafka.topics`: each name has the number of partitions that the file
gives it last. The numbers are compared as the file lists them, so a
number that is narrowed on the way into the map is a different one. -/
structure Integrity (config : Config) (written : List (String × Int)) : Prop where
  acl : ∀ name acl, config.kafkaProducerAcl.lookup name = some acl →
    acl.name = name ∧ acl.topic ∈ config.kafkaTopics
  consumer : config.kafkaConsumer.topic ∈ config.kafkaTopics
  names : ∀ name, name ∈ config.kafkaTopics ↔ name ∈ written.map Prod.fst
  partitions : ∀ name, (config.kafkaTopics.lookup name).map (fun attr => attr.partitions.toInt) =
    lastOf name written
  breaker : ∀ conf, config.kafkaConsumer.circuitBreakerConf = some conf →
    0 < conf.winSize ∧ 0 < conf.minStats ∧ 0 < conf.healthRate ∧ conf.healthRate ≤ 100

/-- The number of partitions that each name has last fits an `int`.
The earlier entries of a name are overwritten, so they do not
count. -/
def PartitionsFit (written : List (String × Int)) : Prop :=
  ∀ name i, lastOf name written = some i → FitsInt i

/-- A topic is in the map exactly where it has a value. -/
theorem mem_topics_iff {name : String} : name ∈ topics ↔ topics.lookup name ≠ none := by
  rw [ne_eq, AList.lookup_eq_none, not_not]

/-- The topics of an accepted file are the names of its entries. -/
theorem mem_kafkaTopics_iff {written : List (String × Int)}
    (hlookup : ∀ name, config.kafkaTopics.lookup name = (lastOf name written).map topicAttr)
    (name : String) : name ∈ config.kafkaTopics ↔ name ∈ written.map Prod.fst := by
  rw [mem_topics_iff, hlookup, ← lastOf_ne_none_iff, ne_eq, Option.map_eq_none_iff]

/-- The map has the written numbers exactly where they fit, since
`int(asInt())` narrows each. -/
theorem lookup_partitions_iff {written : List (String × Int)}
    (hlookup : ∀ name, config.kafkaTopics.lookup name = (lastOf name written).map topicAttr) :
    (∀ name, (config.kafkaTopics.lookup name).map (fun attr => attr.partitions.toInt) =
      lastOf name written) ↔ PartitionsFit written := by
  refine forall_congr' fun name => ?_
  rw [hlookup]
  cases lastOf name written with
  | none => simp
  | some i =>
      simp only [Option.map_some, topicAttr, toInt_ofInt_narrow, Option.some.injEq, narrow_eq_iff,
        forall_eq']

/-- For every file that is accepted: each ACL is stored under its own
name and has a topic of the map, so has the consumer, the map has the
names of the file with the number of partitions that each has last,
and a circuit breaker has passed its checks, exactly where these
numbers fit an `int`.

All parts but the numbers hold of every accepted file. The numbers are
the integers of the file, which `asInt()` reads and the cast to `int`
narrows without a check. -/
theorem referentialIntegrity_iff (hparse : parseConfig folly conv fs path = .ok (some config)) :
    ∃ dict written, folly.parseJson (fs.read path) = .ok dict ∧
      writtenTopics folly conv dict = .ok written ∧
      (Integrity config written ↔ PartitionsFit written) := by
  obtain ⟨dict, hdict, hread⟩ := parseConfig_eq_some_iff.mp hparse
  obtain ⟨written, hwritten, hlookup⟩ := lookup_topics hread
  refine ⟨dict, written, hdict, hwritten, ?_⟩
  rw [← lookup_partitions_iff hlookup]
  refine ⟨Integrity.partitions, fun hpartitions => ?_⟩
  -- All the rest holds of every accepted file.
  obtain ⟨-, ⟨_, aclMaps, -, -, hacl⟩, ⟨item, -, hconsumer⟩, htopic⟩ := readConfig_cases hread
  refine ⟨?_, ?_, ?_, hpartitions, ?_⟩
  · intro name acl hstored
    exact stored_of_lookup hacl hstored
  · exact mem_topics_iff.mpr htopic
  · exact mem_kafkaTopics_iff hlookup
  · intro conf hconf
    obtain ⟨circuitMap, -, hbreaker⟩ := readConsumer_circuitBreaker hconsumer hconf
    have hchecks := readCircuitBreaker_cases hbreaker
    exact ⟨hchecks.winSize, hchecks.minStats, hchecks.pos, hchecks.le⟩

/-! ### ACLs that were not parsed -/

/-- `FromJSON` returned true for every element of
`kafka.producer.acl`. `ParseConfig` does not look at what it
returns. -/
def AclsParsed (folly : Folly) (dict : Dynamic) : Prop :=
  ∀ list aclMaps, folly.index dict "kafka.producer.acl" = .ok list →
    folly.elements list = .ok aclMaps → ∀ aclMap ∈ aclMaps, ∃ json acl,
      folly.asString aclMap = .ok json ∧
      AccessControlList.fromJSON folly json {} = (.ok true, acl)

/-- The elements of `kafka.producer.acl` are the texts of well-formed
ACLs. It is a condition on the file alone. -/
def AclsWellFormed (folly : Folly) (dict : Dynamic) : Prop :=
  ∀ list aclMaps, folly.index dict "kafka.producer.acl" = .ok list →
    folly.elements list = .ok aclMaps → ∀ aclMap ∈ aclMaps, ∃ json,
      folly.asString aclMap = .ok json ∧ AccessControlList.WellFormed folly json

/-- No entry of `kafka.topics` has the empty name. The empty name is
the topic of an ACL that was not parsed, so the check of `ParseConfig`
rejects such an ACL then. -/
def TopicsNamed (folly : Folly) (conv : Conversions) (dict : Dynamic) : Prop :=
  ∀ written, writtenTopics folly conv dict = .ok written → "" ∉ written.map Prod.fst

/-- With an accepted file: `FromJSON` returned true for every element
exactly where no topic has the empty name, or the elements are the
texts of well-formed ACLs. A failure leaves the topic of a fresh
object, which is the empty string, and then the check of the topic
asks for that name. -/
theorem aclsParsed_iff (hread : readConfig folly conv dict = .ok config) :
    AclsParsed folly dict ↔ TopicsNamed folly conv dict ∨ AclsWellFormed folly dict := by
  constructor
  · intro hparsed
    refine .inr fun list aclMaps hlist helements aclMap hmem => ?_
    obtain ⟨json, acl, hjson, htrue⟩ := hparsed list aclMaps hlist helements aclMap hmem
    exact ⟨json, hjson, AccessControlList.fromJSON_true_iff.mp ⟨acl, htrue⟩⟩
  · rintro (hnamed | hformed) list aclMaps hlist helements aclMap hmem
    · obtain ⟨list', aclMaps', hlist', helements', hacl⟩ := (readConfig_cases hread).acl
      cases hlist.symm.trans hlist'
      cases helements.symm.trans helements'
      obtain ⟨acl, json, b, hjson, hend, htopic⟩ := checked_of_mem hacl hmem
      cases b with
      | true => exact ⟨json, acl, hjson, hend⟩
      | false =>
          -- The topic of an ACL that was not parsed is empty, and was looked
          -- for all the same.
          obtain ⟨written, hwritten, hlookup⟩ := lookup_topics hread
          rw [AccessControlList.topic_of_failure hend nofun,
            mem_kafkaTopics_iff hlookup] at htopic
          exact absurd htopic (hnamed written hwritten)
    · obtain ⟨json, hjson, hformed⟩ := hformed list aclMaps hlist helements aclMap hmem
      obtain ⟨acl, htrue⟩ := AccessControlList.fromJSON_true_iff.mpr hformed
      exact ⟨json, acl, hjson, htrue⟩

/-- A failed parse of an ACL: where it is accepted with the
configuration, where it is accepted with a body, and where it changes
the object. The three conditions are independent of one another. -/
theorem failedParse_iff (folly : Folly) (conv : Conversions) (fs : FileSystem)
    (path body json : String) (reqbody : RequestBody) (acl : AccessControlList) :
    (∀ config, parseConfig folly conv fs path = .ok (some config) →
      ∃ dict, folly.parseJson (fs.read path) = .ok dict ∧
        (AclsParsed folly dict ↔ TopicsNamed folly conv dict ∨ AclsWellFormed folly dict)) ∧
    (BodyAclParsed folly fs body reqbody ↔ BodyAclWellFormed folly fs body) ∧
    (AccessControlList.UnchangedOnFailure folly json acl ↔
      AccessControlList.ReadsNothingNew folly json acl) := by
  refine ⟨fun config hparse => ?_, bodyAclParsed_iff, AccessControlList.unchangedOnFailure_iff⟩
  obtain ⟨dict, hdict, hread⟩ := parseConfig_eq_some_iff.mp hparse
  exact ⟨dict, hdict, aclsParsed_iff hread⟩

/-! ### Files with ACLs -/

/-- A file with these topics and ACLs, and a consumer of the topic
`orders`. -/
def aclDict (topicMaps aclMaps : List Dynamic) : Dynamic :=
  .obj [("log.directory", .str "./logs"), ("log.level", .num (.int 5)),
    ("kafka.bootstrap.servers", .str "localhost:9092"), ("kafka.producer.retries", .num (.int 2)),
    ("http.acceptor.port", .num (.int 10086)), ("http.acceptor.read.timeout", .num (.int 5000)),
    ("http.acceptor.write.timeout", .num (.int 5000)),
    ("http.acceptor.handler.channel.size", .num (.int 20)), ("kafka.topics", .arr topicMaps),
    ("kafka.producer.acl", .arr aclMaps), ("kafka.consumer", ordersConsumer)]

/-- The configuration with these topics and ACLs. -/
def aclConfig (topics : Topics) (acls : UnorderedMap AccessControlList) : Config :=
  { ordersConfig with kafkaTopics := topics, kafkaProducerAcl := acls }

/-- The file is read where its topics and ACLs are, and `orders` is
one of the topics. -/
theorem readConfig_aclDict {topicMaps aclMaps : List Dynamic}
    (htopics : topicMaps.foldlM (readTopic compactFolly compactConversions) ∅ = .ok topics)
    (hacls : aclMaps.foldlM (readAcl compactFolly topics) ∅ = .ok acls)
    (horders : "orders" ∈ topics) :
    readConfig compactFolly compactConversions (aclDict topicMaps aclMaps) =
      .ok (aclConfig topics acls) := by
  have hconsumer : readConsumer compactFolly compactConversions ordersConsumer =
      .ok ordersConfig.kafkaConsumer := rfl
  have hmem : (topics.lookup ordersConfig.kafkaConsumer.topic).isNone ≠ true := by
    rw [ne_eq, Option.isNone_iff_eq_none]
    exact mem_topics_iff.mp horders
  simp only [readConfig, bind_eq_ok, reject, ite_error_eq_ok, pure_eq_ok, attempt_eq_ok]
  exact ⟨_, rfl, _, rfl, _, rfl, _, rfl, _, rfl, _, rfl, _, rfl, _, rfl, _, rfl, topicMaps, rfl,
    topics, htopics, _, rfl, aclMaps, rfl, acls, hacls, _, rfl, _, hconsumer, hmem, rfl⟩

/-- An ACL of the producer `system-1` for the topic `orders`. -/
def systemAcl (secret : String) : AccessControlList where
  name := "system-1"
  secret := secret
  topic := "orders"

/-- It is checked as an element of the file. -/
theorem checked_systemAcl (secret : String) (horders : "orders" ∈ topics) :
    Checked compactFolly topics (.str (compactFolly.toJson (systemAcl secret).toDynamic))
      (systemAcl secret) := by
  have hjson : compactFolly.parseJson (compactFolly.toJson (systemAcl secret).toDynamic) =
      .ok (systemAcl secret).toDynamic :=
    compactFolly_parseJson (.of_str (by simp) (by simp))
  exact ⟨_, true, rfl, AccessControlList.fromJSON_of_outcome (.read hjson rfl rfl rfl rfl),
    horders⟩

/-- An entry of `kafka.topics`. -/
def topicEntry (name : String) (partitions : Int) : Dynamic :=
  .obj [("name", .str name), ("partitions", .num (.int partitions))]

/-- A file with two entries for `orders`, and two ACLs for
`system-1`. -/
def twiceDict : Dynamic :=
  aclDict [topicEntry "orders" 1, topicEntry "orders" 3]
    [.str (compactFolly.toJson (systemAcl "you are good").toDynamic),
      .str (compactFolly.toJson (systemAcl "you are bad").toDynamic)]

/-- What `ParseConfig` returns for it. -/
def twiceConfig : Config :=
  aclConfig (insertAll [("orders", { partitions := 1 }), ("orders", { partitions := 3 })])
    (insertAll [("system-1", systemAcl "you are good"), ("system-1", systemAcl "you are bad")])

/-- The file is accepted. -/
theorem parseConfig_twiceDict :
    parseConfig compactFolly compactConversions (configFile twiceDict) "bigpipe.json" =
      .ok (some twiceConfig) := by
  have hreadable : Json.Readable compactNumerals twiceDict := by
    simp [twiceDict, aclDict, topicEntry, ordersConsumer, halfBreaker]
  refine parseConfig_eq_some_iff.mpr ⟨twiceDict, parseJson_configFile hreadable, ?_⟩
  refine readConfig_aclDict rfl (foldlM_readAcl_eq_ok.mpr
    ⟨[systemAcl "you are good", systemAcl "you are bad"], ?_, rfl⟩) (by decide)
  exact .cons (checked_systemAcl _ (by decide)) (.cons (checked_systemAcl _ (by decide)) .nil)

/-- `referentialIntegrity_iff` at that file. -/
theorem referentialIntegrity_iff_twiceDict :
    ∃ dict written,
      compactFolly.parseJson ((configFile twiceDict).read "bigpipe.json") = .ok dict ∧
      writtenTopics compactFolly compactConversions dict = .ok written ∧
      (Integrity twiceConfig written ↔ PartitionsFit written) :=
  referentialIntegrity_iff parseConfig_twiceDict

/-- A file that gives the topic `orders` 2 ^ 32 partitions, and has no
ACL. -/
def wideDict : Dynamic :=
  aclDict [topicEntry "orders" 4294967296] []

/-- What `ParseConfig` returns for it. -/
def wideConfig : Config :=
  aclConfig (insertAll [("orders", { partitions := 0 })]) ∅

/-- The file is accepted, and the topic has no partition. -/
theorem partitionsNarrowed :
    parseConfig compactFolly compactConversions (configFile wideDict) "bigpipe.json" =
        .ok (some wideConfig) ∧
      compactFolly.parseJson ((configFile wideDict).read "bigpipe.json") = .ok wideDict ∧
      writtenTopics compactFolly compactConversions wideDict =
        .ok [("orders", 4294967296)] ∧
      ¬ Integrity wideConfig [("orders", 4294967296)] := by
  have hreadable : Json.Readable compactNumerals wideDict := by
    simp [wideDict, aclDict, topicEntry, ordersConsumer, halfBreaker]
  have hjson := parseJson_configFile hreadable
  refine ⟨parseConfig_eq_some_iff.mpr ⟨wideDict, hjson, ?_⟩, hjson, rfl, fun h => ?_⟩
  · exact readConfig_aclDict rfl rfl (by decide)
  · exact absurd (h.partitions "orders") (by decide)

/-- A file with a topic without a name, and an ACL without a name. -/
def namelessDict : Dynamic :=
  aclDict [topicEntry "" 1, topicEntry "orders" 1] [.str (compactFolly.toJson (.obj []))]

/-- The topics of the file. -/
def namelessTopics : Topics :=
  insertAll [("", { partitions := 1 }), ("orders", { partitions := 1 })]

/-- An ACL with nothing in it is not parsed. -/
theorem fromJSON_empty :
    AccessControlList.fromJSON compactFolly (compactFolly.toJson (.obj [])) {} =
      (.ok false, {}) := by
  have hjson : compactFolly.parseJson (compactFolly.toJson (.obj [])) = .ok (.obj []) :=
    compactFolly_parseJson (.of_str List.nodup_nil nofun)
  exact AccessControlList.fromJSON_of_outcome (.noName hjson rfl)

/-- The file is accepted. -/
theorem parseConfig_namelessDict :
    parseConfig compactFolly compactConversions (configFile namelessDict) "bigpipe.json" =
      .ok (some (aclConfig namelessTopics (insertAll [("", {})]))) := by
  have hreadable : Json.Readable compactNumerals namelessDict := by
    simp [namelessDict, aclDict, topicEntry, ordersConsumer, halfBreaker]
  refine parseConfig_eq_some_iff.mpr ⟨namelessDict, parseJson_configFile hreadable, ?_⟩
  refine readConfig_aclDict rfl (foldlM_readAcl_eq_ok.mpr ⟨[{}], ?_, rfl⟩) (by decide)
  exact .cons ⟨_, false, rfl, fromJSON_empty, by decide⟩ .nil

/-- `failedParse_iff` at that file, and at a body with that ACL. -/
theorem failedParse_iff_nameless :
    ∃ dict, compactFolly.parseJson ((configFile namelessDict).read "bigpipe.json") = .ok dict ∧
      (AclsParsed compactFolly dict ↔
        TopicsNamed compactFolly compactConversions dict ∨ AclsWellFormed compactFolly dict) :=
  (failedParse_iff compactFolly compactConversions (configFile namelessDict) "bigpipe.json" ""
    "" {} {}).1 _ parseConfig_namelessDict

/-- An ACL without a name that is accepted with the configuration, one
that is accepted with a body, and one without a secret that leaves its
name in the object. -/
theorem usesFailedParse :
    (∃ config, parseConfig compactFolly compactConversions (configFile namelessDict)
        "bigpipe.json" = .ok (some config) ∧ ¬ AclsParsed compactFolly namelessDict) ∧
    ¬ BodyAclParsed compactFolly (oneFile "request.json" (compactFolly.toJson
      (blankRequest (compactFolly.toJson (.obj []))))) "request.json" {} ∧
    ¬ AccessControlList.UnchangedOnFailure compactFolly
      (compactFolly.toJson (.obj [("name", .str "system-1")])) {} := by
  refine ⟨⟨_, parseConfig_namelessDict, fun hparsed => ?_⟩, fun hparsed => ?_, fun hsame => ?_⟩
  · obtain ⟨json, acl, hjson, htrue⟩ := hparsed _ _ rfl rfl _ List.mem_cons_self
    cases hjson
    cases fromJSON_empty.symm.trans htrue
  · have hjson : compactFolly.parseJson ((oneFile "request.json" (compactFolly.toJson
        (blankRequest (compactFolly.toJson (.obj []))))).read "request.json") =
        .ok (blankRequest (compactFolly.toJson (.obj []))) := by
      rw [read_oneFile]
      exact compactFolly_parseJson (.of_str (by simp) (by simp))
    obtain ⟨dict, text, acl, hdict, htext, htrue⟩ := hparsed _ _
      (RequestBody.parseFromJSON_ok {} hjson rfl rfl rfl rfl fromJSON_empty)
    cases hjson.symm.trans hdict
    cases htext
    cases fromJSON_empty.symm.trans htrue
  · have hjson : compactFolly.parseJson (compactFolly.toJson (.obj [("name", .str "system-1")])) =
        .ok (.obj [("name", .str "system-1")]) :=
      compactFolly_parseJson (.of_str (by simp) (by simp))
    have hsame := hsame _ _ (AccessControlList.fromJSON_of_outcome (.noSecret hjson rfl rfl)) nofun
    exact absurd (congrArg AccessControlList.name hsame) (by decide)

end Config

end Bigpipe
