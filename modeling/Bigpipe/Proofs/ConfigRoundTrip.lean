import Bigpipe.Proofs.ConfigErrors
import Bigpipe.Proofs.ConfigFormat
import Bigpipe.Proofs.RequestBody

/-!
# `Bigpipe.Proofs.ConfigRoundTrip`: the documents that are read back

`ParseConfig` reads an entry of `kafka.producer.acl` as the text of an
object. So the entry is read back where it is the text that `ToJSON`
prints, and not where it is the object itself.

This is the format that the reader has, as opposed to that of the
shipped file. Nobody has written it down, but the code agrees with
itself: what `ToJSON` prints `FromJSON` reads. With it every document
makes the round trip, and the condition of
`Bigpipe.Proofs.ConfigFormat` is the special case without entries.

* `forall₂_checked`: the texts of the ACLs pass the checks of the
  loop.
* `isText_of_checked`: an object does not.
* `roundTrip`: with the keys of the server that the reader asks for, a
  document is read back exactly when every entry of its ACL is such a
  text.
-/

set_option autoImplicit false

namespace Bigpipe.Config

open Bigpipe.Client (FitsInt)
open Bigpipe.Lib (Json insertAll lastOf_ne_none_iff lookup_insertAll)
open Bigpipe.Lib.Validation

variable {folly : Folly} {conv : Conversions} {fs : FileSystem} {path : String} {doc : Document}
  {dict aclMap : Dynamic} {aclMaps : List Dynamic} {acl acl' : AccessControlList}
  {topics : Topics}

/-! ### Entries of the ACL -/

/-- An entry of `kafka.producer.acl`: the text that `ToJSON` prints,
or the object. A document may have both. -/
inductive EntryWritten (folly : Folly) (acl : AccessControlList) : Dynamic → Prop where
  | text : EntryWritten folly acl (.str (acl.toJSON folly))
  | object {aclMap : Dynamic} (hwritten : AclWritten acl aclMap) : EntryWritten folly acl aclMap

/-- The value is a string. -/
def IsText (d : Dynamic) : Prop :=
  ∃ text, d = .str text

/-- The JSON value is that of the document, with these entries of the
ACL and the keys that the reader asks for. -/
def WrittenWith (folly : Folly) (aclMaps : List Dynamic) (doc : Document) (dict : Dynamic) :
    Prop :=
  ∃ topicMaps item, List.Forall₂ TopicWritten doc.topics topicMaps ∧
    List.Forall₂ (EntryWritten folly) doc.acl aclMaps ∧ ConsumerWritten doc.consumer item ∧
    IsObject (doc.fields readerKeys topicMaps aclMaps item) dict

/-- Only an entry that is a text can be one that was checked. -/
theorem isText_of_checked (h : EntryWritten folly acl aclMap)
    (hcheck : Checked folly topics aclMap acl') : IsText aclMap := by
  cases h with
  | text => exact ⟨_, rfl⟩
  | object hwritten =>
      obtain ⟨fields, rfl, -⟩ := hwritten
      obtain ⟨json, -, hstring, -⟩ := hcheck
      cases hstring

/-- The text of an ACL is read as the ACL. -/
theorem checked_of_isText (hfolly : folly.Lawful) (h : EntryWritten folly acl aclMap)
    (htext : IsText aclMap) (htopic : acl.topic ∈ topics) : Checked folly topics aclMap acl := by
  cases h with
  | text =>
      exact ⟨_, true, rfl, AccessControlList.fromJSON_iff.mpr (acl.outcome_toJSON hfolly), htopic⟩
  | object hwritten =>
      obtain ⟨fields, rfl, -⟩ := hwritten
      obtain ⟨text, heq⟩ := htext
      cases heq

/-- The names of the topics are in the map. -/
theorem Document.mem_table {name : String} (h : name ∈ doc.topics.map Prod.fst) :
    name ∈ doc.table := by
  rw [mem_topics_iff, doc.lookup_table, ne_eq, Option.map_eq_none_iff]
  exact lastOf_ne_none_iff.mpr h

/-- Where all the entries are texts, each of them is read as its ACL.
The topics pass the check, as they are topics of the document. -/
theorem forall₂_checked (hfolly : folly.Lawful) {acls : List AccessControlList}
    (hacls : List.Forall₂ (EntryWritten folly) acls aclMaps)
    (htexts : ∀ aclMap ∈ aclMaps, IsText aclMap)
    (htopics : ∀ acl ∈ acls, acl.topic ∈ topics) :
    List.Forall₂ (Checked folly topics) aclMaps acls := by
  induction hacls with
  | nil => exact .nil
  | cons hentry _ ih =>
      rw [List.forall_mem_cons] at htexts htopics
      exact .cons (checked_of_isText hfolly hentry htexts.1 htopics.1)
        (ih htexts.2 htopics.2)

/-! ### The round trip -/

/-- The configuration with all the ACLs of the document holds its
values. -/
theorem holds_config_acl :
    Holds doc (doc.config (insertAll (doc.acl.map fun acl => (acl.name, acl)))) where
  logDirectory := rfl
  logLevel := rfl
  kafkaBootstrapServers := rfl
  kafkaTopics := doc.lookup_table
  kafkaProducerRetries := rfl
  kafkaProducerAcl name := lookup_insertAll name _
  kafkaConsumer := rfl
  httpServerPort := rfl
  httpServerReadTimeout := rfl
  httpServerWriteTimeout := rfl
  httpServerHandlerChannelSize := rfl

/-- The block of the `try` reads a document with texts. -/
theorem readConfig_texts (hfolly : folly.Lawful) (hconv : ExactInts conv)
    (hwritten : WrittenWith folly aclMaps doc dict) (htexts : ∀ aclMap ∈ aclMaps, IsText aclMap) :
    readConfig folly conv dict =
      .ok (doc.config (insertAll (doc.acl.map fun acl => (acl.name, acl)))) := by
  obtain ⟨topicMaps, item, htopics, hacl, hconsumer, hdict⟩ := hwritten
  have hchecked : List.Forall₂ (Checked folly doc.table) aclMaps doc.acl :=
    forall₂_checked hfolly hacl htexts fun acl hmem => doc.mem_table (doc.acl_topic acl hmem)
  rw [readConfig_fields folly hconv htopics hconsumer hdict,
    foldlM_readAcl_eq_ok.mpr ⟨doc.acl, hchecked, rfl⟩]
  rfl

/-- What it reads is a document with texts. -/
theorem isText_of_readConfig (hconv : ExactInts conv)
    (hwritten : WrittenWith folly aclMaps doc dict) {config : Config}
    (hread : readConfig folly conv dict = .ok config) : ∀ aclMap ∈ aclMaps, IsText aclMap := by
  obtain ⟨topicMaps, item, htopics, hacl, hconsumer, hdict⟩ := hwritten
  rw [readConfig_fields folly hconv htopics hconsumer hdict, bind_eq_ok] at hread
  obtain ⟨acls, hacls, -⟩ := hread
  intro aclMap hmem
  obtain ⟨acl', hcheck⟩ := checked_of_mem hacls hmem
  obtain ⟨acl, -, hentry⟩ := exists_source hacl hmem
  exact isText_of_checked hentry hcheck

/-- No number of a document is narrowed that is no `int`. So what is
not read back is rejected. -/
theorem readConfig_ne_undefined (hconv : ExactInts conv)
    (hwritten : WrittenWith folly aclMaps doc dict) :
    readConfig folly conv dict ≠ .error .undefined := by
  obtain ⟨topicMaps, item, htopics, -, hconsumer, hdict⟩ := hwritten
  rw [readConfig_fields folly hconv htopics hconsumer hdict, ne_eq,
    bind_eq_error_of_ne (readAcls_ne_undefined doc.table aclMaps ∅)]
  rintro ⟨acls, -, h⟩
  cases h

/-- With the keys that the reader asks for, a document is read back
exactly when every entry of its ACL is written as a text. For the
others `ParseConfig` returns a null pointer.

The two parts are the two ends of `ParseConfig` for such a file:
nothing is undefined, and no exception leaves it. -/
theorem roundTrip (hfolly : folly.Lawful) (hconv : ExactInts conv)
    (hwritten : WrittenWith folly aclMaps doc dict)
    (hparse : folly.parseJson (fs.read path) = .ok dict) :
    (ReadBack folly conv fs path doc ↔ ∀ aclMap ∈ aclMaps, IsText aclMap) ∧
      (parseConfig folly conv fs path = .ok none ↔ ∃ aclMap ∈ aclMaps, ¬ IsText aclMap) := by
  by_cases htexts : ∀ aclMap ∈ aclMaps, IsText aclMap
  · have hsome : parseConfig folly conv fs path = .ok (some _) :=
      parseConfig_eq_some_iff.mpr ⟨dict, hparse, readConfig_texts hfolly hconv hwritten htexts⟩
    refine ⟨iff_of_true ⟨_, hsome, holds_config_acl⟩ htexts, iff_of_false ?_ ?_⟩
    · intro hnone
      cases hnone.symm.trans hsome
    · rintro ⟨aclMap, hmem, hobject⟩
      exact hobject (htexts aclMap hmem)
  · obtain ⟨result, hresult⟩ :=
      (parseConfig_of_json hparse).mpr (readConfig_ne_undefined hconv hwritten)
    cases result with
    | none =>
        push Not at htexts
        exact ⟨iff_of_false (not_readBack_of_none hresult) (by push Not; exact htexts),
          iff_of_true hresult htexts⟩
    | some config =>
        obtain ⟨dict', hparse', hread⟩ := parseConfig_eq_some_iff.mp hresult
        cases hparse.symm.trans hparse'
        exact absurd (isText_of_readConfig hconv hwritten hread) htexts

/-- Every `int` is a `double` of `compactConversions`. -/
theorem exactInts_compactConversions : ExactInts compactConversions := by
  intro i hfits
  refine if_pos ?_
  obtain ⟨hlow, hhigh⟩ := hfits
  omega

/-- The values of the shipped file, with the keys of the reader and
with texts in the ACL. -/
def repairedDict : Dynamic :=
  .obj [("log.level", .num (.int 5)), ("log.directory", .str "./logs"),
    ("kafka.bootstrap.servers", .str "localhost:9092"),
    ("kafka.topics", .arr [.obj [("name", .str "test"), ("partitions", .num (.int 1))]]),
    ("kafka.producer.retries", .num (.int 2)),
    ("kafka.producer.acl", .arr [
      .str (AccessControlList.toJSON compactFolly
        { name := "system-1", secret := "you are good", topic := "test" }),
      .str (AccessControlList.toJSON compactFolly
        { name := "system-2", secret := "you are bad", topic := "test" })]),
    ("kafka.consumer", .obj [("topic", .str "test"), ("groupId", .str "G1"),
      ("rateLimit", .num (.int 100)), ("timeout", .num (.int 3000)), ("retries", .num (.int 2)),
      ("concurrency", .num (.int 5))]),
    ("http.acceptor.port", .num (.int 10086)),
    ("http.acceptor.handler.channel.size", .num (.int 500000)),
    ("http.acceptor.read.timeout", .num (.int 5000)),
    ("http.acceptor.write.timeout", .num (.int 5000))]

/-- `roundTrip` at the repaired file: it is read back. -/
theorem roundTrip_repaired :
    ReadBack compactFolly compactConversions (configFile repairedDict) "bigpipe.json"
      shippedDocument := by
  have hwritten : WrittenWith compactFolly _ shippedDocument repairedDict :=
    ⟨_, _, .cons ⟨_, rfl, .refl _⟩ .nil, .cons .text (.cons .text .nil),
      ⟨none, .none, _, rfl, .refl _⟩, _, rfl, .refl _⟩
  have hreadable : Json.Readable compactNumerals repairedDict := by simp [repairedDict]
  refine (roundTrip compactFolly_lawful exactInts_compactConversions hwritten
    (parseJson_configFile hreadable)).1.mpr fun aclMap hmem => ?_
  simp only [List.mem_cons, List.not_mem_nil, or_false] at hmem
  rcases hmem with rfl | rfl
  · exact ⟨_, rfl⟩
  · exact ⟨_, rfl⟩

end Bigpipe.Config
