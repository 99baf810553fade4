import Bigpipe.Proofs.ConfigChecks

/-!
# `Bigpipe.Proofs.ConfigFormat`: the format of the shipped configuration file

`conf/bigpipe.json` has the numbers of the HTTP server under
`http.server`, and the entries of `kafka.producer.acl` are objects.
`ParseConfig` asks for these numbers under `http.acceptor`, and reads
the entries as strings that hold JSON.

The format is the set of documents that differ from the shipped file
in their values only. A `Document` has these values, with what its
parts have to do with one another: the topics that the ACL and the
consumer name are topics of the document, and the numbers fit an
`int`. `Written` relates it to a JSON value, whose objects may have
their fields in any order. So what is shown of the format is shown of
every file of it, and of every parser that gives its value.

Each of the two differences is enough to have a file rejected. With
the first, no document is read. With the first repaired, a document is
read as long as it has nothing for the second to fail at.

* `rejectsDocumented`: no document in the format of the shipped file
  is read back.
* `rejectsShipped`: the shipped file.
* `readBack_iff`: with the keys of the server that the reader asks
  for, a document is read back exactly when it has no entries in
  `kafka.producer.acl`.
-/

set_option autoImplicit false

namespace Bigpipe

open Bigpipe.Client (CircuitBreakerConf FitsInt)
open Bigpipe.Lib (Json insertAll lastOf lastOf_map lastOf_ne_none_iff lastOf_of_mem lastOf_perm
  lookup_insertAll)
open Bigpipe.Lib.Validation

/-! ### Objects in any order -/

section Objects

variable {folly : Folly} {fields : List (String × Dynamic)} {dict d : Dynamic} {key : String}

/-- An object with these fields, in any order. The order of the fields
of a JSON object has no meaning, and `folly::dynamic` keeps none. -/
def IsObject (fields : List (String × Dynamic)) (dict : Dynamic) : Prop :=
  ∃ fields', dict = .obj fields' ∧ fields.Perm fields'

/-- A field is found under its key. -/
theorem IsObject.index (h : IsObject fields dict) (hkeys : (fields.map Prod.fst).Nodup)
    (hmem : (key, d) ∈ fields) : folly.index dict key = .ok d := by
  obtain ⟨fields', rfl, hperm⟩ := h
  have hfield : field key fields' = some d :=
    (lastOf_perm hkeys hperm key).symm.trans (lastOf_of_mem hkeys hmem)
  show Except.ok ((field key fields').getD .null) = _
  rw [hfield]
  rfl

/-- A key that is missing is null. -/
theorem IsObject.index_missing (h : IsObject fields dict) (hkey : key ∉ fields.map Prod.fst) :
    folly.index dict key = .ok .null := by
  obtain ⟨fields', rfl, hperm⟩ := h
  have hfield : field key fields' = none := by
    by_contra hne
    exact hkey ((hperm.map Prod.fst).mem_iff.mpr (lastOf_ne_none_iff.mp hne))
  show Except.ok ((field key fields').getD .null) = _
  rw [hfield]
  rfl

/-- `count` finds the fields. -/
theorem IsObject.count (h : IsObject fields dict) :
    folly.count dict key = .ok (if key ∈ fields.map Prod.fst then 1 else 0) := by
  obtain ⟨fields', rfl, hperm⟩ := h
  have hiff : (field key fields').isSome ↔ key ∈ fields.map Prod.fst := by
    rw [← Option.ne_none_iff_isSome, (hperm.map Prod.fst).mem_iff]
    exact lastOf_ne_none_iff
  show Except.ok (if (field key fields').isSome then 1 else 0) = _
  simp only [hiff]

end Objects

namespace Config

variable {folly : Folly} {conv : Conversions} {fs : FileSystem} {path : String}
  {dict : Dynamic} {key : String}

/-! ### Documents -/

/-- An integer of a document. -/
abbrev IntValue :=
  { i : Int // FitsInt i }

/-- The value of a number. -/
def value : Number → ℚ
  | .int i => i
  | .double x => x

/-- A number of the section `circuitBreaker`, which may be a
`double`. -/
abbrev BreakerNumber :=
  { n : Number // FitsInt (integerPart (value n)) }

/-- The `int` that the program works with. -/
def BreakerNumber.toInt (n : BreakerNumber) : Int :=
  integerPart (value n.1)

/-- A valid section `circuitBreaker`. Its fields carry the conditions
that `ParseConfig` checks, so a section that would be rejected cannot
be built. -/
structure BreakerSection where
  recoverPeriod : BreakerNumber
  breakPeriod : BreakerNumber
  winSize : BreakerNumber
  healthRate : BreakerNumber
  minStats : BreakerNumber
  winSize_pos : 0 < winSize.toInt
  minStats_pos : 0 < minStats.toInt
  healthRate_pos : 0 < healthRate.toInt
  healthRate_le : healthRate.toInt ≤ 100

/-- The section `kafka.consumer`, with a breaker or without. Each
number is one that fits an `int`. -/
structure ConsumerSection where
  topic : String
  groupId : String
  rateLimit : IntValue
  timeout : IntValue
  retries : IntValue
  concurrency : IntValue
  circuitBreaker : Option BreakerSection

/-- A document: the values of the shipped file, in its order. The
entries of the ACL and the consumer name topics of the document. A
value of this type is one that a user may want to configure. -/
structure Document where
  logLevel : IntValue
  logDirectory : String
  bootstrapServers : String
  topics : List (String × IntValue)
  producerRetries : IntValue
  acl : List AccessControlList
  consumer : ConsumerSection
  port : IntValue
  channelSize : IntValue
  readTimeout : IntValue
  writeTimeout : IntValue
  acl_topic : ∀ entry ∈ acl, entry.topic ∈ topics.map Prod.fst
  consumer_topic : consumer.topic ∈ topics.map Prod.fst

/-- The keys of the numbers of the HTTP server. The shipped file and
`ParseConfig` have different ones, so a document can be written with
either. -/
structure ServerKeys where
  port : String
  channelSize : String
  readTimeout : String
  writeTimeout : String

/-- Those of the shipped file, `conf/bigpipe.json`. -/
def shippedKeys : ServerKeys where
  port := "http.server.port"
  channelSize := "http.server.handler.channel.size"
  readTimeout := "http.server.read.timeout"
  writeTimeout := "http.server.write.timeout"

/-- Those that `ParseConfig` asks for. With these in the place of the
shipped ones, the file would be read up to its ACL. -/
def readerKeys : ServerKeys where
  port := "http.acceptor.port"
  channelSize := "http.acceptor.handler.channel.size"
  readTimeout := "http.acceptor.read.timeout"
  writeTimeout := "http.acceptor.write.timeout"

/-! ### How a document is written -/

/-- An entry of `kafka.topics`. -/
def TopicWritten (topic : String × IntValue) (topicMap : Dynamic) : Prop :=
  IsObject [("name", .str topic.1), ("partitions", .num (.int topic.2.1))] topicMap

/-- An entry of `kafka.producer.acl`. -/
def AclWritten (acl : AccessControlList) (aclMap : Dynamic) : Prop :=
  IsObject [("name", .str acl.name), ("secret", .str acl.secret), ("topic", .str acl.topic)]
    aclMap

/-- The section `circuitBreaker`. -/
def BreakerWritten (breaker : BreakerSection) (circuitMap : Dynamic) : Prop :=
  IsObject [("recoverPeriod", .num breaker.recoverPeriod.1),
    ("breakPeriod", .num breaker.breakPeriod.1), ("winSize", .num breaker.winSize.1),
    ("healthRate", .num breaker.healthRate.1), ("minStats", .num breaker.minStats.1)] circuitMap

/-- The fields of the section `kafka.consumer` as JSON values. The
section `circuitBreaker` is one of them, if there is one. -/
def ConsumerSection.fields (consumer : ConsumerSection) (circuitMap : Option Dynamic) :
    List (String × Dynamic) :=
  [("topic", .str consumer.topic), ("groupId", .str consumer.groupId),
    ("rateLimit", .num (.int consumer.rateLimit.1)), ("timeout", .num (.int consumer.timeout.1)),
    ("retries", .num (.int consumer.retries.1)),
    ("concurrency", .num (.int consumer.concurrency.1))] ++
  (circuitMap.map fun breaker => ("circuitBreaker", breaker)).toList

/-- The section `kafka.consumer`, with or without a section
`circuitBreaker`. -/
def ConsumerWritten (consumer : ConsumerSection) (item : Dynamic) : Prop :=
  ∃ circuitMap, Option.Rel BreakerWritten consumer.circuitBreaker circuitMap ∧
    IsObject (consumer.fields circuitMap) item

/-- The fields of a document, in the order of the shipped file. An
order is needed to write them down, and the results are about every
order. -/
def Document.fields (doc : Document) (keys : ServerKeys) (topicMaps aclMaps : List Dynamic)
    (item : Dynamic) : List (String × Dynamic) :=
  [("log.level", .num (.int doc.logLevel.1)), ("log.directory", .str doc.logDirectory),
    ("kafka.bootstrap.servers", .str doc.bootstrapServers), ("kafka.topics", .arr topicMaps),
    ("kafka.producer.retries", .num (.int doc.producerRetries.1)),
    ("kafka.producer.acl", .arr aclMaps), ("kafka.consumer", item),
    (keys.port, .num (.int doc.port.1)), (keys.channelSize, .num (.int doc.channelSize.1)),
    (keys.readTimeout, .num (.int doc.readTimeout.1)),
    (keys.writeTimeout, .num (.int doc.writeTimeout.1))]

/-- The JSON value is that of the document, with the numbers of the
server under these keys. The fields may stand in any order, and others
may not be there. -/
def Written (keys : ServerKeys) (doc : Document) (dict : Dynamic) : Prop :=
  ∃ topicMaps aclMaps item, List.Forall₂ TopicWritten doc.topics topicMaps ∧
    List.Forall₂ AclWritten doc.acl aclMaps ∧ ConsumerWritten doc.consumer item ∧
    IsObject (doc.fields keys topicMaps aclMaps item) dict

/-! ### What a configuration has to hold -/

/-- The configuration of a circuit breaker. The numbers are those of
the section after the narrowing to `int`. -/
def BreakerSection.conf (breaker : BreakerSection) : CircuitBreakerConf where
  breakPeriod := breaker.breakPeriod.toInt
  recoverPeriod := breaker.recoverPeriod.toInt
  winSize := breaker.winSize.toInt
  minStats := breaker.minStats.toInt
  healthRate := breaker.healthRate.toInt

/-- The configuration of a consumer. Nothing else of the section is
kept. -/
def ConsumerSection.conf (consumer : ConsumerSection) : ConsumerConf where
  topic := consumer.topic
  groupId := consumer.groupId
  rateLimit := consumer.rateLimit.1
  retries := consumer.retries.1
  timeout := consumer.timeout.1
  concurrency := consumer.concurrency.1
  circuitBreakerConf := consumer.circuitBreaker.map BreakerSection.conf

/-- The configuration holds exactly the values of the document. The
maps have, under each name, its last entry. -/
structure Holds (doc : Document) (config : Config) : Prop where
  logDirectory : config.logDirectory = doc.logDirectory
  logLevel : config.logLevel = doc.logLevel.1
  kafkaBootstrapServers : config.kafkaBootstrapServers = doc.bootstrapServers
  kafkaTopics : ∀ name, config.kafkaTopics.lookup name =
    (lastOf name doc.topics).map fun partitions => { partitions := Int32.ofInt partitions.1 }
  kafkaProducerRetries : config.kafkaProducerRetries = doc.producerRetries.1
  kafkaProducerAcl : ∀ name, config.kafkaProducerAcl.lookup name =
    lastOf name (doc.acl.map fun entry => (entry.name, entry))
  kafkaConsumer : config.kafkaConsumer = doc.consumer.conf
  httpServerPort : config.httpServerPort = doc.port.1
  httpServerReadTimeout : config.httpServerReadTimeout = doc.readTimeout.1
  httpServerWriteTimeout : config.httpServerWriteTimeout = doc.writeTimeout.1
  httpServerHandlerChannelSize : config.httpServerHandlerChannelSize = doc.channelSize.1

/-- `ParseConfig` returns a configuration that holds exactly the
values of the document: each number and text as it was written, and in
each table the entries of the document and no others. -/
def ReadBack (folly : Folly) (conv : Conversions) (fs : FileSystem) (path : String)
    (doc : Document) : Prop :=
  ∃ config, parseConfig folly conv fs path = .ok (some config) ∧ Holds doc config

variable {doc : Document} {keys : ServerKeys} {topicMaps aclMaps : List Dynamic}
  {item : Dynamic}

/-! ### Reading the values -/

/-- A string is read. -/
theorem stringAt_of_index {text : String} (h : folly.index dict key = .ok (.str text)) :
    stringAt folly dict key = .ok text := by
  rw [stringAt, attempt_eq_ok, Folly.stringAt, bind_eq_ok]
  exact ⟨_, h, rfl⟩

/-- Narrowing changes no `int`. -/
theorem narrow_of_fits {i : Int} (h : FitsInt i) : narrow i = i :=
  narrow_eq_iff.mpr h

/-- An integer is read. -/
theorem intAt_of_index {i : IntValue} (h : folly.index dict key = .ok (.num (.int i.1))) :
    intAt folly conv dict key = .ok i.1 := by
  refine intAt_eq_ok.mpr ⟨i.1, ?_, narrow_of_fits i.2⟩
  exact bind_eq_ok.mpr ⟨_, h, rfl⟩

/-- A missing integer is an error. -/
theorem intAt_of_missing (h : folly.index dict key = .ok .null) :
    intAt folly conv dict key =
      .error (.exception (folly.typeError "int/double/bool/string" .null)) := by
  rw [intAt, dynamicAt, h]
  rfl

/-- The keys of a document are different. -/
theorem nodup_shippedKeys : ((doc.fields shippedKeys topicMaps aclMaps item).map Prod.fst).Nodup :=
  show ["log.level", "log.directory", "kafka.bootstrap.servers", "kafka.topics",
    "kafka.producer.retries", "kafka.producer.acl", "kafka.consumer", "http.server.port",
    "http.server.handler.channel.size", "http.server.read.timeout",
    "http.server.write.timeout"].Nodup by decide

/-- So are those that `ParseConfig` asks for. -/
theorem nodup_readerKeys : ((doc.fields readerKeys topicMaps aclMaps item).map Prod.fst).Nodup :=
  show ["log.level", "log.directory", "kafka.bootstrap.servers", "kafka.topics",
    "kafka.producer.retries", "kafka.producer.acl", "kafka.consumer", "http.acceptor.port",
    "http.acceptor.handler.channel.size", "http.acceptor.read.timeout",
    "http.acceptor.write.timeout"].Nodup by decide

/-! ### Documents in the format of the shipped file -/

/-- The values in front of those of the server are read, whatever
their keys are. -/
theorem readFirst_written (folly : Folly) (conv : Conversions)
    (hdict : IsObject (doc.fields keys topicMaps aclMaps item) dict)
    (hkeys : ((doc.fields keys topicMaps aclMaps item).map Prod.fst).Nodup) :
    stringAt folly dict "log.directory" = .ok doc.logDirectory ∧
      intAt folly conv dict "log.level" = .ok doc.logLevel.1 ∧
      stringAt folly dict "kafka.bootstrap.servers" = .ok doc.bootstrapServers ∧
      intAt folly conv dict "kafka.producer.retries" = .ok doc.producerRetries.1 := by
  refine ⟨?_, ?_, ?_, ?_⟩
  · exact stringAt_of_index (hdict.index hkeys (by simp [Document.fields]))
  · exact intAt_of_index (hdict.index hkeys (by simp [Document.fields]))
  · exact stringAt_of_index (hdict.index hkeys (by simp [Document.fields]))
  · exact intAt_of_index (hdict.index hkeys (by simp [Document.fields]))

/-- Such a document has no port under the key that `ParseConfig` asks
for. The values in front of the port are read, so it is this key that
the exception is about. -/
theorem readConfig_documented (h : Written shippedKeys doc dict) :
    readConfig folly conv dict =
      .error (.exception (folly.typeError "int/double/bool/string" .null)) := by
  obtain ⟨topicMaps, aclMaps, item, -, -, -, hdict⟩ := h
  obtain ⟨hdirectory, hlevel, hservers, hretries⟩ :=
    readFirst_written folly conv hdict nodup_shippedKeys
  have hport : intAt folly conv dict "http.acceptor.port" =
      .error (.exception (folly.typeError "int/double/bool/string" .null)) :=
    intAt_of_missing (hdict.index_missing (by simp [Document.fields, shippedKeys]))
  rw [readConfig, hdirectory, hlevel, hservers, hretries, hport]
  rfl

/-- Where the block of the `try` throws, the result is a null
pointer. -/
theorem parseConfig_of_exception {what : String}
    (hparse : folly.parseJson (fs.read path) = .ok dict)
    (hread : readConfig folly conv dict = .error (.exception what)) :
    parseConfig folly conv fs path = .ok none := by
  have hdict : attempt (folly.parseJson (fs.read path)) = .ok dict := attempt_eq_ok.mpr hparse
  simp only [parseConfig, hdict, ok_bind, hread]
  rfl

/-- A null pointer holds nothing. -/
theorem not_readBack_of_none (h : parseConfig folly conv fs path = .ok none) :
    ¬ ReadBack folly conv fs path doc := by
  intro ⟨config, hsome, _⟩
  cases h.symm.trans hsome

/-- No document in the format of the shipped file is read back. The
result is a null pointer, as for a file with a syntax error in one of
its values. It is already decided by the keys of the HTTP server: the
read of the first one throws, and the `catch` of `ParseConfig` returns
null. -/
theorem rejectsDocumented (hwritten : Written shippedKeys doc dict)
    (hparse : folly.parseJson (fs.read path) = .ok dict) :
    parseConfig folly conv fs path = .ok none ∧ ¬ ReadBack folly conv fs path doc := by
  have hnone : parseConfig folly conv fs path = .ok none :=
    parseConfig_of_exception hparse (readConfig_documented hwritten)
  exact ⟨hnone, not_readBack_of_none hnone⟩

/-- The values of the shipped file. It has one topic and two
producers, and no section `circuitBreaker`. -/
def shippedDocument : Document where
  logLevel := ⟨5, by decide⟩
  logDirectory := "./logs"
  bootstrapServers := "localhost:9092"
  topics := [("test", ⟨1, by decide⟩)]
  producerRetries := ⟨2, by decide⟩
  acl :=
    [{ name := "system-1", secret := "you are good", topic := "test" },
      { name := "system-2", secret := "you are bad", topic := "test" }]
  consumer :=
    { topic := "test", groupId := "G1", rateLimit := ⟨100, by decide⟩, timeout := ⟨3000, by decide⟩,
      retries := ⟨2, by decide⟩, concurrency := ⟨5, by decide⟩, circuitBreaker := none }
  port := ⟨10086, by decide⟩
  channelSize := ⟨500000, by decide⟩
  readTimeout := ⟨5000, by decide⟩
  writeTimeout := ⟨5000, by decide⟩
  acl_topic := by decide
  consumer_topic := by decide

/-- The shipped file, as JSON with its own keys. An entry of its ACL
is an object, where `ParseConfig` asks for a JSON text. -/
def shippedDict : Dynamic :=
  .obj [("log.level", .num (.int 5)), ("log.directory", .str "./logs"),
    ("kafka.bootstrap.servers", .str "localhost:9092"),
    ("kafka.topics", .arr [.obj [("name", .str "test"), ("partitions", .num (.int 1))]]),
    ("kafka.producer.retries", .num (.int 2)),
    ("kafka.producer.acl", .arr [
      .obj [("name", .str "system-1"), ("secret", .str "you are good"), ("topic", .str "test")],
      .obj [("name", .str "system-2"), ("secret", .str "you are bad"), ("topic", .str "test")]]),
    ("kafka.consumer", .obj [("topic", .str "test"), ("groupId", .str "G1"),
      ("rateLimit", .num (.int 100)), ("timeout", .num (.int 3000)), ("retries", .num (.int 2)),
      ("concurrency", .num (.int 5))]),
    ("http.server.port", .num (.int 10086)),
    ("http.server.handler.channel.size", .num (.int 500000)),
    ("http.server.read.timeout", .num (.int 5000)),
    ("http.server.write.timeout", .num (.int 5000))]

/-- The shipped file has these values. -/
theorem written_shippedDict : Written shippedKeys shippedDocument shippedDict := by
  refine ⟨_, _, _, .cons ⟨_, rfl, .refl _⟩ .nil,
    .cons ⟨_, rfl, .refl _⟩ (.cons ⟨_, rfl, .refl _⟩ .nil), ⟨none, .none, _, rfl, .refl _⟩, _, rfl,
    .refl _⟩

/-- Its numbers are integers. -/
theorem readable_shippedDict : Json.Readable compactNumerals shippedDict := by
  simp [shippedDict]

/-- `rejectsDocumented` at the shipped file. -/
theorem rejectsDocumented_shipped :
    parseConfig compactFolly compactConversions (configFile shippedDict) "bigpipe.json" =
        .ok none ∧
      ¬ ReadBack compactFolly compactConversions (configFile shippedDict) "bigpipe.json"
        shippedDocument :=
  rejectsDocumented written_shippedDict (parseJson_configFile readable_shippedDict)

/-- `ParseConfig` returns a null pointer for the shipped file. -/
theorem rejectsShipped :
    Written shippedKeys shippedDocument shippedDict ∧
      parseConfig compactFolly compactConversions (configFile shippedDict) "bigpipe.json" =
        .ok none ∧
      ¬ ReadBack compactFolly compactConversions (configFile shippedDict) "bigpipe.json"
        shippedDocument := by
  have hnone : parseConfig compactFolly compactConversions (configFile shippedDict)
      "bigpipe.json" = .ok none :=
    parseConfig_of_exception (parseJson_configFile readable_shippedDict)
      (readConfig_documented written_shippedDict)
  exact ⟨written_shippedDict, hnone, not_readBack_of_none hnone⟩

/-! ### Documents with the keys that the reader asks for -/

/-- Every `int` is a `double`. A `double` has 53 bits for the number,
so the conversion of folly throws for none of them. -/
def ExactInts (conv : Conversions) : Prop :=
  ∀ i, FitsInt i → conv.checkDouble i = .ok ()

/-- The integer part of an integer. -/
theorem integerPart_intCast (i : Int) : integerPart i = i := by
  rw [integerPart, Rat.num_intCast, Rat.den_intCast]
  exact Int.tdiv_one i

/-- A number of a circuit breaker is read. It is rounded towards zero,
and the section says that what is left fits an `int`. -/
theorem truncatedAt_of_index (hconv : ExactInts conv) {n : BreakerNumber}
    (h : folly.index dict key = .ok (.num n.1)) :
    truncatedAt folly conv dict key = .ok n.toInt := by
  have hvalue : folly.asDouble conv (.num n.1) = .ok (value n.1) := by
    obtain ⟨number, hfits⟩ := n
    cases number with
    | int i =>
        have hcheck : conv.checkDouble i = .ok () := by
          refine hconv i ?_
          rwa [value, integerPart_intCast] at hfits
        rw [Folly.asDouble, hcheck]
        rfl
    | double x => rfl
  refine truncatedAt_eq_ok.mpr ⟨value n.1, bind_eq_ok.mpr ⟨_, h, hvalue⟩, ?_⟩
  exact if_pos n.2

/-- The section of a circuit breaker is read. The checks of
`ParseConfig` let it through, as its fields carry what they ask
for. -/
theorem readCircuitBreaker_written (hconv : ExactInts conv) {breaker : BreakerSection}
    {circuitMap : Dynamic} (h : BreakerWritten breaker circuitMap) :
    readCircuitBreaker folly conv circuitMap = .ok breaker.conf := by
  have hkeys : ["recoverPeriod", "breakPeriod", "winSize", "healthRate", "minStats"].Nodup := by
    decide
  have hrecover : truncatedAt folly conv circuitMap "recoverPeriod" =
      .ok breaker.recoverPeriod.toInt :=
    truncatedAt_of_index hconv (h.index hkeys (by simp))
  have hbreak : truncatedAt folly conv circuitMap "breakPeriod" = .ok breaker.breakPeriod.toInt :=
    truncatedAt_of_index hconv (h.index hkeys (by simp))
  have hsize : truncatedAt folly conv circuitMap "winSize" = .ok breaker.winSize.toInt :=
    truncatedAt_of_index hconv (h.index hkeys (by simp))
  have hrate : truncatedAt folly conv circuitMap "healthRate" = .ok breaker.healthRate.toInt :=
    truncatedAt_of_index hconv (h.index hkeys (by simp))
  have hstats : truncatedAt folly conv circuitMap "minStats" = .ok breaker.minStats.toInt :=
    truncatedAt_of_index hconv (h.index hkeys (by simp))
  have hvalid : ¬ (breaker.winSize.toInt ≤ 0 ∨ breaker.minStats.toInt ≤ 0 ∨
      breaker.healthRate.toInt ≤ 0 ∨ breaker.healthRate.toInt > 100) := by
    have hsize := breaker.winSize_pos
    have hstats := breaker.minStats_pos
    have hpos := breaker.healthRate_pos
    have hle := breaker.healthRate_le
    omega
  simp only [readCircuitBreaker, hrecover, hbreak, hsize, hrate, hstats, ok_bind, if_neg hvalid]
  rfl

/-- The keys of a consumer are different. -/
theorem ConsumerSection.nodup (consumer : ConsumerSection) (circuitMap : Option Dynamic) :
    ((consumer.fields circuitMap).map Prod.fst).Nodup := by
  cases circuitMap with
  | none =>
      show ["topic", "groupId", "rateLimit", "timeout", "retries", "concurrency"].Nodup
      decide
  | some circuitMap =>
      show ["topic", "groupId", "rateLimit", "timeout", "retries", "concurrency",
        "circuitBreaker"].Nodup
      decide

/-- The section of a circuit breaker is read where there is one, and
left out where there is none. -/
theorem optionalCircuitBreaker_written (hconv : ExactInts conv) {consumer : ConsumerSection}
    {circuitMap : Option Dynamic}
    (hrel : Option.Rel BreakerWritten consumer.circuitBreaker circuitMap)
    (hitem : IsObject (consumer.fields circuitMap) item) :
    optionalCircuitBreaker folly conv item =
      .ok (consumer.circuitBreaker.map BreakerSection.conf) := by
  generalize consumer.circuitBreaker = breaker at hrel ⊢
  cases hrel with
  | none =>
      have hcount : folly.count item "circuitBreaker" = .ok 0 := by
        rw [hitem.count]
        simp [ConsumerSection.fields]
      rw [optionalCircuitBreaker, hcount]
      rfl
  | @some breaker circuitMap hwritten =>
      have hcount : folly.count item "circuitBreaker" = .ok 1 := by
        rw [hitem.count]
        simp [ConsumerSection.fields]
      have hmap : folly.index item "circuitBreaker" = .ok circuitMap :=
        hitem.index (consumer.nodup _) (by simp [ConsumerSection.fields])
      have hread : readCircuitBreaker folly conv circuitMap = .ok breaker.conf :=
        readCircuitBreaker_written hconv hwritten
      refine bind_eq_ok.mpr ⟨1, attempt_eq_ok.mpr hcount, ?_⟩
      rw [if_pos Nat.one_pos]
      exact bind_eq_ok.mpr ⟨circuitMap, attempt_eq_ok.mpr hmap,
        bind_eq_ok.mpr ⟨breaker.conf, hread, rfl⟩⟩

/-- The section of a consumer is read, in any order of its fields. -/
theorem readConsumer_written (hconv : ExactInts conv) {consumer : ConsumerSection}
    (h : ConsumerWritten consumer item) :
    readConsumer folly conv item = .ok consumer.conf := by
  obtain ⟨circuitMap, hrel, hitem⟩ := h
  have hkeys := consumer.nodup circuitMap
  have htopic : stringAt folly item "topic" = .ok consumer.topic :=
    stringAt_of_index (hitem.index hkeys (by simp [ConsumerSection.fields]))
  have hgroup : stringAt folly item "groupId" = .ok consumer.groupId :=
    stringAt_of_index (hitem.index hkeys (by simp [ConsumerSection.fields]))
  have hrate : intAt folly conv item "rateLimit" = .ok consumer.rateLimit.1 :=
    intAt_of_index (hitem.index hkeys (by simp [ConsumerSection.fields]))
  have hretries : intAt folly conv item "retries" = .ok consumer.retries.1 :=
    intAt_of_index (hitem.index hkeys (by simp [ConsumerSection.fields]))
  have htimeout : intAt folly conv item "timeout" = .ok consumer.timeout.1 :=
    intAt_of_index (hitem.index hkeys (by simp [ConsumerSection.fields]))
  have hconcurrency : intAt folly conv item "concurrency" = .ok consumer.concurrency.1 :=
    intAt_of_index (hitem.index hkeys (by simp [ConsumerSection.fields]))
  simp only [readConsumer, htopic, hgroup, hrate, hretries, htimeout, hconcurrency,
    optionalCircuitBreaker_written hconv hrel hitem, ok_bind]
  rfl

/-- The topics of a document. -/
def Document.table (doc : Document) : Topics :=
  insertAll (doc.topics.map fun topic => (topic.1, topicAttr topic.2.1))

/-- The last entries of each name. -/
theorem Document.lookup_table (doc : Document) (name : String) :
    doc.table.lookup name = (lastOf name doc.topics).map fun partitions =>
      { partitions := Int32.ofInt partitions.1 } := by
  have hattr : (fun partitions : IntValue => topicAttr partitions.1) =
      fun partitions => { partitions := Int32.ofInt partitions.1 } := by
    funext partitions
    rw [topicAttr, narrow_of_fits partitions.2]
  rw [table, lookup_insertAll, ← hattr]
  exact lastOf_map (fun partitions : IntValue => topicAttr partitions.1) name doc.topics

/-- The topics are read. A name that is listed twice has the number of
its last entry. -/
theorem readTopics_written (h : List.Forall₂ TopicWritten doc.topics topicMaps) :
    topicMaps.foldlM (readTopic folly conv) ∅ = .ok doc.table := by
  refine foldlM_readTopic_eq_ok.mpr ⟨doc.topics.map fun topic => (topic.1, topic.2.1), ?_, ?_⟩
  · rw [mapM_eq_ok, List.forall₂_map_right_iff]
    refine h.flip.imp fun topicMap topic hwritten => ?_
    have hkeys : ["name", "partitions"].Nodup := by decide
    have hname : folly.stringAt topicMap "name" = .ok topic.1 :=
      attempt_eq_ok.mp (stringAt_of_index (hwritten.index hkeys (by simp)))
    have hpartitions : writtenInt folly conv topicMap "partitions" = .ok topic.2.1 :=
      bind_eq_ok.mpr ⟨.num (.int topic.2.1), hwritten.index hkeys (by simp), rfl⟩
    rw [writtenTopic, hname, ok_bind, hpartitions]
    rfl
  · rw [List.map_map]
    rfl

/-- What `ParseConfig` makes of a document, with any ACL. The ACL is a
parameter because it is the one part that can fail to be read. -/
def Document.config (doc : Document) (acl : UnorderedMap AccessControlList) : Config where
  logDirectory := doc.logDirectory
  logLevel := doc.logLevel.1
  kafkaBootstrapServers := doc.bootstrapServers
  kafkaTopics := doc.table
  kafkaProducerRetries := doc.producerRetries.1
  kafkaProducerAcl := acl
  kafkaConsumer := doc.consumer.conf
  httpServerPort := doc.port.1
  httpServerReadTimeout := doc.readTimeout.1
  httpServerWriteTimeout := doc.writeTimeout.1
  httpServerHandlerChannelSize := doc.channelSize.1

/-- All is read but the ACL, however its entries are written. What is
left is the loop over these entries. -/
theorem readConfig_fields (folly : Folly) (hconv : ExactInts conv)
    (htopics : List.Forall₂ TopicWritten doc.topics topicMaps)
    (hconsumer : ConsumerWritten doc.consumer item)
    (hdict : IsObject (doc.fields readerKeys topicMaps aclMaps item) dict) :
    readConfig folly conv dict = aclMaps.foldlM (readAcl folly doc.table) ∅ >>= fun acl =>
      .ok (doc.config acl) := by
  -- The fields in the order `parseConfig` reads them.
  obtain ⟨hdirectory, hlevel, hservers, hretries⟩ :=
    readFirst_written folly conv hdict nodup_readerKeys
  have hport : intAt folly conv dict "http.acceptor.port" = .ok doc.port.1 :=
    intAt_of_index (hdict.index nodup_readerKeys (by simp [Document.fields, readerKeys]))
  have hread : intAt folly conv dict "http.acceptor.read.timeout" = .ok doc.readTimeout.1 :=
    intAt_of_index (hdict.index nodup_readerKeys (by simp [Document.fields, readerKeys]))
  have hwrite : intAt folly conv dict "http.acceptor.write.timeout" = .ok doc.writeTimeout.1 :=
    intAt_of_index (hdict.index nodup_readerKeys (by simp [Document.fields, readerKeys]))
  have hsize : intAt folly conv dict "http.acceptor.handler.channel.size" =
      .ok doc.channelSize.1 :=
    intAt_of_index (hdict.index nodup_readerKeys (by simp [Document.fields, readerKeys]))
  have htopicMaps : dynamicAt folly dict "kafka.topics" = .ok (.arr topicMaps) :=
    attempt_eq_ok.mpr (hdict.index nodup_readerKeys (by simp [Document.fields]))
  have haclMaps : dynamicAt folly dict "kafka.producer.acl" = .ok (.arr aclMaps) :=
    attempt_eq_ok.mpr (hdict.index nodup_readerKeys (by simp [Document.fields]))
  have hitem : dynamicAt folly dict "kafka.consumer" = .ok item :=
    attempt_eq_ok.mpr (hdict.index nodup_readerKeys (by simp [Document.fields]))
  have helements : ∀ elems, attempt (folly.elements (.arr elems)) = .ok elems := fun _ => rfl
  -- The topic of the consumer is one of the document's, so its lookup
  -- succeeds.
  have htopic : ¬ (doc.table.lookup doc.consumer.conf.topic).isNone := by
    have hsome := lastOf_ne_none_iff.mpr doc.consumer_topic
    show ¬ (doc.table.lookup doc.consumer.topic).isNone
    simp only [doc.lookup_table, Option.isNone_map, Option.isNone_iff_eq_none]
    exact hsome
  simp only [readConfig, hdirectory, hlevel, hservers, hretries, hport, hread, hwrite, hsize,
    htopicMaps, haclMaps, hitem, helements, readTopics_written htopics,
    readConsumer_written hconv hconsumer, ok_bind, if_neg htopic]
  rfl

/-- Where the entries of the ACL are objects, so are those that are
read. -/
theorem readConfig_written (folly : Folly) (hconv : ExactInts conv)
    (h : Written readerKeys doc dict) :
    ∃ aclMaps, List.Forall₂ AclWritten doc.acl aclMaps ∧
      readConfig folly conv dict = aclMaps.foldlM (readAcl folly doc.table) ∅ >>= fun acl =>
        .ok (doc.config acl) := by
  obtain ⟨topicMaps, aclMaps, item, htopics, hacl, hconsumer, hdict⟩ := h
  exact ⟨aclMaps, hacl, readConfig_fields folly hconv htopics hconsumer hdict⟩

/-- An entry of the ACL is an object, and not a string that holds one.
`asString()` throws for an object. -/
theorem readAcl_object {topics : Topics} {acls : UnorderedMap AccessControlList}
    {acl : AccessControlList} {aclMap : Dynamic} (h : AclWritten acl aclMap) :
    readAcl folly topics acls aclMap =
      .error (.exception (folly.typeError "int/double/bool/string" aclMap)) := by
  obtain ⟨fields, rfl, -⟩ := h
  rfl

/-- The configuration of a document without ACL holds its values. -/
theorem holds_config (h : doc.acl = []) : Holds doc (doc.config ∅) where
  logDirectory := rfl
  logLevel := rfl
  kafkaBootstrapServers := rfl
  kafkaTopics := doc.lookup_table
  kafkaProducerRetries := rfl
  kafkaProducerAcl name := by
    rw [h]
    exact AList.lookup_empty name
  kafkaConsumer := rfl
  httpServerPort := rfl
  httpServerReadTimeout := rfl
  httpServerWriteTimeout := rfl
  httpServerHandlerChannelSize := rfl

/-- With the keys that the reader asks for, a document is read back
exactly when it has no entries in `kafka.producer.acl`. The first
entry ends the loop by an exception. -/
theorem readBack_iff (hconv : ExactInts conv) (hwritten : Written readerKeys doc dict)
    (hparse : folly.parseJson (fs.read path) = .ok dict) :
    ReadBack folly conv fs path doc ↔ doc.acl = [] := by
  obtain ⟨aclMaps, hacl, hread⟩ := readConfig_written folly hconv hwritten
  cases hdoc : doc.acl with
  | nil =>
      rw [hdoc, List.forall₂_nil_left_iff] at hacl
      subst hacl
      exact iff_of_true ⟨doc.config ∅, parseConfig_eq_some_iff.mpr ⟨dict, hparse, hread⟩,
        holds_config hdoc⟩ rfl
  | cons acl acls =>
      rw [hdoc, List.forall₂_cons_left_iff] at hacl
      obtain ⟨aclMap, rest, hentry, -, rfl⟩ := hacl
      rw [List.foldlM_cons, readAcl_object hentry] at hread
      exact iff_of_false (not_readBack_of_none (parseConfig_of_exception hparse hread)) nofun

end Config

end Bigpipe
