import Bigpipe.Proofs.Config

/-!
# `Bigpipe.Proofs.ConfigChecks`: numbers that the program cannot run on

`ParseConfig` narrows its numbers to `int`. It checks three of those
of a circuit breaker, and none of the others: the program divides by
the numbers of partitions, has a queue of the channel size, starts a
worker for each unit of the concurrency, and adds one to the retries.

What the program needs is a condition on the configuration
(`Runnable`), and what a user can look at is the file. Between the two
is the narrowing. For an integer it keeps the last 32 bits, so the
condition on the file is one on these bits, and 2 ^ 32 partitions are
none. For a rational number it keeps the integer part, and where that
does not fit an `int` nothing is defined; an accepted file has no such
number.

Of several entries of a topic the last one counts, since the loop
overwrites.

* `runnable_iff`: the program can run on an accepted configuration
  exactly when the numbers of the file are `SaneNumbers`, as they were
  written.
* `notRunnable`: an accepted file with none of these.
-/

set_option autoImplicit false

namespace Bigpipe.Config

open Bigpipe.Client (CircuitBreakerConf FitsInt)
open Bigpipe.Lib (Json insertAll lastOf lastOf_map lookup_insertAll)
open Bigpipe.Lib.Validation

variable {folly : Folly} {conv : Conversions} {dict item : Dynamic} {key : String}
  {config : Config} {consumer : ConsumerConf}

/-- What the other modules need of the numbers of a configuration: a
divisor, a capacity, a number of threads, a bound of a loop that is
reached, and a sum that does not overflow. -/
structure Runnable (config : Config) : Prop where
  partitions : ∀ name attr, config.kafkaTopics.lookup name = some attr → 1 ≤ attr.partitions
  channelSize : 1 ≤ config.httpServerHandlerChannelSize
  concurrency : 1 ≤ config.kafkaConsumer.concurrency
  retries : 0 ≤ config.kafkaConsumer.retries ∧ FitsInt (config.kafkaConsumer.retries + 1)
  periods : ∀ conf, config.kafkaConsumer.circuitBreakerConf = some conf →
    FitsInt (conf.breakPeriod + conf.recoverPeriod)

/-! ### The numbers of a file -/

/-- The integer that an object has under a key. -/
def writtenInt (folly : Folly) (conv : Conversions) (dict : Dynamic) (key : String) :
    Except String Int := do
  folly.asInt conv (← folly.index dict key)

/-- The number that an object has under a key. -/
def writtenDouble (folly : Folly) (conv : Conversions) (dict : Dynamic) (key : String) :
    Except String ℚ := do
  folly.asDouble conv (← folly.index dict key)

/-- The name of an entry of `kafka.topics`, and its number of
partitions. -/
def writtenTopic (folly : Folly) (conv : Conversions) (topicMap : Dynamic) :
    Except String (String × Int) := do
  let name ← folly.stringAt topicMap "name"
  return (name, ← writtenInt folly conv topicMap "partitions")

/-- The entries of `kafka.topics`. -/
def writtenTopics (folly : Folly) (conv : Conversions) (dict : Dynamic) :
    Except String (List (String × Int)) := do
  let topicMaps ← folly.elements (← folly.index dict "kafka.topics")
  topicMaps.mapM (writtenTopic folly conv)

/-- The last 32 bits of the integer are those of a positive `int`. -/
def PositiveBits (i : Int) : Prop :=
  0 < i % 2 ^ 32 ∧ i % 2 ^ 32 < 2 ^ 31

/-- The last 32 bits of the integer are those of an `int` that counts
up to less than the largest. -/
def CountBits (i : Int) : Prop :=
  i % 2 ^ 32 < 2 ^ 31 - 1

/-- The integer part of a number. -/
def integerPart (x : ℚ) : Int :=
  x.num.tdiv x.den

/-- The numbers of a file that are neither zero, nor negative, nor too
large for what is done with them, after all but their last 32 bits are
lost. Of the entries of a topic the last one counts. -/
structure SaneNumbers (folly : Folly) (conv : Conversions) (dict : Dynamic) : Prop where
  partitions : ∀ topics, writtenTopics folly conv dict = .ok topics →
    ∀ name i, lastOf name topics = some i → PositiveBits i
  channelSize : ∀ i, writtenInt folly conv dict "http.acceptor.handler.channel.size" = .ok i →
    PositiveBits i
  concurrency : ∀ item, folly.index dict "kafka.consumer" = .ok item →
    ∀ i, writtenInt folly conv item "concurrency" = .ok i → PositiveBits i
  retries : ∀ item, folly.index dict "kafka.consumer" = .ok item →
    ∀ i, writtenInt folly conv item "retries" = .ok i → CountBits i
  periods : ∀ item, folly.index dict "kafka.consumer" = .ok item →
    folly.count item "circuitBreaker" = .ok 1 →
    ∀ circuitMap, folly.index item "circuitBreaker" = .ok circuitMap →
    ∀ breakPeriod, writtenDouble folly conv circuitMap "breakPeriod" = .ok breakPeriod →
    ∀ recoverPeriod, writtenDouble folly conv circuitMap "recoverPeriod" = .ok recoverPeriod →
    FitsInt (integerPart breakPeriod + integerPart recoverPeriod)

/-! ### What is made of a number -/

/-- A narrowed integer is positive exactly when its last 32 bits are
those of a positive one. So is its number of partitions, its capacity
and its number of workers. -/
theorem one_le_narrow_iff (i : Int) : 1 ≤ narrow i ↔ PositiveBits i := by
  unfold narrow PositiveBits
  rw [Int.bmod_def]
  split
  · omega
  · omega

/-- It is the written one exactly where that fits an `int`. -/
theorem narrow_eq_iff {i : Int} : narrow i = i ↔ FitsInt i := by
  unfold narrow FitsInt
  rw [Int.bmod_def]
  split
  · omega
  · omega

/-- It counts the retries of a loop that stops. The loop compares with
`retries + 1`, which has to be an `int` as well. -/
theorem count_narrow_iff (i : Int) : 0 ≤ narrow i ∧ FitsInt (narrow i + 1) ↔ CountBits i := by
  unfold narrow FitsInt CountBits
  rw [Int.bmod_def]
  split
  · omega
  · omega

/-- Narrowing twice changes nothing more. -/
theorem toInt_ofInt_narrow (i : Int) : (Int32.ofInt (narrow i)).toInt = narrow i := by
  rw [Int32.toInt_ofInt]
  exact Int.bmod_bmod

/-- A narrowed number of partitions is positive where the last 32 bits
are. -/
theorem one_le_ofInt_narrow_iff (i : Int) : 1 ≤ Int32.ofInt (narrow i) ↔ PositiveBits i := by
  have hone : (1 : Int32).toInt = 1 := by decide
  rw [Int32.le_iff_toInt_le, hone, toInt_ofInt_narrow, one_le_narrow_iff]

/-- An integer is read and narrowed. -/
theorem intAt_eq_ok {n : Int} :
    intAt folly conv dict key = .ok n ↔
      ∃ i, writtenInt folly conv dict key = .ok i ∧ narrow i = n := by
  simp only [intAt, dynamicAt, writtenInt, bind_eq_ok, pure_eq_ok, attempt_eq_ok]
  constructor
  · rintro ⟨value, hvalue, i, hi, hn⟩
    exact ⟨i, ⟨value, hvalue, hi⟩, hn⟩
  · rintro ⟨i, ⟨value, hvalue, hi⟩, hn⟩
    exact ⟨value, hvalue, i, hi, hn⟩

/-- A number is read and truncated. -/
theorem truncatedAt_eq_ok {n : Int} :
    truncatedAt folly conv dict key = .ok n ↔
      ∃ x, writtenDouble folly conv dict key = .ok x ∧ truncate x = .ok n := by
  simp only [truncatedAt, dynamicAt, writtenDouble, bind_eq_ok, attempt_eq_ok]
  constructor
  · rintro ⟨value, hvalue, x, hx, hn⟩
    exact ⟨x, ⟨value, hvalue, hx⟩, hn⟩
  · rintro ⟨x, ⟨value, hvalue, hx⟩, hn⟩
    exact ⟨value, hvalue, x, hx, hn⟩

/-- A round of the loop over the topics inserts what it read. -/
theorem readTopic_eq_ok (topics : Topics) (topicMap : Dynamic) (topics' : Topics) :
    readTopic folly conv topics topicMap = .ok topics' ↔
      ∃ topic, writtenTopic folly conv topicMap = .ok topic ∧
        topics.insert topic.1 { partitions := Int32.ofInt (narrow topic.2) } = topics' := by
  simp only [readTopic, stringAt, writtenTopic, bind_eq_ok, pure_eq_ok, attempt_eq_ok, intAt_eq_ok]
  constructor
  · intro ⟨name, hname, n, ⟨i, hi, hn⟩, htopics⟩
    rw [← hn] at htopics
    exact ⟨(name, i), ⟨name, hname, i, hi, rfl⟩, htopics⟩
  · intro ⟨topic, ⟨name, hname, i, hi, htopic⟩, htopics⟩
    rw [← htopic] at htopics
    exact ⟨name, hname, narrow i, ⟨i, hi, rfl⟩, htopics⟩

/-- What the map has for an entry of the file. -/
def topicAttr (i : Int) : KafkaTopicAttr :=
  { partitions := Int32.ofInt (narrow i) }

/-- The loop inserts the entries of the file. -/
theorem foldlM_readTopic_eq_ok {topicMaps : List Dynamic} {topics : Topics} :
    topicMaps.foldlM (readTopic folly conv) ∅ = .ok topics ↔
      ∃ written, topicMaps.mapM (writtenTopic folly conv) = .ok written ∧
        insertAll (written.map fun topic => (topic.1, topicAttr topic.2)) = topics := by
  rw [foldlM_eq_ok readTopic_eq_ok]
  refine exists_congr fun written => and_congr_right fun _ => ?_
  rw [insertAll, List.foldl_map]
  exact Iff.rfl

/-! ### The numbers of an accepted file -/

/-- The topics of an accepted file are its entries, the last one of
each name. -/
theorem lookup_topics (h : readConfig folly conv dict = .ok config) :
    ∃ written, writtenTopics folly conv dict = .ok written ∧
      ∀ name, config.kafkaTopics.lookup name = (lastOf name written).map topicAttr := by
  obtain ⟨list, topicMaps, hlist, helements, hloop⟩ := (readConfig_cases h).topics
  obtain ⟨written, hwritten, htopics⟩ := foldlM_readTopic_eq_ok.mp hloop
  refine ⟨written, ?_, fun name => ?_⟩
  · exact bind_eq_ok.mpr ⟨list, hlist, bind_eq_ok.mpr ⟨topicMaps, helements, hwritten⟩⟩
  · rw [← htopics, lookup_insertAll, lastOf_map]

/-- The channel size of an accepted file. -/
theorem readConfig_channelSize (h : readConfig folly conv dict = .ok config) :
    ∃ i, writtenInt folly conv dict "http.acceptor.handler.channel.size" = .ok i ∧
      narrow i = config.httpServerHandlerChannelSize := by
  simp only [readConfig, bind_eq_ok, reject, ite_error_eq_ok, pure_eq_ok] at h
  -- The channel size is the last of the eight scalars.
  obtain ⟨_, -, _, -, _, -, _, -, _, -, _, -, _, -, channelSize, hchannelSize, _, -, _, -, _, -,
    _, -, _, -, _, -, _, -, _, -, -, rfl⟩ := h
  exact intAt_eq_ok.mp hchannelSize

/-- The retries and the concurrency of a consumer. -/
theorem readConsumer_counts (h : readConsumer folly conv item = .ok consumer) :
    (∃ i, writtenInt folly conv item "retries" = .ok i ∧ narrow i = consumer.retries) ∧
      ∃ i, writtenInt folly conv item "concurrency" = .ok i ∧
        narrow i = consumer.concurrency := by
  simp only [readConsumer, bind_eq_ok, pure_eq_ok] at h
  obtain ⟨_, -, _, -, _, -, retries, hretries, _, -, concurrency, hconcurrency, _, -, rfl⟩ := h
  exact ⟨intAt_eq_ok.mp hretries, intAt_eq_ok.mp hconcurrency⟩

/-- The periods of a circuit breaker. -/
theorem readCircuitBreaker_periods {circuitMap : Dynamic} {conf : CircuitBreakerConf}
    (h : readCircuitBreaker folly conv circuitMap = .ok conf) :
    ∃ breakPeriod recoverPeriod,
      writtenDouble folly conv circuitMap "breakPeriod" = .ok breakPeriod ∧
      writtenDouble folly conv circuitMap "recoverPeriod" = .ok recoverPeriod ∧
      integerPart breakPeriod = conf.breakPeriod ∧
      integerPart recoverPeriod = conf.recoverPeriod := by
  simp only [readCircuitBreaker, bind_eq_ok, reject, ite_error_eq_ok, pure_eq_ok] at h
  obtain ⟨_, hrecover, _, hbreak, _, -, _, -, _, -, -, rfl⟩ := h
  obtain ⟨recoverPeriod, hrecover, hrecoverPart⟩ := truncatedAt_eq_ok.mp hrecover
  obtain ⟨breakPeriod, hbreak, hbreakPart⟩ := truncatedAt_eq_ok.mp hbreak
  exact ⟨breakPeriod, recoverPeriod, hbreak, hrecover, (truncate_eq_ok hbreakPart).symm,
    (truncate_eq_ok hrecoverPart).symm⟩

/-- `count` finds at most one field. -/
theorem count_le_one {n : Nat} (h : folly.count dict key = .ok n) : n ≤ 1 := by
  unfold Folly.count at h
  split at h
  · cases h
    split
    · exact le_rfl
    · exact Nat.zero_le 1
  · cases h

/-- A consumer has a circuit breaker exactly where the file has a
section for it. -/
theorem section_iff (h : readConsumer folly conv item = .ok consumer) :
    folly.count item "circuitBreaker" = .ok 1 ↔
      ∃ conf, consumer.circuitBreakerConf = some conf := by
  simp only [readConsumer, optionalCircuitBreaker, bind_eq_ok, attempt_eq_ok, pure_eq_ok] at h
  obtain ⟨_, -, _, -, _, -, _, -, _, -, _, -, breaker, ⟨n, hn, hbreaker⟩, rfl⟩ := h
  split at hbreaker
  · rename_i hpos
    obtain rfl : n = 1 := Nat.le_antisymm (count_le_one hn) hpos
    simp only [bind_eq_ok, pure_eq_ok] at hbreaker
    obtain ⟨_, -, conf, -, heq⟩ := hbreaker
    exact iff_of_true hn ⟨conf, heq.symm⟩
  · rename_i hzero
    cases pure_eq_ok.mp hbreaker
    refine iff_of_false (fun hone => ?_) fun hsome => ?_
    · cases hn.symm.trans hone
      exact hzero Nat.one_pos
    · obtain ⟨conf, heq⟩ := hsome
      cases heq

/-! ### The numbers, as they were written -/

/-- The topics have partitions exactly where the last entry of each
name has. An earlier entry may have any number. -/
theorem partitions_iff (h : readConfig folly conv dict = .ok config) :
    (∀ name attr, config.kafkaTopics.lookup name = some attr → 1 ≤ attr.partitions) ↔
      ∀ topics, writtenTopics folly conv dict = .ok topics →
        ∀ name i, lastOf name topics = some i → PositiveBits i := by
  obtain ⟨written, hwritten, hlookup⟩ := lookup_topics h
  rw [forall_ok_iff hwritten]
  constructor
  · intro hattr name i hi
    refine (one_le_ofInt_narrow_iff i).mp (hattr name (topicAttr i) ?_)
    rw [hlookup, hi]
    rfl
  · intro hbits name attr hattr
    rw [hlookup] at hattr
    obtain ⟨i, hi, rfl⟩ := Option.map_eq_some_iff.mp hattr
    exact (one_le_ofInt_narrow_iff i).mpr (hbits name i hi)

/-- The channel has room. -/
theorem channelSize_iff (h : readConfig folly conv dict = .ok config) :
    1 ≤ config.httpServerHandlerChannelSize ↔
      ∀ i, writtenInt folly conv dict "http.acceptor.handler.channel.size" = .ok i →
        PositiveBits i := by
  obtain ⟨i, hi, hsize⟩ := readConfig_channelSize h
  rw [forall_ok_iff hi, ← hsize]
  exact one_le_narrow_iff i

/-- There is a worker. -/
theorem concurrency_iff (h : readConsumer folly conv item = .ok consumer) :
    1 ≤ consumer.concurrency ↔
      ∀ i, writtenInt folly conv item "concurrency" = .ok i → PositiveBits i := by
  obtain ⟨-, i, hi, hconcurrency⟩ := readConsumer_counts h
  rw [forall_ok_iff hi, ← hconcurrency]
  exact one_le_narrow_iff i

/-- The retries can be counted. -/
theorem retries_iff (h : readConsumer folly conv item = .ok consumer) :
    0 ≤ consumer.retries ∧ FitsInt (consumer.retries + 1) ↔
      ∀ i, writtenInt folly conv item "retries" = .ok i → CountBits i := by
  obtain ⟨⟨i, hi, hretries⟩, -⟩ := readConsumer_counts h
  rw [forall_ok_iff hi, ← hretries]
  exact count_narrow_iff i

/-- The periods can be added. The breaker adds them in each call while
it recovers, so a sum that is no `int` would be undefined there. -/
theorem periods_iff (h : readConsumer folly conv item = .ok consumer) :
    (∀ conf, consumer.circuitBreakerConf = some conf →
        FitsInt (conf.breakPeriod + conf.recoverPeriod)) ↔
      (folly.count item "circuitBreaker" = .ok 1 →
        ∀ circuitMap, folly.index item "circuitBreaker" = .ok circuitMap →
        ∀ breakPeriod, writtenDouble folly conv circuitMap "breakPeriod" = .ok breakPeriod →
        ∀ recoverPeriod,
          writtenDouble folly conv circuitMap "recoverPeriod" = .ok recoverPeriod →
        FitsInt (integerPart breakPeriod + integerPart recoverPeriod)) := by
  rw [section_iff h]
  cases hconf : consumer.circuitBreakerConf with
  | none => exact iff_of_true nofun nofun
  | some conf =>
      obtain ⟨circuitMap, hmap, hread⟩ := readConsumer_circuitBreaker h hconf
      obtain ⟨breakPeriod, recoverPeriod, hbreak, hrecover, hbreakPart, hrecoverPart⟩ :=
        readCircuitBreaker_periods hread
      rw [forall_ok_iff hmap, forall_ok_iff hbreak, forall_ok_iff hrecover, hbreakPart,
        hrecoverPart]
      constructor
      · intro hfits _
        exact hfits conf rfl
      · intro hfits conf' heq
        cases heq
        exact hfits ⟨conf, rfl⟩

/-- For every file that is accepted: the rest of the program can run
on the configuration exactly when the numbers of the file, as they
were written, are sane. `ParseConfig` checks the section of the
breaker and the names of the topics; the condition is about what it
leaves unchecked. -/
theorem runnable_iff {fs : FileSystem} {path : String}
    (hparse : parseConfig folly conv fs path = .ok (some config)) :
    ∃ dict, folly.parseJson (fs.read path) = .ok dict ∧
      (Runnable config ↔ SaneNumbers folly conv dict) := by
  obtain ⟨dict, hdict, hread⟩ := parseConfig_eq_some_iff.mp hparse
  obtain ⟨item, hitem, hconsumer⟩ := (readConfig_cases hread).consumer
  refine ⟨dict, hdict, ?_⟩
  constructor
  · intro ⟨hpartitions, hchannel, hconcurrency, hretries, hperiods⟩
    refine ⟨(partitions_iff hread).mp hpartitions, (channelSize_iff hread).mp hchannel, ?_, ?_, ?_⟩
    · exact (forall_ok_iff hitem).mpr ((concurrency_iff hconsumer).mp hconcurrency)
    · exact (forall_ok_iff hitem).mpr ((retries_iff hconsumer).mp hretries)
    · exact (forall_ok_iff hitem).mpr ((periods_iff hconsumer).mp hperiods)
  · intro ⟨hpartitions, hchannel, hconcurrency, hretries, hperiods⟩
    exact ⟨(partitions_iff hread).mpr hpartitions, (channelSize_iff hread).mpr hchannel,
      (concurrency_iff hconsumer).mpr (hconcurrency item hitem),
      (retries_iff hconsumer).mpr (hretries item hitem),
      (periods_iff hconsumer).mpr (hperiods item hitem)⟩

/-- `runnable_iff` at the file with the topic `orders`. -/
theorem runnable_iff_ordersFile :
    ∃ dict, compactFolly.parseJson (ordersFile.read "bigpipe.json") = .ok dict ∧
      (Runnable ordersConfig ↔ SaneNumbers compactFolly compactConversions dict) :=
  runnable_iff parseConfig_ordersFile

/-! ### A file with none of them -/

/-- A breaker whose periods have no `int` as their sum. -/
def longBreaker : Dynamic :=
  .obj [("recoverPeriod", .num (.int 1)), ("breakPeriod", .num (.int 2147483647)),
    ("winSize", .num (.int 60)), ("healthRate", .num (.int 50)), ("minStats", .num (.int 1))]

/-- A consumer with that breaker, without workers, and with fewer than
no retries. -/
def idleConsumer : Dynamic :=
  .obj [("topic", .str "orders"), ("groupId", .str "G1"), ("rateLimit", .num (.int 100)),
    ("retries", .num (.int (-2))), ("timeout", .num (.int 3000)), ("concurrency", .num (.int 0)),
    ("circuitBreaker", longBreaker)]

/-- An entry whose number of partitions loses all its bits. -/
def emptyTopic : Dynamic :=
  .obj [("name", .str "orders"), ("partitions", .num (.int 4294967296))]

/-- A file with that consumer and that topic, and a channel without
room. -/
def idleDict : Dynamic :=
  .obj [("log.directory", .str "./logs"), ("log.level", .num (.int 5)),
    ("kafka.bootstrap.servers", .str "localhost:9092"), ("kafka.producer.retries", .num (.int 2)),
    ("http.acceptor.port", .num (.int 10086)), ("http.acceptor.read.timeout", .num (.int 5000)),
    ("http.acceptor.write.timeout", .num (.int 5000)),
    ("http.acceptor.handler.channel.size", .num (.int 0)), ("kafka.topics", .arr [emptyTopic]),
    ("kafka.producer.acl", .arr []), ("kafka.consumer", idleConsumer)]

/-- What `ParseConfig` returns for the file. No partition, no worker,
a channel without a place and a number of retries below 0 all pass its
checks. -/
def idleConfig : Config :=
  { ordersConfig with
    kafkaTopics := AList.insert "orders" { partitions := 0 } ∅
    httpServerHandlerChannelSize := 0
    kafkaConsumer :=
      { ordersConfig.kafkaConsumer with
        retries := -2
        concurrency := 0
        circuitBreakerConf :=
          some { halfConf with breakPeriod := 2147483647, recoverPeriod := 1 } } }

/-- All numbers of the file are integers. -/
theorem readable_idleDict : Json.Readable compactNumerals idleDict := by
  simp [idleDict, idleConsumer, longBreaker, emptyTopic]

/-- The file is accepted, and the program cannot run on any of its
numbers. -/
theorem notRunnable :
    parseConfig compactFolly compactConversions (configFile idleDict) "bigpipe.json" =
        .ok (some idleConfig) ∧
      idleConfig.kafkaTopics.lookup "orders" = some { partitions := 0 } ∧
      idleConfig.httpServerHandlerChannelSize = 0 ∧ idleConfig.kafkaConsumer.concurrency = 0 ∧
      idleConfig.kafkaConsumer.retries = -2 ∧ ¬ FitsInt (2147483647 + 1) ∧
      ¬ Runnable idleConfig := by
  refine ⟨parseConfig_eq_some_iff.mpr ⟨idleDict, parseJson_configFile readable_idleDict, rfl⟩,
    by decide, rfl, rfl, rfl, by decide, fun h => ?_⟩
  exact absurd h.channelSize (by decide)

end Bigpipe.Config
