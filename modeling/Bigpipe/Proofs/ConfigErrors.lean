import Bigpipe.Proofs.AccessControl

/-!
# `Bigpipe.Proofs.ConfigErrors`: what `ParseConfig` does with a bad file

`ParseConfig` parses the text in front of the `try`, so the handler
does not see a text that is no JSON, and nor does the check of `main`.
Inside the `try` the handler sees every exception. What is left there
is the narrowing of the numbers of a circuit breaker.

So there are three ends: a pointer, which may be null, an exception
that leaves the function, and undefined behaviour. The first is what
the callers are prepared for. The second is decided before the block
is entered, by the text alone. The third is reached in the block,
where the reading has come as far as the circuit breaker and finds a
number that no `int` can hold, in front of anything that would throw.

* `escapes_iff`: an exception leaves `ParseConfig` exactly where the
  text is no JSON.
* `readConfig_undefined_iff`: where a number of the circuit breaker is
  narrowed that is no `int`.
* `returns_iff`: `ParseConfig` returns a configuration or a null
  pointer exactly where neither happens.
* `missingFile_escapes`: it does not return for a file that is not
  there.
-/

set_option autoImplicit false

namespace Bigpipe.Config

open Bigpipe.Client (FitsInt)
open Bigpipe.Lib (insertAll lastOf_map lastOf_ne_none_iff lookup_insertAll)
open Bigpipe.Lib.Validation

variable {folly : Folly} {conv : Conversions} {fs : FileSystem} {path key : String}
  {dict item circuitMap : Dynamic}

/-! ### Documents that are read up to the circuit breaker -/

/-- The value under the key is a string, or is converted to one. -/
def HasText (folly : Folly) (dict : Dynamic) (key : String) : Prop :=
  ∃ text, folly.stringAt dict key = .ok text

/-- The value under the key is an integer, or is converted to one. -/
def HasInt (folly : Folly) (conv : Conversions) (dict : Dynamic) (key : String) : Prop :=
  ∃ i, writtenInt folly conv dict key = .ok i

/-- The elements of `kafka.producer.acl` are texts from which
`FromJSON` does not throw, and the topics that it leaves are among the
names. -/
def HasAcls (folly : Folly) (dict : Dynamic) (names : List String) : Prop :=
  ∃ list aclMaps, folly.index dict "kafka.producer.acl" = .ok list ∧
    folly.elements list = .ok aclMaps ∧ ∀ aclMap ∈ aclMaps, ∃ json b acl,
      folly.asString aclMap = .ok json ∧
      AccessControlList.fromJSON folly json {} = (.ok b, acl) ∧ acl.topic ∈ names

/-- The parts of the consumer in front of the circuit breaker can be
read, and it has a circuit breaker. -/
structure ConsumerComesToBreaker (folly : Folly) (conv : Conversions)
    (item circuitMap : Dynamic) : Prop where
  topic : HasText folly item "topic"
  groupId : HasText folly item "groupId"
  rateLimit : HasInt folly conv item "rateLimit"
  retries : HasInt folly conv item "retries"
  timeout : HasInt folly conv item "timeout"
  concurrency : HasInt folly conv item "concurrency"
  one : folly.count item "circuitBreaker" = .ok 1
  circuitBreaker : folly.index item "circuitBreaker" = .ok circuitMap

/-- The parts of the document in front of the circuit breaker can be
read, and the consumer has a circuit breaker. The parts are in the
order in which they are read, so each of them would throw before the
breaker is reached. -/
structure ComesToBreaker (folly : Folly) (conv : Conversions) (dict circuitMap : Dynamic) :
    Prop where
  logDirectory : HasText folly dict "log.directory"
  logLevel : HasInt folly conv dict "log.level"
  bootstrapServers : HasText folly dict "kafka.bootstrap.servers"
  producerRetries : HasInt folly conv dict "kafka.producer.retries"
  port : HasInt folly conv dict "http.acceptor.port"
  readTimeout : HasInt folly conv dict "http.acceptor.read.timeout"
  writeTimeout : HasInt folly conv dict "http.acceptor.write.timeout"
  channelSize : HasInt folly conv dict "http.acceptor.handler.channel.size"
  maps : ∃ written, writtenTopics folly conv dict = .ok written ∧
    HasAcls folly dict (written.map Prod.fst)
  consumer : ∃ item, folly.index dict "kafka.consumer" = .ok item ∧
    ConsumerComesToBreaker folly conv item circuitMap

/-- The keys of a circuit breaker, in the order in which they are
read. -/
def breakerKeys : List String :=
  ["recoverPeriod", "breakPeriod", "winSize", "healthRate", "minStats"]

/-- The numbers under the keys can be read up to one that is no `int`.
The recursion is that of the reading: a number that fits lets it go on
to the next key. -/
def OutOfRange (folly : Folly) (conv : Conversions) (circuitMap : Dynamic) :
    List String → Prop
  | [] => False
  | key :: keys => ∃ x, writtenDouble folly conv circuitMap key = .ok x ∧
      (FitsInt (integerPart x) → OutOfRange folly conv circuitMap keys)

/-! ### Readings without undefined behaviour -/

theorem attempt_ne_undefined {α : Type} (x : Except String α) :
    attempt x ≠ .error .undefined := by
  cases x <;> nofun

theorem stringAt_ne_undefined : stringAt folly dict key ≠ .error .undefined :=
  attempt_ne_undefined _

theorem dynamicAt_ne_undefined : dynamicAt folly dict key ≠ .error .undefined :=
  attempt_ne_undefined _

/-- An integer is narrowed modulo `2 ^ 32`, which is defined for every
integer. -/
theorem intAt_ne_undefined : intAt folly conv dict key ≠ .error .undefined := by
  rw [intAt, ne_eq, bind_eq_error_of_ne dynamicAt_ne_undefined]
  rintro ⟨value, -, h⟩
  rw [bind_eq_error_of_ne (attempt_ne_undefined _)] at h
  obtain ⟨i, -, h⟩ := h
  cases h

/-- The loop over the topics narrows integers only. -/
theorem readTopics_ne_undefined (topicMaps : List Dynamic) (topics : Topics) :
    topicMaps.foldlM (readTopic folly conv) topics ≠ .error .undefined := by
  refine foldlM_ne_error (fun topics topicMap => ?_) topicMaps topics
  rw [readTopic, ne_eq, bind_eq_error_of_ne stringAt_ne_undefined]
  rintro ⟨name, -, h⟩
  rw [bind_eq_error_of_ne intAt_ne_undefined] at h
  obtain ⟨partitions, -, h⟩ := h
  cases h

/-- The loop over the ACLs narrows nothing. -/
theorem readAcls_ne_undefined (topics : Topics) (aclMaps : List Dynamic)
    (acls : UnorderedMap AccessControlList) :
    aclMaps.foldlM (readAcl folly topics) acls ≠ .error .undefined := by
  refine foldlM_ne_error (fun acls aclMap => ?_) aclMaps acls
  rw [readAcl, ne_eq, bind_eq_error_of_ne (attempt_ne_undefined _)]
  rintro ⟨json, -, h⟩
  rw [bind_eq_error_of_ne (attempt_ne_undefined _)] at h
  obtain ⟨b, -, h⟩ := h
  split at h
  · cases h
  · cases h

/-! ### The numbers of a circuit breaker -/

/-- A narrowing is defined exactly for a number whose integer part is
an `int`. -/
theorem truncate_undefined_iff {x : ℚ} :
    truncate x = .error .undefined ↔ ¬ FitsInt (integerPart x) := by
  rw [truncate, integerPart]
  split
  · rename_i hfits
    refine iff_of_false (fun h => ?_) fun h => h hfits
    cases h
  · rename_i hfits
    exact iff_of_true rfl hfits

/-- A number is read whose narrowing is not defined. -/
theorem truncatedAt_undefined_iff :
    truncatedAt folly conv dict key = .error .undefined ↔
      ∃ x, writtenDouble folly conv dict key = .ok x ∧ ¬ FitsInt (integerPart x) := by
  rw [truncatedAt, bind_eq_error_of_ne dynamicAt_ne_undefined]
  simp only [bind_eq_error_of_ne (attempt_ne_undefined _), truncate_undefined_iff, dynamicAt,
    writtenDouble, bind_eq_ok, attempt_eq_ok]
  constructor
  · rintro ⟨value, hvalue, x, hx, hfits⟩
    exact ⟨x, ⟨value, hvalue, hx⟩, hfits⟩
  · rintro ⟨x, ⟨value, hvalue, hx⟩, hfits⟩
    exact ⟨value, hvalue, x, hx, hfits⟩

/-- A number is read and its narrowing is defined. -/
theorem exists_truncatedAt_iff :
    (∃ n, truncatedAt folly conv dict key = .ok n) ↔
      ∃ x, writtenDouble folly conv dict key = .ok x ∧ FitsInt (integerPart x) := by
  simp only [truncatedAt_eq_ok]
  constructor
  · rintro ⟨n, x, hx, hn⟩
    refine ⟨x, hx, ?_⟩
    by_contra hfits
    rw [truncate_undefined_iff.mpr hfits] at hn
    cases hn
  · rintro ⟨x, hx, hfits⟩
    exact ⟨_, x, hx, if_pos hfits⟩

/-- One number of the section, and what is read after it. The cast of
a `double` that does not fit is undefined, and so is the whole
read. -/
theorem truncatedAt_bind_undefined_iff {β : Type} {keys : List String} {rest : Int → Parse β}
    (hrest : ∀ n, rest n = .error .undefined ↔ OutOfRange folly conv circuitMap keys) :
    (truncatedAt folly conv circuitMap key >>= rest) = .error .undefined ↔
      OutOfRange folly conv circuitMap (key :: keys) := by
  rw [bind_eq_error, truncatedAt_undefined_iff]
  simp only [hrest, exists_and_right, exists_truncatedAt_iff]
  constructor
  · rintro (⟨x, hx, hfits⟩ | ⟨⟨x, hx, -⟩, hkeys⟩)
    · exact ⟨x, hx, fun h => absurd h hfits⟩
    · exact ⟨x, hx, fun _ => hkeys⟩
  · rintro ⟨x, hx, hkeys⟩
    by_cases hfits : FitsInt (integerPart x)
    · exact .inr ⟨⟨x, hx, hfits⟩, hkeys hfits⟩
    · exact .inl ⟨x, hx, hfits⟩

/-- The section narrows a number that is no `int` exactly where its
numbers can be read up to one. -/
theorem readCircuitBreaker_undefined_iff :
    readCircuitBreaker folly conv circuitMap = .error .undefined ↔
      OutOfRange folly conv circuitMap breakerKeys := by
  -- One number after the other, and then the check, which may reject.
  refine truncatedAt_bind_undefined_iff fun recoverPeriod => ?_
  refine truncatedAt_bind_undefined_iff fun breakPeriod => ?_
  refine truncatedAt_bind_undefined_iff fun winSize => ?_
  refine truncatedAt_bind_undefined_iff fun healthRate => ?_
  refine truncatedAt_bind_undefined_iff fun minStats => ?_
  refine iff_of_false ?_ id
  split
  · nofun
  · nofun

/-- The optional section: it is undefined where the section is there
and one of its numbers is out of range. -/
theorem optionalCircuitBreaker_undefined_iff :
    optionalCircuitBreaker folly conv item = .error .undefined ↔
      ∃ circuitMap, folly.count item "circuitBreaker" = .ok 1 ∧
        folly.index item "circuitBreaker" = .ok circuitMap ∧
        OutOfRange folly conv circuitMap breakerKeys := by
  rw [optionalCircuitBreaker, bind_eq_error_of_ne (attempt_ne_undefined _)]
  simp only [attempt_eq_ok]
  constructor
  · rintro ⟨n, hn, h⟩
    split at h
    · rename_i hpos
      obtain rfl : n = 1 := Nat.le_antisymm (count_le_one hn) hpos
      rw [bind_eq_error_of_ne dynamicAt_ne_undefined] at h
      obtain ⟨circuitMap, hmap, h⟩ := h
      rcases bind_eq_error.mp h with h | ⟨conf, -, h⟩
      · exact ⟨circuitMap, hn, attempt_eq_ok.mp hmap, readCircuitBreaker_undefined_iff.mp h⟩
      · cases h
    · cases h
  · rintro ⟨circuitMap, hn, hmap, hrange⟩
    refine ⟨1, hn, ?_⟩
    rw [if_pos Nat.one_pos, bind_eq_error_of_ne dynamicAt_ne_undefined]
    refine ⟨circuitMap, attempt_eq_ok.mpr hmap, bind_eq_error.mpr (.inl ?_)⟩
    exact readCircuitBreaker_undefined_iff.mpr hrange

/-! ### The parts in front of it -/

/-- A text that is read, and what is read after it. -/
theorem stringAt_bind_undefined_iff {β : Type} {P : Prop} {rest : String → Parse β}
    (hrest : ∀ text, rest text = .error .undefined ↔ P) :
    (stringAt folly dict key >>= rest) = .error .undefined ↔
      HasText folly dict key ∧ P := by
  rw [bind_eq_error_of_ne stringAt_ne_undefined]
  simp only [HasText, hrest, stringAt, attempt_eq_ok, exists_and_right]

/-- An integer that is read, and what is read after it. -/
theorem intAt_bind_undefined_iff {β : Type} {P : Prop} {rest : Int → Parse β}
    (hrest : ∀ n, rest n = .error .undefined ↔ P) :
    (intAt folly conv dict key >>= rest) = .error .undefined ↔
      HasInt folly conv dict key ∧ P := by
  rw [bind_eq_error_of_ne intAt_ne_undefined]
  simp only [hrest, intAt_eq_ok, exists_and_right]
  refine and_congr_left fun _ => ?_
  constructor
  · rintro ⟨n, i, hi, -⟩
    exact ⟨i, hi⟩
  · rintro ⟨i, hi⟩
    exact ⟨_, i, hi, rfl⟩

/-- The section of the consumer. The reads in front of the breaker
must have succeeded, since an exception would have left the
function. -/
theorem readConsumer_undefined_iff :
    readConsumer folly conv item = .error .undefined ↔
      ∃ circuitMap, ConsumerComesToBreaker folly conv item circuitMap ∧
        OutOfRange folly conv circuitMap breakerKeys := by
  have hparts : readConsumer folly conv item = .error .undefined ↔
      HasText folly item "topic" ∧ HasText folly item "groupId" ∧
      HasInt folly conv item "rateLimit" ∧ HasInt folly conv item "retries" ∧
      HasInt folly conv item "timeout" ∧ HasInt folly conv item "concurrency" ∧
      optionalCircuitBreaker folly conv item = .error .undefined := by
    rw [readConsumer]
    refine stringAt_bind_undefined_iff fun topic => ?_
    refine stringAt_bind_undefined_iff fun groupId => ?_
    refine intAt_bind_undefined_iff fun rateLimit => ?_
    refine intAt_bind_undefined_iff fun retries => ?_
    refine intAt_bind_undefined_iff fun timeout => ?_
    refine intAt_bind_undefined_iff fun concurrency => ?_
    refine bind_eq_error_of_rest fun conf h => ?_
    cases h
  rw [hparts, optionalCircuitBreaker_undefined_iff]
  constructor
  · rintro ⟨htopic, hgroup, hlimit, hretries, htimeout, hconcurrency, circuitMap, hone, hmap,
      hrange⟩
    exact ⟨circuitMap,
      ⟨htopic, hgroup, hlimit, hretries, htimeout, hconcurrency, hone, hmap⟩, hrange⟩
  · rintro ⟨circuitMap, h, hrange⟩
    exact ⟨h.topic, h.groupId, h.rateLimit, h.retries, h.timeout, h.concurrency, circuitMap,
      h.one, h.circuitBreaker, hrange⟩

/-- A name is in the map that the loop over the topics fills exactly
where it is one of the names of the file. -/
theorem mem_readTopics_iff {topics : Topics} {written : List (String × Int)}
    (htopics : insertAll (written.map fun topic => (topic.1, topicAttr topic.2)) = topics)
    (name : String) : name ∈ topics ↔ name ∈ written.map Prod.fst := by
  rw [mem_topics_iff, ← htopics, lookup_insertAll, lastOf_map, ← lastOf_ne_none_iff, ne_eq,
    Option.map_eq_none_iff]

/-- The loop over the ACLs goes through where each of them can be read
and checked. -/
theorem exists_readAcls_iff {aclMaps : List Dynamic} {topics : Topics} :
    (∃ acls, aclMaps.foldlM (readAcl folly topics) ∅ = .ok acls) ↔
      ∀ aclMap ∈ aclMaps, ∃ acl, Checked folly topics aclMap acl := by
  rw [← exists_forall₂_iff]
  simp only [foldlM_readAcl_eq_ok]
  constructor
  · rintro ⟨acls, checked, hchecked, -⟩
    exact ⟨checked, hchecked⟩
  · rintro ⟨checked, hchecked⟩
    exact ⟨_, checked, hchecked, rfl⟩

/-- The topics and the ACLs that are read, and what is read after
them. -/
theorem readMaps_bind_undefined_iff {β : Type} {P : Prop}
    {rest : Topics → UnorderedMap AccessControlList → Parse β}
    (hrest : ∀ topics acls, rest topics acls = .error .undefined ↔ P) :
    (do
      let topicMaps ← attempt (folly.elements (← dynamicAt folly dict "kafka.topics"))
      let topics ← topicMaps.foldlM (readTopic folly conv) ∅
      let aclMaps ← attempt (folly.elements (← dynamicAt folly dict "kafka.producer.acl"))
      let acls ← aclMaps.foldlM (readAcl folly topics) ∅
      rest topics acls : Parse β) = .error .undefined ↔
      (∃ written, writtenTopics folly conv dict = .ok written ∧
        HasAcls folly dict (written.map Prod.fst)) ∧ P := by
  simp only [bind_eq_error_of_ne (attempt_ne_undefined _),
    bind_eq_error_of_ne (readTopics_ne_undefined _ _),
    bind_eq_error_of_ne (readAcls_ne_undefined _ _ _), hrest, exists_and_right, exists_readAcls_iff,
    dynamicAt, attempt_eq_ok, foldlM_readTopic_eq_ok]
  constructor
  · rintro ⟨list, hlist, topicMaps, helements, topics, ⟨written, hwritten, htopics⟩, acls, hacls,
      aclMaps, haclMaps, hchecked, hP⟩
    refine ⟨⟨written, ?_, acls, aclMaps, hacls, haclMaps, fun aclMap hmem => ?_⟩, hP⟩
    · exact bind_eq_ok.mpr ⟨list, hlist, bind_eq_ok.mpr ⟨topicMaps, helements, hwritten⟩⟩
    · obtain ⟨acl, json, b, hjson, hend, htopic⟩ := hchecked aclMap hmem
      exact ⟨json, b, acl, hjson, hend, (mem_readTopics_iff htopics _).mp htopic⟩
  · rintro ⟨⟨written, hwritten, acls, aclMaps, hacls, haclMaps, hchecked⟩, hP⟩
    simp only [writtenTopics, bind_eq_ok] at hwritten
    obtain ⟨list, hlist, topicMaps, helements, hwritten⟩ := hwritten
    refine ⟨list, hlist, topicMaps, helements, _, ⟨written, hwritten, rfl⟩, acls, hacls, aclMaps,
      haclMaps, fun aclMap hmem => ?_, hP⟩
    obtain ⟨json, b, acl, hjson, hend, htopic⟩ := hchecked aclMap hmem
    exact ⟨acl, json, b, hjson, hend, (mem_readTopics_iff rfl _).mpr htopic⟩

/-- The block of the `try` narrows a number that is no `int` exactly
where the document can be read up to the numbers of a circuit breaker,
and these up to one that is no `int`. The proof follows the readings,
each of which is undefined only in what comes after it. -/
theorem readConfig_undefined_iff :
    readConfig folly conv dict = .error .undefined ↔
      ∃ circuitMap, ComesToBreaker folly conv dict circuitMap ∧
        OutOfRange folly conv circuitMap breakerKeys := by
  have hparts : readConfig folly conv dict = .error .undefined ↔
      HasText folly dict "log.directory" ∧ HasInt folly conv dict "log.level" ∧
      HasText folly dict "kafka.bootstrap.servers" ∧
      HasInt folly conv dict "kafka.producer.retries" ∧
      HasInt folly conv dict "http.acceptor.port" ∧
      HasInt folly conv dict "http.acceptor.read.timeout" ∧
      HasInt folly conv dict "http.acceptor.write.timeout" ∧
      HasInt folly conv dict "http.acceptor.handler.channel.size" ∧
      (∃ written, writtenTopics folly conv dict = .ok written ∧
        HasAcls folly dict (written.map Prod.fst)) ∧
      ∃ item, folly.index dict "kafka.consumer" = .ok item ∧
        readConsumer folly conv item = .error .undefined := by
    rw [readConfig]
    refine stringAt_bind_undefined_iff fun logDirectory => ?_
    refine intAt_bind_undefined_iff fun logLevel => ?_
    refine stringAt_bind_undefined_iff fun bootstrapServers => ?_
    refine intAt_bind_undefined_iff fun producerRetries => ?_
    refine intAt_bind_undefined_iff fun port => ?_
    refine intAt_bind_undefined_iff fun readTimeout => ?_
    refine intAt_bind_undefined_iff fun writeTimeout => ?_
    refine intAt_bind_undefined_iff fun channelSize => ?_
    refine readMaps_bind_undefined_iff fun topics acls => ?_
    rw [bind_eq_error_of_ne dynamicAt_ne_undefined]
    refine exists_congr fun item => and_congr attempt_eq_ok ?_
    refine bind_eq_error_of_rest fun consumer h => ?_
    -- The check of the topic rejects, and the configuration is built without
    -- narrowing.
    split at h
    · cases h
    · cases h
  rw [hparts]
  simp only [readConsumer_undefined_iff]
  constructor
  · rintro ⟨hdirectory, hlevel, hservers, hretries, hport, hread, hwrite, hsize, hmaps, item,
      hitem, circuitMap, hconsumer, hrange⟩
    exact ⟨circuitMap, ⟨hdirectory, hlevel, hservers, hretries, hport, hread, hwrite, hsize, hmaps,
      item, hitem, hconsumer⟩, hrange⟩
  · rintro ⟨circuitMap, h, hrange⟩
    obtain ⟨item, hitem, hconsumer⟩ := h.consumer
    exact ⟨h.logDirectory, h.logLevel, h.bootstrapServers, h.producerRetries, h.port,
      h.readTimeout, h.writeTimeout, h.channelSize, h.maps, item, hitem, circuitMap, hconsumer,
      hrange⟩

/-! ### What leaves `ParseConfig` -/

/-- Where the text is JSON, `ParseConfig` returns unless the block of
the `try` narrows a number that is no `int`. -/
theorem parseConfig_of_json (hdict : folly.parseJson (fs.read path) = .ok dict) :
    (∃ result, parseConfig folly conv fs path = .ok result) ↔
      readConfig folly conv dict ≠ .error .undefined := by
  have hparse : attempt (folly.parseJson (fs.read path)) = .ok dict := attempt_eq_ok.mpr hdict
  simp only [parseConfig, hparse, ok_bind]
  cases readConfig folly conv dict with
  | ok config =>
      refine iff_of_true ⟨some config, rfl⟩ fun h => ?_
      cases h
  | error e =>
      cases e with
      | exception what =>
          refine iff_of_true ⟨none, rfl⟩ fun h => ?_
          cases h
      | rejected warning =>
          refine iff_of_true ⟨none, rfl⟩ fun h => ?_
          cases h
      | undefined =>
          refine iff_of_false ?_ fun h => h rfl
          rintro ⟨result, h⟩
          cases h

/-- An exception leaves `ParseConfig` exactly where the text is no
JSON. It is that of the parser. -/
theorem escapes_iff {what : String} :
    parseConfig folly conv fs path = .error (.exception what) ↔
      folly.parseJson (fs.read path) = .error what := by
  cases hdict : folly.parseJson (fs.read path) with
  | error what' =>
      have hparse : parseConfig folly conv fs path = .error (.exception what') := by
        rw [parseConfig, hdict]
        rfl
      rw [hparse, Except.error.injEq, Failure.exception.injEq, Except.error.injEq]
  | ok dict =>
      have hparse : attempt (folly.parseJson (fs.read path)) = .ok dict := attempt_eq_ok.mpr hdict
      simp only [parseConfig, hparse, ok_bind]
      constructor
      · intro h
        split at h
        · cases h
        · cases h
        · cases h
        · cases h
      · intro h
        cases h

/-- For every file system, path and content: `ParseConfig` returns a
configuration or a null pointer exactly where the text is JSON, and
where the document cannot be read up to a number of the circuit
breaker that is no `int`.

Where it does not return, it is the exception of the parser that
leaves it, or nothing is defined. -/
theorem returns_iff (folly : Folly) (conv : Conversions) (fs : FileSystem) (path : String) :
    (∃ result, parseConfig folly conv fs path = .ok result) ↔
      ∃ dict, folly.parseJson (fs.read path) = .ok dict ∧
        ∀ circuitMap, ComesToBreaker folly conv dict circuitMap →
          ¬ OutOfRange folly conv circuitMap breakerKeys := by
  cases hdict : folly.parseJson (fs.read path) with
  | error what =>
      rw [escapes_iff.mpr hdict]
      constructor
      · rintro ⟨result, h⟩
        cases h
      · rintro ⟨dict, h, -⟩
        cases h
  | ok dict =>
      simp only [Except.ok.injEq, exists_eq_left']
      rw [parseConfig_of_json hdict, ne_eq, readConfig_undefined_iff]
      simp only [not_exists, not_and]

/-- For a file that is not there, `ParseConfig` returns neither: the
exception of the parser leaves it. -/
theorem missingFile_escapes :
    parseConfig compactFolly compactConversions (fun _ => none) "bigpipe.json" =
        .error (.exception "json parse error") ∧
      ¬ ∃ result, parseConfig compactFolly compactConversions (fun _ => none) "bigpipe.json" =
        .ok result := by
  have hescapes : parseConfig compactFolly compactConversions (fun _ => none) "bigpipe.json" =
      .error (.exception "json parse error") := rfl
  refine ⟨hescapes, ?_⟩
  rintro ⟨result, h⟩
  cases hescapes.symm.trans h

end Bigpipe.Config
