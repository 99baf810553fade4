import Bigpipe.Client.CircuitBreaker
import Bigpipe.Folly.Conversions
import Bigpipe.Kafka.Producer

/-!
# `Bigpipe.Config.Config`: the configuration file

`Config::ParseConfig` of `config/config.hpp`, with the fields of
`Config` and `ConsumerConf`. The values are read in the order of the
source. The text is parsed outside the `try`, so a text that is no
JSON throws to the caller. Everything else that is thrown gives a null
pointer.

The order is part of the behaviour. The first thing that is missing or
wrong decides how the reading ends, and a reader that fails in the
middle has looked at nothing behind it. So the block of the `try` is
one sequence of steps here, in the words and the order of the source,
with the loops over the topics and the ACL as folds over the elements
of their arrays.

* An `int64_t` is narrowed to an `int` modulo `2 ^ 32`. A `double`
  outside the range of `int` has no defined narrowing.
* What `FromJSON` of an ACL returns is dropped.
-/

set_option autoImplicit false

namespace Bigpipe

open Bigpipe.Client (CircuitBreakerConf)

/-- The fields of `ConsumerConf`. The circuit breaker is a pointer in
the source, which is null where the file has no such section. -/
structure ConsumerConf where
  topic : String
  groupId : String
  rateLimit : Int
  retries : Int
  timeout : Int
  concurrency : Int
  circuitBreakerConf : Option CircuitBreakerConf

/-- The fields of `Config`. The tables keep the last entry of each
name, so a name that a file lists twice is in them once. -/
structure Config where
  logDirectory : String
  logLevel : Int
  kafkaBootstrapServers : String
  kafkaTopics : Topics
  kafkaProducerRetries : Int
  kafkaProducerAcl : UnorderedMap AccessControlList
  kafkaConsumer : ConsumerConf
  httpServerPort : Int
  httpServerReadTimeout : Int
  httpServerWriteTimeout : Int
  httpServerHandlerChannelSize : Int

namespace Config

/-- Why no configuration is returned. An exception and a rejection
look the same to the caller of `ParseConfig`, and the log tells them
apart. -/
inductive Failure where
  /-- An exception, with its `what()`. -/
  | exception (what : String)
  /-- The return of a null pointer, with the warning. -/
  | rejected (warning : String)
  /-- The behaviour is undefined. -/
  | undefined
  deriving DecidableEq, Repr

/-- Reading a part of the file. -/
abbrev Parse (α : Type) := Except Failure α

/-- A call that may throw. -/
def attempt {α : Type} (x : Except String α) : Parse α :=
  x.mapError .exception

/-- A return of a null pointer. -/
def reject {α : Type} (warning : String) : Parse α :=
  .error (.rejected warning)

/-- `int` of an `int64_t`. The bits above the 32 lowest are dropped
without a word. -/
def narrow (i : Int) : Int :=
  i.bmod (2 ^ 32)

/-- `int` of a `double`, towards zero. Where the result is no `int`,
the behaviour is undefined. -/
def truncate (x : ℚ) : Parse Int :=
  let i := x.num.tdiv x.den
  if Client.FitsInt i then .ok i else .error .undefined

variable (folly : Folly) (conv : Conversions)

/-- `dict[key]`. -/
def dynamicAt (dict : Dynamic) (key : String) : Parse Dynamic :=
  attempt (folly.index dict key)

/-- `dict[key].asString()`. -/
def stringAt (dict : Dynamic) (key : String) : Parse String :=
  attempt (folly.stringAt dict key)

/-- `int(dict[key].asInt())`. -/
def intAt (dict : Dynamic) (key : String) : Parse Int := do
  return narrow (← attempt (folly.asInt conv (← dynamicAt folly dict key)))

/-- `int(dict[key].asDouble())`. -/
def truncatedAt (dict : Dynamic) (key : String) : Parse Int := do
  truncate (← attempt (folly.asDouble conv (← dynamicAt folly dict key)))

/-- One round of the loop over `kafka.topics`. Nothing is asked of the
number of partitions, not even that there is one. -/
def readTopic (topics : Topics) (topicMap : Dynamic) : Parse Topics := do
  let name ← stringAt folly topicMap "name"
  let partitions ← intAt folly conv topicMap "partitions"
  return topics.insert name { partitions := Int32.ofInt partitions }

/-- One round of the loop over `kafka.producer.acl`. An entry has to
be a text, which is parsed a second time. Its topic is looked up in
the topics that were read before, and what `FromJSON` returned is not
looked at. -/
def readAcl (topics : Topics) (acls : UnorderedMap AccessControlList) (aclMap : Dynamic) :
    Parse (UnorderedMap AccessControlList) := do
  let json ← attempt (folly.asString aclMap)
  let (result, acl) := AccessControlList.fromJSON folly json {}
  let _ ← attempt result
  let acls := acls.insert acl.name acl
  if (topics.lookup acl.topic).isNone then
    reject ("ACL中配置的topic: " ++ acl.topic ++ " 不存在,请检查kafka.topics.")
  else
    return acls

/-- The fields of the section `circuitBreaker`. They are read as
`double`s and narrowed to `int`s, the health rate among them, before
they are checked. -/
def readCircuitBreaker (circuitMap : Dynamic) : Parse CircuitBreakerConf := do
  let recoverPeriod ← truncatedAt folly conv circuitMap "recoverPeriod"
  let breakPeriod ← truncatedAt folly conv circuitMap "breakPeriod"
  let winSize ← truncatedAt folly conv circuitMap "winSize"
  let healthRate ← truncatedAt folly conv circuitMap "healthRate"
  let minStats ← truncatedAt folly conv circuitMap "minStats"
  if winSize ≤ 0 ∨ minStats ≤ 0 ∨ healthRate ≤ 0 ∨ healthRate > 100 then
    reject "consumer配置的熔断器参数有误, 请检查一下."
  else
    -- `HealthRate` is a `double` again.
    return { breakPeriod, recoverPeriod, winSize, minStats, healthRate }

/-- The section `circuitBreaker` of the consumer, if there is one. A
count of the key decides, so a section that is `null` is still read,
and throws. -/
def optionalCircuitBreaker (item : Dynamic) : Parse (Option CircuitBreakerConf) := do
  if (← attempt (folly.count item "circuitBreaker")) > 0 then
    return some (← readCircuitBreaker folly conv (← dynamicAt folly item "circuitBreaker"))
  else
    return none

/-- The section `kafka.consumer`. Its topic is checked later, by the
caller. -/
def readConsumer (item : Dynamic) : Parse ConsumerConf := do
  let topic ← stringAt folly item "topic"
  let groupId ← stringAt folly item "groupId"
  let rateLimit ← intAt folly conv item "rateLimit"
  let retries ← intAt folly conv item "retries"
  let timeout ← intAt folly conv item "timeout"
  let concurrency ← intAt folly conv item "concurrency"
  let circuitBreakerConf ← optionalCircuitBreaker folly conv item
  return { topic, groupId, rateLimit, retries, timeout, concurrency, circuitBreakerConf }

/-- The block of the `try`. The keys of the HTTP server are those that
the source asks for. -/
def readConfig (dict : Dynamic) : Parse Config := do
  let logDirectory ← stringAt folly dict "log.directory"
  let logLevel ← intAt folly conv dict "log.level"
  let kafkaBootstrapServers ← stringAt folly dict "kafka.bootstrap.servers"
  let kafkaProducerRetries ← intAt folly conv dict "kafka.producer.retries"
  let httpServerPort ← intAt folly conv dict "http.acceptor.port"
  let httpServerReadTimeout ← intAt folly conv dict "http.acceptor.read.timeout"
  let httpServerWriteTimeout ← intAt folly conv dict "http.acceptor.write.timeout"
  let httpServerHandlerChannelSize ← intAt folly conv dict "http.acceptor.handler.channel.size"
  let topicMaps ← attempt (folly.elements (← dynamicAt folly dict "kafka.topics"))
  let kafkaTopics ← topicMaps.foldlM (readTopic folly conv) ∅
  let aclMaps ← attempt (folly.elements (← dynamicAt folly dict "kafka.producer.acl"))
  let kafkaProducerAcl ← aclMaps.foldlM (readAcl folly kafkaTopics) ∅
  let kafkaConsumer ← readConsumer folly conv (← dynamicAt folly dict "kafka.consumer")
  if (kafkaTopics.lookup kafkaConsumer.topic).isNone then
    reject ("consumer中配置的topic: " ++ kafkaConsumer.topic ++ " 不存在,请检查kafka.topics.")
  else
    return {
      logDirectory, logLevel, kafkaBootstrapServers, kafkaTopics, kafkaProducerRetries,
      kafkaProducerAcl, kafkaConsumer, httpServerPort, httpServerReadTimeout,
      httpServerWriteTimeout, httpServerHandlerChannelSize }

/-- `ParseConfig`. A null pointer is `none`. An error is an exception
that leaves it, or undefined behaviour. -/
def parseConfig (fs : FileSystem) (path : String) : Parse (Option Config) := do
  let content := fs.read path
  let dict ← attempt (folly.parseJson content)
  match readConfig folly conv dict with
  | .ok config => return some config
  | .error (.exception _) | .error (.rejected _) => return none
  | .error .undefined => .error .undefined

end Config

end Bigpipe
