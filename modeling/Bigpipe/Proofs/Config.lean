import Bigpipe.Config.Config
import Bigpipe.Folly.Compact
import Bigpipe.Lib.Validation
import Mathlib.Data.Rat.Floor
import Mathlib.Tactic.Linarith

/-!
# `Bigpipe.Proofs.Config`: what an accepted configuration has been checked for

`ParseConfig` checks `healthRate` as a percentage, and truncates it to
an `int`. `IsHealthy` compares it with a rate between 0 and 1.

Where a file is accepted, each part of the configuration was read from
its place in the document and passed its check. `ReadFrom` and
`BreakerFrom` list that once, and the modules on the other parts of a
configuration start from them.

For the threshold, the percentage passes three stations: the file has
a rational number, the configuration its integer part, between 1 and
100, and the window compares a share of successes with that. A share
is at most 1. So a threshold of 2 or more is above every share, and
one of 1 is above every share but the full one. What is left of the
intended comparison is said by `ThresholdAgrees`.

* `readCircuitBreaker_cases`: what the section of an accepted circuit
  breaker satisfies.
* `threshold_iff`: the verdict of the health window is that of the
  percentage in the file exactly where too few outcomes were counted,
  where the percentage says unhealthy, or where nothing failed and the
  percentage is below 2.
-/

set_option autoImplicit false

namespace Bigpipe.Config

open Bigpipe.Client (CircuitBreaker CircuitBreakerConf HealthStats StatsBucket)
open Bigpipe.Lib (Json)
open Bigpipe.Lib.Validation

variable {folly : Folly} {conv : Conversions}

/-! ### Accepted files -/

theorem attempt_eq_ok {α : Type} {x : Except String α} {a : α} : attempt x = .ok a ↔ x = .ok a :=
  mapError_eq_ok

/-- A configuration that is returned was read from the parsed text. -/
theorem parseConfig_eq_some_iff {fs : FileSystem} {path : String} {config : Config} :
    parseConfig folly conv fs path = .ok (some config) ↔
      ∃ dict, folly.parseJson (fs.read path) = .ok dict ∧
        readConfig folly conv dict = .ok config := by
  simp only [parseConfig, bind_eq_ok, attempt_eq_ok]
  refine exists_congr fun dict => and_congr_right fun _ => ?_
  cases readConfig folly conv dict with
  | ok config' =>
      show (pure (some config') : Parse (Option Config)) = .ok (some config) ↔ _
      rw [pure_eq_ok, Option.some.injEq, Except.ok.injEq]
  | error e => cases e <;> exact iff_of_false nofun nofun

/-- What the parts of an accepted configuration were read from, and
the check of the topic of the consumer. -/
structure ReadFrom (folly : Folly) (conv : Conversions) (dict : Dynamic) (config : Config) :
    Prop where
  topics : ∃ list topicMaps, folly.index dict "kafka.topics" = .ok list ∧
    folly.elements list = .ok topicMaps ∧
    topicMaps.foldlM (readTopic folly conv) ∅ = .ok config.kafkaTopics
  acl : ∃ list aclMaps, folly.index dict "kafka.producer.acl" = .ok list ∧
    folly.elements list = .ok aclMaps ∧
    aclMaps.foldlM (readAcl folly config.kafkaTopics) ∅ = .ok config.kafkaProducerAcl
  consumer : ∃ item, folly.index dict "kafka.consumer" = .ok item ∧
    readConsumer folly conv item = .ok config.kafkaConsumer
  topic : config.kafkaTopics.lookup config.kafkaConsumer.topic ≠ none

/-- Where the block of the `try` returns, all its parts were read. The
block is a sequence of readings, each of which may throw, so the
result says that none did. -/
theorem readConfig_cases {dict : Dynamic} {config : Config}
    (h : readConfig folly conv dict = .ok config) : ReadFrom folly conv dict config := by
  simp only [readConfig, bind_eq_ok, reject, ite_error_eq_ok, pure_eq_ok, dynamicAt,
    attempt_eq_ok] at h
  -- The eight scalars, and then the parts in the order of the source.
  obtain ⟨_, -, _, -, _, -, _, -, _, -, _, -, _, -, _, -, list, hlist, topicMaps, htopicMaps,
    topics, htopics, acls, hacls, aclMaps, haclMaps, acl, hacl, item, hitem, consumer, hconsumer,
    htopic, rfl⟩ := h
  exact ⟨⟨list, topicMaps, hlist, htopicMaps, htopics⟩, ⟨acls, aclMaps, hacls, haclMaps, hacl⟩,
    ⟨item, hitem, hconsumer⟩, by simpa using htopic⟩

/-- The circuit breaker of a consumer was read from its section. So
what is known of an accepted section is known of it. -/
theorem readConsumer_circuitBreaker {item : Dynamic} {consumer : ConsumerConf}
    {conf : CircuitBreakerConf} (h : readConsumer folly conv item = .ok consumer)
    (hconf : consumer.circuitBreakerConf = some conf) :
    ∃ circuitMap, folly.index item "circuitBreaker" = .ok circuitMap ∧
      readCircuitBreaker folly conv circuitMap = .ok conf := by
  simp only [readConsumer, bind_eq_ok, pure_eq_ok] at h
  obtain ⟨_, -, _, -, _, -, _, -, _, -, _, -, breaker, hbreaker, rfl⟩ := h
  cases hconf
  obtain ⟨n, -, hbreaker⟩ := bind_eq_ok.mp hbreaker
  split at hbreaker
  · simp only [bind_eq_ok, pure_eq_ok, dynamicAt, attempt_eq_ok] at hbreaker
    obtain ⟨circuitMap, hmap, conf', hread, heq⟩ := hbreaker
    cases heq
    exact ⟨circuitMap, hmap, hread⟩
  · cases hbreaker

/-- The number that the file has as `healthRate`, before `ParseConfig`
narrows it. The text of the file says it in percent. -/
def writtenHealthRate (folly : Folly) (conv : Conversions) (dict : Dynamic) :
    Except String ℚ := do
  let item ← folly.index dict "kafka.consumer"
  let circuitMap ← folly.index item "circuitBreaker"
  folly.asDouble conv (← folly.index circuitMap "healthRate")

/-- An `int` that a `double` is truncated to. -/
theorem truncate_eq_ok {x : ℚ} {i : Int} (h : truncate x = .ok i) : i = x.num.tdiv x.den := by
  rw [truncate] at h
  split at h
  · cases h
    rfl
  · cases h

/-- What the section of an accepted circuit breaker satisfies. The
rate is that of the file rounded towards zero, and the checks of
`ParseConfig` are about the rounded one. -/
structure BreakerFrom (folly : Folly) (conv : Conversions) (circuitMap : Dynamic)
    (conf : CircuitBreakerConf) : Prop where
  healthRate : ∃ value rate, folly.index circuitMap "healthRate" = .ok value ∧
    folly.asDouble conv value = .ok rate ∧ conf.healthRate = (rate.num.tdiv rate.den : Int)
  winSize : 0 < conf.winSize
  minStats : 0 < conf.minStats
  pos : 0 < conf.healthRate
  le : conf.healthRate ≤ 100

/-- Where the section of the circuit breaker is accepted, its numbers
passed the checks. The checks look at the truncated numbers, not at
those of the file. -/
theorem readCircuitBreaker_cases {circuitMap : Dynamic} {conf : CircuitBreakerConf}
    (h : readCircuitBreaker folly conv circuitMap = .ok conf) :
    BreakerFrom folly conv circuitMap conf := by
  simp only [readCircuitBreaker, truncatedAt, dynamicAt, bind_eq_ok, reject, ite_error_eq_ok,
    pure_eq_ok, attempt_eq_ok] at h
  obtain ⟨_, -, _, -, winSize, -, healthRate, ⟨value, hvalue, rate, hrate, hhealth⟩, minStats, -,
    hchecks, rfl⟩ := h
  have hhealth := truncate_eq_ok hhealth
  refine ⟨⟨value, rate, hvalue, hrate, by rw [hhealth]⟩, ?_, ?_, ?_, ?_⟩
  · show 0 < winSize
    omega
  · show 0 < minStats
    omega
  · show (0 : ℚ) < healthRate
    exact_mod_cast (by omega : 0 < healthRate)
  · show (healthRate : ℚ) ≤ 100
    exact_mod_cast (by omega : healthRate ≤ 100)

/-! ### The threshold -/

/-- The verdict for a window with some outcomes: unhealthy where there
are enough outcomes and the rate of the successes is below the
threshold. The division is multiplied out, as there is at least one
outcome. -/
theorem health_eq_false_iff (stats : HealthStats) (hthresh : 0 < stats.bucketThresh) :
    stats.health.1 = false ↔
      stats.bucketThresh ≤ stats.totalSuccess + stats.totalFail ∧
        (stats.totalSuccess : ℚ) <
          stats.healthThresh * (stats.totalSuccess + stats.totalFail : Nat) := by
  by_cases htotal : stats.totalSuccess + stats.totalFail = 0
  · rw [HealthStats.health, if_pos htotal]
    refine iff_of_false nofun fun h => ?_
    omega
  · have hpos : (0 : ℚ) < (stats.totalSuccess + stats.totalFail : Nat) := by
      exact_mod_cast Nat.pos_of_ne_zero htotal
    simp only [HealthStats.health, htotal, if_false, ge_iff_le, le_div_iff₀ hpos]
    split
    · rename_i hhealthy
      refine iff_of_false nofun fun ⟨henough, hrate⟩ => ?_
      rcases hhealthy with hfew | hgood
      · push_cast at hfew
        omega
      · exact absurd hgood (not_le.mpr hrate)
    · rename_i hunhealthy
      obtain ⟨hfew, hgood⟩ := not_or.mp hunhealthy
      refine iff_of_true rfl ⟨?_, not_le.mp hgood⟩
      push_cast at hfew
      omega

/-- A positive truncation is the floor. -/
theorem tdiv_eq_floor {x : ℚ} (h : 0 < x.num.tdiv x.den) : x.num.tdiv x.den = ⌊x⌋ := by
  have hnum : 0 ≤ x.num := by
    by_contra hneg
    have hle : 0 ≤ (-x.num).tdiv x.den := Int.tdiv_nonneg (by omega) (Int.natCast_nonneg _)
    rw [Int.neg_tdiv] at hle
    omega
  rw [Rat.floor_def', Int.tdiv_eq_ediv_of_nonneg hnum]

/-- A threshold in percent that says unhealthy is above the rate,
taken as a share, too. -/
theorem share_of_percent {rate : ℚ} {success total : Nat} (hfloor : 1 ≤ ⌊rate⌋)
    (htotal : 0 < total) (h : 100 * (success : ℚ) < rate * total) :
    (success : ℚ) < ⌊rate⌋ * total := by
  have hone : (1 : ℚ) ≤ ⌊rate⌋ := by exact_mod_cast hfloor
  have hpos : (0 : ℚ) < total := by exact_mod_cast htotal
  have hsuccess : (0 : ℚ) ≤ success := by positivity
  have hrate : rate * total ≤ 2 * ⌊rate⌋ * total := by
    have hlt := Int.lt_floor_add_one rate
    exact mul_le_mul_of_nonneg_right (by linarith) hpos.le
  linarith

/-- A share is at least a threshold of 1 or more only where nothing
failed and the threshold is 1. It is the core of the module: beyond
that every window is unhealthy. -/
theorem not_share_iff {floor : Int} {success fail : Nat} (hfloor : 1 ≤ floor)
    (htotal : 0 < success + fail) :
    ¬ (success : ℚ) < floor * (success + fail : Nat) ↔ fail = 0 ∧ floor = 1 := by
  have hcast : (success : ℚ) < floor * (success + fail : Nat) ↔
      (success : Int) < floor * (success + fail : Nat) := by
    constructor
    · intro h
      exact_mod_cast h
    · intro h
      exact_mod_cast h
  rw [hcast, not_lt]
  constructor
  · intro h
    have hone : (success + fail : Nat) ≤ floor * (success + fail : Nat) :=
      le_mul_of_one_le_left (by omega) hfloor
    have hfail : fail = 0 := by omega
    refine ⟨hfail, ?_⟩
    by_contra hne
    have htwo : 2 * (success + fail : Nat) ≤ floor * (success + fail : Nat) :=
      mul_le_mul_of_nonneg_right (by omega) (by omega)
    omega
  · intro ⟨hfail, hone⟩
    rw [hfail, hone]
    omega

/-- A rate of successes is a share of the outcomes. Where a threshold
in percent is taken for a share, the verdicts agree where the
percentage says unhealthy, or where nothing failed and the threshold
is below 2. -/
theorem share_iff_percent {rate : ℚ} {success fail : Nat} (hfloor : 1 ≤ ⌊rate⌋)
    (htotal : 0 < success + fail) :
    ((success : ℚ) < ⌊rate⌋ * (success + fail : Nat) ↔
        100 * (success : ℚ) < rate * (success + fail : Nat)) ↔
      100 * (success : ℚ) < rate * (success + fail : Nat) ∨ fail = 0 ∧ rate < 2 := by
  have htwo : rate < 2 ↔ ⌊rate⌋ = 1 := by
    rw [show (2 : ℚ) = ((2 : Int) : ℚ) from rfl, ← Int.floor_lt]
    omega
  rw [htwo, ← not_share_iff hfloor htotal]
  constructor
  · intro h
    by_cases hshare : (success : ℚ) < ⌊rate⌋ * (success + fail : Nat)
    · exact .inl (h.mp hshare)
    · exact .inr hshare
  · rintro (hpercent | hshare)
    · exact iff_of_true (share_of_percent hfloor htotal hpercent) hpercent
    · exact iff_of_false hshare fun hpercent => hshare (share_of_percent hfloor htotal hpercent)

/-- The health window that the constructors build from the
configuration, with any buckets and any second of the last update. -/
def window (conf : CircuitBreakerConf) (buckets : List StatsBucket) (updateTime : Int) :
    HealthStats :=
  { (CircuitBreaker.new conf updateTime).healthStats with buckets }

/-- The verdict that the percentage in the file gives for some
outcomes: there are enough of them, and the share of the successes is
below it. -/
def Unhealthy (minStats : Int) (rate : ℚ) (success fail : Nat) : Prop :=
  minStats ≤ success + fail ∧ 100 * (success : ℚ) < rate * (success + fail : Nat)

/-- The outcomes for which the code gives that verdict: too few of
them, a percentage that says unhealthy, or no failures and a
percentage below 2. -/
def ThresholdAgrees (minStats : Int) (rate : ℚ) (success fail : Nat) : Prop :=
  success + fail < minStats ∨ 100 * (success : ℚ) < rate * (success + fail : Nat) ∨
    fail = 0 ∧ rate < 2

/-- The two verdicts agree exactly there. Where there are too few
outcomes both say healthy. -/
theorem verdict_iff {minStats : Int} {rate : ℚ} {success fail : Nat} (hmin : 0 < minStats)
    (hfloor : 1 ≤ ⌊rate⌋) :
    ((minStats ≤ success + fail ∧ (success : ℚ) < ⌊rate⌋ * (success + fail : Nat)) ↔
        Unhealthy minStats rate success fail) ↔ ThresholdAgrees minStats rate success fail := by
  unfold Unhealthy ThresholdAgrees
  by_cases hfew : (success + fail : Int) < minStats
  · -- Too few outcomes are healthy in both.
    refine iff_of_true (iff_of_false (fun h => ?_) fun h => ?_) (.inl hfew)
    · exact absurd h.1 (not_le.mpr hfew)
    · exact absurd h.1 (not_le.mpr hfew)
  · have henough : minStats ≤ success + fail := not_lt.mp hfew
    have htotal : 0 < success + fail := by omega
    rw [and_iff_right henough, and_iff_right henough, share_iff_percent hfloor htotal,
      or_iff_right hfew]

/-- For every accepted configuration with a circuit breaker and every
health window built from it: `IsHealthy` gives the verdict of the
percentage in the file exactly where `ThresholdAgrees` holds of the
outcomes that are left in the window.

The buckets are arbitrary, so the statement covers every history of
the window, whatever was recorded in it and however it was. -/
theorem threshold_iff {fs : FileSystem} {path : String} {config : Config}
    {conf : CircuitBreakerConf} (hparse : parseConfig folly conv fs path = .ok (some config))
    (hconf : config.kafkaConsumer.circuitBreakerConf = some conf) :
    ∃ dict rate, folly.parseJson (fs.read path) = .ok dict ∧
      writtenHealthRate folly conv dict = .ok rate ∧
      ∀ (buckets : List StatsBucket) (updateTime now : Int) (stats : HealthStats),
        (window conf buckets updateTime).updateBuckets now = stats →
        ((((window conf buckets updateTime).isHealthy now).2.1 = false ↔
            Unhealthy conf.minStats rate stats.totalSuccess stats.totalFail) ↔
          ThresholdAgrees conf.minStats rate stats.totalSuccess stats.totalFail) := by
  obtain ⟨dict, hdict, hread⟩ := parseConfig_eq_some_iff.mp hparse
  obtain ⟨item, hitem, hconsumer⟩ := (readConfig_cases hread).consumer
  obtain ⟨circuitMap, hmap, hbreaker⟩ := readConsumer_circuitBreaker hconsumer hconf
  obtain ⟨⟨value, rate, hvalue, hrate, hhealth⟩, -, hmin, hpos, -⟩ :=
    readCircuitBreaker_cases hbreaker
  refine ⟨dict, rate, hdict, ?_, fun buckets updateTime now stats hstats => ?_⟩
  · simp only [writtenHealthRate, bind_eq_ok]
    exact ⟨item, hitem, circuitMap, hmap, value, hvalue, hrate⟩
  · have htdiv : 0 < rate.num.tdiv rate.den := by
      rw [hhealth] at hpos
      exact_mod_cast hpos
    -- The file is accepted, so the rate that it lists is at least 1, and its
    -- truncation is its floor.
    have hfloor : 1 ≤ ⌊rate⌋ := by
      rw [← tdiv_eq_floor htdiv]
      omega
    rw [tdiv_eq_floor htdiv] at hhealth
    -- Updating the window changes neither threshold.
    have hthresh : stats.bucketThresh = conf.minStats ∧ stats.healthThresh = conf.healthRate := by
      rw [← hstats]
      simp [window, CircuitBreaker.new, HealthStats.new]
    show ((((window conf buckets updateTime).updateBuckets now).health.1 = false ↔ _) ↔ _)
    rw [hstats, health_eq_false_iff stats (by rw [hthresh.1]; exact hmin), hthresh.1, hthresh.2,
      hhealth]
    exact verdict_iff hmin hfloor

/-! ### A configuration file -/

/-- The file system with a configuration file. -/
def configFile (dict : Dynamic) : FileSystem := fun name =>
  if name = "bigpipe.json" then some (compactFolly.toJson dict) else none

/-- The file is parsed. -/
theorem parseJson_configFile {dict : Dynamic} (h : Json.Readable compactNumerals dict) :
    compactFolly.parseJson ((configFile dict).read "bigpipe.json") = .ok dict := by
  rw [show (configFile dict).read "bigpipe.json" = compactFolly.toJson dict by
    simp [FileSystem.read, configFile]]
  exact compactFolly_parseJson_readable h

/-- The section of a circuit breaker that breaks below 50 percent. -/
def halfBreaker : Dynamic :=
  .obj [("recoverPeriod", .num (.int 20)), ("breakPeriod", .num (.int 10)),
    ("winSize", .num (.int 60)), ("healthRate", .num (.int 50)), ("minStats", .num (.int 1))]

/-- The section of a consumer of the topic `orders` with that
breaker. -/
def ordersConsumer : Dynamic :=
  .obj [("topic", .str "orders"), ("groupId", .str "G1"), ("rateLimit", .num (.int 100)),
    ("retries", .num (.int 2)), ("timeout", .num (.int 3000)), ("concurrency", .num (.int 5)),
    ("circuitBreaker", halfBreaker)]

/-- A file with the topic `orders`, which `ParseConfig` accepts: one
topic, no ACL, and a consumer of the topic with a breaker. -/
def ordersDict : Dynamic :=
  .obj [("log.directory", .str "./logs"), ("log.level", .num (.int 5)),
    ("kafka.bootstrap.servers", .str "localhost:9092"), ("kafka.producer.retries", .num (.int 2)),
    ("http.acceptor.port", .num (.int 10086)), ("http.acceptor.read.timeout", .num (.int 5000)),
    ("http.acceptor.write.timeout", .num (.int 5000)),
    ("http.acceptor.handler.channel.size", .num (.int 20)),
    ("kafka.topics", .arr [.obj [("name", .str "orders"), ("partitions", .num (.int 1))]]),
    ("kafka.producer.acl", .arr []), ("kafka.consumer", ordersConsumer)]

/-- The file system with that file. -/
def ordersFile : FileSystem := fun name =>
  if name = "bigpipe.json" then some (compactFolly.toJson ordersDict) else none

/-- The breaker of the file: a rate of 50 percent, as the narrowing
leaves it. -/
def halfConf : CircuitBreakerConf where
  breakPeriod := 10
  recoverPeriod := 20
  winSize := 60
  minStats := 1
  healthRate := 50

/-- What `ParseConfig` returns for the file. It has the one topic, no
ACL and the breaker. -/
def ordersConfig : Config where
  logDirectory := "./logs"
  logLevel := 5
  kafkaBootstrapServers := "localhost:9092"
  kafkaTopics := AList.insert "orders" { partitions := 1 } ∅
  kafkaProducerRetries := 2
  kafkaProducerAcl := ∅
  kafkaConsumer :=
    { topic := "orders", groupId := "G1", rateLimit := 100, retries := 2, timeout := 3000,
      concurrency := 5, circuitBreakerConf := some halfConf }
  httpServerPort := 10086
  httpServerReadTimeout := 5000
  httpServerWriteTimeout := 5000
  httpServerHandlerChannelSize := 20

/-- All numbers of the file are integers. -/
theorem readable_ordersDict : Json.Readable compactNumerals ordersDict := by
  simp [ordersDict, ordersConsumer, halfBreaker]

/-- The file is accepted. -/
theorem parseConfig_ordersFile :
    parseConfig compactFolly compactConversions ordersFile "bigpipe.json" =
      .ok (some ordersConfig) := by
  rw [show ordersFile = configFile ordersDict from rfl]
  exact parseConfig_eq_some_iff.mpr ⟨ordersDict, parseJson_configFile readable_ordersDict, rfl⟩

/-- `threshold_iff` at that file. -/
theorem threshold_iff_ordersFile :
    ∃ dict rate, compactFolly.parseJson (ordersFile.read "bigpipe.json") = .ok dict ∧
      writtenHealthRate compactFolly compactConversions dict = .ok rate ∧
      ∀ (buckets : List StatsBucket) (updateTime now : Int) (stats : HealthStats),
        (window halfConf buckets updateTime).updateBuckets now = stats →
        ((((window halfConf buckets updateTime).isHealthy now).2.1 = false ↔
            Unhealthy halfConf.minStats rate stats.totalSuccess stats.totalFail) ↔
          ThresholdAgrees halfConf.minStats rate stats.totalSuccess stats.totalFail) :=
  threshold_iff parseConfig_ordersFile rfl

/-- With a threshold of 50 percent, nine successes and one failure are
unhealthy. -/
theorem ordersFile_unhealthy :
    parseConfig compactFolly compactConversions ordersFile "bigpipe.json" =
        .ok (some ordersConfig) ∧
      ordersConfig.kafkaConsumer.circuitBreakerConf = some halfConf ∧
      writtenHealthRate compactFolly compactConversions ordersDict = .ok 50 ∧
      ((window halfConf [⟨9, 1⟩] 100).updateBuckets 100).totalSuccess = 9 ∧
      ((window halfConf [⟨9, 1⟩] 100).updateBuckets 100).totalFail = 1 ∧
      ((window halfConf [⟨9, 1⟩] 100).isHealthy 100).2.1 = false ∧
      ¬ Unhealthy halfConf.minStats 50 9 1 := by
  refine ⟨parseConfig_ordersFile, rfl, rfl, by decide, by decide, ?_, ?_⟩
  · decide +kernel
  · intro h
    have hpercent := h.2
    norm_num at hpercent

end Bigpipe.Config
