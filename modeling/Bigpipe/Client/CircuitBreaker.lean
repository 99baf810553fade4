import Bigpipe.Lib.System
import Mathlib.Algebra.Order.Ring.Rat

/-!
# `Bigpipe.Client.CircuitBreaker`: the circuit breaker and its health window

The classes `HealthStats` and `CircuitBreaker` of
`client/circuit_breaker.hpp`. Every method takes the readings of
`std::time(nullptr)` that it makes, in seconds, and `IsBreak` the
value that `rand()` draws. A method of `CircuitBreaker` holds the
mutex throughout, so the calls of any number of threads are one
sequence.

The window is a deque of buckets, one for each second. Time takes
buckets away from its front, and nothing ever adds one: the
constructor leaves the deque empty, `UpdateBuckets` only erases, and
`OnSuccess` and `OnFail` count in the bucket at the back, whether
there is one or not. The definitions say what each method does where
it is defined, and `none` is where it is not. What follows for the
life of a breaker is in `Bigpipe.Proofs.CircuitBreaker`.

* `double`s are exact rationals.
* The two counts of a bucket are `int`s that start at zero and are
  only incremented, so they are naturals here. `increment` is `none`
  where the next count does not fit an `int`, since a signed overflow
  is undefined. The totals of `IsHealthy` are `long`s, which no deque
  of `int`s that fits into memory overflows.
* `HealthStats.record` is `none` where `buckets.back()` is called on
  the empty deque, or where the count that it increments overflows.
  Both are undefined in the source.
* The switch of `IsBreak` reads and writes only the fields of
  `Circuit`, which `CircuitBreaker` extends with the health window.
-/

set_option autoImplicit false

namespace Bigpipe.Client

open Bigpipe.Lib

/-! ### `int`s -/

/-- The value fits an `int`. Where a sum or an increment does not, the
behaviour of the source is undefined. -/
def FitsInt (a : Int) : Prop :=
  -2 ^ 31 ≤ a ∧ a < 2 ^ 31

instance (a : Int) : Decidable (FitsInt a) :=
  inferInstanceAs (Decidable (_ ∧ _))

/-- The sum of two `int`s. Its overflow is undefined in the source,
and wraps here. -/
def addInt (a b : Int) : Int :=
  (a + b).bmod (2 ^ 32)

/-- A sum that fits an `int` is the sum. -/
theorem addInt_eq {a b : Int} (h : FitsInt (a + b)) : addInt a b = a + b := by
  obtain ⟨hlo, hhi⟩ := h
  exact Int.bmod_eq_of_le (by omega) (by omega)

/-- The `++` of a count that is an `int`. It is `none` where the next
count does not fit, as a signed overflow is not defined. -/
def increment (count : Nat) : Option Nat :=
  if FitsInt (count + 1 : Nat) then some (count + 1) else none

/-! ### `HealthStats` -/

/-- `StatsBucket`: the outcomes of one second. The counts are `int`s
in the source. They start at 0 and are only ever incremented, so they
are never negative, and `increment` says where they stop to be
`int`s. -/
@[ext]
structure StatsBucket where
  nSuccess : Nat
  nFail : Nat
  deriving DecidableEq, Repr

/-- `nSuccess++`. -/
def StatsBucket.countSuccess (bucket : StatsBucket) : Option StatsBucket :=
  (increment bucket.nSuccess).map fun nSuccess => { bucket with nSuccess }

/-- `nFail++`. -/
def StatsBucket.countFail (bucket : StatsBucket) : Option StatsBucket :=
  (increment bucket.nFail).map fun nFail => { bucket with nFail }

/-- The fields of `HealthStats`. The back of the deque is the end of
the list, and the bucket there is that of the second `updateTime`. -/
structure HealthStats where
  maxBuckets : Int
  buckets : List StatsBucket
  updateTime : Int
  bucketThresh : Int
  healthThresh : ℚ
  deriving DecidableEq

namespace HealthStats

/-- The constructor, at the time `now`. The deque starts empty. -/
def new (maxBuckets bucketThresh : Int) (healthThresh : ℚ) (now : Int) : HealthStats :=
  { maxBuckets, buckets := [], updateTime := now, bucketThresh, healthThresh }

/-- `UpdateBuckets`: erases one bucket from the front for each second
that passed. Where the clock went back it does nothing, and keeps the
later time. -/
def updateBuckets (s : HealthStats) (now : Int) : HealthStats :=
  let bucketsToClean := now - s.updateTime
  if bucketsToClean ≤ 0 then s
  -- The buckets that are erased are not replaced by empty ones.
  else if bucketsToClean ≥ s.buckets.length then { s with buckets := [], updateTime := now }
  else { s with buckets := s.buckets.drop bucketsToClean.toNat, updateTime := now }

/-- A total over the buckets, as the loop of `IsHealthy` adds it
up. -/
def total (s : HealthStats) (count : StatsBucket → Nat) : Nat :=
  s.buckets.foldl (fun total bucket => total + count bucket) 0

/-- `TotalSuccess`. -/
def totalSuccess (s : HealthStats) : Nat :=
  s.total StatsBucket.nSuccess

/-- `TotalFail`. -/
def totalFail (s : HealthStats) : Nat :=
  s.total StatsBucket.nFail

/-- The verdict and the rate that `IsHealthy` returns for the buckets.
Without a single outcome, or with too few of them, the verdict is
healthy. -/
def health (s : HealthStats) : Bool × ℚ :=
  let total := s.totalSuccess + s.totalFail
  if total = 0 then (true, 1)
  else
    let rate : ℚ := s.totalSuccess / total
    if total < s.bucketThresh ∨ rate ≥ s.healthThresh then (true, rate) else (false, rate)

/-- `IsHealthy`: updates the buckets and gives the verdict on what is
left, with the rate of the successes. -/
def isHealthy (s : HealthStats) (now : Int) : HealthStats × (Bool × ℚ) :=
  let s := s.updateBuckets now
  (s, s.health)

/-- `UpdateBuckets`, and then `buckets.back()` counts one more
outcome. The outcome goes into the last bucket that is left, whichever
second that bucket is for. -/
def record (count : StatsBucket → Option StatsBucket) (s : HealthStats) (now : Int) :
    Option HealthStats :=
  let s := s.updateBuckets now
  -- `none` of `getLast?` is the empty deque, and `none` of `count` the
  -- overflow.
  (s.buckets.getLast?.bind count).map fun back =>
    { s with buckets := s.buckets.dropLast ++ [back] }

/-- `OnSuccess`. -/
def onSuccess : HealthStats → Int → Option HealthStats :=
  record StatsBucket.countSuccess

/-- `OnFail`. -/
def onFail : HealthStats → Int → Option HealthStats :=
  record StatsBucket.countFail

end HealthStats

/-! ### `CircuitBreaker` -/

/-- The fields of `CircuitBreakerConf`. Four are `int`s and
`HealthRate` is a `double`; `ParseConfig` narrows the number of the
file to an `int` before it assigns it. -/
structure CircuitBreakerConf where
  breakPeriod : Int
  recoverPeriod : Int
  winSize : Int
  minStats : Int
  healthRate : ℚ

/-- The values of `CircuitStatus`. No code assigns the first one, and
the `default` branch of `IsBreak` logs an error for it. -/
inductive CircuitStatus where
  | circuitNone
  | circuitNormal
  | circuitBreak
  | circuitRecover
  deriving DecidableEq, Repr

/-- The fields of `CircuitBreaker` that the switch of `IsBreak` uses.
It takes the health as a verdict, so the window is not among them. -/
structure Circuit where
  status : CircuitStatus
  breakTime : Int
  breakPeriod : Int
  recoverPeriod : Int
  deriving DecidableEq, Repr

/-- The fields of `CircuitBreaker`, without the mutex: each method
holds it throughout. -/
structure CircuitBreaker extends Circuit where
  healthStats : HealthStats
  deriving DecidableEq

/-- The switch of `IsBreak` with the verdict of `IsHealthy` and the
draw of `rand()`. While it recovers, the circuit lets calls pass by
lot, and the share of those that it stops grows with the time since
the break. -/
def Circuit.switchStatus (b : Circuit) (now : Int) (healthy : Bool) (rand : Nat) :
    Circuit × Bool :=
  match b.status with
  | .circuitNormal =>
    if healthy = false then ({ b with status := .circuitBreak, breakTime := now }, true)
    else (b, false)
  | .circuitBreak =>
    if now - b.breakTime < b.breakPeriod ∨ healthy = false then (b, true)
    else ({ b with status := .circuitRecover }, false)
  | .circuitRecover =>
    if healthy = false then ({ b with status := .circuitBreak, breakTime := now }, true)
    else if now - b.breakTime ≥ addInt b.breakPeriod b.recoverPeriod then
      ({ b with status := .circuitNormal }, false)
    else
      let passPercent : ℚ :=
        (now - b.breakTime : Int) / (addInt b.breakPeriod b.recoverPeriod : Int)
      (b, decide (passPercent * 100 < (rand % 100 : Nat)))
  -- The default branch only logs.
  | .circuitNone => (b, false)

/-- The circuit that the constructor builds: normal, with no time of a
trip, and the two periods of the configuration. -/
def Circuit.new (conf : CircuitBreakerConf) : Circuit where
  status := .circuitNormal
  breakTime := 0
  breakPeriod := conf.breakPeriod
  recoverPeriod := conf.recoverPeriod

namespace CircuitBreaker

/-- The constructor, at the time `now`. -/
def new (conf : CircuitBreakerConf) (now : Int) : CircuitBreaker where
  toCircuit := .new conf
  healthStats := .new conf.winSize conf.minStats conf.healthRate now

/-- `IsBreak`. The clock is read at its start and again in
`IsHealthy`, so the two readings may differ by a second. -/
def isBreak (b : CircuitBreaker) (now healthNow : Int) (rand : Nat) : CircuitBreaker × Bool :=
  let (healthStats, health) := b.healthStats.isHealthy healthNow
  let (circuit, isBreak) := b.toCircuit.switchStatus now health.1 rand
  ({ toCircuit := circuit, healthStats }, isBreak)

/-- `OnSuccess`. -/
def onSuccess (b : CircuitBreaker) (now : Int) : Option CircuitBreaker :=
  (b.healthStats.onSuccess now).map fun healthStats => { b with healthStats }

/-- `OnFail`. -/
def onFail (b : CircuitBreaker) (now : Int) : Option CircuitBreaker :=
  (b.healthStats.onFail now).map fun healthStats => { b with healthStats }

end CircuitBreaker

/-- A call of a method of `CircuitBreaker`, with the clock readings
and the draw. -/
inductive Call where
  | isBreak (now healthNow : Int) (rand : Nat)
  | onSuccess (now : Int)
  | onFail (now : Int)
  deriving DecidableEq, Repr

/-- The breaker as a transition system. A call that is not defined has
no step, so a run is a sequence of calls each of which is defined. -/
def system (conf : CircuitBreakerConf) : System CircuitBreaker Call where
  init b := ∃ now, b = .new conf now
  step b
    | .isBreak now healthNow rand => some (b.isBreak now healthNow rand).1
    | .onSuccess now => b.onSuccess now
    | .onFail now => b.onFail now

/-! ### What the window operations do -/

namespace HealthStats

variable {s s' : HealthStats} {now : Int}

/-- Where no second passed, `UpdateBuckets` does nothing. -/
theorem updateBuckets_of_le (h : now ≤ s.updateTime) : s.updateBuckets now = s := by
  have hclean : now - s.updateTime ≤ 0 := by omega
  simp only [updateBuckets, hclean, if_true]

/-- Where seconds passed, `UpdateBuckets` drops as many buckets. The
two branches of the source are one `drop`, as dropping more than there
are leaves none. -/
theorem updateBuckets_of_lt (h : s.updateTime < now) :
    s.updateBuckets now =
      { s with buckets := s.buckets.drop (now - s.updateTime).toNat, updateTime := now } := by
  have hclean : ¬ now - s.updateTime ≤ 0 := by omega
  simp only [updateBuckets, hclean, if_false]
  split
  · rw [List.drop_eq_nil_of_le (by omega)]
  · rfl

@[simp] theorem updateBuckets_maxBuckets (s : HealthStats) (now : Int) :
    (s.updateBuckets now).maxBuckets = s.maxBuckets := by
  by_cases hle : now ≤ s.updateTime
  · rw [updateBuckets_of_le hle]
  · rw [updateBuckets_of_lt (by omega)]

@[simp] theorem updateBuckets_bucketThresh (s : HealthStats) (now : Int) :
    (s.updateBuckets now).bucketThresh = s.bucketThresh := by
  by_cases hle : now ≤ s.updateTime
  · rw [updateBuckets_of_le hle]
  · rw [updateBuckets_of_lt (by omega)]

@[simp] theorem updateBuckets_healthThresh (s : HealthStats) (now : Int) :
    (s.updateBuckets now).healthThresh = s.healthThresh := by
  by_cases hle : now ≤ s.updateTime
  · rw [updateBuckets_of_le hle]
  · rw [updateBuckets_of_lt (by omega)]

/-- After `UpdateBuckets` at a time that is not before the last one,
the window ends there. -/
theorem updateBuckets_updateTime (h : s.updateTime ≤ now) :
    (s.updateBuckets now).updateTime = now := by
  rcases Int.le_iff_eq_or_lt.mp h with heq | hlt
  · rw [updateBuckets_of_le (by omega), heq]
  · rw [updateBuckets_of_lt hlt]

/-- The buckets that `UpdateBuckets` leaves. -/
theorem updateBuckets_buckets (h : s.updateTime ≤ now) :
    (s.updateBuckets now).buckets = s.buckets.drop (now - s.updateTime).toNat := by
  rcases Int.le_iff_eq_or_lt.mp h with heq | hlt
  · rw [updateBuckets_of_le (by omega), heq, Int.sub_self]
    rfl
  · rw [updateBuckets_of_lt hlt]

variable {count : StatsBucket → Option StatsBucket}

/-- Recording an outcome is undefined where `UpdateBuckets` leaves the
deque empty. -/
theorem record_eq_none (h : (s.updateBuckets now).buckets = []) : s.record count now = none := by
  simp only [record, h]
  rfl

/-- A defined recording counts in the back bucket and changes nothing
else. It is the inversion lemma for both `OnSuccess` and `OnFail`. -/
theorem record_cases (h : s.record count now = some s') :
    ∃ front back back', (s.updateBuckets now).buckets = front ++ [back] ∧
      count back = some back' ∧
        s' = { s.updateBuckets now with buckets := front ++ [back'] } := by
  obtain ⟨back', hback', rfl⟩ := Option.map_eq_some_iff.mp h
  obtain ⟨back, hback, hcount⟩ := Option.bind_eq_some_iff.mp hback'
  refine ⟨_, back, back', ?_, hcount, rfl⟩
  rw [List.dropLast_append_getLast? back hback]

/-- Where `UpdateBuckets` leaves a back bucket that can count one more
outcome, recording it is defined. -/
theorem record_isSome {front : List StatsBucket} {back back' : StatsBucket}
    (hbuckets : (s.updateBuckets now).buckets = front ++ [back])
    (hcount : count back = some back') : (s.record count now).isSome := by
  simp only [record, hbuckets, List.getLast?_concat, Option.bind_some, hcount, Option.map_some,
    Option.isSome_some]

end HealthStats

end Bigpipe.Client
