import Bigpipe.Client.RateLimit
import Bigpipe.Lib.TokenBucket
import Mathlib.Algebra.Order.Ring.Rat

/-!
# `Bigpipe.Proofs.RateLimit`: the rate that the token bucket lets through

`tryFillBucket` takes the maximum of the filled count and the capacity
where the minimum would keep the count within the capacity. After it
the count is never below the capacity.

So a bucket that is asked for no more than its capacity at a time
never has to wait, and its returns are its calls. Whether they keep to
the rate depends on the callers only, and the exact condition is the
one that an honest bucket would impose: `Conforms`, from the library
on rates. The returns are within the rate exactly when an honest
bucket would not have made any of them wait.

A call that has to wait sets `lastFillTime` before it sleeps, so the
fill after it counts the sleep again. The expression for the sleep
subtracts a time from a number of tokens.

* `getToken_of_le_capacity`: a call for at most the capacity returns
  at once, whatever the calls before it took.
* `withinRate_returns_iff`: the returns keep the rate limit exactly
  when the calls as they are made are covered by a bucket that is
  bounded by its capacity.
* `burst`: two calls at one time that take twice the capacity.
* `sleepsDeficit_iff`: the one number of milliseconds that covers a
  deficit.
* `creditsFrom_iff`: the next fill counts from the return only after a
  sleep of no time.
* `neverWaitsForDeficit`: so no call that waits does both.
-/

set_option autoImplicit false

namespace Bigpipe.Client

open Bigpipe.Lib (Arrival WithinRate Conforms InOrder conforms_iff_withinRate)

/-- A reading of the clock in seconds. -/
def seconds (time : Int) : ℚ :=
  time / 1000000000

/-- The count of a call at a time. -/
def arrival (time count : Int) : Arrival ℚ where
  time := seconds time
  amount := count

/-- The call as it is made. -/
def GetTokenCall.arrival (c : GetTokenCall) : Arrival ℚ :=
  Client.arrival c.now c.count

/-- The returns, by their times. -/
def granted (returns : List (Int × Int)) : List (Arrival ℚ) :=
  returns.map fun r => arrival r.1 r.2

theorem seconds_le_seconds {s t : Int} (h : s ≤ t) : seconds s ≤ seconds t := by
  unfold seconds
  exact div_le_div_of_nonneg_right (Int.cast_le.mpr h) (by norm_num)

/-- After the fill the count is at least the capacity. -/
theorem capacity_le_tryFillBucket (b : TokenBucket) (now : Int) :
    b.capacity ≤ (b.tryFillBucket now).tokenCount :=
  le_max_right _ _

/-- A call for at most the capacity returns at once. The fill in front
of it has left at least the capacity in the bucket. -/
theorem getToken_of_le_capacity {b : TokenBucket} (now : Int) {count : Int}
    (h : (count : ℚ) ≤ b.capacity) :
    ∃ b', b.getToken now count = some (b', now) ∧ b'.capacity = b.capacity := by
  have henough : (b.tryFillBucket now).tokenCount ≥ count :=
    h.trans (capacity_le_tryFillBucket b now)
  exact ⟨_, if_pos henough, rfl⟩

/-- Where no call asks for more than the capacity, every call returns
at once. -/
theorem returns_eq {b : TokenBucket} {calls : List GetTokenCall}
    (h : ∀ c ∈ calls, (c.count : ℚ) ≤ b.capacity) :
    b.returns calls = some (calls.map fun c => (c.now, c.count)) := by
  induction calls generalizing b with
  | nil => rfl
  | cons c calls ih =>
      obtain ⟨b', hget, hcapacity⟩ := getToken_of_le_capacity c.now (h c List.mem_cons_self)
      -- The call changes the count of tokens, which the next call fills up
      -- again.
      have hrest := ih (b := b') fun d hd => by
        rw [hcapacity]
        exact h d (List.mem_cons_of_mem c hd)
      rw [TokenBucket.returns, hget]
      show (b'.returns calls).map _ = _
      rw [hrest]
      rfl

/-- Calls at non-decreasing readings arrive in order. -/
theorem inOrder_arrivals {start : Int} {calls : List GetTokenCall}
    (h : (start :: calls.map GetTokenCall.now).Pairwise (· ≤ ·)) :
    InOrder (seconds start) (calls.map GetTokenCall.arrival) := by
  obtain ⟨hstart, hsorted⟩ := List.pairwise_cons.mp h
  constructor
  · intro a ha
    obtain ⟨c, hc, rfl⟩ := List.mem_map.mp ha
    exact seconds_le_seconds (hstart c.now (List.mem_map_of_mem hc))
  · rw [List.pairwise_map] at hsorted ⊢
    exact hsorted.imp fun hle => seconds_le_seconds hle

/-- For counts between 1 and the capacity, a bucket of the rate lets
through at most the capacity and what the rate adds, in every
interval, exactly when a bucket that starts full and never holds more
than the capacity covers each call at the time it is made.

The equivalence between the two is a fact about rates
(`conforms_iff_withinRate`). What is about the code is that its
returns are the calls. -/
theorem withinRate_returns_iff (rate : ℚ) (hrate : 0 < rate) (start : Int)
    (calls : List GetTokenCall)
    (hclock : (start :: calls.map GetTokenCall.now).Pairwise (· ≤ ·))
    (hcount : ∀ c ∈ calls, 1 ≤ c.count ∧ (c.count : ℚ) ≤ rate) :
    (∃ returns, (TokenBucket.new rate start).returns calls = some returns ∧
        WithinRate rate rate (granted returns)) ↔
      Conforms rate rate rate (seconds start) (calls.map GetTokenCall.arrival) := by
  have hreturns : (TokenBucket.new rate start).returns calls =
      some (calls.map fun c => (c.now, c.count)) := returns_eq fun c hc => (hcount c hc).2
  have hamount : ∀ a ∈ calls.map GetTokenCall.arrival, 0 ≤ a.amount := by
    intro a ha
    obtain ⟨c, hc, rfl⟩ := List.mem_map.mp ha
    have hone : 1 ≤ c.count := (hcount c hc).1
    exact Int.cast_nonneg (by omega)
  -- The returns are the calls, so the limit on the returns is one on the
  -- calls.
  rw [conforms_iff_withinRate hrate.le hrate.le (inOrder_arrivals hclock) hamount, hreturns]
  simp only [Option.some.injEq, exists_eq_left', granted, List.map_map]
  exact Iff.rfl

/-- `withinRate_returns_iff` for a bucket of ten a second and two
calls that take five each, half a second apart. -/
theorem withinRate_returns_iff_tenASecond :
    ∃ returns, (TokenBucket.new 10 0).returns [⟨0, 5⟩, ⟨500000000, 5⟩] = some returns ∧
      WithinRate 10 10 (granted returns) := by
  refine (withinRate_returns_iff 10 (by norm_num) 0 _ (by decide) ?_).mpr ?_
  · intro c hc
    have hfive : c.count = 5 := by
      simp only [List.mem_cons, List.not_mem_nil, or_false] at hc
      rcases hc with rfl | rfl <;> rfl
    rw [hfive]
    norm_num
  · simp only [List.map_cons, List.map_nil, Conforms, Bigpipe.Lib.refill, GetTokenCall.arrival,
      arrival, seconds]
    norm_num

/-- A bucket of ten a second grants twenty at one time. -/
theorem burst :
    ∃ returns, (TokenBucket.new 10 0).returns [⟨0, 10⟩, ⟨0, 10⟩] = some returns ∧
      ¬ WithinRate 10 10 (granted returns) := by
  refine ⟨_, returns_eq (by decide), fun h => ?_⟩
  have hwindow := h 0 0 le_rfl
  simp only [granted, List.map_cons, List.map_nil, Lib.windowAmount_cons, Lib.windowAmount_nil,
    arrival, seconds] at hwindow
  norm_num at hwindow

/-! ### A call that waits -/

/-- A sleep of `slept` nanoseconds gives the rate time for the
deficit, and is less than a millisecond too long. -/
def SleepsDeficit (rate deficit : ℚ) (slept : Int) : Prop :=
  deficit ≤ seconds slept * rate ∧ seconds slept * rate < deficit + rate / 1000

/-- Every fill from `time` on is the one of a bucket that was filled
at `time`. -/
def CreditsFrom (b : TokenBucket) (time : Int) : Prop :=
  ∀ now, time ≤ now →
    b.tryFillBucket now = { b with lastFillTime := time }.tryFillBucket now

/-- The call returns after it slept for the deficit, and the next fill
adds what the rate gives from then on. -/
def WaitsForDeficit (rate : ℚ) (b : TokenBucket) (now count : Int) : Prop :=
  ∃ b' time, b.getToken now count = some (b', time) ∧
    SleepsDeficit rate (count - (b.tryFillBucket now).tokenCount) (time - now) ∧
    CreditsFrom b' time

/-- A call for more than the bucket holds sleeps, and leaves it
empty. -/
theorem getToken_of_lt {b : TokenBucket} {now count : Int}
    (h : (b.tryFillBucket now).tokenCount < count) :
    b.getToken now count = ((b.tryFillBucket now).waittime count).map fun waittime =>
      ({ b.tryFillBucket now with tokenCount := 0 }, now + waittime * 1000000) :=
  if_neg (not_le.mpr h)

/-- The milliseconds that cover a deficit are its quotient by the
rate, rounded up. -/
theorem sleepsDeficit_iff {rate deficit : ℚ} (hrate : 0 < rate) (waittime : Int) :
    SleepsDeficit rate deficit (waittime * 1000000) ↔ waittime = ⌈1000 * deficit / rate⌉ := by
  have htokens : seconds (waittime * 1000000) * rate = waittime * (rate / 1000) := by
    unfold seconds
    push_cast
    ring
  have hdeficit : 1000 * deficit / rate = deficit / (rate / 1000) := by
    field_simp
  have hpos : 0 < rate / 1000 := by positivity
  rw [SleepsDeficit, htokens, hdeficit, eq_comm, Int.ceil_eq_iff, lt_div_iff₀ hpos,
    div_le_iff₀ hpos, and_comm]
  refine and_congr_left fun _ => ?_
  rw [sub_one_mul]
  exact sub_lt_iff_lt_add.symm

/-- A fill a whole number of microseconds after the last one. -/
theorem tokenCount_tryFillBucket_add (b : TokenBucket) (microseconds : Int) :
    (b.tryFillBucket (b.lastFillTime + 1000 * microseconds)).tokenCount =
      max (microseconds * b.tokenPerMicroSecond + b.tokenCount) b.capacity := by
  have hpassed : (b.lastFillTime + 1000 * microseconds - b.lastFillTime).tdiv 1000 =
      microseconds := by
    rw [add_sub_cancel_left]
    exact Int.mul_tdiv_cancel_left microseconds (by decide)
  simp only [TokenBucket.tryFillBucket, hpassed]

/-- After a sleep since the last fill, the next fill counts from the
return only if the sleep took no time. It counts from `lastFillTime`,
which was set before the sleep. -/
theorem creditsFrom_iff {b : TokenBucket} (htoken : 0 < b.tokenPerMicroSecond) {waittime : Int}
    (hwait : 0 ≤ waittime) :
    CreditsFrom b (b.lastFillTime + waittime * 1000000) ↔ waittime = 0 := by
  constructor
  · intro h
    -- A fill so late that the capacity does not matter in either bucket.
    let late : ℕ := ⌈(b.capacity - b.tokenCount) / b.tokenPerMicroSecond⌉₊
    have hlate : b.capacity ≤ late * b.tokenPerMicroSecond + b.tokenCount := by
      rw [← sub_le_iff_le_add, ← div_le_iff₀ htoken]
      exact Nat.le_ceil _
    have hfill := h (b.lastFillTime + 1000 * (1000 * waittime + late)) (by omega)
    have hwith : b.capacity ≤
        (1000 * waittime + late : Int) * b.tokenPerMicroSecond + b.tokenCount := by
      have hslept : 0 ≤ (waittime : ℚ) * b.tokenPerMicroSecond := by positivity
      push_cast
      linarith
    have hcredit : (1000 * waittime + late : Int) * b.tokenPerMicroSecond + b.tokenCount =
        late * b.tokenPerMicroSecond + b.tokenCount := by
      calc (1000 * waittime + late : Int) * b.tokenPerMicroSecond + b.tokenCount
          = (b.tryFillBucket (b.lastFillTime + 1000 * (1000 * waittime + late))).tokenCount := by
            rw [tokenCount_tryFillBucket_add, max_eq_left hwith]
        _ = max (late * b.tokenPerMicroSecond + b.tokenCount) b.capacity := by
            rw [hfill]
            rw [show b.lastFillTime + 1000 * (1000 * waittime + late) =
              b.lastFillTime + waittime * 1000000 + 1000 * late by ring]
            exact tokenCount_tryFillBucket_add
              { b with lastFillTime := b.lastFillTime + waittime * 1000000 } late
        _ = late * b.tokenPerMicroSecond + b.tokenCount := max_eq_left hlate
    have hzero : (waittime : ℚ) * b.tokenPerMicroSecond = 0 := by
      push_cast at hcredit
      linarith
    exact Int.cast_eq_zero.mp ((mul_eq_zero_iff_right htoken.ne').mp hzero)
  · rintro rfl
    intro now _
    rw [zero_mul, add_zero]

/-- The sleep is the absolute value of a number of milliseconds. -/
theorem waittime_nonneg {b : TokenBucket} {count waittime : Int}
    (h : b.waittime count = some waittime) : 0 ≤ waittime := by
  simp only [TokenBucket.waittime, Option.ite_none_right_eq_some, Option.some.injEq] at h
  rw [← h.2]
  exact Int.floor_nonneg.mpr (abs_nonneg _)

/-- No call that waits sleeps for its deficit and leaves a bucket that
counts from its return: the one needs some sleep, and the other none.
The time of the last fill is read before the sleep, so what the bucket
gains while the call sleeps is counted again. -/
theorem neverWaitsForDeficit (rate : ℚ) (hrate : 0 < rate) (b : TokenBucket)
    (htoken : b.tokenPerMicroSecond = rate / 1000000) (now count : Int) (_ : 1 ≤ count)
    (h : (b.tryFillBucket now).tokenCount < count) : ¬ WaitsForDeficit rate b now count := by
  rintro ⟨b', time, hget, hsleeps, hcredits⟩
  rw [getToken_of_lt h, Option.map_eq_some_iff] at hget
  obtain ⟨waittime, hwaittime, heq⟩ := hget
  cases heq
  rw [add_sub_cancel_left] at hsleeps
  have hpos : 0 < b.tokenPerMicroSecond := by
    rw [htoken]
    positivity
  -- `lastFillTime` is still the reading before the sleep.
  have hnone : waittime = 0 :=
    (creditsFrom_iff (b := { b.tryFillBucket now with tokenCount := 0 }) hpos
      (waittime_nonneg hwaittime)).mp hcredits
  rw [hnone] at hsleeps
  have hdeficit : (count : ℚ) - (b.tryFillBucket now).tokenCount ≤ 0 := by
    simpa [seconds] using hsleeps.1
  linarith

/-- `neverWaitsForDeficit` for a full bucket of ten a second and a
call for twenty. -/
theorem neverWaitsForDeficit_tenASecond : ¬ WaitsForDeficit 10 (TokenBucket.new 10 0) 0 20 := by
  refine neverWaitsForDeficit 10 (by norm_num) _ rfl 0 20 (by decide) ?_
  norm_num [TokenBucket.new, TokenBucket.tryFillBucket]

/-- That call sleeps for 999980 milliseconds, where one second covers
its deficit of ten. -/
theorem thousandSeconds :
    ((TokenBucket.new 10 0).tryFillBucket 0).tokenCount = 10 ∧
      (∃ b', (TokenBucket.new 10 0).getToken 0 20 = some (b', 999980000000)) ∧
      ¬ WaitsForDeficit 10 (TokenBucket.new 10 0) 0 20 := by
  have hfill : ((TokenBucket.new 10 0).tryFillBucket 0).tokenCount = 10 := by
    norm_num [TokenBucket.new, TokenBucket.tryFillBucket]
  have hwaittime : ((TokenBucket.new 10 0).tryFillBucket 0).waittime 20 = some 999980 := by
    have hms : |((20 : Int) : ℚ) - 10 / (10 / 1000000)| = (999980 : Int) := by norm_num
    have htoken : ((TokenBucket.new 10 0).tryFillBucket 0).tokenPerMicroSecond = 10 / 1000000 :=
      rfl
    rw [TokenBucket.waittime, hfill, htoken, hms, Int.floor_intCast]
    rfl
  have hlt : ((TokenBucket.new 10 0).tryFillBucket 0).tokenCount < (20 : Int) := by
    rw [hfill]
    norm_num
  have hget := getToken_of_lt hlt
  rw [hwaittime] at hget
  refine ⟨hfill, ⟨_, hget⟩, ?_⟩
  rintro ⟨b', time, hreturns, hsleeps, -⟩
  cases hget.symm.trans hreturns
  have hlong := hsleeps.2
  rw [hfill] at hlong
  norm_num [seconds] at hlong

end Bigpipe.Client
