import Bigpipe.Client.CircuitBreaker
import Mathlib.Algebra.BigOperators.Intervals
import Mathlib.Algebra.Order.BigOperators.Group.Finset

/-!
# `Bigpipe.Proofs.HealthStats`: the health window against a log of outcomes

The buckets of `HealthStats` are meant as a sliding window with one
bucket a second. The log says how many outcomes were recorded in each
second, and `SlidingWindow` that the buckets are the window of the log
that ends at `updateTime`. `UpdateBuckets` erases old buckets and
never opens new ones, so a window survives the passing of time only
while the buckets that stay inside it are empty. The log is what was
recorded, however often; the counts of a bucket are `int`s, which the
next outcome may overflow.

Time is what goes wrong. When `d` seconds have passed, the bucket that
was `i` places from the back should be `i + d` places from it. The
code erases `d` buckets at the front and leaves the back where it is,
so every bucket that stays counts for a second `d` later than its own.
That is harmless where all of them are empty. And where no bucket is
left, `back()` is called on an empty deque.

The constructor fills no buckets, and neither does anything else. So
the breaker of the program starts in the state in which recording is
not defined, and the first half of the module is about windows that
were filled by somebody else.

* `slidingWindow_iff`: a run keeps the sliding window exactly when
  every call comes in the second of the last one or finds these
  buckets empty, and the count that it increments stays an `int`.
* `slidWindow`: a call one second later that miscounts.
* `defined_iff`: from the constructed breaker, a run is defined
  exactly when it records no outcome, because the deque starts empty
  and nothing fills it.
* `firstSuccess`: the shortest run that is not.
-/

set_option autoImplicit false

namespace Bigpipe.Client

open Bigpipe.Lib

/-! ### The window of a log -/

/-- How many outcomes were recorded in each second. -/
abbrev Log := Int → StatsBucket

/-- A call of a method of `HealthStats`, with the reading of the clock
in `UpdateBuckets`. -/
inductive HealthCall where
  | onSuccess (now : Int)
  | onFail (now : Int)
  | isHealthy (now : Int)
  deriving DecidableEq, Repr

/-- The second of the call. -/
def HealthCall.now : HealthCall → Int
  | .onSuccess now | .onFail now | .isHealthy now => now

/-- What the call counts in its second, without a bound. The code
counts the same in its back bucket, as long as that is an `int`. -/
def HealthCall.count : HealthCall → Option (StatsBucket → StatsBucket)
  | .onSuccess _ => some fun bucket => { bucket with nSuccess := bucket.nSuccess + 1 }
  | .onFail _ => some fun bucket => { bucket with nFail := bucket.nFail + 1 }
  | .isHealthy _ => none

/-- The `int` of a bucket that the call increments. -/
def HealthCall.counter : HealthCall → Option (StatsBucket → Nat)
  | .onSuccess _ => some StatsBucket.nSuccess
  | .onFail _ => some StatsBucket.nFail
  | .isHealthy _ => none

/-- The call on the health window, undefined where the record of an
outcome is. `IsHealthy` only updates the buckets, as far as the window
goes. -/
def HealthCall.apply (c : HealthCall) (s : HealthStats) : Option HealthStats :=
  match c with
  | .onSuccess now => s.onSuccess now
  | .onFail now => s.onFail now
  | .isHealthy now => some (s.isHealthy now).1

/-- The call on the log. -/
def HealthCall.write (c : HealthCall) (log : Log) : Log :=
  match c.count with
  | some count => Function.update log c.now (count (log c.now))
  | none => log

/-- A health window beside the log of what was recorded in it. The
window is `none` after `buckets.back()` was called on the empty deque,
or after a count overflowed. -/
structure Watched where
  stats : Option HealthStats
  log : Log

/-- Calls at non-decreasing clock readings, each beside the outcome
that it writes to the log. The log is not the code's: it counts
without a bound and forgets nothing. -/
def watchedSystem : System Watched HealthCall where
  init _ := True
  step w c :=
    match w.stats with
    | none => none
    | some s =>
      -- The clock does not run backwards.
      if c.now < s.updateTime then none
      else some { stats := c.apply s, log := c.write w.log }

/-- The bucket `i` places from the back. Where there is none, nothing
is counted. -/
def HealthStats.bucketAt (s : HealthStats) (i : Nat) : StatsBucket :=
  s.buckets.reverse[i]?.getD ⟨0, 0⟩

/-- The outcomes that the buckets hold, as a log: that of a second is
in the bucket as many places from the back as it is older than
`updateTime`. -/
def HealthStats.held (s : HealthStats) : Log := fun second =>
  if second ≤ s.updateTime then s.bucketAt (s.updateTime - second).toNat else ⟨0, 0⟩

/-- The sum of a count over the seconds `now - maxBuckets + 1` to
`now`. -/
def windowSum (count : StatsBucket → Nat) (log : Log) (maxBuckets now : Int) : Nat :=
  ∑ i ∈ Finset.range maxBuckets.toNat, count (log (now - i))

/-- The buckets are the window of the log that ends at `updateTime`:
there are between 1 and `maxBuckets`, the bucket `i` places from the
back is that of the second `updateTime - i`, and the totals of
`IsHealthy` are those of the last `maxBuckets` seconds. -/
structure SlidingWindow (s : HealthStats) (log : Log) : Prop where
  nonempty : s.buckets ≠ []
  bounded : s.buckets.length ≤ s.maxBuckets
  bucket : ∀ i < s.buckets.length, s.bucketAt i = log (s.updateTime - i)
  totalSuccess : s.totalSuccess = windowSum StatsBucket.nSuccess log s.maxBuckets s.updateTime
  totalFail : s.totalFail = windowSum StatsBucket.nFail log s.maxBuckets s.updateTime

/-- The window is defined and slides: every call so far was defined,
and the buckets are the window of the log. -/
def Watched.Slides (w : Watched) : Prop :=
  ∃ s, w.stats = some s ∧ SlidingWindow s w.log

/-- The call comes in the second of the last one, or some buckets are
left and all buckets that stay among the last `maxBuckets` seconds are
empty. The count that the call increments in the back bucket stays an
`int`. All of it is looked up in the window before the call. -/
def Watched.Harmless (w : Watched) (c : HealthCall) : Prop :=
  ∃ s, w.stats = some s ∧
    (c.now = s.updateTime ∨
      c.now - s.updateTime < s.buckets.length ∧
        ∀ i : Nat, i + (c.now - s.updateTime) < s.maxBuckets → s.bucketAt i = ⟨0, 0⟩) ∧
    ∀ counter, c.counter = some counter → FitsInt (counter (s.bucketAt 0) + 1 : Nat)

/-- Nothing is recorded for the seconds after the window. -/
def Watched.Past (w : Watched) : Prop :=
  ∀ s, w.stats = some s → ∀ second, s.updateTime < second → w.log second = ⟨0, 0⟩

/-! ### Buckets and totals -/

/-- Beyond the deque there is nothing. -/
theorem HealthStats.bucketAt_of_le {s : HealthStats} {i : Nat} (h : s.buckets.length ≤ i) :
    s.bucketAt i = ⟨0, 0⟩ := by
  rw [bucketAt, List.getElem?_eq_none (by simpa using h), Option.getD_none]

/-- The sum over a list, as a sum over the positions of any range that
covers it. -/
theorem sum_map_eq_sum_range (count : StatsBucket → Nat) (hzero : count ⟨0, 0⟩ = 0) :
    ∀ (bs : List StatsBucket) (n : Nat), bs.length ≤ n →
      (bs.map count).sum = ∑ i ∈ Finset.range n, count (bs[i]?.getD ⟨0, 0⟩) := by
  intro bs
  induction bs with
  | nil =>
      intro n _
      simp [hzero]
  | cons b bs ih =>
      intro n hn
      cases n with
      | zero => simp at hn
      | succ n =>
          rw [Finset.sum_range_succ', List.map_cons, List.sum_cons,
            ih n (by simpa using hn), Nat.add_comm]
          rfl

/-- A total over the buckets is the sum over any window that covers
them. -/
theorem HealthStats.total_eq (s : HealthStats) (count : StatsBucket → Nat)
    (hzero : count ⟨0, 0⟩ = 0) {n : Nat} (hn : s.buckets.length ≤ n) :
    s.total count = ∑ i ∈ Finset.range n, count (s.bucketAt i) := by
  have hsum : s.total count = (s.buckets.map count).sum := by
    rw [List.sum_eq_foldl, List.foldl_map]
    rfl
  show _ = ∑ i ∈ Finset.range n, count (s.buckets.reverse[i]?.getD ⟨0, 0⟩)
  rw [hsum, ← sum_map_eq_sum_range count hzero _ n (by simpa using hn), List.map_reverse,
    List.sum_reverse]

/-- Where the buckets that exist are those of the log, a total is
right exactly when the log has nothing to count in the rest of the
window. The deque may be shorter than the window. -/
theorem total_eq_windowSum_iff {s : HealthStats} {log : Log}
    (count : StatsBucket → Nat) (hzero : count ⟨0, 0⟩ = 0)
    (hbounded : s.buckets.length ≤ s.maxBuckets)
    (hbucket : ∀ i < s.buckets.length, s.bucketAt i = log (s.updateTime - i)) :
    s.total count = windowSum count log s.maxBuckets s.updateTime ↔
      ∀ i : Nat, i < s.maxBuckets →
        count (s.bucketAt i) = count (log (s.updateTime - i)) := by
  -- No summand over the deque exceeds that over the log, so the sums are
  -- equal exactly when all summands are.
  rw [s.total_eq count hzero (n := s.maxBuckets.toNat) (by omega), windowSum,
    Finset.sum_eq_sum_iff_of_le]
  · constructor
    · intro h i hi
      exact h i (Finset.mem_range.mpr (by omega))
    · intro h i hi
      exact h i (by have := Finset.mem_range.mp hi; omega)
  · intro i _
    by_cases hi : i < s.buckets.length
    · rw [hbucket i hi]
    · rw [HealthStats.bucketAt_of_le (by omega), hzero]
      exact Nat.zero_le _

/-- The sliding window, bucket by bucket: the log agrees with the
deque in each of the last `maxBuckets` seconds. In this form the
totals are no longer mentioned. -/
theorem slidingWindow_iff_bucketAt {s : HealthStats} {log : Log} :
    SlidingWindow s log ↔
      s.buckets ≠ [] ∧ s.buckets.length ≤ s.maxBuckets ∧
        ∀ i : Nat, i < s.maxBuckets → log (s.updateTime - i) = s.bucketAt i := by
  constructor
  · intro h
    refine ⟨h.nonempty, h.bounded, fun i hi => ?_⟩
    have hsuccess := (total_eq_windowSum_iff StatsBucket.nSuccess rfl h.bounded
      h.bucket).mp h.totalSuccess i hi
    have hfail := (total_eq_windowSum_iff StatsBucket.nFail rfl h.bounded
      h.bucket).mp h.totalFail i hi
    exact StatsBucket.ext hsuccess.symm hfail.symm
  · rintro ⟨hne, hbounded, hlog⟩
    have hbucket : ∀ i < s.buckets.length, s.bucketAt i = log (s.updateTime - i) :=
      fun i hi => (hlog i (by omega)).symm
    refine ⟨hne, hbounded, hbucket, ?_, ?_⟩
    · exact (total_eq_windowSum_iff _ rfl hbounded hbucket).mpr
        fun i hi => by rw [hlog i hi]
    · exact (total_eq_windowSum_iff _ rfl hbounded hbucket).mpr
        fun i hi => by rw [hlog i hi]

/-! ### One step -/

/-- The buckets after `UpdateBuckets`: those `i` places from the back
stay there, as long as enough older ones were left to erase. -/
theorem HealthStats.bucketAt_updateBuckets {s : HealthStats} {now : Int}
    (h : s.updateTime ≤ now) (i : Nat) :
    (s.updateBuckets now).bucketAt i =
      if i + (now - s.updateTime).toNat < s.buckets.length then s.bucketAt i else ⟨0, 0⟩ := by
  rw [bucketAt, updateBuckets_buckets h, List.reverse_drop, List.getElem?_take]
  by_cases hi : i + (now - s.updateTime).toNat < s.buckets.length
  · rw [if_pos (by omega), if_pos hi]
    rfl
  · rw [if_neg (by omega), if_neg hi]
    rfl

/-- The bucket behind the front ones is the one at the back. -/
theorem HealthStats.bucketAt_zero {s : HealthStats} {front : List StatsBucket}
    {back : StatsBucket} (h : s.buckets = front ++ [back]) : s.bucketAt 0 = back := by
  rw [bucketAt, h, List.reverse_append]
  rfl

/-- Each second that has elapsed costs a bucket, so one is left where
there were more of them than seconds. -/
theorem HealthStats.updateBuckets_ne_nil_iff {s : HealthStats} {now : Int} :
    (s.updateBuckets now).buckets ≠ [] ↔
      s.buckets ≠ [] ∧ now - s.updateTime < s.buckets.length := by
  rw [← List.length_pos_iff, ← List.length_pos_iff]
  by_cases hle : now ≤ s.updateTime
  · rw [updateBuckets_of_le hle]
    omega
  · rw [updateBuckets_of_lt (by omega), List.length_drop]
    omega

/-- The back bucket after the elapsed seconds is the one of before, as
buckets are erased at the front. -/
theorem HealthStats.bucketAt_zero_updateBuckets {s : HealthStats} {now : Int}
    (h : (s.updateBuckets now).buckets ≠ []) :
    (s.updateBuckets now).bucketAt 0 = s.bucketAt 0 := by
  obtain ⟨-, hleft⟩ := updateBuckets_ne_nil_iff.mp h
  by_cases hle : now ≤ s.updateTime
  · rw [updateBuckets_of_le hle]
  · rw [bucketAt_updateBuckets (by omega), if_pos (by omega)]

/-- Where every bucket is the one `d` places older, if that one stays
in the deque, the emptiness of the buckets beyond the deque spreads to
the back. The induction is on the distance from the front, in strides
of `d`. -/
theorem empty_of_shift {s : HealthStats} {d : Nat} (hd : 0 < d)
    (hbounded : s.buckets.length ≤ s.maxBuckets)
    (hshift : ∀ i : Nat, (i : Int) + d < s.maxBuckets → s.bucketAt i =
      if i + d + d < s.buckets.length then s.bucketAt (i + d) else ⟨0, 0⟩) :
    ∀ k i : Nat, s.buckets.length ≤ i + k → (i : Int) + d < s.maxBuckets →
      s.bucketAt i = ⟨0, 0⟩ := by
  intro k
  induction k with
  | zero =>
      intro i hi _
      exact HealthStats.bucketAt_of_le hi
  | succ k ih =>
      intro i hi hmax
      rw [hshift i hmax]
      by_cases hin : i + d + d < s.buckets.length
      · rw [if_pos hin, ih (i + d) (by omega) (by omega)]
      · rw [if_neg hin]

/-- The window slides past `UpdateBuckets` exactly when no second
passed, or some buckets are left and all that stay inside the window
are empty. -/
theorem slidingWindow_updateBuckets {s : HealthStats} {log : Log} {now : Int}
    (hs : SlidingWindow s log)
    (hpast : ∀ second, s.updateTime < second → log second = ⟨0, 0⟩)
    (hle : s.updateTime ≤ now) :
    SlidingWindow (s.updateBuckets now) log ↔
      now = s.updateTime ∨
        now - s.updateTime < s.buckets.length ∧
          ∀ i : Nat, i + (now - s.updateTime) < s.maxBuckets → s.bucketAt i = ⟨0, 0⟩ := by
  obtain ⟨hne, hbounded, hlog⟩ := slidingWindow_iff_bucketAt.mp hs
  rcases Int.le_iff_eq_or_lt.mp hle with heq | hlt
  · rw [HealthStats.updateBuckets_of_le (by omega)]
    -- No second passed, and nothing changed.
    exact iff_of_true hs (.inl heq.symm)
  obtain ⟨d, hd⟩ := Int.eq_ofNat_of_zero_le (show 0 ≤ now - s.updateTime by omega)
  have hbucket := fun i => HealthStats.bucketAt_updateBuckets hle i
  rw [slidingWindow_iff_bucketAt, HealthStats.updateBuckets_buckets hle,
    HealthStats.updateBuckets_maxBuckets, HealthStats.updateBuckets_updateTime hle]
  simp only [hd, Int.toNat_natCast] at hbucket ⊢
  rw [or_iff_right (by omega), ne_eq, List.drop_eq_nil_iff, List.length_drop]
  constructor
  · rintro ⟨hleft, -, hwindow⟩
    refine ⟨by omega, fun i hi => ?_⟩
    refine empty_of_shift (by omega) hbounded (fun i hi => ?_) s.buckets.length i (by omega) hi
    -- The bucket that is now `d` places older must be the one that was there
    -- before.
    rw [← hbucket (i + d), ← hwindow (i + d) (by omega), ← hlog i (by omega)]
    congr 1
    omega
  · rintro ⟨hleft, hempty⟩
    refine ⟨by omega, by omega, fun i hi => ?_⟩
    have hzero : (s.updateBuckets now).bucketAt i = ⟨0, 0⟩ := by
      rw [hbucket i]
      by_cases hin : i + d < s.buckets.length
      · rw [if_pos hin, hempty i (by omega)]
      · rw [if_neg hin]
    -- The deque has nothing `i` seconds ago, and the log must have nothing
    -- there either.
    rw [hzero]
    by_cases hid : i < d
    · -- A second after the old window.
      exact hpast _ (by omega)
    · obtain ⟨j, rfl⟩ := Nat.exists_eq_add_of_le (Nat.le_of_not_lt hid)
      rw [← hempty j (by omega), ← hlog j (by omega)]
      congr 1
      omega

/-- Counting an outcome in the back bucket and in the second of the
log keeps the window, and does not repair it. The count is the same on
both sides, so what was wrong stays wrong. -/
theorem slidingWindow_record {s s' : HealthStats} {log : Log} {now : Int}
    {add : StatsBucket → Option StatsBucket} {count : StatsBucket → StatsBucket}
    (hcount : Function.Injective count)
    (hadd : ∀ bucket bucket', add bucket = some bucket' → bucket' = count bucket)
    (hle : s.updateTime ≤ now) (h : s.record add now = some s') :
    SlidingWindow s' (Function.update log now (count (log now))) ↔
      SlidingWindow (s.updateBuckets now) log := by
  obtain ⟨front, back, back', hbuckets, hback, rfl⟩ := HealthStats.record_cases h
  obtain rfl := hadd back back' hback
  have htime := HealthStats.updateBuckets_updateTime hle
  generalize s.updateBuckets now = u at hbuckets htime ⊢
  rw [slidingWindow_iff_bucketAt, slidingWindow_iff_bucketAt]
  simp only [HealthStats.bucketAt, hbuckets, htime, List.reverse_append, List.reverse_singleton,
    List.singleton_append, List.length_append, List.length_singleton]
  refine and_congr (by simp) (and_congr_right fun hbounded => forall_congr' fun i => ?_)
  refine forall_congr' fun hi => ?_
  cases i with
  -- The back bucket is that of the second `now`, and both count the outcome
  -- once.
  | zero => simp [hcount.eq_iff]
  | succ i =>
      -- The older buckets and seconds are not touched.
      rw [Function.update_of_ne (by omega)]
      rfl

/-- A count is incremented exactly where the next one fits an
`int`. -/
theorem increment_map {α : Type} (f : Nat → α) (n : Nat) :
    (increment n).map f = if FitsInt (n + 1 : Nat) then some (f (n + 1)) else none := by
  rw [increment]
  split
  · rfl
  · rfl

/-- A call only updates the buckets, or it then counts one outcome,
which is defined exactly where the count stays an `int`. `OnSuccess`
and `OnFail` are the second case with different counters. -/
theorem HealthCall.apply_cases (c : HealthCall) (s : HealthStats) :
    (c.count = none ∧ c.counter = none ∧ c.apply s = some (s.updateBuckets c.now)) ∨
    ∃ count counter add, c.count = some count ∧ Function.Injective count ∧
      c.counter = some counter ∧ c.apply s = s.record add c.now ∧
      ∀ bucket, add bucket =
        if FitsInt (counter bucket + 1 : Nat) then some (count bucket) else none := by
  cases c with
  | isHealthy now => exact .inl ⟨rfl, rfl, rfl⟩
  | onSuccess now =>
      refine .inr ⟨_, _, _, rfl, ?_, rfl, rfl, fun bucket => increment_map _ _⟩
      intro b b' h
      simpa [StatsBucket.ext_iff] using h
  | onFail now =>
      refine .inr ⟨_, _, _, rfl, ?_, rfl, rfl, fun bucket => increment_map _ _⟩
      intro b b' h
      simpa [StatsBucket.ext_iff] using h

/-- When the record of an outcome is defined. It is `back()` on a
deque that is not empty, and an increment that does not overflow. -/
theorem HealthStats.record_isSome_iff {s : HealthStats} {now : Int}
    {add : StatsBucket → Option StatsBucket} {counter : StatsBucket → Nat}
    {count : StatsBucket → StatsBucket}
    (hadd : ∀ bucket, add bucket =
      if FitsInt (counter bucket + 1 : Nat) then some (count bucket) else none) :
    (s.record add now).isSome ↔ (s.updateBuckets now).buckets ≠ [] ∧
      FitsInt (counter ((s.updateBuckets now).bucketAt 0) + 1 : Nat) := by
  constructor
  · intro h
    obtain ⟨s', hs'⟩ := Option.isSome_iff_exists.mp h
    obtain ⟨front, back, back', hbuckets, hback, -⟩ := record_cases hs'
    rw [bucketAt_zero hbuckets]
    refine ⟨by rw [hbuckets]; simp, ?_⟩
    by_contra hfits
    rw [hadd, if_neg hfits] at hback
    cases hback
  · rintro ⟨hne, hfits⟩
    obtain ⟨front, back, hbuckets⟩ := (List.eq_nil_or_concat' _).resolve_left hne
    rw [bucketAt_zero hbuckets] at hfits
    exact record_isSome hbuckets ((hadd back).trans (if_pos hfits))

/-- After a call there is a sliding window exactly when there is one
after the `UpdateBuckets` at its start, and the count that the call
increments stays an `int`. -/
theorem slidingWindow_apply {s : HealthStats} {log : Log} {c : HealthCall}
    (hle : s.updateTime ≤ c.now) :
    (∃ s', c.apply s = some s' ∧ SlidingWindow s' (c.write log)) ↔
      SlidingWindow (s.updateBuckets c.now) log ∧
        ∀ counter, c.counter = some counter →
          FitsInt (counter ((s.updateBuckets c.now).bucketAt 0) + 1 : Nat) := by
  rcases c.apply_cases s with ⟨hcount, hcounter, happly⟩ |
    ⟨count, counter, add, hcount, hinj, hcounter, happly, hadd⟩
  · simp only [happly, HealthCall.write, hcount, hcounter, Option.some.injEq, exists_eq_left',
      reduceCtorEq, false_implies, implies_true, and_true]
  · rw [happly, HealthCall.write, hcount, hcounter]
    simp only [Option.some.injEq, forall_eq']
    have hadd' : ∀ bucket bucket', add bucket = some bucket' → bucket' = count bucket := by
      intro bucket bucket' h
      rw [hadd] at h
      split at h
      · exact (Option.some.inj h).symm
      · cases h
    constructor
    · rintro ⟨s', hrecord, hwindow⟩
      have hsome := Option.isSome_of_eq_some hrecord
      exact ⟨(slidingWindow_record hinj hadd' hle hrecord).mp hwindow,
        ((HealthStats.record_isSome_iff hadd).mp hsome).2⟩
    · rintro ⟨hwindow, hfits⟩
      -- A window has a back bucket, and its count does not overflow.
      obtain ⟨s', hrecord⟩ := Option.isSome_iff_exists.mp
        ((HealthStats.record_isSome_iff hadd).mpr ⟨hwindow.nonempty, hfits⟩)
      exact ⟨s', hrecord, (slidingWindow_record hinj hadd' hle hrecord).mpr hwindow⟩

/-- A call writes to the log only at its own second. -/
theorem HealthCall.write_of_ne {c : HealthCall} {log : Log} {second : Int}
    (h : second ≠ c.now) : c.write log second = log second := by
  cases c with
  | isHealthy now => rfl
  | onSuccess now | onFail now => exact Function.update_of_ne h _ _

/-- A step of the watched window is a call on a defined window, at a
time that is not before the last one. -/
theorem watched_cases {w w' : Watched} {c : HealthCall}
    (h : watchedSystem.step w c = some w') :
    ∃ s, w.stats = some s ∧ s.updateTime ≤ c.now ∧
      w' = { stats := c.apply s, log := c.write w.log } := by
  simp only [watchedSystem] at h
  split at h
  · cases h
  · rename_i s hs
    split at h
    · cases h
    · rename_i htime
      cases h
      exact ⟨s, hs, by omega, rfl⟩

/-- The log stays empty after the window. A call writes at its own
time, which becomes the end of the window. -/
theorem past_step {w w' : Watched} {c : HealthCall} (hpast : w.Past)
    (h : watchedSystem.step w c = some w') : w'.Past := by
  obtain ⟨s, hs, hle, rfl⟩ := watched_cases h
  intro s' hs' second hsecond
  have htime : s'.updateTime = c.now := by
    rcases c.apply_cases s with ⟨-, -, happly⟩ | ⟨count, counter, add, -, -, -, happly, -⟩
    · rw [happly] at hs'
      cases hs'
      exact HealthStats.updateBuckets_updateTime hle
    · rw [happly] at hs'
      obtain ⟨front, back, back', -, -, rfl⟩ := HealthStats.record_cases hs'
      exact HealthStats.updateBuckets_updateTime hle
  show c.write w.log second = ⟨0, 0⟩
  rw [HealthCall.write_of_ne (by omega)]
  exact hpast s hs second (by omega)

/-- The step lemma: from a sliding window, a call leads to one exactly
when it is harmless. It has three parts, in the order of the code: the
buckets are updated, there is a back bucket, and its count can
grow. -/
theorem slides_step {w w' : Watched} {c : HealthCall} (hpast : w.Past) (hslides : w.Slides)
    (h : watchedSystem.step w c = some w') : w'.Slides ↔ w.Harmless c := by
  obtain ⟨s, hs, hle, rfl⟩ := watched_cases h
  obtain ⟨s₀, hs₀, hwindow⟩ := hslides
  cases hs.symm.trans hs₀
  unfold Watched.Slides Watched.Harmless
  simp only [hs, Option.some.injEq, exists_eq_left']
  -- The outcome that the call counts makes no difference to the window while
  -- its count is an `int`, only the seconds that passed do.
  rw [slidingWindow_apply hle, ← slidingWindow_updateBuckets hwindow (hpast s hs) hle]
  refine and_congr_right fun hupdated => ?_
  -- Buckets are erased at the front, so the back bucket is still the one of
  -- before.
  rw [HealthStats.bucketAt_zero_updateBuckets hupdated.nonempty]

/-! ### Runs -/

/-- The buckets are a window of the log of what they hold. -/
theorem slidingWindow_held {s : HealthStats} (hne : s.buckets ≠ [])
    (hbounded : s.buckets.length ≤ s.maxBuckets) : SlidingWindow s s.held := by
  refine slidingWindow_iff_bucketAt.mpr ⟨hne, hbounded, fun i _ => ?_⟩
  rw [HealthStats.held, if_pos (by omega)]
  congr 1
  omega

/-- From a state with between 1 and `maxBuckets` buckets, a run keeps
the sliding window exactly when all its calls are harmless.

The log that the run starts with is what the buckets hold, so nothing
has to be known of how they came to hold it. -/
theorem slidingWindow_iff (s : HealthStats) (hne : s.buckets ≠ [])
    (hbounded : s.buckets.length ≤ s.maxBuckets) (calls : List HealthCall) :
    watchedSystem.Always Watched.Slides { stats := some s, log := s.held } calls ↔
      watchedSystem.EveryStep Watched.Harmless { stats := some s, log := s.held } calls := by
  refine System.always_iff_everyStep (I := Watched.Past)
    (fun w c w' hpast h => past_step hpast h)
    (fun w c w' hpast hslides h => slides_step hpast hslides h) calls ?_ ?_
  · intro s' hs' second hsecond
    cases hs'
    exact if_neg (by omega)
  · exact ⟨s, rfl, slidingWindow_held hne hbounded⟩

/-- One success in the current second, and room for two older
seconds. -/
def oneBucket : HealthStats where
  maxBuckets := 3
  buckets := [⟨1, 0⟩]
  updateTime := 100
  bucketThresh := 1
  healthThresh := 1 / 2

/-- `slidingWindow_iff` for two calls in the second of `oneBucket`. -/
theorem slidingWindow_iff_oneBucket :
    watchedSystem.Always Watched.Slides { stats := some oneBucket, log := oneBucket.held }
      [.onFail 100, .isHealthy 100] := by
  refine (slidingWindow_iff oneBucket (by decide) (by decide) _).mpr ?_
  intro w hw
  cases hw
  refine ⟨⟨oneBucket, rfl, .inl rfl, fun counter h => ?_⟩, fun w hw => ?_⟩
  · cases h
    decide
  · cases hw
    exact ⟨⟨_, rfl, .inl rfl, fun counter h => by cases h⟩, trivial⟩

/-- A success in the current second, none in the second before, and no
room for more. -/
def twoBuckets : HealthStats :=
  { oneBucket with maxBuckets := 2, buckets := [⟨0, 0⟩, ⟨1, 0⟩] }

/-- One second later the success has moved along with the window, to a
second in which nothing was recorded. -/
theorem slidWindow :
    twoBuckets.buckets ≠ [] ∧ twoBuckets.buckets.length ≤ twoBuckets.maxBuckets ∧
      ¬ watchedSystem.Always Watched.Slides { stats := some twoBuckets, log := twoBuckets.held }
        [.isHealthy 101] := by
  refine ⟨by decide, by decide, fun h => ?_⟩
  obtain ⟨s, hs, hwindow⟩ := h.2 _ rfl
  cases hs
  have hbucket := hwindow.bucket 0 (by decide)
  revert hbucket
  decide

/-! ### The empty deque -/

/-- The call records an outcome. -/
def Call.records : Call → Bool
  | .onSuccess _ | .onFail _ => true
  | .isBreak _ _ _ => false

/-- On the empty deque, `UpdateBuckets` keeps it empty. -/
theorem updateBuckets_empty {s : HealthStats} (h : s.buckets = []) (now : Int) :
    (s.updateBuckets now).buckets = [] := by
  by_contra hleft
  exact (HealthStats.updateBuckets_ne_nil_iff.mp hleft).1 h

/-- On the empty deque, a call is defined exactly when it records
nothing, and then it leaves the deque empty. -/
theorem step_empty (conf : CircuitBreakerConf) {b : CircuitBreaker}
    (h : b.healthStats.buckets = []) (c : Call) :
    (c.records = true ∧ (system conf).step b c = none) ∨
    (c.records = false ∧ ∃ b', (system conf).step b c = some b' ∧ b'.healthStats.buckets = []) := by
  cases c with
  | isBreak now healthNow rand =>
      exact .inr ⟨rfl, _, rfl, updateBuckets_empty h healthNow⟩
  | onSuccess now | onFail now =>
      refine .inl ⟨rfl, Option.map_eq_none_iff.mpr ?_⟩
      exact HealthStats.record_eq_none (updateBuckets_empty h now)

/-- A run from the constructed breaker never calls `buckets.back()` on
the empty deque exactly when it records no outcome. The number of
seconds that pass makes no difference, as there is nothing to
erase. -/
theorem defined_iff (conf : CircuitBreakerConf) (now : Int) (calls : List Call) :
    ((system conf).run (.new conf now) calls).isSome ↔ ∀ c ∈ calls, c.records = false := by
  have hgen : ∀ b : CircuitBreaker, b.healthStats.buckets = [] →
      (((system conf).run b calls).isSome ↔ ∀ c ∈ calls, c.records = false) := by
    induction calls with
    | nil =>
        intro b _
        simp [System.run]
    | cons c calls ih =>
        intro b hb
        simp only [System.run, List.foldlM_cons, List.forall_mem_cons] at ih ⊢
        rcases step_empty conf hb c with ⟨hc, hstep⟩ | ⟨hc, b', hstep, hb'⟩
        · simp [hstep, hc]
        · simp only [hstep, hc, true_and]
          exact ih b' hb'
  exact hgen _ rfl

/-- A breaker with a window of five seconds, whose first outcome is
already undefined. -/
def fiveSeconds : CircuitBreakerConf where
  breakPeriod := 10
  recoverPeriod := 20
  winSize := 5
  minStats := 1
  healthRate := 50

/-- The first recorded outcome is undefined. -/
theorem firstSuccess : (system fiveSeconds).run (.new fiveSeconds 100) [.onSuccess 100] = none := by
  decide

end Bigpipe.Client
