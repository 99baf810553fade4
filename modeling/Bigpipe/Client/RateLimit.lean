import Mathlib.Data.Rat.Floor

/-!
# `Bigpipe.Client.RateLimit`: the token bucket

The class `TokenBucket` of `client/rate_limit.h`. A reading of
`steady_clock` is a number of nanoseconds, and `double`s are exact
rationals. `GetToken` holds the mutex throughout, so the calls of any
number of threads are one sequence. A call returns at the reading that
it takes in `tryFillBucket`, or after its sleep.

The capacity is named a bound on the tokens, and the source takes the
larger one of the two numbers where a bound would be the smaller one.
A bucket is therefore never below its capacity after it was filled,
and grows beyond it. The definitions follow the source in this, and in
the wait, which divides before it subtracts.
-/

set_option autoImplicit false

namespace Bigpipe.Client

/-- The fields of `TokenBucket`. A time is a reading of `steady_clock`
in nanoseconds, and `tokenPerMicroSecond` is what the field is called
in the source. -/
structure TokenBucket where
  lastFillTime : Int
  tokenPerMicroSecond : ℚ
  tokenCount : ℚ
  capacity : ℚ
  deriving DecidableEq

namespace TokenBucket

/-- The constructor, at the reading `now`. The bucket starts full,
with as many tokens as it gets in a second. -/
def new (rate : ℚ) (now : Int) : TokenBucket where
  lastFillTime := now
  tokenPerMicroSecond := rate / 1000000
  tokenCount := rate
  capacity := rate

/-- `tryFillBucket`. The `duration_cast` to microseconds truncates.
The new count is the larger one of the capacity and what has accrued:
`std::max` in the source. -/
def tryFillBucket (b : TokenBucket) (now : Int) : TokenBucket :=
  let passedTime := now - b.lastFillTime
  let passedMs := passedTime.tdiv 1000
  { b with
    tokenCount := max (passedMs * b.tokenPerMicroSecond + b.tokenCount) b.capacity
    lastFillTime := now }

/-- The milliseconds that `GetToken` sleeps for `count` tokens, `none`
where the conversion to `int` is undefined. The quotient is taken of
the tokens in the bucket alone, and is subtracted from the count. -/
def waittime (b : TokenBucket) (count : Int) : Option Int :=
  let wait := ⌊|(count : ℚ) - b.tokenCount / b.tokenPerMicroSecond|⌋
  if wait < 2 ^ 31 then some wait else none

/-- `GetToken`: the bucket after the call and the time at which it
returns. Where the tokens do not suffice, it sleeps, and then leaves
an empty bucket without looking at the clock again. -/
def getToken (b : TokenBucket) (now count : Int) : Option (TokenBucket × Int) :=
  let b := b.tryFillBucket now
  if b.tokenCount ≥ count then some ({ b with tokenCount := b.tokenCount - count }, now)
  -- The caller sleeps under the mutex, and the bucket is empty afterwards.
  else (b.waittime count).map fun waittime =>
    ({ b with tokenCount := 0 }, now + waittime * 1000000)

end TokenBucket

/-- A call of `GetToken`, with the reading of the clock in
`tryFillBucket`. The clock is read once a call, under the mutex. -/
structure GetTokenCall where
  now : Int
  count : Int
  deriving DecidableEq, Repr

/-- The returns of a run of calls: the time and the count of each, in
their order. It ends where the sleep of a call is undefined. -/
def TokenBucket.returns (b : TokenBucket) : List GetTokenCall → Option (List (Int × Int))
  | [] => some []
  | c :: calls =>
    (b.getToken c.now c.count).bind fun (b, time) =>
      (b.returns calls).map ((time, c.count) :: ·)

end Bigpipe.Client
