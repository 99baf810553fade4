import Bigpipe.Client.CircuitBreaker
import Mathlib.Data.List.Pairwise

/-!
# `Bigpipe.Proofs.CircuitBreaker`: the timeline of the circuit breaker

A trip moves the status to `CIRCUIT_BREAK`. It blocks every call for
`breakPeriod`, and keeps the status from `CIRCUIT_NORMAL` for
`breakPeriod + recoverPeriod`, whatever the health window says and
`rand()` draws.

The health window is left out at first. A run of the switch is a list
of calls, each with a time, a verdict and a draw, and all three are
arbitrary but for the order of the times. What is shown of such runs
holds of the whole breaker, whose verdicts are some verdicts.

From a trip on, the invariant is about two numbers: the time of the
trip and that of the last call. The status can be past `CIRCUIT_BREAK`
only if the break period has passed between them, and normal only if
both have. A second trip while the breaker recovers starts both
periods anew, at a later time, so what the first trip asks for is
still kept.

* `Switch` and `switch_cases`: what the switch of `IsBreak` can do.
* `AfterTrip` and `afterTrip_step`: what holds from a trip on.
* `timeline`: the timeline of every run at non-decreasing times.
* `trace_isBreakCalls` and `timeline_of_run`: the `IsBreak` calls of a
  run of the whole breaker are such a run.
-/

set_option autoImplicit false

namespace Bigpipe.Client

/-! ### Runs of the switch -/

/-- A call of `IsBreak`: its time, the verdict of `IsHealthy` and the
draw of `rand()`. -/
structure IsBreakCall where
  now : Int
  healthy : Bool
  rand : Nat
  deriving DecidableEq, Repr

/-- One call of a run: the circuit before it, the call, its answer and
the circuit after it. -/
structure IsBreakStep where
  before : Circuit
  call : IsBreakCall
  ret : Bool
  after : Circuit
  deriving DecidableEq, Repr

/-- The call on the circuit `b`. -/
def IsBreakCall.on (c : IsBreakCall) (b : Circuit) : IsBreakStep :=
  let (after, ret) := b.switchStatus c.now c.healthy c.rand
  { before := b, call := c, ret, after }

/-- The run that the calls take from the circuit. -/
def Circuit.trace (b : Circuit) : List IsBreakCall → List IsBreakStep
  | [] => []
  | c :: calls => c.on b :: (c.on b).after.trace calls

theorem Circuit.trace_cons (b : Circuit) (c : IsBreakCall) (calls : List IsBreakCall) :
    b.trace (c :: calls) = c.on b :: (c.on b).after.trace calls := rfl

/-- The call moved the status to `CIRCUIT_BREAK`. -/
def IsBreakStep.trips (x : IsBreakStep) : Prop :=
  x.before.status ≠ .circuitBreak ∧ x.after.status = .circuitBreak

/-- The changes of the status that the switch makes. There is no way
from a broken circuit to a normal one but through the recovery. -/
inductive StatusChange : CircuitStatus → CircuitStatus → Prop where
  | trip : StatusChange .circuitNormal .circuitBreak
  | recover : StatusChange .circuitBreak .circuitRecover
  | retrip : StatusChange .circuitRecover .circuitBreak
  | restore : StatusChange .circuitRecover .circuitNormal

/-- The timeline of a run. It is stated of pairs of calls in the order
of the run, so the times of two trips are never confused. -/
structure Timeline (breakPeriod recoverPeriod : Int) (run : List IsBreakStep) : Prop where
  /-- A trip answers true, and the timeline starts at its time. -/
  trips : ∀ x ∈ run, x.trips → x.ret = true ∧ x.after.breakTime = x.call.now
  /-- After a trip, the calls in the break period answer true. -/
  blocks : run.Pairwise fun x y =>
    x.trips → y.call.now < x.call.now + breakPeriod → y.ret = true
  /-- After a trip, the status is normal again only after both
  periods. -/
  restores : run.Pairwise fun x y =>
    x.trips → y.after.status = .circuitNormal →
      x.call.now + breakPeriod + recoverPeriod ≤ y.call.now
  /-- The status changes only in these ways. -/
  changes : ∀ x ∈ run, x.before.status = x.after.status ∨
    StatusChange x.before.status x.after.status

/-! ### One call -/

/-- What a call can do: one constructor for each branch of the switch.
What the branches do not say, as which draws are admitted, is not
needed for the timeline. -/
inductive Switch (b : Circuit) (c : IsBreakCall) : Circuit → Bool → Prop where
  | normal (hs : b.status = .circuitNormal) : Switch b c b false
  | trip (hs : b.status = .circuitNormal ∨ b.status = .circuitRecover)
      (hc : c.healthy = false) :
      Switch b c { b with status := .circuitBreak, breakTime := c.now } true
  | blocked (hs : b.status = .circuitBreak) : Switch b c b true
  | recover (hs : b.status = .circuitBreak) (ht : b.breakPeriod ≤ c.now - b.breakTime) :
      Switch b c { b with status := .circuitRecover } false
  | restore (hs : b.status = .circuitRecover)
      (ht : addInt b.breakPeriod b.recoverPeriod ≤ c.now - b.breakTime) :
      Switch b c { b with status := .circuitNormal } false
  | partly (hs : b.status = .circuitRecover) (ret : Bool) : Switch b c b ret
  | none (hs : b.status = .circuitNone) : Switch b c b false

/-- Every call takes one of the branches of the `switch`. The
conditions of a branch are those of the code, with the case above it
excluded. -/
theorem switch_cases (b : Circuit) (c : IsBreakCall) :
    Switch b c (c.on b).after (c.on b).ret := by
  simp only [IsBreakCall.on, Circuit.switchStatus]
  cases hs : b.status with
  | circuitNone => exact .none hs
  | circuitNormal =>
      by_cases hc : c.healthy = false
      · simp only [hc, if_true]
        exact .trip (.inl hs) hc
      · simp only [hc]
        exact .normal hs
  | circuitBreak =>
      by_cases hbreak : c.now - b.breakTime < b.breakPeriod ∨ c.healthy = false
      · simp only [hbreak, if_true]
        exact .blocked hs
      · simp only [hbreak, if_false]
        exact .recover hs (by omega)
  | circuitRecover =>
      by_cases hc : c.healthy = false
      · simp only [hc, if_true]
        exact .trip (.inr hs) hc
      · simp only [hc]
        by_cases ht : c.now - b.breakTime ≥ addInt b.breakPeriod b.recoverPeriod
        · simp only [ht, if_true]
          exact .restore hs ht
        · simp only [ht, if_false]
          exact .partly hs _

/-- What holds of the circuit from a trip at the time `t` on. `last`
is the time of the last call. -/
structure AfterTrip (breakPeriod recoverPeriod t last : Int) (b : Circuit) : Prop where
  breakPeriod_eq : b.breakPeriod = breakPeriod
  recoverPeriod_eq : b.recoverPeriod = recoverPeriod
  status : b.status ≠ .circuitNone
  breakTime : t ≤ b.breakTime
  left : b.status ≠ .circuitBreak → t + breakPeriod ≤ last
  normal : b.status = .circuitNormal → t + breakPeriod + recoverPeriod ≤ last

variable {breakPeriod recoverPeriod t last : Int} {b : Circuit} {c : IsBreakCall}

/-- A trip starts the timeline at its own time. Both branches that
trip assign `breakTime = now` and answer true. -/
theorem afterTrip_of_trips (hbreak : b.breakPeriod = breakPeriod)
    (hrecover : b.recoverPeriod = recoverPeriod) (h : (c.on b).trips) :
    (c.on b).ret = true ∧ (c.on b).after.breakTime = c.now ∧
      AfterTrip breakPeriod recoverPeriod c.now c.now (c.on b).after := by
  obtain ⟨hbefore, hafter⟩ := h
  have hb : (c.on b).before = b := rfl
  have hsw := switch_cases b c
  rw [hb] at hbefore
  generalize (c.on b).after = b' at hafter hsw ⊢
  generalize (c.on b).ret = ret at hsw ⊢
  cases hsw with
  | trip => exact ⟨rfl, rfl, hbreak, hrecover, nofun, Int.le_refl _, fun h => absurd rfl h, nofun⟩
  | normal | blocked | partly | none => exact absurd hafter hbefore
  | recover | restore => cases hafter

/-- The step lemma: a call at a later time keeps what holds from the
trip on, and answers true in the break period. -/
theorem afterTrip_step (hsum : FitsInt (breakPeriod + recoverPeriod))
    (h : AfterTrip breakPeriod recoverPeriod t last b) (hlast : last ≤ c.now) (ht : t ≤ c.now) :
    (c.now < t + breakPeriod → (c.on b).ret = true) ∧
      AfterTrip breakPeriod recoverPeriod t c.now (c.on b).after := by
  obtain ⟨hbreak, hrecover, hstatus, htime, hleft, hnormal⟩ := h
  -- The source adds the periods as `int`s, which is exact where the sum fits.
  have hadd : addInt b.breakPeriod b.recoverPeriod = breakPeriod + recoverPeriod := by
    rw [hbreak, hrecover]
    exact addInt_eq hsum
  have hsw := switch_cases b c
  generalize (c.on b).after = b' at hsw ⊢
  generalize (c.on b).ret = ret at hsw ⊢
  cases hsw with
  | none hs => exact absurd hs hstatus
  | normal hs =>
      have hl := hleft (by rw [hs]; nofun)
      have hn := hnormal hs
      exact ⟨fun hlt => by omega, hbreak, hrecover, hstatus, htime, fun _ => by omega,
        fun _ => by omega⟩
  | trip hs hc =>
      exact ⟨fun _ => rfl, hbreak, hrecover, nofun, ht, fun h => absurd rfl h, nofun⟩
  | blocked hs =>
      exact ⟨fun _ => rfl, hbreak, hrecover, hstatus, htime, fun h => absurd hs h,
        fun h => by rw [hs] at h; cases h⟩
  | recover hs hp =>
      exact ⟨fun hlt => by omega, hbreak, hrecover, nofun, htime, fun _ => by omega, nofun⟩
  | restore hs hp =>
      have hl := hleft (by rw [hs]; nofun)
      refine ⟨fun hlt => by omega, hbreak, hrecover, nofun, htime, fun _ => by omega, ?_⟩
      intro _
      -- Both periods have passed since the last trip, which was not before
      -- `t`.
      show t + breakPeriod + recoverPeriod ≤ c.now
      omega
  | partly hs =>
      have hl := hleft (by rw [hs]; nofun)
      exact ⟨fun hlt => by omega, hbreak, hrecover, hstatus, htime, fun _ => by omega,
        fun h => by rw [hs] at h; cases h⟩

/-- A call changes the status in one of the four ways, or not at all,
and never the periods. -/
theorem on_changes (b : Circuit) (c : IsBreakCall) :
    (b.status = (c.on b).after.status ∨ StatusChange b.status (c.on b).after.status) ∧
      (c.on b).after.breakPeriod = b.breakPeriod ∧
      (c.on b).after.recoverPeriod = b.recoverPeriod := by
  have hsw := switch_cases b c
  generalize (c.on b).after = b' at hsw ⊢
  generalize (c.on b).ret = ret at hsw
  cases hsw with
  | normal | blocked | partly | none => exact ⟨.inl rfl, rfl, rfl⟩
  | recover hs => exact ⟨.inr (by rw [hs]; exact .recover), rfl, rfl⟩
  | restore hs => exact ⟨.inr (by rw [hs]; exact .restore), rfl, rfl⟩
  | trip hs =>
      refine ⟨.inr ?_, rfl, rfl⟩
      rcases hs with hs | hs
      · rw [hs]
        exact .trip
      · rw [hs]
        exact .retrip

/-! ### Runs -/

/-- The run lemma from a trip on. It is by induction on the calls,
with the time of the last one, which the clock does not fall
behind. -/
theorem afterTrip_trace (hsum : FitsInt (breakPeriod + recoverPeriod)) :
    ∀ (calls : List IsBreakCall) (last : Int) (b : Circuit),
      AfterTrip breakPeriod recoverPeriod t last b → t ≤ last →
      (∀ c ∈ calls, last ≤ c.now) → calls.Pairwise (fun c d => c.now ≤ d.now) →
      ∀ y ∈ b.trace calls,
        (y.call.now < t + breakPeriod → y.ret = true) ∧
        (y.after.status = .circuitNormal → t + breakPeriod + recoverPeriod ≤ y.call.now) := by
  intro calls
  induction calls with
  | nil =>
      intro last b _ _ _ _ y hy
      cases hy
  | cons c calls ih =>
      intro last b hafter ht hlast hsorted y hy
      rw [Circuit.trace_cons] at hy
      have hc : last ≤ c.now := hlast c List.mem_cons_self
      obtain ⟨hfirst, hsorted⟩ := List.pairwise_cons.mp hsorted
      -- The first call answers as it should, and the rest of the run starts
      -- after it.
      obtain ⟨hret, hnext⟩ := afterTrip_step hsum hafter hc (Int.le_trans ht hc)
      rcases List.mem_cons.mp hy with rfl | hy
      · exact ⟨hret, hnext.normal⟩
      · exact ih c.now _ hnext (Int.le_trans ht hc) hfirst hsorted y hy

/-- Every run of the switch at non-decreasing times has its timeline.
The induction is on the calls: the first of them may be a trip, and
then the rest of the run is after it. -/
theorem timeline_trace (hsum : FitsInt (breakPeriod + recoverPeriod)) :
    ∀ (calls : List IsBreakCall) (b : Circuit), b.breakPeriod = breakPeriod →
      b.recoverPeriod = recoverPeriod → calls.Pairwise (fun c d => c.now ≤ d.now) →
      Timeline breakPeriod recoverPeriod (b.trace calls) := by
  intro calls
  induction calls with
  | nil =>
      intro b _ _ _
      exact ⟨fun x hx => absurd hx List.not_mem_nil, .nil, .nil,
        fun x hx => absurd hx List.not_mem_nil⟩
  | cons c calls ih =>
      intro b hbreak hrecover hsorted
      obtain ⟨hfirst, hsorted⟩ := List.pairwise_cons.mp hsorted
      obtain ⟨hchange, hbreak', hrecover'⟩ := on_changes b c
      have hrest := ih (c.on b).after (hbreak'.trans hbreak) (hrecover'.trans hrecover) hsorted
      -- From a trip at the first call on, the run lemma speaks of the rest.
      have hlater : (c.on b).trips → ∀ y ∈ (c.on b).after.trace calls,
          (y.call.now < c.now + breakPeriod → y.ret = true) ∧
          (y.after.status = .circuitNormal →
            c.now + breakPeriod + recoverPeriod ≤ y.call.now) := by
        intro htrips
        obtain ⟨-, -, hafter⟩ := afterTrip_of_trips hbreak hrecover htrips
        exact afterTrip_trace hsum calls c.now _ hafter (Int.le_refl _) hfirst hsorted
      rw [Circuit.trace_cons]
      refine ⟨?_, ?_, ?_, ?_⟩
      · intro x hx htrips
        rcases List.mem_cons.mp hx with rfl | hx
        · obtain ⟨hret, htime, -⟩ := afterTrip_of_trips hbreak hrecover htrips
          exact ⟨hret, htime⟩
        · exact hrest.trips x hx htrips
      · exact .cons (fun y hy htrips => (hlater htrips y hy).1) hrest.blocks
      · exact .cons (fun y hy htrips => (hlater htrips y hy).2) hrest.restores
      · intro x hx
        rcases List.mem_cons.mp hx with rfl | hx
        · exact hchange
        · exact hrest.changes x hx

/-- Every run of `IsBreak` calls from the constructed circuit at
non-decreasing times has its timeline, whatever the verdicts of
`IsHealthy` and the draws of `rand()` are. The sum of the periods has
to be an `int`, since the code adds them. -/
theorem timeline (conf : CircuitBreakerConf)
    (hsum : FitsInt (conf.breakPeriod + conf.recoverPeriod)) (calls : List IsBreakCall)
    (hsorted : calls.Pairwise fun c d => c.now ≤ d.now) :
    Timeline conf.breakPeriod conf.recoverPeriod ((Circuit.new conf).trace calls) :=
  timeline_trace hsum calls _ rfl rfl hsorted

/-- A breaker with a break period of 10 and a recovery of 20
seconds. -/
def tenTwenty : CircuitBreakerConf where
  breakPeriod := 10
  recoverPeriod := 20
  winSize := 5
  minStats := 1
  healthRate := 50

/-- `timeline` for a trip, a blocked call, a recovery, a second trip
and a blocked call. -/
theorem timeline_tenTwenty :
    Timeline 10 20 ((Circuit.new tenTwenty).trace
      [⟨100, false, 0⟩, ⟨109, true, 0⟩, ⟨110, true, 0⟩, ⟨115, false, 0⟩, ⟨124, true, 7⟩]) :=
  timeline tenTwenty (by decide) _ (by decide)

/-! ### The whole breaker -/

/-- The `IsBreak` calls of a run of the breaker, each with the verdict
that its health window gives. The run ends where a call is not
defined. -/
def CircuitBreaker.isBreakCalls (b : CircuitBreaker) : List Call → List IsBreakCall
  | [] => []
  | .isBreak now healthNow rand :: calls =>
    ⟨now, (b.healthStats.isHealthy healthNow).2.1, rand⟩ ::
      (b.isBreak now healthNow rand).1.isBreakCalls calls
  | .onSuccess now :: calls => (b.onSuccess now).elim [] fun b => b.isBreakCalls calls
  | .onFail now :: calls => (b.onFail now).elim [] fun b => b.isBreakCalls calls

/-- What the `IsBreak` calls of a run of the breaker answer and do. It
ends at the first record that is undefined. The verdict that a call
uses is the one of the breaker's own window at its own reading of the
clock. -/
def CircuitBreaker.trace (b : CircuitBreaker) : List Call → List IsBreakStep
  | [] => []
  | .isBreak now healthNow rand :: calls =>
    let (b', ret) := b.isBreak now healthNow rand
    { before := b.toCircuit, call := ⟨now, (b.healthStats.isHealthy healthNow).2.1, rand⟩,
      ret, after := b'.toCircuit } :: b'.trace calls
  | .onSuccess now :: calls => (b.onSuccess now).elim [] fun b => b.trace calls
  | .onFail now :: calls => (b.onFail now).elim [] fun b => b.trace calls

/-- The time of an `IsBreak` call. -/
def Call.isBreakTime : Call → Option Int
  | .isBreak now _ _ => some now
  | .onSuccess _ | .onFail _ => none

/-- Recording an outcome does not touch the circuit. -/
theorem recorded_toCircuit {b b' : CircuitBreaker} {recorded : Option HealthStats}
    (h : (recorded.map fun healthStats => { b with healthStats }) = some b') :
    b'.toCircuit = b.toCircuit := by
  obtain ⟨healthStats, -, rfl⟩ := Option.map_eq_some_iff.mp h
  rfl

/-- After an outcome is recorded, the rest of the run is the rest of a
run of the switch. -/
theorem trace_recorded {b : CircuitBreaker} {recorded : Option HealthStats} {calls : List Call}
    (ih : ∀ b : CircuitBreaker, b.trace calls = b.toCircuit.trace (b.isBreakCalls calls)) :
    (recorded.map fun healthStats => { b with healthStats }).elim [] (fun b => b.trace calls) =
      b.toCircuit.trace ((recorded.map fun healthStats => { b with healthStats }).elim []
        fun b => b.isBreakCalls calls) := by
  cases h : recorded.map fun healthStats => { b with healthStats } with
  | none => rfl
  | some b' =>
      show b'.trace calls = b.toCircuit.trace (b'.isBreakCalls calls)
      rw [ih, recorded_toCircuit h]

/-- The `IsBreak` calls of a run of the breaker are a run of the
switch. The verdicts are those of the window at the time, and the
calls in between change the window only. -/
theorem trace_isBreakCalls :
    ∀ (calls : List Call) (b : CircuitBreaker),
      b.trace calls = b.toCircuit.trace (b.isBreakCalls calls) := by
  intro calls
  induction calls with
  | nil => intro b; rfl
  | cons c calls ih =>
      intro b
      cases c with
      | isBreak now healthNow rand =>
          show _ :: (b.isBreak now healthNow rand).1.trace calls = _
          rw [ih]
          rfl
      | onSuccess now | onFail now => exact trace_recorded ih

/-- The times of the `IsBreak` calls of a run, in their order. It is a
sublist, as the calls behind an undefined one are not made. -/
theorem isBreakCalls_now :
    ∀ (calls : List Call) (b : CircuitBreaker),
      ((b.isBreakCalls calls).map IsBreakCall.now).Sublist (calls.filterMap Call.isBreakTime) := by
  intro calls
  induction calls with
  | nil => intro b; exact .slnil
  | cons c calls ih =>
      intro b
      -- After an outcome is recorded, or without one, the rest has the times
      -- of the rest.
      have hrecorded : ∀ recorded : Option CircuitBreaker,
          ((recorded.elim [] fun b => b.isBreakCalls calls).map IsBreakCall.now).Sublist
            (calls.filterMap Call.isBreakTime) := by
        intro recorded
        cases recorded with
        | none => exact List.nil_sublist _
        | some b' => exact ih b'
      cases c with
      | isBreak now healthNow rand => exact .cons_cons _ (ih _)
      | onSuccess now | onFail now => exact hrecorded _

/-- Every run of a breaker, with the verdicts of its own health
window, has its timeline. It is `timeline` along the simulation of
`trace_isBreakCalls`. -/
theorem timeline_of_run (conf : CircuitBreakerConf)
    (hsum : FitsInt (conf.breakPeriod + conf.recoverPeriod)) (now : Int) (calls : List Call)
    (hsorted : (calls.filterMap Call.isBreakTime).Pairwise (· ≤ ·)) :
    Timeline conf.breakPeriod conf.recoverPeriod
      ((CircuitBreaker.new conf now).trace calls) := by
  rw [trace_isBreakCalls]
  refine timeline_trace hsum _ _ rfl rfl ?_
  exact List.pairwise_map.mp (hsorted.sublist (isBreakCalls_now calls _))

end Bigpipe.Client
