import Bigpipe.Proofs.CircuitBreaker
import Mathlib.Algebra.Order.Field.Basic
import Mathlib.Tactic.Positivity

/-!
# `Bigpipe.Proofs.Recovery`: the breaker while it recovers

From `CIRCUIT_RECOVER` on, a breaker that sees healthy verdicts
compares the draw of `rand()` with the percentage of both periods that
has passed, and is normal after them.

The percentage counts from the trip, and not from the start of the
recovery. So the ramp begins at the share of the break period, and it
grows with the time as long as nothing moves `breakTime`. Only a trip
does, and there is none while the verdicts are healthy. So whether a
draw is admitted depends on the time alone, and what is open stays
open.

The ramp divides by the sum of the periods. It does so only while some
of that sum is left, so the sum is positive.

* `ret_eq_false_iff`: a call admits exactly the draws that are open at
  its time.
* `recovered_step` and `recovered_trace`: a call, and so a run, keeps
  the start of the ramp and both periods, and never leaves
  `CIRCUIT_NORMAL`.
* `Circuit.Open.mono`: what is open stays open.
* `recoveryOnlyOpens`: so a draw that was admitted is admitted from
  then on, and the ramp never divides by zero.
-/

set_option autoImplicit false

namespace Bigpipe.Client

variable {b b' b'' : Circuit} {c : IsBreakCall} {now now' : Int} {r : Nat}

/-- The status is one in which healthy calls may be admitted. -/
def Circuit.Recovering (b : Circuit) : Prop :=
  b.status = .circuitRecover ∨ b.status = .circuitNormal

/-- The breaker admits the draw at the time: it is normal, both
periods have passed, or the draw is within the percentage of them that
has passed. -/
def Circuit.Open (b : Circuit) (now : Int) (r : Nat) : Prop :=
  b.status = .circuitNormal ∨ b.breakPeriod + b.recoverPeriod ≤ now - b.breakTime ∨
    (r : ℚ) ≤ (now - b.breakTime : Int) / (b.breakPeriod + b.recoverPeriod : Int) * 100

/-- The call divides by the sum of the periods. It comes to the
division in the recovery only, where the verdict is healthy and the
periods are not over. -/
def IsBreakStep.Divides (x : IsBreakStep) : Prop :=
  x.before.status = .circuitRecover ∧ x.call.healthy = true ∧
    ¬ x.call.now - x.before.breakTime ≥ addInt x.before.breakPeriod x.before.recoverPeriod

/-- What healthy calls make of a breaker that recovers. The three
fields that the ramp is computed from stay, and the status moves in
one direction. -/
structure Recovered (b b' : Circuit) : Prop where
  breakTime : b'.breakTime = b.breakTime
  breakPeriod : b'.breakPeriod = b.breakPeriod
  recoverPeriod : b'.recoverPeriod = b.recoverPeriod
  recovering : b'.Recovering
  normal : b.status = .circuitNormal → b'.status = .circuitNormal

theorem Recovered.refl (h : b.Recovering) : Recovered b b :=
  ⟨rfl, rfl, rfl, h, id⟩

theorem Recovered.trans (h : Recovered b b') (h' : Recovered b' b'') : Recovered b b'' :=
  ⟨h'.breakTime.trans h.breakTime, h'.breakPeriod.trans h.breakPeriod,
    h'.recoverPeriod.trans h.recoverPeriod, h'.recovering, fun hn => h'.normal (h.normal hn)⟩

/-! ### One call -/

/-- A healthy call of a normal breaker admits, and changes nothing. -/
theorem on_of_normal (hs : b.status = .circuitNormal) (hc : c.healthy = true) :
    c.on b = { before := b, call := c, ret := false, after := b } := by
  simp only [IsBreakCall.on, Circuit.switchStatus, hs, hc, Bool.true_eq_false, if_false]

/-- A healthy call of a recovering breaker after both periods admits,
and the breaker is normal. -/
theorem on_of_passed (hs : b.status = .circuitRecover) (hc : c.healthy = true)
    (ht : addInt b.breakPeriod b.recoverPeriod ≤ c.now - b.breakTime) :
    c.on b =
      { before := b, call := c, ret := false, after := { b with status := .circuitNormal } } := by
  simp only [IsBreakCall.on, Circuit.switchStatus, hs, hc, Bool.true_eq_false, if_false, ge_iff_le,
    ht, if_true]

/-- Before that it compares the draw with the percentage, and changes
nothing. -/
theorem on_of_ramp (hs : b.status = .circuitRecover) (hc : c.healthy = true)
    (ht : ¬ addInt b.breakPeriod b.recoverPeriod ≤ c.now - b.breakTime) :
    (c.on b).after = b ∧
      ((c.on b).ret = false ↔ ((c.rand % 100 : Nat) : ℚ) ≤
        (c.now - b.breakTime : Int) / (addInt b.breakPeriod b.recoverPeriod : Int) * 100) := by
  simp only [IsBreakCall.on, Circuit.switchStatus, hs, hc, Bool.true_eq_false, if_false, ge_iff_le,
    ht, decide_eq_false_iff_not, not_lt, true_and]

/-- A healthy call admits exactly the draws that are open at its
time. -/
theorem ret_eq_false_iff (hb : b.Recovering) (hsum : FitsInt (b.breakPeriod + b.recoverPeriod))
    (hc : c.healthy = true) : (c.on b).ret = false ↔ b.Open c.now (c.rand % 100) := by
  have hadd : addInt b.breakPeriod b.recoverPeriod = b.breakPeriod + b.recoverPeriod :=
    addInt_eq hsum
  rcases hb with hs | hs
  · by_cases ht : addInt b.breakPeriod b.recoverPeriod ≤ c.now - b.breakTime
    · rw [on_of_passed hs hc ht]
      exact iff_of_true rfl (.inr (.inl (hadd ▸ ht)))
    · rw [(on_of_ramp hs hc ht).2]
      rw [hadd] at ht ⊢
      have hnormal : b.status ≠ .circuitNormal := by rw [hs]; decide
      rw [Circuit.Open, or_iff_right hnormal, or_iff_right ht]
  · rw [on_of_normal hs hc]
    exact iff_of_true rfl (.inl hs)

/-- The step lemma: a healthy call keeps the start of the ramp and
both periods, and leaves a normal breaker normal. -/
theorem recovered_step (hb : b.Recovering) (hc : c.healthy = true) :
    Recovered b (c.on b).after := by
  rcases hb with hs | hs
  · by_cases ht : addInt b.breakPeriod b.recoverPeriod ≤ c.now - b.breakTime
    · rw [on_of_passed hs hc ht]
      exact ⟨rfl, rfl, rfl, .inr rfl, fun _ => rfl⟩
    · rw [(on_of_ramp hs hc ht).1]
      exact .refl (.inl hs)
  · rw [on_of_normal hs hc]
    exact .refl (.inr hs)

/-- On the ramp some time of both periods is left, and none of them is
negative in sum. -/
theorem sum_pos_of_divides {x : IsBreakStep} (hclock : x.before.breakTime ≤ x.call.now)
    (h : x.Divides) : 0 < addInt x.before.breakPeriod x.before.recoverPeriod := by
  have hramp := h.2.2
  omega

/-- What is open for a breaker stays open after healthy calls at later
times. The three ways of being open are those of `Open`, and each is
kept by itself. -/
theorem Circuit.Open.mono (h : b.Open now r) (hb : Recovered b b') (hstart : b.breakTime ≤ now)
    (hle : now ≤ now') : b'.Open now' r := by
  rcases h with hs | h
  · exact .inl (hb.normal hs)
  · right
    rw [hb.breakPeriod, hb.recoverPeriod, hb.breakTime]
    rcases h with hpassed | hramp
    · left
      omega
    · by_cases hpassed : b.breakPeriod + b.recoverPeriod ≤ now - b.breakTime
      · left
        omega
      · right
        -- The sum is above the time that has passed, so the percentage grows
        -- with the time.
        have hpos : (0 : ℚ) < (b.breakPeriod + b.recoverPeriod : Int) := by
          rw [Int.cast_pos]
          omega
        have hlater : ((now - b.breakTime : Int) : ℚ) ≤ (now' - b.breakTime : Int) := by
          rw [Int.cast_le]
          omega
        calc (r : ℚ) ≤ (now - b.breakTime : Int) / (b.breakPeriod + b.recoverPeriod : Int) * 100 :=
              hramp
          _ ≤ (now' - b.breakTime : Int) / (b.breakPeriod + b.recoverPeriod : Int) * 100 := by
              gcongr

/-! ### Runs -/

/-- The run lemma: before every call of a healthy run, the breaker is
as it may be after healthy calls. -/
theorem recovered_trace {calls : List IsBreakCall} (hhealthy : ∀ c ∈ calls, c.healthy = true)
    (hb : b.Recovering) : ∀ y ∈ b.trace calls, y.call ∈ calls ∧ y = y.call.on y.before ∧
      Recovered b y.before := by
  induction calls generalizing b with
  | nil =>
      intro y hy
      cases hy
  | cons c calls ih =>
      intro y hy
      have hstep : Recovered b (c.on b).after := recovered_step hb (hhealthy c List.mem_cons_self)
      rw [Circuit.trace_cons] at hy
      rcases List.mem_cons.mp hy with rfl | hy
      · exact ⟨List.mem_cons_self, rfl, .refl hb⟩
      · obtain ⟨hmem, heq, hlater⟩ :=
          ih (fun d hd => hhealthy d (List.mem_cons_of_mem c hd)) hstep.recovering y hy
        exact ⟨List.mem_cons_of_mem c hmem, heq, hstep.trans hlater⟩

/-- An admitted draw is admitted by every later call with the same
draw. The draws are compared modulo 100, as the code takes them. -/
def OnlyOpens (run : List IsBreakStep) : Prop :=
  run.Pairwise fun x y => x.before.Recovering → ∀ r, x.call.rand % 100 = r →
    y.call.rand % 100 = r → x.ret = false → y.ret = false

/-- Healthy calls of the switch at non-decreasing times only open
further. -/
theorem onlyOpens_trace {calls : List IsBreakCall} (hb : b.Recovering)
    (hsum : FitsInt (b.breakPeriod + b.recoverPeriod)) (hhealthy : ∀ c ∈ calls, c.healthy = true)
    (hsorted : calls.Pairwise fun c d => c.now ≤ d.now)
    (hclock : ∀ c ∈ calls, b.breakTime ≤ c.now) : OnlyOpens (b.trace calls) := by
  induction calls generalizing b with
  | nil => exact .nil
  | cons c calls ih =>
      obtain ⟨hfirst, hsorted'⟩ := List.pairwise_cons.mp hsorted
      obtain ⟨hc, hhealthy'⟩ := List.forall_mem_cons.mp hhealthy
      obtain ⟨hstart, hclock'⟩ := List.forall_mem_cons.mp hclock
      have hstep : Recovered b (c.on b).after := recovered_step hb hc
      rw [Circuit.trace_cons]
      refine .cons ?_ (ih hstep.recovering ?_ hhealthy' hsorted' ?_)
      · intro y hy _ r hr hr' hret
        obtain ⟨hmem, heq, hlater⟩ := recovered_trace hhealthy' hstep.recovering y hy
        have hrecovered : Recovered b y.before := hstep.trans hlater
        -- What the first call found open is open when the later call comes.
        have hopen : b.Open c.now r := hr ▸ (ret_eq_false_iff hb hsum hc).mp hret
        have hopen' : y.before.Open y.call.now (y.call.rand % 100) :=
          hr'.symm ▸ hopen.mono hrecovered hstart (hfirst y.call hmem)
        have hsum' : FitsInt (y.before.breakPeriod + y.before.recoverPeriod) := by
          rw [hrecovered.breakPeriod, hrecovered.recoverPeriod]
          exact hsum
        rw [heq]
        exact (ret_eq_false_iff hlater.recovering hsum' (hhealthy' _ hmem)).mpr hopen'
      · rw [hstep.breakPeriod, hstep.recoverPeriod]
        exact hsum
      · rw [hstep.breakTime]
        exact hclock'

/-- Healthy calls of the switch never divide by a sum that is not
positive. -/
theorem sum_pos_trace {calls : List IsBreakCall} (hb : b.Recovering)
    (hhealthy : ∀ c ∈ calls, c.healthy = true) (hclock : ∀ c ∈ calls, b.breakTime ≤ c.now) :
    ∀ x ∈ b.trace calls, x.Divides →
      0 < addInt x.before.breakPeriod x.before.recoverPeriod := by
  intro x hx hdivides
  obtain ⟨hmem, -, hrecovered⟩ := recovered_trace hhealthy hb x hx
  refine sum_pos_of_divides ?_ hdivides
  rw [hrecovered.breakTime]
  exact hclock x.call hmem

/-- The calls of a run are the calls that it was given. -/
theorem map_call_trace (b : Circuit) (calls : List IsBreakCall) :
    (b.trace calls).map IsBreakStep.call = calls := by
  induction calls generalizing b with
  | nil => rfl
  | cons c calls ih =>
      rw [Circuit.trace_cons, List.map_cons, ih]
      rfl

/-- A breaker that recovers, and from then on sees only healthy
verdicts at non-decreasing times that are not before the trip, only
opens further, and never divides by a sum of the periods that is not
positive.

The calls may be any calls of the breaker: outcomes that are recorded
in between change the verdicts, and these are asked to be healthy, but
not the ramp. -/
theorem recoveryOnlyOpens (b : CircuitBreaker) (hstatus : b.status = .circuitRecover)
    (hsum : FitsInt (b.breakPeriod + b.recoverPeriod)) (calls : List Call)
    (hhealthy : ∀ x ∈ b.trace calls, x.call.healthy = true)
    (hsorted : (calls.filterMap Call.isBreakTime).Pairwise (· ≤ ·))
    (hclock : ∀ now ∈ calls.filterMap Call.isBreakTime, b.breakTime ≤ now) :
    OnlyOpens (b.trace calls) ∧ ∀ x ∈ b.trace calls, x.Divides →
      0 < addInt x.before.breakPeriod x.before.recoverPeriod := by
  rw [trace_isBreakCalls] at hhealthy ⊢
  have hhealthy' : ∀ c ∈ b.isBreakCalls calls, c.healthy = true := by
    intro c hc
    rw [← map_call_trace b.toCircuit (b.isBreakCalls calls)] at hc
    obtain ⟨x, hx, rfl⟩ := List.mem_map.mp hc
    exact hhealthy x hx
  have hclock' : ∀ c ∈ b.isBreakCalls calls, b.breakTime ≤ c.now := by
    intro c hc
    exact hclock c.now ((isBreakCalls_now calls b).subset (List.mem_map_of_mem hc))
  refine ⟨onlyOpens_trace (.inl hstatus) hsum hhealthy' ?_ hclock',
    sum_pos_trace (.inl hstatus) hhealthy' hclock'⟩
  exact List.pairwise_map.mp (hsorted.sublist (isBreakCalls_now calls b))

/-- A breaker with the periods of `tenTwenty` that tripped at 100 and
recovers, with too few outcomes in its window to be unhealthy. -/
def recoversFrom100 : CircuitBreaker where
  status := .circuitRecover
  breakTime := 100
  breakPeriod := 10
  recoverPeriod := 20
  healthStats := { HealthStats.new 5 10 (1 / 2) 110 with buckets := [⟨1, 0⟩, ⟨1, 0⟩] }

/-- `recoveryOnlyOpens` for a draw that is refused on the ramp,
admitted later, and admitted when the breaker is normal. -/
theorem recoveryOnlyOpens_from100 :
    OnlyOpens (recoversFrom100.trace
      [.isBreak 110 110 50, .onSuccess 110, .isBreak 120 110 50, .isBreak 130 130 50]) :=
  (recoveryOnlyOpens recoversFrom100 rfl (by decide) _ (by decide) (by decide) (by decide)).1

end Bigpipe.Client
