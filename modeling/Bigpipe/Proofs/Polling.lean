import Bigpipe.Proofs.HealthStats

/-!
# `Bigpipe.Proofs.Polling`: polls of the health window

Every `IsBreak` asks `IsHealthy`, so the window is read as often as
the workers call. A read updates the buckets, and an update is a
function of the latest reading of the clock.

That is a fact about the window as it is, with all that is wrong with
its buckets. `UpdateBuckets` erases one bucket for each second since
the last update, so that two updates erase what one at the later time
would have. Nothing else in the window depends on how often it was
updated, so polls can be inserted anywhere before the last call.

* `updateBuckets_updateBuckets`: an update at two readings is one at
  the later of them.
* `foldl_updateBuckets`: an update at every reading of a list is one
  at the largest.
* `observe_filter`: a run with inserted polls beside the run without
  them.
* `pollingKeepsHistory`: inserted polls change no verdict of the other
  calls and not the state that they leave.
-/

set_option autoImplicit false

namespace Bigpipe.Client

/-! ### Updates compose -/

/-- Where applying an action twice is applying it at the larger
argument, applying it to a list is applying it at the maximum. -/
theorem foldl_eq_foldl_max {S T : Type} [LinearOrder T] {act : S → T → S}
    (hact : ∀ s a b, act (act s a) b = act s (max a b)) (s : S) (a : T) (as : List T) :
    as.foldl act (act s a) = act s (as.foldl max a) := by
  induction as generalizing a with
  | nil => rfl
  | cons b as ih =>
      show as.foldl act (act (act s a) b) = _
      rw [hact]
      exact ih (max a b)

/-- An update at two readings, in either order, is one at the later of
them. -/
theorem updateBuckets_updateBuckets (s : HealthStats) (a b : Int) :
    (s.updateBuckets a).updateBuckets b = s.updateBuckets (max a b) := by
  by_cases ha : a ≤ s.updateTime
  · rw [HealthStats.updateBuckets_of_le ha]
    by_cases hb : b ≤ s.updateTime
    · rw [HealthStats.updateBuckets_of_le hb, HealthStats.updateBuckets_of_le (max_le ha hb)]
    · rw [max_eq_right (by omega)]
  · have htime : (s.updateBuckets a).updateTime = a :=
      HealthStats.updateBuckets_updateTime (by omega)
    by_cases hb : b ≤ a
    · rw [HealthStats.updateBuckets_of_le (by omega), max_eq_left hb]
    · rw [max_eq_right (by omega), HealthStats.updateBuckets_of_lt (by omega),
        HealthStats.updateBuckets_of_lt (show s.updateTime < b by omega), htime,
        HealthStats.updateBuckets_of_lt (by omega)]
      -- What the second update erases is counted from what the first one
      -- left.
      have hcount : (b - s.updateTime).toNat = (a - s.updateTime).toNat + (b - a).toNat := by
        omega
      rw [hcount, ← List.drop_drop]

/-- An update at every reading of a list, in any order, is one at the
largest. -/
theorem foldl_updateBuckets (s : HealthStats) {readings : List Int} {largest : Int}
    (h : readings.max? = some largest) :
    readings.foldl HealthStats.updateBuckets s = s.updateBuckets largest := by
  cases readings with
  | nil => cases h
  | cons a readings =>
      rw [List.max?_cons', Option.some.injEq] at h
      rw [← h]
      exact foldl_eq_foldl_max updateBuckets_updateBuckets s a readings

/-! ### Runs with inserted polls -/

/-- A call of a run, that was there before or is an inserted call of
`IsHealthy`. -/
inductive PolledCall where
  | original (c : HealthCall)
  | poll (now : Int)
  deriving DecidableEq, Repr

namespace PolledCall

/-- The call itself. -/
def call : PolledCall → HealthCall
  | original c => c
  | poll now => .isHealthy now

/-- The call was there before. -/
def isOriginal : PolledCall → Bool
  | original _ => true
  | poll _ => false

/-- What an original call of `IsHealthy` returns. -/
def verdicts (p : PolledCall) (s : HealthStats) : List (Bool × ℚ) :=
  match p with
  | original (.isHealthy now) => [(s.isHealthy now).2]
  | original (.onSuccess _) | original (.onFail _) | poll _ => []

end PolledCall

/-- What the original calls of a run return, and the window after it,
which is `none` if a call is undefined. -/
def observe (s : HealthStats) : List PolledCall → List (Bool × ℚ) × Option HealthStats
  | [] => ([], some s)
  | p :: ps =>
    match p.call.apply s with
    | none => (p.verdicts s, none)
    | some s' => (p.verdicts s ++ (observe s' ps).1, (observe s' ps).2)

/-- The two windows are the same to every call of the run: each call
starts with an update, after which they agree. It is the relation that
the two runs keep. -/
def SameTo (ps : List PolledCall) (s s' : HealthStats) : Prop :=
  ∀ p ∈ ps, s.updateBuckets p.call.now = s'.updateBuckets p.call.now

/-- A call depends on the window only through the update at its
reading. -/
theorem apply_congr {c : HealthCall} {s s' : HealthStats}
    (h : s.updateBuckets c.now = s'.updateBuckets c.now) : c.apply s = c.apply s' := by
  cases c with
  | onSuccess now | onFail now =>
      show HealthStats.record _ s now = HealthStats.record _ s' now
      rw [HealthStats.record, show s.updateBuckets now = s'.updateBuckets now from h]
      rfl
  | isHealthy now => exact congrArg some h

/-- What a call returns depends on the window only through the update
at its reading. -/
theorem verdicts_congr {p : PolledCall} {s s' : HealthStats}
    (h : s.updateBuckets p.call.now = s'.updateBuckets p.call.now) :
    p.verdicts s = p.verdicts s' := by
  cases p with
  | poll now => rfl
  | original c =>
      cases c with
      | onSuccess now | onFail now => rfl
      | isHealthy now =>
          show [(s.updateBuckets now).health] = [(s'.updateBuckets now).health]
          rw [show s.updateBuckets now = s'.updateBuckets now from h]

/-- A poll makes no difference to the calls after it. -/
theorem sameTo_poll {ps : List PolledCall} {s s' : HealthStats} {now : Int}
    (hclock : ∀ p ∈ ps, now ≤ p.call.now) (h : SameTo ps s s') :
    SameTo ps (s.updateBuckets now) s' := by
  intro p hp
  rw [updateBuckets_updateBuckets, max_eq_right (hclock p hp)]
  exact h p hp

/-- The last call of a run is its only call, or the last one of the
rest. -/
theorem getLast?_of_cons {p q : PolledCall} {ps : List PolledCall}
    (h : (p :: ps).getLast? = some q) : ps = [] ∧ p = q ∨ ps.getLast? = some q := by
  cases ps with
  | nil => exact .inl ⟨rfl, Option.some.inj h⟩
  | cons p' ps =>
      rw [List.getLast?_cons_cons] at h
      exact .inr h

/-- From windows that are the same to its calls, a run with inserted
polls returns the verdicts of the run without them, and leaves the
same window after a call that was there before. The induction is on
the run: a poll moves one side only, and another call makes the two
sides equal. -/
theorem observe_filter {ps : List PolledCall} {s s' : HealthStats}
    (hclock : (ps.map fun p => p.call.now).Pairwise (· ≤ ·)) (hsame : SameTo ps s s') :
    (observe s ps).1 = (observe s' (ps.filter PolledCall.isOriginal)).1 ∧
      ∀ c, ps.getLast? = some (.original c) →
        (observe s ps).2 = (observe s' (ps.filter PolledCall.isOriginal)).2 := by
  induction ps generalizing s s' with
  | nil => exact ⟨rfl, fun c h => nomatch h⟩
  | cons p ps ih =>
      obtain ⟨hfirst, hclock'⟩ := List.pairwise_cons.mp hclock
      have hrest : ∀ q ∈ ps, p.call.now ≤ q.call.now :=
        fun q hq => hfirst _ (List.mem_map_of_mem hq)
      have hsame₀ : s.updateBuckets p.call.now = s'.updateBuckets p.call.now :=
        hsame p List.mem_cons_self
      have hsame' : SameTo ps s s' := fun q hq => hsame q (List.mem_cons_of_mem p hq)
      cases p with
      | poll now =>
          -- The run without polls does not take this step.
          obtain ⟨hverdicts, hfinal⟩ := ih hclock' (sameTo_poll hrest hsame')
          refine ⟨hverdicts, fun c hlast => ?_⟩
          rcases getLast?_of_cons hlast with ⟨-, hpoll⟩ | hlast
          · cases hpoll
          · exact hfinal c hlast
      | original c =>
          have happly : c.apply s = c.apply s' := apply_congr hsame₀
          have hreturns :
              (PolledCall.original c).verdicts s = (PolledCall.original c).verdicts s' :=
            verdicts_congr hsame₀
          rw [List.filter_cons_of_pos rfl]
          simp only [observe, PolledCall.call, ← happly, ← hreturns]
          cases hs₁ : c.apply s with
          | none => exact ⟨rfl, fun _ _ => rfl⟩
          | some s₁ =>
              -- Both runs go on from the same window.
              obtain ⟨hverdicts, hfinal⟩ := ih (s := s₁) hclock' fun q _ => rfl
              refine ⟨congrArg (_ ++ ·) hverdicts, fun c' hlast => ?_⟩
              rcases getLast?_of_cons hlast with ⟨hnil, -⟩ | hlast
              · rw [hnil]
                rfl
              · exact hfinal c' hlast

/-- Updates at readings in any order are one update at the largest of
them. So polls that are inserted into a run at non-decreasing readings
change no verdict of the other calls, and not the window after the
last of them, nor whether it is defined. -/
theorem pollingKeepsHistory (s : HealthStats) :
    (∀ (readings : List Int) (largest : Int), readings.max? = some largest →
      readings.foldl HealthStats.updateBuckets s = s.updateBuckets largest) ∧
    ∀ ps : List PolledCall, (ps.map fun p => p.call.now).Pairwise (· ≤ ·) →
      (observe s ps).1 = (observe s (ps.filter PolledCall.isOriginal)).1 ∧
        ∀ c, ps.getLast? = some (.original c) →
          (observe s ps).2 = (observe s (ps.filter PolledCall.isOriginal)).2 :=
  ⟨fun _ _ h => foldl_updateBuckets s h, fun _ hclock => observe_filter hclock fun _ _ => rfl⟩

/-- `pollingKeepsHistory` for readings that jump back, and for two
polls between an outcome and a call of `IsHealthy`. -/
theorem pollingKeepsHistory_twoBuckets :
    [101, 99, 100].foldl HealthStats.updateBuckets twoBuckets = twoBuckets.updateBuckets 101 ∧
      observe twoBuckets
          [.original (.onFail 100), .poll 100, .poll 101, .original (.isHealthy 101)] =
        observe twoBuckets [.original (.onFail 100), .original (.isHealthy 101)] := by
  obtain ⟨hreadings, hpolls⟩ := pollingKeepsHistory twoBuckets
  obtain ⟨hverdicts, hfinal⟩ := hpolls
    [.original (.onFail 100), .poll 100, .poll 101, .original (.isHealthy 101)] (by decide)
  exact ⟨hreadings _ 101 (by decide), Prod.ext hverdicts (hfinal (.isHealthy 101) rfl)⟩

end Bigpipe.Client
