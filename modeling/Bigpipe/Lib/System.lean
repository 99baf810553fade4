import Mathlib.Data.List.Basic

/-!
# `Bigpipe.Lib.System`: transition systems with executable steps

A `System` is a set of initial states and a step function that is
defined where the event is enabled. The events carry every choice the
environment makes, so one definition serves the proofs over all
schedules and the evaluation of one schedule.

A property of runs is stated in one of two ways. What holds whatever
happens is proved of every `Reachable` state, by the invariant rule.
What holds only of some runs needs the runs themselves: a run is the
list of its events, and `Always` and `EveryStep` speak about the
states and the steps that the list takes from a state. The list may
hold an event that is not enabled. The run ends early there, and both
say nothing about the rest, so a theorem about all lists is one about
all runs.

* `System.Reachable`: the states of all runs, and `Reachable.induct`,
  the invariant rule.
* `System.Always` / `System.EveryStep`: a property of every state, or
  of every step, of the run that a list of events takes from a state.
* `System.always_of_invariant` / `System.everyStep_of_invariant`: an
  invariant and what follows from it, in the states and for the steps
  of a run.
* `System.always_iff_everyStep`: the run lemma behind every exact
  condition of this development. If a step keeps the property exactly
  when it meets a condition on the state before it, a run keeps the
  property exactly when all its steps meet the condition.
* `System.EveryStep.mono` / `System.everyStep_congr`: conditions on
  the steps where one implies the other, or where an invariant makes
  them equivalent.
* `System.logged`: the system with a log of its steps, for properties
  of a run that its states do not show.
* `System.Simulation`: a projection that maps every step to at most
  one step of another system carries reachability over.
* `System.Projection`: where the events name these steps, it carries
  runs over.
-/

set_option autoImplicit false

namespace Bigpipe.Lib

/-- A transition system. `step s e` is `none` where the event `e` is
not enabled in `s`. The step function is a function and not a
relation: what is left to chance or to the schedule is in the
event. -/
structure System (S E : Type) where
  init : S → Prop
  step : S → E → Option S

namespace System

variable {S E : Type} (sys : System S E)

/-- The states that the runs from the initial states reach. A system
may have many initial states, where the source leaves a field without
a value. -/
inductive Reachable : S → Prop where
  | init {s : S} (h : sys.init s) : Reachable s
  | step {s s' : S} {e : E} (h : Reachable s) (hs : sys.step s e = some s') : Reachable s'

/-- The state after the events `es`, where each of them is enabled in
its turn. -/
def run (s : S) (es : List E) : Option S :=
  es.foldlM sys.step s

/-- `P` holds in every state of the run that `es` takes from `s`, the
first and the last of them included. The run ends early at an event
that is not enabled. -/
def Always (P : S → Prop) (s : S) : List E → Prop
  | [] => P s
  | e :: es => P s ∧ ∀ s', sys.step s e = some s' → Always P s' es

/-- Every step of the run that `es` takes from `s` meets `ok`, a
condition on the state before the step and the event. What the step
does is no part of the condition, so it can be read off before the
step is taken. -/
def EveryStep (ok : S → E → Prop) (s : S) : List E → Prop
  | [] => True
  | e :: es => ∀ s', sys.step s e = some s' → ok s e ∧ EveryStep ok s' es

variable {sys}

/-- The invariant rule: what holds initially and is kept by every step
from a reachable state holds in every reachable state. That the state
is reachable may be used, so an invariant can rest on one that is
proved already. -/
theorem Reachable.induct {I : S → Prop} (hinit : ∀ s, sys.init s → I s)
    (hstep : ∀ s e s', sys.Reachable s → I s → sys.step s e = some s' → I s')
    {s : S} (h : sys.Reachable s) : I s := by
  induction h with
  | init h => exact hinit _ h
  | step h hs ih => exact hstep _ _ _ h ih hs

/-- A run after a run. It cuts the evaluation of a long run into parts
that are evaluated one by one. -/
theorem run_append {s s₁ : S} {es es' : List E} (h : sys.run s es = some s₁) :
    sys.run s (es ++ es') = sys.run s₁ es' := by
  show List.foldlM sys.step s (es ++ es') = _
  rw [List.foldlM_append]
  show (sys.run s es).bind _ = _
  rw [h]
  rfl

/-- A run after a step. -/
theorem run_cons {s s₁ : S} {e : E} {es : List E} (h : sys.step s e = some s₁) :
    sys.run s (e :: es) = sys.run s₁ es := by
  show (sys.step s e).bind _ = _
  rw [h]
  rfl

/-- A run of one step. -/
theorem run_singleton {s s' : S} {e : E} (h : sys.step s e = some s') :
    sys.run s [e] = some s' :=
  run_cons h

/-- A run that ends with the event `e` is a run and a step. Inductions
from the end of a run go by it. -/
theorem run_concat_iff {s s' : S} {es : List E} {e : E} :
    sys.run s (es ++ [e]) = some s' ↔
      ∃ s₁, sys.run s es = some s₁ ∧ sys.step s₁ e = some s' := by
  constructor
  · intro h
    cases hrun : sys.run s es with
    | none =>
        rw [show sys.run s (es ++ [e]) = (sys.run s es).bind _ from List.foldlM_append, hrun] at h
        cases h
    | some s₁ =>
        rw [run_append hrun] at h
        obtain ⟨s₂, hs, hrest⟩ := Option.bind_eq_some_iff.mp h
        cases hrest
        exact ⟨s₁, rfl, hs⟩
  · intro ⟨s₁, hrun, hs⟩
    rw [run_append hrun]
    exact run_singleton hs

/-- The invariant rule for a run: what its steps keep holds after it.
It is enough that the events of this run keep it. -/
theorem run_induct {I : S → Prop} {es : List E}
    (hstep : ∀ s e s', e ∈ es → I s → sys.step s e = some s' → I s') {s s' : S} (h : I s)
    (hrun : sys.run s es = some s') : I s' := by
  induction es generalizing s with
  | nil =>
      cases hrun
      exact h
  | cons e es ih =>
      -- A run that is defined took its first step to some `s₁`.
      obtain ⟨s₁, hs, hrest⟩ := Option.bind_eq_some_iff.mp hrun
      refine ih (fun s e s' he => hstep s e s' (List.mem_cons_of_mem _ he)) ?_ hrest
      exact hstep s e s₁ List.mem_cons_self h hs

/-- A run from a reachable state ends in a reachable state. -/
theorem Reachable.run {s s' : S} {es : List E} (h : sys.Reachable s)
    (hrun : sys.run s es = some s') : sys.Reachable s' :=
  run_induct (fun _ _ _ _ hreach hs => hreach.step hs) h hrun

/-- `Always` in the first state of the run. -/
theorem Always.head {P : S → Prop} {s : S} {es : List E} (h : sys.Always P s es) : P s := by
  cases es with
  | nil => exact h
  | cons e es => exact h.1

/-- `Always` in the last state of the run. There the run did not end
early, since all its events were enabled. -/
theorem Always.last {P : S → Prop} {s s' : S} {es : List E} (h : sys.Always P s es)
    (hrun : sys.run s es = some s') : P s' := by
  induction es generalizing s with
  | nil =>
      cases hrun
      exact h
  | cons e es ih =>
      obtain ⟨s₁, hs, hrest⟩ := Option.bind_eq_some_iff.mp hrun
      exact ih (h.2 s₁ hs) hrest

/-- What follows from a property of every state. -/
theorem Always.mono {P Q : S → Prop} (hPQ : ∀ s, P s → Q s) {s : S} {es : List E}
    (h : sys.Always P s es) : sys.Always Q s es := by
  induction es generalizing s with
  | nil => exact hPQ s h
  | cons e es ih => exact ⟨hPQ s h.1, fun s' hs => ih (h.2 s' hs)⟩

/-- What follows from an invariant holds throughout every run from a
state with the invariant. -/
theorem always_of_invariant {I P : S → Prop}
    (hI : ∀ s e s', I s → sys.step s e = some s' → I s') (hP : ∀ s, I s → P s) (es : List E)
    {s : S} (h : I s) : sys.Always P s es := by
  induction es generalizing s with
  | nil => exact hP s h
  | cons e es ih => exact ⟨hP s h, fun s' hs => ih (hI s e s' h hs)⟩

/-- What every step from a state with the invariant meets, every step
of a run meets. -/
theorem everyStep_of_invariant {I : S → Prop} {ok : S → E → Prop}
    (hI : ∀ s e s', I s → sys.step s e = some s' → I s')
    (hok : ∀ s e s', I s → sys.step s e = some s' → ok s e) (es : List E)
    {s : S} (h : I s) : sys.EveryStep ok s es := by
  induction es generalizing s with
  | nil => trivial
  | cons e es ih =>
      intro s' hs
      exact ⟨hok s e s' h hs, ih (hI s e s' h hs)⟩

/-- The run lemma. `I` is an invariant that the step lemma `hP` may
use: from a state with `I` and `P`, a step keeps `P` exactly when it
meets `ok`. Then a run from such a state keeps `P` throughout exactly
when all its steps meet `ok`.

A step that does not meet `ok` loses `P` at once, so the condition is
exact: it cannot be weakened without letting in a run that fails. -/
theorem always_iff_everyStep {I P : S → Prop} {ok : S → E → Prop}
    (hI : ∀ s e s', I s → sys.step s e = some s' → I s')
    (hP : ∀ s e s', I s → P s → sys.step s e = some s' → (P s' ↔ ok s e))
    (es : List E) {s : S} (hIs : I s) (hPs : P s) :
    sys.Always P s es ↔ sys.EveryStep ok s es := by
  induction es generalizing s with
  | nil => exact iff_of_true hPs trivial
  | cons e es ih =>
      constructor
      · rintro ⟨-, hrest⟩ s' hs
        -- `P` after the first step decides `ok` there, and the rest of the
        -- run starts in `P`.
        have hPs' : P s' := (hrest s' hs).head
        exact ⟨(hP s e s' hIs hPs hs).mp hPs', (ih (hI s e s' hIs hs) hPs').mp (hrest s' hs)⟩
      · intro hall
        refine ⟨hPs, fun s' hs => ?_⟩
        -- The step meets `ok`, so it keeps `P` for the rest of the run.
        obtain ⟨hok, hrest⟩ := hall s' hs
        exact (ih (hI s e s' hIs hs) ((hP s e s' hIs hPs hs).mpr hok)).mpr hrest

/-- Where the steps that meet `ok` keep the invariant `I` and meet
`ok'`, so do the runs. The invariant is kept by these steps only, and
may fail in other runs. -/
theorem EveryStep.mono {I : S → Prop} {ok ok' : S → E → Prop}
    (hstep : ∀ s e s', I s → sys.step s e = some s' → ok s e → I s' ∧ ok' s e)
    {es : List E} {s : S} (hI : I s) (h : sys.EveryStep ok s es) : sys.EveryStep ok' s es := by
  induction es generalizing s with
  | nil => trivial
  | cons e es ih =>
      intro s' hs
      obtain ⟨hok, hrest⟩ := h s' hs
      obtain ⟨hI', hok'⟩ := hstep s e s' hI hs hok
      exact ⟨hok', ih hI' hrest⟩

/-- A condition that does not look at the state. -/
theorem everyStep_of_forall {ok : S → E → Prop} {es : List E} (h : ∀ e ∈ es, ∀ s, ok s e) (s : S) :
    sys.EveryStep ok s es := by
  induction es generalizing s with
  | nil => trivial
  | cons e es ih =>
      intro s' _
      exact ⟨h e List.mem_cons_self s, ih (fun e' he' => h e' (List.mem_cons_of_mem _ he')) s'⟩

/-- A run after a run, where the steps of both meet `ok`. -/
theorem EveryStep.append {ok : S → E → Prop} {es es' : List E} {s s₁ : S}
    (h : sys.EveryStep ok s es) (hrun : sys.run s es = some s₁) (h' : sys.EveryStep ok s₁ es') :
    sys.EveryStep ok s (es ++ es') := by
  induction es generalizing s with
  | nil =>
      cases hrun
      exact h'
  | cons e es ih =>
      intro s₂ hs
      obtain ⟨s₃, hs₃, hrest⟩ := Option.bind_eq_some_iff.mp hrun
      cases hs.symm.trans hs₃
      obtain ⟨hok, hall⟩ := h s₂ hs
      exact ⟨hok, ih hall hrest⟩

/-- The invariant rule for a run whose steps meet `ok`. -/
theorem EveryStep.run_induct {I : S → Prop} {ok : S → E → Prop}
    (hstep : ∀ s e s', I s → sys.step s e = some s' → ok s e → I s') {es : List E} {s s' : S}
    (hI : I s) (h : sys.EveryStep ok s es) (hrun : sys.run s es = some s') : I s' := by
  induction es generalizing s with
  | nil =>
      cases hrun
      exact hI
  | cons e es ih =>
      obtain ⟨s₁, hs, hrest⟩ := Option.bind_eq_some_iff.mp hrun
      obtain ⟨hok, hall⟩ := h s₁ hs
      exact ih (hstep s e s₁ hI hs hok) hall hrest

/-- Two conditions that agree on every step from a state with the
invariant `I` hold of the same runs. It brings the condition of a step
lemma into the words of the source. -/
theorem everyStep_congr {I : S → Prop} {ok ok' : S → E → Prop}
    (hI : ∀ s e s', I s → sys.step s e = some s' → I s')
    (hok : ∀ s e s', I s → sys.step s e = some s' → (ok s e ↔ ok' s e))
    (es : List E) {s : S} (hIs : I s) : sys.EveryStep ok s es ↔ sys.EveryStep ok' s es :=
  ⟨.mono (fun s e s' h hs hs' => ⟨hI s e s' h hs, (hok s e s' h hs).mp hs'⟩) hIs,
    .mono (fun s e s' h hs hs' => ⟨hI s e s' h hs, (hok s e s' h hs).mpr hs'⟩) hIs⟩

/-- The system with a log of what `obs` sees in each step. The log
only grows, and the steps do not look at it, so the runs are those of
the system. -/
def logged {O : Type} (sys : System S E) (obs : S → E → List O) : System (S × List O) E where
  init p := sys.init p.1 ∧ p.2 = []
  step p e := (sys.step p.1 e).map fun s' => (s', p.2 ++ obs p.1 e)

/-- A step of the logged system is a step that is logged. -/
theorem logged_step_iff {O : Type} {obs : S → E → List O} {p p' : S × List O} {e : E} :
    (sys.logged obs).step p e = some p' ↔
      sys.step p.1 e = some p'.1 ∧ p'.2 = p.2 ++ obs p.1 e := by
  constructor
  · intro h
    obtain ⟨s', hs', rfl⟩ := Option.map_eq_some_iff.mp h
    exact ⟨hs', rfl⟩
  · intro ⟨hs, hlog⟩
    show (sys.step p.1 e).map _ = some p'
    rw [hs, Option.map_some, ← hlog]

/-- Every run can be logged. So what is proved of the logs of the
logged system is proved of every run. -/
theorem exists_logged_run {O : Type} (obs : S → E → List O) {s s' : S} {es : List E}
    (h : sys.run s es = some s') (log : List O) :
    ∃ log', (sys.logged obs).run (s, log) es = some (s', log') := by
  induction es generalizing s log with
  | nil =>
      cases h
      exact ⟨log, rfl⟩
  | cons e es ih =>
      obtain ⟨s₁, hs, hrest⟩ := Option.bind_eq_some_iff.mp h
      obtain ⟨log', hlog'⟩ := ih hrest (log ++ obs s e)
      have hstep : (sys.logged obs).step (s, log) e = some (s₁, log ++ obs s e) :=
        logged_step_iff.mpr ⟨hs, rfl⟩
      exact ⟨log', (run_cons hstep).trans hlog'⟩

/-- A projection `f` of one system to another that maps the initial
states to initial states and each step to a step or to no step at all.
The invariants of the other system then hold of the projected
states. -/
structure Simulation {S' E' : Type} (sys : System S E) (sys' : System S' E') (f : S → S') :
    Prop where
  init : ∀ s, sys.init s → sys'.init (f s)
  step : ∀ s e s', sys.step s e = some s' → f s' = f s ∨ ∃ e', sys'.step (f s) e' = some (f s')

/-- A reachable state projects to a reachable state. -/
theorem Simulation.reachable {S' E' : Type} {sys' : System S' E'} {f : S → S'}
    (h : Simulation sys sys' f) {s : S} (hs : sys.Reachable s) : sys'.Reachable (f s) := by
  induction hs with
  | init hi => exact .init (h.init _ hi)
  | step _ hst ih =>
      rcases h.step _ _ _ hst with heq | ⟨e', he'⟩
      · rw [heq]
        exact ih
      · exact ih.step he'

/-- A projection `f` of one system to another where an event is the
event `g` of the other one, or none of them. Unlike in a `Simulation`
the event is known from the event alone, so the projected run can be
written down. -/
structure Projection {S' E' : Type} (sys : System S E) (sys' : System S' E') (f : S → S')
    (g : E → Option E') : Prop where
  init : ∀ s, sys.init s → sys'.init (f s)
  step : ∀ s e s', sys.step s e = some s' → sys'.run (f s) (g e).toList = some (f s')

/-- A run projects to the run of its events. The events that are none
of the other system drop out of the list. -/
theorem Projection.run {S' E' : Type} {sys' : System S' E'} {f : S → S'} {g : E → Option E'}
    (h : Projection sys sys' f g) {s s' : S} {es : List E} (hrun : sys.run s es = some s') :
    sys'.run (f s) (es.filterMap g) = some (f s') := by
  induction es generalizing s with
  | nil =>
      cases hrun
      rfl
  | cons e es ih =>
      obtain ⟨s₁, hs, hrest⟩ := Option.bind_eq_some_iff.mp hrun
      have hfirst := h.step s e s₁ hs
      cases he : g e with
      | none =>
          rw [he] at hfirst
          have hsame : f s = f s₁ := Option.some.inj hfirst
          rw [List.filterMap_cons_none he, hsame]
          exact ih hrest
      | some e' =>
          rw [he] at hfirst
          rw [List.filterMap_cons_some he]
          exact (run_append hfirst).trans (ih hrest)

/-- A reachable state projects to a reachable state. -/
theorem Projection.reachable {S' E' : Type} {sys' : System S' E'} {f : S → S'} {g : E → Option E'}
    (h : Projection sys sys' f g) {s : S} (hs : sys.Reachable s) : sys'.Reachable (f s) := by
  induction hs with
  | init hi => exact .init (h.init _ hi)
  | step _ hst ih => exact ih.run (h.step _ _ _ hst)

end System

end Bigpipe.Lib
