import Bigpipe.Lib.System
import Mathlib.Order.WellFounded

/-!
# `Bigpipe.Lib.Fairness`: what happens in the end

An execution is an infinite sequence of states of a transition system,
in which nothing may happen for a while or for ever. It is weakly fair
to a set of events where these are not enabled from some point on
without one of them happening.

Fairness is asked of the threads one by one: the events of a thread
are enabled exactly where the thread can go on, and a scheduler that
never forgets a thread for good is fair to each. Nothing is asked of a
thread that is enabled only from time to time, so a mutex may be taken
from it again and again. What a theorem needs beyond this, such as an
answer that comes in the end, it names as fairness to the events of
the environment.

* `LeadsTo`: where `P` holds, `Q` holds at that point or later.
* `WeaklyFair.leadsTo`: the rule for one step that fairness brings
  about.
* `leadsTo_of_rank`: the rule for a number that goes down until `Q`
  holds, and `WeaklyFair.leadsTo_of_rank`, where fairness brings it
  down.
* `Execution.always_from`: what the steps from some point on keep.
* `quiet_of_rank`: where every event lowers a number, the execution
  comes to rest, and what it is fair to is not enabled there.
  `stable_of_rank`: the same for a part of the state.
* `Execution.project`: the execution of another system that an
  execution runs through.
* `Execution.ofRun`: the execution that takes the steps of a run and
  then stays. It is fair to what is not enabled there.
-/

set_option autoImplicit false

namespace Bigpipe.Lib.System

variable {S E : Type} {sys : System S E}

/-- An infinite execution. Where nothing happens there is no event,
and the state stays. So an execution in which everybody waits for good
is one like any other, and a finite run is one that stays in its last
state. -/
structure Execution (sys : System S E) where
  state : Nat → S
  event : Nat → Option E
  init : sys.init (state 0)
  stays : ∀ i, event i = none → state (i + 1) = state i
  steps : ∀ i e, event i = some e → sys.step (state i) e = some (state (i + 1))

/-- Some event of `A` is enabled. Where `A` are the events of a
thread, the thread can take a step. -/
def Enabled (sys : System S E) (A : E → Prop) (s : S) : Prop :=
  ∃ e, A e ∧ (sys.step s e).isSome

namespace Execution

variable (x : Execution sys)

/-- The events of `A` are not enabled for ever without one of them
happening. A point at which none of them is enabled is enough to owe
nothing. -/
def WeaklyFair (A : E → Prop) : Prop :=
  ∀ i, (∀ j, i ≤ j → sys.Enabled A (x.state j)) → ∃ j e, i ≤ j ∧ A e ∧ x.event j = some e

/-- Where `P` holds, `Q` holds at that point or later. Nothing is said
about how long it takes, or about what holds in between. -/
def LeadsTo (P Q : S → Prop) : Prop :=
  ∀ i, P (x.state i) → ∃ j, i ≤ j ∧ Q (x.state j)

/-- Every state of an execution is reachable. -/
theorem reachable (i : Nat) : sys.Reachable (x.state i) := by
  induction i with
  | zero => exact .init x.init
  | succ i ih =>
      cases he : x.event i with
      | none =>
          rw [x.stays i he]
          exact ih
      | some e => exact ih.step (x.steps i e he)

variable {x} {P Q R : S → Prop}

/-- What every step from a point on keeps, holds from there on. The
steps before the point do not matter, so the rule also serves what is
lost at first. -/
theorem always_from {i : Nat} (h : P (x.state i))
    (hstep : ∀ j e, i ≤ j → x.event j = some e → P (x.state j) → P (x.state (j + 1)))
    {j : Nat} (hij : i ≤ j) : P (x.state j) := by
  induction j, hij using Nat.le_induction with
  | base => exact h
  | succ j hij ih =>
      cases he : x.event j with
      | none =>
          rw [x.stays j he]
          exact ih
      | some e => exact hstep j e hij he ih

/-! ### The rules -/

/-- What follows at the same point. -/
theorem LeadsTo.of_imp (h : ∀ i, P (x.state i) → Q (x.state i)) : x.LeadsTo P Q :=
  fun i hP => ⟨i, Nat.le_refl i, h i hP⟩

/-- One after the other. -/
theorem LeadsTo.trans (hPQ : x.LeadsTo P Q) (hQR : x.LeadsTo Q R) : x.LeadsTo P R := by
  intro i hP
  obtain ⟨j, hij, hQ⟩ := hPQ i hP
  obtain ⟨k, hjk, hR⟩ := hQR j hQ
  exact ⟨k, hij.trans hjk, hR⟩

/-- The rule for two cases that lead to the same. -/
theorem LeadsTo.cases {T : S → Prop} (h : x.LeadsTo P fun s => Q s ∨ R s) (hQ : x.LeadsTo Q T)
    (hR : x.LeadsTo R T) : x.LeadsTo P T := by
  intro i hP
  obtain ⟨j, hij, hcase⟩ := h i hP
  obtain ⟨k, hjk, hT⟩ := hcase.elim (hQ j) (hR j)
  exact ⟨k, hij.trans hjk, hT⟩

/-- The rule for one fair step. While `Q` has not been reached, every
step keeps `P`, and an event of `A` is enabled, which reaches `Q`.

The event of `A` that is enabled need not be the same all the time.
What fairness promises is that one of them happens. -/
theorem WeaklyFair.leadsTo {A : E → Prop} (hfair : x.WeaklyFair A)
    (hkeep : ∀ i e, x.event i = some e → P (x.state i) →
      P (x.state (i + 1)) ∨ Q (x.state (i + 1)))
    (hgoal : ∀ i e, x.event i = some e → A e → P (x.state i) → Q (x.state (i + 1)))
    (henabled : ∀ i, P (x.state i) → sys.Enabled A (x.state i)) : x.LeadsTo P Q := by
  intro i hP
  by_contra hnever
  have hnot : ∀ j, i ≤ j → ¬ Q (x.state j) := fun j hij hQ => hnever ⟨j, hij, hQ⟩
  -- `P` stays, so the fair step is enabled for ever, and once it happens `Q`
  -- holds.
  have hstays : ∀ j, i ≤ j → P (x.state j) := by
    intro j hij
    refine always_from hP (fun k e hik he hPk => ?_) hij
    exact (hkeep k e he hPk).resolve_right (hnot (k + 1) (Nat.le_succ_of_le hik))
  obtain ⟨j, e, hij, hA, he⟩ := hfair i fun j hij => henabled j (hstays j hij)
  exact hnot (j + 1) (Nat.le_succ_of_le hij) (hgoal j e he hA (hstays j hij))

/-- The rule for a rank: where `P` leads to `Q`, or to `P` at a lower
rank, it leads to `Q`. It chains any number of rules for one fair
step. -/
theorem leadsTo_of_rank (rank : S → Nat)
    (h : ∀ k, x.LeadsTo (fun s => P s ∧ rank s = k) fun s => Q s ∨ P s ∧ rank s < k) :
    x.LeadsTo P Q := by
  have hrank : ∀ k i, P (x.state i) → rank (x.state i) = k →
      ∃ j, i ≤ j ∧ Q (x.state j) := by
    intro k
    -- The induction is on the rank, which a step may lower by more than 1.
    induction k using Nat.strong_induction_on with
    | _ k ih =>
        intro i hP hk
        obtain ⟨j, hij, hQ | ⟨hP', hlt⟩⟩ := h k i ⟨hP, hk⟩
        · exact ⟨j, hij, hQ⟩
        · obtain ⟨l, hjl, hQ⟩ := ih _ hlt j hP' rfl
          exact ⟨l, hij.trans hjl, hQ⟩
  exact fun i hP => hrank _ i hP rfl

/-- The rule for a rank that the fair steps lower. While `Q` has not
been reached, every step keeps `P` and does not raise the rank, and an
event of `A` is enabled, which lowers it. The other threads may do
what they like, as long as they do not raise the rank. -/
theorem WeaklyFair.leadsTo_of_rank {A : E → Prop} (hfair : x.WeaklyFair A) (rank : S → Nat)
    (hstep : ∀ i e, x.event i = some e → P (x.state i) → Q (x.state (i + 1)) ∨
      P (x.state (i + 1)) ∧ rank (x.state (i + 1)) ≤ rank (x.state i) ∧
        (A e → rank (x.state (i + 1)) < rank (x.state i)))
    (henabled : ∀ i, P (x.state i) → sys.Enabled A (x.state i)) : x.LeadsTo P Q := by
  refine Execution.leadsTo_of_rank rank fun k => hfair.leadsTo ?_ ?_ fun i hP => henabled i hP.1
  · intro i e he ⟨hP, hk⟩
    rcases hstep i e he hP with hQ | ⟨hP', hle, -⟩
    · exact .inr (.inl hQ)
    · rcases Nat.lt_or_eq_of_le hle with hlt | heq
      · exact .inr (.inr ⟨hP', hk ▸ hlt⟩)
      · exact .inl ⟨hP', heq.trans hk⟩
  · intro i e he hA ⟨hP, hk⟩
    rcases hstep i e he hP with hQ | ⟨hP', -, hlt⟩
    · exact .inl hQ
    · exact .inr ⟨hP', hk ▸ hlt hA⟩

/-! ### Executions that come to rest -/

/-- Where every event from a point on lowers a number, nothing happens
any more in the end. No fairness is needed: it only says what is not
enabled in the end. -/
theorem quiet_of_rank (rank : S → Nat) {i : Nat}
    (h : ∀ j e, i ≤ j → x.event j = some e → rank (x.state (j + 1)) < rank (x.state j)) :
    ∃ j, i ≤ j ∧ ∀ k, j ≤ k → x.event k = none := by
  generalize hr : rank (x.state i) = r
  induction r using Nat.strong_induction_on generalizing i with
  | _ r ih =>
      -- Either nothing happens from here on, or something does and the number
      -- is smaller behind it.
      by_cases hquiet : ∀ k, i ≤ k → x.event k = none
      · exact ⟨i, Nat.le_refl i, hquiet⟩
      push Not at hquiet
      obtain ⟨k, hik, hk⟩ := hquiet
      obtain ⟨e, he⟩ := Option.ne_none_iff_exists'.mp hk
      have hle : rank (x.state k) ≤ r := by
        refine always_from (P := fun s => rank s ≤ r) hr.le (fun j e hij he hP => ?_) hik
        exact ((h j e hij he).trans_le hP).le
      obtain ⟨j, hj, hnone⟩ := ih _ ((h k e hik he).trans_le hle)
        (fun j e hj => h j e (by omega)) rfl
      exact ⟨j, by omega, hnone⟩

/-- Where nothing happens any more, the state stays. -/
theorem state_of_quiet {j : Nat} (hquiet : ∀ k, j ≤ k → x.event k = none) {k : Nat}
    (hjk : j ≤ k) : x.state k = x.state j := by
  refine always_from (P := fun s => s = x.state j) rfl (fun k e hjk he => ?_) hjk
  rw [hquiet k hjk] at he
  cases he

/-- Where nothing happens any more, nothing that the execution is fair
to is enabled. So a thread that the execution is fair to has ended
there, or waits for good. -/
theorem WeaklyFair.not_enabled {A : E → Prop} (hfair : x.WeaklyFair A) {j : Nat}
    (hquiet : ∀ k, j ≤ k → x.event k = none) : ¬ sys.Enabled A (x.state j) := by
  intro henabled
  obtain ⟨k, e, hjk, -, he⟩ := hfair j fun k hjk => by rwa [state_of_quiet hquiet hjk]
  rw [hquiet k hjk] at he
  cases he

/-- What changes only where its number goes down does not change any
more in the end. The rest of the state may go on changing. -/
theorem stable_of_rank {α : Type} (f : S → α) (rank : α → Nat) {i : Nat}
    (h : ∀ j e, i ≤ j → x.event j = some e → f (x.state (j + 1)) = f (x.state j) ∨
      rank (f (x.state (j + 1))) < rank (f (x.state j))) :
    ∃ j, i ≤ j ∧ ∀ k, j ≤ k → f (x.state k) = f (x.state j) := by
  generalize hr : rank (f (x.state i)) = r
  induction r using Nat.strong_induction_on generalizing i with
  | _ r ih =>
      by_cases hstays : ∀ k, i ≤ k → f (x.state k) = f (x.state i)
      · exact ⟨i, Nat.le_refl i, hstays⟩
      push Not at hstays
      obtain ⟨k, hik, hk⟩ := hstays
      have hlt : rank (f (x.state k)) < r := by
        refine Or.resolve_left ?_ hk
        refine always_from (P := fun s => f s = f (x.state i) ∨ rank (f s) < r) (.inl rfl)
          (fun j e hij he hP => ?_) hik
        rcases h j e hij he with hsame | hlt
        · rwa [hsame]
        · rcases hP with heq | hP
          · exact .inr (by rwa [heq, hr] at hlt)
          · exact .inr (hlt.trans hP)
      obtain ⟨j, hj, hsame⟩ := ih _ hlt (fun j e hj => h j e (hik.trans hj)) rfl
      exact ⟨j, hik.trans hj, hsame⟩

/-! ### Executions of another system -/

/-- The execution that `f` projects to. An event takes the step of the
other system that `g` names, or none. Which step it is may depend on
the state, since one line of the source can be a step of the other
system in one place and none in another. -/
def project {S' E' : Type} {sys' : System S' E'} (x : Execution sys) (f : S → S')
    (g : S → E → Option E') (hinit : ∀ s, sys.init s → sys'.init (f s))
    (hstep : ∀ s e s', sys.step s e = some s' → sys'.run (f s) (g s e).toList = some (f s')) :
    Execution sys' where
  state i := f (x.state i)
  event i := (x.event i).bind (g (x.state i))
  init := hinit _ x.init
  stays i hnone := by
    cases he : x.event i with
    | none => rw [x.stays i he]
    | some e =>
        have hrun := hstep _ e _ (x.steps i e he)
        rw [he, Option.bind_some] at hnone
        rw [hnone] at hrun
        exact (Option.some.inj hrun).symm
  steps i e' he' := by
    obtain ⟨e, he, hg⟩ := Option.bind_eq_some_iff.mp he'
    have hrun := hstep _ e _ (x.steps i e he)
    rw [hg] at hrun
    obtain ⟨s', hs', hsame⟩ := Option.bind_eq_some_iff.mp hrun
    cases hsame
    exact hs'

/-- The event that a step is in the other system. -/
theorem project_event {S' E' : Type} {sys' : System S' E'} {f : S → S'} {g : S → E → Option E'}
    {hinit : ∀ s, sys.init s → sys'.init (f s)}
    {hstep : ∀ s e s', sys.step s e = some s' → sys'.run (f s) (g s e).toList = some (f s')}
    {i : Nat} {e : E} (he : x.event i = some e) :
    (x.project f g hinit hstep).event i = g (x.state i) e := by
  show (x.event i).bind _ = _
  rw [he, Option.bind_some]

/-! ### Executions that end -/

/-- The first events of a run are a run. -/
theorem run_take {s : S} {es : List E} (h : (sys.run s es).isSome) (i : Nat) :
    (sys.run s (es.take i)).isSome := by
  obtain ⟨s', hrun⟩ := Option.isSome_iff_exists.mp h
  rw [← List.take_append_drop i es] at hrun
  cases hgrows : sys.run s (es.take i) with
  | some _ => rfl
  | none =>
      have hsplit : sys.run s (es.take i ++ es.drop i) =
          (sys.run s (es.take i)).bind fun s₁ => sys.run s₁ (es.drop i) := List.foldlM_append
      rw [hsplit, hgrows] at hrun
      cases hrun

/-- The execution that takes the steps of a run and then stays. It is
weakly fair to a party that cannot step in the last state, whatever
the run did. -/
def ofRun (s : S) (hinit : sys.init s) (es : List E) (h : (sys.run s es).isSome) :
    Execution sys where
  state i := (sys.run s (es.take i)).get (run_take h i)
  event i := es[i]?
  init := hinit
  stays i he := by
    have hlength : es.length ≤ i := List.getElem?_eq_none_iff.mp he
    simp only [List.take_of_length_le hlength, List.take_of_length_le (Nat.le_succ_of_le hlength)]
  steps i e he := by
    obtain ⟨hi, rfl⟩ := List.getElem?_eq_some_iff.mp he
    have htake : es.take (i + 1) = es.take i ++ [es[i]] := List.take_succ_eq_append_getElem hi
    have hnext : sys.run s (es.take i ++ [es[i]]) =
        some ((sys.run s (es.take (i + 1))).get (run_take h (i + 1))) := by
      rw [← htake]
      exact (Option.some_get _).symm
    obtain ⟨s₁, hs₁, hstep⟩ := run_concat_iff.mp hnext
    simp only [hs₁, Option.get_some]
    exact hstep

theorem ofRun_state {s s' : S} {hinit : sys.init s} {es : List E} (h : (sys.run s es).isSome)
    {i : Nat} (hrun : sys.run s (es.take i) = some s') : (ofRun s hinit es h).state i = s' :=
  Option.get_of_eq_some _ hrun

/-- After the run the execution stays in its last state. -/
theorem ofRun_last {s s' : S} {hinit : sys.init s} {es : List E} (h : (sys.run s es).isSome)
    (hrun : sys.run s es = some s') {i : Nat} (hi : es.length ≤ i) :
    (ofRun s hinit es h).state i = s' :=
  ofRun_state h (by rw [List.take_of_length_le hi, hrun])

/-- What holds of every state of the run holds of every state of the
execution. -/
theorem ofRun_all {s : S} {hinit : sys.init s} {es : List E} (h : (sys.run s es).isSome)
    {p : S → Bool} (hall : ∀ i < es.length + 1, (sys.run s (es.take i)).all p = true) (i : Nat) :
    p ((ofRun s hinit es h).state i) = true := by
  obtain ⟨s', hrun⟩ := Option.isSome_iff_exists.mp (run_take h i)
  have hp : (sys.run s (es.take i)).all p = true := by
    rcases Nat.lt_or_ge i (es.length + 1) with hlt | hge
    · exact hall i hlt
    · rw [List.take_of_length_le (Nat.le_of_succ_le hge), ← List.take_length (l := es)]
      exact hall es.length (Nat.lt_succ_self _)
  rw [hrun] at hp
  rw [ofRun_state h hrun]
  exact hp

/-- The events from a point on are those of the rest of the run. -/
theorem ofRun_event {s : S} {hinit : sys.init s} {es : List E} (h : (sys.run s es).isSome)
    {i j : Nat} (hij : i ≤ j) {e : E} (he : (ofRun s hinit es h).event j = some e) :
    e ∈ es.drop i := by
  refine List.mem_of_getElem? (i := j - i) ?_
  rw [List.getElem?_drop, Nat.add_sub_cancel' hij]
  exact he

/-- Such an execution is fair to events that are not enabled in the
last state of the run. -/
theorem weaklyFair_ofRun {s s' : S} {hinit : sys.init s} {es : List E}
    (h : (sys.run s es).isSome) (hrun : sys.run s es = some s') {A : E → Prop}
    (hquiet : ¬ sys.Enabled A s') : (ofRun s hinit es h).WeaklyFair A := by
  intro i henabled
  have hlast := henabled (max i es.length) (Nat.le_max_left _ _)
  rw [ofRun_last h hrun (Nat.le_max_right _ _)] at hlast
  exact absurd hlast hquiet

end Execution

end Bigpipe.Lib.System
