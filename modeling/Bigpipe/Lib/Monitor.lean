import Bigpipe.Lib.System
import Mathlib.Data.Fintype.Card

/-!
# `Bigpipe.Lib.Monitor`: a mutex with condition variables

A monitor is data behind one mutex, with methods of one shape: take
the mutex, wait on a condition variable until a predicate holds, run a
body, signal at most one condition variable, release the mutex. A
signal wakes one of the threads that sleep on the condition variable,
and the woken thread must take the mutex again before it looks at the
predicate, so another thread may overtake it. A sleeping thread may
also wake for no reason.

The mutex is free between the lock sections, and nothing outside them
touches the data. A step of the model is therefore one whole lock
section: from taking the mutex to the release at the end of the method
or in the wait. A wait gives the mutex back and falls asleep in one
step, as the standard demands of it, so no signal is lost between the
test of the predicate and the sleep. Which sleeper a signal picks is
left open: the event of the lock section names it, and a theorem about
all runs is about every choice.

The position of a thread says more than whether it sleeps. A thread
that a signal picked, one that woke for no reason and one that has
just called are all about to take the mutex, and the mutex cannot tell
them apart. The invariants can: a lost wake-up is a matter of which of
them are still on the way, so `Pos` keeps them apart.

* `Monitor.call`, `Monitor.acquire`, `Monitor.spurious`: what one
  thread does. `acquire_cases` says once what a lock section can do.
  Proofs about particular monitors use it and never unfold `acquire`.
* `Monitor.Sequential`: the runs of the methods one after another.
  `Reachable.sequential`: in every reachable state the completed
  calls, in lock order, are such a run and the data is its result.
* `Monitor.Reachable.not_aborted`: no assertion fails when every body
  is defined wherever its predicate holds.
* `returned_frame` and `returned_signal`: the sleepers and the
  notified threads after a completed call, which is all that an
  invariant about wake-ups has to look at.
-/

set_option autoImplicit false

namespace Bigpipe.Lib

/-- One method of a monitor on the data `σ`, with condition variables
`κ` and results `ρ`. The guard is the condition variable and the
predicate of the wait; a method without a wait has no guard. The body
is `none` where an assertion in it fails; otherwise it gives the new
data, the result and the condition variable it signals. -/
structure Method (σ κ ρ : Type) where
  guard : Option (κ × (σ → Bool))
  body : σ → Option (σ × ρ × Option κ)

namespace Method

variable {σ κ ρ : Type}

/-- The wait ends in `d`: the predicate holds, or the method has no
wait. It is tested under the mutex, before the first sleep and again
after each wake-up. -/
def ready (m : Method σ κ ρ) (d : σ) : Bool :=
  match m.guard with
  | none => true
  | some (_, p) => p d

/-- The condition variable the method waits on. -/
def waitsOn (m : Method σ κ ρ) : Option κ :=
  m.guard.map Prod.fst

end Method

/-- A monitor: the initial data and the methods, indexed by the calls
`μ` (a method and its arguments). A method is one lock section with a
guard in front, or several where it sleeps. -/
structure Monitor (σ κ μ ρ : Type) where
  init : σ
  method : μ → Method σ κ ρ

namespace Monitor

/-- Where a thread is with respect to the monitor. Three of the
positions are in front of the mutex: after the call, after a signal,
and after a spurious wake-up. They differ in what has become of a
signal. -/
inductive Pos (μ : Type) where
  /-- Not in a method. -/
  | outside
  /-- It called the method and is about to take the mutex. -/
  | entering (m : μ)
  /-- It sleeps in the wait, and no signal picked it. -/
  | asleep (m : μ)
  /-- A signal picked it, and it has not yet taken the mutex again. -/
  | notified (m : μ)
  /-- It woke without a signal, and it has not yet taken the mutex
  again. -/
  | woken (m : μ)
  deriving DecidableEq, Repr

namespace Pos

variable {μ : Type}

/-- The call whose lock section the thread can run next. A thread that
has just called, one that a signal picked and one that woke for no
reason run the same lock section: each takes the mutex and tests the
predicate. -/
def runnable : Pos μ → Option μ
  | .entering m | .notified m | .woken m => some m
  | .outside | .asleep _ => none

/-- The call in whose wait the thread sleeps. -/
def sleeping : Pos μ → Option μ
  | .asleep m => some m
  | _ => none

/-- The call in which a signal picked the thread. Until it takes the
mutex again, the signal is on its way: this is what the invariants
count when they say that a wake-up is not lost. -/
def picked : Pos μ → Option μ
  | .notified m => some m
  | _ => none

/-- A sleeping thread that a signal picks. -/
def notify : Pos μ → Pos μ
  | .asleep m => .notified m
  | p => p

/-- The call that the thread is in. -/
def within : Pos μ → Option μ
  | .outside => none
  | .entering m | .asleep m | .notified m | .woken m => some m

@[simp] theorem within_notify (p : Pos μ) : p.notify.within = p.within := by
  cases p <;> rfl

/-- A thread that is in no call is outside. -/
theorem within_eq_none_iff {p : Pos μ} : p.within = none ↔ p = .outside := by
  cases p <;> simp [within]

/-- A thread that can run a lock section is in its call. -/
theorem within_of_runnable {p : Pos μ} {m : μ} (h : p.runnable = some m) : p.within = some m := by
  cases p <;> first | exact h | cases h

/-- A thread in a call sleeps in it or can run its lock section. There
is no third place, so a thread that cannot run sleeps. -/
theorem asleep_or_runnable {p : Pos μ} {m : μ} (h : p.within = some m) :
    p = .asleep m ∨ p.runnable = some m := by
  cases p <;> cases h <;> first | exact .inl rfl | exact .inr rfl

end Pos

/-- A completed call: the thread, the call and its result. A history
is the list of these, in the order of their lock sections. -/
structure Done (τ μ ρ : Type) where
  thread : τ
  call : μ
  result : ρ
  deriving DecidableEq, Repr

/-- The state of a monitor that the threads `τ` share. `hist` lists
the completed calls in the order of their lock sections. `aborted` is
set when an assertion fails, which ends the process. -/
structure State (τ σ μ ρ : Type) where
  data : σ
  pos : τ → Pos μ
  hist : List (Done τ μ ρ)
  aborted : Bool

/-- How a lock section ends: asleep in the wait, with a failed
assertion in the body, or with a result. -/
inductive Outcome (ρ : Type) where
  | slept
  | aborted
  | returned (r : ρ)
  deriving DecidableEq, Repr

/-- The call returned. -/
def Outcome.isReturned {ρ : Type} : Outcome ρ → Bool
  | .returned _ => true
  | .slept | .aborted => false

/-- The events of a monitor. The event of a lock section names the
thread that its signal picks, if any, and a spurious wake-up is an
event of its own. -/
inductive Event (τ μ : Type) where
  | call (t : τ) (m : μ)
  | acquire (t : τ) (pick : Option τ)
  | spurious (t : τ)
  deriving DecidableEq, Repr

namespace State

variable {τ σ κ μ ρ : Type} [DecidableEq τ]

/-- The thread `t` moves to `p`. -/
def move (s : State τ σ μ ρ) (t : τ) (p : Pos μ) : State τ σ μ ρ :=
  { s with pos := Function.update s.pos t p }

/-- The thread `t` completes the call `m` with the data `d` and the
result `r`. -/
def complete (s : State τ σ μ ρ) (t : τ) (m : μ) (d : σ) (r : ρ) : State τ σ μ ρ :=
  { s with data := d, pos := Function.update s.pos t .outside, hist := s.hist ++ [⟨t, m, r⟩] }

@[simp] theorem move_pos (s : State τ σ μ ρ) (t : τ) (p : Pos μ) :
    (s.move t p).pos = Function.update s.pos t p := rfl
@[simp] theorem complete_data (s : State τ σ μ ρ) (t : τ) (m : μ) (d : σ) (r : ρ) :
    (s.complete t m d r).data = d := rfl
@[simp] theorem complete_pos (s : State τ σ μ ρ) (t : τ) (m : μ) (d : σ) (r : ρ) :
    (s.complete t m d r).pos = Function.update s.pos t .outside := rfl

end State

section Calls

variable {τ σ μ ρ : Type} [DecidableEq τ]

/-- The thread `t` calls the method `m`. It has the mutex only in its
lock section, which is another step. -/
def call (s : State τ σ μ ρ) (t : τ) (m : μ) : Option (State τ σ μ ρ) :=
  match s.aborted, s.pos t with
  | false, .outside => some (s.move t (.entering m))
  | _, _ => none

/-- The sleeping thread `t` wakes without a signal. It is about to
take the mutex like a notified thread, but no signal is on its way to
it. -/
def spurious (s : State τ σ μ ρ) (t : τ) : Option (State τ σ μ ρ) :=
  match s.aborted, s.pos t with
  | false, .asleep m => some (s.move t (.woken m))
  | _, _ => none

variable {s s' : State τ σ μ ρ} {t : τ} {m : μ}

/-- A call moves the calling thread from outside to the mutex. It
touches neither the data nor the history, so a call alone changes
nothing that other threads can see. -/
theorem call_cases (h : call s t m = some s') :
    s.aborted = false ∧ s.pos t = .outside ∧ s' = s.move t (.entering m) := by
  unfold call at h
  split at h
  · rename_i hab hpos
    exact ⟨hab, hpos, (Option.some.inj h).symm⟩
  · cases h

/-- A call takes the thread to the mutex, and touches nothing else. -/
theorem call_runnable (h : call s t m = some s') :
    (s'.pos t).runnable = some m ∧ s'.data = s.data ∧ s'.aborted = false := by
  obtain ⟨hab, -, rfl⟩ := call_cases h
  rw [State.move_pos, Function.update_self]
  exact ⟨rfl, rfl, hab⟩

/-- A thread outside can call any method. -/
theorem exists_call (hab : s.aborted = false) (hout : (s.pos t).within = none) (m : μ) :
    ∃ q, call s t m = some q := by
  cases hpos : s.pos t with
  | outside => exact ⟨_, by rw [call, hab, hpos]⟩
  | _ => simp [hpos, Pos.within] at hout

/-- A spurious wake-up moves a sleeping thread to the mutex. -/
theorem spurious_cases (h : spurious s t = some s') :
    s.aborted = false ∧ ∃ m, s.pos t = .asleep m ∧ s' = s.move t (.woken m) := by
  unfold spurious at h
  split at h
  · rename_i m hab hpos
    exact ⟨hab, m, hpos, (Option.some.inj h).symm⟩
  · cases h

/-- A call moves the calling thread into it, and no other thread. -/
theorem call_within (h : call s t m = some s') (u : τ) :
    (s'.pos u).within = if u = t then some m else (s.pos u).within := by
  obtain ⟨-, -, rfl⟩ := call_cases h
  rw [State.move_pos, Function.update_apply]
  split <;> rfl

/-- A spurious wake-up moves no thread into a call or out of one. -/
theorem spurious_within (h : spurious s t = some s') (u : τ) :
    (s'.pos u).within = (s.pos u).within := by
  obtain ⟨-, m, hpos, rfl⟩ := spurious_cases h
  rw [State.move_pos, Function.update_apply]
  split
  · rename_i hu
    rw [hu, hpos]
    rfl
  · rfl

/-- A call puts no thread to sleep. -/
theorem call_asleep (h : call s t m = some s') {u : τ} {m' : μ} (hu : s'.pos u = .asleep m') :
    s.pos u = .asleep m' := by
  obtain ⟨-, -, rfl⟩ := call_cases h
  rw [State.move_pos, Function.update_apply] at hu
  split at hu
  · cases hu
  · exact hu

/-- A spurious wake-up puts no thread to sleep. -/
theorem spurious_asleep (h : spurious s t = some s') {u : τ} {m' : μ}
    (hu : s'.pos u = .asleep m') : s.pos u = .asleep m' := by
  obtain ⟨-, m, -, rfl⟩ := spurious_cases h
  rw [State.move_pos, Function.update_apply] at hu
  split at hu
  · cases hu
  · exact hu

end Calls

/-! ### Sleepers and notified threads -/

variable {τ σ κ μ ρ : Type}

/-- The thread `t` sleeps on the condition variable `k`, un-notified.
The condition variable is that of the method it is in, since each
method waits on at most one. -/
def AsleepOn (M : Monitor σ κ μ ρ) (s : State τ σ μ ρ) (k : κ) (t : τ) : Prop :=
  (s.pos t).sleeping.bind (fun m => (M.method m).waitsOn) = some k

/-- A signal on `k` picked the thread `t`, which has not yet taken the
mutex again. -/
def NotifiedOn (M : Monitor σ κ μ ρ) (s : State τ σ μ ρ) (k : κ) (t : τ) : Prop :=
  (s.pos t).picked.bind (fun m => (M.method m).waitsOn) = some k

section Positions

variable {M : Monitor σ κ μ ρ} {s : State τ σ μ ρ} {t : τ} {m : μ}

/-- A sleeper cannot run. -/
theorem AsleepOn.runnable {k : κ} {u : τ} (h : AsleepOn M s k u) : (s.pos u).runnable = none := by
  unfold AsleepOn at h
  cases hpos : s.pos u with
  | asleep m => rfl
  | _ => simp [hpos, Pos.sleeping] at h

/-- A notified thread can run. -/
theorem NotifiedOn.runnable {k : κ} {u : τ} (h : NotifiedOn M s k u) :
    ∃ m, (s.pos u).runnable = some m ∧ (M.method m).waitsOn = some k := by
  unfold NotifiedOn at h
  cases hpos : s.pos u with
  | notified m => exact ⟨m, rfl, by simpa [hpos, Pos.picked] using h⟩
  | _ => simp [hpos, Pos.picked] at h

/-- A thread that can run is not a sleeper. -/
theorem not_asleepOn_of_runnable {k : κ} (h : (s.pos t).runnable = some m) :
    ¬ AsleepOn M s k t := by
  intro hasleep
  rw [hasleep.runnable] at h
  cases h

variable [DecidableEq τ]

/-- A move of `t` changes the sleepers only at `t`. -/
theorem asleepOn_move {k : κ} {p : Pos μ} {u : τ} :
    AsleepOn M (s.move t p) k u ↔
      if u = t then p.sleeping.bind (fun m => (M.method m).waitsOn) = some k
      else AsleepOn M s k u := by
  unfold AsleepOn
  rw [State.move_pos, Function.update_apply]
  split <;> rfl

/-- A move of `t` changes the notified threads only at `t`. -/
theorem notifiedOn_move {k : κ} {p : Pos μ} {u : τ} :
    NotifiedOn M (s.move t p) k u ↔
      if u = t then p.picked.bind (fun m => (M.method m).waitsOn) = some k
      else NotifiedOn M s k u := by
  unfold NotifiedOn
  rw [State.move_pos, Function.update_apply]
  split <;> rfl

/-- A thread that completes its call is not a sleeper. -/
theorem asleepOn_complete {k : κ} {d : σ} {r : ρ} {u : τ} :
    AsleepOn M (s.complete t m d r) k u ↔ u ≠ t ∧ AsleepOn M s k u := by
  unfold AsleepOn
  rw [State.complete_pos, Function.update_apply]
  split
  · rename_i hu
    simp [hu, Pos.sleeping]
  · rename_i hu
    simp [hu]

/-- A thread that completes its call is not a notified thread. -/
theorem notifiedOn_complete {k : κ} {d : σ} {r : ρ} {u : τ} :
    NotifiedOn M (s.complete t m d r) k u ↔ u ≠ t ∧ NotifiedOn M s k u := by
  unfold NotifiedOn
  rw [State.complete_pos, Function.update_apply]
  split
  · rename_i hu
    simp [hu, Pos.picked]
  · rename_i hu
    simp [hu]

/-- The pick of a sleeper on `k` makes it a notified thread on `k`,
and changes no other thread. Together with `notify_cases_of_ne` this
is the whole effect of a signal. -/
theorem notify_cases {k : κ} {u : τ} (h : AsleepOn M s k u) (v : τ) :
    (AsleepOn M (s.move u (s.pos u).notify) k v ↔ v ≠ u ∧ AsleepOn M s k v) ∧
    (NotifiedOn M (s.move u (s.pos u).notify) k v ↔ v = u ∨ NotifiedOn M s k v) := by
  rw [asleepOn_move, notifiedOn_move]
  unfold AsleepOn at h
  cases hpos : s.pos u with
  | asleep m =>
      have hm : (M.method m).waitsOn = some k := by simpa [hpos, Pos.sleeping] using h
      by_cases hv : v = u <;> simp [hv, Pos.notify, Pos.sleeping, Pos.picked, hm]
  | _ => simp [hpos, Pos.sleeping] at h

/-- The pick of a sleeper on another condition variable changes
neither the sleepers nor the notified threads on `k`. -/
theorem notify_cases_of_ne {k k' : κ} {u : τ} (h : AsleepOn M s k' u) (hk : k ≠ k') (v : τ) :
    (AsleepOn M (s.move u (s.pos u).notify) k v ↔ AsleepOn M s k v) ∧
    (NotifiedOn M (s.move u (s.pos u).notify) k v ↔ NotifiedOn M s k v) := by
  rw [asleepOn_move, notifiedOn_move]
  unfold AsleepOn at h
  cases hpos : s.pos u with
  | asleep m =>
      have hm : (M.method m).waitsOn = some k' := by simpa [hpos, Pos.sleeping] using h
      by_cases hv : v = u
      · subst hv
        simp [AsleepOn, NotifiedOn, hpos, Pos.notify, Pos.sleeping, Pos.picked, hm, Ne.symm hk]
      · simp [hv]
  | _ => simp [hpos, Pos.sleeping] at h

end Positions

variable [DecidableEq κ]

instance (M : Monitor σ κ μ ρ) (s : State τ σ μ ρ) (k : κ) (t : τ) :
    Decidable (AsleepOn M s k t) :=
  inferInstanceAs (Decidable (_ = _))

instance (M : Monitor σ κ μ ρ) (s : State τ σ μ ρ) (k : κ) (t : τ) :
    Decidable (NotifiedOn M s k t) :=
  inferInstanceAs (Decidable (_ = _))

/-! ### The steps -/

variable [DecidableEq τ] [Fintype τ]

/-- `notify_one`: wakes the sleeper `pick`. Without a sleeper on `k`
nothing happens, and the signal is not kept for a later sleeper. -/
def notifyOne (M : Monitor σ κ μ ρ) (s : State τ σ μ ρ) (k : κ) (pick : Option τ) :
    Option (State τ σ μ ρ) :=
  match pick with
  | some u => if AsleepOn M s k u then some (s.move u (s.pos u).notify) else none
  -- A signal is lost only where nobody sleeps.
  | none => if ∀ u, ¬ AsleepOn M s k u then some s else none

/-- The signal at the end of a body. Which sleeper it wakes is not the
program's choice, so it is a parameter of the step. -/
def signal (M : Monitor σ κ μ ρ) (s : State τ σ μ ρ) (sig : Option κ) (pick : Option τ) :
    Option (State τ σ μ ρ) :=
  match sig with
  | none => some s
  | some k => notifyOne M s k pick

/-- The thread `t` takes the mutex and runs to the release: the body
if the predicate of the wait holds, else to sleep. Where the body
signals, `pick` is the thread that wakes. The section is not enabled
for a `pick` that does not sleep there, or for none while somebody
does. -/
def acquire (M : Monitor σ κ μ ρ) (s : State τ σ μ ρ) (t : τ) (pick : Option τ) :
    Option (State τ σ μ ρ × Outcome ρ) :=
  match s.aborted, (s.pos t).runnable with
  | false, some m =>
    if (M.method m).ready s.data then
      match (M.method m).body s.data with
      -- A failed assertion ends the process inside the lock section.
      | none => some ({ s with aborted := true }, .aborted)
      | some (d, r, sig) => (signal M (s.complete t m d r) sig pick).map (·, .returned r)
    -- The wait releases the mutex and sleeps in one step, so no signal falls
    -- in between.
    else some (s.move t (.asleep m), .slept)
  | _, _ => none

/-- The state before any call. -/
def initial (M : Monitor σ κ μ ρ) : State τ σ μ ρ :=
  { data := M.init, pos := fun _ => .outside, hist := [], aborted := false }

/-- The monitor as a transition system, for threads that call any
methods in any order. A system with fixed programs for its threads
restricts the calls and uses the same lock sections. -/
def system (τ : Type) [DecidableEq τ] [Fintype τ] (M : Monitor σ κ μ ρ) :
    System (State τ σ μ ρ) (Event τ μ) where
  init s := s = M.initial
  step s
    | .call t m => call s t m
    | .acquire t pick => (acquire M s t pick).map Prod.fst
    | .spurious t => spurious s t

/-! ### What a step can do -/

variable {M : Monitor σ κ μ ρ} {s s' : State τ σ μ ρ} {t : τ} {m : μ}

/-- A signal changes nothing (there is none, or nobody sleeps on its
condition variable) or it picks one sleeper. Proofs about signals
start here, and never unfold `notifyOne`. -/
theorem signal_cases {sig : Option κ} {pick : Option τ} (h : signal M s sig pick = some s') :
    (s' = s ∧ ∀ k, sig = some k → ∀ u, ¬ AsleepOn M s k u) ∨
    ∃ k u, sig = some k ∧ AsleepOn M s k u ∧ s' = s.move u (s.pos u).notify := by
  cases sig with
  | none => exact .inl ⟨(Option.some.inj h).symm, fun k hk => nomatch hk⟩
  | some k =>
      simp only [signal, notifyOne] at h
      cases pick with
      | none =>
          obtain ⟨hnone, heq⟩ := Option.ite_none_right_eq_some.mp h
          -- Without a pick the step is enabled only where nobody sleeps on
          -- `k`.
          refine .inl ⟨(Option.some.inj heq).symm, fun k' hk' => ?_⟩
          cases hk'
          exact hnone
      | some u =>
          obtain ⟨hu, heq⟩ := Option.ite_none_right_eq_some.mp h
          exact .inr ⟨k, u, rfl, hu, (Option.some.inj heq).symm⟩

/-- The lock section of `t` for the call `m`: the thread goes to
sleep, an assertion of the body fails, or the call completes and its
signal is sent. -/
inductive Section (M : Monitor σ κ μ ρ) (s : State τ σ μ ρ) (t : τ) (m : μ) (pick : Option τ) :
    State τ σ μ ρ → Outcome ρ → Prop where
  | slept (hready : (M.method m).ready s.data = false) :
      Section M s t m pick (s.move t (.asleep m)) .slept
  | aborted (hready : (M.method m).ready s.data = true)
      (hbody : (M.method m).body s.data = none) :
      Section M s t m pick { s with aborted := true } .aborted
  | returned {s' : State τ σ μ ρ} {d : σ} {r : ρ} {sig : Option κ}
      (hready : (M.method m).ready s.data = true)
      (hbody : (M.method m).body s.data = some (d, r, sig))
      (hsignal : signal M (s.complete t m d r) sig pick = some s') :
      Section M s t m pick s' (.returned r)

/-- A lock section runs for a thread that is at the mutex, and is one
of the three sections of its call. This is the inversion lemma of the
module: it says everything that a lock section can do, with the guards
under which it does it. -/
theorem acquire_cases {pick : Option τ} {o : Outcome ρ}
    (h : acquire M s t pick = some (s', o)) :
    s.aborted = false ∧ ∃ m, (s.pos t).runnable = some m ∧ Section M s t m pick s' o := by
  unfold acquire at h
  split at h
  · rename_i m hab hrun
    refine ⟨hab, m, hrun, ?_⟩
    split at h
    · rename_i hready
      split at h
      · rename_i hbody
        cases h
        exact .aborted hready hbody
      · rename_i d r sig hbody
        obtain ⟨s₁, hs₁, heq⟩ := Option.map_eq_some_iff.mp h
        cases heq
        exact .returned hready hbody hs₁
    · rename_i hready
      cases h
      exact .slept (by simpa using hready)
  · cases h

/-- A signal is always possible: it picks a sleeper if there is one.
So the choice of `pick` never blocks a lock section. -/
theorem exists_signal (M : Monitor σ κ μ ρ) (s : State τ σ μ ρ) (sig : Option κ) :
    ∃ pick s', signal M s sig pick = some s' := by
  cases sig with
  | none => exact ⟨none, s, rfl⟩
  | some k =>
      -- The environment picks: any sleeper will do.
      by_cases h : ∃ u, AsleepOn M s k u
      · obtain ⟨u, hu⟩ := h
        exact ⟨some u, _, if_pos hu⟩
      · exact ⟨none, s, if_pos (not_exists.mp h)⟩

/-- A thread at the mutex can run its lock section. A monitor is never
stuck inside of a section: where no thread can go on, every thread in
a call sleeps. -/
theorem exists_acquire (hab : s.aborted = false) (hrun : (s.pos t).runnable = some m) :
    ∃ pick q, acquire M s t pick = some q := by
  simp only [acquire, hab, hrun]
  split
  · split
    · exact ⟨none, _, rfl⟩
    · rename_i d r sig _
      obtain ⟨pick, s', hs'⟩ := exists_signal M (s.complete t m d r) sig
      exact ⟨pick, (s', .returned r), by rw [hs']; rfl⟩
  · exact ⟨none, _, rfl⟩

/-- Where nobody sleeps, a lock section whose predicate holds
completes the call, and its signal finds nobody. -/
theorem acquire_of_awake (hawake : ∀ u m, s.pos u ≠ .asleep m) (hab : s.aborted = false)
    (hrun : (s.pos t).runnable = some m) (hready : (M.method m).ready s.data = true)
    (hbody : (M.method m).body s.data ≠ none) :
    ∃ d r sig, (M.method m).body s.data = some (d, r, sig) ∧
      acquire M s t none = some (s.complete t m d r, .returned r) := by
  obtain ⟨⟨d, r, sig⟩, hsome⟩ := Option.ne_none_iff_exists'.mp hbody
  refine ⟨d, r, sig, hsome, ?_⟩
  have hsignal : signal M (s.complete t m d r) sig none = some (s.complete t m d r) := by
    cases sig with
    | none => rfl
    | some k =>
        refine if_pos fun u hu => ?_
        rw [asleepOn_complete] at hu
        obtain ⟨m', hm', -⟩ := Option.bind_eq_some_iff.mp hu.2
        cases hpos : s.pos u <;> rw [hpos] at hm' <;> cases hm'
        exact hawake u m' hpos
  simp [acquire, hab, hrun, hready, hsome, hsignal]

/-- A sleeping thread has no lock section to run. -/
theorem acquire_of_asleep (M : Monitor σ κ μ ρ) (pick : Option τ) (hpos : s.pos t = .asleep m) :
    acquire M s t pick = none := by
  unfold acquire
  rw [hpos]
  cases s.aborted <;> rfl

/-- A signal touches neither the data, nor the history, nor the
assertions. -/
theorem signal_frame {sig : Option κ} {pick : Option τ} (h : signal M s sig pick = some s') :
    s'.data = s.data ∧ s'.hist = s.hist ∧ s'.aborted = s.aborted := by
  obtain ⟨rfl, -⟩ | ⟨k, u, -, -, rfl⟩ := signal_cases h
  · exact ⟨rfl, rfl, rfl⟩
  · exact ⟨rfl, rfl, rfl⟩

/-- A signal moves no thread into a call or out of one. -/
theorem signal_within {sig : Option κ} {pick : Option τ} (h : signal M s sig pick = some s')
    (u : τ) : (s'.pos u).within = (s.pos u).within := by
  obtain ⟨rfl, -⟩ | ⟨k, v, -, -, rfl⟩ := signal_cases h
  · rfl
  · rw [State.move_pos, Function.update_apply]
    split
    · rename_i huv
      rw [huv, Pos.within_notify]
    · rfl

/-- A lock section of `t` takes `t` out of its call when the call
returns, and moves no other thread into a call or out of one. A signal
changes where a sleeper stands in its call, and not which call it is
in. -/
theorem acquire_within {pick : Option τ} {o : Outcome ρ} (h : acquire M s t pick = some (s', o))
    (u : τ) :
    (s'.pos u).within = if u = t ∧ o.isReturned then none else (s.pos u).within := by
  obtain ⟨-, m, hrun, hsec⟩ := acquire_cases h
  cases hsec with
  | slept =>
      rw [State.move_pos, Function.update_apply]
      split
      · rename_i hu
        rw [hu, Pos.within_of_runnable hrun, if_neg nofun]
        rfl
      · simp [Outcome.isReturned]
  | aborted => simp [Outcome.isReturned]
  | returned _ _ hsignal =>
      -- The call takes `t` outside, and the signal keeps the thread it picks
      -- in its call.
      rw [signal_within hsignal, State.complete_pos, Function.update_apply]
      split
      · rename_i hu
        simp [hu, Outcome.isReturned, Pos.within]
      · rename_i hu
        simp [hu]

/-- A lock section that ends the call of `t` takes `t` outside, and
leaves the other threads in their calls. -/
theorem acquire_within_returned {pick : Option τ} {r : ρ}
    (h : acquire M s t pick = some (s', .returned r)) (u : τ) :
    (s'.pos u).within = if u = t then none else (s.pos u).within := by
  rw [acquire_within h u]
  simp [Outcome.isReturned]

/-- A lock section that does not end the call of `t` leaves all
threads in their calls. -/
theorem acquire_within_waits {pick : Option τ} {o : Outcome ρ}
    (h : acquire M s t pick = some (s', o)) (hret : o.isReturned = false) (u : τ) :
    (s'.pos u).within = (s.pos u).within := by
  rw [acquire_within h u, hret]
  simp

/-- A lock section of `t` puts no other thread to sleep. So the
sleepers other than `t` after the section slept before it. -/
theorem acquire_asleep {pick : Option τ} {o : Outcome ρ} (h : acquire M s t pick = some (s', o))
    {u : τ} (hne : u ≠ t) {m' : μ} (hu : s'.pos u = .asleep m') : s.pos u = .asleep m' := by
  obtain ⟨-, m, -, hsec⟩ := acquire_cases h
  cases hsec with
  | slept =>
      rw [State.move_pos, Function.update_of_ne hne] at hu
      exact hu
  | aborted => exact hu
  | returned _ _ hsignal =>
      obtain ⟨rfl, -⟩ | ⟨k, v, -, -, rfl⟩ := signal_cases hsignal
      · rw [State.complete_pos, Function.update_of_ne hne] at hu
        exact hu
      · -- The thread that the signal picks is not asleep any more.
        rw [State.move_pos, Function.update_apply] at hu
        split at hu
        · cases hpos : (s.complete t m _ _).pos v <;> rw [hpos] at hu <;> cases hu
        · rw [State.complete_pos, Function.update_of_ne hne] at hu
          exact hu

/-- A lock section that does not return leaves the data alone. -/
theorem acquire_data {pick : Option τ} {o : Outcome ρ} (h : acquire M s t pick = some (s', o))
    (hret : o.isReturned = false) : s'.data = s.data := by
  obtain ⟨-, m, -, hsec⟩ := acquire_cases h
  cases hsec with
  | slept | aborted => rfl
  | returned => cases hret

/-- A lock section that does not return completes no call. -/
theorem acquire_hist {pick : Option τ} {o : Outcome ρ} (h : acquire M s t pick = some (s', o))
    (hret : o.isReturned = false) : s'.hist = s.hist := by
  obtain ⟨-, m, -, hsec⟩ := acquire_cases h
  cases hsec with
  | slept | aborted => rfl
  | returned => cases hret

/-- A lock section that returns completes the call that the thread is
in. -/
theorem acquire_hist_returned {pick : Option τ} {r : ρ} (hm : (s.pos t).within = some m)
    (h : acquire M s t pick = some (s', .returned r)) : s'.hist = s.hist ++ [⟨t, m, r⟩] := by
  obtain ⟨-, m', hrun, hsec⟩ := acquire_cases h
  cases (Pos.within_of_runnable hrun).symm.trans hm
  cases hsec with
  | returned _ _ hsignal => exact (signal_frame hsignal).2.1

/-- A step completes at most one call, and forgets none. The history
only grows at its end. -/
theorem hist_step {e : Event τ μ} (h : (M.system τ).step s e = some s') :
    ∃ new, s'.hist = s.hist ++ new := by
  cases e with
  | call t m =>
      obtain ⟨-, -, rfl⟩ := call_cases h
      exact ⟨[], (List.append_nil _).symm⟩
  | acquire t pick =>
      obtain ⟨⟨q, o⟩, hacq, rfl⟩ := Option.map_eq_some_iff.mp h
      obtain ⟨-, m, hrun, -⟩ := acquire_cases hacq
      cases o with
      | slept | aborted => exact ⟨[], by rw [acquire_hist hacq rfl, List.append_nil]⟩
      | returned r =>
          exact ⟨_, acquire_hist_returned (Pos.within_of_runnable hrun) hacq⟩
  | spurious t =>
      obtain ⟨-, m, -, rfl⟩ := spurious_cases h
      exact ⟨[], (List.append_nil _).symm⟩

/-- Every thread is in a call that it may make, where it makes no
other. `R` says which thread may make which call: the rule lifts a
restriction of the programs to the positions of the threads. -/
theorem within_step {R : τ → μ → Prop} {e : Event τ μ}
    (h : ∀ u m, (s.pos u).within = some m → R u m) (he : ∀ u m, e = .call u m → R u m)
    (hs : (M.system τ).step s e = some s') {u : τ} {m : μ} (hu : (s'.pos u).within = some m) :
    R u m := by
  cases e with
  | call t m' =>
      rw [call_within hs u] at hu
      split at hu
      · rename_i hut
        cases hu
        rw [hut]
        exact he t m rfl
      · exact h u m hu
  | acquire t pick =>
      obtain ⟨⟨s₁, o⟩, hacq, rfl⟩ := Option.map_eq_some_iff.mp hs
      rw [acquire_within hacq u] at hu
      split at hu
      · cases hu
      · exact h u m hu
  | spurious t =>
      rw [spurious_within hs u] at hu
      exact h u m hu

/-- The sleepers and the notified threads on `k` after a completed
call of `t` that does not signal `k`: only `t` changes. -/
theorem returned_frame {k : κ} {d : σ} {r : ρ} {sig : Option κ} {pick : Option τ}
    (h : signal M (s.complete t m d r) sig pick = some s') (hk : sig ≠ some k) (v : τ) :
    (AsleepOn M s' k v ↔ v ≠ t ∧ AsleepOn M s k v) ∧
    (NotifiedOn M s' k v ↔ v ≠ t ∧ NotifiedOn M s k v) := by
  obtain ⟨rfl, -⟩ | ⟨k', u, hsig, hu, rfl⟩ := signal_cases h
  · exact ⟨asleepOn_complete, notifiedOn_complete⟩
  · have hne : k ≠ k' := fun heq => hk (heq ▸ hsig)
    -- The signal picked a sleeper of another condition variable.
    obtain ⟨ha, hn⟩ := notify_cases_of_ne hu hne v
    exact ⟨ha.trans asleepOn_complete, hn.trans notifiedOn_complete⟩

/-- The sleepers and the notified threads on `k` after a completed
call of `t` that signals `k`: nobody sleeps on `k`, or one sleeper is
now a notified thread. In the first case the signal is lost, which
does no harm as there is nobody to wake. -/
theorem returned_signal {k : κ} {d : σ} {r : ρ} {pick : Option τ}
    (h : signal M (s.complete t m d r) (some k) pick = some s') :
    ((∀ v, ¬ AsleepOn M s' k v) ∧ ∀ v, NotifiedOn M s' k v ↔ v ≠ t ∧ NotifiedOn M s k v) ∨
    ∃ u, u ≠ t ∧ AsleepOn M s k u ∧
      (∀ v, AsleepOn M s' k v ↔ v ≠ u ∧ v ≠ t ∧ AsleepOn M s k v) ∧
      ∀ v, NotifiedOn M s' k v ↔ v = u ∨ (v ≠ t ∧ NotifiedOn M s k v) := by
  obtain ⟨rfl, hnone⟩ | ⟨k', u, hsig, hu, rfl⟩ := signal_cases h
  · exact .inl ⟨hnone k rfl, fun v => notifiedOn_complete⟩
  · cases hsig
    -- The pick slept before the call as well, and it is not `t`, which is
    -- outside by now.
    obtain ⟨hut, hus⟩ := asleepOn_complete.mp hu
    refine .inr ⟨u, hut, hus, fun v => ?_, fun v => ?_⟩
    · rw [(notify_cases hu v).1, asleepOn_complete]
    · rw [(notify_cases hu v).2, notifiedOn_complete]

/-! ### Atomicity of the lock sections -/

/-- The runs of the methods one after another, each where its
predicate holds: the completed calls and the data they lead to. No
thread sleeps in such a run, and no call overlaps with another. -/
inductive Sequential (M : Monitor σ κ μ ρ) : List (Done τ μ ρ) → σ → Prop where
  | nil : Sequential M [] M.init
  | snoc {h : List (Done τ μ ρ)} {d d' : σ} {t : τ} {m : μ} {r : ρ} {sig : Option κ}
      (hseq : Sequential M h d) (hready : (M.method m).ready d = true)
      (hbody : (M.method m).body d = some (d', r, sig)) :
      Sequential M (h ++ [⟨t, m, r⟩]) d'

/-- One lock section extends the sequential run by the call it
completes, if any. A section that goes to sleep or aborts leaves the
history and the data as they are. -/
theorem Section.sequential {pick : Option τ} {o : Outcome ρ}
    (h : Section M s t m pick s' o) (hs : Sequential M s.hist s.data) :
    Sequential M s'.hist s'.data := by
  cases h with
  | slept => exact hs
  | aborted => exact hs
  | returned hready hbody hsignal =>
      obtain ⟨hdata, hhist, -⟩ := signal_frame hsignal
      rw [hdata, hhist]
      exact .snoc hs hready hbody

/-- The rule for what only the lock sections change: a move of a
thread keeps it, and so does a lock section. It spares the proofs the
calls and the spurious wake-ups, which only move a thread. -/
theorem Reachable.induct_section {I : State τ σ μ ρ → Prop} (hinit : I M.initial)
    (hmove : ∀ s t p, I s → I (s.move t p))
    (hsection : ∀ s t m pick s' o, s.aborted = false → Section M s t m pick s' o → I s → I s')
    (h : (M.system τ).Reachable s) : I s := by
  refine h.induct ?_ ?_
  · rintro s rfl
    exact hinit
  · intro s e s' _ ih hstep
    cases e with
    | call t m =>
        obtain ⟨-, -, rfl⟩ := call_cases hstep
        exact hmove s t _ ih
    | acquire t pick =>
        obtain ⟨⟨s₁, o⟩, hacq, rfl⟩ := Option.map_eq_some_iff.mp hstep
        obtain ⟨hab, m, -, hsec⟩ := acquire_cases hacq
        exact hsection s t m pick s₁ o hab hsec ih
    | spurious t =>
        obtain ⟨-, m, -, rfl⟩ := spurious_cases hstep
        exact hmove s t _ ih

/-- In every reachable state, the completed calls in lock order are a
sequential run of the methods, and the data is the result of that run.
A property of the data is therefore an induction over calls, without
threads. -/
theorem Reachable.sequential (h : (M.system τ).Reachable s) : Sequential M s.hist s.data := by
  refine Reachable.induct_section (I := fun s => Sequential M s.hist s.data) .nil ?_ ?_ h
  · intro s t p ih
    exact ih
  · intro s t m pick s' o _ hsec ih
    exact hsec.sequential ih

/-- No assertion fails when every body is defined wherever the
predicate of its wait holds. The assertion behind a wait repeats the
predicate, and the mutex is held in between, so the wait has to have
ended with the predicate true. -/
theorem Reachable.not_aborted
    (htotal : ∀ m d, (M.method m).ready d = true → (M.method m).body d ≠ none)
    (h : (M.system τ).Reachable s) : s.aborted = false := by
  refine Reachable.induct_section (I := fun s => s.aborted = false) rfl ?_ ?_ h
  · intro s t p ih
    exact ih
  · intro s t m pick s' o hab hsec _
    cases hsec with
    | slept => exact hab
    -- The body runs where the predicate of the wait holds, and it is defined
    -- there.
    | aborted hready hbody => exact absurd hbody (htotal m _ hready)
    | returned _ _ hsignal => exact (signal_frame hsignal).2.2.trans hab

end Monitor

end Bigpipe.Lib
