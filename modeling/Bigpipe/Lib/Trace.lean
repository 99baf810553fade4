import Mathlib.Data.List.DropRight

/-!
# `Bigpipe.Lib.Trace`: the actions of the threads in a log

A log holds the actions of several threads, each with its thread. What
one thread has done is its trace, and what it has done since an action
of some kind is the end of its trace.

The log is in the order in which the actions happened, whoever took
them. A trace forgets what the other threads did in between, so it can
be compared with a run of the thread alone.

* `trace_append`, `trace_own`, `trace_other`: the trace of a log that
  grows.
* `since_append_of_forall`: actions of other kinds come after the last
  of the kind. `since_append_cons`: where one of the kind comes, only
  what is behind it is left.
-/

set_option autoImplicit false

namespace Bigpipe.Lib.Trace

variable {τ α : Type} [DecidableEq τ]

/-- The actions of the thread `t` in a log, in the order of the log
and without the thread, which is the same for all of them. -/
def trace (t : τ) (log : List (τ × α)) : List α :=
  log.filterMap fun entry => if entry.1 = t then some entry.2 else none

/-- What comes behind the last action with `p`. Where there is none,
it is the whole trace. -/
def since (p : α → Bool) (actions : List α) : List α :=
  actions.rtakeWhile fun a => !p a

@[simp] theorem trace_nil (t : τ) : trace t ([] : List (τ × α)) = [] := rfl

@[simp] theorem trace_append (t : τ) (log log' : List (τ × α)) :
    trace t (log ++ log') = trace t log ++ trace t log' :=
  List.filterMap_append

/-- The thread's own actions. -/
@[simp] theorem trace_own (t : τ) (actions : List α) :
    trace t (actions.map fun a => (t, a)) = actions := by
  induction actions with
  | nil => rfl
  | cons a actions ih =>
      rw [List.map_cons, trace, List.filterMap_cons]
      simp only [if_true]
      exact congrArg (a :: ·) ih

/-- The actions of another thread leave no trace of this one, however
many there are. -/
theorem trace_other {t t' : τ} (h : t' ≠ t) (actions : List α) :
    trace t (actions.map fun a => (t', a)) = [] := by
  induction actions with
  | nil => rfl
  | cons a actions ih =>
      rw [List.map_cons, trace, List.filterMap_cons]
      simp only [h, if_false]
      exact ih

variable {p : α → Bool} {actions actions' : List α}

@[simp] theorem since_nil : since p [] = [] := rfl

/-- An action of another kind comes behind the last of the kind. -/
theorem since_append_of_forall (h : ∀ a ∈ actions', p a = false) :
    since p (actions ++ actions') = since p actions ++ actions' := by
  induction actions' using List.reverseRecOn with
  | nil => simp
  | append_singleton actions' a ih =>
      have ha : p a = false := h a (by simp)
      rw [← List.append_assoc, since, List.rtakeWhile_concat_pos _ _ _ (by simp [ha])]
      show since p (actions ++ actions') ++ [a] = _
      rw [ih fun b hb => h b (by simp [hb]), List.append_assoc]

/-- Behind an action of the kind. -/
theorem since_append_cons {a : α} (ha : p a = true) (h : ∀ b ∈ actions', p b = false) :
    since p (actions ++ a :: actions') = actions' := by
  have hlast : since p (actions ++ [a]) = [] :=
    List.rtakeWhile_concat_neg _ _ _ (by simp [ha])
  rw [List.append_cons, since_append_of_forall h, hlast]
  rfl

end Bigpipe.Lib.Trace
