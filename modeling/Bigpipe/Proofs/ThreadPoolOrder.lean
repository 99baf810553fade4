import Bigpipe.Proofs.ThreadPoolTasks

/-!
# `Bigpipe.Proofs.ThreadPoolOrder`: the order in which a pool executes its tasks

The workers take the tasks in the order in which they were put, but a
task may end before one that was taken earlier.

How far the order of the ends may be from the order of the `put`s is
bounded by the number of workers. When a worker ends a task it holds
nothing, and the other `n - 1` hold at most one task each, so all but
`n - 1` of the tasks that were taken have ended by then. The bound is
kept for every prefix of the executed tasks, since a prefix is what
was executed at an earlier time.

* `inTurn_step`: a task that ends leaves at most one task with each of
  the other workers.
* `executedInTurn`: in a pool of `n` workers no task is executed more
  than `n - 1` places early.
* `executedInOrder`: a single worker executes the tasks in the order
  in which they were put.
-/

set_option autoImplicit false

namespace Bigpipe.ThreadPool

open Bigpipe.Lib
open Bigpipe.BoundedBlockingQueue (puts takes)

variable {n : Nat} {C Task : Type} {cap : Nat} {s s' : State n C Task cap} {e : Event n C Task}

/-- The tasks of the completed `put`s, in order. -/
def State.put (s : State n C Task cap) : List Task :=
  (puts s.queue.hist).reduceOption

/-- Among the first `k` executed tasks are only the first `k + n - 1`
that were put. Both sides are counted as multisets, since the same
task may be put more than once. -/
def InTurn (s : State n C Task cap) : Prop :=
  ∀ k, (s.executed.take k : Multiset Task) ≤ (s.put.take (k + n - 1) : List Task)

/-- A prefix is a part of the list. -/
theorem coe_le_of_isPrefix {l l' : List Task} (h : l <+: l') : (l : Multiset Task) ≤ l' :=
  Multiset.coe_le.mpr h.sublist.subperm

/-- The tasks that are executed stay in turn while more are put. -/
theorem InTurn.mono (h : InTurn s) (hput : s.put <+: s'.put)
    (hexecuted : s'.executed = s.executed) : InTurn s' := by
  intro k
  rw [hexecuted]
  exact (h k).trans (coe_le_of_isPrefix (hput.take (k + n - 1)))

/-- A worker has at most one task. -/
theorem card_tasks_le (pc : WorkerPc Task) : (tasks [pc.held]).card ≤ 1 := by
  cases pc with
  | todo task =>
      cases task with
      | none => exact Nat.zero_le 1
      | some task => exact Nat.le_refl 1
  | unborn | loop | taking | left => exact Nat.zero_le 1

/-- Beside a worker without a task, the others have at most one each.
So `n - 1` tasks are under way at most. -/
theorem card_held_lt (i : Fin n) (h : (s.worker i).held = none) :
    (held s).card ≤ n - 1 := by
  have hself : tasks [(s.worker i).held] = 0 := by rw [h, tasks_none]
  calc (held s).card
      = (∑ j ∈ Finset.univ.erase i, tasks [(s.worker j).held]).card := by
        rw [held, ← Finset.add_sum_erase _ _ (Finset.mem_univ i), hself, zero_add]
    _ = ∑ j ∈ Finset.univ.erase i, (tasks [(s.worker j).held]).card := map_sum Multiset.cardHom _ _
    _ ≤ ∑ j ∈ Finset.univ.erase i, 1 := Finset.sum_le_sum fun j _ => card_tasks_le (s.worker j)
    _ = n - 1 := by simp

variable [DecidableEq C] [Fintype C]

/-- What is taken was put first. -/
theorem takes_prefix_put (h : (system n C Task cap).Reachable s) :
    (takes s.queue.hist).reduceOption <+: s.put := by
  refine ⟨s.queue.data.items.reduceOption, ?_⟩
  rw [State.put, ← fifo h, List.reduceOption_append]

/-- The completed `put`s stay. -/
theorem put_prefix_step (h : (system n C Task cap).step s e = some s') : s.put <+: s'.put := by
  rcases queueSimulation.step s e s' h with heq | ⟨qe, hqe⟩
  · rw [State.put, State.put, heq]
  · obtain ⟨new, hnew⟩ := Monitor.hist_step hqe
    refine ⟨(puts new).reduceOption, ?_⟩
    rw [State.put, State.put, ← List.reduceOption_append, hnew]
    exact congrArg List.reduceOption List.filterMap_append.symm

/-- Where a worker has no task, the tasks that were taken are the
executed ones and at most one with each other worker. The tasks that
were taken are the first ones that were put. -/
theorem executed_le_put (h : (system n C Task cap).Reachable s) {i : Fin n}
    (hi : (s.worker i).held = none) :
    (s.executed : Multiset Task) ≤ (s.put.take (s.executed.length + n - 1) : List Task) := by
  have htaken : (s.executed : Multiset Task) + held s = (takes s.queue.hist).reduceOption :=
    executed_eq_takes h
  have hlength : (takes s.queue.hist).reduceOption.length ≤ s.executed.length + n - 1 := by
    have hcard := congrArg Multiset.card htaken
    have hheld := card_held_lt i hi
    have hpos := i.pos
    rw [Multiset.card_add, Multiset.coe_card, Multiset.coe_card] at hcard
    omega
  calc (s.executed : Multiset Task)
      ≤ (s.executed : Multiset Task) + held s := Multiset.le_add_right _ _
    _ = (takes s.queue.hist).reduceOption := htaken
    _ ≤ (s.put.take (s.executed.length + n - 1) : List Task) :=
        coe_le_of_isPrefix (List.prefix_take_iff.mpr ⟨takes_prefix_put h, hlength⟩)

/-- A task that ends is in turn, and so are those before it. The step
that ends a task leaves its own worker without one, and
`executed_le_put` applies after it. -/
theorem inTurn_step (hreach : (system n C Task cap).Reachable s) (h : InTurn s)
    (hs : (system n C Task cap).step s e = some s') : InTurn s' := by
  have hput := put_prefix_step hs
  have hreach' := hreach.step hs
  cases step_cases hs with
  | @runTask i task hw =>
      intro k
      show ((s.executed ++ task.toList).take k : Multiset Task) ≤ (s.put.take (k + n - 1) : List _)
      rcases Nat.lt_or_ge s.executed.length k with hlt | hle
      · have hlength : (s.executed ++ task.toList).length ≤ k := by
          cases task <;> simp <;> omega
        have hall := executed_le_put hreach' (i := i) (by simp [WorkerPc.held])
        rw [List.take_of_length_le hlength]
        refine hall.trans (coe_le_of_isPrefix (List.take_prefix_take_left ?_))
        show (s.executed ++ task.toList).length + n - 1 ≤ k + n - 1
        omega
      · rw [List.take_append_of_le_length hle]
        exact h k
  | _ => exact h.mono hput rfl

/-- In every reachable state. -/
theorem reachable_inTurn (h : (system n C Task cap).Reachable s) : InTurn s := by
  refine h.induct (I := InTurn) ?_ fun s e s' hreach ih hs => inTurn_step hreach ih hs
  rintro s rfl k
  show (([] : List Task).take k : Multiset Task) ≤ _
  rw [List.take_nil]
  exact Multiset.zero_le _

/-- In every reachable state of a pool of `n` workers, no task is
executed more than `n - 1` places early: the first `k` executed tasks
are among the first `k + n - 1` that were put.

Nothing is said about how late a task is. A worker may hold one for as
long as it is not scheduled, while the others execute any number of
tasks. -/
theorem executedInTurn (h : (system n C Task cap).Reachable s) (k : Nat) :
    (s.executed.take k : Multiset Task) ≤ (s.put.take (k + n - 1) : List Task) :=
  reachable_inTurn h k

omit [DecidableEq C] [Fintype C] in
/-- With a single worker the first executed tasks are the first that
were put. -/
theorem InTurn.take_eq {s : State 1 C Task cap} (h : InTurn s) {k : Nat}
    (hk : k ≤ s.executed.length) : s.executed.take k = s.put.take k := by
  induction k with
  | zero => rw [List.take_zero, List.take_zero]
  | succ k ih =>
      have hlength : (s.put.take (k + 1)).length ≤ (s.executed.take (k + 1)).length := by
        rw [List.length_take, List.length_take]
        omega
      -- As many were put, so they are the same tasks, and all but the last
      -- are in order.
      have hperm := (Multiset.coe_le.mp (h (k + 1))).perm_of_length_le hlength
      rw [List.take_succ_eq_append_getElem hk, ih (by omega), Nat.add_sub_cancel,
        List.take_add_one, List.perm_append_left_iff, List.singleton_perm] at hperm
      rw [List.take_succ_eq_append_getElem hk, ih (by omega), List.take_add_one, ← hperm]

/-- A single worker executes the tasks in the order in which they were
put. With `n = 1` the first `k` executed tasks are among the first
`k`, for every `k`, and that leaves no other order. -/
theorem executedInOrder {s : State 1 C Task cap} (h : (system 1 C Task cap).Reachable s) :
    s.executed <+: s.put := by
  have htake := (reachable_inTurn h).take_eq (Nat.le_refl _)
  rw [List.take_length] at htake
  rw [htake]
  exact List.take_prefix _ _

/-- Two tasks are put, both workers take one, and the second task ends
first. -/
def secondFirst : List (Event 2 Unit Nat) :=
  [.start, .spawn, .spawn, .spawn, .putTask () (some 10), .callerSection () none,
   .putTask () (some 11), .callerSection () none, .test worker₀, .workerSection worker₀ none,
   .test worker₁, .workerSection worker₁ none, .runTask worker₁]

/-- `executedInTurn` where the second task is executed first. -/
theorem executedInTurn_secondFirst :
    ∃ s : State 2 Unit Nat 20, (system 2 Unit Nat 20).run initial secondFirst = some s ∧
      s.executed = [11] ∧ s.put = [10, 11] ∧
      (s.executed.take 1 : Multiset Nat) ≤ (s.put.take (1 + 2 - 1) : List Nat) := by
  have hrun : (system 2 Unit Nat 20).run initial secondFirst = some _ := rfl
  exact ⟨_, hrun, rfl, rfl, executedInTurn (System.Reachable.run (.init rfl) hrun) 1⟩

end Bigpipe.ThreadPool
