import Bigpipe.Lib.Monitor
import Bigpipe.Lib.Parties

/-!
# `Bigpipe.Lib.Settling`: the threads of a monitor come to rest

A lock section ends the call of its thread or puts the thread to
sleep, and its signal wakes at most one other thread. So each position
gets a weight, and a lock section makes all threads together lighter:
threads that do not call any more settle.

The weights are chosen for the worst case. A thread that wakes another
one and returns pays for it out of its own 4. A thread that only goes
back to sleep signals nobody, and loses 1. A thread that is woken for
no reason gets heavier without anybody paying, so the threads settle
only where such wake-ups come to an end.

* `weight_call`, `weight_acquire` and `weight_acquire_returned`: what
  the steps do to the weight.
* `Reachable.waitsOn_of_asleep`: a thread sleeps in a method with a
  wait only.
-/

set_option autoImplicit false

namespace Bigpipe.Lib.Monitor

variable {τ σ κ μ ρ : Type} [DecidableEq τ] [Fintype τ]

/-- The weight of a position. A thread that is woken gets heavier by
1, and a thread that completes its call gets lighter by more. -/
def Pos.weight : Pos μ → Nat
  | .outside => 0
  | .asleep _ => 3
  | .entering _ | .notified _ | .woken _ => 4

theorem Pos.weight_of_runnable {p : Pos μ} {m : μ} (h : p.runnable = some m) : p.weight = 4 := by
  cases p <;> first | rfl | cases h

/-- The weight of all threads together. -/
def weight (s : State τ σ μ ρ) : Nat :=
  ∑ t, (s.pos t).weight

variable {M : Monitor σ κ μ ρ} {s s' : State τ σ μ ρ} {t : τ} {m : μ}

theorem weight_move (s : State τ σ μ ρ) (t : τ) (p : Pos μ) :
    weight (s.move t p) + (s.pos t).weight = weight s + p.weight :=
  sum_move Pos.weight s.pos t p

theorem weight_complete (s : State τ σ μ ρ) (t : τ) (m : μ) (d : σ) (r : ρ) :
    weight (s.complete t m d r) + (s.pos t).weight = weight s :=
  sum_move Pos.weight s.pos t .outside

/-- A thread that calls a method gets its full weight. -/
theorem weight_call (h : call s t m = some s') : weight s' = weight s + 4 := by
  obtain ⟨-, hout, rfl⟩ := call_cases h
  have hmove := weight_move s t (.entering m)
  rw [hout] at hmove
  exact hmove

variable [DecidableEq κ]

/-- A signal wakes at most one thread. -/
theorem weight_signal {sig : Option κ} {pick : Option τ} (h : signal M s sig pick = some s') :
    weight s' ≤ weight s + 1 := by
  obtain ⟨rfl, -⟩ | ⟨k, u, -, hu, rfl⟩ := signal_cases h
  · exact Nat.le_succ _
  · unfold AsleepOn at hu
    cases hpos : s.pos u with
    | asleep m =>
        have hmove := weight_move s u (.notified m)
        rw [hpos] at hmove
        change _ + 3 = _ + 4 at hmove
        show weight (s.move u (.notified m)) ≤ _
        omega
    | _ => simp [hpos, Pos.sleeping] at hu

/-- A lock section that completes a call makes the threads lighter by
at least 3: its own thread loses 4, and the thread that its signal
wakes gains 1. -/
theorem weight_acquire_returned {pick : Option τ} {r : ρ}
    (h : acquire M s t pick = some (s', .returned r)) : weight s' + 3 ≤ weight s := by
  obtain ⟨-, m, hrun, hsec⟩ := acquire_cases h
  cases hsec with
  | returned _ _ hsignal =>
      rename_i d sig _ _
      have hcomplete := weight_complete s t m d r
      rw [Pos.weight_of_runnable hrun] at hcomplete
      have hle := weight_signal hsignal
      omega

/-- Where no assertion fails, a lock section makes the threads
lighter. So there are only finitely many lock sections between two
calls or spurious wake-ups. -/
theorem weight_acquire {pick : Option τ} {o : Outcome ρ} (h : acquire M s t pick = some (s', o))
    (hab : s'.aborted = false) : weight s' < weight s := by
  cases o with
  | returned r =>
      have hle := weight_acquire_returned h
      omega
  | slept =>
      obtain ⟨-, m, hrun, hsec⟩ := acquire_cases h
      cases hsec with
      | slept =>
          have hmove := weight_move s t (.asleep m)
          rw [Pos.weight_of_runnable hrun] at hmove
          change _ + 4 = _ + 3 at hmove
          omega
  | aborted =>
      obtain ⟨-, m, hrun, hsec⟩ := acquire_cases h
      cases hsec
      cases hab

omit [DecidableEq τ] [Fintype τ] [DecidableEq κ] in
/-- A thread that goes to sleep does so in a method with a wait. -/
theorem waitsOn_of_slept (hready : (M.method m).ready s.data = false) :
    (M.method m).waitsOn ≠ none := by
  intro hnone
  rw [Method.waitsOn, Option.map_eq_none_iff] at hnone
  rw [Method.ready, hnone] at hready
  cases hready

/-- In every reachable state, the threads that sleep are in methods
with a wait. A method without one is always ready, and its only lock
section completes the call. -/
theorem Reachable.waitsOn_of_asleep (h : (M.system τ).Reachable s) {u : τ}
    (hu : s.pos u = .asleep m) : (M.method m).waitsOn ≠ none := by
  revert hu
  -- Only the lock section of `u` itself can put `u` to sleep, and it tests
  -- the predicate first.
  refine h.induct (I := fun s => s.pos u = .asleep m → (M.method m).waitsOn ≠ none) ?_
    fun s e s' _ ih hs hu => ?_
  · rintro s rfl hu
    cases hu
  · cases e with
    | call t m' => exact ih (call_asleep hs hu)
    | spurious t => exact ih (spurious_asleep hs hu)
    | acquire t pick =>
        obtain ⟨⟨s₁, o⟩, hacq, rfl⟩ := Option.map_eq_some_iff.mp hs
        by_cases hut : u = t
        · subst hut
          obtain ⟨-, m', hrun, hsec⟩ := acquire_cases hacq
          cases hsec with
          | slept hready =>
              rw [State.move_pos, Function.update_self] at hu
              cases hu
              exact waitsOn_of_slept hready
          | aborted => exact ih hu
          | returned =>
              have hout := acquire_within_returned hacq u
              rw [hu, if_pos rfl] at hout
              cases hout
        · exact ih (acquire_asleep hacq hut hu)

end Bigpipe.Lib.Monitor
