import Bigpipe.Lib.Monitor
import Mathlib.Data.Finset.Card

/-!
# `Bigpipe.Lib.Announce`: condition variables that announce a resource

The data of a monitor has a number of units of some resource, such as
free slots or items. The calls that wait on a condition variable use
one unit each, and every call that makes a unit signals it. A signal
is lost where nobody sleeps, and a notified thread may be overtaken
and sleep again. Nevertheless no unit is left without a thread that
comes for it.

The law counts. Where a thread sleeps, there are at most as many units
as threads on their way that a signal picked. A unit that is made
brings its own notified thread along, since somebody sleeps to be
picked. A notified thread that takes the mutex uses a unit, or finds
none, and then the law holds because there are no units at all. An
overtaker uses a unit without having been notified, which only makes
the units fewer.

The law fails as soon as a body makes a unit without a signal, or two
of them with one. The rule is therefore about the bodies, and
`Announces` is what has to be checked of them.

* `Announces`: what the bodies do to the units.
* `announced_step`: one step keeps the accounting.
* `Reachable.announced`: in every reachable state in which a thread
  sleeps on the condition variable, there are at most as many units as
  notified threads.
-/

set_option autoImplicit false

namespace Bigpipe.Lib.Monitor

variable {τ σ κ μ ρ : Type} [DecidableEq κ]

/-- The condition variable `k` announces the units of `avail`. A call
that waits on `k` goes on while there is a unit, and uses one. Another
call makes at most one unit, and signals `k` when it does. -/
structure Announces (M : Monitor σ κ μ ρ) (k : κ) (avail : σ → Nat) : Prop where
  empty : ∀ m d, (M.method m).waitsOn = some k → (M.method m).ready d = false → avail d = 0
  uses : ∀ m d d' r sig, (M.method m).waitsOn = some k → (M.method m).ready d = true →
    (M.method m).body d = some (d', r, sig) → sig ≠ some k ∧ avail d' + 1 ≤ avail d
  makes : ∀ m d d' r sig, (M.method m).waitsOn ≠ some k → (M.method m).ready d = true →
    (M.method m).body d = some (d', r, sig) →
      avail d' ≤ avail d ∨ sig = some k ∧ avail d' ≤ avail d + 1

/-- Where a thread sleeps on `k`, there are at most as many units as
notified threads. Where nobody sleeps there may be more, and nobody
has to be told of them. -/
def Announced [Fintype τ] (M : Monitor σ κ μ ρ) (k : κ) (avail : σ → Nat)
    (s : State τ σ μ ρ) : Prop :=
  (∃ u, AsleepOn M s k u) → avail s.data ≤ (Finset.univ.filter (NotifiedOn M s k)).card

variable {M : Monitor σ κ μ ρ} {k : κ} {avail : σ → Nat} {s s' : State τ σ μ ρ} {t : τ} {m : μ}

/-! ### Threads outside the wait on `k` -/

omit [DecidableEq κ] in
/-- A thread at the mutex in a call that does not wait on `k` is not
notified on `k`. -/
theorem not_notifiedOn_of_waitsOn (hrun : (s.pos t).runnable = some m)
    (hm : (M.method m).waitsOn ≠ some k) : ¬ NotifiedOn M s k t := by
  intro hn
  obtain ⟨m', hrun', hm'⟩ := hn.runnable
  cases hrun.symm.trans hrun'
  exact hm hm'

section Steps

variable [Fintype τ]

/-- A step keeps the accounting when it makes no unit, takes no
notified thread away and puts nobody to sleep on `k`. -/
theorem Announced.mono (h : Announced M k avail s) (hdata : avail s'.data ≤ avail s.data)
    (hasleep : ∀ u, AsleepOn M s' k u → AsleepOn M s k u)
    (hnotified : ∀ u, NotifiedOn M s k u → NotifiedOn M s' k u) : Announced M k avail s' := by
  intro ⟨u, hu⟩
  have hle := h ⟨u, hasleep u hu⟩
  have hsub : Finset.univ.filter (NotifiedOn M s k) ⊆ Finset.univ.filter (NotifiedOn M s' k) :=
    Finset.monotone_filter_right _ fun v _ hv => hnotified v hv
  exact hdata.trans (hle.trans (Finset.card_le_card hsub))

variable [DecidableEq τ]

/-- A move of a thread that is not notified on `k`, and that does not
fall asleep on `k`, keeps the accounting. -/
theorem Announced.move {p : Pos μ} (h : Announced M k avail s) (ht : ¬ NotifiedOn M s k t)
    (hp : p.sleeping.bind (fun m => (M.method m).waitsOn) ≠ some k) :
    Announced M k avail (s.move t p) := by
  refine h.mono (Nat.le_refl _) (fun u => ?_) fun u hu => ?_
  · rw [asleepOn_move]
    split
    · exact fun hsleep => absurd hsleep hp
    · exact id
  · rw [notifiedOn_move, if_neg]
    · exact hu
    · rintro rfl
      exact ht hu

/-- A completed call that does not signal `k`. If it waits on `k`, it
uses a unit, and at most its own notification goes. If it does not, it
makes no unit, for otherwise it would have to signal. -/
theorem Announced.returned (hk : Announces M k avail) (h : Announced M k avail s)
    (hrun : (s.pos t).runnable = some m) {d : σ} {r : ρ} {sig : Option κ} {pick : Option τ}
    (hready : (M.method m).ready s.data = true)
    (hbody : (M.method m).body s.data = some (d, r, sig))
    (hsignal : signal M (s.complete t m d r) sig pick = some s') (hsig : sig ≠ some k) :
    Announced M k avail s' := by
  have hframe := returned_frame hsignal hsig
  have hdata : s'.data = d := (signal_frame hsignal).1
  by_cases hm : (M.method m).waitsOn = some k
  · intro ⟨u, hu⟩
    have hle := h ⟨u, ((hframe u).1.mp hu).2⟩
    have huse := (hk.uses m _ _ _ _ hm hready hbody).2
    have heq : Finset.univ.filter (NotifiedOn M s' k) =
        (Finset.univ.filter (NotifiedOn M s k)).erase t := by
      ext v
      simp [(hframe v).2]
    have hcard := Finset.pred_card_le_card_erase (s := Finset.univ.filter (NotifiedOn M s k))
      (a := t)
    rw [heq, hdata]
    omega
  · have hnot := not_notifiedOn_of_waitsOn hrun hm
    have hless : avail d ≤ avail s.data := by
      rcases hk.makes m _ _ _ _ hm hready hbody with hless | ⟨heq, _⟩
      · exact hless
      · exact absurd heq hsig
    refine h.mono (by rwa [hdata]) (fun u hu => ((hframe u).1.mp hu).2) fun u hu => ?_
    refine (hframe u).2.mpr ⟨?_, hu⟩
    rintro rfl
    exact hnot hu

/-- A completed call that signals `k` makes at most one unit. The
signal finds nobody asleep, and then the law says nothing, or it makes
one sleeper a notified thread, which comes for the unit. -/
theorem Announced.signalled (hk : Announces M k avail) (h : Announced M k avail s)
    (hrun : (s.pos t).runnable = some m) {d : σ} {r : ρ} {pick : Option τ}
    (hready : (M.method m).ready s.data = true)
    (hbody : (M.method m).body s.data = some (d, r, some k))
    (hsignal : signal M (s.complete t m d r) (some k) pick = some s') :
    Announced M k avail s' := by
  have hm : (M.method m).waitsOn ≠ some k := by
    intro hm
    exact (hk.uses m _ _ _ _ hm hready hbody).1 rfl
  have hnot := not_notifiedOn_of_waitsOn hrun hm
  have hdata : s'.data = d := (signal_frame hsignal).1
  have hmore : avail d ≤ avail s.data + 1 := by
    rcases hk.makes m _ _ _ _ hm hready hbody with hless | ⟨_, hmore⟩
    · omega
    · exact hmore
  rcases returned_signal hsignal with ⟨hnone, _⟩ | ⟨u, hut, hu, _, hnotified⟩
  · intro ⟨v, hv⟩
    exact absurd hv (hnone v)
  · intro _
    have hle := h ⟨u, hu⟩
    -- `u` slept, so it was not notified before.
    have hnew : u ∉ Finset.univ.filter (NotifiedOn M s k) := by
      rw [Finset.mem_filter]
      intro ⟨_, hn⟩
      obtain ⟨m', hrun', _⟩ := hn.runnable
      exact not_asleepOn_of_runnable hrun' hu
    have heq : Finset.univ.filter (NotifiedOn M s' k) =
        insert u (Finset.univ.filter (NotifiedOn M s k)) := by
      ext v
      simp only [Finset.mem_filter, Finset.mem_univ, true_and, Finset.mem_insert, hnotified v]
      refine or_congr_right (and_iff_right_of_imp ?_)
      rintro hv rfl
      exact hnot hv
    rw [heq, Finset.card_insert_of_notMem hnew, hdata]
    omega

/-- The step lemma: every step keeps the accounting. A thread that
goes to sleep on `k` has just seen that there is no unit, which is the
one case that needs no counting. -/
theorem announced_step (hk : Announces M k avail) (h : Announced M k avail s) {e : Event τ μ}
    (hs : (M.system τ).step s e = some s') : Announced M k avail s' := by
  cases e with
  | call t m =>
      -- A thread that calls was outside, so it was not notified.
      obtain ⟨-, hpos, rfl⟩ := call_cases hs
      refine h.move ?_ nofun
      intro hn
      obtain ⟨m', hrun, -⟩ := hn.runnable
      rw [hpos] at hrun
      cases hrun
  | spurious t =>
      obtain ⟨-, m, hpos, rfl⟩ := spurious_cases hs
      refine h.move ?_ nofun
      intro hn
      obtain ⟨m', hrun, -⟩ := hn.runnable
      rw [hpos] at hrun
      cases hrun
  | acquire t pick =>
      obtain ⟨⟨s₁, o⟩, hacq, rfl⟩ := Option.map_eq_some_iff.mp hs
      obtain ⟨-, m, hrun, hsec⟩ := acquire_cases hacq
      cases hsec with
      | slept hready =>
          by_cases hm : (M.method m).waitsOn = some k
          · -- The thread sleeps because there is no unit.
            have hzero : avail s.data = 0 := hk.empty m _ hm hready
            intro _
            show avail s.data ≤ _
            omega
          · exact h.move (not_notifiedOn_of_waitsOn hrun hm) hm
      | aborted => exact h
      | @returned _ d r sig hready hbody hsignal =>
          by_cases hsig : sig = some k
          · subst hsig
            exact h.signalled hk hrun hready hbody hsignal
          · exact h.returned hk hrun hready hbody hsignal hsig

/-- In every reachable state in which a thread sleeps on `k`, there
are at most as many units as notified threads. -/
theorem Reachable.announced (hk : Announces M k avail) (h : (M.system τ).Reachable s) :
    Announced M k avail s := by
  refine h.induct (I := Announced M k avail) ?_ fun s e s' _ ih hs => announced_step hk ih hs
  rintro s rfl ⟨u, hu⟩
  cases hu

end Steps

end Bigpipe.Lib.Monitor
