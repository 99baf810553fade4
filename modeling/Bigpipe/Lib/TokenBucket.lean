import Mathlib.Algebra.Order.Field.Basic
import Mathlib.Algebra.BigOperators.Group.List.Basic
import Mathlib.Data.List.Pairwise
import Mathlib.Tactic.Linarith
import Mathlib.Tactic.Ring

/-!
# `Bigpipe.Lib.TokenBucket`: token buckets and rate limits

An arrival is an amount at a time. A sequence of arrivals keeps a rate
limit when in every time interval `[s, t]` the amounts add up to at
most `capacity + rate * (t - s)`. A token bucket decides this arrival
by arrival: its level grows at the rate up to the capacity, and each
arrival takes its amount from the level.

The limit is about infinitely many intervals, and the bucket looks at
one number. The step between them is that only the intervals that
begin at an arrival matter, and that the level after an arrival is the
least of what these intervals leave. So the proof carries two limits
along: the rate limit on all intervals among the arrivals that are
left, and `WithinLevel`, the limit on the intervals that begin at the
last arrival, where the level stands for everything that came before.

* `WithinRate`: the rate limit, over every interval.
* `Conforms`: the token bucket covers every arrival.
* `limits_of_cons` and `cons_of_limits`: arrivals keep the limits
  exactly when the bucket covers the first and the rest keeps the
  limits of the level that is left.
* `conforms_iff`: a bucket with any level covers the arrivals exactly
  when they keep the rate limit and, from the start on, what the level
  allows.
* `conforms_iff_withinRate`: a bucket that starts full decides the
  rate limit.
-/

set_option autoImplicit false

namespace Bigpipe.Lib

variable {K : Type} [Field K] [LinearOrder K]

/-- An amount at a time. -/
structure Arrival (K : Type) where
  time : K
  amount : K

/-- The sum of the amounts that arrive in `[s, t]`. Both ends belong
to the interval, so arrivals at one and the same time are in one
interval of length 0. -/
def windowAmount (arrivals : List (Arrival K)) (s t : K) : K :=
  ((arrivals.filter fun a => s ≤ a.time ∧ a.time ≤ t).map Arrival.amount).sum

/-- In every interval the amounts stay within the capacity and what
the rate adds. The capacity is the burst: what may arrive at one time,
after a pause that is long enough. -/
def WithinRate (capacity rate : K) (arrivals : List (Arrival K)) : Prop :=
  ∀ s t : K, s ≤ t → windowAmount arrivals s t ≤ capacity + rate * (t - s)

/-- In every interval from `last` on the amounts stay within the level
and what the rate adds. -/
def WithinLevel (rate level last : K) (arrivals : List (Arrival K)) : Prop :=
  ∀ t : K, last ≤ t → windowAmount arrivals last t ≤ level + rate * (t - last)

/-- The level of a bucket at the time `t`, from its level at the time
`last`. What would overflow the bucket is lost. -/
def refill (capacity rate level last t : K) : K :=
  min capacity (level + rate * (t - last))

/-- A bucket that had the level at the time `last` covers every
arrival: when it comes, its amount is in the bucket. The bucket goes
on from the level that is left, at the time of the arrival. -/
def Conforms (capacity rate : K) (level last : K) : List (Arrival K) → Prop
  | [] => True
  | a :: arrivals =>
    a.amount ≤ refill capacity rate level last a.time ∧
      Conforms capacity rate (refill capacity rate level last a.time - a.amount) a.time arrivals

/-- The arrivals are in the order of their times, and none is before
`start`. -/
def InOrder (start : K) (arrivals : List (Arrival K)) : Prop :=
  (∀ a ∈ arrivals, start ≤ a.time) ∧ arrivals.Pairwise fun a b => a.time ≤ b.time

/-! ### Windows -/

@[simp] theorem windowAmount_nil (s t : K) : windowAmount ([] : List (Arrival K)) s t = 0 := rfl

/-- A window of a longer list has the first arrival where its time is
in it. -/
theorem windowAmount_cons (a : Arrival K) (arrivals : List (Arrival K)) (s t : K) :
    windowAmount (a :: arrivals) s t =
      (if s ≤ a.time ∧ a.time ≤ t then a.amount else 0) + windowAmount arrivals s t := by
  unfold windowAmount
  by_cases h : s ≤ a.time ∧ a.time ≤ t
  · rw [List.filter_cons_of_pos (by simpa using h), if_pos h, List.map_cons, List.sum_cons]
  · rw [List.filter_cons_of_neg (by simpa using h), if_neg h, zero_add]

/-- Before the first arrival nothing arrives. -/
theorem windowAmount_eq_zero {arrivals : List (Arrival K)} {s t : K}
    (h : ∀ a ∈ arrivals, t < a.time) : windowAmount arrivals s t = 0 := by
  unfold windowAmount
  rw [List.filter_eq_nil_iff.mpr, List.map_nil, List.sum_nil]
  intro a ha
  simpa using fun _ => h a ha

/-- A window that starts before the first arrival may start anywhere
before it. -/
theorem windowAmount_congr {arrivals : List (Arrival K)} {s s' t : K}
    (h : ∀ a ∈ arrivals, s ≤ a.time) (h' : ∀ a ∈ arrivals, s' ≤ a.time) :
    windowAmount arrivals s t = windowAmount arrivals s' t := by
  unfold windowAmount
  congr 2
  refine List.filter_congr fun a ha => ?_
  simp [h a ha, h' a ha]

/-- A window that has the first arrival has it and a window of the
rest, which may begin at the first arrival, since nothing of the rest
is earlier. -/
theorem windowAmount_cons_first {a : Arrival K} {arrivals : List (Arrival K)} {s t : K}
    (hafter : ∀ b ∈ arrivals, a.time ≤ b.time) (hs : s ≤ a.time) (ht : a.time ≤ t) :
    windowAmount (a :: arrivals) s t = a.amount + windowAmount arrivals a.time t := by
  rw [windowAmount_cons, if_pos ⟨hs, ht⟩,
    windowAmount_congr (fun b hb => hs.trans (hafter b hb)) hafter]

/-- A window that ends before the first arrival is empty. -/
theorem windowAmount_cons_before {a : Arrival K} {arrivals : List (Arrival K)} {s t : K}
    (hafter : ∀ b ∈ arrivals, a.time ≤ b.time) (ht : t < a.time) :
    windowAmount (a :: arrivals) s t = 0 := by
  refine windowAmount_eq_zero fun b hb => ?_
  rcases List.mem_cons.mp hb with rfl | hb
  · exact ht
  · exact ht.trans_le (hafter b hb)

variable [IsStrictOrderedRing K]

/-- Nothing negative arrives in a window. -/
theorem windowAmount_nonneg {arrivals : List (Arrival K)} (h : ∀ a ∈ arrivals, 0 ≤ a.amount)
    (s t : K) : 0 ≤ windowAmount arrivals s t := by
  induction arrivals with
  | nil => exact le_rfl
  | cons a arrivals ih =>
      rw [windowAmount_cons]
      refine add_nonneg ?_ (ih fun b hb => h b (List.mem_cons_of_mem a hb))
      split
      · exact h a List.mem_cons_self
      · exact le_rfl

/-! ### The bucket decides the limit -/

variable {capacity rate : K}

/-- Where the bucket covers the first arrival and the rest keeps the
limits of the level that is left, all of them keep the limits. An
interval that has the first arrival is compared with the one that
begins at it, and any other interval is one of the rest. -/
theorem limits_of_cons {level last : K} {a : Arrival K} {arrivals : List (Arrival K)}
    (hrate : 0 ≤ rate) (hcapacity : 0 ≤ capacity) (hlevel : 0 ≤ level) (ha : last ≤ a.time)
    (hafter : ∀ b ∈ arrivals, a.time ≤ b.time) (hlimit : WithinRate capacity rate arrivals)
    (hleft : WithinLevel rate (refill capacity rate level last a.time - a.amount) a.time
      arrivals) :
    WithinRate capacity rate (a :: arrivals) ∧ WithinLevel rate level last (a :: arrivals) := by
  have hcap : refill capacity rate level last a.time ≤ capacity := min_le_left _ _
  have hlvl : refill capacity rate level last a.time ≤ level + rate * (a.time - last) :=
    min_le_right _ _
  constructor
  · intro s t hst
    have hgrow := mul_nonneg hrate (sub_nonneg.mpr hst)
    rcases lt_or_ge t a.time with hta | hta
    · rw [windowAmount_cons_before hafter hta]
      linarith
    -- A window that has `a` has no more than `a` and a window from `a` on,
    -- which the level that is left allows. Any other window is one of the
    -- rest.
    rcases le_or_gt s a.time with hsa | hsa
    · have hrest := hleft t hta
      have hless := mul_le_mul_of_nonneg_left (sub_le_sub_left hsa t) hrate
      rw [windowAmount_cons_first hafter hsa hta]
      linarith
    · rw [windowAmount_cons, if_neg (by simp [hsa]), zero_add]
      exact hlimit s t hst
  · intro t ht
    have hgrow := mul_nonneg hrate (sub_nonneg.mpr ht)
    rcases lt_or_ge t a.time with hta | hta
    · rw [windowAmount_cons_before hafter hta]
      linarith
    · have hrest := hleft t hta
      -- What the rate adds up to `a` is in the level, and the rest of it
      -- comes later.
      have hsplit : rate * (t - last) = rate * (a.time - last) + rate * (t - a.time) := by ring
      rw [windowAmount_cons_first hafter ha hta]
      linarith

/-- Where all arrivals keep the limits, the bucket covers the first
and the rest keeps the limits of the level that is left. The level is
the smaller of two numbers, so the bound has to be shown for both: one
comes from the rate limit, the other from the limit of the level. -/
theorem cons_of_limits {level last : K} {a : Arrival K} {arrivals : List (Arrival K)}
    (ha : last ≤ a.time) (hafter : ∀ b ∈ arrivals, a.time ≤ b.time)
    (hamount : ∀ b ∈ a :: arrivals, 0 ≤ b.amount)
    (hlimit : WithinRate capacity rate (a :: arrivals))
    (hlevel : WithinLevel rate level last (a :: arrivals)) :
    a.amount ≤ refill capacity rate level last a.time ∧ WithinRate capacity rate arrivals ∧
      WithinLevel rate (refill capacity rate level last a.time - a.amount) a.time arrivals := by
  have hfirst : 0 ≤ a.amount := hamount a List.mem_cons_self
  -- Both bounds on the level come from a window that has the first arrival.
  have hleft : ∀ t, a.time ≤ t → a.amount + windowAmount arrivals a.time t ≤
      refill capacity rate level last a.time + rate * (t - a.time) := by
    intro t hta
    have hwindow := hlimit a.time t hta
    have hstart := hlevel t (ha.trans hta)
    rw [windowAmount_cons_first hafter le_rfl hta] at hwindow
    rw [windowAmount_cons_first hafter ha hta] at hstart
    rw [refill, ← min_add_add_right]
    refine le_min hwindow (hstart.trans_eq ?_)
    ring
  refine ⟨?_, fun s t hst => ?_, fun t hta => ?_⟩
  · have hnow := hleft a.time le_rfl
    have hnonneg := windowAmount_nonneg
      (fun b hb => hamount b (List.mem_cons_of_mem a hb)) a.time a.time
    rw [sub_self, mul_zero, add_zero] at hnow
    linarith
  · have hwindow := hlimit s t hst
    rw [windowAmount_cons] at hwindow
    split at hwindow
    · linarith
    · linarith
  -- What the bucket has left, plus the first amount, is the bound of `hleft`.
  · linarith [hleft t hta]

/-- A bucket with a level covers the arrivals exactly when they keep
the rate limit and what the level allows. The induction is on the
arrivals, for every level, as each arrival leaves another one. -/
theorem conforms_iff (hrate : 0 ≤ rate) (hcapacity : 0 ≤ capacity) :
    ∀ (arrivals : List (Arrival K)) (level last : K), 0 ≤ level →
      InOrder last arrivals → (∀ a ∈ arrivals, 0 ≤ a.amount) →
      (Conforms capacity rate level last arrivals ↔
        WithinRate capacity rate arrivals ∧ WithinLevel rate level last arrivals) := by
  intro arrivals
  induction arrivals with
  | nil =>
      intro level last hlevel _ _
      refine iff_of_true trivial ⟨fun s t hst => ?_, fun t ht => ?_⟩
      · have hgrow := mul_nonneg hrate (sub_nonneg.mpr hst)
        rw [windowAmount_nil]
        linarith
      · have hgrow := mul_nonneg hrate (sub_nonneg.mpr ht)
        rw [windowAmount_nil]
        linarith
  | cons a arrivals ih =>
      intro level last hlevel hinOrder hamount
      obtain ⟨hstart, hsorted⟩ := hinOrder
      obtain ⟨hafter, hsorted⟩ := List.pairwise_cons.mp hsorted
      have ha : last ≤ a.time := hstart a List.mem_cons_self
      have hrest : ∀ b ∈ arrivals, 0 ≤ b.amount := fun b hb =>
        hamount b (List.mem_cons_of_mem a hb)
      constructor
      · rintro ⟨hle, hconforms⟩
        -- The level that is left is not negative, which the induction
        -- hypothesis asks for.
        obtain ⟨hlimit, hleft⟩ := (ih _ a.time (sub_nonneg.mpr hle) ⟨hafter, hsorted⟩
          hrest).mp hconforms
        exact limits_of_cons hrate hcapacity hlevel ha hafter hlimit hleft
      · rintro ⟨hlimit, hlevel'⟩
        obtain ⟨hle, hlimit', hleft⟩ := cons_of_limits ha hafter hamount hlimit hlevel'
        exact ⟨hle, (ih _ a.time (sub_nonneg.mpr hle) ⟨hafter, hsorted⟩ hrest).mpr
          ⟨hlimit', hleft⟩⟩

/-- A bucket that starts full covers the arrivals exactly when they
keep the rate limit. A full bucket allows what the rate limit does, so
the second limit says nothing more. -/
theorem conforms_iff_withinRate (hrate : 0 ≤ rate) (hcapacity : 0 ≤ capacity) {start : K}
    {arrivals : List (Arrival K)} (hinOrder : InOrder start arrivals)
    (hamount : ∀ a ∈ arrivals, 0 ≤ a.amount) :
    Conforms capacity rate capacity start arrivals ↔ WithinRate capacity rate arrivals := by
  rw [conforms_iff hrate hcapacity arrivals capacity start hcapacity hinOrder hamount]
  -- From a full bucket on, the limit of the level is the limit of the windows
  -- from `start`.
  exact and_iff_left_of_imp fun h t ht => h start t ht

end Bigpipe.Lib
