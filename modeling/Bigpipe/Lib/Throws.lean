/-!
# `Bigpipe.Lib.Throws`: methods that assign and may throw

A method of an object with state `σ` returns a value or throws an
exception `ε`. What it assigned before an exception stays assigned.
`tryCatch` goes on from that state.

The order of the two layers is what makes this a model of C++ and not
of a transaction. In a state monad over `Except` an exception would
take the assignments back. Here it leaves them, so a method that fails
half way through has changed half of the object, and a `catch` that
returns false returns with that object.

* `bind_ok` and `bind_error`: one step of a method, from what the step
  does.
* `ok_of_bind` and `lift_bind_iff`: the way back, from a method that
  returned to its steps.
* `forEach_ok`: a loop none of whose steps throws.
-/

set_option autoImplicit false

namespace Bigpipe.Lib

/-- A method with exceptions `ε` of an object with state `σ`. It gives
its result, or its exception, and the state of the object after it,
which there is in both cases. -/
def Throws (ε σ α : Type) : Type :=
  σ → Except ε α × σ

namespace Throws

variable {ε σ α β : Type}

instance : Monad (Throws ε σ) where
  pure a := fun s => (.ok a, s)
  bind x f := fun s =>
    match x s with
    | (.ok a, s') => f a s'
    | (.error e, s') => (.error e, s')

/-- A call that does not touch the object. -/
instance : MonadLift (Except ε) (Throws ε σ) where
  monadLift x := fun s => (x, s)

/-- An assignment. -/
def assign (f : σ → σ) : Throws ε σ Unit := fun s => (.ok (), f s)

/-- `try`/`catch`. The handler goes on from the state that the
exception left. -/
def tryCatch (x : Throws ε σ α) (handler : ε → Throws ε σ α) : Throws ε σ α := fun s =>
  match x s with
  | (.ok a, s') => (.ok a, s')
  -- What the block assigned before the exception stays.
  | (.error e, s') => handler e s'

/-- A loop over a range. An exception of one element leaves the loop,
with what the elements before it have assigned. -/
def forEach (f : α → Throws ε σ Unit) : List α → Throws ε σ Unit
  | [] => pure ()
  | a :: as => do
    f a
    forEach f as

/-- A method of a member of the object. What it assigned to the member
before an exception stays there too. -/
def onMember {τ : Type} (get : σ → τ) (set : σ → τ → σ) (x : Throws ε τ α) : Throws ε σ α :=
  fun s =>
    let (r, t) := x (get s)
    (r, set s t)

/-! ### What a method does -/

variable {x : Throws ε σ α} {f : α → Throws ε σ β} {s s' : σ}

/-- After a step that returns, the method goes on with the value, from
the state that the step left. -/
theorem bind_ok {a : α} (h : x s = (.ok a, s')) : (x >>= f) s = f a s' := by
  show (match x s with
    | (.ok a, s') => f a s'
    | (.error e, s') => (.error e, s')) = _
  rw [h]

/-- A step that throws ends the method. The steps behind it are not
taken, and the state is the one that the exception left. -/
theorem bind_error {e : ε} (h : x s = (.error e, s')) : (x >>= f) s = (.error e, s') := by
  show (match x s with
    | (.ok a, s') => f a s'
    | (.error e, s') => (.error e, s')) = _
  rw [h]

/-- A method that returns took a step that returned. Read backwards
through all its steps, it gives what every one of them returned. -/
theorem ok_of_bind {b : β} (h : (x >>= f) s = (.ok b, s')) :
    ∃ a s₁, x s = (.ok a, s₁) ∧ f a s₁ = (.ok b, s') := by
  cases hx : x s with
  | mk r s₁ =>
      cases r with
      | ok a => exact ⟨a, s₁, rfl, (bind_ok hx).symm.trans h⟩
      | error e => cases (bind_error hx).symm.trans h

/-- After an assignment the method goes on from the new state. -/
@[simp] theorem assign_bind (g : σ → σ) (f : Unit → Throws ε σ β) (s : σ) :
    (assign g >>= f) s = f () (g s) := rfl

/-- After a call that does not touch the object, the method goes on
from the same state. -/
theorem lift_bind_ok {y : Except ε α} {a : α} (h : y = .ok a) :
    (liftM y >>= f) s = f a s := by
  subst h
  rfl

/-- Where such a call throws, the method ends in the same state. -/
theorem lift_bind_error {y : Except ε α} {e : ε} (h : y = .error e) :
    (liftM y >>= f) s = (.error e, s) := by
  subst h
  rfl

/-- A method that starts with such a call returns where the call and
the rest return. -/
theorem lift_bind_iff {y : Except ε α} {b : β} :
    (liftM y >>= f) s = (.ok b, s') ↔ ∃ a, y = .ok a ∧ f a s = (.ok b, s') := by
  cases y with
  | ok a =>
      show f a s = (.ok b, s') ↔ _
      constructor
      · intro h
        exact ⟨a, rfl, h⟩
      · intro ⟨a', ha, h⟩
        cases ha
        exact h
  | error e =>
      constructor
      · intro h
        cases congrArg Prod.fst h
      · intro ⟨a, ha, _⟩
        cases ha

/-- A block whose handler returns returns. So a method that is one
such block never throws, whatever happens inside of it. -/
theorem tryCatch_returns {handler : ε → Throws ε σ α} {a : α}
    (h : ∀ e s, handler e s = (.ok a, s)) : ∃ b s', tryCatch x handler s = (.ok b, s') := by
  unfold tryCatch
  split
  · exact ⟨_, _, rfl⟩
  · exact ⟨_, _, h _ _⟩

/-- A block that returns needs no handler. -/
theorem tryCatch_ok {handler : ε → Throws ε σ α} {a : α} (h : x s = (.ok a, s')) :
    tryCatch x handler s = (.ok a, s') := by
  rw [tryCatch, h]

/-- A block that throws goes on in the handler. -/
theorem tryCatch_error {handler : ε → Throws ε σ α} {e : ε} (h : x s = (.error e, s')) :
    tryCatch x handler s = handler e s' := by
  rw [tryCatch, h]

/-- A method of a member changes the member. -/
theorem onMember_apply {τ : Type} {get : σ → τ} {set : σ → τ → σ} {y : Throws ε τ α}
    {r : Except ε α} {t : τ} (h : y (get s) = (r, t)) : onMember get set y s = (r, set s t) := by
  rw [onMember, h]

/-- A method of a member that returns did so for the member. -/
theorem ok_of_onMember {τ : Type} {get : σ → τ} {set : σ → τ → σ} {y : Throws ε τ α} {a : α}
    (h : onMember get set y s = (.ok a, s')) : ∃ t, y (get s) = (.ok a, t) ∧ s' = set s t := by
  cases hy : y (get s) with
  | mk r t =>
      cases (onMember_apply hy).symm.trans h
      exact ⟨t, rfl, rfl⟩

/-- A loop whose steps all return is a fold of what they do. No step
can end the loop early, since none of them throws. -/
theorem forEach_ok {f : α → Throws ε σ Unit} {g : σ → α → σ} {as : List α}
    (h : ∀ a ∈ as, ∀ s, f a s = (.ok (), g s a)) (s : σ) :
    forEach f as s = (.ok (), as.foldl g s) := by
  induction as generalizing s with
  | nil => rfl
  | cons a as ih =>
      -- The first round returns, and the rest goes on from the state that it
      -- left.
      rw [forEach, bind_ok (h a List.mem_cons_self s),
        ih fun b hb => h b (List.mem_cons_of_mem a hb)]
      rfl

/-- A loop that returns returned from every step. -/
theorem forEach_cases {f : α → Throws ε σ Unit} {P : α → Prop}
    (hf : ∀ a s s', f a s = (.ok (), s') → P a) {as : List α}
    (h : forEach f as s = (.ok (), s')) : ∀ a ∈ as, P a := by
  induction as generalizing s with
  | nil => exact fun a ha => absurd ha List.not_mem_nil
  | cons b as ih =>
      rw [forEach] at h
      obtain ⟨u, s₁, hb, hrest⟩ := ok_of_bind h
      intro a ha
      rcases List.mem_cons.mp ha with rfl | ha
      · exact hf a s s₁ hb
      · exact ih hrest a ha

end Throws

end Bigpipe.Lib
