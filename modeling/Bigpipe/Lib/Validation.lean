import Mathlib.Data.List.Forall2

/-!
# `Bigpipe.Lib.Validation`: what a computation that may fail has established

A reader or a check in `Except ε` is a sequence of steps, of which the
first failure ends it. The lemmas take apart a sequence that
succeeded, or that failed with some error.

They are equivalences where that is possible. What a reader accepts is
then computed from its definition by rewriting, step by step, until
only the conditions on the input are left. The error side is of the
same kind: a reader fails with an error that only one of its steps
makes exactly where it comes to that step and the step makes it.

* `bind_eq_ok`: each step of a sequence succeeded. `ite_error_eq_ok`:
  a check passed.
* `forall_ok_iff`: the value of a step that succeeded.
* `bind_eq_error`: the first step that failed. `foldlM_ne_error`: an
  error that no round makes.
* `mapError_eq_ok`: a step whose error was wrapped succeeded.
* `mapM_eq_ok`: a list was read. `exists_forall₂_iff`: a list can be
  read.
* `foldlM_forall₂` and `foldlM_eq_ok`: a loop read a list and went on
  with what it read.
-/

set_option autoImplicit false

namespace Bigpipe.Lib.Validation

variable {ε ε' α β : Type}

/-- A sequence goes on with the value of its first step. -/
theorem ok_bind (a : α) (f : α → Except ε β) : (Except.ok a >>= f) = f a := rfl

/-- A sequence succeeds exactly when each step does, the second one
with the value of the first. -/
theorem bind_eq_ok {x : Except ε α} {f : α → Except ε β} {b : β} :
    (x >>= f) = .ok b ↔ ∃ a, x = .ok a ∧ f a = .ok b := by
  cases x with
  | ok a =>
      show f a = .ok b ↔ _
      constructor
      · intro h
        exact ⟨a, rfl, h⟩
      · intro ⟨a', ha, h⟩
        cases ha
        exact h
  | error e =>
      constructor
      · intro h
        cases h
      · intro ⟨a, ha, _⟩
        cases ha

/-- A sequence fails where its first step does, or the rest. The rest
is only reached where the first step succeeded. -/
theorem bind_eq_error {x : Except ε α} {f : α → Except ε β} {e : ε} :
    (x >>= f) = .error e ↔ x = .error e ∨ ∃ a, x = .ok a ∧ f a = .error e := by
  cases x with
  | ok a =>
      show f a = .error e ↔ _
      constructor
      · intro h
        exact .inr ⟨a, rfl, h⟩
      · rintro (h | ⟨a', ha, h⟩)
        · cases h
        · cases ha
          exact h
  | error e' =>
      show (Except.error e' : Except ε β) = .error e ↔ _
      constructor
      · intro h
        cases h
        exact .inl rfl
      · rintro (h | ⟨a, ha, -⟩)
        · cases h
          rfl
        · cases ha

/-- It fails with an error that the first step does not make only in
the rest. -/
theorem bind_eq_error_of_ne {x : Except ε α} {f : α → Except ε β} {e : ε} (h : x ≠ .error e) :
    (x >>= f) = .error e ↔ ∃ a, x = .ok a ∧ f a = .error e := by
  rw [bind_eq_error, or_iff_right h]

/-- It fails with an error that the rest does not make only in the
first step. -/
theorem bind_eq_error_of_rest {x : Except ε α} {f : α → Except ε β} {e : ε}
    (h : ∀ a, f a ≠ .error e) : (x >>= f) = .error e ↔ x = .error e := by
  rw [bind_eq_error, or_iff_left]
  rintro ⟨a, -, herror⟩
  exact h a herror

/-- The last step. -/
theorem pure_eq_ok {a b : α} : (pure a : Except ε α) = .ok b ↔ a = b :=
  Except.ok.injEq a b ▸ Iff.rfl

/-- The branch that fails was not taken. It is how a check in the
source reads: test, and leave with an error. -/
theorem ite_error_eq_ok {p : Prop} [Decidable p] {e : ε} {x : Except ε α} {a : α} :
    (if p then .error e else x) = .ok a ↔ ¬ p ∧ x = .ok a := by
  by_cases hp : p
  · rw [if_pos hp]
    constructor
    · intro h
      cases h
    · intro h
      exact absurd hp h.1
  · rw [if_neg hp]
    exact (and_iff_right hp).symm

/-- What holds of every value that was read holds of the one that
was. -/
theorem forall_ok_iff {x : Except ε α} {a : α} {P : α → Prop} (h : x = .ok a) :
    (∀ b, x = .ok b → P b) ↔ P a := by
  constructor
  · intro hall
    exact hall a h
  · intro ha b hb
    cases h.symm.trans hb
    exact ha

/-- Wrapping the error changes no success. -/
theorem mapError_eq_ok {x : Except ε α} {f : ε → ε'} {a : α} :
    x.mapError f = .ok a ↔ x = .ok a := by
  cases x with
  | ok b =>
      show (Except.ok b : Except ε' α) = .ok a ↔ (Except.ok b : Except ε α) = .ok a
      rw [Except.ok.injEq, Except.ok.injEq]
  | error e =>
      constructor
      · intro h
        cases h
      · intro h
        cases h

/-- A list is read where each of its elements is, and the values stand
in the order of the elements. -/
theorem mapM_eq_ok {read : α → Except ε β} {as : List α} {bs : List β} :
    as.mapM read = .ok bs ↔ List.Forall₂ (fun a b => read a = .ok b) as bs := by
  induction as generalizing bs with
  | nil =>
      rw [List.mapM_nil, pure_eq_ok, List.forall₂_nil_left_iff]
      exact eq_comm
  | cons a as ih =>
      simp only [List.mapM_cons, bind_eq_ok, pure_eq_ok, ih, List.forall₂_cons_left_iff]
      constructor
      · intro ⟨b, hb, bs', hbs, heq⟩
        exact ⟨b, bs', hb, hbs, heq.symm⟩
      · intro ⟨b, bs', hb, hbs, heq⟩
        exact ⟨b, hb, bs', hbs, heq.symm⟩

/-- What an element was read as. -/
theorem exists_read {Read : α → β → Prop} {as : List α} {bs : List β}
    (h : List.Forall₂ Read as bs) {a : α} (ha : a ∈ as) : ∃ b ∈ bs, Read a b := by
  induction h with
  | nil => cases ha
  | cons hread _ ih =>
      rcases List.mem_cons.mp ha with rfl | ha
      · exact ⟨_, List.mem_cons_self, hread⟩
      · obtain ⟨b, hb, hread⟩ := ih ha
        exact ⟨b, List.mem_cons_of_mem _ hb, hread⟩

/-- What a value was read from. -/
theorem exists_source {Read : α → β → Prop} {as : List α} {bs : List β}
    (h : List.Forall₂ Read as bs) {b : β} (hb : b ∈ bs) : ∃ a ∈ as, Read a b :=
  exists_read h.flip hb

/-- A list can be read where each of its elements can. -/
theorem exists_forall₂_iff {Read : α → β → Prop} {as : List α} :
    (∃ bs, List.Forall₂ Read as bs) ↔ ∀ a ∈ as, ∃ b, Read a b := by
  constructor
  · intro ⟨bs, hbs⟩ a ha
    obtain ⟨b, -, hb⟩ := exists_read hbs ha
    exact ⟨b, hb⟩
  · intro h
    induction as with
    | nil => exact ⟨[], .nil⟩
    | cons a as ih =>
        obtain ⟨b, hb⟩ := h a List.mem_cons_self
        obtain ⟨bs, hbs⟩ := ih fun a' ha' => h a' (List.mem_cons_of_mem a ha')
        exact ⟨b :: bs, .cons hb hbs⟩

/-- A loop whose rounds read an element and go on with what they read.
`Read` is a relation, since what an element is read as may not be
unique where tables are compared by their entries. -/
theorem foldlM_forall₂ {σ : Type} {round : σ → α → Except ε σ} {Read : α → β → Prop}
    {update : σ → β → σ} (h : ∀ s a s', round s a = .ok s' ↔ ∃ b, Read a b ∧ update s b = s')
    {as : List α} {s s' : σ} :
    as.foldlM round s = .ok s' ↔ ∃ bs, List.Forall₂ Read as bs ∧ bs.foldl update s = s' := by
  induction as generalizing s with
  | nil =>
      simp only [List.foldlM_nil, pure_eq_ok, List.forall₂_nil_left_iff, exists_eq_left,
        List.foldl_nil]
  | cons a as ih =>
      simp only [List.foldlM_cons, bind_eq_ok, h, ih, List.forall₂_cons_left_iff]
      constructor
      · intro ⟨s₁, ⟨b, hb, hs₁⟩, bs, hbs, hs'⟩
        rw [← hs₁] at hs'
        exact ⟨b :: bs, ⟨b, bs, hb, hbs, rfl⟩, hs'⟩
      · intro ⟨bs', ⟨b, bs, hb, hbs, heq⟩, hs'⟩
        rw [heq, List.foldl_cons] at hs'
        exact ⟨update s b, ⟨b, hb, rfl⟩, bs, hbs, hs'⟩

/-- A loop does not fail with an error that none of its rounds makes.
The hypothesis is about every state of the loop, as a round may be
reached in any of them. -/
theorem foldlM_ne_error {σ : Type} {round : σ → α → Except ε σ} {e : ε}
    (h : ∀ s a, round s a ≠ .error e) (as : List α) (s : σ) : as.foldlM round s ≠ .error e := by
  induction as generalizing s with
  | nil => nofun
  | cons a as ih =>
      rw [List.foldlM_cons, ne_eq, bind_eq_error_of_ne (h s a)]
      rintro ⟨s', -, herror⟩
      exact ih s' herror

/-- It reads the whole list. -/
theorem foldlM_eq_ok {σ : Type} {round : σ → α → Except ε σ} {read : α → Except ε' β}
    {update : σ → β → σ}
    (h : ∀ s a s', round s a = .ok s' ↔ ∃ b, read a = .ok b ∧ update s b = s') {as : List α}
    {s s' : σ} :
    as.foldlM round s = .ok s' ↔ ∃ bs, as.mapM read = .ok bs ∧ bs.foldl update s = s' := by
  simp only [mapM_eq_ok]
  exact foldlM_forall₂ h

end Bigpipe.Lib.Validation
