import Mathlib.Data.List.Forall2

/-!
# Outcomes of steps that can fail

Every decoder and builder of the library is a chain of steps of which the first error is the
outcome. These lemmas take such a chain apart where it succeeds.
-/

namespace JvmClass

variable {ε α β : Type}

/-- Returning succeeds with its value. -/
theorem pure_eq_ok_iff {a b : α} : (pure a : Except ε α) = .ok b ↔ a = b := by
  simp [pure, Except.pure]

/-- Two steps succeed where the first gives something that the second succeeds with. -/
theorem bind_eq_ok_iff {x : Except ε α} {f : α → Except ε β} {b : β} :
    (x >>= f) = .ok b ↔ ∃ a, x = .ok a ∧ f a = .ok b := by
  cases x with
  | error e => simp [bind, Except.bind]
  | ok a => simp [bind, Except.bind]

/-- A value that was changed is what the change makes of one. -/
theorem map_eq_ok_iff {x : Except ε α} {f : α → β} {b : β} :
    (f <$> x) = .ok b ↔ ∃ a, x = .ok a ∧ f a = b := by
  cases x with
  | error e => simp [Functor.map, Except.map]
  | ok a => simp [Functor.map, Except.map]

/-- Nothing that is thrown succeeds. -/
@[simp] theorem throw_eq_ok_iff {e : ε} {a : α} : (throw e : Except ε α) = .ok a ↔ False := by
  simp [throw, throwThe, MonadExceptOf.throw]

/-- A wrapped outcome succeeds with what the outcome does. -/
theorem mapError_eq_ok_iff {x : Except ε α} {f : ε → β} {a : α} :
    x.mapError f = .ok a ↔ x = .ok a := by
  cases x with
  | error e => simp [Except.mapError]
  | ok b => simp [Except.mapError]

/-- An outcome gives a value where it succeeds with it. -/
theorem toOption_eq_some_iff {x : Except ε α} {a : α} : x.toOption = some a ↔ x = .ok a := by
  cases x with
  | error e => simp [Except.toOption]
  | ok b => simp [Except.toOption]

/-- A check passes where its condition for failing does not hold. -/
theorem guard_eq_ok_iff {p : Prop} [Decidable p] {e : ε} {fails : α → Except ε β}
    {rest : Except ε β} {b : β} :
    (if p then throw e >>= fails else rest) = .ok b ↔ ¬p ∧ rest = .ok b := by
  split
  · simp_all [bind, Except.bind, throw, throwThe, MonadExceptOf.throw]
  · simp_all

/-- The outcomes of a step for each of some items. -/
theorem mapM_eq_ok_iff {f : α → Except ε β} {as : List α} {bs : List β} :
    as.mapM f = .ok bs ↔ List.Forall₂ (fun a b => f a = .ok b) as bs := by
  induction as generalizing bs with
  | nil =>
      rw [List.mapM_nil, pure_eq_ok_iff]
      constructor
      · rintro rfl
        exact .nil
      · intro all
        cases all
        rfl
  | cons a rest inductionHypothesis =>
      rw [List.mapM_cons]
      simp only [bind_eq_ok_iff, pure_eq_ok_iff, inductionHypothesis]
      constructor
      · rintro ⟨b, first, others, all, rfl⟩
        exact .cons first all
      · intro all
        cases all with
        | cons first all => exact ⟨_, first, _, all, rfl⟩

/-- What a step gives has `post`, and the errors that it ends with have `fails`. -/
def Yields (fails : ε → Prop) (x : Except ε α) (post : α → Prop) : Prop :=
  (∀ a, x = .ok a → post a) ∧ ∀ e, x = .error e → fails e

namespace Yields

variable {fails : ε → Prop} {post : α → Prop}

/-- Returning yields what is true of the value. -/
theorem pure {a : α} (holds : post a) : Yields fails (pure a) post := by
  constructor
  · intro b given
    exact pure_eq_ok_iff.mp given ▸ holds
  · intro e given
    cases given

/-- An error that may be failed with is yielded by throwing it. -/
theorem throw {e : ε} (failing : fails e) : Yields fails (throw e : Except ε α) post := by
  constructor
  · intro b given
    cases given
  · intro e' given
    obtain rfl := Except.error.inj given
    exact failing

/-- One step after another yields what the second does. -/
theorem bind {x : Except ε α} {f : α → Except ε β} {post' : β → Prop}
    (first : Yields fails x post) (next : ∀ a, post a → Yields fails (f a) post') :
    Yields fails (x >>= f) post' := by
  cases x with
  | error e => exact throw (first.2 e rfl)
  | ok a => exact next a (first.1 a rfl)

/-- What is yielded may be changed afterwards. -/
theorem map {x : Except ε α} {f : α → β} {post' : β → Prop}
    (yields : Yields fails x fun a => post' (f a)) : Yields fails (f <$> x) post' := by
  cases x with
  | error e => exact throw (yields.2 e rfl)
  | ok a => exact pure (yields.1 a rfl)

/-- What is yielded has everything that follows from it. -/
theorem mono {x : Except ε α} {post' : α → Prop} (yields : Yields fails x post)
    (weaker : ∀ a, post a → post' a) : Yields fails x post' :=
  ⟨fun a given => weaker a (yields.1 a given), yields.2⟩

/-- What is known of an outcome holds of it. -/
theorem strengthen {x : Except ε α} {post' : α → Prop} (yields : Yields fails x post)
    (known : ∀ a, x = .ok a → post' a) : Yields fails x post' :=
  ⟨known, yields.2⟩

/-- Wrapped errors may be failed with where the wrapping allows for them. -/
theorem mapError {ε' : Type} {fails' : ε' → Prop} {x : Except ε' α} {f : ε' → ε}
    (yields : Yields fails' x post) (wraps : ∀ e, fails' e → fails (f e)) :
    Yields fails (x.mapError f) post := by
  cases x with
  | error e => exact throw (wraps e (yields.2 e rfl))
  | ok a => exact pure (yields.1 a rfl)

/-- A check that fails as it may. -/
theorem guard {p : Prop} [Decidable p] {e : ε} {stops : α → Except ε β} {rest : Except ε β}
    {post' : β → Prop} (failing : p → fails e) (passes : ¬p → Yields fails rest post') :
    Yields fails (if p then throwThe ε e >>= stops else rest) post' := by
  split
  · rename_i holds
    exact throw (failing holds)
  · rename_i fits
    exact passes fits

/-- Either of two steps that yield something yields it. -/
theorem ite {p : Prop} [Decidable p] {x y : Except ε α} (first : p → Yields fails x post)
    (second : ¬p → Yields fails y post) : Yields fails (if p then x else y) post := by
  split
  · rename_i holds
    exact first holds
  · rename_i differs
    exact second differs

/-- Steps over a list yield what each of them yields. -/
theorem mapM {f : α → Except ε β} {as : List α} {each : β → Prop}
    (item : ∀ a ∈ as, Yields fails (f a) each) :
    Yields fails (as.mapM f) fun bs => ∀ b ∈ bs, each b := by
  induction as with
  | nil =>
      rw [List.mapM_nil]
      exact pure fun b member => nomatch member
  | cons a rest inductionHypothesis =>
      rw [List.mapM_cons]
      refine bind (item a List.mem_cons_self) fun b here => ?_
      refine bind (inductionHypothesis fun a member => item a (List.mem_cons_of_mem _ member))
        fun bs others => pure fun b' member => ?_
      rcases List.mem_cons.mp member with rfl | member
      · exact here
      · exact others b' member

end Yields

section State

variable {σ : Type}

/-! Steps on a state, which are functions of it. -/

/-- Two actions in a row go on from the state that the first leaves. -/
theorem bind_apply (x : StateM σ α) (f : α → StateM σ β) (s : σ) :
    (x >>= f) s = f (x s).1 (x s).2 := rfl

theorem pure_apply (a : α) (s : σ) : (pure a : StateM σ α) s = (a, s) := rfl

theorem get_apply (s : σ) : (get : StateM σ σ) s = (s, s) := rfl

theorem modify_apply (f : σ → σ) (s : σ) : (modify f : StateM σ PUnit) s = (⟨⟩, f s) := rfl

/-- A choice between actions is made before they are run. -/
theorem ite_apply_state {p : Prop} [Decidable p] (x y : StateM σ α) (s : σ) :
    (if p then x else y) s = if p then x s else y s := by
  split <;> rfl

/-- What follows an action on a state that can fail. -/
theorem Yields.run_bind {x : ExceptT ε (StateM σ) α} {f : α → ExceptT ε (StateM σ) β}
    {fails : ε → Prop} {post : α → Prop} {post' : β → Prop} {s : σ}
    (first : Yields fails (x.run s).1 post)
    (next : ∀ a s, post a → Yields fails ((f a).run s).1 post') :
    Yields fails ((x >>= f).run s).1 post' := by
  have opened : (x >>= f).run s = ExceptT.bindCont f (x.run s).1 (x.run s).2 := rfl
  rw [opened]
  generalize x.run s = reached at first
  obtain ⟨outcome, s'⟩ := reached
  cases outcome with
  | error e => exact .throw (first.2 e rfl)
  | ok a => exact next a s' (first.1 a rfl)

end State

end JvmClass
