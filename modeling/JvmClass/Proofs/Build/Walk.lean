import JvmClass.Build.Transform
import JvmClass.Proofs.Outcome

/-!
# Passing a walk on to a draft

The transform that passes everything on hands each element of a walk to the draft. The walk
comes through where the draft takes one element after another and nothing fails.
-/

namespace JvmClass

variable {σ τ δ ε α β : Type}

/-- Nothing has failed in a session. -/
structure Session.Quiet (s : Session σ) : Prop where
  session : s.error = none
  pool : s.pool.error = none

/-- A session with something else that the caller keeps. -/
def Session.withUser (s : Session σ) (user : τ) : Session τ := { s with user }

/-- Whether anything has failed does not depend on what the caller keeps. -/
theorem Session.Quiet.withUser {s : Session σ} (quiet : s.Quiet) (user : τ) :
    (s.withUser user).Quiet := ⟨quiet.session, quiet.pool⟩

/-- What an action that is apart from what the caller keeps does. -/
theorem Build.apart_apply (act : Build Unit α) (s : Session σ) :
    apart act s = ((act (s.withUser ())).1, (act (s.withUser ())).2.withUser s.user) := rfl

/-- From draft `d` in session `s` an action gives `a` and leaves draft `d'` in session `s'`. -/
def Drafting.Gives (d : δ) (s : Session σ) (act : ExceptT Error (Drafting σ δ) α) (a : α) (d' : δ)
    (s' : Session σ) : Prop :=
  act.run d s = ((.ok a, d'), s')

namespace Drafting.Gives

variable {d d' d'' : δ} {s s' s'' : Session σ}

theorem pure (a : α) : Gives d s (pure a) a d s := rfl

/-- An action that gives something is gone on from where it left. -/
theorem bind {x : ExceptT Error (Drafting σ δ) α} {f : α → ExceptT Error (Drafting σ δ) β} {a : α}
    {b : β} (first : Gives d s x a d' s') (next : Gives d' s' (f a) b d'' s'') :
    Gives d s (x >>= f) b d'' s'' := by
  have opened : x d s = ((.ok a, d'), s') := first
  change (ExceptT.bind x f) d s = _
  simp only [ExceptT.bind, ExceptT.mk, Bind.bind, StateT.bind, opened]
  exact next

/-- An action that cannot fail gives what it gives. -/
theorem lift {x : Drafting σ δ α} {a : α} (given : x d s = ((a, d'), s')) :
    Gives d s (ExceptT.lift x) a d' s' := by
  change ((Except.ok (x d s).1.1, (x d s).1.2), (x d s).2) = _
  rw [given]

/-! What an action that succeeds has done. -/

/-- Returning gives its value and leaves everything as it is. -/
theorem pure_iff {a b : α} :
    Gives d s (Pure.pure a) b d' s' ↔ a = b ∧ d = d' ∧ s = s' := by
  change ((Except.ok a, d), s) = ((Except.ok b, d'), s') ↔ _
  simp [and_assoc]

/-- Two actions give something where the first gives something that the second goes on from. -/
theorem bind_iff {x : ExceptT Error (Drafting σ δ) α} {f : α → ExceptT Error (Drafting σ δ) β}
    {b : β} :
    Gives d s (x >>= f) b d'' s'' ↔
      ∃ a d' s', Gives d s x a d' s' ∧ Gives d' s' (f a) b d'' s'' := by
  constructor
  · intro gives
    change (ExceptT.bind x f) d s = _ at gives
    simp only [ExceptT.bind, ExceptT.mk, Bind.bind, StateT.bind] at gives
    rcases opened : x d s with ⟨⟨outcome, d'⟩, s'⟩
    rw [opened] at gives
    cases outcome with
    | error e => exact nomatch congrArg (·.1.1) gives
    | ok a => exact ⟨a, d', s', opened, gives⟩
  · rintro ⟨a, d', s', first, next⟩
    exact first.bind next

/-- An action that cannot fail gives what it gives, and nothing else. -/
theorem lift_iff {x : Drafting σ δ α} {a : α} :
    Gives d s (ExceptT.lift x) a d' s' ↔ x d s = ((a, d'), s') := by
  constructor
  · intro gives
    change ((Except.ok (x d s).1.1, (x d s).1.2), (x d s).2) = ((Except.ok a, d'), s') at gives
    simp only [Prod.mk.injEq, Except.ok.injEq] at gives
    exact Prod.ext (Prod.ext gives.1.1 gives.1.2) gives.2
  · exact lift

/-- Nothing is given by an action that fails. -/
theorem not_throw {e : Error} {a : α} : ¬Gives d s (throw e) a d' s' := by
  intro gives
  exact nomatch congrArg (·.1.1) gives

end Drafting.Gives

open Drafting (Gives)

variable {d d' : δ} {s s' : Session σ}

/-- Nothing has failed where neither the session nor its pool has an error. -/
theorem Session.quiet_iff : s.Quiet ↔ (s.error <|> s.pool.error) = none := by
  constructor
  · intro quiet
    rw [quiet.session, quiet.pool]
    rfl
  · intro none
    cases sessionError : s.error with
    | some e => simp [sessionError] at none
    | none => exact ⟨sessionError, by simpa [sessionError] using none⟩

/-- A quiet session has no error. -/
theorem Session.Quiet.error? (quiet : s.Quiet) : Build.error? s = (none, s) := by
  rw [Build.error?, bind_apply, get_apply, pure_apply, quiet.session, quiet.pool]
  rfl

/-- A quiet session has no error that could not be kept back. -/
theorem Session.Quiet.abort? (quiet : s.Quiet) : Build.abort? s = (none, s) := by
  rw [Build.abort?, bind_apply, get_apply, pure_apply, quiet.session, quiet.pool]
  rfl

/-- Nothing settles a session in which nothing has failed. -/
theorem Session.Quiet.settle (quiet : s.Quiet) :
    Gives d s (Transform.settle : ExceptT Error (Drafting σ δ) Unit) () d s := by
  have looked : (Drafting.session Build.error? : Drafting σ δ (Option Error)) d s =
      ((none, d), s) := by
    change (((Build.error? s).1, d), (Build.error? s).2) = _
    rw [quiet.error?]
  exact .bind (.lift looked) (.pure ())

/-- What settles has not failed. -/
theorem Session.quiet_of_settle
    (gives : Gives d s (Transform.settle : ExceptT Error (Drafting σ δ) Unit) () d' s') :
    s.Quiet ∧ d = d' ∧ s = s' := by
  rw [Transform.settle, Gives.bind_iff] at gives
  obtain ⟨found, d₁, s₁, looked, settled⟩ := gives
  have same : (((s.error <|> s.pool.error), d), s) = ((found, d₁), s₁) := Gives.lift_iff.mp looked
  obtain ⟨⟨rfl, rfl⟩, rfl⟩ : ((s.error <|> s.pool.error) = found ∧ d = d₁) ∧ s = s₁ := by
    simpa only [Prod.mk.injEq] using same
  cases sessionError : s.error with
  | some e =>
      rw [sessionError] at settled
      exact absurd settled Gives.not_throw
  | none =>
      cases poolError : s.pool.error with
      | some e =>
          rw [sessionError, poolError] at settled
          exact absurd settled Gives.not_throw
      | none =>
          rw [sessionError, poolError] at settled
          obtain ⟨-, same⟩ := Gives.pure_iff.mp settled
          exact ⟨⟨sessionError, poolError⟩, same⟩

/-- Feeding a list that does not break off accepts its first element, leaves the session quiet, and
feeds the rest. -/
theorem Transform.feed_cons {accept : ε → ExceptT Error (Drafting σ δ) Unit} {e : ε}
    {rest : List ε} (gives : Gives d s (feed accept (e :: rest)) () d' s') :
    ∃ d₁ s₁, Gives d s (accept e) () d₁ s₁ ∧ s₁.Quiet ∧
      Gives d₁ s₁ (feed accept rest) () d' s' := by
  rw [feed, Gives.bind_iff] at gives
  obtain ⟨⟨⟩, d₁, s₁, first, gives⟩ := gives
  obtain ⟨⟨⟩, d₂, s₂, settled, others⟩ := Gives.bind_iff.mp gives
  obtain ⟨quiet, rfl, rfl⟩ := Session.quiet_of_settle settled
  exact ⟨d₁, s₁, first, quiet, others⟩

/-- A walk that ends well has a transform and does not break off. -/
theorem Transform.whole_of_run {source : Traversal ε} {t : Option (Transform σ δ ε)}
    {o : Outlet σ δ ε} (gives : Gives d s (Transform.run source t o) () d' s') :
    t.isSome = true ∧ source.failure = none := by
  cases t with
  | none => exact absurd gives Gives.not_throw
  | some t =>
      rw [Transform.run] at gives
      obtain ⟨stage, _, _, -, gives⟩ := Gives.bind_iff.mp gives
      obtain ⟨⟨⟩, _, _, -, gives⟩ := Gives.bind_iff.mp gives
      cases broken : source.failure with
      | none => exact ⟨rfl, rfl⟩
      | some e =>
          rw [broken] at gives
          exact absurd gives Gives.not_throw

variable [Draft δ ε]

/-- Taking some elements one after another leads from one draft to another, and nothing fails
on the way. -/
inductive Draft.Takes : Session σ → δ → List ε → Session σ → δ → Prop
  | done (s : Session σ) (d : δ) : Takes s d [] s d
  | next {s s' s'' : Session σ} {d d' d'' : δ} {e : ε} {rest : List ε} (quiet : s'.Quiet)
      (accepted : (Draft.accept e : Drafting σ δ Unit) d s = (((), d'), s'))
      (others : Takes s' d' rest s'' d'') : Takes s d (e :: rest) s'' d''

/-- Taking two lists one after the other is taking both at once. -/
theorem Draft.Takes.append {s s' s'' : Session σ} {d d' d'' : δ} {first second : List ε}
    (takes : Takes s d first s' d') (further : Takes s' d' second s'' d'') :
    Takes s d (first ++ second) s'' d'' := by
  induction takes with
  | done => exact further
  | next quiet accepted others inductionHypothesis =>
      exact .next quiet accepted (inductionHypothesis further)

/-- The error that keeps a draft from taking elements. -/
def Draft.stop? (d : δ) (s : Session σ) : Option Error :=
  if Draft.collects d then s.error else s.error <|> s.pool.error

/-- Nothing stops a draft in a quiet session. -/
theorem Draft.stop?_eq_none (quiet : s.Quiet) : Draft.stop? d s = none := by
  rw [stop?, quiet.session, quiet.pool]
  split <;> rfl

/-- Whether the draft itself has stopped is whether something stops it. -/
theorem Outlet.stopped?_terminal (d : δ) (s : Session σ) :
    (Outlet.terminal.stopped? : Drafting σ δ (Option Error)) d s = ((Draft.stop? d s, d), s) := by
  change (if Draft.collects d then
    (Drafting.session Build.sessionError? : Drafting σ δ (Option Error))
    else Drafting.session Build.error?) d s = _
  rw [Draft.stop?]
  split <;> rfl

/-- A terminal outlet hands an element to a draft that nothing keeps from taking it. -/
theorem Outlet.emit_of_open (taking : Draft.stop? d s = none) (e : ε) :
    (Outlet.terminal.emit e : Drafting σ δ Unit) d s =
      (Draft.accept e : Drafting σ δ Unit) d s := by
  rw [Outlet.emit, Outlet.emit?]
  simp only [Bind.bind, StateT.bind, Outlet.stopped?_terminal, taking]
  rfl

/-- Emitting to the draft itself has it accept the element, as long as nothing has failed. -/
theorem Outlet.emit_terminal (quiet : s.Quiet) (e : ε) :
    (Outlet.terminal.emit e : Drafting σ δ Unit) d s =
      (Draft.accept e : Drafting σ δ Unit) d s := emit_of_open (Draft.stop?_eq_none quiet) e

/-- Nothing reaches a draft that is stopped. -/
theorem Outlet.emit_of_stop (stopped : Draft.stop? d s ≠ none) (e : ε) :
    (Outlet.terminal.emit e : Drafting σ δ Unit) d s = (((), d), s) := by
  obtain ⟨error, stop⟩ := Option.ne_none_iff_exists'.mp stopped
  rw [Outlet.emit, Outlet.emit?]
  simp only [Bind.bind, StateT.bind, Outlet.stopped?_terminal, stop]
  rfl

/-- Elements that the draft takes are all passed on. -/
theorem Transform.feed_terminal {elements : List ε} (quiet : s.Quiet)
    (takes : Draft.Takes s d elements s' d') :
    Gives d s (Transform.feed (fun e => ExceptT.lift (Outlet.terminal.emit e)) elements) ()
      d' s' := by
  induction takes with
  | done => exact .pure ()
  | next quiet' accepted others inductionHypothesis =>
      exact .bind (.lift ((Outlet.emit_terminal quiet _).trans accepted))
        (.bind quiet'.settle (inductionHypothesis quiet'))

/-- A walk that does not break off is passed on where the draft takes all of it, and what is to be
done at the end is done then. -/
theorem Transform.run_endHandler {source : Traversal ε}
    {atEnd : Outlet σ δ ε → ExceptT Error (Drafting σ δ) Unit} {d'' : δ} {s'' : Session σ}
    (quiet : s.Quiet) (takes : Draft.Takes s d source.elements s' d')
    (whole : source.failure = none) (ends : Gives d' s' (atEnd .terminal) () d'' s'')
    (quiet' : s''.Quiet) :
    Gives d s (Transform.run source (some (.endHandler atEnd)) .terminal) () d'' s'' := by
  have bound : Gives d s (liftM ((Transform.endHandler atEnd).bind (.terminal : Outlet σ δ ε)))
      ⟨fun e => ExceptT.lift (Outlet.terminal.emit e), atEnd .terminal⟩ d s := rfl
  refine bound.bind ((feed_terminal quiet takes).bind ?_)
  rw [whole]
  exact ends.bind quiet'.settle

end JvmClass
