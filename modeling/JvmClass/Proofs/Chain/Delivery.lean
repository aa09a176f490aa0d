import JvmClass.Proofs.Chain.Rewriter

/-!
# What a draft is handed

A draft that elements are emitted to takes one after another until something fails, and after that
it takes none. A transform that only emits and keeps a state of its own is known by what it emits:
it does to the draft what emitting all of that at once would do, also where the draft fails half
way.
-/

namespace JvmClass

variable {σ τ δ ε α : Type}

/-! ## Emitting to a draft -/

section Drafts

variable [Draft δ ε]

/-- What becomes of a draft and its session when elements are emitted to it one after another. -/
def Draft.given : List ε → δ → Session Unit → δ × Session Unit
  | [], d, s => (d, s)
  | e :: rest, d, s =>
    let emitted := (Outlet.terminal.emit e : Drafting Unit δ Unit) d s
    Draft.given rest emitted.1.2 emitted.2

/-- Giving two lists to a draft is giving the second to what has become of it after the first. -/
theorem Draft.given_append (xs ys : List ε) (d : δ) (s : Session Unit) :
    given (xs ++ ys) d s = given ys (given xs d s).1 (given xs d s).2 := by
  induction xs generalizing d s with
  | nil => rfl
  | cons x rest inductionHypothesis => exact inductionHypothesis _ _

variable {d : δ} {s : Session σ}

/-- A draft that is stopped is so by an error of the session or the pool. -/
theorem Draft.not_quiet_of_stop (stopped : Draft.stop? d s ≠ none) : ¬s.Quiet :=
  fun quiet => stopped (Draft.stop?_eq_none quiet)

/-- Once something has failed, a stage takes nothing more. -/
theorem Outlet.emit_stage_of_error (failed : ¬s.Quiet)
    (consume : ε → ExceptT Error (Drafting σ δ) Unit) (e : ε) :
    ((Outlet.stage consume).emit e : Drafting σ δ Unit) d s = (((), d), s) := by
  have looked : ((Outlet.stage consume).stopped? : Drafting σ δ (Option Error)) d s =
      ((s.error <|> s.pool.error, d), s) := rfl
  obtain ⟨error, stop⟩ := Option.ne_none_iff_exists'.mp (mt Session.quiet_iff.mpr failed)
  rw [Outlet.emit, Outlet.emit?]
  simp only [Bind.bind, StateT.bind, looked, stop]
  rfl

/-- A draft that has stopped takes nothing more. -/
theorem Draft.given_of_stop {s : Session Unit} (stopped : Draft.stop? d s ≠ none) (es : List ε) :
    given es d s = (d, s) := by
  induction es with
  | nil => rfl
  | cons e rest inductionHypothesis =>
      rw [given, Outlet.emit_of_stop stopped]
      exact inductionHypothesis

/-- A draft that elements are emitted to either has taken them and nothing has failed, or it is
stopped. -/
theorem Draft.quiet_or_stop {s : Session Unit} (quiet : s.Quiet) (es : List ε) :
    (given es d s).2.Quiet ∨ Draft.stop? (given es d s).1 (given es d s).2 ≠ none := by
  induction es generalizing d s with
  | nil => exact .inl quiet
  | cons e rest inductionHypothesis =>
      rw [given, Outlet.emit_terminal quiet]
      have taken : (Draft.accept e : Drafting Unit δ Unit) d s = Draft.take e d s := rfl
      rw [taken]
      by_cases stopped : Draft.stop? (Draft.take e d s).1.2 (Draft.take e d s).2 = none
      · refine inductionHypothesis ?_
        rw [stop?, Draft.collects_take] at stopped
        split at stopped
        · rename_i collects
          exact ⟨stopped, (Draft.pool_take e d s collects).symm ▸ quiet.pool⟩
        · exact Session.quiet_iff.mpr stopped
      · rw [given_of_stop stopped]
        exact .inr stopped

end Drafts

/-! ## Emitting what a rewriter gives -/

/-- An action on a draft in session `s` ends like emitting `es` would. What the caller keeps is
`user` then, unless something has failed. -/
structure Draft.Ends [Draft δ ε] (d : δ) (s : Session σ) (es : List ε) (user : σ) (d' : δ)
    (s' : Session σ) : Prop where
  draft : d' = (Draft.given es d (s.withUser ())).1
  session : s'.withUser () = (Draft.given es d (s.withUser ())).2
  user : s'.Quiet → s'.user = user

/-- An action emits what `k` gives for what the caller keeps, as long as the draft takes it. -/
structure Emits [Draft δ ε] (k : StateM σ (List ε)) (act : Drafting σ δ Unit) : Prop where
  quiet : ∀ (d : δ) (s : Session σ), s.Quiet → ∃ d' s', act d s = (((), d'), s') ∧
    Draft.Ends d s (k s.user).1 (k s.user).2 d' s'
  stopped : ∀ (d : δ) (s : Session σ), Draft.stop? d s ≠ none →
    ∃ s', act d s = (((), d), s') ∧ s'.withUser () = s.withUser ()

section Emits

variable [Draft δ ε] {d d' : δ} {s s' : Session σ} {es es' : List ε} {user user' : σ}

namespace Draft.Ends

/-- An action that ends as emitting does is quiet at its end exactly if emitting is. -/
theorem quiet_iff (ends : Ends d s es user d' s') :
    s'.Quiet ↔ (given es d (s.withUser ())).2.Quiet := by
  rw [← ends.session]
  exact ⟨fun quiet => quiet.withUser (), fun quiet => quiet.withUser s'.user⟩

/-- If all was quiet before, it still is, or the draft has stopped. -/
theorem quiet_or_stop (ends : Ends d s es user d' s') (quiet : s.Quiet) :
    s'.Quiet ∨ Draft.stop? d' s' ≠ none := by
  rw [ends.quiet_iff, ends.draft]
  have stops : Draft.stop? (given es d (s.withUser ())).1 s' =
      Draft.stop? (given es d (s.withUser ())).1 (s'.withUser ()) := rfl
  rw [stops, ends.session]
  exact Draft.quiet_or_stop (quiet.withUser ()) es

/-- Emitting goes on where it has left off. -/
theorem trans {d'' : δ} {s'' : Session σ} (first : Ends d s es user d' s')
    (second : Ends d' s' es' user' d'' s'') : Ends d s (es ++ es') user' d'' s'' where
  draft := by rw [given_append, ← first.session, ← first.draft]; exact second.draft
  session := by rw [given_append, ← first.session, ← first.draft]; exact second.session
  user := second.user

/-- Where the draft is stopped, nothing of what would follow reaches it. -/
theorem stay {s'' : Session σ} (ends : Ends d s es user d' s') (stopped : Draft.stop? d' s' ≠ none)
    (same : s''.withUser () = s'.withUser ()) : Ends d s (es ++ es') user' d' s'' := by
  have stuck : Draft.stop? d' (s'.withUser ()) ≠ none := stopped
  have nothing : given (es ++ es') d (s.withUser ()) = (d', s'.withUser ()) := by
    rw [given_append, ← ends.session, ← ends.draft, given_of_stop stuck]
  refine ⟨by rw [nothing], by rw [nothing, same], fun quiet => ?_⟩
  refine absurd ?_ (not_quiet_of_stop stuck)
  rw [← same]
  exact quiet.withUser ()

end Draft.Ends

namespace Emits

variable {k k' : StateM σ (List ε)} {x y : Drafting σ δ Unit}

/-- An action that does nothing emits nothing. -/
theorem nothing : Emits (pure []) (pure () : Drafting σ δ Unit) :=
  ⟨fun d s _ => ⟨d, s, rfl, rfl, rfl, fun _ => rfl⟩, fun _ s _ => ⟨s, rfl, rfl⟩⟩

/-- Actions that emit one after another emit what the first gives and then what the second gives for
what the caller keeps by then. -/
theorem bind (first : Emits k x) (second : Emits k' y) :
    Emits (do let xs ← k; return xs ++ (← k')) (do x; y) := by
  constructor
  · intro d s quiet
    obtain ⟨d', s', ran, ends⟩ := first.quiet d s quiet
    have opened : (do x; y) d s = y d' s' := by
      simp only [Bind.bind, StateT.bind, ran]
    rw [opened]
    rcases ends.quiet_or_stop quiet with quiet' | stopped
    · obtain ⟨d'', s'', ran', ends'⟩ := second.quiet d' s' quiet'
      rw [ends.user quiet'] at ends'
      exact ⟨d'', s'', ran', ends.trans ends'⟩
    · obtain ⟨s'', ran', same⟩ := second.stopped d' s' stopped
      exact ⟨d', s'', ran', ends.stay stopped same⟩
  · intro d s stopped
    obtain ⟨s', ran, same⟩ := first.stopped d s stopped
    have stopped' : Draft.stop? d s' ≠ none := by
      have stop : Draft.stop? d (s'.withUser ()) ≠ none := by rw [same]; exact stopped
      exact stop
    obtain ⟨s'', ran', same'⟩ := second.stopped d s' stopped'
    refine ⟨s'', ?_, same'.trans same⟩
    simp only [Bind.bind, StateT.bind, ran]
    exact ran'

/-- Looking at what the caller keeps, and going on from there. -/
theorem look {k : σ → StateM σ (List ε)} {x : σ → Drafting σ δ Unit}
    (each : ∀ u, Emits (k u) (x u)) :
    Emits (do k (← get)) (do x (← getThe (Session σ)).user) :=
  ⟨fun d s => (each s.user).quiet d s, fun d s => (each s.user).stopped d s⟩

/-- Changing what the caller keeps, and going on from there. -/
theorem change (f : σ → σ) (rest : Emits k x) :
    Emits (do modify f; k) (do Drafting.session (Build.onUser (modify f)); x) := by
  constructor
  · intro d s quiet
    obtain ⟨d', s', ran, ends⟩ := rest.quiet d (s.withUser (f s.user)) (quiet.withUser _)
    exact ⟨d', s', ran, ends.draft, ends.session, ends.user⟩
  · intro d s stopped
    exact rest.stopped d (s.withUser (f s.user)) stopped

/-- What is emitted to the draft itself. -/
theorem terminal (e : ε) : Emits (pure [e]) (Outlet.terminal.emit e : Drafting σ δ Unit) := by
  constructor
  · intro d s quiet
    have handed : (Outlet.terminal.emit e : Drafting Unit δ Unit) d (s.withUser ()) =
        Draft.take e d (s.withUser ()) := Outlet.emit_terminal (quiet.withUser ()) e
    have given : Draft.given [e] d (s.withUser ()) =
        ((Draft.take e d (s.withUser ())).1.2, (Draft.take e d (s.withUser ())).2) := by
      rw [Draft.given, handed]
      rfl
    refine ⟨_, _, Outlet.emit_terminal quiet e, ?_, ?_, fun _ => rfl⟩
    · rw [pure_apply, given]
      rfl
    · rw [pure_apply, given]
      rfl
  · intro d s stopped
    exact ⟨s, Outlet.emit_of_stop stopped e, rfl⟩

/-- What is emitted to the next stage of a chain. -/
theorem stage {consume : ε → ExceptT Error (Drafting σ δ) Unit} {e : ε} (rest : Emits k x)
    (consumes : consume e = ExceptT.lift x) : Emits k ((Outlet.stage consume).emit e) := by
  constructor
  · intro d s quiet
    obtain ⟨d', s', ran, ends⟩ := rest.quiet d s quiet
    refine ⟨d', s', ?_, ends⟩
    have looked : ((Outlet.stage consume).stopped? : Drafting σ δ (Option Error)) d s =
        ((none, d), s) := by
      change (((Build.error? s).1, d), (Build.error? s).2) = _
      rw [quiet.error?]
    have lifted : (consume e).run d s = ((.ok (), d'), s') := by
      rw [consumes]
      exact Drafting.Gives.lift ran
    rw [Outlet.emit, Outlet.emit?]
    simp only [Bind.bind, StateT.bind, looked]
    change ((consume e).run >>= fun outcome => Drafting.session (Build.failOn outcome)) d s = _
    simp only [Bind.bind, StateT.bind, lifted]
    rfl
  · intro d s stopped
    exact ⟨s, Outlet.emit_stage_of_error (Draft.not_quiet_of_stop stopped) consume e, rfl⟩

end Emits

end Emits

/-! ## Going to the end of a walk -/

/-- How an action ends that fails with the first error there is. -/
def Session.outcome (s : Session σ) : Except Error Unit :=
  match s.error <|> s.pool.error with
  | some e => .error e
  | none => .ok ()

/-- From draft `d` in session `s`, an action hands `es` to the draft and fails where that does. What
the caller keeps is `user` then, unless something has failed. -/
def Draft.Delivers [Draft δ ε] (d : δ) (s : Session σ) (es : List ε) (user : σ)
    (act : ExceptT Error (Drafting σ δ) Unit) : Prop :=
  ∃ d' s', act.run d s = ((s'.outcome, d'), s') ∧ Draft.Ends d s es user d' s'

section Delivers

variable {d d' : δ} {s s' : Session σ}

namespace Drafting

variable {β : Type} {x : ExceptT Error (Drafting σ δ) α} {f : α → ExceptT Error (Drafting σ δ) β}

/-- After a success, what follows runs on what the first action left. -/
theorem run_bind_of_ok {a : α} (ran : x.run d s = ((.ok a, d'), s')) :
    (x >>= f).run d s = (f a).run d' s' := by
  have opened : x d s = ((.ok a, d'), s') := ran
  change (ExceptT.bind x f) d s = _
  simp only [ExceptT.bind, ExceptT.mk, Bind.bind, StateT.bind, opened]
  rfl

/-- A failure ends the whole action. -/
theorem run_bind_of_error {e : Error} (ran : x.run d s = ((.error e, d'), s')) :
    (x >>= f).run d s = ((.error e, d'), s') := by
  have opened : x d s = ((.error e, d'), s') := ran
  change (ExceptT.bind x f) d s = _
  simp only [ExceptT.bind, ExceptT.mk, Bind.bind, StateT.bind, opened]
  rfl

/-- An action that cannot fail runs as it is among those that can. -/
theorem run_lift {act : Drafting σ δ α} {a : α} (ran : act d s = ((a, d'), s')) :
    (ExceptT.lift act : ExceptT Error (Drafting σ δ) α).run d s = ((.ok a, d'), s') :=
  Gives.lift ran

end Drafting

open Drafting (run_bind_of_ok run_bind_of_error run_lift)

/-- A quiet session ends without an error. -/
theorem Session.Quiet.outcome (quiet : s.Quiet) : s.outcome = .ok () := by
  rw [Session.outcome, Session.quiet_iff.mp quiet]

/-- A session that is not quiet ends with an error. -/
theorem Session.outcome_of_not_quiet (failed : ¬s.Quiet) : ∃ e, s.outcome = .error e := by
  obtain ⟨e, error⟩ := Option.ne_none_iff_exists'.mp (mt Session.quiet_iff.mpr failed)
  exact ⟨e, by rw [Session.outcome, error]⟩

/-- Settling changes nothing and ends as the session does. -/
theorem Transform.settle_apply (d : δ) (s : Session σ) :
    (settle : ExceptT Error (Drafting σ δ) Unit).run d s = ((s.outcome, d), s) := by
  have looked : (Drafting.session Build.error? : Drafting σ δ _) d s =
      ((s.error <|> s.pool.error, d), s) := rfl
  rw [settle, run_bind_of_ok (run_lift looked), Session.outcome]
  cases s.error <|> s.pool.error <;> rfl

namespace Draft.Delivers

variable [Draft δ ε] {es es' : List ε} {user user' : σ}

/-- An action that emits, settled. -/
theorem settled {k : StateM σ (List ε)} {act : Drafting σ δ Unit} (emits : Emits k act)
    (quiet : s.Quiet) :
    Delivers d s (k s.user).1 (k s.user).2 (do ExceptT.lift act; Transform.settle) := by
  obtain ⟨d', s', ran, ends⟩ := emits.quiet d s quiet
  refine ⟨d', s', ?_, ends⟩
  rw [run_bind_of_ok (run_lift ran), Transform.settle_apply]

/-- Where all is quiet, doing nothing hands nothing to the draft. -/
theorem nothing (quiet : s.Quiet) : Delivers d s [] s.user (pure ()) :=
  ⟨d, s, by rw [quiet.outcome]; rfl, rfl, rfl, fun _ => rfl⟩

/-- What is delivered is delivered in pieces, as long as nothing fails. -/
theorem bind {x y : ExceptT Error (Drafting σ δ) Unit} (quiet : s.Quiet)
    (first : Delivers d s es user x)
    (second : ∀ d' s', s'.Quiet → s'.user = user → Delivers d' s' es' user' y) :
    Delivers d s (es ++ es') user' (do x; y) := by
  obtain ⟨d', s', ran, ends⟩ := first
  rcases ends.quiet_or_stop quiet with quiet' | stopped
  · rw [quiet'.outcome] at ran
    obtain ⟨d'', s'', ran', ends'⟩ := second d' s' quiet' (ends.user quiet')
    exact ⟨d'', s'', (run_bind_of_ok ran).trans ran', ends.trans ends'⟩
  · obtain ⟨e, error⟩ := Session.outcome_of_not_quiet (not_quiet_of_stop stopped)
    rw [error] at ran
    exact ⟨d', s', (run_bind_of_error ran).trans (by rw [error]), ends.stay stopped rfl⟩

/-- Elements that are fed to a stage are delivered as what it emits for each. -/
theorem feed {accept : ε → ExceptT Error (Drafting σ δ) Unit} {k : ε → StateM σ (List ε)}
    (each : ∀ e, ∃ act, accept e = ExceptT.lift act ∧ Emits (k e) act) (quiet : s.Quiet)
    (xs : List ε) :
    Delivers d s (feedAll k xs s.user).1 (feedAll k xs s.user).2 (Transform.feed accept xs) := by
  induction xs generalizing d s with
  | nil => exact nothing quiet
  | cons x rest inductionHypothesis =>
      obtain ⟨act, same, emits⟩ := each x
      have opened : Transform.feed accept (x :: rest) =
          (do ExceptT.lift act; Transform.settle) >>= fun _ => Transform.feed accept rest := by
        rw [Transform.feed, same, bind_assoc]
      have unfolded : feedAll k (x :: rest) s.user =
          ((k x s.user).1 ++ (feedAll k rest (k x s.user).2).1,
            (feedAll k rest (k x s.user).2).2) := rfl
      rw [opened, unfolded]
      refine (settled emits quiet).bind quiet fun d' s' quiet' user => ?_
      rw [← user]
      exact inductionHypothesis quiet'

end Draft.Delivers

end Delivers

end JvmClass
