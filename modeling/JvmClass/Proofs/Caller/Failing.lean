import JvmClass.Proofs.Build.Identity
import JvmClass.Proofs.Caller.Levels

/-!
# Failures of classes that programs put together

Where anything fails while a class is put together, there are no bytes. What a program returns, what
the session records as long as no program has returned an error, what the pool records and what the
walk through the source breaks off with are failures of their own. The outcome is not counted among
them: where they are all one error, it is proved to be the outcome, unless what went on could not go
on at all.
-/

namespace JvmClass

open PoolBuilder (Call Requests)

namespace Caller

/-! ## What failed -/

/-- Whether a program returned an error. -/
def Event.raises : Event → Bool
  | .raised .. => true
  | .called .. | .met .. => false

/-- The error that a program returned. -/
def Event.returned : Event → List Error
  | .raised e _ _ => [e]
  | .called .. | .met .. => []

/-- The failures that an event tells of, when a program returned an error before or not. -/
def Event.failures (returned : Bool) : Event → List Error
  | .called .. => []
  | .met session pool => (if returned then [] else session.toList) ++ pool.toList
  | .raised e session pool => (if returned then [] else session.toList) ++ pool.toList ++ [e]

namespace Diary

variable {diary : Diary}

/-- Whether a program returned an error. -/
def raises (diary : Diary) : Bool := diary.any Event.raises

/-- The errors that programs returned. -/
def returned (diary : Diary) : List Error := diary.flatMap Event.returned

/-- The failures that a diary tells of, when a program returned an error before or not. -/
def failuresAfter (returned : Bool) : Diary → List Error
  | [] => []
  | event :: rest => event.failures returned ++ failuresAfter (returned || event.raises) rest

/-- The failures that a diary tells of. -/
def failures (diary : Diary) : List Error := diary.failuresAfter false

/-- What diaries tell of one after the other is what either tells, the second knowing of what was
returned in the first. -/
theorem failuresAfter_append (returned : Bool) (first second : Diary) :
    failuresAfter returned (first ++ second) =
      failuresAfter returned first ++ failuresAfter (returned || raises first) second := by
  induction first generalizing returned with
  | nil => simp [failuresAfter, raises]
  | cons event rest inductionHypothesis =>
      simp [failuresAfter, raises, inductionHypothesis, Bool.or_assoc]

/-- The failures of two diaries are those of the first, and those that the second tells of after
it. -/
theorem failures_append (first second : Diary) :
    failures (first ++ second) = failures first ++ failuresAfter (raises first) second :=
  failuresAfter_append false first second

/-- Somebody returned an error in one of two diaries if in either. -/
theorem raises_append (first second : Diary) :
    raises (first ++ second) = (raises first || raises second) := List.any_append

/-- The errors of two diaries are those of either. -/
theorem errors_append (first second : Diary) :
    errors (first ++ second) = errors first ++ errors second := List.flatMap_append

/-- What was returned in two diaries is what was returned in either. -/
theorem returned_append (first second : Diary) :
    returned (first ++ second) = returned first ++ returned second := List.flatMap_append

/-- What a program returns is a failure. -/
theorem mem_failuresAfter {e : Error} (member : e ∈ diary.returned) (before : Bool) :
    e ∈ failuresAfter before diary := by
  induction diary generalizing before with
  | nil => exact absurd member List.not_mem_nil
  | cons event rest inductionHypothesis =>
      rw [failuresAfter]
      rcases List.mem_append.mp member with here | later
      · refine List.mem_append_left _ ?_
        cases event with
        | raised x session pool => exact List.mem_append_right _ here
        | called | met => exact absurd here List.not_mem_nil
      · exact List.mem_append_right _ (inductionHypothesis later _)

end Diary

end Caller

open Caller

variable {σ δ ε : Type}

namespace Session

variable {s s' : Session (σ × Diary)} {before : Diary} {e : Error}

/-- No error goes without trace in the session: where the diary tells of one, something has
failed. -/
def Guarded (before : Diary) (s : Session (σ × Diary)) : Prop :=
  Diary.errors (before ++ s.user.2) ≠ [] → ¬s.Quiet

/-- Where `e` is the only failure and a program returned it, the session has it, unless there is an
error that cannot be kept back. -/
def Holds (before : Diary) (e : Error) (s : Session (σ × Diary)) : Prop :=
  (∀ x ∈ Diary.failures (before ++ s.user.2), x = e) → Diary.raises (before ++ s.user.2) = true →
    s.error = some e ∨ s.Aborted

/-- Where `e` is the only failure and a program returned it, the session has it, or it is the error
that is on its way. -/
def Expects (before : Diary) (e : Error) (onItsWay : Error) (s : Session (σ × Diary)) : Prop :=
  (∀ x ∈ Diary.failures (before ++ s.user.2), x = e) → Diary.raises (before ++ s.user.2) = true →
    (s.error = some e ∨ s.Aborted) ∨ s.error = none ∧ onItsWay = e

/-- No error goes without trace while the diary stays and nothing is cleared. -/
theorem Guarded.go (guarded : s.Guarded before) (user : s'.user = s.user)
    (quiet : s'.Quiet → s.Quiet) : s'.Guarded before := by
  rw [Guarded, user]
  exact fun told fine => guarded told (quiet fine)

/-- The session keeps an error that sticks while the diary stays. -/
theorem Holds.go (holds : s.Holds before e) (user : s'.user = s.user) (sticks : s.Sticks s') :
    s'.Holds before e := by
  rw [Holds, user]
  exact fun single returned => (holds single returned).elim (sticks.1 e) fun aborted =>
    .inr (sticks.2 aborted)

/-- The error on its way is recorded. -/
theorem Expects.fail {x : Error} (expects : s.Expects before e x) :
    (Build.fail x s).2.Holds before e := by
  intro single returned
  have sticks := s.sticks_fail x
  rcases expects single returned with (known | aborted) | ⟨clear, rfl⟩
  · exact sticks.1 e known
  · exact .inr (sticks.2 aborted)
  · have recorded : (Build.fail x s).2.error =
        some (Error.first (s.error <|> s.pool.error.bind Error.abort?) x) := rfl
    rw [clear] at recorded
    cases aborts : s.pool.error.bind Error.abort? with
    | none =>
        rw [aborts] at recorded
        exact .inl recorded
    | some a =>
        obtain ⟨p, -, aborts'⟩ := Option.bind_eq_some_iff.mp aborts
        have stands : a.abort? = some a := Error.abort?_abort? aborts'
        refine .inr ⟨a, recorded.trans ?_, by rw [stands]; rfl⟩
        simp [aborts, Error.first, stands]

end Session

/-! ## Writing the diary -/

section Writing

variable {event : Event}

/-- An event is written behind all that was told before. -/
theorem told_writing (before : Diary) (s : Session (σ × Diary)) (event : Event) :
    before ++ (s.writing event).user.2 = before ++ s.user.2 ++ [event] :=
  (List.append_assoc ..).symm

/-- Writing an event adds its errors. -/
theorem errors_writing (before : Diary) (s : Session (σ × Diary)) (event : Event) :
    Diary.errors (before ++ (s.writing event).user.2) =
      Diary.errors (before ++ s.user.2) ++ event.errors := by
  rw [told_writing, Diary.errors_append]
  simp [Diary.errors]

/-- Writing an event adds its failures, seen after all that was returned before. -/
theorem failures_writing (before : Diary) (s : Session (σ × Diary)) (event : Event) :
    Diary.failures (before ++ (s.writing event).user.2) =
      Diary.failures (before ++ s.user.2) ++
        event.failures (Diary.raises (before ++ s.user.2)) := by
  rw [told_writing, Diary.failures_append]
  simp [Diary.failuresAfter]

/-- Writing an event tells that an error was returned if the event does. -/
theorem raises_writing (before : Diary) (s : Session (σ × Diary)) (event : Event) :
    Diary.raises (before ++ (s.writing event).user.2) =
      (Diary.raises (before ++ s.user.2) || event.raises) := by
  rw [told_writing, Diary.raises_append]
  simp [Diary.raises]

/-- An event that tells of no error but those that stand in the session. -/
theorem Session.Guarded.writing {s : Session (σ × Diary)} {before : Diary}
    (guarded : s.Guarded before) (told : s.Quiet → event.errors = []) :
    (s.writing event).Guarded before := by
  intro errors quiet
  have before' : s.Quiet := ⟨quiet.session, quiet.pool⟩
  rw [errors_writing, told before', List.append_nil] at errors
  exact guarded errors before'

/-- An event that tells of no error that is returned. -/
theorem Session.Holds.writing {s : Session (σ × Diary)} {before : Diary} {e : Error}
    (holds : s.Holds before e) (silent : event.raises = false) :
    (s.writing event).Holds before e := by
  intro single returned
  rw [failures_writing] at single
  rw [raises_writing, silent, Bool.or_false] at returned
  exact holds (fun x member => single x (List.mem_append_left _ member)) returned

/-- An error that a program returns is on its way. -/
theorem Session.Holds.raised {s : Session (σ × Diary)} {before : Diary} {e : Error}
    (holds : s.Holds before e) (x : Error) :
    (s.writing (.raised x s.error s.pool.error)).Expects before e x := by
  intro single _
  rw [failures_writing] at single
  have raised : x = e := single x (List.mem_append_right _ (by simp [Event.failures]))
  cases returned : Diary.raises (before ++ s.user.2) with
  | true =>
      exact .inl (holds (fun x member => single x (List.mem_append_left _ member)) returned)
  | false =>
      cases known : s.error with
      | none => exact .inr ⟨known, raised⟩
      | some m =>
          refine .inl (.inl (known.trans (congrArg some (single m (List.mem_append_right _ ?_)))))
          simp [Event.failures, returned, known]

end Writing

/-! ## A contract -/

open Session (Guarded Holds Expects)

/-- No error goes without trace, and one that is the only failure is passed on as it is. -/
def Contract.telling (σ : Type) (before : Diary) (e : Error) : Contract (σ × Diary) where
  Fine s := s.Guarded before ∧ s.Holds before e
  Thrown x s := s.Expects before e x
  Later _ _ := True
  Given _ _ := True
  Alone _ := False
  refl _ := trivial
  trans _ _ := trivial
  given _ := id
  alone _ := id
  parent := False.elim
  proceeds fine goes := ⟨trivial, fine.1.go goes.user goes.quiet, fine.2.go goes.user goes.sticks⟩
  thrown _ fine single returned := .inl (fine.2 single returned)
  fail expects := ⟨trivial, fun _ quiet => (nomatch quiet.session), expects.fail⟩

/-- Factory calls only add to a pool. -/
theorem PoolBuilder.Call.grow_run (q : PoolBuilder.Call) : PoolBuilder.Grow q.run := by
  cases q <;> refine .bind ?_ fun _ => .pure _
  exacts [grow_utf8 _, grow_integer _, grow_float _, grow_long _, grow_double _, grow_class _,
    grow_classOf _, grow_classFor _, grow_string _, grow_methodType _, grow_nameAndType _ _,
    grow_nameAndTypeOf _ _, grow_member _ _ _ _, grow_memberOf _ _ _, grow_handle _ _,
    grow_bootstrap _ _, grow_dynamic _ _, grow_callSite _ _, grow_module _, grow_package _,
    grow_indexOf _]

namespace Contract

variable {before : Diary} {e : Error}


/-- Programs keep it, as all that they return is in the diary. -/
def telling_hosts (σ : Type) (before : Diary) (e : Error) : (telling σ before e).Hosts where
  Asked _ _ := True
  asked _ := id
  utf8 _ _ := trivial
  keep kept fine := ⟨trivial, fun told quiet => fine.1 told ⟨quiet.session, quiet.pool⟩, fine.2⟩
  called handed asked fine :=
    ⟨trivial, ⟨fine.1.writing fun _ => rfl, fine.2.writing rfl⟩, fun _ _ => trivial,
      fun _ _ => trivial⟩
  met fine := ⟨trivial, fine.1.writing fun quiet =>
    by simp [Event.errors, quiet.session, quiet.pool], fine.2.writing rfl⟩
  raised x fine := ⟨trivial, fine.2.raised x⟩
  answer {s q} fine _ := by
    have grows := q.grow_run s.pool
    exact ⟨trivial, ⟨fine.1.go rfl fun quiet => ⟨quiet.session, grows.error quiet.pool⟩,
      fine.2.go rfl (.refl s)⟩, fun _ _ => trivial⟩

end Contract

/-! ## Where an error comes from -/

section Blames

variable {τ μ κ ρ α β : Type} {P Q : Error → Session τ → Prop}

/-- `P` of the error that something ended with, if it did. -/
def Errs (P : Error → Session τ → Prop) : (Except Error α × δ) × Session τ → Prop
  | ((.ok _, _), _) => True
  | ((.error e, _), s) => P e s

/-- Whatever error an action ends with, `P` holds of it. -/
def Blames (P : Error → Session τ → Prop) (act : ExceptT Error (Drafting τ δ) α) : Prop :=
  ∀ (d : δ) (s : Session τ), Errs P (act.run d s)

namespace Blames

/-- What an action is blamed for may be told more weakly. -/
theorem mono {act : ExceptT Error (Drafting τ δ) α} (blames : Blames P act)
    (weaker : ∀ e s, P e s → Q e s) : Blames Q act := by
  intro d s
  have errs := blames d s
  generalize act.run d s = reached at errs ⊢
  obtain ⟨⟨_ | _, _⟩, _⟩ := reached
  · exact weaker _ _ errs
  · trivial

theorem pure (a : α) : Blames P (Pure.pure a : ExceptT Error (Drafting τ δ) α) := fun _ _ => trivial

theorem lift (act : Drafting τ δ α) : Blames P (ExceptT.lift act) := fun _ _ => trivial

/-- Errors of what comes first, and of what comes next after that. -/
theorem after {x : ExceptT Error (Drafting τ δ) α} {f : α → ExceptT Error (Drafting τ δ) β}
    (first : Blames P x)
    (next : ∀ a d s d' s', Drafting.Gives d s x a d' s' → Errs P ((f a).run d' s')) :
    Blames P (x >>= f) := by
  intro d s
  change Errs P (ExceptT.bindCont f (x.run d s).1.1 (x.run d s).1.2 (x.run d s).2)
  have errs := first d s
  rcases ran : x.run d s with ⟨⟨e | a, d'⟩, s'⟩
  · rw [ran] at errs
    exact errs
  · exact next a d s d' s' ran

/-- Two actions are blamed for what either is. -/
theorem bind {x : ExceptT Error (Drafting τ δ) α} {f : α → ExceptT Error (Drafting τ δ) β}
    (first : Blames P x) (next : ∀ a, Blames P (f a)) : Blames P (x >>= f) :=
  .after first fun a _ _ d' s' _ => next a d' s'

end Blames

/-- An error that settles the session is the one that stands in it. -/
theorem blames_settle : Blames (fun e s => (s.error <|> s.pool.error) = some e)
    (Transform.settle : ExceptT Error (Drafting τ δ) Unit) := by
  refine .after (.lift _) fun found d s d' s' looked => ?_
  have same : (((s.error <|> s.pool.error), d), s) = ((found, d'), s') :=
    Drafting.Gives.lift_iff.mp looked
  obtain ⟨⟨rfl, rfl⟩, rfl⟩ : ((s.error <|> s.pool.error) = found ∧ d = d') ∧ s = s' := by
    simpa only [Prod.mk.injEq] using same
  cases stands : (s.error <|> s.pool.error) with
  | none => trivial
  | some e => exact stands

/-- Feeding elements is blamed for what accepting them is, and for what stands. -/
theorem blames_feed {accept : ε → ExceptT Error (Drafting τ δ) Unit}
    (settled : ∀ e s, (s.error <|> s.pool.error) = some e → P e s)
    (blames : ∀ e, Blames P (accept e)) (elements : List ε) :
    Blames P (Transform.feed accept elements) := by
  induction elements with
  | nil => exact .pure ()
  | cons e rest inductionHypothesis =>
      exact .bind (blames e) fun _ => .bind (blames_settle.mono settled) fun _ =>
        inductionHypothesis

/-- Once some elements were fed, nothing has failed. -/
theorem quiet_of_feed {accept : ε → ExceptT Error (Drafting τ δ) Unit} {elements : List ε}
    (fed : elements ≠ []) {d d' : δ} {s s' : Session τ}
    (gives : Drafting.Gives d s (Transform.feed accept elements) () d' s') : s'.Quiet := by
  induction elements generalizing d s with
  | nil => exact absurd rfl fed
  | cons e rest inductionHypothesis =>
      obtain ⟨d₁, s₁, -, quiet, others⟩ := Transform.feed_cons gives
      cases rest with
      | nil =>
          obtain ⟨-, -, rfl⟩ := Drafting.Gives.pure_iff.mp others
          exact quiet
      | cons e' rest => exact inductionHypothesis (List.cons_ne_nil _ _) others

end Blames

section Returned

variable {μ κ ρ : Type} [Draft δ ε] [Draft.Mentions δ] {site : Site (σ × Diary) δ ε μ κ ρ}

/-- An error was returned by a program, or it cannot be kept back. -/
def Returned (e : Error) (s : Session (σ × Diary)) : Prop :=
  e ∈ Diary.returned s.user.2 ∨ e.abort?.isSome = true

variable (site) in
/-- The error that a program ends with is one that it returned. -/
theorem Caller.Program.blames_run : ∀ (p : Program σ δ ε μ κ ρ) (o : Outlet (σ × Diary) δ ε),
    Blames Returned (p.run site o)
  | .stop, _ => by
    rw [Program.run]
    exact .pure ()
  | .look next, o => by
    rw [Program.run]
    exact .bind (.lift _) fun s => .bind (.lift _) fun d => blames_run (next _ d) o
  | .keep value next, o => by
    rw [Program.run]
    exact .bind (.lift _) fun _ => blames_run next o
  | .ask q next, o => by
    rw [Program.run]
    exact .bind (.lift _) fun a => blames_run (next a) o
  | .count next, o => by
    rw [Program.run]
    exact .bind (.lift _) fun n => blames_run (next n) o
  | .raise e, _ => by
    rw [Program.run]
    intro d s
    refine .inl ?_
    change e ∈ Diary.returned (s.user.2 ++ [.raised e s.error s.pool.error])
    rw [Diary.returned_append]
    exact List.mem_append_right _ (List.mem_singleton_self e)
  | .emit _ next, o => by
    rw [Program.run]
    exact .bind (.lift _) fun _ => blames_run next o
  | .replay source t next, o => by
    rw [Program.run]
    exact .bind (.lift _) fun _ => blames_run next o
  | .perform k next, o => by
    rw [Program.run]
    exact .bind (.lift _) fun r => blames_run (next r) o

/-- The errors that a bound transform ends with. -/
def BlamesStage (stage : Transform.Stage (σ × Diary) δ ε) : Prop :=
  (∀ e, Blames Returned (stage.accept e)) ∧ Blames Returned stage.atEnd

omit [Draft δ ε] [Draft.Mentions δ] in
/-- A transform that is missing fails for nothing that a program did. -/
theorem blamesStage_absent (o : Outlet (σ × Diary) δ ε) (d : δ) (s : Session (σ × Diary)) :
    BlamesStage (Transform.absent.bind o d s).1.1 :=
  ⟨fun _ _ _ => .inr rfl, fun _ _ => .inr rfl⟩

variable (site) in
/-- A transform that is put together from programs ends with errors that these returned. -/
theorem Caller.Recipe.blames_bind : ∀ (t : Recipe σ δ ε μ κ ρ) (o : Outlet (σ × Diary) δ ε) (d : δ)
    (s : Session (σ × Diary)), BlamesStage (((t.transform? site).getD .absent).bind o d s).1.1
  | .missing, o, d, s => by
    rw [Recipe.transform?]
    exact blamesStage_absent o d s
  | .leaf accept atEnd, o, _, _ => by
    rw [Recipe.transform?]
    exact ⟨fun e => (accept e).blames_run site o, atEnd.blames_run site o⟩
  | .chain first second, o, d, s => by
    rw [Recipe.transform?]
    obtain ⟨-, ends⟩ := blames_bind second o d s
    obtain ⟨accepts, ends'⟩ := blames_bind first (.stage _) _ _
    exact ⟨accepts, ends'.bind fun _ => ends⟩
  | .fresh make prepare, o, d, s => by
    rw [Recipe.transform?]
    exact blames_bind (make s.user.1) o _ _

/-- An error that ends a walk through a whole class was returned by a program, stands in the session
or cannot be kept back, or else nothing has failed and it is the one that the walk breaks off
with. -/
def Excused (failure : Option Error) (e : Error) (s : Session (σ × Diary)) : Prop :=
  Returned e s ∨ (s.error <|> s.pool.error) = some e ∨ s.Quiet ∧ failure = some e

omit [Draft δ ε] [Draft.Mentions δ] in
/-- A walk ends for an error of its stages, for one that stands, or for the one that it breaks off
with where nothing else has failed. -/
theorem blames_walk {stage : Transform.Stage (σ × Diary) δ ε} (stages : BlamesStage stage)
    {source : Traversal ε} (fed : source.elements ≠ []) : Blames (Excused source.failure) (do
      Transform.feed stage.accept source.elements
      if let some e := source.failure then throw e
      stage.atEnd
      Transform.settle) := by
  have settles (e : Error) (s : Session (σ × Diary))
      (stands : (s.error <|> s.pool.error) = some e) :
      Excused source.failure e s := .inr (.inl stands)
  have ends : Blames (Excused source.failure) (do stage.atEnd; Transform.settle) :=
    .bind (stages.2.mono fun _ _ => .inl) fun _ => blames_settle.mono settles
  refine .after (blames_feed settles (fun e => (stages.1 e).mono fun _ _ => .inl) _)
    fun _ d s d' s' gives => ?_
  cases broken : source.failure with
  | none =>
      rw [broken] at ends
      exact ends d' s'
  | some e => exact .inr (.inr ⟨quiet_of_feed fed gives, rfl⟩)

/-- A walk through a whole class ends with such an error. -/
theorem Caller.Recipe.excused_run {source : Traversal ε} (fed : source.elements ≠ [])
    {t : Recipe σ δ ε μ κ ρ} {t' : Transform (σ × Diary) δ ε} (made : t.transform? site = some t')
    (o : Outlet (σ × Diary) δ ε) (d : δ) (s : Session (σ × Diary)) :
    Errs (Excused source.failure) ((Transform.run source (some t') o).run d s) := by
  have stages := t.blames_bind site o d s
  rw [made, Option.getD_some] at stages
  exact blames_walk stages fed _ _

end Returned

/-! ## Finishing a class -/

namespace ClassDraft

/-- The error for which a class cannot be written although nothing has failed before. -/
def refused? (d : ClassDraft) (s : Session σ) : Option Error :=
  match s.error <|> s.pool.error with
  | some _ => none
  | none =>
    if maxMembers < d.fields.size || maxMembers < d.methods.size then
      some (.misuse (.members d.fields.size d.methods.size))
    else
      match Emit.finish d.attributeTable s with
      | (.error e, _) => some e
      | (.ok _, s) =>
        match Emit.finish d.header s with
        | (.error e, _) => some e
        | (.ok _, _) => none

variable {d : ClassDraft} {s : Session σ} {e : Error}

/-- A class is not finished where an error stands, and the error is the outcome. -/
theorem finish_of_error (stands : (s.error <|> s.pool.error) = some e) :
    d.finish s = (.error e, s) := by
  have looked : (Build.error? : Build σ (Option Error)) s = (some e, s) := by
    rw [Build.error?, bind_apply, get_apply, pure_apply, stands]
  rw [finish, bind_apply, looked]
  rfl

/-- In a quiet session a class is finished, or refused for the error that is told. -/
theorem finish_of_quiet (quiet : s.Quiet) :
    (∃ e, (d.refused? s <|> (d.finish s).2.pool.error) = some e ∧ (d.finish s).1 = .error e) ∨
      (d.refused? s <|> (d.finish s).2.pool.error) = none ∧
        ∃ bytes, (d.finish s).1 = .ok bytes := by
  have looked : (Build.error? : Build σ (Option Error)) s = (none, s) := quiet.error?
  have clear : (s.error <|> s.pool.error) = none := Session.quiet_iff.mp quiet
  rw [refused?, clear, finish, bind_apply, looked]
  dsimp only
  split
  · exact .inl ⟨_, rfl, rfl⟩
  · rw [bind_apply]
    rcases Emit.finish d.attributeTable s with ⟨_ | «attributes», s₁⟩
    · exact .inl ⟨_, rfl, rfl⟩
    · dsimp only
      rw [bind_apply]
      rcases Emit.finish d.header s₁ with ⟨_ | header, s₂⟩
      · exact .inl ⟨_, rfl, rfl⟩
      · dsimp only
        rw [bind_apply, get_apply]
        dsimp only
        cases full : s₂.pool.error with
        | some e => exact .inl ⟨e, full, rfl⟩
        | none => exact .inr ⟨full, _, rfl⟩

end ClassDraft

/-! ## Putting a class together -/

/-- Nothing stands that cannot be kept back where the library finds no such error. -/
theorem Session.not_aborted {s : Session σ} (clear : (Build.abort? s).1 = none) : ¬s.Aborted := by
  rintro ⟨e, known, aborts⟩
  have none_ : (s.error.bind Error.abort? <|> s.pool.error.bind Error.abort?) = none := clear
  obtain ⟨a, found⟩ := Option.isSome_iff_exists.mp aborts
  rw [known, Option.bind_some, found] at none_
  cases none_

namespace Caller

/-- Failures are errors, whatever was returned before. -/
theorem Diary.mem_errors_of_mem_failuresAfter {diary : Diary} {returned : Bool} {e : Error}
    (member : e ∈ failuresAfter returned diary) : e ∈ errors diary := by
  induction diary generalizing returned with
  | nil => exact absurd member List.not_mem_nil
  | cons event rest inductionHypothesis =>
      rcases List.mem_append.mp member with here | later
      · refine List.mem_append_left _ ?_
        cases event with
        | called => exact here
        | met session pool =>
            rcases List.mem_append.mp here with stands | stands
            · split at stands
              · exact absurd stands List.not_mem_nil
              · exact List.mem_append_left _ stands
            · exact List.mem_append_right _ stands
        | raised x session pool =>
            rcases List.mem_append.mp here with stands | raised
            · refine List.mem_append_left _ ?_
              rcases List.mem_append.mp stands with stands | stands
              · split at stands
                · exact absurd stands List.not_mem_nil
                · exact List.mem_append_left _ stands
              · exact List.mem_append_right _ stands
            · exact List.mem_append_right _ raised
      · exact List.mem_append_right _ (inductionHypothesis later)

namespace Assembly

variable (a : Assembly σ) (kept : σ)

/-- The error for which the filled draft cannot be written although nothing has failed before. -/
def refused : Option Error :=
  match a.filled kept with
  | ((.ok (), d), s) => d.refused? s
  | ((.error _, _), _) => none

/-- What was known before programs ran. -/
def prologue : Diary :=
  [.met (a.opened kept).2.error (a.opened kept).2.pool.error]

/-- What stands once programs have run. -/
def epilogue : Diary :=
  [.met (a.filled kept).2.error (a.filled kept).2.pool.error]

/-- Everything that was found out until the draft was to be finished. -/
def story : Diary := a.prologue kept ++ (a.filled kept).2.user.2 ++ a.epilogue kept

/-- What a class cannot be made from another one for: there is no transform, or the walk came to a
part that cannot be decoded. The walk gets there only where nothing else has failed. -/
def stumbled : Option Error :=
  match a with
  | .build .. => none
  | .rebuild c _ t =>
    let s := (a.filled kept).2
    if (t.transform? (.class_ σ)).isNone then some (.misuse .missingTransform)
    else if (s.error <|> s.pool.error).isNone && !Diary.raises s.user.2 then c.traversal.failure
    else none

/-- All errors that there were. -/
def errors : List Error :=
  (a.story kept).errors ++ (a.stumbled kept).toList ++ (a.refused kept).toList ++
    (a.finished kept).2.pool.error.toList

/-- All failures that there were. The outcome is not among them. -/
def failures : List Error :=
  (a.story kept).failures ++ (a.stumbled kept).toList ++ (a.refused kept).toList ++
    (a.finished kept).2.pool.error.toList

/-- Failures are errors. -/
theorem mem_errors {x : Error} (member : x ∈ a.failures kept) : x ∈ a.errors kept := by
  simp only [failures, errors, List.mem_append] at member ⊢
  rcases member with ((told | stumble) | refusal) | last
  · exact .inl (.inl (.inl (Diary.mem_errors_of_mem_failuresAfter told)))
  · exact .inl (.inl (.inr stumble))
  · exact .inl (.inr refusal)
  · exact .inr last

/-- Opening a draft leaves what the caller keeps, and an empty diary. -/
theorem opened_user : (a.opened kept).2.user = (kept, []) := by
  cases a with
  | build this super options configure =>
      rw [opened]
      cases h : super.isEmpty <;> rfl
  | rebuild c newName t => cases newName <;> rfl

/-- Filling in ends as the contract about the only failure says. -/
theorem ended (e : Error) :
    (Contract.telling σ (a.prologue kept) e).Ends (a.opened kept).2 (a.filled kept) := by
  have blank := a.opened_user kept
  refine a.tries_fill (Contract.telling_hosts σ _ e) _ _ ⟨fun told quiet => told ?_, ?_⟩
    ⟨fun _ _ => trivial, False.elim⟩
  · rw [blank]
    simp [prologue, Diary.errors, Event.errors, quiet.session, quiet.pool]
  · intro _ returned
    rw [blank] at returned
    exact absurd returned (by simp [prologue, Diary.raises, Event.raises])

/-- Where the error comes from that a class could not be filled in for. Where nothing stands
although a program has returned an error, it is not told here. -/
theorem excused : Errs (fun e s => Returned e s ∨ (s.error <|> s.pool.error) = some e ∨
    (s.Quiet ∧ Diary.raises s.user.2 = true) ∨ a.stumbled kept = some e) (a.filled kept) := by
  cases a with
  | build this super options configure =>
      exact (configure.blames_run (.class_ σ) .terminal).mono (fun _ _ => .inl) _ _
  | rebuild c newName t =>
      cases made : t.transform? (.class_ σ) with
      | none =>
          have missing : (Assembly.rebuild c newName t).stumbled kept =
              some (.misuse .missingTransform) := by
            rw [stumbled, made]
            rfl
          rw [filled, fill, made]
          exact .inr (.inr (.inr missing))
      | some t' =>
          have fed : c.traversal.elements ≠ [] := by
            rw [ClassFile.traversal]
            cases c.attributes <;> exact List.cons_ne_nil _ _
          have errs : Errs (Excused c.traversal.failure)
              ((Assembly.rebuild c newName t).filled kept) := by
            rw [filled, fill, made]
            exact Recipe.excused_run fed made .terminal _ _
          rcases filled : (Assembly.rebuild c newName t).filled kept with ⟨⟨x | ⟨⟩, d⟩, s⟩
          · rw [filled] at errs
            rcases errs with returned | stands | ⟨quiet, broken⟩
            · exact .inl returned
            · exact .inr (.inl stands)
            · refine .inr (.inr ?_)
              cases raised : Diary.raises s.user.2 with
              | true => exact .inl ⟨quiet, rfl⟩
              | false =>
                  refine .inr ?_
                  simp only [stumbled, made, filled, Session.quiet_iff.mp quiet, raised]
                  exact broken
          · trivial

/-- A class that was filled in was walked through to its end. -/
theorem stumbled_of_ok {d : ClassDraft} {s : Session (σ × Diary)}
    (filled : a.filled kept = ((.ok (), d), s)) : a.stumbled kept = none := by
  cases a with
  | build this super options configure => rfl
  | rebuild c newName t =>
      obtain ⟨present, whole⟩ := Transform.whole_of_run (d := _) (s := _) filled
      have there : (t.transform? (.class_ σ)).isNone = false := by
        rw [← Option.not_isSome, present]; rfl
      rw [stumbled, there, whole]
      exact ite_self none

/-- Where nothing stands in the session after the programs, nothing went wrong before. -/
theorem story_errors {d : ClassDraft} {s : Session (σ × Diary)}
    (filled : a.filled kept = ((.ok (), d), s)) (quiet : s.Quiet) : (a.story kept).errors = [] := by
  have ended : (Contract.telling σ (a.prologue kept) .outOfBounds).Reaches _ d s :=
    filled ▸ a.ended kept .outOfBounds
  have told : Diary.errors (a.prologue kept ++ s.user.2) = [] :=
    Classical.byContradiction fun errors => ended.fine.1 errors quiet
  rw [story, filled, Diary.errors_append, told, epilogue, filled]
  simp [Diary.errors, Event.errors, quiet.session, quiet.pool]

/-- There are bytes only where nothing went wrong. -/
theorem errors_of_ok {bytes : Bytes} (made : (a.result kept).1 = .ok bytes) :
    a.errors kept = [] := by
  obtain ⟨-, same⟩ := a.result_of_not_aborted kept fun ⟨x, failed, _⟩ =>
    nomatch failed.symm.trans made
  rw [same] at made
  rcases filled : a.filled kept with ⟨⟨x | ⟨⟩, d⟩, s⟩
  · rw [a.finished_of_error kept filled] at made
    cases made
  · rw [a.finished_of_ok kept filled] at made
    have quiet : s.Quiet := by
      refine Session.quiet_iff.mpr (Option.eq_none_iff_forall_ne_some.mpr fun x stands => ?_)
      rw [ClassDraft.finish_of_error stands] at made
      cases made
    rw [errors, a.story_errors kept filled quiet, a.stumbled_of_ok kept filled, refused, filled,
      a.finished_of_ok kept filled]
    rcases d.finish_of_quiet quiet with ⟨x, -, failed⟩ | ⟨clear, -⟩
    · cases failed.symm.trans made
    · dsimp only
      cases refusal : d.refused? s with
      | some x =>
          rw [refusal] at clear
          cases clear
      | none =>
          rw [refusal] at clear
          rw [show (d.finish s).2.pool.error = none from clear]
          rfl

section Single

variable {a kept} {e : Error} (single : ∀ x ∈ a.failures kept, x = e)
  (goes : ¬∃ x, (a.result kept).1 = .error x ∧ x.abort?.isSome = true)
include single

/-- Where all failures are one, so are those that were known when the class was filled in. -/
theorem single_before :
    ∀ x ∈ Diary.failures (a.prologue kept ++ (a.filled kept).2.user.2), x = e := by
  intro x member
  refine single x ?_
  rw [failures, story, Diary.failures_append]
  exact List.mem_append_left _ (List.mem_append_left _ (List.mem_append_left _
    (List.mem_append_left _ member)))

/-- What the class that is made from another one cannot be made for is a failure. -/
theorem single_stumbled {x : Error} (stumbles : a.stumbled kept = some x) : x = e := by
  refine single x ?_
  simp [failures, stumbles]

/-- Where no program returned an error, what stands in the end is a failure. -/
theorem single_after (silent : Diary.raises (a.prologue kept ++ (a.filled kept).2.user.2) = false)
    {x : Error} (stands : ((a.filled kept).2.error <|> (a.filled kept).2.pool.error) = some x) :
    x = e := by
  refine single x ?_
  rw [failures, story, Diary.failures_append, silent]
  refine List.mem_append_left _ (List.mem_append_left _ (List.mem_append_left _
    (List.mem_append_right _ ?_)))
  rw [epilogue, Diary.failuresAfter, Diary.failuresAfter, List.append_nil, Event.failures]
  cases known : (a.filled kept).2.error with
  | some y =>
      rw [known] at stands
      exact List.mem_append_left _ (List.mem_singleton.mpr (Option.some.inj stands).symm)
  | none =>
      rw [known] at stands
      exact List.mem_append_right _ (Option.mem_toList.mpr stands)

include goes

/-- The error that a class could not be filled in for. -/
theorem single_of_error {x : Error} {d : ClassDraft} {s : Session (σ × Diary)}
    (filled : a.filled kept = ((.error x, d), s)) : x = e := by
  obtain ⟨clear, same⟩ := a.result_of_not_aborted kept goes
  rw [a.finished_of_error kept filled] at clear same
  have before := single_before single
  have after := single_after single
  have thrown : (Contract.telling σ (a.prologue kept) e).Throws _ x d s := filled ▸ a.ended kept e
  have excused := a.excused kept
  have quietly : Diary.raises (a.prologue kept ++ s.user.2) = Diary.raises s.user.2 := by
    rw [Diary.raises_append]
    rfl
  rw [filled] at before after excused
  rcases excused with (raised | aborts) | stands | ⟨quiet, raised⟩ | stumbles
  · refine before x ?_
    rw [Diary.failures_append]
    exact List.mem_append_right _ (Diary.mem_failuresAfter raised _)
  · exact absurd ⟨x, same, aborts⟩ goes
  · cases returned : Diary.raises (a.prologue kept ++ s.user.2) with
    | false => exact after returned stands
    | true =>
        rcases thrown.thrown before returned with (known | aborted) | ⟨-, rfl⟩
        · rw [known] at stands
          exact (Option.some.inj stands).symm
        · exact absurd aborted (Session.not_aborted clear)
        · rfl
  · rcases thrown.thrown before (quietly.trans raised) with (known | aborted) | ⟨-, rfl⟩
    · exact absurd (known.symm.trans quiet.session) (Option.some_ne_none _)
    · exact absurd aborted (Session.not_aborted clear)
    · rfl
  · exact single_stumbled single stumbles

/-- The error that stands when a class is to be finished. -/
theorem single_of_stands {x : Error} {d : ClassDraft} {s : Session (σ × Diary)}
    (filled : a.filled kept = ((.ok (), d), s)) (stands : (s.error <|> s.pool.error) = some x) :
    x = e := by
  obtain ⟨clear, -⟩ := a.result_of_not_aborted kept goes
  rw [a.finished_of_ok kept filled, ClassDraft.finish_of_error stands] at clear
  have before := single_before single
  have after := single_after single
  have reached : (Contract.telling σ (a.prologue kept) e).Reaches _ d s := filled ▸ a.ended kept e
  rw [filled] at before after
  cases returned : Diary.raises (a.prologue kept ++ s.user.2) with
  | true =>
      rcases reached.fine.2 before returned with known | aborted
      · rw [known] at stands
        exact (Option.some.inj stands).symm
      · exact absurd aborted (Session.not_aborted clear)
  | false => exact after returned stands

end Single

end Assembly

/-- A class that is made from another one by a transform that runs a program for every element. -/
def running (c : ClassFile) (program : ClassProgram Unit) : Assembly Unit :=
  .rebuild c none (.leaf (fun _ => program) .stop)

/-- The transform returns an error. -/
def refusing (c : ClassFile) : Assembly Unit := running c (.raise (.raised "no"))

/-- The transform emits no element where there should be one, and goes on as if it had. -/
def mistaken (c : ClassFile) : Assembly Unit := running c (.emit none .stop)

/-- The misuse of a transform that emits no element. -/
def missing : Error := .misuse (.missingElement .class)

section Running

variable {c : ClassFile} (own : c.this.place.origin = c.input.origin)
  (shared : c.options.has .noPoolSharing = false)
include own shared

/-- A class that shares the constants of its source is opened with nothing new. -/
theorem opened_running (program : ClassProgram Unit) : (running c program).opened () =
    (.start c.this (some c), Build.start c.options (.ofParent c.input) ((), [])) := by
  have adopted : PoolBuilder.adoptClass c.this (.ofParent c.input) =
      (c.this, .ofParent c.input) := by
    have owns : (PoolBuilder.ofParent c.input).owns c.this.place.origin = true := by
      simp [PoolBuilder.owns, PoolBuilder.ofParent, own]
    rw [PoolBuilder.adoptClass, bind_apply, get_apply, owns]
    rfl
  have ran : (running c program).opened () =
      (.start (PoolBuilder.adoptClass c.this (.ofParent c.input)).1 (some c),
        Build.start c.options (PoolBuilder.adoptClass c.this (.ofParent c.input)).2 ((), [])) := by
    rw [running, Assembly.opened, if_neg (by rw [shared]; simp)]
    rfl
  rw [ran, adopted]

/-- What the transform returned is the one failure. -/
theorem failures_refusing : (refusing c).failures () = [.raised "no"] := by
  have opened := opened_running own shared (.raise (.raised "no"))
  have filled : (refusing c).filled () = ((.error (.raised "no"), .start c.this (some c)),
      Build.start c.options (.ofParent c.input) ((), [.raised (.raised "no") none none])) := by
    rw [refusing, Assembly.filled, opened, running, Assembly.fill, ClassFile.traversal]
    cases c.attributes <;> rfl
  have stumbles : (refusing c).stumbled () = none := by
    rw [refusing, running] at filled ⊢
    rw [Assembly.stumbled, filled]
    rfl
  rw [Assembly.failures, Assembly.story, Assembly.prologue, Assembly.epilogue, stumbles,
    Assembly.refused, Assembly.finished_of_error _ _ filled, filled]
  rw [show (refusing c).opened () = _ from opened]
  rfl

/-- The misuse is seen as soon as the transform goes on, and still stands in the end. -/
theorem failures_mistaken : (mistaken c).failures () = [missing, missing] := by
  have opened := opened_running own shared (.emit none .stop)
  have filled : (mistaken c).filled () = ((.error missing, .start c.this (some c)),
      { Build.start c.options (.ofParent c.input)
          ((), [.called [] [] (.ofParent c.input), .met (some missing) none]) with
        error := some missing }) := by
    rw [mistaken, Assembly.filled, opened, running, Assembly.fill, ClassFile.traversal]
    cases c.attributes <;> rfl
  have stumbles : (mistaken c).stumbled () = none := by
    rw [mistaken, running] at filled ⊢
    rw [Assembly.stumbled, filled]
    rfl
  rw [Assembly.failures, Assembly.story, Assembly.prologue, Assembly.epilogue, stumbles,
    Assembly.refused, Assembly.finished_of_error _ _ filled, filled]
  rw [show (mistaken c).opened () = _ from opened]
  rfl

end Running

end Caller

end JvmClass
