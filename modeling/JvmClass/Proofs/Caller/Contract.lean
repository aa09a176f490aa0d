import JvmClass.Proofs.Build.Output

/-!
# Contracts between the library and its callers

Library and callers take turns: a handler or transform makes calls, and the library runs others
while it carries one out. A contract says in which sessions a caller may be given control, in which
an error may be on its way back, and how a session may go on. It is kept by walks and by elements
that are handed on, if it is kept by those who take part in them.
-/

namespace JvmClass

variable {σ δ ε α β : Type}

/-- What a draft mentions, and what taking an element does to that. -/
class Draft.Mentions (δ : Type) {ε : outParam Type} [Draft δ ε] where
  ofElement : ε → List Entry
  ofDraft : δ → List Entry
  /-- What else is known of a draft that takes no bytes from an input. -/
  Whole : δ → Prop
  take : ∀ {given : Entry → Prop} {e : ε} {d : δ} {s : Session Unit},
    (∀ x ∈ ofElement e, given x) → (∀ x ∈ ofDraft d, given x) →
      s.Proceeds given (take e d s).2 ∧ (∀ x ∈ ofDraft (take e d s).1.2, given x) ∧
      (s.pool.parent = none → Whole d → Whole (take e d s).1.2)

/-- A contract on sessions. -/
structure Contract (σ : Type) where
  /-- A caller may have control. -/
  Fine : Session σ → Prop
  /-- An error may be on its way to the library. -/
  Thrown : Error → Session σ → Prop
  /-- How a session may go on. -/
  Later : Session σ → Session σ → Prop
  /-- A constant may be referred to. -/
  Given : Session σ → Entry → Prop
  /-- The session takes no bytes from an input. -/
  Alone : Session σ → Prop
  refl : ∀ s, Later s s
  trans : ∀ {s s' s''}, Later s s' → Later s' s'' → Later s s''
  given : ∀ {s s' e}, Later s s' → Given s e → Given s' e
  alone : ∀ {s s'}, Later s s' → Alone s' → Alone s
  parent : ∀ {s}, Alone s → s.pool.parent = none
  proceeds : ∀ {s s'}, Fine s → s.Proceeds (Given s) s' → Later s s' ∧ Fine s'
  thrown : ∀ {s} (e : Error), Fine s → Thrown e s
  fail : ∀ {e s}, Thrown e s → Later s (Build.fail e s).2 ∧ Fine (Build.fail e s).2

namespace Contract

variable [Draft δ ε] [Draft.Mentions δ] (c : Contract σ)

/-- A draft mentions only what may be referred to. -/
structure Keeps (d : δ) (s : Session σ) : Prop where
  given : ∀ x ∈ Draft.Mentions.ofDraft d, c.Given s x
  whole : c.Alone s → Draft.Mentions.Whole d

/-- From session `s` an action leaves draft `d'` in session `s'`, where a caller may go on. -/
structure Reaches (s : Session σ) (d' : δ) (s' : Session σ) : Prop where
  later : c.Later s s'
  keeps : c.Keeps d' s'
  fine : c.Fine s'

/-- From session `s` error `e` is on its way in session `s'`, beside draft `d'`. -/
structure Throws (s : Session σ) (e : Error) (d' : δ) (s' : Session σ) : Prop where
  later : c.Later s s'
  keeps : c.Keeps d' s'
  thrown : c.Thrown e s'

/-- How an action that can fail ends. -/
def Ends (s : Session σ) : (Except Error α × δ) × Session σ → Prop
  | ((.ok _, d'), s') => c.Reaches s d' s'
  | ((.error e, d'), s') => c.Throws s e d' s'

/-- An action keeps the contract. -/
def Does (act : Drafting σ δ α) : Prop :=
  ∀ (d : δ) (s : Session σ), c.Fine s → c.Keeps d s → c.Reaches s (act d s).1.2 (act d s).2

/-- An action that can fail keeps the contract. -/
def Tries (act : ExceptT Error (Drafting σ δ) α) : Prop :=
  ∀ (d : δ) (s : Session σ), c.Fine s → c.Keeps d s → c.Ends s (act.run d s)

variable {c} {d d' d'' : δ} {s s' s'' : Session σ}

/-- What a draft mentions may be referred to in every later session. -/
theorem Keeps.mono (keeps : c.Keeps d s) (later : c.Later s s') : c.Keeps d s' :=
  ⟨fun x member => c.given later (keeps.given x member),
    fun alone => keeps.whole (c.alone later alone)⟩

theorem Reaches.refl (fine : c.Fine s) (keeps : c.Keeps d s) : c.Reaches s d s :=
  ⟨c.refl s, keeps, fine⟩

/-- What is reached from where one got is reached from the start. -/
theorem Reaches.trans (first : c.Reaches s d' s') (second : c.Reaches s' d'' s'') :
    c.Reaches s d'' s'' := ⟨c.trans first.later second.later, second.keeps, second.fine⟩

/-- An error that is on its way after something was reached is on its way from the start. -/
theorem Throws.after {e : Error} (first : c.Reaches s d' s') (throws : c.Throws s' e d'' s'') :
    c.Throws s e d'' s'' := ⟨c.trans first.later throws.later, throws.keeps, throws.thrown⟩

/-- How an action ends after something was reached is how it ends from the start. -/
theorem Ends.after {r : (Except Error α × δ) × Session σ} (first : c.Reaches s d' s')
    (ends : c.Ends s' r) : c.Ends s r := by
  obtain ⟨⟨outcome, d''⟩, s''⟩ := r
  cases outcome with
  | ok a => exact first.trans ends
  | error e => exact Throws.after first ends

/-- Anything that the library does to the session alone. -/
theorem Reaches.proceeds (fine : c.Fine s) (keeps : c.Keeps d s)
    (goes : s.Proceeds (c.Given s) s') : c.Reaches s d s' := by
  obtain ⟨later, fine'⟩ := c.proceeds fine goes
  exact ⟨later, keeps.mono later, fine'⟩

/-- An error that is recorded. -/
theorem Throws.failed {e : Error} (throws : c.Throws s e d s') :
    c.Reaches s d (Build.fail e s').2 := by
  obtain ⟨later, fine⟩ := c.fail throws.thrown
  exact ⟨c.trans throws.later later, throws.keeps.mono later, fine⟩

namespace Does

theorem pure (a : α) : c.Does (Pure.pure a : Drafting σ δ α) := fun _ _ => .refl

/-- Two actions in a row keep the contract if either does. -/
theorem bind {x : Drafting σ δ α} {f : α → Drafting σ δ β} (first : c.Does x)
    (next : ∀ a, c.Does (f a)) : c.Does (x >>= f) := fun d s fine keeps => by
  have reached := first d s fine keeps
  exact reached.trans (next _ _ _ reached.fine reached.keeps)

theorem look : c.Does (get : Drafting σ δ δ) := fun _ _ => .refl

/-- Either of two actions that keep the contract keeps it. -/
theorem ite {p : Prop} [Decidable p] {x y : Drafting σ δ α} (first : c.Does x)
    (second : c.Does y) : c.Does (if p then x else y) := by
  split <;> assumption

/-- An action on the session that refers to nothing that is not given. -/
theorem session {act : Build σ α} (goes : ∀ s : Session σ, s.Proceeds (c.Given s) (act s).2) :
    c.Does (Drafting.session act : Drafting σ δ α) :=
  fun _ s fine keeps => .proceeds fine keeps (goes s)

/-- Looking for an error keeps the contract. -/
theorem error? : c.Does (Drafting.session Build.error? : Drafting σ δ (Option Error)) :=
  session fun s => .refl s

/-- Noting an error keeps the contract. -/
theorem fail (e : Error) : c.Does (Drafting.session (Build.fail e) : Drafting σ δ Unit) :=
  session fun _ => .fail e

end Does

namespace Tries

theorem pure (a : α) : c.Tries (Pure.pure a : ExceptT Error (Drafting σ δ) α) := fun _ _ => .refl

/-- Throwing an error keeps the contract if that may be on its way. -/
theorem throw (e : Error) : c.Tries (throw e : ExceptT Error (Drafting σ δ) α) :=
  fun _ s fine keeps => ⟨c.refl s, keeps, c.thrown e fine⟩

/-- Going on after what has not failed keeps the contract, and so does breaking off. -/
theorem bind {x : ExceptT Error (Drafting σ δ) α} {f : α → ExceptT Error (Drafting σ δ) β}
    (first : c.Tries x) (next : ∀ a, c.Tries (f a)) : c.Tries (x >>= f) := by
  intro d s fine keeps
  have ended := first d s fine keeps
  change c.Ends s (ExceptT.bindCont f (x.run d s).1.1 (x.run d s).1.2 (x.run d s).2)
  generalize x.run d s = reached at ended ⊢
  obtain ⟨⟨outcome, d'⟩, s'⟩ := reached
  cases outcome with
  | ok a =>
      have reached : c.Reaches s d' s' := ended
      exact .after reached (next a d' s' reached.fine reached.keeps)
  | error e => exact ended

/-- An action that cannot fail keeps the contract as one that can. -/
theorem lift {x : Drafting σ δ α} (does : c.Does x) : c.Tries (ExceptT.lift x) :=
  fun d s fine keeps => does d s fine keeps

/-- Breaking off where something has been noted keeps the contract. -/
theorem settle : c.Tries (Transform.settle : ExceptT Error (Drafting σ δ) Unit) :=
  .bind (.lift .error?) fun found => by
    cases found with
    | none => exact .pure ()
    | some e => exact .throw e

/-- The outcome of an action that keeps the contract is recorded. -/
theorem recorded {act : ExceptT Error (Drafting σ δ) Unit} (tries : c.Tries act) :
    c.Does (do Drafting.session (Build.failOn (← act.run)) : Drafting σ δ Unit) := by
  intro d s fine keeps
  have ended := tries d s fine keeps
  change c.Reaches s (act.run d s).1.2 (Build.failOn (act.run d s).1.1 (act.run d s).2).2
  generalize act.run d s = reached at ended ⊢
  obtain ⟨⟨outcome, d'⟩, s'⟩ := reached
  cases outcome with
  | ok => exact ended
  | error e => exact Throws.failed ended

end Tries

/-! ## Walks -/

/-- An outlet that keeps the contract whatever it is given. -/
def KeptByOutlet (c : Contract σ) : Outlet σ δ ε → Prop
  | .terminal => True
  | .stage consume => ∀ e, c.Tries (consume e)

/-- A draft takes an element that mentions only what may be referred to. -/
theorem reaches_accept {e : ε} (fine : c.Fine s) (keeps : c.Keeps d s)
    (given : ∀ x ∈ Draft.Mentions.ofElement δ e, c.Given s x) :
    c.Reaches s ((Draft.accept e : Drafting σ δ Unit) d s).1.2
      ((Draft.accept e : Drafting σ δ Unit) d s).2 := by
  obtain ⟨goes, mentioned, whole⟩ := Draft.Mentions.take (s := s.withUser ()) given keeps.given
  have proceeds : s.Proceeds (c.Given s) ((Draft.accept e : Drafting σ δ Unit) d s).2 :=
    ⟨rfl, fun quiet => (goes.quiet (quiet.withUser ())).withUser s.user, goes.sticks, goes.grows,
      goes.steps⟩
  obtain ⟨later, fine'⟩ := c.proceeds fine proceeds
  refine ⟨later, ⟨fun x member => c.given later (mentioned x member), fun alone => ?_⟩, fine'⟩
  have before := c.alone later alone
  exact whole (c.parent before) (keeps.whole before)

/-- An outlet is given an element, or none where there should be one. -/
theorem KeptByOutlet.reaches_emit? {o : Outlet σ δ ε} (kept : c.KeptByOutlet o) {e : Option ε}
    (fine : c.Fine s) (keeps : c.Keeps d s)
    (given : ∀ x, e = some x → ∀ y ∈ Draft.Mentions.ofElement δ x, c.Given s y) :
    c.Reaches s ((o.emit? e) d s).1.2 ((o.emit? e) d s).2 := by
  have looked : ∃ stopped, (o.stopped? : Drafting σ δ (Option Error)) d s = ((stopped, d), s) := by
    cases o with
    | terminal => exact ⟨_, Outlet.stopped?_terminal d s⟩
    | stage consume => exact ⟨_, rfl⟩
  obtain ⟨stopped, looked⟩ := looked
  unfold Outlet.emit?
  simp only [Bind.bind, StateT.bind, looked]
  cases stopped with
  | some e => exact .refl fine keeps
  | none =>
      cases e with
      | none => exact Does.fail _ d s fine keeps
      | some e =>
          cases o with
          | terminal => exact reaches_accept fine keeps (given e rfl)
          | stage consume => exact (kept e).recorded d s fine keeps

/-- A bound transform that keeps the contract. -/
structure KeptByStage (c : Contract σ) (stage : Transform.Stage σ δ ε) : Prop where
  accept : ∀ e, c.Tries (stage.accept e)
  atEnd : c.Tries stage.atEnd

/-- A transform that keeps the contract. -/
def KeptByTransform (c : Contract σ) : Transform σ δ ε → Prop
  | .leaf accept atEnd => ∀ o : Outlet σ δ ε, c.KeptByOutlet o →
    (∀ e, c.Tries (accept o e)) ∧ c.Tries (atEnd o)
  | .chain first second => KeptByTransform c first ∧ KeptByTransform c second
  | .fresh make prepare => (∀ user, KeptByTransform c (make user)) ∧
    c.Does (Drafting.session (Build.onUser (modify prepare)) : Drafting σ δ Unit)

/-- What is done with a bound transform. -/
theorem KeptByTransform.does_bind {t : Transform σ δ ε} (kept : c.KeptByTransform t)
    {o : Outlet σ δ ε} (outlet : c.KeptByOutlet o)
    {next : Transform.Stage σ δ ε → ExceptT Error (Drafting σ δ) α}
    (tries : ∀ stage, c.KeptByStage stage → c.Tries (next stage)) :
    c.Tries (ExceptT.lift (t.bind o) >>= next) := by
  suffices bound : ∀ (d : δ) (s : Session σ), c.Fine s → c.Keeps d s →
      c.KeptByStage (t.bind o d s).1.1 ∧ c.Reaches s (t.bind o d s).1.2 (t.bind o d s).2 by
    intro d s fine keeps
    obtain ⟨stage, reached⟩ := bound d s fine keeps
    exact .after reached (tries _ stage _ _ reached.fine reached.keeps)
  induction t generalizing o with
  | leaf accept atEnd => exact fun d s fine keeps =>
      ⟨⟨(kept o outlet).1, (kept o outlet).2⟩, .refl fine keeps⟩
  | chain first second forFirst forSecond =>
      intro d s fine keeps
      obtain ⟨stage, reached⟩ := forSecond kept.2 outlet d s fine keeps
      obtain ⟨stage', reached'⟩ := forFirst kept.1 (o := .stage _) stage.accept _ _ reached.fine
        reached.keeps
      exact ⟨⟨stage'.accept, .bind stage'.atEnd fun _ => stage.atEnd⟩, reached.trans reached'⟩
  | fresh make prepare inductionHypothesis =>
      intro d s fine keeps
      have prepared := kept.2 d s fine keeps
      obtain ⟨stage, reached⟩ := inductionHypothesis s.user (kept.1 _) outlet _ _ prepared.fine
        prepared.keeps
      exact ⟨stage, prepared.trans reached⟩

/-- Feeding elements keeps the contract if accepting each of them does. -/
theorem tries_feed {accept : ε → ExceptT Error (Drafting σ δ) Unit} {elements : List ε}
    (tries : ∀ e ∈ elements, c.Tries (accept e)) : c.Tries (Transform.feed accept elements) := by
  induction elements with
  | nil => exact .pure ()
  | cons e rest inductionHypothesis =>
      exact .bind (tries e (List.mem_cons_self ..)) fun _ => .bind .settle fun _ =>
        inductionHypothesis fun e member => tries e (List.mem_cons_of_mem _ member)

/-- Some elements, and what comes after them. -/
theorem tries_walk {source : Traversal ε} (stage : Transform.Stage σ δ ε)
    (accept : ∀ e ∈ source.elements, c.Tries (stage.accept e)) (atEnd : c.Tries stage.atEnd) :
    c.Tries (do
      Transform.feed stage.accept source.elements
      if let some e := source.failure then throw e
      stage.atEnd
      Transform.settle) := by
  have ends : c.Tries (do stage.atEnd; Transform.settle) := .bind atEnd fun _ => .settle
  refine .bind (tries_feed accept) fun _ => ?_
  cases source.failure with
  | none => exact ends
  | some e => exact .bind (.throw e) fun _ => ends

/-- A walk through a transform. -/
theorem KeptByTransform.tries_run {t : Transform σ δ ε} (kept : c.KeptByTransform t)
    (source : Traversal ε) {o : Outlet σ δ ε} (outlet : c.KeptByOutlet o) :
    c.Tries (Transform.run source (some t) o) :=
  kept.does_bind outlet fun _ stage => tries_walk _ (fun e _ => stage.accept e) stage.atEnd

/-- A walk that is passed on to a draft. -/
theorem tries_run_pass {source : Traversal ε}
    (given : ∀ e ∈ source.elements, ∀ x ∈ Draft.Mentions.ofElement δ e, ∀ s, c.Given s x) :
    c.Tries (Transform.run source (some .pass) .terminal : ExceptT Error (Drafting σ δ) Unit) := by
  refine tries_walk ⟨fun e => ExceptT.lift (Outlet.terminal.emit e), return⟩
    (fun e member => .lift fun d s fine keeps => ?_) (.pure ())
  refine KeptByOutlet.reaches_emit? (o := .terminal) trivial fine keeps fun x same y mentioned => ?_
  obtain rfl := Option.some.inj same
  exact given e member y mentioned s

end Contract

end JvmClass
