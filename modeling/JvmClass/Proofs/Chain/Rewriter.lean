import JvmClass.Proofs.Build.Parts

/-!
# Rewriters

A rewriter sees the elements of a walk one by one and emits elements in their place, and more at
the end. It keeps a state that nobody else looks at. Rewriters put into a chain are told here what
they mean together: all that the first emits is collected, and then the second is run over that.
The machine of a chain works element by element and comes to the same.
-/

namespace JvmClass

variable {σ τ υ ε α β : Type}

/-! ## Parts that are left alone -/

namespace Part

/-- The first of two values. -/
def left : Part (τ × υ) τ := whole.first

/-- The second of two values. -/
def right : Part (τ × υ) υ := whole.second

variable (p : Part σ τ)

/-- An action on a part that does nothing does nothing to the whole. -/
theorem act_pure (a : α) : p.act (pure a) = pure a := by
  funext u
  change (a, p.set (p.get u) u) = (a, u)
  rw [p.set_get]

/-- Actions on a part one after another are actions on the whole one after another. -/
theorem act_bind (x : StateM τ α) (f : α → StateM τ β) :
    p.act (x >>= f) = p.act x >>= fun a => p.act (f a) := by
  funext u
  rw [bind_apply]
  simp only [act, bind_apply, p.get_set, p.set_set]

/-- Reading a part is reading the whole and taking the part. -/
theorem act_get : p.act get = (fun u => p.get u) <$> get := by
  funext u
  change (p.get u, p.set (p.get u) u) = (p.get u, u)
  rw [p.set_get]

/-- Writing a part changes the whole in that part only. -/
theorem act_set (t : τ) : p.act (set t) = modify (p.set t) := rfl

/-- The first of two values within a part is the first part of that part. -/
theorem act_left (p : Part σ (τ × υ)) (x : StateM τ α) : p.act (left.act x) = p.first.act x := rfl

/-- The second of two values within a part is the second part of that part. -/
theorem act_right (p : Part σ (τ × υ)) (x : StateM υ α) : p.act (right.act x) = p.second.act x :=
  rfl

/-- An action that neither depends on a part nor changes it. -/
def Spares (x : StateM σ α) : Prop := ∀ t u, x (p.set t u) = ((x u).1, p.set t (x u).2)

namespace Spares

variable {p}

/-- A part that an action spares is the same afterwards. -/
theorem get_eq {x : StateM σ α} (spares : p.Spares x) (u : σ) : p.get (x u).2 = p.get u := by
  have kept : (x u).2 = p.set (p.get u) (x u).2 := by
    have same := congrArg (·.2) (spares (p.get u) u)
    rwa [p.set_get] at same
  rw [kept, p.get_set]

/-- Doing nothing spares every part. -/
theorem pure (a : α) : p.Spares (pure a) := fun _ _ => rfl

/-- Actions that spare a part spare it one after another. -/
theorem bind {x : StateM σ α} {f : α → StateM σ β} (first : p.Spares x)
    (next : ∀ a, p.Spares (f a)) : p.Spares (x >>= f) := by
  intro t u
  rw [bind_apply, first t u]
  exact next _ t _

/-- What is done elsewhere may be done before or after. -/
theorem comm {x : StateM σ α} (spares : p.Spares x) (y : StateM τ β) {γ : Type}
    (f : α → β → StateM σ γ) :
    (do let a ← x; let b ← p.act y; f a b) = (do let b ← p.act y; let a ← x; f a b) := by
  funext u
  simp only [bind_apply, act]
  rw [spares.get_eq, spares]

/-- What spares a part spares what the part consists of. -/
theorem first {p : Part σ (τ × υ)} {x : StateM σ α} (spares : p.Spares x) : p.first.Spares x := by
  intro t u
  change x (p.set (t, (p.get u).2) u) = (_, p.set (t, (p.get (x u).2).2) _)
  rw [spares, spares.get_eq]

/-- What spares a part spares the second half of it. -/
theorem second {p : Part σ (τ × υ)} {x : StateM σ α} (spares : p.Spares x) :
    p.second.Spares x := by
  intro t u
  change x (p.set ((p.get u).1, t) u) = (_, p.set ((p.get (x u).2).1, t) _)
  rw [spares, spares.get_eq]

/-- Acting on one of two values spares the other. -/
theorem first_act (p : Part σ (τ × υ)) (x : StateM υ α) : p.first.Spares (p.second.act x) := by
  intro t u
  simp only [act, Part.first, Part.second, p.get_set, p.set_set]

/-- An action on the first of two values spares the second. -/
theorem right_act (x : StateM τ α) : (right : Part (τ × υ) υ).Spares (left.act x) := fun _ _ => rfl

/-- An action on the second of two values spares the first. -/
theorem left_act (x : StateM υ α) : (left : Part (τ × υ) τ).Spares (right.act x) := fun _ _ => rfl

end Spares

end Part

/-! ## What a rewriter does -/

/-- What a rewriter does with an element or at the end, step by step. -/
inductive Script (τ ε : Type) where
  | done
  /-- Looks at the state. -/
  | read (rest : τ → Script τ ε)
  /-- Takes another state. -/
  | write (t : τ) (rest : Script τ ε)
  | emit (e : ε) (rest : Script τ ε)

/-- All that is emitted. -/
def Script.emitted : Script τ ε → StateM τ (List ε)
  | done => return []
  | read rest => do (rest (← get)).emitted
  | write t rest => do
    set t
    rest.emitted
  | emit e rest => return e :: (← rest.emitted)

/-- A rewriter of elements with a state of its own. -/
inductive Rewriter (ε : Type) : Type → Type 1 where
  /-- What to do with each element, and what to do at the end. -/
  | leaf {τ : Type} (accept : ε → Script τ ε) (atEnd : Script τ ε) : Rewriter ε τ
  /-- A rewriter that is made anew for every walk. -/
  | fresh {τ : Type} (make : τ → Rewriter ε τ) (prepare : τ → τ) : Rewriter ε τ
  /-- The second sees what the first emits. -/
  | chain {τ υ : Type} (first : Rewriter ε τ) (second : Rewriter ε υ) : Rewriter ε (τ × υ)

/-- Elements given one after another to an action that puts others in their place. -/
def feedAll (accept : ε → StateM σ (List ε)) : List ε → StateM σ (List ε)
  | [] => return []
  | e :: rest => do
    let es ← accept e
    return es ++ (← feedAll accept rest)

/-- Feeding two lists one after another is feeding them as one. -/
theorem feedAll_append (accept : ε → StateM σ (List ε)) (xs ys : List ε) :
    feedAll accept (xs ++ ys) = do
      let zs ← feedAll accept xs
      return zs ++ (← feedAll accept ys) := by
  induction xs with
  | nil => simp [feedAll]
  | cons x rest inductionHypothesis =>
      simp only [List.cons_append, feedAll, inductionHypothesis, bind_assoc, pure_bind,
        List.append_assoc]

/-- Elements that nothing is put in place of. -/
theorem feedAll_pure (xs : List ε) :
    feedAll (fun e => (pure [e] : StateM σ (List ε))) xs = pure xs := by
  induction xs with
  | nil => rfl
  | cons x rest inductionHypothesis => simp [feedAll, inductionHypothesis]

/-- Feeding elements to an action that spares a part spares it. -/
theorem Part.Spares.feedAll {p : Part σ τ} {accept : ε → StateM σ (List ε)}
    (spares : ∀ e, p.Spares (accept e)) (xs : List ε) : p.Spares (feedAll accept xs) := by
  induction xs with
  | nil => exact .pure _
  | cons x rest inductionHypothesis =>
      exact .bind (spares x) fun _ => .bind inductionHypothesis fun _ => .pure _

/-- A rewriter in the course of a walk. -/
structure Machine (τ ε : Type) where
  accept : ε → StateM τ (List ε)
  atEnd : StateM τ (List ε)

namespace Machine

/-- All that is emitted over some elements and at their end. -/
def rewrite (m : Machine τ ε) (xs : List ε) : StateM τ (List ε) := do
  let ys ← feedAll m.accept xs
  return ys ++ (← m.atEnd)

/-- Two machines of which the second is fed by the first, element by element. -/
def andThen (m : Machine τ ε) (n : Machine υ ε) : Machine (τ × υ) ε where
  accept e := do
    let ys ← Part.left.act (m.accept e)
    Part.right.act (feedAll n.accept ys)
  atEnd := do
    let ys ← Part.left.act m.atEnd
    Part.right.act (n.rewrite ys)

/-- Rewriting two lists feeds the first and rewrites the second, with the end after it. -/
theorem rewrite_append (m : Machine τ ε) (xs ys : List ε) :
    m.rewrite (xs ++ ys) = do
      let zs ← feedAll m.accept xs
      return zs ++ (← m.rewrite ys) := by
  simp only [rewrite, feedAll_append, bind_assoc, pure_bind, List.append_assoc]

/-- Feeding element by element and collecting in between come to the same. -/
theorem feedAll_andThen (m : Machine τ ε) (n : Machine υ ε) (xs : List ε) :
    feedAll (m.andThen n).accept xs =
      Part.left.act (feedAll m.accept xs) >>= fun ys =>
        Part.right.act (feedAll n.accept ys) := by
  induction xs with
  | nil => simp [feedAll, Part.act_pure]
  | cons x rest inductionHypothesis =>
      rw [feedAll, inductionHypothesis]
      simp only [feedAll, andThen, bind_assoc, Part.act_bind, Part.act_pure, pure_bind,
        feedAll_append]
      exact bind_congr fun ys => (Part.Spares.left_act _).comm _ _

/-- Two machines in a row rewrite elements as the second does with what the first emits over all of
them, its end included. -/
theorem rewrite_andThen (m : Machine τ ε) (n : Machine υ ε) (xs : List ε) :
    (m.andThen n).rewrite xs =
      Part.left.act (m.rewrite xs) >>= fun ys => Part.right.act (n.rewrite ys) := by
  have first : m.rewrite xs = feedAll m.accept xs >>= fun ys => m.atEnd >>= fun zs =>
    pure (ys ++ zs) := rfl
  rw [first, rewrite, feedAll_andThen]
  simp only [andThen, bind_assoc, Part.act_bind, Part.act_pure, pure_bind, rewrite_append]
  exact bind_congr fun ys => (Part.Spares.left_act _).comm _ _

end Machine

namespace Rewriter

/-- The machine of a rewriter for one walk. Factories come to be called, once each. -/
def resolve {τ : Type} : Rewriter ε τ → StateM τ (Machine τ ε)
  | leaf accept atEnd => return { accept := fun e => (accept e).emitted, atEnd := atEnd.emitted }
  | fresh make prepare => do
    let made := make (← get)
    modify prepare
    made.resolve
  | chain first second => do
    let later ← Part.right.act second.resolve
    let earlier ← Part.left.act first.resolve
    return earlier.andThen later

/-- All that a rewriter emits over a walk, its end included. In a chain, the second is run over
all that the first emits. -/
def rewrite {τ : Type} : Rewriter ε τ → List ε → StateM τ (List ε)
  | leaf accept atEnd, xs => do
    let ys ← feedAll (fun e => (accept e).emitted) xs
    return ys ++ (← atEnd.emitted)
  | fresh make prepare, xs => do
    let made := make (← get)
    modify prepare
    made.rewrite xs
  | chain first second, xs => do
    let ys ← Part.left.act (first.rewrite xs)
    Part.right.act (second.rewrite ys)

/-- A walk through the machine of a rewriter. -/
theorem rewrite_eq {τ : Type} (r : Rewriter ε τ) (xs : List ε) :
    r.rewrite xs = r.resolve >>= fun m => m.rewrite xs := by
  induction r generalizing xs with
  | leaf accept atEnd => rfl
  | fresh make prepare inductionHypothesis =>
      simp only [rewrite, resolve, bind_assoc, inductionHypothesis]
  | chain first second forFirst forSecond =>
      simp only [rewrite, resolve, forFirst, forSecond, bind_assoc, pure_bind, Part.act_bind,
        Machine.rewrite_andThen]
      rw [(Part.Spares.left_act _).comm]
      exact bind_congr fun m => (Part.Spares.right_act _).comm _ _

end Rewriter

end JvmClass
