import JvmClass.Build.Follower
import JvmClass.Proofs.Build.Calls
import JvmClass.Proofs.Build.Walk

/-!
# Parts of what a caller keeps

A part can be read and changed on its own. An action that knows no more of the caller than a part
is an action on the whole, and it is made of calls where it was made of calls.
-/

namespace JvmClass

variable {σ τ υ α β : Type}

/-- A part of what the caller keeps, which holds what was put there last. -/
structure Part (σ τ : Type) extends Held σ τ where
  get_set : ∀ (t : τ) (u : σ), get (set t u) = t
  set_get : ∀ u : σ, set (get u) u = u
  set_set : ∀ (t t' : τ) (u : σ), set t (set t' u) = set t u

namespace Part

/-- All that the caller keeps. -/
def whole : Part σ σ := ⟨.whole, fun _ _ => rfl, fun _ => rfl, fun _ _ _ => rfl⟩

/-- Nothing of what the caller keeps. -/
def nothing : Part σ Unit :=
  ⟨⟨fun _ => (), fun _ u => u⟩, fun _ _ => rfl, fun _ => rfl, fun _ _ _ => rfl⟩

/-- The first of two values in a part. -/
def first (p : Part σ (τ × υ)) : Part σ τ where
  get u := (p.get u).1
  set t u := p.set (t, (p.get u).2) u
  get_set t u := by rw [p.get_set]
  set_get u := p.set_get u
  set_set t t' u := by rw [p.set_set, p.get_set]

/-- The second of two values in a part. -/
def second (p : Part σ (τ × υ)) : Part σ υ where
  get u := (p.get u).2
  set t u := p.set ((p.get u).1, t) u
  get_set t u := by rw [p.get_set]
  set_get u := p.set_get u
  set_set t t' u := by rw [p.set_set, p.get_set]

/-- A part, with another value beside it. -/
def beside (κ : Type) (p : Part σ τ) : Part (σ × κ) (τ × κ) where
  get u := (p.get u.1, u.2)
  set t u := (p.set t.1 u.1, t.2)
  get_set t u := by rw [p.get_set]
  set_get u := by rw [p.set_get]
  set_set t t' u := by rw [p.set_set]

/-- Acts on a part. -/
def act (p : Part σ τ) (x : StateM τ α) : StateM σ α :=
  fun u => ((x (p.get u)).1, p.set (x (p.get u)).2 u)

/-- Acts on a session of which only a part of what the caller keeps is known. -/
def within (p : Part σ τ) (x : Build τ α) : Build σ α := fun s =>
  ((x (s.withUser (p.get s.user))).1,
    (x (s.withUser (p.get s.user))).2.withUser
      (p.set (x (s.withUser (p.get s.user))).2.user s.user))

section Within

variable (p : Part σ τ)

/-- Returning does nothing to any part. -/
theorem within_pure (a : α) : p.within (pure a) = pure a := by
  funext s
  change (a, s.withUser (p.set (p.get s.user) s.user)) = (a, s)
  rw [p.set_get]
  rfl

/-- What is done to a part one after another is done to the whole one after another. -/
theorem within_bind (x : Build τ α) (f : α → Build τ β) :
    p.within (x >>= f) = p.within x >>= fun a => p.within (f a) := by
  funext s
  change p.within (x >>= f) s = p.within (f (p.within x s).1) (p.within x s).2
  simp only [within, bind_apply, Session.withUser, p.get_set, p.set_set]

/-- An action that leaves alone what the caller keeps, known in whole or in part. -/
theorem within_eq {x : Build τ α} {y : Build σ α}
    (same : ∀ s : Session σ, x (s.withUser (p.get s.user)) =
      ((y s).1, (y s).2.withUser (p.get s.user)))
    (kept : ∀ s : Session σ, (y s).2.user = s.user) : p.within x = y := by
  funext s
  rw [within, same s]
  refine Prod.ext rfl ?_
  change (y s).2.withUser (p.set (p.get s.user) s.user) = (y s).2
  rw [p.set_get, ← kept s]
  rfl

/-- What a caller does to a part of what it keeps it does to that part of the whole. -/
theorem within_onUser (x : StateM τ α) : p.within (Build.onUser x) = Build.onUser (p.act x) := rfl

/-- A part beside something else is a part of the whole beside it. -/
theorem within_beside {κ : Type} (extra : κ) (x : Build (τ × κ) α) :
    p.within (Build.beside extra x) = Build.beside extra ((p.beside κ).within x) := rfl

end Within

end Part

/-- What is made of calls on a part is made of calls. -/
theorem Build.Calls.within {x : Build τ α} (calls : Build.Calls x) (p : Part σ τ) :
    Build.Calls (p.within x) := by
  induction calls generalizing σ with
  | pure a =>
      rw [p.within_pure]
      exact .pure a
  | bind _ _ first next =>
      rw [p.within_bind]
      exact .bind (first p) fun a => next a p
  | look =>
      have looked : p.within (get : Build _ (Session _)) =
          get >>= fun s => Pure.pure (s.withUser (p.get s.user)) := by
        refine p.within_eq (fun s => rfl) fun s => rfl
      rw [looked]
      exact .bind .look fun _ => .pure _
  | interning requests =>
      rw [p.within_eq (y := Build.interning _) (fun s => rfl) fun s => rfl]
      exact .interning requests
  | fail e =>
      rw [p.within_eq (y := Build.fail e) (fun s => rfl) fun s => rfl]
      exact .fail e
  | freshLabel =>
      rw [p.within_eq (y := Build.freshLabel) (fun s => rfl) fun s => rfl]
      exact .freshLabel
  | onUser act =>
      rw [p.within_onUser]
      exact .onUser _
  | beside extra _ inductionHypothesis =>
      rw [p.within_beside]
      exact .beside extra (inductionHypothesis _)

/-- What is called apart from a caller is called. -/
theorem Build.Calls.apart {x : Build Unit α} (calls : Build.Calls x) :
    Build.Calls (Build.apart x : Build σ α) := calls.within .nothing

/-- Handing over an element is made of calls where taking it is. -/
theorem Drafting.Calls.accept {δ ε : Type} [Draft δ ε] {e : ε}
    (calls : Drafting.Calls (Draft.take e : Drafting Unit δ Unit)) :
    Drafting.Calls (Draft.accept e : Drafting σ δ Unit) := fun d => (calls d).apart

end JvmClass
