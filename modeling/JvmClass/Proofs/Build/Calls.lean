import JvmClass.Build.ClassDraft
import JvmClass.Proofs.Constant.Growth

/-!
# What callers of builders can do

A caller asks the pool for constants, keeps values of its own, draws labels, records errors and
looks at everything, in any order and depending on all that it has seen. An action that is made of
such calls only adds to the pool, whatever it is called with.
-/

namespace JvmClass

/-- An action on a pool that is made of requests. -/
inductive PoolBuilder.Requests : {α : Type} → Interning α → Prop
  | pure {α : Type} (a : α) : Requests (pure a)
  | bind {α β : Type} {x : Interning α} {f : α → Interning β} (first : Requests x)
      (next : ∀ a, Requests (f a)) : Requests (x >>= f)
  | look : Requests get
  | utf8 (text : Text) : Requests (utf8 text)
  | integer (n : Int) : Requests (integer n)
  | float (bits : Nat) : Requests (float bits)
  | long (n : Int) : Requests (long n)
  | double (bits : Nat) : Requests (double bits)
  | class_ (internalName : Text) : Requests (class_ internalName)
  | classOf (name : Utf8Entry) : Requests (classOf name)
  | classFor (d : Descriptor) : Requests (classFor d)
  | string (text : Text) : Requests (string text)
  | methodType (descriptor : Text) : Requests (methodType descriptor)
  | nameAndType (name type : Text) : Requests (nameAndType name type)
  | nameAndTypeOf (name type : Utf8Entry) : Requests (nameAndTypeOf name type)
  | member (kind : MemberKind) (owner : ClassEntry) (name type : Text) :
      Requests (member kind owner name type)
  | memberOf (kind : MemberKind) (owner : ClassEntry) (nt : NameAndTypeEntry) :
      Requests (memberOf kind owner nt)
  | handle (kind : HandleKind) (target : MemberEntry) : Requests (handle kind target)
  | bootstrap (handle : HandleEntry) (arguments : List Loadable) :
      Requests (bootstrap handle arguments)
  | dynamic (row : BootstrapRow) (nt : NameAndTypeEntry) : Requests (dynamic row nt)
  | callSite (row : BootstrapRow) (nt : NameAndTypeEntry) : Requests (callSite row nt)
  | module (name : Text) : Requests (module name)
  | package (name : Text) : Requests (package name)
  | adoptClass (e : ClassEntry) : Requests (adoptClass e)
  | indexOf (e : Entry) : Requests (indexOf e)
  | rowCount : Requests rowCount
  | row (r : Int) : Requests (row r)

namespace PoolBuilder

/-- Whatever is made of requests only makes a pool grow. -/
theorem Requests.grow {α : Type} {act : Interning α} (requests : Requests act) : Grow act := by
  induction requests with
  | pure a => exact .pure a
  | bind _ _ first next => exact .bind first next
  | look => exact .get
  | utf8 => exact grow_utf8 _
  | integer => exact grow_integer _
  | float => exact grow_float _
  | long => exact grow_long _
  | double => exact grow_double _
  | class_ => exact grow_class _
  | classOf => exact grow_classOf _
  | classFor => exact grow_classFor _
  | string => exact grow_string _
  | methodType => exact grow_methodType _
  | nameAndType => exact grow_nameAndType _ _
  | nameAndTypeOf => exact grow_nameAndTypeOf _ _
  | member => exact grow_member _ _ _ _
  | memberOf => exact grow_memberOf _ _ _
  | handle => exact grow_handle _ _
  | bootstrap => exact grow_bootstrap _ _
  | dynamic => exact grow_dynamic _ _
  | callSite => exact grow_callSite _ _
  | module => exact grow_module _
  | package => exact grow_package _
  | adoptClass => exact grow_adoptClass _
  | indexOf => exact grow_indexOf _
  | rowCount => exact grow_rowCount
  | row => exact grow_row _

end PoolBuilder

open PoolBuilder (Requests)

/-- An action of a session that is made of calls. -/
inductive Build.Calls : {σ α : Type} → Build σ α → Prop
  | pure {σ α : Type} (a : α) : Calls (pure a : Build σ α)
  | bind {σ α β : Type} {x : Build σ α} {f : α → Build σ β} (first : Calls x)
      (next : ∀ a, Calls (f a)) : Calls (x >>= f)
  | look {σ : Type} : Calls (get : Build σ (Session σ))
  | interning {σ α : Type} {act : Interning α} (requests : Requests act) :
      Calls (interning act : Build σ α)
  | fail {σ : Type} (e : Error) : Calls (fail e : Build σ Unit)
  | freshLabel {σ : Type} : Calls (freshLabel : Build σ Label)
  | onUser {σ α : Type} (act : StateM σ α) : Calls (onUser act)
  | beside {σ τ α : Type} (extra : τ) {act : Build (σ × τ) α} (within : Calls act) :
      Calls (beside extra act)

namespace Build

/-- Calls only add to the pool. -/
theorem Calls.grows {σ α : Type} {act : Build σ α} (calls : Calls act) (s : Session σ) :
    s.pool.Grows (act s).2.pool := by
  induction calls with
  | pure | look | freshLabel | onUser => exact .refl _
  | bind _ _ first next => exact (first s).trans (next _ _)
  | interning requests => exact requests.grow s.pool
  | fail => exact .refl _
  | beside extra _ inductionHypothesis =>
      exact inductionHypothesis { s with user := (s.user, extra) }

section

variable {σ : Type}

/-- Looking for an error is a call. -/
theorem calls_error? : Calls (error? : Build σ (Option Error)) := .bind .look fun _ => .pure _

/-- Looking for an error of the session is a call. -/
theorem calls_sessionError? : Calls (sessionError? : Build σ (Option Error)) :=
  .bind .look fun _ => .pure _

/-- Noting that an outcome was an error is a call. -/
theorem calls_failOn (outcome : Except Error Unit) : Calls (failOn outcome : Build σ Unit) := by
  cases outcome with
  | error e => exact .fail e
  | ok => exact .pure ()

end

end Build

namespace Drafting

variable {σ δ α β : Type}

/-- An action beside something under construction that is made of calls, whatever it makes of
what is under construction. -/
def Calls (act : Drafting σ δ α) : Prop := ∀ d, Build.Calls (act d)

namespace Calls

theorem pure (a : α) : Calls (pure a : Drafting σ δ α) := fun _ => .pure _

/-- Calls after calls are calls, whatever the first ones gave. -/
theorem bind {x : Drafting σ δ α} {f : α → Drafting σ δ β} (first : Calls x)
    (next : ∀ a, Calls (f a)) : Calls (x >>= f) := fun d => .bind (first d) fun _ => next _ _

theorem get : Calls (get : Drafting σ δ δ) := fun _ => .pure _

theorem modify (f : δ → δ) : Calls (modify f : Drafting σ δ PUnit) := fun _ => .pure _

/-- Calls of the session are calls beside what is under construction. -/
theorem session {act : Build σ α} (calls : Build.Calls act) :
    Calls (session act : Drafting σ δ α) := fun _ => .bind calls fun _ => .pure _

theorem fail (e : Error) : Calls (Drafting.session (Build.fail e) : Drafting σ δ Unit) :=
  session (.fail e)

end Calls

/-- A kind of action beside something under construction that what calls do belongs to. -/
structure Manner (σ δ : Type) where
  Does : {α : Type} → Drafting σ δ α → Prop
  pure : ∀ {α : Type} (a : α), Does (Pure.pure a : Drafting σ δ α)
  bind : ∀ {α β : Type} {x : Drafting σ δ α} {f : α → Drafting σ δ β}, Does x → (∀ a, Does (f a)) →
    Does (x >>= f)
  look : Does (MonadState.get : Drafting σ δ δ)
  session : ∀ {α : Type} {act : Build σ α}, Build.Calls act →
    Does (Drafting.session act : Drafting σ δ α)

/-- Making calls. -/
def calling (σ δ : Type) : Manner σ δ where
  Does := Calls
  pure := Calls.pure
  bind := Calls.bind
  look := Calls.get
  session := Calls.session

/-- An action that can fail and is done in a manner. -/
def Manner.Tries (m : Manner σ δ) (act : ExceptT Error (Drafting σ δ) α) : Prop := m.Does act.run

namespace Manner

variable {m : Manner σ δ}

/-- Either of two actions that are done in a manner is done in it. -/
theorem ite {c : Prop} [Decidable c] {x y : Drafting σ δ α} (first : m.Does x)
    (second : m.Does y) : m.Does (if c then x else y) := by
  split <;> assumption

namespace Tries

theorem pure (a : α) : m.Tries (Pure.pure a) := m.pure _

theorem throw (e : Error) : m.Tries (throw e : ExceptT Error (Drafting σ δ) α) := m.pure _

/-- Going on after what has not failed stays within a manner, and so does breaking off. -/
theorem bind {x : ExceptT Error (Drafting σ δ) α} {f : α → ExceptT Error (Drafting σ δ) β}
    (first : m.Tries x) (next : ∀ a, m.Tries (f a)) : m.Tries (x >>= f) := by
  change m.Does (x.run >>= ExceptT.bindCont f)
  refine m.bind first fun outcome => ?_
  cases outcome with
  | error e => exact m.pure _
  | ok a => exact next a

/-- An action that cannot fail is tried in the manner that it is done in. -/
theorem lift {x : Drafting σ δ α} (does : m.Does x) : m.Tries (ExceptT.lift x) :=
  m.bind does fun _ => m.pure _

theorem liftM (x : Except Error α) : m.Tries (liftM x : ExceptT Error (Drafting σ δ) α) :=
  m.pure _

/-- Either of two actions that are tried in a manner is tried in it. -/
theorem ite {c : Prop} [Decidable c] {x y : ExceptT Error (Drafting σ δ) α} (first : m.Tries x)
    (second : m.Tries y) : m.Tries (if c then x else y) := by
  split <;> assumption

/-- Breaking off where something has been noted belongs to every manner. -/
theorem settle : m.Tries Transform.settle :=
  .bind (.lift (m.session Build.calls_error?)) fun found => by
    cases found with
    | none => exact .pure ()
    | some e => exact .throw e

end Tries

end Manner

end Drafting

/-! ## Laws of what the library writes

While it writes, the library does only a few things to a session: it refers to constants that it
was given, enters texts and classes by name, counts the bootstrap rows, looks around and fails. A
law that these obey, and that sequences of them obey, is one that everything written obeys.
-/

/-- What references to given constants obey, and what is put together from them. -/
structure PoolBuilder.Law where
  Given : Entry → Prop
  Does : {α : Type} → Interning α → Prop
  pure : ∀ {α : Type} (a : α), Does (Pure.pure a)
  bind : ∀ {α β : Type} {x : Interning α} {f : α → Interning β}, Does x → (∀ a, Does (f a)) →
    Does (x >>= f)
  indexOf : ∀ e, Given e → Does (indexOf e)
  utf8 : ∀ text, Does (utf8 text)
  class_ : ∀ internalName, Does (class_ internalName)
  rowCount : Does rowCount

/-- Being made of requests, whatever constants are given. -/
def PoolBuilder.Law.requests : PoolBuilder.Law where
  Given _ := True
  Does := Requests
  pure := .pure
  bind := .bind
  indexOf e _ := .indexOf e
  utf8 := .utf8
  class_ := .class_
  rowCount := .rowCount

/-- An action on a pool that can fail and obeys a law. -/
def PoolBuilder.Law.Attempts (l : PoolBuilder.Law) {α : Type} (act : ExceptT Error Interning α) :
    Prop := l.Does act.run

namespace PoolBuilder.Law.Attempts

variable {l : PoolBuilder.Law} {α β : Type}

theorem pure (a : α) : l.Attempts (Pure.pure a) := l.pure _

theorem throw (e : Error) : l.Attempts (throw e : ExceptT Error Interning α) := l.pure _

/-- Going on after what has not failed obeys a law, and so does breaking off. -/
theorem bind {x : ExceptT Error Interning α} {f : α → ExceptT Error Interning β}
    (first : l.Attempts x) (next : ∀ a, l.Attempts (f a)) : l.Attempts (x >>= f) := by
  change l.Does (x.run >>= ExceptT.bindCont f)
  refine l.bind first fun outcome => ?_
  cases outcome with
  | error e => exact l.pure _
  | ok a => exact next a

/-- An action that cannot fail attempts what it does. -/
theorem lift {x : Interning α} (does : l.Does x) : l.Attempts (ExceptT.lift x) :=
  l.bind does fun _ => l.pure _

theorem liftM (x : Except Error α) : l.Attempts (liftM x) := l.pure _

end PoolBuilder.Law.Attempts

/-- What the library's actions on a session obey while it writes. -/
structure Build.Law (σ : Type) where
  pool : PoolBuilder.Law
  Does : {α : Type} → Build σ α → Prop
  pure : ∀ {α : Type} (a : α), Does (Pure.pure a : Build σ α)
  bind : ∀ {α β : Type} {x : Build σ α} {f : α → Build σ β}, Does x → (∀ a, Does (f a)) →
    Does (x >>= f)
  look : Does (get : Build σ (Session σ))
  interning : ∀ {α : Type} {act : Interning α}, pool.Does act → Does (interning act)
  fail : ∀ e, Does (fail e : Build σ Unit)

namespace Build.Law

variable {σ : Type}

/-- Being made of calls. -/
def calls (σ : Type) : Law σ where
  pool := .requests
  Does := Calls
  pure := .pure
  bind := .bind
  look := .look
  interning := .interning
  fail := .fail

variable (l : Law σ)

/-- Constants that may be referred to. -/
def Gives (es : List Entry) : Prop := ∀ e ∈ es, l.pool.Given e

variable {l} in
/-- Constants of two lists may be referred to if those of either may. -/
theorem gives_append {es fs : List Entry} : l.Gives (es ++ fs) ↔ l.Gives es ∧ l.Gives fs :=
  List.forall_mem_append

variable {l} in
/-- Constants of several things may be referred to if those of each may. -/
theorem gives_flatMap {β : Type} {f : β → List Entry} {bs : List β} :
    l.Gives (bs.flatMap f) ↔ ∀ b ∈ bs, l.Gives (f b) := List.forall_mem_flatMap

/-- Calls refer to any constants. -/
theorem gives_calls (es : List Entry) : (calls σ).Gives es := fun _ _ => trivial

theorem error? : l.Does (error? : Build σ (Option Error)) := l.bind l.look fun _ => l.pure _

theorem options : l.Does (options : Build σ Options) := l.bind l.look fun _ => l.pure _

end Build.Law

namespace Emit

variable {σ α β : Type} {l : Build.Law σ}

/-- An action that obeys a law and does not forget that something was noted. -/
structure Steady (l : Build.Law σ) (act : StateT (Option Error) (Build σ) α) : Prop where
  does : ∀ noted, l.Does (act noted)
  notes : ∀ (noted : Option Error) (s : Session σ), noted ≠ none → (act noted s).1.2 ≠ none

/-- An action that writes, obeys a law and does not forget that something was noted. -/
def Tries (l : Build.Law σ) (act : Emit σ α) : Prop := Steady l act.run

namespace Steady

theorem pure (a : α) : Steady l (pure a) := ⟨fun _ => l.pure _, fun _ _ => id⟩

/-- What follows an action that forgets nothing may not forget anything either. -/
theorem bind {x : StateT (Option Error) (Build σ) α} {f : α → StateT (Option Error) (Build σ) β}
    (first : Steady l x) (next : ∀ a, Steady l (f a)) : Steady l (x >>= f) where
  does noted := l.bind (first.does noted) fun _ => (next _).does _
  notes noted s some := (next _).notes _ _ (first.notes noted s some)

end Steady

namespace Tries

theorem pure (a : α) : Tries l (pure a) := Steady.pure _

theorem throw (e : Error) : Tries l (throw e : Emit σ α) := Steady.pure _

/-- Writing on after what has not failed obeys a law, and so does breaking off. -/
theorem bind {x : Emit σ α} {f : α → Emit σ β} (first : Tries l x) (next : ∀ a, Tries l (f a)) :
    Tries l (x >>= f) := by
  change Steady l (x.run >>= ExceptT.bindCont f)
  refine .bind first fun outcome => ?_
  cases outcome with
  | error e => exact .pure _
  | ok a => exact next a

theorem liftM (x : Except Error α) : Tries l (liftM x) := Steady.pure _

/-- What comes after an outcome that was known already. -/
theorem given {x : Except Error α} {f : α → Emit σ β} (next : ∀ a, x = .ok a → Tries l (f a)) :
    Tries l (MonadLiftT.monadLift x >>= f) := by
  cases x with
  | error e => exact .throw e
  | ok a => exact next a rfl

/-- An action of the session. -/
theorem session {act : Build σ α} (does : l.Does act) :
    Tries l (ExceptT.lift (StateT.lift act) : Emit σ α) :=
  Steady.bind ⟨fun _ => l.bind does fun _ => l.pure _, fun _ _ => id⟩ fun _ => .pure _

theorem look : Tries l (getThe (Session σ) : Emit σ (Session σ)) := session l.look

/-- Requests to a pool that obey the law of pools may be made while writing. -/
theorem interning {act : Interning α} (does : l.pool.Does act) :
    Tries l (Emit.interning act : Emit σ α) := session (l.interning does)

end Tries

end Emit

/-- An error that cannot be kept back is looked for last, and takes the place of the outcome. -/
theorem Build.outcome_apply {σ : Type} (outcome : Except Error Bytes) (s : Session σ) :
    (do match ← Build.abort? with
        | some e => return .error e
        | none => return outcome : Build σ (Except Error Bytes)) s =
      ((Build.abort? s).1.elim outcome .error, s) := by
  rw [bind_apply]
  have looked : (Build.abort? s).2 = s := rfl
  rw [looked]
  cases (Build.abort? s).1 <;> rfl

end JvmClass
