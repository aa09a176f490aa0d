import JvmClass.Constant.PoolBuilder
import JvmClass.Code.Label

/-!
# What the builders of one class share

All builders of a class work on one session: the options, the pool that the class
will have, a supply of labels, and the first error. Once there is an error nothing
is built any more, but callers need not look at it before the end. A session also
carries a value of the caller's own, in which handlers and transforms can keep what
they find out.
-/

namespace JvmClass

/-- The shared state of the builders of one class. -/
structure Session (σ : Type) where
  options : Options
  error : Option Error
  pool : PoolBuilder
  /-- The number of the next fresh label. -/
  labels : Nat
  /-- What the caller keeps. -/
  user : σ

/-- An action of a builder. -/
abbrev Build (σ : Type) := StateM (Session σ)

namespace Build

variable {σ τ α : Type}

/-- A session that nothing has happened in. -/
def start (options : Options) (pool : PoolBuilder) (user : σ) : Session σ :=
  { options, error := none, pool, labels := 0, user }

/-- Records an error. One that the pool cannot keep back came before it. -/
def fail (e : Error) : Build σ Unit :=
  modify fun s =>
    let kept := s.error <|> s.pool.error.bind Error.abort?
    { s with error := some (Error.first kept e) }

/-- Records the error of an outcome. -/
def failOn : Except Error Unit → Build σ Unit
  | .ok () => pure ()
  | .error e => fail e

/-- Acts on the pool. -/
def interning (act : Interning α) : Build σ α := fun s =>
  match s with
  | { options, error, pool, labels, user } =>
    match act pool with
    | (a, pool) => (a, { options, error, pool, labels, user })

/-- The error of the session itself. -/
def sessionError? : Build σ (Option Error) := return (← get).error

/-- The error of the session or the pool that cannot be kept back. -/
def abort? : Build σ (Option Error) := do
  let s ← get
  return s.error.bind Error.abort? <|> s.pool.error.bind Error.abort?

/-- The first error, of the session or else of the pool. -/
def error? : Build σ (Option Error) := do
  let s ← get
  return s.error <|> s.pool.error

def options : Build σ Options := return (← get).options

/-- A label that nothing else has. -/
def freshLabel : Build σ Label :=
  modifyGet fun s => (.fresh s.labels, { s with labels := s.labels + 1 })

/-- Acts on what the caller keeps. -/
def onUser (act : StateM σ α) : Build σ α := fun s =>
  match s with
  | { options, error, pool, labels, user } =>
    match act user with
    | (a, user) => (a, { options, error, pool, labels, user })

/-- Acts without what the caller keeps. -/
def apart (act : Build Unit α) : Build σ α := fun s =>
  match s with
  | { options, error, pool, labels, user } =>
    match act { options, error, pool, labels, user := () } with
    | (a, { options, error, pool, labels, user := () }) =>
      (a, { options, error, pool, labels, user })

/-- Acts with a further value beside what the caller keeps, and gives it back. -/
def beside (extra : τ) (act : Build (σ × τ) α) : Build σ (α × τ) := fun s =>
  match s with
  | { options, error, pool, labels, user } =>
    match act { options, error, pool, labels, user := (user, extra) } with
    | (a, { options, error, pool, labels, user := (user, extra) }) =>
      ((a, extra), { options, error, pool, labels, user })

end Build

end JvmClass
