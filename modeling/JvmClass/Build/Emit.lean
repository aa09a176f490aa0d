import JvmClass.Build.Session

/-!
# Writing structures against the pool

What is written refers to constants by index, and writing is what brings a constant
of another pool in. A reference that is missing and a table that is too long are
noted and writing goes on; the first note ends the attribute in which it was made.
-/

namespace JvmClass

/-- An action that writes: it may fail at once, or note an error for later. -/
abbrev Emit (σ : Type) := ExceptT Error (StateT (Option Error) (Build σ))

namespace Emit

variable {σ α : Type}

/-- The largest count of a table. -/
def maxCount : Nat := 65535

/-- Notes an error unless there is one already. -/
def note (e : Error) : Emit σ Unit := modify fun noted => noted <|> some e

/-- Fails with the error that was noted, if any. -/
def settle : Emit σ Unit := do
  if let some e ← getThe (Option Error) then throw e

/-- Acts on the pool. -/
def interning (act : Interning α) : Emit σ α :=
  ExceptT.lift (StateT.lift (Build.interning act))

/-- The index of an entry that has to be there. -/
def ref : Option Entry → Emit σ Bytes
  | none => do
    note (.misuse .missingReference)
    return u2 0
  | some e => do return u2 (← interning (PoolBuilder.indexOf e))

/-- The index of an entry, zero when it is left out. -/
def optionalRef : Option Entry → Emit σ Bytes
  | none => return u2 0
  | some e => do return u2 (← interning (PoolBuilder.indexOf e))

def refUtf8 (e : Option Utf8Entry) : Emit σ Bytes := ref (e.map .utf8)

def refClass (e : Option ClassEntry) : Emit σ Bytes := ref (e.map fun e => .loadable (.class e))

def optionalUtf8 (e : Option Utf8Entry) : Emit σ Bytes := optionalRef (e.map .utf8)

def optionalClass (e : Option ClassEntry) : Emit σ Bytes :=
  optionalRef (e.map fun e => .loadable (.class e))

/-- The index of a text. -/
def refText (text : Text) : Emit σ Bytes := do
  return u2 (← interning (PoolBuilder.utf8 text)).place.index

/-- The count of a table. -/
def count (n : Nat) : Emit σ Bytes := do
  if maxCount < n then note (.misuse (.table n))
  return u2 n

/-- What each item writes, onto what the ones before wrote. -/
def eachOnto {β : Type} (write : β → Emit σ Bytes) (done : List Bytes) : List β → Emit σ Bytes
  | [] => return done.reverse.flatten
  | b :: rest => do
    let bytes ← write b
    eachOnto write (bytes :: done) rest

/-- What each item writes, one after another. -/
def each {β : Type} (write : β → Emit σ Bytes) (items : List β) : Emit σ Bytes :=
  eachOnto write [] items

/-- A count and what each item writes. -/
def counted {β : Type} (write : β → Emit σ Bytes) (items : List β) : Emit σ Bytes := do
  let n ← count items.length
  return n ++ (← each write items)

/-- The greatest length of a body. -/
def maxLength : Nat := 4294967295

/-- A body after its length, which has to fit its field. -/
def sized (excess : Nat → Error) (body : Bytes) : Emit σ Bytes := do
  if maxLength < body.length then throw (excess body.length)
  return u4 body.length ++ body

/-- Writes, from a fresh start, and fails with what was noted. -/
def finish (act : Emit σ α) : Build σ (Except Error α) := do
  let (outcome, noted) ← act.run none
  match outcome, noted with
  | .ok _, some e => return .error e
  | outcome, _ => return outcome

/-- An attribute as a table takes it. -/
structure Item (σ : Type) where
  name : Text
  /-- Whether a holder may have several with this name. -/
  repeatable : Bool
  write : Emit σ Bytes

/-- Attributes with the given names already seen. -/
def itemsAfter (seen : List Text) (done : List Bytes) : List (Option (Item σ)) → Emit σ Bytes
  | [] => do
    settle
    return done.reverse.flatten
  | none :: _ => throw (.misuse .missingAttribute)
  | some i :: rest => do
    if seen.contains i.name && !i.repeatable then throw (.misuse (.duplicateAttribute i.name))
    let bytes ← i.write
    itemsAfter (i.name :: seen) (bytes :: done) rest

/-- The attributes of a table, without its count. -/
def items (is : List (Option (Item σ))) : Emit σ Bytes := itemsAfter [] [] is

/-- An attribute table. -/
def itemTable (is : List (Option (Item σ))) : Emit σ Bytes := do
  let n ← count is.length
  return n ++ (← items is)

/-- An attribute of the given name and body. -/
def named (name : Text) (body : Emit σ Bytes) : Emit σ Bytes := do
  let index ← refText name
  let body ← sized (fun n => .misuse (.attributeLength name n)) (← body)
  settle
  return index ++ body

end Emit

end JvmClass
