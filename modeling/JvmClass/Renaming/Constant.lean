import JvmClass.Constant.PoolBuilder
import JvmClass.Renaming

/-!
# Renaming constants

A constant whose classes keep their names stays the constant it is; otherwise the pool
under construction is asked for one with the new names.
-/

namespace JvmClass

/-- Renaming in a pool under construction. -/
abbrev Renames := ExceptT Error Interning

namespace Renaming

/-- The text of an entry that has to be there. -/
def present (e : Option Utf8Entry) : Renames Text := liftM (answered (e.map (·.text)))

/-- A text constant of the pool. -/
def text (s : Text) : Renames (Option Utf8Entry) := do
  return some (← ExceptT.lift (PoolBuilder.utf8 s))

/-- A class under its new name. -/
def classEntry (r : Renaming) (c : ClassEntry) : Renames ClassEntry := do
  let name ← liftM (r.internalName c.internalName)
  if name = c.internalName then return c
  ExceptT.lift (PoolBuilder.class_ name)

/-- A class that may be left out, under its new name. -/
def classEntry? (r : Renaming) : Option ClassEntry → Renames (Option ClassEntry)
  | some c => some <$> r.classEntry c
  | none => return none

/-- The descriptor of a member under its new name. -/
def memberType (r : Renaming) (m : MemberEntry) : Except Error Text :=
  if m.kind = .field then r.fieldDescriptor m.type else r.methodDescriptor m.type

/-- A handle of a member under new names. -/
def handle (r : Renaming) (h : HandleEntry) : Renames HandleEntry := do
  let owner ← r.classEntry h.target.owner
  let type ← liftM (r.memberType h.target)
  ExceptT.lift do
    let target ← PoolBuilder.member h.target.kind owner h.target.name type
    PoolBuilder.handle h.kind target

mutual

/-- A constant that can be loaded, under new names. Numbers and texts stay. -/
def loadable (r : Renaming) : Loadable → Renames Loadable
  | .class c => return .class (← r.classEntry c)
  | .methodType _ descriptor => do
    let type ← liftM (r.methodDescriptor descriptor.text)
    ExceptT.lift (PoolBuilder.methodType type)
  | .handle h => return .handle (← r.handle h)
  | .dynamic _ row nt => do
    let row ← r.bootstrap row
    let type ← liftM (r.fieldDescriptor nt.type.text)
    ExceptT.lift do
      let nt ← PoolBuilder.nameAndType nt.name.text type
      PoolBuilder.dynamic row nt
  | e => return e

/-- A bootstrap row under new names. -/
def bootstrap (r : Renaming) : BootstrapRow → Renames BootstrapRow
  | .mk _ handle arguments => do
    let handle ← r.handle handle
    let arguments ← r.arguments arguments
    ExceptT.lift (PoolBuilder.bootstrap handle arguments)

/-- The arguments of a bootstrap row under new names. -/
def arguments (r : Renaming) : List Loadable → Renames (List Loadable)
  | [] => return []
  | a :: rest => do
    let a ← r.loadable a
    return a :: (← r.arguments rest)

end

/-- A call site under new names. -/
def callSite (r : Renaming) (site : CallSiteEntry) : Renames CallSiteEntry := do
  let row ← r.bootstrap site.bootstrap
  let nt := site.nameAndType
  let type ← liftM (r.methodDescriptor nt.type.text)
  ExceptT.lift do
    let nt ← PoolBuilder.nameAndType nt.name.text type
    PoolBuilder.callSite row nt

end Renaming

end JvmClass
