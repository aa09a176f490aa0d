import JvmClass.Build.ClassDraft
import JvmClass.Renaming.Attribute

/-!
# Renaming as a transform

A renaming changes whole classes, and fields, methods and bodies on their own. It
keeps nothing between elements, so one renaming can serve any number of walks.
-/

namespace JvmClass

namespace Renaming

variable {σ δ : Type}

/-- Renames in the pool of the session. -/
def inPool {α : Type} (act : Renames α) : ExceptT Error (Drafting σ δ) α := do
  liftM (← ExceptT.lift (Drafting.session (Build.interning act.run)))

/-- Renames in an element of a field. -/
def fieldElement (r : Renaming) (o : FieldOutlet σ) (e : FieldElement) :
    ExceptT Error (FieldM σ) Unit := do
  match e with
  | .attribute a =>
    let a ← inPool (attributeWith r.fieldBody? a)
    ExceptT.lift (o.emit (.attribute a))
  | e => ExceptT.lift (o.emit e)

/-- Renames in fields. -/
def fieldTransform (r : Renaming) : FieldTransform σ := .ofAccept r.fieldElement

/-- Renames in an instruction. -/
def instruction (r : Renaming) (o : CodeOutlet σ) (i : Instruction) :
    ExceptT Error (CodeM σ) Unit := do
  match i with
  | .field op (some f) =>
    let type ← liftM (r.fieldDescriptor f.type)
    let owner ← inPool (r.classEntry f.owner)
    ExceptT.lift (CodeOutlet.field o op owner f.name type)
  | .invoke op (some m) =>
    let type ← liftM (r.methodDescriptor m.type)
    let owner ← inPool (r.classEntry m.owner)
    ExceptT.lift (CodeOutlet.invoke o op owner m.name type (m.kind = .interfaceMethod))
  | .invokeDynamic (some site) =>
    let site ← inPool (r.callSite site)
    ExceptT.lift (CodeOutlet.instruction o (.invokeDynamic (some site)))
  | .field _ none | .invoke _ none | .invokeDynamic none => throw .outOfBounds
  | .newObject c =>
    let c ← inPool (r.classEntry? c)
    ExceptT.lift (CodeOutlet.instruction o (.newObject c))
  | .newReferenceArray c =>
    let c ← inPool (r.classEntry? c)
    ExceptT.lift (CodeOutlet.instruction o (.newReferenceArray c))
  | .newMultiArray c dimensions =>
    let c ← inPool (r.classEntry? c)
    ExceptT.lift (CodeOutlet.newMultiArray o c dimensions)
  | .typeCheck op c =>
    let c ← inPool (r.classEntry? c)
    ExceptT.lift (CodeOutlet.instruction o (.typeCheck op c))
  | .constant _ _ (some e) =>
    let e ← inPool (r.loadable e)
    ExceptT.lift (CodeOutlet.constant o (some e))
  | i => ExceptT.lift (CodeOutlet.instruction o i)

/-- Renames in an element of a body. -/
def codeElement (r : Renaming) (o : CodeOutlet σ) (e : CodeElement) :
    ExceptT Error (CodeM σ) Unit := do
  match e with
  | .instruction i => r.instruction o i
  | .handler c =>
    let type ← inPool (r.classEntry? c.type)
    ExceptT.lift (o.emit (.handler { c with type }))
  | .localVariable s =>
    let type ← inPool (r.descriptorText s.type)
    ExceptT.lift (o.emit (.localVariable { s with type }))
  | .localVariableType s =>
    let type ← inPool do
      let signature ← present s.type
      text (← liftM (r.typeSignature signature))
    ExceptT.lift (o.emit (.localVariableType { s with type }))
  | .attribute a =>
    let a ← inPool (attributeWith r.codeBody? a)
    ExceptT.lift (o.emit (.attribute a))
  | e => ExceptT.lift (o.emit e)

/-- Renames in bodies. -/
def codeTransform (r : Renaming) : CodeTransform σ := .ofAccept r.codeElement

/-- Renames in an element of a method. -/
def methodElement (r : Renaming) (o : MethodOutlet σ) (e : MethodElement) :
    ExceptT Error (MethodM σ) Unit := do
  match e.code?, e with
  | some c, _ => ExceptT.lift (MethodOutlet.transformCode o c (some r.codeTransform))
  | none, .attribute a =>
    let a ← inPool (attributeWith r.methodBody? a)
    ExceptT.lift (o.emit (.attribute a))
  | none, e => ExceptT.lift (o.emit e)

/-- Renames in methods. -/
def methodTransform (r : Renaming) : MethodTransform σ := .ofAccept r.methodElement

/-- Renames in an element of a class. -/
def classElement (r : Renaming) (o : ClassOutlet σ) (e : ClassElement) :
    ExceptT Error (ClassM σ) Unit := do
  match e with
  | .field f =>
    let type ← liftM (r.fieldDescriptor f.descriptor.text)
    ExceptT.lift (ClassOutlet.field o f.name.text type f.flags fun fo =>
      ExceptT.lift (FieldOutlet.replay fo f (some r.fieldTransform)))
  | .method m =>
    let type ← liftM (r.methodDescriptor m.descriptor.text)
    ExceptT.lift (ClassOutlet.method o m.name.text type m.flags fun mo =>
      ExceptT.lift (MethodOutlet.replay mo m (some r.methodTransform)))
  | .superclass c =>
    let c ← inPool (r.classEntry? c)
    ExceptT.lift (o.emit (.superclass c))
  | .interfaces cs =>
    let cs ← inPool (cs.mapM r.classEntry?)
    ExceptT.lift (o.emit (.interfaces cs))
  | .attribute a =>
    let a ← inPool (attributeWith r.classBody? a)
    ExceptT.lift (o.emit (.attribute a))
  | e => ExceptT.lift (o.emit e)

/-- Renames in classes. -/
def classTransform (r : Renaming) : ClassTransform σ := .ofAccept r.classElement

/-- Renames in a class, its own name included. -/
def classFile (r : Renaming) (c : ClassFile) : Except Error Bytes := do
  let name ← r.internalName c.this.internalName
  (c.transformAs name (some r.classTransform) ()).1

end Renaming

end JvmClass
