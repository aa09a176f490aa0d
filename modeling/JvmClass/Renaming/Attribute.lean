import JvmClass.Attribute
import JvmClass.Renaming.Constant

/-!
# Renaming in attributes

What an attribute says about classes is renamed where the attribute means something:
a signature is that of a class, a method or a type, depending on what it is attached
to. An attribute that names no class stays as it was decoded.
-/

namespace JvmClass

namespace Renaming

/-- The descriptor that a text constant holds, under new names. -/
def descriptorText (r : Renaming) (e : Option Utf8Entry) : Renames (Option Utf8Entry) := do
  let s ← present e
  text (← liftM (r.fieldDescriptor s))

mutual

/-- An annotation under new names. -/
def annotationRow (r : Renaming) : Annotation → Renames Annotation
  | .mk type elements => do
    let type ← r.descriptorText type
    return .mk type (← r.annotationElements elements)

/-- The elements of an annotation under new names. -/
def annotationElements (r : Renaming) : List AnnotationElement → Renames (List AnnotationElement)
  | [] => return []
  | .mk name value :: rest => do
    let value ← r.annotationValue value
    return .mk name value :: (← r.annotationElements rest)

/-- The value of an annotation element under new names. -/
def annotationValue (r : Renaming) : AnnotationValue → Renames AnnotationValue
  | .missing => throw (.misuse .unknownAnnotationValue)
  | .const kind value => return .const kind value
  | .enum type constant => return .enum (← r.descriptorText type) constant
  | .class d => return .class (← r.descriptorText d)
  | .nested marker => return .nested (← r.annotationRow marker)
  | .array values => return .array (← r.annotationValues values)

/-- The values of an array under new names. -/
def annotationValues (r : Renaming) : List AnnotationValue → Renames (List AnnotationValue)
  | [] => return []
  | v :: rest => do
    let v ← r.annotationValue v
    return v :: (← r.annotationValues rest)

end

/-- An annotation on a use of a type, under new names. -/
def typeAnnotationRow (r : Renaming) (a : TypeAnnotation) : Renames TypeAnnotation := do
  return { a with marker := ← r.annotationRow a.marker }

/-- A signature under new names, read and renamed by `rename`. -/
def signature (rename : Text → Except Error Text) (s : Option Utf8Entry) :
    Renames AttributeBody := do
  let s ← present s
  return .signature (← text (← liftM (rename s)))

/-- An attribute that can stand anywhere, under new names. Other attributes have no
answer here. -/
def commonBody? (r : Renaming) : AttributeBody → Option (Renames AttributeBody)
  | .annotations visible rows =>
    some do return .annotations visible (← rows.mapM r.annotationRow)
  | .typeAnnotations visible rows =>
    some do return .typeAnnotations visible (← rows.mapM r.typeAnnotationRow)
  | _ => none

/-- An attribute of a field or record component under new names. -/
def fieldBody? (r : Renaming) : AttributeBody → Option (Renames AttributeBody)
  | .signature s => some (signature r.typeSignature s)
  | body => r.commonBody? body

/-- An attribute of a method under new names. -/
def methodBody? (r : Renaming) : AttributeBody → Option (Renames AttributeBody)
  | .exceptions cs => some do return .exceptions (← cs.mapM r.classEntry?)
  | .signature s => some (signature r.methodSignature s)
  | .annotationDefault v => some do return .annotationDefault (← r.annotationValue v)
  | .parameterAnnotations visible rows =>
    some do return .parameterAnnotations visible (← rows.mapM fun as => as.mapM r.annotationRow)
  | body => r.commonBody? body

/-- An attribute, renamed when `rename` has an answer for it and unchanged otherwise. -/
def attributeWith (rename : AttributeBody → Option (Renames AttributeBody)) (a : Attribute) :
    Renames Attribute :=
  match rename a.body with
  | some renamed => Attribute.ofBody <$> renamed
  | none => return a

/-- A component of a record class under new names. -/
def component (r : Renaming) (c : RecordComponent) : Renames RecordComponent := do
  let descriptor ← r.descriptorText c.descriptor
  let attributes ← c.attributes.mapM fun
    | some a => some <$> attributeWith r.fieldBody? a
    | none => return none
  return .mk c.name descriptor attributes

/-- The declaration of a module under new names. -/
def moduleInfo (r : Renaming) (m : ModuleInfo) : Renames ModuleInfo := do
  let uses ← m.uses.mapM r.classEntry?
  let provides ← m.provides.mapM fun p => do
    let service ← r.classEntry? p.service
    return { service, providers := ← p.providers.mapM r.classEntry? }
  return { m with uses, provides }

/-- The enclosing method of a class under new names. -/
def enclosingMethod (r : Renaming) (owner : Option ClassEntry) (method : Option NameAndTypeEntry) :
    Renames AttributeBody := do
  let owner ← r.classEntry? owner
  match method with
  | none => return .enclosingMethod owner none
  | some nt =>
    let type ← liftM (r.methodDescriptor nt.type.text)
    return .enclosingMethod owner
      (some (← ExceptT.lift (PoolBuilder.nameAndType nt.name.text type)))

/-- A row about a nested class under new names. -/
def innerClass (r : Renaming) (c : InnerClass) : Renames InnerClass := do
  let inner ← r.classEntry? c.inner
  return { c with inner, outer := ← r.classEntry? c.outer }

/-- An attribute of a class under new names. -/
def classBody? (r : Renaming) : AttributeBody → Option (Renames AttributeBody)
  | .signature s => some (signature r.classSignature s)
  | .innerClasses rows => some do return .innerClasses (← rows.mapM r.innerClass)
  | .enclosingMethod owner method => some (r.enclosingMethod owner method)
  | .nestHost host => some do return .nestHost (← r.classEntry? host)
  | .nestMembers cs => some do return .nestMembers (← cs.mapM r.classEntry?)
  | .permittedSubclasses cs => some do return .permittedSubclasses (← cs.mapM r.classEntry?)
  | .record components => some do return .record (← components.mapM r.component)
  | .module info => some do return .module (← r.moduleInfo info)
  | body => r.commonBody? body

/-- A type of a stack map frame under new names. -/
def verificationType (r : Renaming) : VerificationType → Except Error VerificationType
  | .object name => return .object (← r.internalName name)
  | v => return v

/-- A stack map frame under new names. -/
def frame (r : Renaming) (f : StackMapFrame) : Except Error StackMapFrame := do
  let locals ← f.locals.mapM r.verificationType
  return { f with locals, stack := ← f.stack.mapM r.verificationType }

/-- An attribute of a body under new names. -/
def codeBody? (r : Renaming) : AttributeBody → Option (Renames AttributeBody)
  | .stackMapTable frames => some do return .stackMapTable (← liftM (frames.mapM r.frame))
  | .typeAnnotations visible rows =>
    some do return .typeAnnotations visible (← rows.mapM r.typeAnnotationRow)
  | _ => none

end Renaming

end JvmClass
