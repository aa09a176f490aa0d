import JvmClass.Attribute.Annotation
import JvmClass.ClassFile.Input
import JvmClass.Code.Frame

/-!
# Attributes

An attribute is a named piece of information about a class, a member, a record
component or a code body. A reference that a class file must have is still optional
here, because a caller may leave it out; writing such an attribute is refused. An
attribute that was decoded remembers where its body lies.
-/

namespace JvmClass

/-- A row about a nested class. -/
structure InnerClass where
  inner : Option ClassEntry
  outer : Option ClassEntry
  name : Option Utf8Entry
  flags : AccessFlags
deriving Inhabited

/-- A row about a formal parameter. -/
structure MethodParameter where
  name : Option Utf8Entry
  flags : AccessFlags
deriving Inhabited

/-- A module that a module needs. -/
structure ModuleRequire where
  module : Option ModuleEntry
  flags : Int
  version : Option Utf8Entry
deriving Inhabited

/-- A package that a module exports or opens, to everyone when `targets` is empty. -/
structure ModuleExport where
  package : Option PackageEntry
  flags : Int
  targets : List (Option ModuleEntry)
deriving Inhabited

/-- A service and the classes that provide it. -/
structure ModuleProvide where
  service : Option ClassEntry
  providers : List (Option ClassEntry)
deriving Inhabited

/-- The declaration of a module. -/
structure ModuleInfo where
  module : Option ModuleEntry
  flags : Int
  version : Option Utf8Entry
  requires : List ModuleRequire
  exports : List ModuleExport
  opens : List ModuleExport
  uses : List (Option ClassEntry)
  provides : List ModuleProvide
deriving Inhabited

/-- Where the body of a decoded attribute lies. -/
structure Span where
  origin : Origin
  offset : Nat
  length : Nat
deriving DecidableEq, Repr, Inhabited

mutual

/-- An attribute, with the place of its body when it was decoded. -/
inductive Attribute where
  | mk (span : Option Span) (body : AttributeBody)

/-- What an attribute says. -/
inductive AttributeBody where
  | sourceFile (file : Option Utf8Entry)
  | sourceDebugExtension (data : Bytes)
  | innerClasses (rows : List InnerClass)
  | enclosingMethod (owner : Option ClassEntry) (method : Option NameAndTypeEntry)
  | nestHost (host : Option ClassEntry)
  | nestMembers (members : List (Option ClassEntry))
  | permittedSubclasses (subclasses : List (Option ClassEntry))
  | record (components : List RecordComponent)
  | module (info : ModuleInfo)
  | signature (text : Option Utf8Entry)
  | deprecated
  | synthetic
  /-- An attribute of no known layout, or one in a place where it means nothing. -/
  | unknown (name : Text) (data : Bytes)
  | constantValue (value : Option Loadable)
  | exceptions (classes : List (Option ClassEntry))
  | methodParameters (rows : List MethodParameter)
  | annotationDefault (value : AnnotationValue)
  | annotations (visible : Bool) (rows : List Annotation)
  | parameterAnnotations (visible : Bool) (rows : List (List Annotation))
  | typeAnnotations (visible : Bool) (rows : List TypeAnnotation)
  | stackMapTable (frames : List StackMapFrame)
  | code (body : InputCode)

/-- A component of a record class. -/
inductive RecordComponent where
  | mk (name descriptor : Option Utf8Entry) (attributes : List (Option Attribute))

end

instance : Inhabited AttributeBody := ⟨.deprecated⟩
instance : Inhabited Attribute := ⟨.mk none .deprecated⟩
instance : Inhabited RecordComponent := ⟨.mk none none []⟩

namespace RecordComponent

def name : RecordComponent → Option Utf8Entry
  | .mk name _ _ => name

def descriptor : RecordComponent → Option Utf8Entry
  | .mk _ descriptor _ => descriptor

def attributes : RecordComponent → List (Option Attribute)
  | .mk _ _ attributes => attributes

end RecordComponent

namespace AttributeBody

/-- The two names of an annotation attribute. -/
def runtimeName (visible : Bool) (what : String) : String :=
  (if visible then "RuntimeVisible" else "RuntimeInvisible") ++ what

/-- The name under which an attribute is written. -/
def name : AttributeBody → Text
  | .sourceFile _ => "SourceFile"
  | .sourceDebugExtension _ => "SourceDebugExtension"
  | .innerClasses _ => "InnerClasses"
  | .enclosingMethod .. => "EnclosingMethod"
  | .nestHost _ => "NestHost"
  | .nestMembers _ => "NestMembers"
  | .permittedSubclasses _ => "PermittedSubclasses"
  | .record _ => "Record"
  | .module _ => "Module"
  | .signature _ => "Signature"
  | .deprecated => "Deprecated"
  | .synthetic => "Synthetic"
  | .unknown name _ => name
  | .constantValue _ => "ConstantValue"
  | .exceptions _ => "Exceptions"
  | .methodParameters _ => "MethodParameters"
  | .annotationDefault _ => "AnnotationDefault"
  | .annotations visible _ => runtimeName visible "Annotations"
  | .parameterAnnotations visible _ => runtimeName visible "ParameterAnnotations"
  | .typeAnnotations visible _ => runtimeName visible "TypeAnnotations"
  | .stackMapTable _ => "StackMapTable"
  | .code _ => "Code"

/-- Whether the attribute has no known layout. -/
def isUnknown : AttributeBody → Bool
  | .unknown .. => true
  | _ => false

end AttributeBody

namespace Attribute

def span : Attribute → Option Span
  | .mk span _ => span

def body : Attribute → AttributeBody
  | .mk _ body => body

def name (a : Attribute) : Text := a.body.name

/-- An attribute that was not decoded from anything. -/
def ofBody (body : AttributeBody) : Attribute := .mk none body

end Attribute

end JvmClass
