import JvmClass.Attribute
import JvmClass.Proofs.Constant.Bare

/-!
# What attributes say

Attributes of different class files are compared by the constants that they denote. Neither the
places of the constants nor that of the attribute itself count, which is also true of the
attributes of a record's components.
-/

namespace JvmClass

mutual

def Annotation.bare : Annotation → Annotation
  | .mk type elements => .mk (type.map Utf8Entry.bare) (AnnotationElement.bareAll elements)

def AnnotationElement.bareAll : List AnnotationElement → List AnnotationElement
  | [] => []
  | .mk name value :: rest =>
    .mk (name.map Utf8Entry.bare) value.bare :: AnnotationElement.bareAll rest

def AnnotationValue.bare : AnnotationValue → AnnotationValue
  | .missing => .missing
  | .const kind value => .const kind (value.map Entry.bare)
  | .enum type constant => .enum (type.map Utf8Entry.bare) (constant.map Utf8Entry.bare)
  | .class d => .class (d.map Utf8Entry.bare)
  | .nested marker => .nested marker.bare
  | .array values => .array (AnnotationValue.bareAll values)

def AnnotationValue.bareAll : List AnnotationValue → List AnnotationValue
  | [] => []
  | v :: rest => v.bare :: AnnotationValue.bareAll rest

end

def AnnotationElement.bare : AnnotationElement → AnnotationElement
  | .mk name value => .mk (name.map Utf8Entry.bare) value.bare

/-- Elements lose their places one by one. -/
@[simp] theorem AnnotationElement.bareAll_eq_map (es : List AnnotationElement) :
    bareAll es = es.map bare := by
  induction es with
  | nil => rfl
  | cons e rest inductionHypothesis =>
      cases e
      rw [bareAll, inductionHypothesis, List.map_cons, bare]

/-- Values lose their places one by one. -/
@[simp] theorem AnnotationValue.bareAll_eq_map (vs : List AnnotationValue) :
    bareAll vs = vs.map bare := by
  induction vs with
  | nil => rfl
  | cons v rest inductionHypothesis => rw [bareAll, inductionHypothesis, List.map_cons]

def TypeAnnotation.bare (a : TypeAnnotation) : TypeAnnotation := { a with marker := a.marker.bare }

def InnerClass.bare (c : InnerClass) : InnerClass where
  inner := c.inner.map ClassEntry.bare
  outer := c.outer.map ClassEntry.bare
  name := c.name.map Utf8Entry.bare
  flags := c.flags

def MethodParameter.bare (p : MethodParameter) : MethodParameter :=
  { p with name := p.name.map Utf8Entry.bare }

def ModuleRequire.bare (r : ModuleRequire) : ModuleRequire where
  module := r.module.map ModuleEntry.bare
  flags := r.flags
  version := r.version.map Utf8Entry.bare

def ModuleExport.bare (e : ModuleExport) : ModuleExport where
  package := e.package.map PackageEntry.bare
  flags := e.flags
  targets := e.targets.map (Option.map ModuleEntry.bare)

def ModuleProvide.bare (p : ModuleProvide) : ModuleProvide where
  service := p.service.map ClassEntry.bare
  providers := p.providers.map (Option.map ClassEntry.bare)

def ModuleInfo.bare (m : ModuleInfo) : ModuleInfo where
  module := m.module.map ModuleEntry.bare
  flags := m.flags
  version := m.version.map Utf8Entry.bare
  requires := m.requires.map ModuleRequire.bare
  «exports» := m.exports.map ModuleExport.bare
  opens := m.opens.map ModuleExport.bare
  uses := m.uses.map (Option.map ClassEntry.bare)
  provides := m.provides.map ModuleProvide.bare

mutual

/-- The attribute without places. -/
def Attribute.bare : Attribute → Attribute
  | .mk _ body => .mk none body.bare

/-- What the attribute says, without places. Bodies and stack maps are left as they are. -/
def AttributeBody.bare : AttributeBody → AttributeBody
  | .sourceFile file => .sourceFile (file.map Utf8Entry.bare)
  | .sourceDebugExtension data => .sourceDebugExtension data
  | .innerClasses rows => .innerClasses (rows.map InnerClass.bare)
  | .enclosingMethod owner method =>
    .enclosingMethod (owner.map ClassEntry.bare) (method.map NameAndTypeEntry.bare)
  | .nestHost host => .nestHost (host.map ClassEntry.bare)
  | .nestMembers members => .nestMembers (members.map (Option.map ClassEntry.bare))
  | .permittedSubclasses subclasses =>
    .permittedSubclasses (subclasses.map (Option.map ClassEntry.bare))
  | .record components => .record (RecordComponent.bareAll components)
  | .module info => .module info.bare
  | .signature text => .signature (text.map Utf8Entry.bare)
  | .deprecated => .deprecated
  | .synthetic => .synthetic
  | .unknown name data => .unknown name data
  | .constantValue value => .constantValue (value.map Loadable.bare)
  | .exceptions classes => .exceptions (classes.map (Option.map ClassEntry.bare))
  | .methodParameters rows => .methodParameters (rows.map MethodParameter.bare)
  | .annotationDefault value => .annotationDefault value.bare
  | .annotations visible rows => .annotations visible (rows.map Annotation.bare)
  | .parameterAnnotations visible rows =>
    .parameterAnnotations visible (rows.map (List.map Annotation.bare))
  | .typeAnnotations visible rows => .typeAnnotations visible (rows.map TypeAnnotation.bare)
  | .stackMapTable frames => .stackMapTable frames
  | .code body => .code body

/-- Components without places. -/
def RecordComponent.bareAll : List RecordComponent → List RecordComponent
  | [] => []
  | .mk name descriptor «attributes» :: rest =>
    .mk (name.map Utf8Entry.bare) (descriptor.map Utf8Entry.bare)
      (Attribute.bareAll «attributes») ::
      RecordComponent.bareAll rest

/-- Attributes without places. -/
def Attribute.bareAll : List (Option Attribute) → List (Option Attribute)
  | [] => []
  | none :: rest => none :: Attribute.bareAll rest
  | some a :: rest => some a.bare :: Attribute.bareAll rest

end

/-- An attribute without places has forgotten where it lies, and keeps what its body says. -/
theorem Attribute.bare_eq (a : Attribute) : a.bare = .mk none a.body.bare := by
  cases a
  rfl

/-- Attributes of a table lose their places one by one, and what is missing stays missing. -/
@[simp] theorem Attribute.bareAll_eq_map (as : List (Option Attribute)) :
    bareAll as = as.map (Option.map bare) := by
  induction as with
  | nil => rfl
  | cons a rest inductionHypothesis =>
      cases a <;> rw [bareAll, inductionHypothesis, List.map_cons] <;> rfl

def RecordComponent.bare : RecordComponent → RecordComponent
  | .mk name descriptor «attributes» =>
    .mk (name.map Utf8Entry.bare) (descriptor.map Utf8Entry.bare)
      («attributes».map (Option.map Attribute.bare))

/-- Components lose their places one by one, with their names, descriptors and attributes. -/
@[simp] theorem RecordComponent.bareAll_eq_map (cs : List RecordComponent) :
    bareAll cs = cs.map bare := by
  induction cs with
  | nil => rfl
  | cons c rest inductionHypothesis =>
      cases c
      rw [bareAll, inductionHypothesis, List.map_cons, bare, Attribute.bareAll_eq_map]

/-- What an attribute is called is part of what it says. -/
@[simp] theorem AttributeBody.name_bare (body : AttributeBody) : body.bare.name = body.name := by
  cases body <;> rfl

/-- Whether the layout of an attribute is known does not depend on places. -/
@[simp] theorem AttributeBody.isUnknown_bare (body : AttributeBody) :
    body.bare.isUnknown = body.isUnknown := by
  cases body <;> rfl

/-! ## Nesting -/

mutual

/-- How many annotations and arrays an annotation is made of, one inside the other, with itself. -/
def Annotation.depth : Annotation → Nat
  | .mk _ elements => AnnotationElement.depthAll elements + 1

/-- The same of the elements that nest deepest. -/
def AnnotationElement.depthAll : List AnnotationElement → Nat
  | [] => 0
  | .mk _ value :: rest => max value.depth (AnnotationElement.depthAll rest)

/-- The same of a value, which counts even where it nests nothing. -/
def AnnotationValue.depth : AnnotationValue → Nat
  | .nested marker => marker.depth + 1
  | .array values => AnnotationValue.depthAll values + 1
  | .missing | .const .. | .enum .. | .class _ => 1

def AnnotationValue.depthAll : List AnnotationValue → Nat
  | [] => 0
  | v :: rest => max v.depth (AnnotationValue.depthAll rest)

end

end JvmClass
