import JvmClass.Build.ClassDraft

/-!
# The constants that structures mention

What is written refers to constants, and so does what is kept until it can be written. The bodies
and members of an input mention the constants of what they decode to.
-/

namespace JvmClass

/-! ## Attributes -/

/-- A constant that may be left out. -/
def Entry.optional (e : Option Entry) : List Entry := e.toList

def Utf8Entry.optional (e : Option Utf8Entry) : List Entry := Entry.optional (e.map .utf8)

def ClassEntry.optional (e : Option ClassEntry) : List Entry :=
  Entry.optional (e.map fun e => .loadable (.class e))

mutual

def Annotation.mentions : Annotation → List Entry
  | .mk type elements => Utf8Entry.optional type ++ AnnotationElement.mentionsAll elements

def AnnotationElement.mentionsAll : List AnnotationElement → List Entry
  | [] => []
  | .mk name value :: rest =>
    Utf8Entry.optional name ++ value.mentions ++ AnnotationElement.mentionsAll rest

def AnnotationValue.mentions : AnnotationValue → List Entry
  | .missing => []
  | .const _ value => Entry.optional value
  | .enum type constant => Utf8Entry.optional type ++ Utf8Entry.optional constant
  | .class d => Utf8Entry.optional d
  | .nested marker => marker.mentions
  | .array values => AnnotationValue.mentionsAll values

def AnnotationValue.mentionsAll : List AnnotationValue → List Entry
  | [] => []
  | v :: rest => v.mentions ++ AnnotationValue.mentionsAll rest

end

def InnerClass.mentions (c : InnerClass) : List Entry :=
  ClassEntry.optional c.inner ++ ClassEntry.optional c.outer ++ Utf8Entry.optional c.name

def ModuleRequire.mentions (r : ModuleRequire) : List Entry :=
  Entry.optional (r.module.map .module) ++ Utf8Entry.optional r.version

def ModuleExport.mentions (e : ModuleExport) : List Entry :=
  Entry.optional (e.package.map .package) ++
    e.targets.flatMap fun t => Entry.optional (t.map .module)

def ModuleProvide.mentions (p : ModuleProvide) : List Entry :=
  ClassEntry.optional p.service ++ p.providers.flatMap ClassEntry.optional

def ModuleInfo.mentions (m : ModuleInfo) : List Entry :=
  Entry.optional (m.module.map .module) ++ Utf8Entry.optional m.version ++
    m.requires.flatMap ModuleRequire.mentions ++ m.exports.flatMap ModuleExport.mentions ++
    m.opens.flatMap ModuleExport.mentions ++ m.uses.flatMap ClassEntry.optional ++
    m.provides.flatMap ModuleProvide.mentions

section

variable (code : InputCode → List Entry)

mutual

/-- The constants that an attribute mentions, where `code` are those of a body of an input. -/
def Attribute.mentionsWith : Attribute → List Entry
  | .mk _ body => body.mentionsWith

def AttributeBody.mentionsWith : AttributeBody → List Entry
  | .sourceFile file => Utf8Entry.optional file
  | .innerClasses rows => rows.flatMap InnerClass.mentions
  | .enclosingMethod owner method =>
    ClassEntry.optional owner ++ Entry.optional (method.map .nameAndType)
  | .nestHost host => ClassEntry.optional host
  | .nestMembers members => members.flatMap ClassEntry.optional
  | .permittedSubclasses subclasses => subclasses.flatMap ClassEntry.optional
  | .record components => RecordComponent.mentionsWith components
  | .module info => info.mentions
  | .signature text => Utf8Entry.optional text
  | .constantValue value => Entry.optional (value.map .loadable)
  | .exceptions classes => classes.flatMap ClassEntry.optional
  | .methodParameters rows => rows.flatMap fun p => Utf8Entry.optional p.name
  | .annotationDefault value => value.mentions
  | .annotations _ rows => rows.flatMap Annotation.mentions
  | .parameterAnnotations _ rows => rows.flatMap fun row => row.flatMap Annotation.mentions
  | .typeAnnotations _ rows => rows.flatMap fun a => a.marker.mentions
  | .code body => code body
  | .sourceDebugExtension _ | .deprecated | .synthetic | .unknown .. | .stackMapTable _ => []

def RecordComponent.mentionsWith : List RecordComponent → List Entry
  | [] => []
  | .mk name descriptor «attributes» :: rest =>
    Utf8Entry.optional name ++ Utf8Entry.optional descriptor ++
      Attribute.mentionsAll «attributes» ++ RecordComponent.mentionsWith rest

def Attribute.mentionsAll : List (Option Attribute) → List Entry
  | [] => []
  | none :: rest => Attribute.mentionsAll rest
  | some a :: rest => a.mentionsWith ++ Attribute.mentionsAll rest

end

end

/-! ## Bodies -/

def Instruction.mentions : Instruction → List Entry
  | .field _ f => Entry.optional (f.map .member)
  | .invoke _ method => Entry.optional (method.map .member)
  | .invokeDynamic site => Entry.optional (site.map .callSite)
  | .newObject c | .newReferenceArray c | .newMultiArray c _ | .typeCheck _ c =>
    ClassEntry.optional c
  | .constant _ _ value => Entry.optional (value.map .loadable)
  | _ => []

def LocalScope.mentions (s : LocalScope) : List Entry :=
  Utf8Entry.optional s.name ++ Utf8Entry.optional s.type

/-- The constants of an element of a body. A body within it is never written. -/
def CodeElement.mentions : CodeElement → List Entry
  | .instruction i => i.mentions
  | .handler c => ClassEntry.optional c.type
  | .localVariable s | .localVariableType s => s.mentions
  | .attribute a => a.mentionsWith fun _ => []
  | .label _ | .line _ => []

/-- The constants of what a walk gives. -/
def CodeModel.mentions (c : CodeModel) : List Entry :=
  c.traversal.elements.flatMap CodeElement.mentions

/-- The constants of an attribute. -/
def Attribute.mentions (a : Attribute) : List Entry :=
  a.mentionsWith fun c => (CodeModel.input c).mentions

namespace BodyWriter

/-- The constants that a complete body is yet to refer to. -/
def mentions (w : BodyWriter) : List Entry :=
  w.catches.toList.flatMap (fun c => ClassEntry.optional c.type) ++
    w.scopes.toList.flatMap LocalScope.mentions ++
    w.typeScopes.toList.flatMap LocalScope.mentions ++
    w.attributes.toList.flatMap fun a => a.mentionsWith fun _ => []

end BodyWriter

def CodeDraft.mentions (d : CodeDraft) : List Entry :=
  match d.target with
  | .writing w => w.mentions
  | .collecting elements => elements.toList.flatMap CodeElement.mentions

/-! ## Members and classes -/

def FieldElement.mentions : FieldElement → List Entry
  | .flags _ => []
  | .attribute a => a.mentions

def MethodElement.mentions : MethodElement → List Entry
  | .flags _ => []
  | .code c => (CodeModel.built c).mentions
  | .attribute a => a.mentions

def FieldModel.mentions (f : FieldModel) : List Entry :=
  [.utf8 f.name, .utf8 f.descriptor] ++ f.traversal.elements.flatMap FieldElement.mentions

def MethodModel.mentions (m : MethodModel) : List Entry :=
  [.utf8 m.name, .utf8 m.descriptor] ++ m.traversal.elements.flatMap MethodElement.mentions

def ClassElement.mentions : ClassElement → List Entry
  | .superclass c => ClassEntry.optional c
  | .interfaces cs => cs.flatMap ClassEntry.optional
  | .field f => f.mentions
  | .method m => m.mentions
  | .attribute a => a.mentions
  | .flags _ | .version .. => []

def FieldDraft.mentions (d : FieldDraft) : List Entry :=
  [.utf8 d.name, .utf8 d.descriptor] ++ d.attributes.toList.flatMap Attribute.mentions

def MethodPart.mentions : MethodPart → List Entry
  | .attribute a => a.mentions
  | .encoded _ => []
  | .code c => (CodeModel.built c).mentions

def MethodDraft.mentions (d : MethodDraft) : List Entry :=
  [.utf8 d.name, .utf8 d.descriptor] ++ d.parts.toList.flatMap MethodPart.mentions

def ClassDraft.mentions (d : ClassDraft) : List Entry :=
  [.loadable (.class d.this)] ++ ClassEntry.optional d.super ++
    d.interfaces.flatMap ClassEntry.optional ++ d.attributes.toList.flatMap Attribute.mentions

end JvmClass
