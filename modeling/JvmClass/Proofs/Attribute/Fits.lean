import JvmClass.Attribute.Reader
import JvmClass.Attribute.Writer
import JvmClass.Proofs.Attribute.Bare
import JvmClass.Proofs.Constant.Adoption
import Mathlib.Data.List.Nodup

/-!
# Attributes that a class file can hold

Each attribute with a known layout has a name of its own, so a name and a holder determine how a
body is read. An attribute fits if the references that it needs are there and its counts and numbers
fit their fields. It is valid in a holder if it also means something there, or is called like no
attribute that does, and nests no deeper than there is room.
-/

namespace JvmClass

namespace Attribute

/-! ## Known layouts -/

variable {ctx : Context} {room : Nat} {env : Envelope}

/-- The names of the attributes with a known layout, and the holders that each means something
in. -/
def catalogue : List (Text × List Holder) :=
  [("Record", [.class]), ("SourceFile", [.class]), ("SourceDebugExtension", [.class]),
    ("InnerClasses", [.class]), ("EnclosingMethod", [.class]), ("NestHost", [.class]),
    ("NestMembers", [.class]), ("PermittedSubclasses", [.class]), ("Module", [.class]),
    ("Signature", [.class, .field, .method, .component]),
    ("Deprecated", [.class, .field, .method]), ("Synthetic", [.class, .field, .method]),
    ("ConstantValue", [.field]), ("Exceptions", [.method]), ("MethodParameters", [.method]),
    ("AnnotationDefault", [.method]), ("Code", [.method]), ("StackMapTable", [.code]),
    ("RuntimeVisibleAnnotations", [.class, .field, .method, .component]),
    ("RuntimeVisibleParameterAnnotations", [.method]),
    ("RuntimeVisibleTypeAnnotations", [.class, .field, .method, .code, .component]),
    ("RuntimeInvisibleAnnotations", [.class, .field, .method, .component]),
    ("RuntimeInvisibleParameterAnnotations", [.method]),
    ("RuntimeInvisibleTypeAnnotations", [.class, .field, .method, .code, .component])]

/-- An attribute of the name means something in the holder. -/
def Defined (holder : Holder) (name : Text) : Prop :=
  ∃ row ∈ catalogue, row.1 = name ∧ holder ∈ row.2

instance (holder : Holder) (name : Text) : Decidable (Defined holder name) :=
  inferInstanceAs (Decidable (∃ row ∈ catalogue, row.1 = name ∧ holder ∈ row.2))

/-- No layout has the name, so an attribute that is called so is never taken apart. -/
def Unlisted (name : Text) : Prop := name ∉ catalogue.map Prod.fst

instance (name : Text) : Decidable (Unlisted name) :=
  inferInstanceAs (Decidable (name ∉ catalogue.map Prod.fst))

/-- A name without a layout means nothing in any holder. -/
theorem not_defined_of_unlisted {holder : Holder} {name : Text} (unlisted : Unlisted name) :
    ¬Defined holder name :=
  fun ⟨_, member, same, _⟩ => unlisted (same ▸ List.mem_map_of_mem member)

/-- The layouts are those of the catalogue. -/
theorem catalogue_eq (ctx : Context) (room : Nat) (env : Envelope) :
    catalogue = (("Record" : Text), [Holder.class]) ::
      (layouts ctx room env).map fun row => (Text.ofString row.1, row.2.1) := rfl

/-- No two layouts have the same name. -/
theorem nodup_catalogue : (catalogue.map Prod.fst).Nodup := by decide +kernel

/-- No two layouts have a name in common, and none is that of records. -/
theorem nodup_layouts (ctx : Context) (room : Nat) (env : Envelope) :
    (("Record" : Text) :: (layouts ctx room env).map fun row => Text.ofString row.1).Nodup := by
  have distinct := nodup_catalogue
  rwa [catalogue_eq ctx room env, List.map_cons, List.map_map] at distinct

/-- A name determines its row. -/
theorem catalogue_functional {row row' : Text × List Holder} (member : row ∈ catalogue)
    (member' : row' ∈ catalogue) (same : row.1 = row'.1) : row = row' :=
  List.inj_on_of_nodup_map nodup_catalogue member member' same

/-- The catalogue lists the layouts that an attribute can be read by. -/
theorem mem_catalogue {row : String × List Holder × Scan AttributeBody}
    (member : row ∈ layouts ctx room env) : (Text.ofString row.1, row.2.1) ∈ catalogue := by
  rw [catalogue_eq ctx room env]
  exact List.mem_cons_of_mem _ (List.mem_map.mpr ⟨row, member, rfl⟩)

/-- The layouts of the two forms of an annotation attribute are among all. -/
theorem mem_of_annotating (visible : Bool) {name : String} {read : Scan AttributeBody}
    (found : ∃ holders, (name, holders, read) ∈ annotationLayouts ctx room visible) :
    ∃ holders, (name, holders, read) ∈ layouts ctx room env := by
  obtain ⟨holders, member⟩ := found
  cases visible
  · exact ⟨holders, List.mem_append_right _ member⟩
  · exact ⟨holders, List.mem_append_left _ (List.mem_append_right _ member)⟩

/-- The layout of a name is found where an attribute of the name means something. -/
theorem layout?_of_mem {row : String × List Holder × Scan AttributeBody}
    (member : row ∈ layouts ctx room env) (named : (row.1 : Text) = env.name.text)
    (defined : Defined ctx.holder env.name.text) : layout? ctx room env = some row.2.2 := by
  obtain ⟨row', listed, same, held⟩ := defined
  have holders : row'.2 = row.2.1 :=
    congrArg Prod.snd (catalogue_functional listed (mem_catalogue member) (same.trans named.symm))
  cases found : (layouts ctx room env).find? fun row => (row.1 : Text) = env.name.text with
  | none => simpa [named] using List.find?_eq_none.mp found row member
  | some first =>
      have named' : (first.1 : Text) = env.name.text := by simpa using List.find?_some found
      have distinct := (List.nodup_cons.mp (nodup_layouts ctx room env)).2
      obtain rfl := List.inj_on_of_nodup_map distinct (List.mem_of_find?_eq_some found) member
        (named'.trans named.symm)
      rw [holders] at held
      simp only [layout?, found, List.contains_iff_mem.mpr held, ↓reduceIte]

/-- A layout that is found is that of the name. -/
theorem mem_of_layout? {read : Scan AttributeBody} (found : layout? ctx room env = some read) :
    ∃ row ∈ layouts ctx room env, (row.1 : Text) = env.name.text ∧ ctx.holder ∈ row.2.1 ∧
      row.2.2 = read := by
  rw [layout?] at found
  split at found
  · rename_i name holders read' first
    split at found
    · rename_i held
      obtain rfl := Option.some.inj found
      exact ⟨_, List.mem_of_find?_eq_some first, by simpa using List.find?_some first,
        List.contains_iff_mem.mp held, rfl⟩
    · cases found
  · cases found

/-- A name has a layout only where it means something. -/
theorem defined_of_layout? {read : Scan AttributeBody} (found : layout? ctx room env = some read) :
    Defined ctx.holder env.name.text := by
  obtain ⟨row, member, named, held, -⟩ := mem_of_layout? found
  exact ⟨_, mem_catalogue member, named, held⟩

/-- Whether a layout is found depends on the name and the holder alone. -/
theorem layout?_eq_none_of_undefined {ctx₀ : Context} {room₀ : Nat} {env₀ : Envelope}
    (absent : layout? ctx₀ room₀ env₀ = none) (named : env.name.text = env₀.name.text)
    (defined : Defined ctx.holder env.name.text → Defined ctx₀.holder env₀.name.text) :
    layout? ctx room env = none := by
  cases found : layout? ctx room env with
  | none => rfl
  | some read =>
      obtain ⟨row, member, called, -, -⟩ := mem_of_layout? found
      have rows := (catalogue_eq ctx room env).symm.trans (catalogue_eq ctx₀ room₀ env₀)
      have listed : (Text.ofString row.1, row.2.1) ∈
          (layouts ctx₀ room₀ env₀).map fun row => (Text.ofString row.1, row.2.1) :=
        (List.cons.inj rows).2 ▸ List.mem_map.mpr ⟨row, member, rfl⟩
      obtain ⟨row₀, member₀, same⟩ := List.mem_map.mp listed
      have same : Text.ofString row₀.1 = Text.ofString row.1 := congrArg Prod.fst same
      have there := layout?_of_mem member₀ (same.trans (called.trans named))
        (defined (defined_of_layout? found))
      rw [absent] at there
      cases there

/-- There is no layout for a name that none has. -/
theorem layout?_eq_none (unlisted : Unlisted env.name.text) : layout? ctx room env = none := by
  have absent : (layouts ctx room env).find? (fun row => (row.1 : Text) = env.name.text) =
      none := by
    refine List.find?_eq_none.mpr fun row member named => unlisted ?_
    exact List.mem_map.mpr ⟨_, mem_catalogue member, by simpa using named⟩
  rw [layout?, absent]

/-- How the body of an attribute is read, if its name means something in the holder. -/
def reader? (ctx : Context) (room : Nat) (env : Envelope) : Option (Scan AttributeBody) :=
  if env.name.text = "Record" then
    if ctx.holder = .class then
      some (do return .record (← Scan.counted (readComponent ctx.input room)))
    else none
  else layout? ctx room env

/-- An attribute is decoded by the reader of its name. -/
theorem decode_eq (ctx : Context) (room : Nat) (env : Envelope) :
    decode ctx room env = decodeWith ctx.input env (reader? ctx room env) := rfl

/-- In a holder where the name means something, an attribute is read by the row of the catalogue
that has the name. -/
theorem reader?_of_mem {row : String × List Holder × Scan AttributeBody}
    (member : row ∈ layouts ctx room env) (named : (row.1 : Text) = env.name.text)
    (defined : Defined ctx.holder env.name.text) : reader? ctx room env = some row.2.2 := by
  have other : env.name.text ≠ "Record" := by
    intro record
    have absent := (List.nodup_cons.mp (nodup_layouts ctx room env)).1
    exact absent (List.mem_map.mpr ⟨row, member, named.trans record⟩)
  rw [reader?, if_neg other]
  exact layout?_of_mem member named defined

/-- An attribute whose name has no layout is not taken apart. -/
theorem reader?_eq_none (unlisted : Unlisted env.name.text) : reader? ctx room env = none := by
  have other : env.name.text ≠ "Record" := by
    rintro record
    exact unlisted (record ▸ List.mem_map.mpr ⟨_, List.mem_cons_self .., rfl⟩)
  rw [reader?, if_neg other]
  exact layout?_eq_none unlisted

/-- Only a class has records, so elsewhere an attribute is read by the layout of its name alone. -/
theorem reader?_of_inner (inner : ctx.holder ≠ .class) :
    reader? ctx room env = layout? ctx room env := by
  by_cases record : env.name.text = "Record"
  · have absent : (layouts ctx room env).find? (fun row => (row.1 : Text) = env.name.text) =
        none := by
      refine List.find?_eq_none.mpr fun row member named => ?_
      exact (List.nodup_cons.mp (nodup_layouts ctx room env)).1
        (List.mem_map.mpr ⟨row, member, (of_decide_eq_true named).trans record⟩)
    rw [reader?, if_pos record, if_neg inner, layout?, absent]
  · rw [reader?, if_neg record]

end Attribute

/-! ## Attributes that fit -/

open Emit (maxCount)

/-! ## Annotations -/

/-- The tag of the constants that an annotation holds under a kind. -/
def AnnotationValue.constTag? (kind : UInt8) : Option Tag :=
  match Char.ofNat kind.toNat with
  | 'B' | 'C' | 'I' | 'S' | 'Z' => some .integer
  | 'D' => some .double
  | 'F' => some .float
  | 'J' => some .long
  | 's' => some .utf8
  | _ => none

mutual

def Annotation.Fits : Annotation → Prop
  | .mk type elements =>
    type.isSome ∧ elements.length ≤ maxCount ∧ AnnotationElement.AllFit elements

def AnnotationElement.AllFit : List AnnotationElement → Prop
  | [] => True
  | .mk name value :: rest => name.isSome ∧ value.Fits ∧ AnnotationElement.AllFit rest

/-- A constant is of the tag that its kind asks for. -/
def AnnotationValue.Fits : AnnotationValue → Prop
  | .missing => False
  | .const kind value => ∃ e, value = some e ∧ AnnotationValue.constTag? kind = some e.tag
  | .enum type constant => type.isSome ∧ constant.isSome
  | .class d => d.isSome
  | .nested marker => marker.Fits
  | .array values => values.length ≤ maxCount ∧ AnnotationValue.AllFit values

def AnnotationValue.AllFit : List AnnotationValue → Prop
  | [] => True
  | v :: rest => v.Fits ∧ AnnotationValue.AllFit rest

end

/-- The bytes have the layout. -/
def TargetLayout.Matches : TargetLayout → Bytes → Prop
  | .fixed n, info => info.length = n
  | .rows, info => ∃ (n : Nat) (rows : Bytes), n ≤ maxCount ∧ info = u2 n ++ rows ∧
      rows.length = 6 * n

structure TypeAnnotation.Fits (a : TypeAnnotation) : Prop where
  target : ∃ layout, TargetLayout.of? a.targetType.toNat = some layout ∧ layout.Matches a.targetInfo
  even : a.typePath.length % 2 = 0
  short : a.typePath.length ≤ 2 * 255
  marker : a.marker.Fits

/-! ## Modules -/

/-- References that are all there, and not too many. -/
def Listed {α : Type} (es : List (Option α)) : Prop := es.length ≤ maxCount ∧ ∀ e ∈ es, e.isSome

/-- The number fits two bytes. -/
def Word (n : Int) : Prop := 0 ≤ n ∧ n < 65536

structure ModuleRequire.Fits (r : ModuleRequire) : Prop where
  module : r.module.isSome
  flags : Word r.flags

structure ModuleExport.Fits (e : ModuleExport) : Prop where
  package : e.package.isSome
  flags : Word e.flags
  targets : Listed e.targets

structure ModuleProvide.Fits (p : ModuleProvide) : Prop where
  service : p.service.isSome
  providers : Listed p.providers

structure ModuleInfo.Fits (m : ModuleInfo) : Prop where
  module : m.module.isSome
  flags : Word m.flags
  requires : m.requires.length ≤ maxCount ∧ ∀ r ∈ m.requires, r.Fits
  «exports» : m.exports.length ≤ maxCount ∧ ∀ e ∈ m.exports, e.Fits
  opens : m.opens.length ≤ maxCount ∧ ∀ e ∈ m.opens, e.Fits
  uses : Listed m.uses
  provides : m.provides.length ≤ maxCount ∧ ∀ p ∈ m.provides, p.Fits

/-! ## Attributes -/

namespace AttributeBody

/-- What the attribute says fits its layout, and is neither a record nor part of a body. -/
def Fits : AttributeBody → Prop
  | .sourceFile e | .signature e => e.isSome
  | .sourceDebugExtension _ | .deprecated | .synthetic => True
  | .innerClasses rows => rows.length ≤ maxCount ∧ ∀ c ∈ rows, c.inner.isSome
  | .enclosingMethod owner _ => owner.isSome
  | .nestHost host => host.isSome
  | .nestMembers classes | .permittedSubclasses classes | .exceptions classes => Listed classes
  | .module info => info.Fits
  | .unknown name _ => name.Decodes
  | .constantValue value => ∃ v, value = some v ∧ v.isFieldValue = true
  | .methodParameters rows => rows.length ≤ 255
  | .annotationDefault value => value.Fits
  | .annotations _ rows => rows.length ≤ maxCount ∧ ∀ a ∈ rows, a.Fits
  | .parameterAnnotations _ rows =>
    rows.length ≤ 255 ∧ ∀ row ∈ rows, row.length ≤ maxCount ∧ ∀ a ∈ row, a.Fits
  | .typeAnnotations _ rows => rows.length ≤ maxCount ∧ ∀ a ∈ rows, a.Fits
  | .record _ | .stackMapTable _ | .code _ => False

/-- No annotation of the attribute nests deeper than there is room. -/
def Shallow (room : Nat) : AttributeBody → Prop
  | .annotationDefault value => value.depth ≤ room
  | .annotations _ rows => ∀ a ∈ rows, a.depth ≤ room
  | .parameterAnnotations _ rows => ∀ row ∈ rows, ∀ a ∈ row, a.depth ≤ room
  | .typeAnnotations _ rows => ∀ a ∈ rows, a.marker.depth ≤ room
  | _ => True

/-- No component of a record has an attribute of an unknown layout. -/
def Familiar : AttributeBody → Prop
  | .record components =>
    ∀ c ∈ components, ∀ a, some a ∈ c.attributes → a.body.isUnknown = false
  | _ => True

/-- An attribute without components that is valid in a holder. -/
structure Plain (holder : Holder) (room : Nat) (body : AttributeBody) : Prop where
  defined : body.isUnknown = false → Attribute.Defined holder body.name
  unlisted : body.isUnknown = true → Attribute.Unlisted body.name
  fits : body.Fits
  shallow : body.Shallow room

end AttributeBody

/-- A component with valid attributes, of which none is repeated that must not be. -/
structure RecordComponent.Fits (room : Nat) (c : RecordComponent) : Prop where
  named : c.name.isSome
  described : c.descriptor.isSome
  few : c.attributes.length ≤ maxCount
  once : c.attributes.Pairwise fun a b =>
    ∀ first ∈ a, ∀ second ∈ b, second.body.repeatable = true ∨ first.name ≠ second.name
  plain : ∀ a ∈ c.attributes, ∃ there, a = some there ∧ there.body.Plain .component room

/-- An attribute that is valid in a holder, where components of records need a level of their
own. -/
def AttributeBody.Valid (holder : Holder) (room : Nat) : AttributeBody → Prop
  | .record components => holder = .class ∧ components.length ≤ maxCount ∧
    ∀ c ∈ components, ∃ deeper, room = deeper + 1 ∧ c.Fits deeper
  | body => body.Plain holder room

end JvmClass
