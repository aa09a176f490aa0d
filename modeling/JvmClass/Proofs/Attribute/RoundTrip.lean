import JvmClass.Proofs.Attribute.Copying

/-!
# Attributes that are written and read again

An attribute is written with a header, and its body is copied or written anew. Either way decoding
the body gives the attribute back.
-/

namespace JvmClass

open Attribute
open Emit (maxCount maxLength)
open Scan (Follows Parses)

/-! ## Which attributes mean the same anywhere -/

namespace AttributeBody

variable {holder : Holder} {room : Nat} {body : AttributeBody}

/-- An attribute without components can be moved to another input. -/
theorem Plain.movable (plain : body.Plain holder room) : Movable room body := by
  have fits := plain.fits
  refine ⟨plain.shallow, ?_, ?_⟩ <;> rintro x rfl <;> exact fits.elim

/-- An attribute without components is valid where it is. -/
theorem Plain.valid (plain : body.Plain holder room) : body.Valid holder room := by
  have fits := plain.fits
  cases body with
  | record => exact fits.elim
  | _ => exact plain

/-- What is not a record has no components. -/
theorem Plain.familiar (plain : body.Plain holder room) : body.Familiar := by
  have fits := plain.fits
  cases body with
  | record => exact fits.elim
  | _ => trivial

end AttributeBody

namespace Attribute

/-! ## Copied bodies -/

/-- What is called a record is one, or means nothing where it stands. -/
theorem record_or_unknown {ctx : Context} {room : Nat} {env : Envelope} {a : Attribute}
    (record : env.name.text = "Record") (decoded : decode ctx room env = .ok a) :
    (∃ components, a.body = .record components) ∨ ∃ data, a.body = .unknown env.name.text data := by
  rw [decode_eq, reader?, if_pos record] at decoded
  refine (@of_decodeWith _ _ _ _ (fun body => (∃ components, body = .record components) ∨
    ∃ data, body = .unknown env.name.text data) (fun read given => ?_)
    (fun data => .inr ⟨data, rfl⟩) decoded).2
  split at given
  · obtain rfl := Option.some.inj given
    exact .bind fun components => .pure (.inl ⟨components, rfl⟩)
  · cases given

/-- What is not a record of a class is read by the layout of its name. -/
theorem decodeWith_of_not_record {ctx : Context} {env : Envelope} (room : Nat)
    (other : ctx.holder = .class → env.name.text ≠ "Record") :
    decodeWith ctx.input env (layout? ctx room env) = decode ctx room env := by
  by_cases held : ctx.holder = .class
  · rw [decode_eq, reader?, if_neg (other held)]
  · exact decodeWith_inner held room env

/-- The attributes of a component are read again unless unknown ones are left out. -/
theorem retained_of_fits {i : Input} {room : Nat} {c : RecordComponent} (fits : c.Fits room)
    (familiar : i.options.has .dropUnknownAttributes = true →
      ∀ a, some a ∈ c.attributes → a.body.isUnknown = false) :
    RetainedComponent i (room + 1) c := by
  refine ⟨room, rfl, fun a member => ?_⟩
  obtain ⟨there, same, plain⟩ := fits.plain _ member
  obtain rfl := Option.some.inj same
  refine ⟨plain.movable, Bool.and_eq_false_iff.mpr ?_⟩
  cases drops : i.options.has .dropUnknownAttributes with
  | true => exact .inl (familiar drops a member)
  | false => exact .inr rfl

section Copied

variable {ctx₀ ctx : Context} {room₀ room : Nat} {env₀ env : Envelope} {a : Attribute}
  (covers : ctx.input.Covers ctx₀.input)
  (window : Window ctx₀.input.cursor (env₀.offset + env₀.length))
  (addressable : ctx.input.cursor.Addressable)
  (decoded : decode ctx₀ room₀ env₀ = .ok a) (named : env.name.text = a.name)
  (length : env.length = env₀.length)
  (spells : ctx.input.cursor.Spells env.offset
    (ctx₀.input.cursor.segment env₀.offset (env₀.offset + env₀.length)))
include covers window addressable decoded named length spells

/-- An attribute without components. -/
theorem decode_copied_plain (plain : a.body.Plain ctx.holder room) :
    ∃ a', decode ctx room env = .ok a' ∧ a'.body.bare = a.body.bare := by
  have renamed : env.name.text = env₀.name.text := named.trans (decodedFrom_of_decode decoded).name
  have other : env₀.name.text ≠ "Record" := by
    intro record
    have fits := plain.fits
    rcases record_or_unknown record decoded with ⟨components, same⟩ | ⟨data, same⟩ <;>
      rw [same] at plain fits
    · exact fits.elim
    · exact absurd (plain.unlisted rfl) (by rw [AttributeBody.name, record]; decide)
  have decoded' := decoded
  rw [← decodeWith_of_not_record room₀ fun _ => other] at decoded
  rw [← decodeWith_of_not_record room fun _ => renamed ▸ other]
  refine decodeWith_copied covers window addressable renamed ?_ decoded plain.movable length spells
  rw [renamed, ← (decodedFrom_of_decode decoded').name]
  cases unknown : a.body.isUnknown with
  | true =>
      exact iff_of_false (not_defined_of_unlisted (plain.unlisted unknown))
        (not_defined_of_unlisted (plain.unlisted unknown))
  | false =>
      refine iff_of_true ?_ (plain.defined unknown)
      cases found : layout? ctx₀ room₀ env₀ with
      | none =>
          rw [found] at decoded
          have kept := (@of_decodeWith _ _ _ _ (fun body => body.isUnknown = true)
            (fun _ given => by cases given) (fun _ => rfl) decoded).2
          exact absurd (kept.symm.trans unknown) (by decide)
      | some read => exact (decodedFrom_of_decode decoded').name ▸ defined_of_layout? found

/-- A record, whose components are read as they were. -/
theorem decode_copied_record {components : List RecordComponent}
    (same : a.body = .record components)
    (whole : ctx₀.input.options.has .dropUnknownAttributes = false) (held : ctx.holder = .class)
    (retained : ∀ c ∈ components, RetainedComponent ctx.input room c) :
    ∃ a', decode ctx room env = .ok a' ∧ a'.body.bare = a.body.bare := by
  have record : env.name.text = "Record" := by rw [named, Attribute.name, same, AttributeBody.name]
  have record₀ : env₀.name.text = "Record" := by
    rw [← (decodedFrom_of_decode decoded).name, ← named, record]
  by_cases held₀ : ctx₀.holder = .class
  · rw [decode_eq, reader?, if_pos record₀, if_pos held₀] at decoded
    obtain ⟨d, given, done⟩ := of_decodeWith_some window decoded
    have follows : Follows ctx₀.input.cursor ctx.input.cursor (· = .record components)
        (do return AttributeBody.record (← Scan.counted (readComponent ctx₀.input room₀)))
        (do return AttributeBody.record (← Scan.counted (readComponent ctx.input room)))
        (Same AttributeBody.bare) := by
      refine (follows_readComponent covers addressable whole room₀ room).counted.map
        (fun cs kept => ?_) fun cs cs' all => ?_
      · cases kept
        exact retained
      · rw [Same, AttributeBody.bare, AttributeBody.bare, RecordComponent.bareAll_eq_map,
          RecordComponent.bareAll_eq_map, map_eq_of_same all]
    obtain ⟨q, -, inside, rfl, -, parses⟩ :=
      follows.advances window (Nat.le_add_right _ _) given same
    rw [Scan.remaining_on window inside] at done
    obtain rfl : q = env₀.offset + env₀.length := by omega
    rw [decode_eq, reader?, if_pos record, if_pos held]
    refine decodeWith_of_fills addressable parses.fills ?_ spells
    rw [Cursor.length_segment window.inside, Nat.add_sub_cancel_left, length]
  · rw [decode_eq, reader?, if_pos record₀, if_neg held₀] at decoded
    have kept := (@of_decodeWith _ _ _ _ (fun body => body.isUnknown = true)
      (fun _ given => by cases given) (fun _ => rfl) decoded).2
    rw [same] at kept
    cases kept

end Copied

/-- An attribute that is copied into a table of the same kind says what it did, unless it is a body
or points into one. -/
theorem decode_copied {ctx₀ ctx : Context} {room : Nat} {env₀ env : Envelope} {a : Attribute}
    (covers : ctx.input.Covers ctx₀.input) (held : ctx.holder = ctx₀.holder)
    (whole₀ : ctx₀.input.options.has .dropUnknownAttributes = false)
    (whole : ctx.input.options.has .dropUnknownAttributes = false)
    (window : Window ctx₀.input.cursor (env₀.offset + env₀.length))
    (addressable : ctx.input.cursor.Addressable) (decoded : decode ctx₀ room env₀ = .ok a)
    (named : env.name.text = env₀.name.text) (length : env.length = env₀.length)
    (spells : ctx.input.cursor.Spells env.offset
      (ctx₀.input.cursor.segment env₀.offset (env₀.offset + env₀.length)))
    (code : ∀ c, a.body ≠ .code c) (stackMap : ∀ frames, a.body ≠ .stackMapTable frames) :
    ∃ a', decode ctx room env = .ok a' ∧ a'.body.bare = a.body.bare := by
  have called := named.trans (decodedFrom_of_decode decoded).name.symm
  by_cases record : ctx₀.holder = .class ∧ env₀.name.text = "Record"
  · obtain ⟨class₀, record⟩ := record
    have reader := decoded
    rw [decode_eq, reader?, if_pos record, if_pos class₀] at reader
    obtain ⟨d, given, -⟩ := of_decodeWith_some window reader
    obtain ⟨components, d', read, wrapped⟩ := Scan.bind_eq_ok_iff.mp given
    have same := (Scan.pure_eq_ok_iff.mp wrapped).1
    have retained := ((returns_readComponent ctx₀.input whole room).counted _ _ _ read).2
    exact decode_copied_record covers window addressable decoded called length spells same whole₀
      (held.trans class₀) retained
  · have other₀ : ctx₀.holder = .class → env₀.name.text ≠ "Record" :=
      fun class₀ same => record ⟨class₀, same⟩
    have other : ctx.holder = .class → env.name.text ≠ "Record" := held ▸ named ▸ other₀
    have movable := movable_of_decode decoded code stackMap
    rw [← decodeWith_of_not_record room other₀] at decoded
    rw [← decodeWith_of_not_record room other]
    exact decodeWith_copied covers window addressable named (held ▸ named ▸ Iff.rfl) decoded movable
      length spells

/-- A place that the attribute remembers in an input is where it was decoded from. -/
def Authentic (parent : Input) (a : Attribute) : Prop :=
  ∀ span, a.span = some span → span.origin = parent.origin → ∃ ctx room env,
    ctx.input = parent ∧ env.offset = span.offset ∧ env.length = span.length ∧
      env.offset + env.length ≤ parent.cursor.size ∧ decode ctx room env = .ok a

end Attribute

namespace Emit

variable {σ : Type} {p : PoolBuilder} {options : Options} {holder : Holder} {room : Nat}
  {offsets : Option Offsets} {code : InputCode → Emit σ Bytes} {a : Attribute}

/-- What writing an attribute of an earlier input relies on: options are those of the input that the
pool started from, and what its attributes remember is true. -/
structure Trusts (p : PoolBuilder) (options : Options) (a : Attribute) : Prop where
  options : ∀ parent, p.parent = some parent → parent.options = options
  addressable : ∀ parent, p.parent = some parent → parent.cursor.Addressable
  authentic : ∀ parent, p.parent = some parent → a.Authentic parent

/-- The bytes are those that the attribute was decoded from, in the input that the pool started
from. -/
def Held (p : PoolBuilder) (options : Options) (a : Attribute) (bytes : Bytes) : Prop :=
  ∃ span parent, a.span = some span ∧ p.parent = some parent ∧ span.origin = parent.origin ∧
    a.body.copies options = true ∧
    bytes = parent.cursor.segment span.offset (span.offset + span.length)

/-- What is copied of an attribute are the bytes that it was decoded from in the input that the pool
started from. -/
theorem Lays.copied (trusts : Trusts p options a) :
    Lays p options (copied? a : Emit σ (Option Bytes))
      fun _ out => ∀ bytes, out = some bytes → Held p options a bytes := by
  intro s grown sound same
  suffices ∃ out, Writes s (copied? a) out s ∧ ∀ bytes, out = some bytes → Held p options a bytes by
    obtain ⟨out, writes, holds⟩ := this
    exact .inr ⟨out, s, writes, .refl _, sound, same, fun _ _ => holds⟩
  rw [copied?]
  cases place : a.span with
  | none => exact ⟨none, Writes.session.bind (.pure none), nofun⟩
  | some span =>
      cases known : s.pool.parent with
      | none => exact ⟨none, Writes.session.bind (by simp only [known]; exact .pure none), nofun⟩
      | some parent =>
          by_cases owned : (span.origin = parent.origin && a.body.copies options) = true
          · have both := owned
            rw [Bool.and_eq_true, decide_eq_true_eq] at both
            have start := grown.parent ▸ known
            obtain ⟨-, -, env, -, offset, length, inside, -⟩ :=
              trusts.authentic parent start span place both.1
            rw [offset, length] at inside
            have slice : parent.slice span.offset span.length =
                .ok (parent.cursor.segment span.offset (span.offset + span.length)) :=
              Layout.covered_eq_ok_iff.mpr (Cursor.slice?_eq_some_iff.mpr ⟨inside, rfl⟩)
            have took : Writes s (do return some (← liftM (parent.slice span.offset span.length)) :
                Emit σ (Option Bytes)) _ s := .map (Writes.liftM slice)
            refine ⟨some (parent.cursor.segment span.offset (span.offset + span.length)),
              Writes.session.bind ?_, fun bytes given => ?_⟩
            · simp only [known, same, owned, ↓reduceIte]
              exact took
            · exact ⟨span, parent, place, start, both.1, both.2, (Option.some.inj given).symm⟩
          · refine ⟨none, Writes.session.bind ?_, nofun⟩
            simp only [known, same, owned, Bool.false_eq_true, ↓reduceIte]
            exact .pure none

/-- Copied bytes are decoded as the attribute that they were decoded from, since the input that they
are read in covers the one that they come from. -/
theorem restored_of_held {q : PoolBuilder} {bytes : Bytes} (trusts : Trusts p options a)
    (becomes : p.Becomes q) (held : Held p options a bytes) (valid : a.body.Valid holder room) :
    Restored q holder room a.body bytes := by
  obtain ⟨span, parent, place, start, owned, copies, rfl⟩ := held
  obtain ⟨ctx₀, room₀, env₀, rfl, offset, length, inside, decoded⟩ :=
    trusts.authentic parent start span place owned
  rw [← offset, ← length]
  intro ctx env reads here familiar named length spells
  subst here
  have covers := reads.covers (becomes.grown.parent.trans start)
  have window : Window ctx₀.input.cursor (env₀.offset + env₀.length) :=
    ⟨inside, trusts.addressable _ start⟩
  rw [Cursor.length_segment inside, Nat.add_sub_cancel_left] at length
  cases same : a.body with
  | record components =>
      rw [same] at valid familiar copies
      have whole : ctx₀.input.options.has .dropUnknownAttributes = false := by
        rw [trusts.options _ start]
        simpa [AttributeBody.copies] using copies
      rw [← same]
      refine decode_copied_record covers window reads.addressable decoded named length spells same
        whole
        valid.1 fun c member => ?_
      obtain ⟨deeper, rfl, fits⟩ := valid.2.2 c member
      exact retained_of_fits fits fun drops => familiar drops c member
  | _ =>
      rw [same] at valid
      rw [← same]
      exact decode_copied_plain covers window reads.addressable decoded named length spells
        (same ▸ valid)

/-! ## Written attributes -/

/-- Writes an attribute, or copies it from the input that the pool started from. -/
def attributeRow (offsets : Option Offsets) (code : InputCode → Emit σ Bytes) (a : Attribute) :
    Emit σ Bytes :=
  named a.name do
    match ← copied? a with
    | some bytes => return bytes
    | none => attributeBody offsets code a.body

/-- An attribute as the table of a component takes it. -/
def attributeItem (offsets : Option Offsets) (code : InputCode → Emit σ Bytes) (a : Attribute) :
    Item σ where
  name := a.name
  repeatable := a.body.repeatable
  write := attributeRow offsets code a

/-- Attributes are written as items of the table of a component, one for each of them. -/
theorem attributeItems_eq (offsets : Option Offsets) (code : InputCode → Emit σ Bytes)
    (as : List (Option Attribute)) :
    attributeItems offsets code as = as.map (Option.map (attributeItem offsets code)) := by
  induction as with
  | nil => rw [attributeItems, List.map_nil]
  | cons a rest inductionHypothesis =>
      rcases a with _ | ⟨span, body⟩ <;>
        rw [attributeItems, inductionHypothesis, List.map_cons] <;> rfl

/-- The bytes are a header and a body that decoding gives the attribute back from. -/
def Says (q : PoolBuilder) (holder : Holder) (room : Nat) (a : Attribute) (text : Bytes) : Prop :=
  ∃ (n : Nat) (bytes : Bytes), text = u2 n ++ u4 bytes.length ++ bytes ∧
    q.Denotes n (.utf8 ⟨default, a.name⟩) ∧ bytes.length ≤ maxLength ∧
    Restored q holder room a.body bytes

/-- Names of known layouts can be written. -/
theorem decodes_of_listed {name : Text} (listed : name ∈ catalogue.map Prod.fst) :
    name.Decodes := by
  have all : ∀ name ∈ catalogue.map Prod.fst,
      ModifiedUtf8.decode? (ModifiedUtf8.encode name) = some name := by
    decide +kernel
  exact all name listed

/-- The name of an attribute without components can be stored: it is one of the catalogue, or it was
told to. -/
theorem decodes_of_plain {body : AttributeBody} (plain : body.Plain holder room) :
    body.name.Decodes := by
  have fits := plain.fits
  cases unknown : body.isUnknown with
  | false =>
      obtain ⟨row, member, same, -⟩ := plain.defined unknown
      exact same ▸ decodes_of_listed (List.mem_map_of_mem member)
  | true =>
      cases body <;> first | exact fits | cases unknown

/-- The name of a valid attribute can be stored. -/
theorem decodes_of_valid {body : AttributeBody} (valid : body.Valid holder room) :
    body.name.Decodes := by
  cases body with
  | record =>
      have listed : ("Record" : Text) ∈ catalogue.map Prod.fst := by decide
      exact decodes_of_listed listed
  | _ => exact decodes_of_plain valid

/-- An attribute says the same once it is written, if its body is restored where it is not
copied. -/
theorem lays_attributeRow (trusts : Trusts p options a) (valid : a.body.Valid holder room)
    (restores : Restores p options holder room (attributeBody offsets code a.body) a.body) :
    Lays p options (attributeRow offsets code a) fun q => Says q holder room a := by
  refine Lays.named (decodes_of_valid valid) ((Lays.copied trusts).bind fun out => ?_)
  cases out with
  | none => exact restores.mono fun _ _ _ restored _ => restored
  | some bytes => exact .pure fun q becomes held =>
      restored_of_held trusts becomes (held bytes rfl) valid

/-! ## Records -/

/-- Every input that reads the pool parses the bytes as the component, unless unknown attributes are
left out that it has. -/
def Tells (q : PoolBuilder) (room : Nat) (c : RecordComponent) (text : Bytes) : Prop :=
  ∀ i : Input, i.Reads q →
    (i.options.has .dropUnknownAttributes = true →
      ∀ a, some a ∈ c.attributes → a.body.isUnknown = false) →
    Parses i.cursor (readComponent i room) text fun c' => c'.bare = c.bare

/-- The index of a text is taken for the text. -/
theorem refer_of_denotes {q : PoolBuilder} {n : Nat} {text : Text}
    (denotes : q.Denotes n (.utf8 ⟨default, text⟩)) {i : Input} (reads : i.Reads q) :
    n < 65536 ∧ ∃ name, (∀ offset, i.pool.refer Entry.utf8? offset n = .ok name) ∧
      name.text = text := by
  obtain ⟨small, -, name, referred, same⟩ :=
    reads.refer Entry.blind_utf8? (e := .utf8 ⟨default, text⟩) rfl denotes
  exact ⟨small, name, referred, Utf8Entry.bare_eq_iff.mp same⟩

/-- A row of a component's table is read back as its attribute. -/
theorem Says.parses {q : PoolBuilder} {text : Bytes} (stated : Says q .component room a text)
    (plain : a.body.Plain .component room) {i : Input} (reads : i.Reads q)
    (familiar : i.options.has .dropUnknownAttributes = true → a.body.isUnknown = false) :
    Parses i.cursor (readTableRow (componentContext i) (decode (componentContext i) room)) text
      fun out => out.map Attribute.bare = some a.bare := by
  obtain ⟨n, body, rfl, denotes, short, restored⟩ := stated
  obtain ⟨index, name, named, called⟩ := refer_of_denotes denotes reads
  refine (@parses_readTableRow (componentContext i) _ n name body
    (fun a' => a'.body.bare = a.body.bare) index named short rfl (fun start spells => ?_)
    fun a' same => ?_).mono ?_
  · exact restored (componentContext i) ⟨name, start, body.length⟩ reads rfl
      (fun _ => plain.familiar) called rfl spells
  · rw [← AttributeBody.isUnknown_bare, same, AttributeBody.isUnknown_bare]
    refine Bool.and_eq_false_iff.mpr ?_
    cases drops : i.options.has .dropUnknownAttributes with
    | true => exact .inl (familiar drops)
    | false => exact .inr drops
  · rintro _ ⟨a', rfl, same⟩
    rw [Option.map_some, Attribute.bare_eq, Attribute.bare_eq, same]

/-- No attribute of a component that fits is missing. -/
theorem attributes_of_fits {c : RecordComponent} (fits : c.Fits room) : ∃ as : List Attribute,
    c.attributes = as.map some ∧ as.length ≤ maxCount ∧
      (as.Pairwise fun a b => b.body.repeatable = true ∨ a.name ≠ b.name) ∧
      ∀ a ∈ as, a.body.Plain .component room := by
  have there : ∀ a ∈ c.attributes, a.isSome := fun a member => by
    obtain ⟨_, rfl, -⟩ := fits.plain a member
    rfl
  have same : (c.attributes.filterMap id).map some = c.attributes := by
    rw [List.map_filterMap_some_eq_filter_map_isSome, List.map_id, List.filter_eq_self.mpr there]
  refine ⟨_, same.symm, ?_, ?_, fun a member => ?_⟩
  · have few := fits.few
    rwa [← same, List.length_map] at few
  · have once := fits.once
    rw [← same, List.pairwise_map] at once
    exact once.imp fun apart => apart _ rfl _ rfl
  · obtain ⟨there, found, plain⟩ := fits.plain (some a) (same ▸ List.mem_map_of_mem member)
    exact Option.some.inj found ▸ plain

/-- A table mentions what the bodies of its attributes mention. -/
theorem mentionsAll_map_some (mentioned : InputCode → List Entry) (as : List Attribute) :
    Attribute.mentionsAll mentioned (as.map some) =
      as.flatMap fun a => a.body.mentionsWith mentioned := by
  induction as with
  | nil => rfl
  | cons a rest inductionHypothesis =>
      cases a
      rw [List.map_cons, Attribute.mentionsAll, inductionHypothesis, List.flatMap_cons,
        Attribute.mentionsWith]
      rfl

/-- Leaving out rows and forgetting places can be done in either order. -/
theorem map_filterMap_bare (outs : List (Option Attribute)) :
    (outs.filterMap id).map Attribute.bare =
      (outs.map (Option.map Attribute.bare)).filterMap id := by
  rw [List.map_filterMap, List.filterMap_map]
  rfl

/-- The table of a component is read back, unless unknown attributes are left out that it has. -/
theorem lays_attributes {mentioned : InputCode → List Entry} {as : List Attribute}
    (few : as.length ≤ maxCount)
    (once : as.Pairwise fun a b => b.body.repeatable = true ∨ a.name ≠ b.name)
    (plain : ∀ a ∈ as, a.body.Plain .component room) (trusts : ∀ a ∈ as, Trusts p options a)
    (accepted : ∀ a ∈ as, ∀ m ∈ a.body.mentionsWith mentioned, m.Accepted p) :
    Lays p options (itemTable (attributeItems offsets code (as.map some)) : Emit σ Bytes)
      fun q text =>
      ∀ i : Input, i.Reads q →
        (i.options.has .dropUnknownAttributes = true → ∀ a ∈ as, a.body.isUnknown = false) →
        Parses i.cursor (readTable (componentContext i) (decode (componentContext i) room)) text
          fun as' => as'.map Attribute.bare = as.map Attribute.bare := by
  rw [attributeItems_eq, List.map_map]
  have table : Lays p options (itemTable (as.map fun a => some (attributeItem offsets code a)))
      fun q text => ∃ chunks, text = u2 as.length ++ chunks.flatten ∧
        List.Forall₂ (Says q .component room) as chunks :=
    Lays.itemTable few (fun a member => lays_attributeRow (trusts a member) (plain a member).valid
      (restores_plain (plain a member) (accepted a member))) once
  refine table.mono ?_
  rintro q _ - ⟨chunks, rfl, all⟩ i reads familiar
  have rows : List.Forall₂ (fun a chunk => Parses i.cursor
      (readTableRow (componentContext i) (decode (componentContext i) room)) chunk
      fun out => out.map Attribute.bare = some a.bare) as chunks := by
    refine ((List.forall₂_and_left (p := (· ∈ as)) as chunks).mpr ⟨fun _ => id, all⟩).imp ?_
    exact fun a chunk ⟨member, stated⟩ =>
      stated.parses (plain a member) reads fun drops => familiar drops a member
  refine (Parses.counted (by rw [maxCount] at few; omega) (.times rows)).map fun outs same => ?_
  rw [map_filterMap_bare, same]
  simp

/-- Components are told one after another. -/
theorem lays_recordComponents {mentioned : InputCode → List Entry} {cs : List RecordComponent}
    (fits : ∀ c ∈ cs, ∃ deeper, room = deeper + 1 ∧ c.Fits deeper)
    (trusts : ∀ c ∈ cs, ∀ a, some a ∈ c.attributes → Trusts p options a)
    (accepted : ∀ m ∈ RecordComponent.mentionsWith mentioned cs, m.Accepted p) :
    Lays p options (recordComponents offsets code cs : Emit σ Bytes) fun q text => ∃ chunks,
      text = chunks.flatten ∧ List.Forall₂ (Tells q room) cs chunks := by
  induction cs with
  | nil =>
      rw [recordComponents]
      exact .pure fun _ _ => ⟨[], rfl, .nil⟩
  | cons c rest inductionHypothesis =>
      rw [List.forall_mem_cons] at fits trusts
      obtain ⟨⟨room, rfl, here⟩, fits⟩ := fits
      obtain ⟨trust, trusts⟩ := trusts
      obtain ⟨as, same, few, once, plain⟩ := attributes_of_fits here
      obtain ⟨name, descriptor, _⟩ := c
      obtain rfl : _ = as.map some := same
      rw [RecordComponent.mentionsWith, List.forall_mem_append, List.forall_mem_append,
        List.forall_mem_append, mentionsAll_map_some] at accepted
      obtain ⟨⟨⟨named, described⟩, mentions⟩, accepted⟩ := accepted
      rw [recordComponents]
      refine (Means.refUtf8 here.named named).bind fun front => ?_
      refine (Means.refUtf8 here.described described).bind fun middle => ?_
      refine (lays_attributes few once plain (fun a member => trust a (List.mem_map_of_mem member))
        fun a member m there => mentions m (List.mem_flatMap.mpr ⟨a, member, there⟩)).bind
          fun table => ?_
      refine (inductionHypothesis fits trusts accepted).bind fun others => .pure ?_
      rintro q _ ⟨chunks, rfl, all⟩ rows second first
      refine ⟨(front ++ middle ++ table) :: chunks, rfl, .cons (fun i reads familiar => ?_) all⟩
      rw [readComponent_succ, List.append_assoc]
      refine (first i reads).bind fun t sameName => (second i reads).bind fun d sameDescriptor => ?_
      refine (rows i reads fun drops a member => familiar drops a (List.mem_map_of_mem member)).map
        fun as' sameAttributes => ?_
      rw [RecordComponent.bare, RecordComponent.bare, Option.map_some, Option.map_some, sameName,
        sameDescriptor, map_some_bare, map_some_bare, sameAttributes]
      rfl

/-! ## All attributes -/

/-- The attributes that are written as part of a body. -/
def parts : AttributeBody → List Attribute
  | .record components => components.flatMap fun c => c.attributes.filterMap id
  | _ => []

/-- The body of a valid attribute is restored where it is written anew. -/
theorem restores_body {mentioned : InputCode → List Entry} {body : AttributeBody}
    (valid : body.Valid holder room) (trusts : ∀ a ∈ parts body, Trusts p options a)
    (accepted : ∀ m ∈ body.mentionsWith mentioned, m.Accepted p) :
    Restores p options holder room (attributeBody offsets code body) body := by
  cases body with
  | record components =>
      obtain ⟨rfl, few, fits⟩ := valid
      have trusts (c : RecordComponent) (member : c ∈ components) (a : Attribute)
          (there : some a ∈ c.attributes) : Trusts p options a :=
        trusts a (List.mem_flatMap.mpr ⟨c, member, List.mem_filterMap.mpr ⟨_, there, rfl⟩⟩)
      rw [attributeBody]
      refine (Lays.count few).bind fun n => (lays_recordComponents fits trusts accepted).bind
        fun text => .pure ?_
      rintro q _ ⟨chunks, rfl, all⟩ rfl ctx env reads held familiar called length spells
      have row : List.Forall₂ (fun c chunk => Parses ctx.input.cursor (readComponent ctx.input room)
          chunk fun c' => c'.bare = c.bare) components chunks := by
        refine ((List.forall₂_and_left (p := (· ∈ components)) components chunks).mpr
          ⟨fun _ => id, all⟩).imp ?_
        exact fun c chunk ⟨member, tells⟩ =>
          tells ctx.input reads fun drops => familiar drops c member
      rw [maxCount] at few
      have parses : Parses ctx.input.cursor
          (do return AttributeBody.record (← Scan.counted (readComponent ctx.input room)))
          (u2 components.length ++ chunks.flatten) fun body =>
          body.bare = .bare (.record components) :=
        (Parses.counted (by omega) (.times row)).map fun cs same => by
          rw [AttributeBody.bare, AttributeBody.bare, RecordComponent.bareAll_eq_map,
            RecordComponent.bareAll_eq_map, same]
      have called : env.name.text = "Record" := called
      rw [decode_eq, reader?, if_pos called, if_pos held]
      exact decodeWith_of_fills reads.addressable parses.fills length spells
  | _ => exact restores_plain valid accepted

/-- Decoding takes the whole body. -/
structure Takes (ctx : Context) (room : Nat) (env : Envelope) (a : Attribute) : Prop where
  decoded : decode ctx room env = .ok a
  span : a.span = some ⟨ctx.input.origin, env.offset, env.length⟩
  whole : ∀ read, reader? ctx room env = some read → ∃ d,
    Scan.onWindow ctx.input.cursor env.offset (env.offset + env.length) read = .ok (a.body, d) ∧
      d.remaining = 0

/-- Whatever is decoded has been read to its end. -/
theorem takes_of_decode {ctx : Context} {env : Envelope} (decoded : decode ctx room env = .ok a) :
    Takes ctx room env a where
  decoded := decoded
  span := (decodedFrom_of_decode decoded).span
  whole read found := by
    rw [decode_eq, found] at decoded
    exact onWindow_of_decodeWith decoded

/-- Wherever an input that reads the pool spells the bytes, their header names the attribute, and
decoding their body takes all of it and gives what denotes the same, unless unknown attributes are
left out that the attribute holds. -/
def ReadsBack (q : PoolBuilder) (holder : Holder) (room : Nat) (a : Attribute) (text : Bytes) :
    Prop :=
  ∃ (n : Nat) (body : Bytes), text = u2 n ++ u4 body.length ++ body ∧ body.length ≤ maxLength ∧
    ∀ ctx : Context, ctx.input.Reads q → ctx.holder = holder →
    (ctx.input.options.has .dropUnknownAttributes = true → a.body.Familiar) →
    ∀ start, ctx.input.cursor.Spells start text →
    ∃ name a', ctx.input.cursor.u2? start = some n ∧
      ctx.input.cursor.u4? (start + 2 : Nat) = some body.length ∧
      ctx.input.pool.refer Entry.utf8? start n = .ok name ∧ name.text = a.name ∧
      Takes ctx room ⟨name, start + 6, body.length⟩ a' ∧ a'.bare = a.bare

/-- A valid attribute is written so that it reads back from every later state of the pool, or it is
too long to be written. -/
theorem attribute_reads_back {s : Session σ} {mentioned : InputCode → List Entry}
    (sound : s.pool.Sound) (valid : a.body.Valid holder room)
    (trusts : ∀ b ∈ a :: parts a.body, Trusts s.pool s.options b)
    (accepted : ∀ m ∈ a.mentionsWith mentioned, m.Accepted s.pool) :
    (∃ name n s', maxLength < n ∧ finish (attributeRow offsets code a) s =
      (.error (.misuse (.attributeLength name n)), s')) ∨
    ∃ text s', finish (attributeRow offsets code a) s = (.ok text, s') ∧
      s.pool.Extends s'.pool none ∧ s'.pool.Sound ∧
      ∀ q, s'.pool.Becomes q → ReadsBack q holder room a text := by
  obtain ⟨trust, trusts⟩ := List.forall_mem_cons.mp trusts
  obtain ⟨span, value⟩ := a
  rw [Attribute.mentionsWith] at accepted
  have restores : Restores s.pool s.options holder room (attributeBody offsets code value) value :=
    restores_body valid trusts accepted
  rcases lays_attributeRow trust valid restores s (.refl _) sound rfl with
    refuses | ⟨text, s', writes, grown, sound', -, stated⟩
  · exact .inl refuses.finish
  refine .inr ⟨text, s', writes.finish, grown, sound', fun q becomes => ?_⟩
  obtain ⟨n, body, rfl, denotes, short, restored⟩ := stated q becomes
  refine ⟨n, body, rfl, short, fun ctx reads held familiar start spells => ?_⟩
  obtain ⟨index, name, named, called⟩ := refer_of_denotes denotes reads
  obtain ⟨header, there⟩ := Cursor.spells_append_iff.mp spells
  obtain ⟨nameAt, lengthAt⟩ := Cursor.spells_append_iff.mp header
  simp only [List.length_append, length_u2, length_u4] at there lengthAt
  obtain ⟨a', decoded, same⟩ :=
    restored ctx ⟨name, start + 6, body.length⟩ reads held familiar called
    rfl there
  rw [maxLength] at short
  refine ⟨name, a', nameAt.u2_of_lt index, lengthAt.u4_of_lt (by omega), named start, called,
    takes_of_decode decoded, ?_⟩
  rw [Attribute.bare_eq, same, Attribute.bare]
  rfl

section One

variable {s s' : Session σ} {entry : Utf8Entry} {body bytes : Bytes}

/-- An attribute whose name is looked up first, and whose body is written then. -/
theorem Writes.attributeRow (asked : PoolBuilder.utf8 a.name s.pool = (entry, p))
    (filled : Writes { s with pool := p } (contents offsets code a) body s')
    (fits : body.length ≤ maxLength) :
    Writes s (attributeRow offsets code a) (u2 entry.place.index ++ (u4 body.length ++ body)) s' :=
  .bind (.map (.interning asked)) (.bind filled (.bind (.sized fits) (.bind .settle (.pure _))))

/-- What is not decoded from anywhere is written anew. -/
theorem Writes.contents {value : AttributeBody}
    (writes : Writes s (attributeBody offsets code value) body s') :
    Writes s (contents offsets code (.mk none value)) body s' :=
  .bind (a := none) (.bind .session (.pure _)) writes

/-- What was written of a table is put together where nothing is left of it. -/
theorem Writes.itemsAfter_nil (seen : List Text) (done : List Bytes) :
    Writes s (itemsAfter seen done ([] : List (Option (Item σ)))) done.reverse.flatten s :=
  .bind .settle (.pure _)

/-- An attribute that may stand there is written before those after it. -/
theorem Writes.itemsAfter_cons {seen : List Text} {done : List Bytes} {i : Item σ}
    {rest : List (Option (Item σ))} {s'' : Session σ} {out : Bytes}
    (new : (seen.contains i.name && !i.repeatable) = false) (first : Writes s i.write bytes s')
    (others : Writes s' (itemsAfter (i.name :: seen) (bytes :: done) rest) out s'') :
    Writes s (itemsAfter seen done (some i :: rest)) out s'' := by
  rw [itemsAfter, new, if_neg Bool.false_ne_true]
  exact .bind first others

/-- A table of one attribute. -/
theorem Writes.itemTable (writes : Writes s (Emit.attributeRow offsets code a) bytes s') :
    Writes s (itemTable (attributeItems offsets code [some a])) (u2 1 ++ bytes) s' := by
  rw [attributeItems_eq]
  have rows : Writes s (itemsAfter [] [] [some (attributeItem offsets code a)])
      [bytes].reverse.flatten s' := .itemsAfter_cons rfl writes (.itemsAfter_nil _ _)
  have whole : [bytes].reverse.flatten = bytes := by simp
  rw [whole] at rows
  exact .bind (.count (Nat.le_add_left 1 65534)) (.map rows)

end One

/-- A record of another input, with a component that has a signature and an unknown attribute. -/
def pairRecord : Attribute :=
  .mk none (.record [.mk (some ⟨⟨.input 3, 7⟩, "first"⟩)
    (some ⟨⟨.input 3, 8⟩, "Ljava/lang/Object;"⟩)
    [some (.mk none (.signature (some ⟨⟨.input 3, 9⟩, "TA;"⟩))),
      some (.mk none (.unknown "Probe" [1, 2]))]])

/-- The texts that the record refers to, in the order in which they are written. -/
def pairTexts : List Text := ["Record", "first", "Ljava/lang/Object;", "Signature", "TA;", "Probe"]

/-- The texts can be stored and read back. -/
theorem stored_pairTexts : ∀ text ∈ pairTexts,
    ModifiedUtf8.decode? (ModifiedUtf8.encode text) = some text ∧
      (ModifiedUtf8.encode text).length ≤ PoolBuilder.maxTextLength := by
  decide +kernel

/-- The record is valid in a class. -/
theorem valid_pairRecord : pairRecord.body.Valid .class maxNesting := by
  refine ⟨rfl, by decide, fun c member => ⟨63, rfl, ?_⟩⟩
  obtain rfl := List.mem_singleton.mp member
  refine ⟨rfl, rfl, by decide, ?_, fun a there => ?_⟩
  · refine .cons (fun b member first same second same' => ?_) (.cons nofun .nil)
    obtain rfl := List.mem_singleton.mp member
    cases same'
    exact .inl rfl
  · rcases List.mem_cons.mp there with rfl | there
    · exact ⟨_, rfl, fun _ => by decide, nofun, rfl, trivial⟩
    · obtain rfl := List.mem_singleton.mp there
      have named := (stored_pairTexts "Probe" (by decide)).1
      exact ⟨_, rfl, nofun, fun _ => by decide, named, trivial⟩

/-- A pool under construction takes all constants of the record, since they are those of another
input. -/
theorem accepted_pairRecord : ∀ m ∈ pairRecord.mentionsWith fun _ => [], m.Accepted .empty := by
  intro m member
  rcases List.mem_cons.mp member with rfl | member
  · exact (stored_pairTexts "first" (by decide)).1
  rcases List.mem_cons.mp member with rfl | member
  · exact (stored_pairTexts "Ljava/lang/Object;" (by decide)).1
  obtain rfl := List.mem_singleton.mp member
  exact (stored_pairTexts "TA;" (by decide)).1

/-- A text of another input is entered where it is referred to. -/
theorem Writes.refUtf8 {s : Session σ} {e entry : Utf8Entry} {q : PoolBuilder}
    (foreign : s.pool.owns e.place.origin = false)
    (asked : PoolBuilder.utf8 e.text s.pool = (entry, q)) :
    Writes s (refUtf8 (some e)) (u2 entry.place.index) { s with pool := q } := by
  have found : PoolBuilder.indexOf (.utf8 e) s.pool = (entry.place.index, q) := by
    have apart : s.pool.owns (Entry.utf8 e).place.origin = false := foreign
    rw [PoolBuilder.indexOf, bind_apply, get_apply]
    simp only [apart, Bool.false_eq_true, ↓reduceIte]
    rw [bind_apply, asked]
    rfl
  exact .map (.interning found)

/-- The session when the first texts have been entered. -/
abbrev pairSession (n : Nat) : Session Unit := Build.start .none (.ofTexts (pairTexts.take n)) ()

/-- Each of the texts is entered after those before it. -/
theorem utf8_pairTexts {n : Nat} (inside : n < pairTexts.length) :
    PoolBuilder.utf8 (pairTexts[n]) (pairSession n).pool =
      (⟨⟨.output, n + 1⟩, pairTexts[n]⟩, (pairSession (n + 1)).pool) := by
  have new : pairTexts.Nodup := by decide
  have ahead : (pairTexts.take n).length = n := List.length_take_of_le (Nat.le_of_lt inside)
  have grown : pairTexts.take (n + 1) = pairTexts.take n ++ [pairTexts[n]] := by
    rw [List.take_add_one, List.getElem?_eq_getElem inside, Option.toList_some]
  have fresh : pairTexts[n] ∉ pairTexts.take n := by
    have split := new.sublist (List.take_sublist (n + 1) pairTexts)
    rw [grown, List.nodup_append] at split
    exact fun member => split.2.2 _ member _ (List.mem_singleton_self _) rfl
  have asked := PoolBuilder.utf8_ofTexts fresh
    (by rw [ahead]; exact Nat.le_trans (Nat.add_le_add_right (Nat.le_of_lt inside) 2) (by decide))
    (stored_pairTexts _ (List.getElem_mem _)).2
  rw [ahead, ← grown] at asked
  exact asked

/-- A reference to the next of the texts, from another input. -/
theorem writes_pairTexts {n : Nat} (inside : n < pairTexts.length) {e : Utf8Entry}
    (foreign : e.place.origin = .input 3) (text : e.text = pairTexts[n]) :
    Writes (pairSession n) (refUtf8 (some e)) (u2 (n + 1 : Nat)) (pairSession (n + 1)) := by
  have apart : (pairSession n).pool.owns e.place.origin = false := by
    have orphan : (pairSession n).pool.parent = none := PoolBuilder.parent_ofTexts _
    rw [foreign, PoolBuilder.owns, orphan]
    rfl
  have asked : PoolBuilder.utf8 e.text (pairSession n).pool =
      (⟨⟨.output, n + 1⟩, pairTexts[n]⟩, (pairSession (n + 1)).pool) :=
    text ▸ utf8_pairTexts inside
  have written := Writes.refUtf8 apart asked
  exact written

/-- The first of the texts is entered into a pool that is empty. -/
theorem utf8_record : PoolBuilder.utf8 "Record" .empty =
    (⟨⟨.output, 1⟩, "Record"⟩, (pairSession 1).pool) := by
  have short : ¬PoolBuilder.maxTextLength < (ModifiedUtf8.encode "Record").length :=
    Nat.not_lt.mpr (stored_pairTexts "Record" (by decide)).2
  have opened : PoolBuilder.utf8 "Record" .empty = PoolBuilder.utf8 "Record" (.ofTexts []) := by
    simp only [PoolBuilder.utf8, if_neg short]
    rfl
  exact opened.trans (utf8_pairTexts (n := 0) (by decide))

/-- What is written where no body of code can be. -/
def codeless (_ : InputCode) : Emit Unit Bytes := pure []

/-- An attribute whose name is the next of the texts is written before its body. -/
theorem writes_pairRow {n : Nat} (inside : n < pairTexts.length) {value : AttributeBody}
    (text : value.name = pairTexts[n]) {body : Bytes} {s' : Session Unit}
    (filled : Writes (pairSession (n + 1)) (attributeBody none codeless value) body s')
    (fits : body.length ≤ maxLength) :
    Writes (pairSession n) (attributeRow none codeless (.mk none value))
      (u2 (n + 1 : Nat) ++ (u4 body.length ++ body)) s' := by
  have asked : PoolBuilder.utf8 value.name (pairSession n).pool =
      (⟨⟨.output, n + 1⟩, pairTexts[n]⟩, (pairSession (n + 1)).pool) :=
    text ▸ utf8_pairTexts inside
  have written := Writes.attributeRow (s := pairSession n) (a := .mk none value) asked
    filled.contents fits
  exact written

/-- What is written of the attributes of the component. -/
def pairTable : Bytes := u2 2 ++ [u2 4 ++ (u4 2 ++ u2 5), u2 6 ++ (u4 2 ++ [1, 2])].flatten

/-- The signature and the unknown attribute are written as a table. -/
theorem writes_pairTable : Writes (pairSession 3) (itemTable (attributeItems none codeless
    [some (.mk none (.signature (some ⟨⟨.input 3, 9⟩, "TA;"⟩))),
      some (.mk none (.unknown "Probe" [1, 2]))])) pairTable (pairSession 6) := by
  have signature : Writes (pairSession 3)
      (attributeRow none codeless (.mk none (.signature (some ⟨⟨.input 3, 9⟩, "TA;"⟩))))
      (u2 4 ++ (u4 2 ++ u2 5)) (pairSession 5) := by
    have text : Writes (pairSession 4) (refUtf8 (some ⟨⟨.input 3, 9⟩, "TA;"⟩)) (u2 5)
        (pairSession 5) := writes_pairTexts (by decide) rfl rfl
    have body : Writes (pairSession 4)
        (attributeBody none codeless (.signature (some ⟨⟨.input 3, 9⟩, "TA;"⟩))) (u2 5)
        (pairSession 5) := by
      rw [attributeBody]
      exact text
    have row := writes_pairRow (n := 3) (by decide) rfl body (by decide)
    exact row
  have probe : Writes (pairSession 5)
      (attributeRow none codeless (.mk none (.unknown "Probe" [1, 2])))
      (u2 6 ++ (u4 2 ++ [1, 2])) (pairSession 6) := by
    have body : Writes (pairSession 6) (attributeBody none codeless (.unknown "Probe" [1, 2]))
        [1, 2]
        (pairSession 6) := by
      rw [attributeBody]
      exact .pure _
    have row := writes_pairRow (n := 5) (by decide) rfl body (by decide)
    exact row
  rw [attributeItems_eq]
  have rows : Writes (pairSession 3) (itemsAfter [] [] [some (attributeItem none codeless _),
      some (attributeItem none codeless _)]) _ (pairSession 6) :=
    .itemsAfter_cons rfl signature (.itemsAfter_cons (by decide) probe (.itemsAfter_nil _ _))
  exact .bind (.count (by decide)) (.map rows)

/-- What is written of the component. -/
def pairBody : Bytes := u2 1 ++ (u2 2 ++ u2 3 ++ pairTable ++ [])

/-- What is written of the record. -/
def pairText : Bytes := u2 1 ++ (u4 pairBody.length ++ pairBody)

/-- The record is written, and its texts are entered on the way. -/
theorem writes_pairRecord : Writes (Build.start .none .empty ())
    (attributeRow none codeless pairRecord) pairText (pairSession 6) := by
  have name : Writes (pairSession 1) (refUtf8 (some ⟨⟨.input 3, 7⟩, "first"⟩)) (u2 2)
      (pairSession 2) := writes_pairTexts (by decide) rfl rfl
  have descriptor : Writes (pairSession 2) (refUtf8 (some ⟨⟨.input 3, 8⟩, "Ljava/lang/Object;"⟩))
      (u2 3) (pairSession 3) := writes_pairTexts (by decide) rfl rfl
  have components : Writes (pairSession 1) (attributeBody none codeless pairRecord.body)
      pairBody (pairSession 6) := by
    rw [pairRecord, Attribute.body, attributeBody, recordComponents, recordComponents]
    exact .bind (.count (by decide))
      (.map (.bind name (.bind descriptor (.bind writes_pairTable (.map (.pure _))))))
  have row := Writes.attributeRow (s := Build.start .none .empty ()) (a := pairRecord) utf8_record
    components.contents (by decide)
  exact row

/-- The record is written into a pool that is empty, and what was written is read back against each
later pool. -/
theorem pairRecord_reads_back : PoolBuilder.empty.Sound ∧ pairRecord.body.Valid .class maxNesting ∧
    finish (attributeRow none codeless pairRecord) (Build.start .none .empty ()) =
      (.ok pairText, pairSession 6) ∧
    PoolBuilder.empty.Extends (pairSession 6).pool none ∧ (pairSession 6).pool.Sound ∧
    ∀ q, (pairSession 6).pool.Becomes q → ReadsBack q .class maxNesting pairRecord pairText := by
  have written := writes_pairRecord.finish
  have read := @attribute_reads_back Unit .class maxNesting none codeless pairRecord
    (Build.start .none .empty ()) (fun _ => []) PoolBuilder.sound_empty valid_pairRecord
    (fun _ _ => ⟨nofun, nofun, nofun⟩) accepted_pairRecord
  rcases read with ⟨name, n, s', -, refused⟩ | ⟨text, s', same, grown, sound, reads⟩
  · cases written.symm.trans refused
  · cases written.symm.trans same
    exact ⟨PoolBuilder.sound_empty, valid_pairRecord, written, grown, sound, reads⟩

end Emit

end JvmClass
