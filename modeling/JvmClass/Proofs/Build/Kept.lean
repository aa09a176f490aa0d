import JvmClass.Proofs.Build.Reading
import JvmClass.Proofs.Build.Rebuild
import JvmClass.Proofs.Code.Rereading

/-!
# Rows and members that a rebuilt class keeps

A class that shares its pool is rebuilt with the rows of its bootstrap table, in their order and
before all others, as long as the table can be read. If one row cannot be read the class is not
rebuilt. A table that cannot be read at all is left out. A field, method or attribute that stands in
the result with the bytes that it has in the source is decoded as what it was, since its constants
are where they were.
-/

namespace JvmClass

open Attribute

variable {σ : Type} {c : ClassFile}

/-- What a row of an input denotes, the row of a class file denotes too that starts with the
constants and rows of the input. -/
theorem Layout.row_mirrored {i : Input} {q : PoolBuilder} {l : Layout} {origin : Origin}
    {rows : List BootstrapRow} (exact : i.Exact) (entered : PoolBuilder.RowsOf i rows)
    (kept : ∀ (r : Nat) (row : BootstrapRow), rows[r]? = some row → q.rows[r]? = some row)
    (inherits : l.Inherits i.layout) (hasRows : l.HasRows origin q) {r : Nat} {row : BootstrapRow}
    (here : rows[r]? = some row) :
    ∃ row', l.RowAt origin (l.Holds origin) r row' ∧ row'.bare = row.bare := by
  have stands := PoolBuilder.standsIn_shared exact entered inherits hasRows kept
  have index : row.index = r := (entered.rowAt exact here).index
  have has : (PoolBuilder.shared i rows).HasRow row :=
    .entered (by simpa [PoolBuilder.shared, index])
  obtain ⟨row', rowed, same⟩ := stands.row (PoolBuilder.inv_shared exact entered) rfl row has
  exact ⟨row', index ▸ rowed, same⟩

/-! ## Copied members -/

/-- A body with the bytes of another one, whose parts are at the same distances. -/
structure InputCode.Copied (c c' : InputCode) : Prop where
  maxStack : c'.maxStack = c.maxStack
  maxLocals : c'.maxLocals = c.maxLocals
  codeLength : c'.codeLength = c.codeLength
  codeStart : c'.codeStart + c.offset = c.codeStart + c'.offset
  exceptions : c'.exceptions + c.offset = c.exceptions + c'.offset
  «attributes» : c'.attributes + c.offset = c.attributes + c'.offset
  bytes : c'.input.cursor.segment c'.offset (c'.offset + c'.length) =
    c.input.cursor.segment c.offset (c.offset + c.length)

/-- An attribute that denotes the same constants, or a body with the same bytes. -/
inductive AttributeBody.Copied (b : AttributeBody) : AttributeBody → Prop
  | bare {b' : AttributeBody} (same : b'.bare = b.bare) : Copied b b'
  | code {c c' : InputCode} (body : b = .code c) (copied : c.Copied c') : Copied b (.code c')

namespace Attribute

section Bodies

variable {m₀ m : InputMember} {env₀ env : Envelope}
  (window₀ : Window m₀.input.cursor (env₀.offset + env₀.length))
  (addressable : m.input.cursor.Addressable) (length : env.length = env₀.length)
  (spells : m.input.cursor.Spells env.offset
    (m₀.input.cursor.segment env₀.offset (env₀.offset + env₀.length)))
include window₀ addressable length spells

/-- The extent of a body is read where its bytes were copied to. -/
theorem readCode_copied {c : InputCode}
    (given : readCode m₀ env₀
      (.on m₀.input.cursor (env₀.offset + env₀.length) env₀.offset) =
        .ok (.code c, .on m₀.input.cursor (env₀.offset + env₀.length)
          (env₀.offset + env₀.length))) :
    ∃ c', readCode m env (.on m.input.cursor (env.offset + env.length) env.offset) =
      .ok (.code c', .on m.input.cursor (env.offset + env.length) (env.offset + env.length)) ∧
        c.Copied c' := by
  have whole := Cursor.spells_segment (Nat.le_add_right env₀.offset env₀.length) window₀.inside
  have width := Cursor.length_segment (p := env₀.offset) window₀.inside
  have window : Window m.input.cursor (env.offset + env.length) := by
    refine ⟨?_, addressable⟩
    have inside := spells.inside
    omega
  have number {k w n : Nat} (fits : k + w ≤ env₀.length)
      (read : m₀.input.cursor.number? w (env₀.offset + k : Nat) = some n) :
      m.input.cursor.number? w (env.offset + k : Nat) = some n :=
    (spells.number whole (by omega)).trans read
  obtain ⟨maxStack, maxLocals, codeLength, n, rows, q, stack, locals, size, positive, short, count,
    table, -, ends, same⟩ := (readCode_eq_ok_iff window₀ (Nat.le_add_right _ _)).mp given
  obtain rfl := AttributeBody.code.inj same
  obtain rfl : env₀.offset + env₀.length = q := Int.ofNat_inj.mp (congrArg Decoder.pos ends)
  have forward := table.forward
  have counted : m.input.cursor.u2? (env.offset + 8 + codeLength : Nat) = some n := by
    rw [Nat.add_assoc] at count ⊢
    exact number (by omega) count
  have tail := spells.after (r := env₀.offset + 8 + codeLength + 2 + 8 * n) (by omega) (by omega)
    window₀.inside
  obtain ⟨rows', moved⟩ := table.move tail window₀.inside
  have start : env.offset + (env₀.offset + 8 + codeLength + 2 + 8 * n - env₀.offset) =
      env.offset + 8 + codeLength + 2 + 8 * n := by omega
  have stop : env.offset + 8 + codeLength + 2 + 8 * n +
      (env₀.offset + env₀.length - (env₀.offset + 8 + codeLength + 2 + 8 * n)) =
        env.offset + env.length := by omega
  rw [start, stop] at moved
  refine ⟨_, (readCode_eq_ok_iff window (Nat.le_add_right _ _)).mpr
    ⟨maxStack, maxLocals, codeLength, n, rows', _, number (k := 0) (by omega) stack,
      number (k := 2) (by omega) locals, number (k := 4) (by omega) size, positive, short,
      counted, moved, Nat.le_refl _, rfl, rfl⟩, ⟨rfl, rfl, rfl, ?_, ?_, ?_, ?_⟩⟩
  · change env.offset + 8 + env₀.offset = env₀.offset + 8 + env.offset
    omega
  · change env.offset + 8 + codeLength + env₀.offset = env₀.offset + 8 + codeLength + env.offset
    omega
  · change env.offset + 8 + codeLength + 2 + 8 * n + env₀.offset =
      env₀.offset + 8 + codeLength + 2 + 8 * n + env.offset
    omega
  · have spelled := spells.same
    rw [width, Nat.add_sub_cancel_left] at spelled
    exact length.symm ▸ spelled

/-- A body is decoded where its bytes were copied to. -/
theorem decode_copied_code {room : Nat} {a : Attribute} {c : InputCode}
    (decoded : decode ⟨m₀.input, .method, some m₀, none⟩ room env₀ = .ok a)
    (named : env.name.text = env₀.name.text) (body : a.body = .code c) :
    ∃ a', decode ⟨m.input, .method, some m, none⟩ room env = .ok a' ∧ a.body.Copied a'.body := by
  have code₀ : env₀.name.text = "Code" := by
    rw [← (decodedFrom_of_decode decoded).name, Attribute.name, body, AttributeBody.name]
  have inside := spells.inside
  rw [Cursor.length_segment window₀.inside, Nat.add_sub_cancel_left, ← length] at inside
  rw [decode_eq, reader?_code m₀ room code₀] at decoded
  obtain ⟨d, given, done⟩ := of_decodeWith_some window₀ decoded
  rw [body] at given
  obtain ⟨-, -, -, -, -, q, -, -, -, -, -, -, -, before, rfl, -⟩ :=
    (readCode_eq_ok_iff window₀ (Nat.le_add_right _ _)).mp given
  obtain rfl : q = env₀.offset + env₀.length := by
    rw [Scan.remaining_on window₀ before] at done
    omega
  obtain ⟨c', extent, copied⟩ := readCode_copied window₀ addressable length spells given
  refine ⟨.mk (some ⟨m.input.origin, env.offset, env.length⟩) (.code c'), ?_, .code body copied⟩
  rw [decode_eq, reader?_code m room (named.trans code₀)]
  exact decodeWith_of_reads ⟨inside, addressable⟩ extent

end Bodies

/-- The tables of two members are decoded alike, if the bodies among their attributes are. -/
theorem relocates_of_bodies {ctx₀ ctx : Context} {related : Attribute → Attribute → Prop}
    (covers : ctx.input.Covers ctx₀.input) (addressable : ctx.input.cursor.Addressable)
    (held : ctx.holder = ctx₀.holder) (member : ctx₀.holder = .field ∨ ctx₀.holder = .method)
    (whole₀ : ctx₀.input.options.has .dropUnknownAttributes = false)
    (whole : ctx.input.options.has .dropUnknownAttributes = false)
    (plain : ∀ {a a' : Attribute}, a'.body.bare = a.body.bare → related a a')
    (bodies : ∀ {env₀ env : Envelope} {a : Attribute} {c : InputCode},
      Window ctx₀.input.cursor (env₀.offset + env₀.length) →
      decode ctx₀ maxNesting env₀ = .ok a → a.body = .code c →
      env.name.text = env₀.name.text → env.length = env₀.length →
      ctx.input.cursor.Spells env.offset
        (ctx₀.input.cursor.segment env₀.offset (env₀.offset + env₀.length)) →
      ∃ a', decode ctx maxNesting env = .ok a' ∧ related a a') :
    Relocates ctx₀ ctx (decode ctx₀ maxNesting) (decode ctx maxNesting) (fun _ => True)
      related where
  covers := covers
  addressable := addressable
  inner₀ := by rcases member with same | same <;> rw [same] <;> nofun
  inner := by rcases member with same | same <;> rw [held, same] <;> nofun
  whole := whole₀
  refl _ := plain rfl
  keeps _ _ := by rw [whole, Bool.and_false]
  decodes {env₀ env a} window decoded _ named length spells := by
    by_cases code : ∃ c, a.body = .code c
    · obtain ⟨c, body⟩ := code
      exact bodies window decoded body named length spells
    · have stackMap (frames : List StackMapFrame) : a.body ≠ .stackMapTable frames := by
        intro same
        have inside := (decodedFrom_of_decode decoded).frames frames same
        rcases member with holder | holder <;> cases holder.symm.trans inside
      obtain ⟨a', decoded', same⟩ := decode_copied covers held whole₀ whole window addressable
        decoded named length spells (fun c body => code ⟨c, body⟩) stackMap
      exact ⟨a', decoded', plain same⟩

end Attribute

namespace InputMember

/-- A member of an input is read from its header, which a table of attributes follows. -/
structure Stands (i : Input) (m : InputMember) : Prop where
  read : ∃ className, m.ReadFrom i className m.span
  table : m.span.attributes = m.span.start + 6
  ordered : m.span.attributes ≤ m.span.stop
  inside : m.span.stop ≤ i.cursor.size

/-- The bytes of a member are those of another one. -/
def SameBytes (m m' : InputMember) : Prop :=
  m'.input.cursor.segment m'.span.start m'.span.stop =
    m.input.cursor.segment m.span.start m.span.stop

/-- The header of a member says what that of another one does. -/
structure SameHeader (m m' : InputMember) : Prop where
  flags : m'.flags = m.flags
  name : m'.name.text = m.name.text
  descriptor : m'.descriptor.text = m.descriptor.text

variable {i i' : Input} {m m' : InputMember}

/-- A member stands where its input has one. -/
theorem stands_of_mem {c : ClassFile} (headed : c.Headed) (scanned : c.input.layout.Scanned)
    (member : m ∈ c.fields ∨ m ∈ c.methods) : m.Stands c.input := by
  obtain ⟨q, -, fields, -, methods⟩ := scanned.members
  obtain ⟨rows, table⟩ := scanned.attributes
  have last := table.forward
  have between := methods.forward
  have stands {spans : List MemberSpan} {ms : List InputMember}
      (all : List.Forall₂ (InputMember.ReadFrom c.input c.this.internalName) spans ms)
      (member : m ∈ ms) (lies : ∀ span ∈ spans, span.attributes = span.start + 6 ∧
        span.attributes ≤ span.stop ∧ span.stop ≤ c.input.cursor.size) : m.Stands c.input := by
    obtain ⟨span, listed, from_⟩ := exists_left_of_forall₂ all member
    obtain rfl := from_.lies
    obtain ⟨start, ordered, inside⟩ := lies _ listed
    exact ⟨⟨_, from_⟩, start, ordered, inside⟩
  rcases member with member | member
  · apply stands headed.fields member
    intro span listed
    obtain ⟨start, ordered, before⟩ := fields.span listed
    exact ⟨start, ordered, by simp only [Input.cursor]; omega⟩
  · apply stands headed.methods member
    intro span listed
    obtain ⟨start, ordered, before⟩ := methods.span listed
    exact ⟨start, ordered, by simp only [Input.cursor]; omega⟩

section Copied

variable (stands : m.Stands i) (stands' : m'.Stands i') (same : m.SameBytes m')
include stands stands' same

/-- Members with the same bytes are equally long, and the second one spells the first. -/
theorem SameBytes.spells : i'.cursor.Spells m'.span.start
      (i.cursor.segment m.span.start m.span.stop) ∧
    m'.span.stop = m'.span.start + (m.span.stop - m.span.start) := by
  obtain ⟨⟨_, from_⟩, start, ordered, inside⟩ := stands
  obtain ⟨⟨_, from'⟩, start', ordered', inside'⟩ := stands'
  have equal : i'.cursor.segment m'.span.start m'.span.stop =
      i.cursor.segment m.span.start m.span.stop := from_.input ▸ from'.input ▸ same
  have lengths := congrArg List.length equal
  rw [Cursor.length_segment inside', Cursor.length_segment inside] at lengths
  exact ⟨equal ▸ Cursor.spells_segment (by omega) inside', by omega⟩

/-- Members with the same bytes have headers that say the same. -/
theorem SameBytes.header (covers : i'.Covers i) : m.SameHeader m' := by
  obtain ⟨spells, -⟩ := same.spells stands stands'
  obtain ⟨⟨_, from_⟩, start, ordered, inside⟩ := stands
  obtain ⟨⟨_, from'⟩, -, -, -⟩ := stands'
  have whole := Cursor.spells_segment (p := m.span.start) (by omega) inside
  have width := Cursor.length_segment (p := m.span.start) inside
  have number {k n : Nat} (fits : k + 2 ≤ 6)
      (read : i.cursor.u2? (m.span.start + k : Nat) = some n) :
      i'.cursor.u2? (m'.span.start + k : Nat) = some n :=
    (spells.number whole (by omega)).trans read
  have text {k : Nat} {a a' : Utf8Entry} (fits : k + 2 ≤ 6)
      (here : ∃ n : Nat, i.cursor.u2? (m.span.start + k : Nat) = some n ∧
        i.pool.refer Entry.utf8? (m.span.start + k : Nat) n = .ok a)
      (there : ∃ n : Nat, i'.cursor.u2? (m'.span.start + k : Nat) = some n ∧
        i'.pool.refer Entry.utf8? (m'.span.start + k : Nat) n = .ok a') : a'.text = a.text := by
    obtain ⟨n, indexAt, named⟩ := here
    obtain ⟨n', indexAt', named'⟩ := there
    obtain rfl := Option.some.inj ((number fits indexAt).symm.trans indexAt')
    obtain ⟨b, given, equal⟩ := refer_covered covers Entry.blind_utf8? named
    obtain rfl := Except.ok.inj ((given _).symm.trans named')
    exact Utf8Entry.bare_eq_iff.mp equal
  refine ⟨?_, text (by omega) from_.name from'.name, text (by omega) from_.descriptor
    from'.descriptor⟩
  obtain ⟨n, flagsAt, flags⟩ := from_.flags
  obtain ⟨n', flagsAt', flags'⟩ := from'.flags
  obtain rfl := Option.some.inj ((number (k := 0) (by omega) flagsAt).symm.trans flagsAt')
  exact flags'.trans flags.symm

/-- Members with the same bytes have tables that are decoded alike. -/
theorem SameBytes.table {ctx ctx' : Context} {related : Attribute → Attribute → Prop}
    (relocates : Relocates ctx ctx' (decode ctx maxNesting) (decode ctx' maxNesting) (fun _ => True)
      related) (input : ctx.input = i) (input' : ctx'.input = i')
    (addressable : i.cursor.Addressable) {as : List Attribute}
    (decoded : Attribute.table ctx m.span.attributes m.span.stop = .ok as) :
    ∃ as', Attribute.table ctx' m'.span.attributes m'.span.stop = .ok as' ∧
      List.Forall₂ related as as' := by
  subst input input'
  obtain ⟨spells, stop⟩ := same.spells stands stands'
  obtain ⟨-, start, ordered, inside⟩ := stands
  have tail := spells.after (r := m.span.attributes) (by omega) ordered inside
  have here : m'.span.start + (m.span.attributes - m.span.start) = m'.span.attributes := by
    have start' := stands'.table
    omega
  have there : m'.span.attributes + (m.span.stop - m.span.attributes) = m'.span.stop := by omega
  rw [here] at tail
  obtain ⟨as', decoded', all⟩ :=
    relocates.table ⟨inside, addressable⟩ ordered tail decoded fun _ _ => trivial
  rw [there] at decoded'
  exact ⟨as', decoded', all⟩

variable (covers : i'.Covers i) (addressable : i.cursor.Addressable)
  (addressable' : i'.cursor.Addressable) (whole : i.options.has .dropUnknownAttributes = false)
  (whole' : i'.options.has .dropUnknownAttributes = false)
include covers addressable addressable' whole whole'

/-- Fields with the same bytes have the same attributes. -/
theorem SameBytes.fieldAttributes {as : List Attribute} (decoded : m.fieldAttributes = .ok as) :
    ∃ as', m'.fieldAttributes = .ok as' ∧ as'.map Attribute.bare = as.map Attribute.bare := by
  have input := stands.read.choose_spec.input
  have input' := stands'.read.choose_spec.input
  have relocates : Relocates ⟨m.input, .field, none, none⟩ ⟨m'.input, .field, none, none⟩ _ _ _
      fun a a' => a'.body.bare = a.body.bare :=
    relocates_of_bodies (input ▸ input' ▸ covers) (input' ▸ addressable') rfl (.inl rfl)
      (input ▸ whole) (input' ▸ whole') id
      fun _ given body => by cases (decodedFrom_of_decode given).code _ body
  obtain ⟨as', decoded', all⟩ :=
    same.table stands stands' relocates input input' addressable decoded
  refine ⟨as', decoded', map_eq_of_same (all.imp fun a a' equal => ?_)⟩
  rw [Same, Attribute.bare_eq, Attribute.bare_eq, equal]

/-- Methods with the same bytes have the same attributes, save that their bodies lie elsewhere. -/
theorem SameBytes.methodAttributes {as : List Attribute} (decoded : m.methodAttributes = .ok as) :
    ∃ as', m'.methodAttributes = .ok as' ∧
      List.Forall₂ (fun a a' => a.body.Copied a'.body) as as' := by
  have input := stands.read.choose_spec.input
  have input' := stands'.read.choose_spec.input
  have relocates : Relocates ⟨m.input, .method, some m, none⟩ ⟨m'.input, .method, some m', none⟩
      _ _ _ fun a a' => a.body.Copied a'.body :=
    relocates_of_bodies (input ▸ input' ▸ covers) (input' ▸ addressable') rfl (.inr rfl)
      (input ▸ whole) (input' ▸ whole') .bare fun window given body named length spells =>
        decode_copied_code window (input' ▸ addressable') length spells given named body
  exact same.table stands stands' relocates input input' addressable decoded

end Copied

end InputMember

namespace ClassFile

/-- What another class keeps of a class: its constants, and the meaning of each attribute, field and
method that stands in both with the same bytes. -/
structure KeptBy (c c' : ClassFile) : Prop where
  constants : c'.input.Covers c.input
  «attribute» : ∀ {ctx ctx' : Context} {room : Nat} {env env' : Envelope} {a : Attribute},
    ctx.input = c.input → ctx'.input = c'.input → ctx'.holder = ctx.holder →
    env.offset + env.length ≤ c.input.cursor.size → decode ctx room env = .ok a →
    env'.name.text = env.name.text → env'.length = env.length →
    c'.input.cursor.Spells env'.offset
      (c.input.cursor.segment env.offset (env.offset + env.length)) →
    (∀ code, a.body ≠ .code code) → (∀ frames, a.body ≠ .stackMapTable frames) →
    ∃ a', decode ctx' room env' = .ok a' ∧ a'.body.bare = a.body.bare
  field : ∀ f ∈ c.fields, ∀ f' ∈ c'.fields, f.SameBytes f' → f.SameHeader f' ∧
    ∀ as, f.fieldAttributes = .ok as → ∃ as', f'.fieldAttributes = .ok as' ∧
      as'.map Attribute.bare = as.map Attribute.bare
  method : ∀ m ∈ c.methods, ∀ m' ∈ c'.methods, m.SameBytes m' → m.SameHeader m' ∧
    ∀ as, m.methodAttributes = .ok as → ∃ as', m'.methodAttributes = .ok as' ∧
      List.Forall₂ (fun a a' => a.body.Copied a'.body) as as'

/-- What denotes the same at the same indices is enough to keep what was copied. -/
theorem keptBy_of_covers {c' : ClassFile} (exact : c.input.Exact) (headed : c.Headed)
    (exact' : c'.input.Exact) (headed' : c'.Headed) (covers : c'.input.Covers c.input)
    (addressable : c.input.cursor.Addressable) (addressable' : c'.input.cursor.Addressable)
    (whole : c.options.has .dropUnknownAttributes = false)
    (whole' : c'.options.has .dropUnknownAttributes = false) : c.KeptBy c' where
  constants := covers
  «attribute» input input' held inside decoded named length spells code stackMap :=
    decode_copied (input ▸ input' ▸ covers) held (input ▸ whole) (input' ▸ whole')
      (input ▸ ⟨inside, addressable⟩) (input' ▸ addressable') decoded named length
      (input ▸ input' ▸ spells) code stackMap
  field f member f' member' same := by
    have stands := InputMember.stands_of_mem headed exact.scanned (.inl member)
    have stands' := InputMember.stands_of_mem headed' exact'.scanned (.inl member')
    exact ⟨same.header stands stands' covers, fun as decoded => same.fieldAttributes stands stands'
      covers addressable addressable' whole whole' decoded⟩
  method m member m' member' same := by
    have stands := InputMember.stands_of_mem headed exact.scanned (.inr member)
    have stands' := InputMember.stands_of_mem headed' exact'.scanned (.inr member')
    exact ⟨same.header stands stands' covers, fun as decoded => same.methodAttributes stands stands'
      covers addressable addressable' whole whole' decoded⟩

section Rebuilt

variable {c₀ c' : ClassFile} {source : Array UInt8} {bytes : Bytes} {options options' : Options}
  {number number' : Nat} {newName : Option Text} {t : Option (ClassTransform σ)} {user : σ}
  (addressable : Cursor.Addressable ⟨source⟩)
  (parsed : ClassFile.parse number source options = .ok c₀) (state : c₀.StateOf c)
  (shared : options.has .noPoolSharing = false)
  (within : ∀ t', t = some t' → t'.Within (ClassDraft.manner σ c.input))
  (done : (c.transformTo newName t user).1 = .ok bytes)
include addressable parsed state shared within done

/-- Where the bootstrap table of a class can be read, whatever a transform does through the
builders, it either fails or all rows of the table can be read and come first in the table of the
result, in their order. The transform may add rows, but no table of its own. -/
theorem transformTo_keeps_rows
    (foreign : ∀ a ∈ (c.walkedDraft newName t user).attributes, a.name ≠ Lookup.bootstrapMethods)
    (few : (c.writtenPool newName t user).rows.size ≤ 65535)
    (short : ∀ row ∈ (c.writtenPool newName t user).rows, row.arguments.length ≤ 65535)
    (addressable' : Cursor.Addressable ⟨bytes.toArray⟩)
    (parsed' : ClassFile.parse number' bytes.toArray options' = .ok c')
    {outcomes : Array (Except Error BootstrapRow)} (readable : c.pool.rows = .ok outcomes) :
    ∃ rows : List BootstrapRow, outcomes = (rows.map Except.ok).toArray ∧
      ∀ (r : Nat) (row : BootstrapRow), rows[r]? = some row →
        ∃ row', c'.pool.row r = .ok row' ∧ row'.bare = row.bare := by
  obtain ⟨exact, q, kept, indexed, inherits, hasRows⟩ :=
    reread_of_transformTo addressable parsed state shared within done foreign few short addressable'
      parsed'
  have read' := parsedFrom_of_parse addressable' parsed'
  obtain ⟨rows, rfl, same⟩ := kept.rows indexed outcomes readable
  refine ⟨rows, rfl, fun r row here => ?_⟩
  obtain ⟨row', rowed, equal⟩ := Layout.row_mirrored exact (.read readable (by simp)) same
    inherits hasRows here
  refine ⟨row', ?_, equal⟩
  obtain ⟨table, p, isTable, -⟩ := rowed.lies
  obtain ⟨outcomes', given, complete⟩ := read'.tells.table table isTable
  have natural : ¬(r : Int) < 0 := by omega
  rw [Pool.row_of_rows given, if_neg natural, Int.toNat_natCast, complete r row' rowed]
  rfl

/-- Whatever a transform does through the builders, the result keeps all that was copied into it
from the source, where neither is read without its unknown attributes. -/
theorem transformTo_keeps_copies
    (foreign : ∀ a ∈ (c.walkedDraft newName t user).attributes, a.name ≠ Lookup.bootstrapMethods)
    (few : (c.writtenPool newName t user).rows.size ≤ 65535)
    (short : ∀ row ∈ (c.writtenPool newName t user).rows, row.arguments.length ≤ 65535)
    (addressable' : Cursor.Addressable ⟨bytes.toArray⟩)
    (parsed' : ClassFile.parse number' bytes.toArray options' = .ok c') {c'' : ClassFile}
    (state' : c'.StateOf c'') (whole : options.has .dropUnknownAttributes = false)
    (whole' : options'.has .dropUnknownAttributes = false) : c.KeptBy c'' := by
  have read := parsedFrom_of_parse addressable parsed
  have read' := parsedFrom_of_parse addressable' parsed'
  have covers := covers_of_transformTo addressable parsed state shared within done foreign few short
    addressable' parsed' state'
  have layout : c.input.layout = c₀.input.layout := by cases state <;> rfl
  have layout' : c''.input.layout = c'.input.layout := by cases state' <;> rfl
  have cursor : c.input.cursor = ⟨source⟩ := (congrArg Layout.cursor layout).trans read.cursor
  have cursor' : c''.input.cursor = ⟨bytes.toArray⟩ :=
    (congrArg Layout.cursor layout').trans read'.cursor
  have same : c.options = options := (congrArg Layout.options layout).trans read.options
  have same' : c''.options = options' := (congrArg Layout.options layout').trans read'.options
  exact keptBy_of_covers (state.exact read) (state.headed read) (state'.exact read')
    (state'.headed read') covers (cursor ▸ addressable) (cursor' ▸ addressable') (same ▸ whole)
    (same' ▸ whole')

end Rebuilt

/-- Rows that were read are told apart by what was read of them. -/
theorem rows_injective {rows rows' : List BootstrapRow}
    (same : (rows.map (Except.ok : BootstrapRow → Except Error BootstrapRow)).toArray =
      (rows'.map Except.ok).toArray) : rows = rows' :=
  (List.map_inj_right fun _ _ => Except.ok.inj).mp (by simpa using same)

/-- The class `A` with a bootstrap row, to which a transform adds a number and a row that loads it:
the result has the row of the class first, and the other one behind it. -/
theorem transformTo_tabled_keeps_row : ∃ c c' h row, ClassFile.parse 0 tabled .none = .ok c ∧
    (c.transformTo none (some (addingRow h)) ()).1 = .ok enlarged ∧
    ClassFile.parse 1 enlarged.toArray .none = .ok c' ∧ c'.pool.rowCount = 2 ∧
    c.pool.row 0 = .ok row ∧ ∃ row', c'.pool.row 0 = .ok row' ∧ row'.bare = row.bare := by
  obtain ⟨c, h, row, parsed, -, given, done, plain, few, short⟩ := enlarged_tabled
  obtain ⟨c', parsed', -, two⟩ := parse_enlarged
  obtain ⟨rows, same, kept⟩ := transformTo_keeps_rows addressable_tabled parsed .parsed (by decide)
    (fun t' same => Option.some.inj same ▸ (composed_addingRow c.input h).within) done
    (by simp [plain]) (by omega)
    (fun row member => Nat.le_trans (short row member) (by omega)) addressable_enlarged parsed'
    given
  obtain rfl : [row] = rows := rows_injective (by simpa using same)
  refine ⟨c, c', h, row, parsed, done, parsed', two, ?_, kept 0 row rfl⟩
  rw [Pool.row_of_rows given]
  rfl

/-! ## Tables that cannot be read -/

/-- A class without attributes is written without a bootstrap table where the pool has no rows. -/
theorem writes_no_attributes {s : Session σ} (shares : s.SharesWith c.input [])
    (sharable : PoolBuilder.Sharable c.input []) (fields methods : List Bytes) :
    Emit.Writes s (c.draft fields methods []).attributeTable (u2 0)
      { s with pool := PoolBuilder.shared c.input [] } := by
  have none : Emit.Writes s (Emit.items (Emit.attributeItems none (fun _ => throw .outOfBounds)
      ((c.draft fields methods []).attributes.toList.map some))) [] s := Emit.Writes.settle.bind
      (.pure _)
  have counted := Emit.Writes.interning (shares.pool.rowCount sharable)
  rw [ClassDraft.attributeTable]
  exact none.bind (counted.bind (.pure _))

/-- A class whose one attribute is a bootstrap table that cannot be read is passed on without it. -/
theorem ParsedFrom.transform_pass_unreadable {bytes : Array UInt8} {options : Options}
    {number : Nat}
    (parsed : c.ParsedFrom bytes options number) (shared : c.options.has .noPoolSharing = false)
    (verbatim : c.options.copiesVerbatim = true) (decoded : c.attributes = .ok [])
    (settled : c.pool.unsettled = false) {e : Error} (unreadable : c.pool.rows = .error e)
    (user : σ) :
    (c.transform (some .pass) user).1 =
      .ok (c.input.cursor.segment 0 c.input.layout.attributes ++ u2 0) := by
  have sharable : PoolBuilder.Sharable c.input [] :=
    ⟨Pool.abort?_eq_none (settled ▸ Bool.false_ne_true), .unreadable unreadable⟩
  have started : Session.SharesWith c.input []
      (Build.start c.options (.ofParent c.input) user) := ⟨rfl, rfl, .unasked⟩
  obtain ⟨s', shares, writes⟩ : ∃ s' : Session σ, s'.SharesWith c.input [] ∧
      ∀ fields methods, Emit.Writes (Build.start c.options (.ofParent c.input) user)
        (c.draft fields methods []).attributeTable (u2 0) s' :=
    ⟨_, started.asked, writes_no_attributes started sharable⟩
  have rebuilt : (c.transform (some .pass) user).1 = .ok (c.around s'.pool.encode (u2 0)) :=
    parsed.transform_endHandler verbatim decoded (fun _ => .pure ()) started.quiet writes
      shares.pool.owns shares.quiet shared
  obtain ⟨front, pool⟩ := parsed.bytes_pool shares
  obtain ⟨q, -, fieldsLie, -, methodsLie⟩ := parsed.scanned.members
  have methodsForward := methodsLie.forward
  have fieldsForward := fieldsLie.forward
  rw [rebuilt, around, pool, Cursor.segment_append (by omega) (by omega),
    Cursor.segment_append (by omega) (by omega)]

/-- The class of `tabled` with one byte more at the end of its bootstrap table. -/
def torn : Array UInt8 :=
  tabled.extract 0 (tabled.size - 7) ++ #[7, 0, 1, 0, 7, 0, 0, 0]

/-- What is left of the class without its table. -/
def untorn : Bytes := (tabled.extract 0 (tabled.size - 14)).toList ++ [0, 0]

/-- The bytes of the class are few enough to be addressed. -/
theorem addressable_torn : Cursor.Addressable ⟨torn⟩ := by
  rw [Cursor.Addressable]
  decide

/-- The one attribute of the class is a bootstrap table with one row, which the pool does not
have. -/
theorem parse_torn : ∃ c, ClassFile.parse 0 torn .none = .ok c ∧
    c.input.cursor.u2? c.input.layout.attributes = some 1 ∧
    c.input.cursor.u2? (c.input.layout.attributes + 2 : Nat) = some 8 ∧
    c.pool.text? 8 = some Lookup.bootstrapMethods ∧
    c.input.cursor.u2? (c.input.layout.attributes + 8 : Nat) = some 1 ∧
    c.attributes = .ok [] ∧ c.pool.unsettled = false ∧ (∃ e, c.pool.rows = .error e) ∧
    c.input.cursor.segment 0 c.input.layout.attributes ++ u2 0 = untorn := by
  have ran : (match ClassFile.parse 0 torn .none with
      | .error _ => false
      | .ok c => (c.attributes.toOption.any List.isEmpty) && !c.pool.rows.isOk &&
        decide (c.input.cursor.u2? c.input.layout.attributes = some 1 ∧
          c.input.cursor.u2? (c.input.layout.attributes + 2 : Nat) = some 8 ∧
          c.pool.text? 8 = some Lookup.bootstrapMethods ∧
          c.input.cursor.u2? (c.input.layout.attributes + 8 : Nat) = some 1 ∧
          c.pool.unsettled = false ∧
          c.input.cursor.segment 0 c.input.layout.attributes ++ u2 0 = untorn)) = true := by
    decide +kernel
  split at ran
  · cases ran
  · rename_i c parsed
    simp only [Bool.and_eq_true, decide_eq_true_eq, Option.any_eq_true, List.isEmpty_iff,
      Bool.not_eq_true'] at ran
    obtain ⟨⟨⟨as, decoded, rfl⟩, lost⟩, count, index, named, row, settled, text⟩ := ran
    refine ⟨c, parsed, count, index, named, row, toOption_eq_some_iff.mp decoded, settled, ?_, text⟩
    cases given : c.pool.rows with
    | error e => exact ⟨e, rfl⟩
    | ok rows => simp [given, Except.isOk, Except.toBool] at lost

/-- The table of the class is lost when the class is passed on. -/
theorem transform_torn : ∃ c c', ClassFile.parse 0 torn .none = .ok c ∧
    c.options.has .noPoolSharing = false ∧
    c.input.cursor.u2? c.input.layout.attributes = some 1 ∧
    c.input.cursor.u2? (c.input.layout.attributes + 2 : Nat) = some 8 ∧
    c.pool.text? 8 = some Lookup.bootstrapMethods ∧
    c.input.cursor.u2? (c.input.layout.attributes + 8 : Nat) = some 1 ∧
    (c.transform (some .pass) ()).1 = .ok untorn ∧
    ClassFile.parse 1 untorn.toArray .none = .ok c' ∧
    c'.input.cursor.u2? c'.input.layout.attributes = some 0 ∧ c'.pool.rowCount = 0 := by
  obtain ⟨c, parsed, count, index, named, row, decoded, settled, ⟨e, unreadable⟩, text⟩ :=
    parse_torn
  have read := parsedFrom_of_parse addressable_torn parsed
  have same : c.options = .none := read.options
  have shared : c.options.has .noPoolSharing = false := by rw [same]; decide
  have ran : (match ClassFile.parse 1 untorn.toArray .none with
      | .error _ => false
      | .ok c' => decide (c'.input.cursor.u2? c'.input.layout.attributes = some 0 ∧
          c'.pool.rowCount = 0)) = true := by
    decide +kernel
  split at ran
  · cases ran
  · rename_i c' parsed'
    obtain ⟨empty, rowless⟩ := of_decide_eq_true ran
    refine ⟨c, c', parsed, shared, count, index, named, row, ?_, parsed', empty, rowless⟩
    rw [← text]
    exact read.transform_pass_unreadable shared (by rw [same]; decide) decoded settled unreadable ()

end ClassFile

end JvmClass
