import JvmClass.Constant.Lookup
import JvmClass.Proofs.Outcome

/-!
# What the constants of a class file denote

An index of a pool holds an entry when the bytes of its constant say so and the indices in
them hold what the entry refers to. `Layout.Holds` is the least such relation, so a constant
that refers to itself holds nothing. It speaks of no order in which constants are looked up,
and at most one entry is held by an index.
-/

namespace JvmClass.Layout

/-- The constant of index `i` has tag `t` and starts at `p`. -/
structure ConstantAt (l : Layout) (i : Nat) (t : Tag) (p : Nat) : Prop where
  offset : l.offsets[i]?.join = some p
  tag : ∃ b, l.cursor.u1? p = some b ∧ Tag.ofByte? b.toUInt8 = some t

/-- The constant of index `i` is a text. -/
inductive TextAt (l : Layout) (i : Nat) (text : Text) : Prop
  | intro {p n : Nat} {bytes : Bytes} (constant : l.ConstantAt i .utf8 p)
      (length : l.cursor.u2? (p + 1 : Nat) = some n)
      (slice : l.cursor.slice? (p + 3 : Nat) n = some bytes)
      (decoded : ModifiedUtf8.decode? bytes = some text)

/-- The attributes of a table from `p` on, with their names as texts. -/
inductive Envelopes (l : Layout) (origin : Origin) : Nat → List Envelope → Prop
  | done (p : Nat) : Envelopes l origin p []
  | next {p i n : Nat} {text : Text} {rest : List Envelope} (name : l.cursor.u2? p = some i)
      (spelled : l.TextAt i text) (length : l.cursor.u4? (p + 2 : Nat) = some n)
      (others : Envelopes l origin (p + 6 + n) rest) :
      Envelopes l origin p (⟨⟨⟨origin, i⟩, text⟩, p + 6, n⟩ :: rest)

/-- The attributes of the class, with their names as texts. -/
structure ClassEnvelopes (l : Layout) (origin : Origin) (envs : List Envelope) : Prop where
  count : l.cursor.u2? l.attributes = some envs.length
  envelopes : l.Envelopes origin (l.attributes + 2) envs

/-- The attribute that holds the bootstrap methods, if there is one. -/
def tableEnvelope? (envs : List Envelope) : Option Envelope :=
  envs.find? fun env => env.name.text = Lookup.bootstrapMethods

/-- The offsets of the bootstrap rows of the class. -/
inductive IsTable (l : Layout) (origin : Origin) : Array Nat → Prop
  | absent {envs : List Envelope} (all : l.ClassEnvelopes origin envs)
      (found : tableEnvelope? envs = none) : IsTable l origin #[]
  | present {envs : List Envelope} {env : Envelope} {table : Array Nat}
      (all : l.ClassEnvelopes origin envs) (found : tableEnvelope? envs = some env)
      (scanned : Lookup.scanTable l env = .ok table) : IsTable l origin table

/-- The index at `p` holds an entry that `want` takes for `a`. -/
inductive Refers {α : Type} (l : Layout) (held : Nat → Entry → Prop) (want : Entry → Option α)
    (p : Nat) (a : α) : Prop
  | intro {i : Nat} {e : Entry} (index : l.cursor.u2? p = some i) (entry : held i e)
      (taken : want e = some a)

/-- The bootstrap row at `p`. -/
structure RowFrom (l : Layout) (held : Nat → Entry → Prop) (p : Nat) (row : BootstrapRow) :
    Prop where
  handle : l.Refers held Entry.handle? p row.handle
  count : l.cursor.u2? (p + 2 : Nat) = some row.arguments.length
  arguments : ∀ k a, row.arguments[k]? = some a →
    l.Refers held Entry.loadable? (p + 4 + 2 * k) a

/-- The bootstrap row with number `r`. -/
structure RowAt (l : Layout) (origin : Origin) (held : Nat → Entry → Prop) (r : Nat)
    (row : BootstrapRow) : Prop where
  place : row.place = ⟨origin, r⟩
  lies : ∃ table p, l.IsTable origin table ∧ table[r]? = some p ∧ l.RowFrom held p row

/-- What the constant of a place, which starts at `p`, denotes when the others hold what
`held` says. -/
inductive Decodes (l : Layout) (held : Nat → Entry → Prop) (place : Place) (p : Nat) :
    Tag → Entry → Prop
  | utf8 {text : Text} (spelled : l.TextAt place.index text) :
      Decodes l held place p .utf8 (.utf8 ⟨place, text⟩)
  | integer {n : Int} (value : l.cursor.s4? (p + 1 : Nat) = some n) :
      Decodes l held place p .integer (.loadable (.integer place n))
  | float {n : Nat} (bits : l.cursor.u4? (p + 1 : Nat) = some n) :
      Decodes l held place p .float (.loadable (.float place n))
  | long {n : Int} (value : l.cursor.s8? (p + 1 : Nat) = some n) :
      Decodes l held place p .long (.loadable (.long place n))
  | double {n : Nat} (bits : l.cursor.u8? (p + 1 : Nat) = some n) :
      Decodes l held place p .double (.loadable (.double place n))
  | «class» {name : Utf8Entry} (named : l.Refers held Entry.utf8? (p + 1) name) :
      Decodes l held place p .class (.loadable (.class ⟨place, name⟩))
  | string {utf8 : Utf8Entry} (spelled : l.Refers held Entry.utf8? (p + 1) utf8) :
      Decodes l held place p .string (.loadable (.string place utf8))
  | methodType {descriptor : Utf8Entry}
      (described : l.Refers held Entry.utf8? (p + 1) descriptor) :
      Decodes l held place p .methodType (.loadable (.methodType place descriptor))
  | module {name : Utf8Entry} (named : l.Refers held Entry.utf8? (p + 1) name) :
      Decodes l held place p .module (.module ⟨place, name⟩)
  | package {name : Utf8Entry} (named : l.Refers held Entry.utf8? (p + 1) name) :
      Decodes l held place p .package (.package ⟨place, name⟩)
  | nameAndType {name type : Utf8Entry} (named : l.Refers held Entry.utf8? (p + 1) name)
      (typed : l.Refers held Entry.utf8? (p + 3) type) :
      Decodes l held place p .nameAndType (.nameAndType ⟨place, name, type⟩)
  | member {t : Tag} {kind : MemberKind} {owner : ClassEntry} {nameAndType : NameAndTypeEntry}
      (tag : t = kind.tag) (owned : l.Refers held Entry.class? (p + 1) owner)
      (named : l.Refers held Entry.nameAndType? (p + 3) nameAndType) :
      Decodes l held place p t (.member ⟨place, kind, owner, nameAndType⟩)
  | handle {b : Nat} {target : MemberEntry} (kind : l.cursor.u1? (p + 1 : Nat) = some b)
      (targeted : l.Refers held Entry.member? (p + 2) target)
      (accepts : HandleKind.accepts ⟨b.toUInt8⟩ target.tag = true) :
      Decodes l held place p .methodHandle (.loadable (.handle ⟨place, ⟨b.toUInt8⟩, target⟩))
  | dynamic {r : Nat} {row : BootstrapRow} {nameAndType : NameAndTypeEntry}
      (number : l.cursor.u2? (p + 1 : Nat) = some r) (rowed : l.RowAt place.origin held r row)
      (named : l.Refers held Entry.nameAndType? (p + 3) nameAndType) :
      Decodes l held place p .dynamic (.loadable (.dynamic place row nameAndType))
  | callSite {r : Nat} {row : BootstrapRow} {nameAndType : NameAndTypeEntry}
      (number : l.cursor.u2? (p + 1 : Nat) = some r) (rowed : l.RowAt place.origin held r row)
      (named : l.Refers held Entry.nameAndType? (p + 3) nameAndType) :
      Decodes l held place p .invokeDynamic (.callSite ⟨place, row, nameAndType⟩)

/-- Index `i` holds the entry `e`. The constants that it refers to were shown to hold what
`inner` says before. -/
inductive Holds (l : Layout) (origin : Origin) : Nat → Entry → Prop
  | intro {i p : Nat} {t : Tag} {e : Entry} (inner : Nat → Entry → Prop)
      (held : ∀ j e, inner j e → Holds l origin j e) (constant : l.ConstantAt i t p)
      (decodes : l.Decodes inner ⟨origin, i⟩ p t e) : Holds l origin i e

variable {l : Layout} {origin : Origin}

/-- The constant of an index has one tag and one offset. -/
theorem ConstantAt.functional {i p q : Nat} {t u : Tag} (first : l.ConstantAt i t p)
    (second : l.ConstantAt i u q) : t = u ∧ p = q := by
  obtain ⟨offset, b, byte, tag⟩ := first
  obtain ⟨offset', b', byte', tag'⟩ := second
  obtain rfl := Option.some.inj (offset.symm.trans offset')
  obtain rfl := Option.some.inj (byte.symm.trans byte')
  exact ⟨Option.some.inj (tag.symm.trans tag'), rfl⟩

/-- The constant of an index has one text. -/
theorem TextAt.functional {i : Nat} {text text' : Text} (first : l.TextAt i text)
    (second : l.TextAt i text') : text = text' := by
  obtain ⟨constant, length, slice, decoded⟩ := first
  obtain ⟨constant', length', slice', decoded'⟩ := second
  obtain ⟨-, rfl⟩ := constant.functional constant'
  obtain rfl := Option.some.inj (length.symm.trans length')
  obtain rfl := Option.some.inj (slice.symm.trans slice')
  exact Option.some.inj (decoded.symm.trans decoded')

/-- The attributes of a table are determined by where it starts and how many there are. -/
theorem Envelopes.functional {p : Nat} {envs envs' : List Envelope}
    (first : l.Envelopes origin p envs) (second : l.Envelopes origin p envs')
    (length : envs.length = envs'.length) : envs = envs' := by
  induction first generalizing envs' with
  | done p => exact (List.length_eq_zero_iff.mp length.symm).symm
  | next name spelled size others inductionHypothesis =>
      cases second with
      | done => simp at length
      | next name' spelled' size' others' =>
          obtain rfl := Option.some.inj (name.symm.trans name')
          obtain rfl := spelled.functional spelled'
          obtain rfl := Option.some.inj (size.symm.trans size')
          rw [inductionHypothesis others' (by simpa using length)]

/-- The class has one table of attributes. -/
theorem ClassEnvelopes.functional {envs envs' : List Envelope}
    (first : l.ClassEnvelopes origin envs) (second : l.ClassEnvelopes origin envs') :
    envs = envs' :=
  first.envelopes.functional second.envelopes
    (Option.some.inj (first.count.symm.trans second.count))

/-- A class has one bootstrap table. The rows lie one after another, so each offset follows from
those before. -/
theorem IsTable.functional {table table' : Array Nat} (first : l.IsTable origin table)
    (second : l.IsTable origin table') : table = table' := by
  cases first with
  | absent all found =>
      cases second with
      | absent => rfl
      | present all' found' scanned' =>
          obtain rfl := all.functional all'
          rw [found] at found'
          cases found'
  | present all found scanned =>
      cases second with
      | absent all' found' =>
          obtain rfl := all.functional all'
          rw [found] at found'
          cases found'
      | present all' found' scanned' =>
          obtain rfl := all.functional all'
          obtain rfl := Option.some.inj (found.symm.trans found')
          exact Except.ok.inj (scanned.symm.trans scanned')

section Functional

variable {held held' : Nat → Entry → Prop}

/-- A reference to what is held in one way is one to what is held in a weaker way. -/
theorem Refers.mono {α : Type} {want : Entry → Option α} {p : Nat} {a : α}
    (weaker : ∀ j e, held j e → held' j e) (refers : l.Refers held want p a) :
    l.Refers held' want p a := by
  obtain ⟨index, entry, taken⟩ := refers
  exact ⟨index, weaker _ _ entry, taken⟩

/-- A row of what is held in one way is one of what is held in a weaker way. -/
theorem RowFrom.mono {p : Nat} {row : BootstrapRow} (weaker : ∀ j e, held j e → held' j e)
    (rowFrom : l.RowFrom held p row) : l.RowFrom held' p row where
  handle := rowFrom.handle.mono weaker
  count := rowFrom.count
  arguments k a inside := (rowFrom.arguments k a inside).mono weaker

/-- A row with a number is one also by what is held in a weaker way. -/
theorem RowAt.mono {r : Nat} {row : BootstrapRow} (weaker : ∀ j e, held j e → held' j e)
    (rowAt : l.RowAt origin held r row) : l.RowAt origin held' r row := by
  obtain ⟨place, table, p, isTable, inside, lies⟩ := rowAt
  exact ⟨place, table, p, isTable, inside, lies.mono weaker⟩

/-- What a constant denotes by what is held in one way it denotes by what is held in a weaker
way. -/
theorem Decodes.mono {place : Place} {p : Nat} {t : Tag} {e : Entry}
    (weaker : ∀ j e, held j e → held' j e) (decodes : l.Decodes held place p t e) :
    l.Decodes held' place p t e := by
  cases decodes with
  | utf8 spelled => exact .utf8 spelled
  | integer value => exact .integer value
  | float bits => exact .float bits
  | long value => exact .long value
  | double bits => exact .double bits
  | «class» named => exact .class (named.mono weaker)
  | string spelled => exact .string (spelled.mono weaker)
  | methodType described => exact .methodType (described.mono weaker)
  | module named => exact .module (named.mono weaker)
  | package named => exact .package (named.mono weaker)
  | nameAndType named typed => exact .nameAndType (named.mono weaker) (typed.mono weaker)
  | member tag owned named => exact .member tag (owned.mono weaker) (named.mono weaker)
  | handle kind targeted accepts => exact .handle kind (targeted.mono weaker) accepts
  | dynamic number rowed named => exact .dynamic number (rowed.mono weaker) (named.mono weaker)
  | callSite number rowed named => exact .callSite number (rowed.mono weaker) (named.mono weaker)

/-- Two ways to hold entries that never disagree. -/
def Agree (held held' : Nat → Entry → Prop) : Prop := ∀ j a b, held j a → held' j b → a = b

variable (agree : Agree held held')
include agree

/-- An index refers to one entry, if two ways to hold entries agree. -/
theorem Refers.functional {α : Type} {want : Entry → Option α} {p : Nat} {a b : α}
    (first : l.Refers held want p a) (second : l.Refers held' want p b) : a = b := by
  obtain ⟨index, entry, taken⟩ := first
  obtain ⟨index', entry', taken'⟩ := second
  obtain rfl := Option.some.inj (index.symm.trans index')
  obtain rfl := agree _ _ _ entry entry'
  exact Option.some.inj (taken.symm.trans taken')

/-- A row has one handle and one list of arguments, if two ways to hold entries agree. -/
theorem RowFrom.functional {p : Nat} {row row' : BootstrapRow} (first : l.RowFrom held p row)
    (second : l.RowFrom held' p row') :
    row.handle = row'.handle ∧ row.arguments = row'.arguments := by
  have length : row.arguments.length = row'.arguments.length :=
    Option.some.inj (first.count.symm.trans second.count)
  refine ⟨first.handle.functional agree second.handle, List.ext_getElem? fun k => ?_⟩
  cases inside : row.arguments[k]? with
  | none =>
      rw [eq_comm, List.getElem?_eq_none_iff, ← length]
      exact List.getElem?_eq_none_iff.mp inside
  | some a =>
      have bound := (List.getElem?_eq_some_iff.mp inside).1
      have inside' := List.getElem?_eq_getElem (length ▸ bound)
      rw [inside', (first.arguments k a inside).functional agree (second.arguments k _ inside')]

/-- There is one row with a number, if two ways to hold entries agree. -/
theorem RowAt.functional {r : Nat} {row row' : BootstrapRow} (first : l.RowAt origin held r row)
    (second : l.RowAt origin held' r row') : row = row' := by
  obtain ⟨place, table, p, isTable, inside, lies⟩ := first
  obtain ⟨place', table', p', isTable', inside', lies'⟩ := second
  obtain rfl := isTable.functional isTable'
  obtain rfl := Option.some.inj (inside.symm.trans inside')
  have parts := lies.functional agree lies'
  cases row
  cases row'
  simp_all [BootstrapRow.place, BootstrapRow.handle, BootstrapRow.arguments]

/-- A constant denotes one entry, if two ways to hold entries agree. The cases are those of the tag,
which both have. -/
theorem Decodes.functional {place : Place} {p : Nat} {t : Tag} {e e' : Entry}
    (first : l.Decodes held place p t e) (second : l.Decodes held' place p t e') : e = e' := by
  -- Only a reference to a member leaves its tag to its kind; no other tag is one of those.
  have other {t : Tag} {kind : MemberKind} (tag : t = kind.tag)
      (differs : t ≠ .fieldRef ∧ t ≠ .methodRef ∧ t ≠ .interfaceMethodRef) : e = e' := by
    cases kind <;> simp_all [MemberKind.tag]
  cases first with
  | member tag owned named =>
      rename_i kind owner nameAndType
      cases second with
      | member tag' owned' named' =>
          rename_i kind' owner' nameAndType'
          have same : kind = kind' := by
            rw [tag] at tag'
            cases kind <;> cases kind' <;> simp_all [MemberKind.tag]
          rw [same, owned.functional agree owned', named.functional agree named']
      | _ => exact other tag (by decide)
  | utf8 spelled =>
      cases second with
      | utf8 spelled' => rw [spelled.functional spelled']
      | member tag => exact other tag (by decide)
  | integer value =>
      cases second with
      | integer value' => rw [Option.some.inj (value.symm.trans value')]
      | member tag => exact other tag (by decide)
  | float bits =>
      cases second with
      | float bits' => rw [Option.some.inj (bits.symm.trans bits')]
      | member tag => exact other tag (by decide)
  | long value =>
      cases second with
      | long value' => rw [Option.some.inj (value.symm.trans value')]
      | member tag => exact other tag (by decide)
  | double bits =>
      cases second with
      | double bits' => rw [Option.some.inj (bits.symm.trans bits')]
      | member tag => exact other tag (by decide)
  | «class» named =>
      cases second with
      | «class» named' => rw [named.functional agree named']
      | member tag => exact other tag (by decide)
  | string spelled =>
      cases second with
      | string spelled' => rw [spelled.functional agree spelled']
      | member tag => exact other tag (by decide)
  | methodType described =>
      cases second with
      | methodType described' => rw [described.functional agree described']
      | member tag => exact other tag (by decide)
  | module named =>
      cases second with
      | module named' => rw [named.functional agree named']
      | member tag => exact other tag (by decide)
  | package named =>
      cases second with
      | package named' => rw [named.functional agree named']
      | member tag => exact other tag (by decide)
  | nameAndType named typed =>
      cases second with
      | nameAndType named' typed' => 
          rw [named.functional agree named', typed.functional agree typed']
      | member tag => exact other tag (by decide)
  | handle kind targeted accepts =>
      cases second with
      | handle kind' targeted' accepts' => 
          rw [Option.some.inj (kind.symm.trans kind'), targeted.functional agree targeted']
      | member tag => exact other tag (by decide)
  | dynamic number rowed named =>
      cases second with
      | dynamic number' rowed' named' => 
          obtain rfl := Option.some.inj (number.symm.trans number')
          rw [rowed.functional agree rowed', named.functional agree named']
      | member tag => exact other tag (by decide)
  | callSite number rowed named =>
      cases second with
      | callSite number' rowed' named' => 
          obtain rfl := Option.some.inj (number.symm.trans number')
          rw [rowed.functional agree rowed', named.functional agree named']
      | member tag => exact other tag (by decide)

end Functional

/-- An index holds at most one entry. -/
theorem Holds.functional {i : Nat} {e e' : Entry} (first : l.Holds origin i e)
    (second : l.Holds origin i e') : e = e' := by
  induction first generalizing e' with
  | intro inner held constant decodes inductionHypothesis =>
      obtain ⟨inner', held', constant', decodes'⟩ := second
      obtain ⟨rfl, rfl⟩ := constant.functional constant'
      exact decodes.functional (fun j a b first second =>
        inductionHypothesis j a first (held' j b second)) decodes'

/-- What an index holds is what its constant says in terms of what the others hold. -/
theorem holds_iff {i : Nat} {e : Entry} :
    l.Holds origin i e ↔
      ∃ t p, l.ConstantAt i t p ∧ l.Decodes (l.Holds origin) ⟨origin, i⟩ p t e := by
  constructor
  · rintro ⟨inner, held, constant, decodes⟩
    exact ⟨_, _, constant, decodes.mono held⟩
  · rintro ⟨t, p, constant, decodes⟩
    exact .intro _ (fun _ _ => id) constant decodes

/-- An entry that is held stands at its index. -/
theorem Holds.place {i : Nat} {e : Entry} (holds : l.Holds origin i e) :
    e.place = ⟨origin, i⟩ := by
  obtain ⟨inner, held, constant, decodes⟩ := holds
  cases decodes <;> rfl

/-- An index holds a text exactly if its constant spells it. -/
theorem Holds.text_iff {i : Nat} {entry : Utf8Entry} :
    l.Holds origin i (.utf8 entry) ↔ entry.place = ⟨origin, i⟩ ∧ l.TextAt i entry.text := by
  constructor
  · intro holds
    have place := holds.place
    obtain ⟨inner, held, constant, decodes⟩ := holds
    cases decodes with
    | utf8 spelled => exact ⟨place, spelled⟩
  · rintro ⟨place, spelled⟩
    obtain ⟨constant, length, slice, decoded⟩ := spelled
    cases entry
    obtain rfl := place
    exact holds_iff.mpr ⟨_, _, constant, .utf8 (.intro constant length slice decoded)⟩

/-- What refers to a text gives the index of one. -/
theorem Refers.text {p : Nat} {name : Utf8Entry}
    (refers : l.Refers (l.Holds origin) Entry.utf8? p name) :
    ∃ i, l.cursor.u2? p = some i ∧ name.place = ⟨origin, i⟩ ∧ l.TextAt i name.text := by
  obtain ⟨index, holds, taken⟩ := refers
  rename_i i e
  cases e with
  | utf8 entry =>
      obtain rfl := Option.some.inj taken
      exact ⟨i, index, Holds.text_iff.mp holds⟩
  | _ => cases taken

end JvmClass.Layout
