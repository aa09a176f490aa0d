import JvmClass.Proofs.Build.Output

/-!
# Scanning what was written

A scan of a class that was put together from an input comes to the parts that were written: the
constants of the input at their indices, those that were added after them, and the attributes of
the class under their names, the bootstrap table with the rows of the pool among them.
-/

namespace JvmClass

open Emit (Written)
open Layout (Constants Members Rows Row Scanned IsMember)
open PoolBuilder (Keeps)

variable {i : Input} {p q : PoolBuilder} {l : Layout} {d : ClassDraft} {bytes : Bytes}

/-- Members that were written one after another are as many members. -/
theorem Layout.members_of_spells {c : Cursor} {p : Nat} {parts : List Bytes}
    (each : ∀ bytes ∈ parts, IsMember bytes) (spells : c.Spells p parts.flatten) :
    ∃ spans, spans.length = parts.length ∧ Members c p spans (p + parts.flatten.length) := by
  induction parts generalizing p with
  | nil => exact ⟨[], rfl, .done p⟩
  | cons bytes rest inductionHypothesis =>
      rw [List.flatten_cons, Cursor.spells_append_iff] at spells
      obtain ⟨rows, table⟩ := each bytes (List.mem_cons_self ..) c p spells.1
      obtain ⟨spans, length, members⟩ := inductionHypothesis
        (fun other member => each other (List.mem_cons_of_mem _ member)) spells.2
      refine ⟨⟨p, p + 6, p + bytes.length⟩ :: spans, by simp [length], ?_⟩
      rw [List.flatten_cons, List.length_append, ← Nat.add_assoc]
      exact .next rfl rfl table members

/-- The pool of a class file is the one that was written: it starts with that of an input, and
the constants that were added come after. -/
structure PoolBuilder.LiesIn (p : PoolBuilder) (i : Input) (l : Layout) : Prop where
  inherits : l.Inherits i.layout
  own : ∀ (k : Nat) (e : Entry), p.slots[k]? = some (some e) →
    ∃ q, l.ConstantAt (p.base + k) e.tag q ∧ l.cursor.Spells q e.encode
  stop : l.poolEnd = 8 + p.encode.length

/-- The texts of a pool stand in a class file at their places, as their modified UTF-8 reads. -/
def PoolBuilder.Stores (p : PoolBuilder) (l : Layout) : Prop :=
  ∀ text place, p.places[ConstantKey.text text]? = some place → ∃ stored,
    l.TextAt place.index stored ∧ ModifiedUtf8.decode? (ModifiedUtf8.encode text) = some stored

/-- A text that was added stands where it was written. -/
theorem Layout.ConstantAt.stored {n q : Nat} {u : Utf8Entry} (constant : l.ConstantAt n .utf8 q)
    (spells : l.cursor.Spells q (Entry.utf8 u).encode)
    (short : (ModifiedUtf8.encode u.text).length ≤ PoolBuilder.maxTextLength) : ∃ stored,
    l.TextAt n stored ∧ ModifiedUtf8.decode? (ModifiedUtf8.encode u.text) = some stored := by
  rw [PoolBuilder.maxTextLength] at short
  rw [Entry.encode, Entry.operands, Cursor.spells_append_iff, Cursor.spells_append_iff,
    length_u1, length_u2] at spells
  obtain ⟨-, length, contents⟩ := spells
  obtain ⟨stored, decoded, -⟩ := ModifiedUtf8.exists_decode?_encode u.text
  exact ⟨stored, .intro constant (length.u2_of_lt (by omega)) contents.slice decoded, decoded⟩

section Pool

variable (exact : i.Exact) (keeps : Keeps i p) (scanned : l.Scanned)
include exact keeps

/-- What a pool takes over from its parent are the bytes of the constants of that. -/
theorem PoolBuilder.parentBytes_eq :
    p.parentBytes = i.cursor.segment 10 i.layout.poolEnd := by
  have inside := exact.scanned.inside
  have slice : i.cursor.slice? 10 (i.layout.poolEnd - 10 : Nat) =
      some (i.cursor.segment 10 i.layout.poolEnd) :=
    Cursor.slice?_eq_segment inside.1 inside.2
  rw [parentBytes, keeps.parent]
  simp only [slice, Option.getD_some]

/-- A pool that lies in a class file has its texts there. -/
theorem PoolBuilder.LiesIn.stores (lies : p.LiesIn i l) : p.Stores l := by
  intro text place known
  cases keeps.texts _ _ known with
  | inherited entry same stands =>
      obtain ⟨k, here⟩ := Array.getElem?_of_mem entry
      obtain ⟨at_, spelled⟩ := Layout.Holds.text_iff.mp (exact.tells.entries k _ here)
      rw [← stands, at_, ← same]
      exact ⟨_, lies.inherits.textAt exact.scanned spelled, spelled.storable.decodes⟩
  | @own k stands slot =>
      obtain ⟨q, constant, spells⟩ := lies.own k _ slot
      rw [stands]
      exact constant.stored spells (keeps.short k _ slot)

include scanned

/-- A scan comes to the constants that were written. -/
theorem PoolBuilder.liesIn_of_spells (spells : l.cursor.Spells 8 p.encode) : p.LiesIn i l := by
  have inside := exact.scanned.inside
  have start : 10 ≤ i.layout.cursor.size := Nat.le_trans inside.1 inside.2
  have small := keeps.small
  rw [maxSize] at small
  rw [PoolBuilder.encode, parentBytes_eq exact keeps, Cursor.spells_append_iff,
    Cursor.spells_append_iff, List.length_append, length_u2] at spells
  obtain ⟨⟨counted, inherited⟩, added⟩ := spells
  have length := Cursor.length_segment (p := 10) inside.2
  have here : 8 + (2 + (i.cursor.segment 10 i.layout.poolEnd).length) = i.layout.poolEnd := by
    rw [Input.cursor, length]
    omega
  rw [here] at added
  have base : p.base = i.layout.size := keeps.base.trans exact.tells.size
  -- The constants of the input and those that were added are as many as the scan has come to.
  obtain ⟨rest, listed, constants⟩ := exact.scanned.constants
  obtain ⟨more, count, constants', each, -⟩ := PoolBuilder.constants_of_spells keeps.spaced
    (fun u member => by
      obtain ⟨k, slot⟩ := List.getElem?_of_mem member
      exact keeps.short k u (by simpa using slot)) added
  obtain ⟨found, listed', constants''⟩ := scanned.constants
  have sizes : found.length = (rest ++ more).length := by
    have size := scanned.count
    rw [counted.u2_of_lt (by omega)] at size
    have total := Option.some.inj size
    have parent : i.layout.size = rest.length + 1 := by
      simp [Layout.size, listed]
    have whole : l.size = found.length + 1 := by simp [Layout.size, listed']
    rw [PoolBuilder.size] at total
    have slots : p.slots.toList.length = p.slots.size := Array.length_toList
    rw [List.length_append, count]
    omega
  obtain ⟨rfl, stop⟩ := constants''.functional
    ((constants.move start inherited).append constants') sizes
  have first : i.layout.offsets.toList = none :: rest := by simp [listed]
  have second : l.offsets.toList = i.layout.offsets.toList ++ more := by simp [listed', first]
  have length' : i.layout.offsets.toList.length = i.layout.size := Array.length_toList
  refine ⟨⟨fun k below => ?_, inherited⟩, fun k e slot => ?_, ?_⟩
  · rw [← Array.getElem?_toList, second, List.getElem?_append_left (by omega),
      Array.getElem?_toList]
  · obtain ⟨q, offset, spells⟩ := each k e (by simpa using slot)
    refine ⟨q, ⟨?_, _, Entry.tag_of_spells spells, Tag.ofByte?_byte _⟩, spells⟩
    have after : p.base + k - i.layout.offsets.toList.length = k := by omega
    rw [← Array.getElem?_toList, second, List.getElem?_append_right (by omega), after, offset]
    rfl
  · rw [stop, PoolBuilder.encode, parentBytes_eq exact keeps, List.length_append,
      List.length_append, length_u2]
    omega

end Pool

/-- The pool comes after the version. -/
theorem ClassDraft.Assembled.spells (assembled : d.Assembled q p bytes)
    (cursor : l.cursor = ⟨bytes.toArray⟩) : l.cursor.Spells 8 p.encode := by
  obtain ⟨-, -, -, -, -, -, -, -, -, -, whole⟩ := assembled
  have all : l.cursor.Spells 0 bytes := cursor ▸ Cursor.spells_all bytes
  rw [whole] at all
  simp only [Cursor.spells_append_iff, length_u4, length_u2] at all
  exact all.2.2.2.1

/-- Where a scan of an assembled class comes to the end of its pool, it comes to the attributes that
were written. -/
theorem ClassDraft.Assembled.rescanned (assembled : d.Assembled q p bytes)
    (scannable : d.Scannable) (scanned : l.Scanned) (cursor : l.cursor = ⟨bytes.toArray⟩)
    (stop : l.poolEnd = 8 + p.encode.length) :
    ∃ rows ws, Layout.Table l.cursor l.attributes rows l.cursor.size ∧
      List.Forall₂ (Row.Shows l.cursor) rows ws ∧ (∀ w ∈ ws, w.In p) ∧ d.Attributed q ws := by
  obtain ⟨fewFields, fewMethods, fine, indexed, attributed, -, there, length, count, listed,
      whole⟩ :=
    assembled
  rename_i front interfaces k n ws
  have all : l.cursor.Spells 0 bytes := cursor ▸ Cursor.spells_all bytes
  have total : l.cursor.size = bytes.length := by rw [cursor]; simp [Cursor.size]
  rw [whole] at all total
  simp only [Cursor.spells_append_iff, length_u4, length_u2, length, listed] at all
  obtain ⟨-, -, -, -, -, interfaceCount, -, fieldCount, fields, methodCount, methods, -,
    attributesAt⟩ := all
  rw [ClassDraft.maxMembers] at fewFields fewMethods
  obtain ⟨r, fieldCount', fields', methodCount', methods'⟩ := scanned.members
  have interfaces : k = l.interfaces.length := by
    have here : 0 + 4 + 2 + 2 + p.encode.length + 6 = l.poolEnd + 6 := by omega
    rw [here] at interfaceCount
    exact Option.some.inj ((interfaceCount.u2_of_lt count).symm.trans scanned.interfaceCount)
  -- As many fields and methods as were written.
  have start : 0 + 4 + 2 + 2 + p.encode.length + 6 + 2 + 2 * k =
      l.poolEnd + 8 + 2 * l.interfaces.length := by omega
  rw [start] at fieldCount fields methodCount methods attributesAt
  have someFields : d.fields.size = l.fields.length :=
    Option.some.inj ((fieldCount.u2_of_lt (by omega)).symm.trans fieldCount')
  obtain ⟨spans, lengths, members⟩ :=
    Layout.members_of_spells (fun bytes member => scannable.fields bytes (by simpa using member))
      fields
  obtain ⟨-, rfl⟩ := fields'.functional members (by rw [lengths, Array.length_toList, someFields])
  have someMethods : d.methods.size = l.methods.length :=
    Option.some.inj ((methodCount.u2_of_lt (by omega)).symm.trans methodCount')
  obtain ⟨spans', lengths', members'⟩ :=
    Layout.members_of_spells (fun bytes member => scannable.methods bytes (by simpa using member))
      methods
  obtain ⟨-, last⟩ :=
    methods'.functional members' (by rw [lengths', Array.length_toList, someMethods])
  -- The attributes end with the file.
  obtain ⟨rows, table⟩ := scanned.attributes
  obtain ⟨rows', held, shows⟩ :=
    Layout.rows_of_spells (fun w member => (there w member).fits) attributesAt
  have whole : rows = rows' := by
    refine Rows.functional_of_end (c := l.cursor) (p := l.attributes + 2) (q := l.cursor.size)
      table.rows ?_
    have ends : l.poolEnd + 8 + 2 * l.interfaces.length + 2 + d.fields.toList.flatten.length + 2 +
        d.methods.toList.flatten.length + 2 + (ws.flatMap Written.bytes).length =
        l.cursor.size := by
      rw [total]
      simp only [List.length_append, length_u4, length_u2, length, listed]
      omega
    rw [ends, ← last] at held
    exact held
  exact ⟨rows, ws, table, whole ▸ shows, there, attributed⟩

/-- The name of an attribute that was written stands in a class file, as its modified UTF-8 form
reads. -/
structure Emit.Written.Stands (l : Layout) (w : Written) : Prop where
  fits : w.body.length ≤ maxLength
  named : ∃ stored, l.TextAt w.place.index stored ∧
    ModifiedUtf8.decode? (ModifiedUtf8.encode w.name) = some stored

/-- A name that stands in a pool stands in the class file that the pool was written to. -/
theorem PoolBuilder.Stores.stands (stores : p.Stores l) (fine : p.error = none) {w : Written}
    (here : w.In p) : w.Stands l := ⟨here.fits, stores _ _ (here.known fine)⟩

/-- An attribute of a class file is one that was written: its body is the bytes that were written,
and its name is what the modified UTF-8 form of the name reads as. -/
structure Envelope.Holds (l : Layout) (env : Envelope) (w : Written) : Prop where
  body : l.cursor.Spells env.offset w.body
  length : env.length = w.body.length
  name : ModifiedUtf8.decode? (ModifiedUtf8.encode w.name) = some env.name.text
  same : w.name.isUtf8 = true → env.name.text = w.name

namespace Layout

/-- The attributes from `p` on are those that were written, one after another. -/
inductive Lists (l : Layout) : Nat → List Envelope → List Written → Prop
  | done (p : Nat) : Lists l p [] []
  | next {p : Nat} {env : Envelope} {w : Written} {envs : List Envelope} {ws : List Written}
      (offset : env.offset = p + 6) (holds : env.Holds l w)
      (others : Lists l (p + w.bytes.length) envs ws) : Lists l p (env :: envs) (w :: ws)

/-- As many attributes are listed as were written. -/
theorem Lists.length {start : Nat} {envs : List Envelope} {ws : List Written}
    (lists : l.Lists start envs ws) : envs.length = ws.length := by
  induction lists with
  | done => rfl
  | next _ _ _ inductionHypothesis => simp [inductionHypothesis]

/-- The names of attributes that were written are found. -/
theorem envelopes_of_rows (scanned : l.Scanned) (origin : Origin) {start stop : Nat}
    {rows : List Row} {ws : List Written} (held : Rows l.cursor start rows stop)
    (shows : List.Forall₂ (Row.Shows l.cursor) rows ws) (there : ∀ w ∈ ws, w.Stands l) :
    ∃ envs, l.Envelopes origin start envs ∧ l.Lists start envs ws := by
  induction held generalizing ws with
  | done p =>
      cases shows
      exact ⟨[], .done p, .done p⟩
  | @next start stop row rest name length offset inside others inductionHypothesis =>
      cases shows with
      | @cons _ w _ ws first shows =>
          rw [List.forall_mem_cons] at there
          obtain ⟨⟨fits, stored, spelled, decoded⟩, there⟩ := there
          obtain ⟨envs, found, shown⟩ := inductionHypothesis shows there
          have small : w.place.index < 65536 := by
            obtain ⟨constant, -, -, -⟩ := spelled
            exact Nat.lt_trans (Lookup.lt_size constant.offset) scanned.size_lt
          have index : row.name = w.place.index := by rw [first.name, unsigned_ofNat small]
          rw [index] at name
          have size : start + w.bytes.length = row.offset + row.length := by
            rw [Written.bytes, List.length_append, List.length_append, length_u2, length_u4, offset,
              first.length]
            omega
          rw [← size] at shown
          have utf8 (valid : w.name.isUtf8 = true) : stored = w.name :=
            Option.some.inj (decoded.symm.trans (Text.decode?_encode_of_isUtf8 valid))
          rw [offset] at found
          exact ⟨⟨⟨⟨origin, w.place.index⟩, stored⟩, start + 6, row.length⟩ :: envs,
            .next name spelled length found,
            .next rfl ⟨offset ▸ first.body, first.length, decoded, utf8⟩ shown⟩

end Layout

/-- An attribute of a class file is one that was written. Its name may be read differently, but not
as that of the bootstrap table. -/
structure Envelope.Shows (l : Layout) (env : Envelope) (w : Written) : Prop where
  body : l.cursor.Spells env.offset w.body
  length : env.length = w.body.length
  name : env.name.text = Lookup.bootstrapMethods ↔ w.name = Lookup.bootstrapMethods

/-- No other name reads as one of ASCII letters. -/
theorem Envelope.Holds.shows {env : Envelope} {w : Written} (holds : env.Holds l w) :
    env.Shows l w := by
  obtain ⟨stored, decoded, ascii⟩ := ModifiedUtf8.exists_decode?_encode w.name
  obtain rfl := Option.some.inj (decoded.symm.trans holds.name)
  have plain : ∀ b ∈ Lookup.bootstrapMethods, b.toNat < 0x80 := by decide +kernel
  refine ⟨holds.body, holds.length, fun same => ?_, fun same => ?_⟩
  · exact (ascii (.inl (same ▸ plain))).symm.trans same
  · exact (ascii (.inr (same ▸ plain))).trans same

/-- Each envelope shows the attribute that was written there. -/
theorem Layout.Lists.shows {start : Nat} {envs : List Envelope} {ws : List Written}
    (lists : l.Lists start envs ws) : List.Forall₂ (Envelope.Shows l) envs ws := by
  induction lists with
  | done => exact .nil
  | next _ holds _ inductionHypothesis => exact .cons holds.shows inductionHypothesis

/-- The rows of a pool stand in the bootstrap table of a class file, and no others. -/
def Layout.HasRows (l : Layout) (origin : Origin) (p : PoolBuilder) : Prop :=
  ∃ table, l.IsTable origin table ∧ table.size = p.rows.size ∧
    ∀ (r : Nat) (row : BootstrapRow), p.rows[r]? = some row →
      ∃ o, table[r]? = some o ∧ l.cursor.Spells o row.encode

section Table

variable {envs : List Envelope} {ws : List Written}

/-- There is no bootstrap table among attributes none of which is called so. -/
theorem Layout.tableEnvelope?_eq_none (plain : ∀ w ∈ ws, w.name ≠ Lookup.bootstrapMethods)
    (shows : List.Forall₂ (Envelope.Shows l) envs ws) : tableEnvelope? envs = none := by
  rw [tableEnvelope?, List.find?_eq_none]
  induction shows with
  | nil => exact fun env member => absurd member List.not_mem_nil
  | @cons env w _ _ first _ inductionHypothesis =>
      intro other member
      rcases List.mem_cons.mp member with rfl | member
      · simpa [first.name] using plain w (List.mem_cons_self ..)
      · exact inductionHypothesis (fun v here => plain v (List.mem_cons_of_mem _ here)) other member

/-- The one attribute that is named as the bootstrap table is found. -/
theorem Layout.tableEnvelope?_eq_some {w : Written}
    (plain : ∀ w ∈ ws, w.name ≠ Lookup.bootstrapMethods) (named : w.name = Lookup.bootstrapMethods)
    (shows : List.Forall₂ (Envelope.Shows l) envs (ws ++ [w])) :
    ∃ env, tableEnvelope? envs = some env ∧ env.Shows l w := by
  induction ws generalizing envs with
  | nil =>
      cases shows with
      | cons first _ => exact ⟨_, by simp [tableEnvelope?, first.name.mpr named], first⟩
  | cons v rest inductionHypothesis =>
      cases shows with
      | cons first shows =>
          obtain ⟨env, found, shown⟩ := inductionHypothesis
            (fun w member => plain w (List.mem_cons_of_mem _ member)) shows
          have other := mt first.name.mp (plain v (List.mem_cons_self ..))
          refine ⟨env, ?_, shown⟩
          rw [tableEnvelope?, List.find?_cons_of_neg (by simpa using other)]
          exact found

/-- The only bootstrap table of the class is the one that was written from the pool. -/
theorem ClassDraft.Attributed.hasRows {origin : Origin} (attributed : d.Attributed q ws)
    (foreign : ∀ a ∈ d.attributes, a.name ≠ Lookup.bootstrapMethods)
    (few : q.rows.size ≤ 65535) (short : ∀ row ∈ q.rows, row.arguments.length ≤ 65535)
    (addressable : l.cursor.Addressable) (all : l.ClassEnvelopes origin envs)
    (shows : List.Forall₂ (Envelope.Shows l) envs ws) : l.HasRows origin q := by
  have plain {ws : List Written}
      (names : ws.map Written.name = d.attributes.toList.map Attribute.name) :
      ∀ w ∈ ws, w.name ≠ Lookup.bootstrapMethods := by
    intro w member
    have named := List.mem_map_of_mem (f := Written.name) member
    rw [names] at named
    obtain ⟨a, listed, same⟩ := List.mem_map.mp named
    exact same ▸ foreign a (by simpa using listed)
  cases attributed with
  | plain names empty =>
      refine ⟨#[], .absent all (Layout.tableEnvelope?_eq_none (plain names) shows), empty.symm,
        fun r row here => ?_⟩
      rw [Array.size_eq_zero_iff.mp empty] at here
      cases here
  | @table ws w names name body =>
      obtain ⟨env, found, shown⟩ := Layout.tableEnvelope?_eq_some (plain names) name shows
      have spells := shown.body
      have whole : w.body =
          u2 q.rows.toList.length ++ q.rows.toList.flatMap BootstrapRow.encode := by
        rw [body, Array.length_toList]
        rfl
      have inside := spells.inside
      rw [← shown.length] at inside
      have length := congrArg List.length whole
      rw [List.length_append, length_u2] at length
      rw [whole, Cursor.spells_append_iff, length_u2] at spells
      obtain ⟨offsets, count, held, each⟩ := rowOffsets_of_spells
        (fun row member => Nat.lt_succ_of_le (short row (by simpa using member))) spells.2
      have stop : env.offset + 2 + (q.rows.toList.flatMap BootstrapRow.encode).length =
          env.offset + env.length := by
        rw [shown.length]
        omega
      rw [stop] at held
      have counted := spells.1.u2_of_lt (by rw [Array.length_toList]; omega)
      rw [← count] at counted
      refine ⟨_, .present all found (Lookup.scanTable_of_rowOffsets ⟨inside, addressable⟩ counted
        held), by simpa using count, fun r row here => ?_⟩
      obtain ⟨o, offset, spelled⟩ := each r row (by simpa using here)
      exact ⟨o, by simpa using offset, spelled⟩

end Table

/-- An assembled class has the rows of the pool in its bootstrap table. -/
theorem ClassDraft.Assembled.hasRows (assembled : d.Assembled q p bytes) (scannable : d.Scannable)
    (scanned : l.Scanned) (cursor : l.cursor = ⟨bytes.toArray⟩)
    (stop : l.poolEnd = 8 + p.encode.length) (stores : p.Stores l)
    (addressable : l.cursor.Addressable) (origin : Origin)
    (foreign : ∀ a ∈ d.attributes, a.name ≠ Lookup.bootstrapMethods)
    (few : q.rows.size ≤ 65535) (short : ∀ row ∈ q.rows, row.arguments.length ≤ 65535) :
    l.HasRows origin q := by
  obtain ⟨rows, ws, table, shows, there, attributed⟩ :=
    assembled.rescanned scannable scanned cursor stop
  have fine : p.error = none := by
    obtain ⟨-, -, fine, -⟩ := assembled
    exact fine
  obtain ⟨envs, found, lists⟩ := Layout.envelopes_of_rows scanned origin table.rows shows
    fun w member => stores.stands fine (there w member)
  have all : l.ClassEnvelopes origin envs :=
    ⟨by rw [lists.length, ← shows.length_eq]; exact table.count, found⟩
  exact attributed.hasRows foreign few short addressable all lists.shows

/-- A class that was put together from an input has the pool that was written, with the rows of
the pool in its bootstrap table. -/
theorem ClassDraft.Assembled.reread (assembled : d.Assembled q p bytes) (exact : i.Exact)
    (keeps : Keeps i p) (scannable : d.Scannable) (scanned : l.Scanned)
    (cursor : l.cursor = ⟨bytes.toArray⟩) (addressable : l.cursor.Addressable) (origin : Origin)
    (foreign : ∀ a ∈ d.attributes, a.name ≠ Lookup.bootstrapMethods)
    (few : q.rows.size ≤ 65535) (short : ∀ row ∈ q.rows, row.arguments.length ≤ 65535) :
    p.LiesIn i l ∧ l.HasRows origin q := by
  have lies := PoolBuilder.liesIn_of_spells exact keeps scanned (assembled.spells cursor)
  exact ⟨lies, assembled.hasRows scannable scanned cursor lies.stop (lies.stores exact keeps)
    addressable origin foreign few short⟩

/-! ## Constants that keep their meaning

Where a class file starts with the pool of another, and its bootstrap table with the rows that the
other has, the constants of the other stand in it. Each index then denotes what it denoted before.
-/

open PoolBuilder (RowsOf shared)

variable {rows : List BootstrapRow} {origin : Origin}

namespace PoolBuilder

/-- Before anything was asked of it, a pool keeps all of its parent. -/
theorem keeps_ofParent (exact : i.Exact) : Keeps i (ofParent i) where
  parent := rfl
  base := rfl
  waiting _ := ⟨rfl, rfl, fun key => Std.HashMap.getElem?_empty⟩
  small := by
    have small := exact.scanned.size_lt
    have size : (ofParent i).size = i.layout.size := exact.tells.size
    rw [size, maxSize]
    omega
  spaced := .nil
  short k u slot := nomatch slot
  texts text place known := nomatch Std.HashMap.getElem?_empty.symm.trans known
  rows no := nomatch no

/-- A pool that has entered nothing keeps the constants of its parent as they are. -/
theorem inv_ofParent (exact : i.Exact) : (ofParent i).Inv where
  base parent known := by
    obtain rfl := Option.some.inj known
    exact exact.tells.size
  orphan no := nomatch no
  small := (keeps_ofParent exact).small
  exact parent known := Option.some.inj known ▸ exact
  waiting _ := ⟨rfl, rfl, fun _ => Std.HashMap.getElem?_empty, fun _ => Std.HashMap.getElem?_empty⟩
  places key place known := nomatch Std.HashMap.getElem?_empty.symm.trans known
  slots k e slot := nomatch slot
  spaced := .nil
  rows r row here := nomatch here
  inherited no := nomatch no
  rowOf key row known := nomatch Std.HashMap.getElem?_empty.symm.trans known

/-- A pool that has entered an input has the rows that can be read. -/
theorem Keeps.rowsOf (keeps : Keeps i q) (indexed : q.indexed = true) :
    ∃ rows, RowsOf i rows ∧ ∀ (r : Nat) (row : BootstrapRow), rows[r]? = some row →
      q.rows[r]? = some row := by
  cases given : i.pool.rows with
  | error e => exact ⟨[], .unreadable given, nofun⟩
  | ok outcomes =>
      obtain ⟨rows, rfl, kept⟩ := keeps.rows indexed outcomes given
      exact ⟨rows, .read given rfl, kept⟩

/-- A pool that has entered constants and rows of its parent keeps them as they are. -/
theorem inv_shared (exact : i.Exact) (entered : RowsOf i rows) : (shared i rows).Inv := by
  have entering : Entered (ofParent i) i (shared i rows) := {
    parent := rfl
    base := rfl
    slots := rfl
    indexed := rfl
    rows := fun r row here => nomatch here
    fine := fun _ => ⟨rfl, rfl, by
      cases entered with
      | unreadable given => exact .inl ⟨_, given, rfl, rfl⟩
      | read given all =>
          refine .inr ⟨rows, ?_, ?_, rfl⟩
          · rw [given, ← all]
          · change rows.toArray = #[] ++ rows.toArray
            simp⟩ }
  exact entering.sound rfl rfl (fun _ => inv_ofParent exact) rfl

/-- The rows that an input has been entered with are its rows. -/
theorem RowsOf.rowAt (exact : i.Exact) (entered : RowsOf i rows) {r : Nat} {row : BootstrapRow}
    (here : rows[r]? = some row) :
    i.layout.RowAt i.origin (i.layout.Holds i.origin) r row := by
  cases entered with
  | unreadable => cases here
  | @read outcomes _ given all =>
      obtain ⟨table, -, -, each⟩ := exact.tells.rows _ given
      refine each r row ?_
      rw [← Array.getElem?_toList, all, List.getElem?_map, here]
      rfl

/-- The constants of an input stand in a class file that starts with them. -/
theorem standsIn_shared (exact : i.Exact) (entered : RowsOf i rows) (inherits : l.Inherits i.layout)
    (hasRows : l.HasRows origin q) (kept : ∀ (r : Nat) (row : BootstrapRow), rows[r]? = some row →
      q.rows[r]? = some row) : (shared i rows).StandsIn l origin where
  entries e has := by
    cases has with
    | own place slot => cases slot
    | inherited known holds =>
        obtain rfl := Option.some.inj known
        obtain ⟨o, constant, operands⟩ := holds.operandsAt
        exact ⟨o, inherits.constantAt exact.scanned constant,
          inherits.operandsAt exact.scanned constant operands⟩
  rows := by
    obtain ⟨table, isTable, -, each⟩ := hasRows
    refine ⟨table, isTable, fun r row here => ?_⟩
    have here : rows[r]? = some row := by simpa [shared] using here
    obtain ⟨o, offset, spells⟩ := each r row (kept r row here)
    have small {e : Entry} (holds : i.layout.Holds i.origin e.index e) : e.index < 65536 := by
      obtain ⟨t, q, constant, -⟩ := Layout.holds_iff.mp holds
      exact Nat.lt_trans (Lookup.lt_size constant.offset) exact.scanned.size_lt
    have made := (entered.rowAt exact here).made
    have count := made.count
    exact ⟨o, offset, BootstrapRow.standsAt_of_spells spells (small made.handle) (by omega)
      fun a member => small (made.arguments a member)⟩

end PoolBuilder

/-- What an index of an input denotes, the index of a class file that starts with the constants and
rows of the input denotes too. -/
theorem Layout.Holds.mirrored (exact : i.Exact) (keeps : Keeps i q) (indexed : q.indexed = true)
    (inherits : l.Inherits i.layout) (hasRows : l.HasRows origin q) {k : Nat} {e : Entry}
    (holds : i.layout.Holds i.origin k e) : ∃ e', l.Holds origin k e' ∧ e'.bare = e.bare := by
  obtain ⟨rows, entered, kept⟩ := keeps.rowsOf indexed
  have index : e.index = k := by rw [Entry.index, holds.place]
  have stands := PoolBuilder.standsIn_shared exact entered inherits hasRows kept
  have mirrors := stands.mirrors (PoolBuilder.inv_shared exact entered) rfl
    (e := e) (.inherited rfl (index.symm ▸ holds))
  rwa [Layout.Mirrors, index] at mirrors

end JvmClass
