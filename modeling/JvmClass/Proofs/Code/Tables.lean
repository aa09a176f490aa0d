import JvmClass.Proofs.Attribute.RoundTrip
import JvmClass.Proofs.Build.Sends
import JvmClass.Proofs.Code.Recording
import JvmClass.Proofs.Code.StackMaps
import JvmClass.Proofs.Options

/-!
# The tables of a body that are written and read again

Rows refer to offsets where the elements of a body have labels. A row that was written is read as
one with the labels of the decoded body for the same offsets.
-/

namespace JvmClass

open Layout (covered)
open Emit (Sends maxCount maxLength)

variable {σ : Type} {p q : PoolBuilder} {options : Options} {stands : Label → Option Nat}
    {size : Nat}

/-- A body of some size in an input that reads the pool, of which nothing is left out. -/
structure InputCode.Rereads (q : PoolBuilder) (size : Nat) (c : InputCode) : Prop where
  reads : c.input.Reads q
  length : c.codeLength = size
  short : size ≤ BodyWriter.maxSize
  whole : c.input.options.copiesVerbatim = true
  described : ∃ d, MethodDescriptor.parse c.method.descriptor.text = .ok d

/-- A label that stands at an offset becomes the label of a decoded body for it. -/
theorem InputCode.bind_standing {c : InputCode} {l : Option Label} {n : Nat}
    (there : l.bind stands = some n) : l.bind (c.standing stands) = some (c.label n) := by
  obtain ⟨l, rfl, here⟩ := Option.bind_eq_some_iff.mp there
  rw [Option.bind_some, standing, here, Option.map_some]

/-! ## References -/

/-- Every input that reads the pool finds the class at the index, or none if there is none. -/
def PoolBuilder.ShowsClass (q : PoolBuilder) (e : Option ClassEntry) (n : Nat) : Prop :=
  ∀ i : Input, i.Reads q → n < 65536 ∧
    ∃ e' : Option ClassEntry, e'.map ClassEntry.bare = e.map ClassEntry.bare ∧
      ∀ at_, (if n = 0 then pure none else some <$> i.pool.refer Entry.class? at_ n) = .ok e'

/-- Every input that reads the pool finds the text at the index. -/
def PoolBuilder.ShowsText (q : PoolBuilder) (e : Option Utf8Entry) (n : Nat) : Prop :=
  ∀ i : Input, i.Reads q → n < 65536 ∧
    ∃ e' : Utf8Entry, some e'.bare = e.map Utf8Entry.bare ∧
      ∀ at_, i.pool.refer Entry.utf8? at_ n = .ok e'

namespace Emit

/-- The index of a class, or zero, is written such that every later pool shows the class. -/
theorem sends_optionalClass {e : Option ClassEntry}
    (accepted : ∀ m ∈ ClassEntry.optional e, m.Accepted p) :
    Sends p options (optionalClass e : Emit σ Bytes) fun q text =>
      ∃ n : Nat, text = u2 n ∧ q.ShowsClass e n := by
  refine Lays.sends ?_ (tries_optionalClass (Build.Law.gives_calls _))
  cases e with
  | none => exact .pure fun q _ => ⟨0, rfl, fun i _ => ⟨by decide, none, rfl, fun _ => rfl⟩⟩
  | some e =>
      refine (Lays.ref (accepted _ (List.mem_singleton_self _))).mono
        fun q text _ ⟨n, same, denotes⟩ => ⟨n, same, fun i reads => ?_⟩
      obtain ⟨small, positive, e', referred, bare⟩ := reads.refer Entry.blind_class? rfl denotes
      refine ⟨small, some e', congrArg some bare, fun at_ => ?_⟩
      rw [if_neg positive, referred]
      rfl

/-- The index of a text, or zero, is written such that every later pool shows the text. -/
theorem sends_refUtf8 {e : Option Utf8Entry} (accepted : ∀ m ∈ Utf8Entry.optional e, m.Accepted p) :
    Sends p options (refUtf8 e : Emit σ Bytes) fun q text => ∃ n :
      Nat, text = u2 n ∧ q.ShowsText e n := by
  have tries : Tries (.calls σ) (refUtf8 e : Emit σ Bytes) :=
    tries_refUtf8 (Build.Law.gives_calls _)
  cases e with
  | none =>
      refine ⟨tries, fun _ _ _ writes => ?_⟩
      obtain ⟨⟨⟩, s₁, noted, -⟩ := (writes_bind_iff fun _ => .pure _).mp writes
      exact nomatch congrArg (·.1.2) noted
  | some e =>
      refine Lays.sends ?_ tries
      refine (Lays.ref (accepted _ (List.mem_singleton_self _))).mono
        fun q text _ ⟨n, same, denotes⟩ => ⟨n, same, fun i reads => ?_⟩
      obtain ⟨small, -, e', referred, bare⟩ := reads.refer Entry.blind_utf8? rfl denotes
      exact ⟨small, e', congrArg some bare, referred⟩

end Emit

/-! ## Handlers -/

namespace Catch

/-- What is read says the same as the row of a handler. -/
def Restates (stands : Label → Option Nat) (c : InputCode) (row row' : Catch) : Prop :=
  row'.placed some = row.placed (c.standing stands)

/-- The row covers some instructions of the code, and its handler is one. -/
structure Placed (stands : Label → Option Nat) (size : Nat) (row : Catch) : Prop where
  stop : ∀ n, row.stop.bind stands = some n → n ≤ size
  handler : ∀ n, row.handler.bind stands = some n → n < size
  covering : row.start.bind stands ≠ row.stop.bind stands

/-- The offsets that the labels of a row stand at. -/
structure Resolved (stands : Label → Option Nat) (row : Catch)
    (r : Nat × Nat × Nat × Option ClassEntry) : Prop where
  start : row.start.bind stands = some r.1
  stop : row.stop.bind stands = some r.2.1
  handler : row.handler.bind stands = some r.2.2.1
  type : row.type = r.2.2.2
  before : r.1 < r.2.1

/-- Wherever a body spells the bytes among its exceptions, they are read as the row. -/
def Shown (q : PoolBuilder) (stands : Label → Option Nat) (size : Nat) (row : Catch)
    (chunk : Bytes) : Prop :=
  chunk.length = 8 ∧ ∀ c : InputCode, c.Rereads q size → ∀ n : Nat,
    c.cursor.Spells (c.exceptions + 2 + 8 * n) chunk →
    ∃ row', c.readCatch n = .ok row' ∧ row.Restates stands c row'

/-- The row of a handler whose labels stand in the code is read as it was written. -/
theorem shown_of_resolved {row : Catch} {start stop handler n : Nat} {type : Option ClassEntry}
    (placed : row.Placed stands size) (resolved : row.Resolved stands (start, stop, handler, type))
    (class_ : q.ShowsClass type n) :
    row.Shown q stands size (u2 start ++ u2 stop ++ u2 handler ++ u2 n) := by
  refine ⟨by simp, fun c rereads k spells => ?_⟩
  obtain ⟨startAt, stopAt, handlerAt, rfl, before⟩ := resolved
  have stopInside := placed.stop stop stopAt
  have handlerInside := placed.handler handler handlerAt
  have length := rereads.length
  have short := rereads.short
  rw [BodyWriter.maxSize] at short
  obtain ⟨small, e', bare, referred⟩ := class_ c.input rereads.reads
  simp only at before handlerInside
  refine ⟨⟨some (c.label start), some (c.label stop), some (c.label handler), e'⟩, ?_, ?_⟩
  · rw [InputCode.readCatch]
    generalize c.exceptions + 2 + 8 * k = at_ at spells ⊢
    simp only [Cursor.spells_append_iff, List.length_append, length_u2] at spells
    obtain ⟨⟨⟨first, second⟩, third⟩, fourth⟩ := spells
    have startRead : c.cursor.u2? at_ = some start := first.u2_of_lt (by omega)
    have stopRead : c.cursor.u2? (at_ + 2) = some stop := second.u2_of_lt (by omega)
    have handlerRead : c.cursor.u2? (at_ + 4) = some handler := third.u2_of_lt (by omega)
    have typeRead : c.cursor.u2? (at_ + 6) = some n := fourth.u2_of_lt small
    refine bind_eq_ok_iff.mpr ⟨start, congrArg covered startRead, ?_⟩
    refine bind_eq_ok_iff.mpr ⟨stop, congrArg covered stopRead, ?_⟩
    refine bind_eq_ok_iff.mpr ⟨handler, congrArg covered handlerRead, ?_⟩
    refine guard_eq_ok_iff.mpr ⟨?_, ?_⟩
    · simp only [Bool.or_eq_true, decide_eq_true_eq]
      omega
    · refine bind_eq_ok_iff.mpr ⟨n, congrArg covered typeRead, ?_⟩
      have known := referred (at_ + 6)
      dsimp only
      split <;> rename_i zero
      · rw [if_pos zero] at known
        exact bind_eq_ok_iff.mpr ⟨e', known, rfl⟩
      · rw [if_neg zero] at known
        exact bind_eq_ok_iff.mpr ⟨e', known, rfl⟩
  · simp only [Restates, Catch.placed, Option.bind_some, InputCode.bind_standing startAt,
      InputCode.bind_standing stopAt, InputCode.bind_standing handlerAt, bare]

end Catch

namespace BodyWriter

variable {w : BodyWriter}

/-- The handlers that cover some code, in order. -/
theorem handlers_eq_ok {rows : List (Nat × Nat × Nat × Option ClassEntry)}
    (given : w.handlers = .ok rows)
    (placed : ∀ row ∈ w.catches.toList, row.Placed w.stands size) :
    List.Forall₂ (Catch.Resolved w.stands) w.catches.toList rows := by
  obtain ⟨all, resolved, kept⟩ := bind_eq_ok_iff.mp given
  obtain rfl := pure_eq_ok_iff.mp kept
  have each : List.Forall₂ (Catch.Resolved w.stands) w.catches.toList all := by
    refine (forall₂_mem (mapM_eq_ok_iff.mp resolved)).imp fun c r ⟨member, row⟩ => ?_
    obtain ⟨start, startAt, row⟩ := bind_eq_ok_iff.mp row
    obtain ⟨stop, stopAt, row⟩ := bind_eq_ok_iff.mp row
    obtain ⟨handler, handlerAt, row⟩ := bind_eq_ok_iff.mp row
    obtain ⟨ordered, row⟩ := guard_eq_ok_iff.mp row
    obtain rfl := pure_eq_ok_iff.mp row
    rw [offset_eq_ok_iff] at startAt stopAt handlerAt
    have apart : start ≠ stop :=
      fun same => (placed c member).covering (by rw [startAt, stopAt, same])
    exact ⟨startAt, stopAt, handlerAt, rfl, show start < stop by omega⟩
  have whole : all.filter (fun r => r.1 ≠ r.2.1) = all := List.filter_eq_self.mpr fun r member => by
    obtain ⟨c, -, resolved⟩ := exists_left_of_forall₂ each member
    simpa using Nat.ne_of_lt resolved.before
  exact whole.symm ▸ each

/-- Handlers that cover some code are written with their count. -/
theorem sends_exceptionTable (placed : ∀ row ∈ w.catches.toList, row.Placed w.stands size)
    (accepted : ∀ row ∈ w.catches.toList, ∀ m ∈ ClassEntry.optional row.type, m.Accepted p) :
    Sends p options (w.exceptionTable : Emit σ Bytes) fun q text => ∃ chunks,
      text = u2 w.catches.size ++ chunks.flatten ∧ w.catches.size ≤ maxCount ∧
        List.Forall₂ (Catch.Shown q w.stands size) w.catches.toList chunks := by
  refine .given fun rows known => ?_
  have all := handlers_eq_ok known placed
  have each (r : Nat × Nat × Nat × Option ClassEntry) (member : r ∈ rows) :
      Sends p options (do return u2 r.1 ++ u2 r.2.1 ++ u2 r.2.2.1 ++
        (← Emit.optionalClass r.2.2.2) : Emit σ Bytes)
        fun q chunk => ∃ n : Nat, chunk = u2 r.1 ++ u2 r.2.1 ++ u2 r.2.2.1 ++ u2 n ∧
          q.ShowsClass r.2.2.2 n := by
    obtain ⟨row, there, resolved⟩ := exists_left_of_forall₂ all member
    refine (Emit.sends_optionalClass (resolved.type ▸ accepted row there)).bind fun text => .pure ?_
    rintro q - ⟨n, rfl, known⟩
    exact ⟨n, rfl, known⟩
  refine (Sends.counted each).mono fun q text _ ⟨chunks, same, few, rows'⟩ => ?_
  have length : rows.length = w.catches.size := by rw [← all.length_eq, Array.length_toList]
  refine ⟨chunks, length ▸ same, length ▸ few, forall₂_trans (forall₂_mem all) rows' ?_⟩
  rintro row ⟨start, stop, handler, type⟩ chunk ⟨member, resolved⟩ ⟨n, rfl, known⟩
  exact Catch.shown_of_resolved (placed row member) resolved known

end BodyWriter

/-! ## Nested attributes -/

/-- Rows of a table after others. -/
theorem Layout.Rows.append {c : Cursor} {rows rows' : List Row} {a b d : Nat}
    (first : Rows c a rows b)
    (second : Rows c b rows' d) : Rows c a (rows ++ rows') d := by
  induction first with
  | done => exact second
  | next name length offset inside others inductionHypothesis =>
      exact .next name length offset inside (inductionHypothesis second)

namespace InputCode

/-- What several nested attributes hold. -/
def Nested.append (a b : Nested) : Nested where
  lines := a.lines ++ b.lines
  scopes := a.scopes ++ b.scopes
  frames := a.frames ++ b.frames
  others := a.others ++ b.others

instance : Append Nested := ⟨Nested.append⟩

/-- Nested attributes are appended table by table. -/
theorem Nested.append_eq (a b : Nested) :
    a ++ b = ⟨a.lines ++ b.lines, a.scopes ++ b.scopes, a.frames ++ b.frames,
      a.others ++ b.others⟩ := rfl

/-- Nothing appended changes nothing. -/
theorem Nested.append_empty (a : Nested) : a ++ ({} : Nested) = a := by
  simp only [append_eq, List.append_nil]

/-- Something appended to nothing is itself. -/
theorem Nested.empty_append (a : Nested) : ({} : Nested) ++ a = a := by
  simp only [append_eq, List.nil_append]

/-- Appending is associative. -/
theorem Nested.append_assoc (a b d : Nested) : a ++ b ++ d = a ++ (b ++ d) := by
  simp only [append_eq, List.append_assoc]

/-- Wherever a body spells the bytes, they are read as nested attributes, which hold something that
`adds` is true of. -/
def Holds (q : PoolBuilder) (size n : Nat) (text : Bytes) (adds : InputCode → Nested → Prop) :
    Prop :=
  ∀ c : InputCode, c.Rereads q size → ∀ p, c.cursor.Spells p text →
    (∃ rows, rows.length = n ∧ Layout.Rows c.cursor p rows (p + text.length)) ∧
    ∃ δ, adds c δ ∧ ∀ held left, c.readNestedFrom held p (n + left) =
      c.readNestedFrom (held ++ δ) (p + text.length) left

variable {adds adds' : InputCode → Nested → Prop} {front back : Bytes} {m n : Nat}

/-- No bytes hold no nested attributes. -/
theorem Holds.nil : Holds q size 0 [] fun _ δ => δ = {} := by
  refine fun c _ p _ => ⟨⟨[], rfl, .done p⟩, {}, rfl, fun held left => ?_⟩
  rw [Nested.append_empty, Nat.zero_add]
  rfl

/-- Nested attributes after others are read with them, and hold what both do. -/
theorem Holds.append (first : Holds q size m front adds) (second : Holds q size n back adds') :
    Holds q size (m + n) (front ++ back) fun c δ => ∃ a b, δ = a ++ b ∧ adds c a ∧ adds' c b := by
  intro c rereads p spells
  obtain ⟨here, there⟩ := Cursor.spells_append_iff.mp spells
  obtain ⟨⟨rows, count, table⟩, a, holds, reads⟩ := first c rereads p here
  obtain ⟨⟨rows', count', table'⟩, b, holds', reads'⟩ := second c rereads _ there
  refine ⟨⟨rows ++ rows', ?_, ?_⟩, a ++ b, ⟨a, b, rfl, holds, holds'⟩, fun held left => ?_⟩
  · rw [List.length_append, count, count']
  · rw [List.length_append, ← Nat.add_assoc]
    exact table.append table'
  rw [Nat.add_assoc, reads, reads', Nested.append_assoc, List.length_append, Nat.add_assoc]

/-- What nested attributes hold can be weakened to what follows from it. -/
theorem Holds.mono (holds : Holds q size n front adds) (weaken : ∀ c δ, adds c δ → adds' c δ) :
    Holds q size n front adds' := by
  intro c rereads p spells
  obtain ⟨table, δ, added, reads⟩ := holds c rereads p spells
  exact ⟨table, δ, weaken c δ added, reads⟩

/-- An attribute with a header. -/
theorem Holds.one {name : Text} {body : Bytes} (denotes : q.Denotes n (.utf8 ⟨default, name⟩))
    (short : body.length ≤ maxLength)
    (reads : ∀ c : InputCode, c.Rereads q size → ∀ env : Envelope, env.name.text = name →
      env.length = body.length → c.cursor.Spells env.offset body →
      ∃ δ, adds c δ ∧ ∀ held, c.readNested env held = .ok (held ++ δ)) :
    Holds q size 1 (u2 n ++ u4 body.length ++ body) adds := by
  intro c rereads p spells
  obtain ⟨small, name, named, called⟩ := Emit.refer_of_denotes denotes rereads.reads
  simp only [Cursor.spells_append_iff, List.length_append, length_u2, length_u4] at spells
  obtain ⟨⟨index, length⟩, there⟩ := spells
  rw [maxLength] at short
  obtain ⟨δ, holds, read⟩ := reads c rereads ⟨name, p + 6, body.length⟩ called rfl there
  have indexRead : c.cursor.u2? p = some n := index.u2_of_lt small
  have lengthRead : c.cursor.u4? (p + 2) = some body.length := length.u4_of_lt (by omega)
  have stop : p + (u2 n ++ u4 body.length ++ body).length = p + 6 + body.length := by
    simp only [List.length_append, length_u2, length_u4]
    omega
  rw [stop]
  refine ⟨⟨[⟨n, p + 6, body.length⟩], rfl, .next indexRead lengthRead rfl there.inside (.done _)⟩,
    δ, holds,
    fun held left => ?_⟩
  rw [Nat.add_comm 1 left, readNestedFrom, indexRead]
  simp only [covered, bind, Except.bind, named, lengthRead, read]

end InputCode

/-- The names of the tables of a body can be written. -/
theorem decodes_of_table {name : Text} (table : name ∈ CodeElement.tables) : name.Decodes := by
  have all : ∀ name ∈ CodeElement.tables,
      ModifiedUtf8.decode? (ModifiedUtf8.encode name) = some name := by
    decide +kernel
  exact all name table

/-! ## Line numbers -/

namespace InputCode

/-- A row of a table of line numbers. -/
def readLine (c : InputCode) (p : Nat) : Except Error (Nat × Nat) := do
  let offset ← covered (c.cursor.u2? p)
  if c.codeLength ≤ offset then throw (.flaw p (.lineOffset offset c.codeLength))
  return (offset, ← covered (c.cursor.u2? (p + 2)))

/-- The row of a line number is the line that was written. -/
def SameLine (row : Nat × Int) (row' : Nat × Nat) : Prop := row'.1 = row.1 ∧ (row'.2 : Int) = row.2

/-- The row of a line is read as it was written. -/
theorem readLine_of_spells {c : InputCode} {row : Nat × Int} {p : Nat} (rereads : c.Rereads q size)
    (inside : row.1 < size) (word : Word row.2)
    (spells : c.cursor.Spells p (u2 row.1 ++ u2 row.2)) :
    ∃ row', c.readLine p = .ok row' ∧ SameLine row row' := by
  obtain ⟨offset, line⟩ := row
  obtain ⟨positive, below⟩ := word
  obtain ⟨line, rfl⟩ := Int.eq_ofNat_of_zero_le positive
  obtain ⟨first, second⟩ := Cursor.spells_append_iff.mp spells
  rw [length_u2] at second
  have length := rereads.length
  have short := rereads.short
  rw [BodyWriter.maxSize] at short
  dsimp only at inside below
  have offsetRead : c.cursor.u2? p = some offset := first.u2_of_lt (by omega)
  have lineRead : c.cursor.u2? (p + 2) = some line := second.u2_of_lt (by omega)
  refine ⟨(offset, line), ?_, rfl, rfl⟩
  refine bind_eq_ok_iff.mpr
    ⟨offset, congrArg covered offsetRead, guard_eq_ok_iff.mpr ⟨by omega, ?_⟩⟩
  exact bind_eq_ok_iff.mpr ⟨line, congrArg covered lineRead, rfl⟩

end InputCode

namespace BodyWriter

variable {w : BodyWriter}

/-- A table of line numbers is read as the lines. -/
theorem sends_lineTable (inside : ∀ row ∈ w.lines.toList, row.1 < size ∧ Word row.2) :
    Sends p options (w.lineTable : Emit σ Bytes) fun q text =>
      InputCode.Holds q size 1 text fun _ δ => ∃ rows,
        δ = { lines := rows } ∧ List.Forall₂ InputCode.SameLine w.lines.toList rows := by
  refine (Sends.table (decodes_of_table (by decide))
    (Sends.counted fun row _ => .pure fun q _ => rfl)).mono ?_
  rintro q text - ⟨n, body, rfl, denotes, short, chunks, rfl, few, all⟩
  refine .one denotes short fun c rereads env named length spells => ?_
  obtain ⟨count, there⟩ := Cursor.spells_append_iff.mp spells
  rw [length_u2] at there
  have written : List.Forall₂ (fun row chunk => chunk.length = 4 ∧ ∀ n : Nat,
      c.cursor.Spells (env.offset + 2 + 4 * n) chunk →
      ∃ row', c.readLine (env.offset + 2 + 4 * n) = .ok row' ∧ InputCode.SameLine row row')
      w.lines.toList chunks := by
    refine (forall₂_mem all).imp fun row chunk ⟨member, same⟩ => ?_
    subst same
    exact ⟨by simp, fun n =>
      InputCode.readLine_of_spells rereads (inside row member).1 (inside row member).2⟩
  obtain ⟨rows, read, same⟩ := there.rows written
  have width : chunks.flatten.length = 4 * w.lines.toList.length :=
    Cell.length_of_widths (written.imp fun _ _ row => row.1)
  rw [maxCount] at few
  have counted : c.cursor.u2? env.offset = some w.lines.toList.length := count.u2_of_lt (by omega)
  have lines : c.readLines env = .ok rows := by
    refine bind_eq_ok_iff.mpr ⟨_, congrArg covered counted, guard_eq_ok_iff.mpr ⟨?_, read⟩⟩
    rw [length, List.length_append, length_u2, width]
    exact fun differs => differs rfl
  refine ⟨{ lines := rows }, ⟨rows, rfl, same⟩, fun held => ?_⟩
  obtain ⟨-, keeps, -, -⟩ := Options.lacks_of_copiesVerbatim rereads.whole
  rw [InputCode.readNested, if_pos named, if_neg (by rw [keeps]; decide)]
  refine bind_eq_ok_iff.mpr ⟨rows, lines, ?_⟩
  simp only [InputCode.Nested.append_eq, List.append_nil]
  rfl

end BodyWriter

/-! ## Local variables -/

/-- A row of a table of scopes. -/
def InputCode.readScope (c : InputCode) (p : Nat) : Except Error LocalScope := do
  let start ← covered (c.cursor.u2? p)
  let length ← covered (c.cursor.u2? (p + 2))
  if c.codeLength < start + length then
    throw (.flaw p (.localRange start (start + length) c.codeLength))
  let name ← c.input.pool.refer Entry.utf8? (p + 4) (← covered (c.cursor.u2? (p + 4)))
  let type ← c.input.pool.refer Entry.utf8? (p + 6) (← covered (c.cursor.u2? (p + 6)))
  return {
    slot := ← covered (c.cursor.u2? (p + 8))
    name := some name
    type := some type
    start := some (c.label start)
    stop := some (c.label (start + length)) }

namespace LocalScope

/-- What is read says the same as the row of a scope. -/
def Restates (stands : Label → Option Nat) (c : InputCode) (s s' : LocalScope) : Prop :=
  s'.placed some = s.placed (c.standing stands)

/-- The scope ends in the code, and its slot fits two bytes. -/
structure Placed (stands : Label → Option Nat) (size : Nat) (s : LocalScope) : Prop where
  stop : ∀ n, s.stop.bind stands = some n → n ≤ size
  slot : Word s.slot

/-- Wherever a body spells the bytes, they are read as the row. -/
def Shown (q : PoolBuilder) (stands : Label → Option Nat) (size : Nat) (s : LocalScope)
    (chunk : Bytes) : Prop :=
  chunk.length = 10 ∧ ∀ c : InputCode, c.Rereads q size → ∀ p : Nat, c.cursor.Spells p chunk →
    ∃ s', c.readScope p = .ok s' ∧ s.Restates stands c s'

/-- The row of a scope whose labels stand in the code is read as it was written. -/
theorem shown_of_resolved {s : LocalScope} {start stop name type : Nat}
    (placed : s.Placed stands size)
    (startAt : s.start.bind stands = some start) (stopAt : s.stop.bind stands = some stop)
    (ordered : start ≤ stop) (named : q.ShowsText s.name name) (typed : q.ShowsText s.type type) :
    s.Shown q stands size
      (u2 start ++ u2 ((stop : Int) - start) ++ u2 name ++ u2 type ++ u2 s.slot) := by
  refine ⟨by simp, fun c rereads p spells => ?_⟩
  obtain ⟨length, rfl⟩ := Nat.exists_eq_add_of_le ordered
  have stopInside := placed.stop _ stopAt
  have whole := rereads.length
  have short := rereads.short
  rw [BodyWriter.maxSize] at short
  obtain ⟨positive, below⟩ := placed.slot
  obtain ⟨slot, slotSame⟩ := Int.eq_ofNat_of_zero_le positive
  obtain ⟨name', nameSame, nameRead⟩ := (named c.input rereads.reads).2
  obtain ⟨type', typeSame, typeRead⟩ := (typed c.input rereads.reads).2
  have distance : ((start + length : Nat) : Int) - start = length := by omega
  rw [slotSame, distance] at spells
  simp only [Cursor.spells_append_iff, List.length_append, length_u2] at spells
  obtain ⟨⟨⟨⟨first, second⟩, third⟩, fourth⟩, fifth⟩ := spells
  have startNumber : c.cursor.u2? p = some start := first.u2_of_lt (by omega)
  have lengthNumber : c.cursor.u2? (p + 2) = some length := second.u2_of_lt (by omega)
  have nameNumber : c.cursor.u2? (p + 4) = some name :=
    third.u2_of_lt (named c.input rereads.reads).1
  have typeNumber : c.cursor.u2? (p + 6) = some type :=
    fourth.u2_of_lt (typed c.input rereads.reads).1
  have slotNumber : c.cursor.u2? (p + 8) = some slot := fifth.u2_of_lt (by omega)
  refine ⟨⟨slot, some name', some type', some (c.label start), some (c.label (start + length))⟩, ?_,
    ?_⟩
  · refine bind_eq_ok_iff.mpr ⟨start, congrArg covered startNumber, ?_⟩
    refine bind_eq_ok_iff.mpr ⟨length, congrArg covered lengthNumber, ?_⟩
    refine guard_eq_ok_iff.mpr ⟨by omega, ?_⟩
    refine bind_eq_ok_iff.mpr ⟨name, congrArg covered nameNumber, ?_⟩
    refine bind_eq_ok_iff.mpr ⟨name', nameRead _, ?_⟩
    refine bind_eq_ok_iff.mpr ⟨type, congrArg covered typeNumber, ?_⟩
    refine bind_eq_ok_iff.mpr ⟨type', typeRead _, ?_⟩
    exact bind_eq_ok_iff.mpr ⟨slot, congrArg covered slotNumber, rfl⟩
  · simp only [Restates, LocalScope.placed, Option.bind_some, InputCode.bind_standing startAt,
      InputCode.bind_standing stopAt, slotSame, Option.map_some, nameSame, typeSame]

end LocalScope

namespace BodyWriter

variable {w : BodyWriter}

/-- The row of a scope is written such that every later pool shows it. -/
theorem sends_scopeRow {s : LocalScope} (placed : s.Placed w.stands size)
    (accepted : ∀ m ∈ s.mentions, m.Accepted p) :
    Sends p options (w.scopeRow s : Emit σ Bytes) fun q => s.Shown q w.stands size := by
  obtain ⟨named, typed⟩ := List.forall_mem_append.mp accepted
  refine .given fun start startAt => .given fun stop stopAt => .guard fun ordered => ?_
  refine (Emit.sends_refUtf8 named).bind fun name => (Emit.sends_refUtf8 typed).bind fun type =>
    .pure ?_
  rintro q - ⟨typeIndex, rfl, types⟩ ⟨nameIndex, rfl, names⟩
  exact LocalScope.shown_of_resolved placed (offset_eq_ok_iff.mp startAt)
    (offset_eq_ok_iff.mp stopAt)
    (Nat.not_lt.mp ordered) names types

/-- A table of scopes is read as the scopes, which are elements of one kind. -/
theorem sends_scopeTable {name : Text} (make : LocalScope → CodeElement) {scopes : Array LocalScope}
    (table : name ∈ CodeElement.tables)
    (reads : ∀ (c : InputCode) (env : Envelope) (held : InputCode.Nested) (rows : List LocalScope),
      c.input.options.has .dropDebugInfo = false → env.name.text = name →
        c.readScopes env = .ok rows →
      c.readNested env held = .ok { held with scopes := held.scopes ++ rows.map make })
    (placed : ∀ s ∈ scopes.toList, s.Placed w.stands size)
    (accepted : ∀ s ∈ scopes.toList, ∀ m ∈ s.mentions, m.Accepted p) :
    Sends p options (w.scopeTable name scopes : Emit σ Bytes) fun q text =>
      InputCode.Holds q size 1 text fun c δ => ∃ rows, δ = { scopes := rows.map make } ∧
        List.Forall₂ (LocalScope.Restates w.stands c) scopes.toList rows := by
  refine (Sends.table (decodes_of_table table) (Sends.counted fun s member =>
    sends_scopeRow (placed s member) (accepted s member))).mono ?_
  rintro q text - ⟨n, body, rfl, denotes, short, chunks, rfl, few, all⟩
  refine .one denotes short fun c rereads env named length spells => ?_
  obtain ⟨count, there⟩ := Cursor.spells_append_iff.mp spells
  rw [length_u2] at there
  have written : List.Forall₂ (fun s chunk => chunk.length = 10 ∧ ∀ n : Nat,
      c.cursor.Spells (env.offset + 2 + 10 * n) chunk →
      ∃ s', c.readScope (env.offset + 2 + 10 * n) = .ok s' ∧ s.Restates w.stands c s')
      scopes.toList chunks :=
    all.imp fun s chunk ⟨width, row⟩ => ⟨width, fun n => row c rereads _⟩
  obtain ⟨rows, read, same⟩ := there.rows written
  have width : chunks.flatten.length = 10 * scopes.toList.length :=
    Cell.length_of_widths (written.imp fun _ _ row => row.1)
  rw [maxCount] at few
  have counted : c.cursor.u2? env.offset = some scopes.toList.length := count.u2_of_lt (by omega)
  have all : c.readScopes env = .ok rows := by
    refine bind_eq_ok_iff.mpr ⟨_, congrArg covered counted, guard_eq_ok_iff.mpr ⟨?_, read⟩⟩
    rw [length, List.length_append, length_u2, width]
    exact fun differs => differs rfl
  refine ⟨{ scopes := rows.map make }, ⟨rows, rfl, same⟩, fun held => ?_⟩
  rw [reads c env held rows (Options.lacks_of_copiesVerbatim rereads.whole).1 named all]
  simp only [InputCode.Nested.append_eq, List.append_nil]

end BodyWriter

/-! ## Stack maps -/

namespace Emit

variable {s s' : Session σ} {text : Bytes} {offsets : Offsets}

/-- A type is written only if its label stands somewhere. -/
theorem offset_of_writes_verificationType {v : VerificationType}
    (writes : Writes s (verificationType offsets v) text s') :
      ∀ l ∈ v.label?, ∃ n, offsets l = .ok n := by
  cases v with
  | plain tag => exact nofun
  | object name => exact nofun
  | uninitialized new =>
      rintro l ⟨⟩
      obtain ⟨n, s₁, found, -⟩ := (writes_bind_iff fun _ => .pure _).mp writes
      exact ⟨n, (writes_monadLift_iff.mp found).1⟩

/-- Every label of the types of a frame that was written has an offset. -/
theorem offset_of_writes_types {vs : List VerificationType}
    (writes : Writes s (counted (verificationType offsets) vs) text s') :
    ∀ v ∈ vs, ∀ l ∈ v.label?, ∃ n, offsets l = .ok n := by
  obtain ⟨-, chunks, -, all⟩ :=
    chunks_of_writes_counted (fun v _ => tries_verificationType offsets v) writes
  intro v member
  obtain ⟨chunk, -, s₁, s₂, wrote⟩ := exists_right_of_forall₂ all member
  exact offset_of_writes_verificationType wrote

/-- Frames are written only if no two are for one offset, and every label stands somewhere. -/
theorem apart_of_writes_framesAfter {rows : List (Nat × StackMapFrame)} {previous : Int}
    {done : List Bytes} (writes : Writes s (framesAfter offsets previous done rows) text s')
    (after : ∀ row ∈ rows, previous ≤ row.1) (sorted : rows.Pairwise fun a b => a.1 ≤ b.1) :
    (∀ row ∈ rows, previous < row.1) ∧ (rows.Pairwise fun a b => a.1 < b.1) ∧
      ∀ row ∈ rows, ∀ v ∈ row.2.locals ++ row.2.stack, ∀ l ∈ v.label?, ∃ n, offsets l = .ok n := by
  induction rows generalizing s previous done with
  | nil => exact ⟨nofun, .nil, nofun⟩
  | cons row rest inductionHypothesis =>
      obtain ⟨offset, f⟩ := row
      obtain ⟨here, after⟩ := List.forall_mem_cons.mp after
      obtain ⟨later, sorted⟩ := List.pairwise_cons.mp sorted
      rw [framesAfter] at writes
      split at writes
      · obtain ⟨_, _, _, failed, -⟩ := Drafting.Gives.bind_iff.mp writes
        exact absurd failed Drafting.Gives.not_throw
      rename_i differs
      have types (vs : List VerificationType) : Tries (.calls σ)
          (counted (verificationType offsets) vs : Emit σ Bytes) :=
        tries_counted fun v _ => tries_verificationType offsets v
      obtain ⟨front, s₁, locals, writes⟩ := (writes_bind_iff fun _ =>
        .bind (types f.stack) fun _ => tries_framesAfter offsets _ _ rest).mp writes
      obtain ⟨back, s₂, stack, writes⟩ :=
        (writes_bind_iff fun _ => tries_framesAfter offsets _ _ rest).mp writes
      obtain ⟨beyond, ascending, labels⟩ :=
        inductionHypothesis writes (fun row member => Int.ofNat_le.mpr (later row member)) sorted
      have start : previous < offset := lt_of_le_of_ne here (Ne.symm differs)
      refine ⟨List.forall_mem_cons.mpr ⟨start, fun row member => start.trans (beyond row member)⟩,
        .cons (fun row member => Int.ofNat_lt.mp (beyond row member)) ascending,
        List.forall_mem_cons.mpr ⟨?_, labels⟩⟩
      exact List.forall_mem_append.mpr ⟨offset_of_writes_types locals, offset_of_writes_types stack⟩

/-- A stack map is written only if its frames are for different instructions and every label stands
somewhere. -/
theorem apart_of_writes_stackMap {w : BodyWriter} {frames : List StackMapFrame}
    (writes : Writes s (stackMap (some w.offset) frames) text s') :
    frames.length ≤ maxCount ∧ (∀ f ∈ frames, ∀ l ∈ f.labels, ∃ n, l.bind w.stands = some n) ∧
      frames.Pairwise fun f g => f.target.bind w.stands ≠ g.target.bind w.stands := by
  rw [stackMap] at writes
  simp only [mapM_place] at writes
  have rest (placed : List (Nat × StackMapFrame)) : Tries (.calls σ) (do
      let n ← count placed.length
      return n ++ (← framesAfter w.offset (-1) [] (placed.mergeSort fun a b => a.1 ≤ b.1)) :
        Emit σ Bytes) :=
    .bind (tries_count _) fun _ => .bind (tries_framesAfter ..) fun _ => .pure _
  obtain ⟨rows, s₁, found, writes⟩ := (writes_bind_iff rest).mp writes
  obtain ⟨all, rfl⟩ := writes_monadLift_iff.mp found
  obtain ⟨n, s₂, counted, writes⟩ := (writes_bind_iff fun _ =>
    .bind (tries_framesAfter ..) fun _ => .pure _).mp writes
  obtain ⟨tail, s₃, wrote, -⟩ := (writes_bind_iff fun _ => .pure _).mp writes
  have each : List.Forall₂
      (fun f row => f.target.bind w.stands = some row.1 ∧ row.2 = f) frames rows :=
    (mapM_eq_ok_iff.mp all).imp fun f row place => by
      obtain ⟨n, there, same⟩ := bind_eq_ok_iff.mp place
      obtain rfl := pure_eq_ok_iff.mp same
      exact ⟨BodyWriter.offset_eq_ok_iff.mp there, rfl⟩
  have perm := List.mergeSort_perm rows fun a b => a.1 ≤ b.1
  have sorted : (rows.mergeSort fun a b => a.1 ≤ b.1).Pairwise fun a b => a.1 ≤ b.1 :=
    (List.pairwise_mergeSort (fun a b c => by simp only [decide_eq_true_eq]; omega)
      (fun a b => by simp only [Bool.or_eq_true, decide_eq_true_eq]; omega) rows).imp
      of_decide_eq_true
  obtain ⟨-, ascending, labels⟩ := apart_of_writes_framesAfter wrote (fun row _ => by omega) sorted
  have distinct : rows.Pairwise fun a b => a.1 ≠ b.1 :=
    (perm.pairwise_iff fun differs => Ne.symm differs).mp (ascending.imp Nat.ne_of_lt)
  refine ⟨each.length_eq ▸ (writes_count_iff.mp counted).1, fun f member => ?_, ?_⟩
  · obtain ⟨row, there, target, rfl⟩ := exists_right_of_forall₂ each member
    refine List.forall_mem_cons.mpr ⟨⟨_, target⟩, fun l label => ?_⟩
    obtain ⟨v, inside, named⟩ := List.mem_filterMap.mp label
    obtain ⟨n, found⟩ := labels row (perm.mem_iff.mpr there) v inside l named
    exact ⟨n, BodyWriter.offset_eq_ok_iff.mp found⟩
  · refine pairwise_of_forall₂ each distinct fun f row g row' first second apart same => ?_
    rw [first.1, second.1] at same
    exact apart (Option.some.inj same)

end Emit

/-! ## Attributes of the body -/

/-- What is read says the same as an attribute of a body. Frames are read in the order of the
instructions that they are for. -/
inductive AttributeBody.Restates (stands : Label → Option Nat) (c : InputCode) :
    AttributeBody → AttributeBody → Prop
  | stackMap {frames sorted : List StackMapFrame} (perm : sorted.Perm frames)
    (ascending : sorted.Pairwise (StackMapFrame.Precedes stands)) :
    Restates stands c (.stackMapTable frames)
      (.stackMapTable (sorted.map (StackMapFrame.relabel (c.standing stands))))
  | other {body body' : AttributeBody} (plain : CodeOutline.isStackMap body = false)
    (same : body'.bare = body.bare) : Restates stands c body body'

/-- What one attribute is held as. -/
def Attribute.alone (a : Attribute) : InputCode.Nested :=
  if CodeOutline.isStackMap a.body then { frames := [a] } else { others := [a] }

/-- Attributes that are no tables of their own are held as they are decoded. -/
theorem InputCode.readNested_of_decode {c : InputCode} {env : Envelope} {a : Attribute}
    (other : env.name.text ∉ CodeElement.tables)
    (keeps : c.input.options.has .dropUnknownAttributes = false)
    (decoded : Attribute.decode c.context (Attribute.maxNesting - 1) env = .ok a) (held : Nested) :
    c.readNested env held = .ok (held ++ a.alone) := by
  simp only [CodeElement.tables, List.mem_cons, List.not_mem_nil, or_false, not_or] at other
  rw [readNested, if_neg other.1, if_neg other.2.1, if_neg other.2.2]
  refine bind_eq_ok_iff.mpr ⟨a, decoded, ?_⟩
  obtain ⟨span, body⟩ := a
  cases body <;>
    simp [Attribute.alone, CodeOutline.isStackMap, Attribute.body, keeps, Nested.append_eq, pure,
      Except.pure]

namespace BodyWriter

variable {w : BodyWriter}

/-- A stack map is written such that every later pool reads its frames, in the order of their
instructions. -/
theorem sends_stackMap {frames : List StackMapFrame}
    (fits : ∀ f ∈ frames, ∀ v ∈ f.locals ++ f.stack, v.Fits)
    (inside : ∀ l ∈ frames.flatMap StackMapFrame.labels, ∀ n, l.bind w.stands = some n → n < size)
    (short : size ≤ maxSize) :
    Sends p options (Emit.stackMap (some w.offset) frames : Emit σ Bytes) fun q text =>
      ∃ sorted : List StackMapFrame, sorted.Perm frames ∧
        sorted.Pairwise (StackMapFrame.Precedes w.stands) ∧
        ∀ c : InputCode, c.Rereads q size →
          Scan.Parses c.input.cursor (Attribute.readStackMap c) text
          (· = .stackMapTable (sorted.map (StackMapFrame.relabel (c.standing w.stands)))) := by
  refine .of_writes (Emit.tries_stackMap _ _) fun s text s' _ writes => ?_
  obtain ⟨few, found, apart⟩ := Emit.apart_of_writes_stackMap writes
  have lengths := (Emit.short_of_writes_stackMap writes).1
  have within (f : StackMapFrame) (member : f ∈ frames) (l : Option Label) (label : l ∈ f.labels) :
      ∃ n < size, l.bind w.stands = some n := by
    obtain ⟨n, there⟩ := found f member l label
    exact ⟨n, inside l (List.mem_flatMap.mpr ⟨f, member, label⟩) n there, there⟩
  have storable : ∀ f ∈ frames, f.Storable w.stands size := fun f member =>
    { target := within f member _ List.mem_cons_self
      locals := (lengths f member).1
      stack := (lengths f member).2
      types := fun v there => ⟨fits f member v there, fun l label =>
        within f member l (List.mem_cons_of_mem _ (List.mem_filterMap.mpr ⟨v, there, label⟩))⟩ }
  obtain ⟨sorted, perm, ascending, lays⟩ :=
    @Emit.lays_stackMap σ p options _ _ _ _ few storable apart w.follow short
  exact lays.mono fun q text _ parses => ⟨sorted, perm, ascending, fun c rereads =>
    parses c rereads.reads rereads.length rereads.described⟩

/-- An attribute of the body is read as one that says the same. -/
theorem sends_attribute {a : Attribute} (fits : a.body.FitsBody) (trusts : Emit.Trusts p options a)
    (accepted : ∀ m ∈ a.mentionsWith fun _ => [], m.Accepted p)
    (inside : ∀ l ∈ a.body.labels, ∀ n, l.bind w.stands = some n → n < size)
    (short : size ≤ maxSize) :
    Sends p options (Emit.attributeRow (some w.offset) (fun _ => throw .outOfBounds) a :
      Emit σ Bytes)
      fun q text => InputCode.Holds q size 1 text fun c δ =>
        ∃ a' : Attribute, a.body.Restates w.stands c a'.body ∧ δ = a'.alone := by
  have tries : Emit.Tries (.calls σ)
      (Emit.attributeBody (some w.offset) (fun _ => throw .outOfBounds) a.body) :=
    @Emit.tries_attributeBody σ _ _ (fun _ => []) (fun _ _ => .throw _) _ _
      (Build.Law.gives_calls _)
  cases isMap : CodeOutline.isStackMap a.body with
  | true =>
      obtain ⟨span, body⟩ := a
      obtain ⟨frames, rfl⟩ : ∃ frames, body = .stackMapTable frames := by
        cases body <;> first | exact ⟨_, rfl⟩ | cases isMap
      have named : Text.Decodes "StackMapTable" := Emit.decodes_of_listed (by decide)
      have written : Sends p options (Emit.contents (some w.offset) (fun _ => throw .outOfBounds)
          (.mk span (.stackMapTable frames)) : Emit σ Bytes) _ :=
        ((Emit.Lays.anew rfl).sends (Emit.tries_copied? _)).bind fun out => by
          cases out with
          | none =>
              exact (sends_stackMap fits inside short).mono fun q text _ sorted (_ : none = none) =>
                sorted
          | some bytes => exact .pure fun q _ never => absurd never (Option.some_ne_none bytes)
      refine (Sends.named named written).mono ?_
      rintro q text - ⟨n, bytes, rfl, denotes, least, sorted, perm, ascending, parses⟩
      refine .one denotes least fun c rereads env called length spells => ?_
      have decoded : ∃ a', Attribute.decode c.context (Attribute.maxNesting - 1) env = .ok a' ∧
          a'.body = .stackMapTable (sorted.map (StackMapFrame.relabel (c.standing w.stands))) := by
        rw [Attribute.decode_eq, Attribute.reader?_stackMap c _ called]
        exact Attribute.decodeWith_of_fills rereads.reads.addressable
          (parses c rereads).fills length spells
      obtain ⟨a', decoded, same⟩ := decoded
      refine ⟨a'.alone, ⟨a', ?_, rfl⟩, fun held => ?_⟩
      · rw [same]
        exact .stackMap perm ascending
      · refine InputCode.readNested_of_decode ?_ ?_ decoded held
        · rw [called]
          decide
        · exact (Options.lacks_of_copiesVerbatim rereads.whole).2.2.1
  | false =>
      have plain : a.body.Plain .code (Attribute.maxNesting - 1) ∧
          a.body.name ∉ CodeElement.tables := by
        revert fits isMap
        cases a.body <;> first | exact fun fits _ => fits | (intro _ isMap; cases isMap)
      obtain ⟨plain, other⟩ := plain
      have restores : Emit.Restores p options .code (Attribute.maxNesting - 1)
          (Emit.attributeBody (some w.offset) (fun _ => throw .outOfBounds) a.body :
            Emit σ Bytes) a.body := by
        obtain ⟨span, body⟩ := a
        exact Emit.restores_plain plain accepted
      have written := (Emit.lays_attributeRow trusts plain.valid restores).sends <|
        Emit.tries_named _ (Emit.tries_contents tries)
      refine written.mono ?_
      rintro q text - ⟨n, bytes, rfl, denotes, least, restored⟩
      refine .one denotes least fun c rereads env called length spells => ?_
      obtain ⟨-, -, keeps, -⟩ := Options.lacks_of_copiesVerbatim rereads.whole
      obtain ⟨a', decoded, bare⟩ := restored c.context env rereads.reads rfl
        (fun drops => by cases keeps.symm.trans drops) called length spells
      refine ⟨a'.alone, ⟨a', .other isMap bare, rfl⟩, fun held => ?_⟩
      exact InputCode.readNested_of_decode (called ▸ other) keeps decoded held

end BodyWriter

/-! ## The attribute table -/

/-- Several attributes are held as stack maps and others. -/
theorem InputCode.Holds.attributes {R : InputCode → Attribute → Attribute → Prop}
    {as : List Attribute}
    {chunks : List Bytes}
    (all : List.Forall₂ (fun a chunk => InputCode.Holds q size 1 chunk fun c δ =>
      ∃ a', R c a a' ∧ δ = a'.alone) as chunks) :
    InputCode.Holds q size as.length chunks.flatten fun c δ => ∃ as', List.Forall₂ (R c) as as' ∧
      δ = { frames := as'.filter (CodeOutline.isStackMap ·.body)
            others := as'.filter (!CodeOutline.isStackMap ·.body) } := by
  induction all with
  | nil => exact InputCode.Holds.nil.mono fun c δ none => ⟨[], .nil, none⟩
  | @cons a chunk as chunks first others inductionHypothesis =>
      rw [List.length_cons, Nat.add_comm]
      refine (first.append inductionHypothesis).mono ?_
      rintro c _ ⟨_, _, rfl, ⟨a', same, rfl⟩, as', all, rfl⟩
      refine ⟨a' :: as', .cons same all, ?_⟩
      cases isMap : CodeOutline.isStackMap a'.body <;>
        simp [Attribute.alone, isMap, InputCode.Nested.append_eq]

/-- What is held of a body says the same as what was recorded. -/
structure InputCode.Nested.Answers (w : BodyWriter) (c : InputCode) (δ : InputCode.Nested) :
    Prop where
  lines : List.Forall₂ InputCode.SameLine w.lines.toList δ.lines
  scopes : ∃ scopes types, δ.scopes = scopes.map .localVariable ++ types.map .localVariableType ∧
    List.Forall₂ (LocalScope.Restates w.stands c) w.scopes.toList scopes ∧
    List.Forall₂ (LocalScope.Restates w.stands c) w.typeScopes.toList types
  «attributes» : ∃ as : List Attribute, δ.frames = as.filter (CodeOutline.isStackMap ·.body) ∧
    δ.others = as.filter (!CodeOutline.isStackMap ·.body) ∧
    List.Forall₂ (fun a a' => a.body.Restates w.stands c a'.body) w.attributes.toList as

namespace BodyWriter

variable {w : BodyWriter}

/-- A table that would be empty is left out. -/
theorem sends_unlessEmpty {α : Type} {rows : Array α} {table : Emit σ Bytes}
    {adds : InputCode → InputCode.Nested → Prop} (none : rows.toList = [] → ∀ c, adds c {})
    (sends : Sends p options table fun q text => InputCode.Holds q size 1 text adds) :
    Sends p options (unlessEmpty rows table) fun q text =>
      InputCode.Holds q size (if rows.isEmpty then 0 else 1) text adds := by
  rw [unlessEmpty]
  split
  · rename_i empty
    refine .pure fun q _ => InputCode.Holds.nil.mono ?_
    rintro c _ rfl
    exact none (by simpa using empty) c
  · exact sends

/-- What a body has to have recorded for its tables to be read again. -/
structure Fits (p : PoolBuilder) (options : Options) (size : Nat) (w : BodyWriter) : Prop where
  short : size ≤ maxSize
  catches : ∀ row ∈ w.catches.toList, row.Placed w.stands size
  lines : ∀ row ∈ w.lines.toList, row.1 < size ∧ Word row.2
  scopes : ∀ s ∈ w.scopes.toList, s.Placed w.stands size
  typeScopes : ∀ s ∈ w.typeScopes.toList, s.Placed w.stands size
  bodies : ∀ a ∈ w.attributes.toList, a.body.FitsBody
  inside : ∀ a ∈ w.attributes.toList, ∀ l ∈ a.body.labels, ∀ n, l.bind w.stands = some n → n < size
  trusts : ∀ a ∈ w.attributes.toList, Emit.Trusts p options a
  accepted : ∀ m ∈ w.mentions, m.Accepted p

/-- The attributes of a body are written such that every later pool reads them all. -/
theorem sends_attributes (fits : w.Fits p options size)
    (accepted : ∀ a ∈ w.attributes.toList, ∀ m ∈ a.mentionsWith fun _ => [], m.Accepted p) :
    Sends p options (Emit.items (Emit.attributeItems (some w.offset) (fun _ => throw .outOfBounds)
      (w.attributes.toList.map some)) : Emit σ Bytes) fun q text =>
        InputCode.Holds q size w.attributes.toList.length text fun c δ => ∃ as,
          List.Forall₂ (fun a a' => a.body.Restates w.stands c a'.body) w.attributes.toList as ∧
            δ = { frames := as.filter (CodeOutline.isStackMap ·.body)
                  others := as.filter (!CodeOutline.isStackMap ·.body) } := by
  rw [Emit.attributeItems_eq, List.map_map]
  refine (Sends.itemsAfter
    (fun a member => sends_attribute (fits.bodies a member) (fits.trusts a member)
    (accepted a member) (fits.inside a member) fits.short) [] []).mono ?_
  rintro q text - ⟨chunks, rfl, held⟩
  exact InputCode.Holds.attributes held

/-- The attributes of a body are read as what was recorded. -/
theorem sends_attributeTable (fits : w.Fits p options size) :
    Sends p options (w.attributeTable : Emit σ Bytes) fun q text => ∃ (n : Nat) (tables : Bytes),
      text = u2 n ++ tables ∧ n ≤ maxCount ∧
        InputCode.Holds q size n tables fun c => InputCode.Nested.Answers w c := by
  have accepted := fits.accepted
  simp only [mentions, List.forall_mem_append, List.forall_mem_flatMap] at accepted
  obtain ⟨⟨⟨-, locals⟩, generics⟩, bodies⟩ := accepted
  have lines : Sends p options (unlessEmpty w.lines w.lineTable : Emit σ Bytes) _ :=
    sends_unlessEmpty (fun none c => ⟨[], rfl, by rw [none]; exact .nil⟩)
      (sends_lineTable fits.lines)
  have scopes : Sends p options
      (unlessEmpty w.scopes (w.scopeTable "LocalVariableTable" w.scopes) : Emit σ Bytes) _ :=
    sends_unlessEmpty (fun none c => ⟨[], rfl, by rw [none]; exact .nil⟩)
      (sends_scopeTable .localVariable (by decide) (fun c env held rows keeps named read => by
        rw [InputCode.readNested, if_neg (by rw [named]; decide), if_pos named,
          if_neg (by rw [keeps]; decide)]
        exact bind_eq_ok_iff.mpr ⟨rows, read, rfl⟩) fits.scopes locals)
  have types : Sends p options
      (unlessEmpty w.typeScopes (w.scopeTable "LocalVariableTypeTable" w.typeScopes) :
        Emit σ Bytes) _ :=
    sends_unlessEmpty (fun none c => ⟨[], rfl, by rw [none]; exact .nil⟩)
      (sends_scopeTable .localVariableType (by decide) (fun c env held rows keeps named read => by
        rw [InputCode.readNested, if_neg (by rw [named]; decide), if_neg (by rw [named]; decide),
          if_pos named, if_neg (by rw [keeps]; decide)]
        exact bind_eq_ok_iff.mpr ⟨rows, read, rfl⟩) fits.typeScopes generics)
  refine (Sends.count _).bind fun n => lines.bind fun first => scopes.bind fun second =>
    types.bind fun third => (sends_attributes fits bodies).bind fun fourth => .pure ?_
  rintro q - bodies types scopes lines ⟨rfl, few⟩
  refine ⟨_, first ++ (second ++ (third ++ fourth)), by simp, few, ?_⟩
  have whole := lines.append (scopes.append (types.append bodies))
  have count : w.attributes.size +
      [!w.lines.isEmpty, !w.scopes.isEmpty, !w.typeScopes.isEmpty].count true =
      (if w.lines.isEmpty then 0 else 1) + ((if w.scopes.isEmpty then 0 else 1) +
        ((if w.typeScopes.isEmpty then 0 else 1) + w.attributes.toList.length)) := by
    rw [Array.length_toList]
    cases w.lines.isEmpty <;> cases w.scopes.isEmpty <;> cases w.typeScopes.isEmpty <;> simp <;>
      omega
  rw [count]
  refine whole.mono ?_
  rintro c _ ⟨_, _, rfl, ⟨lines, rfl, lineRows⟩, _, _, rfl, ⟨scopes, rfl, scopeRows⟩, _, _, rfl,
    ⟨types, rfl, typeRows⟩, as, bodies, rfl⟩
  simp only [InputCode.Nested.append_eq, List.append_nil, List.nil_append]
  exact ⟨lineRows, ⟨scopes, types, rfl, scopeRows, typeRows⟩, as, rfl, rfl, bodies⟩

end BodyWriter

end JvmClass
