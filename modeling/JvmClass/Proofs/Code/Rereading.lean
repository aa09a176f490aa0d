import JvmClass.Proofs.Code.Closed
import JvmClass.Proofs.Code.Tables

/-!
# Bodies that are written and read again

A body that was written from elements is read as elements that say the same: the same instructions
in the same order, whose labels stand before the same instructions, and the same rows.
-/

namespace JvmClass

open Layout (covered)
open Emit (Sends Writes maxCount maxLength)

variable {σ : Type} {p q : PoolBuilder} {options : Options} {size : Nat} {s s' : Session σ}
    {text : Bytes}

/-! ## Complete bodies -/

namespace BodyWriter

variable {w : BodyWriter} {declared : Option Nat}

/-- The parts of a complete body, one after another. -/
def parts (options : Options) (declared : Option Nat) (w : BodyWriter) : Emit σ Bytes := do
  let code ← liftM w.code
  let maxStack ← liftM (do return (← w.maxStack options declared : Nat) : Except Error Int)
  let exceptions ← w.exceptionTable
  let attributes ← w.attributeTable
  return u2 maxStack ++ u2 w.maxLocals ++ u4 code.length ++ code ++ exceptions ++ attributes

/-- A body is complete only if nothing failed, and it is neither empty nor too long. -/
theorem writes_of_finish (finished : w.finish declared none s = (.ok text, s')) :
    s.Quiet ∧ w.size ≠ 0 ∧ w.size ≤ maxSize ∧ Writes s (w.parts s.options declared) text s' := by
  rw [finish, bind_apply] at finished
  have known : Build.error? s = (s.error <|> s.pool.error, s) := rfl
  rw [known] at finished
  cases failed : s.error <|> s.pool.error with
  | some e =>
      rw [failed] at finished
      cases finished
  | none =>
      rw [failed] at finished
      dsimp only at finished
      split at finished
      · cases finished
      rename_i filled
      split at finished
      · cases finished
      rename_i short
      rw [bind_apply, show Build.options s = (s.options, s) from rfl] at finished
      have complete : Emit.finish (w.parts s.options declared) s = (.ok text, s') := finished
      refine ⟨?_, filled, Nat.not_lt.mp short, Emit.writes_of_finish complete⟩
      cases error : s.error with
      | some e => rw [error] at failed; cases failed
      | none =>
          rw [error] at failed
          exact ⟨error, failed⟩

/-- The bytes are the parts of a body, in the pool that they were written against. -/
structure Spelled (q : PoolBuilder) (w : BodyWriter) (code : Bytes) (maxStack : Int)
    (rows : List Bytes)
    (n : Nat) (tables text : Bytes) : Prop where
  text : text = u2 maxStack ++ u2 w.maxLocals ++ u4 code.length ++ code ++
    (u2 w.catches.size ++ rows.flatten) ++ (u2 n ++ tables)
  code : w.code = .ok code
  few : w.catches.size ≤ maxCount
  rows : List.Forall₂ (Catch.Shown q w.stands w.size) w.catches.toList rows
  count : n ≤ maxCount
  tables : InputCode.Holds q w.size n tables fun c => InputCode.Nested.Answers w c

/-- The parts of a body that fits are written one after another, and every later pool spells
them. -/
theorem sends_parts (fits : w.Fits p options w.size) :
    Sends p options (w.parts options declared : Emit σ Bytes) fun q text =>
      ∃ code maxStack rows n tables, w.Spelled q code maxStack rows n tables text := by
  have accepted := fits.accepted
  simp only [mentions, List.forall_mem_append, List.forall_mem_flatMap] at accepted
  refine .given fun code coded => .given fun maxStack _ => ?_
  refine (sends_exceptionTable fits.catches accepted.1.1.1).bind fun exceptions => ?_
  refine (sends_attributeTable fits).bind fun attributes => .pure ?_
  rintro q - ⟨n, tables, rfl, count, held⟩ ⟨rows, rfl, few, shown⟩
  exact ⟨code, maxStack, rows, n, tables, rfl, coded, few, shown, count, held⟩

end BodyWriter

/-! ## Reading instructions -/

namespace Cell

/-- The offsets of instructions that follow one another. -/
def starts (offset : Nat) : List (List Cell) → List Nat
  | [] => []
  | cells :: rest => offset :: starts (offset + widths cells) rest

/-- Instructions that were encoded one after another are read one after another. -/
theorem Encoded.reads {offset : Nat} {is : List Instruction} {chunks : List (List Cell)}
    (encoded : Encoded q offset is chunks) {stands : Label → Option Nat} {text : Bytes}
    {c : InputCode}
    (resolves : Resolves stands chunks.flatten text) (rereads : c.Rereads q size)
    (inside : ∀ i ∈ is, ∀ l, some l ∈ i.labels → ∀ n, stands l = some n → n < c.codeLength)
    (whole : offset + text.length = c.codeLength)
    (spells : c.cursor.Spells (c.codeStart + offset) text)
    (done : List (Nat × Instruction)) {fuel : Nat} (enough : c.codeLength ≤ offset + fuel) :
    ∃ rows, c.readInstructionsFrom done offset fuel = .ok (done.reverse ++ rows) ∧
      rows.map Prod.fst = starts offset chunks ∧
      List.Forall₂ (fun i row => i.Restates stands c row.2) is rows := by
  induction encoded generalizing text done fuel with
  | nil offset =>
      obtain rfl := resolves_nil_iff.mp resolves
      refine ⟨[], ?_, rfl, .nil⟩
      rw [List.append_nil]
      cases fuel with
      | zero => rfl
      | succ fuel => rw [InputCode.readInstructionsFrom,
          if_pos (show c.codeLength ≤ offset from Nat.le_of_eq whole.symm)]
  | @cons offset i cells is chunks first others inductionHypothesis =>
      rw [List.flatten_cons] at resolves
      obtain ⟨front, back, rfl, here, there⟩ := resolves_append_iff.mp resolves
      obtain ⟨fits, inside⟩ := List.forall_mem_cons.mp inside
      obtain ⟨spelled, further⟩ := Cursor.spells_append_iff.mp spells
      have width := here.length
      have positive := first.positive
      rw [List.length_append] at whole
      have short := rereads.short
      rw [← rereads.length] at short
      obtain ⟨i', read, restates⟩ := first.reads here rereads.reads short fits (by omega) spelled
      obtain ⟨fuel, rfl⟩ : ∃ n, fuel = n + 1 := ⟨fuel - 1, by omega⟩
      rw [Nat.add_assoc, width] at further
      obtain ⟨rows, reads, offsets, all⟩ := inductionHypothesis there inside (by omega) further
        ((offset, i') :: done) (show c.codeLength ≤ offset + widths cells + fuel by omega)
      refine ⟨(offset, i') :: rows, ?_, by rw [List.map_cons, offsets, starts], .cons restates all⟩
      rw [InputCode.readInstructionsFrom, if_neg (by omega), read]
      dsimp only
      rw [width, reads]
      simp

end Cell

/-! ## The attribute that holds a body -/

/-- A body that its reader uses up is decoded. -/
theorem Attribute.decodeWith_of_reads {i : Input} {env : Envelope} {read : Scan AttributeBody}
    {body : AttributeBody} (window : Window i.cursor (env.offset + env.length))
    (given : read (.on i.cursor (env.offset + env.length) env.offset) =
      .ok (body, .on i.cursor (env.offset + env.length) (env.offset + env.length))) :
    decodeWith i env (some read) = .ok (.mk (some ⟨i.origin, env.offset, env.length⟩) body) := by
  have left : (Decoder.on i.cursor (env.offset + env.length)
      (env.offset + env.length)).remaining = 0 := by
    rw [Scan.remaining_on window (Nat.le_refl _), Nat.sub_self]
    rfl
  rw [decodeWith, ← Int.natCast_add, Scan.onWindow_eq window (Nat.le_add_right _ _), given]
  exact if_neg (not_not.mpr left)

/-- The attribute that holds a body is read by its layout. -/
theorem Attribute.reader?_code (m : InputMember) (room : Nat) {env : Envelope}
    (named : env.name.text = "Code") :
    reader? ⟨m.input, .method, some m, none⟩ room env = some (readCode m env) := by
  have row : (("Code", [.method], readCode m env) : String × List Holder × Scan AttributeBody) ∈
      layouts ⟨m.input, .method, some m, none⟩ room env := by
    simp [layouts, plainLayouts]
  have defined : Defined .method env.name.text := by
    rw [named]
    decide
  exact reader?_of_mem row named.symm defined

/-- What a decoded body has of one that was written. -/
structure InputCode.Shows (q : PoolBuilder) (w : BodyWriter) (code : Bytes) (c : InputCode) :
    Prop where
  rereads : c.Rereads q w.size
  code : c.cursor.Spells c.codeStart code
  catches : ∃ n catches, c.cursor.u2? c.exceptions = some n ∧
    (List.range n).mapM c.readCatch = .ok catches ∧
    List.Forall₂ (Catch.Restates w.stands c) w.catches.toList catches
  nested : ∃ n δ, c.cursor.u2? c.attributes = some n ∧
    c.readNestedFrom {} (c.attributes + 2 : Nat) n = .ok δ ∧ InputCode.Nested.Answers w c δ

/-- The bytes of a complete body are decoded as a body that shows what was written. -/
theorem BodyWriter.Spelled.decodes {w : BodyWriter} {code : Bytes} {maxStack : Int}
    {rows : List Bytes}
    {n : Nat} {tables : Bytes} (spelled : w.Spelled q code maxStack rows n tables text)
    (length : code.length = w.size) (filled : w.size ≠ 0) (short : w.size ≤ maxSize)
    {m : InputMember} (reads : m.input.Reads q) (whole : m.input.options.copiesVerbatim = true)
    (described : ∃ d, MethodDescriptor.parse m.descriptor.text = .ok d) {env : Envelope}
    (named : env.name.text = "Code") (fits : env.length = text.length)
    (spells : m.input.cursor.Spells env.offset text) (room : Nat) :
    ∃ (c : InputCode) (span : Option Span),
      Attribute.decode ⟨m.input, .method, some m, none⟩ room env = .ok (.mk span (.code c)) ∧
      c.method = m ∧ c.Shows q w code := by
  obtain ⟨rfl, -, few, shown, count, held⟩ := spelled
  let c : InputCode :=
    { method := m, offset := env.offset, length := env.length, maxStack := unsigned 16 maxStack
      maxLocals := unsigned 16 w.maxLocals, codeStart := env.offset + 8, codeLength := code.length
      exceptions := env.offset + 8 + code.length
      «attributes» := env.offset + 8 + code.length + 2 + 8 * w.catches.size }
  have rereads : c.Rereads q w.size := ⟨reads, length, short, whole, described⟩
  have width : rows.flatten.length = 8 * w.catches.size :=
    @Array.length_toList _ w.catches ▸ Cell.length_of_widths (shown.imp fun _ _ row => row.1)
  have window : Window m.input.cursor (env.offset + env.length) :=
    ⟨fits ▸ spells.inside, reads.addressable⟩
  have total := fits
  simp only [List.length_append, length_u2, length_u4, width] at total
  simp only [Cursor.spells_append_iff, List.length_append, length_u2, length_u4, width] at spells
  obtain ⟨⟨⟨⟨⟨stack, locals⟩, size⟩, coded⟩, counted, exceptions⟩, tabled, nested⟩ := spells
  have exceptionsAt : env.offset + (2 + 2 + 4 + code.length) = c.exceptions := by
    change _ = env.offset + 8 + code.length
    omega
  have attributesAt : env.offset + (2 + 2 + 4 + code.length + (2 + 8 * w.catches.size)) =
      c.attributes := by
    change _ = env.offset + 8 + code.length + 2 + 8 * w.catches.size
    omega
  rw [exceptionsAt] at counted exceptions
  rw [attributesAt] at tabled nested
  rw [maxCount] at few count
  rw [maxSize] at short
  have sizeRead : m.input.cursor.u4? (env.offset + 4 : Nat) = some code.length :=
    size.u4_of_lt (by omega)
  have rowsRead : m.input.cursor.u2? c.exceptions = some w.catches.size :=
    counted.u2_of_lt (by omega)
  have tablesRead : m.input.cursor.u2? c.attributes = some n := tabled.u2_of_lt (by omega)
  obtain ⟨⟨table, tableCount, laid⟩, δ, answers, held⟩ := held c rereads _ nested
  obtain ⟨catches, read, restated⟩ :=
    exceptions.rows (f := c.readCatch) (shown.imp fun _ _ row => ⟨row.1, row.2 c rereads⟩)
  have stop : c.attributes + 2 + tables.length = env.offset + env.length := by
    change env.offset + 8 + code.length + 2 + 8 * w.catches.size + 2 + tables.length = _
    omega
  have extent : Attribute.readCode m env (.on m.input.cursor (env.offset + env.length) env.offset) =
      .ok (.code c, .on m.input.cursor (env.offset + env.length) (env.offset + env.length)) := by
    refine (Attribute.readCode_eq_ok_iff window (Nat.le_add_right _ _)).mpr
      ⟨_, _, _, w.catches.size, table, env.offset + env.length, stack.u2, locals.u2, sizeRead,
        by omega, by omega, rowsRead, ⟨tableCount ▸ tablesRead, stop ▸ laid⟩, Nat.le_refl _, rfl,
          rfl⟩
  refine ⟨c, some ⟨m.input.origin, env.offset, env.length⟩, ?_, rfl, rereads, coded,
    ⟨_, catches, rowsRead, ?_, restated⟩, n, δ, tablesRead, ?_, answers⟩
  · rw [Attribute.decode_eq, Attribute.reader?_code m room named]
    exact Attribute.decodeWith_of_reads window extent
  · rw [← Array.length_toList]
    exact read
  · rw [← Nat.add_zero n]
    exact (held {} 0).trans (congrArg Except.ok (InputCode.Nested.empty_append δ))

/-! ## Offsets -/

namespace Cell

/-- The instructions start where those before them end. -/
theorem starts_eq (offset : Nat) (chunks : List (List Cell)) :
    starts offset chunks = (List.range chunks.length).map fun k => offset + ahead chunks k := by
  induction chunks generalizing offset with
  | nil => rfl
  | cons cells rest inductionHypothesis =>
      rw [starts, inductionHypothesis, List.length_cons, List.range_succ_eq_map, List.map_cons,
        List.map_map]
      refine congrArg (offset :: ·) (List.map_congr_left fun k _ => ?_)
      rw [Function.comp_apply, ahead, ahead, Nat.succ_eq_add_one, List.take_succ_cons,
        List.flatten_cons, widths_append, Nat.add_assoc]

end Cell

/-! ## Lines by offset -/

namespace InputCode

/-- Each line is put before those of its offset that were met before. -/
theorem getD_foldl_modify {rows : List (Nat × Nat)} {o : Nat} (inside : o ≤ size)
    (m : Array (List Nat)) (length : m.size = size + 1) :
    (rows.foldl (fun m (offset, line) => m.modify offset (line :: ·)) m)[o]?.getD [] =
      ((rows.filter (·.1 = o)).map (·.2)).reverse ++ m[o]?.getD [] := by
  induction rows generalizing m with
  | nil => simp
  | cons row rest inductionHypothesis =>
      rw [List.foldl_cons, inductionHypothesis _ (by rw [Array.size_modify, length]),
        Array.getElem?_modify]
      by_cases here : row.1 = o
      · have there : m[o]? = some m[o] := Array.getElem?_eq_getElem (by omega)
        rw [if_pos here, there]
        simp [here]
      · rw [if_neg here]
        simp [here]

/-- The lines of an offset stand in the order of the table. -/
theorem getD_linesByOffset {lines : List (Nat × Nat)} {o : Nat} (inside : o ≤ size) :
    (linesByOffset size lines)[o]?.getD [] = (lines.filter (·.1 = o)).map (·.2) := by
  rw [linesByOffset, getD_foldl_modify inside _ (by simp)]
  have empty : (Array.replicate (size + 1) ([] : List Nat))[o]?.getD [] = [] := by
    rw [Array.getElem?_replicate]
    split <;> rfl
  rw [empty, List.append_nil, List.filter_reverse, List.map_reverse, List.reverse_reverse]

end InputCode

/-! ## Elements -/

namespace InputCode

variable {c : InputCode}

/-- The lines at an offset, by a table of lines. -/
def linesAt (c : InputCode) (lines : List (Nat × Nat)) (o : Nat) : List Nat :=
  (linesByOffset c.codeLength lines)[o]?.getD []

/-- A body is decoded if what refers to offsets refers to the starts of instructions. -/
theorem elements_of_parts {n m : Nat} {catches : List Catch} {nested : Nested}
    {rows : List (Nat × Instruction)} (count : c.cursor.u2? c.exceptions = some n)
    (read : (List.range n).mapM c.readCatch = .ok catches)
    (tables : c.cursor.u2? c.attributes = some m)
    (nestedRead : c.readNestedFrom {} (c.attributes + 2 : Nat) m = .ok nested)
    (rowsRead : c.readInstructionsFrom [] 0 c.codeLength = .ok rows)
    (keeps : c.input.options.has .dropStackMaps = false)
    (starts : ∀ o < c.codeLength, c.labelled catches nested rows o = true → o ∈ rows.map Prod.fst)
    (lined : ∀ row ∈ nested.lines, row.1 ∈ rows.map Prod.fst) : ∃ es, c.elements = .ok es ∧
      c.Composed (c.labelled catches nested rows) (c.linesAt nested.lines) rows
        (catches.map .handler ++ nested.scopes)
        (nested.frames.map .attribute ++ nested.others.map .attribute) es := by
  obtain ⟨tiled, same, tiles⟩ := tiles_of_readInstructionsFrom (Nat.zero_le _) (by omega) rowsRead
  obtain rfl : rows = tiled := same
  have named := (Yields.mapM fun n _ => gives_readCatch n).1 _ read
  have held := (gives_readNestedFrom .empty _ _).1 _ nestedRead
  have composed := composed_of_parts (c.linesAt nested.lines) named held
    (List.Subset.refl _) tiles starts
  refine ⟨_, ?_, composed⟩
  have noTarget : (List.range c.codeLength).find? (fun o =>
      c.labelled catches nested rows o && !marked (marks c.codeLength (rows.map (·.1))) o) =
        none := by
    refine List.find?_eq_none.mpr fun o inside => ?_
    have before := List.mem_range.mp inside
    cases mark : c.labelled catches nested rows o with
    | false => simp
    | true =>
        have started : marked (marks c.codeLength (rows.map (·.1))) o = true :=
          marked_marks_iff.mpr ⟨Nat.le_of_lt before, starts o before mark⟩
        simp [started]
  have noLine : (List.range c.codeLength).find? (fun o =>
      !(c.linesAt nested.lines o).isEmpty && !marked (marks c.codeLength (rows.map (·.1))) o) =
        none := by
    refine List.find?_eq_none.mpr fun o inside => ?_
    have before := Nat.le_of_lt (List.mem_range.mp inside)
    rw [linesAt, getD_linesByOffset before]
    by_cases some_ : ∃ row ∈ nested.lines, row.1 = o
    · obtain ⟨row, member, rfl⟩ := some_
      have started : marked (marks c.codeLength (rows.map (·.1))) row.1 = true :=
        marked_marks_iff.mpr ⟨before, lined row member⟩
      simp [started]
    · have none : nested.lines.filter (fun row => row.1 = o) = [] :=
        List.filter_eq_nil_iff.mpr fun row member same =>
          some_ ⟨row, member, of_decide_eq_true same⟩
      simp [none]
  unfold elements
  refine bind_eq_ok_iff.mpr ⟨n, congrArg covered count, bind_eq_ok_iff.mpr ⟨catches, read, ?_⟩⟩
  refine bind_eq_ok_iff.mpr
    ⟨m, congrArg covered tables, bind_eq_ok_iff.mpr ⟨nested, nestedRead, ?_⟩⟩
  refine bind_eq_ok_iff.mpr ⟨rows, rowsRead, ?_⟩
  unfold labelled at noTarget
  unfold linesAt at noLine
  simp only [noTarget, noLine, keeps, Bool.false_eq_true, ↓reduceIte]
  rw [List.append_assoc _ (nested.frames.map _)]
  rfl

end InputCode

/-! ## Labels -/

/-- Every label that is used and stands somewhere is one of the decoded body for its offset, and
there are no others. -/
structure Covers (stands : Label → Option Nat) (c : InputCode) (used labels : List (Option Label)) :
    Prop where
  named : ∀ l, some l ∈ used → ∀ n, stands l = some n → some (c.label n) ∈ labels
  only : ∀ l', some l' ∈ labels → ∃ l n, some l ∈ used ∧ stands l = some n ∧ l' = c.label n

namespace Covers

variable {stands : Label → Option Nat} {c : InputCode} {used used' labels labels' :
    List (Option Label)}

/-- Labels of two lists are covered if those of each are. -/
theorem append (first : Covers stands c used labels) (second : Covers stands c used' labels') :
    Covers stands c (used ++ used') (labels ++ labels') where
  named l member n there := (List.mem_append.mp member).elim
    (fun member => List.mem_append_left _ (first.named l member n there))
    fun member => List.mem_append_right _ (second.named l member n there)
  only l' member := by
    rcases List.mem_append.mp member with member | member
    · obtain ⟨l, n, here, there⟩ := first.only l' member
      exact ⟨l, n, List.mem_append_left _ here, there⟩
    · obtain ⟨l, n, here, there⟩ := second.only l' member
      exact ⟨l, n, List.mem_append_right _ here, there⟩

/-- Labels of lists are covered if those of each item are. -/
theorem flatMap {α β : Type} {R : α → β → Prop} {as : List α} {bs : List β}
    {f : α → List (Option Label)} {g : β → List (Option Label)} (all : List.Forall₂ R as bs)
    (each : ∀ a b, R a b → Covers stands c (f a) (g b)) :
    Covers stands c (as.flatMap f) (bs.flatMap g) := by
  induction all with
  | nil => exact ⟨nofun, nofun⟩
  | cons first others inductionHypothesis =>
      rw [List.flatMap_cons, List.flatMap_cons]
      exact (each _ _ first).append inductionHypothesis

/-- Labels that were placed by their offsets. -/
theorem of_members (same : ∀ l, l ∈ labels ↔ l ∈ used.map (·.bind (c.standing stands))) :
    Covers stands c used labels where
  named l member n there := (same _).mpr (List.mem_map.mpr ⟨some l, member, by
    rw [Option.bind_some, InputCode.standing, there, Option.map_some]⟩)
  only l' member := by
    obtain ⟨l, here, placed⟩ := List.mem_map.mp ((same _).mp member)
    obtain ⟨l, rfl, found⟩ := Option.bind_eq_some_iff.mp placed
    obtain ⟨n, there, rfl⟩ := Option.map_eq_some_iff.mp found
    exact ⟨l, n, here, there, rfl⟩

end Covers

section

variable {stands : Label → Option Nat} {c : InputCode}

/-- A handler that was read again covers the labels of the row. -/
theorem Catch.Restates.covers {row row' : Catch} (restates : row.Restates stands c row') :
    Covers stands c row.labels row'.labels := by
  obtain ⟨start, stop, handler, type⟩ := row
  obtain ⟨start', stop', handler', type'⟩ := row'
  simp only [Catch.Restates, Catch.placed, Option.bind_fun_some, Catch.mk.injEq] at restates
  obtain ⟨rfl, rfl, rfl, -⟩ := restates
  exact .of_members fun _ => Iff.rfl

/-- A scope that was read again covers the labels of the row. -/
theorem LocalScope.Restates.covers {s s' : LocalScope} (restates : s.Restates stands c s') :
    Covers stands c s.labels s'.labels := by
  obtain ⟨slot, name, type, start, stop⟩ := s
  obtain ⟨slot', name', type', start', stop'⟩ := s'
  simp only [LocalScope.Restates, LocalScope.placed, Option.bind_fun_some,
    LocalScope.mk.injEq] at restates
  obtain ⟨-, -, -, rfl, rfl⟩ := restates
  exact .of_members fun _ => Iff.rfl

/-- A frame whose labels are placed has the placed labels. -/
theorem StackMapFrame.labels_relabel (f : StackMapFrame) (place : Label → Option Label) :
    (f.relabel place).labels = f.labels.map (·.bind place) := by
  have types (v : VerificationType) : (v.relabel place).label? = v.label?.map (·.bind place) := by
    cases v <;> rfl
  rw [labels, labels, relabel, ← List.map_append, List.filterMap_map, List.map_cons,
    List.map_filterMap]
  congr 2
  exact funext types

/-- Whether an attribute is a stack map does not depend on places. -/
theorem CodeOutline.isStackMap_bare (body : AttributeBody) :
    isStackMap body.bare = isStackMap body := by
  cases body <;> rfl

/-- An attribute of a body other than a stack map has no labels. -/
theorem AttributeBody.labels_of_plain {body : AttributeBody}
    (plain : CodeOutline.isStackMap body = false) :
    body.labels = [] := by
  cases body <;> first | rfl | cases plain

/-- An attribute that was read again covers the labels of what was written. -/
theorem AttributeBody.Restates.covers {body body' : AttributeBody}
    (restates : body.Restates stands c body') :
    Covers stands c body.labels body'.labels := by
  cases restates with
  | @stackMap frames sorted perm ascending =>
      refine .of_members fun l => ?_
      simp only [AttributeBody.labels, List.mem_map, List.mem_flatMap, exists_exists_and_eq_and,
        StackMapFrame.labels_relabel, perm.mem_iff]
      grind
  | other plain same =>
      rw [AttributeBody.labels_of_plain plain,
        AttributeBody.labels_of_plain
        (CodeOutline.isStackMap_bare body' ▸ same ▸ (CodeOutline.isStackMap_bare body).trans plain)]
      exact ⟨nofun, nofun⟩

/-- An instruction that was decoded again covers the labels of what was written. -/
theorem Instruction.Restates.covers {i i' : Instruction} (restates : i.Restates stands c i') :
    Covers stands c i.labels i'.labels := ⟨restates.named, restates.only⟩

end

end JvmClass
