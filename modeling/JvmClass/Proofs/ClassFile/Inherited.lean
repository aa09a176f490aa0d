import JvmClass.Proofs.Attribute.Table
import JvmClass.Proofs.Constant.Written

/-!
# Class files that start with the constants of another

Where the pool of a class file starts with the bytes of another pool, every index of that pool has
the same constant in both, with the same operands.
-/

namespace JvmClass

namespace Cursor

variable {c c' : Cursor} {p q r : Nat}

/-- What is read between `p` and `q` depends on what stands there only. -/
theorem number_eq_of_spells (spells : c'.Spells p (c.segment p q)) (inside : q ≤ c.size)
    (low : p ≤ r) {width : Nat} (high : r + width ≤ q) :
      c'.number? width r = c.number? width r := by
  have whole := spells_segment (c := c) (p := p) (q := q) (by omega) inside
  have size := length_segment (p := p) inside
  have same : c'.number? width (p + (r - p) : Nat) = c.number? width (p + (r - p) : Nat) :=
    spells.number whole (by omega)
  have here : p + (r - p) = r := by omega
  rwa [here] at same

/-- Inside a segment that another buffer spells in the same place, both have the same slices. -/
theorem slice_eq_of_spells (spells : c'.Spells p (c.segment p q)) (inside : q ≤ c.size)
    (low : p ≤ r) {n : Nat} (high : r + n ≤ q) : c'.slice? r n = c.slice? r n := by
  have whole := spells_segment (c := c) (p := p) (q := q) (by omega) inside
  have size := length_segment (p := p) inside
  have room := spells.inside
  have first := spells.segment_eq (k := r - p) (n := n) (by omega)
  have second := whole.segment_eq (k := r - p) (n := n) (by omega)
  have here : p + (r - p) = r := by omega
  rw [here] at first second
  rw [slice?_eq_some_iff.mpr ⟨by omega, rfl⟩, slice?_eq_some_iff.mpr ⟨by omega, rfl⟩, first, second]

end Cursor

namespace Layout

variable {c c' : Cursor} {p q q' : Nat}

/-- The size of a constant is determined by its bytes. -/
theorem SizeAt.functional {t : Tag} {size size' : Nat} (first : SizeAt c t p size)
    (second : SizeAt c t p size') : size = size' := by
  cases first with
  | text tag length =>
      cases second with
      | text _ length' => rw [Option.some.inj (length.symm.trans length')]
      | fixed other => exact absurd tag other
  | fixed tag =>
      cases second with
      | text other => exact absurd other tag
      | fixed => rfl

/-- A constant that another buffer spells in the same place is of the same size there. -/
theorem SizeAt.move {t : Tag} {size : Nat} (sized : SizeAt c t p size)
    (spells : c'.Spells p (c.segment p (p + size))) : SizeAt c' t p size := by
  have inside := sized.inside
  have room := spells.inside
  rw [Cursor.length_segment inside] at room
  cases sized with
  | text tag length =>
      refine .text tag ?_ (by omega)
      exact (Cursor.number_eq_of_spells spells inside (by omega) (by omega)).trans length
  | fixed tag => exact .fixed tag (by omega)

/-- Every constant has at least one byte. -/
theorem SizeAt.positive {t : Tag} {size : Nat} (sized : SizeAt c t p size) : 1 ≤ size := by
  cases sized with
  | text => omega
  | fixed => cases t <;> simp [constantSize]

/-- As many constants from one place on are the same. -/
theorem Constants.functional {rest rest' : List (Option Nat)} (first : Constants c p rest q)
    (second : Constants c p rest' q') (length : rest.length = rest'.length) :
    rest = rest' ∧ q = q' := by
  induction first generalizing rest' q' with
  | done p =>
      obtain rfl := List.length_eq_zero_iff.mp length.symm
      cases second
      exact ⟨rfl, rfl⟩
  | @narrow p q size b t rest byte tag slots sized others inductionHypothesis =>
      cases second with
      | done => simp at length
      | narrow byte' tag' slots' sized' others' =>
          obtain rfl := Option.some.inj (byte.symm.trans byte')
          obtain rfl := Option.some.inj (tag.symm.trans tag')
          obtain rfl := sized.functional sized'
          obtain ⟨rfl, rfl⟩ := inductionHypothesis others' (by simpa using length)
          exact ⟨rfl, rfl⟩
      | wide byte' tag' slots' sized' others' =>
          obtain rfl := Option.some.inj (byte.symm.trans byte')
          obtain rfl := Option.some.inj (tag.symm.trans tag')
          exact absurd slots' slots
  | @wide p q size b t rest byte tag slots sized others inductionHypothesis =>
      cases second with
      | done => simp at length
      | narrow byte' tag' slots' sized' others' =>
          obtain rfl := Option.some.inj (byte.symm.trans byte')
          obtain rfl := Option.some.inj (tag.symm.trans tag')
          exact absurd slots slots'
      | wide byte' tag' slots' sized' others' =>
          obtain rfl := Option.some.inj (byte.symm.trans byte')
          obtain rfl := Option.some.inj (tag.symm.trans tag')
          obtain rfl := sized.functional sized'
          obtain ⟨rfl, rfl⟩ := inductionHypothesis others' (by simpa using length)
          exact ⟨rfl, rfl⟩

/-- As many members from one place on are the same. -/
theorem Members.functional {spans spans' : List MemberSpan} (first : Members c p spans q)
    (second : Members c p spans' q') (length : spans.length = spans'.length) :
    spans = spans' ∧ q = q' := by
  induction first generalizing spans' q' with
  | done p =>
      obtain rfl := List.length_eq_zero_iff.mp length.symm
      cases second
      exact ⟨rfl, rfl⟩
  | @next p q span rest rows start «attributes» table others inductionHypothesis =>
      cases second with
      | done => simp at length
      | @next _ _ span' _ rows' start' attributes' table' others' =>
          obtain ⟨first, second, stop⟩ := span
          obtain ⟨first', second', stop'⟩ := span'
          obtain rfl : first = p := start
          obtain rfl : first' = first := start'
          obtain rfl : second = first' + 6 := «attributes»
          obtain rfl : second' = first' + 6 := attributes'
          obtain ⟨-, rfl⟩ := table.functional table'
          obtain ⟨rfl, rfl⟩ := inductionHypothesis others' (by simpa using length)
          exact ⟨rfl, rfl⟩

/-- Attributes from one place up to one other are the same. -/
theorem Rows.functional_of_end {rows rows' : List Row} (first : Rows c p rows q)
    (second : Rows c p rows' q) : rows = rows' := by
  induction first generalizing rows' with
  | done p =>
      cases second with
      | done => rfl
      | next name length offset inside others =>
          have forward := others.forward
          omega
  | @next p q row rest name size offset inside others inductionHypothesis =>
      cases second with
      | done =>
          have forward := others.forward
          omega
      | @next _ _ row' _ name' size' offset' inside' others' =>
          have same : row = row' := by
            obtain ⟨n, o, s⟩ := row
            obtain ⟨n', o', s'⟩ := row'
            simp_all
          subst same
          rw [inductionHypothesis others']

/-- Constants are followed by more. -/
theorem Constants.append {r : Nat} {rest rest' : List (Option Nat)} (first : Constants c p rest q)
    (second : Constants c q rest' r) : Constants c p (rest ++ rest') r := by
  induction first with
  | done p => exact second
  | narrow byte tag slots sized others inductionHypothesis =>
      exact .narrow byte tag slots sized (inductionHypothesis second)
  | wide byte tag slots sized others inductionHypothesis =>
      exact .wide byte tag slots sized (inductionHypothesis second)

/-- The same bytes hold the same constants. -/
theorem Constants.move {rest : List (Option Nat)} (constants : Constants c p rest q)
    (start : p ≤ c.size) (spells : c'.Spells p (c.segment p q)) : Constants c' p rest q := by
  -- The bytes of the first constant and those of the others.
  have parts {p q size : Nat} {t : Tag} {rest : List (Option Nat)} (sized : SizeAt c t p size)
      (others : Constants c (p + size) rest q) (spells : c'.Spells p (c.segment p q)) :
      c'.Spells p (c.segment p (p + size)) ∧ c'.Spells (p + size) (c.segment (p + size) q) := by
    have inside := (others.inside sized.inside).1
    rw [← Cursor.segment_append (q := p + size) (by omega) inside, Cursor.spells_append_iff,
      Cursor.length_segment sized.inside, Nat.add_sub_cancel_left] at spells
    exact spells
  induction constants with
  | done p => exact .done p
  | narrow byte tag slots sized others inductionHypothesis =>
      obtain ⟨first, second⟩ := parts sized others spells
      have positive := sized.positive
      exact .narrow
        ((Cursor.number_eq_of_spells first sized.inside (Nat.le_refl _) (by omega)).trans byte) tag
        slots (sized.move first) (inductionHypothesis sized.inside second)
  | wide byte tag slots sized others inductionHypothesis =>
      obtain ⟨first, second⟩ := parts sized others spells
      have positive := sized.positive
      exact .wide
        ((Cursor.number_eq_of_spells first sized.inside (Nat.le_refl _) (by omega)).trans byte) tag
        slots (sized.move first) (inductionHypothesis sized.inside second)

/-- Every constant lies between the first and the last. -/
theorem Constants.within {rest : List (Option Nat)} (constants : Constants c p rest q)
    (start : p ≤ c.size) {r : Nat} (member : some r ∈ rest) :
    p ≤ r ∧ ∃ b t size, c.u1? r = some b ∧ Tag.ofByte? b.toUInt8 = some t ∧ SizeAt c t r size ∧
      r + size ≤ q := by
  induction constants with
  | done p => cases member
  | narrow byte tag slots sized others inductionHypothesis =>
      rcases List.mem_cons.mp member with same | member
      · obtain rfl := Option.some.inj same
        exact ⟨Nat.le_refl _, _, _, _, byte, tag, sized, (others.inside sized.inside).1⟩
      · obtain ⟨after, lies⟩ := inductionHypothesis sized.inside member
        exact ⟨by omega, lies⟩
  | wide byte tag slots sized others inductionHypothesis =>
      rcases List.mem_cons.mp member with same | member
      · obtain rfl := Option.some.inj same
        exact ⟨Nat.le_refl _, _, _, _, byte, tag, sized, (others.inside sized.inside).1⟩
      · rcases List.mem_cons.mp member with none | member
        · cases none
        · obtain ⟨after, lies⟩ := inductionHypothesis sized.inside member
          exact ⟨by omega, lies⟩

variable {l l' : Layout} {origin : Origin}

/-- The constants lie between the header of ten bytes and the end of the buffer. -/
theorem Scanned.inside (scanned : l.Scanned) : 10 ≤ l.poolEnd ∧ l.poolEnd ≤ l.cursor.size := by
  obtain ⟨rest, -, constants⟩ := scanned.constants
  have counted := (Cursor.number?_eq_some_iff.mp scanned.count).1
  exact constants.inside (by omega)

/-- The indices of a pool fit two bytes. -/
theorem Scanned.size_lt (scanned : l.Scanned) : l.size < 65536 := Cursor.u2_lt scanned.count

/-- Where an index has a constant there is one, and it lies inside the pool. -/
theorem Scanned.sized (scanned : l.Scanned) {k : Nat} (offset : l.offsets[k]?.join = some q) :
    10 ≤ q ∧ ∃ b t size, l.cursor.u1? q = some b ∧ Tag.ofByte? b.toUInt8 = some t ∧
      SizeAt l.cursor t q size ∧ q + size ≤ l.poolEnd := by
  obtain ⟨rest, same, constants⟩ := scanned.constants
  obtain ⟨offset', here, rfl⟩ : ∃ o, l.offsets[k]? = some o ∧ o = some q := by
    simpa [Option.join_eq_some_iff] using offset
  have member : some q ∈ rest := by
    have listed := Array.mem_of_getElem? here
    simpa [same] using listed
  exact constants.within (Nat.le_trans scanned.inside.1 scanned.inside.2) member

/-- A constant of a scanned pool lies inside the pool. -/
theorem Scanned.constant (scanned : l.Scanned) {k : Nat} {t : Tag} (constant : l.ConstantAt k t q) :
    k < l.size ∧ 10 ≤ q ∧ ∃ size, SizeAt l.cursor t q size ∧ q + size ≤ l.poolEnd := by
  obtain ⟨offset, b, byte, tag⟩ := constant
  obtain ⟨low, b', t', size, byte', tag', sized, high⟩ := scanned.sized offset
  obtain rfl := Option.some.inj (byte.symm.trans byte')
  obtain rfl := Option.some.inj (tag.symm.trans tag')
  exact ⟨Lookup.lt_size offset, low, size, sized, high⟩

/-- The pool of a class file starts with that of another. -/
structure Inherits (l' l : Layout) : Prop where
  offsets : ∀ k < l.size, l'.offsets[k]? = l.offsets[k]?
  bytes : l'.cursor.Spells 10 (l.cursor.segment 10 l.poolEnd)

/-- What an index holds stands after its tag. -/
theorem Holds.operandsAt {k : Nat} {e : Entry} (holds : l.Holds origin k e) :
    ∃ q, l.ConstantAt k e.tag q ∧ e.OperandsAt l.cursor q := by
  obtain ⟨t, q, constant, decodes⟩ := holds_iff.mp holds
  have refer {α : Type} {want : Entry → Option α} {p : Nat} {a : α} {e : Entry}
      (refers : l.Refers (l.Holds origin) want p a) (only : ∀ {e'}, want e' = some a → e' = e) :
      l.cursor.u2? p = some e.index := by
    obtain ⟨index, holds, taken⟩ := refers
    obtain rfl := only taken
    rw [index, Entry.index, holds.place]
  have text {p : Nat} {u : Utf8Entry} (refers : l.Refers (l.Holds origin) Entry.utf8? p u) :
      l.cursor.u2? p = some u.place.index := refer refers Entry.utf8?_eq_some_iff.mp
  have nameAndType {p : Nat} {nt : NameAndTypeEntry}
      (refers : l.Refers (l.Holds origin) Entry.nameAndType? p nt) :
      l.cursor.u2? p = some nt.place.index := refer refers Entry.nameAndType?_eq_some_iff.mp
  cases decodes with
  | utf8 spelled =>
      obtain ⟨constant', length, slice, decoded⟩ := spelled
      obtain ⟨-, rfl⟩ := constant.functional constant'
      exact ⟨_, constant, _, _, length, slice, decoded⟩
  | integer value => exact ⟨q, constant, value⟩
  | float bits => exact ⟨q, constant, bits⟩
  | long value => exact ⟨q, constant, value⟩
  | double bits => exact ⟨q, constant, bits⟩
  | «class» named => exact ⟨q, constant, text named⟩
  | string spelled => exact ⟨q, constant, text spelled⟩
  | methodType described => exact ⟨q, constant, text described⟩
  | module named => exact ⟨q, constant, text named⟩
  | package named => exact ⟨q, constant, text named⟩
  | nameAndType named typed => exact ⟨q, constant, text named, text typed⟩
  | member tag owned named =>
      subst tag
      exact ⟨q, constant, refer owned Entry.class?_eq_some_iff.mp, nameAndType named⟩
  | @handle b target kind targeted accepts =>
      refine ⟨q, constant, ?_, refer targeted Entry.member?_eq_some_iff.mp⟩
      have small : b.toUInt8.toNat = b := by
        have bound := Cursor.u1_lt kind
        rw [toNat_toUInt8]
        omega
      exact kind.trans (congrArg some small.symm)
  | dynamic number rowed named =>
      exact ⟨q, constant, number.trans (congrArg some rowed.index.symm), nameAndType named⟩
  | callSite number rowed named =>
      exact ⟨q, constant, number.trans (congrArg some rowed.index.symm), nameAndType named⟩

namespace Inherits

variable (inherits : l'.Inherits l) (scanned : l.Scanned)
include inherits scanned

/-- What is read inside the pool is the same in both. -/
theorem number {r width : Nat} (low : 10 ≤ r) (high : r + width ≤ l.poolEnd) :
    l'.cursor.number? width r = l.cursor.number? width r :=
  Cursor.number_eq_of_spells inherits.bytes scanned.inside.2 low high

/-- A constant of the old pool lies in the new one where it lay. -/
theorem constantAt {k : Nat} {t : Tag} (constant : l.ConstantAt k t q) : l'.ConstantAt k t q := by
  obtain ⟨below, low, size, sized, high⟩ := scanned.constant constant
  obtain ⟨offset, b, byte, tag⟩ := constant
  have positive := sized.positive
  exact ⟨by rw [inherits.offsets k below]; exact offset, b,
    (inherits.number scanned low (by omega)).trans byte, tag⟩

/-- The operands of a constant are the same in a buffer that spells the pool in the same place. -/
theorem operandsAt {k : Nat} {e : Entry} (constant : l.ConstantAt k e.tag q)
    (operands : e.OperandsAt l.cursor q) : e.OperandsAt l'.cursor q := by
  obtain ⟨-, low, size, sized, high⟩ := scanned.constant constant
  -- Every operand but a text lies in the size that the tag gives.
  have read {r w : Nat} (after : q ≤ r) (fixed : e.tag ≠ .utf8)
      (fits : r + w ≤ q + constantSize e.tag) :
      l'.cursor.number? w r = l.cursor.number? w r := by
    cases sized with
    | text tag => exact absurd tag fixed
    | fixed => exact inherits.number scanned (by omega) (by omega)
  have two {r n : Nat} (after : q ≤ r) (fixed : e.tag ≠ .utf8)
      (fits : r + 2 ≤ q + constantSize e.tag) (value : l.cursor.u2? r = some n) :
      l'.cursor.u2? r = some n := (read after fixed fits).trans value
  cases e with
  | utf8 u =>
      obtain ⟨n, bytes, length, slice, decoded⟩ := operands
      cases sized with
      | fixed other => exact absurd rfl other
      | text tag length' =>
          obtain rfl := Option.some.inj (length.symm.trans length')
          refine ⟨n, bytes, (inherits.number scanned (by omega) (by omega)).trans length, ?_,
            decoded⟩
          exact (Cursor.slice_eq_of_spells inherits.bytes scanned.inside.2 (by omega)
            (by omega)).trans slice
  | loadable e =>
      cases e with
      | integer place n =>
          have same : l'.cursor.u4? (q + 1 : Nat) = l.cursor.u4? (q + 1 : Nat) :=
            read (by omega) (by rintro ⟨⟩) (Nat.le_refl _)
          rw [Entry.OperandsAt, Loadable.OperandsAt, Cursor.s4?, same]
          exact operands
      | float place bits =>
          exact (read (r := q + 1) (w := 4) (by omega) (by rintro ⟨⟩) (Nat.le_refl _)).trans
            operands
      | long place n =>
          have same : l'.cursor.u8? (q + 1 : Nat) = l.cursor.u8? (q + 1 : Nat) :=
            read (by omega) (by rintro ⟨⟩) (Nat.le_refl _)
          rw [Entry.OperandsAt, Loadable.OperandsAt, Cursor.s8?, same]
          exact operands
      | double place bits =>
          exact (read (r := q + 1) (w := 8) (by omega) (by rintro ⟨⟩) (Nat.le_refl _)).trans
            operands
      | «class» e => exact two (by omega) (by rintro ⟨⟩) (Nat.le_refl _) operands
      | string place utf8 => exact two (by omega) (by rintro ⟨⟩) (Nat.le_refl _) operands
      | methodType place descriptor => exact two (by omega) (by rintro ⟨⟩) (Nat.le_refl _) operands
      | handle e =>
          exact ⟨(read (r := q + 1) (w := 1) (by omega) (by rintro ⟨⟩)
            (Nat.le_add_right (q + 2) 2)).trans
              operands.1,
            two (by omega) (by rintro ⟨⟩) (Nat.le_refl _) operands.2⟩
      | dynamic place row nt =>
          exact ⟨two (by omega) (by rintro ⟨⟩) (Nat.le_add_right (q + 3) 2) operands.1,
            two (by omega) (by rintro ⟨⟩) (Nat.le_refl _) operands.2⟩
  | nameAndType e =>
      exact ⟨two (by omega) (by rintro ⟨⟩) (Nat.le_add_right (q + 3) 2) operands.1,
        two (by omega) (by rintro ⟨⟩) (Nat.le_refl _) operands.2⟩
  | member e =>
      obtain ⟨place, kind, owner, nt⟩ := e
      cases kind <;> exact ⟨two (by omega) (by rintro ⟨⟩) (Nat.le_add_right (q + 3) 2) operands.1,
        two (by omega) (by rintro ⟨⟩) (Nat.le_refl _) operands.2⟩
  | callSite e =>
      exact ⟨two (by omega) (by rintro ⟨⟩) (Nat.le_add_right (q + 3) 2) operands.1,
        two (by omega) (by rintro ⟨⟩) (Nat.le_refl _) operands.2⟩
  | module e => exact two (by omega) (by rintro ⟨⟩) (Nat.le_refl _) operands
  | package e => exact two (by omega) (by rintro ⟨⟩) (Nat.le_refl _) operands

/-- A text stands at its index in both. -/
theorem textAt {k : Nat} {text : Text} (spelled : l.TextAt k text) : l'.TextAt k text := by
  obtain ⟨constant, length, slice, decoded⟩ := spelled
  have operands : (Entry.utf8 ⟨⟨.output, k⟩, text⟩).OperandsAt l.cursor _ :=
    ⟨_, _, length, slice, decoded⟩
  obtain ⟨n, bytes, length', slice', decoded'⟩ :=
    inherits.operandsAt scanned (e := .utf8 ⟨⟨.output, k⟩, text⟩) constant operands
  exact .intro (inherits.constantAt scanned constant) length' slice' decoded'

end Inherits

end Layout

end JvmClass
