import JvmClass.ClassFile.Layout
import JvmClass.Proofs.Bytes.Scan
import JvmClass.Proofs.Outcome

/-!
# What a scanned class file holds

The parts of a class file follow one another without a gap. The relations here say so for
the constants, the members and an attribute table by themselves, and `Layout.Scanned` says it
for the whole file; a buffer is scanned exactly when they hold of it.
-/

namespace JvmClass.Layout

open Scan (Reads)

variable {c : Cursor}

/-- The encoded size of a constant with tag `t` at `p`. -/
inductive SizeAt (c : Cursor) (t : Tag) (p : Nat) : Nat → Prop
  | text {n : Nat} (tag : t = .utf8) (length : c.u2? (p + 1 : Nat) = some n)
      (inside : p + (3 + n) ≤ c.size) : SizeAt c t p (3 + n)
  | fixed (tag : t ≠ .utf8) (inside : p + constantSize t ≤ c.size) :
      SizeAt c t p (constantSize t)

/-- Bytes are missing where they would end outside the buffer. -/
theorem has_eq_false_iff {p n : Nat} : (!c.has p n) = true ↔ ¬p + n ≤ c.size := by
  rw [Bool.not_eq_true', ← Bool.not_eq_true, Cursor.has_iff]

/-- What an earlier check has covered is there. -/
theorem covered_eq_ok_iff {α : Type} {o : Option α} {a : α} : covered o = .ok a ↔ o = some a := by
  cases o <;> simp [covered]

/-- The size of a constant is found where its bytes are there, those of a text by its length. -/
theorem sizeAt_eq_ok_iff {t : Tag} {p last size : Nat} :
    sizeAt c t p last = .ok size ↔ SizeAt c t p size := by
  by_cases tag : t = .utf8
  · subst tag
    simp only [sizeAt, guard_eq_ok_iff, bind_eq_ok_iff, covered_eq_ok_iff, pure_eq_ok_iff,
      has_eq_false_iff, ↓reduceIte, Decidable.not_not, constantSize]
    constructor
    · rintro ⟨-, n, length, inside, rfl⟩
      exact .text rfl length inside
    · intro sized
      cases sized with
      | text tag length inside => exact ⟨by omega, _, length, inside, rfl⟩
      | fixed tag => exact absurd rfl tag
  · simp only [sizeAt, guard_eq_ok_iff, pure_eq_ok_iff, has_eq_false_iff, tag, ↓reduceIte,
      Decidable.not_not]
    constructor
    · rintro ⟨inside, rfl⟩
      exact .fixed tag inside
    · intro sized
      cases sized with
      | text text => exact absurd text tag
      | fixed tag inside => exact ⟨inside, rfl⟩

/-- The constants from `p` up to `q`, by the offsets of their indices. -/
inductive Constants (c : Cursor) : Nat → List (Option Nat) → Nat → Prop
  | done (p : Nat) : Constants c p [] p
  | narrow {p q size b : Nat} {t : Tag} {rest : List (Option Nat)}
      (byte : c.u1? p = some b) (tag : Tag.ofByte? b.toUInt8 = some t) (slots : t.slots ≠ 2)
      (sized : SizeAt c t p size) (others : Constants c (p + size) rest q) :
      Constants c p (some p :: rest) q
  | wide {p q size b : Nat} {t : Tag} {rest : List (Option Nat)}
      (byte : c.u1? p = some b) (tag : Tag.ofByte? b.toUInt8 = some t) (slots : t.slots = 2)
      (sized : SizeAt c t p size) (others : Constants c (p + size) rest q) :
      Constants c p (some p :: none :: rest) q

/-- What scanning gives for the constants are their offsets, one after another, with nothing for the
second index of a wide one. -/
theorem constants_of_scanConstants {left i p q : Nat} {found offsets : Array (Option Nat)}
    (scanned : scanConstants c left i p found = .ok (offsets, q)) :
    ∃ rest, offsets = found ++ rest.toArray ∧ rest.length = left ∧ Constants c p rest q := by
  fun_induction scanConstants c left i p found with
  | case1 i p found =>
      obtain ⟨rfl, rfl⟩ := Prod.mk.inj (Except.ok.inj scanned)
      exact ⟨[], by simp, rfl, .done _⟩
  | case2 | case3 | case4 | case5 | case7 => cases scanned
  | case6 i p found b byte t tag slots left size sized inductionHypothesis =>
      obtain ⟨rest, rfl, length, others⟩ := inductionHypothesis scanned
      exact ⟨some p :: none :: rest, by simp, by simp [length],
        .wide byte tag slots (sizeAt_eq_ok_iff.mp sized) others⟩
  | case8 left i p found b byte t tag slots size sized inductionHypothesis =>
      obtain ⟨rest, rfl, length, others⟩ := inductionHypothesis scanned
      exact ⟨some p :: rest, by simp, by simp [length],
        .narrow byte tag slots (sizeAt_eq_ok_iff.mp sized) others⟩

/-- A constant that has been measured lies in the buffer. -/
theorem SizeAt.inside {t : Tag} {p size : Nat} (sized : SizeAt c t p size) : p + size ≤ c.size := by
  cases sized <;> assumption

/-- Constants lie one after another in the buffer. -/
theorem Constants.inside {p q : Nat} {rest : List (Option Nat)} (constants : Constants c p rest q)
    (start : p ≤ c.size) : p ≤ q ∧ q ≤ c.size := by
  induction constants with
  | done p => exact ⟨Nat.le_refl _, start⟩
  | narrow byte tag slots sized others inductionHypothesis =>
      have next := inductionHypothesis sized.inside
      exact ⟨by omega, next.2⟩
  | wide byte tag slots sized others inductionHypothesis =>
      have next := inductionHypothesis sized.inside
      exact ⟨by omega, next.2⟩

/-- An attribute of a table: the index of its name and where its body lies. -/
structure Row where
  name : Nat
  offset : Nat
  length : Nat
deriving DecidableEq, Repr

/-- The attributes from `p` up to `q`. -/
inductive Rows (c : Cursor) : Nat → List Row → Nat → Prop
  | done (p : Nat) : Rows c p [] p
  | next {p q : Nat} {row : Row} {rest : List Row} (name : c.u2? p = some row.name)
      (length : c.u4? (p + 2 : Nat) = some row.length) (offset : row.offset = p + 6)
      (inside : row.offset + row.length ≤ c.size)
      (others : Rows c (row.offset + row.length) rest q) : Rows c p (row :: rest) q

/-- The attribute table from `p` up to `q`. -/
structure Table (c : Cursor) (p : Nat) (rows : List Row) (q : Nat) : Prop where
  count : c.u2? p = some rows.length
  rows : Rows c (p + 2) rows q

/-- Rows end after they start. -/
theorem Rows.forward {p q : Nat} {rows : List Row} (held : Rows c p rows q) : p ≤ q := by
  induction held with
  | done p => exact Nat.le_refl _
  | next name length offset inside others inductionHypothesis => omega

/-- A table has at least its count. -/
theorem Table.forward {p q : Nat} {rows : List Row} (table : Table c p rows q) : p + 2 ≤ q :=
  table.rows.forward

/-- The members from `p` up to `q`. -/
inductive Members (c : Cursor) : Nat → List MemberSpan → Nat → Prop
  | done (p : Nat) : Members c p [] p
  | next {p q : Nat} {span : MemberSpan} {rest : List MemberSpan} {rows : List Row}
      (start : span.start = p) (attributes : span.attributes = p + 6)
      (table : Table c span.attributes rows span.stop) (others : Members c span.stop rest q) :
      Members c p (span :: rest) q

/-- Members end after they start. -/
theorem Members.forward {p q : Nat} {spans : List MemberSpan} (members : Members c p spans q) :
    p ≤ q := by
  induction members with
  | done p => exact Nat.le_refl _
  | next start «attributes» table others inductionHypothesis =>
      have := table.forward
      omega

/-- Members lie between the first and the last position. -/
theorem Members.span {p q : Nat} {spans : List MemberSpan} (members : Members c p spans q)
    {span : MemberSpan} (member : span ∈ spans) :
    span.attributes = span.start + 6 ∧ span.attributes ≤ span.stop ∧ span.stop ≤ q := by
  induction members with
  | done p => cases member
  | next start «attributes» table others inductionHypothesis =>
      rcases List.mem_cons.mp member with rfl | member
      · have forward := table.forward
        exact ⟨by omega, by omega, others.forward⟩
      · exact inductionHypothesis member

/-- Every member has a table of attributes behind its header, up to its end. -/
theorem Members.table {p q : Nat} {spans : List MemberSpan} (members : Members c p spans q)
    {span : MemberSpan} (member : span ∈ spans) :
    ∃ rows, Table c (span.start + 6) rows span.stop := by
  induction members with
  | done p => cases member
  | next start «attributes» table others inductionHypothesis =>
      rcases List.mem_cons.mp member with rfl | member
      · rw [«attributes», ← start] at table
        exact ⟨_, table⟩
      · exact inductionHypothesis member

/-- Two-byte indices, one after another from `p` on. -/
inductive Indices (c : Cursor) : Nat → List Nat → Prop
  | done (p : Nat) : Indices c p []
  | next {p i : Nat} {rest : List Nat} (first : c.u2? p = some i)
      (others : Indices c (p + 2) rest) :
      Indices c p (i :: rest)

section Window

variable {stop : Nat} (window : Window c stop)
include window

/-- An attribute is skipped where its body ends inside the window. -/
theorem skipAttribute_eq_ok_iff {p : Nat} {d : Decoder} {u : Unit} (before : p ≤ stop) :
    skipAttribute (.on c stop p) = .ok (u, d) ↔
      ∃ n, c.u4? (p + 2 : Nat) = some n ∧ p + 6 + n ≤ stop ∧ d = .on c stop (p + 6 + n) := by
  simp only [skipAttribute, Scan.bind_eq_ok_iff, Scan.guard_eq_ok_iff, Scan.remaining_eq_ok_iff]
  constructor
  · rintro ⟨_, e, named, n, e', read, left, e'', ⟨rfl, rfl⟩, fits, skipped⟩
    obtain ⟨name, rfl⟩ := (Scan.skip_eq_ok_iff (n := 2) window before (by decide)).mp named
    obtain ⟨held, length, rfl⟩ := (Scan.u4_eq_ok_iff window name).mp read
    rw [Scan.remaining_on window length] at fits
    have short := Cursor.u4_lt held
    obtain ⟨inside, rfl⟩ := (Scan.skip_eq_ok_iff window length (by omega)).mp skipped
    exact ⟨n, held, inside, rfl⟩
  · rintro ⟨n, read, inside, rfl⟩
    have name : p + 2 ≤ stop := by omega
    have length : p + 2 + 4 ≤ stop := by omega
    have short := Cursor.u4_lt read
    refine ⟨(), _, (Scan.skip_eq_ok_iff (n := 2) window before (by decide)).mpr ⟨name, rfl⟩,
      n, _, (Scan.u4_eq_ok_iff window name).mpr ⟨read, length, rfl⟩, _, _, ⟨rfl, rfl⟩, ?_,
      (Scan.skip_eq_ok_iff window length (by omega)).mpr ⟨inside, rfl⟩⟩
    rw [Scan.remaining_on window length]
    omega

/-- Attributes are skipped one after another where their bodies end inside the window. -/
theorem rows_of_reads {p : Nat} {units : List Unit} {d : Decoder} (before : p ≤ stop)
    (reads : Reads skipAttribute (.on c stop p) units d) :
    ∃ rows q, rows.length = units.length ∧ Rows c p rows q ∧ p ≤ q ∧ q ≤ stop ∧
      d = .on c stop q := by
  have whole := window.inside
  induction units generalizing p with
  | nil =>
      cases reads
      exact ⟨[], p, rfl, .done p, Nat.le_refl _, before, rfl⟩
  | cons _ units inductionHypothesis =>
      cases reads with
      | next first others =>
          obtain ⟨n, length, inside, rfl⟩ := (skipAttribute_eq_ok_iff window before).mp first
          obtain ⟨rows, q, count, rest, forward, inside', rfl⟩ := inductionHypothesis inside others
          have named : c.u2? p = some (ofBigEndian (c.segment p (p + 2))) :=
            Cursor.number?_eq_some_iff.mpr ⟨by omega, rfl⟩
          exact ⟨⟨_, p + 6, n⟩ :: rows, q, by simp [count],
            .next named length rfl (Nat.le_trans inside whole) rest, by omega, inside', rfl⟩

/-- Rows that lie in a window are skipped one after another. -/
theorem reads_of_rows {p q : Nat} {rows : List Row} (held : Rows c p rows q) (before : q ≤ stop) :
    Reads skipAttribute (.on c stop p) (rows.map fun _ => ()) (.on c stop q) := by
  induction held with
  | done p => exact .done _
  | next name length offset inside others inductionHypothesis =>
      have forward := others.forward
      have reads := inductionHypothesis before
      rw [offset] at forward reads
      exact .next ((skipAttribute_eq_ok_iff window (by omega)).mpr
        ⟨_, length, by omega, rfl⟩) reads

/-- An attribute table is skipped where all of it lies inside the window. -/
theorem skipAttributes_eq_ok_iff {p : Nat} {d : Decoder} {u : Unit} (before : p ≤ stop) :
    skipAttributes (.on c stop p) = .ok (u, d) ↔
      ∃ rows q, Table c p rows q ∧ q ≤ stop ∧ d = .on c stop q := by
  simp only [skipAttributes, Scan.bind_eq_ok_iff, Scan.pure_eq_ok_iff, Scan.times_eq_ok_iff]
  constructor
  · rintro ⟨n, e, counted, units, e', ⟨length, reads⟩, -, rfl⟩
    obtain ⟨count, room, rfl⟩ := (Scan.u2_eq_ok_iff window before).mp counted
    obtain ⟨rows, q, same, held, forward, inside, rfl⟩ := rows_of_reads window room reads
    exact ⟨rows, q, ⟨by rw [count, same, length], held⟩, inside, rfl⟩
  · rintro ⟨rows, q, ⟨count, held⟩, inside, rfl⟩
    have forward := held.forward
    have reads := reads_of_rows window held inside
    exact ⟨_, _, (Scan.u2_eq_ok_iff window before).mpr ⟨count, by omega, rfl⟩,
      _, _, ⟨by simp, reads⟩, trivial, rfl⟩

/-- A member is read where all of it lies inside the window. -/
theorem scanMember_eq_ok_iff {p : Nat} {span : MemberSpan} {d : Decoder} (before : p ≤ stop) :
    scanMember (.on c stop p) = .ok (span, d) ↔
      span.start = p ∧ span.attributes = p + 6 ∧
        (∃ rows, Table c span.attributes rows span.stop) ∧ span.stop ≤ stop ∧
        d = .on c stop span.stop := by
  simp only [scanMember, Scan.bind_eq_ok_iff, Scan.pure_eq_ok_iff, Scan.pos_eq_ok_iff]
  constructor
  · rintro ⟨start, e, ⟨rfl, rfl⟩, _, e', header, «attributes», e'', ⟨rfl, rfl⟩, _, e₃, table,
      stop', e₄, ⟨rfl, rfl⟩, rfl, rfl⟩
    obtain ⟨room, rfl⟩ := (Scan.skip_eq_ok_iff (n := 6) window before (by decide)).mp header
    obtain ⟨rows, q, held, inside, rfl⟩ := (skipAttributes_eq_ok_iff window room).mp table
    exact ⟨rfl, rfl, ⟨rows, held⟩, inside, rfl⟩
  · rintro ⟨start, «attributes», ⟨rows, held⟩, inside, rfl⟩
    rw [«attributes»] at held
    have forward := held.forward
    have room : p + 6 ≤ stop := by omega
    refine ⟨_, _, ⟨rfl, rfl⟩, (), _,
      (Scan.skip_eq_ok_iff (n := 6) window before (by decide)).mpr ⟨room, rfl⟩, _, _, ⟨rfl, rfl⟩,
      (), _, (skipAttributes_eq_ok_iff window room).mpr ⟨rows, _, held, inside, rfl⟩,
      _, _, ⟨rfl, rfl⟩, ?_, rfl⟩
    obtain ⟨first, second, third⟩ := span
    obtain rfl : first = p := start
    obtain rfl : second = first + 6 := «attributes»
    rfl

/-- Members are read one after another where they lie inside the window. -/
theorem reads_scanMember_iff {p : Nat} {spans : List MemberSpan} {d : Decoder}
    (before : p ≤ stop) :
    Reads scanMember (.on c stop p) spans d ↔
      ∃ q, Members c p spans q ∧ q ≤ stop ∧ d = .on c stop q := by
  induction spans generalizing p with
  | nil =>
      constructor
      · intro reads
        cases reads
        exact ⟨p, .done p, before, rfl⟩
      · rintro ⟨q, members, -, rfl⟩
        cases members
        exact .done _
  | cons span rest inductionHypothesis =>
      constructor
      · intro reads
        cases reads with
        | next first others =>
            obtain ⟨start, «attributes», ⟨rows, table⟩, inside, rfl⟩ :=
              (scanMember_eq_ok_iff window before).mp first
            obtain ⟨q, members, inside', rfl⟩ := (inductionHypothesis inside).mp others
            exact ⟨q, .next start «attributes» table members, inside', rfl⟩
      · rintro ⟨q, members, inside, rfl⟩
        cases members with
        | next start «attributes» table others =>
            have before' := Nat.le_trans others.forward inside
            have first := (scanMember_eq_ok_iff window before).mpr
              ⟨start, «attributes», ⟨_, table⟩, before', rfl⟩
            exact .next first ((inductionHypothesis before').mpr ⟨q, others, inside, rfl⟩)

/-- Indices are read one after another where they lie inside the window. -/
theorem reads_u2_iff {p : Nat} {is : List Nat} {d : Decoder} (before : p ≤ stop) :
    Reads Scan.u2 (.on c stop p) is d ↔
      Indices c p is ∧ p + 2 * is.length ≤ stop ∧ d = .on c stop (p + 2 * is.length) := by
  induction is generalizing p with
  | nil =>
      constructor
      · intro reads
        cases reads
        exact ⟨.done p, before, rfl⟩
      · rintro ⟨-, -, rfl⟩
        exact .done _
  | cons i rest inductionHypothesis =>
      have next : p + 2 + 2 * rest.length = p + 2 * (i :: rest).length := by
        rw [List.length_cons]; omega
      constructor
      · intro reads
        cases reads with
        | next first others =>
            obtain ⟨read, inside, rfl⟩ := (Scan.u2_eq_ok_iff window before).mp first
            obtain ⟨indices, inside', rfl⟩ := (inductionHypothesis inside).mp others
            rw [next] at inside' ⊢
            exact ⟨.next read indices, inside', rfl⟩
      · rintro ⟨indices, inside, rfl⟩
        cases indices with
        | next read others =>
            rw [List.length_cons] at inside
            have room : p + 2 ≤ stop := by omega
            exact .next ((Scan.u2_eq_ok_iff window before).mpr ⟨read, room, rfl⟩)
              ((inductionHypothesis room).mpr ⟨others, by omega, by rw [next]⟩)

/-- A count and its items, read one after another. -/
theorem counted_eq_ok_iff {α : Type} {item : Scan α} {p : Nat} {as : List α} {d : Decoder}
    (before : p ≤ stop) :
    Scan.counted item (.on c stop p) = .ok (as, d) ↔
      c.u2? p = some as.length ∧ p + 2 ≤ stop ∧ Reads item (.on c stop (p + 2)) as d := by
  simp only [Scan.counted, Scan.bind_eq_ok_iff, Scan.times_eq_ok_iff]
  constructor
  · rintro ⟨n, e, counted, length, reads⟩
    obtain ⟨count, room, rfl⟩ := (Scan.u2_eq_ok_iff window before).mp counted
    exact ⟨by rw [count, length], room, reads⟩
  · rintro ⟨count, room, reads⟩
    exact ⟨_, _, (Scan.u2_eq_ok_iff window before).mpr ⟨count, room, rfl⟩, rfl, reads⟩

end Window

/-- What a scanned class file holds: its parts in order, the last of which ends with the
file. -/
structure Scanned (l : Layout) : Prop where
  word : l.cursor.u4? 0 = some magic
  minor : l.cursor.u2? (4 : Nat) = some l.minor
  major : l.cursor.u2? (6 : Nat) = some l.major
  count : l.cursor.u2? (8 : Nat) = some l.size
  constants : ∃ rest, l.offsets = #[none] ++ rest.toArray ∧ Constants l.cursor 10 rest l.poolEnd
  flags : ∃ n : Nat, l.cursor.u2? l.poolEnd = some n ∧ l.flags = .ofInt n
  this : l.cursor.u2? (l.poolEnd + 2 : Nat) = some l.thisIndex
  super : l.cursor.u2? (l.poolEnd + 4 : Nat) = some l.superIndex
  interfaceCount : l.cursor.u2? (l.poolEnd + 6 : Nat) = some l.interfaces.length
  interfaces : Indices l.cursor (l.poolEnd + 8) l.interfaces
  members : ∃ q,
    l.cursor.u2? (l.poolEnd + 8 + 2 * l.interfaces.length : Nat) = some l.fields.length ∧
    Members l.cursor (l.poolEnd + 8 + 2 * l.interfaces.length + 2) l.fields q ∧
    l.cursor.u2? q = some l.methods.length ∧ Members l.cursor (q + 2) l.methods l.attributes
  attributes : ∃ rows, Table l.cursor l.attributes rows l.cursor.size

/-- The parts after the pool follow one another from `p` on. -/
theorem of_scanStructure {c : Cursor} {stop p : Nat} {start l : Layout} {d : Decoder}
    (window : Window c stop) (before : p ≤ stop)
    (scanned : scanStructure start (.on c stop p) = .ok (l, d)) :
    ∃ flags q rows r,
      c.u2? p = some flags ∧ c.u2? (p + 2 : Nat) = some l.thisIndex ∧
      c.u2? (p + 4 : Nat) = some l.superIndex ∧
      c.u2? (p + 6 : Nat) = some l.interfaces.length ∧ Indices c (p + 8) l.interfaces ∧
      c.u2? (p + 8 + 2 * l.interfaces.length : Nat) = some l.fields.length ∧
      Members c (p + 8 + 2 * l.interfaces.length + 2) l.fields q ∧
      c.u2? q = some l.methods.length ∧ Members c (q + 2) l.methods l.attributes ∧
      Table c l.attributes rows r ∧ r ≤ stop ∧ d = .on c stop r ∧
      l = { start with
        flags := .ofInt flags, thisIndex := l.thisIndex, superIndex := l.superIndex
        interfaces := l.interfaces, fields := l.fields, methods := l.methods
        attributes := l.attributes } := by
  simp only [scanStructure, Scan.bind_eq_ok_iff, Scan.pure_eq_ok_iff, Scan.pos_eq_ok_iff]
    at scanned
  obtain ⟨flags, _, flagsRead, this, _, thisRead, super, _, superRead, interfaces, _,
    interfacesRead, fields, _, fieldsRead, methods, _, methodsRead, _, _, ⟨rfl, rfl⟩, _, _,
    attributesRead, rfl, rfl⟩ := scanned
  obtain ⟨flagsAt, inside, rfl⟩ := (Scan.u2_eq_ok_iff window before).mp flagsRead
  obtain ⟨thisAt, inside, rfl⟩ := (Scan.u2_eq_ok_iff window inside).mp thisRead
  obtain ⟨superAt, inside, rfl⟩ := (Scan.u2_eq_ok_iff window inside).mp superRead
  obtain ⟨interfaceCount, inside, reads⟩ := (counted_eq_ok_iff window inside).mp interfacesRead
  obtain ⟨interfacesAt, inside, rfl⟩ := (reads_u2_iff window inside).mp reads
  obtain ⟨fieldCount, inside, reads⟩ := (counted_eq_ok_iff window inside).mp fieldsRead
  obtain ⟨q, fieldsAt, inside, rfl⟩ := (reads_scanMember_iff window inside).mp reads
  obtain ⟨methodCount, inside, reads⟩ := (counted_eq_ok_iff window inside).mp methodsRead
  obtain ⟨q', methodsAt, inside, rfl⟩ := (reads_scanMember_iff window inside).mp reads
  obtain ⟨rows, r, table, inside, rfl⟩ := (skipAttributes_eq_ok_iff window inside).mp attributesRead
  exact ⟨flags, q, rows, r, flagsAt, thisAt, superAt, interfaceCount, interfacesAt, fieldCount,
    fieldsAt, methodCount, methodsAt, table, inside, rfl, rfl⟩

/-- What scanning a buffer gives is scanned: each part lies where the layout says, inside the
buffer. -/
theorem Scanned.of_scan {bytes : Array UInt8} {options : Options} {l : Layout}
    (addressable : Cursor.Addressable ⟨bytes⟩) (scanned : scan bytes options = .ok l) :
    l.Scanned ∧ l.cursor = ⟨bytes⟩ ∧ l.options = options := by
  simp only [scan, guard_eq_ok_iff, bind_eq_ok_iff, covered_eq_ok_iff] at scanned
  obtain ⟨long, word, wordAt, matching, count, countAt, positive, ⟨offsets, poolEnd⟩, constants,
    minor, minorAt, major, majorAt, structured⟩ := scanned
  obtain rfl : word = magic := Decidable.not_not.mp matching
  obtain ⟨rest, rfl, length, constantsAt⟩ := constants_of_scanConstants constants
  have header : 10 ≤ Cursor.size ⟨bytes⟩ := by
    have missing : (!Cursor.has ⟨bytes⟩ (0 : Nat) (10 : Nat)) = true ↔ _ := has_eq_false_iff
    have held := (not_congr missing).mp long
    omega
  have inside := (constantsAt.inside header).2
  have window := Window.ofSize addressable
  split at structured
  · cases structured
  · rename_i l' d read
    rw [Scan.onWindow_eq window inside] at read
    obtain ⟨flags, q, rows, r, flagsAt, thisAt, superAt, interfaceCount, interfacesAt, fieldCount,
      fieldsAt, methodCount, methodsAt, table, stops, rfl, whole⟩ :=
      of_scanStructure window inside read
    obtain ⟨nothingLeft, same⟩ := guard_eq_ok_iff.mp structured
    obtain rfl := pure_eq_ok_iff.mp same
    rw [Scan.remaining_on window stops] at nothingLeft
    obtain rfl : r = Cursor.size ⟨bytes⟩ := by omega
    have cursor : l'.cursor = ⟨bytes⟩ := by rw [whole]
    have ends : l'.poolEnd = poolEnd := by rw [whole]
    have offsets : l'.offsets = #[none] ++ rest.toArray := by rw [whole]
    have size : l'.size = count := by
      rw [size, offsets, Array.size_append, List.size_toArray, List.size_toArray, length,
        List.length_singleton]
      omega
    refine ⟨?_, cursor, by rw [whole]⟩
    exact {
      word := by rw [cursor]; exact wordAt
      minor := by rw [cursor, whole]; exact minorAt
      major := by rw [cursor, whole]; exact majorAt
      count := by rw [cursor, size]; exact countAt
      constants := ⟨rest, offsets, by rw [cursor, ends]; exact constantsAt⟩
      flags := ⟨flags, by rw [cursor, ends]; exact flagsAt, by rw [whole]⟩
      this := by rw [cursor, ends]; exact thisAt
      super := by rw [cursor, ends]; exact superAt
      interfaceCount := by rw [cursor, ends]; exact interfaceCount
      interfaces := by rw [cursor, ends]; exact interfacesAt
      members := ⟨q, by rw [cursor, ends]; exact ⟨fieldCount, fieldsAt, methodCount, methodsAt⟩⟩
      attributes := ⟨rows, by rw [cursor]; exact table⟩ }

end JvmClass.Layout
