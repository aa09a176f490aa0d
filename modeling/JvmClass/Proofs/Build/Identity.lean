import JvmClass.Proofs.Build.Sharing
import JvmClass.Proofs.Options

/-!
# Rebuilding a class unchanged

A class that was read with its pool shared and nothing left out is put together again from the
bytes of its parts. Where the constants that its attributes are named by are told apart by what
they spell, the result is the file that was read.
-/

namespace JvmClass

open Layout (Members Indices)

variable {σ : Type} {i : Input} {rows : List BootstrapRow} {s : Session σ}

/-- Flags that fit two bytes are the bits that they were made of. -/
theorem AccessFlags.toNat_ofInt {n : Nat} (word : n < 65536) :
    (AccessFlags.ofInt n).bits.toNat = n := by
  simp [ofInt, UInt16.ofInt]
  omega

namespace ClassDraft

/-- What is copied depends on the pool and the options alone. -/
theorem copied?_apply (m : InputMember) (s : Session σ) :
    copied? m s = (s.pool.parent.bind fun parent =>
      if parent.origin = m.input.origin && s.options.copiesVerbatim then
        some (m.input.slice m.span.start (m.span.stop - m.span.start))
      else none, s) := by
  rw [copied?, bind_apply, get_apply]
  cases s.pool.parent with
  | none => rfl
  | some parent =>
      dsimp only [Option.bind_some]
      split <;> rfl

/-- The bytes of a member of the input are copied. -/
theorem copied?_eq (shares : s.SharesWith i rows) (verbatim : i.options.copiesVerbatim = true)
    {m : InputMember} (input : m.input = i) (ordered : m.span.start ≤ m.span.stop)
    (inside : m.span.stop ≤ i.cursor.size) :
    copied? m s = (some (.ok (i.cursor.segment m.span.start m.span.stop)), s) := by
  have slice : i.slice m.span.start (m.span.stop - m.span.start) =
      .ok (i.cursor.segment m.span.start m.span.stop) :=
    Layout.covered_eq_ok_iff.mpr (Cursor.slice?_eq_segment ordered inside)
  rw [copied?_apply]
  simp only [shares.pool.parent, shares.options, input, verbatim, decide_true, Bool.and_self,
    ↓reduceIte, slice, Option.bind_some]

/-- What the caller keeps has no part in copying. -/
theorem copied?_withUser {m : InputMember} {outcome : Option (Except Error Bytes)}
    (copied : copied? m s = (outcome, s)) :
    copied? m (s.withUser ()) = (outcome, s.withUser ()) := by
  rw [copied?_apply] at copied ⊢
  exact Prod.ext (congrArg (·.1) copied) rfl

/-- What handing over a copied field does. -/
theorem acceptField_eq {d : ClassDraft} {m : InputMember} {bytes : Bytes}
    (copied : copied? m s = (some (.ok bytes), s)) :
    (Draft.accept (ClassElement.field (.input m)) : ClassM σ Unit) d s =
      (((), { d with fields := d.fields.push bytes }), s) := by
  have took : (Drafting.session (copied? m) : ClassM Unit _) d (s.withUser ()) =
      ((some (.ok bytes), d), s.withUser ()) := by
    change (((copied? m (s.withUser ())).1, d), (copied? m (s.withUser ())).2) = _
    rw [copied?_withUser copied]
  change Build.apart ((takeField (.input m) : ClassM Unit Unit) d) s = _
  rw [Build.apart_apply]
  simp only [takeField, Bind.bind, StateT.bind, took]
  rfl

/-- What handing over a copied method does. -/
theorem acceptMethod_eq {d : ClassDraft} {m : InputMember} {bytes : Bytes}
    (copied : copied? m s = (some (.ok bytes), s)) :
    (Draft.accept (ClassElement.method (.input m)) : ClassM σ Unit) d s =
      (((), { d with methods := d.methods.push bytes }), s) := by
  have took : (Drafting.session (copied? m) : ClassM Unit _) d (s.withUser ()) =
      ((some (.ok bytes), d), s.withUser ()) := by
    change (((copied? m (s.withUser ())).1, d), (copied? m (s.withUser ())).2) = _
    rw [copied?_withUser copied]
  change Build.apart ((takeMethod (.input m) : ClassM Unit Unit) d) s = _
  rw [Build.apart_apply]
  simp only [takeMethod, Bind.bind, StateT.bind, took]
  rfl

/-- Members of the input are taken as the bytes between the first and the last. -/
theorem takes_members (shares : s.SharesWith i rows) (verbatim : i.options.copiesVerbatim = true)
    (element : InputMember → ClassElement) (put : Array Bytes → ClassDraft)
    (takes : ∀ {m bytes} done, copied? m s = (some (.ok bytes), s) →
      (Draft.accept (element m) : ClassM σ Unit) (put done) s = (((), put (done.push bytes)), s))
    {p q : Nat} {spans : List MemberSpan} {members : List InputMember} {className : Text}
    (lie : Members i.cursor p spans q) (inside : q ≤ i.cursor.size)
    (read : List.Forall₂ (InputMember.ReadFrom i className) spans members) (done : Array Bytes) :
    ∃ copies : List Bytes, copies.length = spans.length ∧ copies.flatten = i.cursor.segment p q ∧
      Draft.Takes s (put done) (members.map element) s (put (done ++ copies)) := by
  induction lie generalizing members done with
  | done p =>
      cases read
      have nothing : done ++ ([] : List Bytes) = done := by simp
      refine ⟨[], rfl, by simp, ?_⟩
      rw [nothing]
      exact .done _ _
  | @next p q span rest _ start «attributes» table others inductionHypothesis =>
      cases read with
      | @cons _ m _ members first read =>
          have ordered : p ≤ span.stop := by
            have forward := table.forward
            omega
          have before := others.forward
          have copied := copied?_eq shares verbatim first.input
            (by rw [first.lies, start]; exact ordered) (by rw [first.lies]; omega)
          rw [first.lies, start] at copied
          obtain ⟨copies, length, bytes, further⟩ :=
            inductionHypothesis inside read (done.push (i.cursor.segment p span.stop))
          refine ⟨i.cursor.segment p span.stop :: copies, by simp [length], ?_, ?_⟩
          · rw [List.flatten_cons, bytes, Cursor.segment_append ordered before]
          · have same : done.push (i.cursor.segment p span.stop) ++ copies =
                done ++ (i.cursor.segment p span.stop :: copies) := by
              simp
            rw [same] at further
            exact .next shares.quiet (takes done copied) further

/-- Attributes are kept for the end. -/
theorem takes_attributes (quiet : s.Quiet) (d : ClassDraft) (as : List Attribute) :
    Draft.Takes s d (as.map .attribute) s { d with attributes := d.attributes ++ as } := by
  induction as generalizing d with
  | nil =>
      have nothing : d.attributes ++ ([] : List Attribute) = d.attributes := by simp
      rw [List.map_nil, nothing]
      exact .done _ _
  | cons a rest inductionHypothesis =>
      have further := inductionHypothesis { d with attributes := d.attributes.push a }
      have same : d.attributes.push a ++ rest = d.attributes ++ (a :: rest) := by simp
      rw [same] at further
      exact .next quiet rfl further

end ClassDraft

namespace ClassFile

variable {c : ClassFile} {bytes : Array UInt8} {options : Options} {number : Nat}

/-- A draft with the header of a class. -/
def opened (c : ClassFile) : ClassDraft where
  source := some c
  this := c.this
  flags := c.flags
  major := c.major
  minor := c.minor
  super := c.super
  interfaces := c.interfaces.map some
  fields := #[]
  methods := #[]
  attributes := #[]

/-- A draft that all of a class was passed on to. -/
def draft (c : ClassFile) (fields methods : List Bytes) (as : List Attribute) : ClassDraft :=
  { c.opened with
    fields := fields.toArray
    methods := methods.toArray
    attributes := as.toArray }

/-- Interfaces are written by the indices that the header has for them. -/
theorem bytes_interfaces (tells : c.pool.Tells c.input.layout) {p : Nat} {indices : List Nat}
    {interfaces : List ClassEntry} (lie : Indices c.input.cursor p indices)
    (read : List.Forall₂ (fun i interface => ∃ offset,
      c.pool.refer Entry.class? offset i = .ok interface) indices interfaces) :
    interfaces.flatMap (fun e => u2 e.place.index) =
      c.input.cursor.segment p (p + 2 * indices.length) := by
  induction lie generalizing interfaces with
  | done p =>
      cases read
      simp
  | @next p i rest first others inductionHypothesis =>
      cases read with
      | @cons _ e _ interfaces named read =>
          obtain ⟨offset, named⟩ := named
          have place := (tells.class named).2
          have next : p + 2 + 2 * rest.length = p + 2 * (i :: rest).length := by
            rw [List.length_cons]; omega
          rw [List.flatMap_cons, inductionHypothesis read, place, Cursor.u2_number first, next,
            Cursor.segment_append (by omega) (by omega)]

section Header

variable (parsed : c.ParsedFrom bytes options number) (owns : s.pool.owns c.input.origin = true)
include parsed owns

/-- A class that the header names is written by its index. -/
theorem ParsedFrom.writes_class {offset : Int} {i p : Nat} {e : ClassEntry}
    (index : c.input.cursor.u2? p = some i) (named : c.pool.refer Entry.class? offset i = .ok e) :
    Emit.Writes s (Emit.refClass (some e)) (c.input.cursor.segment p (p + 2)) s ∧
      Emit.Writes s (Emit.optionalClass (some e)) (c.input.cursor.segment p (p + 2)) s := by
  have place : (Entry.loadable (.class e)).place = ⟨c.input.origin, i⟩ :=
    (parsed.tells.class named).2
  have own : s.pool.owns (Entry.loadable (.class e)).place.origin = true := by rw [place, owns]
  have written : u2 (Entry.loadable (.class e)).index = c.input.cursor.segment p (p + 2) := by
    rw [Entry.index, place]
    exact Cursor.u2_number index
  rw [← written]
  exact ⟨Emit.writes_ref own, Emit.writes_optionalRef own⟩

/-- The superclass is written as the two bytes that it was read from. -/
theorem ParsedFrom.writes_super :
    Emit.Writes s (Emit.optionalClass c.super) (c.input.cursor.segment
      (c.input.layout.poolEnd + 4) (c.input.layout.poolEnd + 6)) s := by
  have index := parsed.scanned.super
  rcases parsed.headed.super with ⟨zero, absent⟩ | ⟨super, -, present, named⟩
  · have written : u2 0 = c.input.cursor.segment (c.input.layout.poolEnd + 4)
        (c.input.layout.poolEnd + 6) := by
      rw [zero] at index
      exact Cursor.u2_number index
    rw [absent, ← written]
    exact .pure _
  · rw [present]
    exact (parsed.writes_class owns index named).2

/-- The interfaces are written as the bytes that they were read from, with their count. -/
theorem ParsedFrom.writes_interfaces :
    Emit.Writes s (Emit.counted Emit.refClass (c.interfaces.map some))
      (c.input.cursor.segment (c.input.layout.poolEnd + 6)
        (c.input.layout.poolEnd + 8 + 2 * c.input.layout.interfaces.length)) s := by
  have read := parsed.headed.interfaces
  have length := read.length_eq
  have count := parsed.scanned.interfaceCount
  have short := Cursor.u2_lt count
  have each : ∀ e ∈ c.interfaces.map some, Emit.Writes s (Emit.refClass e)
      (u2 (e.elim 0 fun e : ClassEntry => e.place.index)) s := by
    intro slot inMap
    obtain ⟨e, implemented, rfl⟩ := List.mem_map.mp inMap
    obtain ⟨k, inside, rfl⟩ := List.mem_iff_getElem.mp implemented
    obtain ⟨offset, named⟩ := (List.forall₂_iff_get.mp read).2 k (by omega) inside
    have place : (c.interfaces[k]).place = _ := (parsed.tells.class named).2
    exact Emit.writes_ref (by rw [Entry.place, Loadable.place, place]; exact owns)
  have writes := Emit.writes_counted (by rw [List.length_map, Emit.maxCount]; omega) each
  rw [List.length_map, ← length, List.flatMap_map, Cursor.u2_number count] at writes
  have lie := bytes_interfaces parsed.tells parsed.scanned.interfaces read
  have joined : c.input.cursor.segment (c.input.layout.poolEnd + 6) (c.input.layout.poolEnd + 6 + 2)
      ++ c.interfaces.flatMap (fun e => u2 e.place.index) =
      c.input.cursor.segment (c.input.layout.poolEnd + 6)
        (c.input.layout.poolEnd + 8 + 2 * c.input.layout.interfaces.length) := by
    rw [lie, Cursor.segment_append (by omega) (by omega)]
  rw [← joined]
  exact writes

/-- The header is written as it stands. -/
theorem ParsedFrom.writes_header (fields methods : List Bytes) (as : List Attribute) :
    Emit.Writes s (c.draft fields methods as).header
      (c.input.cursor.segment c.input.layout.poolEnd
        (c.input.layout.poolEnd + 8 + 2 * c.input.layout.interfaces.length)) s := by
  obtain ⟨n, flagsAt, flags⟩ := parsed.scanned.flags
  have flagBytes : u2 c.flags.bits.toNat =
      c.input.cursor.segment c.input.layout.poolEnd (c.input.layout.poolEnd + 2) := by
    rw [ClassFile.flags, flags, AccessFlags.toNat_ofInt (Cursor.u2_lt flagsAt)]
    exact Cursor.u2_number flagsAt
  have joined : u2 c.flags.bits.toNat
      ++ c.input.cursor.segment (c.input.layout.poolEnd + 2) (c.input.layout.poolEnd + 4)
      ++ c.input.cursor.segment (c.input.layout.poolEnd + 4) (c.input.layout.poolEnd + 6)
      ++ c.input.cursor.segment (c.input.layout.poolEnd + 6)
        (c.input.layout.poolEnd + 8 + 2 * c.input.layout.interfaces.length) =
      c.input.cursor.segment c.input.layout.poolEnd
        (c.input.layout.poolEnd + 8 + 2 * c.input.layout.interfaces.length) := by
    rw [flagBytes, Cursor.segment_append (by omega) (by omega),
      Cursor.segment_append (by omega) (by omega), Cursor.segment_append (by omega) (by omega)]
  rw [← joined]
  exact (parsed.writes_class owns parsed.scanned.this parsed.headed.this).1.bind
    ((parsed.writes_super owns).bind ((parsed.writes_interfaces owns).bind (.pure _)))

end Header

/-- Whether the bootstrap table, if a class has one among some attributes, comes once and last,
with rows that can all be read. -/
inductive BootstrapLast (c : ClassFile) : List Envelope → Prop
  | absent {envs : List Envelope}
      (plain : ∀ env ∈ envs, env.name.text ≠ Lookup.bootstrapMethods) : BootstrapLast c envs
  | last {front : List Envelope} {table : Envelope}
      (plain : ∀ env ∈ front, env.name.text ≠ Lookup.bootstrapMethods)
      (named : table.name.text = Lookup.bootstrapMethods) (some_row : 0 < c.pool.rowCount)
      (each : ∀ r < c.pool.rowCount, ∃ row, c.pool.row r = .ok row) :
      BootstrapLast c (front ++ [table])

/-- The rows of a pool, where all of them can be read. -/
theorem rows_of_each (some_row : 0 < c.pool.rowCount)
    (each : ∀ r < c.pool.rowCount, ∃ row, c.pool.row r = .ok row) :
    ∃ rows : List BootstrapRow, rows ≠ [] ∧ c.pool.rows = .ok (rows.map Except.ok).toArray := by
  cases given : c.pool.rows with
  | error e => simp [Pool.rowCount, given] at some_row
  | ok outcomes =>
      simp only [Pool.rowCount, given] at some_row each
      have known : ∀ outcome ∈ outcomes.toList, ∃ row, outcome = .ok row := by
        intro outcome member
        obtain ⟨r, inside, rfl⟩ := List.mem_iff_getElem.mp member
        rw [Array.length_toList] at inside
        obtain ⟨row, read⟩ := each r inside
        have natural : ¬(r : Int) < 0 := by omega
        rw [Pool.row, given] at read
        simp only [bind, Except.bind, natural, ↓reduceIte, Int.toNat_natCast] at read
        refine ⟨row, ?_⟩
        simpa [inside] using read
      obtain ⟨rows, all⟩ : ∃ rows : List BootstrapRow, outcomes.toList = rows.map Except.ok := by
        generalize outcomes.toList = listed at known
        induction listed with
        | nil => exact ⟨[], rfl⟩
        | cons outcome rest inductionHypothesis =>
            obtain ⟨row, rfl⟩ := known _ (List.mem_cons_self ..)
            obtain ⟨rows, rfl⟩ := inductionHypothesis fun o member =>
              known o (List.mem_cons_of_mem _ member)
            exact ⟨row :: rows, rfl⟩
      refine ⟨rows, ?_, by rw [← all]⟩
      rintro rfl
      have empty : outcomes.size = 0 := by simpa using congrArg List.length all
      omega

/-- Where the bootstrap table is not among the attributes the pool has no rows. -/
theorem ParsedFrom.reusable_of_absent (parsed : c.ParsedFrom bytes options number)
    (differ : c.pool.TextsDiffer) {envs : List Envelope}
    (all : c.input.layout.ClassEnvelopes c.input.origin envs)
    (plain : ∀ env ∈ envs, env.name.text ≠ Lookup.bootstrapMethods) : c.input.Reusable [] := by
  have nowhere : Layout.tableEnvelope? envs = none := by
    rw [Layout.tableEnvelope?, List.find?_eq_none]
    intro env member
    simpa using plain env member
  refine ⟨⟨?_, ?_⟩, parsed.tells, differ⟩
  · have searched : c.pool.unsettled ≠ true := fun unsettled => by
      have circular := (parsed.settled unsettled).1
      rw [Pool.searchIsCircular_eq_false (.absent all nowhere)] at circular
      cases circular
    exact Pool.abort?_eq_none searched
  · cases given : c.pool.rows with
    | error e => exact .unreadable given
    | ok outcomes =>
        obtain ⟨table, isTable, size, -⟩ := parsed.tells.rows _ given
        cases isTable with
        | absent => exact .read given (by simpa using size)
        | present all' found' =>
            obtain rfl := all.functional all'
            rw [nowhere] at found'
            cases found'

/-- Where all rows of the bootstrap table can be read the pool has them. -/
theorem ParsedFrom.reusable_of_rows (parsed : c.ParsedFrom bytes options number)
    (differ : c.pool.TextsDiffer) {rows : List BootstrapRow}
    (given : c.pool.rows = .ok (rows.map Except.ok).toArray) : c.input.Reusable rows := by
  refine ⟨⟨?_, .read given (by simp)⟩, parsed.tells, differ⟩
  have searched : c.pool.unsettled ≠ true := fun unsettled => by
    obtain ⟨e, missing⟩ := (parsed.settled unsettled).2
    rw [given] at missing
    cases missing
  exact Pool.abort?_eq_none searched

/-- What the class attributes are written as, without their count. -/
structure TableWritten (c : ClassFile) (as : List Attribute) (rows : List BootstrapRow) : Prop where
  reusable : c.input.Reusable rows
  writes : ∀ {σ : Type} {s : Session σ} (fields methods : List Bytes),
    s.SharesWith c.input rows → ∃ s', Session.SharesWith c.input rows s' ∧
      Emit.Writes s (c.draft fields methods as).attributeTable
        (c.input.cursor.segment c.input.layout.attributes c.input.cursor.size) s'

section Table

variable {as : List Attribute} {outs : List (Option Attribute)}
  (verbatim : c.options.copiesVerbatim = true)
  (keeps : c.options.has .dropUnknownAttributes = false)
  (once : as.Pairwise fun a b => a.name = b.name → b.body.repeatable = true)
  (count : c.input.cursor.u2? c.input.layout.attributes = some outs.length)
include verbatim keeps once count

/-- Without a bootstrap table the attributes are written as they stand. -/
theorem tableWritten_of_absent (reusable : c.input.Reusable []) {envs : List Envelope}
    (laid : c.Laid (c.input.layout.attributes + 2) envs outs c.input.cursor.size)
    (whole : outs = as.map some) : c.TableWritten as [] := by
  refine ⟨reusable, fun {_} {s} fields methods shares => ?_⟩
  subst whole
  obtain ⟨s', shares', writes⟩ := Emit.writes_items reusable verbatim keeps laid once
    none (fun _ => throw .outOfBounds) [] (by simp) [] shares
  have counted := Emit.Writes.interning (shares'.pool.rowCount reusable.toSharable)
  have size := Cursor.u2_number count
  rw [List.length_map] at size
  refine ⟨_, shares'.asked, ?_⟩
  have joined : u2 as.length ++ c.input.cursor.segment (c.input.layout.attributes + 2)
      c.input.cursor.size =
      c.input.cursor.segment c.input.layout.attributes c.input.cursor.size := by
    rw [size, Cursor.segment_append (by omega) laid.forward]
  rw [← joined]
  rw [ClassDraft.attributeTable]
  exact writes.bind (counted.bind (.pure _))

/-- A bootstrap table that comes last is written from its rows. -/
theorem tableWritten_of_last {rows : List BootstrapRow} (reusable : c.input.Reusable rows)
    (some_row : rows ≠ []) {front : List Envelope} {table : Envelope}
    (laid : c.Laid (c.input.layout.attributes + 2) (front ++ [table]) outs c.input.cursor.size)
    (whole : outs = as.map some ++ [none])
    (bytes_table : u2 rows.length ++ rows.flatMap Layout.rowBytes =
      c.input.cursor.segment table.offset (table.offset + table.length)) :
    c.TableWritten as rows := by
  refine ⟨reusable, fun {_} {s} fields methods shares => ?_⟩
  obtain ⟨m, first, second, both, before, after⟩ := laid.split
  obtain ⟨rfl, rfl⟩ : first = as.map some ∧ second = [none] :=
    List.append_inj' (both.symm.trans whole) (by rw [← after.length]; rfl)
  obtain ⟨s', shares', writes⟩ := Emit.writes_items reusable verbatim keeps before once
    none (fun _ => throw .outOfBounds) [] (by simp) [] shares
  have counted := Emit.Writes.interning (shares'.pool.rowCount reusable.toSharable)
  have size := Cursor.u2_number count
  rw [both, List.length_append, List.length_map, List.length_singleton] at size
  have forward := before.forward
  cases after with
  | @bootstrap _ n _ name _ _ index named length inside called others =>
      generalize stop : c.input.cursor.size = stop at others
      cases others
      have text := Emit.writes_refText reusable shares'.asked named
      rw [called] at text
      refine ⟨_, shares'.asked.asked, ?_⟩
      obtain ⟨whole, sizes, ends⟩ := Emit.writes_sized (fun n => .overflow n)
        (s := { s' with pool := PoolBuilder.shared c.input rows }) index length inside
      have encoded : c.input.cursor.segment (m + 6) (m + 6 + n) =
          (PoolBuilder.shared c.input rows).encodeRows := by
        rw [PoolBuilder.encodeRows_shared, bytes_table]
      rw [encoded] at sizes
      have joined : u2 (as.length + 1 : Nat)
          ++ c.input.cursor.segment (c.input.layout.attributes + 2) m
          ++ u2 name.place.index ++ whole =
          c.input.cursor.segment c.input.layout.attributes (m + 6 + n) := by
        rw [List.append_assoc, ends, size,
          Cursor.segment_append (by omega) (by omega), Cursor.segment_append (by omega) (by omega)]
      rw [← joined, ClassDraft.attributeTable]
      refine writes.bind (counted.bind ?_)
      have nonempty : ¬rows.length = 0 := fun none_left =>
        some_row (List.length_eq_zero_iff.mp none_left)
      rw [if_neg nonempty]
      exact text.bind (Emit.Writes.session.bind (sizes.bind (.pure _)))

end Table

/-- The header of a class is passed on. -/
theorem takes_header (c : ClassFile) (quiet : s.Quiet) :
    Draft.Takes s (.start c.this (some c))
      ([ClassElement.flags c.flags, ClassElement.version c.major c.minor]
        ++ (c.super.map fun super => ClassElement.superclass (some super)).toList
        ++ [ClassElement.interfaces (c.interfaces.map some)]) s c.opened := by
  have extended : Draft.Takes s
      { ClassDraft.start c.this (some c) with flags := c.flags, major := c.major, minor := c.minor }
      ((c.super.map fun super => ClassElement.superclass (some super)).toList
        ++ [.interfaces (c.interfaces.map some)]) s c.opened := by
    cases present : c.super with
    | none =>
        refine .next quiet rfl ?_
        have same : c.opened = { ClassDraft.start c.this (some c) with
            flags := c.flags, major := c.major, minor := c.minor
            interfaces := c.interfaces.map some } := by
          simp [opened, present, ClassDraft.start]
        rw [same]
        exact .done _ _
    | some super =>
        refine .next quiet rfl (.next quiet rfl ?_)
        have same : c.opened = { ClassDraft.start c.this (some c) with
            flags := c.flags, major := c.major, minor := c.minor, super := some super
            interfaces := c.interfaces.map some } := by
          simp [opened, present, ClassDraft.start]
        rw [same]
        exact .done _ _
  exact .next quiet rfl (.next quiet rfl extended)

/-- What the members of a class are written as, with their counts. -/
structure MembersWritten (c : ClassFile) (fields methods : List Bytes) : Prop where
  fewFields : fields.length ≤ ClassDraft.maxMembers
  fewMethods : methods.length ≤ ClassDraft.maxMembers
  bytes : u2 fields.length ++ fields.flatten ++ (u2 methods.length ++ methods.flatten) =
    c.input.cursor.segment (c.input.layout.poolEnd + 8 + 2 * c.input.layout.interfaces.length)
      c.input.layout.attributes

/-- All of a class is passed on to a draft of it where its members may be copied. -/
theorem ParsedFrom.takes (parsed : c.ParsedFrom bytes options number)
    (shares : s.SharesWith c.input rows) (verbatim : c.options.copiesVerbatim = true)
    {as : List Attribute} (decoded : c.attributes = .ok as) :
    ∃ fields methods : List Bytes, c.MembersWritten fields methods ∧ c.traversal.failure = none ∧
      Draft.Takes s (.start c.this (some c)) c.traversal.elements s
        (c.draft fields methods as) := by
  obtain ⟨q, fieldCount, fieldsLie, methodCount, methodsLie⟩ := parsed.scanned.members
  obtain ⟨_, table⟩ := parsed.scanned.attributes
  have attributesInside := table.forward
  have methodsForward := methodsLie.forward
  have fieldsForward := fieldsLie.forward
  obtain ⟨fields, fieldsLength, fieldBytes, takesFields⟩ :=
    ClassDraft.takes_members shares verbatim (fun f => .field (.input f))
      (fun done => { c.opened with fields := done })
      (fun done => ClassDraft.acceptField_eq) fieldsLie
      (show q ≤ c.input.layout.cursor.size by omega) parsed.headed.fields #[]
  obtain ⟨methods, methodsLength, methodBytes, takesMethods⟩ :=
    ClassDraft.takes_members shares verbatim (fun m => .method (.input m))
      (fun done => { c.opened with fields := (#[] : Array Bytes) ++ fields, methods := done })
      (fun done => ClassDraft.acceptMethod_eq) methodsLie
      (show _ ≤ c.input.layout.cursor.size by omega) parsed.headed.methods #[]
  have takesAttributes := ClassDraft.takes_attributes shares.quiet
    { c.opened with
      fields := (#[] : Array Bytes) ++ fields
      methods := (#[] : Array Bytes) ++ methods } as
  have elements : c.traversal = ⟨[ClassElement.flags c.flags, ClassElement.version c.major c.minor]
      ++ (c.super.map fun super => ClassElement.superclass (some super)).toList
      ++ [ClassElement.interfaces (c.interfaces.map some)]
      ++ c.fields.map (fun f => ClassElement.field (.input f))
      ++ c.methods.map (fun m => ClassElement.method (.input m))
      ++ as.map ClassElement.attribute, none⟩ := by
    rw [ClassFile.traversal, decoded]
    rfl
  have whole := (((takes_header c shares.quiet).append takesFields).append takesMethods).append
    takesAttributes
  refine ⟨fields, methods, ⟨?_, ?_, ?_⟩, by rw [elements], ?_⟩
  · have short := Cursor.u2_lt fieldCount
    rw [fieldsLength, ClassDraft.maxMembers]
    omega
  · have short := Cursor.u2_lt methodCount
    rw [methodsLength, ClassDraft.maxMembers]
    omega
  · rw [fieldBytes, methodBytes, fieldsLength, methodsLength, Cursor.u2_number fieldCount,
      Cursor.u2_number methodCount]
    change c.input.cursor.segment _ _ ++ c.input.cursor.segment _ _
      ++ (c.input.cursor.segment _ _ ++ c.input.cursor.segment _ _) = _
    rw [Cursor.segment_append (by omega) (by omega), Cursor.segment_append (by omega) (by omega),
      Cursor.segment_append (by omega) (by omega)]
  · have same : c.draft fields methods as = { c.opened with
        fields := (#[] : Array Bytes) ++ fields, methods := (#[] : Array Bytes) ++ methods
        attributes := c.opened.attributes ++ as } := by
      simp [draft, opened]
    rw [elements, same]
    exact whole

end ClassFile

/-- A draft is finished where its attributes and its header write. -/
theorem ClassDraft.finish_eq {d : ClassDraft} {s' s'' : Session σ} {attributes header : Bytes}
    (quiet : s.Quiet) (fewFields : d.fields.size ≤ maxMembers)
    (fewMethods : d.methods.size ≤ maxMembers)
    (attributesWrite : Emit.Writes s d.attributeTable attributes s')
    (headerWrites : Emit.Writes s' d.header header s'') (sound : s''.pool.error = none) :
    d.finish s = (.ok (u4 magic ++ u2 d.minor ++ u2 d.major ++ s''.pool.encode ++ header
      ++ u2 d.fields.size ++ d.fields.toList.flatten
      ++ u2 d.methods.size ++ d.methods.toList.flatten ++ attributes), s'') := by
  have few : (decide (maxMembers < d.fields.size) || decide (maxMembers < d.methods.size)) =
      false := by
    simp only [Bool.or_eq_false_iff, decide_eq_false_iff_not]
    omega
  rw [finish, bind_apply, quiet.error?]
  simp only [few, Bool.false_eq_true, ↓reduceIte]
  rw [bind_apply, attributesWrite.finish]
  simp only
  rw [bind_apply, headerWrites.finish]
  simp only
  rw [bind_apply, get_apply]
  simp only [sound]
  rfl

namespace ClassFile

variable {c : ClassFile} {bytes : Array UInt8} {options : Options} {number : Nat}

/-- The pool is written as it stands. -/
theorem ParsedFrom.bytes_pool (parsed : c.ParsedFrom bytes options number)
    (shares : s.SharesWith c.input rows) :
    10 ≤ c.input.layout.poolEnd ∧
      s.pool.encode = c.input.cursor.segment 8 c.input.layout.poolEnd := by
  have count : c.input.cursor.u2? (8 : Nat) = some c.input.layout.size := parsed.scanned.count
  obtain ⟨rest, -, constants⟩ := parsed.scanned.constants
  have header := (Cursor.number?_eq_some_iff.mp count).1
  obtain ⟨forward, inside⟩ := constants.inside header
  have copied : c.input.cursor.slice? (10 : Nat) (c.input.layout.poolEnd - 10 : Nat) =
      some (c.input.cursor.segment 10 c.input.layout.poolEnd) :=
    Cursor.slice?_eq_segment forward inside
  refine ⟨forward, ?_⟩
  rw [shares.pool.encode, show c.input.pool.size = c.input.layout.size from parsed.tells.size,
    Cursor.u2_number count, show c.input.cursor.slice? 10 (c.input.layout.poolEnd - 10 : Nat) = _
      from copied, Option.getD_some, Cursor.segment_append (by omega) (by omega)]

/-- The bytes of a class with another pool and another table of attributes. -/
def around (c : ClassFile) (pool table : Bytes) : Bytes :=
  c.input.cursor.segment 0 8 ++ pool
    ++ c.input.cursor.segment c.input.layout.poolEnd c.input.layout.attributes ++ table

/-- The header and the members of a parsed class stand around its pool and before its attributes. -/
theorem ParsedFrom.bytes_parts (parsed : c.ParsedFrom bytes options number)
    {fields methods : List Bytes} (members : c.MembersWritten fields methods)
    (pool table : Bytes) :
    u4 magic ++ u2 c.minor ++ u2 c.major ++ pool
      ++ c.input.cursor.segment c.input.layout.poolEnd
        (c.input.layout.poolEnd + 8 + 2 * c.input.layout.interfaces.length)
      ++ u2 fields.length ++ fields.flatten ++ u2 methods.length ++ methods.flatten ++ table =
      c.around pool table := by
  obtain ⟨q, -, fieldsLie, -, methodsLie⟩ := parsed.scanned.members
  have methodsForward := methodsLie.forward
  have fieldsForward := fieldsLie.forward
  have word : u4 magic = c.input.cursor.segment 0 4 := Cursor.u4_number parsed.scanned.word
  have minor : u2 c.minor = c.input.cursor.segment 4 6 := Cursor.u2_number parsed.scanned.minor
  have major : u2 c.major = c.input.cursor.segment 6 8 := Cursor.u2_number parsed.scanned.major
  calc
    _ = u4 magic ++ u2 c.minor ++ u2 c.major ++ pool
        ++ (c.input.cursor.segment c.input.layout.poolEnd
            (c.input.layout.poolEnd + 8 + 2 * c.input.layout.interfaces.length)
          ++ (u2 fields.length ++ fields.flatten ++ (u2 methods.length ++ methods.flatten)))
        ++ table := by
      simp only [List.append_assoc]
    _ = c.around pool table := by
      rw [members.bytes, word, minor, major, Cursor.segment_append (by omega) (by omega),
        Cursor.segment_append (by omega) (by omega), Cursor.segment_append (by omega) (by omega),
        around]

/-- A class with its own pool and its own table of attributes is the file that it was read from. -/
theorem ParsedFrom.around_eq (parsed : c.ParsedFrom bytes options number)
    (shares : s.SharesWith c.input rows) :
    c.around s.pool.encode
      (c.input.cursor.segment c.input.layout.attributes c.input.cursor.size) = bytes.toList := by
  obtain ⟨forward, pool⟩ := parsed.bytes_pool shares
  obtain ⟨q, -, fieldsLie, -, methodsLie⟩ := parsed.scanned.members
  obtain ⟨_, table⟩ := parsed.scanned.attributes
  have attributesInside : _ ≤ c.input.cursor.size := table.forward
  have methodsForward := methodsLie.forward
  have fieldsForward := fieldsLie.forward
  rw [around, pool, Cursor.segment_append (by omega) (by omega),
    Cursor.segment_append (by omega) (by omega), Cursor.segment_append (by omega) (by omega),
    Cursor.segment_all, parsed.cursor]

/-- A class is put together where it is filled in and finished and nothing fails. -/
theorem assemble_eq {start : Build σ ClassDraft} {fill : ExceptT Error (ClassM σ) Unit}
    {d d' : ClassDraft} {s₁ s₂ s₃ : Session σ} {out : Bytes} (drafted : start s = (d, s₁))
    (filled : Drafting.Gives d s₁ fill () d' s₂) (finished : d'.finish s₂ = (.ok out, s₃))
    (quiet : s₃.Quiet) : assemble start fill s = (.ok out, s₃) := by
  have ran : fill.run.run d s₁ = ((.ok (), d'), s₂) := filled
  rw [assemble, bind_apply, drafted]
  simp only
  rw [bind_apply, ran]
  simp only
  rw [bind_apply, finished]
  simp only
  rw [bind_apply, quiet.abort?]
  rfl

/-- The draft of a class that shares its pool starts without asking for anything. -/
theorem ParsedFrom.opens (parsed : c.ParsedFrom bytes options number) :
    (do return ClassDraft.start (← PoolBuilder.adoptClass c.this) (some c) :
      Interning ClassDraft) (.ofParent c.input) = (.start c.this (some c), .ofParent c.input) := by
  have place : c.this.place = _ := (parsed.tells.class parsed.headed.this).2
  have owns : (PoolBuilder.ofParent c.input).owns c.this.place.origin = true := by
    rw [place]
    exact (show PoolBuilder.Shares c.input [] _ from .unasked).owns
  rw [bind_apply, PoolBuilder.adoptClass_own owns]
  rfl

section Passed

variable {atEnd : ClassOutlet σ → ExceptT Error (ClassM σ) Unit} {s₁ s₂ : Session σ} {user : σ}
  {as : List Attribute} {table : Bytes} (parsed : c.ParsedFrom bytes options number)
  (verbatim : c.options.copiesVerbatim = true) (decoded : c.attributes = .ok as)
  (ends : ∀ d, Drafting.Gives d (Build.start c.options (.ofParent c.input) user) (atEnd .terminal)
    () d s₁)
  (quiet : s₁.Quiet)
  (writes : ∀ fields methods,
    Emit.Writes s₁ (c.draft fields methods as).attributeTable table s₂)
  (owns : s₂.pool.owns c.input.origin = true) (quiet' : s₂.Quiet)
include parsed verbatim decoded ends quiet writes owns quiet'

/-- A class that is passed on and acted on at its end, so that its attributes can be written, is
finished with its members around the pool that comes out. -/
theorem ParsedFrom.passed : ∃ fields methods : List Bytes,
    Drafting.Gives (.start c.this (some c)) (Build.start c.options (.ofParent c.input) user)
      (Transform.run c.traversal (some (.endHandler atEnd)) .terminal) ()
      (c.draft fields methods as) s₁ ∧
    (c.draft fields methods as).finish s₁ = (.ok (c.around s₂.pool.encode table), s₂) := by
  have started : Session.SharesWith c.input []
      (Build.start c.options (.ofParent c.input) user) := ⟨rfl, rfl, .unasked⟩
  obtain ⟨fields, methods, members, whole, takes⟩ := parsed.takes started verbatim decoded
  have headerWrites := parsed.writes_header owns fields methods as
  have finished := ClassDraft.finish_eq (d := c.draft fields methods as) quiet
    (by simpa [draft] using members.fewFields) (by simpa [draft] using members.fewMethods)
    (writes fields methods) headerWrites quiet'.pool
  have parts : u4 magic ++ u2 (c.draft fields methods as).minor
      ++ u2 (c.draft fields methods as).major ++ s₂.pool.encode
      ++ c.input.cursor.segment c.input.layout.poolEnd
        (c.input.layout.poolEnd + 8 + 2 * c.input.layout.interfaces.length)
      ++ u2 (c.draft fields methods as).fields.size
      ++ (c.draft fields methods as).fields.toList.flatten
      ++ u2 (c.draft fields methods as).methods.size
      ++ (c.draft fields methods as).methods.toList.flatten ++ table =
      c.around s₂.pool.encode table := parsed.bytes_parts members s₂.pool.encode table
  rw [parts] at finished
  exact ⟨fields, methods, Transform.run_endHandler started.quiet takes whole (ends _) quiet,
    finished⟩

/-- A class that is passed on and acted on at its end is rebuilt around the pool that comes out. -/
theorem ParsedFrom.transform_endHandler (shared : c.options.has .noPoolSharing = false) :
    (c.transform (some (.endHandler atEnd)) user).1 = .ok (c.around s₂.pool.encode table) := by
  obtain ⟨fields, methods, ran, finished⟩ :=
    parsed.passed verbatim decoded ends quiet writes owns quiet'
  have drafted : (Build.interning do
      return ClassDraft.start (← PoolBuilder.adoptClass c.this) (some c) : Build σ ClassDraft)
      (Build.start c.options (.ofParent c.input) user) =
      (.start c.this (some c), Build.start c.options (.ofParent c.input) user) := by
    simp only [Build.interning, Build.start, parsed.opens]
  have assembled := assemble_eq drafted ran finished quiet'
  rw [transform, rebuild]
  simp only [shared, Bool.false_eq_true, ↓reduceIte]
  exact congrArg Prod.fst assembled

end Passed

/-- A class whose attributes can be written is rebuilt to the file that it was read from. -/
theorem ParsedFrom.transform_pass (parsed : c.ParsedFrom bytes options number)
    (shared : c.options.has .noPoolSharing = false) (verbatim : c.options.copiesVerbatim = true)
    {as : List Attribute} (decoded : c.attributes = .ok as) (table : c.TableWritten as rows)
    (user : σ) : (c.transform (some .pass) user).1 = .ok bytes.toList := by
  have started : Session.SharesWith c.input rows
      (Build.start c.options (.ofParent c.input) user) := ⟨rfl, rfl, .unasked⟩
  -- The members are not among what the attributes are written from.
  obtain ⟨s', shares, writes⟩ := table.writes [] [] started
  rw [← parsed.around_eq shares]
  exact parsed.transform_endHandler verbatim decoded (fun _ => .pure ()) started.quiet
    (fun _ _ => writes) shares.pool.owns shares.quiet shared

/-- Where nothing is left out, no attribute that may come only once is repeated, no text stands in
the pool twice, and a bootstrap table comes last with rows that can all be read, the attributes can
be written. -/
theorem ParsedFrom.tableWritten (read : c.ParsedFrom bytes options number)
    (addressable : Cursor.Addressable ⟨bytes⟩) (verbatim : c.options.copiesVerbatim = true)
    (keeps : c.options.has .dropUnknownAttributes = false) {as : List Attribute}
    (decoded : c.attributes = .ok as)
    (once : as.Pairwise fun a b => a.name = b.name → b.body.repeatable = true)
    (differ : c.pool.TextsDiffer)
    (last : ∀ envs, c.input.layout.ClassEnvelopes c.input.origin envs → c.BootstrapLast envs) :
    ∃ rows, c.TableWritten as rows := by
  obtain ⟨envs, outs, laid, rfl, all, count⟩ := read.laid addressable
    (show options.has .dropUnknownAttributes = false from read.options ▸ keeps) decoded
  cases last envs all with
  | absent plain =>
      exact ⟨[], tableWritten_of_absent verbatim keeps once count
        (read.reusable_of_absent differ all plain) laid (laid.outs_of_absent plain)⟩
  | @last front table plain named some_row each =>
      obtain ⟨rows, nonempty, given⟩ := rows_of_each some_row each
      obtain ⟨whole, inside⟩ := laid.outs_of_last plain named
      have found : Layout.tableEnvelope? (front ++ [table]) = some table := by
        have nowhere : front.find? (fun env => env.name.text = Lookup.bootstrapMethods) = none := by
          rw [List.find?_eq_none]
          intro env member
          simpa using plain env member
        simp [Layout.tableEnvelope?, List.find?_append, nowhere, named]
      have window : Window c.input.layout.cursor (table.offset + table.length) :=
        ⟨inside, by rw [show c.input.layout.cursor = _ from read.cursor]; exact addressable⟩
      exact ⟨rows, tableWritten_of_last verbatim keeps once count
        (read.reusable_of_rows differ given) nonempty laid whole
        (read.tells.bytes_table all found window given)⟩

/-- Where nothing is left out and the pool is shared, a class whose attributes all decode is
rebuilt to the very bytes that it was parsed from. No text may stand in the pool twice and no
attribute that may come only once may be repeated; a bootstrap table has to come last, with
rows that can all be read. -/
theorem transform_pass_eq {c : ClassFile} {bytes : Array UInt8} {options : Options} {number : Nat}
    (addressable : Cursor.Addressable ⟨bytes⟩)
    (parsed : ClassFile.parse number bytes options = .ok c)
    (kept : ∀ o ∈ [Options.dropDebugInfo, .dropLineNumbers, .dropUnknownAttributes,
      .dropStackMaps, .noPoolSharing], options.has o = false)
    {as : List Attribute} (decoded : c.attributes = .ok as)
    (once : as.Pairwise fun a b => a.name = b.name → b.body.repeatable = true)
    (differ : c.pool.TextsDiffer)
    (last : ∀ envs, c.input.layout.ClassEnvelopes c.input.origin envs → c.BootstrapLast envs)
    (user : σ) : (c.transform (some .pass) user).1 = .ok bytes.toList := by
  have read := parsedFrom_of_parse addressable parsed
  have same : c.options = options := read.options
  have shared : c.options.has .noPoolSharing = false := same ▸ kept _ (by simp)
  have keeps : c.options.has .dropUnknownAttributes = false := same ▸ kept _ (by simp)
  have verbatim : c.options.copiesVerbatim = true := same ▸ Options.copiesVerbatim_of_lacks
    (kept _ (by simp)) (kept _ (by simp)) (kept _ (by simp)) (kept _ (by simp))
  obtain ⟨rows, table⟩ := read.tableWritten addressable verbatim (same ▸ keeps) decoded once
    differ last
  exact read.transform_pass shared verbatim decoded table user

/-- A class `A` whose one attribute is a bootstrap table with one row. -/
def tabled : Array UInt8 :=
  #[0xCA, 0xFE, 0xBA, 0xBE, 0, 0, 0, 52, 0, 9,
    1, 0, 1, 65,
    7, 0, 1,
    1, 0, 1, 98,
    1, 0, 3, 40, 41, 86,
    12, 0, 3, 0, 4,
    10, 0, 2, 0, 5,
    15, 6, 0, 6,
    1, 0, 16, 66, 111, 111, 116, 115, 116, 114, 97, 112, 77, 101, 116, 104, 111, 100, 115,
    0, 33, 0, 2, 0, 0, 0, 0, 0, 0, 0, 0,
    0, 1, 0, 8, 0, 0, 0, 6, 0, 1, 0, 7, 0, 0]

/-- The bytes of the class are few enough to be addressed. -/
theorem addressable_tabled : Cursor.Addressable ⟨tabled⟩ := by
  rw [Cursor.Addressable]
  decide

/-- What there is to be known about the class before it is rebuilt. -/
theorem parse_tabled :
    ∃ c, ClassFile.parse 0 tabled .none = .ok c ∧ c.attributes.toOption = some [] ∧
    c.pool.TextsDiffer ∧ c.pool.rowCount = 1 ∧ (c.pool.row 0).isOk = true ∧
    c.input.cursor.u2? c.input.layout.attributes = some 1 ∧
    c.input.cursor.u2? (c.input.layout.attributes + 2 : Nat) = some 8 ∧
    c.pool.text? 8 = some Lookup.bootstrapMethods := by
  have ran : (match ClassFile.parse 0 tabled .none with
      | .error _ => false
      | .ok c => (c.attributes.toOption.any List.isEmpty) && decide (c.pool.TextsDiffer ∧
          c.pool.rowCount = 1 ∧ (c.pool.row 0).isOk = true ∧
          c.input.cursor.u2? c.input.layout.attributes = some 1 ∧
          c.input.cursor.u2? (c.input.layout.attributes + 2 : Nat) = some 8 ∧
          c.pool.text? 8 = some Lookup.bootstrapMethods)) = true := by
    decide +kernel
  split at ran
  · cases ran
  · rename_i c parsed
    simp only [Bool.and_eq_true, decide_eq_true_eq, Option.any_eq_true, List.isEmpty_iff] at ran
    obtain ⟨⟨as, decoded, rfl⟩, facts⟩ := ran
    exact ⟨c, parsed, decoded, facts⟩

/-- The attributes of the class can be written. -/
theorem writable_tabled : ∃ c, ClassFile.parse 0 tabled .none = .ok c ∧ c.attributes = .ok [] ∧
    c.pool.TextsDiffer ∧
    ∀ envs, c.input.layout.ClassEnvelopes c.input.origin envs → c.BootstrapLast envs := by
  obtain ⟨c, parsed, decodes, differ, count, row, table, index, text⟩ := parse_tabled
  have decoded : c.attributes = .ok [] := by
    cases given : c.attributes with
    | error e => simp [given, Except.toOption] at decodes
    | ok as => simpa [given, Except.toOption] using decodes
  refine ⟨c, parsed, decoded, differ, fun envs all => ?_⟩
  have tells := (parsedFrom_of_parse addressable_tabled parsed).tells
  obtain ⟨entry, given, spelled⟩ := Pool.text?_eq_some_iff.mp text
  have here := (Layout.Holds.text_iff.mp (tells.entry given)).2
  obtain ⟨counted, laid⟩ := all
  have one : envs.length = 1 := Option.some.inj (counted.symm.trans table)
  cases laid with
  | done => cases one
  | @next _ i n name rest named told length others =>
      obtain rfl := List.length_eq_zero_iff.mp (Nat.succ.inj one)
      obtain rfl : i = 8 := Option.some.inj (named.symm.trans index)
      have each : ∀ r < c.pool.rowCount, ∃ row, c.pool.row r = .ok row := by
        intro r before
        obtain rfl : r = 0 := by omega
        cases read : c.pool.row 0 with
        | error e => simp [read, Except.isOk, Except.toBool] at row
        | ok row => exact ⟨row, rfl⟩
      have named : name = Lookup.bootstrapMethods := (told.functional here).trans spelled
      rw [← List.nil_append [_]]
      exact .last (by simp) named (by omega) each

/-- The class `A` is passed on as the bytes that it was read from. -/
theorem transform_tabled : ∃ c, ClassFile.parse 0 tabled .none = .ok c ∧
    (c.transform (some .pass) ()).1 = .ok tabled.toList := by
  obtain ⟨c, parsed, decoded, differ, last⟩ := writable_tabled
  exact ⟨c, parsed, transform_pass_eq addressable_tabled parsed (by decide) decoded .nil differ last
    ()⟩

end ClassFile

end JvmClass
