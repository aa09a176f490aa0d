import JvmClass.ClassFile
import JvmClass.Proofs.ClassFile.Layout
import JvmClass.Proofs.Constant.Pool

/-!
# What a parsed class file is made of

A parsed class names what the indices of its header hold, and each of its members names what
the indices at the start of the member hold.
-/

namespace JvmClass

open Layout (Scanned)

/-- A member that was read from a span of an input. -/
structure InputMember.ReadFrom (i : Input) (className : Text) (span : MemberSpan)
    (m : InputMember) : Prop where
  input : m.input = i
  className : m.className = className
  lies : m.span = span
  flags : ∃ n : Nat, i.cursor.u2? span.start = some n ∧ m.flags = .ofInt n
  name : ∃ n : Nat, i.cursor.u2? (span.start + 2 : Nat) = some n ∧
    i.pool.refer Entry.utf8? (span.start + 2 : Nat) n = .ok m.name
  descriptor : ∃ n : Nat, i.cursor.u2? (span.start + 4 : Nat) = some n ∧
    i.pool.refer Entry.utf8? (span.start + 4 : Nat) n = .ok m.descriptor

/-- A member that is read has the flags, the name and the descriptor that its header refers to. -/
theorem InputMember.readFrom_of_read {i : Input} {className : Text} {span : MemberSpan}
    {m : InputMember} (given : InputMember.read i className span = .ok m) :
    m.ReadFrom i className span := by
  simp only [InputMember.read, bind_eq_ok_iff, Layout.covered_eq_ok_iff, pure_eq_ok_iff] at given
  obtain ⟨name, nameAt, _, named, descriptor, descriptorAt, _, described, flags, flagsAt, rfl⟩ :=
    given
  exact ⟨rfl, rfl, rfl, ⟨flags, flagsAt, rfl⟩, ⟨name, nameAt, named⟩,
    ⟨descriptor, descriptorAt, described⟩⟩

/-- The states of a parsed class: as it was parsed, and after a first search for its bootstrap
table. -/
inductive ClassFile.StateOf (c : ClassFile) : ClassFile → Prop
  | parsed : StateOf c c
  | settled (search : TableSearch) : StateOf c (c.settle search)

/-- A class whose header and members were read from its input. -/
structure ClassFile.Headed (c : ClassFile) : Prop where
  this : c.pool.refer Entry.class? (c.input.layout.poolEnd + 2 : Nat) c.input.layout.thisIndex =
    .ok c.this
  super : (c.input.layout.superIndex = 0 ∧ c.super = none) ∨
    ∃ s, c.input.layout.superIndex ≠ 0 ∧ c.super = some s ∧
      c.pool.refer Entry.class? (c.input.layout.poolEnd + 2 + 2 : Nat)
        c.input.layout.superIndex = .ok s
  interfaces : List.Forall₂ (fun i interface => ∃ offset,
    c.pool.refer Entry.class? offset i = .ok interface) c.input.layout.interfaces c.interfaces
  fields : List.Forall₂ (InputMember.ReadFrom c.input c.this.internalName)
    c.input.layout.fields c.fields
  methods : List.Forall₂ (InputMember.ReadFrom c.input c.this.internalName)
    c.input.layout.methods c.methods

/-- What is related with some number beside it is related. -/
theorem forall₂_of_zipIdx {α β : Type} {r : α × Nat → β → Prop} {as : List α} {bs : List β}
    {n : Nat} (all : List.Forall₂ r (as.zipIdx n) bs) :
    List.Forall₂ (fun a b => ∃ k, r (a, k) b) as bs := by
  induction as generalizing n bs with
  | nil =>
      cases all
      exact .nil
  | cons a rest inductionHypothesis =>
      cases all with
      | cons first others => exact .cons ⟨n, first⟩ (inductionHypothesis others)

/-- What is read of a scanned input has the class, the superclass, the interfaces and the members
that its layout refers to. -/
theorem ClassFile.headed_of_ofInput {i : Input} {c : ClassFile}
    (given : ClassFile.ofInput i = .ok c) : c.input = i ∧ c.Headed := by
  rw [ClassFile.ofInput] at given
  obtain ⟨this, named, given⟩ := bind_eq_ok_iff.mp given
  split at given
  all_goals
    rename_i index
    simp only [bind_eq_ok_iff, pure_eq_ok_iff, map_eq_ok_iff, mapM_eq_ok_iff] at given
    obtain ⟨super, extended, interfaces, implemented, fields, fieldsRead, methods, methodsRead,
      rfl⟩ := given
    have members {spans : List MemberSpan} {members : List InputMember}
        (read : List.Forall₂ (fun span m => InputMember.read i this.internalName span = .ok m)
          spans members) : List.Forall₂ (InputMember.ReadFrom i this.internalName) spans members :=
      read.imp fun _ _ => InputMember.readFrom_of_read
    refine ⟨rfl, named, ?_, (forall₂_of_zipIdx implemented).imp fun _ _ ⟨_, given⟩ => ⟨_, given⟩,
      members fieldsRead, members methodsRead⟩
  · exact .inl ⟨index, extended.symm⟩
  · obtain ⟨s, found, rfl⟩ := extended
    exact .inr ⟨s, index, rfl, found⟩

/-- A class file that was parsed from some bytes. -/
structure ClassFile.ParsedFrom (bytes : Array UInt8) (options : Options) (number : Nat)
    (c : ClassFile) : Prop where
  cursor : c.input.cursor = ⟨bytes⟩
  options : c.input.options = options
  scanned : c.input.layout.Scanned
  origin : c.input.origin = .input number
  tells : c.pool.Tells c.input.layout
  /-- A pool that waits for a search has one that comes to a constant in need of it, and knows
  of no rows. -/
  settled : c.pool.unsettled = true →
    Pool.searchIsCircular c.input.layout c.input.origin = true ∧ ∃ e, c.pool.rows = .error e
  headed : c.Headed

/-- What parsing gives was read from its bytes: the layout was scanned from them, the pool tells
what they hold, and the header was read with it. -/
theorem ClassFile.parsedFrom_of_parse {bytes : Array UInt8} {options : Options} {number : Nat}
    {c : ClassFile} (addressable : Cursor.Addressable ⟨bytes⟩)
    (given : ClassFile.parse number bytes options = .ok c) : c.ParsedFrom bytes options number := by
  obtain ⟨l, scanned, used⟩ := bind_eq_ok_iff.mp given
  obtain ⟨sound, cursor, options'⟩ := Scanned.of_scan addressable scanned
  rw [Input.query] at used
  obtain ⟨input, headed⟩ := headed_of_ofInput used
  obtain ⟨pool, tells, origin, settled⟩ :
      c.input = { layout := l, pool := c.pool } ∧ c.pool.Tells l ∧ c.pool.origin = .input number ∧
        (c.pool.unsettled = true →
          Pool.searchIsCircular l (.input number) = true ∧ ∃ e, c.pool.rows = .error e) := by
    rw [ClassFile.pool, input, Input.settledBy]
    have first : (Pool.ofLayout l number).Tells l := Pool.tells_ofLayout number
    split
    · split
      · exact ⟨rfl, first, Pool.origin_ofLayout number, Pool.unsettled_ofLayout⟩
      · split
        · rename_i search _
          refine ⟨rfl, Pool.tells_afterSearch search, ?_, fun unsettled => ?_⟩
          · simp [Input.settle, Input.origin]
          · simp [Input.settle, Pool.unsettled_afterSearch] at unsettled
        · exact ⟨rfl, first, Pool.origin_ofLayout number, Pool.unsettled_ofLayout⟩
    · exact ⟨rfl, first, Pool.origin_ofLayout number, Pool.unsettled_ofLayout⟩
  have layout : c.input.layout = l := by rw [pool]
  exact {
    cursor := by rw [Input.cursor, layout, cursor]
    options := by rw [Input.options, layout, options']
    scanned := by rw [layout]; exact sound
    origin := origin
    tells := by rw [layout]; exact tells
    settled := by rw [layout, Input.origin]; exact origin ▸ settled
    headed := headed }

end JvmClass
