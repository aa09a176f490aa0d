import Mathlib.Data.Fintype.Card
import Mathlib.Data.Set.Finite.Basic
import JvmClass.Proofs.Constant.Lookup

/-!
# References between constants and bootstrap rows

Constants and bootstrap rows refer to one another by indices that stand at fixed positions
in their bytes, so what refers to what can be read off without decoding anything. An index
holds an entry exactly when all that can be reached from it is well-formed and no reference
leads back to where it started.
-/

namespace JvmClass

namespace Tag

/-- Where a constant of this kind refers to other constants, and to which kinds. -/
def references : Tag → List (Nat × List Tag)
  | .class | .string | .methodType | .module | .package => [(1, [.utf8])]
  | .nameAndType => [(1, [.utf8]), (3, [.utf8])]
  | .fieldRef | .methodRef | .interfaceMethodRef => [(1, [.class]), (3, [.nameAndType])]
  | .methodHandle => [(2, [.fieldRef, .methodRef, .interfaceMethodRef])]
  | .dynamic | .invokeDynamic => [(3, [.nameAndType])]
  | .utf8 | .integer | .float | .long | .double => []

/-- Whether a constant of this kind is produced by a bootstrap row. -/
def IsProduced (t : Tag) : Prop := t = .dynamic ∨ t = .invokeDynamic

/-- The kinds of constants that can be arguments of a bootstrap row. -/
def loadables : List Tag :=
  [.integer, .float, .long, .double, .class, .string, .methodType, .methodHandle, .dynamic]

end Tag

namespace Entry

/-- `want` takes the entries with these tags and no others. -/
def Wants {α : Type} (want : Entry → Option α) (tags : List Tag) : Prop :=
  ∀ e : Entry, (∃ a, want e = some a) ↔ e.tag ∈ tags

/-- What holds of the entries of each kind holds of all of them. -/
theorem forall_of_tags {P : Entry → Prop} (utf8 : ∀ e, P (.utf8 e))
    (loadable : ∀ e, P (.loadable e)) (nameAndType : ∀ e, P (.nameAndType e))
    (field : ∀ place owner nt, P (.member ⟨place, .field, owner, nt⟩))
    (method : ∀ place owner nt, P (.member ⟨place, .method, owner, nt⟩))
    (interfaceMethod : ∀ place owner nt, P (.member ⟨place, .interfaceMethod, owner, nt⟩))
    (callSite : ∀ e, P (.callSite e)) (module : ∀ e, P (.module e))
    (package : ∀ e, P (.package e)) (e : Entry) : P e := by
  cases e with
  | utf8 e => exact utf8 e
  | loadable e => exact loadable e
  | nameAndType e => exact nameAndType e
  | member e =>
      obtain ⟨place, kind, owner, nt⟩ := e
      cases kind with
      | field => exact field place owner nt
      | method => exact method place owner nt
      | interfaceMethod => exact interfaceMethod place owner nt
  | callSite e => exact callSite e
  | module e => exact module e
  | package e => exact package e

/-- The kinds that each of the ways to take an entry asks for. -/
theorem wants_each : Wants utf8? [.utf8] ∧ Wants class? [.class] ∧
    Wants nameAndType? [.nameAndType] ∧ Wants member? [.fieldRef, .methodRef, .interfaceMethodRef] ∧
    Wants handle? [.methodHandle] ∧ Wants loadable? Tag.loadables := by
  refine ⟨?_, ?_, ?_, ?_, ?_, ?_⟩
  all_goals
    refine forall_of_tags ?_ (fun e => ?_) ?_ ?_ ?_ ?_ ?_ ?_ ?_
    case refine_2 =>
      cases e <;> simp [utf8?, class?, nameAndType?, member?, handle?, loadable?, tag, Loadable.tag,
        Tag.loadables]
    all_goals
      simp [utf8?, class?, nameAndType?, member?, handle?, loadable?, tag, MemberEntry.tag,
        MemberKind.tag, Tag.loadables]

/-- Texts are the entries with the tag of texts. -/
theorem wants_utf8 : Wants utf8? [.utf8] := wants_each.1

/-- Classes are the entries with the tag of classes. -/
theorem wants_class : Wants class? [.class] := wants_each.2.1

/-- Names and types are the entries with their tag. -/
theorem wants_nameAndType : Wants nameAndType? [.nameAndType] := wants_each.2.2.1

/-- Members are the entries with one of three tags. -/
theorem wants_member : Wants member? [.fieldRef, .methodRef, .interfaceMethodRef] :=
  wants_each.2.2.2.1

/-- Handles are the entries with the tag of handles. -/
theorem wants_handle : Wants handle? [.methodHandle] := wants_each.2.2.2.2.1

/-- Loadable constants are the entries with one of the tags that can be loaded. -/
theorem wants_loadable : Wants loadable? Tag.loadables := wants_each.2.2.2.2.2

end Entry

/-- What a constant can need: other constants and bootstrap rows. -/
inductive Node where
  | constant (index : Nat)
  | row (number : Nat)
deriving DecidableEq

namespace Layout

variable {l : Layout} {origin : Origin}

/-- The index at `p` is that of a constant of one of these kinds. -/
def Names (l : Layout) (p : Nat) (tags : List Tag) : Prop :=
  ∃ i t q, l.cursor.u2? p = some i ∧ l.ConstantAt i t q ∧ t ∈ tags

/-- What a constant refers to, and what a bootstrap row refers to. -/
inductive RefersTo (l : Layout) (origin : Origin) : Node → Node → Prop
  | index {i j p : Nat} {t : Tag} {slot : Nat × List Tag} (constant : l.ConstantAt i t p)
      (listed : slot ∈ t.references) (named : l.cursor.u2? (p + slot.1 : Nat) = some j) :
      RefersTo l origin (.constant i) (.constant j)
  | bootstrap {i r p : Nat} {t : Tag} (constant : l.ConstantAt i t p) (produced : t.IsProduced)
      (number : l.cursor.u2? (p + 1 : Nat) = some r) : RefersTo l origin (.constant i) (.row r)
  | handle {r p j : Nat} {table : Array Nat} (isTable : l.IsTable origin table)
      (inside : table[r]? = some p) (named : l.cursor.u2? p = some j) :
      RefersTo l origin (.row r) (.constant j)
  | argument {r p n k j : Nat} {table : Array Nat} (isTable : l.IsTable origin table)
      (inside : table[r]? = some p) (count : l.cursor.u2? (p + 2 : Nat) = some n) (below : k < n)
      (named : l.cursor.u2? (p + 4 + 2 * k : Nat) = some j) :
      RefersTo l origin (.row r) (.constant j)

/-- What the constant at `p` says besides what it refers to: its text, its number, or the kind
of its handle, which has to fit the member. -/
def Contents (l : Layout) (i p : Nat) : Tag → Prop
  | .utf8 => ∃ text, l.TextAt i text
  | .integer => ∃ n, l.cursor.s4? (p + 1 : Nat) = some n
  | .float => ∃ n, l.cursor.u4? (p + 1 : Nat) = some n
  | .long => ∃ n, l.cursor.s8? (p + 1 : Nat) = some n
  | .double => ∃ n, l.cursor.u8? (p + 1 : Nat) = some n
  | .methodHandle => ∃ b j t q, l.cursor.u1? (p + 1 : Nat) = some b ∧
      l.cursor.u2? (p + 2 : Nat) = some j ∧ l.ConstantAt j t q ∧ HandleKind.accepts ⟨b.toUInt8⟩ t
  | _ => True

/-- A constant or a bootstrap row is well-formed: it can be read, and what it refers to is of
the kinds that it has to be of. A row needs the table, so the names of the class attributes
have to be texts and the attribute that holds the rows has to be sound. -/
inductive WellFormed (l : Layout) (origin : Origin) : Node → Prop
  | constant {i p : Nat} {t : Tag} (constant : l.ConstantAt i t p) (contents : l.Contents i p t)
      (references : ∀ slot ∈ t.references, l.Names (p + slot.1) slot.2)
      (bootstrap : t.IsProduced → ∃ r, l.cursor.u2? (p + 1 : Nat) = some r) :
      WellFormed l origin (.constant i)
  | row {r p n : Nat} {table : Array Nat} (isTable : l.IsTable origin table)
      (inside : table[r]? = some p) (handle : l.Names p [.methodHandle])
      (count : l.cursor.u2? (p + 2 : Nat) = some n)
      (arguments : ∀ k < n, l.Names (p + 4 + 2 * k) Tag.loadables) :
      WellFormed l origin (.row r)

/-- What can be reached by references. -/
abbrev Reaches (l : Layout) (origin : Origin) : Node → Node → Prop :=
  Relation.ReflTransGen (l.RefersTo origin)

/-- All references from a node on are well-formed and come to an end. -/
inductive Grounded (l : Layout) (origin : Origin) : Node → Prop
  | intro {n : Node} (wellFormed : l.WellFormed origin n)
      (others : ∀ m, l.RefersTo origin n m → Grounded l origin m) : Grounded l origin n

section Held

variable {held : Nat → Entry → Prop} {place : Place} {p : Nat} {t : Tag} {e : Entry}

/-- A reference leads to an entry with one of the tags that are wanted. -/
theorem Refers.listed {α : Type} {want : Entry → Option α} {tags : List Tag} {a : α}
    (wants : Entry.Wants want tags) (refers : l.Refers held want p a) :
    ∃ j e, l.cursor.u2? p = some j ∧ held j e ∧ e.tag ∈ tags := by
  obtain ⟨index, entry, taken⟩ := refers
  exact ⟨_, _, index, entry, (wants _).mp ⟨a, taken⟩⟩

/-- What a constant denotes has its tag. -/
theorem Decodes.tag (decodes : l.Decodes held place p t e) : e.tag = t := by
  cases decodes with
  | member tag owned named => exact tag.symm
  | _ => rfl

/-- What a constant refers to holds something of a kind that fits. -/
theorem Decodes.references (decodes : l.Decodes held place p t e) :
    ∀ slot ∈ t.references, ∃ j e, l.cursor.u2? (p + slot.1 : Nat) = some j ∧ held j e ∧
      e.tag ∈ slot.2 := by
  have pair {first second : Nat × List Tag}
      (one : ∃ j e, l.cursor.u2? (p + first.1 : Nat) = some j ∧ held j e ∧ e.tag ∈ first.2)
      (two : ∃ j e, l.cursor.u2? (p + second.1 : Nat) = some j ∧ held j e ∧ e.tag ∈ second.2) :
      ∀ slot ∈ [first, second], ∃ j e, l.cursor.u2? (p + slot.1 : Nat) = some j ∧ held j e ∧
        e.tag ∈ slot.2 :=
    List.forall_mem_cons.mpr ⟨one, List.forall_mem_singleton.mpr two⟩
  cases decodes with
  | utf8 | integer | float | long | double => intro slot listed; cases listed
  | «class» named | string named | methodType named | module named | package named =>
      exact List.forall_mem_singleton.mpr (named.listed Entry.wants_utf8)
  | nameAndType named typed =>
      exact pair (named.listed Entry.wants_utf8) (typed.listed Entry.wants_utf8)
  | @member _ kind _ _ tag owned named =>
      subst tag
      cases kind with
      | field | method | interfaceMethod =>
          exact pair (owned.listed Entry.wants_class) (named.listed Entry.wants_nameAndType)
  | handle kind targeted accepts =>
      exact List.forall_mem_singleton.mpr (targeted.listed Entry.wants_member)
  | dynamic number rowed named | callSite number rowed named =>
      exact List.forall_mem_singleton.mpr (named.listed Entry.wants_nameAndType)

/-- A constant that a bootstrap row produces gives the number of one. -/
theorem Decodes.bootstrap (decodes : l.Decodes held place p t e) (produced : t.IsProduced) :
    ∃ r row, l.cursor.u2? (p + 1 : Nat) = some r ∧ l.RowAt place.origin held r row := by
  cases decodes with
  | dynamic number rowed named | callSite number rowed named => exact ⟨_, _, number, rowed⟩
  | @member _ kind _ _ tag owned named =>
      subst tag
      cases kind <;> simp [Tag.IsProduced, MemberKind.tag] at produced
  | _ => simp [Tag.IsProduced] at produced

end Held

/-- An entry that is held has the tag of its constant. -/
theorem Holds.constantAt {i : Nat} {e : Entry} (holds : l.Holds origin i e) :
    ∃ p, l.ConstantAt i e.tag p := by
  obtain ⟨inner, held, constant, decodes⟩ := holds
  exact ⟨_, decodes.tag ▸ constant⟩

/-- What an index holds has the tag of its constant. -/
theorem Holds.tag_eq {i p : Nat} {t : Tag} {e : Entry} (holds : l.Holds origin i e)
    (constant : l.ConstantAt i t p) : e.tag = t := by
  obtain ⟨q, constant'⟩ := holds.constantAt
  exact (constant'.functional constant).1

/-- What a constant that holds something says can be read. -/
theorem Decodes.contents {i p : Nat} {t : Tag} {e : Entry}
    (decodes : l.Decodes (l.Holds origin) ⟨origin, i⟩ p t e) : l.Contents i p t := by
  cases decodes with
  | utf8 spelled => exact ⟨_, spelled⟩
  | integer bits | float bits | long bits | double bits => exact ⟨_, bits⟩
  | @member _ kind _ _ tag owned named =>
      subst tag
      cases kind <;> trivial
  | handle kind targeted accepts =>
      obtain ⟨index, holds, taken⟩ := targeted
      rename_i b target j e
      obtain ⟨q, constant⟩ := holds.constantAt
      cases e with
      | member e =>
          obtain rfl := Option.some.inj taken
          exact ⟨b, j, _, q, kind, index, constant, accepts⟩
      | _ => cases taken
  | _ => trivial

/-- A row whose references are grounded is grounded. -/
theorem RowAt.grounded {held : Nat → Entry → Prop} {r : Nat} {row : BootstrapRow}
    (rowed : l.RowAt origin held r row) (isHeld : ∀ j e, held j e → l.Holds origin j e)
    (each : ∀ j e, held j e → l.Grounded origin (.constant j)) : l.Grounded origin (.row r) := by
  obtain ⟨-, table, p, isTable, inside, handle, count, arguments⟩ := rowed
  have argument (k : Nat) (below : k < row.arguments.length) :=
    (arguments k _ (List.getElem?_eq_getElem below)).listed Entry.wants_loadable
  have names {q : Nat} {tags : List Tag}
      (listed : ∃ j e, l.cursor.u2? q = some j ∧ held j e ∧ e.tag ∈ tags) : l.Names q tags := by
    obtain ⟨j, e, index, entry, tag⟩ := listed
    obtain ⟨q', constant⟩ := (isHeld j e entry).constantAt
    exact ⟨j, e.tag, q', index, constant, tag⟩
  have grounded {q j : Nat} {tags : List Tag}
      (listed : ∃ j e, l.cursor.u2? q = some j ∧ held j e ∧ e.tag ∈ tags)
      (named : l.cursor.u2? q = some j) : l.Grounded origin (.constant j) := by
    obtain ⟨j', e, index, entry, -⟩ := listed
    obtain rfl := Option.some.inj (named.symm.trans index)
    exact each _ e entry
  have handled := handle.listed Entry.wants_handle
  refine .intro (.row isTable inside (names handled) count fun k below => names (argument k below))
    fun m refersTo => ?_
  cases refersTo with
  | handle isTable' inside' named =>
      obtain rfl := isTable.functional isTable'
      obtain rfl := Option.some.inj (inside.symm.trans inside')
      exact grounded handled named
  | argument isTable' inside' count' below named =>
      obtain rfl := isTable.functional isTable'
      obtain rfl := Option.some.inj (inside.symm.trans inside')
      obtain rfl := Option.some.inj (count.symm.trans count')
      exact grounded (argument _ below) named

/-- The references of an index that holds something are well-formed and come to an end. -/
theorem Holds.grounded {i : Nat} {e : Entry} (holds : l.Holds origin i e) :
    l.Grounded origin (.constant i) := by
  induction holds with
  | @intro i p t e inner held constant decodes inductionHypothesis =>
      have references := decodes.references
      refine .intro (.constant constant (decodes.mono held).contents (fun slot listed => ?_)
        fun produced => ?_) fun m refersTo => ?_
      · obtain ⟨j, e, index, entry, tag⟩ := references slot listed
        obtain ⟨q, constant⟩ := (held j e entry).constantAt
        exact ⟨j, e.tag, q, index, constant, tag⟩
      · obtain ⟨r, row, number, -⟩ := decodes.bootstrap produced
        exact ⟨r, number⟩
      · cases refersTo with
        | index constant' listed named =>
            obtain ⟨rfl, rfl⟩ := constant.functional constant'
            obtain ⟨j, e, index, entry, -⟩ := references _ listed
            obtain rfl := Option.some.inj (named.symm.trans index)
            exact inductionHypothesis _ e entry
        | bootstrap constant' produced number =>
            obtain ⟨rfl, rfl⟩ := constant.functional constant'
            obtain ⟨r, row, number', rowed⟩ := decodes.bootstrap produced
            obtain rfl := Option.some.inj (number.symm.trans number')
            exact rowed.grounded held inductionHypothesis

/-- What a node denotes when its references come to an end. -/
def Denotes (l : Layout) (origin : Origin) : Node → Prop
  | .constant i => ∃ e, l.Holds origin i e
  | .row r => ∃ row, l.RowAt origin (l.Holds origin) r row

/-- An index of the right kind that holds something is a reference. -/
theorem Names.refers {α : Type} {want : Entry → Option α} {tags : List Tag} {p : Nat}
    (wants : Entry.Wants want tags) (names : l.Names p tags)
    (each : ∀ j, l.cursor.u2? p = some j → l.Denotes origin (.constant j)) :
    ∃ a, l.Refers (l.Holds origin) want p a := by
  obtain ⟨j, t, q, index, constant, listed⟩ := names
  obtain ⟨e, holds⟩ := each j index
  obtain ⟨a, taken⟩ := (wants e).mpr (holds.tag_eq constant ▸ listed)
  exact ⟨a, .intro index holds taken⟩

/-- A well-formed row denotes one when what it refers to holds something. -/
theorem denotes_row {r p n : Nat} {table : Array Nat} (isTable : l.IsTable origin table)
    (inside : table[r]? = some p) (handle : l.Names p [.methodHandle])
    (count : l.cursor.u2? (p + 2 : Nat) = some n)
    (arguments : ∀ k < n, l.Names (p + 4 + 2 * k) Tag.loadables)
    (each : ∀ m, l.RefersTo origin (.row r) m → l.Denotes origin m) :
    l.Denotes origin (.row r) := by
  obtain ⟨handled, handles⟩ := handle.refers Entry.wants_handle fun j index =>
    each _ (.handle isTable inside index)
  have argument (k : Fin n) :=
    (arguments k k.2).refers Entry.wants_loadable fun j index =>
      each _ (.argument isTable inside count k.2 index)
  choose given refers using argument
  refine ⟨.mk ⟨origin, r⟩ handled (List.ofFn given), rfl, table, p, isTable, inside, handles, ?_,
    fun k a here => ?_⟩
  · simpa [BootstrapRow.arguments] using count
  · obtain ⟨below, rfl⟩ := List.getElem?_eq_some_iff.mp here
    simp only [BootstrapRow.arguments, List.length_ofFn] at below
    simpa [BootstrapRow.arguments] using refers ⟨k, below⟩

/-- A well-formed constant holds an entry when what it refers to does. -/
theorem denotes_constant {i p : Nat} {t : Tag} (constant : l.ConstantAt i t p)
    (contents : l.Contents i p t) (references : ∀ slot ∈ t.references, l.Names (p + slot.1) slot.2)
    (bootstrap : t.IsProduced → ∃ r, l.cursor.u2? (p + 1 : Nat) = some r)
    (each : ∀ m, l.RefersTo origin (.constant i) m → l.Denotes origin m) :
    l.Denotes origin (.constant i) := by
  have holds {e : Entry} (decodes : l.Decodes (l.Holds origin) ⟨origin, i⟩ p t e) :
      l.Denotes origin (.constant i) := ⟨e, holds_iff.mpr ⟨t, p, constant, decodes⟩⟩
  have refers {α : Type} {want : Entry → Option α} (slot : Nat × List Tag)
      (listed : slot ∈ t.references) (wants : Entry.Wants want slot.2) :
      ∃ a, l.Refers (l.Holds origin) want (p + slot.1) a :=
    (references slot listed).refers wants fun j index => each _ (.index constant listed index)
  have row (produced : t.IsProduced) : ∃ r row, l.cursor.u2? (p + 1 : Nat) = some r ∧
      l.RowAt origin (l.Holds origin) r row := by
    obtain ⟨r, number⟩ := bootstrap produced
    obtain ⟨row, rowed⟩ := each _ (.bootstrap constant produced number)
    exact ⟨r, row, number, rowed⟩
  have member (kind : MemberKind) (tag : t = kind.tag)
      (first : (1, [Tag.class]) ∈ t.references) (second : (3, [Tag.nameAndType]) ∈ t.references) :
      l.Denotes origin (.constant i) := by
    obtain ⟨owner, owned⟩ := refers _ first Entry.wants_class
    obtain ⟨nt, named⟩ := refers _ second Entry.wants_nameAndType
    exact holds (.member tag owned named)
  cases t with
  | utf8 =>
      obtain ⟨text, spelled⟩ := contents
      exact holds (.utf8 spelled)
  | integer =>
      obtain ⟨n, bits⟩ := contents
      exact holds (.integer bits)
  | float =>
      obtain ⟨n, bits⟩ := contents
      exact holds (.float bits)
  | long =>
      obtain ⟨n, bits⟩ := contents
      exact holds (.long bits)
  | double =>
      obtain ⟨n, bits⟩ := contents
      exact holds (.double bits)
  | «class» =>
      obtain ⟨name, named⟩ := refers (1, _) (by decide) Entry.wants_utf8
      exact holds (.class named)
  | string =>
      obtain ⟨text, spelled⟩ := refers (1, _) (by decide) Entry.wants_utf8
      exact holds (.string spelled)
  | methodType =>
      obtain ⟨descriptor, described⟩ := refers (1, _) (by decide) Entry.wants_utf8
      exact holds (.methodType described)
  | module =>
      obtain ⟨name, named⟩ := refers (1, _) (by decide) Entry.wants_utf8
      exact holds (.module named)
  | package =>
      obtain ⟨name, named⟩ := refers (1, _) (by decide) Entry.wants_utf8
      exact holds (.package named)
  | nameAndType =>
      obtain ⟨name, named⟩ := refers (1, _) (by decide) Entry.wants_utf8
      obtain ⟨type, typed⟩ := refers (3, _) (by decide) Entry.wants_utf8
      exact holds (.nameAndType named typed)
  | fieldRef => exact member .field rfl (by decide) (by decide)
  | methodRef => exact member .method rfl (by decide) (by decide)
  | interfaceMethodRef => exact member .interfaceMethod rfl (by decide) (by decide)
  | methodHandle =>
      obtain ⟨b, j, t, q, kind, index, there, accepts⟩ := contents
      obtain ⟨target, targeted⟩ := refers (2, _) (by decide) Entry.wants_member
      refine holds (.handle kind targeted ?_)
      obtain ⟨index', held, taken⟩ := targeted
      obtain rfl := Option.some.inj (index.symm.trans index')
      have tag := held.tag_eq there
      rename_i e
      cases e with
      | member e =>
          obtain rfl := Option.some.inj taken
          exact (congrArg _ tag).trans accepts
      | _ => cases taken
  | dynamic =>
      obtain ⟨r, row, number, rowed⟩ := row (.inl rfl)
      obtain ⟨nt, named⟩ := refers (3, _) (by decide) Entry.wants_nameAndType
      exact holds (.dynamic number rowed named)
  | invokeDynamic =>
      obtain ⟨r, row, number, rowed⟩ := row (.inr rfl)
      obtain ⟨nt, named⟩ := refers (3, _) (by decide) Entry.wants_nameAndType
      exact holds (.callSite number rowed named)

/-- A node whose references come to an end denotes something. -/
theorem Grounded.denotes {n : Node} (grounded : l.Grounded origin n) : l.Denotes origin n := by
  induction grounded with
  | intro wellFormed others inductionHypothesis =>
      cases wellFormed with
      | constant constant contents references bootstrap =>
          exact denotes_constant constant contents references bootstrap inductionHypothesis
      | row isTable inside handle count arguments =>
          exact denotes_row isTable inside handle count arguments inductionHypothesis

section Cycles

variable {n m : Node}

/-- All that is reached from a node whose references come to an end is such a node. -/
theorem Grounded.reached (grounded : l.Grounded origin n) (reaches : l.Reaches origin n m) :
    l.Grounded origin m := by
  induction reaches with
  | refl => exact grounded
  | tail reaches step inductionHypothesis =>
      obtain ⟨-, others⟩ := inductionHypothesis
      exact others _ step

/-- References that come to an end do not lead back. -/
theorem Grounded.acyclic (grounded : l.Grounded origin n) :
    ¬Relation.TransGen (l.RefersTo origin) n n := by
  induction grounded with
  | @intro n wellFormed others inductionHypothesis =>
      intro cycle
      obtain ⟨m, step, back⟩ := Relation.TransGen.head'_iff.mp cycle
      exact inductionHypothesis m step (Relation.TransGen.tail'_iff.mpr ⟨n, back, step⟩)

/-- Only finitely many nodes are well-formed. -/
theorem finite_wellFormed : {n | l.WellFormed origin n}.Finite := by
  have constants : (Node.constant '' {i | i < l.size}).Finite :=
    (Set.finite_lt_nat l.size).image _
  by_cases readable : ∃ table, l.IsTable origin table
  · obtain ⟨table, isTable⟩ := readable
    have rows : (Node.row '' {r | r < table.size}).Finite :=
      (Set.finite_lt_nat table.size).image _
    refine (constants.union rows).subset fun n wellFormed => ?_
    cases wellFormed with
    | constant constant => exact .inl ⟨_, Lookup.lt_size constant.offset, rfl⟩
    | row isTable' inside =>
        obtain rfl := isTable.functional isTable'
        exact .inr ⟨_, (Array.getElem?_eq_some_iff.mp inside).1, rfl⟩
  · refine constants.subset fun n wellFormed => ?_
    cases wellFormed with
    | constant constant => exact ⟨_, Lookup.lt_size constant.offset, rfl⟩
    | row isTable => exact absurd ⟨_, isTable⟩ readable

/-- References come to an end exactly when nothing that is reached is ill-formed or leads back
to itself. -/
theorem grounded_iff : l.Grounded origin n ↔ ∀ m, l.Reaches origin n m →
    l.WellFormed origin m ∧ ¬Relation.TransGen (l.RefersTo origin) m m := by
  constructor
  · intro grounded m reaches
    have here := grounded.reached reaches
    exact ⟨by cases here; assumption, here.acyclic⟩
  · intro sound
    -- Only finitely many nodes are reached, and to be referred to orders them.
    let Reached := {m // l.Reaches origin n m}
    let Later (a b : Reached) : Prop := Relation.TransGen (l.RefersTo origin) b.1 a.1
    have finite : Finite Reached :=
      (finite_wellFormed.subset fun m reaches => (sound m reaches).1).to_subtype
    have transitive : IsTrans Reached Later := ⟨fun a b c first second => second.trans first⟩
    have irreflexive : Std.Irrefl Later := ⟨fun a => (sound a.1 a.2).2⟩
    have wellFounded : WellFounded Later := Finite.wellFounded_of_trans_of_irrefl Later
    have each (a : Reached) : l.Grounded origin a.1 := by
      induction a using wellFounded.induction with
      | _ a inductionHypothesis =>
          refine .intro (sound a.1 a.2).1 fun m step => ?_
          exact inductionHypothesis ⟨m, a.2.tail step⟩ (.single step)
    exact each ⟨n, .refl⟩

/-- An index holds an entry exactly when everything that can be reached from it is well-formed
and no reference leads back to where it started. -/
theorem holds_iff_reaches {i : Nat} : (∃ e, l.Holds origin i e) ↔
    ∀ m, l.Reaches origin (.constant i) m →
      l.WellFormed origin m ∧ ¬Relation.TransGen (l.RefersTo origin) m m := by
  rw [← grounded_iff]
  constructor
  · rintro ⟨e, holds⟩
    exact holds.grounded
  · exact Grounded.denotes

end Cycles

end Layout

end JvmClass
