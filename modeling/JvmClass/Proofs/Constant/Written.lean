import JvmClass.Proofs.Bytes.Cursor
import JvmClass.Proofs.Constant.Adoption

/-!
# What a written pool holds

The constants of a pool stand in the bytes that it is written as, each with the indices of those
that it refers to. A class file in which they stand so holds, at the index of every constant, one
that denotes the same.
-/

namespace JvmClass

section Stands

variable (c : Cursor) (q : Nat)

/-- The operands of a loadable constant stand after its tag at `q`. -/
def Loadable.OperandsAt : Loadable → Prop
  | .integer _ n => c.s4? (q + 1 : Nat) = some n
  | .float _ bits => c.u4? (q + 1 : Nat) = some bits
  | .long _ n => c.s8? (q + 1 : Nat) = some n
  | .double _ bits => c.u8? (q + 1 : Nat) = some bits
  | .class e => c.u2? (q + 1 : Nat) = some e.name.place.index
  | .string _ utf8 => c.u2? (q + 1 : Nat) = some utf8.place.index
  | .methodType _ descriptor => c.u2? (q + 1 : Nat) = some descriptor.place.index
  | .handle e =>
    c.u1? (q + 1 : Nat) = some e.kind.byte.toNat ∧ c.u2? (q + 2 : Nat) = some e.target.place.index
  | .dynamic _ row nt =>
    c.u2? (q + 1 : Nat) = some row.index ∧ c.u2? (q + 3 : Nat) = some nt.place.index

/-- The operands of a constant stand after its tag at `q`. -/
def Entry.OperandsAt : Entry → Prop
  | .utf8 e => ∃ n bytes, c.u2? (q + 1 : Nat) = some n ∧ c.slice? (q + 3 : Nat) n = some bytes ∧
      ModifiedUtf8.decode? bytes = some e.text
  | .loadable e => e.OperandsAt c q
  | .nameAndType e =>
    c.u2? (q + 1 : Nat) = some e.name.place.index ∧ c.u2? (q + 3 : Nat) = some e.type.place.index
  | .member e =>
    c.u2? (q + 1 : Nat) = some e.owner.place.index ∧
      c.u2? (q + 3 : Nat) = some e.nameAndType.place.index
  | .callSite e =>
    c.u2? (q + 1 : Nat) = some e.bootstrap.index ∧
      c.u2? (q + 3 : Nat) = some e.nameAndType.place.index
  | .module e => c.u2? (q + 1 : Nat) = some e.name.place.index
  | .package e => c.u2? (q + 1 : Nat) = some e.name.place.index

/-- A row stands at `q` with the indices of its handle and its arguments. -/
structure BootstrapRow.StandsAt (row : BootstrapRow) : Prop where
  handle : c.u2? q = some row.handle.place.index
  count : c.u2? (q + 2 : Nat) = some row.arguments.length
  arguments : ∀ (k : Nat) (a : Loadable), row.arguments[k]? = some a →
    c.u2? (q + 4 + 2 * k : Nat) = some a.place.index

end Stands

/-- The constants and rows of a pool stand in a class file at their indices. -/
structure PoolBuilder.StandsIn (p : PoolBuilder) (l : Layout) (origin : Origin) : Prop where
  entries : ∀ e, p.Has e → ∃ q, l.ConstantAt e.index e.tag q ∧ e.OperandsAt l.cursor q
  rows : ∃ table, l.IsTable origin table ∧ ∀ (r : Nat) (row : BootstrapRow),
    p.rows[r]? = some row → ∃ q, table[r]? = some q ∧ row.StandsAt l.cursor q

namespace Layout

variable {l : Layout} {origin : Origin}

/-- The index of an entry holds one that denotes the same. -/
def Mirrors (l : Layout) (origin : Origin) (e : Entry) : Prop :=
  ∃ e', l.Holds origin e.index e' ∧ e'.bare = e.bare

/-- An index of what is mirrored is taken for what denotes the same. -/
theorem Mirrors.refers {α β : Type} {want : Entry → Option α} {bare : α → β}
    (blind : Entry.Blind want bare) {e : Entry} {a : α} {q : Nat} (mirrors : l.Mirrors origin e)
    (taken : want e = some a) (index : l.cursor.u2? q = some e.index) :
    ∃ a', l.Refers (l.Holds origin) want q a' ∧ bare a' = bare a := by
  obtain ⟨e', holds, same⟩ := mirrors
  obtain ⟨a', taken', same'⟩ := blind same taken
  exact ⟨a', .intro index holds taken', same'⟩

end Layout

namespace PoolBuilder.StandsIn

open Layout (holds_iff)

variable {p : PoolBuilder} {l : Layout} {origin : Origin} (stands : p.StandsIn l origin)
  (inv : p.Inv) (indexed : p.indexed = true)
include stands

/-- A text that was written is read back. -/
theorem utf8 {u : Utf8Entry} (has : p.Has (.utf8 u)) : l.Mirrors origin (.utf8 u) := by
  obtain ⟨q, constant, n, bytes, length, slice, decoded⟩ := stands.entries _ has
  exact ⟨_, holds_iff.mpr ⟨_, q, constant, .utf8 (.intro constant length slice decoded)⟩, rfl⟩

include inv

/-- A class that was written is read back. -/
theorem «class» {c : ClassEntry} (has : p.Has (.loadable (.class c))) :
    l.Mirrors origin (.loadable (.class c)) := by
  obtain ⟨q, constant, index⟩ := stands.entries _ has
  obtain ⟨name, named, same⟩ :=
    (stands.utf8 (inv.made has)).refers Entry.blind_utf8? rfl index
  refine ⟨_, holds_iff.mpr ⟨_, q, constant, .class named⟩, ?_⟩
  rw [Entry.bare, Loadable.bare, ClassEntry.bare, same]
  rfl

/-- A name and type that was written is read back. -/
theorem nameAndType {nt : NameAndTypeEntry} (has : p.Has (.nameAndType nt)) :
    l.Mirrors origin (.nameAndType nt) := by
  obtain ⟨q, constant, index, index'⟩ := stands.entries _ has
  obtain ⟨known, known'⟩ : p.Has (.utf8 nt.name) ∧ p.Has (.utf8 nt.type) := inv.made has
  obtain ⟨name, named, same⟩ := (stands.utf8 known).refers Entry.blind_utf8? rfl index
  obtain ⟨type, typed, same'⟩ := (stands.utf8 known').refers Entry.blind_utf8? rfl index'
  refine ⟨_, holds_iff.mpr ⟨_, q, constant, .nameAndType named typed⟩, ?_⟩
  rw [Entry.bare, NameAndTypeEntry.bare, same, same']
  rfl

/-- A member that was written is read back. -/
theorem member {m : MemberEntry} (has : p.Has (.member m)) : l.Mirrors origin (.member m) := by
  obtain ⟨q, constant, index, index'⟩ := stands.entries _ has
  obtain ⟨known, known'⟩ :
      p.Has (.loadable (.class m.owner)) ∧ p.Has (.nameAndType m.nameAndType) :=
    inv.made has
  obtain ⟨owner, owned, same⟩ := (stands.class inv known).refers Entry.blind_class? rfl index
  obtain ⟨nt, named, same'⟩ :=
    (stands.nameAndType inv known').refers Entry.blind_nameAndType? rfl index'
  refine ⟨_, holds_iff.mpr ⟨_, q, constant, .member (rfl : m.kind.tag = m.kind.tag) owned named⟩,
    ?_⟩
  rw [Entry.bare, MemberEntry.bare, same, same']
  rfl

/-- A handle that was written is read back. -/
theorem handle {h : HandleEntry} (has : p.Has (.loadable (.handle h))) :
    l.Mirrors origin (.loadable (.handle h)) := by
  obtain ⟨q, constant, byte, index⟩ := stands.entries _ has
  obtain ⟨accepts, known⟩ : h.kind.accepts h.target.tag = true ∧ p.Has (.member h.target) :=
    inv.made has
  obtain ⟨target, targeted, same⟩ := (stands.member inv known).refers Entry.blind_member? rfl index
  have kind : (⟨h.kind.byte.toNat.toUInt8⟩ : HandleKind) = h.kind := by simp
  have tag : target.tag = h.target.tag := by
    have kinds := congrArg MemberEntry.kind same
    exact congrArg MemberKind.tag kinds
  have decodes : l.Decodes (l.Holds origin) ⟨origin, (Entry.loadable (.handle h)).index⟩ q
      .methodHandle (.loadable (.handle ⟨_, ⟨h.kind.byte.toNat.toUInt8⟩, target⟩)) :=
    .handle byte targeted (by rw [kind, tag]; exact accepts)
  refine ⟨_, holds_iff.mpr ⟨_, q, constant, decodes⟩, ?_⟩
  rw [Entry.bare, Loadable.bare, HandleEntry.bare, same, kind]
  rfl

include indexed

-- The linter misses what the last of the three uses through the others.
set_option linter.unusedSectionVars false in
mutual

/-- A loadable constant that was written is read back. A dynamic one has a row, so the induction
goes through rows and their arguments. -/
theorem loadable : ∀ e : Loadable, p.Has (.loadable e) → l.Mirrors origin (.loadable e)
  | .integer place n, has => by
    obtain ⟨q, constant, value⟩ := stands.entries _ has
    exact ⟨_, holds_iff.mpr ⟨_, q, constant, .integer value⟩, rfl⟩
  | .float place bits, has => by
    obtain ⟨q, constant, value⟩ := stands.entries _ has
    exact ⟨_, holds_iff.mpr ⟨_, q, constant, .float value⟩, rfl⟩
  | .long place n, has => by
    obtain ⟨q, constant, value⟩ := stands.entries _ has
    exact ⟨_, holds_iff.mpr ⟨_, q, constant, .long value⟩, rfl⟩
  | .double place bits, has => by
    obtain ⟨q, constant, value⟩ := stands.entries _ has
    exact ⟨_, holds_iff.mpr ⟨_, q, constant, .double value⟩, rfl⟩
  | .class c, has => stands.class inv has
  | .string place utf8, has => by
    obtain ⟨q, constant, index⟩ := stands.entries _ has
    obtain ⟨text, spelled, same⟩ :=
      (stands.utf8 (inv.made has)).refers Entry.blind_utf8? rfl index
    refine ⟨_, holds_iff.mpr ⟨_, q, constant, .string spelled⟩, ?_⟩
    rw [Entry.bare, Loadable.bare, same]
    rfl
  | .methodType place descriptor, has => by
    obtain ⟨q, constant, index⟩ := stands.entries _ has
    obtain ⟨text, described, same⟩ :=
      (stands.utf8 (inv.made has)).refers Entry.blind_utf8? rfl index
    refine ⟨_, holds_iff.mpr ⟨_, q, constant, .methodType described⟩, ?_⟩
    rw [Entry.bare, Loadable.bare, same]
    rfl
  | .handle h, has => stands.handle inv has
  | .dynamic place r nt, has => by
    obtain ⟨q, constant, number, index⟩ := stands.entries _ has
    obtain ⟨known, known'⟩ : p.HasRow r ∧ p.Has (.nameAndType nt) := inv.made has
    obtain ⟨row', rowed, same⟩ := row r known
    obtain ⟨nt', named, same'⟩ :=
      (stands.nameAndType inv known').refers Entry.blind_nameAndType? rfl index
    refine ⟨_, holds_iff.mpr ⟨_, q, constant, .dynamic number rowed named⟩, ?_⟩
    rw [Entry.bare, Loadable.bare, same, same']
    rfl

/-- A row that was written is read back. -/
theorem row : ∀ row : BootstrapRow, p.HasRow row →
    ∃ row', l.RowAt origin (l.Holds origin) row.index row' ∧ row'.bare = row.bare
  | .mk place handle arguments, has => by
    have here := inv.entered indexed has
    obtain ⟨table, isTable, each⟩ := stands.rows
    obtain ⟨q, offset, handled, count, argued⟩ := each _ _ here
    obtain ⟨-, -, made⟩ := inv.rows _ _ here
    obtain ⟨handle', handled', same⟩ :=
      (stands.handle inv made.handle).refers Entry.blind_handle? rfl handled
    obtain ⟨arguments', length, refers, same'⟩ :=
      all arguments made.arguments (q + 4) fun k a inside => argued k a inside
    refine ⟨.mk ⟨origin, place.index⟩ handle' arguments', ⟨rfl, table, q, isTable, offset, ?_⟩, ?_⟩
    · exact ⟨handled', by rw [count, BootstrapRow.arguments, BootstrapRow.arguments, length],
        refers⟩
    · rw [BootstrapRow.bare, same, same', BootstrapRow.bare]
      rfl

/-- Arguments that were written are read back one after another. -/
theorem all : ∀ as : List Loadable, (∀ a ∈ as, p.Has (.loadable a)) → ∀ q : Nat,
    (∀ (k : Nat) (a : Loadable), as[k]? = some a →
      l.cursor.u2? (q + 2 * k : Nat) = some a.place.index) →
    ∃ as' : List Loadable, as'.length = as.length ∧ (∀ (k : Nat) (a : Loadable), as'[k]? = some a →
      l.Refers (l.Holds origin) Entry.loadable? (q + 2 * k) a) ∧
        Loadable.bareAll as' = Loadable.bareAll as
  | [], _, q, _ => ⟨[], rfl, fun k a inside => by simp at inside, rfl⟩
  | a :: rest, has, q, index => by
    obtain ⟨a', refers, same⟩ := (loadable a (has a (List.mem_cons_self ..))).refers
      Entry.blind_loadable? rfl (index 0 a rfl)
    obtain ⟨rest', length, refers', same'⟩ :=
      all rest (fun b member => has b (List.mem_cons_of_mem _ member)) (q + 2) fun k b inside => by
        have next : q + 2 + 2 * k = q + 2 * (k + 1) := by omega
        rw [next]
        exact index (k + 1) b inside
    refine ⟨a' :: rest', by simp [length], fun k b inside => ?_, by
      rw [Loadable.bareAll, same, same', Loadable.bareAll]⟩
    cases k with
    | zero => exact Option.some.inj inside ▸ refers
    | succ k =>
        have next : q + 2 * (k + 1) = q + 2 + 2 * k := by omega
        rw [next]
        exact refers' k b inside

end

/-- The index of a constant of the pool holds one that denotes the same. -/
theorem mirrors {e : Entry} (has : p.Has e) : l.Mirrors origin e := by
  cases e with
  | utf8 u => exact stands.utf8 has
  | loadable e => exact stands.loadable inv indexed e has
  | nameAndType nt => exact stands.nameAndType inv has
  | member m => exact stands.member inv has
  | callSite c =>
      obtain ⟨q, constant, number, index⟩ := stands.entries _ has
      obtain ⟨known, known'⟩ : p.HasRow c.bootstrap ∧ p.Has (.nameAndType c.nameAndType) :=
        inv.made has
      obtain ⟨row', rowed, same⟩ := stands.row inv indexed _ known
      obtain ⟨nt', named, same'⟩ :=
        (stands.nameAndType inv known').refers Entry.blind_nameAndType? rfl index
      refine ⟨_, holds_iff.mpr ⟨_, q, constant, .callSite number rowed named⟩, ?_⟩
      rw [Entry.bare, CallSiteEntry.bare, same, same']
      rfl
  | module m =>
      obtain ⟨q, constant, index⟩ := stands.entries _ has
      obtain ⟨name, named, same⟩ :=
        (stands.utf8 (inv.made has)).refers Entry.blind_utf8? rfl index
      refine ⟨_, holds_iff.mpr ⟨_, q, constant, .module named⟩, ?_⟩
      rw [Entry.bare, ModuleEntry.bare, same]
      rfl
  | package m =>
      obtain ⟨q, constant, index⟩ := stands.entries _ has
      obtain ⟨name, named, same⟩ :=
        (stands.utf8 (inv.made has)).refers Entry.blind_utf8? rfl index
      refine ⟨_, holds_iff.mpr ⟨_, q, constant, .package named⟩, ?_⟩
      rw [Entry.bare, PackageEntry.bare, same]
      rfl

end PoolBuilder.StandsIn

end JvmClass
