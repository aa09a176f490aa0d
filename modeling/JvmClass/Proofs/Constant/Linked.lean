import JvmClass.Constant.PoolBuilder
import JvmClass.Proofs.Bytes.Scan
import JvmClass.Proofs.Constant.Pool
import JvmClass.Proofs.Text.Spelling

/-!
# What entries are made of, and what tells them apart

A constant stands for its entry only if the constants that it refers to stand for what the entry
refers to, and if its own value fits its encoding. Both are said of one entry at a time, so a pool
whose entries are all made of its own entries is closed under references.

An entry is linked to a pool if what it refers to is there and its number fits. Where indices tell
apart what is there, a key and a place say which linked entry they belong to, so a pool that goes
by keys never takes one constant for another.
-/

namespace JvmClass

/-! ## What an entry is made of -/

/-- A text that a constant can hold: it is read back from what it is stored as. -/
structure Text.Storable (text : Text) : Prop where
  decodes : ModifiedUtf8.decode? (ModifiedUtf8.encode text) = some text
  short : (ModifiedUtf8.encode text).length ≤ PoolBuilder.maxTextLength

section Made

variable (has : Entry → Prop) (hasRow : BootstrapRow → Prop)

/-- The handle and the arguments of a row are there. -/
structure BootstrapRow.Made (row : BootstrapRow) : Prop where
  handle : has (.loadable (.handle row.handle))
  count : row.arguments.length ≤ 65535
  arguments : ∀ a ∈ row.arguments, has (.loadable a)

/-- What a loadable constant refers to is there, and its value fits. -/
def Loadable.Made : Loadable → Prop
  | .integer _ n => signed 32 n = n
  | .float _ bits => bits < 4294967296
  | .long _ n => signed 64 n = n
  | .double _ bits => bits < 18446744073709551616
  | .class e => has (.utf8 e.name)
  | .string _ utf8 => has (.utf8 utf8)
  | .methodType _ descriptor => has (.utf8 descriptor)
  | .handle e => e.kind.accepts e.target.tag = true ∧ has (.member e.target)
  | .dynamic _ row nt => hasRow row ∧ has (.nameAndType nt)

/-- What a constant refers to is there, and its value fits. -/
def Entry.Made : Entry → Prop
  | .utf8 e => e.text.Storable
  | .loadable e => e.Made has hasRow
  | .nameAndType e => has (.utf8 e.name) ∧ has (.utf8 e.type)
  | .member e => has (.loadable (.class e.owner)) ∧ has (.nameAndType e.nameAndType)
  | .callSite e => hasRow e.bootstrap ∧ has (.nameAndType e.nameAndType)
  | .module e => has (.utf8 e.name)
  | .package e => has (.utf8 e.name)

end Made

section Mono

variable {has has' : Entry → Prop} {hasRow hasRow' : BootstrapRow → Prop}
  (weaker : ∀ e, has e → has' e) (weakerRow : ∀ row, hasRow row → hasRow' row)
include weaker

/-- The parts of a row that are there stay there when more is. -/
theorem BootstrapRow.Made.mono {row : BootstrapRow} (made : row.Made has) : row.Made has' :=
  ⟨weaker _ made.handle, made.count, fun a member => weaker _ (made.arguments a member)⟩

include weakerRow

/-- The parts of a constant that are there stay there when more is. -/
theorem Entry.Made.mono {e : Entry} (made : e.Made has hasRow) : e.Made has' hasRow' := by
  cases e with
  | utf8 e => exact made
  | loadable e =>
      cases e with
      | integer | float | long | double => exact made
      | «class» | string | methodType => exact weaker _ made
      | handle => exact ⟨made.1, weaker _ made.2⟩
      | dynamic => exact ⟨weakerRow _ made.1, weaker _ made.2⟩
  | nameAndType e => exact ⟨weaker _ made.1, weaker _ made.2⟩
  | member e => exact ⟨weaker _ made.1, weaker _ made.2⟩
  | callSite e => exact ⟨weakerRow _ made.1, weaker _ made.2⟩
  | module e => exact weaker _ made
  | package e => exact weaker _ made

end Mono

/-! Wanting an entry to be of a kind says what entry it is. -/

namespace Entry

/-- An entry is taken for a text exactly if it is this text. -/
theorem utf8?_eq_some_iff {e : Entry} {a : Utf8Entry} : e.utf8? = some a ↔ e = .utf8 a := by
  cases e <;> simp [utf8?]

/-- An entry is taken for a loadable constant exactly if it is this one. -/
theorem loadable?_eq_some_iff {e : Entry} {a : Loadable} :
    e.loadable? = some a ↔ e = .loadable a := by
  cases e <;> simp [loadable?]

/-- An entry is taken for a name and type exactly if it is this one. -/
theorem nameAndType?_eq_some_iff {e : Entry} {a : NameAndTypeEntry} :
    e.nameAndType? = some a ↔ e = .nameAndType a := by
  cases e <;> simp [nameAndType?]

/-- An entry is taken for a member exactly if it is this one. -/
theorem member?_eq_some_iff {e : Entry} {a : MemberEntry} : e.member? = some a ↔ e = .member a := by
  cases e <;> simp [member?]

/-- An entry is taken for a class exactly if it is this one. -/
theorem class?_eq_some_iff {e : Entry} {a : ClassEntry} :
    e.class? = some a ↔ e = .loadable (.class a) := by
  cases e with
  | loadable e => cases e <;> simp [class?]
  | _ => simp [class?]

/-- An entry is taken for a handle exactly if it is this one. -/
theorem handle?_eq_some_iff {e : Entry} {a : HandleEntry} :
    e.handle? = some a ↔ e = .loadable (.handle a) := by
  cases e with
  | loadable e => cases e <;> simp [handle?]
  | _ => simp [handle?]

end Entry

namespace Layout

variable {l : Layout} {origin : Origin}

/-- The bytes of a text are at least as many as it is encoded in. -/
theorem TextAt.storable {i : Nat} {text : Text} (spelled : l.TextAt i text) : text.Storable := by
  obtain ⟨constant, length, slice, decoded⟩ := spelled
  refine ⟨ModifiedUtf8.decode?_encode decoded, ?_⟩
  have bound := Cursor.u2_lt length
  obtain ⟨inside, rfl⟩ := Cursor.slice?_eq_some_iff.mp slice
  have encoded := ModifiedUtf8.length_encode_le decoded
  rw [Cursor.length_segment inside] at encoded
  rw [PoolBuilder.maxTextLength]
  omega

/-- What an index refers to is held by the index at which it stands. -/
theorem Refers.held {α : Type} {want : Entry → Option α} {p : Nat} {a : α} {e : Entry}
    (refers : l.Refers (l.Holds origin) want p a) (only : ∀ {e'}, want e' = some a → e' = e) :
    l.Holds origin e.index e := by
  obtain ⟨index, holds, taken⟩ := refers
  obtain rfl := only taken
  rw [Entry.index, holds.place]
  exact holds

/-- A row is told with its own number. -/
theorem RowAt.index {r : Nat} {row : BootstrapRow} {held : Nat → Entry → Prop}
    (rowed : l.RowAt origin held r row) : row.index = r := by
  rw [BootstrapRow.index, rowed.place]

/-- The handle and the arguments of a row that is told are held. -/
theorem RowAt.made {r : Nat} {row : BootstrapRow}
    (rowed : l.RowAt origin (l.Holds origin) r row) :
    row.Made fun e => l.Holds origin e.index e := by
  obtain ⟨-, table, p, -, -, lies⟩ := rowed
  refine ⟨lies.handle.held Entry.handle?_eq_some_iff.mp, ?_, fun a member => ?_⟩
  · have bound := Cursor.u2_lt lies.count
    omega
  · obtain ⟨k, inside, rfl⟩ := List.getElem_of_mem member
    exact (lies.arguments k _ (List.getElem?_eq_getElem inside)).held
      Entry.loadable?_eq_some_iff.mp

/-- Wrapping a number once more changes nothing. -/
theorem signed_idem (bits : Nat) (n : Int) : signed bits (signed bits n) = signed bits n := by
  rw [signed, signed, Int.bmod_bmod]

/-- What an index holds is made of what other indices hold. -/
theorem Holds.made {i : Nat} {e : Entry} (holds : l.Holds origin i e) :
    e.Made (fun e => l.Holds origin e.index e)
      (fun row => l.RowAt origin (l.Holds origin) row.index row) := by
  obtain ⟨t, p, constant, decodes⟩ := holds_iff.mp holds
  have row {r : Nat} {row : BootstrapRow} (rowed : l.RowAt origin (l.Holds origin) r row) :
      l.RowAt origin (l.Holds origin) row.index row := by rwa [rowed.index]
  cases decodes with
  | utf8 spelled => exact spelled.storable
  | integer value =>
      obtain ⟨n, -, rfl⟩ := Option.map_eq_some_iff.mp value
      exact signed_idem 32 n
  | float bits => exact Cursor.u4_lt bits
  | long value =>
      obtain ⟨n, -, rfl⟩ := Option.map_eq_some_iff.mp value
      exact signed_idem 64 n
  | double bits => exact Cursor.number_lt bits
  | «class» named => exact named.held Entry.utf8?_eq_some_iff.mp
  | string spelled => exact spelled.held Entry.utf8?_eq_some_iff.mp
  | methodType described => exact described.held Entry.utf8?_eq_some_iff.mp
  | module named => exact named.held Entry.utf8?_eq_some_iff.mp
  | package named => exact named.held Entry.utf8?_eq_some_iff.mp
  | nameAndType named typed =>
      exact ⟨named.held Entry.utf8?_eq_some_iff.mp, typed.held Entry.utf8?_eq_some_iff.mp⟩
  | member tag owned named =>
      exact ⟨owned.held Entry.class?_eq_some_iff.mp, named.held Entry.nameAndType?_eq_some_iff.mp⟩
  | handle kind targeted accepts =>
      exact ⟨accepts, targeted.held Entry.member?_eq_some_iff.mp⟩
  | dynamic number rowed named =>
      exact ⟨row rowed, named.held Entry.nameAndType?_eq_some_iff.mp⟩
  | callSite number rowed named =>
      exact ⟨row rowed, named.held Entry.nameAndType?_eq_some_iff.mp⟩

end Layout

/-! ## Linked entries -/

namespace Entry

/-- Which kind of entry a tag belongs to. -/
inductive Family where
  | utf8
  | loadable
  | nameAndType
  | member
  | callSite
  | module
  | package

/-- The kind of an entry. -/
def family : Entry → Family
  | .utf8 _ => .utf8
  | .loadable _ => .loadable
  | .nameAndType _ => .nameAndType
  | .member _ => .member
  | .callSite _ => .callSite
  | .module _ => .module
  | .package _ => .package

end Entry

/-- The kind of the entries with a tag. -/
def Tag.family : Tag → Entry.Family
  | .utf8 => .utf8
  | .nameAndType => .nameAndType
  | .fieldRef | .methodRef | .interfaceMethodRef => .member
  | .invokeDynamic => .callSite
  | .module => .module
  | .package => .package
  | _ => .loadable

namespace Entry

/-- The tag of an entry tells its kind. -/
theorem family_tag (e : Entry) : e.tag.family = e.family := by
  cases e with
  | loadable e => cases e <;> rfl
  | member e =>
      obtain ⟨place, kind, owner, nt⟩ := e
      cases kind <;> rfl
  | _ => rfl

/-- The key of an entry has the entry's tag. -/
theorem tag_key (e : Entry) : e.key.tag = e.tag := by
  cases e with
  | loadable e => cases e <;> rfl
  | _ => rfl

end Entry

/-- Two's complement tells the numbers that fit apart. -/
theorem eq_of_unsigned {bits : Nat} {m n : Int} (fits : signed bits m = m)
    (fits' : signed bits n = n) (same : unsigned bits m = unsigned bits n) : m = n := by
  have positive : (0 : Int) < (Nat.pow 2 bits : Nat) := by exact_mod_cast Nat.two_pow_pos bits
  have first := Int.emod_nonneg m (Int.ne_of_gt positive)
  have second := Int.emod_nonneg n (Int.ne_of_gt positive)
  have residues : m % (Nat.pow 2 bits : Nat) = n % (Nat.pow 2 bits : Nat) := by
    simp only [unsigned] at same
    omega
  rw [← fits, ← fits', signed, signed, ← Int.emod_bmod, residues, Int.emod_bmod]

section Linked

variable (has : Entry → Prop) (hasRow : BootstrapRow → Prop)

/-- The handle and the arguments of a row are there. -/
structure BootstrapRow.Linked (row : BootstrapRow) : Prop where
  handle : has (.loadable (.handle row.handle))
  arguments : ∀ a ∈ row.arguments, has (.loadable a)

/-- What a loadable constant refers to is there, and its number fits. -/
def Loadable.Linked : Loadable → Prop
  | .integer _ n => signed 32 n = n
  | .float _ bits => bits < 4294967296
  | .long _ n => signed 64 n = n
  | .double _ bits => bits < 18446744073709551616
  | .class e => has (.utf8 e.name)
  | .string _ utf8 => has (.utf8 utf8)
  | .methodType _ descriptor => has (.utf8 descriptor)
  | .handle e => has (.member e.target)
  | .dynamic _ row nt => hasRow row ∧ has (.nameAndType nt)

/-- What a constant refers to is there, and its number fits. -/
def Entry.Linked : Entry → Prop
  | .utf8 _ => True
  | .loadable e => e.Linked has hasRow
  | .nameAndType e => has (.utf8 e.name) ∧ has (.utf8 e.type)
  | .member e => has (.loadable (.class e.owner)) ∧ has (.nameAndType e.nameAndType)
  | .callSite e => hasRow e.bootstrap ∧ has (.nameAndType e.nameAndType)
  | .module e => has (.utf8 e.name)
  | .package e => has (.utf8 e.name)

end Linked

/-- What a text or a handle has to meet beside its links. -/
def Entry.Lawful : Entry → Prop
  | .utf8 e => (ModifiedUtf8.encode e.text).length ≤ PoolBuilder.maxTextLength
  | .loadable (.handle e) => e.kind.accepts e.target.tag = true
  | _ => True

section Mono

variable {has has' : Entry → Prop} {hasRow hasRow' : BootstrapRow → Prop}

/-- A row whose parts are there is linked. -/
theorem BootstrapRow.Made.linked {row : BootstrapRow} (made : row.Made has) : row.Linked has :=
  ⟨made.handle, made.arguments⟩

/-- A constant whose parts are there is linked. -/
theorem Entry.Made.linked {e : Entry} (made : e.Made has hasRow) : e.Linked has hasRow := by
  cases e with
  | utf8 e => trivial
  | loadable e =>
      cases e with
      | handle e => exact made.2
      | _ => exact made
  | _ => exact made

/-- A lawful entry that is linked is made of what is there, if its text can be read back. -/
theorem Entry.Linked.made {e : Entry} (linked : e.Linked has hasRow) (lawful : e.Lawful)
    (decodes : ∀ u, e = .utf8 u →
      ModifiedUtf8.decode? (ModifiedUtf8.encode u.text) = some u.text) : e.Made has hasRow := by
  cases e with
  | utf8 e => exact ⟨decodes e rfl, lawful⟩
  | loadable e =>
      cases e with
      | handle e => exact ⟨lawful, linked⟩
      | _ => exact linked
  | _ => exact linked

variable (weaker : ∀ e, has e → has' e) (weakerRow : ∀ row, hasRow row → hasRow' row)
include weaker

/-- A row stays linked when more is there. -/
theorem BootstrapRow.Linked.mono {row : BootstrapRow} (linked : row.Linked has) : row.Linked has' :=
  ⟨weaker _ linked.handle, fun a member => weaker _ (linked.arguments a member)⟩

include weakerRow

/-- A constant stays linked when more is there. -/
theorem Entry.Linked.mono {e : Entry} (linked : e.Linked has hasRow) : e.Linked has' hasRow' := by
  cases e with
  | utf8 e => trivial
  | loadable e =>
      cases e with
      | integer | float | long | double => exact linked
      | «class» | string | methodType | handle => exact weaker _ linked
      | dynamic => exact ⟨weakerRow _ linked.1, weaker _ linked.2⟩
  | nameAndType e => exact ⟨weaker _ linked.1, weaker _ linked.2⟩
  | member e => exact ⟨weaker _ linked.1, weaker _ linked.2⟩
  | callSite e => exact ⟨weakerRow _ linked.1, weaker _ linked.2⟩
  | module e => exact weaker _ linked
  | package e => exact weaker _ linked

end Mono

section Keys

variable {has : Entry → Prop} {hasRow : BootstrapRow → Prop}

/-- Indices tell apart the entries and the rows that are there. -/
structure Entry.Indexed (has : Entry → Prop) (hasRow : BootstrapRow → Prop) : Prop where
  entries : ∀ {e e' : Entry}, has e → has e' → e.index = e'.index → e = e'
  rows : ∀ {a b : BootstrapRow}, hasRow a → hasRow b → a.index = b.index → a = b

namespace Entry.Indexed

variable (told : Entry.Indexed has hasRow)
include told

/-- Texts of the same index are the same. -/
theorem utf8 {a b : Utf8Entry} (first : has (.utf8 a)) (second : has (.utf8 b))
    (same : a.place.index = b.place.index) : a = b :=
  Entry.utf8.inj (told.entries first second same)

/-- Names and types of the same index are the same. -/
theorem nameAndType {a b : NameAndTypeEntry} (first : has (.nameAndType a))
    (second : has (.nameAndType b)) (same : a.place.index = b.place.index) : a = b :=
  Entry.nameAndType.inj (told.entries first second same)

/-- Classes of the same index are the same. -/
theorem class_ {a b : ClassEntry} (first : has (.loadable (.class a)))
    (second : has (.loadable (.class b))) (same : a.place.index = b.place.index) : a = b :=
  Loadable.class.inj (Entry.loadable.inj (told.entries first second same))

/-- Members of the same index are the same. -/
theorem member {a b : MemberEntry} (first : has (.member a)) (second : has (.member b))
    (same : a.place.index = b.place.index) : a = b :=
  Entry.member.inj (told.entries first second same)

/-- The key and the place of a loadable constant say what constant it is. -/
theorem loadable_eq {e e' : Loadable} (linked : e.Linked has hasRow)
    (linked' : e'.Linked has hasRow) (key : e.key = e'.key) (place : e.place = e'.place) :
    e = e' := by
  cases e with
  | integer q m =>
      cases e' with
      | integer q' n =>
          obtain rfl : q = q' := place
          rw [eq_of_unsigned linked linked' (ConstantKey.number.inj key).2]
      | _ => cases key
  | float q m =>
      cases e' with
      | float q' n =>
          obtain rfl : q = q' := place
          rw [(ConstantKey.number.inj key).2]
      | _ => cases key
  | long q m =>
      cases e' with
      | long q' n =>
          obtain rfl : q = q' := place
          rw [eq_of_unsigned linked linked' (ConstantKey.number.inj key).2]
      | _ => cases key
  | double q m =>
      cases e' with
      | double q' n =>
          obtain rfl : q = q' := place
          rw [(ConstantKey.number.inj key).2]
      | _ => cases key
  | «class» a =>
      cases e' with
      | «class» b =>
          obtain ⟨q, name⟩ := a
          obtain ⟨q', name'⟩ := b
          obtain rfl : q = q' := place
          obtain rfl : name = name' := told.utf8 linked linked' (ConstantKey.single.inj key).2
          rfl
      | _ => cases key
  | string q a =>
      cases e' with
      | string q' b =>
          obtain rfl : q = q' := place
          obtain rfl := told.utf8 linked linked' (ConstantKey.single.inj key).2
          rfl
      | _ => cases key
  | methodType q a =>
      cases e' with
      | methodType q' b =>
          obtain rfl : q = q' := place
          obtain rfl := told.utf8 linked linked' (ConstantKey.single.inj key).2
          rfl
      | _ => cases key
  | handle a =>
      cases e' with
      | handle b =>
          obtain ⟨-, kind, target⟩ := ConstantKey.pair.inj key
          obtain ⟨q, ⟨byte⟩, a⟩ := a
          obtain ⟨q', ⟨byte'⟩, b⟩ := b
          obtain rfl : q = q' := place
          obtain rfl : byte = byte' := UInt8.toNat_inj.mp kind
          obtain rfl : a = b := told.member linked linked' target
          rfl
      | _ => cases key
  | dynamic q row nt =>
      cases e' with
      | dynamic q' row' nt' =>
          obtain ⟨-, number, named⟩ := ConstantKey.pair.inj key
          obtain rfl : q = q' := place
          obtain rfl := told.rows linked.1 linked'.1 number
          obtain rfl := told.nameAndType linked.2 linked'.2 named
          rfl
      | _ => cases key

/-- The key of an entry and its place say what entry it is. -/
theorem eq_of_key {e e' : Entry} (linked : e.Linked has hasRow) (linked' : e'.Linked has hasRow)
    (key : e.key = e'.key) (place : e.place = e'.place) : e = e' := by
  have tags : e.tag.family = e'.tag.family := by rw [← e.tag_key, key, e'.tag_key]
  cases e with
  | utf8 a =>
      cases e' with
      | utf8 b =>
          obtain ⟨q, text⟩ := a
          obtain ⟨q', text'⟩ := b
          obtain rfl : q = q' := place
          obtain rfl : text = text' := ConstantKey.text.inj key
          rfl
      | _ => simp [Entry.family_tag, Entry.family] at tags
  | loadable a =>
      cases e' with
      | loadable b => exact congrArg Entry.loadable (told.loadable_eq linked linked' key place)
      | _ => simp [Entry.family_tag, Entry.family] at tags
  | nameAndType a =>
      cases e' with
      | nameAndType b =>
          obtain ⟨-, named, typed⟩ := ConstantKey.pair.inj key
          obtain ⟨q, name, type⟩ := a
          obtain ⟨q', name', type'⟩ := b
          obtain rfl : q = q' := place
          obtain rfl : name = name' := told.utf8 linked.1 linked'.1 named
          obtain rfl : type = type' := told.utf8 linked.2 linked'.2 typed
          rfl
      | _ => simp [Entry.family_tag, Entry.family] at tags
  | member a =>
      cases e' with
      | member b =>
          obtain ⟨kinds, owned, named⟩ := ConstantKey.pair.inj key
          obtain ⟨q, kind, owner, nt⟩ := a
          obtain ⟨q', kind', owner', nt'⟩ := b
          obtain rfl : q = q' := place
          obtain rfl : kind = kind' := by cases kind <;> cases kind' <;> first | rfl | cases kinds
          obtain rfl : owner = owner' := told.class_ linked.1 linked'.1 owned
          obtain rfl : nt = nt' := told.nameAndType linked.2 linked'.2 named
          rfl
      | _ => simp [Entry.family_tag, Entry.family] at tags
  | callSite a =>
      cases e' with
      | callSite b =>
          obtain ⟨-, number, named⟩ := ConstantKey.pair.inj key
          obtain ⟨q, row, nt⟩ := a
          obtain ⟨q', row', nt'⟩ := b
          obtain rfl : q = q' := place
          obtain rfl : row = row' := told.rows linked.1 linked'.1 number
          obtain rfl : nt = nt' := told.nameAndType linked.2 linked'.2 named
          rfl
      | _ => simp [Entry.family_tag, Entry.family] at tags
  | module a =>
      cases e' with
      | module b =>
          obtain ⟨q, name⟩ := a
          obtain ⟨q', name'⟩ := b
          obtain rfl : q = q' := place
          obtain rfl : name = name' := told.utf8 linked linked' (ConstantKey.single.inj key).2
          rfl
      | _ => simp [Entry.family_tag, Entry.family] at tags
  | package a =>
      cases e' with
      | package b =>
          obtain ⟨q, name⟩ := a
          obtain ⟨q', name'⟩ := b
          obtain rfl : q = q' := place
          obtain rfl : name = name' := told.utf8 linked linked' (ConstantKey.single.inj key).2
          rfl
      | _ => simp [Entry.family_tag, Entry.family] at tags

/-- The key of a row says what the row is made of. -/
theorem row_eq_of_key {a b : BootstrapRow} (linked : a.Linked has) (linked' : b.Linked has)
    (key : a.key = b.key) : a.handle = b.handle ∧ a.arguments = b.arguments := by
  obtain ⟨handled, argued⟩ := List.cons.inj key
  refine ⟨Loadable.handle.inj (Entry.loadable.inj
    (told.entries linked.handle linked'.handle handled)), ?_⟩
  have lengths := congrArg List.length argued
  simp only [List.length_map] at lengths
  refine List.ext_getElem lengths fun k inside inside' => ?_
  have same := congrArg (fun is => is[k]?) argued
  simp only [List.getElem?_map, List.getElem?_eq_getElem inside, List.getElem?_eq_getElem inside',
    Option.map_some, Option.some.injEq] at same
  exact Entry.loadable.inj (told.entries (linked.arguments _ (List.getElem_mem inside))
    (linked'.arguments _ (List.getElem_mem inside')) same)

end Entry.Indexed

end Keys

end JvmClass
