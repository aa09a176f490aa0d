import JvmClass.Summary
import JvmClass.Proofs.Build.Rebuild
import JvmClass.Proofs.Bytes.Scan
import JvmClass.Proofs.Cbor
import JvmClass.Proofs.Code.Labels
import JvmClass.Proofs.Code.Switches
import JvmClass.Proofs.Text.Stored

/-!
# Summaries that are read back

A summary is written with the texts of its class as they are, and texts are checked when they are
read. So what was written is read back exactly when every text of the summary is UTF-8. A class can
have others: half of a surrogate pair in a constant stays as it is. All of it is about any library
that does what is documented.
-/

namespace JvmClass

open Cbor (Item)
open Cbor.Item (Canonical)

/-- Whether all texts of the outline of a member are UTF-8. -/
def MemberSummary.isUtf8 (m : MemberSummary) : Bool :=
  m.name.isUtf8 && m.descriptor.isUtf8 && m.attributes.all Text.isUtf8

/-- Whether all texts of a summary are UTF-8. -/
def Summary.isUtf8 (s : Summary) : Bool :=
  s.name.isUtf8 && s.super.isUtf8 && s.interfaces.all Text.isUtf8
    && s.fields.all MemberSummary.isUtf8 && s.methods.all MemberSummary.isUtf8
    && s.attributes.all Text.isUtf8 && s.references.all Text.isUtf8

open Cbor (IsWord maxCount)

/-- The outline of a member, in words of a machine and with lists that a reader takes. -/
structure MemberSummary.Fits (m : MemberSummary) : Prop where
  texts : ∀ t ∈ m.name :: m.descriptor :: m.attributes, t.length < 2 ^ 64
  attributes : m.attributes.length ≤ maxCount
  flags : m.flags < 0x10000
  codeLength : IsWord m.codeLength
  maxStack : IsWord m.maxStack
  maxLocals : IsWord m.maxLocals

/-- A summary in words of a machine and with lists that a reader takes. -/
structure Summary.Fits (s : Summary) : Prop where
  texts : ∀ t ∈ s.name :: s.super :: (s.interfaces ++ s.attributes ++ s.references),
    t.length < 2 ^ 64
  lists : s.interfaces.length ≤ maxCount ∧ s.attributes.length ≤ maxCount ∧
    s.references.length ≤ maxCount ∧ s.fields.length ≤ maxCount ∧ s.methods.length ≤ maxCount
  members : ∀ m ∈ s.fields ++ s.methods, m.Fits
  flags : s.flags < 0x10000
  major : IsWord s.major
  minor : IsWord s.minor
  poolSize : IsWord s.poolSize

namespace Cbor

/-! ## Values -/

/-- Items that are read one by one, each unless it is refused. -/
theorem mapM_guard {α : Type} {item : α → Item} {read : Item → Option α} {p : α → Bool}
    {xs : List α} (each : ∀ x ∈ xs, read (item x) = Option.guard p x) :
    (xs.map item).mapM read = Option.guard (List.all · p) xs := by
  induction xs with
  | nil => rfl
  | cons x xs inductionHypothesis =>
      obtain ⟨first, others⟩ := List.forall_mem_cons.mp each
      rw [List.map_cons, List.mapM_cons, first, inductionHypothesis others]
      cases here : p x <;> cases rest : xs.all p <;> simp [Option.guard, here, rest]

/-- A number in words of a machine is written as a canonical item. -/
theorem Item.canonical_ofInt {n : Int} (word : IsWord n) (room : Nat) :
    Canonical room (.ofInt n) := by
  obtain ⟨low, high⟩ := word
  rw [ofInt]
  split
  · exact .uint (by omega)
  · exact .nint (by omega)

/-- A text is written as a canonical item. -/
theorem Item.canonical_ofText {t : Text} (short : t.length < 2 ^ 64) (room : Nat) :
    Canonical room (.ofText t) := .text short

/-! ## Records -/

/-- A numbered field under the key that `key` makes of its number, if it is there. -/
def present {κ : Type} (key : Nat → κ) (f : Nat × Option Item) : Option (κ × Item) :=
  f.2.map fun x => (key f.1, x)

/-- A record of numbered fields, some of which are left out. -/
def record (fields : List (Nat × Option Item)) : Item := .map (fields.filterMap (present .uint))

variable {library : Cbor.Library} {fields : List (Nat × Option Item)}

/-- A record is a canonical item if its fields are, and if there are not too many of them. -/
theorem canonical_record {room : Nat} (few : fields.length ≤ maxCount)
    (small : ∀ f ∈ fields, f.1 < 0x8000000000000000)
    (each : ∀ f ∈ fields, ∀ x ∈ f.2, Canonical room x) :
    Canonical (room + 1) (record fields) := by
  have part {p : Item × Item} (member : p ∈ fields.filterMap (present .uint)) :
      Canonical room p.1 ∧ Canonical room p.2 := by
    obtain ⟨f, here, there⟩ := List.mem_filterMap.mp member
    obtain ⟨x, held, rfl⟩ := Option.map_eq_some_iff.mp there
    exact ⟨.uint (Nat.lt_trans (small f here) (by decide)), each f here x held⟩
  apply Canonical.map
  · exact Nat.le_trans (List.length_filterMap_le _ _) few
  · exact fun p member => (part member).1
  · exact fun p member => (part member).2

/-- The fields of a record have their numbers as keys. -/
theorem fields?_record (documented : library.Documented)
    (small : ∀ f ∈ fields, f.1 < 0x8000000000000000) :
    library.fields? (record fields) =
      some (fields.filterMap (present fun n => some (n : Int))) := by
  have keyed {κ : Type} (key : Nat → κ) :
      (fields.filterMap (present id)).map (fun f => (key f.1, f.2)) =
        fields.filterMap (present key) := by
    rw [List.map_filterMap]
    congr 1
    funext f
    rw [present, present, Option.map_map]
    rfl
  have held : ∀ f ∈ fields.filterMap (present id), f.1 < 0x8000000000000000 := by
    intro f member
    obtain ⟨g, here, made⟩ := List.mem_filterMap.mp member
    obtain ⟨x, -, rfl⟩ := Option.map_eq_some_iff.mp made
    exact small g here
  rw [record, ← keyed Item.uint, ← keyed fun n => some (n : Int)]
  exact documented.fields _ held

/-- A field of a record is found under its number, unless it was left out. -/
theorem find?_present {n : Nat} {x : Option Item} (distinct : (fields.map (·.1)).Nodup)
    (here : (n, x) ∈ fields) :
    ((fields.filterMap (present fun n => some (n : Int))).find? fun (k, _) => k = some (n : Int)) =
      x.map fun x => (some (n : Int), x) := by
  induction fields with
  | nil => cases here
  | cons f fields inductionHypothesis =>
      rw [List.map_cons, List.nodup_cons] at distinct
      obtain ⟨fresh, distinct⟩ := distinct
      rcases List.mem_cons.mp here with rfl | later
      · cases x with
        | none =>
            rw [Option.map_none, List.find?_eq_none]
            intro p member same
            rw [List.filterMap_cons_none rfl] at member
            obtain ⟨f, there, found⟩ := List.mem_filterMap.mp member
            obtain ⟨x, -, rfl⟩ := Option.map_eq_some_iff.mp found
            have number : (f.1 : Int) = n := by simpa using same
            exact fresh (List.mem_map.mpr ⟨f, there, by omega⟩)
        | some x =>
            have first :
                present (fun n => some (n : Int)) (n, some x) = some (some (n : Int), x) := rfl
            rw [List.filterMap_cons_some first, List.find?_cons_of_pos (by simp)]
            rfl
      · have other : f.1 ≠ n := by
          rintro rfl
          exact fresh (List.mem_map.mpr ⟨_, later, rfl⟩)
        rw [List.filterMap_cons]
        split
        · exact inductionHypothesis distinct later
        · rename_i p found
          obtain ⟨x, -, rfl⟩ := Option.map_eq_some_iff.mp found
          have different : (f.1 : Int) ≠ n := by omega
          rw [List.find?_cons_of_neg (by simpa using different)]
          exact inductionHypothesis distinct later

/-- A field is read by its number if no other field has that number. -/
theorem field?_record {α : Type} {n : Nat} {x : Option Item} (distinct : (fields.map (·.1)).Nodup)
    (i : Nat) (here : fields[i]? = some (n, x)) (read : Item → Option α) (default : α) :
    Item.field? (fields.filterMap (present fun n => some (n : Int))) n read default =
      x.elim (some default) read := by
  rw [Item.field?, find?_present distinct (List.mem_of_getElem? here)]
  cases x <;> rfl

/-- A list that is left out when it is empty. -/
def listed {α : Type} (item : α → Item) (xs : List α) : Option Item :=
  if xs.isEmpty then none else some (.array (xs.map item))

/-- A number that is left out when it is zero. -/
def nonzero (v : Int) : Option Item := if v = 0 then none else some (.ofInt v)

/-- A list is read item by item, also where it was left out. -/
theorem read_listed {α : Type} (documented : library.Documented) {item : α → Item}
    {read : Item → Option α} {p : α → Bool} {xs : List α}
    (each : ∀ x ∈ xs, read (item x) = Option.guard p x) :
    ((listed item xs).elim (some []) fun x => do (← library.elements? x).mapM read) =
      Option.guard (List.all · p) xs := by
  rw [listed]
  cases xs with
  | nil => rfl
  | cons x xs =>
      have elements := documented.elements ((x :: xs).map item)
      simp only [List.isEmpty_cons, Bool.false_eq_true, ↓reduceIte, Option.elim_some, elements]
      exact mapM_guard each

/-- A number is read, also where it was left out. -/
theorem read_nonzero (documented : library.Documented) {v : Int} (word : IsWord v) :
    (nonzero v).elim (some 0) library.int? = some v := by
  rw [nonzero]
  split
  · rename_i zero
    rw [zero, Option.elim_none]
  · rw [Option.elim_some, documented.word v word]

/-- A list is left out or is a canonical item. -/
theorem canonical_listed {α : Type} {item : α → Item} {xs : List α} {room : Nat}
    (few : xs.length ≤ maxCount) (each : ∀ x ∈ xs, Canonical room (item x)) :
    ∀ x ∈ listed item xs, Canonical (room + 1) x := by
  intro x made
  rw [listed, Option.mem_def] at made
  split at made
  · cases made
  · obtain rfl := Option.some.inj made
    apply Canonical.array
    · rwa [List.length_map]
    · intro x member
      obtain ⟨a, here, rfl⟩ := List.mem_map.mp member
      exact each a here

/-- A number is left out or is a canonical item. -/
theorem canonical_nonzero {v : Int} (word : IsWord v) (room : Nat) :
    ∀ x ∈ nonzero v, Canonical room x := by
  intro x made
  rw [nonzero, Option.mem_def] at made
  split at made
  · cases made
  · obtain rfl := Option.some.inj made
    exact Item.canonical_ofInt word room

/-- A text is refused, or what follows goes on with it. -/
theorem guard_bind {α β : Type} (p : α → Bool) (a : α) (f : α → Option β) :
    (Option.guard p a).bind f = if p a then f a else none := by
  cases held : p a <;> simp [Option.guard, held]

end Cbor

namespace Summary

open Cbor (present record listed nonzero)

variable {library : Cbor.Library}

/-! ## Members -/

/-- The fields of the record of a member. -/
def memberFields (m : MemberSummary) : List (Nat × Option Item) :=
  [(1, some (.ofText m.name)), (2, some (.ofText m.descriptor)), (3, some (.uint m.flags)),
    (4, listed Item.ofText m.attributes), (5, nonzero m.codeLength), (6, nonzero m.maxStack),
    (7, nonzero m.maxLocals)]

/-- The fields that are there come one after another. -/
theorem filterMap_present (f : Nat × Option Item) (fields : List (Nat × Option Item)) :
    (f :: fields).filterMap (present Item.uint) =
      (present Item.uint f).toList ++ fields.filterMap (present Item.uint) := by
  rw [List.filterMap_cons]
  cases present Item.uint f <;> rfl

/-- A field that is always there is there. -/
theorem present_always (n : Nat) (x : Item) :
    (present Item.uint (n, some x)).toList = always n x := rfl

/-- A list that may be left out is the field that it is written as. -/
theorem present_listed {α : Type} (n : Nat) (item : α → Item) (xs : List α) :
    (present Item.uint (n, listed item xs)).toList = unlessEmpty n item xs := by
  rw [listed, unlessEmpty]
  split <;> rfl

/-- A number that may be left out is the field that it is written as. -/
theorem present_nonzero (n : Nat) (v : Int) :
    (present Item.uint (n, nonzero v)).toList = unlessZero n v := by
  rw [nonzero, unlessZero]
  split <;> rfl

/-- A member is written as the record of its fields. -/
theorem memberItem_eq (m : MemberSummary) : memberItem m = record (memberFields m) := by
  simp only [memberItem, record, memberFields, filterMap_present, present_always, present_listed,
    present_nonzero, List.filterMap_nil, List.append_nil, List.append_assoc]

/-- The fields of a member have small numbers. -/
theorem memberFields_small (m : MemberSummary) :
    ∀ f ∈ memberFields m, f.1 < 0x8000000000000000 := by
  simp [memberFields]

/-- A member is read from its record when its texts are UTF-8. -/
theorem member?_memberItem (documented : library.Documented) {m : MemberSummary}
    (fits : m.Fits) : member? library (memberItem m) = Option.guard MemberSummary.isUtf8 m := by
  have distinct : ((memberFields m).map (·.1)).Nodup := by
    change List.Nodup [1, 2, 3, 4, 5, 6, 7]
    decide
  have fields : library.fields? (memberItem m) =
      some ((memberFields m).filterMap (present fun n => some (n : Int))) := by
    rw [memberItem_eq]
    exact Cbor.fields?_record documented (memberFields_small m)
  have name := (Cbor.field?_record distinct 0 rfl library.text? []).trans (documented.text m.name)
  have descriptor :=
    (Cbor.field?_record distinct 1 rfl library.text? []).trans (documented.text m.descriptor)
  have flags := (Cbor.field?_record distinct 2 rfl library.u16? 0).trans
    (documented.half _ fits.flags)
  have attributes := (Cbor.field?_record distinct 3 rfl (texts? library) []).trans
    (Cbor.read_listed documented fun t _ => documented.text t)
  have codeLength :=
    (Cbor.field?_record distinct 4 rfl library.int? 0).trans
      (Cbor.read_nonzero documented fits.codeLength)
  have maxStack :=
    (Cbor.field?_record distinct 5 rfl library.int? 0).trans
      (Cbor.read_nonzero documented fits.maxStack)
  have maxLocals :=
    (Cbor.field?_record distinct 6 rfl library.int? 0).trans
      (Cbor.read_nonzero documented fits.maxLocals)
  push_cast at name descriptor flags attributes codeLength maxStack maxLocals
  simp only [member?, fields, name, descriptor, flags, attributes, codeLength, maxStack, maxLocals,
    Option.bind_eq_bind, Option.bind_some, Cbor.guard_bind]
  simp only [Option.guard, MemberSummary.isUtf8, Bool.and_eq_true, ite_and]
  rfl

/-- A member is written as a canonical item, if it fits. -/
theorem canonical_memberItem {m : MemberSummary} (fits : m.Fits) (room : Nat) :
    Canonical (room + 2) (memberItem m) := by
  have text {t : Text} (member : t ∈ m.name :: m.descriptor :: m.attributes) (room : Nat) :
      Canonical room (.ofText t) := Item.canonical_ofText (fits.texts t member) room
  have flags : m.flags < 2 ^ 64 := Nat.lt_trans fits.flags (by decide)
  have attributes : ∀ x ∈ listed Item.ofText m.attributes, Canonical (room + 1) x :=
    Cbor.canonical_listed fits.attributes fun t member => text (by simp [member]) room
  have few : (memberFields m).length ≤ maxCount := by
    change 7 ≤ maxCount
    decide
  rw [memberItem_eq]
  apply Cbor.canonical_record few (memberFields_small m)
  simp only [memberFields, List.forall_mem_cons, List.not_mem_nil, false_implies, implies_true,
    and_true, Option.mem_def, Option.some.injEq, forall_eq']
  exact ⟨text (by simp) _, text (by simp) _, .uint flags, attributes,
    Cbor.canonical_nonzero fits.codeLength _, Cbor.canonical_nonzero fits.maxStack _,
    Cbor.canonical_nonzero fits.maxLocals _⟩

/-! ## Whole summaries -/

/-- The fields of the record of a summary. -/
def itemFields (s : Summary) : List (Nat × Option Item) :=
  [(1, some (.ofText s.name)), (2, if s.super.isEmpty then none else some (.ofText s.super)),
    (3, listed Item.ofText s.interfaces), (4, some (.ofInt s.major)), (5, nonzero s.minor),
    (6, some (.uint s.flags)), (7, listed memberItem s.fields), (8, listed memberItem s.methods),
    (9, listed Item.ofText s.attributes), (10, some (.ofInt s.poolSize)),
    (11, listed Item.ofText s.references)]

/-- A summary is written as the record of its fields. -/
theorem item_eq (s : Summary) : s.item = record s.itemFields := by
  have super : (present Item.uint
      (2, if s.super.isEmpty then none else some (.ofText s.super))).toList =
        if s.super.isEmpty then [] else always 2 (.ofText s.super) := by
    split <;> rfl
  simp only [item, record, itemFields, filterMap_present, present_always, present_listed,
    present_nonzero, super, List.filterMap_nil, List.append_nil, List.append_assoc]

/-- The fields of a summary have small numbers. -/
theorem itemFields_small (s : Summary) : ∀ f ∈ s.itemFields, f.1 < 0x8000000000000000 := by
  simp [itemFields]

variable {s : Summary}

/-- A summary is written as a canonical item, if it fits. -/
theorem canonical_item (fits : s.Fits) (room : Nat) : Canonical (room + 4) s.item := by
  have text {t : Text} (member : t ∈ s.name :: s.super ::
      (s.interfaces ++ s.attributes ++ s.references)) (room : Nat) : Canonical room (.ofText t) :=
    Item.canonical_ofText (fits.texts t member) room
  obtain ⟨interfaces, attributes, references, fields, methods⟩ := fits.lists
  have texts {ts : List Text} (few : ts.length ≤ maxCount) (some_ : ∀ t ∈ ts, t ∈ s.name ::
      s.super :: (s.interfaces ++ s.attributes ++ s.references)) :
      ∀ x ∈ listed Item.ofText ts, Canonical (room + 3) x :=
    Cbor.canonical_listed few fun t member => text (some_ t member) _
  have members {ms : List MemberSummary} (few : ms.length ≤ maxCount)
      (some_ : ∀ m ∈ ms, m ∈ s.fields ++ s.methods) :
      ∀ x ∈ listed memberItem ms, Canonical (room + 3) x :=
    Cbor.canonical_listed few fun m member =>
      canonical_memberItem (fits.members m (some_ m member)) _
  have super : ∀ x, (if s.super.isEmpty then none else some (Item.ofText s.super)) = some x →
      Canonical (room + 3) x := by
    intro x made
    split at made
    · cases made
    · obtain rfl := Option.some.inj made
      exact text (by simp) _
  have flags : s.flags < 2 ^ 64 := Nat.lt_trans fits.flags (by decide)
  have few : s.itemFields.length ≤ maxCount := by
    change 11 ≤ maxCount
    decide
  rw [item_eq]
  apply Cbor.canonical_record few s.itemFields_small
  simp only [itemFields, List.forall_mem_cons, List.not_mem_nil, false_implies, implies_true,
    and_true, Option.mem_def, Option.some.injEq, forall_eq']
  exact ⟨text (by simp) _, super, texts interfaces (by simp +contextual),
    Item.canonical_ofInt fits.major _, Cbor.canonical_nonzero fits.minor _, .uint flags,
    members fields (by simp +contextual), members methods (by simp +contextual),
    texts attributes (by simp +contextual), Item.canonical_ofInt fits.poolSize _,
    texts references (by simp +contextual)⟩

/-- A summary is read from its record when its texts are UTF-8. -/
theorem ofItem?_item (documented : library.Documented) (fits : s.Fits) :
    ofItem? library s.item = Option.guard Summary.isUtf8 s := by
  have distinct : (s.itemFields.map (·.1)).Nodup := by
    change List.Nodup [1, 2, 3, 4, 5, 6, 7, 8, 9, 10, 11]
    decide
  have fields : library.fields? s.item =
      some (s.itemFields.filterMap (present fun n => some (n : Int))) := by
    rw [item_eq]
    exact Cbor.fields?_record documented s.itemFields_small
  have member (m : MemberSummary) (here : m ∈ s.fields ++ s.methods) :
      member? library (memberItem m) = Option.guard MemberSummary.isUtf8 m :=
    member?_memberItem documented (fits.members m here)
  have superRead : (if s.super.isEmpty then none else some (Item.ofText s.super)).elim (some [])
      library.text? = Option.guard Text.isUtf8 s.super := by
    split
    · rename_i empty
      rw [List.isEmpty_iff.mp empty]
      simp [Option.guard, Text.isUtf8, Text.pieces, Text.piecesOnto]
    · exact documented.text _
  have texts {ts : List Text} (i n : Nat)
      (here : s.itemFields[i]? = some (n, listed Item.ofText ts)) :=
    (Cbor.field?_record distinct i here (texts? library) []).trans
      (Cbor.read_listed documented fun t _ => documented.text t)
  have name := (Cbor.field?_record distinct 0 rfl library.text? []).trans (documented.text s.name)
  have super := (Cbor.field?_record distinct 1 rfl library.text? []).trans superRead
  have interfaces := texts 2 3 rfl
  have major := (Cbor.field?_record distinct 3 rfl library.int? 0).trans
    (documented.word _ fits.major)
  have minor := (Cbor.field?_record distinct 4 rfl library.int? 0).trans
    (Cbor.read_nonzero documented fits.minor)
  have flags := (Cbor.field?_record distinct 5 rfl library.u16? 0).trans
    (documented.half _ fits.flags)
  have fieldMembers := (Cbor.field?_record distinct 6 rfl (members? library) []).trans
    (Cbor.read_listed documented fun m here => member m (List.mem_append_left _ here))
  have methodMembers := (Cbor.field?_record distinct 7 rfl (members? library) []).trans
    (Cbor.read_listed documented fun m here => member m (List.mem_append_right _ here))
  have attributes := texts 8 9 rfl
  have poolSize :=
    (Cbor.field?_record distinct 9 rfl library.int? 0).trans (documented.word _ fits.poolSize)
  have references := texts 10 11 rfl
  push_cast at name super interfaces major minor flags fieldMembers methodMembers
  push_cast at attributes poolSize references
  generalize s.itemFields.filterMap (present fun n => some (n : Int)) = held at *
  simp only [ofItem?, fields, name, super, interfaces, major, minor, flags, fieldMembers,
    methodMembers, attributes, poolSize, references, Option.bind_eq_bind, Option.bind_some,
    Cbor.guard_bind]
  simp only [Option.guard, Summary.isUtf8, Bool.and_eq_true, ite_and]
  rfl

/-- What a summary is written as is read as the summary, unless one of its texts is not UTF-8. -/
theorem decode?_encode (documented : library.Documented) (fits : s.Fits) :
    decodeWith? library (encodeWith library s) = Option.guard Summary.isUtf8 s := by
  have parsed := documented.reads s.item (canonical_item fits 28)
  rw [decodeWith?, encodeWith, parsed]
  exact ofItem?_item documented fits

end Summary

/-! ## Summaries of class files -/

namespace ModifiedUtf8

open Text

/-- A unit of a text takes at most four bytes, and is stored as at least one. -/
theorem encodeUnit_bounds (a : UInt8) (rest : Text) :
    (encodeUnit a rest).2 ≤ 3 ∧ 0 < (encodeUnit a rest).1.length := by
  have piece : (firstPiece a rest).2 ≤ 3 := by
    simp only [firstPiece]
    grind
  have code (n : Nat) : 0 < (encodeCode n).length := by
    simp only [encodeCode]
    grind
  unfold encodeUnit
  split
  · rename_i n taken same
    rw [same] at piece
    exact ⟨piece, code n⟩
  · split
    · split
      · exact ⟨Nat.le_succ 2, Nat.zero_lt_succ _⟩
      · exact ⟨Nat.zero_le 3, code 0xFFFD⟩
    · exact ⟨Nat.zero_le 3, code 0xFFFD⟩

/-- A text is at most four times as long as what it is stored as. -/
theorem length_le_encode (text : Text) : text.length ≤ 4 * (encode text).length := by
  induction length : text.length using Nat.strongRecOn generalizing text with
  | ind n inductionHypothesis =>
      subst length
      cases text with
      | nil => exact Nat.zero_le _
      | cons a rest =>
          rcases unit : encodeUnit a rest with ⟨bytes, taken⟩
          obtain ⟨few, stored⟩ : taken ≤ 3 ∧ 0 < bytes.length := by
            simpa only [unit] using encodeUnit_bounds a rest
          have shorter : (rest.drop taken).length < (a :: rest).length := by
            rw [List.length_drop, List.length_cons]
            omega
          have others := inductionHypothesis _ shorter (rest.drop taken) rfl
          rw [List.length_drop] at others
          rw [encode_cons unit, List.length_append, List.length_cons]
          omega

end ModifiedUtf8

/-- A text that can be stored is shorter than any list may be. -/
theorem Text.Storable.length_lt {t : Text} (storable : t.Storable) : t.length < 2 ^ 64 := by
  have bound := ModifiedUtf8.length_le_encode t
  have short := storable.short
  rw [PoolBuilder.maxTextLength] at short
  omega

/-- The numbers of a body, which are read from two bytes or checked against them. -/
def AttributeBody.Counted (b : AttributeBody) : Prop :=
  ∀ c, b = .code c → c.maxStack < 65536 ∧ c.maxLocals < 65536 ∧ c.codeLength < 65536

/-- An attribute that is no body of code has no numbers to be counted. -/
theorem AttributeBody.Counted.of_plain {b : AttributeBody} (plain : b.isCode = false) :
    b.Counted := by
  rintro c rfl
  cases plain

namespace Attribute

open Scan (Returns)

/-- The numbers of a body that is read fit the bytes that they are read from. -/
theorem returns_readCode (m : InputMember) (env : Envelope) :
    Returns (readCode m env) AttributeBody.Counted := by
  refine Scan.returns_u2.after fun maxStack stack => Scan.returns_u2.after fun maxLocals locals =>
    .bind fun at_ => .bind fun codeLength => .check fun sized => ?_
  simp only [Bool.or_eq_true, decide_eq_true_eq, not_or, Nat.not_lt] at sized
  refine .bind fun start => .bind fun _ => .bind fun exceptions => .bind fun count => .bind fun _ =>
    .bind fun attributes => .bind fun _ => .pure ?_
  rintro c ⟨rfl⟩
  exact ⟨stack, locals, by dsimp only; omega⟩

variable {ctx : Context} {room : Nat} {env : Envelope}

/-- Only the layout of bodies gives bodies. -/
theorem counted_layouts :
    ∀ row ∈ layouts ctx room env, Returns row.2.2 AttributeBody.Counted := by
  have one {α : Type} {x : Scan α} {f : α → AttributeBody} (plain : ∀ a, (f a).isCode = false) :
      Returns (x >>= fun a => pure (f a)) AttributeBody.Counted :=
    .bind fun a => .pure (.of_plain (plain a))
  simp only [layouts, plainLayouts, annotationLayouts, List.cons_append, List.nil_append,
    List.forall_mem_cons, List.not_mem_nil, false_implies, implies_true, and_true]
  refine ⟨one fun _ => rfl, .bind fun _ => one fun _ => rfl, one fun _ => rfl,
    .bind fun _ => one fun _ => rfl, one fun _ => rfl, one fun _ => rfl, one fun _ => rfl, ?module,
    one fun _ => rfl, .pure (.of_plain rfl), .pure (.of_plain rfl),
    .bind fun _ => .bind fun _ => .guard (.pure (.of_plain rfl)), one fun _ => rfl,
    .bind fun _ => one fun _ => rfl, one fun _ => rfl, ?code, ?frames, one fun _ => rfl,
    .bind fun _ => one fun _ => rfl, one fun _ => rfl, one fun _ => rfl, .bind fun _ => one fun _ =>
    rfl, one fun _ => rfl⟩
  case module =>
    exact .bind fun _ => .bind fun _ => .bind fun _ => .bind fun _ => .bind fun _ =>
      .bind fun _ => .bind fun _ => .bind fun _ => .pure (.of_plain rfl)
  case code =>
    split
    · exact returns_readCode _ _
    · exact .fail
  case frames =>
    split
    · exact .bind fun _ => .bind fun _ => .bind fun _ => .pure (.of_plain rfl)
    · exact .fail

/-- Every layout gives numbers that fit. -/
theorem counted_layout? {read : Scan AttributeBody} (found : layout? ctx room env = some read) :
    Returns read AttributeBody.Counted := by
  rw [layout?] at found
  split at found
  · rename_i row
    split at found
    · obtain rfl := Option.some.inj found
      exact counted_layouts _ (List.mem_of_find?_eq_some row)
    · cases found
  · cases found

/-- An attribute that is decoded has numbers that fit. -/
theorem counted_of_decode {a : Attribute} (decoded : decode ctx room env = .ok a) :
    a.body.Counted := by
  refine (of_decodeWith (fun read given => ?_) (fun data => nofun) decoded).2
  split at given
  · split at given
    · obtain rfl := Option.some.inj given
      exact .bind fun components => .pure nofun
    · cases given
  · exact counted_layout? given

/-- What the table of attributes gives for the outline of what it belongs to. -/
structure Outlined (as : List Attribute) : Prop where
  few : as.length < 65536
  names : ∀ a ∈ as, a.name.length < 2 ^ 64
  bodies : ∀ a ∈ as, a.body.Counted

/-- A table that is decoded gives what the outline of its holder needs. -/
theorem outlined_of_table (tells : ctx.input.pool.Tells ctx.input.layout) {start stop : Nat}
    {as : List Attribute} (given : table ctx start stop = .ok as) : Outlined as := by
  have row : Returns (readTableRow ctx (decode ctx maxNesting)) fun out =>
      ∀ a ∈ out, a.name.length < 2 ^ 64 ∧ a.body.Counted := by
    refine .bind fun offset => .bind fun i =>
      (Returns.ofExcept fun name named => tells.text named).after fun name named =>
        .bind fun length => .bind fun left => .check fun _ => .bind fun start => .bind fun _ =>
          .ite (fun _ => .pure nofun) fun _ =>
            (Returns.ofExcept fun a decoded => decoded).after fun a decoded =>
              .ite (fun _ => .pure nofun) fun _ => .pure ?_
    rintro b ⟨rfl⟩
    rw [(decodedFrom_of_decode decoded).name]
    exact ⟨named.2.1.storable.length_lt, counted_of_decode decoded⟩
  have whole : Returns (readTable ctx (decode ctx maxNesting)) Outlined := by
    refine row.counted.after fun outs ⟨few, each⟩ => .pure ?_
    have member {a : Attribute} (here : a ∈ outs.filterMap id) :
        a.name.length < 2 ^ 64 ∧ a.body.Counted := by
      obtain ⟨out, held, same⟩ := List.mem_filterMap.mp here
      exact each out held a same
    exact ⟨Nat.lt_of_le_of_lt (List.length_filterMap_le _ _) few, fun a here => (member here).1,
      fun a here => (member here).2⟩
  rw [table] at given
  split at given
  · cases given
  · rename_i read
    obtain rfl := Except.ok.inj given
    simp only [Scan.onWindow] at read
    split at read
    · cases read
    · exact whole _ _ _ read

end Attribute

/-- The name of a class that an index holds can be stored. -/
theorem Layout.Holds.className_storable {l : Layout} {origin : Origin} {i : Nat} {e : ClassEntry}
    (holds : l.Holds origin i (.loadable (.class e))) : e.internalName.Storable := by
  have made : l.Holds origin e.name.place.index (.utf8 e.name) := holds.made
  exact (Layout.Holds.text_iff.mp made).2.storable

namespace ClassFile

variable {c c' : ClassFile} {bytes : Array UInt8} {options : Options} {number : Nat}

/-- What a member of a class in any state has for its outline. -/
structure Outlinable (c : ClassFile) (m : InputMember) : Prop where
  input : m.input = c.input
  name : m.name.text.Storable
  descriptor : m.descriptor.text.Storable

/-- A member that was read from a file has what its outline needs. -/
theorem ParsedFrom.outlinable (read : c.ParsedFrom bytes options number) {m : InputMember}
    (member : m ∈ c.fields ++ c.methods) : c.Outlinable m := by
  obtain ⟨span, from_⟩ : ∃ span, m.ReadFrom c.input c.this.internalName span := by
    rcases List.mem_append.mp member with member | member
    · obtain ⟨span, -, from_⟩ := exists_left_of_forall₂ read.headed.fields member
      exact ⟨span, from_⟩
    · obtain ⟨span, -, from_⟩ := exists_left_of_forall₂ read.headed.methods member
      exact ⟨span, from_⟩
  obtain ⟨_, -, named⟩ := from_.name
  obtain ⟨_, -, described⟩ := from_.descriptor
  exact ⟨from_.input, (read.tells.text named).2.1.storable,
    (read.tells.text described).2.1.storable⟩

/-- A member of a class in any state has what its outline needs. -/
theorem StateOf.outlinable (read : c.ParsedFrom bytes options number) (state : c.StateOf c')
    {m : InputMember} (member : m ∈ c'.fields ++ c'.methods) : c'.Outlinable m := by
  cases state with
  | parsed => exact read.outlinable member
  | settled search =>
      have member : m ∈ (c.fields ++ c.methods).map (·.withInput (c.input.settle search)) := by
        rwa [List.map_append]
      obtain ⟨m', here, rfl⟩ := List.mem_map.mp member
      obtain ⟨-, name, descriptor⟩ := read.outlinable here
      exact ⟨rfl, name, descriptor⟩

/-- Counts and names of the header of a class in any state. -/
structure Counted (c : ClassFile) : Prop where
  names : ∀ e ∈ c.this :: (c.super.toList ++ c.interfaces), e.internalName.Storable
  interfaces : c.interfaces.length < 65536
  fields : c.fields.length < 65536
  methods : c.methods.length < 65536
  major : c.major < 65536
  minor : c.minor < 65536

/-- The header of a class that was read from a file has counts and names that fit. -/
theorem ParsedFrom.counted (read : c.ParsedFrom bytes options number) : c.Counted := by
  have named {offset : Int} {i : Nat} {e : ClassEntry}
      (given : c.pool.refer Entry.class? offset i = .ok e) : e.internalName.Storable :=
    (read.tells.class given).1.className_storable
  obtain ⟨_, fields, -, methods, -⟩ := read.scanned.members
  refine ⟨?_, ?_, ?_, ?_, Cursor.u2_lt read.scanned.major, Cursor.u2_lt read.scanned.minor⟩
  · intro e member
    rcases List.mem_cons.mp member with rfl | member
    · exact named read.headed.this
    · rcases List.mem_append.mp member with extended | implemented
      · rcases read.headed.super with ⟨-, none⟩ | ⟨s, -, same, given⟩
        · simp [none] at extended
        · obtain rfl : e = s := by simpa [same] using extended
          exact named given
      · obtain ⟨i, -, offset, given⟩ := exists_left_of_forall₂ read.headed.interfaces implemented
        exact named given
  · exact read.headed.interfaces.length_eq ▸ Cursor.u2_lt read.scanned.interfaceCount
  · exact read.headed.fields.length_eq ▸ Cursor.u2_lt fields
  · exact read.headed.methods.length_eq ▸ Cursor.u2_lt methods

/-- The header of a class in any state has counts and names that fit. -/
theorem StateOf.counted (read : c.ParsedFrom bytes options number) (state : c.StateOf c') :
    c'.Counted := by
  have counted := read.counted
  cases state with
  | parsed => exact counted
  | settled search =>
      have fields := counted.fields
      have methods := counted.methods
      rw [← List.length_map (·.withInput (c.input.settle search))] at fields methods
      exact { counted with fields, methods }

end ClassFile

namespace Summary

open Attribute (Outlined)

/-- There are no more distinct texts than texts. -/
theorem length_distinct_le (ts : List Text) : (distinct ts).length ≤ ts.length := by
  have after (last : Text) (ts : List Text) :
      (distinct.distinctAfter last ts).length ≤ ts.length := by
    fun_induction distinct.distinctAfter last ts with
    | case1 => exact Nat.le_refl _
    | case2 t rest inductionHypothesis => exact Nat.le_succ_of_le inductionHypothesis
    | case3 t last rest other inductionHypothesis => exact Nat.succ_le_succ inductionHypothesis
  cases ts with
  | nil => exact Nat.le_refl _
  | cons t rest => exact Nat.succ_le_succ (after t rest)

/-- A distinct text is one of the texts. -/
theorem mem_of_mem_distinct {t : Text} {ts : List Text} (member : t ∈ distinct ts) : t ∈ ts := by
  have after (last : Text) (ts : List Text) (member : t ∈ distinct.distinctAfter last ts) :
      t ∈ ts := by
    fun_induction distinct.distinctAfter last ts with
    | case1 => exact member
    | case2 t' rest inductionHypothesis => exact .tail _ (inductionHypothesis member)
    | case3 t' last rest other inductionHypothesis =>
        rcases List.mem_cons.mp member with rfl | member
        · exact .head _
        · exact .tail _ (inductionHypothesis member)
  cases ts with
  | nil => exact member
  | cons t' rest =>
      rcases List.mem_cons.mp member with rfl | member
      · exact .head _
      · exact .tail _ (after t' rest member)

/-- The classes that a pool names have names that can be stored. -/
theorem storable_of_mem_referencesOf {p : Pool} {l : Layout} (tells : p.Tells l) {t : Text}
    (member : t ∈ referencesOf p) : t.Storable := by
  have member := List.mem_mergeSort.mp (mem_of_mem_distinct member)
  obtain ⟨outcome, listed, named⟩ := List.mem_filterMap.mp member
  obtain ⟨i, here⟩ := List.mem_iff_getElem?.mp listed
  cases outcome with
  | error e => cases named
  | ok e =>
      obtain ⟨entry, isClass, rfl⟩ := Option.map_eq_some_iff.mp named
      obtain rfl := Entry.class?_eq_some_iff.mp isClass
      exact (tells.entries i _ (Array.getElem?_toList.symm.trans here)).className_storable

/-- There are no more references than constants. -/
theorem length_referencesOf_le (p : Pool) : (referencesOf p).length ≤ p.entries.size := by
  refine (length_distinct_le _).trans ?_
  rw [Text.sort, List.length_mergeSort, ← Array.length_toList]
  exact List.length_filterMap_le _ _

/-- A number of two bytes is a word of a machine. -/
theorem isWord_of_lt {n : Nat} (small : n < 65536) : IsWord (n : Int) := by
  constructor <;> omega

/-- What can be counted in two bytes is not too much for a list. -/
theorem maxCount_of_lt {n : Nat} (small : n < 65536) : n ≤ maxCount := by
  rw [maxCount]
  omega

variable {c c' : ClassFile} {bytes : Array UInt8} {options : Options} {number : Nat}

/-- The outline of a member fits when its names are stored and its table was read. -/
theorem fits_member {m : InputMember} (outlinable : c.Outlinable m) {as : List Attribute}
    (outlined : Outlined as) {codeLength maxStack maxLocals : Int} (length : IsWord codeLength)
    (stack : IsWord maxStack) (locals : IsWord maxLocals) :
    MemberSummary.Fits {
      name := m.name.text, descriptor := m.descriptor.text, flags := m.flags.bits.toNat
      attributes := as.map (·.name), codeLength, maxStack, maxLocals } where
  texts t member := by
    rcases List.mem_cons.mp member with rfl | member
    · exact outlinable.name.length_lt
    · rcases List.mem_cons.mp member with rfl | member
      · exact outlinable.descriptor.length_lt
      · obtain ⟨a, here, rfl⟩ := List.mem_map.mp member
        exact outlined.names a here
  attributes := by
    rw [List.length_map]
    exact maxCount_of_lt outlined.few
  flags := m.flags.bits.toNat_lt
  codeLength := length
  maxStack := stack
  maxLocals := locals

/-- The outline of a field fits. -/
theorem fits_ofField {m : InputMember} (outlinable : c.Outlinable m)
    (tells : c.input.pool.Tells c.input.layout) {s : MemberSummary} (given : ofField m = .ok s) :
    s.Fits := by
  rw [← outlinable.input] at tells
  simp only [ofField, bind_eq_ok_iff, pure_eq_ok_iff] at given
  obtain ⟨as, read, rfl⟩ := given
  exact fits_member outlinable (Attribute.outlined_of_table tells read) (isWord_of_lt (by decide))
    (isWord_of_lt (by decide)) (isWord_of_lt (by decide))

/-- The outline of a method fits, with the numbers of its body. -/
theorem fits_ofMethod {m : InputMember} (outlinable : c.Outlinable m)
    (tells : c.input.pool.Tells c.input.layout) {s : MemberSummary} (given : ofMethod m = .ok s) :
    s.Fits := by
  rw [← outlinable.input] at tells
  simp only [ofMethod, bind_eq_ok_iff, pure_eq_ok_iff] at given
  obtain ⟨as, read, rfl⟩ := given
  have outlined := Attribute.outlined_of_table tells read
  have counted : ∀ code ∈ InputMember.firstCode? as,
      code.maxStack < 65536 ∧ code.maxLocals < 65536 ∧ code.codeLength < 65536 := by
    intro code found
    obtain ⟨a, member, same⟩ := List.exists_of_findSome?_eq_some found
    split at same
    · rename_i body
      obtain rfl := Option.some.inj same
      exact outlined.bodies a member _ body
    · cases same
  cases found : InputMember.firstCode? as with
  | none =>
      exact fits_member outlinable outlined (isWord_of_lt (by decide)) (isWord_of_lt (by decide))
        (isWord_of_lt (by decide))
  | some code =>
      obtain ⟨stack, locals, length⟩ := counted code found
      exact fits_member outlinable outlined (isWord_of_lt length) (isWord_of_lt stack)
        (isWord_of_lt locals)

/-- What is made of each member of a list. -/
theorem each_of_mapM {α β : Type} {f : α → Except Error β} {as : List α} {bs : List β}
    (given : as.mapM f = .ok bs) : bs.length = as.length ∧ ∀ b ∈ bs, ∃ a ∈ as, f a = .ok b := by
  have all := mapM_eq_ok_iff.mp given
  refine ⟨all.length_eq.symm, fun b member => ?_⟩
  obtain ⟨a, here, made⟩ := exists_left_of_forall₂ all member
  exact ⟨a, here, made⟩

/-- The summary of a class that was read from a file fits. -/
theorem fits_ofClassFile (read : c.ParsedFrom bytes options number) (state : c.StateOf c')
    {s : Summary} (given : ofClassFile c' = .ok s) : s.Fits := by
  have exact_ := state.exact read
  have counted := state.counted read
  simp only [ofClassFile, bind_eq_ok_iff, pure_eq_ok_iff] at given
  obtain ⟨as, table, fields, fieldsRead, methods, methodsRead, rfl⟩ := given
  have outlined := Attribute.outlined_of_table exact_.tells table
  obtain ⟨fieldCount, eachField⟩ := each_of_mapM fieldsRead
  obtain ⟨methodCount, eachMethod⟩ := each_of_mapM methodsRead
  have size : c'.pool.size < 65536 :=
    Nat.lt_of_le_of_lt (Nat.le_of_eq exact_.tells.size) exact_.scanned.size_lt
  have references : (referencesOf c'.pool).length < 65536 :=
    Nat.lt_of_le_of_lt (length_referencesOf_le _) size
  refine ⟨?texts, ?lists, ?members, c'.flags.bits.toNat_lt, isWord_of_lt counted.major,
    isWord_of_lt counted.minor, isWord_of_lt size⟩
  case texts =>
    have named {e : ClassEntry} (member : e ∈ c'.this :: (c'.super.toList ++ c'.interfaces)) :
        e.internalName.length < 2 ^ 64 := (counted.names e member).length_lt
    intro t member
    simp only [List.mem_cons, List.mem_append, List.mem_map] at member
    rcases member with rfl | rfl | (⟨e, here, rfl⟩ | ⟨a, here, rfl⟩) | referred
    · exact named (.head _)
    · cases super : c'.super with
      | none => exact Nat.two_pow_pos 64
      | some e => exact named (by simp [super])
    · exact named (by simp [here])
    · exact outlined.names a here
    · exact (storable_of_mem_referencesOf exact_.tells referred).length_lt
  case lists =>
    simp only [List.length_map, fieldCount, methodCount]
    exact ⟨maxCount_of_lt counted.interfaces, maxCount_of_lt outlined.few,
      maxCount_of_lt references, maxCount_of_lt counted.fields, maxCount_of_lt counted.methods⟩
  case members =>
    intro m member
    rcases List.mem_append.mp member with member | member
    · obtain ⟨f, here, made⟩ := eachField m member
      exact fits_ofField (state.outlinable read (List.mem_append_left _ here)) exact_.tells made
    · obtain ⟨f, here, made⟩ := eachMethod m member
      exact fits_ofMethod (state.outlinable read (List.mem_append_right _ here)) exact_.tells made

/-- A class file without members, whose class has a name of three bytes. -/
def classNamed (b₁ b₂ b₃ : UInt8) : Array UInt8 :=
  #[0xCA, 0xFE, 0xBA, 0xBE, 0, 0, 0, 52, 0, 3,
    1, 0, 3, b₁, b₂, b₃,
    7, 0, 1,
    0, 33, 0, 2, 0, 0, 0, 0, 0, 0, 0, 0, 0, 0]

/-- The summary of such a class. -/
def named (b₁ b₂ b₃ : UInt8) : Summary where
  name := [b₁, b₂, b₃]
  major := 52
  flags := 33
  poolSize := 3
  references := [[b₁, b₂, b₃]]

/-- What running the parser and the outline on such a class shows. -/
theorem summarized_of_run (b₁ b₂ b₃ : UInt8)
    (ran : (match ClassFile.parse 0 (classNamed b₁ b₂ b₃) .none with
      | .error _ => false
      | .ok c => decide ((ofClassFile c).toOption = some (named b₁ b₂ b₃))) = true) :
    ∃ c, ClassFile.parse 0 (classNamed b₁ b₂ b₃) .none = .ok c ∧
      ofClassFile c = .ok (named b₁ b₂ b₃) := by
  split at ran
  · cases ran
  · rename_i c parsed
    refine ⟨c, parsed, ?_⟩
    have given := of_decide_eq_true ran
    cases made : ofClassFile c with
    | error e => simp [made, Except.toOption] at given
    | ok s => simpa [made, Except.toOption] using given

end Summary

end JvmClass
