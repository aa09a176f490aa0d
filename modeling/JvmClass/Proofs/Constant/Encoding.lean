import JvmClass.Proofs.ClassFile.Inherited
import JvmClass.Proofs.Constant.Growth
import JvmClass.Proofs.Constant.Sharing
import JvmClass.Proofs.Text.Stored

/-!
# Where the parts of a written pool lie

The constants that were added to a pool are written one after another, each in as many bytes as
its tag says, and so are the rows of its bootstrap table. A scan of the bytes finds every one of
them.
-/

namespace JvmClass

open Layout (Constants SizeAt)

variable {c : Cursor} {p : Nat}

/-- Every tag is found again from its byte. -/
theorem Tag.ofByte?_byte (t : Tag) : Tag.ofByte? t.byte.toNat.toUInt8 = some t := by
  cases t <;> rfl

namespace Entry

/-- A constant is written in as many bytes as its tag says. -/
theorem sizeAt_of_spells {e : Entry} (spells : c.Spells p e.encode)
    (short : ∀ u, e = .utf8 u → (ModifiedUtf8.encode u.text).length ≤ PoolBuilder.maxTextLength) :
    SizeAt c e.tag p e.encode.length := by
  have inside := spells.inside
  have fixed (other : e.tag ≠ .utf8) (size : e.encode.length = Layout.constantSize e.tag) :
      SizeAt c e.tag p e.encode.length := by
    rw [size] at inside ⊢
    exact .fixed other inside
  cases e with
  | utf8 u =>
      have short := short u rfl
      rw [PoolBuilder.maxTextLength] at short
      have size : (Entry.utf8 u).encode.length = 3 + (ModifiedUtf8.encode u.text).length := by
        simp only [encode, operands, List.length_append, length_u1, length_u2]
        omega
      rw [encode, operands, Cursor.spells_append_iff, Cursor.spells_append_iff, length_u1]
        at spells
      rw [size] at inside ⊢
      exact .text rfl (spells.2.1.u2_of_lt (by omega)) (by omega)
  | loadable e =>
      refine fixed (by cases e <;> rintro ⟨⟩) ?_
      cases e <;> simp [encode, operands, Loadable.operands, tag, Loadable.tag, Layout.constantSize]
  | member e =>
      obtain ⟨place, kind, owner, nt⟩ := e
      refine fixed (by cases kind <;> rintro ⟨⟩) ?_
      cases kind <;> simp [encode, operands, tag, MemberEntry.tag, MemberKind.tag,
        Layout.constantSize]
  | nameAndType | callSite | module | package =>
      refine fixed (by rintro ⟨⟩) ?_
      simp [encode, operands, tag, Layout.constantSize]

/-- The byte before the operands of a written constant is its tag. -/
theorem tag_of_spells {e : Entry} (spells : c.Spells p e.encode) :
    c.u1? p = some e.tag.byte.toNat := by
  rw [encode, Cursor.spells_append_iff] at spells
  exact spells.1.u1_of_lt (UInt8.toNat_lt _)

end Entry

section Operands

variable {has : Entry → Prop} {hasRow : BootstrapRow → Prop}
  (small : ∀ e, has e → e.index < 65536) (few : ∀ row, hasRow row → row.index < 65536)
include small few

/-- The operands of a loadable constant stand where its encoding does. -/
theorem Loadable.operandsAt_of_spells {e : Loadable} (made : e.Made has hasRow)
    (spells : c.Spells (p + 1) e.operands) : e.OperandsAt c p := by
  cases e with
  | integer place n =>
      have fits : signed 32 n = n := made
      exact (Cursor.Spells.s4 spells).trans (congrArg some fits)
  | float place bits => exact Cursor.Spells.u4_of_lt spells made
  | long place n =>
      have fits : signed 64 n = n := made
      exact (Cursor.Spells.s8 spells).trans (congrArg some fits)
  | double place bits =>
      have fits : bits < 18446744073709551616 := made
      change c.u8? (p + 1 : Nat) = some bits
      rw [Cursor.Spells.u8 spells, unsigned_ofNat fits]
  | «class» e => exact Cursor.Spells.u2_of_lt spells (small _ made)
  | string place utf8 => exact Cursor.Spells.u2_of_lt spells (small _ made)
  | methodType place descriptor => exact Cursor.Spells.u2_of_lt spells (small _ made)
  | handle e =>
      rw [operands, Cursor.spells_append_iff, length_u1] at spells
      exact ⟨spells.1.u1_of_lt (UInt8.toNat_lt _), spells.2.u2_of_lt (small _ made.2)⟩
  | dynamic place row nt =>
      rw [operands, Cursor.spells_append_iff, length_u2] at spells
      exact ⟨spells.1.u2_of_lt (few _ made.1), spells.2.u2_of_lt (small _ made.2)⟩

/-- The operands of a constant that is made of what has an index are read where they were
written. -/
theorem Entry.operandsAt_of_spells {e : Entry} (made : e.Made has hasRow)
    (spells : c.Spells p e.encode) :
    e.OperandsAt c p := by
  rw [encode, Cursor.spells_append_iff, length_u1] at spells
  obtain ⟨-, spells⟩ := spells
  cases e with
  | utf8 e =>
      have short : (ModifiedUtf8.encode e.text).length ≤ PoolBuilder.maxTextLength := made.short
      rw [PoolBuilder.maxTextLength] at short
      rw [operands, Cursor.spells_append_iff, length_u2] at spells
      exact ⟨_, _, spells.1.u2_of_lt (by omega), spells.2.slice, made.decodes⟩
  | loadable e => exact Loadable.operandsAt_of_spells small few made spells
  | nameAndType e =>
      rw [operands, Cursor.spells_append_iff, length_u2] at spells
      exact ⟨spells.1.u2_of_lt (small _ made.1), spells.2.u2_of_lt (small _ made.2)⟩
  | member e =>
      rw [operands, Cursor.spells_append_iff, length_u2] at spells
      exact ⟨spells.1.u2_of_lt (small _ made.1), spells.2.u2_of_lt (small _ made.2)⟩
  | callSite e =>
      rw [operands, Cursor.spells_append_iff, length_u2] at spells
      exact ⟨spells.1.u2_of_lt (few _ made.1), spells.2.u2_of_lt (small _ made.2)⟩
  | module e => exact Cursor.Spells.u2_of_lt spells (small _ made)
  | package e => exact Cursor.Spells.u2_of_lt spells (small _ made)

end Operands

namespace PoolBuilder

/-- The slots of a pool are the constants that its bytes hold. -/
theorem constants_of_spells {slots : List (Option Entry)} (spaced : Spaced slots)
    (short : ∀ u, some (.utf8 u) ∈ slots → (ModifiedUtf8.encode u.text).length ≤ maxTextLength)
    (spells : c.Spells p ((slots.filterMap id).flatMap Entry.encode)) :
    ∃ rest, rest.length = slots.length ∧
      Constants c p rest (p + ((slots.filterMap id).flatMap Entry.encode).length) ∧
      (∀ (k : Nat) (e : Entry), slots[k]? = some (some e) →
        ∃ q, rest[k]? = some (some q) ∧ c.Spells q e.encode) ∧
      ∀ k : Nat, slots[k]? = some none → rest[k]? = some none := by
  induction spaced generalizing p with
  | nil => exact ⟨[], rfl, .done p, nofun, nofun⟩
  | @cons e rest others inductionHypothesis =>
      have listed : ((some e :: (List.replicate (e.tag.slots - 1) none ++ rest)).filterMap
          id).flatMap
          Entry.encode = e.encode ++ (rest.filterMap id).flatMap Entry.encode := by
        simp
      rw [listed, Cursor.spells_append_iff] at spells
      obtain ⟨first, after⟩ := spells
      obtain ⟨found, length, constants, each, blank⟩ :=
        inductionHypothesis (fun u member => short u (by simp [member])) after
      have sized := Entry.sizeAt_of_spells first fun u same => short u (by simp [same])
      have byte := Entry.tag_of_spells first
      rw [listed, List.length_append, ← Nat.add_assoc]
      by_cases wide : e.tag.slots = 2
      · refine ⟨some p :: none :: found, by simp [length, wide],
          .wide byte (Tag.ofByte?_byte _) wide sized constants, fun k e' slot => ?_,
          fun k slot => ?_⟩ <;> rw [wide] at slot
        · match k with
          | 0 =>
            obtain rfl := Option.some.inj (Option.some.inj slot)
            exact ⟨p, rfl, first⟩
          | 1 => cases slot
          | k + 2 => exact each k e' slot
        · match k with
          | 0 => cases slot
          | 1 => rfl
          | k + 2 => exact blank k slot
      · have narrow : e.tag.slots = 1 := by
          revert wide
          cases e.tag <;> decide
        refine ⟨some p :: found, by simp [length, narrow],
          .narrow byte (Tag.ofByte?_byte _) wide sized constants, fun k e' slot => ?_,
          fun k slot => ?_⟩ <;> rw [narrow] at slot
        · match k with
          | 0 =>
            obtain rfl := Option.some.inj (Option.some.inj slot)
            exact ⟨p, rfl, first⟩
          | k + 1 => exact each k e' slot
        · match k with
          | 0 => cases slot
          | k + 1 => exact blank k slot

end PoolBuilder

/-- A row as a bootstrap table holds it. -/
def BootstrapRow.encode (r : BootstrapRow) : Bytes :=
  u2 r.handle.place.index ++ u2 r.arguments.length ++ r.arguments.flatMap fun a => u2 a.place.index

/-- Every index of a list takes two bytes. -/
theorem length_indices (as : List Loadable) :
    (as.flatMap fun a => u2 a.place.index).length = 2 * as.length := by
  induction as with
  | nil => rfl
  | cons a rest inductionHypothesis =>
      rw [List.flatMap_cons, List.length_append, length_u2, inductionHypothesis, List.length_cons]
      omega

/-- Indices are read where they were written. -/
theorem indices_of_spells {as : List Loadable} (small : ∀ a ∈ as, a.place.index < 65536)
    (spells : c.Spells p (as.flatMap fun a => u2 a.place.index)) {k : Nat} {a : Loadable}
    (here : as[k]? = some a) : c.u2? (p + 2 * k : Nat) = some a.place.index := by
  induction as generalizing p k with
  | nil => cases here
  | cons b rest inductionHypothesis =>
      rw [List.flatMap_cons, Cursor.spells_append_iff, length_u2] at spells
      cases k with
      | zero =>
          obtain rfl := Option.some.inj here
          exact spells.1.u2_of_lt (small b (List.mem_cons_self ..))
      | succ k =>
          have next : p + 2 * (k + 1) = p + 2 + 2 * k := by omega
          rw [next]
          exact inductionHypothesis (fun a member => small a (List.mem_cons_of_mem _ member))
            spells.2 here

namespace BootstrapRow

/-- A row takes four bytes and two for each argument. -/
theorem length_encode (r : BootstrapRow) : r.encode.length = 4 + 2 * r.arguments.length := by
  rw [encode, List.length_append, List.length_append, length_u2, length_u2, length_indices]

/-- A row is read where it was written. -/
theorem standsAt_of_spells {r : BootstrapRow} (spells : c.Spells p r.encode)
    (handle : r.handle.place.index < 65536) (count : r.arguments.length < 65536)
    (arguments : ∀ a ∈ r.arguments, a.place.index < 65536) : r.StandsAt c p := by
  rw [encode, Cursor.spells_append_iff, Cursor.spells_append_iff, List.length_append, length_u2,
    length_u2] at spells
  obtain ⟨⟨handled, counted⟩, argued⟩ := spells
  exact ⟨handled.u2_of_lt handle, counted.u2_of_lt count,
    fun k a here => indices_of_spells arguments argued here⟩

end BootstrapRow

/-- The rows of a pool are those that its bytes hold. -/
theorem rowOffsets_of_spells {rows : List BootstrapRow}
    (short : ∀ r ∈ rows, r.arguments.length < 65536)
    (spells : c.Spells p (rows.flatMap BootstrapRow.encode)) :
    ∃ offsets, offsets.length = rows.length ∧
      RowOffsets c p offsets (p + (rows.flatMap BootstrapRow.encode).length) ∧
      ∀ (k : Nat) (r : BootstrapRow), rows[k]? = some r →
        ∃ q, offsets[k]? = some q ∧ c.Spells q r.encode := by
  induction rows generalizing p with
  | nil => exact ⟨[], rfl, .done p, nofun⟩
  | cons r rest inductionHypothesis =>
      rw [List.flatMap_cons, Cursor.spells_append_iff] at spells
      obtain ⟨first, after⟩ := spells
      obtain ⟨found, length, held, each⟩ :=
        inductionHypothesis (fun r member => short r (List.mem_cons_of_mem _ member)) after
      have small := short r (List.mem_cons_self ..)
      have counted : c.u2? (p + 2 : Nat) = some r.arguments.length := by
        have parts := first
        rw [BootstrapRow.encode, Cursor.spells_append_iff, Cursor.spells_append_iff, length_u2]
          at parts
        exact parts.1.2.u2_of_lt small
      have size := r.length_encode
      have here : p + r.encode.length = p + 4 + 2 * r.arguments.length := by omega
      have inside := first.inside
      refine ⟨p :: found, by simp [length], ?_, fun k e slot => ?_⟩
      · rw [List.flatMap_cons, List.length_append, ← Nat.add_assoc]
        rw [here] at held ⊢
        exact .next counted (by omega) held
      · cases k with
        | zero =>
            obtain rfl := Option.some.inj slot
            exact ⟨p, rfl, first⟩
        | succ k => exact each k e slot

end JvmClass
