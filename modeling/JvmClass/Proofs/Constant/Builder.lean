import JvmClass.Proofs.ClassFile.Layout
import JvmClass.Proofs.Constant.Linked
import JvmClass.Proofs.Constant.Sharing

/-!
# A pool that grows

A pool under construction holds the constants of its parent and those that were added to it. It
only grows: what it holds it keeps at the same index. As long as it has met no error every entry
is made of other entries of the pool, so what the pool is written as can be read again.
-/

namespace JvmClass

/-- An input whose pool tells all that its layout holds. -/
structure Input.Exact (i : Input) : Prop where
  tells : i.pool.Tells i.layout
  foreign : i.origin ≠ .output
  scanned : i.layout.Scanned

namespace Entry

/-- The number of the row that a constant refers to. -/
def rowIndex? : Entry → Option Nat
  | .loadable (.dynamic _ row _) => some row.index
  | .callSite e => some e.bootstrap.index
  | _ => none

end Entry

namespace PoolBuilder

variable {p p' p'' : PoolBuilder} {pending : Option Nat}

/-- The entry stands in the pool at its place. -/
inductive Has (p : PoolBuilder) (e : Entry) : Prop
  | own {k : Nat} (place : e.place = ⟨.output, p.base + k⟩) (slot : p.slots[k]? = some (some e))
  | inherited {parent : Input} (known : p.parent = some parent)
      (holds : parent.layout.Holds parent.origin e.index e)

/-- The row stands in the table of the pool, or will when the parent's rows are entered. -/
inductive HasRow (p : PoolBuilder) (row : BootstrapRow) : Prop
  | entered (here : p.rows[row.index]? = some row)
  | inherited {parent : Input} (known : p.parent = some parent)
      (rowed : parent.layout.RowAt parent.origin (parent.layout.Holds parent.origin) row.index row)

/-- A row of the parent. -/
def Inherits (p : PoolBuilder) (r : Nat) : Prop :=
  ∃ parent, p.parent = some parent ∧ r < parent.pool.rowCount

/-- A constant of the pool itself refers to a row. -/
def Mentions (p : PoolBuilder) (r : Nat) : Prop :=
  ∃ (k : Nat) (e : Entry), p.slots[k]? = some (some e) ∧ e.rowIndex? = some r

/-- One pool is a later state of another. Every row that was added since belongs to the parent or
is referred to, except for one whose constant is about to be added. -/
structure Extends (p p' : PoolBuilder) (pending : Option Nat) : Prop where
  parent : p'.parent = p.parent
  base : p'.base = p.base
  slots : ∀ (k : Nat) (s : Option Entry), p.slots[k]? = some s → p'.slots[k]? = some s
  rows : ∀ (r : Nat) (row : BootstrapRow), p.rows[r]? = some row → p'.rows[r]? = some row
  error : p'.error = none → p.error = none
  indexed : p.indexed = true → p'.indexed = true
  used : p'.error = none → ∀ r, p.rows.size ≤ r → r < p'.rows.size →
    p'.Inherits r ∨ p'.Mentions r ∨ pending = some r

/-- Slots are filled in such a way that every constant has as many as it takes. -/
inductive Spaced : List (Option Entry) → Prop
  | nil : Spaced []
  | cons (e : Entry) {rest : List (Option Entry)} (others : Spaced rest) :
      Spaced (some e :: (List.replicate (e.tag.slots - 1) none ++ rest))

/-- What is true of a pool that has met no error. -/
structure Inv (p : PoolBuilder) : Prop where
  base : ∀ parent, p.parent = some parent → p.base = parent.layout.size
  orphan : p.parent = none → p.base = 1
  small : p.size ≤ maxSize
  exact : ∀ parent, p.parent = some parent → parent.Exact
  waiting : p.indexed = false → p.slots = #[] ∧ p.rows = #[] ∧
    (∀ key : ConstantKey, p.places[key]? = none) ∧ ∀ key : List Nat, p.rowOf[key]? = none
  places : ∀ (key : ConstantKey) (place : Place), p.places[key]? = some place →
    ∃ e, p.Has e ∧ e.place = place ∧ e.key = key
  slots : ∀ (k : Nat) (e : Entry), p.slots[k]? = some (some e) → e.place = ⟨.output, p.base + k⟩ ∧
    e.Made p.Has p.HasRow
  spaced : Spaced p.slots.toList
  rows : ∀ (r : Nat) (row : BootstrapRow), p.rows[r]? = some row →
  row.index = r ∧ p.owns row.place.origin = true ∧
    row.Made p.Has
  inherited : p.indexed = true → ∀ parent, p.parent = some parent → ∀ r row,
    parent.layout.RowAt parent.origin (parent.layout.Holds parent.origin) r row →
      p.rows[r]? = some row
  rowOf : ∀ (key : List Nat) (row : BootstrapRow), p.rowOf[key]? = some row →
  p.rows[row.index]? = some row ∧ row.key = key

/-- A pool in which all is well unless it has met an error. -/
def Sound (p : PoolBuilder) : Prop := p.error = none → p.Inv

/-- Slots stay filled as they should be when a constant is added with those that its tag takes. -/
theorem Spaced.concat {slots : List (Option Entry)} (spaced : Spaced slots) (e : Entry) :
    Spaced (slots ++ some e :: List.replicate (e.tag.slots - 1) none) := by
  induction spaced with
  | nil =>
      have single := Spaced.cons e .nil
      rwa [List.append_nil] at single
  | cons first others inductionHypothesis =>
      rw [List.cons_append, List.append_assoc]
      exact .cons first inductionHypothesis

namespace Extends

/-- A pool is a later state of itself. -/
theorem refl (p : PoolBuilder) : p.Extends p pending where
  parent := rfl
  base := rfl
  slots _ _ here := here
  rows _ _ here := here
  error := id
  indexed := id
  used _ r old new := absurd new (by omega)

/-- Rows of the parent stay rows of the parent. -/
theorem inherits {r : Nat} (extends_ : p.Extends p' pending) (old : p.Inherits r) :
    p'.Inherits r := by
  obtain ⟨parent, known, inside⟩ := old
  exact ⟨parent, extends_.parent.trans known, inside⟩

/-- A row that a constant refers to is referred to later, too. -/
theorem mentions {r : Nat} (extends_ : p.Extends p' pending) (old : p.Mentions r) :
    p'.Mentions r := by
  obtain ⟨k, e, slot, refers⟩ := old
  exact ⟨k, e, extends_.slots k _ slot, refers⟩

/-- A later state of a later state is one of the first, if no row without a constant was left
between. -/
theorem trans (first : p.Extends p' none) (second : p'.Extends p'' pending) :
    p.Extends p'' pending where
  parent := second.parent.trans first.parent
  base := second.base.trans first.base
  slots k s here := second.slots k s (first.slots k s here)
  rows r row here := second.rows r row (first.rows r row here)
  error fine := first.error (second.error fine)
  indexed here := second.indexed (first.indexed here)
  used fine r old new := by
    by_cases between : r < p'.rows.size
    · rcases first.used (second.error fine) r old between with inherits | mentions | no
      · exact .inl (second.inherits inherits)
      · exact .inr (.inl (second.mentions mentions))
      · cases no
    · exact second.used fine r (by omega) new

/-- What comes after a row was added may refer to it. -/
theorem trans_pending {r : Nat} (first : p.Extends p' (some r)) (second : p'.Extends p'' none)
    (refers : p''.error = none → p''.Inherits r ∨ p''.Mentions r) : p.Extends p'' none where
  parent := second.parent.trans first.parent
  base := second.base.trans first.base
  slots k s here := second.slots k s (first.slots k s here)
  rows r row here := second.rows r row (first.rows r row here)
  error fine := first.error (second.error fine)
  indexed here := second.indexed (first.indexed here)
  used fine r' old new := by
    by_cases between : r' < p'.rows.size
    · rcases first.used (second.error fine) r' old between with inherits | mentions | same
      · exact .inl (second.inherits inherits)
      · exact .inr (.inl (second.mentions mentions))
      · obtain rfl := Option.some.inj same
        rcases refers fine with inherits | mentions
        · exact .inl inherits
        · exact .inr (.inl mentions)
    · exact second.used fine r' (by omega) new

/-- A constant of a pool is one of every later pool. -/
theorem has {e : Entry} (extends_ : p.Extends p' pending) (old : p.Has e) : p'.Has e := by
  cases old with
  | own place slot => exact .own (extends_.base ▸ place) (extends_.slots _ _ slot)
  | inherited known holds => exact .inherited (extends_.parent.trans known) holds

/-- A row of a pool is one of every later pool. -/
theorem hasRow {row : BootstrapRow} (extends_ : p.Extends p' pending) (old : p.HasRow row) :
    p'.HasRow row := by
  cases old with
  | entered here => exact .entered (extends_.rows _ _ here)
  | inherited known rowed => exact .inherited (extends_.parent.trans known) rowed

/-- Later states of a pool take the same constants for their own. -/
theorem owns (extends_ : p.Extends p' pending) (origin : Origin) :
    p'.owns origin = p.owns origin := by
  rw [PoolBuilder.owns, extends_.parent, PoolBuilder.owns]

/-- An error ends all concern about rows. -/
theorem failed (e : Error) : p.Extends { p with error := some e } pending where
  parent := rfl
  base := rfl
  slots _ _ here := here
  rows _ _ here := here
  error no := nomatch no
  indexed := id
  used no := nomatch no

end Extends

namespace Inv

/-- An inherited entry stands below those of the pool itself. -/
theorem lt_base (inv : p.Inv) {parent : Input} (known : p.parent = some parent) {i : Nat}
    {e : Entry} (holds : parent.layout.Holds parent.origin i e) : i < p.base := by
  obtain ⟨t, q, constant, -⟩ := Layout.holds_iff.mp holds
  rw [inv.base parent known]
  exact Lookup.lt_size constant.offset

/-- An index stands for one entry. -/
theorem functional (inv : p.Inv) {e e' : Entry} (first : p.Has e) (second : p.Has e')
    (same : e.index = e'.index) : e = e' := by
  cases first with
  | own place slot =>
      rw [Entry.index, place] at same
      cases second with
      | own place' slot' =>
          rw [Entry.index, place'] at same
          obtain rfl := Nat.add_left_cancel same
          exact Option.some.inj (Option.some.inj (slot.symm.trans slot'))
      | inherited known holds =>
          have below := inv.lt_base known holds
          simp only at same
          omega
  | inherited known holds =>
      cases second with
      | own place' slot' =>
          have below := inv.lt_base known holds
          rw [same, Entry.index, place'] at below
          simp only at below
          omega
      | inherited known' holds' =>
          obtain rfl := Option.some.inj (known.symm.trans known')
          rw [same] at holds
          exact holds.functional holds'

/-- Once the parent's rows are entered, all rows stand in the table. -/
theorem entered (inv : p.Inv) (indexed : p.indexed = true) {row : BootstrapRow}
    (has : p.HasRow row) : p.rows[row.index]? = some row := by
  cases has with
  | entered here => exact here
  | inherited known rowed => exact inv.inherited indexed _ known _ _ rowed

/-- An entry of the pool is made of entries of the pool. -/
theorem made (inv : p.Inv) {e : Entry} (has : p.Has e) : e.Made p.Has p.HasRow := by
  cases has with
  | own place slot => exact (inv.slots _ e slot).2
  | inherited known holds =>
      exact holds.made.mono (fun e holds => .inherited known holds)
        fun row rowed => .inherited known rowed

/-- An index of the pool stands for one entry or one row. -/
theorem told (inv : p.Inv) (indexed : p.indexed = true) : Entry.Indexed p.Has p.HasRow where
  entries first second same := inv.functional first second same
  rows {a b} first second same := by
    have here := inv.entered indexed first
    rw [same, inv.entered indexed second] at here
    exact (Option.some.inj here).symm

/-- The key of an entry and its place say what entry it is. -/
theorem eq_of_key (inv : p.Inv) (indexed : p.indexed = true) {e e' : Entry}
    (made : e.Made p.Has p.HasRow) (made' : e'.Made p.Has p.HasRow) (key : e.key = e'.key)
    (place : e.place = e'.place) : e = e' :=
  (inv.told indexed).eq_of_key made.linked made'.linked key place

end Inv

end PoolBuilder

end JvmClass
