import JvmClass.Proofs.Constant.Adoption

/-!
# A pool that starts from nothing

All that happens to a pool without a parent is that requests are refused, constants entered that
it does not have, and rows linked that it does not have. Each of these keeps the pool in order:
every entry stands at its place and under its key, so constants that denote the same are one entry.
This goes on after an error.
-/

namespace JvmClass.PoolBuilder

variable {p q r : PoolBuilder} {e e' : Entry} {row : BootstrapRow}

/-- An entry that a pool does not have yet, made of what it has. -/
structure Fresh (p : PoolBuilder) (e : Entry) : Prop where
  indexed : p.indexed = true
  unknown : p.places[e.key]? = none
  place : e.place = ⟨.output, p.size⟩
  linked : e.Linked p.Has p.HasRow
  lawful : p.error = none → e.Lawful

/-- A row that a pool does not have yet, made of what it has. -/
structure FreshRow (p : PoolBuilder) (row : BootstrapRow) : Prop where
  indexed : p.indexed = true
  unknown : p.rowOf[row.key]? = none
  place : row.place = ⟨.output, p.rows.size⟩
  linked : row.Linked p.Has

/-- One thing that happens to a pool without a parent. -/
inductive Step (p : PoolBuilder) : PoolBuilder → Prop
  /-- What the parent has is entered, which is nothing. -/
  | index : Step p { p with indexed := true }
  /-- A request is refused. -/
  | refuse (m : Misuse) : Step p { p with error := some (Error.first p.error (.misuse m)) }
  | enter {e : Entry} (fresh : p.Fresh e) (fits : p.size + e.key.tag.slots ≤ maxSize) :
      Step p (p.withEntry e.key e)
  /-- A constant is entered although the pool is full. -/
  | overflow {e : Entry} (fresh : p.Fresh e) (full : maxSize < p.size + e.key.tag.slots) :
      Step p { p.withEntry e.key e with
        error := some (Error.first p.error (.misuse .poolOverflow)) }
  | link {row : BootstrapRow} (fresh : p.FreshRow row) : Step p (p.withRow row)

/-- What can have happened to a pool without a parent from one time to another. -/
inductive Steps (p : PoolBuilder) : PoolBuilder → Prop
  | refl : Steps p p
  | step {q r : PoolBuilder} (prior : Steps p q) (next : Step q r) : Steps p r

/-- One step is a history of one step. -/
theorem Step.steps (step : p.Step q) : p.Steps q := .step .refl step

/-- Histories of a pool follow one another. -/
theorem Steps.trans (first : p.Steps q) (second : q.Steps r) : p.Steps r := by
  induction second with
  | refl => exact first
  | step _ next inductionHypothesis => exact .step inductionHypothesis next

/-- A pool without a parent that is in order. -/
structure Consed (p : PoolBuilder) : Prop where
  orphan : p.parent = none
  base : p.base = 1
  spaced : Spaced p.slots.toList
  waiting : p.indexed = false → p.slots = #[] ∧ p.rows = #[]
  entries : ∀ (k : Nat) (e : Entry), p.slots[k]? = some (some e) →
    e.place = ⟨.output, p.base + k⟩ ∧ e.Linked p.Has p.HasRow
  lawful : ∀ (k : Nat) (e : Entry), p.slots[k]? = some (some e) → p.error = none → e.Lawful
  keyed : ∀ (k : Nat) (e : Entry), p.slots[k]? = some (some e) →
    p.places[e.key]? = some e.place
  places : ∀ (key : ConstantKey) (place : Place), p.places[key]? = some place →
    ∃ e, p.Has e ∧ e.place = place ∧ e.key = key
  rows : ∀ (r : Nat) (row : BootstrapRow), p.rows[r]? = some row →
    row.place = ⟨.output, r⟩ ∧ row.Linked p.Has
  rowKeyed : ∀ (r : Nat) (row : BootstrapRow), p.rows[r]? = some row →
    p.rowOf[row.key]? = some row
  rowOf : ∀ (key : List Nat) (row : BootstrapRow), p.rowOf[key]? = some row →
    p.rows[row.index]? = some row ∧ row.key = key
  kept : ∀ e, p.error = some e → e.abort? = none
  full : maxSize < p.size → p.error ≠ none

/-! ## Later states -/

/-- What happens to a pool takes nothing from it. -/
structure Later (p q : PoolBuilder) : Prop where
  parent : q.parent = p.parent
  base : q.base = p.base
  slots : ∀ (k : Nat) (s : Option Entry), p.slots[k]? = some s → q.slots[k]? = some s
  rows : ∀ (r : Nat) (row : BootstrapRow), p.rows[r]? = some row → q.rows[r]? = some row
  indexed : p.indexed = true → q.indexed = true
  error : ∀ e, p.error = some e → e.abort? = none → q.error = some e
  fine : q.error = none → p.error = none

/-- An error that can be kept back stays the first when a misuse follows. -/
theorem first_misuse {e : Error} (kept : e.abort? = none) (m : Misuse) :
    Error.first (some e) (.misuse m) = e := by
  rw [Error.first, kept]
  rfl

/-- The first error of a pool that misuse alone has met is no abort. -/
theorem abort?_first {error : Option Error} (kept : ∀ e, error = some e → e.abort? = none)
    (m : Misuse) : (Error.first error (.misuse m)).abort? = none := by
  cases error with
  | none => rfl
  | some e =>
      rw [first_misuse (kept e rfl)]
      exact kept e rfl

namespace Later

/-- A pool is later than itself, as nothing was taken. -/
theorem refl (p : PoolBuilder) : p.Later p :=
  ⟨rfl, rfl, fun _ _ => id, fun _ _ => id, id, fun _ same _ => same, id⟩

/-- What takes nothing twice takes nothing at all. -/
theorem trans (first : p.Later q) (second : q.Later r) : p.Later r where
  parent := second.parent.trans first.parent
  base := second.base.trans first.base
  slots k s here := second.slots k s (first.slots k s here)
  rows n row here := second.rows n row (first.rows n row here)
  indexed here := second.indexed (first.indexed here)
  error e same kept := second.error e (first.error e same kept) kept
  fine clear := first.fine (second.fine clear)

/-- A constant of a pool stays there. -/
theorem has (later : p.Later q) (has : p.Has e) : q.Has e := by
  cases has with
  | own place slot => exact .own (later.base ▸ place) (later.slots _ _ slot)
  | inherited known holds => exact .inherited (later.parent.trans known) holds

/-- A row of a pool stays there. -/
theorem hasRow (later : p.Later q) (has : p.HasRow row) : q.HasRow row := by
  cases has with
  | entered here => exact .entered (later.rows _ _ here)
  | inherited known rowed => exact .inherited (later.parent.trans known) rowed

/-- An error takes nothing from a pool. -/
theorem withError (p : PoolBuilder) (m : Misuse) :
    p.Later { p with error := some (Error.first p.error (.misuse m)) } where
  parent := rfl
  base := rfl
  slots _ _ here := here
  rows _ _ here := here
  indexed := id
  error e same kept := by rw [same, first_misuse kept]
  fine clear := nomatch clear

/-- A new constant takes nothing from a pool. -/
theorem withEntry (p : PoolBuilder) (key : ConstantKey) (e : Entry) :
    p.Later (p.withEntry key e) where
  parent := rfl
  base := rfl
  slots := (show p.Extends (p.withEntry key e) none from extends_withEntry p key e).slots
  rows _ _ here := here
  indexed := id
  error _ same _ := same
  fine := id

/-- A new row at the end takes nothing from a pool. -/
theorem withRow (place : row.index = p.rows.size) : p.Later (p.withRow row) where
  parent := rfl
  base := rfl
  slots _ _ here := here
  rows := (extends_withRow place).rows
  indexed := id
  error _ same _ := same
  fine := id

end Later

/-- A new row gets the number after those that are there. -/
theorem FreshRow.index (fresh : p.FreshRow row) : row.index = p.rows.size := by
  rw [BootstrapRow.index, fresh.place]

/-- A step takes nothing from a pool. -/
theorem Step.later (step : p.Step q) : p.Later q := by
  cases step with
  | index => exact ⟨rfl, rfl, fun _ _ => id, fun _ _ => id, fun _ => rfl, fun _ same _ => same, id⟩
  | refuse m => exact .withError p m
  | @enter e fresh fits => exact .withEntry p e.key e
  | @overflow e fresh full => exact (Later.withEntry p e.key e).trans (.withError _ _)
  | link fresh => exact .withRow fresh.index

/-- A history takes nothing from a pool. -/
theorem Steps.later (steps : p.Steps q) : p.Later q := by
  induction steps with
  | refl => exact .refl p
  | step _ next inductionHypothesis => exact inductionHypothesis.trans next.later

/-! ## Order is kept -/

namespace Consed

/-- The empty pool is in order. -/
theorem empty : PoolBuilder.empty.Consed where
  orphan := rfl
  base := rfl
  spaced := .nil
  waiting _ := ⟨rfl, rfl⟩
  entries _ _ here := nomatch here
  lawful _ _ here := nomatch here
  keyed _ _ here := nomatch here
  places key place here := by
    rw [show PoolBuilder.empty.places[key]? = none from Std.HashMap.getElem?_empty] at here
    cases here
  rows _ _ here := nomatch here
  rowKeyed _ _ here := nomatch here
  rowOf key row here := by
    rw [show PoolBuilder.empty.rowOf[key]? = none from Std.HashMap.getElem?_empty] at here
    cases here
  kept _ same := nomatch same
  full big := absurd big (by decide)

/-- A pool in order stays so when it meets an error. -/
theorem withError (consed : p.Consed) (m : Misuse) :
    Consed { p with error := some (Error.first p.error (.misuse m)) } where
  orphan := consed.orphan
  base := consed.base
  spaced := consed.spaced
  waiting := consed.waiting
  entries k e here :=
    have ⟨place, linked⟩ := consed.entries k e here
    ⟨place, linked.mono (fun _ => (Later.withError p m).has) fun _ => (Later.withError p m).hasRow⟩
  lawful _ _ _ fine := nomatch fine
  keyed := consed.keyed
  places key place known :=
    have ⟨e, has, same⟩ := consed.places key place known
    ⟨e, (Later.withError p m).has has, same⟩
  rows r row here :=
    have ⟨place, linked⟩ := consed.rows r row here
    ⟨place, linked.mono fun _ => (Later.withError p m).has⟩
  rowKeyed := consed.rowKeyed
  rowOf := consed.rowOf
  kept e same := by
    obtain rfl := Option.some.inj same
    exact abort?_first consed.kept m
  full _ := nofun

/-- The slots after an entry was added. -/
theorem slots_withEntry (p : PoolBuilder) (key : ConstantKey) (e : Entry) {k : Nat} {e' : Entry}
    (slot : (p.withEntry key e).slots[k]? = some (some e')) :
    p.slots[k]? = some (some e') ∨ (k = p.slots.size ∧ e' = e) := by
  by_cases old : k < p.slots.size
  · rw [PoolBuilder.withEntry, Array.getElem?_append_left (by rw [Array.size_push]; omega),
      Array.getElem?_push_lt old] at slot
    exact .inl (by rw [Array.getElem?_eq_getElem old, slot])
  · by_cases last : k = p.slots.size
    · subst last
      rw [PoolBuilder.withEntry, Array.getElem?_append_left (by simp),
        Array.getElem?_push_size] at slot
      exact .inr ⟨rfl, (Option.some.inj (Option.some.inj slot)).symm⟩
    · rw [PoolBuilder.withEntry, Array.getElem?_append_right (by rw [Array.size_push]; omega),
        Array.getElem?_replicate] at slot
      split at slot <;> cases slot

/-- All but the size of a pool stays in order when a fresh entry is added. -/
theorem withEntry (consed : p.Consed) (fresh : p.Fresh e) {error : Option Error}
    (errors : error = p.error ∨ ∃ m, error = some (Error.first p.error (.misuse m)))
    (full : maxSize < p.size + e.key.tag.slots → error ≠ none) :
    Consed { p.withEntry e.key e with error := error } := by
  obtain ⟨q, added⟩ : ∃ q, { p.withEntry e.key e with error := error } = q := ⟨_, rfl⟩
  have later : p.Later q := by
    rcases errors with rfl | ⟨m, rfl⟩
    · exact added ▸ Later.withEntry p e.key e
    · exact added ▸ (Later.withEntry p e.key e).trans (.withError _ m)
  have slots {k : Nat} {e' : Entry} (slot : q.slots[k]? = some (some e')) :
      p.slots[k]? = some (some e') ∨ (k = p.slots.size ∧ e' = e) :=
    slots_withEntry p e.key e (by rwa [← added] at slot)
  have places (key : ConstantKey) : q.places[key]? =
      if e.key == key then some e.place else p.places[key]? := by
    rw [← added, fresh.place]
    exact Std.HashMap.getElem?_insert
  have here : q.Has e := by
    refine .own (k := p.slots.size) ?_ ?_
    · rw [fresh.place, later.base]
      rfl
    · rw [← added]
      simp only [PoolBuilder.withEntry]
      rw [Array.getElem?_append_left (by simp), Array.getElem?_push_size]
  have tag : e.key.tag = e.tag := e.tag_key
  have positive : 0 < e.key.tag.slots := by cases e.key.tag <;> decide
  rw [added]
  exact {
    orphan := later.parent.trans consed.orphan
    base := later.base.trans consed.base
    spaced := by
      rw [← added]
      simp only [PoolBuilder.withEntry]
      rw [Array.toList_append, Array.toList_push, Array.toList_replicate, List.append_assoc,
        List.singleton_append, tag]
      exact consed.spaced.concat e
    waiting := fun no => by cases no.symm.trans (later.indexed fresh.indexed)
    entries := fun k e' slot => by
      have wider {x : Entry} (linked : x.Linked p.Has p.HasRow) : x.Linked q.Has q.HasRow :=
        linked.mono (fun _ => later.has) fun _ => later.hasRow
      rcases slots slot with old | ⟨rfl, rfl⟩
      · obtain ⟨place, linked⟩ := consed.entries k e' old
        exact ⟨later.base ▸ place, wider linked⟩
      · exact ⟨by rw [fresh.place, later.base]; rfl, wider fresh.linked⟩
    lawful := fun k e' slot clear => by
      rcases slots slot with old | ⟨-, rfl⟩
      · exact consed.lawful k e' old (later.fine clear)
      · exact fresh.lawful (later.fine clear)
    keyed := fun k e' slot => by
      rw [places]
      rcases slots slot with old | ⟨-, rfl⟩
      · have known := consed.keyed k e' old
        rw [if_neg, known]
        intro same
        rw [← eq_of_beq same, fresh.unknown] at known
        cases known
      · rw [if_pos BEq.rfl]
    places := fun key place known => by
      rw [places] at known
      split at known
      · rename_i same
        exact ⟨e, here, Option.some.inj known, eq_of_beq same⟩
      · obtain ⟨e', has, same⟩ := consed.places key place known
        exact ⟨e', later.has has, same⟩
    rows := fun n row slot => by
      obtain ⟨place, linked⟩ := consed.rows n row (by rwa [← added] at slot)
      exact ⟨place, linked.mono fun _ => later.has⟩
    rowKeyed := fun n row slot => by
      rw [← added] at slot ⊢
      exact consed.rowKeyed n row slot
    rowOf := fun key row known => by
      rw [← added] at known ⊢
      exact consed.rowOf key row known
    kept := fun x same => by
      rw [← added] at same
      rcases errors with given | ⟨m, given⟩
      · exact consed.kept x (given ▸ same)
      · obtain rfl := Option.some.inj (given.symm.trans same)
        exact abort?_first consed.kept m
    full := fun big => by
      rw [← added] at big ⊢
      refine full ?_
      simp only [PoolBuilder.size, PoolBuilder.withEntry, Array.size_append, Array.size_push,
        Array.size_replicate] at big ⊢
      omega }

/-- A pool in order stays so when a row is added that it does not have yet: handles and arguments
stand before it, and its key finds it again. -/
theorem withRow (consed : p.Consed) (fresh : p.FreshRow row) : (p.withRow row).Consed := by
  have later : p.Later (p.withRow row) := .withRow fresh.index
  have rows {n : Nat} {row' : BootstrapRow} (there : (p.withRow row).rows[n]? = some row') :
      p.rows[n]? = some row' ∨ (n = p.rows.size ∧ row' = row) := by
    rw [PoolBuilder.withRow, Array.getElem?_push] at there
    split at there
    · exact .inr ⟨‹_›, (Option.some.inj there).symm⟩
    · exact .inl there
  have rowOf (key : List Nat) : (p.withRow row).rowOf[key]? =
      if row.key == key then some row else p.rowOf[key]? := Std.HashMap.getElem?_insert
  have here : (p.withRow row).rows[row.index]? = some row := by
    rw [fresh.index, PoolBuilder.withRow, Array.getElem?_push_size]
  exact {
    orphan := consed.orphan
    base := consed.base
    spaced := consed.spaced
    waiting := fun no => by cases no.symm.trans fresh.indexed
    entries := fun k e slot => by
      obtain ⟨place, linked⟩ := consed.entries k e slot
      exact ⟨place, linked.mono (fun _ => later.has) fun _ => later.hasRow⟩
    lawful := consed.lawful
    keyed := consed.keyed
    places := fun key place known => by
      obtain ⟨e, has, same⟩ := consed.places key place known
      exact ⟨e, later.has has, same⟩
    rows := fun n row' there => by
      rcases rows there with old | ⟨rfl, rfl⟩
      · obtain ⟨place, linked⟩ := consed.rows n row' old
        exact ⟨place, linked.mono fun _ => later.has⟩
      · exact ⟨fresh.place, fresh.linked.mono fun _ => later.has⟩
    rowKeyed := fun n row' there => by
      rw [rowOf]
      rcases rows there with old | ⟨-, rfl⟩
      · have known := consed.rowKeyed n row' old
        rw [if_neg, known]
        intro same
        rw [← eq_of_beq same, fresh.unknown] at known
        cases known
      · rw [if_pos BEq.rfl]
    rowOf := fun key row' known => by
      rw [rowOf] at known
      split at known
      · rename_i same
        obtain rfl := Option.some.inj known
        exact ⟨here, eq_of_beq same⟩
      · obtain ⟨there, same⟩ := consed.rowOf key row' known
        exact ⟨later.rows _ _ there, same⟩
    kept := consed.kept
    full := consed.full }

/-- Whatever happens to a pool in order, it stays in order. -/
theorem step (consed : p.Consed) (step : p.Step q) : q.Consed := by
  cases step with
  | index =>
      exact { consed with
        waiting := nofun
        entries := fun k e slot => by
          obtain ⟨place, linked⟩ := consed.entries k e slot
          exact ⟨place, linked.mono (fun _ => Step.index.later.has) fun _ =>
            Step.index.later.hasRow⟩
        places := fun key place known => by
          obtain ⟨e, has, same⟩ := consed.places key place known
          exact ⟨e, Step.index.later.has has, same⟩
        rows := fun n row there => by
          obtain ⟨place, linked⟩ := consed.rows n row there
          exact ⟨place, linked.mono fun _ => Step.index.later.has⟩ }
  | refuse m => exact consed.withError m
  | enter fresh fits =>
      exact consed.withEntry fresh (.inl rfl) fun big => absurd big (Nat.not_lt.mpr fits)
  | overflow fresh full => exact consed.withEntry fresh (.inr ⟨_, rfl⟩) fun _ => nofun
  | link fresh => exact consed.withRow fresh

/-- A pool in order stays so over its history. -/
theorem steps (consed : p.Consed) (steps : p.Steps q) : q.Consed := by
  induction steps with
  | refl => exact consed
  | step _ next inductionHypothesis => exact inductionHypothesis.step next

/-! ## What denotes the same is the same -/

section Denotes

variable (consed : p.Consed)
include consed

/-- An entry of the pool stands in a slot of its own. -/
theorem slot (has : p.Has e) :
    ∃ k, e.place = ⟨.output, p.base + k⟩ ∧ p.slots[k]? = some (some e) := by
  cases has with
  | own place slot => exact ⟨_, place, slot⟩
  | inherited known _ => exact nomatch consed.orphan.symm.trans known

/-- A row stands in the table at its number. -/
theorem rowed (has : p.HasRow row) : p.rows[row.index]? = some row := by
  cases has with
  | entered here => exact here
  | inherited known _ => exact nomatch consed.orphan.symm.trans known

/-- An index of the pool stands for one entry or one row. -/
theorem told : Entry.Indexed p.Has p.HasRow where
  entries {e e'} first second same := by
    obtain ⟨k, place, here⟩ := consed.slot first
    obtain ⟨k', place', there⟩ := consed.slot second
    rw [Entry.index, place, Entry.index, place'] at same
    obtain rfl := Nat.add_left_cancel same
    exact Option.some.inj (Option.some.inj (here.symm.trans there))
  rows {a b} first second same := by
    have here := consed.rowed first
    rw [same, consed.rowed second] at here
    exact (Option.some.inj here).symm

/-- What a constant of the pool refers to stands in the pool. -/
theorem linked (has : p.Has e) : e.Linked p.Has p.HasRow := by
  obtain ⟨k, -, here⟩ := consed.slot has
  exact (consed.entries k e here).2

/-- A key belongs to one entry. -/
theorem eq_of_key (first : p.Has e) (second : p.Has e') (same : e.key = e'.key) : e = e' := by
  obtain ⟨k, -, here⟩ := consed.slot first
  obtain ⟨k', -, there⟩ := consed.slot second
  have known := consed.keyed k e here
  rw [same, consed.keyed k' e' there] at known
  exact (consed.told.entries first second (congrArg Place.index (Option.some.inj known).symm))

/-- Two rows of a pool with the same key are the same. -/
theorem row_eq_of_key {a b : BootstrapRow} (first : p.HasRow a) (second : p.HasRow b)
    (same : a.key = b.key) : a = b := by
  have known := consed.rowKeyed _ a (consed.rowed first)
  rw [same, consed.rowKeyed _ b (consed.rowed second)] at known
  exact (Option.some.inj known).symm

/-- Two texts of a pool that denote the same are the same. -/
theorem utf8_eq {a b : Utf8Entry} (first : p.Has (.utf8 a)) (second : p.Has (.utf8 b))
    (same : a.bare = b.bare) : a = b :=
  Entry.utf8.inj <| consed.eq_of_key first second <|
    congrArg ConstantKey.text (Utf8Entry.bare_eq_iff.mp same)

/-- Two classes of a pool that denote the same are the same. -/
theorem class_eq {a b : ClassEntry} (first : p.Has (.loadable (.class a)))
    (second : p.Has (.loadable (.class b))) (same : a.bare = b.bare) : a = b := by
  have named := consed.utf8_eq (consed.linked first) (consed.linked second)
    (congrArg ClassEntry.name same)
  refine Loadable.class.inj (Entry.loadable.inj (consed.eq_of_key first second ?_))
  exact congrArg (fun name : Utf8Entry => ConstantKey.single .class name.place.index) named

/-- Two names and types of a pool that denote the same are the same. -/
theorem nameAndType_eq {a b : NameAndTypeEntry} (first : p.Has (.nameAndType a))
    (second : p.Has (.nameAndType b)) (same : a.bare = b.bare) : a = b := by
  have linked := consed.linked first
  have linked' := consed.linked second
  have named := consed.utf8_eq linked.1 linked'.1 (congrArg NameAndTypeEntry.name same)
  have typed := consed.utf8_eq linked.2 linked'.2 (congrArg NameAndTypeEntry.type same)
  refine Entry.nameAndType.inj (consed.eq_of_key first second ?_)
  rw [Entry.key, Entry.key, named, typed]

/-- Two members of a pool that denote the same are the same. -/
theorem member_eq {a b : MemberEntry} (first : p.Has (.member a)) (second : p.Has (.member b))
    (same : a.bare = b.bare) : a = b := by
  have linked := consed.linked first
  have linked' := consed.linked second
  have kinds : a.kind = b.kind := congrArg (·.kind) same
  have owned := consed.class_eq linked.1 linked'.1 (congrArg MemberEntry.owner same)
  have named := consed.nameAndType_eq linked.2 linked'.2 (congrArg MemberEntry.nameAndType same)
  refine Entry.member.inj (consed.eq_of_key first second ?_)
  rw [Entry.key, Entry.key, MemberEntry.tag, MemberEntry.tag, kinds, owned, named]

/-- Two handles of a pool that denote the same are the same. -/
theorem handle_eq {a b : HandleEntry} (first : p.Has (.loadable (.handle a)))
    (second : p.Has (.loadable (.handle b))) (same : a.bare = b.bare) : a = b := by
  have kinds : a.kind = b.kind := congrArg (·.kind) same
  have targeted := consed.member_eq (consed.linked first) (consed.linked second)
    (congrArg HandleEntry.target same)
  refine Loadable.handle.inj (Entry.loadable.inj (consed.eq_of_key first second ?_))
  change ConstantKey.pair _ _ _ = ConstantKey.pair _ _ _
  rw [kinds, targeted]

end Denotes

mutual

/-- Two loadable constants of a pool that denote the same are the same. A dynamic constant refers to
a row, so the induction goes through rows and arguments. -/
theorem loadable_eq (consed : p.Consed) : ∀ a b : Loadable, p.Has (.loadable a) →
    p.Has (.loadable b) → a.bare = b.bare → a = b
  | .integer _ _, b, first, second, same | .float _ _, b, first, second, same
  | .long _ _, b, first, second, same | .double _ _, b, first, second, same => by
    refine Entry.loadable.inj (consed.eq_of_key first second ?_)
    cases b <;> simp_all [Loadable.bare, Entry.key, Loadable.key]
  | .class a, b, first, second, same => by
    cases b with
    | «class» b =>
        rw [consed.class_eq first second (Loadable.class.inj same)]
    | _ => simp [Loadable.bare] at same
  | .string _ u, b, first, second, same => by
    refine Entry.loadable.inj (consed.eq_of_key first second ?_)
    cases b with
    | string _ v =>
        have named := consed.utf8_eq (consed.linked first) (consed.linked second)
          (Loadable.string.inj same).2
        exact congrArg (fun name : Utf8Entry => ConstantKey.single .string name.place.index) named
    | _ => simp [Loadable.bare] at same
  | .methodType _ u, b, first, second, same => by
    refine Entry.loadable.inj (consed.eq_of_key first second ?_)
    cases b with
    | methodType _ v =>
        have named := consed.utf8_eq (consed.linked first) (consed.linked second)
          (Loadable.methodType.inj same).2
        exact congrArg (fun name :
          Utf8Entry => ConstantKey.single .methodType name.place.index) named
    | _ => simp [Loadable.bare] at same
  | .handle a, b, first, second, same => by
    cases b with
    | handle b => rw [consed.handle_eq first second (Loadable.handle.inj same)]
    | _ => simp [Loadable.bare] at same
  | .dynamic _ row nt, b, first, second, same => by
    refine Entry.loadable.inj (consed.eq_of_key first second ?_)
    cases b with
    | dynamic _ row' nt' =>
        obtain ⟨-, rowed, named⟩ := Loadable.dynamic.inj same
        have linked := consed.linked first
        have linked' := consed.linked second
        have rows := row_eq consed row row' linked.1 linked'.1 rowed
        have names := consed.nameAndType_eq linked.2 linked'.2 named
        change ConstantKey.pair _ _ _ = ConstantKey.pair _ _ _
        rw [rows, names]
    | _ => simp [Loadable.bare] at same

/-- Two rows of a pool that denote the same are the same. -/
theorem row_eq (consed : p.Consed) : ∀ a b : BootstrapRow, p.HasRow a → p.HasRow b →
    a.bare = b.bare → a = b
  | .mk place handle arguments, b, first, second, same => by
    refine consed.row_eq_of_key first second ?_
    obtain ⟨place', handle', arguments'⟩ := b
    have linked := (consed.rows _ _ (consed.rowed first)).2
    have linked' := (consed.rows _ _ (consed.rowed second)).2
    obtain ⟨-, handled, argued⟩ := BootstrapRow.mk.inj same
    have handles : handle = handle' := consed.handle_eq linked.handle linked'.handle handled
    have all : arguments = arguments' :=
      arguments_eq consed arguments arguments' linked.arguments linked'.arguments argued
    subst handles all
    rfl

/-- Two lists of arguments of a pool that denote the same are the same. -/
theorem arguments_eq (consed : p.Consed) : ∀ as bs : List Loadable,
    (∀ a ∈ as, p.Has (.loadable a)) → (∀ b ∈ bs, p.Has (.loadable b)) →
      Loadable.bareAll as = Loadable.bareAll bs → as = bs
  | [], bs, _, _, same => by
    cases bs with
    | nil => rfl
    | cons b rest => simp [Loadable.bareAll] at same
  | a :: rest, bs, first, second, same => by
    cases bs with
    | nil => simp [Loadable.bareAll] at same
    | cons b rest' =>
        rw [Loadable.bareAll, Loadable.bareAll] at same
        obtain ⟨head, tail⟩ := List.cons.inj same
        rw [loadable_eq consed a b (first a (List.mem_cons_self ..))
          (second b (List.mem_cons_self ..))
            head,
          arguments_eq consed rest rest' (fun a member => first a (List.mem_cons_of_mem _ member))
            (fun b member => second b (List.mem_cons_of_mem _ member)) tail]

end

/-- Entries of the pool that denote the same are the same. -/
theorem eq_of_bare (consed : p.Consed) (first : p.Has e) (second : p.Has e')
    (same : e.bare = e'.bare) : e = e' := by
  have linked := consed.linked first
  have linked' := consed.linked second
  cases e with
  | utf8 a =>
      cases e' with
      | utf8 b => rw [consed.utf8_eq first second (Entry.utf8.inj same)]
      | _ => simp [Entry.bare] at same
  | loadable a =>
      cases e' with
      | loadable b => rw [consed.loadable_eq a b first second (Entry.loadable.inj same)]
      | _ => simp [Entry.bare] at same
  | nameAndType a =>
      cases e' with
      | nameAndType b => rw [consed.nameAndType_eq first second (Entry.nameAndType.inj same)]
      | _ => simp [Entry.bare] at same
  | member a =>
      cases e' with
      | member b => rw [consed.member_eq first second (Entry.member.inj same)]
      | _ => simp [Entry.bare] at same
  | callSite a =>
      refine consed.eq_of_key first second ?_
      cases e' with
      | callSite b =>
          have rows := consed.row_eq _ _ linked.1 linked'.1
            (congrArg CallSiteEntry.bootstrap (Entry.callSite.inj same))
          have names := consed.nameAndType_eq linked.2 linked'.2
            (congrArg CallSiteEntry.nameAndType (Entry.callSite.inj same))
          rw [Entry.key, Entry.key, rows, names]
      | _ => simp [Entry.bare] at same
  | module a =>
      refine consed.eq_of_key first second ?_
      cases e' with
      | module b =>
          have named := consed.utf8_eq linked linked'
            (congrArg ModuleEntry.name (Entry.module.inj same))
          rw [Entry.key, Entry.key, named]
      | _ => simp [Entry.bare] at same
  | package a =>
      refine consed.eq_of_key first second ?_
      cases e' with
      | package b =>
          have named := consed.utf8_eq linked linked'
            (congrArg PackageEntry.name (Entry.package.inj same))
          rw [Entry.key, Entry.key, named]
      | _ => simp [Entry.bare] at same

end Consed

end JvmClass.PoolBuilder
