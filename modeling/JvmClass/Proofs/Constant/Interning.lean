import JvmClass.Proofs.Constant.Builder

/-!
# Asking a pool for constants

A request leaves a later state of the pool. Unless an error has been met, the pool then holds what
was asked for, made of what the request was made with.
-/

namespace JvmClass.PoolBuilder

variable {α β : Type} {p p' : PoolBuilder} {pending : Option Nat}

/-- From a sound pool an action leaves a sound later one, which has `post` of what it gives unless
there is an error. -/
def Grants (p : PoolBuilder) (act : Interning α) (pending : Option Nat)
    (post : PoolBuilder → α → Prop) : Prop :=
  p.Sound → p.Extends (act p).2 pending ∧ (act p).2.Sound ∧
    ((act p).2.error = none → post (act p).2 (act p).1)

namespace Grants

variable {post : PoolBuilder → α → Prop}

/-- Giving something grants it. -/
theorem pure {a : α} (holds : p.error = none → post p a) :
    Grants p (pure a) pending post := fun sound => ⟨.refl p, sound, holds⟩

/-- What comes next acts on the pool that comes first, with what it gave. -/
theorem bind_run {x : Interning α} {f : α → Interning β} {post' : PoolBuilder → β → Prop}
    (first : Grants p x none post)
    (next : ∀ a p', x p = (a, p') → p.Extends p' none → (p'.error = none → post p' a) →
      Grants p' (f a) pending post') : Grants p (x >>= f) pending post' := by
  intro sound
  obtain ⟨grown, sound', holds⟩ := first sound
  obtain ⟨grown', sound'', holds'⟩ := next (x p).1 (x p).2 rfl grown holds sound'
  exact ⟨grown.trans grown', sound'', holds'⟩

/-- Actions that grant one after another grant what the last of them does. -/
theorem bind {x : Interning α} {f : α → Interning β} {post' : PoolBuilder → β → Prop}
    (first : Grants p x none post)
    (next : ∀ a p', p.Extends p' none → (p'.error = none → post p' a) →
      Grants p' (f a) pending post') : Grants p (x >>= f) pending post' :=
  first.bind_run fun a p' _ => next a p'

/-- What is granted can be weakened to what follows from it. -/
theorem mono {x : Interning α} {post' : PoolBuilder → α → Prop} (first : Grants p x pending post)
    (weaker : ∀ a p', p.Extends p' pending → p'.error = none → post p' a → post' p' a) :
    Grants p x pending post' := by
  intro sound
  obtain ⟨grown, sound', holds⟩ := first sound
  exact ⟨grown, sound', fun fine => weaker _ _ grown fine (holds fine)⟩

/-- After an error nothing is promised. -/
theorem fail {e : Error} {post : PoolBuilder → Unit → Prop} : Grants p (fail e) pending post :=
  fun _ => ⟨.failed _, (nomatch ·), (nomatch ·)⟩

end Grants

/-- The pool with an entry added under a key. -/
def withEntry (p : PoolBuilder) (key : ConstantKey) (e : Entry) : PoolBuilder :=
  { p with
    slots := p.slots.push (some e) ++ Array.replicate (key.tag.slots - 1) none
    places := p.places.insert key ⟨.output, p.size⟩ }

/-- Asking under a key that is known gives the place that is noted. -/
theorem intern_known {key : ConstantKey} {make : Place → Entry} {place : Place}
    (known : (ensureIndexed p).2.places[key]? = some place) :
    intern key make p = (place, (ensureIndexed p).2) := by
  rw [intern, bind_apply, bind_apply, get_apply]
  simp only [known]
  rfl

/-- Asking under a key that is not known adds a constant at the end, if there is room. -/
theorem intern_fresh {key : ConstantKey} {make : Place → Entry}
    (unknown : (ensureIndexed p).2.places[key]? = none)
    (fits : (ensureIndexed p).2.size + key.tag.slots ≤ maxSize) :
    intern key make p = (⟨.output, (ensureIndexed p).2.size⟩,
      (ensureIndexed p).2.withEntry key (make ⟨.output, (ensureIndexed p).2.size⟩)) := by
  rw [intern, bind_apply, bind_apply, get_apply]
  simp only [unknown]
  rw [bind_apply, get_apply, if_neg (Nat.not_lt.mpr fits)]
  rfl

/-- A full pool records the overflow and enters the constant all the same. -/
theorem intern_full (make : Place → Entry) {key : ConstantKey}
    (unknown : (ensureIndexed p).2.places[key]? = none)
    (full : maxSize < (ensureIndexed p).2.size + key.tag.slots) :
    intern key make p = (⟨.output, (ensureIndexed p).2.size⟩,
      { (ensureIndexed p).2.withEntry key (make ⟨.output, (ensureIndexed p).2.size⟩) with
        error := some (Error.first (ensureIndexed p).2.error (.misuse .poolOverflow)) }) := by
  rw [intern, bind_apply, bind_apply, get_apply]
  simp only [unknown]
  rw [bind_apply, get_apply, if_pos full]
  rfl

/-- Adding a constant makes a later pool. -/
theorem extends_withEntry (p : PoolBuilder) (key : ConstantKey) (e : Entry) :
    p.Extends (p.withEntry key e) pending where
  parent := rfl
  base := rfl
  slots k s here := by
    have inside := (Array.getElem?_eq_some_iff.mp here).1
    rw [withEntry, Array.getElem?_append_left (by rw [Array.size_push]; omega),
      Array.getElem?_push_lt inside]
    exact congrArg some (Array.getElem?_eq_some_iff.mp here).2
  rows _ _ here := here
  error := id
  indexed := id
  used _ r old new := absurd new (Nat.not_lt.mpr old)

/-- An entry that was added stands after all others. -/
theorem has_withEntry (p : PoolBuilder) (key : ConstantKey) {e : Entry}
    (place : e.place = ⟨.output, p.size⟩) : (p.withEntry key e).Has e := by
  refine .own place ?_
  rw [withEntry, Array.getElem?_append_left (by simp), Array.getElem?_push_size]

/-- The invariant of a pool goes on to hold when a constant is added whose parts stand in it. -/
theorem inv_withEntry (inv : p.Inv) (indexed : p.indexed = true) {key : ConstantKey} {e : Entry}
    (place : e.place = ⟨.output, p.size⟩) (keyed : e.key = key) (made : e.Made p.Has p.HasRow)
    (fits : p.size + key.tag.slots ≤ maxSize) : (p.withEntry key e).Inv := by
  have grown : p.Extends (p.withEntry key e) none := extends_withEntry p key e
  have positive : 0 < key.tag.slots := by cases key.tag <;> decide
  exact {
    base := inv.base
    orphan := inv.orphan
    small := by
      have few := inv.small
      simp only [size, withEntry, Array.size_append, Array.size_push, Array.size_replicate] at *
      omega
    exact := inv.exact
    waiting := fun no => absurd (no.symm.trans indexed) (by decide)
    places := fun key' place' known => by
      rw [withEntry, Std.HashMap.getElem?_insert] at known
      split at known
      · rename_i same
        obtain rfl := eq_of_beq same
        exact ⟨e, has_withEntry p key place, place.trans (Option.some.inj known), keyed⟩
      · obtain ⟨e', has, placed, keyed'⟩ := inv.places key' place' known
        exact ⟨e', grown.has has, placed, keyed'⟩
    slots := fun k e' slot => by
      have wider : e'.Made p.Has p.HasRow → e'.Made (p.withEntry key e).Has
          (p.withEntry key e).HasRow := fun made =>
        made.mono (fun _ => grown.has) fun _ => grown.hasRow
      by_cases old : k < p.slots.size
      · rw [withEntry, Array.getElem?_append_left (by rw [Array.size_push]; omega),
          Array.getElem?_push_lt old] at slot
        obtain ⟨placed, made'⟩ := inv.slots k e' (by
          rw [Array.getElem?_eq_getElem old]
          exact slot)
        exact ⟨placed, wider made'⟩
      · by_cases last : k = p.slots.size
        · subst last
          rw [withEntry, Array.getElem?_append_left (by simp), Array.getElem?_push_size] at slot
          obtain rfl := Option.some.inj (Option.some.inj slot)
          exact ⟨place, wider made⟩
        · rw [withEntry, Array.getElem?_append_right (by rw [Array.size_push]; omega),
            Array.getElem?_replicate] at slot
          split at slot <;> cases slot
    spaced := by
      have tag : key.tag = e.tag := by rw [← keyed, e.tag_key]
      rw [withEntry, Array.toList_append, Array.toList_push, Array.toList_replicate,
        List.append_assoc, List.singleton_append, tag]
      exact inv.spaced.concat e
    rows := fun r row here => by
      obtain ⟨number, owned, made'⟩ := inv.rows r row here
      exact ⟨number, owned, made'.mono fun _ => grown.has⟩
    inherited := inv.inherited
    rowOf := inv.rowOf }

/-- What entering some rows leaves: they stand after those before, unless one could not be
read. -/
structure RowsEntered (p : PoolBuilder) (outcomes : List (Except Error BootstrapRow))
    (p' : PoolBuilder) : Prop where
  parent : p'.parent = p.parent
  base : p'.base = p.base
  slots : p'.slots = p.slots
  indexed : p'.indexed = p.indexed
  rows : ∀ (r : Nat) (row : BootstrapRow), p.rows[r]? = some row → p'.rows[r]? = some row
  fine : p'.error = none → p.error = none ∧ ∃ rows : List BootstrapRow,
    outcomes = rows.map .ok ∧ p' = { p with
      rows := p.rows ++ rows.toArray
      rowOf := rows.foldl (fun known row => known.insertIfNew row.key row) p.rowOf }

/-- Entering rows adds those before the first that could not be read. -/
theorem rowsEntered (p : PoolBuilder) (outcomes : List (Except Error BootstrapRow)) :
    RowsEntered p outcomes (enterRows outcomes p).2 := by
  induction outcomes generalizing p with
  | nil => exact ⟨rfl, rfl, rfl, rfl, fun _ _ => id, fun fine => ⟨fine, [], rfl, by simp; rfl⟩⟩
  | cons outcome rest inductionHypothesis =>
      cases outcome with
      | error e => exact ⟨rfl, rfl, rfl, rfl, fun _ _ => id, (nomatch ·)⟩
      | ok row =>
          have after := inductionHypothesis { p with
            rows := p.rows.push row
            rowOf := p.rowOf.insertIfNew row.key row }
          refine ⟨after.parent, after.base, after.slots, after.indexed, fun r row' here => ?_,
            fun fine => ?_⟩
          · have inside := (Array.getElem?_eq_some_iff.mp here).1
            refine after.rows r row' ?_
            rw [Array.getElem?_push_lt inside]
            exact congrArg some (Array.getElem?_eq_some_iff.mp here).2
          · obtain ⟨fine', rows, all, same⟩ := after.fine fine
            refine ⟨fine', row :: rows, by rw [all, List.map_cons], ?_⟩
            change (enterRows rest _).2 = _
            rw [same, List.foldl_cons]
            simp

/-- A row that was entered under a key is one of those with the key. -/
theorem mem_of_rowOf {rows : List BootstrapRow} {known : Std.HashMap (List Nat) BootstrapRow}
    {key : List Nat} {row : BootstrapRow}
    (here : (rows.foldl (fun known row => known.insertIfNew row.key row) known)[key]? = some row) :
    known[key]? = some row ∨ (row ∈ rows ∧ row.key = key) := by
  induction rows generalizing known with
  | nil => exact .inl here
  | cons first rest inductionHypothesis =>
      rcases inductionHypothesis here with before | ⟨member, keyed⟩
      · rw [Std.HashMap.getElem?_insertIfNew] at before
        split at before
        · rename_i fresh
          obtain rfl := Option.some.inj before
          exact .inr ⟨List.mem_cons_self .., eq_of_beq fresh.1⟩
        · exact .inl before
      · exact .inr ⟨List.mem_cons_of_mem _ member, keyed⟩

/-- A pool that enters the constants of its parent. -/
structure Entered (p : PoolBuilder) (input : Input) (p' : PoolBuilder) : Prop where
  parent : p'.parent = some input
  base : p'.base = p.base
  slots : p'.slots = p.slots
  indexed : p'.indexed = true
  rows : ∀ (r : Nat) (row : BootstrapRow), p.rows[r]? = some row → p'.rows[r]? = some row
  fine : p'.error = none → p.error = none ∧
    p'.places = input.pool.entries.foldl enterEntry p.places ∧
    ((∃ e, input.pool.rows = .error e ∧ p'.rows = p.rows ∧ p'.rowOf = p.rowOf) ∨
      ∃ rows : List BootstrapRow, input.pool.rows = .ok (rows.map Except.ok).toArray ∧
        p'.rows = p.rows ++ rows.toArray ∧
        p'.rowOf = rows.foldl (fun known row => known.insertIfNew row.key row) p.rowOf)

/-- A pool that was indexed is not indexed again. -/
theorem ensureIndexed_done (indexed : p.indexed = true) : ensureIndexed p = ((), p) := by
  rw [ensureIndexed, bind_apply, get_apply]
  simp only [indexed, ↓reduceIte]
  rfl

/-- An entry is added under its own key. -/
theorem places_withEntry {p : PoolBuilder} {key other : ConstantKey} {e : Entry}
    (apart : key ≠ other) : (p.withEntry key e).places[other]? = p.places[other]? := by
  rw [withEntry, Std.HashMap.getElem?_insert, if_neg (by simpa using apart)]

/-- A text is added to a pool that does not have it. -/
theorem utf8_fresh {p : PoolBuilder} {text : Text} (indexed : p.indexed = true)
    (unknown : p.places[ConstantKey.text text]? = none) (fits : p.size + 1 ≤ maxSize)
    (short : (ModifiedUtf8.encode text).length ≤ maxTextLength) :
    utf8 text p = (⟨⟨.output, p.size⟩, text⟩,
      p.withEntry (.text text) (.utf8 ⟨⟨.output, p.size⟩, text⟩)) := by
  have done : (ensureIndexed p).2 = p := congrArg Prod.snd (ensureIndexed_done indexed)
  have interned : intern (.text text) (fun place => .utf8 ⟨place, text⟩) p = _ :=
    intern_fresh (by rw [done]; exact unknown) (by rw [done]; exact fits)
  rw [done] at interned
  simp only [utf8, if_neg (Nat.not_lt.mpr short)]
  exact (bind_apply ..).trans (by rw [interned]; rfl)

/-- A pool of texts alone, in their order. -/
def ofTexts (texts : List Text) : PoolBuilder :=
  texts.foldl (fun p text => p.withEntry (.text text) (.utf8 ⟨⟨.output, p.size⟩, text⟩))
    { empty with indexed := true }

/-- A text that such a pool does not have comes last. -/
theorem ofTexts_concat (texts : List Text) (text : Text) :
    ofTexts (texts ++ [text]) =
      (ofTexts texts).withEntry (.text text) (.utf8 ⟨⟨.output, (ofTexts texts).size⟩, text⟩) := by
  rw [ofTexts, List.foldl_append]
  rfl

/-- What there is to be known about a pool of texts. -/
theorem ofTexts_spec (texts : List Text) :
    (ofTexts texts).indexed = true ∧ (ofTexts texts).size = texts.length + 1 ∧
      ∀ text ∉ texts, (ofTexts texts).places[ConstantKey.text text]? = none := by
  induction texts using List.reverseRecOn with
  | nil => exact ⟨rfl, rfl, fun text _ => Std.HashMap.getElem?_empty⟩
  | append_singleton texts last inductionHypothesis =>
      obtain ⟨indexed, size, unknown⟩ := inductionHypothesis
      rw [ofTexts_concat, List.length_append]
      refine ⟨indexed, ?_, fun text new => ?_⟩
      · have grown (p : PoolBuilder) (e : Entry) :
            (p.withEntry (.text last) e).size = p.size + 1 := by
          rw [PoolBuilder.size, withEntry, Array.size_append, Array.size_push]
          rfl
        rw [grown, size]
        rfl
      · rw [List.mem_append, List.mem_singleton, not_or] at new
        have apart : ConstantKey.text last ≠ .text text := fun same =>
          new.2 (ConstantKey.text.inj same).symm
        rw [places_withEntry apart, unknown text new.1]

/-- A pool of texts has no parent. -/
theorem parent_ofTexts (texts : List Text) : (ofTexts texts).parent = none := by
  induction texts using List.reverseRecOn with
  | nil => rfl
  | append_singleton texts last inductionHypothesis =>
      rw [ofTexts_concat]
      exact inductionHypothesis

/-- A text is added to a pool of others. -/
theorem utf8_ofTexts {texts : List Text} {text : Text} (new : text ∉ texts)
    (few : texts.length + 2 ≤ maxSize) (short : (ModifiedUtf8.encode text).length ≤ maxTextLength) :
    utf8 text (ofTexts texts) =
      (⟨⟨.output, texts.length + 1⟩, text⟩, ofTexts (texts ++ [text])) := by
  obtain ⟨indexed, size, unknown⟩ := ofTexts_spec texts
  have asked := utf8_fresh indexed (unknown text new) (by omega) short
  rwa [← ofTexts_concat, size] at asked

/-- Indexing a pool without a parent only notes that it was done. -/
theorem ensureIndexed_orphan (indexed : p.indexed = false) (orphan : p.parent = none) :
    ensureIndexed p = ((), { p with indexed := true }) := by
  rw [ensureIndexed, bind_apply, get_apply]
  simp only [indexed, Bool.false_eq_true, ↓reduceIte]
  rw [bind_apply, modify_apply, bind_apply, get_apply]
  simp only [orphan]
  rfl

/-- The errors that cannot be kept back are recorded first, which leaves the rest as it is. -/
theorem entered_rows {q : PoolBuilder} {parent : Input} (same : q.parent = some parent ∧
    q.base = p.base ∧ q.slots = p.slots ∧ q.indexed = true ∧ q.rows = p.rows ∧ q.rowOf = p.rowOf ∧
    q.places = p.places ∧ (q.error = none → p.error = none)) :
    Entered p parent ((do
      modify fun p => { p with places := parent.pool.entries.foldl enterEntry p.places }
      match parent.pool.rows with
      | .ok rows => enterRows rows.toList
      | _ => pure () : Interning Unit) q).2 := by
  obtain ⟨parentSame, base, slots, indexed', rows, rowOf, places, error⟩ := same
  rw [bind_apply, modify_apply]
  have keep (r : Nat) (row : BootstrapRow) (here : p.rows[r]? = some row) :
      q.rows[r]? = some row := rows ▸ here
  cases given : parent.pool.rows with
  | error e =>
      refine ⟨parentSame, base, slots, indexed', keep, fun fine => ⟨error fine, ?_, .inl ?_⟩⟩
      · exact congrArg (fun places => parent.pool.entries.foldl enterEntry places) places
      · exact ⟨e, given, rows, rowOf⟩
  | ok outcomes =>
      have after := rowsEntered
        { q with places := parent.pool.entries.foldl enterEntry q.places } outcomes.toList
      refine ⟨after.parent.trans parentSame, after.base.trans base, after.slots.trans slots,
        after.indexed.trans indexed', fun r row here => after.rows r row (keep r row here),
        fun fine => ?_⟩
      obtain ⟨fine', entered, all, same⟩ := after.fine fine
      have whole : outcomes = (entered.map Except.ok).toArray := by rw [← all]
      refine ⟨error fine', ?_, .inr ⟨entered, given.trans (congrArg Except.ok whole), ?_, ?_⟩⟩
      · exact (congrArg PoolBuilder.places same).trans
          (congrArg (fun places => parent.pool.entries.foldl enterEntry places) places)
      · exact (congrArg PoolBuilder.rows same).trans
          (congrArg (fun rows => rows ++ entered.toArray) rows)
      · exact (congrArg PoolBuilder.rowOf same).trans (congrArg (fun known =>
          entered.foldl (fun known row => known.insertIfNew row.key row) known) rowOf)

/-- Indexing a pool for the first time enters the constants and rows of its parent. -/
theorem entered_ensureIndexed (indexed : p.indexed = false) {parent : Input}
    (known : p.parent = some parent) : Entered p parent (ensureIndexed p).2 := by
  rw [ensureIndexed, bind_apply, get_apply]
  simp only [indexed, Bool.false_eq_true, ↓reduceIte]
  rw [bind_apply, modify_apply, bind_apply, get_apply]
  simp only [known]
  cases settled : parent.pool.abort? with
  | some e =>
      simp only
      let failed : PoolBuilder := { p with
        parent := some parent
        indexed := true
        error := some (Error.first p.error e) }
      exact entered_rows (q := failed)
        ⟨rfl, rfl, rfl, rfl, rfl, rfl, rfl, fun fine => by cases fine⟩
  | none =>
      simp only
      exact entered_rows (q := { p with parent := some parent, indexed := true })
        ⟨rfl, rfl, rfl, rfl, rfl, rfl, rfl, id⟩

/-- A pool without a parent has nothing to enter. -/
theorem extends_orphan : p.Extends { p with indexed := true } pending where
  parent := rfl
  base := rfl
  slots _ _ here := here
  rows _ _ here := here
  error := id
  indexed _ := rfl
  used _ _ old new := absurd new (Nat.not_lt.mpr old)

/-- The invariant of a pool without a parent goes on to hold when it is indexed. -/
theorem inv_orphan (inv : p.Inv) (indexed : p.indexed = false) (orphan : p.parent = none) :
    { p with indexed := true : PoolBuilder }.Inv := by
  obtain ⟨slots, rows, places, rowOf⟩ := inv.waiting indexed
  exact {
    base := inv.base
    orphan := inv.orphan
    small := inv.small
    exact := inv.exact
    waiting := (nomatch ·)
    places := fun key place known => nomatch (places key).symm.trans known
    slots := fun k e here => by simp [slots] at here
    spaced := inv.spaced
    rows := fun r row here => by simp [rows] at here
    inherited := fun _ parent known => nomatch orphan.symm.trans known
    rowOf := fun key row known => nomatch (rowOf key).symm.trans known }

namespace Entered

variable {input : Input} (entered : p.Entered input p') (indexed : p.indexed = false)
  (known : p.parent = some input) (well : p.Sound)
include entered indexed known well

/-- A pool that enters the constants of its parent is a later state. -/
theorem grown : p.Extends p' none where
  parent := entered.parent.trans known.symm
  base := entered.base
  slots k s here := entered.slots ▸ here
  rows := entered.rows
  error fine := (entered.fine fine).1
  indexed here := nomatch here.symm.trans indexed
  used fine r old new := by
    obtain ⟨fine', -, rows⟩ := entered.fine fine
    obtain ⟨-, none, -⟩ := (well fine').waiting indexed
    rcases rows with ⟨e, -, same, -⟩ | ⟨rows, given, same, -⟩
    · rw [same] at new
      exact absurd new (Nat.not_lt.mpr old)
    · refine .inl ⟨input, entered.parent, ?_⟩
      simpa [Pool.rowCount, given, same, none] using new

/-- A pool that enters the constants of its parent is sound: the keys of the parent find constants
of the parent, and its rows get their own numbers. -/
theorem sound : p'.Sound := by
  intro fine
  obtain ⟨fine', places, rows⟩ := entered.fine fine
  have inv := well fine'
  have grown := entered.grown indexed known well
  obtain ⟨noSlots, noRows, noPlaces, noRowOf⟩ := inv.waiting indexed
  have tells := (inv.exact input known).tells
  have own (e : Entry) (holds : input.layout.Holds input.origin e.index e) : p'.Has e :=
    .inherited entered.parent holds
  have table (rows : List BootstrapRow)
      (given : input.pool.rows = .ok (rows.map Except.ok).toArray) :
      ∀ (r : Nat) (row : BootstrapRow), rows[r]? = some row ↔
        input.layout.RowAt input.origin (input.layout.Holds input.origin) r row := by
    intro r row
    obtain ⟨offsets, isTable, -, each⟩ := tells.rows _ given
    refine ⟨fun here => each r row (by simp [here]), fun rowed => ?_⟩
    obtain ⟨rows', given', each'⟩ := tells.table offsets isTable
    obtain rfl := Except.ok.inj (given.symm.trans given')
    simpa using each' r row rowed
  refine {
    base := fun parent known' => ?_
    orphan := fun orphan => by cases orphan.symm.trans entered.parent
    small := by rw [size, entered.base, entered.slots]; exact inv.small
    exact := fun parent known' => inv.exact parent (grown.parent ▸ known')
    waiting := fun no => by cases no.symm.trans entered.indexed
    places := fun key place here => ?_
    slots := fun k e here => by simp [entered.slots, noSlots] at here
    spaced := by rw [entered.slots]; exact inv.spaced
    rows := fun r row here => ?_
    inherited := fun _ parent known' r row rowed => ?_
    rowOf := fun key row here => ?_ }
  · rw [entered.base]
    exact inv.base parent (grown.parent ▸ known')
  · rw [places, ← Array.foldl_toList, getElem?_foldl_enterEntry, noPlaces, Option.none_or] at here
    obtain ⟨outcome, member, same⟩ := List.exists_of_findSome?_eq_some here
    obtain ⟨i, inside, rfl⟩ := List.getElem_of_mem member
    cases outcome : input.pool.entries.toList[i] with
    | error e => simp [outcome, placeOf?] at same
    | ok e =>
        simp only [outcome, placeOf?, Option.ite_none_right_eq_some, Option.some.injEq] at same
        have holds := tells.entries i e (by
          rw [← Array.getElem?_toList, List.getElem?_eq_getElem inside, outcome])
        refine ⟨e, own e ?_, same.2, same.1⟩
        rw [Entry.index, holds.place]
        exact holds
  · rcases rows with ⟨e, -, same, -⟩ | ⟨rows, given, same, -⟩
    · rw [same, noRows] at here
      simp at here
    · have rowed := (table rows given r row).mp (by simpa [same, noRows] using here)
      refine ⟨rowed.index, ?_, rowed.made.mono own⟩
      simp [owns, entered.parent, rowed.place]
  · obtain rfl := Option.some.inj (entered.parent.symm.trans known')
    rcases rows with ⟨e, unreadable, -, -⟩ | ⟨rows, given, same, -⟩
    · obtain ⟨-, offsets, -, isTable, -⟩ := rowed
      obtain ⟨rows', given', -⟩ := tells.table offsets isTable
      cases unreadable.symm.trans given'
    · simpa [same, noRows] using (table rows given r row).mpr rowed
  · rcases rows with ⟨e, -, -, same⟩ | ⟨rows, given, same, known⟩
    · rw [same] at here
      cases (noRowOf key).symm.trans here
    · rw [known] at here
      rcases mem_of_rowOf here with before | ⟨member, keyed⟩
      · cases (noRowOf key).symm.trans before
      · obtain ⟨r, inside, rfl⟩ := List.getElem_of_mem member
        have here' : rows[r]? = some rows[r] := List.getElem?_eq_getElem inside
        refine ⟨?_, keyed⟩
        rw [((table rows given r rows[r]).mp here').index, same, noRows]
        simp

end Entered

/-- After indexing, a pool is indexed. -/
theorem indexed_ensureIndexed (p : PoolBuilder) : (ensureIndexed p).2.indexed = true := by
  cases indexed : p.indexed with
  | true => rwa [ensureIndexed_done indexed]
  | false =>
      cases known : p.parent with
      | none => rw [ensureIndexed_orphan indexed known]
      | some parent => exact (entered_ensureIndexed indexed known).indexed

/-- Indexing a sound pool leaves a sound one. -/
theorem grants_ensureIndexed :
    Grants p ensureIndexed none fun p' _ => p'.indexed = true := by
  intro sound
  cases indexed : p.indexed with
  | true =>
      rw [ensureIndexed_done indexed]
      exact ⟨.refl p, sound, fun _ => indexed⟩
  | false =>
      cases known : p.parent with
      | none =>
          rw [ensureIndexed_orphan indexed known]
          refine ⟨extends_orphan, fun fine => inv_orphan (sound fine) indexed known, fun _ => rfl⟩
      | some parent =>
          have entered := entered_ensureIndexed indexed known
          exact ⟨entered.grown indexed known sound, entered.sound indexed known sound,
            fun _ => entered.indexed⟩

/-- Asking under a key grants a constant of the pool, if what it is made of stands there. -/
theorem grants_intern {key : ConstantKey} {make : Place → Entry}
    (placed : ∀ place, (make place).place = place) (keyed : ∀ place, (make place).key = key)
    (made : p.error = none → ∀ place, (make place).Made p.Has p.HasRow) :
    Grants p (intern key make) none fun p' place => p'.Has (make place) := by
  intro sound
  obtain ⟨grown, sound', -⟩ := grants_ensureIndexed sound
  have indexed := indexed_ensureIndexed p
  obtain ⟨q, same⟩ : ∃ q, (ensureIndexed p).2 = q := ⟨_, rfl⟩
  rw [same] at grown sound' indexed
  have made' (fine : q.error = none) (place : Place) : (make place).Made q.Has q.HasRow :=
    (made (grown.error fine) place).mono (fun _ => grown.has) fun _ => grown.hasRow
  cases known : q.places[key]? with
  | some place =>
      rw [intern_known (by rw [same, known]), same]
      refine ⟨grown, sound', fun fine => ?_⟩
      obtain ⟨e, has, placed', keyed'⟩ := (sound' fine).places key place known
      rw [← (sound' fine).eq_of_key indexed ((sound' fine).made has) (made' fine place)
        (by rw [keyed', keyed]) (by rw [placed', placed])]
      exact has
  | none =>
      have grown' : p.Extends (q.withEntry key (make ⟨.output, q.size⟩)) none :=
        grown.trans (extends_withEntry q key _)
      by_cases fits : q.size + key.tag.slots ≤ maxSize
      · rw [intern_fresh (by rw [same, known]) (by rw [same]; exact fits), same]
        refine ⟨grown', fun fine => ?_, fun fine => has_withEntry q key (placed _)⟩
        exact inv_withEntry (sound' fine) indexed (placed _) (keyed _) (made' fine _) fits
      · rw [intern_full make (by rw [same, known]) (by rw [same]; exact Nat.not_le.mp fits), same]
        exact ⟨grown'.trans (.failed _), (nomatch ·), (nomatch ·)⟩

end JvmClass.PoolBuilder
