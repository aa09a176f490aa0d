import JvmClass.Proofs.Constant.Adoption

/-!
# What every request keeps

Whatever is asked of a pool, and with whatever arguments, what the pool has taken from its parent
stays: the constants of the parent at their indices and its rows at their numbers. Everything that
is added comes after them.
-/

namespace JvmClass.PoolBuilder

variable {α β : Type} {p p' p'' : PoolBuilder} {i : Input}

/-- A text has its place in the parent or among the added constants. -/
inductive Spelled (i : Input) (p : PoolBuilder) (text : Text) (place : Place) : Prop
  | inherited {u : Utf8Entry} (entry : .ok (.utf8 u) ∈ i.pool.entries) (same : u.text = text)
      (stands : u.place = place)
  | own {k : Nat} (stands : place = ⟨.output, p.base + k⟩)
      (slot : p.slots[k]? = some (some (.utf8 ⟨place, text⟩)))

/-- A pool that keeps what it took from an input, with every constant that was added in the slots
of its tag and every text short enough to be stored. -/
structure Keeps (i : Input) (p : PoolBuilder) : Prop where
  parent : p.parent = some i
  base : p.base = i.pool.size
  waiting : p.indexed = false → p.slots = #[] ∧ p.rows = #[] ∧ ∀ key :
  ConstantKey, p.places[key]? = none
  small : p.size ≤ maxSize
  spaced : Spaced p.slots.toList
  short : ∀ (k : Nat) (u : Utf8Entry), p.slots[k]? = some (some (.utf8 u)) →
    (ModifiedUtf8.encode u.text).length ≤ maxTextLength
  texts : ∀ text place, p.places[ConstantKey.text text]? = some place → Spelled i p text place
  rows : p.indexed = true → ∀ outcomes, i.pool.rows = .ok outcomes →
    ∃ rows : List BootstrapRow, outcomes = (rows.map .ok).toArray ∧
      ∀ (r : Nat) (row : BootstrapRow), rows[r]? = some row → p.rows[r]? = some row

/-- A later state of a pool: an error that was met stays, and so do the places of constants, the
rows and what was taken from an input. -/
structure Grows (p p' : PoolBuilder) : Prop where
  error : p'.error = none → p.error = none
  indexed : p.indexed = true → p'.indexed = true
  places : p'.error = none → ∀ (key : ConstantKey) (place : Place), p.places[key]? = some place →
    p'.places[key]? = some place
  rows : ∀ (r : Nat) (row : BootstrapRow), p.rows[r]? = some row → p'.rows[r]? = some row
  keeps : ∀ i, p'.error = none → Keeps i p → Keeps i p'

namespace Grows

/-- A pool grows into itself. -/
theorem refl (p : PoolBuilder) : p.Grows p :=
  ⟨id, id, fun _ _ _ => id, fun _ _ => id, fun _ _ keeps => keeps⟩

/-- What grows twice has grown. -/
theorem trans (first : p.Grows p') (second : p'.Grows p'') : p.Grows p'' where
  error fine := first.error (second.error fine)
  indexed done := second.indexed (first.indexed done)
  places fine key place known :=
    second.places fine key place (first.places (second.error fine) key place known)
  rows r row here := second.rows r row (first.rows r row here)
  keeps i fine keeps := second.keeps i fine (first.keeps i (second.error fine) keeps)

/-- After an error nothing more is promised. -/
theorem failed {e : Error} (failed : p'.error = some e)
    (indexed : p.indexed = true → p'.indexed = true)
    (rows : ∀ (r : Nat) (row : BootstrapRow), p.rows[r]? = some row → p'.rows[r]? = some row) :
    p.Grows p' where
  error fine := nomatch failed.symm.trans fine
  indexed := indexed
  places fine := nomatch failed.symm.trans fine
  rows := rows
  keeps _ fine := nomatch failed.symm.trans fine

end Grows

/-- An action leaves a later state of every pool. -/
def Grow (act : Interning α) : Prop := ∀ p : PoolBuilder, p.Grows (act p).2

namespace Grow

/-- Doing nothing leaves the pool as it was. -/
theorem pure (a : α) : Grow (pure a) := fun p => .refl p

/-- Actions under which pools grow let them grow one after another. -/
theorem bind {x : Interning α} {f : α → Interning β} (first : Grow x) (next : ∀ a, Grow (f a)) :
    Grow (x >>= f) := fun p => (first p).trans (next (x p).1 (x p).2)

/-- Looking at a pool leaves it as it was. -/
theorem get : Grow get := fun p => .refl p

/-- An error leaves what the pool has. -/
theorem fail (e : Error) : Grow (fail e) :=
  fun p => .failed (e := Error.first p.error e) rfl id fun _ _ => id

/-- A choice between two actions under which pools grow is one. -/
theorem ite {c : Prop} [Decidable c] {x y : Interning α} (first : Grow x) (second : Grow y) :
    Grow (if c then x else y) := by
  split <;> assumption

end Grow

/-- The key of an entry spells a text when the entry is that text. -/
theorem key_eq_text_iff {e : Entry} {text : Text} :
    e.key = .text text ↔ ∃ u, e = .utf8 u ∧ u.text = text := by
  cases e with
  | utf8 u => simp [Entry.key]
  | loadable a => cases a <;> simp [Entry.key, Loadable.key, ConstantKey.integral]
  | _ => simp [Entry.key]

/-- What is asked for under a key: a constant of that key, wherever it comes to stand. -/
structure AsksFor (key : ConstantKey) (make : Place → Entry) : Prop where
  placed : ∀ place, (make place).place = place
  keyed : ∀ place, (make place).key = key

/-- Indexing lets a pool grow by the places of the parent's constants and the parent's rows. -/
theorem grow_ensureIndexed : Grow ensureIndexed := by
  intro p
  cases indexed : p.indexed with
  | true =>
      rw [ensureIndexed_done indexed]
      exact .refl p
  | false =>
      cases known : p.parent with
      | none =>
          rw [ensureIndexed_orphan indexed known]
          exact ⟨id, fun _ => rfl, fun _ _ _ => id, fun _ _ => id,
            fun i _ keeps => by cases known.symm.trans keeps.parent⟩
      | some parent =>
          have entered := entered_ensureIndexed indexed known
          refine ⟨fun fine => (entered.fine fine).1, fun _ => entered.indexed,
            fun fine key place here => ?_, entered.rows, fun i fine keeps => ?_⟩
          · rw [(entered.fine fine).2.1, ← Array.foldl_toList, getElem?_foldl_enterEntry, here,
              Option.some_or]
          obtain rfl : parent = i := Option.some.inj (known.symm.trans keeps.parent)
          obtain ⟨-, places, rows⟩ := entered.fine fine
          obtain ⟨noSlots, noRows, noPlaces⟩ := keeps.waiting indexed
          exact {
            parent := entered.parent
            base := entered.base.trans keeps.base
            waiting := fun no => by cases entered.indexed.symm.trans no
            small := by rw [size, entered.base, entered.slots]; exact keeps.small
            spaced := by rw [entered.slots]; exact keeps.spaced
            short := by rw [entered.slots]; exact keeps.short
            texts := fun text place here => by
              rw [places, ← Array.foldl_toList, getElem?_foldl_enterEntry, noPlaces, Option.none_or]
                at here
              obtain ⟨outcome, member, found⟩ := List.exists_of_findSome?_eq_some here
              cases outcome with
              | error e => cases found
              | ok e =>
                  rw [placeOf?] at found
                  split at found
                  · rename_i keyed
                    obtain ⟨u, rfl, spelled⟩ := key_eq_text_iff.mp keyed
                    exact .inherited (Array.mem_toList_iff.mp member) spelled
                      (Option.some.inj found)
                  · cases found
            rows := fun _ outcomes given => by
              rcases rows with ⟨e, failed, -⟩ | ⟨rows, same, all, -⟩
              · cases failed.symm.trans given
              · obtain rfl := Except.ok.inj (same.symm.trans given)
                refine ⟨rows, rfl, fun r row here => ?_⟩
                rw [all, noRows]
                simpa using here }

/-- A slot after an entry was added is one from before or that of the entry. -/
theorem slot_withEntry {key : ConstantKey} {e e' : Entry} {k : Nat}
    (slot : (p.withEntry key e).slots[k]? = some (some e')) :
    p.slots[k]? = some (some e') ∨ k = p.slots.size ∧ e' = e := by
  rw [withEntry] at slot
  simp only [Array.getElem?_append, Array.getElem?_push, Array.size_push,
    Array.getElem?_replicate] at slot
  grind

/-- Adding an entry under its key. -/
theorem keeps_withEntry (keeps : Keeps i p) (indexed : p.indexed = true) {e : Entry}
    (placed : e.place = ⟨.output, p.size⟩) (fits : p.size + e.tag.slots ≤ maxSize)
    (short : ∀ text, e.key = .text text → (ModifiedUtf8.encode text).length ≤ maxTextLength) :
    Keeps i (p.withEntry e.key e) := by
  have grown : p.Extends (p.withEntry e.key e) none := extends_withEntry p e.key e
  have list : (p.withEntry e.key e).slots.toList =
      p.slots.toList ++ some e :: List.replicate (e.tag.slots - 1) none := by
    simp [withEntry, e.tag_key]
  have positive : 1 ≤ e.tag.slots := by cases e.tag <;> decide
  have base : (p.withEntry e.key e).base = p.base := rfl
  exact {
    parent := keeps.parent
    base := keeps.base
    waiting := fun no => by cases indexed.symm.trans no
    small := by
      have length := congrArg List.length list
      simp only [Array.length_toList, List.length_append, List.length_cons, List.length_replicate]
        at length
      rw [size] at fits ⊢
      omega
    spaced := by rw [list]; exact keeps.spaced.concat e
    short := fun k u slot => by
      rcases slot_withEntry slot with old | ⟨-, rfl⟩
      · exact keeps.short k u old
      · exact short u.text rfl
    texts := fun text place known => by
      rw [withEntry, Std.HashMap.getElem?_insert] at known
      split at known
      · rename_i same
        obtain ⟨u, rfl, rfl⟩ := key_eq_text_iff.mp (eq_of_beq same)
        obtain rfl := Option.some.inj known
        refine .own (k := p.slots.size) rfl ?_
        have here : Entry.utf8 u = .utf8 ⟨⟨.output, p.size⟩, u.text⟩ := by
          rw [← placed]
          rfl
        rw [← here, withEntry, Array.getElem?_append_left (by simp), Array.getElem?_push_size]
      · cases keeps.texts text place known with
        | inherited entry same stands => exact .inherited entry same stands
        | own stands slot => exact .own stands (grown.slots _ _ slot)
    rows := keeps.rows }

/-- A constant is found or added, whatever is asked for. -/
theorem grow_intern {key : ConstantKey} {make : Place → Entry} (asks : AsksFor key make)
    (short : p.error = none → ∀ text, key = .text text →
      (ModifiedUtf8.encode text).length ≤ maxTextLength) : p.Grows (intern key make p).2 := by
  have entered := grow_ensureIndexed p
  have indexed := indexed_ensureIndexed p
  obtain ⟨q, same⟩ : ∃ q, (ensureIndexed p).2 = q := ⟨_, rfl⟩
  rw [same] at entered indexed
  cases known : q.places[key]? with
  | some place =>
      rw [intern_known (by rw [same, known]), same]
      exact entered
  | none =>
      by_cases fits : q.size + key.tag.slots ≤ maxSize
      · rw [intern_fresh (by rw [same, known]) (by rw [same]; exact fits), same]
        have kept (other : ConstantKey) (place : Place) (here : q.places[other]? = some place) :
            (q.withEntry key (make ⟨.output, q.size⟩)).places[other]? = some place := by
          rw [withEntry, Std.HashMap.getElem?_insert]
          split
          · rename_i same
            cases (eq_of_beq same ▸ known).symm.trans here
          · exact here
        refine entered.trans ⟨id, id, fun _ => kept, fun _ _ => id, fun i fine keeps => ?_⟩
        obtain ⟨e, made⟩ : ∃ e, make ⟨.output, q.size⟩ = e := ⟨_, rfl⟩
        have placed : e.place = ⟨.output, q.size⟩ := made ▸ asks.placed _
        obtain rfl : e.key = key := made ▸ asks.keyed _
        rw [made]
        exact keeps_withEntry keeps indexed placed (e.tag_key ▸ fits) (short (entered.error fine))
      · rw [intern_full make (by rw [same, known]) (by rw [same]; exact Nat.not_le.mp fits), same]
        exact entered.trans (.failed rfl id fun _ _ => id)

/-- Where a constant was found or added it is found again. -/
theorem places_intern {key : ConstantKey} {make : Place → Entry}
    (fine : (intern key make p).2.error = none) :
    (intern key make p).2.places[key]? = some (intern key make p).1 := by
  cases known : (ensureIndexed p).2.places[key]? with
  | some place => rw [intern_known known, known]
  | none =>
      by_cases fits : (ensureIndexed p).2.size + key.tag.slots ≤ maxSize
      · rw [intern_fresh known fits, withEntry, Std.HashMap.getElem?_insert_self]
      · rw [intern_full make known (Nat.not_le.mp fits)] at fine
        cases fine

/-- After a text was asked for without an error, its place is the one that was given. -/
theorem places_utf8 {text : Text} (fine : (utf8 text p).2.error = none) :
    (utf8 text p).2.places[ConstantKey.text text]? = some (utf8 text p).1.place := by
  obtain ⟨q, same⟩ : ∃ q, utf8 text p =
      (⟨(intern (.text text) (fun p => .utf8 ⟨p, text⟩) q).1, text⟩,
        (intern (.text text) (fun p => .utf8 ⟨p, text⟩) q).2) := by
    rw [utf8]
    split
    · exact ⟨_, rfl⟩
    · exact ⟨p, rfl⟩
  rw [same] at fine ⊢
  exact places_intern fine

/-! Every request. -/

/-- Asking under a key other than a text's lets a pool grow. -/
theorem grow_keyed {key : ConstantKey} {make : Place → Entry} (asks : AsksFor key make)
    (plain : ∀ text, key ≠ .text text) : Grow (intern key make) := fun _ =>
  grow_intern asks fun _ text same => absurd same (plain text)

/-- Asking for a text lets a pool grow, as only texts short enough are added. -/
theorem grow_utf8 (text : Text) : Grow (utf8 text) := by
  intro p
  have interned (q : PoolBuilder)
      (short : q.error = none → (ModifiedUtf8.encode text).length ≤ maxTextLength) :
      q.Grows ((do return ⟨← intern (.text text) fun p => .utf8 ⟨p, text⟩, text⟩ :
        Interning Utf8Entry) q).2 := by
    have asks : AsksFor (.text text) fun p => .utf8 ⟨p, text⟩ := ⟨fun _ => rfl, fun _ => rfl⟩
    have grown : q.Grows (intern (.text text) (fun p => .utf8 ⟨p, text⟩) q).2 :=
      grow_intern asks fun fine text' same => by
        obtain rfl := ConstantKey.text.inj same
        exact short fine
    exact grown
  rw [utf8]
  split
  · exact (Grow.fail _ p).trans (interned _ fun fine => by cases fine)
  · rename_i short
    exact interned p fun _ => Nat.not_lt.mp short

/-- Adopting a text lets a pool grow. -/
theorem grow_adoptUtf8 (e : Utf8Entry) : Grow (adoptUtf8 e) :=
  .bind .get fun _ => .ite (.pure _) (grow_utf8 _)

/-- Asking for a loadable constant lets a pool grow. -/
theorem grow_internLoadable {make : Place → Loadable} (placed : ∀ place, (make place).place = place)
    (keyed : ∀ place, (make place).key = (make default).key) : Grow (internLoadable make) :=
  .bind (grow_keyed ⟨placed, keyed⟩ fun text same => by
    cases made : make default <;> simp_all [Loadable.key, ConstantKey.integral]) fun _ => .pure _

/-- Asking for a number of 32 bits lets a pool grow. -/
theorem grow_integer (n : Int) : Grow (integer n) := grow_internLoadable (fun _ => rfl) fun _ => rfl

/-- Asking for the bits of a float lets a pool grow. -/
theorem grow_float (bits : Nat) : Grow (float bits) :=
  grow_internLoadable (fun _ => rfl) fun _ => rfl

/-- Asking for a number of 64 bits lets a pool grow. -/
theorem grow_long (n : Int) : Grow (long n) := grow_internLoadable (fun _ => rfl) fun _ => rfl

/-- Asking for the bits of a double lets a pool grow. -/
theorem grow_double (bits : Nat) : Grow (double bits) :=
  grow_internLoadable (fun _ => rfl) fun _ => rfl

/-- Asking for a class by its name lets a pool grow. -/
theorem grow_classOf (name : Utf8Entry) : Grow (classOf name) :=
  .bind (grow_adoptUtf8 name) fun _ =>
    .bind (grow_keyed ⟨fun _ => rfl, fun _ => rfl⟩ (by simp)) fun _ => .pure _

/-- Asking for a class by the text of its name lets a pool grow. -/
theorem grow_class (internalName : Text) : Grow (class_ internalName) :=
  .bind (grow_utf8 _) grow_classOf

/-- Asking for the class of a descriptor lets a pool grow. -/
theorem grow_classFor (d : Descriptor) : Grow (classFor d) := by
  rw [classFor]
  split
  · exact .bind (.fail _) fun _ => grow_class _
  · exact grow_class _

/-- Adopting a class lets a pool grow. -/
theorem grow_adoptClass (e : ClassEntry) : Grow (adoptClass e) :=
  .bind .get fun _ => .ite (.pure _) (grow_class _)

/-- Asking for a string lets a pool grow. -/
theorem grow_string (text : Text) : Grow (string text) :=
  .bind (grow_utf8 _) fun _ => grow_internLoadable (fun _ => rfl) fun _ => rfl

/-- Asking for a method type lets a pool grow. -/
theorem grow_methodType (descriptor : Text) : Grow (methodType descriptor) :=
  .bind (grow_utf8 _) fun _ => grow_internLoadable (fun _ => rfl) fun _ => rfl

/-- Asking for a name and type by their constants lets a pool grow. -/
theorem grow_nameAndTypeOf (name type : Utf8Entry) : Grow (nameAndTypeOf name type) :=
  .bind (grow_adoptUtf8 _) fun _ => .bind (grow_adoptUtf8 _) fun _ =>
    .bind (grow_keyed ⟨fun _ => rfl, fun _ => rfl⟩ (by simp)) fun _ => .pure _

/-- Asking for a name and type by their texts lets a pool grow. -/
theorem grow_nameAndType (name type : Text) : Grow (nameAndType name type) :=
  .bind (grow_utf8 _) fun _ => .bind (grow_utf8 _) fun _ => grow_nameAndTypeOf _ _

/-- Adopting a name and type lets a pool grow. -/
theorem grow_adoptNameAndType (e : NameAndTypeEntry) : Grow (adoptNameAndType e) :=
  .bind .get fun _ => .ite (.pure _) (grow_nameAndType _ _)

/-- Asking for a member lets a pool grow. -/
theorem grow_memberOf (kind : MemberKind) (owner : ClassEntry) (nt : NameAndTypeEntry) :
    Grow (memberOf kind owner nt) :=
  .bind (grow_adoptClass _) fun _ => .bind (grow_adoptNameAndType _) fun _ =>
    .bind (grow_keyed ⟨fun _ => rfl, fun _ => rfl⟩ (by simp)) fun _ => .pure _

/-- Asking for a member by texts lets a pool grow. -/
theorem grow_member (kind : MemberKind) (owner : ClassEntry) (name type : Text) :
    Grow (member kind owner name type) := .bind (grow_nameAndType _ _) fun _ => grow_memberOf _ _ _

/-- Adopting a member lets a pool grow. -/
theorem grow_adoptMember (e : MemberEntry) : Grow (adoptMember e) :=
  .bind .get fun _ => .ite (.pure _) (grow_memberOf _ _ _)

/-- Asking for a handle lets a pool grow. -/
theorem grow_handle (kind : HandleKind) (target : MemberEntry) : Grow (handle kind target) := by
  have made : Grow (do
      let target ← adoptMember target
      let place ← intern (.pair .methodHandle kind.byte.toNat target.place.index) fun place =>
        .loadable (.handle { place, kind, target })
      return { place, kind, target } : Interning HandleEntry) :=
    .bind (grow_adoptMember _) fun _ =>
      .bind (grow_keyed ⟨fun _ => rfl, fun _ => rfl⟩ (by simp)) fun _ => .pure _
  rw [handle]
  split
  · exact .bind (.fail _) fun _ => made
  · exact made

/-- Adopting a handle lets a pool grow. -/
theorem grow_adoptHandle (e : HandleEntry) : Grow (adoptHandle e) :=
  .bind .get fun _ => .ite (.pure _) (grow_handle _ _)

/-- A row that is added comes after those that were entered. -/
theorem grows_internRow (handle : HandleEntry) (arguments : List Loadable)
    (indexed : p.indexed = true) : p.Grows (internRow handle arguments p).2 := by
  cases known : p.rowOf[(BootstrapRow.mk ⟨.output, p.rows.size⟩ handle arguments).key]? with
  | some row =>
      rw [internRow_known known]
      exact .refl p
  | none =>
      rw [internRow_fresh known]
      have grown : p.Extends (p.withRow (.mk ⟨.output, p.rows.size⟩ handle arguments))
          (some p.rows.size) := extends_withRow rfl
      refine ⟨id, id, fun _ _ _ => id, grown.rows, fun i fine keeps => ?_⟩
      exact {
        parent := keeps.parent
        base := keeps.base
        waiting := fun no => nomatch indexed.symm.trans no
        small := keeps.small
        spaced := keeps.spaced
        short := keeps.short
        texts := fun text place known => by
          cases keeps.texts text place known with
          | inherited entry same stands => exact .inherited entry same stands
          | own stands slot => exact .own stands slot
        rows := fun _ outcomes given => by
          obtain ⟨rows, same, entered⟩ := keeps.rows indexed outcomes given
          exact ⟨rows, same, fun r row here => grown.rows r row (entered r row here)⟩ }

/-- Asking for a dynamic constant by its row lets a pool grow. -/
theorem grow_internDynamic (row : BootstrapRow) (nt : NameAndTypeEntry) :
    Grow (internDynamic row nt) :=
  .bind (grow_adoptNameAndType _) fun _ => grow_internLoadable (fun _ => rfl) fun _ => rfl

mutual

/-- Adopting a loadable constant lets a pool grow, with the rows that it takes. -/
theorem grow_adoptLoadable : ∀ e : Loadable, Grow (adoptLoadable e)
  | .integer _ n => by
    rw [adoptLoadable]
    exact .bind .get fun _ => .ite (.pure _) (grow_integer n)
  | .float _ bits => by
    rw [adoptLoadable]
    exact .bind .get fun _ => .ite (.pure _) (grow_float bits)
  | .long _ n => by
    rw [adoptLoadable]
    exact .bind .get fun _ => .ite (.pure _) (grow_long n)
  | .double _ bits => by
    rw [adoptLoadable]
    exact .bind .get fun _ => .ite (.pure _) (grow_double bits)
  | .class c => by
    rw [adoptLoadable]
    exact .bind .get fun _ => .ite (.pure _) (.bind (grow_class _) fun _ => .pure _)
  | .string _ utf8 => by
    rw [adoptLoadable]
    exact .bind .get fun _ => .ite (.pure _) (grow_string _)
  | .methodType _ descriptor => by
    rw [adoptLoadable]
    exact .bind .get fun _ => .ite (.pure _) (grow_methodType _)
  | .handle h => by
    rw [adoptLoadable]
    exact .bind .get fun _ => .ite (.pure _) (.bind (grow_handle _ _) fun _ => .pure _)
  | .dynamic _ row nt => by
    rw [adoptLoadable]
    exact .bind .get fun _ => .ite (.pure _)
      (.bind (grow_adoptRow row) fun _ => grow_internDynamic _ _)

/-- Adopting a row lets a pool grow, with its handle and arguments. -/
theorem grow_adoptRow : ∀ row : BootstrapRow, Grow (adoptRow row)
  | .mk place handle arguments => by
    intro p
    rw [adoptRow]
    have indexed := indexed_ensureIndexed p
    have entered := grow_ensureIndexed p
    rw [bind_apply]
    obtain ⟨q, same⟩ : ∃ q, (ensureIndexed p).2 = q := ⟨_, rfl⟩
    rw [same] at indexed entered ⊢
    refine entered.trans ?_
    rw [bind_apply, get_apply]
    split
    · exact .refl q
    · refine (grow_adoptHandle handle q).trans ((grow_adoptArguments arguments _).trans ?_)
      exact grows_internRow _ _ ((grow_adoptArguments arguments _).indexed
        ((grow_adoptHandle handle q).indexed indexed))

/-- Adopting arguments lets a pool grow. -/
theorem grow_adoptArguments : ∀ as : List Loadable, Grow (adoptArguments as)
  | [] => by
    rw [adoptArguments]
    exact .pure _
  | a :: rest => by
    rw [adoptArguments]
    exact .bind (grow_adoptLoadable a) fun _ => .bind (grow_adoptArguments rest) fun _ => .pure _

end

/-- Asking for a row with adopted parts lets a pool grow. -/
theorem grow_bootstrap (handle : HandleEntry) (arguments : List Loadable) :
    Grow (bootstrap handle arguments) := by
  intro p
  refine (grow_ensureIndexed p).trans ((grow_adoptHandle handle _).trans
    ((grow_adoptArguments arguments _).trans ?_))
  exact grows_internRow _ _ ((grow_adoptArguments arguments _).indexed
    ((grow_adoptHandle handle _).indexed (indexed_ensureIndexed p)))

/-- Asking for a dynamic constant lets a pool grow. -/
theorem grow_dynamic (row : BootstrapRow) (nt : NameAndTypeEntry) : Grow (dynamic row nt) :=
  .bind (grow_adoptRow _) fun _ => grow_internDynamic _ _

/-- Asking for a call site lets a pool grow. -/
theorem grow_callSite (row : BootstrapRow) (nt : NameAndTypeEntry) : Grow (callSite row nt) :=
  .bind (grow_adoptRow _) fun _ => .bind (grow_adoptNameAndType _) fun _ =>
    .bind (grow_keyed ⟨fun _ => rfl, fun _ => rfl⟩ (by simp)) fun _ => .pure _

/-- Asking for a module lets a pool grow. -/
theorem grow_module (name : Text) : Grow (module name) :=
  .bind (grow_utf8 _) fun _ =>
    .bind (grow_keyed ⟨fun _ => rfl, fun _ => rfl⟩ (by simp)) fun _ => .pure _

/-- Asking for a package lets a pool grow. -/
theorem grow_package (name : Text) : Grow (package name) :=
  .bind (grow_utf8 _) fun _ =>
    .bind (grow_keyed ⟨fun _ => rfl, fun _ => rfl⟩ (by simp)) fun _ => .pure _

/-- Asking for the index of any constant lets a pool grow. -/
theorem grow_indexOf (e : Entry) : Grow (indexOf e) := by
  refine .bind .get fun _ => .ite (.pure _) ?_
  cases e with
  | utf8 e => exact .bind (grow_utf8 _) fun _ => .pure _
  | loadable e => exact .bind (grow_adoptLoadable _) fun _ => .pure _
  | nameAndType e => exact .bind (grow_nameAndType _ _) fun _ => .pure _
  | member e => exact .bind (grow_memberOf _ _ _) fun _ => .pure _
  | callSite e => exact .bind (grow_callSite _ _) fun _ => .pure _
  | module e => exact .bind (grow_module _) fun _ => .pure _
  | package e => exact .bind (grow_package _) fun _ => .pure _

/-- Counting the rows lets a pool grow, as it may index the parent. -/
theorem grow_rowCount : Grow rowCount :=
  .bind grow_ensureIndexed fun _ => .bind .get fun _ => .pure _

/-- Looking up a row lets a pool grow, as it may index the parent. -/
theorem grow_row (r : Int) : Grow (row r) :=
  .bind grow_ensureIndexed fun _ => .bind .get fun _ => .ite (.pure _) (by split <;> exact .pure _)

end JvmClass.PoolBuilder
