import JvmClass.Proofs.Constant.Ends
import JvmClass.Proofs.Constant.Pool
import JvmClass.Proofs.Constant.References

/-!
# Calls of a pool do not depend on earlier calls

The pool of a class file answers for an entry, for a bootstrap row and for the number of rows,
decoding on the way what has not been decoded before. Whatever was called before, a call gives
what it would give first of all, and what it has given once is remembered and given again.
References that go round in a circle make a call fail, but it always ends.
-/

namespace JvmClass.Lookup

variable {α : Type} {l : Layout} {origin : Origin}

/-- A call of the pool of a class file. -/
inductive Call where
  | entry (index : Int)
  | row (number : Int)
  | rowCount

/-- What a call gives. -/
inductive Answer where
  | entry (e : Entry)
  | row (row : BootstrapRow)
  | rowCount (n : Nat)

namespace Call

/-- The lookup that a call makes, if references are followed to the given depth. -/
def within (l : Layout) (origin : Origin) (depth : Nat) : Call → Lookup Answer
  | .entry i => do
    if i < 0 then throw (.flaw 0 (.notAnEntry i l.size))
    return .entry (← entryWithin l origin depth [] i.toNat)
  | .row r => do return .row (← Lookup.row l origin (entryWithin l origin depth []) r)
  | .rowCount => do
    match ← findTable.observing (findTable l (entryWithin l origin depth [])) with
    | .ok table => return .rowCount table.size
    | .error _ => return .rowCount 0

/-- The lookup that a call makes. -/
def look (l : Layout) (origin : Origin) (call : Call) : Lookup Answer :=
  call.within l origin (l.size + 1)

/-- What a call gives from a memo, or nothing if it fails. -/
def answer? (l : Layout) (origin : Origin) (call : Call) (m : Memo) : Option Answer :=
  (runFrom (call.look l origin) m).1.toOption

/-- What a memo remembers for a call. -/
def recalled? (m : Memo) : Call → Option Answer
  | .entry i => if i < 0 then none else m.entries[i.toNat]?.join.map .entry
  | .row r => if r < 0 then none else m.rows[r.toNat]?.join.map .row
  | .rowCount =>
    match m.table with
    | some (.ok table) => some (.rowCount table.size)
    | some (.error _) => some (.rowCount 0)
    | none => none

end Call

/-- The memo that calls leave, from the one that remembers nothing. -/
def after (l : Layout) (origin : Origin) (calls : List Call) : Memo :=
  calls.foldl (fun m call => (runFrom (call.look l origin) m).2) (fresh l)

/-! ## What calls give -/

/-- The right answer to a call: what is held. -/
inductive Call.Gives (l : Layout) (origin : Origin) : Call → Answer → Prop
  | entry {i : Nat} {e : Entry} (holds : l.Holds origin i e) : Gives l origin (.entry i) (.entry e)
  | row {r : Nat} {row : BootstrapRow} (rowed : l.RowAt origin (l.Holds origin) r row) :
      Gives l origin (.row r) (.row row)
  | rowCount {table : Array Nat} (isTable : l.IsTable origin table) :
      Gives l origin .rowCount (.rowCount table.size)
  | noRows (fruitless : ∀ table, ¬l.IsTable origin table) : Gives l origin .rowCount (.rowCount 0)

/-- A call for the number of rows counts those of the table that is found, and there are none if it
cannot be read. -/
theorem run_rowCount (m : Memo) :
    runFrom (Call.rowCount.look l origin) m =
      (.ok (.rowCount (match (runFrom (findTable l (entry l origin)) m).1 with
        | .ok table => table.size
        | .error _ => 0)), (runFrom (findTable l (entry l origin)) m).2) := by
  have same : entryWithin l origin (l.size + 1) [] = entry l origin := rfl
  rw [Call.look, Call.within, same, run_bind, run_observing]
  cases (runFrom (findTable l (entry l origin)) m).1 <;> rfl

/-- Calls give what is held. -/
theorem sound_look (call : Call) :
    Sound (Recalls l origin false) (call.look l origin) (call.Gives l origin) := by
  have gives : GivesHeld l origin (entry l origin) := sound_entry
  cases call with
  | entry i =>
      refine .guard fun natural => ?_
      obtain ⟨n, rfl⟩ := Int.eq_ofNat_of_zero_le (Int.not_lt.mp natural)
      exact .bind (gives.sound false n) fun e holds => .pure (.entry holds)
  | row r =>
      rcases Int.lt_or_le r 0 with negative | natural
      · refine Sound.bind (?_ : Sound _ _ fun _ => False) fun row impossible => impossible.elim
        refine .bind (sound_findTable gives) fun table _ => ?_
        simp only [negative, ↓reduceIte]
        exact .throw
      · obtain ⟨n, rfl⟩ := Int.eq_ofNat_of_zero_le natural
        exact .bind (sound_row gives) fun row rowed => .pure (.row rowed)
  | rowCount =>
      intro m recalls
      have found := sound_findTable gives m recalls
      rw [run_rowCount]
      refine ⟨found.1, fun a given => ?_⟩
      obtain rfl := Except.ok.inj given
      cases outcome : (runFrom (findTable l (entry l origin)) m).1 with
      | ok table => exact .rowCount (found.2 table outcome)
      | error e =>
          refine .noRows fun table isTable => ?_
          rw [always_findTable gives isTable m recalls] at outcome
          cases outcome

/-- Calls give all that is held. -/
theorem always_look {call : Call} {a : Answer} (gives : call.Gives l origin a) :
    Always l origin false (call.look l origin) a := by
  have entries : GivesHeld l origin (entry l origin) := sound_entry
  cases gives with
  | @entry i e holds =>
      have natural : ¬(i : Int) < 0 := by omega
      rw [Call.look, Call.within, if_neg natural]
      exact .bind (entries.sound false i) (always_entry holds) (.pure _)
  | row rowed =>
      exact .bind (sound_row entries)
        (always_row entries (fun j e => always_entry) (fun _ _ => id) rowed) (.pure _)
  | rowCount isTable =>
      intro m recalls
      rw [run_rowCount, always_findTable entries isTable m recalls]
  | noRows fruitless =>
      intro m recalls
      rw [run_rowCount]
      cases outcome : (runFrom (findTable l (entry l origin)) m).1 with
      | ok table => exact absurd ((sound_findTable entries m recalls).2 table outcome) (fruitless _)
      | error e => rfl

/-- A call succeeds with an answer exactly if the class file gives it, whatever the memo
remembers. -/
theorem look_eq_ok_iff {call : Call} {a : Answer} {m : Memo} (recalls : Recalls l origin false m) :
    (runFrom (call.look l origin) m).1 = .ok a ↔ call.Gives l origin a := by
  constructor
  · exact (sound_look call m recalls).2 a
  · exact fun gives => always_look gives m recalls

/-- A call is answered exactly by what the class file gives, whatever the memo remembers. -/
theorem answer?_eq_some_iff {call : Call} {a : Answer} {m : Memo}
    (recalls : Recalls l origin false m) :
    call.answer? l origin m = some a ↔ call.Gives l origin a := by
  rw [← look_eq_ok_iff recalls, Call.answer?, toOption_eq_some_iff]

/-! ## What calls leave -/

/-- A memo has room for what it is to remember: for every index, and for every row of the table
that has been found. -/
structure Shaped (l : Layout) (m : Memo) : Prop where
  entries : m.entries.size = l.size
  rows : m.rows.size = match m.table with | some (.ok table) => table.size | _ => 0

/-- What one memo remembers another does too. -/
structure Kept (m m' : Memo) : Prop where
  entries : ∀ (i : Nat) (e : Entry), m.entries[i]? = some (some e) →
    ∃ e', m'.entries[i]? = some (some e')
  rows : ∀ (r : Nat) (row : BootstrapRow), m.rows[r]? = some (some row) →
    ∃ row', m'.rows[r]? = some (some row')
  table : ∀ found, m.table = some found → m'.table = some found

/-- A memo remembers what it does. -/
theorem Kept.refl (m : Memo) : Kept m m :=
  ⟨fun _ e here => ⟨e, here⟩, fun _ row here => ⟨row, here⟩, fun _ => id⟩

/-- Putting something in a place leaves no place empty that was not. -/
theorem filled_setIfInBounds {xs : Array (Option α)} {i j : Nat} {a b : α}
    (here : xs[j]? = some (some a)) :
    ∃ c, (xs.setIfInBounds i (some b))[j]? = some (some c) := by
  have inside := (Array.getElem?_eq_some_iff.mp here).1
  rw [Array.getElem?_setIfInBounds]
  by_cases same : i = j
  · subst same
    exact ⟨b, by simp [inside]⟩
  · exact ⟨a, by simp [same, here]⟩

/-- Every lookup keeps what a memo remembers. -/
theorem retains_kept (m₀ : Memo) :
    Retains l (fun m => Shaped l m ∧ Kept m₀ m) (fun _ => True) where
  entry := by
    rintro m i e ⟨shaped, kept⟩
    refine ⟨⟨by simpa using shaped.entries, shaped.rows⟩, fun j e' here => ?_, kept.rows,
      kept.table⟩
    obtain ⟨e'', there⟩ := kept.entries j e' here
    exact filled_setIfInBounds there
  row := by
    rintro m r row ⟨shaped, kept⟩
    refine ⟨⟨shaped.entries, by simpa using shaped.rows⟩, kept.entries, fun s row' here => ?_,
      kept.table⟩
    obtain ⟨row'', there⟩ := kept.rows s row' here
    exact filled_setIfInBounds there
  begins := by
    rintro m ⟨shaped, kept⟩ unknown
    refine ⟨⟨shaped.entries, ?_⟩, kept.entries, kept.rows, fun found here => ?_⟩
    · simpa [unknown] using shaped.rows
    · rw [kept.table found here] at unknown
      cases unknown
  settles := by
    rintro m m' found ⟨shaped, kept⟩ unknown ⟨shaped', kept'⟩ - -
    refine ⟨⟨shaped'.entries, ?_⟩, kept'.entries, fun r row here => ?_, fun found' here => ?_⟩
    · cases found <;> simp
    · -- Before the search no row was remembered.
      obtain ⟨row', there⟩ := kept.rows r row here
      have none : m.rows.size = 0 := by simpa [unknown] using shaped.rows
      have inside := (Array.getElem?_eq_some_iff.mp there).1
      omega
    · rw [kept.table found' here] at unknown
      cases unknown
  known _ _ _ _ := .inl trivial
  fruitless _ _ _ _ := trivial

/-- Any errors at all may be ended with. -/
theorem admits_all : Admits l (fun _ => True) where
  flaw _ _ := trivial
  wraps _ _ _ _ := trivial
  wrongKind _ := trivial
  encoding := trivial
  scanned := .inl trivial
  table _ _ _ _ := trivial
  rows _ _ _ _ := .inl trivial

/-- Observing the search for the table ends, whatever the search has come to. -/
theorem Ends.observing {inv : Memo → Prop} {fails : Error → Prop} {x : Lookup (Array Nat)}
    {post : Array Nat → Prop} (ends : Ends inv fails x post) :
    Ends inv fails (findTable.observing x) fun _ => True := by
  intro m starts
  rw [run_observing]
  exact ⟨(ends m starts).1, fun _ _ => trivial, fun _ given => nomatch given⟩

/-- Calls end as the lookups do that they make. -/
theorem ends_look {inv : Memo → Prop} {fails : Error → Prop} (admits : Admits l fails)
    (retains : Retains l inv fails) (call : Call) :
    Ends inv fails (call.look l origin) fun _ => True := by
  have entries (i : Nat) : Ends inv fails (entry l origin i) fun _ => True :=
    ends_entry admits retains
  cases call with
  | entry i =>
      exact .guard (admits.flaw _ _) (.bind (entries _) fun _ _ => .pure trivial)
  | row r => exact .bind (ends_row admits entries retains) fun _ _ => .pure trivial
  | rowCount =>
      refine .bind (ends_findTable admits entries retains).observing fun found _ => ?_
      cases found with
      | ok table => exact .pure trivial
      | error e => exact .pure trivial

/-- A call keeps what was remembered. -/
theorem kept_look (call : Call) {m : Memo} (shaped : Shaped l m) :
    Shaped l (runFrom (call.look l origin) m).2 ∧ Kept m (runFrom (call.look l origin) m).2 :=
  (ends_look admits_all (retains_kept m) call m ⟨shaped, .refl m⟩).1

/-- The memo that remembers nothing has room for every index. -/
theorem shaped_fresh : Shaped l (fresh l) := ⟨by simp [fresh], by simp [fresh]⟩

/-- Calls leave memos that only remember what is held. -/
theorem after_recalls (calls : List Call) :
    Recalls l origin false (after l origin calls) ∧ Shaped l (after l origin calls) := by
  induction calls using List.reverseRecOn with
  | nil => exact ⟨recalls_fresh, shaped_fresh⟩
  | append_singleton calls call inductionHypothesis =>
      obtain ⟨recalls, shaped⟩ := inductionHypothesis
      rw [after, List.foldl_append]
      exact ⟨(sound_look call _ recalls).1, (kept_look call shaped).1⟩

/-- What a lookup gives and the memo it leaves then have `post`. -/
def Leaves (inv : Memo → Prop) (x : Lookup α) (post : α → Memo → Prop) : Prop :=
  ∀ m, inv m → ∀ a, (runFrom x m).1 = .ok a → post a (runFrom x m).2

/-- A lookup before another leaves what the second does. -/
theorem Leaves.bind {β : Type} {inv : Memo → Prop} {x : Lookup α} {f : α → Lookup β}
    {between : α → Prop} {post : β → Memo → Prop} (first : Ends inv (fun _ => True) x between)
    (next : ∀ a, Leaves inv (f a) post) :
    Leaves inv (x >>= f) post := by
  intro m starts b given
  have after := (first m starts).1
  rw [run_bind] at given ⊢
  cases looked : runFrom x m with
  | mk outcome m' =>
      rw [looked] at given after
      cases outcome with
      | ok a => exact next a m' after b given
      | error e => cases given

/-- What is remembered last is in the memo that is left. -/
theorem Leaves.remember {inv : Memo → Prop} {f : Memo → Memo} {a : α} {post : α → Memo → Prop}
    (after : ∀ m, inv m → post a (f m)) : Leaves inv (do modify f; return a) post := by
  intro m starts b given
  obtain rfl := Except.ok.inj given
  exact after m starts

/-- An entry that was given is remembered. -/
theorem entry_leaves {i : Nat} :
    Leaves (Shaped l) (entry l origin i) fun _ m => ∃ e, m.entries[i]? = some (some e) := by
  intro m shaped
  rw [entry, entryWithin]
  cases offset : l.offsets[i]?.join with
  | none => exact fun e given => by cases given
  | some p =>
      rw [run_bind, run_get]
      simp only
      split
      · rename_i done remembered
        exact fun e given => ⟨done, remembered⟩
      · rw [if_neg (by simp)]
        have decoded : Ends (fun m' => Shaped l m' ∧ Kept m m') (fun _ => True)
            (decode l (entryWithin l origin l.size [i]) ⟨origin, i⟩ p) fun _ => True :=
          ends_decode admits_all (fun j => ends_entryWithin admits_all (retains_kept m))
            (retains_kept m) (.inl trivial)
        have last (e : Entry) : Leaves (fun m' => Shaped l m' ∧ Kept m m')
            (do
              modify fun m => { m with entries := m.entries.setIfInBounds i (some e) }
              return e) fun _ m => ∃ e, m.entries[i]? = some (some e) :=
          .remember fun m' kept => ⟨e, by simp [kept.1.entries, lt_size offset]⟩
        exact Leaves.bind decoded last m ⟨shaped, .refl m⟩

/-- A search for the table leaves what it came to. -/
theorem table_findTable (entry : EntryAt) (m : Memo) :
    (runFrom (findTable l entry) m).2.table = some (runFrom (findTable l entry) m).1 := by
  rw [findTable, run_bind, run_get]
  simp only
  split
  · assumption
  · assumption
  · rw [run_search]

/-- A row that was given is remembered. -/
theorem row_leaves {r : Nat} :
    Leaves (Shaped l) (row l origin (entry l origin) r) fun _ m =>
      ∃ row, m.rows[r]? = some (some row) := by
  intro m shaped
  have entries (m₀ : Memo) (i : Nat) : Ends (fun m' => Shaped l m' ∧ Kept m₀ m') (fun _ => True)
      (entry l origin i) fun _ => True := ends_entry admits_all (retains_kept m₀)
  have shaped' := (ends_findTable admits_all (entries m) (retains_kept m) m ⟨shaped, .refl m⟩).1.1
  have found := table_findTable (l := l) (entry l origin) m
  rw [Lookup.row, run_bind]
  cases searched : runFrom (findTable l (entry l origin)) m with
  | mk outcome m' =>
      rw [searched] at found shaped'
      cases outcome with
      | error e => exact fun row given => nomatch given
      | ok table =>
          have natural : ¬(r : Int) < 0 := by omega
          simp only [natural, ↓reduceIte, Int.toNat_natCast]
          cases inside : table[r]? with
          | none => exact fun row given => nomatch given
          | some p =>
              rw [run_bind, run_get]
              simp only
              split
              · rename_i done remembered
                exact fun row given => ⟨done, remembered⟩
              · have last (row : BootstrapRow) : Leaves (fun m'' => Shaped l m'' ∧ Kept m' m'')
                    (do
                      modify fun m => { m with rows := m.rows.setIfInBounds r (some row) }
                      return row) fun _ m => ∃ row, m.rows[r]? = some (some row) := by
                  refine .remember fun m'' ⟨shaped, kept⟩ => ⟨row, ?_⟩
                  have rows := shaped.rows
                  have bound := (Array.getElem?_eq_some_iff.mp inside).1
                  rw [kept.table _ found] at rows
                  simp only at rows
                  simp [rows, bound]
                have read : Leaves (fun m'' => Shaped l m'' ∧ Kept m' m'') (do
                    let handle ← referAt l (entry l origin) Entry.handle? p p
                    let n ← covered (l.cursor.u2? (p + 2))
                    let arguments ← argumentsFrom l (entry l origin) [] (p + 4) n
                    let done := BootstrapRow.mk ⟨origin, r⟩ handle arguments
                    modify fun m => { m with rows := m.rows.setIfInBounds r (some done) }
                    return done) fun _ m => ∃ row, m.rows[r]? = some (some row) :=
                  .bind (ends_referAt admits_all (entries m') (.inl trivial)) fun handle =>
                    .bind (.covered (.inl trivial)) fun n =>
                      .bind (ends_argumentsFrom admits_all (entries m') (.inl trivial))
                        fun arguments => last _
                exact read m' ⟨shaped', .refl m'⟩

/-- A call for an entry runs as the lookup does. -/
theorem run_entry (i : Nat) (m : Memo) :
    runFrom ((Call.entry i).look l origin) m =
      ((runFrom (entry l origin i) m).1.map .entry, (runFrom (entry l origin i) m).2) := by
  have natural : ¬(i : Int) < 0 := by omega
  have same : entryWithin l origin (l.size + 1) [] i = entry l origin i := rfl
  rw [Call.look, Call.within, if_neg natural, Int.toNat_natCast, same, run_bind]
  rcases runFrom (entry l origin i) m with ⟨_ | _, _⟩ <;> rfl

/-- A call for a row runs as the lookup does. -/
theorem run_row (r : Nat) (m : Memo) :
    runFrom ((Call.row r).look l origin) m =
      ((runFrom (row l origin (entry l origin) r) m).1.map .row,
        (runFrom (row l origin (entry l origin) r) m).2) := by
  have same : entryWithin l origin (l.size + 1) [] = entry l origin := rfl
  rw [Call.look, Call.within, same, run_bind]
  rcases runFrom (row l origin (entry l origin) r) m with ⟨_ | _, _⟩ <;> rfl

/-- A call that gave something leaves it. -/
theorem recalled_of_look {call : Call} {m : Memo} (recalls : Recalls l origin false m)
    (shaped : Shaped l m) {a : Answer} (given : (runFrom (call.look l origin) m).1 = .ok a) :
    ∃ b, call.recalled? (runFrom (call.look l origin) m).2 = some b := by
  cases (look_eq_ok_iff recalls).mp given with
  | @entry i e holds =>
      rw [run_entry]
      obtain ⟨e', here⟩ := entry_leaves m shaped e (always_entry holds m recalls)
      exact ⟨.entry e', by simp [Call.recalled?, here]⟩
  | @row r row rowed =>
      rw [run_row]
      have looked := always_row sound_entry (fun j e => always_entry) (fun _ _ => id) rowed
      obtain ⟨row', here⟩ := row_leaves m shaped row (looked m recalls)
      exact ⟨.row row', by simp [Call.recalled?, here]⟩
  | rowCount isTable =>
      rw [run_rowCount]
      simp only [Call.recalled?, table_findTable]
      split <;> simp_all
  | noRows fruitless =>
      rw [run_rowCount]
      simp only [Call.recalled?, table_findTable]
      split <;> simp_all

/-- What is remembered for a call goes on to be. -/
theorem Kept.recalled {m m' : Memo} (kept : Kept m m') {call : Call} {a : Answer}
    (recalled : call.recalled? m = some a) : ∃ b, call.recalled? m' = some b := by
  cases call with
  | entry i =>
      simp only [Call.recalled?, Option.ite_none_left_eq_some, Option.map_eq_some_iff,
        Option.join_eq_some_iff] at recalled ⊢
      obtain ⟨natural, e, here, -⟩ := recalled
      obtain ⟨e', there⟩ := kept.entries _ e here
      exact ⟨.entry e', natural, e', there, rfl⟩
  | row r =>
      simp only [Call.recalled?, Option.ite_none_left_eq_some, Option.map_eq_some_iff,
        Option.join_eq_some_iff] at recalled ⊢
      obtain ⟨natural, row, here, -⟩ := recalled
      obtain ⟨row', there⟩ := kept.rows _ row here
      exact ⟨.row row', natural, row', there, rfl⟩
  | rowCount =>
      cases known : m.table with
      | none => simp [Call.recalled?, known] at recalled
      | some found =>
          have there := kept.table found known
          cases found with
          | ok table => exact ⟨_, by simp [Call.recalled?, there]; rfl⟩
          | error e => exact ⟨_, by simp [Call.recalled?, there]; rfl⟩

/-- A table that was found before is given without another search. -/
theorem run_findTable_known {entry : EntryAt} {m : Memo} {found : Except Error (Array Nat)}
    (known : m.table = some found) : runFrom (findTable l entry) m = (found, m) := by
  rw [findTable, run_bind, run_get]
  cases found <;> simp [known]

/-- What is remembered for a call is given again, and nothing is decoded. -/
theorem run_recalled {call : Call} {m : Memo} (recalls : Recalls l origin false m)
    (shaped : Shaped l m) {a : Answer} (recalled : call.recalled? m = some a) :
    runFrom (call.look l origin) m = (.ok a, m) := by
  cases call with
  | entry i =>
      simp only [Call.recalled?, Option.ite_none_left_eq_some, Option.map_eq_some_iff,
        Option.join_eq_some_iff] at recalled
      obtain ⟨natural, e, here, rfl⟩ := recalled
      obtain ⟨i, rfl⟩ := Int.eq_ofNat_of_zero_le (Int.not_lt.mp natural)
      rw [Int.toNat_natCast] at here
      obtain ⟨p, constant⟩ := (recalls.entries i e here).constantAt
      rw [run_entry, entry, entryWithin]
      simp [constant.offset, run_bind, here, Except.map]
  | row r =>
      simp only [Call.recalled?, Option.ite_none_left_eq_some, Option.map_eq_some_iff,
        Option.join_eq_some_iff] at recalled
      obtain ⟨natural, row, here, rfl⟩ := recalled
      obtain ⟨r, rfl⟩ := Int.eq_ofNat_of_zero_le (Int.not_lt.mp natural)
      rw [Int.toNat_natCast] at here
      have inside := (Array.getElem?_eq_some_iff.mp here).1
      rw [shaped.rows] at inside
      cases known : m.table with
      | none => simp [known] at inside
      | some found =>
          cases found with
          | error e => simp [known] at inside
          | ok table =>
              simp only [known] at inside
              have given : runFrom (Lookup.row l origin (Lookup.entry l origin) r) m =
                  (.ok row, m) := by
                rw [Lookup.row, run_bind, run_findTable_known known]
                simp only [natural, ↓reduceIte, Int.toNat_natCast, Array.getElem?_eq_getElem inside,
                  run_bind, run_get, here, run_pure]
              rw [run_row, given]
              rfl
  | rowCount =>
      rw [run_rowCount]
      cases known : m.table with
      | none => simp [Call.recalled?, known] at recalled
      | some found =>
          rw [run_findTable_known known]
          cases found with
          | ok table => simpa [Call.recalled?, known] using recalled
          | error e => simpa [Call.recalled?, known] using recalled

/-- Calls after a memo keep what it remembers. -/
theorem kept_calls (more : List Call) {m : Memo} (shaped : Shaped l m) :
    Kept m (more.foldl (fun m call => (runFrom (call.look l origin) m).2) m) := by
  have ends : ∀ m', Shaped l m' ∧ Kept m m' →
      Shaped l (more.foldl (fun m call => (runFrom (call.look l origin) m).2) m') ∧
        Kept m (more.foldl (fun m call => (runFrom (call.look l origin) m).2) m') := by
    induction more with
    | nil => exact fun m' => id
    | cons call more inductionHypothesis =>
        exact fun m' starts => inductionHypothesis _
          (ends_look admits_all (retains_kept m) call m' starts).1
  exact (ends m ⟨shaped, .refl m⟩).2

/-- What a call has given is remembered ever after and given again as it is. -/
theorem recalled_after {before : List Call} {call : Call} {a : Answer}
    (given : call.answer? l origin (after l origin before) = some a) (more : List Call) :
    call.recalled? (after l origin (before ++ call :: more)) = some a ∧
      runFrom (call.look l origin) (after l origin (before ++ call :: more)) =
        (.ok a, after l origin (before ++ call :: more)) := by
  obtain ⟨recalls, shaped⟩ : Recalls l origin false (after l origin before) ∧ Shaped l _ :=
    after_recalls before
  obtain ⟨recalls', shaped'⟩ :
      Recalls l origin false (after l origin (before ++ call :: more)) ∧ Shaped l _ :=
    after_recalls (before ++ call :: more)
  have gives := (answer?_eq_some_iff recalls).mp given
  obtain ⟨b, left⟩ := recalled_of_look recalls shaped ((look_eq_ok_iff recalls).mpr gives)
  have kept : Kept (runFrom (call.look l origin) (after l origin before)).2
      (after l origin (before ++ call :: more)) := by
    rw [after, after, List.foldl_append]
    exact kept_calls more (kept_look call shaped).1
  obtain ⟨c, remembered⟩ := kept.recalled left
  have again := run_recalled recalls' shaped' remembered
  have same : (runFrom (call.look l origin) (after l origin (before ++ call :: more))).1 = .ok a :=
    always_look gives _ recalls'
  rw [again] at same
  obtain rfl := Except.ok.inj same
  exact ⟨remembered, again⟩

/-! ## How deep calls go -/

/-- Along a path of constants that are being decoded there is always enough room, so more of it
makes no difference. -/
theorem entryWithin_deeper {depth : Nat} {open_ : List Nat} (path : Path l depth open_)
    (more i : Nat) :
    entryWithin l origin (depth + more) open_ i = entryWithin l origin depth open_ i := by
  induction depth generalizing open_ i with
  | zero =>
      obtain ⟨deeper, impossible⟩ := path.positive
      cases impossible
  | succ depth inductionHypothesis =>
      rw [Nat.add_right_comm]
      simp only [entryWithin]
      cases offset : l.offsets[i]?.join with
      | none => rfl
      | some p =>
          refine bind_congr fun m => ?_
          split
          · rfl
          · by_cases opened : open_.contains i = true
            · rw [if_pos opened, if_pos opened]
              rfl
            · rw [if_neg opened, if_neg opened]
              have decoded : decode l (entryWithin l origin (depth + more) (i :: open_))
                  ⟨origin, i⟩ p =
                  decode l (entryWithin l origin depth (i :: open_)) ⟨origin, i⟩ p := by
                by_cases spelled : ∃ text, l.TextAt i text
                · obtain ⟨text, constant, length, slice, decoded⟩ := spelled
                  obtain rfl := Option.some.inj (constant.offset.symm.trans offset)
                  funext m
                  exact (run_decode_text _ m constant length slice decoded).trans
                    (run_decode_text _ m constant length slice decoded).symm
                · have deeper := path.deeper (by simpa using opened) (lt_size offset)
                    fun text here => spelled ⟨text, here⟩
                  rw [funext fun j => inductionHypothesis deeper j]
              rw [decoded]

/-- A call ends however deep references may be followed, once there is a level for every
index. -/
theorem within_eq_look {depth : Nat} (deep : l.size < depth) (call : Call) :
    call.within l origin depth = call.look l origin := by
  obtain ⟨more, rfl⟩ := Nat.exists_eq_add_of_lt deep
  have same : entryWithin l origin (l.size + more + 1) [] = entryWithin l origin (l.size + 1)
      [] := by
    rw [Nat.add_right_comm]
    exact funext fun i => entryWithin_deeper .start more i
  cases call <;> simp only [Call.look, Call.within, same]

/-! ## What a parsed class says -/

/-- What a pool says to a call. -/
def Call.told? (p : Pool) : Call → Option Answer
  | .entry i => (p.entry i).toOption.map .entry
  | .row r => (p.row r).toOption.map .row
  | .rowCount => some (.rowCount p.rowCount)

/-- A pool that tells what is held says the right thing to every call. -/
theorem told?_eq_some_iff {p : Pool} (tells : p.Tells l) {call : Call} {a : Answer} :
    call.told? p = some a ↔ call.Gives l p.origin a := by
  cases call with
  | entry i =>
      simp only [Call.told?, Option.map_eq_some_iff, toOption_eq_some_iff]
      constructor
      · rintro ⟨e, given, rfl⟩
        rcases Int.lt_or_le i 0 with negative | natural
        · simp [Pool.entry, negative] at given
        · obtain ⟨n, rfl⟩ := Int.eq_ofNat_of_zero_le natural
          exact .entry (tells.entry given)
      · intro gives
        cases gives with
        | @entry i e holds =>
            have natural : ¬(i : Int) < 0 := by omega
            exact ⟨e, by simp [Pool.entry, natural, tells.complete i e holds], rfl⟩
  | row r =>
      simp only [Call.told?, Option.map_eq_some_iff, toOption_eq_some_iff, Pool.row,
        JvmClass.bind_eq_ok_iff, guard_eq_ok_iff]
      constructor
      · rintro ⟨row, ⟨rows, read, natural, here⟩, rfl⟩
        obtain ⟨n, rfl⟩ := Int.eq_ofNat_of_zero_le (Int.not_lt.mp natural)
        obtain ⟨table, -, -, each⟩ := tells.rows rows read
        refine .row (each n row ?_)
        rw [Int.toNat_natCast] at here
        cases there : rows[n]? with
        | none => simp [there] at here
        | some outcome => simpa [there] using here
      · intro gives
        cases gives with
        | @row r row rowed =>
            obtain ⟨-, table, p', isTable, -⟩ := id rowed
            obtain ⟨rows, read, each⟩ := tells.table table isTable
            exact ⟨row, ⟨rows, read, by omega, by simp [each r row rowed]⟩, rfl⟩
  | rowCount =>
      simp only [Call.told?, Pool.rowCount, Option.some.injEq]
      cases read : p.rows with
      | ok rows =>
          obtain ⟨table, isTable, size, -⟩ := tells.rows rows read
          constructor
          · rintro rfl
            simp only [size]
            exact .rowCount isTable
          · intro gives
            cases gives with
            | rowCount isTable' =>
                obtain rfl := isTable.functional isTable'
                simp [size]
            | noRows fruitless => exact absurd isTable (fruitless table)
      | error e =>
          have fruitless (table : Array Nat) : ¬l.IsTable p.origin table := fun isTable => by
            obtain ⟨rows, there, -⟩ := tells.table table isTable
            rw [read] at there
            cases there
          constructor
          · rintro rfl
            exact .noRows fruitless
          · intro gives
            cases gives with
            | rowCount isTable => exact absurd isTable (fruitless _)
            | noRows => rfl

/-- A pool that tells the constants of a class file answers as the first call does. -/
theorem told?_eq_answer? {p : Pool} (tells : p.Tells l) (call : Call) :
    call.told? p = call.answer? l p.origin (fresh l) := by
  ext a
  rw [told?_eq_some_iff tells, answer?_eq_some_iff recalls_fresh]

/-- The pool of a class file has no history. Every call ends, and following references deeper
than there are indices would make no difference. Whatever was called before, whether it
succeeded or failed, a call gives what it gives as the first of all, and so do the constants of
the parsed class in each of its states. What a call has given once is remembered and given again
as it is. An entry is given exactly where everything that can be reached from its index, through
bootstrap rows too, is well-formed and no reference leads back to where it started. -/
theorem calls_forget_history (l : Layout) (number : Nat) :
    (∀ (call : Call) depth, l.size < depth →
      call.within l (.input number) depth = call.look l (.input number)) ∧
    (∀ before (call : Call), call.answer? l (.input number) (after l (.input number) before) =
      call.answer? l (.input number) (fresh l)) ∧
    (∀ call : Call, call.told? (.ofLayout l number) = call.answer? l (.input number) (fresh l) ∧
      ∀ search, call.told? (.afterSearch l (.input number) search) =
        call.answer? l (.input number) (fresh l)) ∧
    (∀ before (call : Call) a,
      call.answer? l (.input number) (after l (.input number) before) = some a → ∀ more,
        let m := after l (.input number) (before ++ call :: more)
        call.recalled? m = some a ∧ runFrom (call.look l (.input number)) m = (.ok a, m)) ∧
    ∀ i : Int, ((Call.entry i).answer? l (.input number) (fresh l)).isSome = true ↔
      0 ≤ i ∧ ∀ node, l.Reaches (.input number) (.constant i.toNat) node →
        l.WellFormed (.input number) node ∧
          ¬Relation.TransGen (l.RefersTo (.input number)) node node := by
  refine ⟨fun call depth deep => within_eq_look deep call, fun before call => ?_, fun call => ?_,
    fun before call a given => recalled_after given, fun i => ?_⟩
  · ext a
    rw [answer?_eq_some_iff (after_recalls before).1, answer?_eq_some_iff recalls_fresh]
  · refine ⟨?_, fun search => ?_⟩
    · simpa using told?_eq_answer? (Pool.tells_ofLayout (l := l) number) call
    · simpa using told?_eq_answer? (Pool.tells_afterSearch (l := l) search) call
  · rw [← Layout.holds_iff_reaches, Option.isSome_iff_exists]
    simp only [answer?_eq_some_iff recalls_fresh]
    constructor
    · rintro ⟨a, gives⟩
      cases gives with
      | @entry i e holds => exact ⟨by omega, e, holds⟩
    · rintro ⟨natural, e, holds⟩
      obtain ⟨i, rfl⟩ := Int.eq_ofNat_of_zero_le natural
      exact ⟨.entry e, .entry holds⟩

end JvmClass.Lookup
