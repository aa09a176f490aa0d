import JvmClass.ClassFile
import JvmClass.Proofs.Constant.Complete

/-!
# The constants of an input

A pool lists what looking each index up gives. Whatever search for the bootstrap table came
first, its entries and rows are those that are held, and where the class has a table the search
has nothing to settle.
-/

namespace JvmClass

/-- A pool says what the constants and bootstrap rows of a class file hold, and nothing else. -/
structure Pool.Tells (p : Pool) (l : Layout) : Prop where
  size : p.entries.size = l.size
  entries : ∀ i e, p.entries[i]? = some (.ok e) → l.Holds p.origin i e
  complete : ∀ i e, l.Holds p.origin i e → p.entries[i]? = some (.ok e)
  rows : ∀ rows, p.rows = .ok rows → ∃ table, l.IsTable p.origin table ∧
    rows.size = table.size ∧ ∀ r row, rows[r]? = some (.ok row) →
      l.RowAt p.origin (l.Holds p.origin) r row
  table : ∀ table, l.IsTable p.origin table → ∃ rows, p.rows = .ok rows ∧
    ∀ r row, l.RowAt p.origin (l.Holds p.origin) r row → rows[r]? = some (.ok row)

namespace Pool

open Lookup

variable {l : Layout} {origin : Origin}

/-- The memo after all entries have been looked up. -/
def memoAfter {α : Type} (l : Layout) (origin : Origin) (first : Lookup α) : Memo :=
  (sweep (Lookup.entry l origin) (List.range l.size) [] (runFrom first (fresh l)).2).2

/-- The entries of a pool after a lookup are swept from the memo that it leaves. -/
theorem entries_sweptAfter {α : Type} (first : Lookup α) :
    (sweptAfter l origin first).entries =
      (sweep (Lookup.entry l origin) (List.range l.size) []
        (runFrom first (fresh l)).2).1.toArray :=
  rfl

/-- The rows of a pool after a lookup are swept from the memo that the entries leave. -/
theorem rows_sweptAfter {α : Type} (first : Lookup α) :
    (sweptAfter l origin first).rows =
      (runFrom (findTable l (Lookup.entry l origin)) (memoAfter l origin first)).1.map
        fun offsets =>
        (sweep (fun r => Lookup.row l origin (Lookup.entry l origin) r) (List.range offsets.size) []
          (runFrom (findTable l (Lookup.entry l origin)) (memoAfter l origin first)).2).1.toArray :=
  rfl

/-- A pool tells what the class file holds after any sound lookup: sweeping gives at each index what
a lookup of its own would. -/
theorem tells_sweptAfter {α : Type} {first : Lookup α} {post : α → Prop}
    (sound : Sound (Recalls l origin false) first post) : (sweptAfter l origin first).Tells l := by
  have start := (sound _ recalls_fresh).1
  have gives : GivesHeld l origin (Lookup.entry l origin) := sound_entry
  obtain ⟨size, each, after⟩ := sweep_range (n := l.size)
    (fun i m recalls => (gives.sound false i m recalls).1) start
  have found := sound_findTable gives (memoAfter l origin first) after
  have rowSound (r : Nat) : Sound (Recalls l origin false)
      (Lookup.row l origin (Lookup.entry l origin) r) (l.RowAt origin (l.Holds origin) r) :=
    sound_row gives
  have swept (table : Array Nat) := sweep_range (n := table.size)
    (fun r m recalls => (rowSound r m recalls).1) found.1
  refine ⟨?_, fun i e here => ?_, fun i e holds => ?_, fun rows given => ?_,
    fun table isTable => ?_⟩
  · simpa [entries_sweptAfter] using size
  · simp only [entries_sweptAfter, List.getElem?_toArray] at here
    have inside := (List.getElem?_eq_some_iff.mp here).1
    rw [size] at inside
    obtain ⟨m, recalls, given⟩ := each i inside
    exact (gives.sound false i m recalls).2 e (Option.some.inj (given.symm.trans here))
  · simp only [entries_sweptAfter, List.getElem?_toArray]
    obtain ⟨t, p, constant, -⟩ := Layout.holds_iff.mp holds
    obtain ⟨m, recalls, given⟩ := each i (lt_size constant.offset)
    exact given.trans (congrArg some (always_entry holds m recalls))
  · rw [rows_sweptAfter] at given
    cases searched : (runFrom (findTable l (Lookup.entry l origin)) (memoAfter l origin first)).1
      with
    | error e => simp [searched, Except.map] at given
    | ok table =>
        obtain ⟨rowCount, eachRow, -⟩ := swept table
        simp only [searched, Except.map, Except.ok.injEq] at given
        subst given
        refine ⟨table, found.2 table searched, by simpa using rowCount, fun r row here => ?_⟩
        rw [List.getElem?_toArray] at here
        have inside := (List.getElem?_eq_some_iff.mp here).1
        rw [rowCount] at inside
        obtain ⟨m, recalls, given⟩ := eachRow r inside
        exact (rowSound r m recalls).2 row (Option.some.inj (given.symm.trans here))
  · have searched := always_findTable gives isTable (memoAfter l origin first) after
    obtain ⟨rowCount, eachRow, -⟩ := swept table
    rw [rows_sweptAfter, searched]
    refine ⟨_, rfl, fun r row rowed => ?_⟩
    rw [List.getElem?_toArray]
    have inside : r < table.size := by
      obtain ⟨-, table', p, isTable', here, -⟩ := rowed
      obtain rfl := isTable.functional isTable'
      exact (Array.getElem?_eq_some_iff.mp here).1
    obtain ⟨m, recalls, given⟩ := eachRow r inside
    have looked := always_row gives (fun j e holds => always_entry holds) (fun _ _ => id) rowed
    exact given.trans (congrArg some (looked m recalls))

/-- The search for the table of a class that has one comes to no constant in need of it. -/
theorem searchIsCircular_eq_false {table : Array Nat} (isTable : l.IsTable origin table) :
    searchIsCircular l origin = false := by
  have given := always_findTable sound_entry isTable _ recalls_fresh
  rw [runFrom] at given
  rw [searchIsCircular, given]

/-- A pool that waits for its first search tells what it did before, where no search comes to a
table. -/
theorem tells_beforeSearch {p : Pool} (tells : p.Tells l) (number : Nat)
    (fruitless : ∀ table, ¬l.IsTable p.origin table) : (p.beforeSearch number).Tells l where
  size := by simpa [beforeSearch] using tells.size
  entries i e here := by
    simp only [beforeSearch, Array.getElem?_mapIdx, Option.map_eq_some_iff] at here
    obtain ⟨outcome, known, same⟩ := here
    cases outcome with
    | ok e' => exact tells.entries i e (by rw [known, ← same])
    | error e' => cases same
  complete i e holds := by
    simp only [beforeSearch, Array.getElem?_mapIdx, tells.complete i e holds, Option.map_some]
  rows rows given := nomatch given
  table table isTable := absurd isTable (fruitless table)

/-- The pool of a layout tells what the layout holds. -/
theorem tells_ofLayout (number : Nat) : (ofLayout l number).Tells l := by
  have nothing : Sound (Recalls l (.input number) false) (pure ()) fun _ => True := .pure trivial
  have tells : (sweptAfter l (.input number) (pure ())).Tells l := tells_sweptAfter nothing
  rw [ofLayout]
  split
  · rename_i circular
    refine tells_beforeSearch tells number fun table isTable => ?_
    rw [searchIsCircular_eq_false isTable] at circular
    cases circular
  · exact tells

/-- The pool after a search for its table tells what the layout holds. -/
theorem tells_afterSearch (search : TableSearch) : (afterSearch l origin search).Tells l := by
  cases search with
  | constant i => exact tells_sweptAfter (sound_entry.sound false i)
  | table => exact tells_sweptAfter (sound_findTable sound_entry)

/-- The pool of an input has the number of this input. -/
@[simp] theorem origin_ofLayout (number : Nat) : (ofLayout l number).origin = .input number := by
  rw [ofLayout]
  split <;> rfl

/-- The pool after a search keeps its origin. -/
@[simp] theorem origin_afterSearch (search : TableSearch) :
    (afterSearch l origin search).origin = origin := by
  cases search <;> rfl

/-- The pool after a search waits for none. -/
theorem unsettled_afterSearch (search : TableSearch) :
    (afterSearch l origin search).unsettled = false := by
  cases search <;> rfl

/-- A pool that waits for its search is one whose search needs itself, and it has no rows yet. -/
theorem unsettled_ofLayout {number : Nat} (unsettled : (ofLayout l number).unsettled = true) :
    searchIsCircular l (.input number) = true ∧ ∃ e, (ofLayout l number).rows = .error e := by
  rw [ofLayout] at unsettled ⊢
  split at unsettled
  · rename_i circular
    exact ⟨circular, _, by rw [if_pos circular]; rfl⟩
  · cases unsettled

/-- A pool that waits for no search keeps nothing back. -/
theorem abort?_eq_none {p : Pool} (searched : p.unsettled ≠ true) : p.abort? = none :=
  if_neg searched

/-- What an index of a pool gives is listed there. -/
theorem entry_eq_ok_iff {p : Pool} {n : Nat} {e : Entry} :
    p.entry n = .ok e ↔ p.entries[n]? = some (.ok e) := by
  have natural : ¬(n : Int) < 0 := by omega
  rw [Pool.entry, if_neg natural, Int.toNat_natCast]
  cases p.entries[n]? <;> simp

/-- What a pool gives for an index is held by it. -/
theorem Tells.entry {p : Pool} (tells : p.Tells l) {i : Nat} {e : Entry}
    (given : p.entry i = .ok e) : l.Holds p.origin i e :=
  tells.entries i e (entry_eq_ok_iff.mp given)

/-- A reference is taken exactly for an entry of the kind that is wanted. -/
theorem refer_eq_ok_iff {α : Type} {p : Pool} {want : Entry → Option α} {offset : Int} {i : Nat}
    {a : α} : p.refer want offset i = .ok a ↔ ∃ e, p.entry i = .ok e ∧ want e = some a := by
  simp only [refer, entryAs, mapError_eq_ok_iff, bind_eq_ok_iff]
  constructor
  · rintro ⟨e, given, taken⟩
    split at taken
    · rename_i b wanted
      exact ⟨e, given, by rw [wanted, pure_eq_ok_iff.mp taken]⟩
    · simp at taken
  · rintro ⟨e, given, wanted⟩
    exact ⟨e, given, by simp [wanted, pure, Except.pure]⟩

/-- A reference to a text gives the index of one. -/
theorem Tells.text {p : Pool} (tells : p.Tells l) {offset : Int} {i : Nat} {entry : Utf8Entry}
    (given : p.refer Entry.utf8? offset i = .ok entry) :
    entry.place = ⟨p.origin, i⟩ ∧ l.TextAt i entry.text ∧ p.entry i = .ok (.utf8 entry) := by
  obtain ⟨e, looked, wanted⟩ := refer_eq_ok_iff.mp given
  cases e with
  | utf8 entry' =>
      obtain rfl := Option.some.inj wanted
      have held := Layout.Holds.text_iff.mp (tells.entry looked)
      exact ⟨held.1, held.2, looked⟩
  | _ => cases wanted

/-- A reference to a class gives the class at its index. -/
theorem Tells.class {p : Pool} (tells : p.Tells l) {offset : Int} {i : Nat} {entry : ClassEntry}
    (given : p.refer Entry.class? offset i = .ok entry) :
    l.Holds p.origin i (.loadable (.class entry)) ∧ entry.place = ⟨p.origin, i⟩ := by
  obtain ⟨e, looked, wanted⟩ := refer_eq_ok_iff.mp given
  cases e with
  | loadable loadable =>
      cases loadable with
      | «class» entry' =>
          obtain rfl := Option.some.inj wanted
          have held := tells.entry looked
          exact ⟨held, held.place⟩
      | _ => cases wanted
  | _ => cases wanted

end Pool

end JvmClass
