import JvmClass.Proofs.Attribute.Safety
import JvmClass.Proofs.Constant.Ends
import JvmClass.Proofs.Constant.Pool
import JvmClass.Proofs.Constant.Sharing

/-!
# Looking constants up never leaves the buffer

In a scanned layout every read of a lookup has been covered, by the scan of the pool, of the class
attributes or of the bootstrap table. So no entry and no row of a pool is a read outside of the
buffer; only a pool that waits for its first search answers with that search instead.
-/

namespace JvmClass

/-- The errors that uses of a pool may end with: those that can be kept back, and the search that
the pool waits for. -/
def Pool.Stops (p : Pool) (e : Error) : Prop :=
  e.abort? = none ∨ p.unsettled = true ∧ ∃ n search, e.abort? = some (.unsettled n search)

/-- The errors among the entries and rows of a pool have `fails`. -/
structure Pool.Reports (p : Pool) (fails : Error → Prop) : Prop where
  entries : ∀ (i : Nat) e, p.entries[i]? = some (.error e) → fails e
  table : ∀ e, p.rows = .error e → fails e
  rows : ∀ rows (r : Nat) e, p.rows = .ok rows → rows[r]? = some (.error e) → fails e

/-- The errors of a pool can be weakened to those that follow from them. -/
theorem Pool.Reports.mono {p : Pool} {fails fails' : Error → Prop} (reports : p.Reports fails)
    (weaker : ∀ e, fails e → fails' e) : p.Reports fails' where
  entries i e here := weaker e (reports.entries i e here)
  table e here := weaker e (reports.table e here)
  rows rows r e read here := weaker e (reports.rows rows r e read here)

namespace Lookup

variable {α : Type} {l : Layout} {origin : Origin}

/-- An error that callers may keep back. A read outside of the buffer is none. -/
def Harmless (e : Error) : Prop := e.abort? = none

/-- Errors that lookups may end with: those that they raise by themselves, also as causes of others,
but no read outside of the buffer. -/
structure Tame (fails : Error → Prop) : Prop where
  flaw : ∀ p f, fails (.flaw p f)
  wraps : ∀ p f e, fails e → fails (.malformed p f (some e))
  wrongKind : ∀ found, fails (.wrongKind found)
  encoding : fails .encoding
  shortage : ∀ d, fails (.shortage d)
  bounds : ¬fails .outOfBounds

/-- The errors that callers may keep back are such that lookups may end with. -/
theorem tame_harmless : Tame Harmless where
  flaw _ _ := rfl
  wraps _ _ _ harmless := harmless
  wrongKind _ := rfl
  encoding := rfl
  shortage _ := rfl
  bounds := nofun

variable {fails : Error → Prop}

/-- Reading a row stays inside the window. -/
theorem stays_scanRow {c : Cursor} {stop : Nat} (window : Window c stop)
    (short : ∀ d, fails (.shortage d)) : Scan.Stays fails c stop scanRow fun _ => True := by
  refine Scan.Stays.pos.bind fun _ _ => ?_
  refine (Scan.Stays.skip window short (n := 2) (by decide)).bind fun _ _ => ?_
  refine (Scan.Stays.u2 window short).bind fun n few => ?_
  exact (Scan.Stays.skip window short (n := 2 * n) (by omega)).bind fun _ _ => .pure trivial

/-- A table inside the buffer is refused only with an error that lookups may end with. -/
theorem fails_scanTable (tame : Tame fails) {env : Envelope} {e : Error}
    (window : Window l.cursor (env.offset + env.length)) (stopped : scanTable l env = .error e) :
    fails e := by
  have start : env.offset ≤ env.offset + env.length := Nat.le_add_right _ _
  have bounds : ((env.offset : Int) + env.length) = ((env.offset + env.length : Nat) : Int) := by
    omega
  obtain ⟨-, stops⟩ := Scan.Stays.counted window tame.shortage (stays_scanRow window tame.shortage)
    env.offset start
  rw [scanTable, bounds, Scan.onWindow_eq window start] at stopped
  split at stopped
  · rename_i s read
    obtain rfl := Except.error.inj stopped
    exact tame.wraps _ _ _ (stops s read)
  · split at stopped
    · obtain rfl := Except.error.inj stopped
      exact tame.flaw _ _
    · cases stopped

/-- Rows at the offsets of a table lie in the buffer. -/
theorem rowsInside_of_rowOffsets {c : Cursor} {p q : Nat} {offsets : List Nat}
    (held : RowOffsets c p offsets q) : RowsInside c offsets.toArray := by
  intro r start here
  rw [List.getElem?_toArray] at here
  induction held generalizing r with
  | done => simp at here
  | @next p n q rest count inside others inductionHypothesis =>
      cases r with
      | zero =>
          obtain rfl : p = start := by simpa using here
          refine ⟨by omega, fun n' count' => ?_⟩
          obtain rfl := Option.some.inj (count.symm.trans count')
          exact inside
      | succ r => exact inductionHypothesis r (by simpa using here)

section Scanned

variable (scanned : l.Scanned) (addressable : l.cursor.Addressable) (tame : Tame fails)
include scanned addressable tame

/-- In a scanned layout lookups end with no other errors than those that they raise by
themselves. -/
theorem admits_tame : Admits l fails where
  flaw := tame.flaw
  wraps := tame.wraps
  wrongKind := tame.wrongKind
  encoding := tame.encoding
  scanned := .inr scanned
  table env e inside stopped := by
    rcases inside with impossible | inside
    · exact absurd impossible tame.bounds
    · exact fails_scanTable tame ⟨inside, addressable⟩ stopped
  rows env table inside given := by
    rcases inside with impossible | inside
    · exact absurd impossible tame.bounds
    · have held := (of_scanTable ⟨inside, addressable⟩ given).2
      exact .inr (by simpa using rowsInside_of_rowOffsets held)

omit scanned addressable

/-- What a search has come to is a table that lies in the buffer, or an error that it may end
with. -/
def Searched (l : Layout) (fails : Error → Prop) (m : Memo) : Prop :=
  (∀ table, m.table = some (.ok table) → RowsInside l.cursor table) ∧
    ∀ e, m.table = some (.error e) → fails e

/-- A memo whose table lies in the buffer goes on to have such a one, whatever is remembered. -/
theorem retains_searched : Retains l (Searched l fails) fails where
  entry _ _ _ searched := searched
  row _ _ _ searched := searched
  begins m searched unknown := by
    refine ⟨fun table given r p here => ?_, fun e given => ?_⟩
    · obtain rfl : #[] = table := by simpa using given
      simp at here
    · simp at given
  settles m m' found searched unknown searched' lies failing := by
    refine ⟨fun table given => ?_, fun e given => failing e (Option.some.inj given)⟩
    exact (lies table (Option.some.inj given)).resolve_left tame.bounds
  known m table searched known := .inr (searched.1 table known)
  fruitless m e searched known := searched.2 e known

omit tame in
/-- The memo that remembers nothing has no table yet. -/
theorem searched_fresh : Searched l fails (fresh l) := ⟨nofun, nofun⟩

end Scanned

end Lookup

namespace Pool

open Lookup

variable {l : Layout} {origin : Origin}

/-- The errors of a pool are those of the lookups that made it. -/
theorem reports_sweptAfter {α : Type} {inv : Memo → Prop} {fails : Error → Prop}
    {first : Lookup α} {post : α → Prop} (admits : Admits l fails) (retains : Retains l inv fails)
    (starts : inv (fresh l)) (ends : Ends inv fails first post) :
    (sweptAfter l origin first).Reports fails := by
  have entries (i : Nat) : Ends inv fails (Lookup.entry l origin i) fun _ => True :=
    ends_entry admits retains
  have found := ends_findTable admits entries retains
  have rows (r : Nat) :
      Ends inv fails (Lookup.row l origin (Lookup.entry l origin) r) fun _ => True :=
    ends_row admits entries retains
  obtain ⟨size, each, after⟩ := sweep_range (n := l.size)
    (fun i m starts => (entries i m starts).1) (ends _ starts).1
  obtain ⟨searched, -, fruitless⟩ := found (memoAfter l origin first) after
  refine ⟨fun i e here => ?_, fun e given => ?_, fun swept r e given here => ?_⟩
  · simp only [entries_sweptAfter, List.getElem?_toArray] at here
    have inside := (List.getElem?_eq_some_iff.mp here).1
    rw [size] at inside
    obtain ⟨m, starts, looked⟩ := each i inside
    exact (entries i m starts).2.2 e (Option.some.inj (looked.symm.trans here))
  · rw [rows_sweptAfter] at given
    cases outcome : (runFrom (findTable l (Lookup.entry l origin)) (memoAfter l origin first)).1
      with
    | ok table => simp [outcome, Except.map] at given
    | error e' =>
        simp only [outcome, Except.map, Except.error.injEq] at given
        exact given ▸ fruitless e' outcome
  · rw [rows_sweptAfter] at given
    cases outcome : (runFrom (findTable l (Lookup.entry l origin)) (memoAfter l origin first)).1
      with
    | error e => simp [outcome, Except.map] at given
    | ok table =>
        obtain ⟨count, eachRow, -⟩ := sweep_range (n := table.size)
          (fun r m starts => (rows r m starts).1) searched
        simp only [outcome, Except.map, Except.ok.injEq] at given
        subst given
        rw [List.getElem?_toArray] at here
        have inside := (List.getElem?_eq_some_iff.mp here).1
        rw [count] at inside
        obtain ⟨m, starts, looked⟩ := eachRow r inside
        exact (rows r m starts).2.2 e (Option.some.inj (looked.symm.trans here))

variable (scanned : l.Scanned) (addressable : l.cursor.Addressable)
include scanned addressable

section Tame

variable {fails : Error → Prop} (tame : Tame fails)
include tame

/-- The errors in a pool that was swept are such that lookups may end with. -/
theorem reports_swept : (sweptAfter l origin (pure ())).Reports fails :=
  have nothing : Ends (Searched l fails) fails (pure ()) fun _ => True := .pure trivial
  reports_sweptAfter (admits_tame scanned addressable tame) (retains_searched tame) searched_fresh
    nothing

/-- The errors in a pool after the search are such that lookups may end with. -/
theorem reports_afterSearch (search : TableSearch) :
    (afterSearch l origin search).Reports fails := by
  have admits := admits_tame scanned addressable tame
  have retains : Retains l (Searched l fails) fails := retains_searched tame
  cases search with
  | constant i => exact reports_sweptAfter admits retains searched_fresh (ends_entry admits retains)
  | table =>
      exact reports_sweptAfter admits retains searched_fresh
        (ends_findTable admits (fun i => ends_entry admits retains) retains)

end Tame

/-- A pool that waits for a search says so where the search would decide. -/
theorem reports_ofLayout (number : Nat) :
    (ofLayout l number).Reports (ofLayout l number).Stops := by
  have reports : (sweptAfter l (.input number) (pure ())).Reports Harmless :=
    reports_swept scanned addressable tame_harmless
  rw [ofLayout]
  split
  · refine ⟨fun i e here => ?_, fun e given => ?_, fun rows r e given => by cases given⟩
    · simp only [beforeSearch, Array.getElem?_mapIdx, Option.map_eq_some_iff] at here
      obtain ⟨outcome, known, same⟩ := here
      cases outcome with
      | ok e' => cases same
      | error e' =>
          obtain rfl := Except.error.inj same
          split
          · exact .inr ⟨rfl, number, .constant i, rfl⟩
          · exact .inl (reports.entries i e' known)
    · obtain rfl := Except.error.inj given
      exact .inr ⟨rfl, number, .table, rfl⟩
  · exact reports.mono fun e => .inl

end Pool

end JvmClass
