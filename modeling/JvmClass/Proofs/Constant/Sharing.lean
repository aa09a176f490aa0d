import JvmClass.Constant.PoolBuilder
import JvmClass.Proofs.ClassFile.Layout
import JvmClass.Proofs.Constant.Pool

/-!
# Building on the constants of an input

A builder that starts from an input enters its constants and rows at the first request.
Requests that the input can answer add nothing: a text is found at the index of the first
constant that spells it, and what the input owns keeps its index. The rows of a scanned table follow
one another without a gap, each written by the indices of its handle and its arguments, so writing
them again gives the bytes of the table.
-/

namespace JvmClass

namespace PoolBuilder

/-- The place of an entry with the key, if it is one. -/
def placeOf? (key : ConstantKey) : Except Error Entry → Option Place
  | .ok e => if e.key = key then some e.place else none
  | .error _ => none

/-- Entering a constant adds its key, unless the key was there before. -/
theorem getElem?_enterEntry (places : Std.HashMap ConstantKey Place) (e : Except Error Entry)
    (key : ConstantKey) : (enterEntry places e)[key]? = (places[key]?).or (placeOf? key e) := by
  cases e with
  | error e => simp [enterEntry, placeOf?]
  | ok e =>
      rw [enterEntry, Std.HashMap.getElem?_insertIfNew, placeOf?]
      cases known : places[key]? with
      | none =>
          have fresh : ¬key ∈ places := by simpa using known
          by_cases same : e.key = key
          · simp [same, fresh]
          · simp [same]
      | some place =>
          have member : key ∈ places := by
            have := Std.HashMap.mem_iff_isSome_getElem? (m := places) (a := key)
            simp [this, known]
          by_cases same : e.key = key
          · simp [same, member]
          · simp [same]

/-- The first constant with a key gives its place. -/
theorem getElem?_foldl_enterEntry (es : List (Except Error Entry))
    (places : Std.HashMap ConstantKey Place) (key : ConstantKey) :
    (es.foldl enterEntry places)[key]? = (places[key]?).or (es.findSome? (placeOf? key)) := by
  induction es generalizing places with
  | nil => simp
  | cons e rest inductionHypothesis =>
      rw [List.foldl_cons, inductionHypothesis, getElem?_enterEntry, Option.or_assoc,
        List.findSome?_cons]
      cases placeOf? key e <;> simp

/-- The builder on the constants and rows of an input. -/
def shared (i : Input) (rows : List BootstrapRow) : PoolBuilder :=
  { (default : PoolBuilder) with
    parent := some i
    base := i.pool.size
    indexed := true
    places := i.pool.entries.foldl enterEntry (default : PoolBuilder).places
    rows := rows.toArray
    rowOf := rows.foldl (fun known row => known.insertIfNew row.key row)
      (default : PoolBuilder).rowOf }

/-- The rows of an input that a builder enters. -/
inductive RowsOf (i : Input) : List BootstrapRow → Prop
  | unreadable {e : Error} (given : i.pool.rows = .error e) : RowsOf i []
  | read {outcomes : Array (Except Error BootstrapRow)} {rows : List BootstrapRow}
      (given : i.pool.rows = .ok outcomes) (all : outcomes.toList = rows.map .ok) : RowsOf i rows

/-- Entering rows that could all be read adds them all. -/
theorem enterRows_ok (rows : List BootstrapRow) (p : PoolBuilder) :
    enterRows (rows.map .ok) p = ((), { p with
      rows := p.rows ++ rows.toArray
      rowOf := rows.foldl (fun known row => known.insertIfNew row.key row) p.rowOf }) := by
  induction rows generalizing p with
  | nil =>
      rw [List.map_nil, enterRows, List.foldl_nil, Array.append_empty]
      rfl
  | cons row rest inductionHypothesis =>
      simp only [List.map_cons, enterRows, bind, StateT.bind, modify, modifyGet,
        MonadStateOf.modifyGet, StateT.modifyGet, pure]
      rw [inductionHypothesis]
      simp

/-- Indexing a builder on an input takes the places of its constants and its rows. -/
theorem ensureIndexed_ofParent {i : Input} {rows : List BootstrapRow}
    (settled : i.pool.abort? = none) (entered : RowsOf i rows) :
    ensureIndexed (ofParent i) = ((), shared i rows) := by
  rw [ensureIndexed, bind_apply, get_apply]
  have unindexed : (ofParent i).indexed = false := rfl
  simp only [unindexed, Bool.false_eq_true, ↓reduceIte]
  rw [bind_apply, modify_apply, bind_apply, get_apply]
  have parent : (ofParent i).parent = some i := rfl
  simp only [parent, settled]
  rw [bind_apply, modify_apply]
  cases entered with
  | unreadable given => simp only [given]; rfl
  | read given all =>
      have nothing : (default : PoolBuilder).rows = #[] := rfl
      simp [given, all, enterRows_ok, shared, ofParent, nothing]

/-- A builder on an input that was indexed is not indexed again. -/
theorem ensureIndexed_shared (i : Input) (rows : List BootstrapRow) :
    ensureIndexed (shared i rows) = ((), shared i rows) := rfl

section Own

variable {p : PoolBuilder}

/-- A constant that a builder takes for its own keeps its index. -/
theorem indexOf_own {e : Entry} (own : p.owns e.place.origin = true) :
    indexOf e p = (e.index, p) := by
  unfold indexOf
  rw [bind_apply, get_apply]
  simp only [own, ↓reduceIte]
  rfl

/-- A class that a builder takes for its own is adopted as it is. -/
theorem adoptClass_own {e : ClassEntry} (own : p.owns e.place.origin = true) :
    adoptClass e p = (e, p) := by
  rw [adoptClass, bind_apply, get_apply]
  simp only [own, ↓reduceIte]
  rfl

/-- A handle that a builder takes for its own is adopted as it is. -/
theorem adoptHandle_own {e : HandleEntry} (own : p.owns e.place.origin = true) :
    adoptHandle e p = (e, p) := by
  rw [adoptHandle, bind_apply, get_apply]
  simp only [own, ↓reduceIte]
  rfl

/-- A loadable constant that a builder takes for its own is adopted as it is. -/
theorem adoptLoadable_own {e : Loadable} (own : p.owns e.place.origin = true) :
    adoptLoadable e p = (e, p) := by
  rw [adoptLoadable.eq_def, bind_apply, get_apply]
  simp only [own, ↓reduceIte]
  rfl

end Own

/-- A builder on the constants of an input, before or after its first request. -/
inductive Shares (i : Input) (rows : List BootstrapRow) : PoolBuilder → Prop
  | unasked : Shares i rows (ofParent i)
  | asked : Shares i rows (shared i rows)

/-- An input whose constants and rows can be entered without an error. -/
structure Sharable (i : Input) (rows : List BootstrapRow) : Prop where
  settled : i.pool.abort? = none
  entered : RowsOf i rows

namespace Shares

variable {i : Input} {rows : List BootstrapRow} {p : PoolBuilder}

/-- A builder that shares the constants of an input has it as its parent. -/
theorem parent (shares : Shares i rows p) : p.parent = some i := by
  cases shares <;> rfl

/-- A builder that shares the constants of an input has met no error. -/
theorem error (shares : Shares i rows p) : p.error = none := by
  cases shares <;> rfl

/-- A builder that shares the constants of an input takes them for its own. -/
theorem owns (shares : Shares i rows p) : p.owns i.origin = true := by
  simp [PoolBuilder.owns, shares.parent]

/-- The pool is written as the constants of the input are. -/
theorem encode (shares : Shares i rows p) :
    p.encode = u2 i.pool.size
      ++ (i.cursor.slice? 10 (i.layout.poolEnd - 10 : Nat)).getD [] := by
  have empty : (default : PoolBuilder).slots = #[] := rfl
  cases shares <;> simp [PoolBuilder.encode, PoolBuilder.size, parentBytes, ofParent, shared, empty]

/-- Indexing a builder that shares constants comes to the same, whether it is the first time or
not. -/
theorem ensureIndexed (shares : Shares i rows p) (sharable : Sharable i rows) :
    PoolBuilder.ensureIndexed p = ((), shared i rows) := by
  cases shares with
  | unasked => exact ensureIndexed_ofParent sharable.settled sharable.entered
  | asked => exact ensureIndexed_shared i rows

/-- A builder that shares constants has the rows of the input. -/
theorem rowCount (shares : Shares i rows p) (sharable : Sharable i rows) :
    PoolBuilder.rowCount p = (rows.length, shared i rows) := by
  rw [PoolBuilder.rowCount, bind_apply, shares.ensureIndexed sharable]
  simp [bind_apply, get_apply, pure_apply, shared]

/-- What the input holds under a key is found at its place. -/
theorem intern (shares : Shares i rows p) (sharable : Sharable i rows) {key : ConstantKey}
    {make : Place → Entry} {place : Place}
    (found : i.pool.entries.toList.findSome? (placeOf? key) = some place) :
    PoolBuilder.intern key make p = (place, shared i rows) := by
  have known : (shared i rows).places[key]? = some place := by
    have nothing : (default : PoolBuilder).places = ∅ := rfl
    rw [shared, ← Array.foldl_toList, getElem?_foldl_enterEntry, found, nothing,
      Std.HashMap.getElem?_empty, Option.none_or]
  rw [PoolBuilder.intern, bind_apply, shares.ensureIndexed sharable, bind_apply, get_apply]
  simp only [known]
  rfl

/-- A text that the input holds, and that is not too long, is found at its place. -/
theorem utf8 (shares : Shares i rows p) (sharable : Sharable i rows) {text : Text} {place : Place}
    (short : (ModifiedUtf8.encode text).length ≤ maxTextLength)
    (found : i.pool.entries.toList.findSome? (placeOf? (.text text)) = some place) :
    PoolBuilder.utf8 text p = (⟨place, text⟩, shared i rows) := by
  rw [PoolBuilder.utf8]
  simp only [Nat.not_lt.mpr short, ↓reduceIte]
  rw [bind_apply, shares.intern sharable found]
  rfl

end Shares

/-- Where every text of an input is spelled by one constant only, that constant is found. -/
theorem findSome?_text {es : List (Except Error Entry)} {entry : Utf8Entry} {n : Nat}
    (here : es[n]? = some (.ok (.utf8 entry)))
    (unique : ∀ (k : Nat) (other : Utf8Entry), es[k]? = some (.ok (.utf8 other)) →
      other.text = entry.text → k = n) :
    es.findSome? (placeOf? (.text entry.text)) = some entry.place := by
  obtain ⟨inside, same⟩ := List.getElem?_eq_some_iff.mp here
  rw [List.findSome?_eq_some_iff]
  refine ⟨es.take n, .ok (.utf8 entry), es.drop (n + 1), ?_, ?_, fun outcome before => ?_⟩
  · rw [← same, ← List.drop_eq_getElem_cons inside, List.take_append_drop]
  · simp [placeOf?, Entry.key, Entry.place]
  · obtain ⟨k, bound, rfl⟩ := List.mem_take_iff_getElem.mp before
    have there : es[k]? = some es[k] := List.getElem?_eq_getElem (by omega)
    generalize es[k] = outcome at there
    cases outcome with
    | error e => rfl
    | ok e =>
        cases e with
        | utf8 other =>
            have differs : other.text ≠ entry.text := fun equal => by
              have := unique k other there equal
              omega
            simp [placeOf?, Entry.key, differs]
        | loadable e => cases e <;> simp [placeOf?, Entry.key, Loadable.key, ConstantKey.integral]
        | _ => simp [placeOf?, Entry.key]

end PoolBuilder

/-! ## The bytes of a bootstrap table -/

open Layout (RowFrom)

/-- Bootstrap rows from `p` up to `q`, by their offsets. -/
inductive RowOffsets (c : Cursor) : Nat → List Nat → Nat → Prop
  | done (p : Nat) : RowOffsets c p [] p
  | next {p n q : Nat} {rest : List Nat} (count : c.u2? (p + 2 : Nat) = some n)
      (inside : p + 4 + 2 * n ≤ c.size) (others : RowOffsets c (p + 4 + 2 * n) rest q) :
      RowOffsets c p (p :: rest) q

/-- Rows lie one after another. -/
theorem RowOffsets.forward {c : Cursor} {p q : Nat} {offsets : List Nat}
    (held : RowOffsets c p offsets q) : p ≤ q := by
  induction held with
  | done p => exact Nat.le_refl _
  | next count inside others inductionHypothesis => omega

namespace Lookup

section Window

variable {c : Cursor} {stop : Nat} (window : Window c stop)
include window

/-- A row is read exactly if it lies in the window with its arguments, and reading goes on after
it. -/
theorem scanRow_eq_ok_iff {p r : Nat} {d : Decoder} (before : p ≤ stop) :
    scanRow (.on c stop p) = .ok (r, d) ↔
      r = p ∧ ∃ n, c.u2? (p + 2 : Nat) = some n ∧ p + 4 + 2 * n ≤ stop ∧
        d = .on c stop (p + 4 + 2 * n) := by
  simp only [scanRow, Scan.bind_eq_ok_iff, Scan.pure_eq_ok_iff, Scan.pos_eq_ok_iff]
  constructor
  · rintro ⟨start, _, ⟨rfl, rfl⟩, _, _, handle, n, _, counted, _, _, arguments, rfl, rfl⟩
    obtain ⟨inside, rfl⟩ := (Scan.skip_eq_ok_iff (n := 2) window before (by decide)).mp handle
    obtain ⟨count, inside, rfl⟩ := (Scan.u2_eq_ok_iff window inside).mp counted
    have short := Cursor.u2_lt count
    obtain ⟨inside, rfl⟩ := (Scan.skip_eq_ok_iff (n := 2 * n) window inside (by omega)).mp arguments
    exact ⟨rfl, n, count, inside, rfl⟩
  · rintro ⟨rfl, n, count, inside, rfl⟩
    have short := Cursor.u2_lt count
    have first : r + 2 ≤ stop := by omega
    have second : r + 2 + 2 ≤ stop := by omega
    exact ⟨_, _, ⟨rfl, rfl⟩, (), _,
      (Scan.skip_eq_ok_iff (n := 2) window before (by decide)).mpr ⟨first, rfl⟩, n, _,
      (Scan.u2_eq_ok_iff window first).mpr ⟨count, second, rfl⟩, (), _,
      (Scan.skip_eq_ok_iff (n := 2 * n) window second (by omega)).mpr ⟨inside, rfl⟩, rfl, rfl⟩

/-- Rows are read one after another exactly if they lie so in the window. -/
theorem reads_scanRow_iff {p : Nat} {offsets : List Nat} {d : Decoder} (before : p ≤ stop) :
    Scan.Reads scanRow (.on c stop p) offsets d ↔
      ∃ q, RowOffsets c p offsets q ∧ q ≤ stop ∧ d = .on c stop q := by
  have whole := window.inside
  induction offsets generalizing p with
  | nil =>
      constructor
      · intro reads
        cases reads
        exact ⟨p, .done p, before, rfl⟩
      · rintro ⟨q, held, -, rfl⟩
        cases held
        exact .done _
  | cons r rest inductionHypothesis =>
      constructor
      · intro reads
        cases reads with
        | next first others =>
            obtain ⟨rfl, n, count, inside, rfl⟩ := (scanRow_eq_ok_iff window before).mp first
            obtain ⟨q, held, inside', rfl⟩ := (inductionHypothesis inside).mp others
            exact ⟨q, .next count (Nat.le_trans inside whole) held, inside', rfl⟩
      · rintro ⟨q, held, inside, rfl⟩
        cases held with
        | next count within others =>
            have before' := Nat.le_trans others.forward inside
            exact .next ((scanRow_eq_ok_iff window before).mpr ⟨rfl, _, count, before', rfl⟩)
              ((inductionHypothesis before').mpr ⟨q, others, inside, rfl⟩)

end Window

/-- A scanned table is a count and its rows, up to its end. -/
theorem of_scanTable {l : Layout} {env : Envelope} {table : Array Nat}
    (window : Window l.cursor (env.offset + env.length))
    (scanned : scanTable l env = .ok table) :
    l.cursor.u2? env.offset = some table.size ∧
      RowOffsets l.cursor (env.offset + 2) table.toList (env.offset + env.length) := by
  have bounds : ((env.offset : Int) + env.length) = ((env.offset + env.length : Nat) : Int) := by
    omega
  rw [scanTable, bounds, Scan.onWindow_eq window (Nat.le_add_right _ _)] at scanned
  split at scanned
  · cases scanned
  · rename_i offsets d read
    obtain ⟨count, inside, reads⟩ :=
      (Layout.counted_eq_ok_iff window (Nat.le_add_right _ _)).mp read
    obtain ⟨q, held, inside', rfl⟩ := (reads_scanRow_iff window inside).mp reads
    rw [Scan.remaining_on window inside'] at scanned
    split at scanned
    · cases scanned
    · rename_i nothingLeft
      obtain rfl := Except.ok.inj scanned
      obtain rfl : q = env.offset + env.length := by omega
      exact ⟨by simpa using count, by simpa using held⟩

/-- A table whose rows fill its attribute is read. -/
theorem scanTable_of_rowOffsets {l : Layout} {env : Envelope} {offsets : List Nat}
    (window : Window l.cursor (env.offset + env.length))
    (count : l.cursor.u2? env.offset = some offsets.length)
    (held : RowOffsets l.cursor (env.offset + 2) offsets (env.offset + env.length)) :
    scanTable l env = .ok offsets.toArray := by
  have bounds : ((env.offset : Int) + env.length) = ((env.offset + env.length : Nat) : Int) := by
    omega
  have forward := held.forward
  have read : Scan.counted scanRow (.on l.cursor (env.offset + env.length) env.offset) =
      .ok (offsets, .on l.cursor (env.offset + env.length) (env.offset + env.length)) :=
    (Layout.counted_eq_ok_iff window (Nat.le_add_right _ _)).mpr ⟨count, forward,
      (reads_scanRow_iff window forward).mpr ⟨_, held, Nat.le_refl _, rfl⟩⟩
  rw [scanTable, bounds, Scan.onWindow_eq window (Nat.le_add_right _ _), read]
  simp only [Scan.remaining_on window (Nat.le_refl _), Nat.sub_self]
  rfl

end Lookup

namespace Layout

variable {l : Layout} {origin : Origin}

/-- What a row is written as. -/
def rowBytes (row : BootstrapRow) : Bytes :=
  u2 row.handle.place.index ++ u2 row.arguments.length
    ++ row.arguments.flatMap fun a => u2 a.place.index

/-- The two bytes of a reference are the index of what it refers to. -/
theorem Refers.bytes {α : Type} {want : Entry → Option α} {p : Nat} {a : α} (place : α → Place)
    (kept : ∀ e a, want e = some a → e.place = place a)
    (refers : l.Refers (l.Holds origin) want p a) :
    u2 (place a).index = l.cursor.segment p (p + 2) := by
  obtain ⟨index, holds, taken⟩ := refers
  rw [← kept _ _ taken, holds.place]
  exact Cursor.u2_number index

/-- A loadable constant has the place of its entry. -/
theorem place_of_loadable? (e : Entry) (a : Loadable) (taken : e.loadable? = some a) :
    e.place = a.place := by
  cases e with
  | loadable b =>
      obtain rfl := Option.some.inj taken
      rfl
  | _ => cases taken

/-- A handle has the place of its entry. -/
theorem place_of_handle? (e : Entry) (handle : HandleEntry) (taken : e.handle? = some handle) :
    e.place = handle.place := by
  cases e with
  | loadable b =>
      cases b with
      | handle other =>
          obtain rfl := Option.some.inj taken
          rfl
      | _ => cases taken
  | _ => cases taken

/-- Arguments are written as they stand, one after another. -/
theorem bytes_arguments {p : Nat} {arguments : List Loadable}
    (refers : ∀ k a, arguments[k]? = some a →
      l.Refers (l.Holds origin) Entry.loadable? (p + 2 * k) a) :
    arguments.flatMap (fun a => u2 a.place.index) =
      l.cursor.segment p (p + 2 * arguments.length) := by
  induction arguments generalizing p with
  | nil => simp
  | cons a rest inductionHypothesis =>
      have first : u2 a.place.index = l.cursor.segment p (p + 2) :=
        (refers 0 a rfl).bytes Loadable.place place_of_loadable?
      have others := inductionHypothesis (p := p + 2) fun k b here => by
        have next : p + 2 * (k + 1) = p + 2 + 2 * k := by omega
        exact next ▸ refers (k + 1) b here
      have next : p + 2 + 2 * rest.length = p + 2 * (a :: rest).length := by
        rw [List.length_cons]; omega
      rw [List.flatMap_cons, first, others, next,
        Cursor.segment_append (by omega) (by rw [List.length_cons]; omega)]

/-- A row is written as it stands in the table. -/
theorem RowFrom.bytes {p : Nat} {row : BootstrapRow} (lies : l.RowFrom (l.Holds origin) p row) :
    rowBytes row = l.cursor.segment p (p + 4 + 2 * row.arguments.length) := by
  have handle : u2 row.handle.place.index = l.cursor.segment p (p + 2) :=
    lies.handle.bytes HandleEntry.place place_of_handle?
  have count := Cursor.u2_number lies.count
  have arguments := bytes_arguments lies.arguments
  rw [rowBytes, handle, count, arguments, Cursor.segment_append (by omega) (by omega),
    Cursor.segment_append (by omega) (by omega)]

/-- The rows of a table are written as they stand there. -/
theorem bytes_rows {p q : Nat} {offsets : List Nat} {rows : List BootstrapRow}
    (held : RowOffsets l.cursor p offsets q)
    (lie : List.Forall₂ (l.RowFrom (l.Holds origin)) offsets rows) :
    rows.flatMap rowBytes = l.cursor.segment p q := by
  induction held generalizing rows with
  | done p =>
      cases lie
      simp
  | @next p n q rest count inside others inductionHypothesis =>
      cases lie with
      | @cons _ row _ rows first lie =>
          obtain rfl := Option.some.inj (first.count.symm.trans count)
          rw [List.flatMap_cons, first.bytes, inductionHypothesis lie,
            Cursor.segment_append (by omega) others.forward]

end Layout

/-- The rows of an input are written as they were read. -/
theorem PoolBuilder.encodeRows_shared (i : Input) (rows : List BootstrapRow) :
    (shared i rows).encodeRows = u2 rows.length ++ rows.flatMap Layout.rowBytes := by
  rw [encodeRows, shared, List.size_toArray, List.toList_toArray]
  rfl

/-- Where all rows of the bootstrap table can be read, writing them gives the bytes of the
table. -/
theorem Pool.Tells.bytes_table {p : Pool} {l : Layout} (tells : p.Tells l)
    {envs : List Envelope} {env : Envelope} {rows : List BootstrapRow}
    (all : l.ClassEnvelopes p.origin envs) (found : Layout.tableEnvelope? envs = some env)
    (window : Window l.cursor (env.offset + env.length))
    (read : p.rows = .ok (rows.map Except.ok).toArray) :
    u2 rows.length ++ rows.flatMap Layout.rowBytes =
      l.cursor.segment env.offset (env.offset + env.length) := by
  obtain ⟨table, isTable, size, each⟩ := tells.rows _ read
  have scanned : Lookup.scanTable l env = .ok table := by
    cases isTable with
    | absent all' none_found =>
        obtain rfl := all.functional all'
        rw [found] at none_found
        cases none_found
    | present all' found' scanned =>
        obtain rfl := all.functional all'
        obtain rfl := Option.some.inj (found.symm.trans found')
        exact scanned
  obtain ⟨count, offsets⟩ := Lookup.of_scanTable window scanned
  have length : rows.length = table.size := by simpa using size
  have lie : List.Forall₂ (l.RowFrom (l.Holds p.origin)) table.toList rows := by
    rw [List.forall₂_iff_get]
    refine ⟨by simp [length], fun r first second => ?_⟩
    obtain ⟨-, table', q, isTable', inside, lies⟩ := each r rows[r] (by simp [second])
    obtain rfl := isTable.functional isTable'
    have here : table.toList.get ⟨r, first⟩ = q := by
      simpa using (Array.getElem?_eq_some_iff.mp inside).2
    rw [here]
    exact lies
  rw [← length] at count
  rw [Cursor.u2_number count, Layout.bytes_rows offsets lie,
    Cursor.segment_append (by omega) offsets.forward]

end JvmClass
