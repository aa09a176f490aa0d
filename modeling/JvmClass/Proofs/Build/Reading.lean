import JvmClass.Proofs.Build.Rescan
import JvmClass.Proofs.Constant.HashConsing

/-!
# Reading a pool that was built from nothing

A pool that started from nothing and met no error is written as its constants, one after another,
and as its rows. If its texts are UTF-8, what is read from that is the pool again: as many indices
and rows, each of which gives what it gave before, or nothing where it gave nothing.
-/

namespace JvmClass

open PoolBuilder (Consed)

variable {p : PoolBuilder} {l : Layout} {origin : Origin}

namespace PoolBuilder

/-- The pool of a class file is the one that was written. -/
structure Laid (p : PoolBuilder) (l : Layout) : Prop where
  entries : ∀ (k : Nat) (e : Entry), p.slots[k]? = some (some e) →
    ∃ q, l.ConstantAt (p.base + k) e.tag q ∧ l.cursor.Spells q e.encode
  only : ∀ n q : Nat, l.offsets[n]?.join = some q → ∃ (k : Nat) (e : Entry),
    n = p.base + k ∧ p.slots[k]? = some (some e)
  size : l.size = p.size
  stop : l.poolEnd = 8 + p.encode.length

namespace Consed

variable (consed : p.Consed) (fine : p.error = none)
include consed fine

/-- A pool without errors is no larger than a pool may be. -/
theorem small : p.size ≤ maxSize := Nat.not_lt.mp fun big => consed.full big fine

/-- A text of a pool without errors is short enough to be written. -/
theorem short {k : Nat} {u : Utf8Entry} (slot : p.slots[k]? = some (some (.utf8 u))) :
    (ModifiedUtf8.encode u.text).length ≤ maxTextLength := consed.lawful k _ slot fine

/-- A scan comes to the constants that were written. -/
theorem laid (scanned : l.Scanned) (spells : l.cursor.Spells 8 p.encode) : p.Laid l := by
  have small := consed.small fine
  rw [maxSize] at small
  have alone : p.parentBytes = [] := by rw [parentBytes, consed.orphan]
  rw [PoolBuilder.encode, alone, List.append_nil, Cursor.spells_append_iff, length_u2] at spells
  obtain ⟨counted, spells⟩ := spells
  obtain ⟨rest, count, constants, each, blank⟩ := PoolBuilder.constants_of_spells consed.spaced
    (fun u member => by
      obtain ⟨k, slot⟩ := List.getElem?_of_mem member
      exact consed.short fine (k := k) (by simpa using slot)) spells
  have count := count.trans Array.length_toList
  obtain ⟨found, listed, constants'⟩ := scanned.constants
  have size : l.size = p.size := by
    have size := scanned.count
    rw [counted.u2_of_lt (by omega)] at size
    exact (Option.some.inj size).symm
  have same : found.length = rest.length := by
    have whole : l.size = found.length + 1 := by simp [Layout.size, listed]
    rw [size, PoolBuilder.size, consed.base] at whole
    omega
  obtain ⟨rfl, stop⟩ := constants'.functional constants same
  have offset (k : Nat) : l.offsets[p.base + k]? = found[k]? := by
    rw [← Array.getElem?_toList, listed, consed.base, Nat.add_comm]
    simp
  refine ⟨fun k e slot => ?_, fun n q stands => ?_, size, ?_⟩
  · obtain ⟨q, here, spells⟩ := each k e (by simpa using slot)
    refine ⟨q, ⟨?_, _, Entry.tag_of_spells spells, Tag.ofByte?_byte _⟩, spells⟩
    rw [offset, here]
    rfl
  · cases n with
    | zero => simp [listed] at stands
    | succ k =>
        have shift : k + 1 = p.base + k := by rw [consed.base, Nat.add_comm]
        rw [shift, offset] at stands
        obtain ⟨inside, -⟩ := List.getElem?_eq_some_iff.mp (Option.join_eq_some_iff.mp stands)
        have inside : k < p.slots.size := by omega
        cases slot : p.slots[k]? with
        | none => exact absurd (Array.getElem?_eq_none_iff.mp slot) (Nat.not_le.mpr inside)
        | some s =>
            cases s with
            | some e => exact ⟨k, e, shift, slot⟩
            | none =>
                rw [blank k (by simpa using slot)] at stands
                cases stands
  · rw [stop, PoolBuilder.encode, alone, List.append_nil, List.length_append, length_u2]
    omega

/-- The texts that were written stand at their places. -/
theorem stores (laid : p.Laid l) : p.Stores l := by
  intro text place known
  obtain ⟨e, has, rfl, keyed⟩ := consed.places _ _ known
  obtain ⟨u, rfl, rfl⟩ := key_eq_text_iff.mp keyed
  obtain ⟨k, place, slot⟩ := consed.slot has
  obtain ⟨q, constant, spells⟩ := laid.entries k _ slot
  have stored := constant.stored spells (consed.short fine slot)
  rw [place]
  exact stored

end Consed

/-- A pool without errors whose texts are UTF-8, with no more rows and arguments than can be
counted. -/
structure Readable (p : PoolBuilder) : Prop extends p.Consed where
  fine : p.error = none
  known : p.indexed = true
  utf8 : ∀ u, p.Has (.utf8 u) → u.text.isUtf8 = true
  few : p.rows.size ≤ 65535
  narrow : ∀ row ∈ p.rows, row.arguments.length ≤ 65535

namespace Readable

variable (readable : p.Readable)
include readable

/-- A constant of the pool is made of what is there. -/
theorem made {e : Entry} (has : p.Has e) : e.Made p.Has p.HasRow := by
  obtain ⟨k, -, slot⟩ := readable.slot has
  refine (readable.entries k e slot).2.made (readable.lawful k e slot readable.fine) ?_
  rintro u rfl
  exact Text.decode?_encode_of_isUtf8 (readable.utf8 u has)

/-- Every constant of the pool was made as its factory makes it. -/
theorem inv : p.Inv where
  base _ known := nomatch readable.orphan.symm.trans known
  orphan _ := readable.base
  small := readable.small readable.fine
  exact _ known := nomatch readable.orphan.symm.trans known
  waiting no := nomatch readable.known.symm.trans no
  places := readable.places
  slots k e slot := by
    have place := (readable.entries k e slot).1
    exact ⟨place, readable.made (.own place slot)⟩
  spaced := readable.spaced
  rows r row here := by
    obtain ⟨place, linked⟩ := readable.rows r row here
    refine ⟨by rw [BootstrapRow.index, place], by rw [place]; rfl, linked.handle, ?_,
      linked.arguments⟩
    exact readable.narrow row (Array.mem_of_getElem? here)
  inherited _ _ known := nomatch readable.orphan.symm.trans known
  rowOf := readable.rowOf

/-- The index of a constant fits two bytes. -/
theorem index_lt {e : Entry} (has : p.Has e) : e.index < 65536 := by
  have small := readable.small readable.fine
  obtain ⟨k, place, slot⟩ := readable.slot has
  have inside := (Array.getElem?_eq_some_iff.mp slot).1
  rw [maxSize, size] at small
  rw [Entry.index, place]
  dsimp only
  omega

/-- The index of a row fits two bytes. -/
theorem row_lt {row : BootstrapRow} (has : p.HasRow row) : row.index < 65536 := by
  have few := readable.few
  have inside := (Array.getElem?_eq_some_iff.mp (readable.inv.entered readable.known has)).1
  omega

/-- The constants and rows of the pool stand in a class file that was written from it. -/
theorem standsIn (laid : p.Laid l) (hasRows : l.HasRows origin p) : p.StandsIn l origin where
  entries e has := by
    obtain ⟨k, place, slot⟩ := readable.slot has
    obtain ⟨q, constant, spells⟩ := laid.entries k e slot
    refine ⟨q, by rw [Entry.index, place]; exact constant, ?_⟩
    exact Entry.operandsAt_of_spells (fun _ => readable.index_lt) (fun _ => readable.row_lt)
      (readable.made has) spells
  rows := by
    obtain ⟨table, isTable, -, each⟩ := hasRows
    refine ⟨table, isTable, fun r row here => ?_⟩
    obtain ⟨o, offset, spells⟩ := each r row here
    obtain ⟨-, -, made⟩ := readable.inv.rows r row here
    have count := made.count
    exact ⟨o, offset, BootstrapRow.standsAt_of_spells spells (readable.index_lt made.handle)
      (by omega)
      fun a member => readable.index_lt (made.arguments a member)⟩

end Readable

end PoolBuilder

/-! ## Looking rows up -/

/-- In a pool that has entered its parent, the rows are counted as they are. -/
theorem PoolBuilder.rowCount_of_indexed (indexed : p.indexed = true) :
    (PoolBuilder.rowCount p).1 = p.rows.size := by
  rw [PoolBuilder.rowCount, bind_apply, ensureIndexed_done indexed]
  rfl

/-- In a pool that has entered its parent, a row is given by its index, or the index is out of
range. -/
theorem PoolBuilder.row_of_indexed (indexed : p.indexed = true) (r : Int) :
    (PoolBuilder.row r p).1 =
      if r < 0 then .error (.misuse (.bootstrapRange r p.rows.size))
      else (p.rows[r.toNat]?).elim (.error (.misuse (.bootstrapRange r p.rows.size))) .ok := by
  rw [PoolBuilder.row, bind_apply, ensureIndexed_done indexed]
  by_cases below : r < 0
  · simp only [bind_apply, get_apply, below, ↓reduceIte]
    rfl
  · simp only [bind_apply, get_apply, below, ↓reduceIte]
    cases p.rows[r.toNat]? <;> rfl

/-- In a table that can be read, a row is given by its index, or the index is out of range. -/
theorem Pool.row_of_rows {c : Pool} {rows : Array (Except Error BootstrapRow)}
    (given : c.rows = .ok rows) (r : Int) : c.row r =
      if r < 0 then .error (.flaw 0 (.bootstrapRange r rows.size))
      else (rows[r.toNat]?).getD (.error (.flaw 0 (.bootstrapRange r rows.size))) := by
  rw [Pool.row, given]
  by_cases below : r < 0
  · simp only [bind, Except.bind, below, ↓reduceIte]
    rfl
  · simp only [bind, Except.bind, below, ↓reduceIte]

/-- What can be read of one pool, by index and by number, denotes what another one gives. -/
structure Pool.Mirrors (c : Pool) (p : PoolBuilder) : Prop where
  size : c.size = p.size
  rowCount : c.rowCount = (PoolBuilder.rowCount p).1
  entry : ∀ i : Int, (c.entry i).toOption.map Entry.bare = (p.entry i).toOption.map Entry.bare
  row : ∀ r : Int, (c.row r).toOption.map BootstrapRow.bare =
    (PoolBuilder.row r p).1.toOption.map BootstrapRow.bare

namespace PoolBuilder.Readable

variable (readable : p.Readable) {c : Pool} (tells : c.Tells l) (laid : p.Laid l)
  (hasRows : l.HasRows c.origin p)
include readable tells laid hasRows

/-- An index denotes in the class what it denotes in the pool, or nothing in both. -/
theorem read_entry (i : Int) :
    (c.entry i).toOption.map Entry.bare = (p.entry i).toOption.map Entry.bare := by
  cases written : p.entry i with
  | ok e =>
      obtain ⟨has, rfl⟩ := readable.entry_eq_ok_iff.mp written
      obtain ⟨e', holds, same⟩ :=
        (readable.standsIn laid hasRows).mirrors readable.inv readable.known has
      rw [Pool.entry_eq_ok_iff.mpr (tells.complete _ _ holds)]
      exact congrArg some same
  | error x =>
      cases read : c.entry i with
      | error y => rfl
      | ok e' =>
          obtain ⟨n, rfl⟩ : ∃ n : Nat, i = n := by
            rw [Pool.entry] at read
            split at read
            · cases read
            · exact ⟨i.toNat, by omega⟩
          obtain ⟨t, q, constant, -⟩ := Layout.holds_iff.mp (tells.entry read)
          obtain ⟨k, e, rfl, slot⟩ := laid.only n q constant.offset
          have place := (readable.entries k e slot).1
          have found : p.entry ((p.base + k : Nat) : Int) = .ok e :=
            readable.entry_eq_ok_iff.mpr ⟨.own place slot, by rw [Entry.index, place]⟩
          cases found.symm.trans written

/-- The rows that are read are as many as were written, and each denotes what was written. -/
theorem read_rows : ∃ rows : Array (Except Error BootstrapRow), c.rows = .ok rows ∧
    rows.size = p.rows.size ∧ ∀ (r : Nat) (row : BootstrapRow), p.rows[r]? = some row →
      ∃ row', rows[r]? = some (.ok row') ∧ row'.bare = row.bare := by
  obtain ⟨table, isTable, count, -⟩ := id hasRows
  obtain ⟨rows, given, complete⟩ := tells.table table isTable
  obtain ⟨table', isTable', count', -⟩ := tells.rows rows given
  obtain rfl := isTable.functional isTable'
  refine ⟨rows, given, count'.trans count, fun r row here => ?_⟩
  have index := (readable.rows r row here).1
  have has : p.HasRow row := .entered (by rw [BootstrapRow.index, index]; exact here)
  obtain ⟨row', rowed, same⟩ :=
    (readable.standsIn laid hasRows).row readable.inv readable.known row has
  rw [BootstrapRow.index, index] at rowed
  exact ⟨row', complete r row' rowed, same⟩

/-- What is read of a pool that was written is the pool again. -/
theorem mirrors : c.Mirrors p := by
  obtain ⟨rows, given, count, each⟩ := readable.read_rows tells laid hasRows
  refine ⟨tells.size.trans laid.size, ?_, readable.read_entry tells laid hasRows, fun r => ?_⟩
  · rw [rowCount_of_indexed readable.known, Pool.rowCount, given]
    exact count
  · rw [row_of_indexed readable.known, Pool.row_of_rows given]
    by_cases below : r < 0
    · rw [if_pos below, if_pos below]
      rfl
    · rw [if_neg below, if_neg below]
      cases written : p.rows[r.toNat]? with
      | none =>
          have beyond := Array.getElem?_eq_none_iff.mp written
          rw [Array.getElem?_eq_none (by omega)]
          rfl
      | some row =>
          obtain ⟨row', here, same⟩ := each r.toNat row written
          rw [here]
          exact congrArg some same

end PoolBuilder.Readable

/-- What is read of a class that was put together from nothing is the pool that it was put together
with. -/
theorem ClassDraft.Assembled.mirrors {d : ClassDraft} {q : PoolBuilder} {bytes : Bytes} {c : Pool}
    (assembled : d.Assembled q p bytes) (readable : p.Readable) (scannable : d.Scannable)
    (scanned : l.Scanned) (cursor : l.cursor = ⟨bytes.toArray⟩)
    (addressable : l.cursor.Addressable) (tells : c.Tells l)
    (foreign : ∀ a ∈ d.attributes, a.name ≠ Lookup.bootstrapMethods) : c.Mirrors p := by
  have laid := readable.laid readable.fine scanned (assembled.spells cursor)
  obtain ⟨-, -, -, -, -, same, -⟩ := id assembled
  have hasRows : l.HasRows c.origin q := assembled.hasRows scannable scanned cursor laid.stop
    (readable.stores readable.fine laid) addressable c.origin foreign
    (same ▸ readable.few) (same ▸ readable.narrow)
  refine readable.mirrors tells laid ?_
  rw [Layout.HasRows, same]
  exact hasRows

end JvmClass
