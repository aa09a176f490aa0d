import JvmClass.Build.ClassDraft
import JvmClass.Proofs.Attribute.Table
import JvmClass.Proofs.Build.Drafts
import JvmClass.Proofs.Build.Walk
import JvmClass.Proofs.Bytes.Cursor

/-!
# The shape of what is written

Every attribute is written as the index of its name, its length and its body. A field or method
that is written is therefore one that can be scanned, whatever was put into it, and so are those
that are copied from an input.
-/

namespace JvmClass

variable {σ α β : Type} {s s' s'' : Session σ}

namespace Emit

/-! What writing without a note has done. -/

/-- To write something is to give it with nothing noted, before or after. -/
theorem writes_iff_gives {act : Emit σ α} {a : α} :
    Writes s act a s' ↔ Drafting.Gives none s act a none s' := Iff.rfl

/-- Where what comes next forgets no note, nothing was noted before it. -/
theorem writes_bind_iff {x : Emit σ α} {f : α → Emit σ β} {b : β}
    (tries : ∀ a, Tries (.calls σ) (f a)) :
    Writes s (x >>= f) b s'' ↔ ∃ a s', Writes s x a s' ∧ Writes s' (f a) b s'' := by
  constructor
  · intro writes
    obtain ⟨a, noted, s', first, next⟩ := Drafting.Gives.bind_iff.mp writes
    cases noted with
    | none => exact ⟨a, s', first, next⟩
    | some e =>
        refine absurd ?_ ((tries a).notes (some e) s' nofun)
        exact congrArg (·.1.2) next
  · rintro ⟨a, s', first, next⟩
    exact first.bind next

/-- Returning writes its value and leaves the session as it is. -/
theorem writes_pure_iff {a b : α} : Writes s (pure a) b s' ↔ a = b ∧ s = s' := by
  rw [writes_iff_gives, Drafting.Gives.pure_iff]
  simp

/-- A count is written where it fits two bytes. -/
theorem writes_count_iff {n : Nat} {bytes : Bytes} :
    Writes s (count n) bytes s' ↔ n ≤ maxCount ∧ u2 n = bytes ∧ s = s' := by
  rw [count]
  split
  · rename_i long
    constructor
    · intro writes
      obtain ⟨⟨⟩, s₁, noted, -⟩ := (writes_bind_iff fun _ => .pure _).mp writes
      cases congrArg (·.1.2) noted
    · exact fun short => absurd short.1 (Nat.not_le.mpr long)
  · rename_i short
    refine writes_pure_iff.trans ?_
    exact (and_iff_right (Nat.not_lt.mp short)).symm

/-- A part is written behind its length where that fits four bytes. -/
theorem writes_sized_iff {excess : Nat → Error} {body bytes : Bytes} :
    Writes s (sized excess body) bytes s' ↔
      body.length ≤ maxLength ∧ u4 body.length ++ body = bytes ∧ s = s' := by
  rw [sized]
  split
  · rename_i long
    constructor
    · intro writes
      obtain ⟨_, _, _, failed, -⟩ := Drafting.Gives.bind_iff.mp writes
      exact absurd failed Drafting.Gives.not_throw
    · exact fun short => absurd short.1 (Nat.not_le.mpr long)
  · rename_i short
    refine writes_pure_iff.trans ?_
    exact (and_iff_right (Nat.not_lt.mp short)).symm

/-- What comes from outside is taken as it is. -/
theorem writes_monadLift_iff {x : Except Error α} {a : α} :
    Writes s (MonadLiftT.monadLift x : Emit σ α) a s' ↔ x = .ok a ∧ s = s' := by
  cases x with
  | error e => exact iff_of_false Drafting.Gives.not_throw nofun
  | ok b =>
      refine writes_pure_iff.trans ?_
      rw [Except.ok.injEq]

/-- Items are written one after another, behind what was written before. -/
theorem chunks_of_writes_eachOnto {write : β → Emit σ Bytes} {items : List β} {done : List Bytes}
    {bytes : Bytes} (tries : ∀ b ∈ items, Tries (.calls σ) (write b))
    (writes : Writes s (eachOnto write done items) bytes s') : ∃ chunks,
      bytes = done.reverse.flatten ++ chunks.flatten ∧
      List.Forall₂ (fun b chunk => ∃ s₁ s₂, Writes s₁ (write b) chunk s₂) items chunks := by
  induction items generalizing done s with
  | nil => exact ⟨[], by simp [← (writes_pure_iff.mp writes).1], .nil⟩
  | cons b rest inductionHypothesis =>
      obtain ⟨here, tries⟩ := List.forall_mem_cons.mp tries
      obtain ⟨chunk, s₁, wrote, writes⟩ :=
        (writes_bind_iff fun _ => tries_eachOnto tries _).mp writes
      obtain ⟨chunks, rfl, all⟩ := inductionHypothesis tries writes
      exact ⟨chunk :: chunks, by simp, .cons ⟨s, s₁, wrote⟩ all⟩

/-- Items that are written with a count can be counted. -/
theorem chunks_of_writes_counted {write : β → Emit σ Bytes} {items : List β} {bytes : Bytes}
    (tries : ∀ b ∈ items, Tries (.calls σ) (write b))
    (writes : Writes s (counted write items) bytes s') :
    items.length ≤ maxCount ∧ ∃ chunks, bytes = u2 items.length ++ chunks.flatten ∧
      List.Forall₂ (fun b chunk => ∃ s₁ s₂, Writes s₁ (write b) chunk s₂) items chunks := by
  obtain ⟨n, s₁, counted, writes⟩ :=
    (writes_bind_iff fun _ => .bind (tries_each tries) fun _ => .pure _).mp writes
  obtain ⟨short, rfl, rfl⟩ := writes_count_iff.mp counted
  obtain ⟨text, s₂, wrote, given⟩ := (writes_bind_iff fun _ => .pure _).mp writes
  obtain ⟨rfl, rfl⟩ := writes_pure_iff.mp given
  obtain ⟨chunks, rfl, all⟩ := chunks_of_writes_eachOnto tries wrote
  exact ⟨short, chunks, rfl, all⟩

/-- Looking for errors between two parts changes nothing where it goes on. -/
theorem writes_settle {u : Unit} (writes : Writes s settle u s') : s = s' :=
  congrArg Prod.snd writes

/-- A request to the pool gives what it gives the pool, whatever it notes there. -/
theorem writes_interning_iff {act : Interning α} {a : α} :
    Writes s (interning act) a s' ↔
      (act s.pool).1 = a ∧ { s with pool := (act s.pool).2 } = s' := by
  have ran : Writes s (interning act) (act s.pool).1 { s with pool := (act s.pool).2 } :=
    .interning rfl
  constructor
  · intro writes
    have same : ((.ok (act s.pool).1, none), { s with pool := (act s.pool).2 }) =
        (((.ok a, none), s') : (Except Error α × Option Error) × Session σ) := ran.symm.trans writes
    simp only [Prod.mk.injEq, Except.ok.injEq, and_true] at same
    exact same
  · rintro ⟨rfl, rfl⟩
    exact ran

/-- What an action has finished with it has written without a note. -/
theorem writes_of_finish {act : Emit σ α} {a : α} (finished : finish act s = (.ok a, s')) :
    Writes s act a s' := by
  rw [finish, bind_apply] at finished
  rcases ran : (act.run none) s with ⟨⟨outcome, noted⟩, s₁⟩
  rw [ran] at finished
  cases outcome with
  | error e => cases finished
  | ok b =>
      cases noted with
      | some e => cases finished
      | none =>
          obtain ⟨same, rfl⟩ := Prod.mk.inj finished
          obtain rfl := Except.ok.inj same
          exact ran

/-- What is written depends on the state alone. -/
theorem Writes.unique {s₁ s₂ : Session σ} {act : Emit σ α} {a b : α} (first : Writes s act a s₁)
    (second : Writes s act b s₂) : a = b ∧ s₁ = s₂ := by
  cases first.symm.trans second
  exact ⟨rfl, rfl⟩

/-- What is written leaves a later state of the pool. -/
theorem Writes.grows {act : Emit σ α} {a : α} (writes : Writes s act a s')
    (tries : Tries (.calls σ) act) : s.pool.Grows s'.pool := by
  have grows := (tries.does none : Build.Calls _).grows s
  have ran : (act none s).2 = s' := congrArg Prod.snd writes
  exact ran ▸ grows

/-- A reference is an index. -/
theorem length_of_writes_ref {e : Option Entry} {bytes : Bytes}
    (writes : Writes s (ref e) bytes s') :
    bytes.length = 2 := by
  cases e with
  | none =>
      obtain ⟨⟨⟩, s₁, -, given⟩ := (writes_bind_iff fun _ => .pure _).mp writes
      rw [← (writes_pure_iff.mp given).1, length_u2]
  | some e =>
      obtain ⟨n, s₁, -, given⟩ := (writes_bind_iff fun _ => .pure _).mp writes
      rw [← (writes_pure_iff.mp given).1, length_u2]

/-- A reference that may be zero takes two bytes. -/
theorem length_of_writes_optionalRef {e : Option Entry} {bytes : Bytes}
    (writes : Writes s (optionalRef e) bytes s') : bytes.length = 2 := by
  cases e with
  | none => rw [← (writes_pure_iff.mp writes).1, length_u2]
  | some e =>
      obtain ⟨n, s₁, -, given⟩ := (writes_bind_iff fun _ => .pure _).mp writes
      rw [← (writes_pure_iff.mp given).1, length_u2]

/-- A name is written as the index of the place where the pool has it. -/
theorem place_of_writes_refText {text : Text} {bytes : Bytes}
    (writes : Writes s (refText text) bytes s') : ∃ place : Place, u2 place.index = bytes ∧
      (s'.pool.error = none → s'.pool.places[ConstantKey.text text]? = some place) := by
  obtain ⟨entry, s₁, asked, given⟩ := (writes_bind_iff fun _ => .pure _).mp writes
  obtain ⟨rfl, rfl⟩ := writes_interning_iff.mp asked
  obtain ⟨rfl, rfl⟩ := writes_pure_iff.mp given
  exact ⟨_, rfl, PoolBuilder.places_utf8⟩

/-- An attribute as it was written. -/
structure Written where
  name : Text
  place : Place
  body : Bytes

/-- The index of the name, the length and the body. -/
def Written.bytes (w : Written) : Bytes := u2 w.place.index ++ (u4 w.body.length ++ w.body)

/-- An attribute whose name stands in a pool. -/
structure Written.In (p : PoolBuilder) (w : Written) : Prop where
  fits : w.body.length ≤ maxLength
  known : p.error = none → p.places[ConstantKey.text w.name]? = some w.place

/-- An attribute whose name stands in a pool has its name in every pool that this grows to. -/
theorem Written.In.mono {p p' : PoolBuilder} {w : Written} (here : w.In p) (grows : p.Grows p') :
    w.In p' := ⟨here.fits, fun fine => grows.places fine _ _ (here.known (grows.error fine))⟩

/-- The body of a named attribute follows its header. -/
theorem writes_of_named {name : Text} {body : Emit σ Bytes} {bytes : Bytes}
    (tries : Tries (.calls σ) body) (writes : Writes s (named name body) bytes s') :
    ∃ index contents s₁, Writes s (refText name) index s₁ ∧ Writes s₁ body contents s' ∧
      contents.length ≤ maxLength ∧ index ++ (u4 contents.length ++ contents) = bytes := by
  have rest (index : Bytes) : Tries (.calls σ) (do
      let body ← sized (fun n => .misuse (.attributeLength name n)) (← body)
      settle
      return index ++ body : Emit σ Bytes) :=
    .bind tries fun _ => .bind (tries_sized _ _) fun _ => .bind tries_settle fun _ => .pure _
  obtain ⟨index, s₁, referred, writes⟩ := (writes_bind_iff rest).mp writes
  obtain ⟨contents, s₂, filled, writes⟩ := (writes_bind_iff fun _ =>
    .bind (tries_sized _ _) fun _ => .bind tries_settle fun _ => .pure _).mp writes
  obtain ⟨_, s₃, size, writes⟩ :=
    (writes_bind_iff fun _ => .bind tries_settle fun _ => .pure _).mp writes
  obtain ⟨fits, rfl, rfl⟩ := writes_sized_iff.mp size
  obtain ⟨⟨⟩, s₄, settled, given⟩ := (writes_bind_iff fun _ => .pure _).mp writes
  obtain rfl := writes_settle settled
  obtain ⟨rfl, rfl⟩ := writes_pure_iff.mp given
  exact ⟨index, contents, s₁, referred, filled, fits, rfl⟩

/-- An attribute is written as a header with its name and length, and a body that fits. -/
theorem written_of_named {name : Text} {body : Emit σ Bytes} {bytes : Bytes}
    (tries : Tries (.calls σ) body)
    (writes : Writes s (named name body) bytes s') :
    ∃ w : Written, w.name = name ∧ w.bytes = bytes ∧ w.In s'.pool := by
  obtain ⟨_, contents, s₁, referred, filled, fits, rfl⟩ := writes_of_named tries writes
  obtain ⟨place, rfl, known⟩ := place_of_writes_refText referred
  have grows := filled.grows tries
  exact ⟨⟨name, place, contents⟩, rfl, rfl, fits,
    fun fine => grows.places fine _ _ (known (grows.error fine))⟩

/-- Items are written one after another. -/
theorem written_of_itemsAfter {is : List (Option (Item σ))} (are : Named (.calls σ) is)
    {seen : List Text}
    {done : List Bytes} {bytes : Bytes} (writes : Writes s (itemsAfter seen done is) bytes s') :
    ∃ ws : List Written, is.map (Option.map Item.name) = ws.map (fun w => some w.name) ∧
      bytes = done.reverse.flatten ++ ws.flatMap Written.bytes ∧ ∀ w ∈ ws, w.In s'.pool := by
  induction is generalizing seen done s with
  | nil =>
      obtain ⟨⟨⟩, s₁, -, given⟩ := (writes_bind_iff fun _ => .pure _).mp writes
      exact ⟨[], rfl, by simp [(writes_pure_iff.mp given).1], nofun⟩
  | cons i rest inductionHypothesis =>
      cases i with
      | none => exact absurd writes Drafting.Gives.not_throw
      | some item =>
          obtain ⟨body, same, tries⟩ := are item (List.mem_cons_self ..)
          have others (seen : List Text) (done : List Bytes) :
              Tries (.calls σ) (itemsAfter seen done rest) :=
            tries_itemsAfter _ _ _ are.tail
          have written (writes : Writes s (do
              let bytes ← item.write
              itemsAfter (item.name :: seen) (bytes :: done) rest) bytes s') :
              ∃ ws : List Written,
                (some item :: rest).map (Option.map Item.name) = ws.map (fun w => some w.name) ∧
                bytes = done.reverse.flatten ++ ws.flatMap Written.bytes ∧
                ∀ w ∈ ws, w.In s'.pool := by
            obtain ⟨first, s₁, wrote, writes⟩ := (writes_bind_iff fun _ => others _ _).mp writes
            rw [same] at wrote
            obtain ⟨w, named, rfl, here⟩ := written_of_named tries wrote
            obtain ⟨ws, names, rfl, there⟩ := inductionHypothesis are.tail writes
            refine ⟨w :: ws, by simp [names, named], by simp, fun v member => ?_⟩
            rcases List.mem_cons.mp member with rfl | member
            · exact here.mono (writes.grows (others _ _))
            · exact there v member
          rw [itemsAfter] at writes
          split at writes
          · obtain ⟨_, _, _, failed, -⟩ := Drafting.Gives.bind_iff.mp writes
            exact absurd failed Drafting.Gives.not_throw
          · exact written writes

/-- A table is a count and its items. -/
theorem written_of_itemTable {is : List (Option (Item σ))} (are : Named (.calls σ) is)
    {bytes : Bytes}
    (writes : Writes s (itemTable is) bytes s') : ∃ ws : List Written, ws.length ≤ maxCount ∧
      bytes = u2 ws.length ++ ws.flatMap Written.bytes ∧ ∀ w ∈ ws, w.In s'.pool := by
  obtain ⟨n, s₁, counted, writes⟩ :=
    (writes_bind_iff fun _ => .bind (tries_items are) fun _ => .pure _).mp writes
  obtain ⟨short, rfl, rfl⟩ := writes_count_iff.mp counted
  obtain ⟨items, s₂, wrote, given⟩ := (writes_bind_iff fun _ => .pure _).mp writes
  obtain ⟨rfl, rfl⟩ := writes_pure_iff.mp given
  obtain ⟨ws, names, rfl, there⟩ := written_of_itemsAfter are wrote
  have length : ws.length = is.length := by simpa using (congrArg List.length names).symm
  exact ⟨ws, length ▸ short, by simp [length], there⟩

end Emit

namespace Layout

open Emit (Written)

variable {c c' : Cursor} {p p' q : Nat}

/-- A row holds an attribute that was written. -/
structure Row.Shows (c : Cursor) (row : Row) (w : Written) : Prop where
  name : row.name = unsigned 16 w.place.index
  length : row.length = w.body.length
  body : c.Spells row.offset w.body

/-- Attributes that were written are the rows of a table. -/
theorem rows_of_spells {ws : List Written} (fit : ∀ w ∈ ws, w.body.length ≤ Emit.maxLength)
    (spells : c.Spells p (ws.flatMap Written.bytes)) :
    ∃ rows, Rows c p rows (p + (ws.flatMap Written.bytes).length) ∧
      List.Forall₂ (Row.Shows c) rows ws := by
  induction ws generalizing p with
  | nil => exact ⟨[], .done p, .nil⟩
  | cons w rest inductionHypothesis =>
      rw [List.flatMap_cons, Cursor.spells_append_iff] at spells
      obtain ⟨first, others⟩ := spells
      rw [Written.bytes, Cursor.spells_append_iff, Cursor.spells_append_iff] at first
      obtain ⟨name, length, body⟩ := first
      rw [length_u2, length_u4] at body
      rw [length_u2] at length
      have size : w.bytes.length = 6 + w.body.length := by
        simp [Written.bytes, ← Nat.add_assoc]
      have short := fit w (List.mem_cons_self ..)
      rw [Emit.maxLength] at short
      obtain ⟨rows, held, shows⟩ :=
        inductionHypothesis (fun v member => fit v (List.mem_cons_of_mem _ member)) others
      refine ⟨⟨unsigned 16 w.place.index, p + 6, w.body.length⟩ :: rows, .next name.u2
        (length.u4_of_lt (by omega)) rfl body.inside ?_, .cons ⟨rfl, rfl, body⟩ shows⟩
      have here : p + w.bytes.length = p + 6 + w.body.length := by omega
      have stop : p + 6 + w.body.length + (rest.flatMap Written.bytes).length =
          p + ((w :: rest).flatMap Written.bytes).length := by
        rw [List.flatMap_cons, List.length_append]
        omega
      rw [here, stop] at held
      exact held

/-- The same bytes hold as many rows elsewhere. -/
theorem Rows.move {rows : List Row} (held : Rows c p rows q)
    (spells : c'.Spells p' (c.segment p q)) (inside : q ≤ c.size) :
    ∃ rows', rows'.length = rows.length ∧ Rows c' p' rows' (p' + (q - p)) := by
  induction held generalizing p' with
  | done p => exact ⟨[], rfl, by rw [Nat.sub_self]; exact .done p'⟩
  | @next p q row rest name length offset fits others inductionHypothesis =>
      have forward := others.forward
      have whole := Cursor.spells_segment (c := c) (p := p) (q := q) (by omega) inside
      have size := Cursor.length_segment (p := p) inside
      have room := spells.inside
      rw [size] at room
      have tail := spells.after (r := row.offset + row.length) (by omega) forward inside
      have here : row.offset + row.length - p = 6 + row.length := by omega
      rw [here] at tail
      obtain ⟨rows', count, held'⟩ := inductionHypothesis tail inside
      have name' : c'.u2? p' = some row.name := by
        have same : c'.number? 2 (p' + 0 : Nat) = c.number? 2 _ := spells.number whole (by omega)
        exact same.trans name
      have length' : c'.u4? (p' + 2 : Nat) = some row.length := by
        have same : c'.number? 4 (p' + 2 : Nat) = c.number? 4 _ := spells.number whole (by omega)
        exact same.trans length
      refine ⟨⟨row.name, p' + 6, row.length⟩ :: rows', by simp [count], .next name' length' rfl
        (by change p' + 6 + row.length ≤ _; omega) ?_⟩
      have here : p' + (6 + row.length) = p' + 6 + row.length := by omega
      have stop : p' + 6 + row.length + (q - (row.offset + row.length)) = p' + (q - p) := by omega
      rw [here, stop] at held'
      exact held'

/-- The same bytes are a table elsewhere. -/
theorem Table.move {rows : List Row} (held : Table c p rows q)
    (spells : c'.Spells p' (c.segment p q)) (inside : q ≤ c.size) :
    ∃ rows', Table c' p' rows' (p' + (q - p)) := by
  have forward := held.forward
  have whole := Cursor.spells_segment (c := c) (p := p) (q := q) (by omega) inside
  have size := Cursor.length_segment (p := p) inside
  have tail := spells.after (r := p + 2) (by omega) (by omega) inside
  rw [Nat.add_sub_cancel_left] at tail
  obtain ⟨rows', count, held'⟩ := held.rows.move tail inside
  have counted : c'.u2? p' = some rows'.length := by
    have same : c'.number? 2 (p' + 0 : Nat) = c.number? 2 _ := spells.number whole (by omega)
    rw [count]
    exact same.trans held.count
  have stop : p' + 2 + (q - (p + 2)) = p' + (q - p) := by omega
  rw [stop] at held'
  exact ⟨rows', counted, held'⟩

/-- Bytes that are a member wherever they stand. -/
def IsMember (bytes : Bytes) : Prop :=
  ∀ (c : Cursor) (p : Nat), c.Spells p bytes → ∃ rows, Table c (p + 6) rows (p + bytes.length)

/-- Six bytes and a table are a member. -/
theorem isMember_of_written {head : Bytes} (length : head.length = 6) {ws : List Written}
    (short : ws.length ≤ Emit.maxCount) (fit : ∀ w ∈ ws, w.body.length ≤ Emit.maxLength) :
    IsMember (head ++ (u2 ws.length ++ ws.flatMap Written.bytes)) := by
  intro c p spells
  rw [Cursor.spells_append_iff, length, Cursor.spells_append_iff, length_u2] at spells
  obtain ⟨-, count, spells⟩ := spells
  obtain ⟨rows, held, shows⟩ := rows_of_spells fit spells
  rw [Emit.maxCount] at short
  refine ⟨rows, by rw [shows.length_eq]; exact count.u2_of_lt (by omega), ?_⟩
  have stop : p + (head ++ (u2 ws.length ++ ws.flatMap Written.bytes)).length =
      p + 6 + 2 + (ws.flatMap Written.bytes).length := by
    simp only [List.length_append, length, length_u2]
    omega
  rw [stop]
  exact held

/-- A member of an input is one wherever its bytes stand. -/
theorem isMember_of_table {rows : List Row} (held : Table c (p + 6) rows q) (inside : q ≤ c.size) :
    IsMember (c.segment p q) := by
  intro c' p' spells
  have forward := held.forward
  have size := Cursor.length_segment (p := p) inside
  have tail := spells.after (r := p + 6) (by omega) (by omega) inside
  rw [Nat.add_sub_cancel_left] at tail
  obtain ⟨rows', held'⟩ := held.move tail inside
  have stop : p' + 6 + (q - (p + 6)) = p' + (c.segment p q).length := by omega
  rw [stop] at held'
  exact ⟨rows', held'⟩

end Layout

open Layout (IsMember)

/-- The head and the attributes of a member that is written. -/
theorem isMember_of_writes {flags : Int} {name descriptor : Utf8Entry}
    {is : List (Option (Emit.Item σ))} (are : Emit.Named (.calls σ) is) {bytes : Bytes}
    (writes : Emit.Writes s (do
      let name ← Emit.refUtf8 (some name)
      let descriptor ← Emit.refUtf8 (some descriptor)
      let table ← Emit.itemTable is
      return u2 flags ++ name ++ descriptor ++ table) bytes s') : IsMember bytes := by
  obtain ⟨named, s₁, first, writes⟩ := (Emit.writes_bind_iff fun _ =>
    .bind (Emit.tries_refUtf8 (Build.Law.gives_calls _)) fun _ =>
      .bind (Emit.tries_itemTable are) fun _ => .pure _).mp writes
  obtain ⟨described, s₂, second, writes⟩ := (Emit.writes_bind_iff fun _ =>
    .bind (Emit.tries_itemTable are) fun _ => .pure _).mp writes
  obtain ⟨table, s₃, third, given⟩ := (Emit.writes_bind_iff fun _ => .pure _).mp writes
  obtain ⟨rfl, rfl⟩ := Emit.writes_pure_iff.mp given
  obtain ⟨ws, short, rfl, there⟩ := Emit.written_of_itemTable are third
  have head : (u2 flags ++ named ++ described).length = 6 := by
    simp [Emit.length_of_writes_ref first, Emit.length_of_writes_ref second]
  exact Layout.isMember_of_written head short fun w member => (there w member).fits

namespace FieldDraft

open Build.Law (gives_append)

/-- The attributes of a field are written under their names. -/
theorem named_items {l : Build.Law σ} {d : FieldDraft}
    (given : l.Gives (d.attributes.toList.flatMap Attribute.mentions)) :
    Emit.Named l (Emit.attributeItems none (fun _ => throw .outOfBounds)
      (d.attributes.toList.map some)) :=
  Emit.named_attributeItems_some (fun _ _ => .throw _) _ _ given

/-- Finishing a field obeys a law that its constants may be referred to in. -/
theorem does_finish {l : Build.Law σ} {d : FieldDraft} (given : l.Gives d.mentions) :
    l.Does (d.finish : Build σ (Except Error Bytes)) := by
  rw [mentions, gives_append] at given
  obtain ⟨names, contained⟩ := given
  obtain ⟨named, described⟩ : l.Gives [.utf8 d.name] ∧ l.Gives [.utf8 d.descriptor] :=
    gives_append.mp names
  refine l.bind l.error? fun failed => ?_
  cases failed with
  | some e => exact l.pure _
  | none =>
      exact Emit.does_finish <|
        .bind (Emit.tries_refUtf8 named) fun _ => .bind (Emit.tries_refUtf8 described) fun _ =>
        .bind (Emit.tries_itemTable (named_items contained)) fun _ => .pure _

/-- Finishing a field makes calls. -/
theorem calls_finish (d : FieldDraft) : Build.Calls (d.finish : Build σ (Except Error Bytes)) :=
  does_finish (l := .calls σ) (Build.Law.gives_calls _)

/-- A field that is written can be scanned. -/
theorem isMember_finish {d : FieldDraft} {bytes : Bytes} (finished : d.finish s = (.ok bytes, s')) :
    IsMember bytes := by
  rw [finish, bind_apply] at finished
  cases failed : (Build.error? s).1 with
  | some e =>
      rw [failed] at finished
      cases finished
  | none =>
      rw [failed] at finished
      exact isMember_of_writes (named_items (Build.Law.gives_calls _))
        (Emit.writes_of_finish finished)

end FieldDraft

namespace MethodDraft

open Build.Law (gives_append gives_flatMap)

/-- The parts of a method are written under their names, its bodies as attributes of their own. -/
theorem named_items {l : Build.Law σ} (encodes : Encodes l) {d : MethodDraft}
    (given : l.Gives (d.parts.toList.flatMap MethodPart.mentions)) :
    Emit.Named l (d.parts.toList.flatMap item) := by
  intro entry member
  obtain ⟨part, listed, member⟩ := List.mem_flatMap.mp member
  have contained := gives_flatMap.mp given part listed
  cases part with
  | «attribute» a =>
      refine Emit.named_attributeItems_some (fun _ => tries_encodeInput encodes) none [a] ?_
        entry member
      rw [List.flatMap_singleton]
      exact contained
  | code c => cases member
  | encoded body =>
      obtain rfl := Option.some.inj (List.mem_singleton.mp member)
      exact ⟨_, rfl, .pure _⟩

/-- Finishing a method obeys a law that its constants may be referred to in. -/
theorem does_finish {l : Build.Law σ} (encodes : Encodes l) {d : MethodDraft}
    (given : l.Gives d.mentions) : l.Does (d.finish : Build σ (Except Error Bytes)) := by
  rw [mentions, gives_append] at given
  obtain ⟨names, contained⟩ := given
  obtain ⟨named, described⟩ : l.Gives [.utf8 d.name] ∧ l.Gives [.utf8 d.descriptor] :=
    gives_append.mp names
  refine l.bind l.error? fun failed => ?_
  cases failed with
  | some e => exact l.pure _
  | none =>
      exact Emit.does_finish <|
        .bind (Emit.tries_refUtf8 named) fun _ => .bind (Emit.tries_refUtf8 described) fun _ =>
        .bind (Emit.tries_itemTable (named_items encodes contained)) fun _ => .pure _

/-- Finishing a method makes calls. -/
theorem calls_finish (d : MethodDraft) : Build.Calls (d.finish : Build σ (Except Error Bytes)) :=
  does_finish encodes_calls (Build.Law.gives_calls _)

/-- A method that is written can be scanned. -/
theorem isMember_finish {d : MethodDraft} {bytes : Bytes}
    (finished : d.finish s = (.ok bytes, s')) : IsMember bytes := by
  rw [finish, bind_apply] at finished
  cases failed : (Build.error? s).1 with
  | some e =>
      rw [failed] at finished
      cases finished
  | none =>
      rw [failed] at finished
      exact isMember_of_writes (named_items encodes_calls (Build.Law.gives_calls _))
        (Emit.writes_of_finish finished)

end MethodDraft

end JvmClass
