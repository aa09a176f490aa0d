import JvmClass.Proofs.ClassFile.Inherited

/-!
# How lookups end

Decoding a constant goes through the reads that the scan of the layout has covered, through
the entries that it refers to and through the search for the bootstrap table. What the entries
keep of the memo all of these keep, and they fail with no other errors than the entries do and
those that they raise themselves.
-/

namespace JvmClass.Lookup

variable {α β : Type} {l : Layout} {origin : Origin} {entry : EntryAt}
variable {inv : Memo → Prop} {fails : Error → Prop}

/-- From memos with `inv` a lookup leaves such a memo, what it gives has `post`, and the errors
that it ends with have `fails`. -/
def Ends (inv : Memo → Prop) (fails : Error → Prop) (x : Lookup α) (post : α → Prop) : Prop :=
  ∀ m, inv m → inv (runFrom x m).2 ∧ (∀ a, (runFrom x m).1 = .ok a → post a) ∧
    ∀ e, (runFrom x m).1 = .error e → fails e

namespace Ends

variable {post : α → Prop}

/-- A lookup that gives something at once ends with it. -/
theorem pure {a : α} (holds : post a) : Ends inv fails (pure a) post := by
  intro m starts
  exact ⟨starts, fun b given => Except.ok.inj given ▸ holds, fun e given => nomatch given⟩

/-- A lookup that raises an error ends with it. -/
theorem throw {e : Error} (failing : fails e) : Ends inv fails (throw e) post := by
  intro m starts
  refine ⟨starts, fun b given => (nomatch given), fun e' given => ?_⟩
  obtain rfl := Except.error.inj given
  exact failing

/-- A step without a memo ends as it does by itself. -/
theorem liftM {x : Except Error α} (holds : ∀ a, x = .ok a → post a)
    (failing : ∀ e, x = .error e → fails e) : Ends inv fails (liftM x) post := by
  intro m starts
  rw [run_liftM]
  exact ⟨starts, holds, failing⟩

/-- Lookups one after another end as the last of them does. -/
theorem bind {x : Lookup α} {f : α → Lookup β} {post' : β → Prop} (first : Ends inv fails x post)
    (next : ∀ a, post a → Ends inv fails (f a) post') : Ends inv fails (x >>= f) post' := by
  intro m starts
  have before := first m starts
  rw [run_bind]
  cases given : runFrom x m with
  | mk outcome m' =>
      rw [given] at before
      cases outcome with
      | ok a => exact next a (before.2.1 a rfl) m' before.1
      | error e => exact ⟨before.1, fun b gives => (nomatch gives), fun e' gives =>
          Except.error.inj gives ▸ before.2.2 e rfl⟩

/-- A step that depends on the memo. -/
theorem get_bind {f : Memo → Lookup β} {post' : β → Prop}
    (next : ∀ m, inv m → inv (runFrom (f m) m).2 ∧ (∀ b, (runFrom (f m) m).1 = .ok b → post' b) ∧
      ∀ e, (runFrom (f m) m).1 = .error e → fails e) : Ends inv fails (get >>= f) post' := by
  intro m starts
  rw [run_bind]
  exact next m starts

/-- A step that changes the memo. -/
theorem modify_bind {f : Memo → Memo} {next : Lookup β} {post' : β → Prop}
    (keeps : ∀ m, inv m → inv (f m)) (after : Ends inv fails next post') :
    Ends inv fails (modify f >>= fun _ => next) post' := by
  intro m starts
  rw [run_bind]
  exact after (f m) (keeps m starts)

/-- Wrapped errors may be ended with if the wrapping keeps them among these. -/
theorem adapt {x : Lookup α} {f : Error → Error} (ends : Ends inv fails x post)
    (wraps : ∀ e, fails e → fails (f e)) : Ends inv fails (ExceptT.adapt f x) post := by
  intro m starts
  have after := ends m starts
  rw [run_adapt]
  refine ⟨after.1, fun a given => after.2.1 a (mapError_eq_ok_iff.mp given), fun e given => ?_⟩
  cases outcome : (runFrom x m).1 with
  | ok a => simp [outcome, Except.mapError] at given
  | error e' =>
      simp only [outcome, Except.mapError, Except.error.injEq] at given
      exact given ▸ wraps e' (after.2.2 e' outcome)

/-- A guard may end with its own error, and otherwise as what follows. -/
theorem guard {p : Prop} [Decidable p] {e : Error} {rejects : β → Lookup α} {x : Lookup α}
    (failing : fails e) (passes : Ends inv fails x post) :
    Ends inv fails (if p then (throwThe Error e : Lookup β) >>= rejects else x) post := by
  split
  · exact throw failing
  · exact passes

/-- A read that may be outside the buffer ends with what stands there. -/
theorem covered {o : Option α} (there : fails .outOfBounds ∨ ∃ a, o = some a) :
    Ends inv fails (covered o) fun a => o = some a := by
  refine liftM (fun a given => Layout.covered_eq_ok_iff.mp given) fun e given => ?_
  cases o with
  | some a => cases given
  | none =>
      obtain rfl := Except.error.inj given
      exact there.elim id fun ⟨a, here⟩ => nomatch here

end Ends

/-- The rows of a bootstrap table lie in the buffer with their arguments. -/
def RowsInside (c : Cursor) (table : Array Nat) : Prop :=
  ∀ (r p : Nat), table[r]? = some p →
    p + 4 ≤ c.size ∧ ∀ n, c.u2? (p + 2 : Nat) = some n → p + 4 + 2 * n ≤ c.size

/-- The errors that lookups raise by themselves have `fails`, also as causes of others. A read
outside the buffer is one of them unless the layout was scanned. -/
structure Admits (l : Layout) (fails : Error → Prop) : Prop where
  flaw : ∀ p f, fails (.flaw p f)
  wraps : ∀ p f e, fails e → fails (.malformed p f (some e))
  wrongKind : ∀ found, fails (.wrongKind found)
  encoding : fails .encoding
  scanned : fails .outOfBounds ∨ l.Scanned
  table : ∀ env e, fails .outOfBounds ∨ env.offset + env.length ≤ l.cursor.size →
    scanTable l env = .error e → fails e
  rows : ∀ env table, fails .outOfBounds ∨ env.offset + env.length ≤ l.cursor.size →
    scanTable l env = .ok table → fails .outOfBounds ∨ RowsInside l.cursor table

/-- Memos with `inv` go on to have it whatever is remembered. -/
structure Retains (l : Layout) (inv : Memo → Prop) (fails : Error → Prop) : Prop where
  entry : ∀ m i e, inv m → inv { m with entries := m.entries.setIfInBounds i (some e) }
  row : ∀ m r row, inv m → inv { m with rows := m.rows.setIfInBounds r (some row) }
  begins : ∀ m, inv m → m.table = none → inv { m with table := some (.ok #[]) }
  settles : ∀ m m' found, inv m → m.table = none → inv m' →
    (∀ table, found = .ok table → fails .outOfBounds ∨ RowsInside l.cursor table) →
    (∀ e, found = .error e → fails e) →
    inv { m' with
      table := some found
      rows := Array.replicate (match found with | .ok o => o.size | .error _ => 0) none }
  known : ∀ m table, inv m → m.table = some (.ok table) →
    fails .outOfBounds ∨ RowsInside l.cursor table
  fruitless : ∀ m e, inv m → m.table = some (.error e) → fails e

/-- A number is read where the buffer holds it. -/
theorem Ends.number {w q : Nat} (inside : fails .outOfBounds ∨ q + w ≤ l.cursor.size) :
    Ends inv fails (Lookup.covered (l.cursor.number? w q)) fun n =>
      l.cursor.number? w q = some n :=
  .covered (inside.imp_right Cursor.number?_of_inside)

section Steps

variable (admits : Admits l fails)
include admits

section Entries

variable (entries : ∀ i, Ends inv fails (entry i) fun _ => True)
include entries

/-- Looking up a reference inside the buffer ends. -/
theorem ends_referAt {want : Entry → Option α} {offset p : Nat}
    (inside : fails .outOfBounds ∨ p + 2 ≤ l.cursor.size) :
    Ends inv fails (referAt l entry want offset p) fun _ => True := by
  refine .bind (.number inside) fun i index => .adapt (.bind (entries i) fun e _ => ?_) fun e =>
    admits.wraps _ _ e
  split
  · exact .pure trivial
  · exact .throw (admits.wrongKind _)

/-- Reading the attributes of a table ends, and every one that is read lies in the buffer. -/
theorem ends_envelopesFrom {done : List Envelope} {p n : Nat}
    (lie : fails .outOfBounds ∨ ∃ rows q, rows.length = n ∧ Layout.Rows l.cursor p rows q)
    (before : ∀ env ∈ done, fails .outOfBounds ∨ env.offset + env.length ≤ l.cursor.size) :
    Ends inv fails (envelopesFrom l entry done p n) fun envs =>
      ∀ env ∈ envs, fails .outOfBounds ∨ env.offset + env.length ≤ l.cursor.size := by
  induction n generalizing done p with
  | zero => exact .pure fun env member => before env (List.mem_reverse.mp member)
  | succ n inductionHypothesis =>
      have first : fails .outOfBounds ∨ ∃ m rows q, l.cursor.u4? (p + 2 : Nat) = some m ∧
          p + 6 + m ≤ l.cursor.size ∧ rows.length = n ∧
          Layout.Rows l.cursor (p + 6 + m) rows q := by
        refine lie.imp_right fun ⟨rows, q, count, held⟩ => ?_
        cases held with
        | done => cases count
        | next name length offset inside others =>
            rw [offset] at inside others
            exact ⟨_, _, _, length, inside, by simpa using count, others⟩
      refine .bind (ends_referAt admits entries (first.imp_right fun ⟨m, _, _, _, inside, _⟩ => by
        omega)) fun name _ => .bind (.number (q := p + 2) (first.imp_right
        fun ⟨m, _, _, _, inside, _⟩ => by omega)) fun m length => ?_
      have next := first.imp_right fun ⟨m', rows, q, length', inside, count, others⟩ => by
        obtain rfl := Option.some.inj (length'.symm.trans length)
        exact (⟨inside, rows, q, count, others⟩ :
          p + 6 + m' ≤ l.cursor.size ∧ ∃ rows q, rows.length = n ∧
            Layout.Rows l.cursor (p + 6 + m') rows q)
      refine inductionHypothesis (next.imp_right (·.2)) fun env member => ?_
      rcases List.mem_cons.mp member with rfl | member
      · exact next.imp_right (·.1)
      · exact before env member

/-- Reading the attributes of the class ends, and every one that is read lies in the buffer. -/
theorem ends_envelopes : Ends inv fails (envelopes l entry) fun envs =>
    ∀ env ∈ envs, fails .outOfBounds ∨ env.offset + env.length ≤ l.cursor.size := by
  have table : fails .outOfBounds ∨ ∃ rows, Layout.Table l.cursor l.attributes rows l.cursor.size :=
    admits.scanned.imp_right (·.attributes)
  refine .bind (.number (table.imp_right fun ⟨rows, table⟩ => table.forward)) fun n count => ?_
  refine ends_envelopesFrom admits entries (table.imp_right fun ⟨rows, table⟩ => ?_)
    fun env member => nomatch member
  exact ⟨rows, _, Option.some.inj (table.count.symm.trans count), table.rows⟩

/-- The search for the bootstrap table. -/
theorem ends_scan :
    Ends inv fails
      (do
        match (← envelopes l entry).find? fun env => env.name.text = bootstrapMethods with
        | some env => liftM (scanTable l env)
        | none => return #[])
      fun table => fails .outOfBounds ∨ RowsInside l.cursor table := by
  refine .bind (ends_envelopes admits entries) fun envs inside => ?_
  split
  · rename_i env found
    have here := inside env (List.mem_of_find?_eq_some found)
    exact .liftM (fun table => admits.rows env table here) fun e => admits.table env e here
  · exact .pure (.inr fun r p here => by simp at here)

/-- Looking up arguments inside the buffer ends. -/
theorem ends_argumentsFrom {done : List Loadable} {p n : Nat}
    (inside : fails .outOfBounds ∨ p + 2 * n ≤ l.cursor.size) :
    Ends inv fails (argumentsFrom l entry done p n) fun _ => True := by
  induction n generalizing done p with
  | zero => exact .pure trivial
  | succ n inductionHypothesis =>
      refine .bind (ends_referAt admits entries (inside.imp_right fun inside => by omega))
        fun a _ => ?_
      exact inductionHypothesis (inside.imp_right fun inside => by omega)

variable (retains : Retains l inv fails)
include retains

/-- Looking for the bootstrap table ends, and the rows of the one that is found lie in the
buffer. -/
theorem ends_findTable : Ends inv fails (findTable l entry) fun table =>
    fails .outOfBounds ∨ RowsInside l.cursor table := by
  refine .get_bind fun m starts => ?_
  split
  · rename_i table remembered
    refine ⟨starts, fun table' given => ?_, fun e given => nomatch given⟩
    obtain rfl := Except.ok.inj given
    exact retains.known m table starts remembered
  · rename_i e remembered
    refine ⟨starts, fun table given => (nomatch given), fun e' given => ?_⟩
    obtain rfl := Except.error.inj given
    exact retains.fruitless m e starts remembered
  · rename_i unknown
    obtain ⟨after, lies, failing⟩ := ends_scan admits entries _ (retains.begins m starts unknown)
    rw [run_search]
    exact ⟨retains.settles m _ _ starts unknown after lies failing, lies, failing⟩

/-- Looking up a row ends, for any number. -/
theorem ends_row {r : Int} : Ends inv fails (row l origin entry r) fun _ => True := by
  refine .bind (ends_findTable admits entries retains) fun table lies => ?_
  split
  · exact .throw (admits.flaw _ _)
  · rename_i p found
    have inside : fails .outOfBounds ∨ p + 4 ≤ l.cursor.size ∧
        ∀ n, l.cursor.u2? (p + 2 : Nat) = some n → p + 4 + 2 * n ≤ l.cursor.size := by
      refine lies.imp_right fun lies => ?_
      split at found
      · cases found
      · exact lies _ p found
    refine .get_bind fun m starts => ?_
    split
    · exact ⟨starts, fun _ _ => trivial, fun e given => nomatch given⟩
    · refine Ends.bind (ends_referAt admits entries (inside.imp_right fun inside => by omega))
        (fun handle _ => ?_) m starts
      refine .bind (.number (q := p + 2)
        (inside.imp_right fun inside => by omega)) fun n count => ?_
      refine .bind (ends_argumentsFrom admits entries (inside.imp_right fun inside =>
        inside.2 n count)) fun arguments _ => ?_
      exact .modify_bind (fun m starts => retains.row m _ _ starts) (.pure trivial)

/-- Decoding a constant that lies in the buffer. -/
theorem ends_decode {place : Place} {p : Nat}
    (lies : fails .outOfBounds ∨ ∃ b t size, l.cursor.u1? p = some b ∧
      Tag.ofByte? b.toUInt8 = some t ∧ Layout.SizeAt l.cursor t p size) :
    Ends inv fails (decode l entry place p) fun _ => True := by
  have start : fails .outOfBounds ∨ p + 1 ≤ l.cursor.size := by
    refine lies.imp_right ?_
    rintro ⟨b, t, size, byte, -⟩
    exact (Cursor.number?_eq_some_iff.mp byte).1
  refine .bind (.number start) fun b byte => ?_
  have sized {t : Tag} (tag : Tag.ofByte? b.toUInt8 = some t) :
      fails .outOfBounds ∨ ∃ size, Layout.SizeAt l.cursor t p size := by
    refine lies.imp_right ?_
    rintro ⟨b', t', size, byte', tag', sized⟩
    obtain rfl := Option.some.inj (byte.symm.trans byte')
    obtain rfl := Option.some.inj (tag.symm.trans tag')
    exact ⟨size, sized⟩
  have within {t : Tag} (tag : Tag.ofByte? b.toUInt8 = some t) (offset width : Nat)
      (short : offset + width ≤ Layout.constantSize t) :
      fails .outOfBounds ∨ p + offset + width ≤ l.cursor.size := by
    refine (sized tag).imp_right ?_
    rintro ⟨size, sized⟩
    have inside := sized.inside
    cases sized with
    | text isText =>
        subst isText
        simp only [Layout.constantSize] at short
        omega
    | fixed => omega
  have refer {t : Tag} (tag : Tag.ofByte? b.toUInt8 = some t) {α : Type}
      {want : Entry → Option α} (offset : Nat) (short : offset + 2 ≤ Layout.constantSize t) :
      Ends inv fails (referAt l entry want p (p + offset)) fun _ => True :=
    ends_referAt admits entries (within tag offset 2 short)
  have member {t : Tag} {kind : MemberKind} (tag : Tag.ofByte? b.toUInt8 = some t)
      (short : 5 ≤ Layout.constantSize t) :
      Ends inv fails (Lookup.member l entry place kind p) fun _ => True :=
    .bind (refer tag 1 (by omega)) fun _ _ => .bind (refer tag 3 short) fun _ _ => .pure trivial
  have produced {t : Tag} {build : BootstrapRow → NameAndTypeEntry → Entry}
      (tag : Tag.ofByte? b.toUInt8 = some t) (short : 5 ≤ Layout.constantSize t) :
      Ends inv fails (Lookup.produced l entry place p build) fun _ => True :=
    .bind (.number (within tag 1 2 (by omega))) fun r _ =>
      .bind (.adapt (ends_row admits entries retains) fun e => admits.wraps _ _ e) fun _ _ =>
        .bind (refer tag 3 short) fun _ _ => .pure trivial
  split
  · exact .throw (admits.flaw _ _)
  all_goals rename_i tag
  · refine .bind (.number (within tag 1 2 (by decide))) fun n length => ?_
    have slice : fails .outOfBounds ∨ ∃ bytes, l.cursor.slice? (p + 3 : Nat) n = some bytes := by
      refine (sized tag).imp_right ?_
      rintro ⟨size, sized⟩
      cases sized with
      | text _ length' inside =>
          obtain rfl := Option.some.inj (length'.symm.trans length)
          exact ⟨_, Cursor.slice?_eq_some_iff.mpr ⟨by omega, rfl⟩⟩
      | fixed other => exact absurd rfl other
    refine .bind (.covered slice) fun bytes _ => ?_
    split
    · exact .pure trivial
    · exact .throw (admits.wraps _ _ _ admits.encoding)
  · exact .bind (.covered ((within tag 1 4 (by decide)).imp_right Cursor.s4?_of_inside)) fun _ _ =>
      .pure trivial
  · exact .bind (.number (within tag 1 4 (by decide))) fun _ _ => .pure trivial
  · exact .bind (.covered ((within tag 1 8 (by decide)).imp_right Cursor.s8?_of_inside)) fun _ _ =>
      .pure trivial
  · exact .bind (.number (within tag 1 8 (by decide))) fun _ _ => .pure trivial
  · exact .bind (refer tag 1 (by decide)) fun _ _ => .pure trivial
  · exact .bind (refer tag 1 (by decide)) fun _ _ => .pure trivial
  · exact .bind (refer tag 1 (by decide)) fun _ _ => .pure trivial
  · exact .bind (refer tag 1 (by decide)) fun _ _ => .pure trivial
  · exact .bind (refer tag 1 (by decide)) fun _ _ => .pure trivial
  · exact .bind (refer tag 1 (by decide)) fun _ _ => .bind (refer tag 3 (by decide)) fun _ _ =>
      .pure trivial
  · exact member tag (by decide)
  · exact member tag (by decide)
  · exact member tag (by decide)
  · refine .bind (.number (within tag 1 1 (by decide))) fun kind _ => ?_
    refine .bind (refer tag 2 (by decide)) fun target _ => ?_
    exact .guard (admits.flaw _ _) (.pure trivial)
  · exact produced tag (by decide)
  · exact produced tag (by decide)

end Entries

variable (retains : Retains l inv fails)
include retains

/-- Lookups of entries end well at every depth. -/
theorem ends_entryWithin {depth i : Nat} {open_ : List Nat} :
    Ends inv fails (entryWithin l origin depth open_ i) fun _ => True := by
  induction depth generalizing i open_ with
  | zero => exact .throw (admits.flaw _ _)
  | succ depth inductionHypothesis =>
      rw [entryWithin]
      split
      · exact .throw (admits.flaw _ _)
      · rename_i p offset
        have lies : fails .outOfBounds ∨ ∃ b t size, l.cursor.u1? p = some b ∧
            Tag.ofByte? b.toUInt8 = some t ∧ Layout.SizeAt l.cursor t p size :=
          admits.scanned.imp_right fun scanned => by
            obtain ⟨-, b, t, size, byte, tag, sized, -⟩ := scanned.sized offset
            exact ⟨b, t, size, byte, tag, sized⟩
        refine .get_bind fun m starts => ?_
        split
        · exact ⟨starts, fun _ _ => trivial, fun e given => by cases given⟩
        · refine Ends.guard (admits.flaw _ _) (.bind (ends_decode admits
            (fun j => inductionHypothesis) retains lies) fun e _ => ?_) m starts
          exact .modify_bind (fun m starts => retains.entry m i e starts) (.pure trivial)

/-- Looking up an entry ends, for any index. -/
theorem ends_entry {i : Nat} : Ends inv fails (Lookup.entry l origin i) fun _ => True :=
  ends_entryWithin admits retains

end Steps

end JvmClass.Lookup
