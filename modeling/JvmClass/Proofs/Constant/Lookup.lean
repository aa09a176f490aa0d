import Mathlib.Data.List.Perm.Subperm
import JvmClass.Proofs.Constant.Holds

/-!
# Looking up gives what is held

Lookups remember what they decode, so each of them starts from a memo that earlier ones left.
A memo is sound when all it remembers is held; lookups keep it sound, and what a lookup gives
is held by the index that was asked for.
-/

namespace JvmClass.Lookup

variable {α β : Type}

/-- What a lookup gives from a memo, and the memo it leaves. -/
abbrev runFrom (x : Lookup α) (m : Memo) : Except Error α × Memo := x.run.run m

@[simp] theorem run_pure (a : α) (m : Memo) : runFrom (pure a) m = (.ok a, m) := rfl

@[simp] theorem run_throw (e : Error) (m : Memo) :
    runFrom (throw e : Lookup α) m = (.error e, m) := rfl

@[simp] theorem run_get (m : Memo) : runFrom (get : Lookup Memo) m = (.ok m, m) := rfl

@[simp] theorem run_modify (f : Memo → Memo) (m : Memo) :
    runFrom (modify f : Lookup Unit) m = (.ok (), f m) := rfl

/-- A step without a memo leaves the memo. -/
@[simp] theorem run_liftM (x : Except Error α) (m : Memo) :
    runFrom (liftM x : Lookup α) m = (x, m) := by
  cases x <;> rfl

/-- What follows a lookup runs from the memo that it leaves, unless the lookup has failed. -/
theorem run_bind (x : Lookup α) (f : α → Lookup β) (m : Memo) :
    runFrom (x >>= f) m =
      match runFrom x m with
      | (.ok a, m') => runFrom (f a) m'
      | (.error e, m') => (.error e, m') := by
  cases given : runFrom x m with
  | mk outcome m' =>
      have opened : x m = (outcome, m') := given
      simp only [runFrom, ExceptT.run, StateT.run, bind, ExceptT.bind, ExceptT.mk, StateT.bind,
        opened]
      cases outcome <;> rfl

/-- Wrapping an error leaves the memo. -/
theorem run_adapt (f : Error → Error) (x : Lookup α) (m : Memo) :
    runFrom (ExceptT.adapt f x) m = ((runFrom x m).1.mapError f, (runFrom x m).2) := rfl

/-- Observing a search gives what it has come to and the memo that it leaves. -/
theorem run_observing (x : Lookup (Array Nat)) (m : Memo) :
    runFrom (findTable.observing x) m = (.ok (runFrom x m).1, (runFrom x m).2) := rfl

/-- What a search gives that sets the memo up before and takes its outcome down after. -/
theorem run_search (before : Memo → Memo) (x : Lookup (Array Nat))
    (after : Except Error (Array Nat) → Memo → Memo) (m : Memo) :
    runFrom (do
      modify before
      let found ← findTable.observing x
      modify (after found)
      liftM found) m =
      ((runFrom x (before m)).1, after (runFrom x (before m)).1 (runFrom x (before m)).2) := by
  simp only [run_bind, run_modify, run_observing, run_liftM]

/-- From memos with `inv` a lookup leaves such a memo, and what it gives has `post`. -/
def Sound (inv : Memo → Prop) (x : Lookup α) (post : α → Prop) : Prop :=
  ∀ m, inv m → inv (runFrom x m).2 ∧ ∀ a, (runFrom x m).1 = .ok a → post a

namespace Sound

variable {inv : Memo → Prop} {post : α → Prop}

/-- Giving something is sound if it has what is promised. -/
theorem pure {a : α} (holds : post a) : Sound inv (pure a) post := by
  intro m sound
  exact ⟨sound, fun b given => Except.ok.inj given ▸ holds⟩

/-- Raising an error is sound, as nothing is promised then. -/
theorem throw {e : Error} : Sound inv (throw e) post := by
  intro m sound
  exact ⟨sound, fun b given => nomatch given⟩

/-- A step without a memo is sound if what it gives has what is promised. -/
theorem liftM {x : Except Error α} (holds : ∀ a, x = .ok a → post a) :
    Sound inv (liftM x) post := by
  intro m sound
  rw [run_liftM]
  exact ⟨sound, holds⟩

/-- Sound lookups are sound one after another. -/
theorem bind {x : Lookup α} {f : α → Lookup β} {post' : β → Prop} (first : Sound inv x post)
    (next : ∀ a, post a → Sound inv (f a) post') : Sound inv (x >>= f) post' := by
  intro m sound
  have before := first m sound
  rw [run_bind]
  cases given : runFrom x m with
  | mk outcome m' =>
      rw [given] at before
      cases outcome with
      | ok a => exact next a (before.2 a rfl) m' before.1
      | error e => exact ⟨before.1, fun b gives => nomatch gives⟩

/-- A step that depends on the memo. -/
theorem get_bind {f : Memo → Lookup β} {post' : β → Prop}
    (next : ∀ m, inv m → inv (runFrom (f m) m).2 ∧ ∀ b, (runFrom (f m) m).1 = .ok b → post' b) :
    Sound inv (get >>= f) post' := by
  intro m sound
  rw [run_bind]
  exact next m sound

/-- A step that changes the memo. -/
theorem modify_bind {f : Memo → Memo} {next : Lookup β} {post' : β → Prop}
    (keeps : ∀ m, inv m → inv (f m)) (after : Sound inv next post') :
    Sound inv (modify f >>= fun _ => next) post' := by
  intro m sound
  rw [run_bind]
  exact after (f m) (keeps m sound)

/-- Wrapping errors keeps a lookup sound. -/
theorem adapt {x : Lookup α} {f : Error → Error} (sound : Sound inv x post) :
    Sound inv (ExceptT.adapt f x) post := by
  intro m starts
  have after := sound m starts
  rw [run_adapt]
  exact ⟨after.1, fun a given => after.2 a (mapError_eq_ok_iff.mp given)⟩

/-- A promise can be weakened to what follows from it. -/
theorem mono {x : Lookup α} {post' : α → Prop} (sound : Sound inv x post)
    (weaker : ∀ a, post a → post' a) : Sound inv x post' :=
  fun m starts => ⟨(sound m starts).1, fun a given => weaker a ((sound m starts).2 a given)⟩

/-- A guard that raises an error is sound if what it lets pass is. -/
theorem guard {p : Prop} [Decidable p] {e : Error} {fails : β → Lookup α} {x : Lookup α}
    (passes : ¬p → Sound inv x post) :
    Sound inv (if p then (throwThe Error e : Lookup β) >>= fails else x) post := by
  split
  · exact fun m sound => ⟨sound, fun a given => nomatch given⟩
  · rename_i goes
    exact passes goes

/-- A read that may be outside the buffer is sound: it gives what stands there. -/
theorem covered {o : Option α} : Sound inv (covered o) fun a => o = some a :=
  liftM fun a given => by
    cases o with
    | none => cases given
    | some b => exact congrArg some (Except.ok.inj given)

end Sound

variable {l : Layout} {origin : Origin}

/-- Everything that a memo remembers is held. While the bootstrap table is looked for the memo
counts it as empty; otherwise a class with a table has not been searched in vain. -/
structure Recalls (l : Layout) (origin : Origin) (searching : Bool) (m : Memo) : Prop where
  entries : ∀ i e, m.entries[i]? = some (some e) → l.Holds origin i e
  rows : ∀ r row, m.rows[r]? = some (some row) → l.RowAt origin (l.Holds origin) r row
  search : searching = true → m.table = some (.ok #[])
  table : searching = false → ∀ t, m.table = some (.ok t) → l.IsTable origin t
  kept : searching = false → ∀ t, l.IsTable origin t → m.table = none ∨ m.table = some (.ok t)

/-- A lookup gives `a` from every memo that recalls what is held. -/
def Always (l : Layout) (origin : Origin) (searching : Bool) (x : Lookup α) (a : α) : Prop :=
  ∀ m, Recalls l origin searching m → (runFrom x m).1 = .ok a

/-- A way to get entries gives what is held, also while the bootstrap table is looked for, and
always gives texts. -/
structure GivesHeld (l : Layout) (origin : Origin) (entry : EntryAt) : Prop where
  sound : ∀ searching i, Sound (Recalls l origin searching) (entry i) (l.Holds origin i)
  texts : ∀ searching {i text}, l.TextAt i text →
    Always l origin searching (entry i) (.utf8 ⟨⟨origin, i⟩, text⟩)

namespace Always

variable {searching : Bool} {a : α}

/-- What gives something at once always gives it. -/
theorem pure (a : α) : Always l origin searching (pure a) a := fun _ _ => rfl

/-- Lookups one after another always give what the last of them does. -/
theorem bind {x : Lookup α} {f : α → Lookup β} {b : β} {post : α → Prop}
    (sound : Sound (Recalls l origin searching) x post) (first : Always l origin searching x a)
    (next : Always l origin searching (f a) b) : Always l origin searching (x >>= f) b := by
  intro m recalls
  have given := first m recalls
  have after := (sound m recalls).1
  rw [run_bind]
  cases looked : runFrom x m with
  | mk outcome m' =>
      rw [looked] at given after
      obtain rfl := given
      exact next m' after

/-- Wrapping errors does not matter to a lookup that always succeeds. -/
theorem adapt {x : Lookup α} {f : Error → Error} (first : Always l origin searching x a) :
    Always l origin searching (ExceptT.adapt f x) a := by
  intro m recalls
  rw [run_adapt, first m recalls]
  rfl

/-- A read inside the buffer always gives what stands there. -/
theorem covered {o : Option α} (here : o = some a) :
    Always l origin searching (Lookup.covered o) a := by
  subst here
  exact fun _ _ => rfl

end Always

section Steps

variable {entry : EntryAt} {searching : Bool} (gives : GivesHeld l origin entry)
include gives

/-- Looking up a reference gives what it refers to. -/
theorem sound_referAt {want : Entry → Option α} {offset p : Nat} :
    Sound (Recalls l origin searching) (referAt l entry want offset p)
      (l.Refers (l.Holds origin) want p) := by
  refine Sound.bind .covered fun i index =>
    .adapt (.bind (gives.sound searching i) fun e holds => ?_)
  split
  · rename_i a taken
    exact .pure (.intro index holds taken)
  · exact .throw

/-- Reading the attributes of a table gives those that stand there, after those that were read
before. -/
theorem sound_envelopesFrom {done : List Envelope} {p n : Nat} :
    Sound (Recalls l origin searching) (envelopesFrom l entry done p n) fun envs =>
      ∃ rest, envs = done.reverse ++ rest ∧ rest.length = n ∧ l.Envelopes origin p rest := by
  induction n generalizing done p with
  | zero => exact .pure ⟨[], by simp, rfl, .done p⟩
  | succ n inductionHypothesis =>
      refine .bind (sound_referAt gives) fun name refers => .bind .covered fun length read => ?_
      refine inductionHypothesis.mono fun envs ⟨rest, whole, count, others⟩ => ?_
      obtain ⟨i, index, place, spelled⟩ := refers.text
      obtain ⟨place', text⟩ := name
      obtain rfl : place' = ⟨origin, i⟩ := place
      exact ⟨_ :: rest, by simp [whole], by simp [count], .next index spelled read others⟩

/-- Reading the attributes of the class gives them all. -/
theorem sound_envelopes :
    Sound (Recalls l origin searching) (envelopes l entry) (l.ClassEnvelopes origin) := by
  refine .bind .covered fun n count => ?_
  refine (sound_envelopesFrom gives).mono fun envs ⟨rest, whole, length, others⟩ => ?_
  obtain rfl : envs = rest := by simpa using whole
  exact ⟨by rw [length, count], others⟩

/-- The rows that the search for the table comes to. -/
theorem sound_scan :
    Sound (Recalls l origin searching)
      (do
        match (← envelopes l entry).find? fun env => env.name.text = bootstrapMethods with
        | some env => liftM (scanTable l env)
        | none => return #[]) (l.IsTable origin) := by
  refine .bind (sound_envelopes gives) fun envs all => ?_
  split
  · rename_i env found
    exact .liftM fun table scanned => .present all found scanned
  · rename_i found
    exact .pure (.absent all found)

/-- A reference to a text is always resolved. -/
theorem always_reference {i p offset : Nat} {text : Text} (index : l.cursor.u2? p = some i)
    (spelled : l.TextAt i text) :
    Always l origin searching (referAt l entry Entry.utf8? offset p) ⟨⟨origin, i⟩, text⟩ :=
  .bind .covered (.covered index)
    (.adapt (.bind (gives.sound searching i) (gives.texts searching spelled) (.pure _)))

/-- The names of attributes that are texts are always read. -/
theorem always_envelopesFrom {envs done : List Envelope} {p : Nat}
    (held : l.Envelopes origin p envs) :
    Always l origin searching (envelopesFrom l entry done p envs.length)
      (done.reverse ++ envs) := by
  induction held generalizing done with
  | done p =>
      rw [List.append_nil]
      exact .pure _
  | @next p i n text rest name spelled length others inductionHypothesis =>
      refine .bind (sound_referAt gives) (always_reference gives name spelled)
        (.bind .covered (.covered length) ?_)
      have further := @inductionHypothesis (⟨⟨⟨origin, i⟩, text⟩, p + 6, n⟩ :: done)
      rwa [List.reverse_cons, List.append_assoc, List.singleton_append] at further

/-- Reading the attributes of the class succeeds if their names are texts. -/
theorem always_envelopes {envs : List Envelope} (all : l.ClassEnvelopes origin envs) :
    Always l origin searching (envelopes l entry) envs :=
  .bind .covered (.covered all.count) (always_envelopesFrom gives all.envelopes)

/-- The search for the table of a class that has one comes to it. -/
theorem always_scan {table : Array Nat} (isTable : l.IsTable origin table) :
    Always l origin searching
      (do
        match (← envelopes l entry).find? fun env => env.name.text = bootstrapMethods with
        | some env => liftM (scanTable l env)
        | none => return #[]) table := by
  cases isTable with
  | absent all found =>
      refine .bind (sound_envelopes gives) (always_envelopes gives all) ?_
      have none_found : _ = none := found
      simp only [Layout.tableEnvelope?] at none_found
      simp only [none_found]
      exact .pure _
  | present all found scanned =>
      refine .bind (sound_envelopes gives) (always_envelopes gives all) ?_
      have one_found : _ = some _ := found
      simp only [Layout.tableEnvelope?] at one_found
      simp only [one_found, scanned]
      exact .pure _

omit gives in
/-- A memo that recalls what is held still does so while the table is looked for. -/
theorem Recalls.searches {m : Memo} (recalls : Recalls l origin searching m) :
    Recalls l origin true { m with table := some (.ok #[]) } :=
  ⟨recalls.entries, recalls.rows, fun _ => rfl, (nomatch ·), (nomatch ·)⟩

/-- The table of a memo: none while it is looked for, the one of the class else. -/
def TableNow (l : Layout) (origin : Origin) (searching : Bool) (table : Array Nat) : Prop :=
  if searching then table = #[] else l.IsTable origin table

/-- The search for the bootstrap table gives the one of the class, or none while it is going on. It
calls itself through the names of attributes, so the memo says first that it counts as empty. -/
theorem sound_findTable :
    Sound (Recalls l origin searching) (findTable l entry) (TableNow l origin searching) := by
  refine .get_bind fun m sound => ?_
  split
  · rename_i offsets remembered
    refine ⟨sound, fun table given => ?_⟩
    obtain rfl := Except.ok.inj given
    cases searching with
    | true =>
        have search := sound.search rfl
        simp_all [TableNow]
    | false => exact sound.table rfl _ remembered
  · exact ⟨sound, fun table given => nomatch given⟩
  · rename_i unknown
    have first : searching = false := by
      cases searching with
      | false => rfl
      | true => simp [sound.search rfl] at unknown
    subst first
    have starts := sound.searches
    have after := sound_scan gives _ starts
    rw [run_search]
    refine ⟨⟨after.1.entries, fun r row here => ?_, fun searches => ?_, fun _ t remembered => ?_,
      fun _ t isTable => .inr ?_⟩, after.2⟩
    · simp only [Array.getElem?_replicate] at here
      split at here <;> simp at here
    · cases searches
    · exact after.2 t (Option.some.inj remembered)
    · exact congrArg some (always_scan gives isTable _ starts)

/-- Looking up arguments gives what they refer to, after those that were looked up before. -/
theorem sound_argumentsFrom {done : List Loadable} {p n : Nat} :
    Sound (Recalls l origin searching) (argumentsFrom l entry done p n) fun as =>
      ∃ rest, as = done.reverse ++ rest ∧ rest.length = n ∧
        ∀ k a, rest[k]? = some a → l.Refers (l.Holds origin) Entry.loadable? (p + 2 * k) a := by
  induction n generalizing done p with
  | zero => exact .pure ⟨[], by simp, rfl, fun k a inside => nomatch inside⟩
  | succ n inductionHypothesis =>
      refine .bind (sound_referAt gives) fun first refers => ?_
      refine inductionHypothesis.mono fun as ⟨rest, whole, count, others⟩ => ?_
      refine ⟨first :: rest, by simp [whole], by simp [count], fun k a inside => ?_⟩
      cases k with
      | zero =>
          obtain rfl : first = a := by simpa using inside
          exact refers
      | succ k =>
          have position : p + 2 + 2 * k = p + 2 * (k + 1) := by omega
          exact position ▸ others k a (by simpa using inside)

/-- Looking up a row gives the row with this number. -/
theorem sound_row {r : Nat} :
    Sound (Recalls l origin searching) (row l origin entry r)
      (l.RowAt origin (l.Holds origin) r) := by
  refine .bind (sound_findTable gives) fun table now => ?_
  have natural : ¬(r : Int) < 0 := by omega
  simp only [natural, ↓reduceIte, Int.toNat_natCast]
  split
  · exact .throw
  · rename_i p inside
    have isTable : l.IsTable origin table := by
      cases searching with
      | false => exact now
      | true =>
          obtain rfl : table = #[] := now
          simp at inside
    refine .get_bind fun m sound => ?_
    split
    · rename_i done remembered
      exact ⟨sound, fun row given => Except.ok.inj given ▸ sound.rows _ _ remembered⟩
    · refine Sound.bind (sound_referAt gives) (fun handle handled => ?_) m sound
      refine .bind .covered fun n count => .bind (sound_argumentsFrom gives) fun as arguments => ?_
      obtain ⟨rest, whole, rfl, each⟩ := arguments
      obtain rfl : as = rest := by simpa using whole
      have rowAt : l.RowAt origin (l.Holds origin) r (.mk ⟨origin, r⟩ handle as) :=
        ⟨rfl, table, p, isTable, inside, handled, count, each⟩
      refine .modify_bind (fun m sound => ?_) (.pure rowAt)
      refine ⟨sound.entries, fun r' row' here => ?_, sound.search, sound.table, sound.kept⟩
      simp only [Array.getElem?_setIfInBounds] at here
      split at here
      · rename_i same
        subst same
        split at here
        · obtain rfl := Option.some.inj (Option.some.inj here)
          exact rowAt
        · cases here
      · exact sound.rows r' row' here

/-- Decoding a member gives what it denotes. -/
theorem sound_member {place : Place} {kind : MemberKind} {p : Nat} :
    Sound (Recalls l origin searching) (member l entry place kind p)
      (l.Decodes (l.Holds origin) place p kind.tag) := by
  refine .bind (sound_referAt gives) fun owner owned => ?_
  exact .bind (sound_referAt gives) fun nameAndType named => .pure (.member rfl owned named)

/-- Decoding a constant that a row produces gives it with the row, the name and the type that it
refers to. -/
theorem sound_produced {i p : Nat} {build : BootstrapRow → NameAndTypeEntry → Entry} :
    Sound (Recalls l origin searching) (produced l entry ⟨origin, i⟩ p build) fun e =>
      ∃ r row nameAndType, e = build row nameAndType ∧ l.cursor.u2? (p + 1 : Nat) = some r ∧
        l.RowAt origin (l.Holds origin) r row ∧
        l.Refers (l.Holds origin) Entry.nameAndType? (p + 3) nameAndType := by
  refine .bind .covered fun r number => .bind (.adapt (sound_row gives)) fun row rowed => ?_
  exact .bind (sound_referAt gives) fun nameAndType named =>
    .pure ⟨r, row, nameAndType, rfl, number, rowed, named⟩

/-- Decoding gives what the constant denotes. -/
theorem sound_decode {i p : Nat} (offset : l.offsets[i]?.join = some p) :
    Sound (Recalls l origin searching) (decode l entry ⟨origin, i⟩ p) (l.Holds origin i) := by
  refine .bind .covered fun b byte => ?_
  have holds {t : Tag} {e : Entry} (tag : Tag.ofByte? b.toUInt8 = some t)
      (decodes : l.Decodes (l.Holds origin) ⟨origin, i⟩ p t e) : l.Holds origin i e :=
    Layout.holds_iff.mpr ⟨t, p, ⟨offset, b, byte, tag⟩, decodes⟩
  split
  · exact .throw
  · rename_i tag
    refine .bind .covered fun n length => .bind .covered fun bytes slice => ?_
    split
    · rename_i text decoded
      exact .pure (holds tag (.utf8 (.intro ⟨offset, b, byte, tag⟩ length slice decoded)))
    · exact .throw
  all_goals rename_i tag
  · exact .bind .covered fun n value => .pure (holds tag (.integer value))
  · exact .bind .covered fun n bits => .pure (holds tag (.float bits))
  · exact .bind .covered fun n value => .pure (holds tag (.long value))
  · exact .bind .covered fun n bits => .pure (holds tag (.double bits))
  · exact .bind (sound_referAt gives) fun name named => .pure (holds tag (.class named))
  · exact .bind (sound_referAt gives) fun utf8 spelled => .pure (holds tag (.string spelled))
  · exact .bind (sound_referAt gives) fun type described =>
      .pure (holds tag (.methodType described))
  · exact .bind (sound_referAt gives) fun name named => .pure (holds tag (.module named))
  · exact .bind (sound_referAt gives) fun name named => .pure (holds tag (.package named))
  · refine .bind (sound_referAt gives) fun name named => ?_
    exact .bind (sound_referAt gives) fun type typed => .pure (holds tag (.nameAndType named typed))
  · exact (sound_member gives).mono fun e decodes => holds tag decodes
  · exact (sound_member gives).mono fun e decodes => holds tag decodes
  · exact (sound_member gives).mono fun e decodes => holds tag decodes
  · refine .bind .covered fun kind read => .bind (sound_referAt gives) fun target targeted => ?_
    exact .guard fun accepts => .pure (holds tag (.handle read targeted (by simpa using accepts)))
  · refine (sound_produced gives).mono fun e ⟨r, row, nt, same, number, rowed, named⟩ => ?_
    exact holds tag (same ▸ .dynamic number rowed named)
  · refine (sound_produced gives).mono fun e ⟨r, row, nt, same, number, rowed, named⟩ => ?_
    exact holds tag (same ▸ .callSite number rowed named)

end Steps

/-- A read inside the buffer leaves the memo. -/
@[simp] theorem run_covered (a : α) (m : Memo) :
    runFrom (covered (some a)) m = (.ok a, m) := rfl

/-- The constant of a text decodes without looking anything up. -/
theorem run_decode_text {place : Place} {p n : Nat} {bytes : Bytes} {text : Text}
    (entry : EntryAt) (m : Memo) (constant : l.ConstantAt place.index .utf8 p)
    (length : l.cursor.u2? (p + 1 : Nat) = some n)
    (slice : l.cursor.slice? (p + 3 : Nat) n = some bytes)
    (decoded : ModifiedUtf8.decode? bytes = some text) :
    runFrom (decode l entry place p) m = (.ok (.utf8 ⟨place, text⟩), m) := by
  obtain ⟨-, b, byte, tag⟩ := constant
  rw [Int.natCast_add] at length slice
  rw [decode]
  simp only [byte, run_bind, run_covered, tag]
  rw [show l.cursor.u2? ((p : Int) + 1) = some n from length]
  simp only [run_covered]
  rw [show l.cursor.slice? ((p : Int) + 3) n = some bytes from slice]
  simp only [run_covered, decoded, run_pure]

/-- The constants that are being decoded leave room for the others, and none of them is a
text. -/
structure Path (l : Layout) (depth : Nat) (open_ : List Nat) : Prop where
  nodup : open_.Nodup
  inside : ∀ i ∈ open_, i < l.size
  others : ∀ i ∈ open_, ∀ text, ¬l.TextAt i text
  room : l.size < depth + open_.length

/-- At the start nothing is being decoded. -/
theorem Path.start : Path l (l.size + 1) [] :=
  ⟨.nil, by simp, by simp, by simp⟩

/-- There is always room for another constant. -/
theorem Path.positive {depth : Nat} {open_ : List Nat} (path : Path l depth open_) :
    ∃ deeper, depth = deeper + 1 := by
  have below : open_ ⊆ List.range l.size :=
    fun i member => List.mem_range.mpr (path.inside i member)
  have few := (List.subperm_of_subset path.nodup below).length_le
  rw [List.length_range] at few
  have room := path.room
  exact ⟨depth - 1, by omega⟩

/-- A constant that is no text can be opened while there is room for it. -/
theorem Path.deeper {depth i : Nat} {open_ : List Nat} (path : Path l (depth + 1) open_)
    (unopened : i ∉ open_) (inside : i < l.size) (other : ∀ text, ¬l.TextAt i text) :
    Path l depth (i :: open_) where
  nodup := List.nodup_cons.mpr ⟨unopened, path.nodup⟩
  inside := List.forall_mem_cons.mpr ⟨inside, path.inside⟩
  others := List.forall_mem_cons.mpr ⟨other, path.others⟩
  room := by
    have room := path.room
    rw [List.length_cons]
    omega

/-- An index with an offset is one of the pool. -/
theorem lt_size {i p : Nat} (offset : l.offsets[i]?.join = some p) : i < l.size := by
  have here := Option.join_eq_some_iff.mp offset
  exact (Array.getElem?_eq_some_iff.mp here).1

/-- A text that is not being decoded is given from every memo. -/
theorem always_text {searching : Bool} {depth i : Nat} {open_ : List Nat} {text : Text}
    (spelled : l.TextAt i text) (unopened : i ∉ open_) :
    Always l origin searching (entryWithin l origin (depth + 1) open_ i)
      (.utf8 ⟨⟨origin, i⟩, text⟩) := by
  have held : l.Holds origin i (.utf8 ⟨⟨origin, i⟩, text⟩) :=
    Layout.Holds.text_iff.mpr ⟨rfl, spelled⟩
  obtain ⟨constant, length, slice, decoded⟩ := spelled
  intro m recalls
  rw [entryWithin]
  simp only [constant.offset, run_bind, run_get]
  split
  · rename_i done remembered
    obtain rfl := held.functional (recalls.entries i _ remembered)
    rfl
  · rw [if_neg (by simpa using unopened), run_bind,
      run_decode_text _ m constant length slice decoded]
    rfl

/-- Decoding a text gives it, without any other constant. -/
theorem sound_text {searching : Bool} {entry : EntryAt} {i p : Nat} {text : Text}
    (spelled : l.TextAt i text) (offset : l.offsets[i]?.join = some p) :
    Sound (Recalls l origin searching) (decode l entry ⟨origin, i⟩ p) (l.Holds origin i) := by
  have held : l.Holds origin i (.utf8 ⟨⟨origin, i⟩, text⟩) :=
    Layout.Holds.text_iff.mpr ⟨rfl, spelled⟩
  obtain ⟨constant, length, slice, decoded⟩ := spelled
  obtain rfl := Option.some.inj (constant.offset.symm.trans offset)
  intro m recalls
  rw [run_decode_text _ m constant length slice decoded]
  exact ⟨recalls, fun e given => Except.ok.inj given ▸ held⟩

/-- What has been decoded may be remembered. -/
theorem Recalls.remember {searching : Bool} {i : Nat} {e : Entry} (holds : l.Holds origin i e)
    {m : Memo} (recalls : Recalls l origin searching m) :
    Recalls l origin searching
      { m with entries := m.entries.setIfInBounds i (some e) } := by
  refine ⟨fun j e' here => ?_, recalls.rows, recalls.search, recalls.table, recalls.kept⟩
  simp only [Array.getElem?_setIfInBounds] at here
  split at here
  · rename_i same
    subst same
    split at here
    · obtain rfl := Option.some.inj (Option.some.inj here)
      exact holds
    · cases here
  · exact recalls.entries j e' here

/-- Along a path of constants that are being decoded, an entry is given only where it is held,
and every text is given. -/
theorem sound_entryWithin (depth : Nat) (open_ : List Nat) (path : Path l depth open_) :
    GivesHeld l origin (entryWithin l origin depth open_) := by
  induction depth generalizing open_ with
  | zero =>
      obtain ⟨deeper, impossible⟩ := path.positive
      cases impossible
  | succ depth inductionHypothesis =>
      refine ⟨fun searching i => ?_, fun searching i text spelled =>
        always_text spelled fun opened => path.others i opened text spelled⟩
      rw [entryWithin]
      split
      · exact .throw
      · rename_i p offset
        refine .get_bind fun m recalls => ?_
        split
        · rename_i done remembered
          exact ⟨recalls, fun e given => Except.ok.inj given ▸ recalls.entries _ _ remembered⟩
        · refine Sound.guard (fun unopened => ?_) m recalls
          have finish {e : Entry} (holds : l.Holds origin i e) :
              Sound (Recalls l origin searching)
                (do
                  modify fun m => { m with entries := m.entries.setIfInBounds i (some e) }
                  return e) (l.Holds origin i) :=
            .modify_bind (fun m recalls => recalls.remember holds) (.pure holds)
          by_cases spelled : ∃ text, l.TextAt i text
          · obtain ⟨text, spelled⟩ := spelled
            exact .bind (sound_text spelled offset) fun e holds => finish holds
          · have deeper := path.deeper (by simpa using unopened) (lt_size offset)
              fun text here => spelled ⟨text, here⟩
            exact .bind (sound_decode (inductionHypothesis _ deeper) offset) fun e holds =>
              finish holds

/-- Looking up an entry gives what its index holds. -/
theorem sound_entry : GivesHeld l origin (entry l origin) := sound_entryWithin _ _ .start

/-- The memo that remembers nothing recalls only what is held. -/
theorem recalls_fresh : Recalls l origin false (fresh l) where
  entries i e here := by
    simp only [fresh, Array.getElem?_replicate] at here
    split at here <;> simp at here
  rows r row here := by simp [fresh] at here
  search no := nomatch no
  table _ t here := by simp [fresh] at here
  kept _ _ _ := .inl rfl

/-- Each outcome of a sweep is that of its lookup from some memo on the way. -/
theorem sweep_runs {inv : Memo → Prop} {look : Nat → Lookup α}
    (keeps : ∀ i m, inv m → inv (runFrom (look i) m).2) {is : List Nat}
    {done : List (Except Error α)} {m : Memo} (starts : inv m) :
    ∃ outcomes : List (Except Error α), (sweep look is done m).1 = done.reverse ++ outcomes ∧
      outcomes.length = is.length ∧
      (∀ k i : Nat, is[k]? = some i →
        ∃ m', inv m' ∧ outcomes[k]? = some (runFrom (look i) m').1) ∧
      inv (sweep look is done m).2 := by
  induction is generalizing done m with
  | nil => exact ⟨[], by simp [sweep], rfl, by simp, starts⟩
  | cons i rest inductionHypothesis =>
      have after := keeps i m starts
      rw [sweep]
      cases looked : (look i).run.run m with
      | mk outcome m' =>
          rw [runFrom, looked] at after
          obtain ⟨outcomes, whole, length, others, ends⟩ :=
            @inductionHypothesis (outcome :: done) m' after
          refine ⟨outcome :: outcomes, by simp [whole], by simp [length], fun k j asked => ?_, ends⟩
          cases k with
          | zero =>
              obtain rfl : i = j := by simpa using asked
              exact ⟨m, starts, by simp [runFrom, looked]⟩
          | succ k => simpa using others k j (by simpa using asked)

/-- The outcomes of a sweep over all indices below `n`. -/
theorem sweep_range {inv : Memo → Prop} {look : Nat → Lookup α}
    (keeps : ∀ i m, inv m → inv (runFrom (look i) m).2) {n : Nat} {m : Memo} (starts : inv m) :
    (sweep look (List.range n) [] m).1.length = n ∧
      (∀ i < n, ∃ m', inv m' ∧
        (sweep look (List.range n) [] m).1[i]? = some (runFrom (look i) m').1) ∧
      inv (sweep look (List.range n) [] m).2 := by
  obtain ⟨outcomes, whole, length, each, ends⟩ := sweep_runs keeps starts
  rw [whole, List.reverse_nil, List.nil_append]
  rw [List.length_range] at length
  exact ⟨length, fun i inside => each i i (by simp [inside]), ends⟩

end JvmClass.Lookup
