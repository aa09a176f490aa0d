import JvmClass.Proofs.Build.Callers
import JvmClass.Proofs.Constant.Encoding
import JvmClass.Proofs.Constant.Factories

/-!
# What a finished class is written as

A class that is finished is its version, its pool, its header, its members and its attributes, one
after another. A scan of these bytes comes to the same parts: the constants of the parent at their
indices, those that were added after them, and the attributes under their names.

Whatever the library writes, the caller's values stay, an error stays an error, and the pool only
grows. Where all constants that are referred to belong to some pool, a pool in order goes on by
steps.
-/

namespace JvmClass

variable {σ α β : Type} {s s' : Session σ} {i : Input}

/-! ## Rows that stay -/

namespace PoolBuilder

/-- An action that links no rows, where those of a parent have been entered. -/
def Rowless (act : Interning α) : Prop :=
  ∀ p : PoolBuilder, p.indexed = true → (act p).2.indexed = true ∧ (act p).2.rows = p.rows

namespace Rowless

theorem pure (a : α) : Rowless (pure a) := fun _ indexed => ⟨indexed, rfl⟩

/-- One after another, two actions that link no rows link none. -/
theorem bind {x : Interning α} {f : α → Interning β} (first : Rowless x)
    (next : ∀ a, Rowless (f a)) : Rowless (x >>= f) := fun p indexed => by
  obtain ⟨indexed', same⟩ := first p indexed
  obtain ⟨indexed'', same'⟩ := next (x p).1 (x p).2 indexed'
  exact ⟨indexed'', same'.trans same⟩

theorem get : Rowless get := fun _ indexed => ⟨indexed, rfl⟩

theorem fail (e : Error) : Rowless (fail e) := fun _ indexed => ⟨indexed, rfl⟩

/-- Interning a constant links no rows. -/
theorem intern (key : ConstantKey) (make : Place → Entry) : Rowless (intern key make) := by
  intro p indexed
  have done := congrArg Prod.snd (ensureIndexed_done indexed)
  cases known : p.places[key]? with
  | some place =>
      rw [intern_known (by rw [done]; exact known), done]
      exact ⟨indexed, rfl⟩
  | none =>
      have unknown : (ensureIndexed p).2.places[key]? = none := by rw [done]; exact known
      by_cases full : maxSize < (ensureIndexed p).2.size + key.tag.slots
      · rw [intern_full make unknown full, done]
        exact ⟨indexed, rfl⟩
      · rw [intern_fresh unknown (Nat.not_lt.mp full), done]
        exact ⟨indexed, rfl⟩

/-- A text links no rows. -/
theorem utf8 (text : Text) : Rowless (utf8 text) := by
  have interned : Rowless
      (do return ⟨← PoolBuilder.intern (.text text) fun p => .utf8 ⟨p, text⟩, text⟩ :
      Interning Utf8Entry) := .bind (.intern _ _) fun _ => .pure _
  rw [PoolBuilder.utf8]
  split
  · exact .bind (.fail _) fun _ => interned
  · exact interned

/-- A class links no rows. -/
theorem class_ (internalName : Text) : Rowless (class_ internalName) := by
  refine .bind (.utf8 _) fun name => .bind (.bind .get fun p => ?_) fun name =>
    .bind (.intern _ _) fun _ => .pure _
  split
  · exact .pure _
  · exact .utf8 _

/-- Counting the rows links none, since those of a parent have been entered. -/
theorem rowCount : Rowless rowCount := by
  intro p indexed
  have done : (PoolBuilder.rowCount p).2 = p := congrArg Prod.snd (ensureIndexed_done indexed)
  rw [done]
  exact ⟨indexed, rfl⟩

/-- Referring to a class. -/
theorem indexOf (c : ClassEntry) : Rowless (indexOf (.loadable (.class c))) := by
  refine .bind .get fun p => ?_
  split
  · exact .pure _
  · refine .bind (.bind .get fun p => ?_) fun _ => .pure _
    split
    · exact .pure _
    · exact .bind (.class_ _) fun _ => .pure _

end Rowless

/-- Linking no rows while nothing but classes is referred to. -/
def Law.rowless : Law where
  Given e := ∃ c, e = .loadable (.class c)
  Does := Rowless
  pure := .pure
  bind := .bind
  indexOf e known := by
    obtain ⟨c, rfl⟩ := known
    exact .indexOf c
  utf8 := .utf8
  class_ := .class_
  rowCount := .rowCount

end PoolBuilder

/-- Linking no rows while nothing but classes is referred to. -/
def Build.Law.rowless (σ : Type) : Build.Law σ where
  pool := .rowless
  Does act := ∀ s : Session σ, s.pool.indexed = true →
    (act s).2.pool.indexed = true ∧ (act s).2.pool.rows = s.pool.rows
  pure _ _ indexed := ⟨indexed, rfl⟩
  bind first next s indexed := by
    obtain ⟨indexed', same⟩ := first s indexed
    obtain ⟨indexed'', same'⟩ := next _ _ indexed'
    exact ⟨indexed'', same'.trans same⟩
  look _ indexed := ⟨indexed, rfl⟩
  interning does s := does s.pool
  fail _ _ indexed := ⟨indexed, rfl⟩

namespace Emit

/-- Items of two bytes each. -/
theorem writes_counted_two {write : β → Emit σ Bytes}
    (tries : ∀ b, Tries (.calls σ) (write b))
    (two : ∀ b (s s' : Session σ) bytes, Writes s (write b) bytes s' → bytes.length = 2)
    {bs : List β} {bytes : Bytes} (writes : Writes s (counted write bs) bytes s') :
    bs.length ≤ maxCount ∧ ∃ items, bytes = u2 bs.length ++ items ∧
      items.length = 2 * bs.length := by
  obtain ⟨short, chunks, rfl, all⟩ := chunks_of_writes_counted (fun b _ => tries b) writes
  refine ⟨short, _, rfl, ?_⟩
  clear writes short
  induction all with
  | nil => rfl
  | cons first others inductionHypothesis =>
      obtain ⟨s₁, s₂, wrote⟩ := first
      rw [List.flatten_cons, List.length_append, inductionHypothesis, two _ _ _ _ wrote,
        List.length_cons]
      omega

/-- Looking at a session before something is written is looking at the one it is written in. -/
theorem writes_session_iff {f : Session σ → Emit σ β} {b : β} :
    Writes s (getThe (Session σ) >>= f) b s' ↔ Writes s (f s) b s' := Iff.rfl

end Emit

open Emit (Writes Written)

namespace ClassDraft

open Build.Law (gives_append gives_flatMap gives_calls)

variable {l : Build.Law σ} {d : ClassDraft}

/-- The attributes of a class are written under their names. -/
theorem named_items (given : l.Gives (d.attributes.toList.flatMap Attribute.mentions)) :
    Emit.Named l (Emit.attributeItems none (fun _ => throw .outOfBounds)
      (d.attributes.toList.map some)) :=
  Emit.named_attributeItems_some (fun _ _ => .throw _) _ _ given

/-- The items of a table have the names of its attributes, in their order. -/
theorem names_items (as : List Attribute) :
    (Emit.attributeItems (σ := σ) none (fun _ => throw .outOfBounds) (as.map some)).map
      (Option.map Emit.Item.name) = as.map fun a => some a.name := by
  induction as with
  | nil => simp [Emit.attributeItems]
  | cons a rest inductionHypothesis =>
      obtain ⟨span, body⟩ := a
      rw [List.map_cons, Emit.attributeItems, List.map_cons, inductionHypothesis]
      rfl

/-- The header refers to the class, its superclass and its interfaces. -/
theorem tries_header (given : l.Gives ([.loadable (.class d.this)] ++ ClassEntry.optional d.super ++
    d.interfaces.flatMap ClassEntry.optional)) : Emit.Tries l d.header := by
  simp only [gives_append] at given
  obtain ⟨⟨this, super⟩, interfaces⟩ := given
  exact .bind (Emit.tries_refClass this) fun _ => .bind (Emit.tries_optionalClass super) fun _ =>
    .bind (Emit.tries_refClasses interfaces) fun _ => .pure _

/-- The header refers to nothing but classes. -/
theorem rows_of_writes_header {d : ClassDraft} {bytes : Bytes}
    (writes : Emit.Writes s d.header bytes s')
    (indexed : s.pool.indexed = true) : s'.pool.rows = s.pool.rows := by
  have named (c : Option ClassEntry) : (Build.Law.rowless σ).Gives (ClassEntry.optional c) := by
    intro e member
    obtain ⟨c, -, rfl⟩ := Option.map_eq_some_iff.mp (Option.mem_toList.mp member)
    exact ⟨c, rfl⟩
  have tries : Emit.Tries (.rowless σ) d.header :=
    tries_header (gives_append.mpr ⟨gives_append.mpr ⟨named (some d.this), named d.super⟩,
      gives_flatMap.mpr fun c _ => named c⟩)
  have ran : (d.header none s).2 = s' := congrArg Prod.snd writes
  exact ran ▸ (tries.does none s indexed).2

/-- A header is six bytes and the interfaces with their count. -/
theorem header_of_writes {d : ClassDraft} {bytes : Bytes} (writes : Writes s d.header bytes s') :
    ∃ front items n, bytes = front ++ (u2 (n : Nat) ++ items) ∧ front.length = 6 ∧ n < 65536 ∧
      items.length = 2 * n := by
  obtain ⟨this, s₁, first, writes⟩ := (Emit.writes_bind_iff fun _ =>
    .bind (Emit.tries_optionalClass (gives_calls _)) fun _ =>
      .bind (Emit.tries_refClasses (gives_calls _)) fun _ => .pure _).mp writes
  obtain ⟨super, s₂, second, writes⟩ := (Emit.writes_bind_iff fun _ =>
    .bind (Emit.tries_refClasses (gives_calls _)) fun _ => .pure _).mp writes
  obtain ⟨interfaces, s₃, third, given⟩ := (Emit.writes_bind_iff fun _ => .pure _).mp writes
  obtain ⟨rfl, rfl⟩ := Emit.writes_pure_iff.mp given
  obtain ⟨short, items, rfl, length⟩ := Emit.writes_counted_two
    (fun _ => Emit.tries_refClass (gives_calls _)) (fun _ _ _ _ => Emit.length_of_writes_ref) third
  rw [Emit.maxCount] at short
  exact ⟨_, items, _, rfl, by simp [Emit.length_of_writes_ref first,
    Emit.length_of_writes_optionalRef second], by omega, length⟩

/-- What a class writes as its attributes, against a pool `q`: those of the draft, and last the
rows of the pool if it has any. -/
inductive Attributed (d : ClassDraft) (q : PoolBuilder) : List Written → Prop
  | plain {ws : List Written} (names : ws.map Written.name = d.attributes.toList.map Attribute.name)
      (empty : q.rows.size = 0) : Attributed d q ws
  | table {ws : List Written} {w : Written}
      (names : ws.map Written.name = d.attributes.toList.map Attribute.name)
      (name : w.name = Lookup.bootstrapMethods) (body : w.body = q.encodeRows) :
      Attributed d q (ws ++ [w])

/-- The rows come last, under a name of their own. -/
theorem tries_rows (d : ClassDraft) (items name : Bytes) : Emit.Tries l (do
    let rows ← Emit.sized (fun n => .overflow n) (← getThe (Session σ)).pool.encodeRows
    return u2 (d.attributes.size + 1) ++ items ++ name ++ rows : Emit σ Bytes) :=
  .bind .look fun _ => .bind (Emit.tries_sized _ _) fun _ => .pure _

/-- The end of an attribute table is written by calls: its count, its rows, and the bootstrap table
if there is one. -/
theorem tries_table (d : ClassDraft) (items : Bytes) (n : Nat) : Emit.Tries l (do
    if n = 0 then return u2 d.attributes.size ++ items
    let name ← Emit.refText Lookup.bootstrapMethods
    let rows ← Emit.sized (fun n => .overflow n) (← getThe (Session σ)).pool.encodeRows
    return u2 (d.attributes.size + 1) ++ items ++ name ++ rows : Emit σ Bytes) := by
  split
  · exact .pure _
  · exact .bind (Emit.tries_refText _) fun name => tries_rows d items name

/-- The table of bootstrap methods comes after the other attributes. -/
theorem tries_tableAfter (d : ClassDraft) (items : Bytes) : Emit.Tries l (do
    if (← Emit.interning PoolBuilder.rowCount) = 0 then
      return u2 d.attributes.size ++ items
    let name ← Emit.refText Lookup.bootstrapMethods
    let rows ← Emit.sized (fun n => .overflow n) (← getThe (Session σ)).pool.encodeRows
    return u2 (d.attributes.size + 1) ++ items ++ name ++ rows : Emit σ Bytes) :=
  .bind (.interning l.pool.rowCount) fun n => tries_table d items n

/-- The attribute table refers to what its attributes mention. -/
theorem tries_attributeTable
    (given : l.Gives (d.attributes.toList.flatMap Attribute.mentions)) :
    Emit.Tries l d.attributeTable :=
  .bind (Emit.tries_items (named_items given)) fun items => tries_tableAfter d items

/-- What is written as the attributes of a class is a count and the rows, each under a name of the
pool, with the bootstrap table last if the pool has rows. -/
theorem attributed_of_writes {d : ClassDraft} {bytes : Bytes}
    (writes : Writes s d.attributeTable bytes s') :
    ∃ (n : Int) (ws : List Written), bytes = u2 n ++ ws.flatMap Written.bytes ∧
      (∀ w ∈ ws, w.In s'.pool) ∧ d.Attributed s'.pool ws ∧ s'.pool.indexed = true := by
  obtain ⟨items, s₁, wrote, writes⟩ := (Emit.writes_bind_iff (tries_tableAfter d)).mp writes
  obtain ⟨ws, names, same, there⟩ :=
    Emit.written_of_itemsAfter (named_items (gives_calls _)) wrote
  rw [List.reverse_nil, List.flatten_nil, List.nil_append] at same
  rw [names_items] at names
  have names : ws.map Written.name = d.attributes.toList.map Attribute.name := by
    have both : (ws.map Written.name).map some =
        (d.attributes.toList.map Attribute.name).map some := by
      rw [List.map_map, List.map_map]
      exact names.symm
    exact (List.map_inj_right fun _ _ => Option.some.inj).mp both
  obtain ⟨n, s₂, counted, writes⟩ :=
    (Emit.writes_bind_iff fun n => tries_table d items n).mp writes
  have grows := counted.grows (.interning PoolBuilder.Law.requests.rowCount)
  obtain ⟨rfl, rfl⟩ := Emit.writes_interning_iff.mp counted
  have indexed := PoolBuilder.indexed_ensureIndexed s₁.pool
  split at writes
  · rename_i empty
    obtain ⟨rfl, rfl⟩ := Emit.writes_pure_iff.mp writes
    exact ⟨_, ws, by rw [same], fun w member => (there w member).mono grows, .plain names empty,
      indexed⟩
  · obtain ⟨name, s₃, referred, writes⟩ :=
      (Emit.writes_bind_iff fun name => tries_rows d items name).mp writes
    have grows' := referred.grows (Emit.tries_refText _)
    obtain ⟨place, rfl, known⟩ := Emit.place_of_writes_refText referred
    rw [Emit.writes_session_iff] at writes
    obtain ⟨body, s₆, size, given⟩ := (Emit.writes_bind_iff fun _ => .pure _).mp writes
    obtain ⟨fits, rfl, rfl⟩ := Emit.writes_sized_iff.mp size
    obtain ⟨rfl, rfl⟩ := Emit.writes_pure_iff.mp given
    let w : Written := ⟨Lookup.bootstrapMethods, place, s₃.pool.encodeRows⟩
    have here : w.In s₃.pool := ⟨fits, known⟩
    refine ⟨d.attributes.size + 1, ws ++ [w], by simp [same, Written.bytes, w], fun v member => ?_,
      .table names rfl rfl, grows'.indexed indexed⟩
    rcases List.mem_append.mp member with old | last
    · exact ((there v old).mono grows).mono grows'
    · obtain rfl := List.mem_singleton.mp last
      exact here

/-- A class as it is written against the pool `p`: its parts one after another. The attributes
were written against the pool `q`. -/
inductive Assembled (d : ClassDraft) (q p : PoolBuilder) (bytes : Bytes) : Prop
  | intro {front interfaces : Bytes} {k : Nat} {n : Int} {ws : List Written}
      (fewFields : d.fields.size ≤ maxMembers) (fewMethods : d.methods.size ≤ maxMembers)
      (fine : p.error = none) (indexed : q.indexed = true) (attributed : d.Attributed q ws)
      (rows : p.rows = q.rows) (there : ∀ w ∈ ws, w.In p) (length : front.length = 6)
      (count : k < 65536)
      (listed : interfaces.length = 2 * k)
      (whole : bytes = u4 magic ++ (u2 d.minor ++ (u2 d.major ++ (p.encode ++ (front ++ (u2 k ++
        (interfaces ++ (u2 d.fields.size ++ (d.fields.toList.flatten ++ (u2 d.methods.size ++
          (d.methods.toList.flatten ++ (u2 n ++ ws.flatMap Written.bytes))))))))))))

/-- A class that is finished has been put together from its parts, each against a pool that the last
one has grown from. -/
theorem assembled_of_finish {d : ClassDraft} {bytes : Bytes}
    (finished : d.finish s = (.ok bytes, s')) :
    ∃ q, s.pool.Grows q ∧ q.Grows s'.pool ∧ d.Assembled q s'.pool bytes := by
  rw [finish, bind_apply] at finished
  cases failed : (Build.error? s).1 with
  | some e =>
      rw [failed] at finished
      cases finished
  | none =>
      rw [failed] at finished
      dsimp only at finished
      have unchanged : (Build.error? s).2 = s := rfl
      rw [unchanged] at finished
      split at finished
      · cases finished
      · rename_i few
        simp only [Bool.or_eq_true, decide_eq_true_eq, not_or, Nat.not_lt] at few
        rw [bind_apply] at finished
        rcases ran : Emit.finish d.attributeTable s with ⟨outcome, s₁⟩
        rw [ran] at finished
        cases outcome with
        | error e => cases finished
        | ok «attributes» =>
            dsimp only at finished
            rw [bind_apply] at finished
            rcases ran' : Emit.finish d.header s₁ with ⟨outcome, s₂⟩
            rw [ran'] at finished
            cases outcome with
            | error e => cases finished
            | ok header =>
                dsimp only at finished
                rw [bind_apply, get_apply] at finished
                dsimp only at finished
                cases broken : s₂.pool.error with
                | some e =>
                    rw [broken] at finished
                    cases finished
                | none =>
                    rw [broken] at finished
                    obtain ⟨same, rfl⟩ := Prod.mk.inj finished
                    obtain rfl := Except.ok.inj same
                    have wrote := Emit.writes_of_finish ran
                    have wrote' := Emit.writes_of_finish ran'
                    have grows := wrote'.grows (tries_header (gives_calls _))
                    obtain ⟨n, ws, rfl, there, attributed, indexed⟩ := attributed_of_writes wrote
                    obtain ⟨front, interfaces, k, rfl, length, small, listed⟩ :=
                      header_of_writes wrote'
                    exact ⟨s₁.pool, wrote.grows (tries_attributeTable (gives_calls _)), grows,
                      .intro (n := n) few.1 few.2 broken indexed attributed
                        (rows_of_writes_header wrote' indexed)
                        (fun w member => (there w member).mono grows) length small listed
                        (by simp)⟩

end ClassDraft

/-! ## How a session goes on -/

open PoolBuilder (Answers Consed Grow Steps)

/-- The innermost cause that cannot be kept back is one by itself. -/
theorem Error.abort?_abort? {e a : Error} (aborts : e.abort? = some a) : a.abort? = some a := by
  fun_induction Error.abort? e with
  | case1 _ _ cause inductionHypothesis => exact inductionHypothesis aborts
  | case2 | case3 =>
      obtain rfl := Option.some.inj aborts
      rfl
  | case4 => cases aborts

/-- An error that cannot be kept back stands in a session. -/
def Session.Aborted (s : Session σ) : Prop := ∃ a, s.error = some a ∧ a.abort?.isSome = true

/-- An error of a session stays, unless one that cannot be kept back takes its place. -/
def Session.Sticks (s s' : Session σ) : Prop :=
  (∀ e, s.error = some e → s'.error = some e ∨ s'.Aborted) ∧ (s.Aborted → s'.Aborted)

theorem Session.Sticks.refl (s : Session σ) : s.Sticks s := ⟨fun _ => .inl, id⟩

/-- Errors that stay over two stretches stay over both. -/
theorem Session.Sticks.trans {s s' s'' : Session σ} (first : s.Sticks s') (second : s'.Sticks s'') :
    s.Sticks s'' :=
  ⟨fun e known => (first.1 e known).elim (second.1 e) fun aborted => .inr (second.2 aborted),
    fun aborted => second.2 (first.2 aborted)⟩

/-- What is recorded after an error is not kept, unless it cannot be kept back. -/
theorem Session.sticks_fail (s : Session σ) (e : Error) : s.Sticks (Build.fail e s).2 := by
  have recorded : (Build.fail e s).2.error =
      some (Error.first (s.error <|> s.pool.error.bind Error.abort?) e) := rfl
  constructor
  · intro kept known
    rw [known] at recorded
    cases aborts : kept.abort? with
    | some a =>
        refine .inl (recorded.trans ?_)
        simp [Error.first, aborts]
    | none =>
        cases aborts' : e.abort? with
        | none =>
            refine .inl (recorded.trans ?_)
            simp [Error.first, aborts, aborts']
        | some a =>
            refine .inr ⟨a, recorded.trans ?_, by rw [Error.abort?_abort? aborts']; rfl⟩
            simp [Error.first, aborts, aborts']
  · rintro ⟨a, known, aborts⟩
    rw [known] at recorded
    refine ⟨a, recorded.trans ?_, aborts⟩
    simp [Error.first, aborts]

/-- A session goes on to another while constants of `given` are referred to. -/
structure Session.Proceeds (given : Entry → Prop) (s s' : Session σ) : Prop where
  user : s'.user = s.user
  quiet : s'.Quiet → s.Quiet
  sticks : s.Sticks s'
  grows : s.pool.Grows s'.pool
  steps : s.pool.Consed → (∀ e, given e → e.Genuine s.pool) → s.pool.Steps s'.pool

namespace Session.Proceeds

variable {given : Entry → Prop} {s'' : Session σ}

theorem refl (s : Session σ) : s.Proceeds given s := ⟨rfl, id, .refl s, .refl _, fun _ _ => .refl⟩

/-- Two sessions in a row proceed as one. -/
theorem trans (first : s.Proceeds given s') (second : s'.Proceeds given s'') :
    s.Proceeds given s'' where
  user := second.user.trans first.user
  quiet fine := first.quiet (second.quiet fine)
  sticks := first.sticks.trans second.sticks
  grows := first.grows.trans second.grows
  steps consed genuine := by
    have steps := first.steps consed genuine
    exact steps.trans (second.steps (consed.steps steps) fun e known =>
      (genuine e known).mono steps.later)

/-- A session that differs in its labels only. -/
theorem labels (n : Nat) : s.Proceeds given { s with labels := n } :=
  ⟨rfl, fun quiet => ⟨quiet.session, quiet.pool⟩, .refl s, .refl _, fun _ _ => .refl⟩

/-- An error that is recorded. -/
theorem fail (e : Error) : s.Proceeds given (Build.fail e s).2 :=
  ⟨rfl, fun quiet => (nomatch quiet.session), s.sticks_fail e, .refl _, fun _ _ => .refl⟩

end Session.Proceeds

namespace PoolBuilder

variable {p : PoolBuilder}

/-- Counting the rows of a pool can be answered in every pool. -/
theorem answers_rowCount : Answers p rowCount fun _ _ => True :=
  answers_ensureIndexed.bind fun _ _ _ _ _ => ⟨.refl, trivial⟩

/-- Going on by steps, where what is referred to belongs to some pool. -/
def Law.stepping (given : Entry → Prop) : Law where
  Given := given
  Does act := Grow act ∧ ∀ p : PoolBuilder, (∀ e, given e → e.Genuine p) →
    Answers p act fun _ _ => True
  pure a := ⟨.pure a, fun _ _ => .pure fun _ => trivial⟩
  bind first next := ⟨.bind first.1 fun a => (next a).1, fun p genuine =>
    (first.2 p genuine).bind fun a q later _ => (next a).2 q fun e known =>
      (genuine e known).mono later⟩
  indexOf e known := ⟨grow_indexOf e, fun _ genuine =>
    (answers_indexOf (genuine e known)).mono fun _ _ _ _ _ => trivial⟩
  utf8 text := ⟨grow_utf8 text, fun _ _ => (answers_utf8 text).mono fun _ _ _ _ _ => trivial⟩
  class_ name := ⟨grow_class name, fun _ _ => (answers_class name).mono fun _ _ _ _ _ => trivial⟩
  rowCount := ⟨grow_rowCount, fun _ _ => answers_rowCount⟩

end PoolBuilder

/-- Going on while constants of `given` are referred to. -/
def Build.Law.proceeding (σ : Type) (given : Entry → Prop) : Build.Law σ where
  pool := .stepping given
  Does act := ∀ s : Session σ, s.Proceeds given (act s).2
  pure _ := .refl
  bind first next s := (first s).trans (next _ _)
  look := .refl
  interning does s := {
    user := rfl
    quiet := fun quiet => ⟨quiet.session, (does.1 s.pool).error quiet.pool⟩
    sticks := .refl s
    grows := does.1 s.pool
    steps := fun consed genuine => (does.2 s.pool genuine consed).1 }
  fail e _ := .fail e

namespace ClassDraft

variable {l : Build.Law σ} {d : ClassDraft}

/-- What a class is finished with obeys a law. -/
theorem does_finish (given : l.Gives d.mentions) :
    l.Does (d.finish : Build σ (Except Error Bytes)) := by
  obtain ⟨named, contained⟩ := Build.Law.gives_append.mp given
  refine l.bind l.error? fun failed => ?_
  cases failed with
  | some e => exact l.pure _
  | none =>
      dsimp only
      split
      · exact l.pure _
      refine l.bind (Emit.does_finish (tries_attributeTable contained)) fun outcome => ?_
      cases outcome with
      | error e => exact l.pure _
      | ok «attributes» =>
          refine l.bind (Emit.does_finish (tries_header named)) fun outcome => ?_
          cases outcome with
          | error e => exact l.pure _
          | ok header =>
              refine l.bind l.look fun s => ?_
              split
              · exact l.pure _
              · exact l.pure _

end ClassDraft

end JvmClass
