import JvmClass.Proofs.Build.Writing
import JvmClass.Proofs.Bytes.Parses
import JvmClass.Proofs.Constant.Adoption
import JvmClass.Proofs.Constant.Pool
import JvmClass.Proofs.Constant.Written
import JvmClass.Attribute.Reader

/-!
# Writing what can be read

What is written refers to constants by index, so its meaning depends on the pool that is written
in the end. An input reads a pool if its indices denote what those of the pool do. `Emit.Means` says
that an action writes bytes which every input that reads a later state of the pool parses, unless
an attribute gets too long for its length field.
-/

namespace JvmClass

variable {σ α β γ δ : Type}

namespace PoolBuilder

variable {p p' q : PoolBuilder}

/-- A later state of a pool, in which all is well. -/
structure Becomes (p q : PoolBuilder) : Prop where
  grown : p.Extends q none
  sound : q.Sound
  fine : q.error = none

/-- Becoming a later state starts from every state before. -/
theorem Becomes.after (becomes : p'.Becomes q) (grown : p.Extends p' none) : p.Becomes q :=
  ⟨grown.trans becomes.grown, becomes.sound, becomes.fine⟩

/-- What an index denotes, it denotes in every later state. -/
theorem Denotes.mono {i : Nat} {bare : Entry} (denotes : p.Denotes i bare)
    (grown : p.Extends q none) :
    q.Denotes i bare := by
  obtain ⟨e, has, index, same⟩ := denotes
  exact ⟨e, grown.has has, index, same⟩

/-- The empty pool is in order. -/
theorem sound_empty : PoolBuilder.empty.Sound := fun _ => {
  base := fun _ known => nomatch known
  orphan := fun _ => rfl
  small := by decide
  exact := fun _ known => nomatch known
  waiting := fun _ => ⟨rfl, rfl, fun _ => Std.HashMap.getElem?_empty,
    fun _ => Std.HashMap.getElem?_empty⟩
  places := fun _ _ known => nomatch Std.HashMap.getElem?_empty.symm.trans known
  slots := fun _ _ slot => nomatch slot
  spaced := .nil
  rows := fun _ _ here => nomatch here
  inherited := fun no => nomatch no
  rowOf := fun _ _ known => nomatch Std.HashMap.getElem?_empty.symm.trans known }

/-- Indices fit two bytes. -/
theorem Inv.index_lt (inv : q.Inv) {e : Entry} (has : q.Has e) : e.index < 65536 := by
  have small := inv.small
  rw [maxSize] at small
  cases has with
  | @own k place slot =>
      have inside := (Array.getElem?_eq_some_iff.mp slot).1
      rw [Entry.index, place]
      rw [size] at small
      dsimp only
      omega
  | inherited known holds =>
      have below := inv.lt_base known holds
      rw [size] at small
      omega

/-- No constant stands at index zero. -/
theorem Inv.index_ne_zero (inv : q.Inv) {e : Entry} (has : q.Has e) : e.index ≠ 0 := by
  have based : q.base ≠ 0 := by
    cases known : q.parent with
    | none =>
        rw [inv.orphan known]
        decide
    | some parent =>
        obtain ⟨rest, offsets, -⟩ := (inv.exact parent known).scanned.constants
        rw [inv.base parent known, Layout.size, offsets]
        simp
  cases has with
  | own place slot =>
      rw [Entry.index, place]
      dsimp only
      omega
  | @inherited parent known holds =>
      intro zero
      obtain ⟨t, p, constant, -⟩ := Layout.holds_iff.mp holds
      obtain ⟨rest, offsets, -⟩ := (inv.exact parent known).scanned.constants
      have first := constant.offset
      rw [zero, offsets] at first
      simp at first

end PoolBuilder

/-- The indices of an input denote what those of a pool do. -/
structure Input.Reads (i : Input) (q : PoolBuilder) : Prop where
  inv : q.Inv
  addressable : i.cursor.Addressable
  entry : ∀ e, q.Has e → ∃ e', i.pool.entry e.index = .ok e' ∧ e'.bare = e.bare

/-- An index that denotes a constant is taken for what denotes the same. -/
theorem Input.Reads.refer {i : Input} {q : PoolBuilder} (reads : i.Reads q)
    {want : Entry → Option α}
    {bare : α → γ} (blind : Entry.Blind want bare) {e : Entry} {a : α} (taken : want e = some a)
    {n : Nat} (denotes : q.Denotes n e.bare) : n < 65536 ∧ n ≠ 0 ∧
      ∃ a', (∀ offset, i.pool.refer want offset n = .ok a') ∧ bare a' = bare a := by
  obtain ⟨own, has, rfl, same⟩ := denotes
  obtain ⟨e', found, same'⟩ := reads.entry own has
  obtain ⟨a', taken', equal⟩ := blind (same'.trans same) taken
  exact ⟨reads.inv.index_lt has, reads.inv.index_ne_zero has, a',
    fun _ => Pool.refer_eq_ok_iff.mpr ⟨e', found, taken'⟩, equal⟩

namespace Attribute

/-- A reference that was written is read as what denotes the same. -/
theorem parses_readRef {i : Input} {q : PoolBuilder} (reads : i.Reads q) {want : Entry → Option α}
    {bare : α → γ} (blind : Entry.Blind want bare) {e : Entry} {a : α} (taken : want e = some a)
    {n : Nat} (denotes : q.Denotes n e.bare) :
    Scan.Parses i.cursor (readRef i want) (u2 n) fun a' => bare a' = bare a := by
  obtain ⟨small, -, a', referred, same⟩ := reads.refer blind taken denotes
  refine .pos fun p => ?_
  rw [← List.append_nil (u2 n)]
  refine (Scan.Parses.u2 small).bind fun m index => ?_
  subst index
  exact .ofExcept (referred p) same

/-- A reference that may be zero is parsed from the index of what it leads to. -/
theorem parses_readOptionalRef {i : Input} {q : PoolBuilder} (reads : i.Reads q)
    {want : Entry → Option α} {bare : α → γ} (blind : Entry.Blind want bare) {e : Entry} {a : α}
    (taken : want e = some a) {n : Nat} (denotes : q.Denotes n e.bare) :
    Scan.Parses i.cursor (readOptionalRef i want) (u2 n) fun a' => a'.map bare = some (bare a) := by
  obtain ⟨small, positive, a', referred, same⟩ := reads.refer blind taken denotes
  refine .pos fun p => ?_
  rw [← List.append_nil (u2 n)]
  refine (Scan.Parses.u2 small).bind fun m index => ?_
  subst index
  rw [if_neg positive]
  have given : Scan.Parses i.cursor (Scan.ofExcept (i.pool.refer want p m)) []
      fun a' => bare a' = bare a := .ofExcept (referred p) same
  exact given.map fun b same => by rw [Option.map_some, same]

/-- Zero stands for a reference that is left out. -/
theorem parses_readOptionalRef_none {i : Input} {want : Entry → Option α} {bare : α → γ} :
    Scan.Parses i.cursor (readOptionalRef i want) (u2 0) fun a' => a'.map bare = none := by
  refine .pos fun p => ?_
  rw [← List.append_nil (u2 0)]
  refine (Scan.Parses.u2 (n := 0) (by decide)).bind fun n zero => ?_
  rw [if_pos zero]
  exact .pure rfl

end Attribute

namespace Emit

variable {p : PoolBuilder} {options : Options}

/-- An attribute is refused because its body is too long. -/
def Refuses (s : Session σ) (act : Emit σ α) : Prop :=
  ∃ name n s', maxLength < n ∧
    act.run.run none s = ((.error (.misuse (.attributeLength name n)), none), s')

/-- From any later state of a pool, the action gives something that `post` is true of in each pool
that comes out of it, unless it refuses an attribute. -/
def Lays (p : PoolBuilder) (options : Options) (act : Emit σ α)
    (post : PoolBuilder → α → Prop) : Prop :=
  ∀ s : Session σ, p.Extends s.pool none → s.pool.Sound → s.options = options →
    Refuses s act ∨ ∃ a s', Writes s act a s' ∧ s.pool.Extends s'.pool none ∧ s'.pool.Sound ∧
      s'.options = options ∧ ∀ q, s'.pool.Becomes q → post q a

/-- What the action writes is parsed by all inputs that read a pool which comes out of it. -/
def Means (p : PoolBuilder) (options : Options) (act : Emit σ Bytes) (read : Input → Scan β)
    (post : β → Prop) : Prop :=
  Lays p options act fun q text => ∀ i : Input, i.Reads q → Scan.Parses i.cursor (read i) text post

/-- Where a step refuses an attribute, so does what it begins. -/
theorem Refuses.bind {s : Session σ} {x : Emit σ α} (refuses : Refuses s x) (f : α → Emit σ β) :
    Refuses s (x >>= f) := by
  obtain ⟨name, n, s', long, ran⟩ := refuses
  have opened : x none s = ((.error (.misuse (.attributeLength name n)), none), s') := ran
  refine ⟨name, n, s', long, ?_⟩
  change (ExceptT.bind x f) none s = _
  simp only [ExceptT.bind, ExceptT.mk, Bind.bind, StateT.bind, opened]
  rfl

/-- An action that is refused after another one was carried out. -/
theorem Refuses.after {s s' : Session σ} {x : Emit σ α} {f : α → Emit σ β} {a : α}
    (first : Writes s x a s') (refuses : Refuses s' (f a)) : Refuses s (x >>= f) := by
  obtain ⟨name, n, s'', long, ran⟩ := refuses
  have opened : x none s = ((.ok a, none), s') := first
  refine ⟨name, n, s'', long, ?_⟩
  change (ExceptT.bind x f) none s = _
  simp only [ExceptT.bind, ExceptT.mk, Bind.bind, StateT.bind, opened]
  exact ran

/-- Finishing what refuses an attribute gives the error about its length. -/
theorem Refuses.finish {s : Session σ} {act : Emit σ α} (refuses : Refuses s act) : ∃ name n s',
    maxLength < n ∧ Emit.finish act s = (.error (.misuse (.attributeLength name n)), s') := by
  obtain ⟨name, n, s', long, ran⟩ := refuses
  have opened : (act.run none) s = ((.error (.misuse (.attributeLength name n)), none), s') := ran
  refine ⟨name, n, s', long, ?_⟩
  rw [Emit.finish, bind_apply, opened]
  rfl

namespace Lays

variable {post : PoolBuilder → α → Prop} {post' : PoolBuilder → β → Prop}

/-- Nothing is written by an action that returns something. -/
theorem pure {a : α} (holds : ∀ q, p.Becomes q → post q a) :
    Lays p options (pure a : Emit σ α) post := fun s grown sound same =>
  .inr ⟨a, s, .pure a, .refl _, sound, same, fun q becomes => holds q (becomes.after grown)⟩

/-- What is true of a first result stays so while others are written. -/
theorem bind {x : Emit σ α} {f : α → Emit σ β} (first : Lays p options x post)
    (next : ∀ a, Lays p options (f a) fun q b => post q a → post' q b) :
    Lays p options (x >>= f) post' := by
  intro s grown sound same
  rcases first s grown sound same with refuses | ⟨a, s', writes, grown', sound', same', holds⟩
  · exact .inl (refuses.bind f)
  · rcases next a s' (grown.trans grown') sound' same' with
      refuses | ⟨b, s'', writes', grown'', sound'', same'', holds'⟩
    · exact .inl (refuses.after writes)
    · exact .inr ⟨b, s'', writes.bind writes', grown'.trans grown'', sound'', same'',
        fun q becomes => holds' q becomes (holds q (becomes.after grown''))⟩

/-- What is laid has everything that follows from it in later states of the pool. -/
theorem mono {x : Emit σ α} {weaker : PoolBuilder → α → Prop} (lays : Lays p options x post)
    (weaken : ∀ q a, p.Becomes q → post q a → weaker q a) : Lays p options x weaker := by
  intro s grown sound same
  rcases lays s grown sound same with refuses | ⟨a, s', writes, grown', sound', same', holds⟩
  · exact .inl refuses
  · exact .inr ⟨a, s', writes, grown', sound', same', fun q becomes =>
      weaken q a (becomes.after (grown.trans grown')) (holds q becomes)⟩

/-- What a request grants can be relied on in every pool that comes out, if it lasts. -/
theorem interning {act : Interning α}
    (grants : ∀ p', p.Extends p' none → PoolBuilder.Grants p' act none post)
    (lasts : ∀ {p' q a}, p'.Extends q none → post p' a → post q a) :
    Lays p options (interning act : Emit σ α) post := by
  intro s grown sound same
  obtain ⟨grown', sound', holds⟩ := grants s.pool grown sound
  refine .inr ⟨(act s.pool).1, { s with pool := (act s.pool).2 }, .interning rfl, grown', sound',
    same, fun q becomes => ?_⟩
  exact lasts becomes.grown (holds (becomes.grown.error becomes.fine))

/-- A check that passes is as if it were not there. -/
theorem guard {c : Prop} [Decidable c] {e : Error} {stops : β → Emit σ α} {rest : Emit σ α}
    (passes : ¬c) (lays : Lays p options rest post) :
    Lays p options (if c then throw e >>= stops else rest) post := by
  rwa [if_neg passes]

/-- A number that can be counted is written as two bytes. -/
theorem count {n : Nat} (short : n ≤ maxCount) :
    Lays p options (count n : Emit σ Bytes) fun _ text => text = u2 n := fun s _ sound same =>
  .inr ⟨u2 n, s, .count short, .refl _, sound, same, fun _ _ => rfl⟩

/-- A constant that the pool has or can copy is written as an index that denotes it. -/
theorem ref {e : Entry} (accepted : e.Accepted p) :
    Lays p options (ref (some e) : Emit σ Bytes) fun q text =>
      ∃ n : Nat, text = u2 n ∧ q.Denotes n e.bare :=
  (interning (fun _ grown => PoolBuilder.grants_indexOf (accepted.mono grown))
    fun grown denotes => denotes.mono grown).bind fun n => .pure fun _ _ denotes =>
      ⟨n, rfl, denotes⟩

/-- A reference to a text is the index of the text in the pool that comes out. -/
theorem refText {text : Text} (decodes : text.Decodes) :
    Lays p options (refText text : Emit σ Bytes) fun q bytes =>
      ∃ n : Nat, bytes = u2 n ∧ q.Denotes n (.utf8 ⟨default, text⟩) :=
  (interning (fun _ _ => PoolBuilder.grants_utf8 decodes)
    fun grown has => ⟨grown.has has.1, has.2⟩).bind fun u => .pure fun _ _ has =>
      ⟨u.place.index, rfl, _, has.1, rfl, congrArg Entry.utf8 (Utf8Entry.bare_eq_iff
        (b := ⟨default, text⟩).mpr has.2)⟩

/-- A body that is too long for its length is refused. -/
theorem sized {name : Text} {body : Bytes} :
    Lays p options (sized (fun n => .misuse (.attributeLength name n)) body : Emit σ Bytes)
      fun _ text => text = u4 body.length ++ body ∧ body.length ≤ maxLength := by
  intro s _ sound same
  by_cases long : maxLength < body.length
  · exact .inl ⟨name, body.length, s, long, by rw [Emit.sized, if_pos long]; rfl⟩
  · exact .inr ⟨_, s, .sized (Nat.not_lt.mp long), .refl _, sound, same,
      fun _ _ => ⟨rfl, Nat.not_lt.mp long⟩⟩

/-- Going on where nothing was noted writes nothing. -/
theorem settle {post : PoolBuilder → Unit → Prop} (holds : ∀ q, p.Becomes q → post q ()) :
    Lays p options (settle : Emit σ Unit) post := fun s grown sound same =>
  .inr ⟨(), s, .settle, .refl _, sound, same, fun q becomes => holds q (becomes.after grown)⟩

/-- An attribute has a header, with the index of its name and the length of its body. -/
theorem named {name : Text} (decodes : name.Decodes) {body : Emit σ Bytes}
    {post : PoolBuilder → Bytes → Prop} (lays : Lays p options body post) :
    Lays p options (named name body) fun q text => ∃ (n : Nat) (bytes : Bytes),
      text = u2 n ++ u4 bytes.length ++ bytes ∧ q.Denotes n (.utf8 ⟨default, name⟩) ∧
        bytes.length ≤ maxLength ∧ post q bytes := by
  have settled : Lays p options (Emit.settle : Emit σ Unit) fun _ _ => True :=
    settle fun _ _ => trivial
  refine (refText decodes).bind fun index => lays.bind fun bytes => sized.bind fun sized => ?_
  refine settled.bind fun _ => .pure ?_
  rintro q _ - ⟨rfl, short⟩ holds ⟨n, rfl, denotes⟩
  exact ⟨n, bytes, (List.append_assoc ..).symm, denotes, short, holds⟩

/-- Items that are written after some chunks are chunks of their own, behind those. -/
theorem eachOnto {write : γ → Emit σ Bytes} {items : List γ}
    {means : PoolBuilder → γ → Bytes → Prop}
    (lays : ∀ b ∈ items, Lays p options (write b) fun q chunk => means q b chunk)
    (done : List Bytes) :
    Lays p options (eachOnto write done items) fun q text => ∃ chunks,
      text = done.reverse.flatten ++ chunks.flatten ∧ List.Forall₂ (means q) items chunks := by
  induction items generalizing done with
  | nil => exact .pure fun _ _ => ⟨[], by simp, .nil⟩
  | cons b rest inductionHypothesis =>
      refine (lays b (List.mem_cons_self ..)).bind fun chunk => ?_
      refine (inductionHypothesis (fun b member => lays b (List.mem_cons_of_mem _ member))
        (chunk :: done)).mono fun q text _ ⟨chunks, same, others⟩ first => ?_
      exact ⟨chunk :: chunks, by simp [same], .cons first others⟩

/-- Items are written as chunks, each of which means its item. -/
theorem each {write : γ → Emit σ Bytes} {items : List γ} {means : PoolBuilder → γ → Bytes → Prop}
    (lays : ∀ b ∈ items, Lays p options (write b) fun q chunk => means q b chunk) :
    Lays p options (each write items) fun q text => ∃ chunks,
      text = chunks.flatten ∧ List.Forall₂ (means q) items chunks :=
  (eachOnto lays []).mono fun _ _ _ ⟨chunks, same, all⟩ => ⟨chunks, by simpa using same, all⟩

/-- The items of a table, of which none is repeated that must not be. -/
theorem itemsAfter {item : γ → Item σ} {cs : List γ} {means : PoolBuilder → γ → Bytes → Prop}
    (lays : ∀ b ∈ cs, Lays p options (item b).write fun q chunk => means q b chunk)
    (once : cs.Pairwise fun a b => (item b).repeatable = true ∨ (item a).name ≠ (item b).name)
    (seen : List Text) (fresh : ∀ b ∈ cs, (item b).repeatable = true ∨ (item b).name ∉ seen)
    (done : List Bytes) :
    Lays p options (itemsAfter seen done (cs.map fun b => some (item b))) fun q text => ∃ chunks,
      text = done.reverse.flatten ++ chunks.flatten ∧ List.Forall₂ (means q) cs chunks := by
  induction cs generalizing seen done with
  | nil =>
      refine (settle fun _ _ => trivial : Lays p options Emit.settle fun _ _ => True).bind fun _ =>
        ?_
      exact .pure fun _ _ _ => ⟨[], by simp, .nil⟩
  | cons b rest inductionHypothesis =>
      obtain ⟨apart, once⟩ := List.pairwise_cons.mp once
      have unseen : ¬(seen.contains (item b).name && !(item b).repeatable) = true := by
        rcases fresh b List.mem_cons_self with repeatable | absent
        · simp [repeatable]
        · simp [absent]
      refine guard unseen ?_
      refine (lays b List.mem_cons_self).bind fun chunk => ?_
      refine (inductionHypothesis (fun b member => lays b (List.mem_cons_of_mem _ member)) once
        ((item b).name :: seen) (fun c member => ?_) (chunk :: done)).mono
        fun q text _ ⟨chunks, same, others⟩ first => ?_
      · rcases apart c member with repeatable | other
        · exact .inl repeatable
        · refine (fresh c (List.mem_cons_of_mem _ member)).imp_right fun absent there => ?_
          exact (List.mem_cons.mp there).elim (fun same => other same.symm) absent
      · exact ⟨chunk :: chunks, by simp [same], .cons first others⟩

/-- A table of items. -/
theorem itemTable {item : γ → Item σ} {cs : List γ} {means : PoolBuilder → γ → Bytes → Prop}
    (few : cs.length ≤ maxCount)
    (lays : ∀ b ∈ cs, Lays p options (item b).write fun q chunk => means q b chunk)
    (once : cs.Pairwise fun a b => (item b).repeatable = true ∨ (item a).name ≠ (item b).name) :
    Lays p options (itemTable (cs.map fun b => some (item b))) fun q text => ∃ chunks,
      text = u2 cs.length ++ chunks.flatten ∧ List.Forall₂ (means q) cs chunks := by
  rw [Emit.itemTable, List.length_map]
  refine (count few).bind fun n => (itemsAfter lays once [] (fun _ _ => .inr List.not_mem_nil)
    []).bind fun text => .pure ?_
  rintro q _ ⟨chunks, rfl, all⟩ rfl
  exact ⟨chunks, rfl, all⟩

end Lays

namespace Means

variable {post : β → Prop}

/-- What nothing is written for is read from no bytes. -/
theorem pure_nil {read : Input → Scan β}
    (parses : ∀ i : Input, Scan.Parses i.cursor (read i) [] post) :
    Means p options (pure [] : Emit σ Bytes) read post := .pure fun _ _ i _ => parses i

/-- What is read last is only wrapped up. -/
theorem map {act : Emit σ Bytes} {read : Input → Scan β} {f : β → γ} {post' : γ → Prop}
    (means : Means p options act read post) (next : ∀ b, post b → post' (f b)) :
    Means p options act (fun i => do return f (← read i)) post' :=
  Lays.mono means fun _ _ _ parses i reads => (parses i reads).map next

/-- A reference that is there. -/
theorem required {want : Entry → Option α} {bare : α → γ} {make : α → Entry}
    (blind : Entry.Blind want bare) (takes : ∀ a, want (make a) = some a) {e : Option α}
    (present : e.isSome) (accepted : ∀ m ∈ Entry.optional (e.map make), m.Accepted p) :
    Means p options (ref (e.map make) : Emit σ Bytes) (Attribute.readRef · want)
      fun a => some (bare a) = e.map bare := by
  obtain ⟨a, rfl⟩ := Option.isSome_iff_exists.mp present
  refine (Lays.ref (accepted _ (List.mem_singleton_self _))).mono
    fun _ _ _ ⟨n, same, denotes⟩ i reads => ?_
  rw [same]
  exact (Attribute.parses_readRef reads blind (takes a) denotes).mono fun _ => congrArg some

/-- A reference that may be left out. -/
theorem optional {want : Entry → Option α} {bare : α → γ} {make : α → Entry}
    (blind : Entry.Blind want bare) (takes : ∀ a, want (make a) = some a) {e : Option α}
    (accepted : ∀ m ∈ Entry.optional (e.map make), m.Accepted p) :
    Means p options (optionalRef (e.map make) : Emit σ Bytes) (Attribute.readOptionalRef · want)
      fun a => a.map bare = e.map bare := by
  cases e with
  | none => exact .pure fun _ _ _ _ => Attribute.parses_readOptionalRef_none
  | some a =>
      refine (Lays.ref (accepted _ (List.mem_singleton_self _))).mono
        fun _ _ _ ⟨n, same, denotes⟩ i reads => ?_
      rw [same]
      exact Attribute.parses_readOptionalRef reads blind (takes a) denotes

/-- A text that is there is referred to by an index that is read as it. -/
theorem refUtf8 {e : Option Utf8Entry} (present : e.isSome)
    (accepted : ∀ m ∈ Utf8Entry.optional e, m.Accepted p) :
    Means p options (refUtf8 e : Emit σ Bytes) (Attribute.readRef · Entry.utf8?)
      fun a => some a.bare = e.map Utf8Entry.bare :=
  required Entry.blind_utf8? (fun _ => rfl) present accepted

/-- A class that is there is referred to by an index that is read as it. -/
theorem refClass {e : Option ClassEntry} (present : e.isSome)
    (accepted : ∀ m ∈ ClassEntry.optional e, m.Accepted p) :
    Means p options (refClass e : Emit σ Bytes) (Attribute.readRef · Entry.class?)
      fun a => some a.bare = e.map ClassEntry.bare :=
  required Entry.blind_class? (fun _ => rfl) present accepted

/-- A text, or none, is referred to by an index that is read as it, or as none. -/
theorem optionalUtf8 {e : Option Utf8Entry} (accepted : ∀ m ∈ Utf8Entry.optional e, m.Accepted p) :
    Means p options (optionalUtf8 e : Emit σ Bytes) (Attribute.readOptionalRef · Entry.utf8?)
      fun a => a.map Utf8Entry.bare = e.map Utf8Entry.bare :=
  optional Entry.blind_utf8? (fun _ => rfl) accepted

/-- A class, or none, is referred to by an index that is read as it, or as none. -/
theorem optionalClass {e : Option ClassEntry}
    (accepted : ∀ m ∈ ClassEntry.optional e, m.Accepted p) :
    Means p options (optionalClass e : Emit σ Bytes) (Attribute.readOptionalRef · Entry.class?)
      fun a => a.map ClassEntry.bare = e.map ClassEntry.bare :=
  optional Entry.blind_class? (fun _ => rfl) accepted

/-- A count and items are read as they were written. -/
theorem counted {write : γ → Emit σ Bytes} {read : Input → Scan β} {f : β → δ} {g : γ → δ}
    {items : List γ} (short : items.length ≤ maxCount)
    (means : ∀ b ∈ items, Means p options (write b) read fun b' => f b' = g b) :
    Means p options (counted write items) (fun i => Scan.counted (read i))
      fun bs => bs.map f = items.map g := by
  rw [maxCount] at short
  refine (Lays.count short).bind fun n => ?_
  refine (Lays.each means).bind fun chunk => .pure fun q _ ⟨chunks, same, all⟩ written i reads => ?_
  rw [written, same]
  exact .counted (by omega) (.times (all.imp fun _ _ parses => parses i reads))

/-- Items after a count of one byte. -/
theorem few {write : γ → Emit σ Bytes} {read : Input → Scan β} {f : β → δ} {g : γ → δ}
    {items : List γ} {post' : α → Prop} (wrap : List β → α) (short : items.length ≤ 255)
    (means : ∀ b ∈ items, Means p options (write b) read fun b' => f b' = g b)
    (next : ∀ bs, bs.map f = items.map g → post' (wrap bs)) :
    Means p options (do return u1 items.length ++ (← each write items)) (fun i => do
        let n ← Scan.u1
        return wrap (← Scan.times n (read i))) post' := by
  refine (Lays.each means).bind fun chunk => .pure fun q _ ⟨chunks, same, all⟩ i reads => ?_
  rw [same]
  refine (Scan.Parses.u1 (n := items.length) (by omega)).bind fun n same => ?_
  subst same
  exact (Scan.Parses.times (all.imp fun _ _ parses => parses i reads)).map next

/-- References with their count, all of which are there. -/
theorem refs {want : Entry → Option α} {bare : α → γ} {write : Option α → Emit σ Bytes}
    {es : List (Option α)} (short : es.length ≤ maxCount)
    (means : ∀ e ∈ es, Means p options (write e) (Attribute.readRef · want)
      fun a => some (bare a) = e.map bare) :
    Means p options (Emit.counted write es) (fun i => Attribute.readRefs i want)
      fun as => as.map (Option.map bare) = es.map (Option.map bare) :=
  counted short fun e member => Lays.mono (means e member) fun _ _ _ parses i reads =>
    (parses i reads).map fun _ same => same

end Means

end Emit

end JvmClass
