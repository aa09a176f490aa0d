import JvmClass.Proofs.Constant.Consing

/-!
# What a pool that starts from nothing answers

A pool that is asked for a constant, of parts that it has or that can be copied from other pools,
goes on by steps, errors or not, and answers with an entry that it has and that denotes what was
asked for.
-/

namespace JvmClass

section Genuine

variable (p : PoolBuilder)

/-- The pool has the constant, or it is another pool's and meets what copying it takes. -/
def Entry.HeldOr (e : Entry) (copied : Prop) : Prop :=
  p.Has e ∨ e.place.origin ≠ .output ∧ copied

/-! A constant that the pool or another one made. -/

def Utf8Entry.Genuine (e : Utf8Entry) : Prop := (Entry.utf8 e).HeldOr p True

def ClassEntry.Genuine (e : ClassEntry) : Prop := (Entry.loadable (.class e)).HeldOr p True

def NameAndTypeEntry.Genuine (e : NameAndTypeEntry) : Prop := (Entry.nameAndType e).HeldOr p True

def MemberEntry.Genuine (e : MemberEntry) : Prop :=
  (Entry.member e).HeldOr p (e.owner.Genuine p ∧ e.nameAndType.Genuine p)

def HandleEntry.Genuine (e : HandleEntry) : Prop :=
  (Entry.loadable (.handle e)).HeldOr p (e.target.Genuine p)

mutual

def Loadable.Genuine (e : Loadable) : Prop :=
  (Entry.loadable e).HeldOr p <|
    match e with
    | .integer _ n => signed 32 n = n
    | .float _ bits => bits < 4294967296
    | .long _ n => signed 64 n = n
    | .double _ bits => bits < 18446744073709551616
    | .class _ | .string _ _ | .methodType _ _ => True
    | .handle e => e.target.Genuine p
    | .dynamic _ row nt => row.Genuine ∧ nt.Genuine p

def BootstrapRow.Genuine : BootstrapRow → Prop
  | .mk place handle arguments =>
    p.HasRow (.mk place handle arguments) ∨
      place.origin ≠ .output ∧ handle.Genuine p ∧ Loadable.AllGenuine arguments

def Loadable.AllGenuine : List Loadable → Prop
  | [] => True
  | a :: rest => a.Genuine ∧ Loadable.AllGenuine rest

end

def Entry.Genuine (e : Entry) : Prop :=
  match e with
  | .utf8 e => e.Genuine p
  | .loadable e => e.Genuine p
  | .nameAndType e => e.Genuine p
  | .member e => e.Genuine p
  | .callSite c => e.HeldOr p (c.bootstrap.Genuine p ∧ c.nameAndType.Genuine p)
  | .module _ | .package _ => e.HeldOr p True

/-- What the pool has is genuine. -/
theorem PoolBuilder.Has.genuine {p : PoolBuilder} {e : Entry} (has : p.Has e) : e.Genuine p := by
  cases e with
  | loadable e =>
      rw [Entry.Genuine, Loadable.Genuine.eq_def]
      exact .inl has
  | _ => exact .inl has

end Genuine

section Later

variable {p q : PoolBuilder} (later : p.Later q)
include later

/-- What is held by a pool is held by every later one, and if less is asked of what is copied. -/
theorem Entry.HeldOr.mono {e : Entry} {copied copied' : Prop} (held : e.HeldOr p copied)
    (weaker : copied → copied') : e.HeldOr q copied' := by
  rcases held with has | ⟨foreign, parts⟩
  · exact .inl (later.has has)
  · exact .inr ⟨foreign, weaker parts⟩

/-- A text that is genuine stays so in every later pool. -/
theorem Utf8Entry.Genuine.mono {e : Utf8Entry} (genuine : e.Genuine p) : e.Genuine q :=
  Entry.HeldOr.mono later genuine id

/-- A class that is genuine stays so in every later pool. -/
theorem ClassEntry.Genuine.mono {e : ClassEntry} (genuine : e.Genuine p) : e.Genuine q :=
  Entry.HeldOr.mono later genuine id

/-- A name and type that is genuine stays so in every later pool. -/
theorem NameAndTypeEntry.Genuine.mono {e : NameAndTypeEntry} (genuine : e.Genuine p) :
    e.Genuine q := Entry.HeldOr.mono later genuine id

/-- A member that is genuine stays so in every later pool. -/
theorem MemberEntry.Genuine.mono {e : MemberEntry} (genuine : e.Genuine p) : e.Genuine q :=
  Entry.HeldOr.mono later genuine fun parts => ⟨parts.1.mono later, parts.2.mono later⟩

/-- A handle that is genuine stays so in every later pool. -/
theorem HandleEntry.Genuine.mono {e : HandleEntry} (genuine : e.Genuine p) : e.Genuine q :=
  Entry.HeldOr.mono later genuine fun target => target.mono later

end Later

section Later

variable {p q : PoolBuilder}

mutual

/-- A loadable constant that is genuine stays so in every later pool. -/
theorem Loadable.Genuine.mono (later : p.Later q) : ∀ e : Loadable, e.Genuine p → e.Genuine q
  | .integer _ _, genuine | .float _ _, genuine | .long _ _, genuine | .double _ _, genuine
  | .class _, genuine | .string _ _, genuine | .methodType _ _, genuine => by
    simp only [Loadable.Genuine] at genuine ⊢
    exact Entry.HeldOr.mono later genuine id
  | .handle _, genuine => by
    simp only [Loadable.Genuine] at genuine ⊢
    exact Entry.HeldOr.mono later genuine fun target => target.mono later
  | .dynamic _ row nt, genuine => by
    simp only [Loadable.Genuine] at genuine ⊢
    exact Entry.HeldOr.mono later genuine fun parts =>
      ⟨BootstrapRow.Genuine.mono later row parts.1, parts.2.mono later⟩

/-- A row that is genuine stays so in every later pool. -/
theorem BootstrapRow.Genuine.mono (later : p.Later q) :
    ∀ row : BootstrapRow, row.Genuine p → row.Genuine q
  | .mk place handle arguments, genuine => by
    rw [BootstrapRow.Genuine] at genuine ⊢
    rcases genuine with has | ⟨foreign, handled, argued⟩
    · exact .inl (later.hasRow has)
    · exact .inr ⟨foreign, handled.mono later, Loadable.AllGenuine.mono later arguments argued⟩

/-- Arguments that are genuine stay so in every later pool. -/
theorem Loadable.AllGenuine.mono (later : p.Later q) :
    ∀ as : List Loadable, Loadable.AllGenuine p as → Loadable.AllGenuine q as
  | [], _ => by
    rw [Loadable.AllGenuine]
    trivial
  | a :: rest, genuine => by
    rw [Loadable.AllGenuine] at genuine ⊢
    exact ⟨Loadable.Genuine.mono later a genuine.1, Loadable.AllGenuine.mono later rest genuine.2⟩

end

/-- A constant that is genuine stays so in every later pool. -/
theorem Entry.Genuine.mono (later : p.Later q) {e : Entry} (genuine : e.Genuine p) :
    e.Genuine q := by
  cases e with
  | utf8 e => exact Utf8Entry.Genuine.mono later genuine
  | loadable e => exact Loadable.Genuine.mono later e genuine
  | nameAndType e => exact NameAndTypeEntry.Genuine.mono later genuine
  | member e => exact MemberEntry.Genuine.mono later genuine
  | callSite e =>
      exact Entry.HeldOr.mono later genuine fun parts =>
        ⟨BootstrapRow.Genuine.mono later _ parts.1, parts.2.mono later⟩
  | module e => exact Entry.HeldOr.mono later genuine id
  | package e => exact Entry.HeldOr.mono later genuine id

end Later

namespace PoolBuilder

variable {α β : Type} {p q : PoolBuilder}

/-- From a pool in order an action goes on by steps, and has `post` of what it gives. -/
def Answers (p : PoolBuilder) (act : Interning α) (post : PoolBuilder → α → Prop) : Prop :=
  p.Consed → p.Steps (act p).2 ∧ post (act p).2 (act p).1

namespace Answers

variable {post : PoolBuilder → α → Prop}

/-- Giving something answers with it. -/
theorem pure {a : α} (holds : p.Consed → post p a) : Answers p (pure a) post :=
  fun consed => ⟨.refl, holds consed⟩

/-- Actions that answer one after another answer as the last of them does. -/
theorem bind {x : Interning α} {f : α → Interning β} {post' : PoolBuilder → β → Prop}
    (first : Answers p x post)
    (next : ∀ a q, p.Later q → post q a → Answers q (f a) post') :
    Answers p (x >>= f) post' := by
  intro consed
  obtain ⟨steps, holds⟩ := first consed
  obtain ⟨steps', holds'⟩ := next _ _ steps.later holds (consed.steps steps)
  exact ⟨steps.trans steps', holds'⟩

/-- An answer can be weakened to what follows from it. -/
theorem mono {x : Interning α} {post' : PoolBuilder → α → Prop} (first : Answers p x post)
    (weaker : ∀ a q, p.Later q → q.Consed → post q a → post' q a) : Answers p x post' := by
  intro consed
  obtain ⟨steps, holds⟩ := first consed
  exact ⟨steps, weaker _ _ steps.later (consed.steps steps) holds⟩

/-- Refusing leaves an error, so that nothing is promised of what is given. -/
theorem refuse (m : Misuse) : Answers p (fail (.misuse m)) fun q _ => q.error ≠ none :=
  fun _ => ⟨(Step.refuse m).steps, nofun⟩

/-- A refusal does not keep the answer back. -/
theorem guard {c : Prop} [Decidable c] {m : Misuse} {act : Interning α}
    (answers : ∀ q, p.Later q → (q.error = none → ¬c) → Answers q act post) :
    Answers p (do if c then fail (.misuse m)
                  act) post := by
  split
  · exact (refuse m).bind fun _ q later failed => answers q later fun fine => absurd fine failed
  · exact answers p (.refl p) fun _ => ‹_›

end Answers

/-- Indexing a pool without a parent only notes that it was done. -/
theorem answers_ensureIndexed : Answers p ensureIndexed fun q _ => q.indexed = true := by
  intro consed
  refine ⟨?_, indexed_ensureIndexed p⟩
  cases indexed : p.indexed with
  | true =>
      rw [ensureIndexed_done indexed]
      exact .refl
  | false =>
      rw [ensureIndexed_orphan indexed consed.orphan]
      exact Step.index.steps

/-- A constant is found or entered. -/
theorem answers_intern {key : ConstantKey} {make : Place → Entry}
    (placed : ∀ place, (make place).place = place) (keyed : ∀ place, (make place).key = key)
    (linked : ∀ place, (make place).Linked p.Has p.HasRow)
    (lawful : p.error = none → ∀ place, (make place).Lawful) :
    Answers p (intern key make) fun q place => q.Has (make place) := by
  intro consed
  obtain ⟨steps, indexed⟩ := answers_ensureIndexed consed
  obtain ⟨q, same⟩ : ∃ q, (ensureIndexed p).2 = q := ⟨_, rfl⟩
  rw [same] at steps indexed
  have later := steps.later
  have consed' := consed.steps steps
  have linked' (place : Place) : (make place).Linked q.Has q.HasRow :=
    (linked place).mono (fun _ => later.has) fun _ => later.hasRow
  cases known : q.places[key]? with
  | some place =>
      rw [intern_known (by rw [same, known]), same]
      refine ⟨steps, ?_⟩
      obtain ⟨e, has, placed', keyed'⟩ := consed'.places key place known
      rw [← consed'.told.eq_of_key (consed'.linked has) (linked' place) (by rw [keyed', keyed])
        (by rw [placed', placed])]
      exact has
  | none =>
      obtain ⟨e, made⟩ : ∃ e, make ⟨.output, q.size⟩ = e := ⟨_, rfl⟩
      obtain rfl : e.key = key := made ▸ keyed _
      have fresh : q.Fresh e := {
        indexed
        unknown := known
        place := made ▸ placed _
        linked := made ▸ linked' _
        lawful := fun clear => made ▸ lawful (later.fine clear) _ }
      have here : (q.withEntry e.key e).Has (make ⟨.output, q.size⟩) :=
        made ▸ has_withEntry q e.key fresh.place
      by_cases fits : q.size + e.key.tag.slots ≤ maxSize
      · rw [intern_fresh (by rw [same, known]) (by rw [same]; exact fits), same, made]
        exact ⟨steps.trans (Step.enter fresh fits).steps, here⟩
      · have full := Nat.not_le.mp fits
        rw [intern_full make (by rw [same, known]) (by rw [same]; exact full), same, made]
        exact ⟨steps.trans (Step.overflow fresh full).steps,
          (Later.withError _ _).has here⟩

/-- What the pool has is kept, and anything else copied. -/
theorem answers_adopt {e : Entry} {copied : Prop} (held : e.HeldOr p copied) {keep : α}
    {copy : Interning α} {post : PoolBuilder → α → Prop} (own : p.Has e → post p keep)
    (other : copied → Answers p copy post) :
    Answers p (do if (← get).owns e.place.origin then return keep else copy) post := by
  intro consed
  rw [bind_apply, get_apply]
  rcases held with has | ⟨foreign, parts⟩
  · obtain ⟨k, place, -⟩ := consed.slot has
    rw [if_pos (by rw [place]; rfl)]
    exact ⟨.refl, own has⟩
  · rw [if_neg (by simp [owns, foreign, consed.orphan])]
    exact other parts consed

/-- Asking for a text answers with one of the pool that is equal. -/
theorem answers_utf8 (text : Text) :
    Answers p (utf8 text) fun q u => q.Has (.utf8 u) ∧ u.text = text := by
  refine .guard fun q later short => ?_
  have entered : Answers q (intern (.text text) fun p => .utf8 ⟨p, text⟩)
      fun r place => r.Has (.utf8 ⟨place, text⟩) :=
    answers_intern (fun _ => rfl) (fun _ => rfl) (fun _ => trivial) fun fine _ =>
      Nat.not_lt.mp (short fine)
  exact entered.bind fun _ _ _ has => .pure fun _ => ⟨has, rfl⟩

/-- Adopting a text answers with one of the pool that denotes the same. -/
theorem answers_adoptUtf8 {e : Utf8Entry} (genuine : e.Genuine p) :
    Answers p (adoptUtf8 e) fun q u => q.Has (.utf8 u) ∧ u.bare = e.bare :=
  answers_adopt (e := .utf8 e) genuine (fun has => ⟨has, rfl⟩) fun _ =>
    (answers_utf8 e.text).mono fun _ _ _ _ has => ⟨has.1, Utf8Entry.bare_eq_iff.mpr has.2⟩

/-- A loadable constant that is made of what the pool has. -/
theorem answers_internLoadable (make : Place → Loadable)
    (placed : ∀ place, (make place).place = place)
    (keyed : ∀ place, (make place).key = (make default).key)
    (linked : ∀ place, (make place).Linked p.Has p.HasRow)
    (lawful : p.error = none → ∀ place, (Entry.loadable (make place)).Lawful) :
    Answers p (internLoadable make) fun q x => q.Has (.loadable x) ∧ ∃ place, x = make place := by
  have entered : Answers p (intern (make default).key fun p => .loadable (make p))
      fun q place => q.Has (.loadable (make place)) := answers_intern placed keyed linked lawful
  exact entered.bind fun place _ _ has => .pure fun _ => ⟨has, place, rfl⟩

/-- Asking for a number of 32 bits answers with a constant of the pool that denotes it. -/
theorem answers_integer {n : Int} (fits : signed 32 n = n) :
    Answers p (integer n) fun q x => q.Has (.loadable x) ∧ x.bare = .integer default n :=
  (answers_internLoadable (fun p => .integer p n) (fun _ => rfl) (fun _ => rfl) (fun _ => fits)
    fun _ _ => trivial).mono fun _ _ _ _ ⟨has, _, same⟩ => ⟨has, by rw [same, Loadable.bare]⟩

/-- Asking for a number of 64 bits answers with a constant of the pool that denotes it. -/
theorem answers_long {n : Int} (fits : signed 64 n = n) :
    Answers p (long n) fun q x => q.Has (.loadable x) ∧ x.bare = .long default n :=
  (answers_internLoadable (fun p => .long p n) (fun _ => rfl) (fun _ => rfl) (fun _ => fits)
    fun _ _ => trivial).mono fun _ _ _ _ ⟨has, _, same⟩ => ⟨has, by rw [same, Loadable.bare]⟩

/-- Asking for the bits of a float answers with a constant of the pool that denotes them. -/
theorem answers_float {bits : Nat} (fits : bits < 4294967296) :
    Answers p (float bits) fun q x => q.Has (.loadable x) ∧ x.bare = .float default bits :=
  (answers_internLoadable (fun p => .float p bits) (fun _ => rfl) (fun _ => rfl) (fun _ => fits)
    fun _ _ => trivial).mono fun _ _ _ _ ⟨has, _, same⟩ => ⟨has, by rw [same, Loadable.bare]⟩

/-- Asking for the bits of a double answers with a constant of the pool that denotes them. -/
theorem answers_double {bits : Nat} (fits : bits < 18446744073709551616) :
    Answers p (double bits) fun q x => q.Has (.loadable x) ∧ x.bare = .double default bits :=
  (answers_internLoadable (fun p => .double p bits) (fun _ => rfl) (fun _ => rfl) (fun _ => fits)
    fun _ _ => trivial).mono fun _ _ _ _ ⟨has, _, same⟩ => ⟨has, by rw [same, Loadable.bare]⟩

/-- Asking for a class by its name answers with one of the pool of this name. -/
theorem answers_classOf {name : Utf8Entry} (genuine : name.Genuine p) :
    Answers p (classOf name) fun q c =>
      q.Has (.loadable (.class c)) ∧ c.bare = ⟨default, name.bare⟩ := by
  refine (answers_adoptUtf8 genuine).bind fun name' q later named => ?_
  have entered : Answers q (intern (.single .class name'.place.index)
      fun p => .loadable (.class ⟨p, name'⟩)) fun r place =>
        r.Has (.loadable (.class ⟨place, name'⟩)) :=
    answers_intern (fun _ => rfl) (fun _ => rfl) (fun _ => named.1) fun _ _ => trivial
  exact entered.bind fun _ _ _ has => .pure fun _ => ⟨has, by rw [ClassEntry.bare, named.2]⟩

/-- Asking for a class by the text of its name answers with one of the pool of this name. -/
theorem answers_class (internalName : Text) :
    Answers p (class_ internalName) fun q c =>
      q.Has (.loadable (.class c)) ∧ c.internalName = internalName := by
  refine (answers_utf8 internalName).bind fun name q _ named => ?_
  refine (answers_classOf (.inl named.1)).mono fun c _ _ _ has => ⟨has.1, ?_⟩
  exact (congrArg (·.name.text) has.2).trans named.2

/-- Asking for the class of a descriptor answers with one of the pool of its internal name. -/
theorem answers_classFor {d : Descriptor} :
    Answers p (classFor d) fun q c =>
      q.Has (.loadable (.class c)) ∧ c.internalName = d.internalName?.getD [] :=
  .guard fun _ _ _ => answers_class _

/-- A class, copied by its name if need be. -/
theorem answers_adoptClass {e : ClassEntry} (genuine : e.Genuine p) :
    Answers p (adoptClass e) fun q c => q.Has (.loadable (.class c)) ∧ c.bare = e.bare :=
  answers_adopt (e := .loadable (.class e)) genuine (fun has => ⟨has, rfl⟩) fun _ =>
    (answers_class e.internalName).mono fun _ _ _ _ has =>
      ⟨has.1, ClassEntry.bare_eq_iff.mpr has.2⟩

/-- Asking for a string answers with one of the pool of this text. -/
theorem answers_string (text : Text) :
    Answers p (string text) fun q x =>
      q.Has (.loadable x) ∧ x.bare = .string default ⟨default, text⟩ := by
  refine (answers_utf8 text).bind fun u q _ named => ?_
  refine (answers_internLoadable (fun p => .string p u) (fun _ => rfl) (fun _ => rfl)
    (fun _ => named.1) fun _ _ => trivial).mono fun _ _ _ _ ⟨has, _, same⟩ => ⟨has, ?_⟩
  rw [same, Loadable.bare, Utf8Entry.bare, named.2]

/-- Asking for a method type answers with one of the pool of this descriptor. -/
theorem answers_methodType (descriptor : Text) :
    Answers p (methodType descriptor) fun q x =>
      q.Has (.loadable x) ∧ x.bare = .methodType default ⟨default, descriptor⟩ := by
  refine (answers_utf8 descriptor).bind fun u q _ named => ?_
  refine (answers_internLoadable (fun p => .methodType p u) (fun _ => rfl) (fun _ => rfl)
    (fun _ => named.1) fun _ _ => trivial).mono fun _ _ _ _ ⟨has, _, same⟩ => ⟨has, ?_⟩
  rw [same, Loadable.bare, Utf8Entry.bare, named.2]

/-- Asking for a name and type by their constants answers with one of the pool of both. -/
theorem answers_nameAndTypeOf {name type : Utf8Entry} (named : name.Genuine p)
    (typed : type.Genuine p) :
    Answers p (nameAndTypeOf name type) fun q nt =>
      q.Has (.nameAndType nt) ∧ nt.bare = ⟨default, name.bare, type.bare⟩ := by
  refine (answers_adoptUtf8 named).bind fun name' q later has => ?_
  refine (answers_adoptUtf8 (typed.mono later)).bind fun type' r later' has' => ?_
  have entered : Answers r (intern (.pair .nameAndType name'.place.index type'.place.index)
      fun place => .nameAndType ⟨place, name', type'⟩) fun s place =>
        s.Has (.nameAndType ⟨place, name', type'⟩) :=
    answers_intern (fun _ => rfl) (fun _ => rfl) (fun _ => ⟨later'.has has.1, has'.1⟩)
      fun _ _ => trivial
  refine entered.bind fun place s _ known => .pure fun _ => ⟨known, ?_⟩
  rw [NameAndTypeEntry.bare, has.2, has'.2]

/-- Asking for a name and type by their texts answers with one of the pool of both. -/
theorem answers_nameAndType (name type : Text) :
    Answers p (nameAndType name type) fun q nt => q.Has (.nameAndType nt) ∧
      nt.bare = ⟨default, ⟨default, name⟩, ⟨default, type⟩⟩ := by
  refine (answers_utf8 name).bind fun u q _ has => ?_
  refine (answers_utf8 type).bind fun v r later has' => ?_
  refine (answers_nameAndTypeOf (.inl (later.has has.1)) (.inl has'.1)).mono
    fun _ _ _ _ ⟨known, same⟩ => ⟨known, ?_⟩
  rw [same, Utf8Entry.bare, Utf8Entry.bare, has.2, has'.2]

/-- A name and descriptor, copied if need be. -/
theorem answers_adoptNameAndType {e : NameAndTypeEntry} (genuine : e.Genuine p) :
    Answers p (adoptNameAndType e) fun q nt => q.Has (.nameAndType nt) ∧ nt.bare = e.bare :=
  answers_adopt (e := .nameAndType e) genuine (fun has => ⟨has, rfl⟩) fun _ =>
    answers_nameAndType e.name.text e.type.text

/-- Asking for a member answers with one of the pool of this kind, owner, name and type. -/
theorem answers_memberOf {kind : MemberKind} {owner : ClassEntry} {nt : NameAndTypeEntry}
    (owned : owner.Genuine p) (named : nt.Genuine p) :
    Answers p (memberOf kind owner nt) fun q m =>
      q.Has (.member m) ∧ m.bare = ⟨default, kind, owner.bare, nt.bare⟩ := by
  refine (answers_adoptClass owned).bind fun owner' q later has => ?_
  refine (answers_adoptNameAndType (named.mono later)).bind fun nt' r later' has' => ?_
  have entered : Answers r (intern (.pair kind.tag owner'.place.index nt'.place.index)
      fun place => .member ⟨place, kind, owner', nt'⟩) fun s place =>
        s.Has (.member ⟨place, kind, owner', nt'⟩) :=
    answers_intern (fun _ => rfl) (fun _ => rfl) (fun _ => ⟨later'.has has.1, has'.1⟩)
      fun _ _ => trivial
  refine entered.bind fun place s _ known => .pure fun _ => ⟨known, ?_⟩
  rw [MemberEntry.bare, has.2, has'.2]

/-- Asking for a member by texts answers with one of the pool of this kind, owner, name and type. -/
theorem answers_member {kind : MemberKind} {owner : ClassEntry} (name type : Text)
    (owned : owner.Genuine p) :
    Answers p (member kind owner name type) fun q m => q.Has (.member m) ∧
      m.bare = ⟨default, kind, owner.bare, ⟨default, ⟨default, name⟩, ⟨default, type⟩⟩⟩ := by
  refine (answers_nameAndType name type).bind fun nt q later has => ?_
  refine (answers_memberOf (owned.mono later) (.inl has.1)).mono fun _ _ _ _ ⟨known, same⟩ =>
    ⟨known, ?_⟩
  rw [same, has.2]

/-- A reference to a member, copied if need be. -/
theorem answers_adoptMember {e : MemberEntry} (genuine : e.Genuine p) :
    Answers p (adoptMember e) fun q m => q.Has (.member m) ∧ m.bare = e.bare :=
  answers_adopt (e := .member e) genuine (fun has => ⟨has, rfl⟩) fun parts =>
    answers_memberOf parts.1 parts.2

/-- Asking for a handle answers with one of the pool of this kind and member. -/
theorem answers_handle {kind : HandleKind} {target : MemberEntry} (genuine : target.Genuine p) :
    Answers p (handle kind target) fun q h =>
      q.Has (.loadable (.handle h)) ∧ h.bare = ⟨default, kind, target.bare⟩ := by
  refine .guard fun q later accepts => ?_
  refine (answers_adoptMember (genuine.mono later)).bind fun target' r later' has => ?_
  have entered : Answers r (intern (.pair .methodHandle kind.byte.toNat target'.place.index)
      fun place => .loadable (.handle ⟨place, kind, target'⟩)) fun s place =>
        s.Has (.loadable (.handle ⟨place, kind, target'⟩)) := by
    refine answers_intern (fun _ => rfl) (fun _ => rfl) (fun _ => has.1) fun fine _ => ?_
    have sameTag : target'.tag = target.tag := congrArg (·.tag) has.2
    change kind.accepts target'.tag = true
    rw [sameTag]
    simpa using accepts (later'.fine fine)
  refine entered.bind fun place s _ known => .pure fun _ => ⟨known, ?_⟩
  rw [HandleEntry.bare, has.2]

/-- A handle, copied if need be. -/
theorem answers_adoptHandle {e : HandleEntry} (genuine : e.Genuine p) :
    Answers p (adoptHandle e) fun q h => q.Has (.loadable (.handle h)) ∧ h.bare = e.bare :=
  answers_adopt (e := .loadable (.handle e)) genuine (fun has => ⟨has, rfl⟩) answers_handle

/-- A row of constants that the pool has is found or linked. -/
theorem answers_internRow {handle : HandleEntry} {arguments : List Loadable}
    (indexed : p.indexed = true)
    (linked : (BootstrapRow.mk default handle arguments).Linked p.Has) :
    Answers p (internRow handle arguments) fun q row =>
      q.HasRow row ∧ row.handle = handle ∧ row.arguments = arguments := by
  intro consed
  have parts : (BootstrapRow.mk ⟨.output, p.rows.size⟩ handle arguments).Linked p.Has :=
    ⟨linked.handle, linked.arguments⟩
  cases known : p.rowOf[(BootstrapRow.mk ⟨.output, p.rows.size⟩ handle arguments).key]? with
  | some row =>
      rw [internRow_known known]
      obtain ⟨here, keyed⟩ := consed.rowOf _ row known
      exact ⟨.refl, .entered here,
        consed.told.row_eq_of_key (consed.rows _ row here).2 parts keyed⟩
  | none =>
      rw [internRow_fresh known]
      refine ⟨(Step.link ⟨indexed, known, rfl, parts⟩).steps, .entered ?_, rfl, rfl⟩
      exact Array.getElem?_push_size

/-- A constant that a row of the pool produces. -/
theorem answers_internDynamic {row : BootstrapRow} {nt : NameAndTypeEntry} (rowed : p.HasRow row)
    (named : nt.Genuine p) :
    Answers p (internDynamic row nt) fun q x =>
      q.Has (.loadable x) ∧ x.bare = .dynamic default row.bare nt.bare := by
  refine (answers_adoptNameAndType named).bind fun nt' q later has => ?_
  refine (answers_internLoadable (fun p => .dynamic p row nt') (fun _ => rfl) (fun _ => rfl)
    (fun _ => ⟨later.hasRow rowed, has.1⟩) fun _ _ => trivial).mono
      fun _ _ _ _ ⟨known, _, same⟩ => ⟨known, ?_⟩
  rw [same, Loadable.bare, has.2]

mutual

/-- A loadable constant, copied if need be. -/
theorem answers_adoptLoadable : ∀ (e : Loadable) {p : PoolBuilder}, e.Genuine p →
    Answers p (adoptLoadable e) fun q x => q.Has (.loadable x) ∧ x.bare = e.bare
  | .integer place n, p, genuine => by
    rw [adoptLoadable]
    rw [Loadable.Genuine] at genuine
    exact answers_adopt genuine (fun has => ⟨has, rfl⟩) answers_integer
  | .float place bits, p, genuine => by
    rw [adoptLoadable]
    rw [Loadable.Genuine] at genuine
    exact answers_adopt genuine (fun has => ⟨has, rfl⟩) answers_float
  | .long place n, p, genuine => by
    rw [adoptLoadable]
    rw [Loadable.Genuine] at genuine
    exact answers_adopt genuine (fun has => ⟨has, rfl⟩) answers_long
  | .double place bits, p, genuine => by
    rw [adoptLoadable]
    rw [Loadable.Genuine] at genuine
    exact answers_adopt genuine (fun has => ⟨has, rfl⟩) answers_double
  | .class c, p, genuine => by
    rw [adoptLoadable]
    rw [Loadable.Genuine] at genuine
    refine answers_adopt genuine (fun has => ⟨has, rfl⟩) fun _ => ?_
    exact (answers_class _).bind fun _ _ _ has => .pure fun _ =>
      ⟨has.1, congrArg Loadable.class (ClassEntry.bare_eq_iff.mpr has.2)⟩
  | .string place utf8, p, genuine => by
    rw [adoptLoadable]
    rw [Loadable.Genuine] at genuine
    exact answers_adopt genuine (fun has => ⟨has, rfl⟩) fun _ => answers_string _
  | .methodType place descriptor, p, genuine => by
    rw [adoptLoadable]
    rw [Loadable.Genuine] at genuine
    exact answers_adopt genuine (fun has => ⟨has, rfl⟩) fun _ => answers_methodType _
  | .handle h, p, genuine => by
    rw [adoptLoadable]
    rw [Loadable.Genuine] at genuine
    refine answers_adopt genuine (fun has => ⟨has, rfl⟩) fun target => ?_
    exact (answers_handle target).bind fun _ _ _ has => .pure fun _ =>
      ⟨has.1, congrArg Loadable.handle has.2⟩
  | .dynamic place row nt, p, genuine => by
    rw [adoptLoadable]
    rw [Loadable.Genuine] at genuine
    refine answers_adopt genuine (fun has => ⟨has, rfl⟩) fun parts => ?_
    refine (answers_adoptRow row parts.1).bind fun row' q later has => ?_
    refine (answers_internDynamic has.1 (parts.2.mono later)).mono fun _ _ _ _ ⟨known, same⟩ =>
      ⟨known, ?_⟩
    rw [same, has.2, Loadable.bare]

/-- A row, copied if need be. -/
theorem answers_adoptRow : ∀ (row : BootstrapRow) {p : PoolBuilder}, row.Genuine p →
    Answers p (adoptRow row) fun q row' => q.HasRow row' ∧ row'.bare = row.bare
  | .mk place handle arguments, p, genuine => by
    rw [adoptRow]
    refine answers_ensureIndexed.bind fun _ q later indexed => ?_
    have genuine' := BootstrapRow.Genuine.mono later _ genuine
    rw [BootstrapRow.Genuine] at genuine'
    intro consed
    rw [bind_apply, get_apply]
    rcases genuine' with has | ⟨foreign, handled, argued⟩
    · have owned : place = ⟨.output, _⟩ := (consed.rows _ _ (consed.rowed has)).1
      rw [if_pos (by rw [owned]; rfl)]
      exact ⟨.refl, has, rfl⟩
    · rw [if_neg (by simp [owns, foreign, consed.orphan])]
      have copies : Answers q (do
          let handle ← adoptHandle handle
          let arguments ← adoptArguments arguments
          internRow handle arguments) fun r row' =>
            r.HasRow row' ∧ row'.bare = (BootstrapRow.mk place handle arguments).bare := by
        refine (answers_adoptHandle handled).bind fun handle' r later' has => ?_
        refine (answers_adoptArguments arguments (Loadable.AllGenuine.mono later' _ argued)).bind
          fun arguments' t later'' all => ?_
        refine (answers_internRow (later''.indexed (later'.indexed indexed))
          ⟨later''.has has.1, all.1⟩).mono fun row' _ _ _ ⟨known, same, same'⟩ => ⟨known, ?_⟩
        rw [BootstrapRow.bare_eq, same, same', has.2, all.2, BootstrapRow.bare]
      exact copies consed

/-- Loadable constants, each copied if need be. -/
theorem answers_adoptArguments : ∀ (as : List Loadable) {p : PoolBuilder},
    Loadable.AllGenuine p as → Answers p (adoptArguments as) fun q bs =>
      (∀ b ∈ bs, q.Has (.loadable b)) ∧ Loadable.bareAll bs = Loadable.bareAll as
  | [], p, _ => by
    rw [adoptArguments]
    exact .pure fun _ => ⟨nofun, rfl⟩
  | a :: rest, p, genuine => by
    rw [adoptArguments]
    rw [Loadable.AllGenuine] at genuine
    refine (answers_adoptLoadable a genuine.1).bind fun b q later first => ?_
    refine (answers_adoptArguments rest (Loadable.AllGenuine.mono later rest genuine.2)).bind
      fun bs r later' others => .pure fun _ => ⟨fun b' member => ?_, ?_⟩
    · rcases List.mem_cons.mp member with rfl | member
      · exact later'.has first.1
      · exact others.1 b' member
    · rw [Loadable.bareAll, first.2, others.2, Loadable.bareAll]

end

/-- Asking for a row answers with one of the pool of this handle and these arguments. -/
theorem answers_bootstrap {handle : HandleEntry} {arguments : List Loadable}
    (handled : handle.Genuine p) (argued : Loadable.AllGenuine p arguments) :
    Answers p (bootstrap handle arguments) fun q row =>
      q.HasRow row ∧ row.bare = .mk default handle.bare (Loadable.bareAll arguments) := by
  refine answers_ensureIndexed.bind fun _ q later indexed => ?_
  refine (answers_adoptHandle (handled.mono later)).bind fun handle' r later' has => ?_
  refine (answers_adoptArguments arguments
    (Loadable.AllGenuine.mono (later.trans later') _ argued)).bind
    fun arguments' t later'' all => ?_
  refine (answers_internRow (later''.indexed (later'.indexed indexed))
    ⟨later''.has has.1, all.1⟩).mono fun row' _ _ _ ⟨known, same, same'⟩ => ⟨known, ?_⟩
  rw [BootstrapRow.bare_eq, same, same', has.2, all.2]

/-- Asking for a dynamic constant answers with one of the pool of this row, name and type. -/
theorem answers_dynamic {row : BootstrapRow} {nt : NameAndTypeEntry} (rowed : row.Genuine p)
    (named : nt.Genuine p) :
    Answers p (dynamic row nt) fun q x =>
      q.Has (.loadable x) ∧ x.bare = .dynamic default row.bare nt.bare := by
  refine (answers_adoptRow row rowed).bind fun row' q later has => ?_
  refine (answers_internDynamic has.1 (named.mono later)).mono fun _ _ _ _ ⟨known, same⟩ =>
    ⟨known, ?_⟩
  rw [same, has.2]

/-- Asking for a call site answers with one of the pool of this row, name and type. -/
theorem answers_callSite {row : BootstrapRow} {nt : NameAndTypeEntry} (rowed : row.Genuine p)
    (named : nt.Genuine p) :
    Answers p (callSite row nt) fun q c =>
      q.Has (.callSite c) ∧ c.bare = ⟨default, row.bare, nt.bare⟩ := by
  refine (answers_adoptRow row rowed).bind fun row' q later has => ?_
  refine (answers_adoptNameAndType (named.mono later)).bind fun nt' r later' has' => ?_
  have entered : Answers r (intern (.pair .invokeDynamic row'.index nt'.place.index)
      fun place => .callSite ⟨place, row', nt'⟩) fun s place =>
        s.Has (.callSite ⟨place, row', nt'⟩) :=
    answers_intern (fun _ => rfl) (fun _ => rfl) (fun _ => ⟨later'.hasRow has.1, has'.1⟩)
      fun _ _ => trivial
  refine entered.bind fun place s _ known => .pure fun _ => ⟨known, ?_⟩
  rw [CallSiteEntry.bare, has.2, has'.2]

/-- Asking for a module answers with one of the pool of this name. -/
theorem answers_module (name : Text) :
    Answers p (module name) fun q m => q.Has (.module m) ∧ m.bare = ⟨default, ⟨default, name⟩⟩ := by
  refine (answers_utf8 name).bind fun u q _ has => ?_
  have entered : Answers q (intern (.single .module u.place.index) fun p => .module ⟨p, u⟩)
      fun r place => r.Has (.module ⟨place, u⟩) :=
    answers_intern (fun _ => rfl) (fun _ => rfl) (fun _ => has.1) fun _ _ => trivial
  refine entered.bind fun _ _ _ known => .pure fun _ => ⟨known, ?_⟩
  rw [ModuleEntry.bare, Utf8Entry.bare, has.2]

/-- Asking for a package answers with one of the pool of this name. -/
theorem answers_package (name : Text) :
    Answers p (package name) fun q m => q.Has (.package m) ∧
      m.bare = ⟨default, ⟨default, name⟩⟩ := by
  refine (answers_utf8 name).bind fun u q _ has => ?_
  have entered : Answers q (intern (.single .package u.place.index) fun p => .package ⟨p, u⟩)
      fun r place => r.Has (.package ⟨place, u⟩) :=
    answers_intern (fun _ => rfl) (fun _ => rfl) (fun _ => has.1) fun _ _ => trivial
  refine entered.bind fun _ _ _ known => .pure fun _ => ⟨known, ?_⟩
  rw [PackageEntry.bare, Utf8Entry.bare, has.2]

/-- An index of the pool stands for an entry that denotes what `bare` does. -/
theorem answers_indexOf {e : Entry} (genuine : e.Genuine p) :
    Answers p (indexOf e) fun q i => q.Denotes i e.bare := by
  cases e with
  | utf8 u =>
      refine answers_adopt genuine (fun has => ⟨_, has, rfl, rfl⟩) fun _ => ?_
      exact (answers_utf8 u.text).bind fun _ _ _ has => .pure fun _ =>
        ⟨_, has.1, rfl, congrArg Entry.utf8 (Utf8Entry.bare_eq_iff.mpr has.2)⟩
  | loadable a =>
      have adopts := answers_adoptLoadable a genuine
      rw [Entry.Genuine, Loadable.Genuine.eq_def] at genuine
      refine answers_adopt genuine (fun has => ⟨_, has, rfl, rfl⟩) fun _ => ?_
      exact adopts.bind fun _ _ _ has => .pure fun _ =>
        ⟨_, has.1, rfl, congrArg Entry.loadable has.2⟩
  | nameAndType nt =>
      refine answers_adopt genuine (fun has => ⟨_, has, rfl, rfl⟩) fun _ => ?_
      exact (answers_nameAndType nt.name.text nt.type.text).bind fun _ _ _ has => .pure fun _ =>
        ⟨_, has.1, rfl, congrArg Entry.nameAndType has.2⟩
  | member m =>
      refine answers_adopt genuine (fun has => ⟨_, has, rfl, rfl⟩) fun parts => ?_
      exact (answers_memberOf parts.1 parts.2).bind fun _ _ _ has => .pure fun _ =>
        ⟨_, has.1, rfl, congrArg Entry.member has.2⟩
  | callSite c =>
      refine answers_adopt genuine (fun has => ⟨_, has, rfl, rfl⟩) fun parts => ?_
      exact (answers_callSite parts.1 parts.2).bind fun _ _ _ has => .pure fun _ =>
        ⟨_, has.1, rfl, congrArg Entry.callSite has.2⟩
  | module m =>
      refine answers_adopt genuine (fun has => ⟨_, has, rfl, rfl⟩) fun _ => ?_
      exact (answers_module m.name.text).bind fun _ _ _ has => .pure fun _ =>
        ⟨_, has.1, rfl, congrArg Entry.module has.2⟩
  | package m =>
      refine answers_adopt genuine (fun has => ⟨_, has, rfl, rfl⟩) fun _ => ?_
      exact (answers_package m.name.text).bind fun _ _ _ has => .pure fun _ =>
        ⟨_, has.1, rfl, congrArg Entry.package has.2⟩

end PoolBuilder

end JvmClass
