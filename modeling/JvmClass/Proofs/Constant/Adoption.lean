import JvmClass.Proofs.Constant.Bare
import JvmClass.Proofs.Constant.Interning

/-!
# What a pool makes of foreign constants

A pool takes its own constants as they are and copies others, part by part. Either way the outcome
stands in the pool and denotes what was asked for.
-/

namespace JvmClass

/-- A text that is read back from what it is stored as. -/
def Text.Decodes (text : Text) : Prop := ModifiedUtf8.decode? (ModifiedUtf8.encode text) = some text

section Accepted

variable (p : PoolBuilder)

/-- A constant of the pool's own stands in it, unless an error has been met; of another, its
parts can be copied. -/
def Entry.Known (e : Entry) (foreign : Prop) : Prop :=
  if p.owns e.place.origin = true then p.error = none → p.Has e else foreign

/-! A constant that a pool can refer to or copy. -/

def Utf8Entry.Accepted (e : Utf8Entry) : Prop := (Entry.utf8 e).Known p e.text.Decodes

def ClassEntry.Accepted (e : ClassEntry) : Prop :=
  (Entry.loadable (.class e)).Known p e.internalName.Decodes

def NameAndTypeEntry.Accepted (e : NameAndTypeEntry) : Prop :=
  (Entry.nameAndType e).Known p (e.name.text.Decodes ∧ e.type.text.Decodes)

def MemberEntry.Accepted (e : MemberEntry) : Prop :=
  (Entry.member e).Known p (e.owner.Accepted p ∧ e.nameAndType.Accepted p)

def HandleEntry.Accepted (e : HandleEntry) : Prop :=
  (Entry.loadable (.handle e)).Known p (e.target.Accepted p)

mutual

def Loadable.Accepted (e : Loadable) : Prop :=
  (Entry.loadable e).Known p <|
    match e with
    | .integer _ n => signed 32 n = n
    | .float _ bits => bits < 4294967296
    | .long _ n => signed 64 n = n
    | .double _ bits => bits < 18446744073709551616
    | .class e => e.internalName.Decodes
    | .string _ utf8 => utf8.text.Decodes
    | .methodType _ descriptor => descriptor.text.Decodes
    | .handle e => e.target.Accepted p
    | .dynamic _ row nt => row.Accepted ∧ nt.Accepted p

def BootstrapRow.Accepted : BootstrapRow → Prop
  | .mk place handle arguments =>
    if p.owns place.origin = true then p.error = none → p.HasRow (.mk place handle arguments)
    else handle.Accepted p ∧ arguments.length ≤ 65535 ∧ Loadable.AllAccepted arguments

def Loadable.AllAccepted : List Loadable → Prop
  | [] => True
  | a :: rest => a.Accepted ∧ Loadable.AllAccepted rest

end

def Entry.Accepted (e : Entry) : Prop :=
  match e with
  | .utf8 e => e.Accepted p
  | .loadable e => e.Accepted p
  | .nameAndType e => e.Accepted p
  | .member e => e.Accepted p
  | .callSite c => e.Known p (c.bootstrap.Accepted p ∧ c.nameAndType.Accepted p)
  | .module m => e.Known p m.name.text.Decodes
  | .package m => e.Known p m.name.text.Decodes

end Accepted

section Mono

variable {p p' : PoolBuilder} {pending : Option Nat} (grown : p.Extends p' pending)
include grown

/-- What is known of a constant stays known in a later pool, and if less is asked of foreign
ones. -/
theorem Entry.Known.mono {e : Entry} {foreign foreign' : Prop} (known : e.Known p foreign)
    (weaker : foreign → foreign') : e.Known p' foreign' := by
  rw [Known, grown.owns]
  rw [Known] at known
  split
  · rename_i own
    rw [if_pos own] at known
    exact fun fine => grown.has (known (grown.error fine))
  · rename_i own
    rw [if_neg own] at known
    exact weaker known

/-- A name and type that a pool accepts is accepted by every later one. -/
theorem NameAndTypeEntry.Accepted.mono {e : NameAndTypeEntry} (accepted : e.Accepted p) :
    e.Accepted p' := Entry.Known.mono grown accepted id

/-- A class that a pool accepts is accepted by every later one. -/
theorem ClassEntry.Accepted.mono {e : ClassEntry} (accepted : e.Accepted p) : e.Accepted p' :=
  Entry.Known.mono grown accepted id

/-- A member that a pool accepts is accepted by every later one. -/
theorem MemberEntry.Accepted.mono {e : MemberEntry} (accepted : e.Accepted p) : e.Accepted p' :=
  Entry.Known.mono grown accepted fun parts => ⟨parts.1.mono grown, parts.2.mono grown⟩

/-- A handle that a pool accepts is accepted by every later one. -/
theorem HandleEntry.Accepted.mono {e : HandleEntry} (accepted : e.Accepted p) : e.Accepted p' :=
  Entry.Known.mono grown accepted fun target => target.mono grown

end Mono

section Mono

variable {p p' : PoolBuilder} {pending : Option Nat}

mutual

/-- A loadable constant that a pool accepts is accepted by every later one. -/
theorem Loadable.Accepted.mono (grown : p.Extends p' pending) :
    ∀ e : Loadable, e.Accepted p → e.Accepted p'
  | .integer _ _, accepted | .float _ _, accepted | .long _ _, accepted | .double _ _, accepted
  | .class _, accepted | .string _ _, accepted | .methodType _ _, accepted => by
    simp only [Loadable.Accepted] at accepted ⊢
    exact Entry.Known.mono grown accepted id
  | .handle _, accepted => by
    simp only [Loadable.Accepted] at accepted ⊢
    exact Entry.Known.mono grown accepted fun target => target.mono grown
  | .dynamic _ row nt, accepted => by
    simp only [Loadable.Accepted] at accepted ⊢
    exact Entry.Known.mono grown accepted fun parts =>
      ⟨BootstrapRow.Accepted.mono grown row parts.1, parts.2.mono grown⟩

/-- A row that a pool accepts is accepted by every later one. -/
theorem BootstrapRow.Accepted.mono (grown : p.Extends p' pending) :
    ∀ row : BootstrapRow, row.Accepted p → row.Accepted p'
  | .mk place handle arguments, accepted => by
    rw [BootstrapRow.Accepted, grown.owns]
    rw [BootstrapRow.Accepted] at accepted
    split
    · rename_i own
      rw [if_pos own] at accepted
      exact fun fine => grown.hasRow (accepted (grown.error fine))
    · rename_i own
      rw [if_neg own] at accepted
      exact ⟨accepted.1.mono grown, accepted.2.1,
        Loadable.AllAccepted.mono grown arguments accepted.2.2⟩

/-- Arguments that a pool accepts are accepted by every later one. -/
theorem Loadable.AllAccepted.mono (grown : p.Extends p' pending) :
    ∀ as : List Loadable, Loadable.AllAccepted p as → Loadable.AllAccepted p' as
  | [], _ => by rw [Loadable.AllAccepted]; trivial
  | a :: rest, accepted => by
    rw [Loadable.AllAccepted] at accepted ⊢
    exact ⟨Loadable.Accepted.mono grown a accepted.1,
      Loadable.AllAccepted.mono grown rest accepted.2⟩

end

/-- A constant that a pool accepts is accepted by every later one. -/
theorem Entry.Accepted.mono (grown : p.Extends p' pending) {e : Entry}
    (accepted : e.Accepted p) : e.Accepted p' := by
  cases e with
  | utf8 e => exact Entry.Known.mono grown accepted id
  | loadable e => exact Loadable.Accepted.mono grown e accepted
  | nameAndType e => exact NameAndTypeEntry.Accepted.mono grown accepted
  | member e => exact MemberEntry.Accepted.mono grown accepted
  | callSite e =>
      exact Entry.Known.mono grown accepted fun parts =>
        ⟨BootstrapRow.Accepted.mono grown _ parts.1, parts.2.mono grown⟩
  | module e => exact Entry.Known.mono grown accepted id
  | package e => exact Entry.Known.mono grown accepted id

end Mono

namespace PoolBuilder

variable {α : Type} {p p' : PoolBuilder}

/-- What a pool owns is kept, and anything else copied. -/
theorem grants_adopt {e : Entry} {foreign : Prop} (known : e.Known p foreign) {keep : α}
    {copy : Interning α} {post : PoolBuilder → α → Prop} (own : p.Has e → post p keep)
    (other : foreign → Grants p copy none post) :
    Grants p (do if (← get).owns e.place.origin then return keep else copy) none post := by
  intro sound
  rw [Entry.Known] at known
  rw [bind_apply, get_apply]
  split
  · rename_i owned
    rw [if_pos owned] at known
    exact ⟨.refl p, sound, fun fine => own (known fine)⟩
  · rename_i foreign
    rw [if_neg foreign] at known
    exact other known sound

/-- Asking for a text that is read back gives a constant of the pool with that text. -/
theorem grants_utf8 {text : Text} (decodes : text.Decodes) :
    Grants p (utf8 text) none fun p' u => p'.Has (.utf8 u) ∧ u.text = text := by
  have interned (q : PoolBuilder)
      (short : q.error = none → (ModifiedUtf8.encode text).length ≤ maxTextLength) :
      Grants q (do return ⟨← intern (.text text) fun p => .utf8 ⟨p, text⟩, text⟩) none
        fun p' (u : Utf8Entry) => p'.Has (.utf8 u) ∧ u.text = text := by
    have entered : Grants q (intern (.text text) fun p => .utf8 ⟨p, text⟩) none
        fun p' place => p'.Has (.utf8 ⟨place, text⟩) :=
      grants_intern (fun _ => rfl) (fun _ => rfl) fun fine _ =>
        Text.Storable.mk decodes (short fine)
    exact entered.bind fun _ _ _ has => .pure fun fine => ⟨has fine, rfl⟩
  rw [utf8]
  split
  · exact (show Grants p (fail _) none fun _ _ => False from .fail).bind fun _ q _ no =>
      interned q fun fine => (no fine).elim
  · rename_i short
    exact interned p fun _ => Nat.not_lt.mp short

/-- Adopting a text gives a constant of the pool that denotes the same. -/
theorem grants_adoptUtf8 {e : Utf8Entry} (accepted : e.Accepted p) :
    Grants p (adoptUtf8 e) none fun p' u => p'.Has (.utf8 u) ∧ u.bare = e.bare := by
  exact grants_adopt (e := .utf8 e) accepted (fun has => ⟨has, rfl⟩) fun decodes =>
    (grants_utf8 decodes).mono fun _ _ _ _ has => ⟨has.1, Utf8Entry.bare_eq_iff.mpr has.2⟩

/-- A loadable constant that is made of what the pool has. -/
theorem grants_internLoadable (make : Place → Loadable)
    (placed : ∀ place, (make place).place = place)
    (keyed : ∀ place, (make place).key = (make default).key)
    (made : p.error = none → ∀ place, (make place).Made p.Has p.HasRow) :
    Grants p (internLoadable make) none fun p' x => p'.Has (.loadable x) ∧
      ∃ place, x = make place := by
  have entered : Grants p (intern (make default).key fun p => .loadable (make p)) none
      fun p' place => p'.Has (.loadable (make place)) := grants_intern placed keyed made
  exact entered.bind fun place _ _ has => .pure fun fine => ⟨has fine, place, rfl⟩

/-- Asking for a number of 32 bits gives a constant of the pool with that number. -/
theorem grants_integer {n : Int} (fits : signed 32 n = n) :
    Grants p (integer n) none fun p' x => p'.Has (.loadable x) ∧ x.bare = .integer default n :=
  (grants_internLoadable (fun p => .integer p n) (fun _ => rfl) (fun _ => rfl) fun _ _ => fits).mono
    fun _ _ _ _ ⟨has, _, same⟩ => ⟨has, by rw [same, Loadable.bare]⟩

/-- Asking for a number of 64 bits gives a constant of the pool with that number. -/
theorem grants_long {n : Int} (fits : signed 64 n = n) :
    Grants p (long n) none fun p' x => p'.Has (.loadable x) ∧ x.bare = .long default n :=
  (grants_internLoadable (fun p => .long p n) (fun _ => rfl) (fun _ => rfl) fun _ _ => fits).mono
    fun _ _ _ _ ⟨has, _, same⟩ => ⟨has, by rw [same, Loadable.bare]⟩

/-- Asking for the bits of a float gives a constant of the pool with them. -/
theorem grants_float {bits : Nat} (fits : bits < 4294967296) :
    Grants p (float bits) none fun p' x => p'.Has (.loadable x) ∧ x.bare = .float default bits :=
  (grants_internLoadable (fun p => .float p bits) (fun _ => rfl) (fun _ => rfl) fun _ _ =>
    fits).mono
    fun _ _ _ _ ⟨has, _, same⟩ => ⟨has, by rw [same, Loadable.bare]⟩

/-- Asking for the bits of a double gives a constant of the pool with them. -/
theorem grants_double {bits : Nat} (fits : bits < 18446744073709551616) :
    Grants p (double bits) none fun p' x => p'.Has (.loadable x) ∧ x.bare = .double default bits :=
  (grants_internLoadable (fun p => .double p bits) (fun _ => rfl) (fun _ => rfl) fun _ _ =>
    fits).mono
    fun _ _ _ _ ⟨has, _, same⟩ => ⟨has, by rw [same, Loadable.bare]⟩

/-- The class of a text that the pool has. -/
theorem grants_internClass {name : Utf8Entry} (has : p.error = none → p.Has (.utf8 name)) :
    Grants p (do
      let place ← intern (.single .class name.place.index) fun p => .loadable (.class ⟨p, name⟩)
      return ⟨place, name⟩) none
      fun p' (c : ClassEntry) => p'.Has (.loadable (.class c)) ∧ c.internalName = name.text := by
  have entered : Grants p (intern (.single .class name.place.index)
      fun p => .loadable (.class ⟨p, name⟩)) none
      fun p' place => p'.Has (.loadable (.class ⟨place, name⟩)) :=
    grants_intern (fun _ => rfl) (fun _ => rfl) fun fine _ => has fine
  exact entered.bind fun _ _ _ has => .pure fun fine => ⟨has fine, rfl⟩

/-- The constant for a text has that text in every pool, after an error too. -/
theorem text_utf8 (text : Text) (p : PoolBuilder) : (utf8 text p).1.text = text := by
  rw [utf8]
  split <;> rfl

/-- What a pool was found to have can be given back to it. -/
theorem known_of_has {e : Entry} {foreign : Prop} (has : p.error = none → p.Has e)
    (otherwise : foreign) : e.Known p foreign := by
  rw [Entry.Known]
  split
  · exact has
  · exact otherwise

/-- Asking for a class by its name gives one of the pool with this name. -/
theorem grants_classOf {name : Utf8Entry} (accepted : name.Accepted p) :
    Grants p (classOf name) none
      fun p' c => p'.Has (.loadable (.class c)) ∧ c.internalName = name.text :=
  (grants_adoptUtf8 accepted).bind fun _ _ _ named =>
    (grants_internClass fun fine => (named fine).1).mono fun _ _ grown fine has =>
      ⟨has.1, has.2.trans (Utf8Entry.bare_eq_iff.mp (named (grown.error fine)).2)⟩

/-- Asking for a class by the text of its name gives one of the pool with this name. -/
theorem grants_class {internalName : Text} (decodes : internalName.Decodes) :
    Grants p (class_ internalName) none
      fun p' c => p'.Has (.loadable (.class c)) ∧ c.internalName = internalName := by
  exact (grants_utf8 decodes).bind_run fun name q run _ named => by
    have spelled : name.text = internalName := by rw [← text_utf8 internalName p, run]
    have accepted : name.Accepted q :=
      known_of_has (fun fine => (named fine).1) (spelled ▸ decodes)
    exact (grants_classOf accepted).mono fun _ _ _ _ has => ⟨has.1, has.2.trans spelled⟩

/-- A class, copied by its name if need be. -/
theorem grants_adoptClass {e : ClassEntry} (accepted : e.Accepted p) :
    Grants p (adoptClass e) none fun p' c => p'.Has (.loadable (.class c)) ∧ c.bare = e.bare :=
  grants_adopt (e := .loadable (.class e)) accepted (fun has => ⟨has, rfl⟩) fun decodes =>
    (grants_class decodes).mono fun _ _ _ _ has => ⟨has.1, ClassEntry.bare_eq_iff.mpr has.2⟩

/-- Asking for a string gives a constant of the pool with its text. -/
theorem grants_string {text : Text} (decodes : text.Decodes) :
    Grants p (string text) none fun p' x => p'.Has (.loadable x) ∧
      x.bare = .string default ⟨default, text⟩ :=
  (grants_utf8 decodes).bind fun u _ _ has =>
    (grants_internLoadable (fun p => .string p u) (fun _ => rfl) (fun _ => rfl)
      fun fine _ => (has fine).1).mono fun _ _ grown fine ⟨has', _, same⟩ =>
        ⟨has', by rw [same, Loadable.bare, Utf8Entry.bare, (has (grown.error fine)).2]⟩

/-- Asking for a method type gives a constant of the pool with its descriptor. -/
theorem grants_methodType {text : Text} (decodes : text.Decodes) :
    Grants p (methodType text) none fun p' x => p'.Has (.loadable x) ∧
      x.bare = .methodType default ⟨default, text⟩ :=
  (grants_utf8 decodes).bind fun u _ _ has =>
    (grants_internLoadable (fun p => .methodType p u) (fun _ => rfl) (fun _ => rfl)
      fun fine _ => (has fine).1).mono fun _ _ grown fine ⟨has', _, same⟩ =>
        ⟨has', by rw [same, Loadable.bare, Utf8Entry.bare, (has (grown.error fine)).2]⟩

/-- A name and descriptor, of texts that the pool can refer to or copy. -/
theorem grants_nameAndTypeOf {name type : Utf8Entry} (named : name.Accepted p)
    (typed : type.Accepted p) :
    Grants p (nameAndTypeOf name type) none fun p' nt => p'.Has (.nameAndType nt) ∧
      nt.bare = ⟨default, name.bare, type.bare⟩ := by
  refine (grants_adoptUtf8 named).bind fun name' q grown has => ?_
  refine (grants_adoptUtf8 (Entry.Known.mono grown typed id)).bind fun type' r grown' has' => ?_
  have made (fine : r.error = none) : r.Has (.utf8 name') ∧ r.Has (.utf8 type') :=
    ⟨grown'.has (has (grown'.error fine)).1, (has' fine).1⟩
  have entered : Grants r (intern (.pair .nameAndType name'.place.index type'.place.index)
      fun place => .nameAndType ⟨place, name', type'⟩) none
      fun p' place => p'.Has (.nameAndType ⟨place, name', type'⟩) :=
    grants_intern (fun _ => rfl) (fun _ => rfl) fun fine _ => made fine
  refine entered.bind fun place s grown'' known => .pure fun fine => ⟨known fine, ?_⟩
  have fine' := grown''.error fine
  rw [NameAndTypeEntry.bare, (has (grown'.error fine')).2, (has' fine').2]

/-- Asking for a name and a type gives a constant of the pool with both texts. -/
theorem grants_nameAndType {name type : Text} (named : name.Decodes) (typed : type.Decodes) :
    Grants p (nameAndType name type) none fun p' nt => p'.Has (.nameAndType nt) ∧
      nt.name.text = name ∧ nt.type.text = type := by
  refine (grants_utf8 named).bind_run fun u q run grown has => ?_
  refine (grants_utf8 typed).bind_run fun v r run' grown' has' => ?_
  have spelled : u.text = name := by rw [← text_utf8 name p, run]
  have spelled' : v.text = type := by rw [← text_utf8 type q, run']
  have accepted : u.Accepted r :=
    known_of_has (fun fine => grown'.has (has (grown'.error fine)).1) (spelled ▸ named)
  have accepted' : v.Accepted r := known_of_has (fun fine => (has' fine).1) (spelled' ▸ typed)
  exact (grants_nameAndTypeOf accepted accepted').mono fun nt _ _ _ ⟨known, same⟩ =>
    ⟨known, (congrArg (·.name.text) same).trans spelled,
      (congrArg (·.type.text) same).trans spelled'⟩

/-- A name and descriptor, copied if need be. -/
theorem grants_adoptNameAndType {e : NameAndTypeEntry} (accepted : e.Accepted p) :
    Grants p (adoptNameAndType e) none
      fun p' nt => p'.Has (.nameAndType nt) ∧ nt.bare = e.bare :=
  grants_adopt (e := .nameAndType e) accepted (fun has => ⟨has, rfl⟩) fun decodes =>
    (grants_nameAndType decodes.1 decodes.2).mono fun _ _ _ _ ⟨has, named, typed⟩ => ⟨has, by
      rw [NameAndTypeEntry.bare, Utf8Entry.bare_eq_iff.mpr named, Utf8Entry.bare_eq_iff.mpr typed,
        NameAndTypeEntry.bare]⟩

/-- A reference to a member, of parts that the pool can refer to or copy. -/
theorem grants_memberOf {kind : MemberKind} {owner : ClassEntry} {nt : NameAndTypeEntry}
    (owned : owner.Accepted p) (named : nt.Accepted p) :
    Grants p (memberOf kind owner nt) none fun p' m => p'.Has (.member m) ∧
      m.bare = ⟨default, kind, owner.bare, nt.bare⟩ := by
  refine (grants_adoptClass owned).bind fun owner' q grown has => ?_
  refine (grants_adoptNameAndType (named.mono grown)).bind fun nt' r grown' has' => ?_
  have made (fine : r.error = none) :
      r.Has (.loadable (.class owner')) ∧ r.Has (.nameAndType nt') :=
    ⟨grown'.has (has (grown'.error fine)).1, (has' fine).1⟩
  have entered : Grants r (intern (.pair kind.tag owner'.place.index nt'.place.index)
      fun place => .member ⟨place, kind, owner', nt'⟩) none
      fun p' place => p'.Has (.member ⟨place, kind, owner', nt'⟩) :=
    grants_intern (fun _ => rfl) (fun _ => rfl) fun fine _ => made fine
  refine entered.bind fun place s grown'' known => .pure fun fine => ⟨known fine, ?_⟩
  have fine' := grown''.error fine
  rw [MemberEntry.bare, (has (grown'.error fine')).2, (has' fine').2]

/-- A reference to a member, copied if need be. -/
theorem grants_adoptMember {e : MemberEntry} (accepted : e.Accepted p) :
    Grants p (adoptMember e) none fun p' m => p'.Has (.member m) ∧ m.bare = e.bare :=
  grants_adopt (e := .member e) accepted (fun has => ⟨has, rfl⟩) fun parts =>
    grants_memberOf parts.1 parts.2

/-- A handle, whose target the pool can refer to or copy. -/
theorem grants_handle {kind : HandleKind} {target : MemberEntry} (accepted : target.Accepted p) :
    Grants p (handle kind target) none fun p' h => p'.Has (.loadable (.handle h)) ∧
      h.bare = ⟨default, kind, target.bare⟩ := by
  have interned (q : PoolBuilder) (accepted : target.Accepted q)
      (accepts : q.error = none → kind.accepts target.tag = true) :
      Grants q (do
        let target ← adoptMember target
        let place ← intern (.pair .methodHandle kind.byte.toNat target.place.index) fun place =>
          .loadable (.handle { place, kind, target })
        return { place, kind, target }) none fun p' (h : HandleEntry) =>
          p'.Has (.loadable (.handle h)) ∧ h.bare = ⟨default, kind, target.bare⟩ := by
    refine (grants_adoptMember accepted).bind fun target' r grown has => ?_
    have entered : Grants r (intern (.pair .methodHandle kind.byte.toNat target'.place.index)
        fun place => .loadable (.handle ⟨place, kind, target'⟩)) none
        fun p' place => p'.Has (.loadable (.handle ⟨place, kind, target'⟩)) := by
      refine grants_intern (fun _ => rfl) (fun _ => rfl) fun fine _ => ?_
      have sameKind : target'.bare.kind = target.bare.kind := congrArg MemberEntry.kind (has fine).2
      have sameTag : target'.tag = target.tag := congrArg MemberKind.tag sameKind
      exact ⟨sameTag ▸ accepts (grown.error fine), (has fine).1⟩
    refine entered.bind fun place s grown' known => .pure fun fine => ⟨known fine, ?_⟩
    rw [HandleEntry.bare, (has (grown'.error fine)).2]
  rw [handle]
  split
  · exact (show Grants p (fail _) none fun _ _ => False from .fail).bind fun _ q grown no =>
      interned q (accepted.mono grown) fun fine => (no fine).elim
  · rename_i accepts
    exact interned p accepted fun _ => by simpa using accepts

/-- A handle, copied if need be. -/
theorem grants_adoptHandle {e : HandleEntry} (accepted : e.Accepted p) :
    Grants p (adoptHandle e) none fun p' h => p'.Has (.loadable (.handle h)) ∧ h.bare = e.bare :=
  grants_adopt (e := .loadable (.handle e)) accepted (fun has => ⟨has, rfl⟩) grants_handle

/-- What refers to a row of a pool refers to one of the parent's, or is itself of the pool. -/
theorem Inv.refers {e : Entry} {r : Nat} (inv : p.Inv) (has : p.Has e)
    (refers : e.rowIndex? = some r) : p.Inherits r ∨ p.Mentions r := by
  cases has with
  | own place slot => exact .inr ⟨_, e, slot, refers⟩
  | inherited known holds =>
      rename_i parent
      have below {row : BootstrapRow} (rowed : parent.layout.RowAt parent.origin
          (parent.layout.Holds parent.origin) row.index row) :
          row.index < parent.pool.rowCount := by
        have tells := (inv.exact parent known).tells
        obtain ⟨table, -, isTable, -⟩ := rowed.lies
        obtain ⟨rows, given, each⟩ := tells.table table isTable
        rw [Pool.rowCount, given]
        exact (Array.getElem?_eq_some_iff.mp (each _ _ rowed)).1
      have made := holds.made
      refine .inl ⟨parent, known, ?_⟩
      cases e with
      | loadable e =>
          cases e with
          | dynamic place row nt => exact Option.some.inj refers ▸ below made.1
          | _ => cases refers
      | callSite e => exact Option.some.inj refers ▸ below made.1
      | _ => cases refers

/-- From a sound pool an action on rows leaves a sound later one with the row that it gives. Only
this row may be one that nothing refers to yet. -/
def GrantsRow (p : PoolBuilder) (act : Interning BootstrapRow)
    (post : PoolBuilder → BootstrapRow → Prop) : Prop :=
  p.Sound → p.Extends (act p).2 (some (act p).1.index) ∧ (act p).2.Sound ∧
    ((act p).2.error = none → (act p).2.HasRow (act p).1 ∧ post (act p).2 (act p).1)

namespace GrantsRow

variable {post : PoolBuilder → BootstrapRow → Prop}

/-- An action on constants before one on rows grants what the second does. -/
theorem after {x : Interning α} {f : α → Interning BootstrapRow} {first : PoolBuilder → α → Prop}
    (before : Grants p x none first)
    (next : ∀ a p', p.Extends p' none → (p'.error = none → first p' a) →
      GrantsRow p' (f a) post) : GrantsRow p (x >>= f) post := by
  intro sound
  obtain ⟨grown, sound', holds⟩ := before sound
  obtain ⟨grown', sound'', holds'⟩ := next (x p).1 (x p).2 grown holds sound'
  exact ⟨grown.trans grown', sound'', holds'⟩

/-- What is granted of a row can be weakened to what follows from it. -/
theorem mono {act : Interning BootstrapRow} {post' : PoolBuilder → BootstrapRow → Prop}
    (first : GrantsRow p act post)
    (weaker : ∀ row p', p.Extends p' (some row.index) → p'.error = none → post p' row →
      post' p' row) : GrantsRow p act post' := by
  intro sound
  obtain ⟨grown, sound', holds⟩ := first sound
  exact ⟨grown, sound', fun fine => ⟨(holds fine).1, weaker _ _ grown fine (holds fine).2⟩⟩

/-- A constant that refers to the row makes up for it. -/
theorem bind {act : Interning BootstrapRow} {f : BootstrapRow → Interning α}
    {post' : PoolBuilder → α → Prop} (first : GrantsRow p act post)
    (next : ∀ row p', p.Extends p' (some row.index) →
      (p'.error = none → p'.HasRow row ∧ post p' row) → Grants p' (f row) none fun q a =>
        post' q a ∧ ∃ e, q.Has e ∧ e.rowIndex? = some row.index) :
    Grants p (act >>= f) none post' := by
  intro sound
  obtain ⟨grown, sound', holds⟩ := first sound
  obtain ⟨grown', sound'', holds'⟩ := next _ _ grown holds sound'
  refine ⟨grown.trans_pending grown' fun fine => ?_, sound'', fun fine => (holds' fine).1⟩
  obtain ⟨-, e, has, refers⟩ := holds' fine
  exact (sound'' fine).refers has refers

end GrantsRow

/-- The pool with a row added. -/
def withRow (p : PoolBuilder) (row : BootstrapRow) : PoolBuilder :=
  { p with
    rows := p.rows.push row
    rowOf := p.rowOf.insert row.key row }

/-- A row whose key is known is the one that is there. -/
theorem internRow_known {handle : HandleEntry} {arguments : List Loadable} {row : BootstrapRow}
    (known : p.rowOf[(BootstrapRow.mk ⟨.output, p.rows.size⟩ handle arguments).key]? = some row) :
    internRow handle arguments p = (row, p) := by
  rw [internRow, bind_apply, get_apply]
  simp only [known]
  rfl

/-- A row whose key is not known is added at the end of the table. -/
theorem internRow_fresh {handle : HandleEntry} {arguments : List Loadable}
    (unknown : p.rowOf[(BootstrapRow.mk ⟨.output, p.rows.size⟩ handle arguments).key]? = none) :
    internRow handle arguments p = (.mk ⟨.output, p.rows.size⟩ handle arguments,
      p.withRow (.mk ⟨.output, p.rows.size⟩ handle arguments)) := by
  rw [internRow, bind_apply, get_apply]
  simp only [unknown]
  rfl

/-- Adding a row makes a later pool, in which only this row may lack a constant that refers to
it. -/
theorem extends_withRow {row : BootstrapRow} (place : row.index = p.rows.size) :
    p.Extends (p.withRow row) (some row.index) where
  parent := rfl
  base := rfl
  slots _ _ here := here
  rows r row' here := by
    rw [withRow, Array.getElem?_push_lt (Array.getElem?_eq_some_iff.mp here).1]
    exact congrArg some (Array.getElem?_eq_some_iff.mp here).2
  error := id
  indexed := id
  used _ r old new := by
    rw [withRow, Array.size_push] at new
    exact .inr (.inr (congrArg some (by omega)))

/-- The invariant of a pool goes on to hold when a row is added whose handle and arguments stand in
it. -/
theorem inv_withRow (inv : p.Inv) (indexed : p.indexed = true) {row : BootstrapRow}
    (place : row.place = ⟨.output, p.rows.size⟩) (made : row.Made p.Has) :
    (p.withRow row).Inv := by
  have index : row.index = p.rows.size := by rw [BootstrapRow.index, place]
  have grown := extends_withRow (p := p) index
  have here : (p.withRow row).rows[p.rows.size]? = some row := by
    rw [withRow, Array.getElem?_push_size]
  exact {
    base := inv.base
    orphan := inv.orphan
    small := inv.small
    exact := inv.exact
    waiting := fun no => by cases indexed.symm.trans no
    places := fun key place' known => by
      obtain ⟨e, has, parts⟩ := inv.places key place' known
      exact ⟨e, grown.has has, parts⟩
    slots := fun k e slot => by
      obtain ⟨placed, made'⟩ := inv.slots k e slot
      exact ⟨placed, made'.mono (fun _ => grown.has) fun _ => grown.hasRow⟩
    spaced := inv.spaced
    rows := fun r row' there => by
      by_cases last : r = p.rows.size
      · subst last
        obtain rfl := Option.some.inj (here.symm.trans there)
        refine ⟨index, ?_, made.mono fun _ => grown.has⟩
        rw [place]
        rfl
      · rw [withRow, Array.getElem?_push, if_neg last] at there
        obtain ⟨number, owned, made'⟩ := inv.rows r row' there
        exact ⟨number, owned, made'.mono fun _ => grown.has⟩
    inherited := fun _ parent known r row' rowed =>
      grown.rows r row' (inv.inherited indexed parent known r row' rowed)
    rowOf := fun key row' known => by
      rw [withRow, Std.HashMap.getElem?_insert] at known
      split at known
      · rename_i same
        obtain rfl := Option.some.inj known
        exact ⟨by rw [index]; exact here, eq_of_beq same⟩
      · obtain ⟨there, keyed⟩ := inv.rowOf key row' known
        exact ⟨grown.rows _ _ there, keyed⟩ }

/-- A row of constants that the pool has. -/
theorem grants_internRow {handle : HandleEntry} {arguments : List Loadable}
    (indexed : p.error = none → p.indexed = true)
    (made : p.error = none → (BootstrapRow.mk default handle arguments).Made p.Has) :
    GrantsRow p (internRow handle arguments) fun _ row =>
      row.handle = handle ∧ row.arguments = arguments := by
  intro sound
  cases known : p.rowOf[(BootstrapRow.mk ⟨.output, p.rows.size⟩ handle arguments).key]? with
  | some row =>
      rw [internRow_known known]
      refine ⟨.refl p, sound, fun fine => ?_⟩
      have inv := sound fine
      obtain ⟨here, keyed⟩ := inv.rowOf _ row known
      obtain ⟨-, -, made'⟩ := inv.rows _ row here
      obtain ⟨handled, argued⟩ := (inv.told (indexed fine)).row_eq_of_key made'.linked
        (made fine).linked keyed
      exact ⟨.entered here, handled, argued⟩
  | none =>
      rw [internRow_fresh known]
      have here : (p.withRow (.mk ⟨.output, p.rows.size⟩ handle arguments)).rows[p.rows.size]? =
          some (.mk ⟨.output, p.rows.size⟩ handle arguments) := by
        rw [withRow, Array.getElem?_push_size]
      refine ⟨extends_withRow rfl, fun fine => ?_, fun _ => ⟨.entered here, rfl, rfl⟩⟩
      have parts := made fine
      exact inv_withRow (sound fine) (indexed fine) rfl ⟨parts.handle, parts.count, parts.arguments⟩

/-- A constant that a row of the pool produces. -/
theorem grants_internDynamic {row : BootstrapRow} {nt : NameAndTypeEntry}
    (rowed : p.error = none → p.HasRow row) (named : nt.Accepted p) :
    Grants p (internDynamic row nt) none fun p' x =>
      (p'.Has (.loadable x) ∧ x.bare = .dynamic default row.bare nt.bare) ∧
        ∃ e, p'.Has e ∧ e.rowIndex? = some row.index := by
  refine (grants_adoptNameAndType named).bind fun nt' q grown has => ?_
  refine (grants_internLoadable (fun p => .dynamic p row nt') (fun _ => rfl) (fun _ => rfl)
    fun fine _ => ⟨grown.hasRow (rowed (grown.error fine)), (has fine).1⟩).mono
    fun x r grown' fine ⟨known, place, same⟩ => ⟨⟨known, ?_⟩, _, known, by rw [same]; rfl⟩
  rw [same, Loadable.bare, (has (grown'.error fine)).2]

mutual

/-- A loadable constant, copied if need be. -/
theorem grants_adoptLoadable : ∀ (e : Loadable) {p : PoolBuilder}, e.Accepted p →
    Grants p (adoptLoadable e) none fun p' x => p'.Has (.loadable x) ∧ x.bare = e.bare
  | .integer place n, p, accepted => by
    rw [adoptLoadable]
    rw [Loadable.Accepted] at accepted
    exact grants_adopt accepted (fun has => ⟨has, rfl⟩) grants_integer
  | .float place bits, p, accepted => by
    rw [adoptLoadable]
    rw [Loadable.Accepted] at accepted
    exact grants_adopt accepted (fun has => ⟨has, rfl⟩) grants_float
  | .long place n, p, accepted => by
    rw [adoptLoadable]
    rw [Loadable.Accepted] at accepted
    exact grants_adopt accepted (fun has => ⟨has, rfl⟩) grants_long
  | .double place bits, p, accepted => by
    rw [adoptLoadable]
    rw [Loadable.Accepted] at accepted
    exact grants_adopt accepted (fun has => ⟨has, rfl⟩) grants_double
  | .class c, p, accepted => by
    rw [adoptLoadable]
    rw [Loadable.Accepted] at accepted
    refine grants_adopt accepted (fun has => ⟨has, rfl⟩) fun decodes => ?_
    exact (grants_class decodes).bind fun _ _ _ has => .pure fun fine =>
      ⟨(has fine).1, congrArg Loadable.class (ClassEntry.bare_eq_iff.mpr (has fine).2)⟩
  | .string place utf8, p, accepted => by
    rw [adoptLoadable]
    rw [Loadable.Accepted] at accepted
    exact grants_adopt accepted (fun has => ⟨has, rfl⟩) grants_string
  | .methodType place descriptor, p, accepted => by
    rw [adoptLoadable]
    rw [Loadable.Accepted] at accepted
    exact grants_adopt accepted (fun has => ⟨has, rfl⟩) grants_methodType
  | .handle h, p, accepted => by
    rw [adoptLoadable]
    rw [Loadable.Accepted] at accepted
    refine grants_adopt accepted (fun has => ⟨has, rfl⟩) fun target => ?_
    exact (grants_handle target).bind fun _ _ _ has => .pure fun fine =>
      ⟨(has fine).1, congrArg Loadable.handle (has fine).2⟩
  | .dynamic place row nt, p, accepted => by
    rw [adoptLoadable]
    rw [Loadable.Accepted] at accepted
    refine grants_adopt accepted (fun has => ⟨has, rfl⟩) fun parts => ?_
    refine (grants_adoptRow row parts.1).bind fun row' q grown has => ?_
    refine (grants_internDynamic (fun fine => (has fine).1) (parts.2.mono grown)).mono
      fun x r grown' fine ⟨⟨known, same⟩, refers⟩ => ⟨⟨known, ?_⟩, refers⟩
    rw [same, (has (grown'.error fine)).2, Loadable.bare]

/-- A row, copied if need be. -/
theorem grants_adoptRow : ∀ (row : BootstrapRow) {p : PoolBuilder}, row.Accepted p →
    GrantsRow p (adoptRow row) fun _ row' => row'.bare = row.bare
  | .mk place handle arguments, p, accepted => by
    rw [adoptRow]
    refine .after grants_ensureIndexed fun _ q grown indexed => ?_
    have accepted' := BootstrapRow.Accepted.mono grown _ accepted
    rw [BootstrapRow.Accepted] at accepted'
    intro sound
    rw [bind_apply, get_apply]
    split
    · rename_i owned
      rw [if_pos owned] at accepted'
      exact ⟨.refl q, sound, fun fine => ⟨accepted' fine, rfl⟩⟩
    · rename_i foreign
      rw [if_neg foreign] at accepted'
      obtain ⟨handled, count, argued⟩ := accepted'
      have copies : GrantsRow q (do
          let handle ← adoptHandle handle
          let arguments ← adoptArguments arguments
          internRow handle arguments) fun _ row' =>
            row'.bare = (BootstrapRow.mk place handle arguments).bare := by
        refine .after (grants_adoptHandle handled) fun handle' r grown' has => ?_
        refine .after (grants_adoptArguments arguments (Loadable.AllAccepted.mono grown' _ argued))
          fun arguments' t grown'' all => ?_
        have made (fine : t.error = none) :
            (BootstrapRow.mk default handle' arguments').Made t.Has :=
          ⟨grown''.has (has (grown''.error fine)).1, by
            rw [BootstrapRow.arguments, (all fine).1]
            exact count, (all fine).2.1⟩
        have indexed' (fine : t.error = none) : t.indexed = true :=
          grown''.indexed (grown'.indexed (indexed (grown'.error (grown''.error fine))))
        refine (grants_internRow indexed' made).mono fun row u grown fine ⟨same, same'⟩ => ?_
        have fine' := grown.error fine
        rw [BootstrapRow.bare_eq, same, same', (has (grown''.error fine')).2, (all fine').2.2,
          BootstrapRow.bare]
      exact copies sound

/-- Loadable constants, each copied if need be. -/
theorem grants_adoptArguments : ∀ (as : List Loadable) {p : PoolBuilder},
    Loadable.AllAccepted p as → Grants p (adoptArguments as) none fun p' bs =>
      bs.length = as.length ∧ (∀ b ∈ bs, p'.Has (.loadable b)) ∧
        Loadable.bareAll bs = Loadable.bareAll as
  | [], p, _ => by
    rw [adoptArguments]
    exact .pure fun _ => ⟨rfl, by simp, rfl⟩
  | a :: rest, p, accepted => by
    rw [adoptArguments]
    rw [Loadable.AllAccepted] at accepted
    refine (grants_adoptLoadable a accepted.1).bind fun b q grown first => ?_
    refine (grants_adoptArguments rest (Loadable.AllAccepted.mono grown rest accepted.2)).bind
      fun bs r grown' others => .pure fun fine => ?_
    obtain ⟨length, all, same⟩ := others fine
    obtain ⟨has, same'⟩ := first (grown'.error fine)
    refine ⟨by simp [length], fun b' member => ?_, by
      rw [Loadable.bareAll, same', same, Loadable.bareAll]⟩
    rcases List.mem_cons.mp member with rfl | member
    · exact grown'.has has
    · exact all b' member

end

/-- A call site that a row links, of parts that the pool can refer to or copy. -/
theorem grants_callSite {row : BootstrapRow} {nt : NameAndTypeEntry} (rowed : row.Accepted p)
    (named : nt.Accepted p) :
    Grants p (callSite row nt) none fun p' c => p'.Has (.callSite c) ∧
      c.bare = ⟨default, row.bare, nt.bare⟩ := by
  refine (grants_adoptRow row rowed).bind fun row' q grown has => ?_
  refine (grants_adoptNameAndType (named.mono grown)).bind fun nt' r grown' has' => ?_
  have entered : Grants r (intern (.pair .invokeDynamic row'.index nt'.place.index)
      fun place => .callSite ⟨place, row', nt'⟩) none
      fun p' place => p'.Has (.callSite ⟨place, row', nt'⟩) :=
    grants_intern (fun _ => rfl) (fun _ => rfl) fun fine _ =>
      ⟨grown'.hasRow (has (grown'.error fine)).1, (has' fine).1⟩
  refine entered.bind fun place s grown'' known => .pure fun fine =>
    ⟨⟨known fine, ?_⟩, _, known fine, rfl⟩
  have fine' := grown''.error fine
  rw [CallSiteEntry.bare, (has (grown'.error fine')).2, (has' fine').2]

/-- Asking for a module gives a constant of the pool with its name. -/
theorem grants_module {name : Text} (decodes : name.Decodes) :
    Grants p (module name) none fun p' m => p'.Has (.module m) ∧ m.name.text = name := by
  refine (grants_utf8 decodes).bind fun u q grown has => ?_
  have entered : Grants q (intern (.single .module u.place.index) fun p => .module ⟨p, u⟩) none
      fun p' place => p'.Has (.module ⟨place, u⟩) :=
    grants_intern (fun _ => rfl) (fun _ => rfl) fun fine _ => (has fine).1
  exact entered.bind fun _ _ grown' known => .pure fun fine =>
    ⟨known fine, (has (grown'.error fine)).2⟩

/-- Asking for a package gives a constant of the pool with its name. -/
theorem grants_package {name : Text} (decodes : name.Decodes) :
    Grants p (package name) none fun p' m => p'.Has (.package m) ∧ m.name.text = name := by
  refine (grants_utf8 decodes).bind fun u q grown has => ?_
  have entered : Grants q (intern (.single .package u.place.index) fun p => .package ⟨p, u⟩) none
      fun p' place => p'.Has (.package ⟨place, u⟩) :=
    grants_intern (fun _ => rfl) (fun _ => rfl) fun fine _ => (has fine).1
  exact entered.bind fun _ _ grown' known => .pure fun fine =>
    ⟨known fine, (has (grown'.error fine)).2⟩

/-- An index of the pool stands for an entry that denotes what `bare` does. -/
def Denotes (p : PoolBuilder) (i : Nat) (bare : Entry) : Prop :=
  ∃ e, p.Has e ∧ e.index = i ∧ e.bare = bare

/-- The index that is given for a constant stands for what the constant denotes. -/
theorem grants_indexOf {e : Entry} (accepted : e.Accepted p) :
    Grants p (indexOf e) none fun p' i => p'.Denotes i e.bare := by
  cases e with
  | utf8 u =>
      refine grants_adopt accepted (fun has => ⟨_, has, rfl, rfl⟩) fun decodes => ?_
      exact (grants_utf8 decodes).bind fun _ _ _ has => .pure fun fine =>
        ⟨_, (has fine).1, rfl, congrArg Entry.utf8 (Utf8Entry.bare_eq_iff.mpr (has fine).2)⟩
  | loadable a =>
      have adopts := grants_adoptLoadable a accepted
      rw [Entry.Accepted, Loadable.Accepted.eq_def] at accepted
      refine grants_adopt accepted (fun has => ⟨_, has, rfl, rfl⟩) fun _ => ?_
      exact adopts.bind fun _ _ _ has => .pure fun fine =>
        ⟨_, (has fine).1, rfl, congrArg Entry.loadable (has fine).2⟩
  | nameAndType nt =>
      refine grants_adopt accepted (fun has => ⟨_, has, rfl, rfl⟩) fun decodes => ?_
      refine (grants_nameAndType decodes.1 decodes.2).bind fun _ _ _ has => .pure fun fine => ?_
      obtain ⟨known, named, typed⟩ := has fine
      exact ⟨_, known, rfl, by
        rw [Entry.bare, Entry.bare, NameAndTypeEntry.bare, Utf8Entry.bare_eq_iff.mpr named,
          Utf8Entry.bare_eq_iff.mpr typed, NameAndTypeEntry.bare]⟩
  | member m =>
      refine grants_adopt accepted (fun has => ⟨_, has, rfl, rfl⟩) fun parts => ?_
      exact (grants_memberOf parts.1 parts.2).bind fun _ _ _ has => .pure fun fine =>
        ⟨_, (has fine).1, rfl, congrArg Entry.member (has fine).2⟩
  | callSite c =>
      refine grants_adopt accepted (fun has => ⟨_, has, rfl, rfl⟩) fun parts => ?_
      exact (grants_callSite parts.1 parts.2).bind fun _ _ _ has => .pure fun fine =>
        ⟨_, (has fine).1, rfl, congrArg Entry.callSite (has fine).2⟩
  | module m =>
      refine grants_adopt accepted (fun has => ⟨_, has, rfl, rfl⟩) fun decodes => ?_
      exact (grants_module decodes).bind fun _ _ _ has => .pure fun fine =>
        ⟨_, (has fine).1, rfl, by
          rw [Entry.bare, ModuleEntry.bare, Utf8Entry.bare_eq_iff.mpr (has fine).2]
          rfl⟩
  | package m =>
      refine grants_adopt accepted (fun has => ⟨_, has, rfl, rfl⟩) fun decodes => ?_
      exact (grants_package decodes).bind fun _ _ _ has => .pure fun fine =>
        ⟨_, (has fine).1, rfl, by
          rw [Entry.bare, PackageEntry.bare, Utf8Entry.bare_eq_iff.mpr (has fine).2]
          rfl⟩

end PoolBuilder

end JvmClass
