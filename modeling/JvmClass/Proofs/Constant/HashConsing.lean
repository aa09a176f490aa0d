import JvmClass.Proofs.Constant.Factories

/-!
# Sequences of factory calls

A pool that starts from nothing and is called any number of times answers each call with what was
asked for, at an index that never moves. An index stands for one constant and a constant has one
index. Indices are dealt out without gaps, and a pool that has outgrown its limit says so.
-/

namespace JvmClass.PoolBuilder

variable {p q : PoolBuilder}

/-- A call of a factory of a pool. -/
inductive Call where
  | utf8 (text : Text)
  | integer (value : Int)
  | float (bits : Nat)
  | long (value : Int)
  | double (bits : Nat)
  | class_ (internalName : Text)
  | classOf (name : Utf8Entry)
  | classFor (d : Descriptor)
  | string (text : Text)
  | methodType (descriptor : Text)
  | nameAndType (name type : Text)
  | nameAndTypeOf (name type : Utf8Entry)
  | member (kind : MemberKind) (owner : ClassEntry) (name type : Text)
  | memberOf (kind : MemberKind) (owner : ClassEntry) (nt : NameAndTypeEntry)
  | handle (kind : HandleKind) (target : MemberEntry)
  | bootstrap (h : HandleEntry) (arguments : List Loadable)
  | dynamic (row : BootstrapRow) (nt : NameAndTypeEntry)
  | callSite (row : BootstrapRow) (nt : NameAndTypeEntry)
  | module (name : Text)
  | package (name : Text)
  /-- A constant is referred to by index, and copied in if need be. -/
  | refer (e : Entry)

/-- What a call gives. -/
inductive Answer where
  | entry (e : Entry)
  | row (r : BootstrapRow)
  | index (i : Nat)

/-- What a call asks for. -/
inductive Demand where
  | constant (bare : Entry)
  | row (bare : BootstrapRow)

namespace Call

/-- Makes the call. -/
def run : Call → Interning Answer
  | .utf8 text => return .entry (.utf8 (← PoolBuilder.utf8 text))
  | .integer n => return .entry (.loadable (← PoolBuilder.integer n))
  | .float bits => return .entry (.loadable (← PoolBuilder.float bits))
  | .long n => return .entry (.loadable (← PoolBuilder.long n))
  | .double bits => return .entry (.loadable (← PoolBuilder.double bits))
  | .class_ name => return .entry (.loadable (.class (← PoolBuilder.class_ name)))
  | .classOf name => return .entry (.loadable (.class (← PoolBuilder.classOf name)))
  | .classFor d => return .entry (.loadable (.class (← PoolBuilder.classFor d)))
  | .string text => return .entry (.loadable (← PoolBuilder.string text))
  | .methodType descriptor => return .entry (.loadable (← PoolBuilder.methodType descriptor))
  | .nameAndType name type => return .entry (.nameAndType (← PoolBuilder.nameAndType name type))
  | .nameAndTypeOf name type => return .entry (.nameAndType (← PoolBuilder.nameAndTypeOf name type))
  | .member kind owner name type =>
    return .entry (.member (← PoolBuilder.member kind owner name type))
  | .memberOf kind owner nt => return .entry (.member (← PoolBuilder.memberOf kind owner nt))
  | .handle kind target => return .entry (.loadable (.handle (← PoolBuilder.handle kind target)))
  | .bootstrap h arguments => return .row (← PoolBuilder.bootstrap h arguments)
  | .dynamic row nt => return .entry (.loadable (← PoolBuilder.dynamic row nt))
  | .callSite row nt => return .entry (.callSite (← PoolBuilder.callSite row nt))
  | .module name => return .entry (.module (← PoolBuilder.module name))
  | .package name => return .entry (.package (← PoolBuilder.package name))
  | .refer e => return .index (← indexOf e)

/-- A call for a member by texts runs as the request does. -/
theorem run_member {kind : MemberKind} {owner : ClassEntry} {name type : Text} (p : PoolBuilder) :
    (member kind owner name type).run p =
      (.entry (.member (PoolBuilder.member kind owner name type p).1),
        (PoolBuilder.member kind owner name type p).2) := by
  rw [run]
  exact bind_apply ..

/-- What the call asks for, by what it denotes. -/
def demand : Call → Demand
  | .utf8 text => .constant (.utf8 ⟨default, text⟩)
  | .integer n => .constant (.loadable (.integer default n))
  | .float bits => .constant (.loadable (.float default bits))
  | .long n => .constant (.loadable (.long default n))
  | .double bits => .constant (.loadable (.double default bits))
  | .class_ name => .constant (.loadable (.class ⟨default, default, name⟩))
  | .classOf name => .constant (.loadable (.class ⟨default, name.bare⟩))
  | .classFor d => .constant (.loadable (.class ⟨default, default, d.internalName?.getD []⟩))
  | .string text => .constant (.loadable (.string default ⟨default, text⟩))
  | .methodType descriptor => .constant (.loadable (.methodType default ⟨default, descriptor⟩))
  | .nameAndType name type => .constant (.nameAndType ⟨default, ⟨default, name⟩, ⟨default, type⟩⟩)
  | .nameAndTypeOf name type => .constant (.nameAndType ⟨default, name.bare, type.bare⟩)
  | .member kind owner name type => .constant (.member
      ⟨default, kind, owner.bare, ⟨default, ⟨default, name⟩, ⟨default, type⟩⟩⟩)
  | .memberOf kind owner nt => .constant (.member ⟨default, kind, owner.bare, nt.bare⟩)
  | .handle kind target => .constant (.loadable (.handle ⟨default, kind, target.bare⟩))
  | .bootstrap h arguments => .row (.mk default h.bare (Loadable.bareAll arguments))
  | .dynamic row nt => .constant (.loadable (.dynamic default row.bare nt.bare))
  | .callSite row nt => .constant (.callSite ⟨default, row.bare, nt.bare⟩)
  | .module name => .constant (.module ⟨default, ⟨default, name⟩⟩)
  | .package name => .constant (.package ⟨default, ⟨default, name⟩⟩)
  | .refer e => .constant e.bare

/-- The call is made with numbers that fit their types, with constants that the pool or another one
made, and for a descriptor that has a name. -/
def Genuine (p : PoolBuilder) : Call → Prop
  | .integer n => signed 32 n = n
  | .float bits => bits < 4294967296
  | .long n => signed 64 n = n
  | .double bits => bits < 18446744073709551616
  | .classOf name => name.Genuine p
  | .classFor d => d.internalName?.isSome = true
  | .nameAndTypeOf name type => name.Genuine p ∧ type.Genuine p
  | .member _ owner _ _ => owner.Genuine p
  | .memberOf _ owner nt => owner.Genuine p ∧ nt.Genuine p
  | .handle _ target => target.Genuine p
  | .bootstrap h arguments => h.Genuine p ∧ Loadable.AllGenuine p arguments
  | .dynamic row nt | .callSite row nt => row.Genuine p ∧ nt.Genuine p
  | .refer e => e.Genuine p
  | .utf8 _ | .class_ _ | .string _ | .methodType _ | .nameAndType _ _ | .module _ | .package _ =>
      True

/-- A call that is genuine stays so in every later pool. -/
theorem Genuine.mono (later : p.Later q) {c : Call} (genuine : c.Genuine p) : c.Genuine q := by
  cases c with
  | classOf name => exact Utf8Entry.Genuine.mono later genuine
  | nameAndTypeOf name type =>
      exact ⟨Utf8Entry.Genuine.mono later genuine.1, Utf8Entry.Genuine.mono later genuine.2⟩
  | member kind owner name type => exact ClassEntry.Genuine.mono later genuine
  | memberOf kind owner nt =>
      exact ⟨ClassEntry.Genuine.mono later genuine.1, NameAndTypeEntry.Genuine.mono later genuine.2⟩
  | handle kind target => exact MemberEntry.Genuine.mono later genuine
  | bootstrap h arguments =>
      exact ⟨HandleEntry.Genuine.mono later genuine.1, Loadable.AllGenuine.mono later _ genuine.2⟩
  | dynamic row nt | callSite row nt =>
      exact ⟨BootstrapRow.Genuine.mono later _ genuine.1,
        NameAndTypeEntry.Genuine.mono later genuine.2⟩
  | refer e => exact Entry.Genuine.mono later genuine
  | _ => exact genuine

end Call

/-- An answer that the pool has and that denotes what was asked for. -/
def Meets (p : PoolBuilder) : Answer → Demand → Prop
  | .entry e, .constant bare => p.Has e ∧ e.bare = bare
  | .row r, .row bare => p.HasRow r ∧ r.bare = bare
  | .index i, .constant bare => p.Denotes i bare
  | _, _ => False

/-- An answer that meets a demand still does in every later pool. -/
theorem Meets.mono (later : p.Later q) {a : Answer} {d : Demand} (meets : p.Meets a d) :
    q.Meets a d := by
  cases a with
  | entry e =>
      cases d with
      | constant bare => exact ⟨later.has meets.1, meets.2⟩
      | row bare => exact meets
  | row r =>
      cases d with
      | constant bare => exact meets
      | row bare => exact ⟨later.hasRow meets.1, meets.2⟩
  | index i =>
      cases d with
      | constant bare =>
          obtain ⟨e, has, same⟩ := meets
          exact ⟨e, later.has has, same⟩
      | row bare => exact meets

/-- A call is answered with what it asks for. -/
theorem Call.answers_run {c : Call} (genuine : c.Genuine p) :
    Answers p c.run fun q a => q.Meets a c.demand := by
  cases c <;> simp only [Genuine, run, demand] at genuine ⊢
  case utf8 text =>
    exact (answers_utf8 text).bind fun u _ _ has => .pure fun _ =>
      ⟨has.1, congrArg Entry.utf8 (Utf8Entry.bare_eq_iff (b := ⟨default, text⟩).mpr has.2)⟩
  case integer n =>
    exact (answers_integer genuine).bind fun _ _ _ has => .pure fun _ =>
      ⟨has.1, congrArg Entry.loadable has.2⟩
  case float bits =>
    exact (answers_float genuine).bind fun _ _ _ has => .pure fun _ =>
      ⟨has.1, congrArg Entry.loadable has.2⟩
  case long n =>
    exact (answers_long genuine).bind fun _ _ _ has => .pure fun _ =>
      ⟨has.1, congrArg Entry.loadable has.2⟩
  case double bits =>
    exact (answers_double genuine).bind fun _ _ _ has => .pure fun _ =>
      ⟨has.1, congrArg Entry.loadable has.2⟩
  case class_ name =>
    exact (answers_class name).bind fun c _ _ has => .pure fun _ =>
      ⟨has.1, congrArg (Entry.loadable ∘ Loadable.class)
        (ClassEntry.bare_eq_iff (b := ⟨default, default, name⟩).mpr has.2)⟩
  case classOf name =>
    exact (answers_classOf genuine).bind fun _ _ _ has => .pure fun _ =>
      ⟨has.1, congrArg (Entry.loadable ∘ Loadable.class) has.2⟩
  case classFor d =>
    exact answers_classFor.bind fun c _ _ has => .pure fun _ =>
      ⟨has.1, congrArg (Entry.loadable ∘ Loadable.class)
        (ClassEntry.bare_eq_iff (b := ⟨default, default, _⟩).mpr has.2)⟩
  case string text =>
    exact (answers_string text).bind fun _ _ _ has => .pure fun _ =>
      ⟨has.1, congrArg Entry.loadable has.2⟩
  case methodType descriptor =>
    exact (answers_methodType descriptor).bind fun _ _ _ has => .pure fun _ =>
      ⟨has.1, congrArg Entry.loadable has.2⟩
  case nameAndType name type =>
    exact (answers_nameAndType name type).bind fun _ _ _ has => .pure fun _ =>
      ⟨has.1, congrArg Entry.nameAndType has.2⟩
  case nameAndTypeOf name type =>
    exact (answers_nameAndTypeOf genuine.1 genuine.2).bind fun _ _ _ has => .pure fun _ =>
      ⟨has.1, congrArg Entry.nameAndType has.2⟩
  case member kind owner name type =>
    exact (answers_member name type genuine).bind fun _ _ _ has => .pure fun _ =>
      ⟨has.1, congrArg Entry.member has.2⟩
  case memberOf kind owner nt =>
    exact (answers_memberOf genuine.1 genuine.2).bind fun _ _ _ has => .pure fun _ =>
      ⟨has.1, congrArg Entry.member has.2⟩
  case handle kind target =>
    exact (answers_handle genuine).bind fun _ _ _ has => .pure fun _ =>
      ⟨has.1, congrArg (Entry.loadable ∘ Loadable.handle) has.2⟩
  case bootstrap h arguments =>
    exact (answers_bootstrap genuine.1 genuine.2).bind fun _ _ _ has => .pure fun _ => has
  case dynamic row nt =>
    exact (answers_dynamic genuine.1 genuine.2).bind fun _ _ _ has => .pure fun _ =>
      ⟨has.1, congrArg Entry.loadable has.2⟩
  case callSite row nt =>
    exact (answers_callSite genuine.1 genuine.2).bind fun _ _ _ has => .pure fun _ =>
      ⟨has.1, congrArg Entry.callSite has.2⟩
  case module name =>
    exact (answers_module name).bind fun _ _ _ has => .pure fun _ =>
      ⟨has.1, congrArg Entry.module has.2⟩
  case package name =>
    exact (answers_package name).bind fun _ _ _ has => .pure fun _ =>
      ⟨has.1, congrArg Entry.package has.2⟩
  case refer e =>
    exact (answers_indexOf genuine).bind fun _ _ _ denotes => .pure fun _ => denotes

/-- Makes calls one after another and notes what each gives. -/
def answerAll : List Call → Interning (List (Call × Answer))
  | [] => return []
  | c :: rest => do
    let a ← c.run
    return (c, a) :: (← answerAll rest)

/-- Every call is made with what is genuine at its time. -/
def AllGenuine : PoolBuilder → List Call → Prop
  | _, [] => True
  | p, c :: rest => c.Genuine p ∧ AllGenuine (c.run p).2 rest

/-- From a pool in order every call of a history is answered by a constant that stands there at the
end and meets what was asked for. -/
theorem answers_answerAll {calls : List Call} (genuine : p.AllGenuine calls) :
    Answers p (answerAll calls) fun q history => ∀ ca ∈ history, q.Meets ca.2 ca.1.demand := by
  induction calls generalizing p with
  | nil => exact .pure fun _ _ member => absurd member List.not_mem_nil
  | cons c rest inductionHypothesis =>
      rw [AllGenuine] at genuine
      intro consed
      obtain ⟨steps, meets⟩ := Call.answers_run genuine.1 consed
      obtain ⟨now, later⟩ := genuine
      generalize ran : c.run p = result at later steps meets
      obtain ⟨a, q⟩ := result
      obtain ⟨steps', others⟩ := inductionHypothesis later (consed.steps steps)
      rw [answerAll, bind_apply, ran]
      refine ⟨steps.trans steps', fun ca member => ?_⟩
      rcases List.mem_cons.mp member with rfl | member
      · exact meets.mono steps'.later
      · exact others ca member

/-! ## Indices -/

/-- Entries that are numbered from one index up to another, each after the slots of the one
before. -/
inductive Numbered : Nat → List Entry → Nat → Prop
  | nil (n : Nat) : Numbered n [] n
  | cons {n m : Nat} {e : Entry} {rest : List Entry} (index : e.index = n)
      (others : Numbered (n + e.tag.slots) rest m) : Numbered n (e :: rest) m

/-- The entries in the order in which they were added. -/
def entries (p : PoolBuilder) : List Entry := p.slots.toList.filterMap id

namespace Spaced

/-- Every constant takes a slot. -/
theorem slots_pos (e : Entry) : 0 < e.tag.slots := by cases e.tag <;> decide

/-- The entries in slots that are filled as they should be are numbered one after another. -/
theorem numbered {slots : List (Option Entry)} (spaced : Spaced slots) {n : Nat}
    (placed : ∀ (k : Nat) (e : Entry), slots[k]? = some (some e) → e.index = n + k) :
    Numbered n (slots.filterMap id) (n + slots.length) := by
  induction spaced generalizing n with
  | nil => exact .nil n
  | @cons e rest others inductionHypothesis =>
      have positive := slots_pos e
      have listed : (some e :: (List.replicate (e.tag.slots - 1) none ++ rest)).filterMap id =
          e :: rest.filterMap id := by simp
      have length : n + (some e :: (List.replicate (e.tag.slots - 1) none ++ rest)).length =
          n + e.tag.slots + rest.length := by
        simp only [List.length_cons, List.length_append, List.length_replicate]
        omega
      rw [listed, length]
      refine .cons (placed 0 e rfl) (inductionHypothesis fun k e' slot => ?_)
      rw [placed (e.tag.slots + k) e', Nat.add_assoc]
      obtain ⟨more, same⟩ : ∃ more, e.tag.slots = more + 1 := ⟨e.tag.slots - 1, by omega⟩
      rw [same, Nat.add_right_comm, List.getElem?_cons_succ, Nat.add_sub_cancel,
        List.getElem?_append_right (by simp)]
      simpa using slot

/-- The slot after a constant of two slots is empty. -/
theorem second {slots : List (Option Entry)} (spaced : Spaced slots) {k : Nat} {e : Entry}
    (slot : slots[k]? = some (some e)) (wide : e.tag.slots = 2) : slots[k + 1]? = some none := by
  induction spaced generalizing k with
  | nil => cases slot
  | @cons first rest others inductionHypothesis =>
      cases k with
      | zero =>
          obtain rfl := Option.some.inj (Option.some.inj slot)
          rw [wide]
          rfl
      | succ k =>
          rw [List.getElem?_cons_succ] at slot ⊢
          by_cases inside : k < first.tag.slots - 1
          · rw [List.getElem?_append_left (by simpa using inside), List.getElem?_replicate] at slot
            split at slot <;> cases slot
          · have beyond : first.tag.slots - 1 ≤ k := Nat.not_lt.mp inside
            rw [List.getElem?_append_right (by simpa using beyond), List.length_replicate]
              at slot
            rw [List.getElem?_append_right (by simp; omega), List.length_replicate]
            have next : k + 1 - (first.tag.slots - 1) = k - (first.tag.slots - 1) + 1 := by omega
            rw [next]
            exact inductionHypothesis slot

end Spaced

namespace Consed

variable (consed : p.Consed) {i : Int} {e : Entry}
include consed

/-- The entry of an index is what its slot holds, and there is none below 1 or in the second slot of
a wide constant. -/
theorem entry_eq_slot (i : Int) : p.entry i =
    if i < 1 then .error (.misuse (.notAnEntry i p.size))
    else match (p.slots[(i - 1).toNat]?).join with
      | some e => .ok e
      | none => .error (.misuse (.notAnEntry i p.size)) := by
  rw [entry, consed.orphan, consed.base]
  rfl

/-- What is looked up by index are the entries of the pool. -/
theorem entry_eq_ok_iff : p.entry i = .ok e ↔ p.Has e ∧ (e.index : Int) = i := by
  rw [consed.entry_eq_slot]
  constructor
  · intro found
    split at found
    · cases found
    · rename_i positive
      split at found
      · rename_i e' slot
        obtain rfl := Except.ok.inj found
        have slot' := Option.join_eq_some_iff.mp slot
        have place := (consed.entries _ _ slot').1
        refine ⟨.own place slot', ?_⟩
        rw [Entry.index, place, consed.base]
        simp only [Int.natCast_add]
        omega
      · cases found
  · rintro ⟨has, rfl⟩
    obtain ⟨k, place, slot⟩ := consed.slot has
    have index : (e.index : Int) = 1 + k := by
      rw [Entry.index, place, consed.base]
      simp
    rw [if_neg (by omega), index]
    have same : (1 + (k : Int) - 1).toNat = k := by omega
    rw [same, slot]
    rfl

/-- The index after a wide constant is that of no entry. -/
theorem entry_second (found : p.entry i = .ok e) (wide : e.tag.slots = 2) :
    p.entry (i + 1) = .error (.misuse (.notAnEntry (i + 1) p.size)) := by
  obtain ⟨has, rfl⟩ := consed.entry_eq_ok_iff.mp found
  obtain ⟨k, place, slot⟩ := consed.slot has
  have index : (e.index : Int) = 1 + k := by
    rw [Entry.index, place, consed.base]
    simp
  have empty := consed.spaced.second (by rwa [Array.getElem?_toList]) wide
  rw [Array.getElem?_toList] at empty
  rw [consed.entry_eq_slot, if_neg (by omega), index]
  have same : (1 + (k : Int) + 1 - 1).toNat = k + 1 := by omega
  rw [same, empty]
  rfl

/-- The constants of a pool in order are numbered from 1 up to its size. -/
theorem numbered : Numbered 1 p.entries p.size := by
  have length : p.size = 1 + p.slots.toList.length := by
    rw [size, consed.base, Array.length_toList]
  rw [length]
  refine consed.spaced.numbered fun k e slot => ?_
  rw [Array.getElem?_toList] at slot
  rw [Entry.index, (consed.entries k e slot).1, consed.base]

end Consed

/-- A pool that has outgrown its limit reports that, or an error that it had before it did. -/
theorem Steps.outgrown (steps : PoolBuilder.empty.Steps p) (big : maxSize < p.size) :
    p.error = some (.misuse .poolOverflow) ∨ ∃ q, PoolBuilder.empty.Steps q ∧ q.Steps p ∧
      q.size ≤ maxSize ∧ q.error ≠ none ∧ p.error = q.error := by
  induction steps with
  | refl => exact absurd big (by decide)
  | @step q r prior next inductionHypothesis =>
      have kept := (Consed.empty.steps prior).kept
      by_cases before : maxSize < q.size
      · rcases inductionHypothesis before with overflow | ⟨o, first, second, small, failed, same⟩
        · exact .inl (next.later.error _ overflow (kept _ overflow))
        · refine .inr ⟨o, first, second.trans next.steps, small, failed, ?_⟩
          obtain ⟨e, error⟩ := Option.ne_none_iff_exists'.mp failed
          rw [error] at same ⊢
          exact next.later.error e same (kept e same)
      · have small := Nat.not_lt.mp before
        cases next with
        | index => exact absurd big before
        | refuse m => exact absurd big before
        | link fresh => exact absurd big before
        | @enter e fresh fits =>
            refine absurd big (Nat.not_lt.mpr ?_)
            have positive : 0 < e.key.tag.slots := by cases e.key.tag <;> decide
            simp only [size, withEntry, Array.size_append, Array.size_push,
              Array.size_replicate] at fits ⊢
            omega
        | @overflow e fresh full =>
            have next := (Step.overflow fresh full).steps
            by_cases clear : q.error = none
            · left
              change some (Error.first q.error _) = _
              rw [clear]
              rfl
            · obtain ⟨first, error⟩ := Option.ne_none_iff_exists'.mp clear
              exact .inr ⟨q, prior, next, small, clear,
                (next.later.error first error (kept first error)).trans error.symm⟩

/-- What is true of a pool after the calls of a history. -/
structure HashConsed (p : PoolBuilder) (history : List (Call × Answer)) : Prop where
  /-- Every call was answered with what it asked for, which the pool still has. -/
  answered : ∀ ca ∈ history, p.Meets ca.2 ca.1.demand
  /-- Looking up the index of an entry that the pool has gives the entry back. -/
  index : ∀ (i : Int) (e : Entry), p.entry i = .ok e ↔ p.Has e ∧ (e.index : Int) = i
  /-- Two entries have the same index exactly if they denote the same constant. -/
  entries : ∀ e e', p.Has e → p.Has e' → (e.index = e'.index ↔ e.bare = e'.bare)
  /-- The same is true of rows. -/
  rows : ∀ a b, p.HasRow a → p.HasRow b → (a.index = b.index ↔ a.bare = b.bare)
  /-- Indices start at one and go up by the slots of each entry. -/
  numbered : Numbered 1 p.entries p.size
  /-- There is no entry at the second slot of another. -/
  second : ∀ (i : Int) (e : Entry), p.entry i = .ok e → e.tag.slots = 2 →
    p.entry (i + 1) = .error (.misuse (.notAnEntry (i + 1) p.size))
  /-- A pool beyond its limit reports an overflow, or what it reported before that. -/
  outgrown : maxSize < p.size → p.error = some (.misuse .poolOverflow) ∨
    ∃ q, PoolBuilder.empty.Steps q ∧ q.Steps p ∧ q.size ≤ maxSize ∧ q.error ≠ none ∧
      p.error = q.error

/-- Any calls of a pool that starts from nothing leave it hash-consed. -/
theorem hash_consed (calls : List Call) (genuine : PoolBuilder.empty.AllGenuine calls) :
    HashConsed (answerAll calls .empty).2 (answerAll calls .empty).1 := by
  obtain ⟨steps, answered⟩ := answers_answerAll genuine .empty
  have consed := Consed.empty.steps steps
  exact {
    answered
    index := fun i e => consed.entry_eq_ok_iff
    entries := fun e e' first second =>
      ⟨fun same => by rw [consed.told.entries first second same],
        fun same => by rw [consed.eq_of_bare first second same]⟩
    rows := fun a b first second =>
      ⟨fun same => by rw [consed.told.rows first second same],
        fun same => by rw [consed.row_eq a b first second same]⟩
    numbered := consed.numbered
    second := fun i e => consed.entry_second
    outgrown := steps.outgrown }

/-- A number of two slots, a text, and the same text out of a parsed class. -/
theorem hash_consed_long_text :
    let calls : List Call := [.long 5, .utf8 "T", .refer (.utf8 ⟨⟨.input 0, 3⟩, "T"⟩)]
    PoolBuilder.empty.AllGenuine calls ∧
      HashConsed (answerAll calls .empty).2 (answerAll calls .empty).1 := by
  intro calls
  have genuine : PoolBuilder.empty.AllGenuine calls :=
    ⟨rfl, trivial, .inr ⟨nofun, trivial⟩, trivial⟩
  exact ⟨genuine, hash_consed calls genuine⟩

end JvmClass.PoolBuilder
