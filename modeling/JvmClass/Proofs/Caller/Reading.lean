import JvmClass.Proofs.Build.Reading
import JvmClass.Proofs.Build.Rebuild
import JvmClass.Proofs.Caller.Levels

/-!
# Reading what programs put together

Programs that hand over nothing but constants which some pool made leave a pool that started from
nothing in order. So a class that they build is read with the indices and rows that its pool has.
-/

namespace JvmClass

open Caller
open PoolBuilder (Call Consed Steps)

variable {σ : Type}

/-! ## A contract -/

/-- All constants that went into calls were made by some pool. -/
def Session.Honest (s : Session (σ × Diary)) : Prop := s.user.2.Genuine

/-- A session stays honest where a genuine event is written into its diary. -/
theorem Session.honest_writing_iff {s : Session (σ × Diary)} {event : Event} :
    (s.writing event).Honest ↔ s.Honest ∧ event.Genuine := by
  change (∀ e ∈ s.user.2 ++ [event], e.Genuine) ↔ _
  rw [List.forall_mem_append, List.forall_mem_singleton]
  rfl

/-- As long as callers are honest the pool is in order and goes on by steps. -/
def Contract.honest (σ : Type) : Contract (σ × Diary) where
  Fine s := s.Honest → s.pool.Consed
  Thrown _ s := s.Honest → s.pool.Consed
  Later s s' := s'.Honest → s.Honest ∧ s.pool.Steps s'.pool
  Given s e := s.Honest → e.Genuine s.pool
  Alone s := s.Honest ∧ s.pool.parent = none
  refl _ honest := ⟨honest, .refl⟩
  trans first second honest := by
    obtain ⟨honest', steps'⟩ := second honest
    obtain ⟨honest'', steps⟩ := first honest'
    exact ⟨honest'', steps.trans steps'⟩
  given later given honest := by
    obtain ⟨honest', steps⟩ := later honest
    exact (given honest').mono steps.later
  alone later alone := by
    obtain ⟨honest, steps⟩ := later alone.1
    exact ⟨honest, steps.later.parent.symm.trans alone.2⟩
  parent alone := alone.2
  proceeds {s s'} fine goes := by
    have honest (now : s'.Honest) : s.Honest := by
      rw [Session.Honest, ← goes.user]
      exact now
    have steps (now : s'.Honest) : s.pool.Steps s'.pool :=
      goes.steps (fine (honest now)) fun e given => given (honest now)
    exact ⟨fun now => ⟨honest now, steps now⟩, fun now => (fine (honest now)).steps (steps now)⟩
  thrown _ := id
  fail fine := ⟨fun honest => ⟨honest, .refl⟩, fine⟩

/-- Programs keep it, as all that they hand over is in the diary. -/
def Contract.honest_hosts (σ : Type) : (honest σ).Hosts where
  Asked s q := s.Honest → q.Genuine s.pool
  asked later asked honest := by
    obtain ⟨honest', steps⟩ := later honest
    exact (asked honest').mono steps.later
  utf8 _ _ _ := trivial
  keep kept fine := ⟨fun honest => ⟨honest, .refl⟩, fine⟩
  called handed asked fine :=
    have told := fun now => Session.honest_writing_iff.mp now
    ⟨fun now => ⟨(told now).1, .refl⟩, fun now => fine (told now).1,
      fun x member now => (told now).2.1 x member, fun q member now => (told now).2.2 q member⟩
  met fine :=
    have told := fun now => (Session.honest_writing_iff.mp now).1
    ⟨fun now => ⟨told now, .refl⟩, fun now => fine (told now)⟩
  raised e fine :=
    have told := fun now => (Session.honest_writing_iff.mp now).1
    ⟨fun now => ⟨told now, .refl⟩, fun now => fine (told now)⟩
  answer {s q} fine asked := by
    have answers (honest : s.Honest) := Call.answers_run (asked honest) (fine honest)
    refine ⟨fun honest => ⟨honest, (answers honest).1⟩,
      fun honest => (fine honest).steps (answers honest).1, fun x answer honest => ?_⟩
    have meets := (answers honest).2
    rw [answer] at meets
    generalize q.demand = demand at meets
    cases demand with
    | constant bare => exact meets.1.genuine
    | row bare => exact meets.elim

/-- The class that a pool in order gives. -/
theorem PoolBuilder.Answers.started {p : PoolBuilder} {act : Interning ClassEntry}
    {post : ClassEntry → Prop}
    (answers : PoolBuilder.Answers p act fun q c => q.Has (.loadable (.class c)) ∧ post c)
    (consed : p.Consed) : (act p).2.Consed ∧ p.Steps (act p).2 ∧
      (act p).2.Has (.loadable (.class (act p).1)) :=
  ⟨consed.steps (answers consed).1, (answers consed).1, (answers consed).2.1⟩

namespace Caller.Assembly

variable {a : Assembly σ} {kept : σ}

/-- A class that is put together with a pool of its own. -/
def Apart : Assembly σ → Prop
  | .build .. => True
  | .rebuild c _ _ => c.options.has .noPoolSharing = true ∧ c.this.place.origin ≠ .output

/-- The pool that a class ends up with. -/
def pool (a : Assembly σ) (kept : σ) : PoolBuilder := (a.finished kept).2.pool

/-- A draft that may be filled in, with a pool that is in order. -/
structure Opens (kept : σ) (opened : ClassDraft × Session (σ × Diary)) : Prop where
  consed : opened.2.pool.Consed
  blank : opened.2.user = (kept, [])
  scannable : opened.1.Scannable
  genuine : ∀ x ∈ opened.1.mentions, x.Genuine opened.2.pool

/-- The class under its name, be that its own or a new one. -/
def adopting (c : ClassFile) (newName : Option Text) : Interning ClassEntry := do
  let this ← match newName with
    | some name => PoolBuilder.class_ name
    | none => pure c.this
  PoolBuilder.adoptClass this

/-- The name of a class is taken over into a pool of its own. -/
theorem answers_adopting {c : ClassFile} (foreign : c.this.place.origin ≠ .output)
    (newName : Option Text) : PoolBuilder.Answers .empty (adopting c newName)
      fun q c => q.Has (.loadable (.class c)) ∧ True := by
  cases newName with
  | none =>
      exact (PoolBuilder.answers_adoptClass (e := c.this) (.inr ⟨foreign, trivial⟩)).mono
        fun _ _ _ _ has => ⟨has.1, trivial⟩
  | some name =>
      exact (PoolBuilder.answers_class name).bind fun _ _ _ has =>
        (PoolBuilder.answers_adoptClass (.inl has.1)).mono fun _ _ _ _ has => ⟨has.1, trivial⟩

/-- A draft that is opened with a pool of its own has the names of the class in it. -/
theorem Apart.opens (apart : a.Apart) (kept : σ) : Opens kept (a.opened kept) := by
  cases a with
  | build this super options configure =>
      obtain ⟨consed, -, has⟩ := (PoolBuilder.answers_class this).started Consed.empty
      rcases named : PoolBuilder.class_ this .empty with ⟨c, p⟩
      rw [named] at consed has
      cases bare : super.isEmpty with
      | true =>
          have same : (build this super options configure).opened kept =
              (.start c none, Build.start options p (kept, [])) := by
            simp only [opened, bare, Build.interning, Build.start, bind_apply, named]
            rfl
          rw [same]
          refine ⟨consed, rfl, .empty rfl rfl, fun x member => ?_⟩
          obtain rfl := List.mem_singleton.mp member
          exact has.genuine
      | false =>
          obtain ⟨consed', steps, has'⟩ := (PoolBuilder.answers_class super).started consed
          rcases named' : PoolBuilder.class_ super p with ⟨c', p'⟩
          rw [named'] at consed' steps has'
          have same : (build this super options configure).opened kept =
              ({ ClassDraft.start c none with super := some c' },
                Build.start options p' (kept, [])) := by
            simp only [opened, bare, Build.interning, Build.start, bind_apply, named]
            rw [if_neg Bool.false_ne_true]
            simp only [Build.interning, bind_apply, named']
            rfl
          rw [same]
          refine ⟨consed', rfl, .empty rfl rfl, fun x member => ?_⟩
          rcases List.mem_cons.mp member with rfl | member
          · exact (steps.later.has has).genuine
          · obtain rfl := List.mem_singleton.mp member
            exact has'.genuine
  | rebuild c newName t =>
      obtain ⟨unshared, foreign⟩ := apart
      obtain ⟨consed, -, has⟩ := (answers_adopting foreign newName).started Consed.empty
      generalize adopted : adopting c newName .empty = result at consed has
      have same : (rebuild c newName t).opened kept =
          (.start result.1 (some c), Build.start c.options result.2 (kept, [])) := by
        rw [← adopted]
        simp only [opened, unshared, ↓reduceIte]
        cases newName <;> rfl
      rw [same]
      refine ⟨consed, rfl, .empty rfl rfl, fun x member => ?_⟩
      obtain rfl := List.mem_singleton.mp member
      exact has.genuine

/-- A class that honest programs put together apart was finished with a pool in order. -/
theorem Apart.assembled (apart : a.Apart) {bytes : Bytes} (made : (a.result kept).1 = .ok bytes)
    (honest : (a.result kept).2.2.Genuine) : ∃ d s q, a.filled kept = ((.ok (), d), s) ∧
      d.Scannable ∧ q.Grows (a.pool kept) ∧ (a.pool kept).Consed ∧
      d.Assembled q (a.pool kept) bytes := by
  have opens := apart.opens kept
  have ended := a.tries_fill (Contract.honest_hosts σ) _ _ (fun _ => opens.consed)
    ⟨fun x member _ => opens.genuine x member, fun _ => opens.scannable⟩
  have ran : a.fill.run (a.opened kept).1 (a.opened kept).2 = a.filled kept := rfl
  obtain ⟨-, same⟩ :=
    a.result_of_not_aborted kept fun ⟨x, failed, _⟩ => nomatch failed.symm.trans made
  rw [ran] at ended
  rw [a.result_eq kept] at honest
  rw [same] at made
  rcases filled : a.filled kept with ⟨⟨x | ⟨⟩, d⟩, s⟩
  · rw [a.finished_of_error kept filled] at made
    cases made
  · have closed := a.finished_of_ok kept filled
    rw [closed] at made honest
    rw [filled] at ended
    have reached : (Contract.honest σ).Reaches (a.opened kept).2 d s := ended
    have goes : s.Proceeds (fun e => (Contract.honest σ).Given s e) (d.finish s).2 :=
      ClassDraft.does_finish
        (l := .proceeding _ ((Contract.honest σ).Given s)) reached.keeps.given s
    have honest : s.Honest := by
      rw [Session.Honest, ← goes.user]
      exact honest
    have alone : (Contract.honest σ).Alone s :=
      ⟨honest, (reached.later honest).2.later.parent.trans opens.consed.orphan⟩
    obtain ⟨q, -, after, assembled⟩ := ClassDraft.assembled_of_finish (Prod.ext made rfl)
    have consed := reached.fine honest
    have steps := goes.steps consed fun e given => given honest
    have pool : a.pool kept = (d.finish s).2.pool := by rw [Assembly.pool, closed]
    rw [pool]
    exact ⟨d, s, q, rfl, reached.keeps.whole alone, after, consed.steps steps, assembled⟩

/-- What is read of a class that honest programs built, or made from another one apart from its
pool, is the pool that it was written with: as many indices and rows, each of which gives what
denotes the same, or nothing where the pool has nothing. Its texts have to be UTF-8, and the
programs may add no bootstrap table of their own. -/
theorem read_back {bytes : Bytes} {number : Nat} {options : Options} {c c' : ClassFile}
    (apart : a.Apart) (made : (a.result kept).1 = .ok bytes)
    (honest : (a.result kept).2.2.Genuine)
    (foreign : ∀ x ∈ (a.filled kept).1.2.attributes, x.name ≠ Lookup.bootstrapMethods)
    (utf8 : ∀ i u, (a.pool kept).entry i = .ok (.utf8 u) → u.text.isUtf8 = true)
    (few : (a.pool kept).rows.size ≤ 65535)
    (short : ∀ row ∈ (a.pool kept).rows, row.arguments.length ≤ 65535)
    (addressable : Cursor.Addressable ⟨bytes.toArray⟩)
    (parsed : ClassFile.parse number bytes.toArray options = .ok c) (state : c.StateOf c') :
    c'.pool.Mirrors (a.pool kept) := by
  obtain ⟨d, s, q, filled, scannable, after, consed, assembled⟩ := apart.assembled made honest
  have read := ClassFile.parsedFrom_of_parse addressable parsed
  have exact := state.exact read
  obtain ⟨-, -, fine, indexed, -⟩ := id assembled
  have readable : (a.pool kept).Readable := {
    toConsed := consed
    fine
    known := after.indexed indexed
    utf8 := fun u has => utf8 _ u (consed.entry_eq_ok_iff.mpr ⟨has, rfl⟩)
    few
    narrow := short }
  have cursor : c'.input.layout.cursor = ⟨bytes.toArray⟩ := by
    cases state with
    | parsed => exact read.cursor
    | settled search => exact read.cursor
  exact assembled.mirrors readable scannable exact.scanned cursor
    (by rw [cursor]; exact addressable) exact.tells (by rw [filled] at foreign; exact foreign)

end Caller.Assembly

namespace Caller

/-- A class without a superclass that is built with a number in its pool. -/
def numbered : Assembly Unit := .build "A" "" .none (.ask (.long 5) fun _ => .stop)

/-- The file that is built. -/
def numberedBytes : Bytes :=
  [0xCA, 0xFE, 0xBA, 0xBE, 0, 0, 0, 52, 0, 5,
    1, 0, 1, 65,
    7, 0, 1,
    5, 0, 0, 0, 0, 0, 0, 0, 5,
    0, 1, 0, 2, 0, 0, 0, 0, 0, 0, 0, 0, 0, 0]

/-- The class of the file. -/
def numberedClass : ClassEntry := ⟨⟨.output, 2⟩, ⟨.output, 1⟩, "A"⟩

/-- The pool with the name of the class. -/
def named : PoolBuilder :=
  { PoolBuilder.empty with indexed := true }.withEntry (.text "A") (.utf8 numberedClass.name)

/-- The pool with the class, too. -/
def classed : PoolBuilder :=
  named.withEntry (.single .class 1) (.loadable (.class numberedClass))

/-- The pool with the number, too. -/
def counted : PoolBuilder :=
  classed.withEntry (.integral .long 64 5) (.loadable (.long ⟨.output, 3⟩ 5))

/-- The slots of the pool: the name, the class, and the number with nothing behind it. -/
theorem slots_counted : counted.slots = #[some (.utf8 numberedClass.name),
    some (.loadable (.class numberedClass)), some (.loadable (.long ⟨.output, 3⟩ 5)), none] := rfl

/-- The class is entered behind its name. -/
theorem class_classed : PoolBuilder.class_ "A" .empty = (numberedClass, classed) := by
  have short : (ModifiedUtf8.encode "A").length ≤ PoolBuilder.maxTextLength := by cbv
  exact PoolBuilder.class_empty short

/-- The number is entered behind the class, and takes two slots. -/
theorem long_counted : PoolBuilder.long 5 classed = (.long ⟨.output, 3⟩ 5, counted) := by
  have unknown : classed.places[ConstantKey.integral .long 64 5]? = none := by
    rw [classed, PoolBuilder.withEntry, Std.HashMap.getElem?_insert]
    change named.places[ConstantKey.integral .long 64 5]? = none
    rw [named, PoolBuilder.withEntry, Std.HashMap.getElem?_insert]
    exact Std.HashMap.getElem?_empty
  have interned : PoolBuilder.intern (.integral .long 64 5) (fun p => .loadable (.long p 5))
      classed = _ :=
    PoolBuilder.intern_fresh unknown (by decide)
  have through : PoolBuilder.long 5 classed =
      (PoolBuilder.intern (.integral .long 64 5) (fun p => .loadable (.long p 5)) classed).map
        (.long · 5) id := rfl
  rw [through, interned]
  rfl

/-- The class as it is filled in. -/
def numberedDraft : ClassDraft := .start numberedClass none

/-- What the caller did. -/
def numberedDiary : Diary := [.called [] [.long 5] classed, .met none none]

/-- Building opens a draft in the pool of the class. -/
theorem opened_numbered :
    numbered.opened () = (numberedDraft, Build.start .none classed ((), [])) := by
  have ran : numbered.opened () =
      (.start (PoolBuilder.class_ "A" .empty).1 none,
        Build.start .none (PoolBuilder.class_ "A" .empty).2 ((), [])) := rfl
  rw [ran, class_classed]
  rfl

/-- Filling in enters the number, and the diary tells of it. -/
theorem filled_numbered : numbered.filled () =
    ((.ok (), numberedDraft), Build.start .none counted ((), numberedDiary)) := by
  have ran : numbered.filled () =
      ((.ok (), (numbered.opened ()).1),
        let s := (numbered.opened ()).2
        { s with
          pool := (PoolBuilder.long 5 s.pool).2
          user := ((), s.user.2 ++ [.called [] [.long 5] s.pool] ++
            [.met s.error (PoolBuilder.long 5 s.pool).2.error]) }) := rfl
  rw [ran, opened_numbered]
  dsimp only [Build.start]
  rw [long_counted]
  rfl


/-- The class is finished as the file above. -/
theorem finished_numbered : numbered.finished () =
    (.ok numberedBytes, Build.start .none counted ((), numberedDiary)) := by
  have outcome : (numberedDraft.finish
      (Build.start .none counted ((), numberedDiary))).1.toOption = some numberedBytes := by
    decide +kernel
  rw [numbered.finished_of_ok () filled_numbered]
  exact Prod.ext (toOption_eq_some_iff.mp outcome) rfl

/-- Nothing went wrong, so the file is what building gives. -/
theorem result_numbered : numbered.result () = (.ok numberedBytes, ((), numberedDiary)) := by
  rw [numbered.result_eq, finished_numbered]
  rfl

/-- No constant went into a call. -/
theorem genuine_numbered : numberedDiary.Genuine := by
  intro event member
  rcases List.mem_cons.mp member with rfl | member
  · refine ⟨fun e member => (List.not_mem_nil member).elim, fun q member => ?_⟩
    obtain rfl := List.mem_singleton.mp member
    exact (rfl : signed 64 5 = 5)
  · obtain rfl := List.mem_singleton.mp member
    trivial

/-- A class that has a number is read with it. -/
theorem read_back_numbered : ∃ c, (numbered.result ()).1 = .ok numberedBytes ∧
    ClassFile.parse 0 numberedBytes.toArray .none = .ok c ∧ c.pool.Mirrors (numbered.pool ()) := by
  have made : (numbered.result ()).1 = .ok numberedBytes := congrArg Prod.fst result_numbered
  have honest : (numbered.result ()).2.2.Genuine := by
    rw [result_numbered]
    exact genuine_numbered
  have pool : numbered.pool () = counted := by
    rw [Assembly.pool, finished_numbered]
    rfl
  have ran : (match ClassFile.parse 0 numberedBytes.toArray .none with
      | .error _ => false
      | .ok _ => true) = true := by
    decide +kernel
  split at ran
  · cases ran
  · rename_i c parsed
    refine ⟨c, made, parsed,
      numbered.read_back trivial made honest ?foreign ?utf8 ?few ?short ?addressable parsed .parsed⟩
    case foreign =>
      rw [filled_numbered]
      exact fun x member => (Array.not_mem_empty x member).elim
    case utf8 =>
      obtain ⟨-, -, -, -, -, -, consed, -⟩ :=
        Assembly.Apart.assembled (a := numbered) trivial made honest
      rw [pool] at consed ⊢
      intro i u found
      obtain ⟨has, -⟩ := consed.entry_eq_ok_iff.mp found
      obtain ⟨k, -, slot⟩ := consed.slot has
      have member := Array.mem_of_getElem? slot
      rw [slots_counted] at member
      obtain rfl : u = numberedClass.name := by simpa using member
      decide +kernel
    case few =>
      rw [pool]
      decide
    case short =>
      rw [pool]
      exact fun row member => (Array.not_mem_empty row member).elim
    case addressable =>
      exact (by decide : numberedBytes.toArray.size < 0x4000000000000000)

end Caller
end JvmClass

