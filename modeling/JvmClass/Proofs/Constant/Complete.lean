import JvmClass.Proofs.Constant.Lookup

/-!
# Looking up gives all that is held

References between constants that hold something never go round in a circle, so a lookup of one
of them comes to an end before it runs out of room. Whatever was looked up before, it gives what
the index holds.
-/

namespace JvmClass

namespace Layout

variable {l : Layout} {origin : Origin}

/-- Index `i` holds the entry `e` by a chain of references of at most the given length. -/
def HeldWithin (l : Layout) (origin : Origin) : Nat → Nat → Entry → Prop
  | 0, _, _ => False
  | n + 1, i, e => ∃ t p, l.ConstantAt i t p ∧ l.Decodes (l.HeldWithin origin n) ⟨origin, i⟩ p t e

/-- A chain of references may be as long as allowed by one more. -/
theorem HeldWithin.succ {n i : Nat} {e : Entry} (held : l.HeldWithin origin n i e) :
    l.HeldWithin origin (n + 1) i e := by
  induction n generalizing i e with
  | zero => exact held.elim
  | succ n inductionHypothesis =>
      obtain ⟨t, p, constant, decodes⟩ := held
      exact ⟨t, p, constant, decodes.mono fun j e => inductionHypothesis⟩

/-- A chain of references may be as long as allowed by any greater bound. -/
theorem HeldWithin.mono {m n i : Nat} {e : Entry} (longer : m ≤ n)
    (held : l.HeldWithin origin m i e) : l.HeldWithin origin n i e := by
  induction longer with
  | refl => exact held
  | step longer inductionHypothesis => exact inductionHypothesis.succ

/-- What is held by a chain of bounded length is held. -/
theorem HeldWithin.holds {n i : Nat} {e : Entry} (held : l.HeldWithin origin n i e) :
    l.Holds origin i e := by
  induction n generalizing i e with
  | zero => exact held.elim
  | succ n inductionHypothesis =>
      obtain ⟨t, p, constant, decodes⟩ := held
      exact holds_iff.mpr ⟨t, p, constant, decodes.mono fun j e => inductionHypothesis⟩

section Bounded

variable {held : Nat → Nat → Entry → Prop}

/-- An index that refers to an entry held within some length does so within one length. -/
theorem Refers.bounded {α : Type} {want : Entry → Option α} {p : Nat} {a : α}
    (refers : l.Refers (fun j e => ∃ n, held n j e) want p a) :
    ∃ n, l.Refers (held n) want p a := by
  obtain ⟨index, ⟨n, entry⟩, taken⟩ := refers
  exact ⟨n, index, entry, taken⟩

variable (grows : ∀ m n j e, m ≤ n → held m j e → held n j e)
include grows

/-- The references of a row hold within one length, as they are finitely many. -/
theorem RowFrom.bounded {p : Nat} {row : BootstrapRow}
    (lies : l.RowFrom (fun j e => ∃ n, held n j e) p row) : ∃ n, l.RowFrom (held n) p row := by
  have arguments (count : Nat) : ∃ n, ∀ k < count, ∀ a, row.arguments[k]? = some a →
      l.Refers (held n) Entry.loadable? (p + 4 + 2 * k) a := by
    induction count with
    | zero => exact ⟨0, fun k below => absurd below (Nat.not_lt_zero k)⟩
    | succ count inductionHypothesis =>
        obtain ⟨n, before⟩ := inductionHypothesis
        by_cases inside : ∃ a, row.arguments[count]? = some a
        · obtain ⟨a, here⟩ := inside
          obtain ⟨n', last⟩ := (lies.arguments count a here).bounded
          refine ⟨max n n', fun k below b here' => ?_⟩
          rcases Nat.lt_succ_iff_lt_or_eq.mp below with earlier | rfl
          · exact (before k earlier b here').mono fun _ _ => grows _ _ _ _ (Nat.le_max_left ..)
          · obtain rfl := Option.some.inj (here.symm.trans here')
            exact last.mono fun _ _ => grows _ _ _ _ (Nat.le_max_right ..)
        · refine ⟨n, fun k below b here => ?_⟩
          rcases Nat.lt_succ_iff_lt_or_eq.mp below with earlier | rfl
          · exact before k earlier b here
          · exact absurd ⟨b, here⟩ inside
  obtain ⟨n, handle⟩ := lies.handle.bounded
  obtain ⟨n', each⟩ := arguments row.arguments.length
  refine ⟨max n n', handle.mono fun _ _ => grows _ _ _ _ (Nat.le_max_left ..), lies.count,
    fun k a here => ?_⟩
  have inside := (List.getElem?_eq_some_iff.mp here).1
  exact (each k inside a here).mono fun _ _ => grows _ _ _ _ (Nat.le_max_right ..)

/-- The row with a number holds within one length. -/
theorem RowAt.bounded {r : Nat} {row : BootstrapRow}
    (rowed : l.RowAt origin (fun j e => ∃ n, held n j e) r row) :
    ∃ n, l.RowAt origin (held n) r row := by
  obtain ⟨place, table, p, isTable, inside, lies⟩ := rowed
  obtain ⟨n, lies⟩ := lies.bounded grows
  exact ⟨n, place, table, p, isTable, inside, lies⟩

/-- A constant refers to finitely many others, so one length does for all of them. -/
theorem Decodes.bounded {place : Place} {p : Nat} {t : Tag} {e : Entry}
    (decodes : l.Decodes (fun j e => ∃ n, held n j e) place p t e) :
    ∃ n, l.Decodes (held n) place p t e := by
  have left (m n : Nat) : ∀ j e, held m j e → held (max m n) j e :=
    fun _ _ => grows _ _ _ _ (Nat.le_max_left ..)
  have right (m n : Nat) : ∀ j e, held n j e → held (max m n) j e :=
    fun _ _ => grows _ _ _ _ (Nat.le_max_right ..)
  cases decodes with
  | utf8 spelled => exact ⟨0, .utf8 spelled⟩
  | integer value => exact ⟨0, .integer value⟩
  | float bits => exact ⟨0, .float bits⟩
  | long value => exact ⟨0, .long value⟩
  | double bits => exact ⟨0, .double bits⟩
  | «class» named => exact named.bounded.imp fun n named => .class named
  | string spelled => exact spelled.bounded.imp fun n spelled => .string spelled
  | methodType described => exact described.bounded.imp fun n described => .methodType described
  | module named => exact named.bounded.imp fun n named => .module named
  | package named => exact named.bounded.imp fun n named => .package named
  | nameAndType named typed =>
      obtain ⟨m, named⟩ := named.bounded
      obtain ⟨n, typed⟩ := typed.bounded
      exact ⟨max m n, .nameAndType (named.mono (left m n)) (typed.mono (right m n))⟩
  | member tag owned named =>
      obtain ⟨m, owned⟩ := owned.bounded
      obtain ⟨n, named⟩ := named.bounded
      exact ⟨max m n, .member tag (owned.mono (left m n)) (named.mono (right m n))⟩
  | handle kind targeted accepts =>
      exact targeted.bounded.imp fun n targeted => .handle kind targeted accepts
  | dynamic number rowed named =>
      obtain ⟨m, rowed⟩ := rowed.bounded grows
      obtain ⟨n, named⟩ := named.bounded
      exact ⟨max m n, .dynamic number (rowed.mono (left m n)) (named.mono (right m n))⟩
  | callSite number rowed named =>
      obtain ⟨m, rowed⟩ := rowed.bounded grows
      obtain ⟨n, named⟩ := named.bounded
      exact ⟨max m n, .callSite number (rowed.mono (left m n)) (named.mono (right m n))⟩

end Bounded

/-- What is held is held by a chain of references of some length. -/
theorem Holds.within {i : Nat} {e : Entry} (holds : l.Holds origin i e) :
    ∃ n, l.HeldWithin origin n i e := by
  induction holds with
  | intro inner held constant decodes inductionHypothesis =>
      have grows (m n j : Nat) (e : Entry) (longer : m ≤ n) (held : l.HeldWithin origin m j e) :
          l.HeldWithin origin n j e := held.mono longer
      obtain ⟨n, decodes⟩ := Decodes.bounded grows (decodes.mono inductionHypothesis)
      exact ⟨n + 1, _, _, constant, decodes⟩

end Layout

namespace Lookup

variable {l : Layout} {origin : Origin} {entry : EntryAt}

/-- The search for the table of a class that has one always gives it. -/
theorem always_findTable (gives : GivesHeld l origin entry) {table : Array Nat}
    (isTable : l.IsTable origin table) : Always l origin false (findTable l entry) table := by
  intro m recalls
  rw [findTable, run_bind, run_get]
  rcases recalls.kept rfl table isTable with unknown | known
  · simp only [unknown]
    rw [run_search]
    exact always_scan gives isTable _ recalls.searches
  · simp only [known]
    rfl

section Steps

variable (gives : GivesHeld l origin entry) {held : Nat → Entry → Prop}
  (each : ∀ j e, held j e → Always l origin false (entry j) e)
include gives each

/-- Looking up a reference gives what it refers to. -/
theorem always_referAt {α : Type} {want : Entry → Option α} {offset p : Nat} {a : α}
    (refers : l.Refers held want p a) :
      Always l origin false (referAt l entry want offset p) a := by
  obtain ⟨index, holds, taken⟩ := refers
  refine .bind .covered (.covered index)
    (.adapt (.bind (gives.sound false _) (each _ _ holds) ?_))
  simp only [taken]
  exact .pure a

/-- Looking up the arguments of a row gives all that they refer to, after those that were done
before. -/
theorem always_argumentsFrom {done rest : List Loadable} {p : Nat}
    (refers : ∀ k a, rest[k]? = some a → l.Refers held Entry.loadable? (p + 2 * k) a) :
    Always l origin false (argumentsFrom l entry done p rest.length) (done.reverse ++ rest) := by
  induction rest generalizing done p with
  | nil =>
      rw [List.append_nil]
      exact .pure _
  | cons a rest inductionHypothesis =>
      have first : l.Refers held Entry.loadable? p a := refers 0 a rfl
      have others := @inductionHypothesis (a :: done) (p + 2) fun k b here => by
        have next : p + 2 * (k + 1) = p + 2 + 2 * k := by omega
        exact next ▸ refers (k + 1) b here
      rw [List.reverse_cons, List.append_assoc, List.singleton_append] at others
      exact .bind (sound_referAt gives) (always_referAt gives each first) others

/-- Looking up a row gives the row with this number, from every memo that recalls what is held. -/
theorem always_row {r : Nat} {row : BootstrapRow} (isHeld : ∀ j e, held j e → l.Holds origin j e)
    (rowed : l.RowAt origin held r row) :
    Always l origin false (Lookup.row l origin entry r) row := by
  have whole := rowed.mono isHeld
  obtain ⟨place, table, p, isTable, inside, lies⟩ := rowed
  refine .bind (sound_findTable gives) (always_findTable gives isTable) fun m recalls => ?_
  have natural : ¬(r : Int) < 0 := by omega
  simp only [natural, ↓reduceIte, Int.toNat_natCast, inside, run_bind, run_get]
  split
  · rename_i done remembered
    rw [(recalls.rows r done remembered).functional
      (fun j a b first second => first.functional second) whole]
    rfl
  · have arguments : Always l origin false (argumentsFrom l entry [] (p + 4) row.arguments.length)
        ([].reverse ++ row.arguments) := always_argumentsFrom gives each lies.arguments
    have read : Always l origin false (do
        let handle ← referAt l entry Entry.handle? p p
        let n ← covered (l.cursor.u2? (p + 2))
        let arguments ← argumentsFrom l entry [] (p + 4) n
        let done := BootstrapRow.mk ⟨origin, r⟩ handle arguments
        modify fun m => { m with rows := m.rows.setIfInBounds r (some done) }
        return done) row := by
      refine .bind (sound_referAt gives) (always_referAt gives each lies.handle)
        (.bind .covered (.covered lies.count)
          (.bind (sound_argumentsFrom gives) arguments fun m recalls => ?_))
      cases row
      obtain rfl := place
      rfl
    exact read m recalls

/-- Decoding always gives what the constant denotes. -/
theorem always_decode {i p : Nat} {t : Tag} {e : Entry}
    (isHeld : ∀ j e, held j e → l.Holds origin j e) (constant : l.ConstantAt i t p)
    (decodes : l.Decodes held ⟨origin, i⟩ p t e) :
    Always l origin false (decode l entry ⟨origin, i⟩ p) e := by
  obtain ⟨offset, b, byte, tag⟩ := constant
  refine .bind .covered (.covered byte) ?_
  have refer {α : Type} {want : Entry → Option α} {p q : Nat} {a : α} {f : α → Lookup Entry}
      {e : Entry} (refers : l.Refers held want q a) (next : Always l origin false (f a) e) :
      Always l origin false (referAt l entry want p q >>= f) e :=
    .bind (sound_referAt gives) (always_referAt gives each refers) next
  have produce {r : Nat} {row : BootstrapRow} {nameAndType : NameAndTypeEntry}
      {build : BootstrapRow → NameAndTypeEntry → Entry}
      (number : l.cursor.u2? (p + 1 : Nat) = some r) (rowed : l.RowAt origin held r row)
      (named : l.Refers held Entry.nameAndType? (p + 3) nameAndType) :
      Always l origin false (produced l entry ⟨origin, i⟩ p build) (build row nameAndType) :=
    .bind .covered (.covered number) (.bind (.adapt (sound_row gives))
      (.adapt (always_row gives each isHeld rowed)) (refer named (.pure _)))
  have owned {kind : MemberKind} {owner : ClassEntry} {nameAndType : NameAndTypeEntry}
      (owned : l.Refers held Entry.class? (p + 1) owner)
      (named : l.Refers held Entry.nameAndType? (p + 3) nameAndType) :
      Always l origin false (member l entry ⟨origin, i⟩ kind p)
        (.member ⟨⟨origin, i⟩, kind, owner, nameAndType⟩) :=
    refer owned (refer named (.pure _))
  cases decodes with
  | utf8 spelled =>
      obtain ⟨constant, length, slice, decoded⟩ := spelled
      obtain rfl := Option.some.inj (constant.offset.symm.trans offset)
      simp only [tag]
      refine .bind .covered (.covered length) (.bind .covered (.covered slice) ?_)
      simp only [decoded]
      exact .pure _
  | integer value =>
      simp only [tag]
      exact .bind .covered (.covered value) (.pure _)
  | float bits =>
      simp only [tag]
      exact .bind .covered (.covered bits) (.pure _)
  | long value =>
      simp only [tag]
      exact .bind .covered (.covered value) (.pure _)
  | double bits =>
      simp only [tag]
      exact .bind .covered (.covered bits) (.pure _)
  | «class» named =>
      simp only [tag]
      exact refer named (.pure _)
  | string spelled =>
      simp only [tag]
      exact refer spelled (.pure _)
  | methodType described =>
      simp only [tag]
      exact refer described (.pure _)
  | module named =>
      simp only [tag]
      exact refer named (.pure _)
  | package named =>
      simp only [tag]
      exact refer named (.pure _)
  | nameAndType named typed =>
      simp only [tag]
      exact refer named (refer typed (.pure _))
  | @member _ kind _ _ isTag ownedBy named =>
      subst isTag
      cases kind with
      | field =>
          simp only [MemberKind.tag] at tag
          simp only [tag]
          exact owned ownedBy named
      | method =>
          simp only [MemberKind.tag] at tag
          simp only [tag]
          exact owned ownedBy named
      | interfaceMethod =>
          simp only [MemberKind.tag] at tag
          simp only [tag]
          exact owned ownedBy named
  | handle kind targeted accepts =>
      simp only [tag]
      refine .bind .covered (.covered kind) (refer targeted ?_)
      simp only [accepts, Bool.not_true, Bool.false_eq_true, ↓reduceIte]
      exact .pure _
  | dynamic number rowed named =>
      simp only [tag]
      exact produce number rowed named
  | callSite number rowed named =>
      simp only [tag]
      exact produce number rowed named

end Steps

/-- An entry that is held is given as long as none of the constants that are being decoded is
reached by a shorter chain. -/
theorem always_entryWithin {n i : Nat} {e : Entry} (held : l.HeldWithin origin n i e) {depth : Nat}
    {open_ : List Nat} (path : Path l depth open_)
    (above : ∀ o ∈ open_, ∀ e', ¬l.HeldWithin origin n o e') :
    Always l origin false (entryWithin l origin depth open_ i) e := by
  induction n generalizing i e depth open_ with
  | zero => exact held.elim
  | succ n inductionHypothesis =>
      have aboveShorter : ∀ o ∈ open_, ∀ e', ¬l.HeldWithin origin n o e' :=
        fun o member e' shorter => above o member e' shorter.succ
      by_cases shorter : ∃ e', l.HeldWithin origin n i e'
      · obtain ⟨e', shorter⟩ := shorter
        obtain rfl := shorter.holds.functional held.holds
        exact inductionHypothesis shorter path aboveShorter
      · have unopened : i ∉ open_ := fun member => above i member e held
        have holds := held.holds
        obtain ⟨t, p, constant, decodes⟩ := held
        obtain ⟨depth, rfl⟩ := path.positive
        by_cases spelled : ∃ text, l.TextAt i text
        · obtain ⟨text, spelled⟩ := spelled
          have isText : l.Holds origin i (.utf8 ⟨⟨origin, i⟩, text⟩) :=
            Layout.Holds.text_iff.mpr ⟨rfl, spelled⟩
          obtain rfl := holds.functional isText
          exact always_text spelled unopened
        · have deeper := path.deeper unopened (lt_size constant.offset)
            fun text here => spelled ⟨text, here⟩
          have gives : GivesHeld l origin _ := sound_entryWithin depth (i :: open_) deeper
          have further : ∀ o ∈ i :: open_, ∀ e', ¬l.HeldWithin origin n o e' :=
            List.forall_mem_cons.mpr ⟨fun e' here => shorter ⟨e', here⟩, aboveShorter⟩
          have decoded := always_decode gives
            (fun j e held => inductionHypothesis held deeper further)
            (fun j e held => held.holds) constant decodes
          intro m recalls
          rw [entryWithin]
          simp only [constant.offset, run_bind, run_get]
          split
          · rename_i done remembered
            rw [holds.functional (recalls.entries i _ remembered)]
            rfl
          · rw [if_neg (by simpa using unopened), run_bind]
            have given := decoded m recalls
            cases looked : runFrom
              (decode l (entryWithin l origin depth (i :: open_)) ⟨origin, i⟩ p)
                m with
            | mk outcome m' =>
                rw [looked] at given
                obtain rfl := given
                rfl

/-- Looking an index up gives what it holds, whatever was looked up before. -/
theorem always_entry {i : Nat} {e : Entry} (holds : l.Holds origin i e) :
    Always l origin false (Lookup.entry l origin i) e := by
  obtain ⟨n, held⟩ := holds.within
  exact always_entryWithin held .start (by simp)

end Lookup

end JvmClass
