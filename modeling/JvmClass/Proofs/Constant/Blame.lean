import JvmClass.Proofs.Build.Output
import JvmClass.Proofs.ClassFile.Safety

/-!
# Errors of pools

A pool under construction meets few errors of its own. It may become too large, be asked for a text
that is too long, for the class of a primitive type or for a handle on the wrong kind of member; and
it passes on what the rows of its parent have met and what cannot be kept back.
-/

namespace JvmClass

/-- Whether an error says that a label is not bound, or bound again. -/
def Error.ofLabels : Error → Bool
  | .misuse .boundTwice | .misuse (.unresolvedLabel _) => true
  | .malformed _ _ (some cause) => cause.ofLabels
  | _ => false

/-- An abort that stands behind an error is not about labels if the error is not. -/
theorem Error.ofLabels_of_abort? {e e' : Error} (aborts : e.abort? = some e') :
    e'.ofLabels = false := by
  induction e using Error.abort?.induct with
  | case1 _ _ cause inductionHypothesis =>
      rw [abort?] at aborts
      exact inductionHypothesis aborts
  | case2 =>
      cases aborts
      rfl
  | case3 =>
      cases aborts
      rfl
  | case4 e notMalformed notBounds notUnsettled =>
      rw [abort?] at aborts
      · cases aborts
      · exact notMalformed
      · exact notBounds
      · exact notUnsettled

/-- Errors of which none is about labels are kept as such. -/
theorem Error.ofLabels_first {known : Option Error} {e : Error}
    (before : ∀ k ∈ known, k.ofLabels = false) (now : e.ofLabels = false) :
    (Error.first known e).ofLabels = false := by
  cases known with
  | none => exact now
  | some k =>
      rw [first]
      split
      · exact before k rfl
      · cases aborts : e.abort? with
        | none => exact before k rfl
        | some e' => exact ofLabels_of_abort? aborts

/-! ## Parsed classes -/

/-- Looking constants up has nothing to do with labels. -/
theorem Lookup.tame_ofLabels : Tame fun e => e.abort? = none ∧ e.ofLabels = false where
  flaw _ _ := ⟨rfl, rfl⟩
  wraps _ _ _ kept := kept
  wrongKind _ := ⟨rfl, rfl⟩
  encoding := ⟨rfl, rfl⟩
  shortage _ := ⟨rfl, rfl⟩
  bounds := nofun

section Parsed

variable {l : Layout} (scanned : l.Scanned) (addressable : l.cursor.Addressable)
include scanned addressable

/-- A pool after the search for its table meets no error about labels. -/
theorem Pool.blameless_afterSearch {origin : Origin} (search : TableSearch) :
    (afterSearch l origin search).Reports fun e => e.ofLabels = false :=
  (reports_afterSearch scanned addressable Lookup.tame_ofLabels search).mono fun _ => And.right

/-- A pool that waits for a search says so instead of what the search would come to. -/
theorem Pool.blameless_ofLayout (number : Nat) :
    (ofLayout l number).Reports fun e => e.ofLabels = false := by
  have reports : (sweptAfter l (.input number) (pure ())).Reports fun e => e.ofLabels = false :=
    (reports_swept scanned addressable Lookup.tame_ofLabels).mono fun _ => And.right
  rw [ofLayout]
  split
  · refine ⟨fun i e here => ?_, fun e given => ?_, fun rows r e given => by cases given⟩
    · simp only [beforeSearch, Array.getElem?_mapIdx, Option.map_eq_some_iff] at here
      obtain ⟨outcome, known, same⟩ := here
      cases outcome with
      | ok e' => cases same
      | error e' =>
          obtain rfl := Except.error.inj same
          split
          · rfl
          · exact reports.entries i e' known
    · obtain rfl := Except.error.inj given
      rfl
  · exact reports

end Parsed

/-- An input as it is read from bytes, before or after a search for its bootstrap table. -/
inductive Input.Opened : Input → Prop
  | read {bytes : Array UInt8} {options : Options} {layout : Layout} (number : Nat)
      (addressable : Cursor.Addressable ⟨bytes⟩)
      (scanned : Layout.scan bytes options = .ok layout) :
      Opened { layout, pool := .ofLayout layout number }
  | settle {i : Input} (search : TableSearch) (opened : Opened i) : Opened (i.settle search)

namespace Input.Opened

variable {i : Input}

/-- An opened input has a layout that was scanned, in a buffer whose places are numbers of the
machine. -/
theorem scanned (opened : i.Opened) : i.layout.Scanned ∧ i.layout.cursor.Addressable := by
  induction opened with
  | read number addressable scanned =>
      obtain ⟨sound, cursor, -⟩ := Layout.Scanned.of_scan addressable scanned
      exact ⟨sound, cursor ▸ addressable⟩
  | settle _ _ inductionHypothesis => exact inductionHypothesis

/-- No constant and no row of what was read is said to be about labels. -/
theorem blameless (opened : i.Opened) : i.pool.Reports fun e => e.ofLabels = false := by
  obtain ⟨sound, addressable⟩ := opened.scanned
  cases opened with
  | read number _ _ => exact Pool.blameless_ofLayout sound addressable number
  | settle search _ => exact Pool.blameless_afterSearch sound addressable search

end Input.Opened

namespace PoolBuilder

variable {α β : Type} {p q : PoolBuilder}

/-! ## Requests -/

/-- A pool that has met no error about labels, and will meet none in what it takes from its
parent. -/
structure Blameless (p : PoolBuilder) : Prop where
  error : ∀ e ∈ p.error, e.ofLabels = false
  parent : ∀ parent ∈ p.parent, parent.pool.Reports fun e => e.ofLabels = false

/-- An action that leaves a blameless pool blameless, and the pool its parent. -/
def Spares (act : Interning α) : Prop :=
  ∀ p : PoolBuilder, p.Blameless → (act p).2.Blameless ∧ (act p).2.parent = p.parent

namespace Spares

/-- Doing nothing spares a pool. -/
theorem pure (a : α) : Spares (Pure.pure a) := fun _ blameless => ⟨blameless, rfl⟩

/-- Actions that spare a pool spare it one after another. -/
theorem bind {x : Interning α} {f : α → Interning β} (first : Spares x)
    (next : ∀ a, Spares (f a)) : Spares (x >>= f) := fun p blameless =>
  have ⟨between, same⟩ := first p blameless
  have ⟨after, same'⟩ := next (x p).1 (x p).2 between
  ⟨after, same'.trans same⟩

/-- What comes next may depend on the pool. -/
theorem look {f : PoolBuilder → Interning β} (next : ∀ p, p.Blameless → Spares (f p)) :
    Spares (get >>= f) := fun p blameless => next p blameless p blameless

/-- Failing with an error that is not about labels spares a pool. -/
theorem fail {e : Error} (other : e.ofLabels = false) : Spares (fail e) := fun _ blameless =>
  ⟨⟨fun _ kept => Option.some.inj kept ▸ Error.ofLabels_first blameless.error other,
    blameless.parent⟩, rfl⟩

/-- What changes neither the error nor the parent. -/
theorem modify {f : PoolBuilder → PoolBuilder} (error : ∀ p, (f p).error = p.error)
    (parent : ∀ p, (f p).parent = p.parent) : Spares (modify f) := fun p blameless =>
  ⟨⟨fun e kept => blameless.error e (error p ▸ kept), fun i known =>
    blameless.parent i (parent p ▸ known)⟩, parent p⟩

/-- A choice between two actions that spare a pool spares it. -/
theorem ite {c : Prop} [Decidable c] {x y : Interning α} (first : Spares x) (second : Spares y) :
    Spares (if c then x else y) := by
  split <;> assumption

end Spares

/-- Entering rows spares a pool if none of them failed because of labels. -/
theorem spares_enterRows {rows : List (Except Error BootstrapRow)}
    (reports : ∀ e, .error e ∈ rows → e.ofLabels = false) : Spares (enterRows rows) := by
  induction rows with
  | nil => exact .pure _
  | cons row rest inductionHypothesis =>
      cases row with
      | error e => exact .fail (reports e List.mem_cons_self)
      | ok row => exact .bind (.modify (fun _ => rfl) fun _ => rfl) fun _ =>
          inductionHypothesis fun e member => reports e (List.mem_cons_of_mem _ member)

/-- Entering the constants of a parent spares a pool if the parent reports nothing about labels. -/
theorem spares_entering {parent : Input}
    (reports : parent.pool.Reports fun e => e.ofLabels = false) :
    Spares (do
      modify fun p => { p with places := parent.pool.entries.foldl enterEntry p.places }
      if let .ok rows := parent.pool.rows then enterRows rows.toList) := by
  refine .bind (.modify (fun _ => rfl) fun _ => rfl) fun _ => ?_
  split
  · rename_i rows given
    refine spares_enterRows fun e member => ?_
    obtain ⟨r, here⟩ := List.getElem?_of_mem member
    exact reports.rows rows r e given (by simpa using here)
  · exact .pure _

/-- Indexing the parent, which happens before the first request, spares a pool. -/
theorem spares_ensureIndexed : Spares ensureIndexed := by
  unfold ensureIndexed
  refine .look fun p _ => .ite (.pure _) (.bind (.modify (fun _ => rfl) fun _ => rfl) fun _ => ?_)
  refine .look fun p blameless => ?_
  split
  · rename_i parent known
    have enter := spares_entering (blameless.parent parent known)
    dsimp only
    split
    · rename_i e aborts
      refine .bind (.fail ?_) fun _ => enter
      rw [Pool.abort?] at aborts
      split at aborts
      · obtain ⟨outcome, -, found⟩ := List.exists_of_findSome?_eq_some aborts
        split at found
        · cases found
        · exact Error.ofLabels_of_abort? found
      · cases aborts
    · exact enter
  · exact .pure _

/-- Asking for a constant by its key spares a pool. -/
theorem spares_intern {key : ConstantKey} {make : Place → Entry} : Spares (intern key make) := by
  unfold intern
  refine .bind spares_ensureIndexed fun _ => .look fun p _ => ?_
  split
  · exact .pure _
  · have add (place : Place) (f : PoolBuilder → PoolBuilder) (error : ∀ p, (f p).error = p.error)
        (parent : ∀ p, (f p).parent = p.parent) : Spares (do modify f; return place) :=
      .bind (.modify error parent) fun _ => .pure _
    exact .look fun q _ => .ite
      (.bind (.fail rfl) fun _ => add _ _ (fun _ => rfl) fun _ => rfl)
      (add _ _ (fun _ => rfl) fun _ => rfl)

/-- Asking for a text spares a pool. -/
theorem spares_utf8 (text : Text) : Spares (utf8 text) := by
  unfold utf8
  have interned : Spares
      (do return (⟨← intern (.text text) fun p => .utf8 ⟨p, text⟩, text⟩ : Utf8Entry)) :=
    .bind spares_intern fun _ => .pure _
  exact .ite (.bind (.fail rfl) fun _ => interned) interned

/-- Adopting a text spares a pool. -/
theorem spares_adoptUtf8 (e : Utf8Entry) : Spares (adoptUtf8 e) :=
  .look fun _ _ => .ite (.pure _) (spares_utf8 _)

/-- Asking for a loadable constant spares a pool. -/
theorem spares_internLoadable (make : Place → Loadable) : Spares (internLoadable make) :=
  .bind spares_intern fun _ => .pure _

/-- Asking for a class by its name spares a pool. -/
theorem spares_classOf (name : Utf8Entry) : Spares (classOf name) :=
  .bind (spares_adoptUtf8 name) fun _ => .bind spares_intern fun _ => .pure _

/-- Asking for a class by the text of its name spares a pool. -/
theorem spares_class (internalName : Text) : Spares (class_ internalName) :=
  .bind (spares_utf8 _) fun _ => spares_classOf _

/-- Adopting a class spares a pool. -/
theorem spares_adoptClass (e : ClassEntry) : Spares (adoptClass e) :=
  .look fun _ _ => .ite (.pure _) (spares_class _)

/-- Asking for a string spares a pool. -/
theorem spares_string (text : Text) : Spares (string text) :=
  .bind (spares_utf8 _) fun _ => spares_internLoadable _

/-- Asking for a method type spares a pool. -/
theorem spares_methodType (descriptor : Text) : Spares (methodType descriptor) :=
  .bind (spares_utf8 _) fun _ => spares_internLoadable _

/-- Asking for a name and type by their constants spares a pool. -/
theorem spares_nameAndTypeOf (name type : Utf8Entry) : Spares (nameAndTypeOf name type) :=
  .bind (spares_adoptUtf8 _) fun _ => .bind (spares_adoptUtf8 _) fun _ =>
    .bind spares_intern fun _ => .pure _

/-- Asking for a name and type by their texts spares a pool. -/
theorem spares_nameAndType (name type : Text) : Spares (nameAndType name type) :=
  .bind (spares_utf8 _) fun _ => .bind (spares_utf8 _) fun _ => spares_nameAndTypeOf _ _

/-- Adopting a name and type spares a pool. -/
theorem spares_adoptNameAndType (e : NameAndTypeEntry) : Spares (adoptNameAndType e) :=
  .look fun _ _ => .ite (.pure _) (spares_nameAndType _ _)

/-- Asking for a member spares a pool. -/
theorem spares_memberOf (kind : MemberKind) (owner : ClassEntry) (nt : NameAndTypeEntry) :
    Spares (memberOf kind owner nt) :=
  .bind (spares_adoptClass _) fun _ => .bind (spares_adoptNameAndType _) fun _ =>
    .bind spares_intern fun _ => .pure _

/-- Adopting a member spares a pool. -/
theorem spares_adoptMember (e : MemberEntry) : Spares (adoptMember e) :=
  .look fun _ _ => .ite (.pure _) (spares_memberOf _ _ _)

/-- Asking for a handle spares a pool, also if its kind does not fit the member. -/
theorem spares_handle (kind : HandleKind) (target : MemberEntry) : Spares (handle kind target) := by
  have entered : Spares (do
      let target ← adoptMember target
      let place ← intern (.pair .methodHandle kind.byte.toNat target.place.index) fun place =>
        .loadable (.handle { place, kind, target })
      return ({ place, kind, target } : HandleEntry)) :=
    .bind (spares_adoptMember _) fun _ => .bind spares_intern fun _ => .pure _
  unfold handle
  exact .ite (.bind (.fail rfl) fun _ => entered) entered

/-- Adopting a handle spares a pool. -/
theorem spares_adoptHandle (e : HandleEntry) : Spares (adoptHandle e) :=
  .look fun _ _ => .ite (.pure _) (spares_handle _ _)

/-- Asking for a row by its handle and arguments spares a pool. -/
theorem spares_internRow (handle : HandleEntry) (arguments : List Loadable) :
    Spares (internRow handle arguments) := by
  unfold internRow
  refine .look fun p _ => ?_
  dsimp only
  split
  · exact .pure _
  · exact .bind (.modify (fun _ => rfl) fun _ => rfl) fun _ => .pure _

/-- Asking for a dynamic constant spares a pool. -/
theorem spares_internDynamic (row : BootstrapRow) (nt : NameAndTypeEntry) :
    Spares (internDynamic row nt) :=
  .bind (spares_adoptNameAndType _) fun _ => spares_internLoadable _

mutual

/-- Adopting a loadable constant spares a pool. -/
theorem spares_adoptLoadable : ∀ e : Loadable, Spares (adoptLoadable e)
  | .integer .. | .float .. | .long .. | .double .. => by
    rw [adoptLoadable]
    exact .look fun _ _ => .ite (.pure _) (spares_internLoadable _)
  | .class _ => by
    rw [adoptLoadable]
    exact .look fun _ _ => .ite (.pure _) (.bind (spares_class _) fun _ => .pure _)
  | .string .. => by
    rw [adoptLoadable]
    exact .look fun _ _ => .ite (.pure _) (spares_string _)
  | .methodType .. => by
    rw [adoptLoadable]
    exact .look fun _ _ => .ite (.pure _) (spares_methodType _)
  | .handle _ => by
    rw [adoptLoadable]
    exact .look fun _ _ => .ite (.pure _) (.bind (spares_handle _ _) fun _ => .pure _)
  | .dynamic _ row nt => by
    rw [adoptLoadable]
    exact .look fun _ _ => .ite (.pure _)
      (.bind (spares_adoptRow row) fun _ => spares_internDynamic _ _)

/-- Adopting a row spares a pool. -/
theorem spares_adoptRow : ∀ row : BootstrapRow, Spares (adoptRow row)
  | .mk place handle arguments => by
    rw [adoptRow]
    refine .bind spares_ensureIndexed fun _ => .look fun _ _ => .ite (.pure _) ?_
    exact .bind (spares_adoptHandle handle) fun _ =>
      .bind (spares_adoptArguments arguments) fun _ => spares_internRow _ _

/-- Adopting arguments spares a pool. -/
theorem spares_adoptArguments : ∀ as : List Loadable, Spares (adoptArguments as)
  | [] => by
    rw [adoptArguments]
    exact .pure _
  | a :: rest => by
    rw [adoptArguments]
    exact .bind (spares_adoptLoadable a) fun _ => .bind (spares_adoptArguments rest) fun _ =>
      .pure _

end

/-- Asking for a call site spares a pool. -/
theorem spares_callSite (row : BootstrapRow) (nt : NameAndTypeEntry) : Spares (callSite row nt) :=
  .bind (spares_adoptRow _) fun _ => .bind (spares_adoptNameAndType _) fun _ =>
    .bind spares_intern fun _ => .pure _

/-- Asking for the index of any constant spares a pool. -/
theorem spares_indexOf (e : Entry) : Spares (indexOf e) := by
  refine .look fun _ _ => .ite (.pure _) ?_
  cases e with
  | utf8 e => exact .bind (spares_utf8 _) fun _ => .pure _
  | loadable e => exact .bind (spares_adoptLoadable _) fun _ => .pure _
  | nameAndType e => exact .bind (spares_nameAndType _ _) fun _ => .pure _
  | member e => exact .bind (spares_memberOf _ _ _) fun _ => .pure _
  | callSite e => exact .bind (spares_callSite _ _) fun _ => .pure _
  | module e =>
      exact .bind (.bind (spares_utf8 _) fun _ => .bind spares_intern fun _ => .pure _)
        fun _ => .pure _
  | package e =>
      exact .bind (.bind (spares_utf8 _) fun _ => .bind spares_intern fun _ => .pure _)
        fun _ => .pure _

/-- What references to constants leave blameless, and what is put together from them. -/
def Law.blameless : Law where
  Given _ := True
  Does := Spares
  pure := .pure
  bind := .bind
  indexOf e _ := spares_indexOf e
  utf8 := spares_utf8
  class_ := spares_class
  rowCount := .bind spares_ensureIndexed fun _ => .look fun _ _ => .pure _

/-- Asking for the class of a descriptor spares a pool. -/
theorem spares_classFor (d : Descriptor) : Spares (classFor d) := by
  rw [classFor]
  exact .ite (.bind (.fail rfl) fun _ => spares_class _) (spares_class _)

/-- Asking for a row with adopted parts spares a pool. -/
theorem spares_bootstrap (handle : HandleEntry) (arguments : List Loadable) :
    Spares (bootstrap handle arguments) :=
  .bind spares_ensureIndexed fun _ => .bind (spares_adoptHandle _) fun _ =>
    .bind (spares_adoptArguments _) fun _ => spares_internRow _ _

/-- Looking up a row spares a pool. -/
theorem spares_row (r : Int) : Spares (row r) :=
  .bind spares_ensureIndexed fun _ => .look fun _ _ =>
    .ite (.pure _) (by split <;> exact .pure _)

/-- Whatever is requested. -/
theorem Requests.spares {act : Interning α} (requests : Requests act) : Spares act := by
  induction requests with
  | pure a => exact .pure a
  | bind _ _ first next => exact .bind first next
  | look => exact fun _ blameless => ⟨blameless, rfl⟩
  | utf8 => exact spares_utf8 _
  | integer | float | long | double => exact spares_internLoadable _
  | class_ => exact spares_class _
  | classOf => exact spares_classOf _
  | classFor => exact spares_classFor _
  | string => exact spares_string _
  | methodType => exact spares_methodType _
  | nameAndType => exact spares_nameAndType _ _
  | nameAndTypeOf => exact spares_nameAndTypeOf _ _
  | member => exact .bind (spares_nameAndType _ _) fun _ => spares_memberOf _ _ _
  | memberOf => exact spares_memberOf _ _ _
  | handle => exact spares_handle _ _
  | bootstrap => exact spares_bootstrap _ _
  | dynamic => exact .bind (spares_adoptRow _) fun _ => spares_internDynamic _ _
  | callSite => exact spares_callSite _ _
  | module | package =>
      exact .bind (spares_utf8 _) fun _ => .bind spares_intern fun _ => .pure _
  | adoptClass => exact spares_adoptClass _
  | indexOf => exact spares_indexOf _
  | rowCount => exact Law.blameless.rowCount
  | row => exact spares_row _

end PoolBuilder

/-- Calls leave a blameless pool blameless, and with its parent. -/
theorem Build.Calls.spares {σ α : Type} {act : Build σ α} (calls : Calls act) (s : Session σ)
    (blameless : s.pool.Blameless) :
    (act s).2.pool.Blameless ∧ (act s).2.pool.parent = s.pool.parent := by
  induction calls with
  | pure | look | freshLabel | onUser | fail => exact ⟨blameless, rfl⟩
  | @bind _ _ _ x f _ _ first next =>
      have ⟨between, same⟩ := first s blameless
      have ⟨after, same'⟩ := next (x s).1 (x s).2 between
      exact ⟨after, same'.trans same⟩
  | interning requests => exact requests.spares s.pool blameless
  | beside extra _ inductionHypothesis =>
      exact inductionHypothesis { s with user := (s.user, extra) } blameless

/-- Calls leave the options of a session. -/
theorem Build.Calls.options_eq {σ α : Type} {act : Build σ α} (calls : Calls act)
    (s : Session σ) : (act s).2.options = s.options := by
  induction calls with
  | pure | look | freshLabel | onUser | fail | interning => rfl
  | bind _ _ first next => exact (next _ _).trans (first s)
  | beside extra _ inductionHypothesis =>
      exact inductionHypothesis { s with user := (s.user, extra) }

end JvmClass
