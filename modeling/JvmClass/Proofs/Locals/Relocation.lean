import JvmClass.Proofs.Locals.Allocation
import JvmClass.Proofs.Text.Descriptors
import Mathlib.Data.List.Pairwise

/-!
# Where moved locals lie

A shifter asks for a slot at the first use of a slot and a size, and every later use of that slot
goes to one that was asked for it. The slots that are asked for lie end to end above the parameters
and the declared limit of the body, so uses of different slots never meet
(`MethodTransform.shiftLocals_relocates`). An instruction of the new body that is none of the moved
forms keeps its slot: `follows_iff` says when every instruction names a slot that its old one has
moved to.
-/

namespace JvmClass

namespace LocalsShifter

open Drafting (Gives)
open CodeDraft (Made Collected EndToEnd)

variable {σ : Type} {s s' : LocalsShifter} {next next' : Nat} {u v : Use} {uses : List Use}
  {slot : Int} {given : List (Use × Nat)}

/-- Among the slots that were asked for is one that a use goes to: it was asked for the same slot,
and for a value of at least that size. -/
def Serves (given : List (Use × Nat)) (u : Use) (slot : Int) : Prop :=
  ∃ w n, (w, n) ∈ given ∧ w.1 = u.1 ∧ u.2 ≤ w.2 ∧ slot = (n : Int)

/-- A use that is served is so after further ones. -/
theorem Serves.mono {further : List (Use × Nat)} (serves : Serves given u slot) :
    Serves (given ++ further) u slot := by
  obtain ⟨w, n, member, same⟩ := serves
  exact ⟨w, n, List.mem_append_left _ member, same⟩

/-- All that is remembered was asked for. -/
def Backed (s : LocalsShifter) (given : List (Use × Nat)) : Prop :=
  ∀ u : Use, u.2 = 1 ∨ u.2 = 2 → ∀ slot, s.new? u = some slot → Serves given u slot

/-- A shifter that remembers nothing has all of that asked for. -/
theorem backed_start (fixed : Int) : Backed (start fixed) [] := by
  intro u _ slot known
  rw [new?_start] at known
  cases known

/-- One use: what is remembered stays backed, and the use goes to a slot that was asked for. -/
theorem Moves.backed (moves : Moves s next u slot s' next') (size : u.2 = 1 ∨ u.2 = 2)
    (backed : Backed s given) :
    Backed s' (given ++ asked s next [u]) ∧
      (s.fixed ≤ u.1 → Serves (given ++ asked s next [u]) u slot) := by
  cases moves with
  | kept below =>
      refine ⟨fun v size' slot known => (backed v size' slot known).mono, fun above => ?_⟩
      omega
  | known above remembered =>
      exact ⟨fun v size' slot known => (backed v size' slot known).mono,
        fun _ => (backed u size slot remembered).mono⟩
  | given above unknown =>
      have here : asked s next [u] = [(u, next)] := by
        simp [asked, Int.not_lt.mpr above, unknown]
      rw [here]
      refine ⟨fun v size' slot known => ?_,
        fun _ => ⟨u, next, by simp, rfl, Nat.le_refl _, rfl⟩⟩
      rw [new?_give size size'] at known
      split at known
      · rename_i taken
        obtain rfl := Option.some.inj known
        rcases taken with rfl | ⟨wide, rfl⟩
        · exact ⟨v, next, by simp, rfl, Nat.le_refl _, rfl⟩
        · exact ⟨u, next, by simp, rfl, by omega, rfl⟩
      · exact (backed v size' slot known).mono

/-- A run: a use below the fixed slots stays, and every other use goes to a slot that was asked
for. -/
theorem MovesAll.served {slots : List Int} (moves : MovesAll s next uses slots s' next')
    (sizes : ∀ u ∈ uses, u.2 = 1 ∨ u.2 = 2) (backed : Backed s given) :
    List.Forall₂ (fun u slot => (u.1 < s.fixed → slot = u.1) ∧
      (s.fixed ≤ u.1 → Serves (given ++ asked s next uses) u slot)) uses slots := by
  induction moves generalizing given with
  | done => exact .nil
  | @step s s' s'' next next' next'' u rest slot slots first others inductionHypothesis =>
      obtain ⟨size, sizes⟩ := List.forall_mem_cons.mp sizes
      obtain ⟨backed, serves⟩ := first.backed size backed
      rw [first.asked_cons, ← List.append_assoc]
      refine .cons ⟨fun below => ?_, fun above => (serves above).mono⟩ ?_
      · cases first with
        | kept => rfl
        | known above | given above => omega
      · rw [← first.fixed]
        exact inductionHypothesis sizes backed

/-- Slots that lie end to end serve uses of different slots apart from each other. -/
theorem Serves.apart {n : Nat} {a b : Int} (lie : EndToEnd n (runs given))
    (first : Serves given u a)
    (second : Serves given v b) (different : u.1 ≠ v.1) : Use.Apart (a, u.2) (b, v.2) := by
  obtain ⟨w, i, member, slot, size, rfl⟩ := first
  obtain ⟨w', j, member', slot', size', rfl⟩ := second
  have pairwise : given.Pairwise fun x y => Use.Apart ((x.2 : Int), x.1.2) ((y.2 : Int), y.1.2) :=
    List.pairwise_map.mp lie.pairwise_apart
  have symmetric : Std.Symm fun x y : Use × Nat =>
      Use.Apart ((x.2 : Int), x.1.2) ((y.2 : Int), y.1.2) :=
    ⟨fun _ _ apart slot there here => apart slot here there⟩
  have distinct : (w, i) ≠ (w', j) := by
    rintro ⟨⟩
    exact different (slot.symm.trans slot')
  have apart := pairwise.forall member member' distinct
  rintro slot ⟨low, high⟩ ⟨low', high'⟩
  exact apart slot ⟨low, by dsimp only at high ⊢; omega⟩ ⟨low', by dsimp only at high' ⊢; omega⟩

/-- Uses with the slots that they move to: below `fixed` they stay, the others go to `limit` or
above it, and those of different slots take up runs of slots that do not meet. -/
structure Relocates (fixed : Int) (limit : Nat) (moved : List (Use × Int)) : Prop where
  kept : ∀ u slot, (u, slot) ∈ moved → u.1 < fixed → slot = u.1
  above : ∀ u slot, (u, slot) ∈ moved → fixed ≤ u.1 → (limit : Int) ≤ slot
  apart : ∀ u a v b, (u, a) ∈ moved → (v, b) ∈ moved → fixed ≤ u.1 → fixed ≤ v.1 → u.1 ≠ v.1 →
    Use.Apart (a, u.2) (b, v.2)

/-- Slots that are served end to end from a limit on relocate the uses. -/
theorem relocates_of_served {slots : List Int} {fixed : Int} {limit : Nat}
    (lie : EndToEnd limit (runs given))
    (served : List.Forall₂ (fun u slot => (u.1 < fixed → slot = u.1) ∧
      (fixed ≤ u.1 → Serves given u slot)) uses slots) :
    Relocates fixed limit (uses.zip slots) := by
  have each : ∀ u slot, (u, slot) ∈ uses.zip slots → (u.1 < fixed → slot = u.1) ∧
      (fixed ≤ u.1 → Serves given u slot) :=
    fun u slot member => List.forall₂_iff_zip.mp served |>.2 member
  constructor
  case kept => exact fun u slot member => (each u slot member).1
  case above =>
    intro u slot member above
    obtain ⟨w, n, asked, -, -, rfl⟩ := (each u slot member).2 above
    exact lie.above (u := ((n : Int), w.2)) (List.mem_map_of_mem asked)
  case apart =>
    intro u a v b member member' above above' different
    exact ((each u a member).2 above).apart lie ((each v b member').2 above') different

/-- A run through a fresh shifter, with the slots that it asks for. -/
theorem made_of_run {h : Held σ LocalsShifter} {fixed : Int} {d d' : CodeDraft} {s s' : Session σ}
    {source : Traversal CodeElement} (keeps : Keeps h) (fresh : h.get s.user = start fixed)
    (gives : Gives d s (Transform.run source (some (transform h)) .terminal) () d' s') :
    ∃ slots elements, Placed source.elements slots elements ∧
      Made d s (runs (asked (start fixed) d.frame.next (source.elements.filterMap use?))) elements
        d' s' ∧
      List.Forall₂ (fun u slot => (u.1 < fixed → slot = u.1) ∧ (fixed ≤ u.1 →
        Serves (asked (start fixed) d.frame.next (source.elements.filterMap use?)) u slot))
        (source.elements.filterMap use?) slots := by
  obtain ⟨stage, d₁, s₁, bound, run⟩ := Gives.bind_iff.mp gives
  obtain ⟨rfl, rfl, rfl⟩ : (⟨accept h .terminal, return⟩ : Transform.Stage σ _ _) = stage ∧
    d = d₁ ∧ s = s₁ := Gives.pure_iff.mp bound
  obtain ⟨⟨⟩, d₂, s₂, fed, ending⟩ := Gives.bind_iff.mp run
  have fed : Gives d s (Transform.feed (accept h .terminal) source.elements) () d₂ s₂ := fed
  obtain ⟨slots, elements, placed, made, moves, sizes⟩ := made_of_feed keeps fed
  rw [fresh] at made moves
  -- The walk has not broken off, and its end does nothing.
  have ended : d₂ = d' ∧ s₂ = s' := by
    cases failure : source.failure with
    | some e =>
        simp only [failure] at ending
        exact absurd (Gives.bind_iff.mp ending).choose_spec.choose_spec.choose_spec.1
          Gives.not_throw
    | none =>
        simp only [failure] at ending
        obtain ⟨⟨⟩, d₃, s₃, ended, settled⟩ := Gives.bind_iff.mp ending
        obtain ⟨-, rfl, rfl⟩ := Gives.pure_iff.mp ended
        exact (Session.quiet_of_settle settled).2
  obtain ⟨rfl, rfl⟩ := ended
  exact ⟨slots, elements, placed, made, moves.served sizes (backed_start fixed)⟩

/-! ## Instructions that name a slot -/

/-- The slot that an instruction names. -/
def named? : CodeElement → Option Int
  | .instruction i => i.localUse?.map Prod.fst
  | _ => none

/-- Whether a shifter has something stand for an element. -/
def stands (e : CodeElement) : Bool := (place 0 e).isSome

/-- A slot that is named in place of an element is one of the fixed ones, or one that was asked for
the slot that the element names. -/
def Follows (fixed : Int) (given : List (Use × Nat)) (e e' : CodeElement) : Prop :=
  ∀ slot' ∈ named? e', slot' < fixed ∨
    ∃ slot ∈ named? e, ∃ w n, (w, n) ∈ given ∧ w.1 = slot ∧ slot' = (n : Int)

/-- A slot has been asked for and was given in its own place. -/
def Stays (given : List (Use × Nat)) (slot : Int) : Prop :=
  ∃ w n, (w, n) ∈ given ∧ w.1 = slot ∧ slot = (n : Int)

/-- An element whose use moves names the slot of that use, if any, and then the new one. -/
theorem follows_of_used {fixed : Int} {e e' : CodeElement} (use : use? e = some u)
    (placed : place slot e = some e') (kept : u.1 < fixed → slot = u.1)
    (served : fixed ≤ u.1 → Serves given u slot) : Follows fixed given e e' := by
  have naming (old : named? e = some u.1) (new : named? e' = some slot) :
      Follows fixed given e e' := by
    intro slot' there
    obtain rfl : slot = slot' := Option.some.inj (new.symm.trans there)
    by_cases below : u.1 < fixed
    · exact .inl (kept below ▸ below)
    · obtain ⟨w, n, asked, same, -, rfl⟩ := served (Int.not_lt.mp below)
      exact .inr ⟨u.1, old, w, n, asked, same, rfl⟩
  cases e with
  | instruction i =>
      cases i with
      | load op a | store op a =>
          cases use
          simp only [place, Option.map_eq_some_iff] at placed
          obtain ⟨base, -, rfl⟩ := placed
          exact naming rfl rfl
      | increment a delta =>
          cases use
          cases placed
          exact naming rfl rfl
      | _ => cases use
  | localVariable scope | localVariableType scope =>
      cases placed
      intro slot' there
      cases there
  | _ => cases use

/-- An element without a use that moves names a slot only if it is a return from a subroutine. -/
theorem follows_self_iff {fixed : Int} {e e' : CodeElement} (use : use? e = none)
    (placed : place 0 e = some e') : Follows fixed given e e' ↔
      ∀ target slot, e = .instruction (.discontinued Opcode.ret target slot) →
        slot < fixed ∨ Stays given slot := by
  cases e with
  | instruction i =>
      cases i with
      | load op a | store op a | increment a delta => cases use
      | discontinued op target slot =>
          cases placed
          by_cases isRet : op = Opcode.ret
          · subst isRet
            simp only [Follows, named?, Instruction.localUse?, ↓reduceIte, Option.map_some,
              Option.mem_def, Option.some.injEq, forall_eq', exists_eq_left',
              CodeElement.instruction.injEq, Instruction.discontinued.injEq, true_and, and_imp]
            exact ⟨fun follows _ _ _ same => same ▸ follows, fun all => all target slot rfl rfl⟩
          · simp [Follows, named?, Instruction.localUse?, isRet]
      | _ =>
          cases placed
          simp [Follows, named?, Instruction.localUse?]
  | «attribute» a =>
      simp only [place] at placed
      split at placed <;> cases placed
      simp [Follows, named?]
  | _ =>
      cases placed
      simp [Follows, named?]

/-- Every instruction of a new body follows its slot exactly where every return from a subroutine
does. -/
theorem Placed.all_follow_iff {fixed : Int} {es es' : List CodeElement} {slots : List Int}
    (placed : Placed es slots es')
    (served : List.Forall₂ (fun u slot => (u.1 < fixed → slot = u.1) ∧
      (fixed ≤ u.1 → Serves given u slot)) (es.filterMap use?) slots) :
    List.Forall₂ (Follows fixed given) (es.filter stands) es' ↔
      ∀ target slot, .instruction (.discontinued Opcode.ret target slot) ∈ es →
        slot < fixed ∨ Stays given slot := by
  induction placed with
  | nil => simp
  | @used e e' es es' u slot slots use placed others inductionHypothesis =>
      rw [List.filterMap_cons_some use, List.forall₂_cons] at served
      obtain ⟨⟨kept, serves⟩, served⟩ := served
      have standing : stands e = true := by
        obtain ⟨e'', there⟩ := place_isSome placed 0
        rw [stands, there]
        rfl
      rw [List.filter_cons_of_pos standing, List.forall₂_cons, inductionHypothesis served,
        and_iff_right (follows_of_used use placed kept serves)]
      refine forall_congr' fun target => forall_congr' fun old => ?_
      have other : CodeElement.instruction (.discontinued Opcode.ret target old) ≠ e := by
        rintro rfl
        cases use
      rw [List.mem_cons, or_iff_right other]
  | @unused e es es' slots use others inductionHypothesis =>
      rw [List.filterMap_cons_none use] at served
      cases standing : place 0 e with
      | none =>
          rw [List.filter_cons_of_neg (by rw [stands, standing]; exact Bool.false_ne_true)]
          rw [Option.toList_none, List.nil_append, inductionHypothesis served]
          refine forall_congr' fun target => forall_congr' fun old => ?_
          have other : CodeElement.instruction (.discontinued Opcode.ret target old) ≠ e := by
            rintro rfl
            cases standing
          rw [List.mem_cons, or_iff_right other]
      | some e' =>
          rw [List.filter_cons_of_pos (by rw [stands, standing]; rfl), Option.toList_some,
            List.singleton_append, List.forall₂_cons, inductionHypothesis served,
            follows_self_iff use standing, ← forall_and]
          refine forall_congr' fun target => ?_
          rw [← forall_and]
          refine forall_congr' fun old => ?_
          rw [List.mem_cons, or_imp, eq_comm]

/-- A body that has run through a shifter: the slots that the builder has handed out are those that
were asked for, and every instruction of the new body that names a slot names a fixed one or the one
that its old slot has moved to, exactly where each return from a subroutine in the old body names a
fixed slot or one that was given in its own place. -/
theorem follows_iff {h : Held σ LocalsShifter} {fixed : Int} {d d' : CodeDraft} {s s' : Session σ}
    {source : Traversal CodeElement} (keeps : Keeps h) (fresh : h.get s.user = start fixed)
    (gives : Gives d s (Transform.run source (some (transform h)) .terminal) () d' s') :
    ∃ given elements, Made d s (runs given) elements d' s' ∧
      given = asked (start fixed) d.frame.next (source.elements.filterMap use?) ∧
      (List.Forall₂ (Follows fixed given) (source.elements.filter stands) elements ↔
        ∀ target slot, .instruction (.discontinued Opcode.ret target slot) ∈ source.elements →
          slot < fixed ∨ Stays given slot) := by
  obtain ⟨slots, elements, placed, made, served⟩ := made_of_run keeps fresh gives
  exact ⟨_, elements, made, rfl, placed.all_follow_iff served⟩

/-- From a fresh shifter that keeps no slot, a value in slot five moves to slot zero. -/
theorem movesAll_five : MovesAll (start 0) 0 [(5, 1)] [0]
    ((start 0).give ((start 0).key 5 1) (0 : Nat) 1) 1 :=
  .step (.given (by decide) (new?_start 0 (5, 1))) (.done _ _)

/-- An integer in slot five moves to slot zero, and its store follows it. -/
theorem follows_narrowStore : ∃ (d' : CodeDraft) (s' : Session LocalsShifter)
    (given : List (Use × Nat)) (elements : List CodeElement),
    Made emptyBody (Build.start .none .empty (start 0)) (runs given) elements d' s' ∧
      List.Forall₂ (Follows 0 given) ([narrowStore].filter stands) elements := by
  have uses : [narrowStore].filterMap use? = [(5, 1)] := by
    rw [List.filterMap_cons_some use?_narrowStore]
    rfl
  obtain ⟨d', s', gives, -⟩ := exists_run (by simpa using stores_narrowStore)
    (.used use?_narrowStore (place_narrowStore 0) .nil) (uses ▸ movesAll_five)
  obtain ⟨given, elements, made, -, follows⟩ := follows_iff (fun _ _ => rfl) rfl gives
  refine ⟨d', s', given, elements, made, follows.mpr fun target slot member => ?_⟩
  cases List.mem_singleton.mp member

/-- A return address is stored into slot five, and the subroutine returns to it. -/
def subroutineEnd : List CodeElement :=
  [.instruction (.store Opcode.astore 5), .instruction (.discontinued Opcode.ret none 5)]

/-- The address moves to slot zero and the return still names slot five, which nothing was moved
to. -/
theorem ret_left_behind : ∃ (d' : CodeDraft) (s' : Session LocalsShifter)
    (elements : List CodeElement),
    Gives emptyBody (Build.start .none .empty (start 0))
      (Transform.run (.ofList subroutineEnd) (some (transform .whole)) .terminal) () d' s' ∧
    Collected d' elements ∧
    ¬List.Forall₂ (Follows 0 (asked (start 0) 0 (subroutineEnd.filterMap use?)))
      (subroutineEnd.filter stands) elements := by
  have address : Opcode.astore.kind = .reference := by decide +kernel
  have use : use? (.instruction (.store Opcode.astore 5)) = some (5, 1) := by
    rw [use?, address]
    rfl
  have uses : subroutineEnd.filterMap use? = [(5, 1)] := by
    rw [subroutineEnd, List.filterMap_cons_some use]
    rfl
  have placed : Placed subroutineEnd [0] _ := .used use
    (by rw [place, address]; rfl) (.unused rfl .nil)
  obtain ⟨d', s', gives, collected⟩ := exists_run (by
    simp only [subroutineEnd, List.forall_mem_cons, List.not_mem_nil, false_implies, implies_true,
      and_true]
    exact ⟨.inl ⟨Opcode.astore, Opcode.astore, 5, rfl, by decide, by rw [address]; rfl⟩,
      .inr ⟨Opcode.ret, none, 5, rfl⟩⟩) placed (uses ▸ movesAll_five)
  refine ⟨d', s', _, gives, collected, ?_⟩
  have only : asked (start 0) 0 (subroutineEnd.filterMap use?) = [((5, 1), 0)] := by
    rw [uses]
    simp [asked, start, new?]
  rw [only, placed.all_follow_iff]
  · intro all
    have back : CodeElement.instruction (.discontinued Opcode.ret none 5) ∈ subroutineEnd :=
      List.mem_cons_of_mem _ List.mem_cons_self
    rcases all none 5 back with below | ⟨w, n, asked, -, same⟩
    · exact absurd below (by decide)
    · cases List.mem_singleton.mp asked
      exact absurd same (by decide)
  · rw [uses]
    exact .cons ⟨fun below => absurd below (by decide),
      fun _ => ⟨(5, 1), 0, List.mem_singleton.mpr rfl, rfl, Nat.le_refl _, rfl⟩⟩ .nil

end LocalsShifter

/-! ## Bodies of methods -/

namespace MethodOutlet
variable {σ τ : Type} {o : MethodOutlet σ} {m m' : MethodDraft} {s s' : Session σ}

/-- The draft of a body for a method. -/
def codeDraft (o : MethodOutlet σ) (m : MethodDraft) (descriptor : MethodDescriptor)
    (source : Option CodeModel) : CodeDraft :=
  if o.collectsCode m then
    .collecting m.flags.isStatic descriptor source (m.source.map fun from_ => from_.name.text)
  else .writing m.flags.isStatic descriptor source

/-- Makes a body part of its method. -/
def addCode (o : MethodOutlet σ) (d : CodeDraft) : MethodM σ Unit := do
  if o.collectsCode (← get) then o.emit (.code d.collected)
  else MethodDraft.addEncoded (← Drafting.session d.finish)

/-- Asking a method for a body of its own first fills the draft of the body, and then makes what
came of it part of the method. -/
theorem withCode_apply (source : Option CodeModel)
    (fill : CodeDraft → Build σ (Except Error Unit × CodeDraft)) (quiet : s.Quiet)
    {descriptor : MethodDescriptor} (parsed : m.parsed = .ok descriptor) :
    (o.withCode source fill) m s =
      match fill (o.codeDraft m descriptor source) s with
      | ((.error e, _), s) => (((), m), (Build.fail e s).2)
      | ((.ok (), d), s) => o.addCode d m s := by
  have looked : (Drafting.session Build.error? : MethodM σ (Option Error)) m s =
      ((none, m), s) := by
    change (((Build.error? s).1, m), (Build.error? s).2) = _
    rw [quiet.error?]
  have given (f : MethodDraft → MethodM σ Unit) : StateT.bind get f m s = f m m s := rfl
  have ran {δ : Type} (x : Build σ δ) (f : δ → MethodM σ Unit) :
    StateT.bind (Drafting.session x) f m s = f (x s).1 m (x s).2 := rfl
  unfold withCode
  simp only [Bind.bind, StateT.bind, looked]
  simp only [Option.isSome_none, Bool.false_eq_true, ↓reduceIte, given, parsed]
  by_cases collects : o.collectsCode m <;>
    simp only [collects, Bool.false_eq_true, ↓reduceIte, ran, codeDraft]
  · rcases fill _ s with ⟨⟨_ | ⟨⟩, d⟩, s₁⟩
    · rfl
    · change _ = (if o.collectsCode m then _ else _ : MethodM σ Unit) m s₁
      rw [if_pos collects]
  · rcases fill _ s with ⟨⟨_ | ⟨⟩, d⟩, s₁⟩
    · rfl
    · change _ = (if o.collectsCode m then _ else _ : MethodM σ Unit) m s₁
      rw [if_neg collects]
      rfl

/-- What stands in the way of a body keeps it out, and stays. -/
theorem withCode_of_not_quiet (source : Option CodeModel)
    (fill : CodeDraft → Build σ (Except Error Unit × CodeDraft)) (failed : ¬s.Quiet) :
    (o.withCode source fill) m s = (((), m), s) := by
  have some_ : (s.error <|> s.pool.error) ≠ none :=
    fun none_ => failed (Session.quiet_iff.mpr none_)
  obtain ⟨error, stops⟩ := Option.ne_none_iff_exists'.mp some_
  have looked : (Drafting.session Build.error? : MethodM σ (Option Error)) m s =
      ((some error, m), s) := by
    rw [← stops]
    rfl
  unfold withCode
  simp only [Bind.bind, StateT.bind, looked]
  rfl

end MethodOutlet

open Drafting (Gives)
open LocalsShifter (Use use? Placed Relocates runs)
open CodeDraft (Made)

variable {σ : Type}

/-- A step without a draft gives what it does, and leaves the draft and the session. -/
theorem gives_liftM_iff {α : Type} {m m' : MethodDraft} {s s' : Session σ} {x : Except Error α}
    {a : α} :
    Gives m s (liftM x : ExceptT Error (MethodM σ) α) a m' s' ↔ x = .ok a ∧ m = m' ∧ s = s' := by
  change (((x, m), s) : (Except Error α × MethodDraft) × Session σ) = ((.ok a, m'), s') ↔ _
  simp [and_assoc]

/-- A method has the descriptor that its text spells. -/
theorem MethodDraft.parsed_of {m : MethodDraft} {descriptor : MethodDescriptor}
    (parsed : MethodDescriptor.parse m.descriptor.text = .ok descriptor) :
    m.parsed = .ok descriptor := by
  rw [MethodDraft.parsed, parsed]
  rfl

/-- A session with one value fewer. -/
def Session.forget {τ : Type} (s : Session (σ × τ)) : Session σ := s.withUser s.user.1

/-- A body is handed to a shifter for its method, where the descriptor of that is one. -/
theorem shiftLocals_iff_transform {o : MethodOutlet σ} {m m' : MethodDraft} {s s' : Session σ}
    {e : MethodElement} {c : CodeModel} (body : e.code? = some c) :
    Gives m s (MethodTransform.shiftLocals o e) () m' s' ↔
      ∃ descriptor, MethodDescriptor.parse m.descriptor.text = .ok descriptor ∧
        o.transformCodeWith c (LocalsShifter.start (descriptor.width m.flags.isStatic))
          (LocalsShifter.transform .second) m s = (((), m'), s') := by
  rw [MethodTransform.shiftLocals, body]
  have looked : Gives m s (getThe MethodDraft) m m s := rfl
  constructor
  · intro gives
    obtain ⟨m₁, _, _, looked, gives⟩ := Gives.bind_iff.mp gives
    obtain ⟨rfl, rfl, rfl⟩ : m = m₁ ∧ _ := Gives.pure_iff.mp looked
    obtain ⟨shifter, _, _, lifted, gives⟩ := Gives.bind_iff.mp gives
    obtain ⟨made, rfl, rfl⟩ := gives_liftM_iff.mp lifted
    rw [LocalsShifter.ofMethod] at made
    cases parsed : MethodDescriptor.parse m.descriptor.text with
    | error e => rw [parsed] at made; cases made
    | ok descriptor =>
        rw [parsed] at made
        cases made
        exact ⟨descriptor, rfl, Gives.lift_iff.mp gives⟩
  · rintro ⟨descriptor, parsed, transformed⟩
    have made : LocalsShifter.ofMethod m.flags m.descriptor.text =
        .ok (LocalsShifter.start (descriptor.width m.flags.isStatic)) := by
      rw [LocalsShifter.ofMethod, parsed]
    exact looked.bind ((gives_liftM_iff.mpr ⟨made, rfl, rfl⟩).bind (Gives.lift transformed))

/-- What an action does that has a further value beside what the caller keeps. -/
theorem Build.beside_fst_apply {τ α : Type} (own : τ) (act : Build (σ × τ) α) (s : Session σ) :
    (beside own act >>= fun given => pure given.1 : Build σ α) s =
      ((act (s.withUser (s.user, own))).1, (act (s.withUser (s.user, own))).2.forget) := rfl

/-- A body that is transformed with a value beside what the caller keeps becomes part of its method
where nothing has failed before and the walk comes through. -/
theorem MethodOutlet.transformCodeWith_iff {τ : Type} {o : MethodOutlet σ} {m m' : MethodDraft}
    {s s' : Session σ} {c : CodeModel} {own : τ} {t : CodeTransform (σ × τ)}
    {descriptor : MethodDescriptor}
    (parsed : MethodDescriptor.parse m.descriptor.text = .ok descriptor)
    (quiet : s'.Quiet) :
    o.transformCodeWith c own t m s = (((), m'), s') ↔ s.Quiet ∧ ∃ d s₁,
      Gives (o.codeDraft m descriptor (some c)) (s.withUser (s.user, own))
        (Transform.run c.traversal (some t) .terminal) () d s₁ ∧
      o.addCode d m s₁.forget = (((), m'), s') := by
  by_cases before : s.Quiet
  case neg =>
    refine ⟨fun given => ?_, fun given => absurd given.1 before⟩
    rw [transformCodeWith, withCode_of_not_quiet _ _ before] at given
    cases given
    exact absurd quiet before
  rw [transformCodeWith, withCode_apply _ _ before (MethodDraft.parsed_of parsed)]
  rcases ran : (Transform.run c.traversal (some t) .terminal).run
    (o.codeDraft m descriptor (some c)) (s.withUser (s.user, own)) with ⟨⟨error | ⟨⟩, d⟩, s₁⟩
  · simp only [Gives, StateT.run, Build.beside_fst_apply, ran]
    refine ⟨fun given => ?_, fun given => ?_⟩
    · cases given
      exact absurd quiet.session (Option.some_ne_none _)
    · obtain ⟨-, d', s₂, same, -⟩ := given
      exact nomatch congrArg (·.1.1) same
  · simp only [Gives, StateT.run, Build.beside_fst_apply, ran]
    refine ⟨fun given => ⟨before, d, s₁, rfl, given⟩, fun given => ?_⟩
    obtain ⟨-, d', s₂, same, added⟩ := given
    cases same
    exact added

/-- The body that a method is asked for is one made from its source. -/
theorem MethodOutlet.rewrites_codeDraft (o : MethodOutlet σ) (m : MethodDraft)
    (descriptor : MethodDescriptor) (c : CodeModel) :
    CodeDraft.Rewrites m.flags.isStatic descriptor c (o.codeDraft m descriptor (some c)) := by
  rw [codeDraft]
  split
  · exact .collecting _
  · exact .writing

/-- A body of a method that comes through without an error, and is made part of the method. Its
builder is called for the elements of the old body with their slots moved, so that uses below the
slots of the receiver and the parameters stay, all others go to the limit that the old body declares
or above it, and those of different slots go to runs of slots that do not meet. -/
theorem MethodTransform.shiftLocals_relocates {o : MethodOutlet σ} {m m' : MethodDraft}
    {s s' : Session σ} {e : MethodElement} {c : CodeModel} (body : e.code? = some c)
    (gives : Gives m s (MethodTransform.shiftLocals o e) () m' s') (quiet : s'.Quiet) :
    ∃ descriptor, MethodDescriptor.parse m.descriptor.text = .ok descriptor ∧
      ∃ (d : CodeDraft) (s₀ s₁ : Session (σ × LocalsShifter)) (handed : List Use)
        (elements : List CodeElement) (moved : List (Use × Int)),
        Made (o.codeDraft m descriptor (some c)) s₀ handed elements d s₁ ∧
        o.addCode d m s₁.forget = (((), m'), s') ∧
        moved.map Prod.fst = c.traversal.elements.filterMap use? ∧
        Placed c.traversal.elements (moved.map Prod.snd) elements ∧
        Relocates (descriptor.width m.flags.isStatic)
          (CodeDraft.limit m.flags.isStatic descriptor c)
          moved := by
  obtain ⟨descriptor, parsed, transformed⟩ := (shiftLocals_iff_transform body).mp gives
  obtain ⟨-, d, s₁, ran, added⟩ := (MethodOutlet.transformCodeWith_iff parsed quiet).mp transformed
  obtain ⟨slots, elements, placed, made, served⟩ :=
    LocalsShifter.made_of_run (fun _ _ => rfl) rfl ran
  have length : (c.traversal.elements.filterMap use?).length = slots.length := served.length_eq
  obtain ⟨calls, handed, -⟩ := made.calls
  have lie := CodeDraft.endToEnd_handedOut calls (o.codeDraft m descriptor (some c))
    (s.withUser (s.user, LocalsShifter.start (descriptor.width m.flags.isStatic)))
  rw [handed, (o.rewrites_codeDraft m descriptor c).next] at lie
  rw [(o.rewrites_codeDraft m descriptor c).next] at served
  refine ⟨descriptor, parsed, d, _, s₁, _, elements,
    (c.traversal.elements.filterMap use?).zip slots, made, added,
    List.map_fst_zip (Nat.le_of_eq length), ?_, ?_⟩
  · rw [List.map_snd_zip (Nat.le_of_eq length.symm)]
    exact placed
  · refine LocalsShifter.relocates_of_served ?_ served
    simpa only [(o.rewrites_codeDraft m descriptor c).next] using lie

/-- A static method without parameters, to be collected. -/
def storingMethod : MethodDraft := .start false default ⟨default, "()V"⟩ ⟨0x0008⟩

/-- An integer is stored into slot five, and a long integer into slot six. -/
def twoStores : BuiltCode :=
  ⟨none, none, [LocalsShifter.narrowStore, .instruction (.store ⟨0x37⟩ 6)]⟩

/-- The store of a long integer into slot six uses two slots. -/
theorem use?_lstore : use? (.instruction (.store ⟨0x37⟩ 6)) = some (6, 2) := by
  rw [use?, LocalsShifter.kind_lstore]
  rfl

/-- The two stores use a slot and the two after it. -/
theorem uses_twoStores : twoStores.elements.filterMap use? = [(5, 1), (6, 2)] := by
  rw [twoStores, List.filterMap_cons_some LocalsShifter.use?_narrowStore,
    List.filterMap_cons_some use?_lstore]
  rfl

open LocalsShifter (start new?_start new?_give MovesAll Stores Passes) in
/-- The two values move to slot zero and to slots one and two. -/
theorem exists_run_twoStores {h : Held σ LocalsShifter} {d : CodeDraft} {s : Session σ}
    (keeps : LocalsShifter.Keeps h) (fresh : h.get s.user = start 0) (quiet : s.Quiet)
    (empty : CodeDraft.Collected d []) (first : d.frame.next = 0) :
    ∃ d' s', Gives d s (Transform.run (.ofList twoStores.elements)
      (some (LocalsShifter.transform h)) .terminal) () d' s' ∧ s'.Quiet := by
  have unknown : ((start 0).give ((start 0).key 5 1) (0 : Nat) 1).new? (6, 2) = none := by
    rw [new?_give (u := (5, 1)) (.inl rfl) (.inr rfl), if_neg (by decide), new?_start]
  have moves := MovesAll.step (.given (by decide) (new?_start 0 (5, 1)))
    (.step (.given (u := (6, 2)) (by rw [LocalsShifter.fixed_give]; decide) unknown) (.done _ _))
  have later : Placed [.instruction (.store ⟨0x37⟩ 6)] [1] _ :=
    .used use?_lstore (by rw [LocalsShifter.place, LocalsShifter.kind_lstore]; rfl) .nil
  have placed := Placed.used LocalsShifter.use?_narrowStore (LocalsShifter.place_narrowStore 0)
    later
  have stores : ∀ e ∈ twoStores.elements, Stores e ∨ Passes e :=
    List.forall_mem_cons.mpr ⟨LocalsShifter.stores_narrowStore, List.forall_mem_singleton.mpr
      (.inl ⟨⟨0x37⟩, ⟨0x37⟩, 6, rfl, by decide, by rw [LocalsShifter.kind_lstore]; rfl⟩)⟩
  obtain ⟨d', s', gives, quiet', -⟩ := LocalsShifter.exists_run_of keeps fresh quiet empty stores
    placed (by rw [first, uses_twoStores]; exact moves)
  exact ⟨d', s', gives, quiet'⟩

/-- An integer in slot five and a long integer in slot six move to runs of slots that do not
meet. -/
theorem MethodTransform.shiftLocals_relocates_stores : ∃ (m' : MethodDraft) (s' : Session Unit),
    Gives storingMethod (Build.start .none .empty ())
      (shiftLocals .terminal (.code twoStores)) () m' s' ∧
    ∃ (elements : List CodeElement) (moved : List (Use × Int)),
      moved.map Prod.fst = [(5, 1), (6, 2)] ∧
      Placed twoStores.elements (moved.map Prod.snd) elements ∧ Relocates 0 0 moved := by
  have parsed : MethodDescriptor.parse storingMethod.descriptor.text = .ok ⟨[], .void⟩ :=
    MethodDescriptor.parse_bare
  have quiet : (Build.start .none .empty () : Session Unit).Quiet := ⟨rfl, rfl⟩
  obtain ⟨d, s₁, ran, quiet₁⟩ := exists_run_twoStores (h := .second)
    (d := MethodOutlet.codeDraft (.terminal : MethodOutlet Unit) storingMethod ⟨[], .void⟩
      (some (.built twoStores)))
    (s := (Build.start .none .empty () : Session Unit).withUser
      ((), LocalsShifter.start
        ((⟨[], .void⟩ : MethodDescriptor).width storingMethod.flags.isStatic)))
    (fun _ _ => rfl) rfl ⟨rfl, rfl⟩ rfl rfl
  have quiet' : s₁.forget.Quiet := ⟨quiet₁.session, quiet₁.pool⟩
  have added : (MethodOutlet.addCode .terminal d : MethodM Unit Unit) storingMethod s₁.forget =
      (((), { storingMethod with parts := #[.code d.collected] }), s₁.forget) := by
    change (Outlet.terminal.emit (MethodElement.code d.collected) : MethodM Unit Unit)
      storingMethod s₁.forget = _
    rw [Outlet.emit_terminal quiet']
    rfl
  have transformed := (MethodOutlet.transformCodeWith_iff parsed quiet').mpr
    ⟨quiet, d, s₁, ran, added⟩
  have gives := (shiftLocals_iff_transform (e := .code twoStores) rfl).mpr ⟨_, parsed, transformed⟩
  refine ⟨_, _, gives, ?_⟩
  obtain ⟨descriptor, parsed', _, _, _, _, elements, moved, -, -, uses, placed, relocates⟩ :=
    shiftLocals_relocates rfl gives quiet'
  obtain rfl := Except.ok.inj (parsed.symm.trans parsed')
  exact ⟨elements, moved, uses.trans uses_twoStores, placed, relocates⟩

end JvmClass
