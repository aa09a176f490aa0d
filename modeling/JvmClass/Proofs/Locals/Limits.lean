import JvmClass.Proofs.Build.Library
import JvmClass.Proofs.Build.Members
import JvmClass.Proofs.Locals.Allocation

/-!
# The limits that a body declares

A body that is written counts its local slots as they are named and follows its stack to the end.
Neither count is bounded, and each is written to two bytes. `limits_hold_iff` says when what is
written is what was counted.
-/

namespace JvmClass

open LocalsShifter (Use)

variable {σ α : Type}

/-- Calls leave the options alone, and nothing is quiet after them that was not before. -/
theorem Build.Calls.keeps {act : Build σ α} (calls : Build.Calls act) (s : Session σ) :
    (act s).2.options = s.options ∧ ((act s).2.Quiet → s.Quiet) := by
  induction calls with
  | pure | look | freshLabel | onUser => exact ⟨rfl, fun quiet => ⟨quiet.session, quiet.pool⟩⟩
  | bind _ _ first next =>
      exact ⟨(next _ _).1.trans (first s).1, fun quiet => (first s).2 ((next _ _).2 quiet)⟩
  | interning requests =>
      exact ⟨rfl, fun quiet => ⟨quiet.session, (requests.grow s.pool).error quiet.pool⟩⟩
  | fail => exact ⟨rfl, fun quiet => nomatch quiet.session⟩
  | beside extra _ inductionHypothesis =>
      obtain ⟨options, quiet⟩ := inductionHypothesis { s with user := (s.user, extra) }
      exact ⟨options, fun after =>
        have before := quiet ⟨after.session, after.pool⟩
        ⟨before.session, before.pool⟩⟩

/-- The slots that an element makes a body count. -/
def CodeElement.counted? (options : Options) : CodeElement → Option Use
  | .instruction i => use? (.instruction i)
  | .localVariable s => if options.has .dropDebugInfo then none else use? (.localVariable s)
  | _ => none

namespace BodyWriter

/-- A body has room for some slots from the start and for some that were used, and for no more. -/
structure Tallies (start : Nat) (uses : List Use) (w : BodyWriter) : Prop where
  begins : start ≤ w.maxLocals
  covers : ∀ u ∈ uses, u.1 + u.2 ≤ w.maxLocals
  least : w.maxLocals = start ∨ ∃ u ∈ uses, (w.maxLocals : Int) = u.1 + u.2

namespace Tallies

variable {start : Nat} {uses more : List Use} {w w' : BodyWriter}

/-- A tally is about the number of locals only. -/
theorem congr (tallies : Tallies start uses w) (same : w'.maxLocals = w.maxLocals) :
    Tallies start uses w' :=
  ⟨same ▸ tallies.begins, same ▸ tallies.covers, same ▸ tallies.least⟩

/-- A tally does not depend on the order of uses or on how often they occur. -/
theorem perm (tallies : Tallies start uses w) (same : ∀ u, u ∈ uses ↔ u ∈ more) :
    Tallies start more w where
  begins := tallies.begins
  covers u member := tallies.covers u ((same u).mpr member)
  least := tallies.least.imp_right fun ⟨u, member, stop⟩ => ⟨u, (same u).mp member, stop⟩

/-- A use counts for the slots that its value takes. -/
theorem useLocal (tallies : Tallies start uses w) (slot : Int) (k : Kind) :
    Tallies start (uses ++ [(slot, k.slots)]) (w.useLocal slot k) := by
  obtain ⟨begins, covers, least⟩ := tallies
  have covered (n : Nat) (more : w.maxLocals ≤ n) (here : slot + k.slots ≤ n) :
      ∀ u ∈ uses ++ [(slot, k.slots)], u.1 + u.2 ≤ n := by
    intro u member
    rcases List.mem_append.mp member with before | now
    · have := covers u before
      omega
    · obtain rfl := List.mem_singleton.mp now
      exact here
  rw [BodyWriter.useLocal]
  split <;> rename_i beyond
  · refine ⟨?_, covered _ ?_ ?_,
      .inr ⟨(slot, k.slots), List.mem_append_right _ (List.mem_singleton_self _), ?_⟩⟩ <;>
      dsimp only <;> omega
  · refine ⟨begins, covered _ (Nat.le_refl _) (by omega), least.imp_right ?_⟩
    rintro ⟨u, member, stop⟩
    exact ⟨u, List.mem_append_left _ member, stop⟩

/-- The count fits two bytes exactly when everything that is counted does. -/
theorem fits_iff (tallies : Tallies start uses w) :
    w.maxLocals ≤ 65535 ↔ start ≤ 65535 ∧ ∀ u ∈ uses, u.1 + u.2 ≤ 65535 := by
  constructor
  · intro fits
    refine ⟨Nat.le_trans tallies.begins fits, fun u member => ?_⟩
    have := tallies.covers u member
    omega
  · rintro ⟨first, all⟩
    rcases tallies.least with same | ⟨u, member, same⟩
    · omega
    · have := all u member
      omega

end Tallies

variable {start : Nat} {uses : List Use} {w : BodyWriter}

/-- An element that is taken is counted. -/
theorem tallies_put (tallies : Tallies start uses w) (options : Options) (e : CodeElement)
    (p : PoolBuilder) : Yields (fun _ => True) ((w.put options e).run p).1
      (Tallies start (uses ++ (e.counted? options).toList)) := by
  have none_ {w' : BodyWriter} (same : w'.maxLocals = w.maxLocals) :
      Tallies start (uses ++ []) w' := by
    rw [List.append_nil]
    exact tallies.congr same
  cases e with
  | instruction i =>
      have encoded : Yields (fun _ => True) ((Cell.ofInstruction w.size i).run p).1 fun _ => True :=
        ⟨fun _ _ => trivial, fun _ _ => trivial⟩
      refine encoded.run_bind fun cells q _ => .pure ?_
      rw [CodeElement.counted?, CodeElement.use?]
      cases i.localUse? with
      | none => exact none_ rfl
      | some use => exact (tallies.useLocal use.1 use.2).congr rfl
  | label l =>
      refine ⟨fun w' given => none_ ?_, fun _ _ => trivial⟩
      change w.label l = .ok w' at given
      cases l with
      | none => cases given
      | some l =>
          rw [label] at given
          split at given
          · cases given
          · obtain rfl := Except.ok.inj given
            rfl
  | handler row => exact .pure (none_ rfl)
  | line n =>
      rw [put]
      split <;> exact .pure (none_ rfl)
  | localVariable s =>
      refine .pure ?_
      rw [CodeElement.counted?]
      split
      · exact none_ rfl
      · rw [CodeElement.use?, variable_]
        cases s.type with
        | none => exact none_ rfl
        | some type =>
            have pushed : Tallies start uses { w with scopes := w.scopes.push s } :=
              tallies.congr rfl
            exact pushed.useLocal _ _
  | localVariableType s =>
      rw [put]
      split <;> exact .pure (none_ rfl)
  | «attribute» a =>
      rw [put]
      split <;> exact .pure (none_ rfl)

/-- A label for the end is bound at the end, and no other is needed then. -/
theorem finish_some (declared : Option Nat) (l : Label) (w : BodyWriter) :
    (w.finish declared (some l) : Build σ (Except Error Bytes)) =
      (if w.bound.contains l then w else w.bindAt l w.size).finish declared none := by
  by_cases bound : w.bound.contains l = true
  · simp only [finish, bound, ↓reduceIte]
  · simp only [finish, bound, ↓reduceIte, Bool.false_eq_true]
    rfl

/-- A body that is finished starts with its limits. -/
theorem limits_of_finish {declared : Option Nat} {stop : Option Label} {body : Bytes}
    {s s' : Session σ}
    (finished : w.finish declared stop s = (.ok body, s')) : s.Quiet ∧ ∃ depth rest,
      w.maxStack s.options declared = .ok depth ∧ body = u2 depth ++ u2 w.maxLocals ++ rest := by
  have quiet : s.Quiet := by
    rw [Session.quiet_iff]
    rw [finish.eq_def, bind_apply] at finished
    have looked : Build.error? s = ((s.error <|> s.pool.error), s) := rfl
    rw [looked] at finished
    cases stands : (s.error <|> s.pool.error) with
    | some e =>
        rw [stands] at finished
        exact nomatch congrArg Prod.fst finished
    | none => rfl
  have unlabelled (w : BodyWriter) (finished : w.finish declared none s = (.ok body, s')) :
      ∃ depth rest, w.maxStack s.options declared = .ok depth ∧
        body = u2 depth ++ u2 w.maxLocals ++ rest := by
    rw [finish, bind_apply, quiet.error?] at finished
    dsimp only at finished
    rw [ite_apply_state] at finished
    split at finished
    · exact nomatch congrArg Prod.fst finished
    rw [ite_apply_state] at finished
    split at finished
    · exact nomatch congrArg Prod.fst finished
    rw [bind_apply] at finished
    have writes := Emit.writes_iff_gives.mp (Emit.writes_of_finish finished)
    simp only [Drafting.Gives.bind_iff] at writes
    obtain ⟨code, _, _, -, depth, _, _, known, exceptions, _, _, -, rest, _, _, -, written⟩ :=
      writes
    obtain ⟨rfl, -, -⟩ := Drafting.Gives.pure_iff.mp written
    cases found : w.maxStack s.options declared with
    | error e =>
        rw [show (Build.options s).1 = s.options from rfl, found] at known
        exact absurd known Drafting.Gives.not_throw
    | ok n =>
        rw [show (Build.options s).1 = s.options from rfl, found] at known
        obtain ⟨rfl, -, -⟩ := Drafting.Gives.pure_iff.mp known
        exact ⟨n, u4 code.length ++ code ++ exceptions ++ rest, rfl,
          by simp only [List.append_assoc]⟩
  cases stop with
  | none => exact ⟨quiet, unlabelled w finished⟩
  | some l =>
      rw [finish_some] at finished
      split at finished
      · exact ⟨quiet, unlabelled w finished⟩
      · exact ⟨quiet, unlabelled (w.bindAt l w.size) finished⟩

end BodyWriter

namespace CodeDraft

/-- A call that takes nothing back: what does not concern the body is made of calls itself. -/
def Call.Made : Call σ → Prop
  | .session act => Build.Calls act
  | _ => True

/-- The slots that an element names which is emitted. -/
def Call.counted? (options : Options) : Call σ → Option Use
  | .emit e => e.counted? options
  | _ => none

/-- A call that takes nothing back is one of the builder's calls. -/
theorem Call.calls_ask (call : Call σ) (made : call.Made) : Drafting.Calls call.ask := by
  cases call with
  | emit e => exact .bind (CodeOutlet.calls_emit (o := .terminal) trivial e) fun _ => .pure _
  | startLabel => exact .bind CodeM.calls_startLabel fun _ => .pure _
  | endLabel => exact .bind CodeM.calls_endLabel fun _ => .pure _
  | session act => exact .bind (.session made) fun _ => .pure _
  | allocate k => exact .bind (CodeM.calls_allocateLocal k) fun _ => .pure _

/-- As long as nothing has failed, a body that is written has counted some slots. -/
structure Counts (source : Option CodeModel) (options : Options) (start : Nat) (uses : List Use)
    (d : CodeDraft) (s : Session σ) : Prop where
  options : s.options = options
  tallies : s.Quiet → d.source = source ∧ ∃ w, d.target = .writing w ∧ w.Tallies start uses

variable {source : Option CodeModel} {options : Options} {start : Nat} {uses : List Use}
    {d : CodeDraft} {s : Session σ}

/-- A call makes a body count what it names. -/
theorem Counts.ask {call : Call σ} (counts : Counts source options start uses d s)
    (made : call.Made) :
    Counts source options start
      (uses ++ (call.counted? options).toList ++ (call.ask d s).1.1.toList)
      (call.ask d s).1.2 (call.ask d s).2 := by
  have keeps := (call.calls_ask made d).keeps s
  refine ⟨keeps.1.trans counts.options, fun after => ?_⟩
  have quiet := keeps.2 after
  obtain ⟨rfl, w, writes, tallies⟩ := counts.tallies quiet
  obtain ⟨source, parent, frame, first, stop, _⟩ := d
  obtain rfl : _ = CodeTarget.writing w := writes
  have same {w' : BodyWriter} (locals : w'.maxLocals = w.maxLocals) :
      w'.Tallies start (uses ++ [] ++ []) := by
    rw [List.append_nil, List.append_nil]
    exact tallies.congr locals
  cases call with
  | startLabel => cases first <;> exact ⟨rfl, _, rfl, same rfl⟩
  | endLabel => cases stop <;> exact ⟨rfl, _, rfl, same rfl⟩
  | session act => exact ⟨rfl, _, rfl, same rfl⟩
  | allocate k =>
      have handed := LocalsShifter.handOut_apply k
        { source, parent, frame, start := first, stop, target := .writing w } s
      cases given : frame.allocate? k with
      | error e =>
          rw [given] at handed
          rw [Call.ask_allocate, handed] at after
          exact nomatch after.session
      | ok reached =>
          obtain ⟨slot, next⟩ := reached
          rw [given] at handed
          rw [Call.ask_of_allocated handed]
          refine ⟨rfl, w.useLocal slot k, rfl, ?_⟩
          change BodyWriter.Tallies start (uses ++ [] ++ [((slot : Int), k.slots)]) _
          rw [List.append_nil]
          exact tallies.useLocal slot k
  | emit e =>
      have asked (d : CodeDraft) : (Call.emit e).ask d s =
          ((none, ((Outlet.terminal.emit e : CodeM σ Unit) d s).1.2),
            ((Outlet.terminal.emit e : CodeM σ Unit) d s).2) := rfl
      have put := BodyWriter.tallies_put tallies s.options e s.pool
      rw [asked, Outlet.emit_terminal quiet, accept_writing rfl] at after ⊢
      generalize (w.put s.options e).run s.pool = reached at put after ⊢
      obtain ⟨outcome, q⟩ := reached
      cases outcome with
      | error e => exact nomatch after.session
      | ok w' =>
          refine ⟨rfl, w', rfl, ?_⟩
          change BodyWriter.Tallies start (uses ++ (e.counted? options).toList ++ []) _
          rw [List.append_nil, ← counts.options]
          exact put.1 w' rfl

/-- Calls make a body count what they name and what they are handed out. -/
theorem Counts.handedOut (calls : List (Call σ)) (made : ∀ call ∈ calls, call.Made)
    (counts : Counts source options start uses d s) :
    Counts source options start (uses ++ calls.filterMap (Call.counted? options) ++
      (handedOut calls d s).1.1) (handedOut calls d s).1.2 (handedOut calls d s).2 := by
  induction calls generalizing uses d s with
  | nil =>
      rw [List.filterMap_nil, List.append_nil]
      change Counts _ _ _ (uses ++ []) d s
      rwa [List.append_nil]
  | cons call rest inductionHypothesis =>
      have others := inductionHypothesis
        (fun call member => made call (List.mem_cons_of_mem _ member))
        (counts.ask (made call List.mem_cons_self))
      refine ⟨others.options, fun after => ?_⟩
      obtain ⟨same, w, writes, tallies⟩ := others.tallies after
      refine ⟨same, w, writes, tallies.perm fun u => ?_⟩
      have named : (call :: rest).filterMap (Call.counted? options) =
          (call.counted? options).toList ++ rest.filterMap (Call.counted? options) := by
        rw [List.filterMap_cons]
        cases call.counted? options <;> rfl
      rw [handedOut_cons, named]
      simp only [List.mem_append]
      tauto

/-- The builder of a body that is written, after some calls. -/
def built (static : Bool) (descriptor : MethodDescriptor) (source : Option CodeModel)
    (calls : List (Call σ)) (s : Session σ) : (List Use × CodeDraft) × Session σ :=
  CodeDraft.handedOut calls (.writing static descriptor source) s

/-- What a builder comes to: the body that it finishes. -/
def finished (reached : (List Use × CodeDraft) × Session σ) : Except Error Bytes :=
  (reached.1.2.finish reached.2).1

/-- The depth that a body declares is the one that its stack reaches, or the one that it has to take
over, exactly when that fits two bytes. Its locals reach past all slots that it names, those of the
receiver and the parameters among them, exactly when these all fit two bytes. -/
theorem limits_hold_iff (static : Bool) (descriptor : MethodDescriptor) (source : Option CodeModel)
    (declared : ∀ m ∈ source, ∀ limits ∈ m.declared, limits.2 ≤ 65535)
    {calls : List (Call σ)} (made : ∀ call ∈ calls, call.Made) {s : Session σ} {body : Bytes}
    (given : finished (built static descriptor source calls s) = .ok body) :
    ∃ w depth stack locals,
      (built static descriptor source calls s).1.2.target = .writing w ∧
      w.maxStack s.options ((source.bind CodeModel.declared).map (·.1)) = .ok depth ∧
      (⟨body.toArray⟩ : Cursor).u2? 0 = some stack ∧ (⟨body.toArray⟩ : Cursor).u2? 2 = some locals ∧
      (stack = depth ↔ depth ≤ 65535) ∧
      let uses := calls.filterMap (Call.counted? s.options) ++
        (built static descriptor source calls s).1.1
      (descriptor.width static ≤ locals ∧ (∀ u ∈ uses, u.1 + u.2 ≤ locals) ↔
        descriptor.width static ≤ 65535 ∧ ∀ u ∈ uses, u.1 + u.2 ≤ 65535) := by
  have begins : Counts source s.options (frameFor static descriptor source).next []
      (.writing static descriptor source) s :=
    ⟨rfl, fun _ => ⟨rfl, _, rfl, Nat.le_refl _, nofun, .inl rfl⟩⟩
  have counts := Counts.handedOut calls made begins
  change Counts _ _ _ _ (built static descriptor source calls s).1.2
    (built static descriptor source calls s).2 at counts
  rw [finished] at given
  change Counts _ _ _ ([] ++ _ ++ (built static descriptor source calls s).1.1) _ _ at counts
  generalize built static descriptor source calls s = reached at given counts ⊢
  obtain ⟨⟨handed, d⟩, s'⟩ := reached
  obtain ⟨options, tallies⟩ := counts
  rw [List.nil_append] at tallies
  obtain ⟨source', parent, frame, first, stop, target⟩ := d
  cases target with
  | collecting elements => exact nomatch given
  | writing w =>
      obtain ⟨quiet, depth, rest, known, rfl⟩ := BodyWriter.limits_of_finish (Prod.ext given rfl)
      obtain ⟨rfl, w', same, tallies⟩ := tallies quiet
      obtain rfl := CodeTarget.writing.inj same
      have spells := Cursor.spells_all (u2 depth ++ u2 w.maxLocals ++ rest)
      rw [Cursor.spells_append_iff, Cursor.spells_append_iff] at spells
      obtain ⟨⟨first, second⟩, -⟩ := spells
      rw [length_u2] at second
      refine ⟨w, depth, unsigned 16 depth, unsigned 16 w.maxLocals, rfl, options ▸ known, first.u2,
        second.u2, ?_, ?_⟩
      · constructor
        · intro same
          have := unsigned_lt 16 depth
          omega
        · exact fun fits => unsigned_ofNat (Nat.lt_succ_of_le fits)
      · constructor
        · rintro ⟨parameters, covers⟩
          have := unsigned_lt 16 w.maxLocals
          exact ⟨by omega, fun u member => by have := covers u member; omega⟩
        · rintro ⟨parameters, fits⟩
          have limit : (frameFor static descriptor source').next ≤ 65535 := by
            refine Nat.max_le.mpr ⟨parameters, ?_⟩
            cases source' with
            | none => exact Nat.zero_le _
            | some m =>
                cases limits : m.declared with
                | none => simp [limits]
                | some pair => simpa [limits] using declared m rfl pair limits
          have all := tallies.fits_iff.mpr ⟨limit, fits⟩
          rw [unsigned_ofNat (Nat.lt_succ_of_le all)]
          exact ⟨Nat.le_trans (Nat.le_max_left _ _) tallies.begins, tallies.covers⟩

/-- What asks for a static method without parameters that only adds one to a slot. -/
def incrementing (slot : Int) : List (Call Unit) := [.emit (.instruction (.increment slot 1))]

/-- The builder of the body that adds one to a slot. -/
def increments (slot : Int) : (List Use × CodeDraft) × Session Unit :=
  built true ⟨[], .void⟩ none (incrementing slot) (Build.start .none .empty ())

/-- A slot that is counted. -/
theorem limits_hold_increments : ∃ body locals, finished (increments 3) = .ok body ∧
    (⟨body.toArray⟩ : Cursor).u2? 2 = some locals ∧ 4 ≤ locals := by
  have given : finished (increments 3) = .ok [0, 0, 0, 4, 0, 0, 0, 3, 0x84, 3, 1, 0, 0, 0, 0] := rfl
  have made : ∀ call ∈ incrementing 3, call.Made := fun call member =>
    List.mem_singleton.mp member ▸ trivial
  obtain ⟨w, depth, stack, locals, -, -, -, read, -, holds⟩ :=
    limits_hold_iff true ⟨[], .void⟩ none nofun made given
  have uses : ∀ u ∈ [((3 : Int), (1 : Nat))], u.1 + u.2 ≤ 65535 := by decide
  have covers := (holds.mpr ⟨by decide, uses⟩).2 (3, 1) (List.mem_singleton_self _)
  exact ⟨_, locals, given, read, Int.ofNat_le.mp covers⟩

/-- The last slot of all is named, and the body declares that it has no locals. -/
theorem increments_last_uncounted : ∃ body, finished (increments 65535) = .ok body ∧
    (incrementing 65535).filterMap (Call.counted? .none) = [(65535, 1)] ∧
    (⟨body.toArray⟩ : Cursor).u2? 2 = some 0 :=
  ⟨[0, 0, 0, 0, 0, 0, 0, 6, 0xc4, 0x84, 0xff, 0xff, 0, 1, 0, 0, 0, 0], rfl, rfl, rfl⟩

end CodeDraft

end JvmClass
