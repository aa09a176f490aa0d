import JvmClass.Proofs.Build.Blame
import JvmClass.Proofs.Build.Drafts

/-!
# Writing a decoded body again

The labels of a decoded body are bound once each, so a body writer that takes its elements has where
everything stands that they refer to. Whatever writing such a body fails with, it is not for a
label.
-/

namespace JvmClass

variable {σ : Type}

/-! ## Cells -/

namespace Cell

/-- Encoding fails for other reasons than labels, and what it gives refers to the given labels. -/
def Refers (labels : List (Option Label)) (act : ExceptT Error Interning (List Cell)) : Prop :=
  ∀ p : PoolBuilder, Yields (fun e => e.ofLabels = false) (act.run p).1 fun cells =>
    ∀ cell ∈ cells, cell.targets ⊆ labels

variable {labels : List (Option Label)}

/-- Plain bytes refer to no labels. -/
theorem targets_bytes (b : Bytes) : ∀ cell ∈ bytes b, cell.targets ⊆ labels := by
  intro cell member
  obtain ⟨byte, -, rfl⟩ := List.mem_map.mp member
  exact List.nil_subset _

/-- A far jump refers to its target. -/
theorem targets_far {offset : Nat} {target : Option Label} (needed : target ∈ labels) :
    (Cell.far offset target).targets ⊆ labels := List.cons_subset.mpr ⟨needed, List.nil_subset _⟩

namespace Refers

/-- Plain bytes are given without a label. -/
theorem bytes (b : Bytes) : Refers labels (pure (Cell.bytes b)) := fun _ => .pure (targets_bytes b)

/-- An action that fails for other reasons than labels refers to none. -/
theorem throw {e : Error} (other : e.ofLabels = false) : Refers labels (throw e) :=
  fun _ => .throw other

/-- A step without a pool refers to what the cells do that it gives. -/
theorem liftM {x : Except Error (List Cell)}
    (yields : Yields (fun e => e.ofLabels = false) x fun cells => ∀ cell ∈ cells,
      cell.targets ⊆ labels) :
    Refers labels (liftM x) := fun _ => yields

/-- A choice between two actions refers to what either does. -/
theorem ite {c : Prop} [Decidable c] {x y : ExceptT Error Interning (List Cell)}
    (first : Refers labels x) (second : Refers labels y) : Refers labels (if c then x else y) := by
  split <;> assumption

/-- A guard whose error is not about labels refers to what follows. -/
theorem guard {α : Type} {c : Prop} [Decidable c] {m : Misuse}
    {stops : α → ExceptT Error Interning (List Cell)} {rest : ExceptT Error Interning (List Cell)}
    (other : (Error.misuse m).ofLabels = false) (refers : Refers labels rest) :
    Refers labels (if c then throwThe Error (.misuse m) >>= stops else rest) := by
  split
  · exact fun _ => ⟨nofun, fun _ same => Except.error.inj same ▸ other⟩
  · exact refers

/-- Actions one after another refer to what both do. -/
theorem bind {x : ExceptT Error Interning (List Cell)}
    {f : List Cell → ExceptT Error Interning (List Cell)} (first : Refers labels x)
    (next : ∀ cells, (∀ cell ∈ cells, cell.targets ⊆ labels) → Refers labels (f cells)) :
    Refers labels (x >>= f) := fun p => (first p).run_bind fun cells q known => next cells known q

/-- The index of a constant is known first, if there is one. -/
theorem ref {e : Option Entry} {next : Nat → ExceptT Error Interning (List Cell)}
    (refers : ∀ n, Refers labels (next n)) : Refers labels (refIndex e >>= next) := by
  cases e with
  | none => exact fun _ => ⟨nofun, fun _ same => Except.error.inj same ▸ rfl⟩
  | some e => exact fun p => refers (PoolBuilder.indexOf e p).1 (PoolBuilder.indexOf e p).2

end Refers

/-- Loads and stores refer to no labels. -/
theorem refers_ofLocal (op : Opcode) (slot : Int) : Refers labels (liftM (ofLocal op slot)) := by
  refine .liftM (.guard (fun _ => rfl) fun _ => .ite (fun _ => .pure (targets_bytes _)) fun _ => ?_)
  exact .ite (fun _ => .pure (targets_bytes _)) fun _ => .pure (targets_bytes _)

/-- Increments refer to no labels. -/
theorem refers_ofIncrement (slot delta : Int) : Refers labels (liftM (ofIncrement slot delta)) := by
  refine .liftM (.ite (fun _ => .pure (targets_bytes _)) fun _ => ?_)
  exact .ite (fun _ => .pure (targets_bytes _)) fun _ => .throw rfl

/-- A jump refers to its target, in either form. -/
theorem targets_ofJump (op : Opcode) (target : Option Label) (offset : Nat) :
    ∀ cell ∈ ofJump op target offset, cell.targets ⊆ [target] := by
  refine List.forall_mem_append.mpr ⟨targets_bytes _, List.forall_mem_singleton.mpr ?_⟩
  split <;> exact List.Subset.refl _

/-- What a switch starts with refers to its default. -/
theorem targets_switchHead {op : Opcode} {offset : Nat} {fallback : Option Label}
    (needed : fallback ∈ labels) : ∀ cell ∈ switchHead op offset fallback, cell.targets ⊆ labels :=
  List.forall_mem_append.mpr ⟨targets_bytes _, List.forall_mem_singleton.mpr (targets_far needed)⟩

/-- A switch by search refers to its default and the targets of its cases. -/
theorem refers_ofLookup (offset : Nat) (fallback : Option Label) (cases : List SwitchCase) :
    Refers (fallback :: cases.map (·.target)) (liftM (ofLookup offset fallback cases)) := by
  have rest : Yields (fun e => e.ofLabels = false)
      (pure (switchHead Opcode.lookupswitch offset fallback ++
        Cell.bytes (u4 (cases.mergeSort fun a b => a.value ≤ b.value).length) ++
        (cases.mergeSort fun a b => a.value ≤ b.value).flatMap fun c =>
          Cell.bytes (u4 c.value) ++ [.far offset c.target]) : Except Error (List Cell))
      fun cells => ∀ cell ∈ cells, cell.targets ⊆ fallback :: cases.map (·.target) := by
    refine .pure (List.forall_mem_append.mpr ⟨List.forall_mem_append.mpr
      ⟨targets_switchHead List.mem_cons_self, targets_bytes _⟩, fun cell member => ?_⟩)
    obtain ⟨c, listed, member⟩ := List.mem_flatMap.mp member
    rcases List.mem_append.mp member with member | member
    · exact targets_bytes _ cell member
    · obtain rfl := List.mem_singleton.mp member
      exact targets_far (List.mem_cons_of_mem _
        (List.mem_map.mpr ⟨c, List.mem_mergeSort.mp listed, rfl⟩))
  refine .liftM ?_
  rw [ofLookup]
  dsimp only
  split
  · exact .throw rfl
  · exact rest

/-- What a table of targets holds is a target of one of the cases. -/
theorem mem_targets_of_insert {cases : List SwitchCase} {m : Std.HashMap Int (Option Label)}
    {v : Int}
    {target : Option Label}
    (found : (cases.foldl (fun m c => m.insert c.value c.target) m)[v]? = some target) :
    m[v]? = some target ∨ target ∈ cases.map (·.target) := by
  induction cases generalizing m with
  | nil => exact .inl found
  | cons c rest inductionHypothesis =>
      rcases inductionHypothesis found with before | later
      · rw [Std.HashMap.getElem?_insert] at before
        split at before
        · exact .inr (Option.some.inj before ▸ List.mem_cons_self)
        · exact .inl before
      · exact .inr (List.mem_cons_of_mem _ later)

/-- A switch by table refers to its default and the targets of its cases. -/
theorem refers_ofTable (offset : Nat) (low high : Int) (fallback : Option Label)
    (cases : List SwitchCase) :
    Refers (fallback :: cases.map (·.target)) (liftM (ofTable offset low high fallback cases)) := by
  refine .liftM (.guard (fun _ => rfl) fun _ => .pure (List.forall_mem_append.mpr
    ⟨List.forall_mem_append.mpr ⟨targets_switchHead List.mem_cons_self, targets_bytes _⟩, ?_⟩))
  intro cell member
  obtain ⟨n, -, rfl⟩ := List.mem_map.mp member
  refine targets_far ?_
  cases found : (cases.foldl (fun m c => m.insert c.value c.target)
      (∅ : Std.HashMap Int (Option Label)))[low + n]? with
  | none => exact List.mem_cons_self
  | some target =>
      rw [Option.getD_some]
      rcases mem_targets_of_insert found with impossible | listed
      · simp at impossible
      · exact List.mem_cons_of_mem _ listed

/-- An instruction with a constant refers to no labels. -/
theorem refers_ofRef (op : Opcode) (e : Option Entry) (more : Bytes) :
    Refers labels (ofRef op e more) := .ref fun _ => .bytes _

/-- A call of a method refers to no labels. -/
theorem refers_ofInvoke (op : Opcode) (method : Option MemberEntry) :
    Refers labels (ofInvoke op method) := by
  refine (refers_ofRef op _ []).bind fun cells known => ?_
  split
  · refine .ite ?_ fun _ => .pure known
    split
    · exact .throw rfl
    · exact fun _ => .pure (List.forall_mem_append.mpr ⟨known, targets_bytes _⟩)
  · exact fun _ => .pure known

/-- A constant instruction refers to no labels. -/
theorem refers_ofConstant (op : Opcode) (value : Int) (entry : Option Loadable) :
    Refers labels (ofConstant op value entry) := by
  rw [ofConstant]
  refine .ite (.guard rfl (.bytes _))
    (.ite (.guard rfl (.bytes _)) (.ite ?_ (.ite (.bytes _) (.throw rfl))))
  exact .ref fun index => .ite (.bytes _) (.ite (.bytes _) (.bytes _))

/-- An instruction that is only its opcode refers to no labels. -/
theorem refers_plain (i : Instruction) (op : Opcode) : Refers labels (ofInstruction.plain i op) :=
  .ite (.bytes _) (.throw rfl)

/-- Encoding an instruction fails for other reasons than labels, and what it gives refers to the
targets. -/
theorem refers_ofInstruction (offset : Nat) (i : Instruction) :
    Refers i.targets (ofInstruction offset i) := by
  cases i with
  | load op slot | store op slot => exact refers_ofLocal op slot
  | increment slot delta => exact refers_ofIncrement slot delta
  | branch op target =>
      cases target with
      | none => exact .throw rfl
      | some target => exact fun _ => .pure (targets_ofJump op _ offset)
  | lookupSwitch fallback cases => exact refers_ofLookup offset fallback cases
  | tableSwitch low high fallback cases => exact refers_ofTable offset low high fallback cases
  | constant op value entry => exact refers_ofConstant op value entry
  | field | invokeDynamic | newObject | newReferenceArray | typeCheck | newMultiArray =>
      exact refers_ofRef _ _ _
  | invoke op method => exact refers_ofInvoke op method
  | newPrimitiveArray k =>
      simp only [ofInstruction]
      split
      · exact .bytes _
      · exact .throw rfl
  | discontinued op target slot =>
      simp only [ofInstruction, Instruction.targets]
      by_cases isRet : op = Opcode.ret
      · simp only [isRet, ↓reduceIte]
        exact .ite (.bytes _) (.bytes _)
      · simp only [isRet, ↓reduceIte]
        exact fun _ => .pure (targets_ofJump op _ offset)
  | «return» | arrayLoad | arrayStore | convert | operator | stack | monitor =>
      exact refers_plain _ _
  | throw => exact refers_plain _ _
  | nop => exact refers_plain _ _

end Cell

/-! ## Elements that have been written -/

namespace BodyWriter

/-- A body that holds nothing but what some elements say. -/
structure Took (es : List CodeElement) (w : BodyWriter) : Prop where
  bound : ∀ l, w.bound.contains l = true ↔ .label (some l) ∈ es
  cells : ∀ cell ∈ w.cells, ∀ l ∈ cell.targets, ∃ e ∈ es, l ∈ e.labels
  catches : ∀ row ∈ w.catches, .handler row ∈ es
  scopes : ∀ s ∈ w.scopes, .localVariable s ∈ es
  typeScopes : ∀ s ∈ w.typeScopes, .localVariableType s ∈ es
  «attributes» : ∀ a ∈ w.attributes, .attribute a ∈ es

variable {es : List CodeElement} {w w' : BodyWriter} {e : CodeElement}

/-- At the start a body holds nothing. -/
theorem took_start (locals : Nat) : Took [] (start locals) where
  bound l := by
    change (∅ : Std.HashMap Label Nat).contains l = true ↔ _
    simp
  cells _ member := absurd member (Array.not_mem_empty _)
  catches _ member := absurd member (Array.not_mem_empty _)
  scopes _ member := absurd member (Array.not_mem_empty _)
  typeScopes _ member := absurd member (Array.not_mem_empty _)
  «attributes» _ member := absurd member (Array.not_mem_empty _)

/-- What a body holds that took more elements. -/
theorem Took.mono {more : List CodeElement} (took : Took es w) (further : es ⊆ more)
    (known : ∀ l, .label (some l) ∈ more → .label (some l) ∈ es) : Took more w where
  bound l := (took.bound l).trans ⟨fun member => further member, known l⟩
  cells cell member l label := have ⟨e, here, there⟩ := took.cells cell member l label
    ⟨e, further here, there⟩
  catches row member := further (took.catches row member)
  scopes s member := further (took.scopes s member)
  typeScopes s member := further (took.typeScopes s member)
  «attributes» a member := further (took.attributes a member)

/-- An element that binds no label leaves what was taken where it is. -/
theorem Took.other (took : Took es w) (other : ∀ l, e ≠ .label l) : Took (es ++ [e]) w :=
  took.mono (List.subset_append_left _ _) fun l member => by
    rcases List.mem_append.mp member with before | here
    · exact before
    · exact absurd (List.mem_singleton.mp here).symm (other _)

/-- The use of a slot adds no element. -/
theorem Took.useLocal (took : Took es w) (slot : Int) (k : Kind) : Took es (w.useLocal slot k) := by
  simp only [BodyWriter.useLocal]
  split
  · exact ⟨took.bound, took.cells, took.catches, took.scopes, took.typeScopes, took.attributes⟩
  · exact took

/-- A body that takes a local variable holds its scope. -/
theorem Took.variable_ {s : LocalScope} (took : Took es w) :
    Took (es ++ [.localVariable s]) (w.variable_ s) := by
  have pushed : Took (es ++ [.localVariable s]) { w with scopes := w.scopes.push s } :=
    have others := took.other (e := .localVariable s) nofun
    ⟨others.bound, others.cells, others.catches, fun s' member =>
      (Array.mem_push.mp member).elim (others.scopes s') fun same => by simp [same],
      others.typeScopes, others.attributes⟩
  rw [BodyWriter.variable_]
  split
  · exact pushed.useLocal _ _
  · exact pushed

/-- A body that takes an instruction holds cells that refer to its targets. -/
theorem Took.append {i : Instruction} {cells : List Cell} (took : Took es w)
    (refer : ∀ cell ∈ cells, cell.targets ⊆ i.targets) :
    Took (es ++ [.instruction i]) (w.append i cells) := by
  have others := took.other (e := .instruction i) nofun
  refine ⟨others.bound, fun cell member l label => ?_, others.catches, others.scopes,
    others.typeScopes, others.attributes⟩
  rw [BodyWriter.append, ← Array.mem_toList_iff, Array.toList_appendList] at member
  rcases List.mem_append.mp member with before | here
  · exact others.cells cell (Array.mem_toList_iff.mp before) l label
  · exact ⟨.instruction i, List.mem_append_right _ (List.mem_singleton_self _),
      refer cell here label⟩

/-- An element is taken, or it is refused for another reason than its label, unless it binds no
label or one that is bound already. -/
theorem took_put (options : Options) (p : PoolBuilder) (took : Took es w)
    (named : e ≠ .label none) (once : ∀ l, e = .label (some l) → e ∉ es) :
    Yields (fun e => e.ofLabels = false) ((w.put options e).run p).1 (Took (es ++ [e])) := by
  cases e with
  | instruction i =>
      refine (Cell.refers_ofInstruction w.size i p).run_bind fun cells q refer => .pure ?_
      split
      · exact (took.useLocal _ _).append refer
      · exact took.append refer
  | label l =>
      cases l with
      | none => exact absurd rfl named
      | some l =>
          change Yields _ (w.label (some l)) _
          have free : w.bound.contains l = false :=
            Bool.eq_false_iff.mpr fun bound => once l rfl ((took.bound l).mp bound)
          simp only [label, free, Bool.false_eq_true, ↓reduceIte]
          refine .pure ?_
          have further : es ⊆ es ++ [.label (some l)] := List.subset_append_left _ _
          refine ⟨fun l' => ?_, fun cell member l' there => ?_, fun row member =>
            further (took.catches row member), fun s member => further (took.scopes s member),
            fun s member => further (took.typeScopes s member), fun a member =>
            further (took.attributes a member)⟩
          · change (w.bound.insert l w.size).contains l' = true ↔ _
            rw [Std.HashMap.contains_insert, Bool.or_eq_true, beq_iff_eq, took.bound l',
              List.mem_append, List.mem_singleton, CodeElement.label.injEq, Option.some.injEq]
            exact ⟨fun found => found.symm.imp_right Eq.symm,
              fun found => found.symm.imp_left Eq.symm⟩
          · obtain ⟨e, here, label⟩ := took.cells cell member l' there
            exact ⟨e, further here, label⟩
  | handler row =>
      have others := took.other (e := .handler row) fun l same => by cases same
      refine .pure ⟨others.bound, others.cells, fun row' member => ?_, others.scopes,
        others.typeScopes, others.attributes⟩
      rcases Array.mem_push.mp member with before | rfl
      · exact others.catches row' before
      · exact List.mem_append_right _ (List.mem_singleton_self _)
  | line n =>
      have others := took.other (e := .line n) fun l same => by cases same
      rw [put]
      split
      · exact .pure others
      · exact .pure ⟨others.bound, others.cells, others.catches, others.scopes, others.typeScopes,
          others.attributes⟩
  | localVariable s =>
      refine .pure ?_
      split
      · exact took.other fun l same => by cases same
      · exact took.variable_
  | localVariableType s =>
      have others := took.other (e := .localVariableType s) fun l same => by cases same
      rw [put]
      split
      · exact .pure others
      · refine .pure ⟨others.bound, others.cells, others.catches, others.scopes,
          fun s' member => ?_, others.attributes⟩
        rcases Array.mem_push.mp member with before | rfl
        · exact others.typeScopes s' before
        · exact List.mem_append_right _ (List.mem_singleton_self _)
  | «attribute» a =>
      have others := took.other (e := .attribute a) fun l same => by cases same
      rw [put]
      split
      · exact .pure others
      · refine .pure ⟨others.bound, others.cells, others.catches, others.scopes, others.typeScopes,
          fun a' member => ?_⟩
        rcases Array.mem_push.mp member with before | rfl
        · exact others.attributes a' before
        · exact List.mem_append_right _ (List.mem_singleton_self _)

end BodyWriter

/-! ## Copying a body -/

namespace CodeDraft

/-- A draft that has written some elements while nothing failed. -/
structure Copied (es : List CodeElement) (d : CodeDraft) (s : Session σ) : Prop where
  quiet : s.Quiet
  blameless : s.pool.Blameless
  stop : d.stop = none
  writes : ∃ w, d.target = .writing w ∧ BodyWriter.Took es w

/-- Some elements have been written, or an error stands that is not about labels. -/
def Reached (es : List CodeElement) (d : CodeDraft) (s : Session σ) : Prop :=
  Copied es d s ∨ ∃ e, (s.error <|> s.pool.error) = some e ∧ e.ofLabels = false

/-- What is reached without an error is as it should be, and no error is about labels. -/
def Ends (post : CodeDraft → Session σ → Prop) :
    (Except Error Unit × CodeDraft) × Session σ → Prop
  | ((.ok (), d), s) => post d s
  | ((.error e, _), _) => e.ofLabels = false

variable {es : List CodeElement} {e : CodeElement} {d : CodeDraft} {s : Session σ}

/-- Steps one after another end as the last of them does. -/
theorem Ends.bind {post post' : CodeDraft → Session σ → Prop}
    {x : ExceptT Error (CodeM σ) Unit} {f : Unit → ExceptT Error (CodeM σ) Unit}
    (first : Ends post (x.run d s)) (next : ∀ d s, post d s → Ends post' ((f ()).run d s)) :
    Ends post' ((x >>= f).run d s) := by
  change Ends post' (ExceptT.bindCont f (x.run d s).1.1 (x.run d s).1.2 (x.run d s).2)
  generalize x.run d s = reached at first
  obtain ⟨⟨_ | _, d'⟩, s'⟩ := reached
  · exact first
  · exact next d' s' first

/-- An element that binds no label, or one that was free, is written, or what keeps it from that is
not its label. -/
theorem reached_accept (copied : Copied es d s) (named : e ≠ .label none)
    (once : ∀ l, e = .label (some l) → e ∉ es) :
    Reached (es ++ [e]) ((Draft.accept e : CodeM σ Unit) d s).1.2
      ((Draft.accept e : CodeM σ Unit) d s).2 := by
  obtain ⟨quiet, blameless, stop, w, writes, took⟩ := copied
  obtain ⟨source, parent, frame, start, _, _⟩ := d
  obtain rfl : _ = none := stop
  obtain rfl : _ = CodeTarget.writing w := writes
  have written := BodyWriter.took_put s.options s.pool took named once
  have ⟨spared, _⟩ := BodyWriter.attempts_put (l := PoolBuilder.Law.blameless) s.options (e := e)
    (fun _ _ => trivial) w s.pool blameless
  rw [accept_writing rfl]
  generalize (w.put s.options e).run s.pool = reached at written spared ⊢
  obtain ⟨outcome, q⟩ := reached
  cases outcome with
  | ok w' =>
      cases stands : q.error with
      | none => exact .inl ⟨⟨quiet.session, stands⟩, spared, rfl, w', rfl, written.1 w' rfl⟩
      | some e' =>
          refine .inr ⟨e', ?_, spared.error e' stands⟩
          change (s.error <|> q.error) = some e'
          rw [quiet.session, stands]
          rfl
  | error e' =>
      refine .inr ⟨_, rfl, Error.ofLabels_first (fun k kept => ?_) (written.2 e' rfl)⟩
      change k ∈ (s.error <|> q.error.bind Error.abort?) at kept
      rw [quiet.session] at kept
      obtain ⟨cause, -, aborts⟩ := Option.bind_eq_some_iff.mp kept
      exact Error.ofLabels_of_abort? aborts

/-- Settling fails with the first error of the session or of its pool. -/
theorem settle_run : (Transform.settle : ExceptT Error (CodeM σ) Unit).run d s =
    (match s.error <|> s.pool.error with
      | some e => throw e
      | _ => pure () : ExceptT Error (CodeM σ) Unit).run d s := rfl

/-- Once a session has settled, there is a copy. -/
theorem ends_settle (reached : Reached es d s) :
    Ends (Copied es) ((Transform.settle : ExceptT Error (CodeM σ) Unit).run d s) := by
  rcases reached with copied | ⟨e, stands, other⟩
  · have settled : (Transform.settle : ExceptT Error (CodeM σ) Unit).run d s = ((.ok (), d), s) :=
      copied.quiet.settle
    rw [settled]
    exact copied
  · rw [settle_run, stands]
    exact other

/-- Elements that bind their labels once are written one after another. -/
theorem ends_feed {rest : List CodeElement} (copied : Copied es d s)
    (bound : BoundOnce (es ++ rest)) :
    Ends (Copied (es ++ rest))
      ((Transform.feed (fun e => ExceptT.lift (Outlet.terminal.emit e)) rest :
      ExceptT Error (CodeM σ) Unit).run d s) := by
  induction rest generalizing es d s with
  | nil =>
      rw [List.append_nil]
      exact copied
  | cons e rest inductionHypothesis =>
      obtain ⟨named, once⟩ := bound.of_append
      have emitted := reached_accept copied named once
      rw [← Outlet.emit_terminal copied.quiet] at emitted
      rw [List.append_cons] at bound ⊢
      have first : Ends (Reached (es ++ [e]))
          ((ExceptT.lift (Outlet.terminal.emit e) : ExceptT Error (CodeM σ) Unit).run d
            s) := emitted
      exact first.bind fun _ _ reached => (ends_settle reached).bind fun _ _ copied =>
        inductionHypothesis copied bound

/-- The elements of a decoded body are written again, or what keeps them from that is not a
label. -/
theorem innocent_encode {c : InputCode} {source : CodeModel} (static : Bool)
    (descriptor : MethodDescriptor) (given : source.elements = .ok es) (bound : BoundOnce es)
    (closed : ∀ e ∈ es, ∀ l ∈ e.labels, ∃ l', l = some l' ∧ .label (some l') ∈ es)
    (kept : ∀ a, .attribute a ∈ es → c.Kept a.body) (quiet : s.Quiet)
    (blameless : s.pool.Blameless) :
    Innocent (encode static descriptor source s).1 := by
  have start : Copied [] (writing static descriptor (some source)) s :=
    ⟨quiet, blameless, rfl, _, rfl, BodyWriter.took_start _⟩
  have traversal : source.traversal = ⟨es, none⟩ := by
    rw [CodeModel.traversal, given]
    rfl
  have copies : Ends (Copied es) ((Transform.run source.traversal (some .pass) .terminal :
      ExceptT Error (CodeM σ) Unit).run.run (writing static descriptor (some source)) s) := by
    rw [traversal]
    have fed : Ends (Copied es) _ := ends_feed start (show BoundOnce ([] ++ es) from bound)
    exact fed.bind fun _ _ copied => ends_settle (.inl copied)
  rw [encode, bind_apply]
  generalize (Transform.run source.traversal (some .pass) .terminal :
      ExceptT Error (CodeM σ) Unit).run.run (writing static descriptor (some source)) s =
      reached at copies
  obtain ⟨⟨_ | _, d⟩, s'⟩ := reached
  · exact .throw copies
  · obtain ⟨quiet', -, stop, w, writes, took⟩ := copies
    have places {e : CodeElement} (member : e ∈ es) : w.Places e.labels := fun l label => by
      obtain ⟨l', rfl, here⟩ := closed e member l label
      exact BodyWriter.innocent_offset ((took.bound l').mpr here)
    have all : w.Bound c :=
      { cells := fun cell member l label => by
          obtain ⟨e, here, there⟩ := took.cells cell member l label
          exact places here l there
        catches := fun row member => places (took.catches row member)
        scopes := fun s member => places (took.scopes s member)
        typeScopes := fun s member => places (took.typeScopes s member)
        «attributes» := fun a member =>
          ⟨kept a (took.attributes a member), places (took.attributes a member)⟩ }
    obtain ⟨source', parent, frame, start, _, _⟩ := d
    obtain rfl : _ = none := stop
    obtain rfl : _ = CodeTarget.writing w := writes
    exact all.innocent_finish _ quiet'

end CodeDraft

/-- Every label in a decoded body is bound once, where it belongs, and the instructions fill the
code. So writing the elements again, whatever else becomes of it, never fails with a label that is
not bound or that is bound twice. -/
theorem InputCode.elements_closed {c : InputCode} {es : List CodeElement}
    (given : c.elements = .ok es) :
    (∃ instructions, c.Tiles 0 instructions ∧
      es.filterMap CodeElement.instruction? = instructions.map Prod.snd ∧
      ∀ e ∈ es, ∀ l ∈ e.labels, ∃ n ≤ c.codeLength, l = some (c.label n) ∧
        ∃ front back, c.Binds instructions es n front back) ∧
    ∀ {σ : Type} (source : CodeModel) (static : Bool) (descriptor : MethodDescriptor)
      (s : Session σ), source.elements = .ok es → s.Quiet →
      (∀ parent ∈ s.pool.parent, parent.Opened) →
      ∀ e s', CodeDraft.encode static descriptor source s = (.error e, s') →
        e.ofLabels = false := by
  obtain ⟨labelled, linesAt, instructions, head, tail, composed⟩ := composed_of_elements given
  refine ⟨⟨instructions, composed.tiles, composed.instructions_eq, fun e member l label => ?_⟩, ?_⟩
  · obtain ⟨n, inside, marked, rfl⟩ := composed.named e member l label
    exact ⟨n, inside, rfl, composed.binds inside marked⟩
  · intro σ source static descriptor s same quiet opened e s' failed
    have closed : ∀ e ∈ es, ∀ l ∈ e.labels, ∃ l', l = some l' ∧ .label (some l') ∈ es := by
      intro e member l label
      obtain ⟨n, inside, marked, rfl⟩ := composed.named e member l label
      obtain ⟨front, back, bound⟩ := composed.binds inside marked
      exact ⟨_, rfl, bound.split ▸ List.mem_append_right _ List.mem_cons_self⟩
    have blameless : s.pool.Blameless :=
      ⟨by simp [quiet.pool], fun parent known => (opened parent known).blameless⟩
    have innocent := CodeDraft.innocent_encode static descriptor same composed.boundOnce closed
      (fun a member => composed.kept_of_mem _ member a rfl) quiet blameless
    exact innocent.2 e (congrArg Prod.fst failed)

/-- Two instructions that do nothing, and a handler at the first for both. -/
def InputCode.guarded : InputCode :=
  { (default : InputCode) with
    method := { (default : InputMember) with
      input := { (default : Input) with
        layout := { (default : Layout) with
          cursor := ⟨#[0, 0, 0, 1, 0, 0, 0, 2, 0, 0, 0, 1, 0, 0, 0, 2, 0, 0, 0, 0, 0, 0]⟩ } } }
    length := 22, maxLocals := 1, codeStart := 8, codeLength := 2, exceptions := 10
    attributes := 20 }

namespace InputCode

/-- The labels of the start and of the end, in place. -/
def guardedElements : List CodeElement :=
  [.handler
      { start := some (guarded.label 0), stop := some (guarded.label 2)
        handler := some (guarded.label 0), type := none },
    .label (some (guarded.label 0)), .instruction .nop, .instruction .nop,
    .label (some (guarded.label 2))]

set_option maxRecDepth 4000 in
/-- The elements of the guarded body, computed. -/
theorem elements_guarded : guarded.elements = .ok guardedElements := rfl

/-- The guarded body is closed: every label of its elements is bound once, at its offset. -/
theorem elements_closed_guarded :
    (∃ instructions, guarded.Tiles 0 instructions ∧
      guardedElements.filterMap CodeElement.instruction? = instructions.map Prod.snd ∧
      ∀ e ∈ guardedElements, ∀ l ∈ e.labels, ∃ n ≤ guarded.codeLength, l = some (guarded.label n) ∧
        ∃ front back, guarded.Binds instructions guardedElements n front back) ∧
    ∀ e s', CodeDraft.encode true ⟨[], .void⟩ (.input guarded) (Build.start .none .empty ()) =
      (.error e, s') → e.ofLabels = false := by
  obtain ⟨bound, written⟩ := elements_closed elements_guarded
  exact ⟨bound, written (.input guarded) true _ _ elements_guarded ⟨rfl, rfl⟩ nofun⟩

end InputCode

end JvmClass
