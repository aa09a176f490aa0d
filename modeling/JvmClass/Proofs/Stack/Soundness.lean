import JvmClass.Build.Body
import JvmClass.Proofs.Stack.Following
import JvmClass.Proofs.Stack.Effect

/-!
# The tracked stack depth is no less than the real one

The tracker goes through a body once, in order, and skips what it cannot follow. Where it
knows the stack, it has the stack of any typing; what it skips without losing the greatest
depth leaves the stack no deeper than it finds it (`StackTracker.Follows`). So a known
greatest depth bounds the typing at every instruction that control can get to, however it
gets there.
-/

namespace JvmClass

/-- Elements after others add their instructions to those before. -/
theorem instructionCount_append (front back : List CodeElement) :
    instructionCount (front ++ back) = instructionCount front + instructionCount back := by
  simp [instructionCount]

@[simp] theorem instructionCount_instruction (i : Instruction) :
    instructionCount [.instruction i] = 1 := rfl

@[simp] theorem instructionCount_label (l : Option Label) : instructionCount [.label l] = 0 := rfl

namespace FlowBody

/-- The instruction at a place of the flow has the number of those before it. -/
theorem instruction_at {b : FlowBody} {front back : List CodeElement} {i : Instruction}
    (split : b.flow = front ++ .instruction i :: back) :
    b.instructions[instructionCount front]? = some i := by
  simp [instructions, split, instructionCount, CodeElement.instruction?]

end FlowBody

/-- Control goes on only from an instruction of the body. -/
theorem FlowBody.Flows.lt_length {b : FlowBody} {k target : Nat} (flows : b.Flows k target) :
    k < b.instructions.length := by
  cases flows with
  | next here falls => exact (List.getElem?_eq_some_iff.mp here).1
  | jump here named marks => exact (List.getElem?_eq_some_iff.mp here).1

namespace StackTracker

open OperandStack (slotsOf of)

variable {b : FlowBody} {shape : Nat → List Kind}

/-- What a tracker that went through the front of a flow has, for a typing of the body. -/
structure Follows (b : FlowBody) (shape : Nat → List Kind) (front : List CodeElement)
    (t : StackTracker) : Prop where
  /-- A known stack is that of the next instruction. -/
  current : ∀ s, t.current = some s → instructionCount front < b.instructions.length →
    s = of (shape (instructionCount front))
  /-- A stack recorded for a label is that of the instruction it marks. -/
  pending : ∀ (label : Option Label) s, t.pending[label]? = some s → ∀ target,
    b.Marks label target → target < b.instructions.length → s = of (shape target)
  handlers : ∀ c ∈ b.catches, ∃ s, t.pending[c.handler]? = some s
  /-- Where control goes from an instruction of the front, the stack is no deeper than the
  greatest depth, unless it was so before that instruction. -/
  settled : ∀ k target, k < instructionCount front → b.Flows k target →
    target < b.instructions.length →
    slotsOf (shape target) ≤ Nat.max t.max (slotsOf (shape k))

/-- Only the number of instructions of the front counts. -/
theorem Follows.of_count {front front' : List CodeElement} {t : StackTracker}
    (follows : Follows b shape front t)
    (count : instructionCount front' = instructionCount front) : Follows b shape front' t where
  current := by rw [count]; exact follows.current
  pending := follows.pending
  handlers := follows.handlers
  settled := by rw [count]; exact follows.settled

/-- A known greatest depth was known before every element. -/
theorem known_of_track {t t' : StackTracker} {e : CodeElement} (tracked : t.track e = .ok t')
    (known : t'.maxKnown = true) : t.maxKnown = true := by
  cases e with
  | instruction i => exact known_of_step tracked known
  | label l =>
      simp only [track, pure, Except.pure, Except.ok.injEq] at tracked
      cases found : t.pending[l]? with
      | none => simp only [found, Option.elim] at tracked; rw [tracked]; exact known
      | some s => simp only [found, Option.elim] at tracked; rw [← tracked] at known; exact known
  | handler c => cases tracked; exact known
  | line n => cases tracked; exact known
  | localVariable s => cases tracked; exact known
  | localVariableType s => cases tracked; exact known
  | «attribute» a => cases tracked; exact known

/-- What a tracker that goes through one more element has, and how deep it says the stack is. -/
structure Goes (b : FlowBody) (shape : Nat → List Kind) (front : List CodeElement)
    (t t' : StackTracker) : Prop where
  follows : Follows b shape front t'
  grows : t.max ≤ t'.max

/-- At a label the tracker takes the stack recorded for it. -/
theorem Follows.label {front back : List CodeElement} {l : Option Label} {t t' : StackTracker}
    (follows : Follows b shape front t) (split : b.flow = front ++ .label l :: back)
    (tracked : t.track (.label l) = .ok t') : Goes b shape (front ++ [.label l]) t t' := by
  have count : instructionCount (front ++ [.label l]) = instructionCount front := by
    simp [instructionCount_append]
  simp only [track, pure, Except.pure, Except.ok.injEq] at tracked
  cases found : t.pending[l]? with
  | none =>
      simp only [found, Option.elim] at tracked
      subst tracked
      exact ⟨follows.of_count count, Nat.le_refl _⟩
  | some s =>
      simp only [found, Option.elim] at tracked
      subst tracked
      have grows : t.max ≤ (t.become s).max := Nat.le_max_left _ _
      have become : Follows b shape front (t.become s) := {
        current := by
          intro present taken inside
          obtain rfl : s = present := by simpa [become] using taken
          exact follows.pending l s found _ (.bound split) inside
        pending := follows.pending
        handlers := follows.handlers
        settled := fun k target before flows inside =>
          Nat.le_trans (follows.settled k target before flows inside) (by grind) }
      exact ⟨become.of_count count, grows⟩

/-- Through an instruction the tracker has the stack that the typing asks for next, or it
skips an instruction that leaves the stack no deeper. -/
theorem Follows.instruction {front back : List CodeElement} {i : Instruction}
    {t t' : StackTracker} (typing : StackTyping b shape) (follows : Follows b shape front t)
    (split : b.flow = front ++ .instruction i :: back) (stepped : t.step i = .ok t')
    (known : t'.maxKnown = true) : Goes b shape (front ++ [.instruction i]) t t' := by
  have here := FlowBody.instruction_at split
  have inside : instructionCount front < b.instructions.length :=
    (List.getElem?_eq_some_iff.mp here).1
  obtain ⟨after, ⟨taken, left, rest, effect, before, rfl⟩, next⟩ := typing.instruction here
  have count : instructionCount (front ++ [.instruction i]) = instructionCount front + 1 := by
    simp [instructionCount_append]
  cases present : t.current with
  | some s =>
      obtain rfl := follows.current s present inside
      rw [before] at present
      have advances := advances_of_effect effect present stepped
      refine ⟨?_, advances.grows⟩
      exact {
        current := by
          intro s' taken' inside'
          rw [count] at inside' ⊢
          rw [advances.current] at taken'
          split at taken'
          · rename_i falls
            rw [next _ (.next here falls) inside']
            exact (Option.some.inj taken').symm
          · cases taken'
        pending := by
          intro label s' recorded target marks inside'
          rw [advances.pending label] at recorded
          split at recorded
          · rename_i named
            rw [next _ (.jump here named marks) inside']
            exact (Option.some.inj recorded).symm
          · exact follows.pending label s' recorded target marks inside'
        handlers := by
          intro c declared
          rw [advances.pending c.handler]
          split
          · exact ⟨_, rfl⟩
          · exact follows.handlers c declared
        settled := by
          intro k target early flows inside'
          rw [count] at early
          rcases Nat.lt_succ_iff_lt_or_eq.mp early with earlier | rfl
          · have settled := follows.settled k target earlier flows inside'
            have grown := advances.grows
            grind
          · rw [next target flows inside', before]
            exact advances.covers }
  | none =>
      obtain ⟨rfl, shrinks⟩ := skips_of_effect effect present stepped known
      refine ⟨?_, Nat.le_refl _⟩
      exact {
        current := by simp [present]
        pending := follows.pending
        handlers := follows.handlers
        settled := by
          intro k target early flows inside'
          rw [count] at early
          rcases Nat.lt_succ_iff_lt_or_eq.mp early with earlier | rfl
          · exact follows.settled k target earlier flows inside'
          · rw [next target flows inside', before]
            simp only [OperandStack.slotsOf_append]
            grind }

/-- A tracker that follows the front of a flow goes through the next element, whether this is a
label, an instruction or something else. -/
theorem Follows.element {front back : List CodeElement} {e : CodeElement}
    {t t' : StackTracker} (typing : StackTyping b shape) (follows : Follows b shape front t)
    (split : b.flow = front ++ e :: back) (tracked : t.track e = .ok t')
    (known : t'.maxKnown = true) : Goes b shape (front ++ [e]) t t' := by
  cases e with
  | instruction i => exact follows.instruction typing split tracked known
  | label l => exact follows.label split tracked
  | handler c => exact absurd (by simp [split]) (b.handlersFirst c)
  | line n =>
      cases tracked
      exact ⟨follows.of_count (by simp [instructionCount, CodeElement.instruction?]), Nat.le_refl _⟩
  | localVariable s =>
      cases tracked
      exact ⟨follows.of_count (by simp [instructionCount, CodeElement.instruction?]), Nat.le_refl _⟩
  | localVariableType s =>
      cases tracked
      exact ⟨follows.of_count (by simp [instructionCount, CodeElement.instruction?]), Nat.le_refl _⟩
  | «attribute» a =>
      cases tracked
      exact ⟨follows.of_count (by simp [instructionCount, CodeElement.instruction?]), Nat.le_refl _⟩

/-- The greatest depth was known before several elements, if it is after. -/
theorem known_of_fold {elements : List CodeElement} {t t' : StackTracker}
    (run : elements.foldlM track t = .ok t') (known : t'.maxKnown = true) :
    t.maxKnown = true := by
  induction elements generalizing t with
  | nil => cases run; exact known
  | cons e elements inductionHypothesis =>
      rw [List.foldlM_cons] at run
      cases tracked : t.track e with
      | error error => simp [tracked, bind, Except.bind] at run
      | ok middle =>
          rw [tracked] at run
          exact known_of_track tracked (inductionHypothesis run)

/-- A tracker follows the typing through any part of the flow. -/
theorem Follows.fold {front middle back : List CodeElement} {t t' : StackTracker}
    (typing : StackTyping b shape) (follows : Follows b shape front t)
    (split : b.flow = front ++ (middle ++ back)) (run : middle.foldlM track t = .ok t')
    (known : t'.maxKnown = true) : Goes b shape (front ++ middle) t t' := by
  induction middle generalizing front t with
  | nil =>
      cases run
      rw [List.append_nil]
      exact ⟨follows, Nat.le_refl _⟩
  | cons e middle inductionHypothesis =>
      rw [List.foldlM_cons] at run
      cases tracked : t.track e with
      | error error => simp [tracked, bind, Except.bind] at run
      | ok next =>
          rw [tracked] at run
          have went := follows.element typing split tracked (known_of_fold run known)
          have further : b.flow = front ++ [e] ++ (middle ++ back) := by simp [split]
          have rest := inductionHypothesis went.follows further run
          rw [List.append_cons]
          exact ⟨rest.follows, Nat.le_trans went.grows rest.grows⟩

/-- What a tracker has after the handlers of a body: a reference at each of them. -/
theorem handlers_of_fold {catches : List Catch} {t t' : StackTracker}
    (run : (catches.map CodeElement.handler).foldlM track t = .ok t') :
    t'.current = t.current ∧ ∀ label : Option Label, t'.pending[label]? =
      if label ∈ catches.map (·.handler) then some (of [.reference]) else t.pending[label]? := by
  induction catches generalizing t with
  | nil => cases run; simp
  | cons c catches inductionHypothesis =>
      obtain ⟨current, pending⟩ := inductionHypothesis (t :=
        { t with pending := t.pending.insert c.handler (of [.reference]) }) run
      refine ⟨current, fun label => ?_⟩
      rw [pending label]
      by_cases later : label ∈ catches.map (·.handler)
      · simp only [List.map_cons, List.mem_cons, later, or_true, ↓reduceIte]
      · by_cases same : c.handler = label
        · simp [later, same]
        · have other : ¬ label = c.handler := fun equal => same equal.symm
          simp only [List.map_cons, List.mem_cons, other, later, or_self, ↓reduceIte]
          simp [Std.HashMap.getElem?_insert, same]

/-- The tracker follows a typing from the start. -/
theorem follows_start {t : StackTracker} (typing : StackTyping b shape)
    (run : (b.catches.map CodeElement.handler).foldlM track (start []) = .ok t) :
    Follows b shape [] t := by
  obtain ⟨current, pending⟩ := handlers_of_fold run
  have recorded : ∀ (label : Option Label) s, t.pending[label]? = some s →
      s = of [.reference] ∧ ∃ c ∈ b.catches, c.handler = label := by
    intro label s found
    rw [pending label] at found
    split at found
    · rename_i declared
      exact ⟨(Option.some.inj found).symm, List.mem_map.mp declared⟩
    · simp [start] at found
  exact {
    current := by
      intro s found inside
      rw [current] at found
      change s = of (shape 0)
      rw [typing.entry]
      exact (Option.some.inj found).symm
    pending := by
      intro label s found target marks inside
      obtain ⟨rfl, c, declared, rfl⟩ := recorded label s found
      rw [typing.handler c declared target marks inside]
    handlers := by
      intro c declared
      exact ⟨_, by rw [pending, if_pos (List.mem_map_of_mem declared)]⟩
    settled := fun k target before => absurd before (Nat.not_lt_zero k) }

/-- A handler that the flow binds puts one reference on the stack, and the tracker sees it. -/
theorem one_le_max_of_handler {front back : List CodeElement} {c : Catch} {t t' : StackTracker}
    (typing : StackTyping b shape) (follows : Follows b shape [] t) (declared : c ∈ b.catches)
    (split : b.flow = front ++ .label c.handler :: back)
    (inside : instructionCount front < b.instructions.length)
    (run : b.flow.foldlM track t = .ok t') (known : t'.maxKnown = true) : 1 ≤ t'.max := by
  rw [split, List.foldlM_append] at run
  cases toLabel : front.foldlM track t with
  | error error => simp [toLabel, bind, Except.bind] at run
  | ok before =>
      have rest : (.label c.handler :: back).foldlM track before = .ok t' := by
        rwa [toLabel] at run
      have knownBefore : before.maxKnown = true := known_of_fold rest known
      have followed := (follows.fold typing split toLabel knownBefore).follows
      obtain ⟨s, recorded⟩ := followed.handlers c declared
      have marks : b.Marks c.handler (instructionCount front) := .bound split
      have reference : s = of [.reference] := by
        rw [followed.pending c.handler s recorded _ marks inside,
          typing.handler c declared _ marks inside]
      have atLabel : before.track (.label c.handler) = .ok (before.become s) := by
        simp [track, recorded, pure, Except.pure]
      rw [List.foldlM_cons, atLabel] at rest
      have deep : 1 ≤ (before.become s).max := by
        rw [reference]
        exact Nat.le_max_right _ _
      have after := followed.label split atLabel
      have whole : b.flow = front ++ [.label c.handler] ++ (back ++ []) := by simp [split]
      exact Nat.le_trans deep (after.follows.fold typing whole rest known).grows

end StackTracker

open OperandStack (slotsOf)

/-- A greatest depth that the tracker knows bounds the stack that any typing gives an
instruction that control can get to. -/
theorem StackTyping.slots_le {b : FlowBody} {shape : Nat → List Kind} {t : StackTracker} {n k : Nat}
    (typing : StackTyping b shape)
    (run : b.elements.foldlM StackTracker.track (StackTracker.start []) = .ok t)
    (deepest : t.maxStack? = some n) (reachable : b.Reachable k) : slotsOf (shape k) ≤ n := by
  obtain ⟨known, rfl⟩ : t.maxKnown = true ∧ t.max = n := by
    simpa [StackTracker.maxStack?] using deepest
  rw [FlowBody.elements, List.foldlM_append] at run
  cases handlers : (b.catches.map CodeElement.handler).foldlM StackTracker.track
      (StackTracker.start []) with
  | error error => simp [handlers, bind, Except.bind] at run
  | ok started =>
      rw [handlers] at run
      have follows := StackTracker.follows_start typing handlers
      have whole : b.flow = [] ++ (b.flow ++ []) := by simp
      have went := follows.fold typing whole run known
      induction reachable with
      | entry => simp [typing.entry]
      | step prior edge here inductionHypothesis =>
          cases edge with
          | flow flows =>
              have settled := went.follows.settled _ _ flows.lt_length flows here
              exact Nat.le_trans settled (Nat.max_le.mpr ⟨Nat.le_refl _, inductionHypothesis⟩)
          | raise declared starts stops covered marks =>
              rename_i handler start stop
              rw [typing.handler _ declared _ marks here]
              generalize named : handler.handler = label at marks
              cases marks with
              | bound split =>
                  subst named
                  exact StackTracker.one_le_max_of_handler typing follows declared split here run
                    known
              | start stands =>
                  have both := typing.handler _ declared 0 (named ▸ .start stands) here
                  simp [typing.entry] at both
              | stop => exact absurd here (Nat.lt_irrefl _)

/-- The greatest depth that the tracker knows, in a walk of its own or for a body being
written, bounds the stack that any typing gives an instruction that control can get to. -/
theorem slots_le_tracked_depth {b : FlowBody} {shape : Nat → List Kind}
    (typing : StackTyping b shape) {k : Nat} (reachable : b.Reachable k) :
    (∀ t n, b.elements.foldlM StackTracker.track (StackTracker.start []) = .ok t →
      t.maxStack? = some n → slotsOf (shape k) ≤ n) ∧
    ∀ (w : BodyWriter) n, w.catches.toList = b.catches → w.flow.toList = b.flow →
      w.trackedStack? = some n → slotsOf (shape k) ≤ n := by
  refine ⟨fun t n run deepest => typing.slots_le run deepest reachable, ?_⟩
  intro w n catches flow deepest
  rw [BodyWriter.trackedStack?, catches, flow] at deepest
  split at deepest
  · rename_i t run
    exact typing.slots_le run deepest reachable
  · cases deepest

/-- A range that ends with the label of the end covers every instruction from its start on. -/
theorem FlowBody.Edge.of_stop {b : FlowBody} {handler : Catch} {stop : Label} {start k target : Nat}
    (declared : handler ∈ b.catches) (starts : b.Marks handler.start start)
    (ends : handler.stop = some stop) (stands : b.stop = some stop)
    (unbound : .label (some stop) ∉ b.flow) (covered : start ≤ k)
    (inside : k < b.instructions.length)
    (marks : b.Marks handler.handler target) : b.Edge k target :=
  .raise declared starts (ends ▸ .stop stands unbound) ⟨covered, inside⟩ marks

/-- A body that control enters again by a jump back, where the tracker does not know the
stack. From the constant on, up to the label of its end, a handler covers it. -/
def jumpingBack : FlowBody where
  catches := [⟨some (.fresh 0), some (.fresh 3), some (.fresh 2), none⟩]
  flow :=
    [.instruction (.branch Opcode.goto (some (.fresh 0))),
      .label (some (.fresh 1)), .instruction .nop, .instruction (.return Opcode.returnVoid),
      .label (some (.fresh 0)), .instruction (.constant Opcode.iconst0 0 none),
      .instruction (.branch Opcode.goto (some (.fresh 1))),
      .label (some (.fresh 2)), .instruction .throw]
  start := none
  stop := some (.fresh 3)
  handlersFirst := by simp

/-- The stacks of the body that jumps back. -/
def jumpingBackShape (k : Nat) : List Kind :=
  if k = 0 || k = 3 then [] else if k = 5 then [.reference] else [.int]

/-- The instructions of the body that jumps back. -/
theorem jumpingBack_instructions : jumpingBack.instructions =
    [.branch Opcode.goto (some (.fresh 0)), .nop, .return Opcode.returnVoid,
      .constant Opcode.iconst0 0 none, .branch Opcode.goto (some (.fresh 1)), .throw] := rfl

/-- Where the labels of the body that jumps back stand. -/
theorem jumpingBack_marks {label : Option Label} {target : Nat}
    (marks : jumpingBack.Marks label target) :
    (label, target) ∈
      [(some (.fresh 1), 1), (some (.fresh 0), 3), (some (.fresh 2), 5), (some (.fresh 3), 6)] := by
  cases marks with
  | @bound _ front back split =>
      rcases front with _ | ⟨a, _ | ⟨b, _ | ⟨c, _ | ⟨d, _ | ⟨e, _ | ⟨f, _ | ⟨g, _ | ⟨h, _ | ⟨i,
        front⟩⟩⟩⟩⟩⟩⟩⟩⟩ <;> simp [jumpingBack] at split
      · obtain ⟨rfl, rfl, -⟩ := split
        exact .head _
      · obtain ⟨rfl, rfl, rfl, rfl, rfl, -⟩ := split
        exact .tail _ (.head _)
      · obtain ⟨rfl, rfl, rfl, rfl, rfl, rfl, rfl, rfl, -⟩ := split
        exact .tail _ (.tail _ (.head _))
  | start stands => simp [jumpingBack] at stands
  | stop stands unbound =>
      obtain rfl := Option.some.inj stands
      exact .tail _ (.tail _ (.tail _ (.head _)))

/-- Where control goes in the body that jumps back, unless it throws. -/
theorem jumpingBack_flows {k target : Nat} (flows : jumpingBack.Flows k target) :
    (k, target) ∈ [(0, 3), (1, 2), (3, 4), (4, 1)] := by
  cases flows with
  | next here falls =>
      rw [jumpingBack_instructions] at here
      rcases k with _ | _ | _ | _ | _ | _ | k <;> simp at here <;> subst here <;> revert falls <;>
        decide
  | jump here named marks =>
      rw [jumpingBack_instructions] at here
      have other := jumpingBack_marks marks
      rcases k with _ | _ | _ | _ | _ | _ | k <;> simp at here <;> subst here <;>
        simp [Instruction.labels] at named <;> subst named <;> simp at other <;> simp [other]

/-- What the opcodes of the body that jumps back take and leave. -/
theorem jumpingBack_opcodes :
    (Opcode.goto.branchOperands = [] ∧ Opcode.goto.shape? = some .branch) ∧
      (Opcode.returnVoid.kind.pushed = [] ∧ Opcode.returnVoid.shape? = some .return) ∧
      Instruction.constantKind Opcode.iconst0 none = .int ∧
      Opcode.iconst0.shape? = some .constant := by
  decide +kernel

/-- A jump takes nothing and leaves nothing. -/
theorem jumpingBack_goto {target : Option Label} :
    (Instruction.branch Opcode.goto target).Effect [] [] := by
  obtain ⟨⟨nothing, shape⟩, -⟩ := jumpingBack_opcodes
  exact nothing ▸ .branch shape

/-- The return takes nothing and leaves nothing. -/
theorem jumpingBack_return : (Instruction.return Opcode.returnVoid).Effect [] [] := by
  obtain ⟨-, ⟨nothing, shape⟩, -⟩ := jumpingBack_opcodes
  have effect : (Instruction.return Opcode.returnVoid).Effect Opcode.returnVoid.kind.pushed [] :=
    .return shape
  rwa [nothing] at effect

/-- The constant leaves an integer. -/
theorem jumpingBack_constant : (Instruction.constant Opcode.iconst0 0 none).Effect [] [.int] := by
  obtain ⟨-, -, kind, shape⟩ := jumpingBack_opcodes
  have one : (Instruction.constantKind Opcode.iconst0 none).pushed = [.int] := by rw [kind]; rfl
  exact one ▸ .constant shape (by rw [kind]; decide)

/-- The stacks of the body that jumps back are a typing of it. -/
theorem jumpingBack_typing : StackTyping jumpingBack jumpingBackShape where
  entry := rfl
  instruction := by
    intro k i here
    rw [jumpingBack_instructions] at here
    rcases k with _ | _ | _ | _ | _ | _ | k <;> simp at here <;> subst here
    · refine ⟨[], ⟨[], [], [], jumpingBack_goto, rfl, rfl⟩, fun target flow _ => ?_⟩
      have next := jumpingBack_flows flow
      simp at next
      rw [next]
      rfl
    · refine ⟨[.int], ⟨[], [], [.int], .nop, rfl, rfl⟩, fun target flow _ => ?_⟩
      have next := jumpingBack_flows flow
      simp at next
      rw [next]
      rfl
    · refine ⟨[.int], ⟨[], [], [.int], jumpingBack_return, rfl, rfl⟩, fun target flow _ => ?_⟩
      have next := jumpingBack_flows flow
      simp at next
    · refine ⟨[.int], ⟨[], [.int], [], jumpingBack_constant, rfl, rfl⟩, fun target flow _ => ?_⟩
      have next := jumpingBack_flows flow
      simp at next
      rw [next]
      rfl
    · refine ⟨[.int], ⟨[], [], [.int], jumpingBack_goto, rfl, rfl⟩, fun target flow _ => ?_⟩
      have next := jumpingBack_flows flow
      simp at next
      rw [next]
      rfl
    · refine ⟨[], ⟨[.reference], [], [], .throw, rfl, rfl⟩, fun target flow _ => ?_⟩
      have next := jumpingBack_flows flow
      simp at next
  handler := by
    intro handler declared target marks _
    obtain rfl := List.mem_singleton.mp declared
    have there := jumpingBack_marks marks
    simp at there
    rw [there]
    rfl

/-- Control gets back to the place that the tracker skips. -/
theorem jumpingBack_reachable : jumpingBack.Reachable 1 ∧ jumpingBack.Reachable 3 := by
  have forth : jumpingBack.flow = jumpingBack.flow.take 4 ++
      .label (some (.fresh 0)) :: jumpingBack.flow.drop 5 := rfl
  have back : jumpingBack.flow = jumpingBack.flow.take 1 ++
      .label (some (.fresh 1)) :: jumpingBack.flow.drop 2 := rfl
  have three : jumpingBack.Reachable 3 := .step .entry
    (.flow (.jump rfl (List.mem_singleton.mpr rfl) (.bound forth))) (by decide)
  have four : jumpingBack.Reachable 4 := .step three (.flow (.next rfl rfl)) (by decide)
  have one : jumpingBack.Reachable 1 := .step four
    (.flow (.jump rfl (List.mem_singleton.mpr rfl) (.bound back))) (by decide)
  exact ⟨one, three⟩

/-- The handler is entered from the constant, which lies in a range up to the label of the end. -/
theorem jumpingBack_caught : jumpingBack.Reachable 5 := by
  have start : jumpingBack.flow = jumpingBack.flow.take 4 ++
      .label (some (.fresh 0)) :: jumpingBack.flow.drop 5 := rfl
  have handler : jumpingBack.flow = jumpingBack.flow.take 7 ++
      .label (some (.fresh 2)) :: jumpingBack.flow.drop 8 := rfl
  have unbound : .label (some (.fresh 3)) ∉ jumpingBack.flow := by simp [jumpingBack]
  have raises : jumpingBack.Edge 3 5 := .of_stop (List.mem_singleton.mpr rfl) (.bound start) rfl rfl
    unbound (Nat.le_refl _) (by decide) (.bound handler)
  exact .step jumpingBack_reachable.2 raises (by decide)

/-- The tracker finds a depth of one, which bounds the stacks at the jump back and in the
handler. -/
theorem jumpingBack_depth : ∃ t,
    jumpingBack.elements.foldlM StackTracker.track (StackTracker.start []) = .ok t ∧
      t.maxStack? = some 1 ∧ slotsOf (jumpingBackShape 1) ≤ 1 ∧
        slotsOf (jumpingBackShape 5) ≤ 1 := by
  obtain ⟨-, -, one, -⟩ := jumpingBack_opcodes
  have run : ∃ t,
      jumpingBack.elements.foldlM StackTracker.track (StackTracker.start []) = .ok t ∧
        t.maxStack? = some 1 := by
    refine ⟨_, rfl, ?_⟩
    simp [StackTracker.start, StackTracker.branch, StackTracker.jump, StackTracker.leave, one,
      StackTracker.push, StackTracker.become, StackTracker.maxStack?, Kind.computational,
      Kind.slots, Std.HashMap.getElem_insert]
  obtain ⟨t, ran, deepest⟩ := run
  have bounds {k : Nat} (reachable : jumpingBack.Reachable k) : slotsOf (jumpingBackShape k) ≤ 1 :=
    (slots_le_tracked_depth jumpingBack_typing reachable).1 t 1 ran deepest
  exact ⟨t, ran, deepest, bounds jumpingBack_reachable.1, bounds jumpingBack_caught⟩

end JvmClass
