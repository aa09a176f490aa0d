import JvmClass.Proofs.Stack.Effect

/-!
# How the tracker follows an instruction

Where the tracker knows the stack it goes through an instruction exactly as the virtual
machine does (`StackTracker.Advances`). Where it does not, either the greatest depth is
lost for good or nothing changes at all and the instruction leaves the stack no deeper
than it found it (`StackTracker.skips_of_effect`).
-/

namespace JvmClass

namespace OperandStack

/-- The stack that holds the given kinds. -/
def of (kinds : List Kind) : OperandStack := ⟨kinds, slotsOf kinds⟩

@[simp] theorem slotsOf_nil : slotsOf [] = 0 := rfl

@[simp] theorem slotsOf_cons (k : Kind) (kinds : List Kind) :
    slotsOf (k :: kinds) = k.slots + slotsOf kinds := rfl

/-- The slots of kinds after others are added to theirs. -/
@[simp] theorem slotsOf_append (front back : List Kind) :
    slotsOf (front ++ back) = slotsOf front + slotsOf back := by
  induction front with
  | nil => simp
  | cons k front inductionHypothesis => simp [inductionHypothesis, Nat.add_assoc]

end OperandStack

namespace StackTracker

open OperandStack (slotsOf of)

/-- A tracker goes from one known stack to another, and nothing else changes but the
greatest depth, which covers the new stack unless the old one was deeper. -/
structure Shifts (t t' : StackTracker) (before after : List Kind) : Prop where
  current : t'.current = some (of after)
  known : t'.maxKnown = t.maxKnown
  grows : t.max ≤ t'.max
  covers : slotsOf after ≤ Nat.max t'.max (slotsOf before)
  pending : t'.pending = t.pending

/-- A known stack stays as it is where nothing happens. -/
theorem Shifts.refl {t : StackTracker} {s : List Kind} (holds : t.current = some (of s)) :
    Shifts t t s s where
  current := holds
  known := rfl
  grows := Nat.le_refl _
  covers := Nat.le_max_right _ _
  pending := rfl

/-- A tracker that goes from one known stack to a second, and from there to a third, goes from the
first to the third. -/
theorem Shifts.trans {t t' t'' : StackTracker} {before middle after : List Kind}
    (first : Shifts t t' before middle) (second : Shifts t' t'' middle after) :
    Shifts t t'' before after where
  current := second.current
  known := second.known.trans first.known
  grows := Nat.le_trans first.grows second.grows
  covers := by
    have middleCovered := first.covers
    have afterCovered := second.covers
    have grown := second.grows
    grind
  pending := second.pending.trans first.pending

/-- Popping as many values as were taken leaves the rest. -/
theorem popFrom_of (taken rest : List Kind) (t : StackTracker) :
    popFrom (of (taken ++ rest)) t taken.length = { t with current := some (of rest) } := by
  induction taken with
  | nil => rfl
  | cons k taken inductionHypothesis =>
      have below : (⟨taken ++ rest, slotsOf (k :: taken ++ rest) - k.slots⟩ : OperandStack) =
          of (taken ++ rest) := by
        simp [of]
      simp only [List.cons_append, List.length_cons, popFrom, of] at below ⊢
      rw [below]
      exact inductionHypothesis

/-- Popping as many values as lie on top leaves what lies below. -/
theorem shifts_pop {t : StackTracker} {taken rest : List Kind} {n : Nat}
    (holds : t.current = some (of (taken ++ rest))) (count : taken.length = n) :
    Shifts t (t.pop n) (taken ++ rest) rest := by
  have popped : t.pop n = { t with current := some (of rest) } := by
    rw [pop, holds, ← count]
    exact popFrom_of taken rest t
  rw [popped]
  exact {
    current := rfl
    known := rfl
    grows := Nat.le_refl _
    covers := by
      have below : slotsOf rest ≤ slotsOf (taken ++ rest) := by simp
      exact Nat.le_trans below (Nat.le_max_right _ _)
    pending := rfl }

/-- A tracker whose stack becomes a known one goes to that. -/
theorem shifts_become {t : StackTracker} {before after : List Kind} :
    Shifts t (t.become (of after)) before after where
  current := rfl
  known := rfl
  grows := Nat.le_max_left _ _
  covers := by
    have covered : slotsOf after ≤ (t.become (of after)).max := Nat.le_max_right _ _
    grind
  pending := rfl

/-- Pushing a value of a kind puts it on top. -/
theorem shifts_push {t : StackTracker} {s : List Kind} (k : Kind)
    (holds : t.current = some (of s)) : Shifts t (t.push k) s (k.pushed ++ s) := by
  by_cases nothing : k = .void
  · have same : t.push k = t := by simp [push, holds, nothing]
    rw [same, Kind.pushed, if_pos nothing]
    exact .refl holds
  · have onTop : (⟨k.computational :: s, slotsOf s + k.computational.slots⟩ : OperandStack) =
        of (k.computational :: s) := by
      simp [of, Nat.add_comm]
    have pushed : t.push k = t.become (of (k.computational :: s)) := by
      rw [← onTop]
      simp [push, holds, nothing, of]
    rw [pushed, Kind.pushed, if_neg nothing]
    exact shifts_become

/-- An instruction that pops some values and pushes one. -/
theorem shifts_pop_push {t : StackTracker} {taken rest : List Kind} {n : Nat} (k : Kind)
    (holds : t.current = some (of (taken ++ rest))) (count : taken.length = n) :
    Shifts t ((t.pop n).push k) (taken ++ rest) (k.pushed ++ rest) :=
  have popped := shifts_pop holds count
  popped.trans (shifts_push k popped.current)

/-- The tracker moves values about as the virtual machine does. -/
theorem rearrange_of_moves {op : Opcode} {taken left rest : List Kind}
    (moves : op.Moves taken left) :
    rearrange op (taken ++ rest) = some (taken, left, rest) := by
  cases moves <;>
    simp_all [rearrange, Kind.isWide, Opcode.pop, Opcode.pop2, Opcode.dup, Opcode.dupX1,
      Opcode.dupX2, Opcode.dup2, Opcode.dup2X1, Opcode.dup2X2, Opcode.swap]

/-- A tracker follows the instructions that move values about. -/
theorem shifts_shuffle {t : StackTracker} {op : Opcode} {taken left rest : List Kind}
    (holds : t.current = some (of (taken ++ rest))) (moves : op.Moves taken left) :
    Shifts t (t.shuffle op) (taken ++ rest) (left ++ rest) := by
  have result : (⟨left ++ rest, slotsOf (taken ++ rest) - slotsOf taken + slotsOf left⟩ :
      OperandStack) = of (left ++ rest) := by
    simp [of]
    omega
  have shuffled : t.shuffle op = t.become (of (left ++ rest)) := by
    rw [shuffle, holds]
    simp only [of, rearrange_of_moves moves]
    exact congrArg t.become result
  rw [shuffled]
  exact shifts_become

/-- A tracker goes through an instruction with a known stack: what the instruction leaves
is recorded for every target, and stays the present stack unless control leaves. -/
structure Advances (t t' : StackTracker) (i : Instruction) (before after : List Kind) : Prop where
  current : t'.current = if i.fallsThrough then some (of after) else none
  known : t'.maxKnown = t.maxKnown
  grows : t.max ≤ t'.max
  covers : slotsOf after ≤ Nat.max t'.max (slotsOf before)
  pending : ∀ label : Option Label,
    t'.pending[label]? = if label ∈ i.labels then some (of after) else t.pending[label]?

/-- An instruction that only changes the stack. -/
theorem Shifts.advances {t t' : StackTracker} {i : Instruction} {before after : List Kind}
    (shifts : Shifts t t' before after) (falls : i.fallsThrough = true) (flat : i.labels = []) :
    Advances t t' i before after where
  current := by simp [falls, shifts.current]
  known := shifts.known
  grows := shifts.grows
  covers := shifts.covers
  pending := by simp [flat, shifts.pending]

/-- Recording the present stack for a list of targets, one after another. -/
def jumps (targets : List (Option Label)) (t : StackTracker) : StackTracker :=
  targets.foldl (fun t target => t.jump target) t

/-- A jump with a known stack records it for the target. -/
theorem jump_of {t : StackTracker} {s : OperandStack} (holds : t.current = some s)
    (target : Option Label) :
    t.jump target = { t with pending := t.pending.insert target s } := by
  simp [jump, holds]

/-- Jumps with a known stack record it for every target, and change nothing else. -/
theorem jumps_of {targets : List (Option Label)} {t : StackTracker} {s : OperandStack}
    (holds : t.current = some s) :
    (t.jumps targets).current = some s ∧ (t.jumps targets).maxKnown = t.maxKnown ∧
      (t.jumps targets).max = t.max ∧
      ∀ label : Option Label, (t.jumps targets).pending[label]? =
        if label ∈ targets then some s else t.pending[label]? := by
  induction targets generalizing t with
  | nil => simp [jumps, holds]
  | cons target targets inductionHypothesis =>
      have jumped := jump_of holds target
      have holdsAfter : (t.jump target).current = some s := by rw [jumped]; exact holds
      obtain ⟨current, known, most, pending⟩ := inductionHypothesis holdsAfter
      have unfolded : t.jumps (target :: targets) = (t.jump target).jumps targets := rfl
      rw [unfolded]
      refine ⟨current, by rw [known, jumped], by rw [most, jumped], fun label => ?_⟩
      rw [pending label, jumped]
      by_cases later : label ∈ targets
      · simp [later]
      · by_cases same : target = label
        · simp [same]
        · have other : ¬ label = target := fun equal => same equal.symm
          simp [later, same, other, Std.HashMap.getElem?_insert]

/-- An instruction that changes the stack, records it for its targets and goes on. -/
theorem Shifts.advances_jumps {t t' : StackTracker} {i : Instruction} {before after : List Kind}
    (shifts : Shifts t t' before after) (falls : i.fallsThrough = true) :
    Advances t (t'.jumps i.labels) i before after := by
  obtain ⟨current, known, most, pending⟩ := @jumps_of i.labels _ _ shifts.current
  exact {
    current := by simp [falls, current]
    known := known.trans shifts.known
    grows := by rw [most]; exact shifts.grows
    covers := by rw [most]; exact shifts.covers
    pending := fun label => by rw [pending label, shifts.pending] }

/-- An instruction that changes the stack, records it for its targets and leaves. -/
theorem Shifts.advances_leave {t t' : StackTracker} {i : Instruction} {before after : List Kind}
    (shifts : Shifts t t' before after) (leaves : i.fallsThrough = false) :
    Advances t (t'.jumps i.labels).leave i before after := by
  obtain ⟨-, known, most, pending⟩ := @jumps_of i.labels _ _ shifts.current
  exact {
    current := by simp [leaves, leave]
    known := known.trans shifts.known
    grows := by rw [leave, most]; exact shifts.grows
    covers := by rw [leave, most]; exact shifts.covers
    pending := fun label => by rw [leave, pending label, shifts.pending] }

/-- A switch records the stack for its default and then for its cases. -/
theorem switch_eq (fallback : Option Label) (cases : List SwitchCase) (t : StackTracker) :
    t.switch fallback cases =
      ((t.pop 1).jumps (fallback :: cases.map (·.target))).leave := by
  simp [switch, jumps, List.foldl_map]

/-- A call pops its arguments and a receiver, if there is one, and pushes the result. -/
theorem shifts_call {t : StackTracker} {descriptor : Text} {receiver : Bool}
    {d : MethodDescriptor} {rest : List Kind}
    (parsed : MethodDescriptor.parse descriptor = .ok d)
    (holds : t.current = some (of (d.taken receiver ++ rest))) :
    Shifts t (t.call descriptor receiver) (d.taken receiver ++ rest)
      (d.result.kind.pushed ++ rest) := by
  have arguments : ((d.params.map fun p => p.kind.computational).reverse).length =
      d.params.length := by simp
  cases receiver with
  | false =>
      simp only [MethodDescriptor.taken, Bool.false_eq_true, ↓reduceIte, List.append_nil] at holds ⊢
      simp only [call, parsed, Bool.false_eq_true, ↓reduceIte]
      exact shifts_pop_push d.result.kind holds arguments
  | true =>
      simp only [MethodDescriptor.taken, ↓reduceIte, List.append_assoc] at holds ⊢
      simp only [call, parsed, ↓reduceIte]
      have popped := shifts_pop holds arguments
      exact popped.trans (shifts_pop_push d.result.kind popped.current rfl)

/-- An instruction that leaves the method: what lies on the stack does not matter. -/
theorem advances_exit {t : StackTracker} {i : Instruction} {taken rest : List Kind}
    (holds : t.current = some (of (taken ++ rest))) (leaves : i.fallsThrough = false)
    (flat : i.labels = []) : Advances t t.leave i (taken ++ rest) ([] ++ rest) := by
  have shifts : Shifts t { t with current := some (of rest) } (taken ++ rest) rest := by
    simpa [pop, holds, popFrom_of] using shifts_pop holds (n := taken.length) rfl
  have left := shifts.advances_leave leaves
  simpa [flat, jumps, leave] using left

/-- A branch takes what it compares, records the stack and leaves if it is a jump. -/
theorem advances_branch {t : StackTracker} {op : Opcode} {target : Option Label}
    {rest : List Kind} (shape : op.shape? = some .branch)
    (holds : t.current = some (of (op.branchOperands ++ rest))) :
    Advances t (t.branch op target) (.branch op target) (op.branchOperands ++ rest)
      ([] ++ rest) := by
  have leaving := Opcode.isUnconditional_branch op shape
  by_cases jumping : op = Opcode.goto || op = Opcode.gotoW
  · have nothing : op.branchOperands = [] := by simp [Opcode.branchOperands, jumping]
    have branched : t.branch op target = (t.jumps (Instruction.branch op target).labels).leave := by
      simp only [Bool.or_eq_true, decide_eq_true_eq] at jumping
      simp [branch, jumping, jumps, Instruction.labels]
    rw [branched]
    rw [nothing] at holds ⊢
    exact (Shifts.refl holds).advances_leave
      (by simp [Instruction.fallsThrough, Instruction.op, leaving, jumping])
  · have falls : (Instruction.branch op target).fallsThrough = true := by
      simp only [Instruction.fallsThrough, Instruction.op, leaving, jumping]
      rfl
    have branched : t.branch op target =
        (t.pop op.branchOperands.length).jumps (Instruction.branch op target).labels := by
      simp only [Bool.or_eq_true, decide_eq_true_eq, not_or] at jumping
      by_cases two : op.comparesTwo
      · have range := two
        simp only [Opcode.comparesTwo] at range
        simp [branch, jumping, jumps, Instruction.labels, Opcode.branchOperands, two, range]
      · have range := two
        simp only [Opcode.comparesTwo] at range
        simp [branch, jumping, jumps, Instruction.labels, Opcode.branchOperands, two, range]
    rw [branched]
    exact (shifts_pop holds rfl).advances_jumps falls

/-- A tracker that knows the stack follows every instruction that has an effect. -/
theorem advances_of_effect {t t' : StackTracker} {i : Instruction}
    {taken left rest : List Kind} (effect : i.Effect taken left)
    (holds : t.current = some (of (taken ++ rest))) (stepped : t.step i = .ok t') :
    Advances t t' i (taken ++ rest) (left ++ rest) := by
  cases effect with
  | load shape =>
      rename_i op slot
      obtain rfl : t.push op.kind = t' := by simpa [step, pure, Except.pure] using stepped
      have pushed := shifts_push op.kind holds
      rw [Opcode.pushed_kind op ⟨.load, by simp, shape⟩,
        Opcode.computational_kind op ⟨.load, by simp, shape⟩] at pushed
      exact pushed.advances (Instruction.fallsThrough_of_shape shape (by decide)) rfl
  | store shape =>
      obtain rfl : t.pop 1 = t' := by simpa [step, pure, Except.pure] using stepped
      exact (shifts_pop holds rfl).advances
        (Instruction.fallsThrough_of_shape shape (by decide)) rfl
  | increment =>
      obtain rfl : t = t' := by simpa [step, pure, Except.pure] using stepped
      exact (Shifts.refl holds).advances (by rfl) rfl
  | nop =>
      obtain rfl : t = t' := by simpa [step, pure, Except.pure] using stepped
      exact (Shifts.refl holds).advances (by rfl) rfl
  | branch shape =>
      rename_i op target
      obtain rfl : t.branch op target = t' := by simpa [step, pure, Except.pure] using stepped
      exact advances_branch shape holds
  | lookupSwitch =>
      rename_i fallback cases
      obtain rfl : t.switch fallback cases = t' := by
        simpa [step, pure, Except.pure] using stepped
      rw [switch_eq]
      exact Shifts.advances_leave (i := .lookupSwitch fallback cases) (shifts_pop holds rfl) rfl
  | tableSwitch =>
      rename_i low high fallback cases
      obtain rfl : t.switch fallback cases = t' := by
        simpa [step, pure, Except.pure] using stepped
      rw [switch_eq]
      exact Shifts.advances_leave (i := .tableSwitch low high fallback cases)
        (shifts_pop holds rfl) rfl
  | «return» shape =>
      obtain rfl : t.leave = t' := by simpa [step, pure, Except.pure] using stepped
      exact advances_exit holds (by simp [Instruction.fallsThrough, Instruction.op,
        Opcode.isUnconditional_of_return _ shape]) rfl
  | throw =>
      obtain rfl : t.leave = t' := by simpa [step, pure, Except.pure] using stepped
      exact advances_exit holds (by rfl) rfl
  | getstatic value =>
      rename_i f
      obtain rfl : t.push (Kind.ofDescriptor f.type) = t' := by
        simpa [step, access, pure, Except.pure] using stepped
      exact (shifts_push _ holds).advances (by rfl) rfl
  | putstatic value =>
      obtain rfl : t.pop 1 = t' := by
        simpa [step, access, pure, Except.pure, Opcode.putstatic, Opcode.getstatic,
          Opcode.getfield] using stepped
      exact (shifts_pop holds (by simp [Kind.pushed, value])).advances (by rfl) rfl
  | getfield value =>
      rename_i f
      obtain rfl : (t.pop 1).push (Kind.ofDescriptor f.type) = t' := by
        simpa [step, access, pure, Except.pure, Opcode.getstatic, Opcode.getfield] using stepped
      exact (shifts_pop_push _ holds rfl).advances (by rfl) rfl
  | putfield value =>
      obtain rfl : t.pop 2 = t' := by
        simpa [step, access, pure, Except.pure, Opcode.putstatic, Opcode.getstatic,
          Opcode.getfield, Opcode.putfield] using stepped
      exact (shifts_pop holds (by simp [Kind.pushed, value])).advances (by rfl) rfl
  | invoke shape parsed =>
      rename_i op m d
      obtain rfl : t.call m.type (op ≠ Opcode.invokestatic) = t' := by
        simpa [step, pure, Except.pure] using stepped
      exact (shifts_call parsed holds).advances
        (Instruction.fallsThrough_of_shape shape (by decide)) rfl
  | invokeDynamic parsed =>
      rename_i site d
      obtain rfl : t.call site.nameAndType.type.text false = t' := by
        simpa [step, pure, Except.pure] using stepped
      exact (shifts_call parsed holds).advances (by rfl) rfl
  | newObject =>
      obtain rfl : t.push .reference = t' := by simpa [step, pure, Except.pure] using stepped
      exact (shifts_push .reference holds).advances (by rfl) rfl
  | newPrimitiveArray =>
      obtain rfl : (t.pop 1).push .reference = t' := by
        simpa [step, pure, Except.pure] using stepped
      exact (shifts_pop_push .reference holds rfl).advances (by rfl) rfl
  | newReferenceArray =>
      obtain rfl : (t.pop 1).push .reference = t' := by
        simpa [step, pure, Except.pure] using stepped
      exact (shifts_pop_push .reference holds rfl).advances (by rfl) rfl
  | newMultiArray =>
      rename_i c dimensions
      obtain rfl : (t.pop dimensions.toNat).push .reference = t' := by
        simpa [step, pure, Except.pure] using stepped
      exact (shifts_pop_push .reference holds (by simp)).advances (by rfl) rfl
  | arrayLoad shape =>
      rename_i op
      obtain rfl : (t.pop 2).push op.kind = t' := by simpa [step, pure, Except.pure] using stepped
      have pushed := shifts_pop_push op.kind holds rfl
      rw [Opcode.pushed_kind op ⟨.arrayLoad, by simp, shape⟩] at pushed
      exact pushed.advances (Instruction.fallsThrough_of_shape shape (by decide)) rfl
  | arrayStore shape =>
      obtain rfl : t.pop 3 = t' := by simpa [step, pure, Except.pure] using stepped
      exact (shifts_pop holds rfl).advances
        (Instruction.fallsThrough_of_shape shape (by decide)) rfl
  | checkcast =>
      obtain rfl : (t.pop 1).push .reference = t' := by
        simpa [step, pure, Except.pure, Opcode.checkcast, Opcode.instanceof] using stepped
      exact (shifts_pop_push .reference holds rfl).advances (by rfl) rfl
  | instanceof =>
      obtain rfl : (t.pop 1).push .int = t' := by simpa [step, pure, Except.pure] using stepped
      exact (shifts_pop_push .int holds rfl).advances (by rfl) rfl
  | convert shape =>
      rename_i op
      obtain rfl : (t.pop 1).push op.kind = t' := by simpa [step, pure, Except.pure] using stepped
      have pushed := shifts_pop_push op.kind holds rfl
      rw [Opcode.pushed_kind op ⟨.convert, by simp, shape⟩] at pushed
      exact pushed.advances (Instruction.fallsThrough_of_shape shape (by decide)) rfl
  | operator shape =>
      rename_i op
      obtain rfl : t.operate op = t' := by simpa [step, pure, Except.pure] using stepped
      have pushed := shifts_pop_push op.kind holds (Opcode.length_operands op)
      rw [Opcode.pushed_kind op ⟨.operator, by simp, shape⟩,
        Opcode.computational_kind op ⟨.operator, by simp, shape⟩] at pushed
      exact pushed.advances (Instruction.fallsThrough_of_shape shape (by decide)) rfl
  | constant shape value =>
      rename_i op n entry
      obtain rfl : t.push (Instruction.constantKind op entry) = t' := by
        simpa [step, pure, Except.pure] using stepped
      exact (shifts_push _ holds).advances (Instruction.fallsThrough_of_shape shape (by decide)) rfl
  | monitor shape =>
      obtain rfl : t.pop 1 = t' := by simpa [step, pure, Except.pure] using stepped
      exact (shifts_pop holds rfl).advances
        (Instruction.fallsThrough_of_shape shape (by decide)) rfl
  | stack moves =>
      rename_i op
      obtain rfl : t.shuffle op = t' := by simpa [step, pure, Except.pure] using stepped
      exact (shifts_shuffle holds moves).advances (by cases moves <;> decide) rfl

/-- A greatest depth that is lost stays lost. -/
theorem known_of_push {t : StackTracker} {k : Kind} (known : (t.push k).maxKnown = true) :
    t.maxKnown = true := by
  unfold push at known
  split at known
  · cases known
  · split at known <;> exact known

/-- The greatest depth was known before values were popped, if it is after. -/
theorem known_of_popFrom {s : OperandStack} {t : StackTracker} {n : Nat}
    (known : (popFrom s t n).maxKnown = true) : t.maxKnown = true := by
  induction n generalizing s with
  | zero => exact known
  | succ n inductionHypothesis =>
      unfold popFrom at known
      split at known
      · cases known
      · exact inductionHypothesis known

/-- The greatest depth was known before a pop, if it is after. -/
theorem known_of_pop {t : StackTracker} {n : Nat} (known : (t.pop n).maxKnown = true) :
    t.maxKnown = true := by
  unfold pop at known
  split at known
  · cases known
  · exact known_of_popFrom known

/-- The greatest depth was known before a jump, if it is after. -/
theorem known_of_jump {t : StackTracker} {target : Option Label}
    (known : (t.jump target).maxKnown = true) : t.maxKnown = true := by
  unfold jump at known
  split at known <;> exact known

/-- The greatest depth was known before several jumps, if it is after. -/
theorem known_of_jumps {t : StackTracker} {targets : List (Option Label)}
    (known : (t.jumps targets).maxKnown = true) : t.maxKnown = true := by
  induction targets generalizing t with
  | nil => exact known
  | cons target targets inductionHypothesis => exact known_of_jump (inductionHypothesis known)

/-- The greatest depth was known before values were moved about, if it is after. -/
theorem known_of_shuffle {t : StackTracker} {op : Opcode}
    (known : (t.shuffle op).maxKnown = true) : t.maxKnown = true := by
  unfold shuffle at known
  split at known
  · cases known
  · split at known
    · cases known
    · exact known

/-- The greatest depth was known before a call, if it is after. -/
theorem known_of_call {t : StackTracker} {descriptor : Text} {receiver : Bool}
    (known : (t.call descriptor receiver).maxKnown = true) : t.maxKnown = true := by
  unfold call at known
  split at known
  · cases known
  · have popped := known_of_push known
    split at popped
    · exact known_of_pop (known_of_pop popped)
    · exact known_of_pop popped

/-- The greatest depth was known before an access to a field, if it is after. -/
theorem known_of_access {t : StackTracker} {op : Opcode} {k : Kind}
    (known : (t.access op k).maxKnown = true) : t.maxKnown = true := by
  unfold access at known
  split at known
  · exact known_of_push known
  · split at known
    · exact known_of_pop (known_of_push known)
    · split at known
      · exact known_of_pop known
      · split at known
        · exact known_of_pop known
        · exact known

/-- The greatest depth was known before a branch, if it is after. -/
theorem known_of_branch {t : StackTracker} {op : Opcode} {target : Option Label}
    (known : (t.branch op target).maxKnown = true) : t.maxKnown = true := by
  unfold branch at known
  split at known
  · exact known_of_jump known
  · split at known
    · exact known_of_pop (known_of_jump known)
    · exact known_of_pop (known_of_jump known)

/-- The greatest depth was known before an operator, if it is after. -/
theorem known_of_operate {t : StackTracker} {op : Opcode}
    (known : (t.operate op).maxKnown = true) : t.maxKnown = true :=
  known_of_pop (known_of_push known)

/-- The greatest depth was known before a jump to a subroutine or a return from it, if it is
after. -/
theorem known_of_discontinued {t t' : StackTracker} {op : Opcode} {target : Option Label}
    {slot : Int} (stepped : t.step (.discontinued op target slot) = .ok t')
    (known : t'.maxKnown = true) : t.maxKnown = true := by
  simp only [step, pure, Except.pure] at stepped
  split at stepped
  · cases stepped
    exact known_of_push (known_of_jump (known_of_pop known))
  · split at stepped <;> (cases stepped; exact known)

/-- The greatest depth was known before an instruction, if it is after. -/
theorem known_of_step {t t' : StackTracker} {i : Instruction} (stepped : t.step i = .ok t')
    (known : t'.maxKnown = true) : t.maxKnown = true := by
  cases i with
  | load op slot => cases stepped; exact known_of_push known
  | store op slot => cases stepped; exact known_of_pop known
  | increment slot delta => cases stepped; exact known
  | branch op target => cases stepped; exact known_of_branch known
  | lookupSwitch fallback cases =>
      cases stepped
      rw [switch_eq] at known
      exact known_of_pop (known_of_jumps known)
  | tableSwitch low high fallback cases =>
      cases stepped
      rw [switch_eq] at known
      exact known_of_pop (known_of_jumps known)
  | «return» op => cases stepped; exact known
  | throw => cases stepped; exact known
  | field op f =>
      cases f with
      | none => cases stepped
      | some f => cases stepped; exact known_of_access known
  | invoke op m =>
      cases m with
      | none => cases stepped
      | some m => cases stepped; exact known_of_call known
  | invokeDynamic site =>
      cases site with
      | none => cases stepped
      | some site => cases stepped; exact known_of_call known
  | newObject c => cases stepped; exact known_of_push known
  | newPrimitiveArray k => cases stepped; exact known_of_pop (known_of_push known)
  | newReferenceArray c => cases stepped; exact known_of_pop (known_of_push known)
  | newMultiArray c dimensions => cases stepped; exact known_of_pop (known_of_push known)
  | arrayLoad op => cases stepped; exact known_of_pop (known_of_push known)
  | arrayStore op => cases stepped; exact known_of_pop known
  | typeCheck op c => cases stepped; exact known_of_pop (known_of_push known)
  | convert op => cases stepped; exact known_of_pop (known_of_push known)
  | operator op => cases stepped; exact known_of_operate known
  | constant op value entry => cases stepped; exact known_of_push known
  | stack op => cases stepped; exact known_of_shuffle known
  | monitor op => cases stepped; exact known_of_pop known
  | nop => cases stepped; exact known
  | discontinued op target slot => exact known_of_discontinued stepped known

/-- Taking values off an unknown stack loses the greatest depth. -/
theorem lost_pop {t : StackTracker} {n : Nat} (unknown : t.current = none) :
    (t.pop n).maxKnown = false := by
  simp [pop, unknown]

/-- A push without a known stack loses the greatest depth. -/
theorem lost_push {t : StackTracker} {k : Kind} (unknown : t.current = none) :
    (t.push k).maxKnown = false := by
  simp [push, unknown]

/-- Once the greatest depth is lost a push does not bring it back. -/
theorem lost_pop_push {t : StackTracker} {n : Nat} {k : Kind} (unknown : t.current = none) :
    ((t.pop n).push k).maxKnown = false := by
  cases known : ((t.pop n).push k).maxKnown with
  | false => rfl
  | true =>
      have popped := known_of_push known
      simp [lost_pop unknown] at popped

/-- A call without a known stack loses the greatest depth. -/
theorem lost_call {t : StackTracker} {descriptor : Text} {receiver : Bool}
    (unknown : t.current = none) : (t.call descriptor receiver).maxKnown = false := by
  refine Bool.eq_false_iff.mpr fun known => ?_
  unfold call at known
  split at known
  · cases known
  · have popped := known_of_push known
    split at popped
    · have first := known_of_pop popped
      simp [lost_pop unknown] at first
    · simp [lost_pop unknown] at popped

/-- A tracker that has lost the stack but not the greatest depth skips instructions that
change nothing it records, and these leave the stack no deeper than they find it. -/
structure Skips (t t' : StackTracker) (taken left : List Kind) : Prop where
  same : t' = t
  shrinks : slotsOf left ≤ slotsOf taken

/-- Leaving without a known stack changes nothing. -/
theorem leave_eq {t : StackTracker} (unknown : t.current = none) : t.leave = t := by
  cases t
  simp_all [leave]

/-- A jump without a known stack records nothing. -/
theorem jump_eq {t : StackTracker} (unknown : t.current = none) (target : Option Label) :
    t.jump target = t := by
  simp [jump, unknown]

/-- A tracker that has lost the stack skips a branch, if it keeps the greatest depth. -/
theorem skips_branch {t : StackTracker} {op : Opcode} {target : Option Label}
    (unknown : t.current = none) (known : (t.branch op target).maxKnown = true) :
    Skips t (t.branch op target) op.branchOperands [] := by
  refine ⟨?_, by simp⟩
  unfold branch at known ⊢
  split
  · rw [jump_eq unknown, leave_eq unknown]
  · rename_i jumping
    rw [if_neg jumping] at known
    split at known
    · have popped := known_of_jump known
      simp [lost_pop unknown] at popped
    · have popped := known_of_jump known
      simp [lost_pop unknown] at popped

/-- A tracker that has lost the stack skips an instruction, if it keeps the greatest depth. What
would push something loses it, so these instructions leave nothing. -/
theorem skips_of_effect {t t' : StackTracker} {i : Instruction} {taken left : List Kind}
    (effect : i.Effect taken left) (unknown : t.current = none) (stepped : t.step i = .ok t')
    (known : t'.maxKnown = true) : Skips t t' taken left := by
  cases effect with
  | load shape => cases stepped; simp [lost_push unknown] at known
  | store shape => cases stepped; simp [lost_pop unknown] at known
  | increment => cases stepped; exact ⟨rfl, Nat.le_refl _⟩
  | nop => cases stepped; exact ⟨rfl, Nat.le_refl _⟩
  | branch shape => cases stepped; exact skips_branch unknown known
  | lookupSwitch =>
      cases stepped
      rw [switch_eq] at known
      have popped := known_of_jumps known
      simp [lost_pop unknown] at popped
  | tableSwitch =>
      cases stepped
      rw [switch_eq] at known
      have popped := known_of_jumps known
      simp [lost_pop unknown] at popped
  | «return» shape => cases stepped; exact ⟨leave_eq unknown, by simp⟩
  | throw => cases stepped; exact ⟨leave_eq unknown, by simp⟩
  | getstatic value => cases stepped; simp [access, lost_push unknown] at known
  | putstatic value =>
      cases stepped
      simp [access, Opcode.putstatic, Opcode.getstatic, Opcode.getfield,
        lost_pop unknown] at known
  | getfield value =>
      cases stepped
      simp [access, Opcode.getstatic, Opcode.getfield, lost_pop_push unknown] at known
  | putfield value =>
      cases stepped
      simp [access, Opcode.putstatic, Opcode.getstatic, Opcode.getfield, Opcode.putfield,
        lost_pop unknown] at known
  | invoke shape parsed => cases stepped; simp [lost_call unknown] at known
  | invokeDynamic parsed => cases stepped; simp [lost_call unknown] at known
  | newObject => cases stepped; simp [lost_push unknown] at known
  | newPrimitiveArray => cases stepped; simp [lost_pop_push unknown] at known
  | newReferenceArray => cases stepped; simp [lost_pop_push unknown] at known
  | newMultiArray => cases stepped; simp [lost_pop_push unknown] at known
  | arrayLoad shape => cases stepped; simp [lost_pop_push unknown] at known
  | arrayStore shape => cases stepped; simp [lost_pop unknown] at known
  | checkcast => cases stepped; simp [lost_pop_push unknown] at known
  | instanceof => cases stepped; simp [lost_pop_push unknown] at known
  | convert shape => cases stepped; simp [lost_pop_push unknown] at known
  | operator shape => cases stepped; simp [operate, lost_pop_push unknown] at known
  | constant shape value => cases stepped; simp [lost_push unknown] at known
  | monitor shape => cases stepped; simp [lost_pop unknown] at known
  | stack moves => cases stepped; simp [shuffle, unknown] at known

end StackTracker

end JvmClass
