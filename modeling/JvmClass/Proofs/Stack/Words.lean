import JvmClass.Proofs.Outcome
import JvmClass.Proofs.Stack.Following

/-!
# Moving words about

The virtual machine describes the instructions that move values about by words, of which
a value of two slots has two. A tracker holds values and picks a form of the instruction by
their sizes. Here each instruction is one operation on words (`Opcode.wordMoves`), and a
tracker that follows a body does to its values what the operation does to their words, as
long as no value is split (`StackTracker.shuffle_refines_words`).
-/

namespace JvmClass

/-- A word of the operand stack: one of the slots of a value. -/
structure StackWord where
  kind : Kind
  /-- The number of the slot within the value, zero for the uppermost. -/
  part : Nat
deriving DecidableEq, Repr

/-- The words of some values, both the top first. -/
def StackWord.expand (kinds : List Kind) : List StackWord :=
  kinds.flatMap fun k => (List.range k.slots).map (StackWord.mk k)

/-- What an instruction that moves values about does to the words on top of the stack. -/
inductive WordMove where
  /-- Takes the top words away. -/
  | remove (count : Nat)
  /-- Copies the top words and puts the copy beneath the next ones. -/
  | copy (count under : Nat)
  /-- Exchanges the top words with the next ones. -/
  | exchange (count under : Nat)
deriving DecidableEq, Repr

namespace WordMove

/-- The number of words on top that are moved. -/
def count : WordMove → Nat
  | remove count | copy count _ | exchange count _ => count

/-- The number of words after those that the moved ones go beneath. -/
def under : WordMove → Nat
  | remove _ => 0
  | copy _ under | exchange _ under => under

/-- What is left of the moved items and of those after them. -/
def arrange {α : Type} : WordMove → (top next : List α) → List α
  | remove _, _, _ => []
  | copy _ _, top, next => top ++ next ++ top
  | exchange _ _, top, next => next ++ top

/-- The operation on a stack of words. -/
def onWords (m : WordMove) (words : List StackWord) : List StackWord :=
  m.arrange (words.take m.count) ((words.drop m.count).take m.under) ++
    words.drop (m.count + m.under)

/-- A stack has the words that an operation works on, and the operation cuts it between two
values: beneath either cut lies the uppermost word of a value, if anything. -/
structure Fits (m : WordMove) (words : List StackWord) : Prop where
  enough : m.count + m.under ≤ words.length
  unsplit : ∀ cut ∈ [m.count, m.count + m.under], ∀ w ∈ words[cut]?, w.part = 0

/-- The values of a stack run out before they make up the moved words and, with further
values, the words that these go beneath. -/
def RunsOut (m : WordMove) (kinds : List Kind) : Prop :=
  ∀ top next rest, kinds = top ++ next ++ rest →
    OperandStack.slotsOf top < m.count ∨ OperandStack.slotsOf next < m.under

end WordMove

/-- The instructions that move values about, with their operations on words. -/
def Opcode.wordMoves : List (Opcode × WordMove) :=
  [(pop, .remove 1), (pop2, .remove 2), (dup, .copy 1 0), (dupX1, .copy 1 1),
    (dupX2, .copy 1 2), (dup2, .copy 2 0), (dup2X1, .copy 2 1), (dup2X2, .copy 2 2),
    (swap, .exchange 1 1)]

namespace StackWord

open OperandStack (slotsOf)

@[simp] theorem expand_nil : expand [] = [] := rfl

/-- Values after others have their words after theirs. -/
@[simp] theorem expand_append (front back : List Kind) :
    expand (front ++ back) = expand front ++ expand back := by
  simp [expand]

theorem expand_cons (k : Kind) (kinds : List Kind) :
    expand (k :: kinds) = (List.range k.slots).map (StackWord.mk k) ++ expand kinds := rfl

/-- Values have as many words as slots. -/
@[simp] theorem length_expand (kinds : List Kind) : (expand kinds).length = slotsOf kinds := by
  induction kinds with
  | nil => rfl
  | cons k kinds inductionHypothesis => simp [expand_cons, inductionHypothesis]

/-- A cut of the words that splits no value is a cut of the values. -/
theorem exists_cut {kinds : List Kind} {cut : Nat} (enough : cut ≤ (expand kinds).length)
    (unsplit : ∀ w ∈ (expand kinds)[cut]?, w.part = 0) :
    ∃ top rest, kinds = top ++ rest ∧ slotsOf top = cut := by
  induction kinds generalizing cut with
  | nil => exact ⟨[], [], rfl, by simpa [eq_comm] using enough⟩
  | cons k kinds inductionHypothesis =>
      rw [expand_cons] at unsplit
      rw [length_expand, OperandStack.slotsOf_cons] at enough
      rcases Nat.eq_zero_or_pos cut with rfl | positive
      · exact ⟨[], k :: kinds, rfl, rfl⟩
      by_cases inside : cut < k.slots
      · -- The word beneath the cut would be a lower one of this value.
        have part := unsplit ⟨k, cut⟩ (by simp [List.getElem?_append, inside])
        exact absurd part (Nat.ne_of_gt positive)
      · rw [List.getElem?_append_right (by simpa using inside)] at unsplit
        have enough' : cut - k.slots ≤ (expand kinds).length := by rw [length_expand]; omega
        obtain ⟨top, rest, rfl, size⟩ := inductionHypothesis enough' (by simpa using unsplit)
        exact ⟨k :: top, rest, rfl, by rw [OperandStack.slotsOf_cons, size]; omega⟩

end StackWord

/-- A stack that a tracker can hold: its depth is that of its values, and each of them has one
slot or two. -/
structure OperandStack.Held (s : OperandStack) : Prop where
  depth : s.slots = slotsOf s.kinds
  valued : ∀ k ∈ s.kinds, k.slots = 1 ∨ k.slots = 2

namespace WordMove

open OperandStack (slotsOf)
open StackWord (expand)

/-- Values of one slot or two. -/
abbrev Valued (kinds : List Kind) : Prop := ∀ k ∈ kinds, k.slots = 1 ∨ k.slots = 2

/-- Takes values off the top until they make up a number of words. -/
def takeWords : Nat → List Kind → Option (List Kind × List Kind)
  | 0, kinds => some ([], kinds)
  | _ + 1, [] => none
  | n + 1, k :: kinds =>
    (takeWords (n + 1 - k.slots) kinds).map fun (taken, rest) => (k :: taken, rest)

/-- The operation on values: what it takes, what it leaves in their place and the rest. -/
def onValues (m : WordMove) (kinds : List Kind) :
    Option (List Kind × List Kind × List Kind) := do
  let (top, below) ← takeWords m.count kinds
  let (next, rest) ← takeWords m.under below
  return (top ++ next, m.arrange top next, rest)

/-- Values that make up some words are the topmost ones, and their slots are enough. -/
theorem takeWords_eq_some {n : Nat} {kinds taken rest : List Kind}
    (took : takeWords n kinds = some (taken, rest)) :
    kinds = taken ++ rest ∧ n ≤ slotsOf taken := by
  induction kinds generalizing n taken with
  | nil =>
      cases n with
      | zero => obtain ⟨rfl, rfl⟩ := Prod.mk.inj (Option.some.inj took); exact ⟨rfl, Nat.zero_le _⟩
      | succ n => cases took
  | cons k kinds inductionHypothesis =>
      cases n with
      | zero => obtain ⟨rfl, rfl⟩ := Prod.mk.inj (Option.some.inj took); exact ⟨rfl, Nat.zero_le _⟩
      | succ n =>
          rw [takeWords, Option.map_eq_some_iff] at took
          obtain ⟨⟨others, below⟩, tookOthers, same⟩ := took
          obtain ⟨rfl, rfl⟩ := Prod.mk.inj same
          obtain ⟨rfl, enough⟩ := inductionHypothesis tookOthers
          exact ⟨rfl, by rw [OperandStack.slotsOf_cons]; omega⟩

/-- Values that make up the words exactly are what is taken. -/
theorem takeWords_of_exact {top : List Kind} (valued : Valued top) (rest : List Kind) :
    takeWords (slotsOf top) (top ++ rest) = some (top, rest) := by
  induction top with
  | nil => cases rest <;> rfl
  | cons k top inductionHypothesis =>
      have one : k.slots = 1 ∨ k.slots = 2 := valued k List.mem_cons_self
      have others := inductionHypothesis fun k' member => valued k' (List.mem_cons_of_mem _ member)
      obtain ⟨n, size⟩ : ∃ n, k.slots + slotsOf top = n + 1 :=
        ⟨k.slots + slotsOf top - 1, by omega⟩
      have left : n + 1 - k.slots = slotsOf top := by omega
      rw [OperandStack.slotsOf_cons, size, List.cons_append, takeWords, left, others]
      rfl

@[simp] theorem takeWords_zero (kinds : List Kind) : takeWords 0 kinds = some ([], kinds) := by
  cases kinds <;> rfl

@[simp] theorem takeWords_nil (n : Nat) : takeWords (n + 1) [] = none := rfl

/-- One word is made up by one value, which may have two. -/
@[simp] theorem takeWords_one {k : Kind} (value : k.slots = 1 ∨ k.slots = 2)
    (kinds : List Kind) : takeWords 1 (k :: kinds) = some ([k], kinds) := by
  have enough : 0 + 1 - k.slots = 0 := by omega
  rw [takeWords, enough, takeWords_zero]
  rfl

/-- A wide value makes up two words. -/
@[simp] theorem takeWords_two_wide {k : Kind} (wide : k.slots = 2) (kinds : List Kind) :
    takeWords 2 (k :: kinds) = some ([k], kinds) := by
  have enough : 1 + 1 - k.slots = 0 := by omega
  rw [takeWords, enough, takeWords_zero]
  rfl

/-- A value of one slot needs a second value, of any size. -/
@[simp] theorem takeWords_two_narrow {k : Kind} (narrow : k.slots = 1) (kinds : List Kind) :
    takeWords 2 (k :: kinds) =
      (takeWords 1 kinds).map fun (taken, rest) => (k :: taken, rest) := by
  have one : 1 + 1 - k.slots = 1 := by omega
  rw [takeWords, one]

/-- The forms that a tracker chooses from are the operation on words, carried out on values. -/
theorem rearrange_eq_onValues {op : Opcode} {m : WordMove} (listed : (op, m) ∈ Opcode.wordMoves)
    {kinds : List Kind} (valued : Valued kinds) :
    StackTracker.rearrange op kinds = m.onValues kinds := by
  simp only [Opcode.wordMoves, List.mem_cons, Prod.mk.injEq, List.not_mem_nil, or_false] at listed
  rcases listed with ⟨rfl, rfl⟩ | ⟨rfl, rfl⟩ | ⟨rfl, rfl⟩ | ⟨rfl, rfl⟩ | ⟨rfl, rfl⟩ | ⟨rfl, rfl⟩ |
    ⟨rfl, rfl⟩ | ⟨rfl, rfl⟩ | ⟨rfl, rfl⟩
  all_goals
    simp +decide only [StackTracker.rearrange, onValues, count, under, arrange, ↓reduceIte,
      Option.bind_eq_bind, Option.pure_def]
  -- The form depends on the sizes of the first three values, and on there being a fourth.
  all_goals
    rcases kinds with _ | ⟨a, _ | ⟨b, _ | ⟨c, _ | ⟨d, s⟩⟩⟩⟩
    · rfl
    · rcases valued a (by simp) with first | first <;> simp [Kind.isWide, first]
    · rcases valued a (by simp) with first | first <;>
        rcases valued b (by simp) with second | second <;>
        simp [Kind.isWide, first, second]
    · rcases valued a (by simp) with first | first <;>
        rcases valued b (by simp) with second | second <;>
        rcases valued c (by simp) with third | third <;>
        simp [Kind.isWide, first, second, third]
    · rcases valued a (by simp) with first | first <;>
        rcases valued b (by simp) with second | second <;>
        rcases valued c (by simp) with third | third <;>
        simp [Kind.isWide, first, second, third, valued d]

/-- An operation on values cuts those that it works on off the rest, and arranges them as it does
words. -/
theorem onValues_eq_some {m : WordMove} {kinds taken left rest : List Kind}
    (moved : m.onValues kinds = some (taken, left, rest)) :
    ∃ top next, kinds = top ++ next ++ rest ∧ taken = top ++ next ∧ left = m.arrange top next ∧
      m.count ≤ slotsOf top ∧ m.under ≤ slotsOf next := by
  simp only [onValues, Option.bind_eq_bind, Option.pure_def, Option.bind_eq_some_iff] at moved
  obtain ⟨⟨top, below⟩, tookTop, ⟨next, rest'⟩, tookNext, same⟩ := moved
  obtain ⟨rfl, rfl, rfl⟩ : top ++ next = taken ∧ m.arrange top next = left ∧ rest' = rest := by
    simpa using same
  obtain ⟨rfl, enoughTop⟩ := takeWords_eq_some tookTop
  obtain ⟨rfl, enoughNext⟩ := takeWords_eq_some tookNext
  exact ⟨top, next, (List.append_assoc ..).symm, rfl, rfl, enoughTop, enoughNext⟩

/-- Where the words are made up exactly no other values are taken. -/
theorem onValues_of_exact {m : WordMove} {top next rest : List Kind}
    (valued : Valued (top ++ next ++ rest)) (count : slotsOf top = m.count)
    (under : slotsOf next = m.under) :
    m.onValues (top ++ next ++ rest) = some (top ++ next, m.arrange top next, rest) := by
  have valuedTop : Valued top := fun k member => valued k (by simp [member])
  have valuedNext : Valued next := fun k member => valued k (by simp [member])
  simp [onValues, ← count, ← under, takeWords_of_exact valuedTop, takeWords_of_exact valuedNext]

/-- Values that run out leave nothing to move. -/
theorem onValues_of_runsOut {m : WordMove} {kinds : List Kind} (out : m.RunsOut kinds) :
    m.onValues kinds = none := by
  cases moved : m.onValues kinds with
  | none => rfl
  | some parts =>
      obtain ⟨top, next, split, -, -, enoughTop, enoughNext⟩ := onValues_eq_some moved
      rcases out top next parts.2.2 split with few | few <;> omega

/-- A stack of fewer words than an operation works on runs out of values. -/
theorem runsOut_of_few {m : WordMove} {kinds : List Kind}
    (few : (expand kinds).length < m.count + m.under) : m.RunsOut kinds := by
  rintro top next rest rfl
  simp only [StackWord.length_expand, OperandStack.slotsOf_append] at few
  omega

/-- An operation arranges the words of values as it arranges the values. -/
theorem expand_arrange (m : WordMove) (top next : List Kind) :
    expand (m.arrange top next) = m.arrange (expand top) (expand next) := by
  cases m <;> simp [arrange]

/-- On values that make up the words exactly the two operations agree. -/
theorem onWords_expand {m : WordMove} {top next : List Kind} (rest : List Kind)
    (count : slotsOf top = m.count) (under : slotsOf next = m.under) :
    m.onWords (expand (top ++ next ++ rest)) = expand (m.arrange top next ++ rest) := by
  have first : (expand top).length = m.count := by rw [StackWord.length_expand, count]
  have second : (expand next).length = m.under := by rw [StackWord.length_expand, under]
  have both : (expand top ++ expand next).length = m.count + m.under := by
    rw [List.length_append, first, second]
  rw [StackWord.expand_append, StackWord.expand_append, StackWord.expand_append, expand_arrange,
    onWords, List.drop_left' both, List.append_assoc, List.take_left' first, List.drop_left' first,
    List.take_left' second]

/-- Words that fit an operation are those of values that make them up exactly. -/
theorem Fits.exists_parts {m : WordMove} {kinds : List Kind} (fits : m.Fits (expand kinds)) :
    ∃ top next rest, kinds = top ++ next ++ rest ∧ slotsOf top = m.count ∧
      slotsOf next = m.under := by
  have enough := fits.enough
  have within : m.count ≤ (expand kinds).length := by omega
  obtain ⟨top, below, rfl, count⟩ := StackWord.exists_cut within (fits.unsplit _ (by simp))
  have first : (expand top).length = m.count := by rw [StackWord.length_expand, count]
  have beneath : (expand below)[m.under]? = (expand (top ++ below))[m.count + m.under]? := by
    rw [StackWord.expand_append, List.getElem?_append_right (by omega), first,
      Nat.add_sub_cancel_left]
  rw [StackWord.expand_append, List.length_append, first] at enough
  have unsplit : ∀ w ∈ (expand below)[m.under]?, w.part = 0 := by
    rw [beneath]
    exact fits.unsplit _ (by simp)
  have enough' : m.under ≤ (expand below).length := by omega
  obtain ⟨next, rest, rfl, under⟩ := StackWord.exists_cut enough' unsplit
  exact ⟨top, next, rest, (List.append_assoc ..).symm, count, under⟩

end WordMove

namespace StackTracker

open OperandStack (slotsOf of)
open StackWord (expand)

/-- An instruction that moves nothing about leaves the stack as it is. -/
theorem rearrange_of_unlisted {op : Opcode} (unlisted : ∀ m, (op, m) ∉ Opcode.wordMoves)
    (kinds : List Kind) : rearrange op kinds = some ([], [], kinds) := by
  have other : ∀ row ∈ Opcode.wordMoves, op ≠ row.1 :=
    fun row member same => unlisted row.2 (same ▸ member)
  simp only [Opcode.wordMoves, List.forall_mem_cons, List.not_mem_nil, false_implies,
    implies_true, and_true] at other
  simp [rearrange, other]

/-- What is moved about comes from what was taken. -/
theorem rearrange_parts {op : Opcode} {kinds taken left rest : List Kind}
    (valued : WordMove.Valued kinds) (moved : rearrange op kinds = some (taken, left, rest)) :
    kinds = taken ++ rest ∧ ∀ k ∈ left, k ∈ taken := by
  by_cases listed : ∃ m, (op, m) ∈ Opcode.wordMoves
  · obtain ⟨m, listed⟩ := listed
    rw [WordMove.rearrange_eq_onValues listed valued] at moved
    obtain ⟨top, next, split, rfl, rfl, -, -⟩ := WordMove.onValues_eq_some moved
    exact ⟨split, by cases m <;> simp [WordMove.arrange] <;> grind⟩
  · rw [rearrange_of_unlisted (not_exists.mp listed)] at moved
    obtain ⟨rfl, rfl, rfl⟩ : [] = taken ∧ [] = left ∧ kinds = rest := by simpa using moved
    exact ⟨rfl, by simp⟩

/-! ## The stacks that a tracker holds -/

/-- The stack a tracker knows and those it has recorded for labels are stacks of values. -/
structure Holds (t : StackTracker) : Prop where
  current : ∀ s ∈ t.current, s.Held
  pending : ∀ (label : Option Label) (s : OperandStack), t.pending[label]? = some s → s.Held

variable {t : StackTracker}

/-- A tracker that loses its stack holds stacks of values. -/
theorem Holds.lose (holds : t.Holds) : t.lose.Holds := ⟨nofun, holds.pending⟩

/-- A tracker that leaves holds stacks of values. -/
theorem Holds.leave (holds : t.Holds) : t.leave.Holds := ⟨nofun, holds.pending⟩

/-- A tracker that loses the greatest depth holds stacks of values. -/
theorem Holds.unknown (holds : t.Holds) : { t with maxKnown := false }.Holds :=
  ⟨holds.current, holds.pending⟩

/-- A tracker whose stack becomes one of values holds stacks of values. -/
theorem Holds.become (holds : t.Holds) {s : OperandStack} (held : s.Held) : (t.become s).Holds :=
  ⟨fun _ same => Option.some.inj same ▸ held, holds.pending⟩

/-- A tracker that pushes a value holds stacks of values. -/
theorem Holds.push (holds : t.Holds) (k : Kind) : (t.push k).Holds := by
  unfold StackTracker.push
  split
  · exact holds.unknown
  · rename_i s present
    split
    · exact holds
    · rename_i value
      have held := holds.current s present
      have size : k.computational.slots = 1 ∨ k.computational.slots = 2 := by
        cases k <;> simp_all [Kind.computational, Kind.slots]
      refine holds.become ⟨?_, ?_⟩
      · simp [held.depth, Nat.add_comm]
      · exact List.forall_mem_cons.mpr ⟨size, held.valued⟩

/-- A tracker that pops from a stack of values holds such stacks. -/
theorem Holds.popFrom (holds : t.Holds) {s : OperandStack} (held : s.Held) (n : Nat) :
    (popFrom s t n).Holds := by
  induction n generalizing s with
  | zero => exact ⟨fun _ same => Option.some.inj same ▸ held, holds.pending⟩
  | succ n inductionHypothesis =>
      unfold StackTracker.popFrom
      split
      · exact holds.lose
      · rename_i k kinds values
        have depth := held.depth
        have valued := held.valued
        rw [values] at depth valued
        rw [OperandStack.slotsOf_cons] at depth
        exact inductionHypothesis ⟨by simp only; omega, (List.forall_mem_cons.mp valued).2⟩

/-- A tracker that pops holds stacks of values. -/
theorem Holds.pop (holds : t.Holds) (n : Nat) : (t.pop n).Holds := by
  unfold StackTracker.pop
  split
  · exact holds.unknown
  · rename_i s present
    exact holds.popFrom (holds.current s present) n

/-- A tracker that records its stack for a jump holds stacks of values. -/
theorem Holds.jump (holds : t.Holds) (target : Option Label) : (t.jump target).Holds := by
  unfold StackTracker.jump
  split
  · exact holds
  · rename_i s present
    refine ⟨holds.current, fun label s' recorded => ?_⟩
    rw [Std.HashMap.getElem?_insert] at recorded
    split at recorded
    · exact Option.some.inj recorded ▸ holds.current s present
    · exact holds.pending label s' recorded

/-- A tracker that records its stack for several jumps holds stacks of values. -/
theorem Holds.jumps (holds : t.Holds) (targets : List (Option Label)) :
    (t.jumps targets).Holds := by
  induction targets generalizing t with
  | nil => exact holds
  | cons target targets inductionHypothesis => exact inductionHypothesis (holds.jump target)

/-- A tracker that moves values about holds stacks of values. -/
theorem Holds.shuffle (holds : t.Holds) (op : Opcode) : (t.shuffle op).Holds := by
  unfold StackTracker.shuffle
  split
  · exact holds.unknown
  · rename_i s present
    have held := holds.current s present
    split
    · exact holds.lose
    · rename_i taken left rest moved
      obtain ⟨split, among⟩ := rearrange_parts held.valued moved
      have valued := held.valued
      have depth := held.depth
      rw [split] at valued depth
      refine holds.become ⟨?_, ?_⟩
      · simp only [depth, OperandStack.slotsOf_append]
        omega
      · intro k member
        rcases List.mem_append.mp member with moved | below
        · exact valued k (List.mem_append_left _ (among k moved))
        · exact valued k (List.mem_append_right _ below)

/-- A tracker that goes through a call holds stacks of values. -/
theorem Holds.call (holds : t.Holds) (descriptor : Text) (receiver : Bool) :
    (t.call descriptor receiver).Holds := by
  unfold StackTracker.call
  split
  · exact holds.lose
  · split
    · exact ((holds.pop _).pop 1).push _
    · exact (holds.pop _).push _

/-- A tracker that goes through an access to a field holds stacks of values. -/
theorem Holds.access (holds : t.Holds) (op : Opcode) (k : Kind) : (t.access op k).Holds := by
  unfold StackTracker.access
  split
  · exact holds.push k
  · split
    · exact (holds.pop 1).push k
    · split
      · exact holds.pop 1
      · split
        · exact holds.pop 2
        · exact holds

/-- A tracker that goes through a branch holds stacks of values. -/
theorem Holds.branch (holds : t.Holds) (op : Opcode) (target : Option Label) :
    (t.branch op target).Holds := by
  unfold StackTracker.branch
  split
  · exact (holds.jump target).leave
  · split
    · exact (holds.pop 2).jump target
    · exact (holds.pop 1).jump target

/-- A tracker that goes through a switch holds stacks of values. -/
theorem Holds.switch (holds : t.Holds) (fallback : Option Label) (cases : List SwitchCase) :
    (t.switch fallback cases).Holds := by
  rw [switch_eq]
  exact ((holds.pop 1).jumps _).leave

/-- A tracker that goes through a jump to a subroutine or a return from it holds stacks of
values. -/
theorem Holds.discontinued {t' : StackTracker} (holds : t.Holds) {op : Opcode}
    {target : Option Label} {slot : Int}
    (stepped : t.step (.discontinued op target slot) = .ok t') : t'.Holds := by
  simp only [step, pure, Except.pure] at stepped
  split at stepped
  · cases stepped
    exact ((holds.push .reference).jump target).pop 1
  · split at stepped <;> cases stepped
    · exact holds.leave
    · exact holds

/-- An instruction takes stacks of values to stacks of values. -/
theorem Holds.step {t' : StackTracker} (holds : t.Holds) {i : Instruction}
    (stepped : t.step i = .ok t') : t'.Holds := by
  cases i with
  | load op slot => cases stepped; exact holds.push _
  | store op slot => cases stepped; exact holds.pop 1
  | increment slot delta => cases stepped; exact holds
  | branch op target => cases stepped; exact holds.branch op target
  | lookupSwitch fallback cases => cases stepped; exact holds.switch fallback cases
  | tableSwitch low high fallback cases => cases stepped; exact holds.switch fallback cases
  | «return» op => cases stepped; exact holds.leave
  | throw => cases stepped; exact holds.leave
  | field op f =>
      cases f with
      | none => cases stepped
      | some f => cases stepped; exact holds.access op _
  | invoke op m =>
      cases m with
      | none => cases stepped
      | some m => cases stepped; exact holds.call _ _
  | invokeDynamic site =>
      cases site with
      | none => cases stepped
      | some site => cases stepped; exact holds.call _ _
  | newObject c => cases stepped; exact holds.push _
  | newPrimitiveArray k => cases stepped; exact (holds.pop 1).push _
  | newReferenceArray c => cases stepped; exact (holds.pop 1).push _
  | newMultiArray c dimensions => cases stepped; exact (holds.pop _).push _
  | arrayLoad op => cases stepped; exact (holds.pop 2).push _
  | arrayStore op => cases stepped; exact holds.pop 3
  | typeCheck op c => cases stepped; exact (holds.pop 1).push _
  | convert op => cases stepped; exact (holds.pop 1).push _
  | operator op => cases stepped; exact (holds.pop _).push _
  | constant op value entry => cases stepped; exact holds.push _
  | stack op => cases stepped; exact holds.shuffle op
  | monitor op => cases stepped; exact holds.pop 1
  | nop => cases stepped; exact holds
  | discontinued op target slot => exact holds.discontinued stepped

/-- So does every element of a body: a label brings back a recorded stack, a handler starts with
one reference. -/
theorem Holds.track {t' : StackTracker} (holds : t.Holds) {e : CodeElement}
    (tracked : t.track e = .ok t') : t'.Holds := by
  cases e with
  | label l =>
      cases tracked
      cases recorded : t.pending[l]? with
      | none => exact holds
      | some s => exact holds.become (holds.pending l s recorded)
  | handler c =>
      cases tracked
      refine ⟨holds.current, fun label s recorded => ?_⟩
      rw [Std.HashMap.getElem?_insert] at recorded
      split at recorded
      · exact Option.some.inj recorded ▸ ⟨rfl, by simp [Kind.slots]⟩
      · exact holds.pending label s recorded
  | instruction i => exact holds.step tracked
  | _ => cases tracked; exact holds

/-- A tracker that starts with some values holds stacks of values. -/
theorem holds_start (initial : List Kind) : (start initial).Holds := by
  have empty : ({ current := some ⟨[], 0⟩, max := 0, maxKnown := true, pending := ∅ } :
      StackTracker).Holds :=
    ⟨fun _ same => Option.some.inj same ▸ ⟨rfl, by simp⟩, by simp⟩
  unfold start
  generalize ({ current := some ⟨[], 0⟩, .. } : StackTracker) = t at empty
  induction initial generalizing t with
  | nil => exact empty
  | cons k initial inductionHypothesis => exact inductionHypothesis _ (empty.push k)

/-- A tracker that follows a body holds stacks of values all along. -/
theorem holds_of_followed {initial : List Kind} {elements : List CodeElement}
    (followed : elements.foldlM StackTracker.track (start initial) = .ok t) : t.Holds := by
  have begun := holds_start initial
  generalize start initial = first at followed begun
  induction elements generalizing first with
  | nil => exact Except.ok.inj followed ▸ begun
  | cons e elements inductionHypothesis =>
      rw [List.foldlM_cons] at followed
      obtain ⟨next, tracked, followed⟩ := bind_eq_ok_iff.mp followed
      exact inductionHypothesis next followed (begun.track tracked)

/-- Moving values about is the operation on their words. On every stack that a tracker can come
to know, an operation that has its words and splits no value keeps the stack known and does to the
words what the virtual machine does, and the greatest depth takes the new one in. Where the values
run out, as they do wherever there are too few words, the stack and the greatest depth are lost. -/
theorem shuffle_refines_words {initial : List Kind} {elements : List CodeElement}
    (followed : elements.foldlM StackTracker.track (start initial) = .ok t) {s : OperandStack}
    (present : t.current = some s) {op : Opcode} {m : WordMove}
    (listed : (op, m) ∈ Opcode.wordMoves) :
    (m.Fits (expand s.kinds) → ∃ s', (t.shuffle op).current = some s' ∧
      expand s'.kinds = m.onWords (expand s.kinds) ∧ (t.shuffle op).maxKnown = t.maxKnown ∧
      (t.shuffle op).max = Nat.max t.max (m.onWords (expand s.kinds)).length) ∧
    (m.RunsOut s.kinds → (t.shuffle op).current = none ∧ (t.shuffle op).maxStack? = none) ∧
    ((expand s.kinds).length < m.count + m.under →
      (t.shuffle op).current = none ∧ (t.shuffle op).maxStack? = none) := by
  have held := (holds_of_followed followed).current s present
  have form := WordMove.rearrange_eq_onValues listed held.valued
  have lost (out : m.RunsOut s.kinds) :
      (t.shuffle op).current = none ∧ (t.shuffle op).maxStack? = none := by
    rw [WordMove.onValues_of_runsOut out] at form
    have shuffled : t.shuffle op = t.lose := by simp [shuffle, present, form]
    rw [shuffled]
    exact ⟨rfl, rfl⟩
  refine ⟨fun fits => ?_, lost, fun few => lost (WordMove.runsOut_of_few few)⟩
  obtain ⟨top, next, rest, split, count, under⟩ := fits.exists_parts
  have valued := held.valued
  rw [split] at valued form ⊢
  rw [WordMove.onValues_of_exact valued count under] at form
  have depth : s.slots - slotsOf (top ++ next) + slotsOf (m.arrange top next) =
      slotsOf (m.arrange top next ++ rest) := by
    simp only [held.depth, split, OperandStack.slotsOf_append]
    omega
  have shuffled : t.shuffle op = t.become (of (m.arrange top next ++ rest)) := by
    simp only [shuffle, present, split, form, depth]
    rfl
  rw [shuffled, WordMove.onWords_expand rest count under, StackWord.length_expand]
  exact ⟨_, rfl, rfl, rfl, rfl⟩

/-- An int on a long on a reference: its copy goes beneath the two words of the long. -/
theorem dupX2_beneath_long : ∃ s',
    ((start [.reference, .long, .int]).shuffle Opcode.dupX2).current = some s' ∧
      expand s'.kinds = [⟨.int, 0⟩, ⟨.long, 0⟩, ⟨.long, 1⟩, ⟨.int, 0⟩, ⟨.reference, 0⟩] := by
  have followed : [].foldlM StackTracker.track (start [.reference, .long, .int]) =
      .ok (start [.reference, .long, .int]) := rfl
  have fits : (WordMove.copy 1 2).Fits (expand [.int, .long, .reference]) :=
    ⟨by decide, by decide⟩
  have present : (start [.reference, .long, .int]).current =
      some ⟨[.int, .long, .reference], 4⟩ := rfl
  have listed : (Opcode.dupX2, WordMove.copy 1 2) ∈ Opcode.wordMoves := by decide
  obtain ⟨moves, -⟩ := shuffle_refines_words followed present listed
  obtain ⟨s', current, words, -⟩ := moves fits
  exact ⟨s', current, words⟩

/-- A long alone has two words, but no value is left for the copy to go beneath. -/
example : ((start [.long]).shuffle Opcode.dupX1).current = none := rfl

end StackTracker

end JvmClass
