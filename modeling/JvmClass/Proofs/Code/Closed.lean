import JvmClass.Proofs.Code.Boundaries

/-!
# Every label of a decoded body is bound once
-/

namespace JvmClass

namespace CodeElement

/-- A row is no instruction. -/
theorem instruction?_of_isRow {e : CodeElement} (row : e.isRow = true) : e.instruction? = none := by
  cases e <;> first | rfl | cases row

/-- A row binds no label. -/
theorem binding?_of_isRow {e : CodeElement} (row : e.isRow = true) : e.binding? = none := by
  cases e <;> first | rfl | cases row

/-- Rows hold no instructions. -/
theorem instructions_of_rows {es : List CodeElement} (rows : ∀ e ∈ es, e.isRow = true) :
    es.filterMap instruction? = [] :=
  List.filterMap_eq_nil_iff.mpr fun e member => instruction?_of_isRow (rows e member)

end CodeElement

/-- Every label is bound by one element, and every element that binds a label has one. -/
structure BoundOnce (es : List CodeElement) : Prop where
  named : .label none ∉ es
  once : (es.filterMap CodeElement.binding?).Nodup

namespace BoundOnce

variable {es : List CodeElement} {e : CodeElement}

/-- An element after others has a label if it binds one, and it is not among those before. -/
theorem of_append {rest : List CodeElement} (bound : BoundOnce (es ++ e :: rest)) :
    e ≠ .label none ∧ ∀ l, e = .label (some l) → e ∉ es := by
  refine ⟨fun same => bound.named ?_, ?_⟩
  · exact List.mem_append_right _ (same ▸ List.mem_cons_self)
  · rintro l rfl member
    have once := bound.once
    rw [List.filterMap_append, List.nodup_append] at once
    exact once.2.2 l (List.mem_filterMap.mpr ⟨_, member, rfl⟩) l
      (List.mem_filterMap.mpr ⟨_, List.mem_cons_self, rfl⟩) rfl

end BoundOnce

namespace InputCode

variable {c : InputCode} {labelled : Nat → Bool} {linesAt : Nat → List Nat}
  {instructions : List (Nat × Instruction)} {head tail es : List CodeElement}

/-- A label in place is no instruction. -/
theorem instructions_of_marking (o : Nat) :
    (c.marking labelled o).filterMap CodeElement.instruction? = [] := by
  rw [marking]
  split <;> rfl

/-- The instructions with their labels and lines hold these instructions. -/
theorem instructions_of_stretches :
    (instructions.flatMap (c.stretch labelled linesAt)).filterMap CodeElement.instruction? =
      instructions.map Prod.snd := by
  have lines (ns : List Nat) :
      (ns.map fun n : Nat => CodeElement.line n).filterMap CodeElement.instruction? = [] := by
    rw [List.filterMap_map]
    exact List.filterMap_eq_nil_iff.mpr fun _ _ => rfl
  rw [List.filterMap_flatMap, List.map_eq_flatMap]
  congr 1
  funext r
  rw [stretch, List.filterMap_append, List.filterMap_append, instructions_of_marking, lines]
  rfl

/-- An instruction stands behind no label but its own. -/
theorem binding_of_stretch {r : Nat × Instruction} {e : CodeElement} {n : Nat}
    (member : e ∈ c.stretch labelled linesAt r) (bound : e.binding? = some (c.label n)) :
    r.1 = n := by
  simp only [stretch, marking, List.mem_append, List.mem_map, List.mem_singleton] at member
  rcases member with (member | ⟨line, -, rfl⟩) | rfl
  · split at member
    · obtain rfl := List.mem_singleton.mp member
      exact label_injective (Option.some.inj bound)
    · cases member
  · cases bound
  · cases bound

/-- A label in place is one for its own offset. -/
theorem binding_of_marking {o n : Nat} {e : CodeElement} (member : e ∈ c.marking labelled o)
    (bound : e.binding? = some (c.label n)) : o = n := by
  rw [marking] at member
  split at member
  · obtain rfl := List.mem_singleton.mp member
    exact label_injective (Option.some.inj bound)
  · cases member

/-- An instruction stands with nothing that refers to labels of its own. -/
theorem labels_of_stretch {r : Nat × Instruction} {e : CodeElement}
    (member : e ∈ c.stretch labelled linesAt r) : e.labels ⊆ r.2.targets := by
  simp only [stretch, marking, List.append_assoc, List.mem_append, List.mem_map,
    List.mem_singleton] at member
  rcases member with member | ⟨n, -, rfl⟩ | rfl
  · split at member
    · obtain rfl := List.mem_singleton.mp member
      exact List.nil_subset _
    · cases member
  · exact List.nil_subset _
  · exact List.Subset.refl _

/-- A label is bound once, between `front` and `back`: before the instruction at its offset with
only line numbers in between, or after all of them. -/
structure Binds (c : InputCode) (instructions : List (Nat × Instruction)) (es : List CodeElement)
    (n : Nat) (front back : List CodeElement) : Prop where
  split : es = front ++ .label (some (c.label n)) :: back
  once : ∀ e ∈ front ++ back, e.binding? ≠ some (c.label n)
  before : n < c.codeLength → ∃ (lines : List Int) (i : Instruction) (rest : List CodeElement),
    back = lines.map .line ++ .instruction i :: rest ∧
      instructions[instructionCount front]? = some (n, i)
  after : n = c.codeLength → instructionCount back = 0

namespace Composed

variable (composed : c.Composed labelled linesAt instructions head tail es)
include composed

/-- The instructions of a composed body are those that were put there. -/
theorem instructions_eq : es.filterMap CodeElement.instruction? = instructions.map Prod.snd := by
  have rows := List.forall_mem_append.mp composed.rows
  rw [composed.elements, List.filterMap_append, List.filterMap_append, List.filterMap_append,
    CodeElement.instructions_of_rows rows.1, CodeElement.instructions_of_rows rows.2,
    instructions_of_stretches, instructions_of_marking]
  simp

/-- An element of a composed body is a row, belongs to the stretch of an instruction, or is the
label of the end. -/
theorem mem_iff {e : CodeElement} : e ∈ es ↔ e ∈ head ++ tail ∨
    (∃ r ∈ instructions, e ∈ c.stretch labelled linesAt r) ∨
      e ∈ c.marking labelled c.codeLength := by
  rw [composed.elements]
  simp only [List.mem_append, List.mem_flatMap]
  grind

/-- Every label that an element refers to is one that is marked. -/
theorem named : ∀ e ∈ es, ∀ l ∈ e.labels,
    ∃ n ≤ c.codeLength, labelled n = true ∧ l = some (c.label n) := by
  intro e member l label
  refine composed.labels l ?_
  rcases composed.mem_iff.mp member with row | ⟨r, here, stretch⟩ | marking
  · exact List.mem_append_left _ (List.mem_flatMap.mpr ⟨e, row, label⟩)
  · exact List.mem_append_right _ (List.mem_flatMap.mpr ⟨r, here, labels_of_stretch stretch label⟩)
  · rw [InputCode.marking] at marking
    split at marking
    · obtain rfl := List.mem_singleton.mp marking
      cases label
    · cases marking

/-- The attributes among the elements mean something in a body, or nothing anywhere. -/
theorem kept_of_mem : ∀ e ∈ es, ∀ a, e = .attribute a → c.Kept a.body := by
  rintro e member a rfl
  rcases composed.mem_iff.mp member with row | ⟨r, here, stretch⟩ | marking
  · exact composed.kept _ row a rfl
  · simp [InputCode.stretch, InputCode.marking] at stretch
  · simp [InputCode.marking] at marking

/-- The label of an offset before the end is bound before the instruction that starts there. -/
theorem binds_inside {n : Nat} (before : n < c.codeLength) (marked : labelled n = true) :
    ∃ front back, c.Binds instructions es n front back := by
  obtain ⟨⟨o, i⟩, member, rfl⟩ := List.mem_map.mp (composed.starts n before marked)
  obtain ⟨first, second, split⟩ := List.append_of_mem member
  have increasing := composed.tiles.increasing
  rw [split, List.map_append, List.map_cons, List.pairwise_append, List.pairwise_cons] at increasing
  obtain ⟨-, ⟨later, -⟩, earlier⟩ := increasing
  have rows := List.forall_mem_append.mp composed.rows
  refine ⟨head ++ first.flatMap (c.stretch labelled linesAt),
    (linesAt o).map (fun n => .line n) ++ .instruction i ::
      (second.flatMap (c.stretch labelled linesAt) ++ c.marking labelled c.codeLength ++ tail),
    ?_, ?_, fun _ => ?_, fun ends => absurd ends (Nat.ne_of_lt before)⟩
  · rw [composed.elements, split]
    simp [InputCode.stretch, InputCode.marking, marked]
  · intro e there bound
    simp only [List.mem_append, List.mem_cons, List.mem_flatMap, List.mem_map] at there
    rcases there with (row | ⟨r, here, stretch⟩) | ⟨line, -, rfl⟩ | rfl |
      ((⟨r, here, stretch⟩ | ends) | row)
    · simp [CodeElement.binding?_of_isRow (rows.1 e row)] at bound
    · have smaller := earlier r.1 (List.mem_map_of_mem here) o List.mem_cons_self
      exact absurd (binding_of_stretch stretch bound) (Nat.ne_of_lt smaller)
    · cases bound
    · cases bound
    · have greater := later r.1 (List.mem_map_of_mem here)
      exact absurd (binding_of_stretch stretch bound) (Nat.ne_of_gt greater)
    · exact absurd (binding_of_marking ends bound) (Nat.ne_of_gt before)
    · simp [CodeElement.binding?_of_isRow (rows.2 e row)] at bound
  · refine ⟨(linesAt o).map Int.ofNat, i, _, by rw [List.map_map]; rfl, ?_⟩
    rw [instructionCount, List.filterMap_append, CodeElement.instructions_of_rows rows.1,
      instructions_of_stretches, split]
    simp

/-- The label of the end is bound after all instructions. -/
theorem binds_end (marked : labelled c.codeLength = true) :
    ∃ front back, c.Binds instructions es c.codeLength front back := by
  have rows := List.forall_mem_append.mp composed.rows
  refine ⟨head ++ instructions.flatMap (c.stretch labelled linesAt), tail, ?_, ?_,
    fun before => absurd before (Nat.lt_irrefl _), fun _ => ?_⟩
  · rw [composed.elements, marking, if_pos marked, List.append_assoc, List.singleton_append]
  · intro e there bound
    rcases List.mem_append.mp there with there | row
    rcases List.mem_append.mp there with row | there
    · simp [CodeElement.binding?_of_isRow (rows.1 e row)] at bound
    · obtain ⟨r, here, stretch⟩ := List.mem_flatMap.mp there
      exact absurd (binding_of_stretch stretch bound)
        (Nat.ne_of_lt (composed.tiles.bounds r here).2)
    · simp [CodeElement.binding?_of_isRow (rows.2 e row)] at bound
  · rw [instructionCount, CodeElement.instructions_of_rows rows.2]
    rfl

/-- The labels that are bound are those of the marked offsets, in order. -/
theorem bindings_eq : es.filterMap CodeElement.binding? =
    ((instructions.map Prod.fst ++ [c.codeLength]).filter labelled).map c.label := by
  have rows := List.forall_mem_append.mp composed.rows
  have unbound {es : List CodeElement} (rows : ∀ e ∈ es, e.isRow = true) :
      es.filterMap CodeElement.binding? = [] :=
    List.filterMap_eq_nil_iff.mpr fun e member => CodeElement.binding?_of_isRow (rows e member)
  have marking (o : Nat) : (c.marking labelled o).filterMap CodeElement.binding? =
      ([o].filter labelled).map c.label := by
    rw [InputCode.marking]
    split <;> rename_i marked <;> simp [marked, CodeElement.binding?]
  have stretches (rs : List (Nat × Instruction)) :
      (rs.flatMap (c.stretch labelled linesAt)).filterMap CodeElement.binding? =
        ((rs.map Prod.fst).filter labelled).map c.label := by
    induction rs with
    | nil => rfl
    | cons r rest inductionHypothesis =>
        have lines : ((linesAt r.1).map fun n : Nat => CodeElement.line n).filterMap
            CodeElement.binding? = [] := by
          rw [List.filterMap_map]
          exact List.filterMap_eq_nil_iff.mpr fun _ _ => rfl
        rw [List.flatMap_cons, List.filterMap_append, inductionHypothesis, InputCode.stretch,
          List.filterMap_append, List.filterMap_append, lines, marking, List.map_cons,
          ← List.singleton_append (l := rest.map Prod.fst), List.filter_append, List.map_append]
        simp [CodeElement.binding?]
  rw [composed.elements, List.filterMap_append, List.filterMap_append, List.filterMap_append,
    unbound rows.1, unbound rows.2, stretches, marking, List.filter_append, List.map_append]
  simp

/-- Every label of a composed body is bound once. -/
theorem boundOnce : BoundOnce es where
  named member := by
    rcases composed.mem_iff.mp member with row | ⟨r, here, stretch⟩ | marking
    · exact absurd (composed.rows _ row) nofun
    · simp [InputCode.stretch, InputCode.marking] at stretch
    · simp [InputCode.marking] at marking
  once := by
    have offsets : (instructions.map Prod.fst ++ [c.codeLength]).Pairwise (· < ·) := by
      refine List.pairwise_append.mpr ⟨composed.tiles.increasing, List.pairwise_singleton _ _, ?_⟩
      intro o member last same
      obtain ⟨r, here, rfl⟩ := List.mem_map.mp member
      exact List.mem_singleton.mp same ▸ (composed.tiles.bounds r here).2
    rw [composed.bindings_eq]
    have apart : ((instructions.map Prod.fst ++ [c.codeLength]).filter labelled).Nodup :=
      (offsets.imp Nat.ne_of_lt).filter labelled
    exact apart.map fun _ _ => label_injective

/-- The label of a labelled offset is bound before the instruction there, or at the end. -/
theorem binds {n : Nat} (inside : n ≤ c.codeLength) (marked : labelled n = true) :
    ∃ front back, c.Binds instructions es n front back := by
  rcases Nat.lt_or_eq_of_le inside with before | rfl
  · exact composed.binds_inside before marked
  · exact composed.binds_end marked

end Composed

end InputCode

end JvmClass
