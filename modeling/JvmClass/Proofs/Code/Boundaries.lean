import JvmClass.Proofs.Code.Labels
import JvmClass.Proofs.Code.Outline

/-!
# Where the instructions of a body start

Instructions follow one another from the start of the code exactly to its end. A body is decoded
into elements only if every offset that something refers to is one where an instruction starts or
the end, so every label is bound once, right before the instruction that it is for.
-/

namespace JvmClass

open Layout (covered)

set_option maxRecDepth 8000 in
/-- The call of a call site takes five bytes. -/
theorem Opcode.size_of_invokeDynamic (op : Opcode) :
    ∀ info ∈ op.info?, info.shape = .invokeDynamic → info.size = 5 :=
  forall_of_rows (p := fun _ info => info.shape = .invokeDynamic → info.size = 5)
    (by decide) op

namespace InputCode

variable {c : InputCode}

/-! ## Instructions -/

/-- An instruction that starts at an offset, ends inside the code and names offsets of it. -/
structure Fitting (c : InputCode) (offset : Nat) (r : Instruction × Nat) : Prop where
  forward : 0 < r.2
  inside : offset + r.2 ≤ c.codeLength
  named : ∀ l ∈ r.1.targets, c.Names c.codeLength l

variable {offset : Nat}

/-- An instruction without targets fits where it ends inside the code. -/
theorem Fitting.bare {i : Instruction} {size : Nat} (forward : 0 < size)
    (inside : offset + size ≤ c.codeLength) (none : i.targets = []) :
    c.Fitting offset (i, size) :=
  ⟨forward, inside, none ▸ List.forall_mem_nil _⟩

/-- A wide form that is read fits its offset. -/
theorem gives_readWide : Gives (c.readWide offset) (c.Fitting offset) := by
  unfold readWide
  dsimp only
  refine .guard (fun _ => trivial) fun four => gives_any.bind fun byte _ => ?_
  have four : offset + 4 ≤ c.codeLength := Nat.not_lt.mp four
  refine gives_any.bind fun slot _ =>
    .ite (fun _ => .guard (fun _ => trivial) fun six => ?_) fun _ => ?_
  · exact gives_any.bind fun delta _ => .pure (.bare (by decide) (Nat.not_lt.mp six) rfl)
  refine .ite (fun _ => .pure (.bare (by decide) four rfl)) fun _ => ?_
  refine .ite (fun _ => .pure (.bare (by decide) four rfl)) fun _ => ?_
  refine .ite (fun isRet => .pure (.bare (by decide) four (if_pos isRet))) fun _ => .throw trivial

/-- The cases of a switch by table have their targets inside the code. -/
theorem gives_readTableCases (low : Int) (p n : Nat) :
    Gives (c.readTableCases offset low p n) fun cases =>
      ∀ r ∈ cases, c.Names c.codeLength r.target :=
  .mapM fun _ _ => gives_any.bind fun _ _ => (gives_readTarget offset _).bind fun _ named =>
    .pure named

/-- The cases of a switch by search have their targets inside the code. -/
theorem gives_readLookupCases (p n : Nat) :
    Gives (c.readLookupCases offset p n) fun cases =>
      ∀ r ∈ cases, c.Names c.codeLength r.target :=
  .mapM fun _ _ => gives_any.bind fun _ _ => (gives_readTarget offset _).bind fun _ named =>
    gives_any.bind fun _ _ => .pure named

/-- A switch that is read fits its offset, whatever padding it has. -/
theorem gives_readSwitch (op : Opcode) : Gives (c.readSwitch op offset) (c.Fitting offset) := by
  unfold readSwitch
  dsimp only
  refine .guard (fun _ => trivial) fun fixed => gives_any.bind fun delta _ => ?_
  refine (gives_readTarget offset _).bind fun fallback named => .ite (fun isTable => ?_) fun _ => ?_
  · refine gives_any.bind fun low _ => gives_any.bind fun high _ => ?_
    refine .guard (fun _ => trivial) fun _ => .guard (fun _ => trivial) fun rows => ?_
    refine (gives_readTableCases low _ _).bind fun cases all => .pure ⟨?_, ?_, ?_⟩
    · exact Nat.lt_of_lt_of_le (by omega) (Nat.le_add_right _ _)
    · exact Nat.le_trans (Nat.le_of_eq (Nat.add_assoc _ _ _).symm) (Nat.not_lt.mp rows)
    · exact List.forall_mem_cons.mpr ⟨named, List.forall_mem_map.mpr all⟩
  · refine gives_any.bind fun pairs _ => ?_
    refine .guard (fun _ => trivial) fun _ => .guard (fun _ => trivial) fun rows => ?_
    refine (gives_readLookupCases _ _).bind fun cases all => .pure ⟨?_, ?_, ?_⟩
    · exact Nat.lt_of_lt_of_le (by omega) (Nat.le_add_right _ _)
    · exact Nat.le_trans (Nat.le_of_eq (Nat.add_assoc _ _ _).symm) (Nat.not_lt.mp rows)
    · exact List.forall_mem_cons.mpr ⟨named, List.forall_mem_map.mpr all⟩

/-- A constant instruction that is read fits its offset. -/
theorem gives_readConstant {op : Opcode} {info : OpcodeInfo} (p : Nat)
    (known : op.info? = some info)
    (shape : info.shape = .constant) (inside : offset + info.size ≤ c.codeLength) :
    Gives (c.readConstant op info.size p) (c.Fitting offset) := by
  have extent := op.extent_le_size info known
  simp only [Opcode.extent, shape] at extent
  unfold readConstant
  refine .ite (fun isByte => ?_) fun notByte => .ite (fun isWord => ?_) fun notWord =>
    .ite (fun loads => ?_)
    fun _ => .pure (.bare (by decide) (by grind) rfl)
  · exact gives_any.bind fun _ _ => .pure (.bare (by decide) (by grind) rfl)
  · rw [isWord] at extent
    have three : 3 ≤ info.size := extent
    exact gives_any.bind fun _ _ => .pure (.bare (by decide) (by omega) rfl)
  · refine gives_any.bind fun index _ => gives_any.bind fun e _ => ?_
    exact .guard (fun _ => trivial) fun _ => .pure (.bare (by grind) inside rfl)

/-- Every operand lies before the end of the instruction, which lies before the end of the code. -/
theorem gives_readInstruction (before : offset < c.codeLength) :
    Gives (c.readInstruction offset) (c.Fitting offset) := by
  unfold readInstruction
  dsimp only
  refine gives_any.bind fun byte _ => .ite (fun _ => gives_readWide) fun _ => ?_
  split
  · exact .throw trivial
  rename_i info known
  generalize (⟨byte.toUInt8⟩ : Opcode) = op at known ⊢
  refine .guard (fun _ => trivial) fun sized => ?_
  have extent := op.extent_le_size info known
  have inside : offset + info.size ≤ c.codeLength := by
    simp only [Bool.and_eq_true, decide_eq_true_eq] at sized
    omega
  have bare {α : Type} {x : Except Error α} {make : α → Instruction × Nat}
      (size : ∀ a, 0 < (make a).2 ∧ (make a).2 ≤ info.size) (none : ∀ a, (make a).1.targets = []) :
      Gives (x >>= fun a => pure (make a)) (c.Fitting offset) :=
    gives_any.bind fun a _ =>
      .pure ⟨(size a).1, by have := size a; omega, none a ▸ List.forall_mem_nil _⟩
  have jumping {long : Opcode} : Gives (do
        c.readTarget offset (← covered
          (if op = long then c.cursor.s4? ((c.codeStart + offset : Nat) + 1)
          else c.cursor.s2? ((c.codeStart + offset : Nat) + 1)))) fun l =>
            c.Names c.codeLength (some l) :=
    gives_any.bind fun delta _ => gives_readTarget offset delta
  cases shape : info.shape <;> simp only [Opcode.extent, shape] at extent ⊢
  case tableSwitch => exact gives_readSwitch op
  case lookupSwitch => exact gives_readSwitch op
  case constant => exact gives_readConstant _ known shape inside
  case load => exact bare (fun _ => ⟨by grind, Nat.le_refl _⟩) fun _ => rfl
  case store => exact bare (fun _ => ⟨by grind, Nat.le_refl _⟩) fun _ => rfl
  case increment =>
    exact gives_any.bind fun _ _ => bare (fun _ => ⟨Nat.succ_pos _, extent⟩) fun _ => rfl
  case branch =>
    refine jumping.bind fun target named => .pure ⟨by grind, inside, ?_⟩
    exact List.forall_mem_singleton.mpr named
  case field => exact bare (fun _ => ⟨Nat.succ_pos _, extent⟩) fun _ => rfl
  case invoke =>
    exact gives_any.bind fun _ _ => .guard (fun _ => trivial) fun _ =>
      .pure (.bare (by grind) inside rfl)
  case invokeDynamic =>
    have five := op.size_of_invokeDynamic info known shape
    exact bare (fun _ => ⟨Nat.succ_pos _, Nat.le_of_eq five.symm⟩) fun _ => rfl
  case newObject => exact bare (fun _ => ⟨Nat.succ_pos _, extent⟩) fun _ => rfl
  case newReferenceArray => exact bare (fun _ => ⟨Nat.succ_pos _, extent⟩) fun _ => rfl
  case typeCheck => exact bare (fun _ => ⟨Nat.succ_pos _, extent⟩) fun _ => rfl
  case newMultiArray =>
    exact gives_any.bind fun _ _ => bare (fun _ => ⟨Nat.succ_pos _, extent⟩) fun _ => rfl
  case newPrimitiveArray =>
    refine gives_any.bind fun code _ => ?_
    split
    · exact .pure (.bare (by decide) (by omega) rfl)
    · exact .throw trivial
  case discontinued =>
    refine .ite (fun isRet => ?_) fun notRet => ?_
    · exact gives_any.bind fun _ _ => .pure (.bare (by decide) (by grind) (if_pos isRet))
    · refine jumping.bind fun target named => .pure ⟨by grind, inside, ?_⟩
      rw [Instruction.targets, if_neg notRet]
      exact List.forall_mem_singleton.mpr named
  all_goals
    split
    · rename_i i given
      refine .pure (.bare (by decide) (by omega) ?_)
      exact List.subset_nil.mp (Instruction.labels_of_ofOpcode? given ▸ i.targets_subset)
    · exact .throw trivial

/-- Instructions that follow one another from an offset exactly to the end of the code. -/
inductive Tiles (c : InputCode) : Nat → List (Nat × Instruction) → Prop
  | done : Tiles c c.codeLength []
  | next {offset size : Nat} {i : Instruction} {rest : List (Nat × Instruction)}
    (read : c.readInstruction offset = .ok (i, size)) (forward : 0 < size)
    (others : Tiles c (offset + size) rest) : Tiles c offset ((offset, i) :: rest)

namespace Tiles

variable {instructions : List (Nat × Instruction)}

/-- Instructions that follow one another start inside the code, or at its end. -/
theorem le (tiles : c.Tiles offset instructions) : offset ≤ c.codeLength := by
  induction tiles with
  | done => exact Nat.le_refl _
  | next read forward others inductionHypothesis => omega

/-- Every one of the instructions starts inside the code, not before the first. -/
theorem bounds (tiles : c.Tiles offset instructions) :
    ∀ r ∈ instructions, offset ≤ r.1 ∧ r.1 < c.codeLength := by
  induction tiles with
  | done => exact List.forall_mem_nil _
  | next read forward others inductionHypothesis =>
      have further := others.le
      refine List.forall_mem_cons.mpr ⟨⟨Nat.le_refl _, by dsimp only; omega⟩, fun r member => ?_⟩
      have later := inductionHypothesis r member
      exact ⟨by omega, later.2⟩

/-- No two instructions start at one offset. -/
theorem increasing (tiles : c.Tiles offset instructions) :
    (instructions.map Prod.fst).Pairwise (· < ·) := by
  induction tiles with
  | done => exact .nil
  | next read forward others inductionHypothesis =>
      refine .cons (fun o member => ?_) inductionHypothesis
      obtain ⟨r, there, rfl⟩ := List.mem_map.mp member
      have later := (others.bounds r there).1
      omega

/-- The targets of the instructions lie inside the code. -/
theorem named (tiles : c.Tiles offset instructions) :
    ∀ r ∈ instructions, ∀ l ∈ r.2.targets, c.Names c.codeLength l := by
  induction tiles with
  | done => exact List.forall_mem_nil _
  | next read forward others inductionHypothesis =>
      have further := others.le
      exact List.forall_mem_cons.mpr
        ⟨((gives_readInstruction (by omega)).1 _ read).named, inductionHypothesis⟩

end Tiles

/-- The bound on the number of instructions is never reached. -/
theorem tiles_of_readInstructionsFrom {done all : List (Nat × Instruction)} {fuel : Nat}
    (before : offset ≤ c.codeLength) (enough : c.codeLength ≤ offset + fuel)
    (given : c.readInstructionsFrom done offset fuel = .ok all) :
    ∃ rest, all = done.reverse ++ rest ∧ c.Tiles offset rest := by
  induction fuel generalizing done offset with
  | zero =>
      rw [readInstructionsFrom, Except.ok.injEq] at given
      obtain rfl : offset = c.codeLength := Nat.le_antisymm before enough
      exact ⟨[], by rw [given, List.append_nil], .done⟩
  | succ fuel inductionHypothesis =>
      rw [readInstructionsFrom] at given
      by_cases ended : c.codeLength ≤ offset
      · rw [if_pos ended, Except.ok.injEq] at given
        obtain rfl : offset = c.codeLength := Nat.le_antisymm before ended
        exact ⟨[], by rw [given, List.append_nil], .done⟩
      · rw [if_neg ended] at given
        split at given
        · cases given
        · rename_i i size read
          have fitting := (gives_readInstruction (Nat.not_le.mp ended)).1 _ read
          have forward : 0 < size := fitting.forward
          obtain ⟨rest, rfl, tiles⟩ := inductionHypothesis fitting.inside (by omega) given
          exact ⟨(offset, i) :: rest, by simp, .next read forward tiles⟩

/-! ## Marks -/

/-- An offset is marked exactly if it is one of the listed ones and not past the end. -/
theorem marked_marks_iff {size : Nat} {offsets : List Nat} {o : Nat} :
    marked (marks size offsets) o = true ↔ o ≤ size ∧ o ∈ offsets := by
  have onto (m : Array Bool) : m.size = size + 1 →
      (marked (offsets.foldl (fun m o => m.setIfInBounds o true) m) o = true ↔
        marked m o = true ∨ o ≤ size ∧ o ∈ offsets) := by
    induction offsets generalizing m with
    | nil => simp
    | cons first rest inductionHypothesis =>
        intro length
        rw [List.foldl_cons, inductionHypothesis _ (by rw [Array.size_setIfInBounds, length])]
        have here : marked (m.setIfInBounds first true) o = true ↔
            marked m o = true ∨ o ≤ size ∧ o = first := by
          simp only [marked, Array.getElem?_setIfInBounds, length]
          grind
        rw [here, List.mem_cons]
        tauto
  rw [marks, onto _ (by simp)]
  have unmarked : marked (Array.replicate (size + 1) false) o = false := by
    simp only [marked, Array.getElem?_replicate]
    split <;> rfl
  rw [unmarked]
  simp

/-! ## The elements -/

/-- The label of an offset, if something refers to it. -/
def marking (c : InputCode) (labelled : Nat → Bool) (o : Nat) : List CodeElement :=
  if labelled o then [.label (some (c.label o))] else []

/-- An instruction with its label and its lines. -/
def stretch (c : InputCode) (labelled : Nat → Bool) (linesAt : Nat → List Nat)
    (r : Nat × Instruction) : List CodeElement :=
  c.marking labelled r.1 ++ (linesAt r.1).map (fun n => .line n) ++ [.instruction r.2]

end InputCode

/-- Whether an element says something about the body as a whole. -/
def CodeElement.isRow : CodeElement → Bool
  | .instruction _ | .label _ | .line _ => false
  | _ => true

namespace InputCode

variable {c : InputCode}

/-- The elements of a body: rows, its instructions with labels and lines, the label of its end, and
attributes. -/
structure Composed (c : InputCode) (labelled : Nat → Bool) (linesAt : Nat → List Nat)
    (instructions : List (Nat × Instruction)) (head tail es : List CodeElement) : Prop where
  tiles : c.Tiles 0 instructions
  elements : es = head ++ instructions.flatMap (c.stretch labelled linesAt) ++
    c.marking labelled c.codeLength ++ tail
  rows : ∀ e ∈ head ++ tail, e.isRow = true
  kept : ∀ e ∈ head ++ tail, ∀ a, e = .attribute a → c.Kept a.body
  starts : ∀ o < c.codeLength, labelled o = true → o ∈ instructions.map Prod.fst
  labels : ∀ l ∈ (head ++ tail).flatMap CodeElement.labels ++ instructions.flatMap (·.2.targets),
    ∃ n ≤ c.codeLength, labelled n = true ∧ l = some (c.label n)

/-- What stands before the instructions refers to the labels of the rows. -/
theorem labels_of_head {catches : List Catch} {nested : Nested} {e : CodeElement}
    (named : ∀ row ∈ catches, ∀ l ∈ row.labels, c.Names (c.codeLength + 1) l)
    (held : c.NamesNested nested) (member : e ∈ catches.map .handler ++ nested.scopes) :
    e.isRow = true ∧ (∀ a, e ≠ .attribute a) ∧
      ∀ l ∈ e.labels, l ∈ rowLabels catches nested ∧ c.Names (c.codeLength + 1) l := by
  rcases List.mem_append.mp member with handler | scope
  · obtain ⟨row, here, rfl⟩ := List.mem_map.mp handler
    refine ⟨rfl, nofun, fun l label => ⟨?_, named row here l label⟩⟩
    exact List.mem_append_left _ (List.mem_append_left _ (List.mem_flatMap.mpr ⟨row, here, label⟩))
  · obtain ⟨s, kind, all⟩ := held.scopes e scope
    have mem (l : Option Label) (label : l ∈ s.labels) : l ∈ rowLabels catches nested := by
      refine List.mem_append_left _ (List.mem_append_right _ (List.mem_flatMap.mpr ⟨e, scope, ?_⟩))
      rcases kind with rfl | rfl <;> exact label
    rcases kind with rfl | rfl <;> exact ⟨rfl, nofun, fun l label => ⟨mem l label, all l label⟩⟩

/-- What stands behind the instructions refers to the labels of the stack maps. -/
theorem labels_of_tail {catches : List Catch} {nested : Nested} {a : Attribute}
    (held : c.NamesNested nested) (member : a ∈ nested.frames ++ nested.others) :
    c.Kept a.body ∧
      ∀ l ∈ a.body.labels, l ∈ rowLabels catches nested ∧ c.Names (c.codeLength + 1) l := by
  rcases List.mem_append.mp member with frame | other
  · obtain ⟨frames, body, all⟩ := held.frames a frame
    have kept : c.Kept a.body := body ▸ .stackMap all
    refine ⟨kept, fun l label => ⟨?_, (kept.labels l label).mono (Nat.le_succ _)⟩⟩
    refine List.mem_append_right _ (List.mem_flatMap.mpr ⟨a, frame, ?_⟩)
    rw [body] at label ⊢
    exact label
  · obtain ⟨kept, bare⟩ := held.others a other
    exact ⟨kept, bare ▸ List.forall_mem_nil _⟩

/-- What stands around the instructions are rows that refer to their labels. -/
theorem labels_around {catches : List Catch} {nested : Nested} {frames : List Attribute}
    (named : ∀ row ∈ catches, ∀ l ∈ row.labels, c.Names (c.codeLength + 1) l)
    (held : c.NamesNested nested) (fewer : frames ⊆ nested.frames) {e : CodeElement}
    (member : e ∈ catches.map CodeElement.handler ++ nested.scopes ++
      (frames.map CodeElement.attribute ++ nested.others.map CodeElement.attribute)) :
    e.isRow = true ∧ (∀ a, e = .attribute a → c.Kept a.body) ∧
      ∀ l ∈ e.labels, l ∈ rowLabels catches nested ∧ c.Names (c.codeLength + 1) l := by
  rcases List.mem_append.mp member with before | behind
  · obtain ⟨row, other, labels⟩ := labels_of_head named held before
    exact ⟨row, fun a same => absurd same (other a), labels⟩
  · rw [← List.map_append] at behind
    obtain ⟨a, here, rfl⟩ := List.mem_map.mp behind
    have there : a ∈ nested.frames ++ nested.others :=
      (List.mem_append.mp here).elim (fun frame => List.mem_append_left _ (fewer frame))
        (List.mem_append_right _)
    obtain ⟨kept, labels⟩ := @labels_of_tail c catches _ _ held there
    exact ⟨rfl, by rintro _ ⟨⟩; exact kept, labels⟩

/-- Whether something in a body refers to an offset. -/
def labelled (c : InputCode) (catches : List Catch) (nested : Nested)
    (instructions : List (Nat × Instruction)) : Nat → Bool :=
  marked (marks c.codeLength ((rowLabels catches nested ++
    instructions.flatMap fun r => r.2.labels).filterMap fun l => l.bind Label.offset?))

/-- An offset is labelled exactly if it is not past the end and a row or an instruction has a label
for it. -/
theorem labelled_iff {catches : List Catch} {nested : Nested}
    {instructions : List (Nat × Instruction)}
    {o : Nat} : c.labelled catches nested instructions o = true ↔ o ≤ c.codeLength ∧
      ∃ l ∈ rowLabels catches nested ++ instructions.flatMap fun r => r.2.labels,
        l.bind Label.offset? = some o := by
  rw [labelled, marked_marks_iff, List.mem_filterMap]

/-- What a body is composed of whose parts have been decoded. -/
theorem composed_of_parts {catches : List Catch} {nested : Nested} {frames : List Attribute}
    {instructions : List (Nat × Instruction)} (linesAt : Nat → List Nat)
    (named : ∀ row ∈ catches, ∀ l ∈ row.labels, c.Names (c.codeLength + 1) l)
    (held : c.NamesNested nested) (fewer : frames ⊆ nested.frames) (tiles : c.Tiles 0 instructions)
    (starts : ∀ o < c.codeLength, c.labelled catches nested instructions o = true →
      o ∈ instructions.map Prod.fst) :
    c.Composed (c.labelled catches nested instructions) linesAt instructions
      (catches.map .handler ++ nested.scopes)
      (frames.map .attribute ++ nested.others.map .attribute)
      (catches.map .handler ++ nested.scopes ++
        instructions.flatMap (c.stretch (c.labelled catches nested instructions) linesAt) ++
        c.marking (c.labelled catches nested instructions) c.codeLength ++
        (frames.map .attribute ++ nested.others.map .attribute)) := by
  have around := fun e => @labels_around c _ _ _ named held fewer e
  have target {l : Option Label} (names : c.Names (c.codeLength + 1) l)
      (member : l ∈ rowLabels catches nested ++ instructions.flatMap fun r => r.2.labels) :
      ∃ n ≤ c.codeLength, c.labelled catches nested instructions n = true ∧
      l = some (c.label n) := by
    obtain ⟨n, before, rfl⟩ := names
    have inside := Nat.le_of_lt_succ before
    exact ⟨n, inside, labelled_iff.mpr ⟨inside, _, member, rfl⟩, rfl⟩
  refine ⟨tiles, rfl, fun e member => (around e member).1, fun e member => (around e member).2.1,
    starts, ?_⟩
  refine List.forall_mem_append.mpr ⟨fun l member => ?_, fun l member => ?_⟩
  · obtain ⟨e, here, label⟩ := List.mem_flatMap.mp member
    obtain ⟨there, names⟩ := (around e here).2.2 l label
    exact target names (List.mem_append_left _ there)
  · obtain ⟨r, here, label⟩ := List.mem_flatMap.mp member
    refine target ((tiles.named r here l label).mono (Nat.le_succ _)) ?_
    exact List.mem_append_right _ (List.mem_flatMap.mpr ⟨r, here, r.2.targets_subset label⟩)

/-- What a body is composed of that is decoded. -/
theorem composed_of_elements {es : List CodeElement} (given : c.elements = .ok es) :
    ∃ labelled linesAt instructions head tail,
      c.Composed labelled linesAt instructions head tail es := by
  unfold elements at given
  simp only [bind_eq_ok_iff] at given
  obtain ⟨rows, -, catches, read, size, -, nested, nestedRead, instructions, instructionsRead,
      rest⟩ := given
  split at rest
  · cases rest
  rename_i noTarget
  split at rest
  · cases rest
  obtain rfl := pure_eq_ok_iff.mp rest
  obtain ⟨tiled, same, tiles⟩ :=
    tiles_of_readInstructionsFrom (Nat.zero_le _) (by omega) instructionsRead
  obtain rfl : instructions = tiled := same
  have named := (Yields.mapM fun n _ => gives_readCatch n).1 _ read
  have held := (gives_readNestedFrom .empty _ _).1 _ nestedRead
  obtain ⟨frames, fewer, framesSame⟩ : ∃ frames ⊆ nested.frames,
      (if c.input.options.has .dropStackMaps then [] else nested.frames.map CodeElement.attribute) =
        frames.map CodeElement.attribute := by
    split
    · exact ⟨[], List.nil_subset _, rfl⟩
    · exact ⟨_, List.Subset.refl _, rfl⟩
  have starts : ∀ o < c.codeLength, c.labelled catches nested instructions o = true →
      o ∈ instructions.map Prod.fst := by
    intro o before labelled
    have absent := List.find?_eq_none.mp (Option.eq_none_iff_forall_ne_some.mpr noTarget) o
      (List.mem_range.mpr before)
    rw [InputCode.labelled] at labelled
    simp only [labelled, Bool.true_and, Bool.not_eq_true, Bool.not_eq_false'] at absent
    exact (marked_marks_iff.mp absent).2
  have composed := composed_of_parts
    (fun o => (linesByOffset c.codeLength nested.lines)[o]?.getD [])
    named held fewer tiles starts
  rw [← List.append_assoc, ← framesSame] at composed
  exact ⟨_, _, _, _, _, composed⟩

end InputCode

end JvmClass
