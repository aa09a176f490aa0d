import JvmClass.Proofs.Code.Rereading

/-!
# A body that is read again says what was written

Labels of a decoded body stand for offsets, and labels of the elements that were written for
positions among the instructions. Both name the same places.
-/

namespace JvmClass

open BodyWriter (Recorded)
open Cell (ahead)
open CodeElement (instructions place position? WellPlaced)

variable {p q : PoolBuilder} {options : Options} {es : List CodeElement} {chunks : List (List Cell)}
  {w : BodyWriter}

/-! ## What was recorded -/

namespace BodyWriter.Recorded

variable (recorded : Recorded p es chunks w) (becomes : p.Becomes q)
include recorded

/-- A label stands at an offset exactly if it is bound after the instructions that take so many
bytes. -/
theorem stands_eq_some_iff {l : Label} {n : Nat} :
    w.stands l = some n ↔ ∃ k, position? es l = some k ∧ ahead chunks k = n := by
  rw [recorded.bound, Option.map_eq_some_iff]

/-- A label has at most as many instructions before it as there are. -/
theorem position?_le {l : Label} {k : Nat} (found : position? es l = some k) : k ≤ chunks.length :=
  recorded.count ▸ CodeElement.position?_le found

include becomes in
/-- A label stands at most at the end of the code. -/
theorem stands_le {l : Label} {n : Nat} (there : w.stands l = some n) : n ≤ w.size := by
  obtain ⟨k, found, rfl⟩ := recorded.stands_eq_some_iff.mp there
  rcases Nat.lt_or_eq_of_le (CodeElement.position?_le found) with before | rfl
  · exact Nat.le_of_lt (recorded.ahead_count ▸
      (recorded.encoded q becomes).ahead_lt before (Nat.le_of_eq recorded.count.symm))
  · exact Nat.le_of_eq recorded.ahead_count

include becomes in
/-- What stands before an instruction stands before the end of the code. -/
theorem ahead_lt_size {k : Nat} (before : k < instructionCount es) : ahead chunks k < w.size :=
  recorded.ahead_count ▸ (recorded.encoded q becomes).ahead_lt before
    (Nat.le_of_eq recorded.count.symm)

include becomes in
/-- Labels that stand at one offset have one place. -/
theorem place_eq_of_stands {a b : Option Label} (same : a.bind w.stands = b.bind w.stands) :
    a.bind (place es) = b.bind (place es) := by
  have stands (l : Option Label) :
      l.bind w.stands = (l.bind (position? es)).map (ahead chunks) := by
    cases l with
    | none => rfl
    | some l => exact recorded.bound l
  have places (l : Option Label) : l.bind (place es) = (l.bind (position? es)).map .fresh := by
    cases l <;> rfl
  have inside {l : Option Label} {k : Nat} (found : l.bind (position? es) = some k) :
      k ≤ chunks.length := by
    obtain ⟨l, rfl, found⟩ := Option.bind_eq_some_iff.mp found
    exact recorded.position?_le found
  rw [stands, stands] at same
  rw [places, places]
  cases first : a.bind (position? es) <;> cases second : b.bind (position? es) <;>
    rw [first, second] at same
  case none.some | some.none => cases same
  case some.some j k =>
    rw [(recorded.encoded q becomes).ahead_inj (inside first) (inside second)
      (Option.some.inj same)]

include becomes in
/-- Frames that are for later instructions have greater numbers. -/
theorem number_lt {f g : StackMapFrame} (before : f.Precedes w.stands g) :
    (f.relabel (place es)).number < (g.relabel (place es)).number := by
  have numbered {f : StackMapFrame} {n : Nat} (there : f.target.bind w.stands = some n) :
      ∃ k ≤ chunks.length, (f.relabel (place es)).number = k ∧ ahead chunks k = n := by
    obtain ⟨l, target, there⟩ := Option.bind_eq_some_iff.mp there
    obtain ⟨k, found, same⟩ := recorded.stands_eq_some_iff.mp there
    refine ⟨k, recorded.position?_le found, ?_, same⟩
    rw [StackMapFrame.number, StackMapFrame.relabel, target, Option.bind_some, place, found]
    rfl
  obtain ⟨m, n, earlier, later, before⟩ := before
  obtain ⟨j, inside, first, rfl⟩ := numbered earlier
  obtain ⟨k, -, second, rfl⟩ := numbered later
  rw [first, second]
  refine Nat.lt_of_not_le fun after => ?_
  rcases Nat.lt_or_eq_of_le after with after | rfl
  · exact Nat.lt_asymm before ((recorded.encoded q becomes).ahead_lt after inside)
  · exact Nat.lt_irrefl _ before

include becomes in
/-- Tables that were recorded from elements in which everything is in place can be written. -/
theorem fits (fits : ∀ e ∈ es, e.Fits) (placed : WellPlaced es) (short : w.size ≤ maxSize)
    (trusts : ∀ a, .attribute a ∈ es → Emit.Trusts p options a)
    (accepted : ∀ e ∈ es, ∀ m ∈ e.mentions, m.Accepted p) : w.Fits p options w.size := by
  have inside {e : CodeElement} (member : e ∈ es) {l : Option Label} (inner : l ∈ e.inner) {n : Nat}
      (there : l.bind w.stands = some n) : n < w.size := by
    obtain ⟨l, rfl, there⟩ := Option.bind_eq_some_iff.mp there
    obtain ⟨k, found, rfl⟩ := recorded.stands_eq_some_iff.mp there
    exact recorded.ahead_lt_size becomes (placed.inside e member l inner k found)
  have within {l : Option Label} {n : Nat} (there : l.bind w.stands = some n) : n ≤ w.size := by
    obtain ⟨l, rfl, there⟩ := Option.bind_eq_some_iff.mp there
    exact recorded.stands_le becomes there
  have handler {row : Catch} (member : row ∈ w.catches.toList) : CodeElement.handler row ∈ es := by
    rw [recorded.catches] at member
    obtain ⟨e, here, same⟩ := List.mem_filterMap.mp member
    cases e <;> cases same
    exact here
  have scope {s : LocalScope} (member : s ∈ w.scopes.toList) :
      CodeElement.localVariable s ∈ es := by
    rw [recorded.scopes] at member
    obtain ⟨e, here, same⟩ := List.mem_filterMap.mp member
    cases e <;> cases same
    exact here
  have typeScope {s : LocalScope} (member : s ∈ w.typeScopes.toList) :
      CodeElement.localVariableType s ∈ es := by
    rw [recorded.typeScopes] at member
    obtain ⟨e, here, same⟩ := List.mem_filterMap.mp member
    cases e <;> cases same
    exact here
  have held {a : Attribute} (member : a ∈ w.attributes.toList) : CodeElement.attribute a ∈ es := by
    rw [recorded.attributes] at member
    obtain ⟨e, here, same⟩ := List.mem_filterMap.mp member
    cases e <;> cases same
    exact here
  refine ⟨short, fun row member => ?_, fun row member => ?_, fun s member => ?_, fun s member => ?_,
    fun a member => fits _ (held member), fun a member l label n there => ?_,
    fun a member => trusts a (held member), ?_⟩
  · exact ⟨fun n there => within there,
      fun n there => inside (handler member) (List.mem_singleton_self _) there,
      fun same => placed.covering row (handler member) (recorded.place_eq_of_stands becomes same)⟩
  · rw [recorded.lines] at member
    obtain ⟨row, listed, rfl⟩ := List.mem_map.mp member
    refine ⟨recorded.ahead_lt_size becomes (placed.lined row listed), ?_⟩
    obtain ⟨⟨k, e⟩, numbered, line⟩ := List.mem_filterMap.mp listed
    have here := fits e (CodeElement.mem_of_numbered numbered)
    cases e <;> cases line
    exact here
  · exact ⟨fun n there => within there, fits _ (scope member)⟩
  · exact ⟨fun n there => within there, fits _ (typeScope member)⟩
  · refine inside (held member) ?_ there
    rw [CodeElement.inner]
    revert label
    cases a.body <;> exact id
  · simp only [mentions, List.forall_mem_append, List.forall_mem_flatMap]
    exact ⟨⟨⟨fun row member => accepted _ (handler member),
      fun s member => accepted _ (scope member)⟩,
      fun s member => accepted _ (typeScope member)⟩, fun a member => accepted _ (held member)⟩

end BodyWriter.Recorded

/-! ## Labels -/

/-- The labels that a body with some instructions refers to. -/
def BodyWriter.used (w : BodyWriter) (is : List Instruction) : List (Option Label) :=
  w.catches.toList.flatMap Catch.labels ++
    (w.scopes.toList.flatMap LocalScope.labels ++ w.typeScopes.toList.flatMap LocalScope.labels) ++
    w.attributes.toList.flatMap (·.body.labels) ++ is.flatMap Instruction.labels

namespace InputCode

variable {c : InputCode} {catches : List Catch} {nested : Nested} {is : List Instruction}
  {rows : List (Nat × Instruction)}

/-- The labels of rows, from what the nested attributes hold. -/
theorem rowLabels_of_answers {scopes types : List LocalScope} {as : List Attribute}
    (ranges : nested.scopes = scopes.map .localVariable ++ types.map .localVariableType)
    (framed : nested.frames = as.filter (CodeOutline.isStackMap ·.body)) :
    rowLabels catches nested = catches.flatMap Catch.labels ++
      (scopes.flatMap LocalScope.labels ++ types.flatMap LocalScope.labels) ++
      as.flatMap (·.body.labels) := by
  have frames (as : List Attribute) :
      (as.filter (CodeOutline.isStackMap ·.body)).flatMap (·.body.labels) =
      as.flatMap (·.body.labels) := by
    induction as with
    | nil => rfl
    | cons a rest inductionHypothesis =>
        rw [List.filter_cons, List.flatMap_cons, ← inductionHypothesis]
        cases isMap : CodeOutline.isStackMap a.body with
        | true => rfl
        | false => rw [AttributeBody.labels_of_plain isMap, List.nil_append]; rfl
  rw [rowLabels, ranges, framed, List.flatMap_append, List.flatMap_map, List.flatMap_map, ← frames]
  rfl

/-- The decoded body has a label for every offset at which a label stands that is used. -/
theorem covers (caught : List.Forall₂ (Catch.Restates w.stands c) w.catches.toList catches)
    (answers : nested.Answers w c)
    (all : List.Forall₂ (fun i row => i.Restates w.stands c row.2) is rows) :
    Covers w.stands c (w.used is) (rowLabels catches nested ++ rows.flatMap (·.2.labels)) := by
  obtain ⟨-, ⟨scopes, types, ranges, local_, generic⟩, as, framed, -, held⟩ := answers
  rw [rowLabels_of_answers ranges framed]
  exact (((Covers.flatMap caught fun _ _ => Catch.Restates.covers).append
    ((Covers.flatMap local_ fun _ _ => LocalScope.Restates.covers).append
      (Covers.flatMap generic fun _ _ => LocalScope.Restates.covers))).append
    (Covers.flatMap held fun _ _ => AttributeBody.Restates.covers)).append
    (Covers.flatMap all fun _ _ => Instruction.Restates.covers)

/-- An offset is marked if a label stands there that is used. -/
theorem labelled_iff_of_covers {used : List (Option Label)} {stands : Label → Option Nat}
    (covers : Covers stands c used (rowLabels catches nested ++ rows.flatMap (·.2.labels)))
    {o : Nat} (inside : o ≤ c.codeLength) :
    c.labelled catches nested rows o = true ↔ ∃ l, some l ∈ used ∧ stands l = some o := by
  rw [labelled_iff]
  constructor
  · rintro ⟨-, l, member, at_⟩
    obtain ⟨l, rfl, at_⟩ := Option.bind_eq_some_iff.mp at_
    obtain ⟨l', n, here, there, rfl⟩ := covers.only l member
    obtain rfl : n = o := Option.some.inj at_
    exact ⟨l', here, there⟩
  · rintro ⟨l, member, there⟩
    exact ⟨inside, _, covers.named l member o there, rfl⟩

/-! ## Places -/

section

variable {labelled : Nat → Bool} {linesAt : Nat → List Nat} {head tail es' : List CodeElement}
  (composed : c.Composed labelled linesAt rows head tail es') (recorded : Recorded p es chunks w)
  (becomes : p.Becomes q) (starts : rows.map Prod.fst = Cell.starts 0 chunks)
  (length : c.codeLength = w.size)

include starts in
/-- The instruction of a number starts behind the ones before it. -/
theorem getElem?_of_starts {k n : Nat} {i : Instruction} (there : rows[k]? = some (n, i)) :
    k < chunks.length ∧ n = ahead chunks k := by
  have listed : (rows.map Prod.fst)[k]? = some n := by rw [List.getElem?_map, there]; rfl
  rw [starts, Cell.starts_eq, List.getElem?_map, Option.map_eq_some_iff] at listed
  obtain ⟨j, here, same⟩ := listed
  obtain ⟨inside, rfl⟩ := List.getElem?_eq_some_iff.mp here
  rw [List.getElem_range, Nat.zero_add] at same
  exact ⟨by rwa [List.length_range] at inside, same.symm⟩

include composed recorded becomes starts length in
/-- The label of an offset stands where the label stands that was written. -/
theorem place_label {l : Label} {n : Nat} (there : w.stands l = some n)
    (marked : labelled n = true) :
    place es' (c.label n) = place es l := by
  have encoded := recorded.encoded q becomes
  obtain ⟨k, found, rfl⟩ := recorded.stands_eq_some_iff.mp there
  have known := recorded.position?_le found
  obtain ⟨front, back, bound⟩ := composed.binds (length ▸ recorded.stands_le becomes there) marked
  have once : ∀ e ∈ front, e.binding? ≠ some (c.label (ahead chunks k)) := fun e member =>
    bound.once e (List.mem_append_left _ member)
  rw [place, place, CodeElement.position?_of_split bound.split once, found]
  suffices instructionCount front = k by rw [this]
  rcases Nat.lt_or_eq_of_le (length ▸ recorded.stands_le becomes there) with before | ends
  · obtain ⟨-, i, -, -, here⟩ := bound.before before
    obtain ⟨inside, same⟩ := getElem?_of_starts starts here
    exact (encoded.ahead_inj known (Nat.le_of_lt inside) same).symm
  · have none := bound.after ends
    have whole : instructionCount es' = instructionCount front + instructionCount back := by
      rw [bound.split, instructionCount_append]
      rfl
    have total : instructionCount es' = chunks.length := by
      rw [instructionCount, composed.instructions_eq, List.length_map, ← List.length_map Prod.fst,
        starts, Cell.starts_eq, List.length_map, List.length_range]
    have last : ahead chunks chunks.length = ahead chunks k := by
      rw [ends, length, recorded.count, recorded.ahead_count]
    have same := encoded.ahead_inj (Nat.le_refl _) known last
    omega

end

end InputCode

/-! ## Lines -/

section

variable {α : Type} {table : List (Nat × α)}

/-- A table in the order of its keys is that of the smaller keys and then that of the others. -/
theorem filter_append_filter (sorted : table.Pairwise fun a b => a.1 ≤ b.1) (n : Nat) :
    table.filter (·.1 < n) ++ table.filter (n ≤ ·.1) = table := by
  induction table with
  | nil => rfl
  | cons row rest inductionHypothesis =>
      obtain ⟨first, sorted⟩ := List.pairwise_cons.mp sorted
      by_cases small : row.1 < n
      · rw [List.filter_cons, List.filter_cons, decide_eq_true small,
          decide_eq_false (Nat.not_le.mpr small), if_pos rfl, if_neg Bool.false_ne_true,
          List.cons_append, inductionHypothesis sorted]
      · have beyond : ∀ later ∈ row :: rest, n ≤ later.1 := List.forall_mem_cons.mpr
          ⟨Nat.not_lt.mp small,
            fun later member => Nat.le_trans (Nat.not_lt.mp small) (first later member)⟩
        rw [List.filter_eq_nil_iff.mpr fun later member => by simpa using beyond later member,
          List.filter_eq_self.mpr fun later member => decide_eq_true (beyond later member),
          List.nil_append]

/-- A table in the order of its keys is what stands under one key after another. -/
theorem flatMap_filter_range (sorted : table.Pairwise fun a b => a.1 ≤ b.1) (n : Nat) :
    (List.range n).flatMap (fun k => table.filter (·.1 = k)) = table.filter (·.1 < n) := by
  induction n with
  | zero => simp
  | succ n inductionHypothesis =>
      have split := filter_append_filter (sorted.filter (·.1 < n + 1)) n
      rw [List.filter_filter, List.filter_filter] at split
      rw [List.range_succ, List.flatMap_append, inductionHypothesis, List.flatMap_singleton,
        ← split]
      congr 1 <;> refine List.filter_congr fun row _ => ?_
      · rw [Bool.eq_iff_iff]
        simp only [Bool.and_eq_true, decide_eq_true_eq]
        omega
      · rw [Bool.eq_iff_iff]
        simp only [Bool.and_eq_true, decide_eq_true_eq]
        omega

end

namespace CodeElement

/-- Elements stand in the order of the instructions. -/
theorem pairwise_numbered (n : Nat) (es : List CodeElement) :
    (numbered n es).Pairwise fun a b => a.1 ≤ b.1 := by
  induction es generalizing n with
  | nil => exact .nil
  | cons e rest inductionHypothesis =>
      refine .cons (fun row member => ?_) (inductionHypothesis _)
      obtain ⟨k, e'⟩ := row
      have later := (le_of_numbered member).1
      dsimp only
      omega

/-- Lines are listed in the order of the instructions that they are for. -/
theorem pairwise_lines (es : List CodeElement) : (lines es).Pairwise fun a b => a.1 ≤ b.1 := by
  refine (pairwise_numbered 0 es).filterMap _ fun a b ordered row line row' line' => ?_
  obtain ⟨v, -, rfl⟩ := Option.map_eq_some_iff.mp line
  obtain ⟨v', -, rfl⟩ := Option.map_eq_some_iff.mp line'
  exact ordered

/-- The lines of elements that come after `n` instructions. -/
def linesFrom (n : Nat) (es : List CodeElement) : List (Nat × Int) :=
  (numbered n es).filterMap fun (n, e) => e.line?.map (n, ·)

/-- The lines of elements after others count on from the instructions before. -/
theorem linesFrom_append (n : Nat) (front back : List CodeElement) :
    linesFrom n (front ++ back) = linesFrom n front ++ linesFrom
      (n + instructionCount front) back := by
  rw [linesFrom, numbered_append, List.filterMap_append, linesFrom, linesFrom]

/-- Elements that are no lines have none. -/
theorem linesFrom_eq_nil {n : Nat} {es : List CodeElement} (none : ∀ e ∈ es, e.line? = none) :
    linesFrom n es = [] := by
  refine List.filterMap_eq_nil_iff.mpr fun row member => ?_
  exact congrArg (Option.map _) (none row.2 (mem_of_numbered member))

/-- A row is no line. -/
theorem line?_of_isRow {e : CodeElement} (row : e.isRow = true) : e.line? = none := by
  cases e <;> first | rfl | cases row

/-- Lines that stand together are for one instruction. -/
theorem linesFrom_lines (n : Nat) (vs : List Nat) :
    linesFrom n (vs.map fun v : Nat => .line v) = vs.map fun v : Nat => (n, (v : Int)) := by
  induction vs with
  | nil => rfl
  | cons v rest inductionHypothesis =>
      rw [List.map_cons, List.map_cons, ← inductionHypothesis]
      rfl

end CodeElement

namespace InputCode

open CodeElement (linesFrom linesFrom_append linesFrom_eq_nil linesFrom_lines)

variable {c : InputCode} {labelled : Nat → Bool} {linesAt : Nat → List Nat}
  {rows : List (Nat × Instruction)} {head tail es' : List CodeElement}

/-- A label in place is no line. -/
theorem linesFrom_marking (n o : Nat) : linesFrom n (c.marking labelled o) = [] := by
  refine linesFrom_eq_nil fun e member => ?_
  rw [marking] at member
  split at member
  · rw [List.mem_singleton.mp member]
    rfl
  · cases member

/-- A label in place is no instruction that counts. -/
theorem instructionCount_marking (o : Nat) : instructionCount (c.marking labelled o) = 0 := by
  rw [instructionCount, instructions_of_marking]
  rfl

/-- The stretch of an instruction has its lines. -/
theorem linesFrom_stretch (n : Nat) (r : Nat × Instruction) :
    linesFrom n (c.stretch labelled linesAt r) = (linesAt r.1).map fun v :
      Nat => (n, (v : Int)) := by
  rw [stretch, linesFrom_append, linesFrom_append, linesFrom_marking, instructionCount_marking,
    List.nil_append, Nat.add_zero, linesFrom_lines]
  exact List.append_nil _

/-- Every instruction comes with the lines at its offset. -/
theorem linesFrom_stretches (n : Nat) (rows : List (Nat × Instruction)) :
    linesFrom n (rows.flatMap (c.stretch labelled linesAt)) =
      ((rows.map Prod.fst).zipIdx n).flatMap fun r => (linesAt r.1).map fun v :
        Nat => (r.2, (v : Int)) := by
  induction rows generalizing n with
  | nil => rfl
  | cons r rest inductionHypothesis =>
      have one : instructionCount (c.stretch labelled linesAt r) = 1 := by
        have single := @instructions_of_stretches c labelled linesAt [r]
        rw [List.flatMap_singleton] at single
        rw [instructionCount, single]
        rfl
      rw [List.flatMap_cons, linesFrom_append, linesFrom_stretch, one, inductionHypothesis,
        List.map_cons, List.zipIdx_cons, List.flatMap_cons]

/-- A composed body has the lines of its offsets, each for the instruction that starts there. -/
theorem Composed.lines_eq (composed : c.Composed labelled linesAt rows head tail es') :
    CodeElement.lines es' =
      (rows.map Prod.fst).zipIdx.flatMap fun r => (linesAt r.1).map fun v :
        Nat => (r.2, (v : Int)) := by
  have none := List.forall_mem_append.mp fun e member =>
    CodeElement.line?_of_isRow (composed.rows e member)
  have all : CodeElement.lines es' = linesFrom 0 es' := rfl
  have before : instructionCount head = 0 := by
    rw [instructionCount,
      CodeElement.instructions_of_rows (List.forall_mem_append.mp composed.rows).1]
    rfl
  rw [all, composed.elements, linesFrom_append, linesFrom_append, linesFrom_append,
    linesFrom_eq_nil none.1, linesFrom_eq_nil none.2, linesFrom_marking, before,
    linesFrom_stretches]
  simp only [List.nil_append, List.append_nil]

/-- The starts of instructions, numbered. -/
theorem zipIdx_starts (chunks : List (List Cell)) : (Cell.starts 0 chunks).zipIdx =
    (List.range chunks.length).map fun k => (ahead chunks k, k) := by
  rw [Cell.starts_eq]
  refine List.ext_getElem (by simp) fun k _ _ => ?_
  simp

/-- Lines that were written stand before the same instructions when they are read. -/
theorem lines_of_sameLines {table : List (Nat × Nat)}
    (composed : c.Composed labelled (c.linesAt table) rows head tail es')
    (recorded : Recorded p es chunks w) (becomes : p.Becomes q)
    (starts : rows.map Prod.fst = Cell.starts 0 chunks) (length : c.codeLength = w.size)
    (same : List.Forall₂ SameLine w.lines.toList table)
    (inside : ∀ row ∈ CodeElement.lines es, row.1 < instructionCount es) :
    CodeElement.lines es' = CodeElement.lines es := by
  have encoded := recorded.encoded q becomes
  have written : (CodeElement.lines es).map (fun row => (ahead chunks row.1, row.2)) =
      table.map fun row => (row.1, (row.2 : Int)) := by
    rw [← recorded.lines, ← List.forall₂_eq_eq_eq, List.forall₂_map_right_iff]
    exact same.imp fun row row' ⟨offset, line⟩ => Prod.ext offset.symm line.symm
  have here (k : Nat) (before : k < chunks.length) :
      ((c.linesAt table (ahead chunks k)).map fun v : Nat => (k, (v : Int))) =
        (CodeElement.lines es).filter (·.1 = k) := by
    have within : ahead chunks k ≤ c.codeLength :=
      length ▸ Nat.le_of_lt (recorded.ahead_lt_size becomes (recorded.count ▸ before))
    have known {row : Nat × Int} (member : row ∈ CodeElement.lines es) :
        ahead chunks row.1 = ahead chunks k ↔ row.1 = k :=
      ⟨encoded.ahead_inj (recorded.count ▸ CodeElement.lines_le member) (Nat.le_of_lt before),
        fun same => same ▸ rfl⟩
    calc ((c.linesAt table (ahead chunks k)).map fun v : Nat => (k, (v : Int)))
        = ((table.map fun row => (row.1, (row.2 : Int))).filter (·.1 = ahead chunks k)).map
            fun row => (k, row.2) := by
          rw [linesAt, getD_linesByOffset within, List.filter_map, List.map_map, List.map_map]
          rfl
      _ = ((CodeElement.lines es).filter (ahead chunks ·.1 = ahead chunks k)).map
            fun row => (k, row.2) := by
          rw [← written, List.filter_map, List.map_map]
          rfl
      _ = ((CodeElement.lines es).filter (·.1 = k)).map fun row => (k, row.2) := by
          rw [List.filter_congr fun row member => decide_eq_decide.mpr (known member)]
      _ = (CodeElement.lines es).filter (·.1 = k) := by
          refine (List.map_congr_left fun row member => ?_).trans (List.map_id _)
          obtain ⟨-, at_⟩ := List.mem_filter.mp member
          exact Prod.ext (of_decide_eq_true at_).symm rfl
  rw [composed.lines_eq, starts, zipIdx_starts, List.flatMap_map,
    List.flatMap_congr fun k member => here k (List.mem_range.mp member),
    flatMap_filter_range (CodeElement.pairwise_lines es), recorded.count]
  exact List.filter_eq_self.mpr fun row member => decide_eq_true (inside row member)

end InputCode

/-! ## Rows -/

section

variable {stands : Label → Option Nat} {c : InputCode} {place place' : Label → Option Label}

/-- Labels of a decoded body that are placed where the labels were that they were written for. -/
def PlacesSame (stands : Label → Option Nat) (c : InputCode) (place place' : Label → Option Label)
    (labels : List (Option Label)) : Prop :=
  ∀ l ∈ labels, (l.bind (c.standing stands)).bind place' = l.bind place

/-- A handler that was read again is placed as the row was. -/
theorem Catch.Restates.placed_eq {row row' : Catch} (restates : row.Restates stands c row')
    (same : PlacesSame stands c place place' row.labels) :
      row'.placed place' = row.placed place := by
  obtain ⟨start, stop, handler, type⟩ := row
  obtain ⟨start', stop', handler', type'⟩ := row'
  simp only [Catch.Restates, Catch.placed, Option.bind_fun_some, Catch.mk.injEq] at restates
  obtain ⟨rfl, rfl, rfl, bare⟩ := restates
  simp only [PlacesSame, labels, List.forall_mem_cons, List.not_mem_nil, false_imp_iff,
    implies_true, and_true] at same
  simp only [Catch.placed, same, bare]

/-- A scope that was read again is placed as the row was. -/
theorem LocalScope.Restates.placed_eq {s s' : LocalScope} (restates : s.Restates stands c s')
    (same : PlacesSame stands c place place' s.labels) : s'.placed place' = s.placed place := by
  obtain ⟨slot, name, type, start, stop⟩ := s
  obtain ⟨slot', name', type', start', stop'⟩ := s'
  simp only [LocalScope.Restates, LocalScope.placed, Option.bind_fun_some,
    LocalScope.mk.injEq] at restates
  obtain ⟨rfl, named, typed, rfl, rfl⟩ := restates
  simp only [PlacesSame, labels, List.forall_mem_cons, List.not_mem_nil, false_imp_iff,
    implies_true, and_true] at same
  simp only [LocalScope.placed, same, named, typed]

namespace StackMapFrame

/-- A frame that was read again is placed as the one that was written. -/
theorem relabel_relabel {f : StackMapFrame} (same : PlacesSame stands c place place' f.labels) :
    (f.relabel (c.standing stands)).relabel place' = f.relabel place := by
  obtain ⟨target, rest⟩ := List.forall_mem_cons.mp same
  have types {vs : List VerificationType}
      (same : ∀ v ∈ vs, ∀ l ∈ v.label?, (l.bind (c.standing stands)).bind place' = l.bind place) :
      (vs.map (VerificationType.relabel (c.standing stands))).map
      (VerificationType.relabel place') =
        vs.map (VerificationType.relabel place) := by
    rw [List.map_map]
    refine List.map_congr_left fun v member => ?_
    cases v with
    | uninitialized new => exact congrArg VerificationType.uninitialized (same _ member new rfl)
    | plain | object => rfl
  have each : ∀ v ∈ f.locals ++ f.stack, ∀ l ∈ v.label?,
      (l.bind (c.standing stands)).bind place' = l.bind place := fun v member l label =>
    rest l (List.mem_filterMap.mpr ⟨v, member, label⟩)
  obtain ⟨locals, stack⟩ := List.forall_mem_append.mp each
  rw [relabel, relabel, relabel, target, types locals, types stack]

end StackMapFrame

/-- Frames that stand in the order of their numbers are those of a stack map. -/
theorem AttributeBody.placed_stackMap {frames sorted : List StackMapFrame}
    (perm : sorted.Perm frames)
    (ascending : (sorted.map (StackMapFrame.relabel place)).Pairwise fun f g =>
      f.number < g.number) :
    placed place (.stackMapTable frames) =
      .stackMapTable (sorted.map (StackMapFrame.relabel place)) := by
  rw [placed]
  refine congrArg AttributeBody.stackMapTable ?_
  have arranged := @List.pairwise_mergeSort _
    (fun a b : StackMapFrame => decide (a.number ≤ b.number))
    (fun a b d => by simp only [decide_eq_true_eq]; omega)
    (fun a b => by simp only [Bool.or_eq_true, decide_eq_true_eq]; omega)
    (frames.map (StackMapFrame.relabel place))
  have same := (List.mergeSort_perm (frames.map (StackMapFrame.relabel place))
    fun a b => a.number ≤ b.number).trans (perm.symm.map _)
  have once : ((sorted.map (StackMapFrame.relabel place)).map StackMapFrame.number).Nodup :=
    List.pairwise_map.mpr (ascending.imp Nat.ne_of_lt)
  refine List.Perm.eq_of_pairwise (fun f g first second ordered ordered' => ?_)
    (arranged.imp of_decide_eq_true) (ascending.imp Nat.le_of_lt) same
  exact List.inj_on_of_nodup_map once (same.mem_iff.mp first) second
    (Nat.le_antisymm ordered ordered')

/-- An attribute that was read again is a stack map exactly if the one that was written is. -/
theorem AttributeBody.Restates.isStackMap_eq {body body' : AttributeBody}
    (restates : body.Restates stands c body') :
    CodeOutline.isStackMap body' = CodeOutline.isStackMap body := by
  cases restates with
  | stackMap perm ascending => rfl
  | other plain bare => rw [← CodeOutline.isStackMap_bare, bare, CodeOutline.isStackMap_bare]

/-- An attribute other than a stack map that was read again says the same. -/
theorem AttributeBody.Restates.bare_eq {body body' : AttributeBody}
    (restates : body.Restates stands c body')
    (plain : CodeOutline.isStackMap body = false) : body'.bare = body.bare := by
  cases restates with
  | stackMap perm ascending => cases plain
  | other plain bare => exact bare

/-- The frames of a stack map are placed where those are that were written. -/
theorem AttributeBody.Restates.placed_eq {body body' : AttributeBody}
    (restates : body.Restates stands c body') (same : PlacesSame stands c place place' body.labels)
    (follows : ∀ f g : StackMapFrame, f.Precedes stands g →
      (f.relabel place).number < (g.relabel place).number) :
        body'.placed place' = body.placed place := by
  cases restates with
  | @stackMap frames sorted perm ascending =>
      have each : ∀ f ∈ sorted, PlacesSame stands c place place' f.labels := fun f member l label =>
        same l (List.mem_flatMap.mpr ⟨f, perm.mem_iff.mp member, label⟩)
      have moved : (sorted.map (StackMapFrame.relabel (c.standing stands))).map
          (StackMapFrame.relabel place') = sorted.map (StackMapFrame.relabel place) := by
        rw [List.map_map]
        exact List.map_congr_left fun f member => StackMapFrame.relabel_relabel (each f member)
      have numbers : (sorted.map (StackMapFrame.relabel place)).Pairwise fun f g =>
          f.number < g.number :=
        List.pairwise_map.mpr (ascending.imp fun {f g} before => follows f g before)
      rw [placed_stackMap perm numbers, placed_stackMap (.refl _) (moved ▸ numbers), moved]
  | other plain bare =>
      have placed_of_plain {place : Label → Option Label} {body : AttributeBody}
          (plain : CodeOutline.isStackMap body = false) : body.placed place = body.bare := by
        cases body <;> first | rfl | cases plain
      have plain' := (AttributeBody.Restates.other plain bare :
          Restates stands c body body').isStackMap_eq
      rw [placed_of_plain plain, placed_of_plain (plain'.trans plain), bare]

end

end JvmClass
