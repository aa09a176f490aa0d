import JvmClass.Proofs.Build.Drafts
import JvmClass.Proofs.Code.Instructions
import JvmClass.Proofs.Stack.Soundness

/-!
# What a body writer has recorded

Elements are taken one after another. Instructions become cells, and everything else is recorded
with the offsets that the cells so far lead to.
-/

namespace JvmClass

open PoolBuilder (Offers)

/-! ## Positions -/

namespace CodeElement

variable {es : List CodeElement} {e : CodeElement} {l : Label} {n k : Nat}

/-- Whether the options keep an element of a body. -/
def keptBy (options : Options) : CodeElement → Bool
  | .line _ => !options.dropsLineNumbers
  | .localVariable _ | .localVariableType _ => !options.has .dropDebugInfo
  | .attribute a => !BodyWriter.leavesOut options a
  | _ => true

/-- Instructions are kept with any options. -/
theorem keptBy_of_instruction? (options : Options) (e : CodeElement)
    (code : e.instruction? ≠ none) :
    keptBy options e = true := by
  cases e <;> first | rfl | exact absurd rfl code

/-- Labels are kept with any options. -/
theorem keptBy_of_binding? (options : Options) (e : CodeElement) (bound : e.binding? ≠ none) :
    keptBy options e = true := by
  cases e <;> first | rfl | exact absurd rfl bound

def held? : CodeElement → Option Attribute
  | .attribute a => some a
  | _ => none

/-- An element at the end adds its instruction to those before. -/
theorem instructions_concat (es : List CodeElement) (e : CodeElement) :
    instructions (es ++ [e]) = instructions es ++ e.instruction?.toList := by
  rw [instructions, List.filterMap_append, instructions]
  cases e <;> rfl

/-- Elements after others are numbered on from the instructions before. -/
theorem numbered_append (n : Nat) (front back : List CodeElement) :
    numbered n (front ++ back) = numbered n front ++ numbered
      (n + instructionCount front) back := by
  induction front generalizing n with
  | nil => rfl
  | cons e rest inductionHypothesis =>
      rw [List.cons_append, numbered, inductionHypothesis, numbered, List.cons_append,
        Nat.add_assoc, ← instructionCount_append, List.singleton_append]

/-- A numbered element is one of those that were numbered. -/
theorem mem_of_numbered (member : (k, e) ∈ numbered n es) : e ∈ es := by
  induction es generalizing n with
  | nil => cases member
  | cons first rest inductionHypothesis =>
      rcases List.mem_cons.mp member with same | member
      · cases same
        exact List.mem_cons_self
      · exact List.mem_cons_of_mem _ (inductionHypothesis member)

/-- There are no more instructions before an element than in all. -/
theorem le_of_numbered (member : (k, e) ∈ numbered n es) : n ≤ k ∧ k ≤ n + instructionCount es := by
  induction es generalizing n with
  | nil => cases member
  | cons first rest inductionHypothesis =>
      have whole : instructionCount (first :: rest) =
          instructionCount [first] + instructionCount rest :=
        instructionCount_append [first] rest
      rcases List.mem_cons.mp member with same | member
      · cases same
        omega
      · have later := inductionHypothesis member
        omega

/-- A label stands where it is bound first, in the front or in the back. -/
theorem position?_append (front back : List CodeElement) (l : Label) :
    position? (front ++ back) l = (position? front l).or
      (((numbered (instructionCount front) back).filterMap fun (n, e) =>
        e.binding?.map (·, n)).lookup l) := by
  rw [position?, bindings, numbered_append, List.filterMap_append, List.lookup_append, Nat.zero_add]
  rfl

/-- An element at the end gives a position to its label, unless that was bound before. -/
theorem position?_concat (es : List CodeElement) (e : CodeElement) (l : Label) :
    position? (es ++ [e]) l =
      (position? es l).or (if e.binding? = some l then some (instructionCount es) else none) := by
  rw [position?_append, numbered, numbered]
  cases bound : e.binding? with
  | none => simp [bound]
  | some l' =>
      by_cases same : l' = l
      · simp [bound, same]
      · simp [bound, same, List.lookup_cons, beq_eq_false_iff_ne.mpr (Ne.symm same)]

/-- A label stands at most at the end of the instructions. -/
theorem position?_le (found : position? es l = some k) : k ≤ instructionCount es := by
  obtain ⟨front, back, split, -⟩ := List.lookup_eq_some_iff.mp found
  have listed : (l, k) ∈ bindings es := split ▸ List.mem_append_right _ List.mem_cons_self
  obtain ⟨⟨n, e⟩, member, bound⟩ := List.mem_filterMap.mp listed
  obtain ⟨l', -, same⟩ := Option.map_eq_some_iff.mp bound
  cases same
  have numbers := le_of_numbered member
  omega

/-- A label that is bound by no element before stands before the instructions behind it. -/
theorem position?_of_split {front back : List CodeElement}
    (split : es = front ++ .label (some l) :: back)
    (once : ∀ e ∈ front, e.binding? ≠ some l) : position? es l = some (instructionCount front) := by
  have unbound : position? front l = none := by
    rw [position?, List.lookup_eq_none_iff]
    rintro ⟨l', n⟩ member
    obtain ⟨⟨k, e⟩, here, bound⟩ := List.mem_filterMap.mp member
    obtain ⟨l'', found, same⟩ := Option.map_eq_some_iff.mp bound
    cases same
    refine bne_iff_ne.mpr fun equal => once e (mem_of_numbered here) (found.trans ?_)
    rw [equal]
  rw [split, position?_append, unbound, Option.none_or, numbered]
  simp [binding?]

/-- An element at the end adds its line to those before. -/
theorem lines_concat (es : List CodeElement) (e : CodeElement) :
    lines (es ++ [e]) = lines es ++ (e.line?.map (instructionCount es, ·)).toList := by
  rw [lines, numbered_append, List.filterMap_append, Nat.zero_add, lines, numbered, numbered]
  cases e <;> rfl

/-- A line is for an instruction, or for the end. -/
theorem lines_le {row : Nat × Int} (member : row ∈ lines es) : row.1 ≤ instructionCount es := by
  obtain ⟨⟨n, e⟩, here, line⟩ := List.mem_filterMap.mp member
  obtain ⟨v, -, rfl⟩ := Option.map_eq_some_iff.mp line
  have numbers := le_of_numbered here
  dsimp only
  omega

/-! ### Elements that are left out -/

/-- What is left out does not matter to what is only made of the rest. -/
theorem filterMap_filter_of_keeps {α β : Type} {f : α → Option β} {keep : α → Bool}
    (keeps : ∀ a, f a ≠ none → keep a = true) (as : List α) :
    (as.filter keep).filterMap f = as.filterMap f := by
  rw [List.filterMap_filter]
  refine List.filterMap_congr fun a _ => ?_
  cases kept : keep a with
  | true => rfl
  | false =>
      rw [if_neg Bool.false_ne_true, eq_comm]
      by_contra made
      exact Bool.false_ne_true (kept.symm.trans (keeps a made))

section

variable {keep : CodeElement → Bool} (keeps : ∀ e, e.instruction? ≠ none → keep e = true)
include keeps

/-- What options drop are no instructions. -/
theorem instructionCount_filter (es : List CodeElement) :
    instructionCount (es.filter keep) = instructionCount es := by
  rw [instructionCount, instructionCount, filterMap_filter_of_keeps keeps]

/-- What options drop does not change the numbers of other elements. -/
theorem numbered_filter (n : Nat) (es : List CodeElement) :
    numbered n (es.filter keep) = (numbered n es).filter (keep ·.2) := by
  induction es generalizing n with
  | nil => rfl
  | cons e rest inductionHypothesis =>
      rw [numbered, List.filter_cons, List.filter_cons, ← inductionHypothesis]
      cases kept : keep e with
      | true => rfl
      | false =>
          have none := instructionCount_filter keeps [e]
          rw [List.filter_cons, kept, if_neg Bool.false_ne_true] at none
          rw [if_neg Bool.false_ne_true, if_neg Bool.false_ne_true, ← none]
          rfl

/-- The lines that are left are among those that were there. -/
theorem mem_lines_of_filter {row : Nat × Int} (member : row ∈ lines (es.filter keep)) :
    row ∈ lines es := by
  rw [lines, numbered_filter keeps] at member
  exact (List.filter_sublist.filterMap _).mem member

/-- Where labels are bound does not depend on other elements. -/
theorem position?_filter (bound : ∀ e, e.binding? ≠ none → keep e = true) (es : List CodeElement) :
    position? (es.filter keep) = position? es := by
  funext l
  rw [position?, position?, bindings, bindings, numbered_filter keeps, filterMap_filter_of_keeps]
  rintro ⟨k, e⟩ binds
  exact bound e fun none => binds (congrArg (Option.map _) none)

/-- Everything stays in place if neither instructions nor labels are left out. -/
theorem WellPlaced.filter (bound : ∀ e, e.binding? ≠ none → keep e = true)
    (placed : WellPlaced es) :
    WellPlaced (es.filter keep) where
  inside e member l inner n found := by
    rw [instructionCount_filter keeps]
    rw [position?_filter keeps bound] at found
    exact placed.inside e (List.mem_filter.mp member).1 l inner n found
  lined row member := by
    rw [instructionCount_filter keeps]
    exact placed.lined row (mem_lines_of_filter keeps member)
  covering c member := by
    have same : place (es.filter keep) = place es := by
      funext l
      rw [place, position?_filter keeps bound, place]
    rw [same]
    exact placed.covering c (List.mem_filter.mp member).1

end

end CodeElement

/-! ## Cells of several instructions -/

namespace Cell

variable {q q' : PoolBuilder} {offset : Nat} {i : Instruction} {cells : List Cell}
  {is : List Instruction} {chunks : List (List Cell)}

/-- Cells that encode an instruction do so in every later pool. -/
theorem Encodes.mono (encodes : Encodes q offset i cells) (inv : q.Inv)
    (grown : q.Extends q' none) :
    Encodes q' offset i cells where
  positive := encodes.positive
  reads resolves reads := encodes.reads resolves
    ⟨inv, reads.addressable, fun e has => reads.entry e (grown.has has)⟩

/-- The cells encode the instructions, which follow one another from an offset on. -/
inductive Encoded (q : PoolBuilder) : Nat → List Instruction → List (List Cell) → Prop
  | nil (offset : Nat) : Encoded q offset [] []
  | cons {offset : Nat} {i : Instruction} {cells : List Cell} {is : List Instruction}
    {chunks : List (List Cell)} (first : Encodes q offset i cells)
    (others : Encoded q (offset + widths cells) is chunks) :
    Encoded q offset (i :: is) (cells :: chunks)

/-- Cells at the end encode the instruction that follows the others. -/
theorem Encoded.concat (encoded : Encoded q offset is chunks)
    (last : Encodes q (offset + widths chunks.flatten) i cells) :
    Encoded q offset (is ++ [i]) (chunks ++ [cells]) := by
  induction encoded with
  | nil offset => exact .cons last (.nil _)
  | cons first others inductionHypothesis =>
      rw [List.flatten_cons, widths_append, ← Nat.add_assoc] at last
      exact .cons first (inductionHypothesis last)

/-- The number of bytes before the instruction of a number. -/
def ahead (chunks : List (List Cell)) (k : Nat) : Nat := widths (chunks.take k).flatten

/-- All chunks together take the bytes before the end. -/
theorem ahead_length (chunks : List (List Cell)) :
    ahead chunks chunks.length = widths chunks.flatten := by
  rw [ahead, List.take_length]

/-- Cells at the end change nothing before them. -/
theorem ahead_concat {k : Nat} (inside : k ≤ chunks.length) (cells : List Cell) :
    ahead (chunks ++ [cells]) k = ahead chunks k := by
  rw [ahead, List.take_append_of_le_length inside, ahead]

/-- Later instructions stand at greater offsets. -/
theorem Encoded.ahead_lt {offset : Nat} {is : List Instruction} {chunks : List (List Cell)}
    (encoded : Encoded q offset is chunks) {j k : Nat} (before : j < k)
    (inside : k ≤ chunks.length) :
    ahead chunks j < ahead chunks k := by
  induction encoded generalizing j k with
  | nil => exact absurd before (Nat.not_lt.mpr (Nat.le_trans inside (Nat.zero_le j)))
  | cons first others inductionHypothesis =>
      have positive := first.positive
      obtain ⟨k, rfl⟩ : ∃ n, k = n + 1 := ⟨k - 1, by omega⟩
      rw [ahead, ahead, List.take_succ_cons, List.flatten_cons, widths_append]
      cases j with
      | zero => exact Nat.lt_of_lt_of_le positive (Nat.le_add_right _ _)
      | succ j =>
          rw [List.take_succ_cons, List.flatten_cons, widths_append]
          exact Nat.add_lt_add_left
            (inductionHypothesis (Nat.lt_of_succ_lt_succ before) (Nat.le_of_succ_le_succ inside)) _

/-- Different instructions start at different offsets, as each takes some bytes. -/
theorem Encoded.ahead_inj {offset : Nat} {is : List Instruction} {chunks : List (List Cell)}
    (encoded : Encoded q offset is chunks) {j k : Nat} (first : j ≤ chunks.length)
    (second : k ≤ chunks.length) (same : ahead chunks j = ahead chunks k) : j = k := by
  rcases Nat.lt_trichotomy j k with before | equal | before
  · exact absurd same (Nat.ne_of_lt (encoded.ahead_lt before second))
  · exact equal
  · exact absurd same (Nat.ne_of_gt (encoded.ahead_lt before first))

end Cell

namespace BodyWriter

open Cell (Encoded ahead widths)
open CodeElement (instructions position? held? keptBy)

variable {p q : PoolBuilder} {es : List CodeElement} {e : CodeElement} {chunks : List (List Cell)}
  {w w' : BodyWriter} {options : Options}

/-- The elements have been taken, and the instructions among them have become cells. -/
structure Recorded (p : PoolBuilder) (es : List CodeElement) (chunks : List (List Cell))
    (w : BodyWriter) : Prop where
  cells : w.cells.toList = chunks.flatten
  size : w.size = widths chunks.flatten
  count : chunks.length = instructionCount es
  encoded : ∀ q, p.Becomes q → Encoded q 0 (instructions es) chunks
  bound : ∀ l, w.stands l = (position? es l).map (ahead chunks)
  catches : w.catches.toList = es.filterMap CodeElement.handler?
  lines : w.lines.toList = (CodeElement.lines es).map fun row => (ahead chunks row.1, row.2)
  scopes : w.scopes.toList = es.filterMap CodeElement.scope?
  typeScopes : w.typeScopes.toList = es.filterMap CodeElement.typeScope?
  «attributes» : w.attributes.toList = es.filterMap held?

/-- The use of a slot writes nothing. -/
theorem size_useLocal (slot : Int) (k : Kind) (w : BodyWriter) :
    (w.useLocal slot k).size = w.size := by
  simp only [useLocal]
  split <;> rfl

namespace Recorded

/-- At the start nothing has been taken. -/
theorem start (locals : Nat) : Recorded p [] [] (.start locals) where
  cells := rfl
  size := rfl
  count := rfl
  encoded _ _ := .nil 0
  bound _ := Std.HashMap.getElem?_empty
  catches := rfl
  lines := rfl
  scopes := rfl
  typeScopes := rfl
  «attributes» := rfl

/-- The use of a slot changes nothing that was recorded. -/
theorem useLocal (recorded : Recorded p es chunks w) (slot : Int) (k : Kind) :
    Recorded p es chunks (w.useLocal slot k) := by
  simp only [BodyWriter.useLocal]
  split
  · exact { recorded with }
  · exact recorded

variable (recorded : Recorded p es chunks w)
include recorded

/-- What was recorded stays so in a later pool. -/
theorem mono (grown : p.Extends q none) : Recorded q es chunks w :=
  { recorded with encoded := fun q becomes => recorded.encoded q (becomes.after grown) }

/-- The present position is the one before the next instruction. -/
theorem ahead_count : ahead chunks (instructionCount es) = w.size := by
  rw [← recorded.count, Cell.ahead_length, recorded.size]

/-- An instruction is recorded with its cells at the end, and no label moves. -/
theorem append {i : Instruction} {cells : List Cell}
    (encodes : ∀ q, p.Becomes q → Cell.Encodes q w.size i cells) :
    Recorded p (es ++ [.instruction i]) (chunks ++ [cells]) (w.append i cells) where
  cells := by
    rw [BodyWriter.append, Array.toList_appendList, recorded.cells]
    simp
  size := by
    have sum : cells.foldr (fun c n => c.width + n) 0 = widths cells := by
      rw [widths, List.sum_eq_foldr, List.foldr_map]
    rw [BodyWriter.append, sum, recorded.size, List.flatten_append, Cell.widths_append]
    simp
  count := by
    rw [List.length_append, recorded.count, instructionCount_append]
    rfl
  encoded q becomes := by
    rw [CodeElement.instructions_concat]
    refine (recorded.encoded q becomes).concat ?_
    rw [Nat.zero_add, ← recorded.size]
    exact encodes q becomes
  bound l := by
    have before := recorded.bound l
    have unbound : (CodeElement.instruction i).binding? ≠ some l := (Option.some_ne_none l).symm
    rw [CodeElement.position?_concat, if_neg unbound, Option.or_none]
    refine before.trans (Option.map_congr fun k found => ?_)
    exact (Cell.ahead_concat (recorded.count ▸ CodeElement.position?_le found) cells).symm
  catches := by
    rw [List.filterMap_append, ← recorded.catches]
    exact (List.append_nil _).symm
  lines := by
    rw [CodeElement.lines_concat]
    refine recorded.lines.trans ?_
    rw [show CodeElement.line? (.instruction i) = none from rfl, Option.map_none,
      Option.toList_none, List.append_nil]
    refine List.map_congr_left fun row member => ?_
    rw [Cell.ahead_concat (recorded.count ▸ CodeElement.lines_le member)]
  scopes := by
    rw [List.filterMap_append, ← recorded.scopes]
    exact (List.append_nil _).symm
  typeScopes := by
    rw [List.filterMap_append, ← recorded.typeScopes]
    exact (List.append_nil _).symm
  «attributes» := by
    rw [List.filterMap_append, ← recorded.attributes]
    exact (List.append_nil _).symm

/-- A label that is not bound yet is recorded at the end. -/
theorem bind {l : Label} (free : w.stands l = none) :
    Recorded p (es ++ [.label (some l)]) chunks
      { w.bindAt l w.size with flow := w.flow.push (.label (some l)) } where
  cells := recorded.cells
  size := recorded.size
  count := by rw [recorded.count, instructionCount_append]; rfl
  encoded q becomes := by
    rw [CodeElement.instructions_concat]
    exact (List.append_nil _).symm ▸ recorded.encoded q becomes
  bound l' := by
    have before : w.bound[l']? = _ := recorded.bound l'
    change (w.bound.insert l w.size)[l']? = _
    rw [CodeElement.position?_concat, Std.HashMap.getElem?_insert]
    by_cases same : l = l'
    · subst same
      have unbound : position? es l = none := by simpa using before.symm.trans free
      simp [unbound, CodeElement.binding?, recorded.ahead_count]
    · simpa [same, CodeElement.binding?] using before
  catches := by
    rw [List.filterMap_append, ← recorded.catches]
    exact (List.append_nil _).symm
  lines := by
    rw [CodeElement.lines_concat]
    exact (List.append_nil _).symm ▸ recorded.lines
  scopes := by
    rw [List.filterMap_append, ← recorded.scopes]
    exact (List.append_nil _).symm
  typeScopes := by
    rw [List.filterMap_append, ← recorded.typeScopes]
    exact (List.append_nil _).symm
  «attributes» := by
    rw [List.filterMap_append, ← recorded.attributes]
    exact (List.append_nil _).symm

/-- Other elements are rows of one of the tables. -/
theorem row (code : e.instruction? = none) (unbound : e.binding? = none)
    (cells : w'.cells = w.cells)
    (size : w'.size = w.size) (bound : w'.bound = w.bound)
    (catches : w'.catches.toList = w.catches.toList ++ e.handler?.toList)
    (lines : w'.lines.toList = w.lines.toList ++ (e.line?.map (w.size, ·)).toList)
    (scopes : w'.scopes.toList = w.scopes.toList ++ e.scope?.toList)
    (typeScopes : w'.typeScopes.toList = w.typeScopes.toList ++ e.typeScope?.toList)
    (held : w'.attributes.toList = w.attributes.toList ++ e.held?.toList) :
    Recorded p (es ++ [e]) chunks w' where
  cells := cells ▸ recorded.cells
  size := size ▸ recorded.size
  count := by simp [recorded.count, instructionCount, code]
  encoded q becomes := by
    rw [CodeElement.instructions_concat, code, Option.toList_none, List.append_nil]
    exact recorded.encoded q becomes
  bound l := by
    rw [CodeElement.position?_concat, unbound, if_neg (Option.some_ne_none _).symm, Option.or_none,
      stands, bound]
    exact recorded.bound l
  catches := by rw [catches, recorded.catches, List.filterMap_append]; cases e <;> rfl
  lines := by
    rw [lines, recorded.lines, CodeElement.lines_concat, List.map_append]
    cases e.line? with
    | none => rfl
    | some v => simp [recorded.ahead_count]
  scopes := by rw [scopes, recorded.scopes, List.filterMap_append]; cases e <;> rfl
  typeScopes := by rw [typeScopes, recorded.typeScopes, List.filterMap_append]; cases e <;> rfl
  «attributes» := by rw [held, recorded.attributes, List.filterMap_append]; cases e <;> rfl

end Recorded

/-- An element is taken unless the options leave it out. -/
theorem offers_put (recorded : Recorded p es chunks w) (fits : e.Fits)
    (accepted : ∀ m ∈ e.mentions, m.Accepted p) : Offers p (w.put options e) fun q w' =>
      ∃ chunks', Recorded q (es ++ [e].filter (keptBy options)) chunks' w' := by
  have left (dropped : keptBy options e = false) :
      Recorded p (es ++ [e].filter (keptBy options)) chunks w := by
    rwa [List.filter_singleton, dropped, cond_false, List.append_nil]
  have taken {w' : BodyWriter} {chunks' : List (List Cell)} (kept : keptBy options e = true)
      (further : Recorded p (es ++ [e]) chunks' w') :
      ∃ chunks', Recorded p (es ++ [e].filter (keptBy options)) chunks' w' := by
    rw [List.filter_singleton, kept, cond_true]
    exact ⟨chunks', further⟩
  have same {α : Type} (as : List α) : as = as ++ [] := (List.append_nil as).symm
  cases e with
  | instruction i =>
      refine ((Cell.offers_ofInstruction fits accepted).lasting fun inv grown encodes =>
        encodes.mono inv grown).bind fun cells q known => .pure fun fine => ?_
      obtain ⟨grown, encodes⟩ := known fine
      have moved := recorded.mono grown
      refine ⟨chunks ++ [cells], ?_⟩
      split
      · exact (moved.useLocal _ _).append (by rwa [size_useLocal])
      · exact moved.append encodes
  | label l =>
      refine .liftM fun w' given => ?_
      cases l with
      | none => cases given
      | some l =>
          rw [label] at given
          split at given
          · cases given
          · rename_i free
            obtain rfl := Except.ok.inj given
            refine taken rfl (recorded.bind ?_)
            rw [stands, Std.HashMap.getElem?_eq_none]
            simpa using free
  | handler c =>
      exact .pure fun _ => taken rfl (recorded.row rfl rfl rfl rfl rfl (Array.toList_push ..)
        (same _) (same _) (same _)
        (same _))
  | line n =>
      refine .ite (fun drops => .pure fun _ => ⟨chunks, left (by simp [keptBy, drops])⟩)
        fun keeps => ?_
      exact .pure fun _ => taken (by simp [keptBy, keeps]) (recorded.row rfl rfl rfl rfl rfl
        (same _) (Array.toList_push ..) (same _)
        (same _) (same _))
  | localVariable s =>
      refine .pure fun _ => ?_
      split
      · rename_i drops
        exact ⟨chunks, left (by simp [keptBy, drops])⟩
      rename_i keeps
      have pushed : Recorded p (es ++ [.localVariable s]) chunks
          { w with scopes := w.scopes.push s } :=
        recorded.row rfl rfl rfl rfl rfl (same _) (same _)
          (Array.toList_push ..) (same _) (same _)
      refine taken (by simp [keptBy, keeps]) (show Recorded p _ chunks _ from ?_)
      rw [variable_]
      split
      · exact pushed.useLocal _ _
      · exact pushed
  | localVariableType s =>
      refine .ite (fun drops => .pure fun _ => ⟨chunks, left (by simp [keptBy, drops])⟩)
        fun keeps => ?_
      exact .pure fun _ => taken (by simp [keptBy, keeps]) (recorded.row rfl rfl rfl rfl rfl
        (same _) (same _) (same _)
        (Array.toList_push ..) (same _))
  | «attribute» a =>
      refine .ite (fun drops => .pure fun _ => ⟨chunks, left (by simp [keptBy, drops])⟩)
        fun keeps => ?_
      exact .pure fun _ => taken (by simp [keptBy, keeps]) (recorded.row rfl rfl rfl rfl rfl
        (same _) (same _) (same _)
        (same _) (Array.toList_push ..))

end BodyWriter

/-! ## Drafts -/

namespace CodeDraft

open BodyWriter (Recorded)

variable {σ : Type} {p : PoolBuilder} {options : Options} {es rest : List CodeElement}
  {e : CodeElement} {d d' : CodeDraft} {s s' : Session σ}

/-- Some elements were emitted to a draft that writes, and all of them have been taken unless
something failed. -/
structure Records (p : PoolBuilder) (options : Options) (es : List CodeElement) (d : CodeDraft)
    (s : Session σ) : Prop where
  grown : p.Extends s.pool none
  sound : s.pool.Sound
  same : s.options = options
  stop : d.stop = none
  writes : ∃ w, d.target = .writing w ∧
    (s.Quiet → ∃ chunks, Recorded s.pool (es.filter (CodeElement.keptBy options)) chunks w)

/-- A draft that writes starts with no elements. -/
theorem records_writing (static : Bool) (descriptor : MethodDescriptor) (source : Option CodeModel)
    (sound : s.pool.Sound) : Records s.pool s.options [] (writing static descriptor source) s where
  grown := .refl _
  sound := sound
  same := rfl
  stop := rfl
  writes := ⟨_, rfl, fun _ => ⟨[], .start _⟩⟩

/-- A draft that writes takes a further element, unless something fails. -/
theorem records_emit (records : Records p options es d s) (fits : e.Fits)
    (accepted : ∀ m ∈ e.mentions, m.Accepted p) :
    Records p options (es ++ [e]) ((Outlet.terminal.emit e : CodeM σ Unit) d s).1.2
      ((Outlet.terminal.emit e : CodeM σ Unit) d s).2 := by
  obtain ⟨grown, sound, rfl, stop, w, writes, recorded⟩ := records
  obtain ⟨source, parent, frame, start, _, _⟩ := d
  obtain rfl : _ = none := stop
  obtain rfl : _ = CodeTarget.writing w := writes
  by_cases quiet : s.Quiet
  · obtain ⟨chunks, recorded⟩ := recorded quiet
    have offers : Offers s.pool (w.put s.options e) _ :=
      BodyWriter.offers_put recorded fits fun m member => (accepted m member).mono grown
    obtain ⟨grown', sound', puts⟩ := offers sound
    rw [Outlet.emit_terminal quiet, accept_writing rfl]
    generalize (w.put s.options e).run s.pool = reached at grown' sound' puts ⊢
    obtain ⟨_ | w', q⟩ := reached
    · exact ⟨grown.trans grown', sound', rfl, rfl, _, rfl, fun quiet' => nomatch quiet'.session⟩
    · refine ⟨grown.trans grown', sound', rfl, rfl, w', rfl, fun quiet' => ?_⟩
      rw [List.filter_append]
      exact puts quiet'.pool w' rfl
  · have stopped : Draft.stop? (CodeDraft.mk source parent frame start none (.writing w)) s ≠
        none := by
      intro open_
      have none : (s.error <|> s.pool.error) = none := open_
      cases failed : s.error with
      | some e' => rw [failed] at none; cases none
      | none => rw [failed] at none; exact quiet ⟨failed, none⟩
    rw [Outlet.emit_of_stop stopped]
    exact ⟨grown, sound, rfl, rfl, w, rfl, fun quiet' => absurd quiet' quiet⟩

/-- Elements that are emitted one after another have all been taken unless something failed. -/
theorem records_forM (records : Records p options es d s) (fits : ∀ e ∈ rest, e.Fits)
    (accepted : ∀ e ∈ rest, ∀ m ∈ e.mentions, m.Accepted p)
    (emitted : (rest.forM Outlet.terminal.emit : CodeM σ Unit) d s = (((), d'), s')) :
    Records p options (es ++ rest) d' s' := by
  induction rest generalizing es d s with
  | nil =>
      rw [List.append_nil]
      cases emitted
      exact records
  | cons e rest inductionHypothesis =>
      obtain ⟨here, fits⟩ := List.forall_mem_cons.mp fits
      obtain ⟨there, accepted⟩ := List.forall_mem_cons.mp accepted
      rw [List.append_cons]
      exact inductionHypothesis (records_emit records here there) fits accepted emitted

end CodeDraft

end JvmClass
