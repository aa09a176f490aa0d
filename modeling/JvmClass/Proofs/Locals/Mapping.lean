import JvmClass.Build.Follower
import JvmClass.Proofs.Build.Walk
import Mathlib.Tactic.ByContra

/-!
# The slots that a shifter gives out

A shifter remembers a new slot for every slot and size that it has met. The first wide use of a
slot also takes the place of the narrow one, so narrow uses before and after it move to
different slots. `exists_mapping_iff_not_reused` says that this is the only way in which one
slot and one size can move to two slots.

`CodeDraft.Made` says that calls of the builder of a body, which ask it for elements, labels and
slots, lead from one draft to another, with the slots that are handed out and the elements that are
emitted on the way.
-/

namespace JvmClass

namespace LocalsShifter

/-- A use of a local slot: the slot and the number of slots that its value takes. -/
abbrev Use := Int × Nat

/-- The new slot that is remembered for a use. -/
def new? (s : LocalsShifter) (u : Use) : Option Int := s.slots[s.key u.1 u.2]?

/-- Where a use moves when the next slot to give out is `next`, and what the shifter and the next
slot are afterwards. -/
inductive Moves (s : LocalsShifter) (next : Nat) (u : Use) : Int → LocalsShifter → Nat → Prop
  | kept (below : u.1 < s.fixed) : Moves s next u u.1 s next
  | known {slot : Int} (above : s.fixed ≤ u.1) (remembered : s.new? u = some slot) :
      Moves s next u slot s next
  | given (above : s.fixed ≤ u.1) (unknown : s.new? u = none) :
      Moves s next u next (s.give (s.key u.1 u.2) next u.2) (next + u.2)

/-- Where uses move, one after another. -/
inductive MovesAll : LocalsShifter → Nat → List Use → List Int → LocalsShifter → Nat → Prop
  | done (s : LocalsShifter) (next : Nat) : MovesAll s next [] [] s next
  | step {s s' s'' : LocalsShifter} {next next' next'' : Nat} {u : Use} {rest : List Use}
      {slot : Int} {slots : List Int} (first : Moves s next u slot s' next')
      (others : MovesAll s' next' rest slots s'' next'') :
      MovesAll s next (u :: rest) (slot :: slots) s'' next''

/-- The uses among some for which a slot is asked, each with the slot that it gets when slots are
handed out from `next` on. -/
def asked (s : LocalsShifter) (next : Nat) : List Use → List (Use × Nat)
  | [] => []
  | u :: rest =>
    if u.1 < s.fixed then asked s next rest
    else
      match s.new? u with
      | some _ => asked s next rest
      | none => (u, next) :: asked (s.give (s.key u.1 u.2) next u.2) (next + u.2) rest

/-- One mapping that leaves the slots below the fixed ones in place gives all new slots. -/
def Mapping (fixed : Int) (f : Int → Nat → Int) (uses : List Use) (slots : List Int) : Prop :=
  (∀ slot < fixed, ∀ size, f slot size = slot) ∧ slots = uses.map fun u => f u.1 u.2

/-- A slot has a narrow use before its first wide one and another one after it. -/
def Reused (uses : List Use) (slot : Int) : Prop :=
  ∃ before after, uses = before ++ (slot, 2) :: after ∧ (slot, 2) ∉ before ∧
    (slot, 1) ∈ before ∧ (slot, 1) ∈ after

variable {s s' : LocalsShifter} {next next' : Nat} {u v : Use} {uses : List Use} {slot : Int}

/-- What is remembered for a use does not change which slots are fixed. -/
@[simp] theorem fixed_give (s : LocalsShifter) (key slot : Int) (size : Nat) :
    (s.give key slot size).fixed = s.fixed := by
  simp only [give, remember]
  split <;> split <;> rfl

/-- A use that is given a slot is remembered, and a wide one for the narrow one as well. -/
theorem new?_give (size : u.2 = 1 ∨ u.2 = 2) (size' : v.2 = 1 ∨ v.2 = 2) (n : Nat) :
    (s.give (s.key u.1 u.2) n u.2).new? v =
      if v = u ∨ (u.2 = 2 ∧ v = (u.1, 1)) then some (n : Int) else s.new? v := by
  have positive : (0 : Int) ≤ n := Int.natCast_nonneg n
  obtain ⟨a, i⟩ := u
  obtain ⟨b, j⟩ := v
  simp only at size size'
  rcases size with rfl | rfl <;> rcases size' with rfl | rfl <;>
    simp [new?, give, remember, key, positive, Std.HashMap.getElem?_insert] <;>
    grind

/-! The mapping, where no slot is used again. -/

/-- No narrow use follows the first wide use of a slot that has had a narrow one. -/
def Safe (s : LocalsShifter) (uses : List Use) : Prop :=
  ∀ slot, s.fixed ≤ slot → s.new? (slot, 2) = none → ∀ before after,
    uses = before ++ (slot, 2) :: after → (slot, 2) ∉ before →
      s.new? (slot, 1) ≠ none ∨ (slot, 1) ∈ before → (slot, 1) ∉ after

/-- A use that moves does not change which slots are fixed. -/
theorem Moves.fixed (moves : Moves s next u slot s' next') : s'.fixed = s.fixed := by
  cases moves with
  | kept | known => rfl
  | given => rw [fixed_give]

/-- What is asked for over some uses is what is asked for the first and then for the others. -/
theorem Moves.asked_cons (moves : Moves s next u slot s' next') (rest : List Use) :
    asked s next (u :: rest) = asked s next [u] ++ asked s' next' rest := by
  cases moves with
  | kept below => simp [asked, below]
  | known above remembered => simp [asked, Int.not_lt.mpr above, remembered]
  | given above unknown => simp [asked, Int.not_lt.mpr above, unknown]

/-- What is remembered for a use that is met, or kept for one that is not. -/
theorem Moves.new?_self (moves : Moves s next u slot s' next') (size : u.2 = 1 ∨ u.2 = 2)
    (above : s.fixed ≤ u.1) : s'.new? u = some slot := by
  cases moves with
  | kept below => omega
  | known _ remembered => exact remembered
  | given => rw [new?_give size size, if_pos (.inl rfl)]

/-- A use that was not remembered is the one that was met, or the narrow one beside it. -/
theorem Moves.of_new? (moves : Moves s next u slot s' next') (size : u.2 = 1 ∨ u.2 = 2)
    (size' : v.2 = 1 ∨ v.2 = 2) (unknown : s.new? v = none) (known : s'.new? v ≠ none) :
    v = u ∨ (u.2 = 2 ∧ v = (u.1, 1)) := by
  cases moves with
  | kept | known => exact absurd unknown known
  | given =>
      rw [new?_give size size'] at known
      by_contra other
      rw [if_neg other] at known
      exact known unknown

/-- What was remembered stays, unless the first wide use of its slot is met. -/
theorem Moves.new?_of (moves : Moves s next u slot s' next') (size : u.2 = 1 ∨ u.2 = 2)
    (size' : v.2 = 1 ∨ v.2 = 2) (known : s.new? v ≠ none) :
    s'.new? v = s.new? v ∨
      (s.fixed ≤ u.1 ∧ s.new? u = none ∧ u = (v.1, 2) ∧ v = (v.1, 1)) := by
  cases moves with
  | kept | known => exact .inl rfl
  | given above unknown =>
      rw [new?_give size size']
      split
      · rename_i taken
        rcases taken with rfl | ⟨wide, beside⟩
        · exact absurd unknown known
        · have slots : v.1 = u.1 := by rw [beside]
          refine .inr ⟨above, unknown, ?_, by rw [slots]; exact beside⟩
          rw [slots, ← wide]
      · exact .inl rfl

/-- What comes after a use is safe where everything was. -/
theorem Safe.tail {rest : List Use} (safe : Safe s (u :: rest))
    (moves : Moves s next u slot s' next') (size : u.2 = 1 ∨ u.2 = 2) : Safe s' rest := by
  intro slot' above unknown before after split first narrow
  rw [moves.fixed] at above
  have unmet : u ≠ (slot', 2) := by
    rintro rfl
    rw [moves.new?_self (.inr rfl) above] at unknown
    cases unknown
  have unknown' : s.new? (slot', 2) = none := by
    by_contra known
    rcases moves.new?_of size (.inr rfl) known with same | ⟨-, -, -, narrow⟩
    · exact known (same.symm.trans unknown)
    · simp at narrow
  refine safe slot' above unknown' (u :: before) after (by rw [split]; rfl) ?_ ?_
  · intro member
    rcases List.mem_cons.mp member with rfl | member
    · exact unmet rfl
    · exact first member
  · rcases narrow with known | member
    · by_cases known' : s.new? (slot', 1) = none
      · rcases moves.of_new? size (.inl rfl) known' known with rfl | ⟨wide, beside⟩
        · exact .inr (List.mem_cons_self ..)
        · have slots : slot' = u.1 := (Prod.mk.inj beside).1
          exact absurd (by rw [slots, ← wide]) unmet
      · exact .inl known'
    · exact .inr (List.mem_cons_of_mem _ member)

/-- Safe uses move as one mapping says, which agrees with what is remembered. -/
theorem MovesAll.mapping {slots : List Int} (moves : MovesAll s next uses slots s' next')
    (sizes : ∀ u ∈ uses, u.2 = 1 ∨ u.2 = 2) (safe : Safe s uses) :
    ∃ f, Mapping s.fixed f uses slots ∧
      ∀ u ∈ uses, s.fixed ≤ u.1 → ∀ slot, s.new? u = some slot → f u.1 u.2 = slot := by
  induction moves with
  | done s next =>
      exact ⟨fun slot _ => slot, ⟨fun _ _ _ => rfl, rfl⟩, fun u member => by cases member⟩
  | @step s s' s'' next next' next'' u rest slot slots first others inductionHypothesis =>
      have size := sizes u (List.mem_cons_self ..)
      have sizes' : ∀ v ∈ rest, v.2 = 1 ∨ v.2 = 2 := fun v member =>
        sizes v (List.mem_cons_of_mem _ member)
      obtain ⟨f, ⟨keeps, all⟩, agrees⟩ := inductionHypothesis sizes' (safe.tail first size)
      rw [first.fixed] at keeps agrees
      -- What is remembered of a use that comes again is what is remembered after this one.
      have agrees' : ∀ v ∈ rest, s.fixed ≤ v.1 → ∀ slot, s.new? v = some slot →
          f v.1 v.2 = slot := by
        intro v member above slot' known
        rcases first.new?_of size (sizes' v member) (by rw [known]; simp) with
          same | ⟨_, unknown, wide, narrow⟩
        · exact agrees v member above slot' (same.trans known)
        · rw [wide] at unknown
          have gone := safe v.1 above unknown [] rest (by rw [← wide]; rfl) (by simp)
            (.inl (by rw [← narrow, known]; simp))
          rw [narrow] at member
          exact absurd member gone
      have here : ∀ slot', s.new? u = some slot' → s.fixed ≤ u.1 → slot = slot' := by
        intro slot' known above
        cases first with
        | kept below => omega
        | known _ remembered => exact Option.some.inj (remembered.symm.trans known)
        | given _ unknown => exact nomatch unknown.symm.trans known
      have kept : u.1 < s.fixed → slot = u.1 := by
        intro below
        cases first with
        | kept => rfl
        | known above | given above => omega
      by_cases again : u ∈ rest
      · have value : slot = f u.1 u.2 := by
          by_cases above : s.fixed ≤ u.1
          · exact (agrees u again above slot (first.new?_self size above)).symm
          · rw [keeps u.1 (by omega) u.2]
            exact kept (by omega)
        refine ⟨f, ⟨keeps, by rw [List.map_cons, ← value, ← all]⟩, fun v member => ?_⟩
        rcases List.mem_cons.mp member with rfl | member
        · exact agrees' v again
        · exact agrees' v member
      · -- A use that does not come again can be mapped by itself.
        let g : Int → Nat → Int := fun a n => if (a, n) = u then slot else f a n
        have atUse : g u.1 u.2 = slot := if_pos rfl
        have elsewhere : ∀ v ∈ rest, g v.1 v.2 = f v.1 v.2 := fun v member =>
          if_neg fun (same : v = u) => again (same ▸ member)
        refine ⟨g, ⟨fun a below n => ?_, ?_⟩, fun v member above slot' known => ?_⟩
        · by_cases same : (a, n) = u
          · subst same
            rw [atUse]
            exact kept below
          · rw [show g a n = f a n from if_neg same]
            exact keeps a below n
        · rw [List.map_cons, atUse, all]
          exact congrArg (slot :: ·) (List.map_congr_left fun v member => (elsewhere v member).symm)
        · rcases List.mem_cons.mp member with rfl | member
          · rw [atUse]
            exact here slot' known above
          · rw [elsewhere v member]
            exact agrees' v member above slot' known

/-! No mapping, where a slot is used again. -/

/-- All that is remembered has been given out. -/
def Bounded (s : LocalsShifter) (next : Nat) : Prop :=
  ∀ u : Use, u.2 = 1 ∨ u.2 = 2 → ∀ slot, s.new? u = some slot → slot < next

/-- What is remembered has been given out, also after a use that moves. -/
theorem Moves.bounded (moves : Moves s next u slot s' next') (size : u.2 = 1 ∨ u.2 = 2)
    (bounded : Bounded s next) : Bounded s' next' := by
  cases moves with
  | kept | known => exact bounded
  | given =>
      intro v size' slot' known
      rw [new?_give size size'] at known
      split at known
      · rw [← Option.some.inj known]
        omega
      · have := bounded v size' slot' known
        omega

/-- What is remembered after some uses has been given out, and nothing is remembered of a wide
use that was not met. -/
theorem MovesAll.remembers {slots : List Int} (moves : MovesAll s next uses slots s' next')
    (sizes : ∀ u ∈ uses, u.2 = 1 ∨ u.2 = 2) (bounded : Bounded s next) :
    Bounded s' next' ∧ s'.fixed = s.fixed ∧
      ∀ slot, s.new? (slot, 2) = none → (slot, 2) ∉ uses → s'.new? (slot, 2) = none := by
  induction moves with
  | done => exact ⟨bounded, rfl, fun _ unknown _ => unknown⟩
  | @step s s' s'' next next' next'' u rest slot slots first others inductionHypothesis =>
      have size := sizes u (List.mem_cons_self ..)
      obtain ⟨bounded', fixed, wide⟩ := inductionHypothesis
        (fun v member => sizes v (List.mem_cons_of_mem _ member)) (first.bounded size bounded)
      refine ⟨bounded', fixed.trans first.fixed, fun slot' unknown unmet => wide slot' ?_ ?_⟩
      · by_contra known
        rcases first.of_new? size (.inr rfl) unknown known with met | ⟨-, narrow⟩
        · exact unmet (met ▸ List.mem_cons_self ..)
        · simp at narrow
      · exact fun member => unmet (List.mem_cons_of_mem _ member)

/-- No wide use takes the place of the narrow one of a slot. -/
def Undisplaced (s : LocalsShifter) (uses : List Use) (slot : Int) : Prop :=
  s.new? (slot, 2) ≠ none ∨ (slot, 2) ∉ uses

/-- A use that moves leaves no wide use to take the place of a narrow one, if there was none. -/
theorem Moves.undisplaced {rest : List Use} {a : Int} (moves : Moves s next u slot s' next')
    (size : u.2 = 1 ∨ u.2 = 2) (undisplaced : Undisplaced s (u :: rest) a) :
    Undisplaced s' rest a := by
  rcases undisplaced with known | unmet
  · rcases moves.new?_of size (.inr rfl) known with same | ⟨-, -, -, narrow⟩
    · exact .inl (same ▸ known)
    · simp at narrow
  · exact .inr fun member => unmet (List.mem_cons_of_mem _ member)

/-- What is remembered for a narrow use stays where no wide one takes its place. -/
theorem MovesAll.new?_narrow {slots : List Int} {a m : Int}
    (moves : MovesAll s next uses slots s' next') (sizes : ∀ u ∈ uses, u.2 = 1 ∨ u.2 = 2)
    (undisplaced : Undisplaced s uses a) (known : s.new? (a, 1) = some m) :
    s'.new? (a, 1) = some m := by
  induction moves with
  | done => exact known
  | @step s s' s'' next next' next'' u rest slot slots first others inductionHypothesis =>
      have size := sizes u (List.mem_cons_self ..)
      refine inductionHypothesis (fun v member => sizes v (List.mem_cons_of_mem _ member))
        (first.undisplaced size undisplaced) ?_
      rcases first.new?_of (v := (a, 1)) size (.inl rfl) (by rw [known]; simp) with
        same | ⟨_, unknown, rfl, _⟩
      · exact same.trans known
      · rcases undisplaced with known' | unmet
        · exact absurd unknown known'
        · exact absurd (List.mem_cons_self ..) unmet

/-- Where a narrow use moves is remembered where no wide one takes its place. -/
theorem MovesAll.new?_mapped {slots : List Int} {a : Int} {f : Int → Nat → Int}
    (moves : MovesAll s next uses slots s' next') (sizes : ∀ u ∈ uses, u.2 = 1 ∨ u.2 = 2)
    (undisplaced : Undisplaced s uses a) (mapped : slots = uses.map fun u => f u.1 u.2)
    (met : (a, 1) ∈ uses) (above : s.fixed ≤ a) : s'.new? (a, 1) = some (f a 1) := by
  induction moves with
  | done => cases met
  | @step s s' s'' next next' next'' u rest slot slots first others inductionHypothesis =>
      have size := sizes u (List.mem_cons_self ..)
      have sizes' : ∀ v ∈ rest, v.2 = 1 ∨ v.2 = 2 := fun v member =>
        sizes v (List.mem_cons_of_mem _ member)
      have undisplaced' := first.undisplaced size undisplaced
      rw [List.map_cons, List.cons.injEq] at mapped
      rcases List.mem_cons.mp met with rfl | met
      · rw [← mapped.1]
        exact others.new?_narrow sizes' undisplaced' (first.new?_self size above)
      · exact inductionHypothesis sizes' undisplaced' mapped.2 met (first.fixed ▸ above)

/-- The parts of some uses move one after the other. -/
theorem MovesAll.split {first rest : List Use} {slots : List Int}
    (moves : MovesAll s next (first ++ rest) slots s' next') :
    ∃ slots₁ slots₂ middle next₁, slots = slots₁ ++ slots₂ ∧
      MovesAll s next first slots₁ middle next₁ ∧ MovesAll middle next₁ rest slots₂ s' next' := by
  induction first generalizing s next slots with
  | nil => exact ⟨[], slots, s, next, rfl, .done s next, moves⟩
  | cons u first inductionHypothesis =>
      cases moves with
      | step one others =>
          obtain ⟨slots₁, slots₂, middle, next₁, rfl, before, after⟩ := inductionHypothesis others
          exact ⟨_ :: slots₁, slots₂, middle, next₁, rfl, .step one before, after⟩

/-- There are as many new slots as uses. -/
theorem MovesAll.length {slots : List Int} (moves : MovesAll s next uses slots s' next') :
    slots.length = uses.length := by
  induction moves with
  | done => rfl
  | step _ _ inductionHypothesis => rw [List.length_cons, List.length_cons, inductionHypothesis]

/-- A slot that is used again has its narrow uses moved to two slots. -/
theorem MovesAll.not_reused {slots : List Int} {a : Int} {f : Int → Nat → Int}
    (moves : MovesAll s next uses slots s' next') (sizes : ∀ u ∈ uses, u.2 = 1 ∨ u.2 = 2)
    (bounded : Bounded s next) (unknown : s.new? (a, 2) = none) (above : s.fixed ≤ a)
    (mapped : slots = uses.map fun u => f u.1 u.2) : ¬Reused uses a := by
  rintro ⟨before, after, rfl, unmet, narrow, again⟩
  have sizesBefore : ∀ u ∈ before, u.2 = 1 ∨ u.2 = 2 := fun u member =>
    sizes u (List.mem_append_left _ member)
  have sizesAfter : ∀ u ∈ after, u.2 = 1 ∨ u.2 = 2 := fun u member =>
    sizes u (List.mem_append_right _ (List.mem_cons_of_mem _ member))
  obtain ⟨slots₁, slots₂, middle, next₁, rfl, first, rest⟩ := moves.split
  rw [List.map_append] at mapped
  obtain ⟨mapped₁, mapped₂⟩ := List.append_inj mapped (by rw [first.length, List.length_map])
  -- The narrow use has moved to a slot below the next one to give out,
  obtain ⟨bounded', fixed, wide⟩ := first.remembers sizesBefore bounded
  have low : f a 1 < next₁ := bounded' (a, 1) (.inl rfl) _
    (first.new?_mapped sizesBefore (.inr unmet) mapped₁ narrow above)
  -- the wide one moves to that next slot, and the narrow one moves there from then on.
  have unknown' : middle.new? (a, 2) = none := wide a unknown unmet
  cases rest with
  | step one others =>
      rw [List.map_cons, List.cons.injEq] at mapped₂
      cases one with
      | kept below =>
          rw [fixed] at below
          omega
      | known _ remembered => exact nomatch unknown'.symm.trans remembered
      | given =>
          have undisplaced : Undisplaced (middle.give (middle.key a 2) next₁ 2) after a := .inl (by
            rw [new?_give (u := (a, 2)) (v := (a, 2)) (.inr rfl) (.inr rfl), if_pos (.inl rfl)]
            simp)
          have here : (middle.give (middle.key a 2) next₁ 2).new? (a, 1) = some (next₁ : Int) := by
            rw [new?_give (u := (a, 2)) (v := (a, 1)) (.inr rfl) (.inl rfl),
              if_pos (.inr ⟨rfl, rfl⟩)]
          have kept := others.new?_narrow sizesAfter undisplaced here
          have moved := others.new?_mapped sizesAfter undisplaced mapped₂.2 again
            (by rw [fixed_give, fixed]; exact above)
          have same : (next₁ : Int) = f a 1 := Option.some.inj (kept.symm.trans moved)
          omega

/-- A shifter remembers nothing at its start. -/
@[simp] theorem new?_start (fixed : Int) (u : Use) : (start fixed).new? u = none := by
  simp [new?, start]

/-- A shifter that remembers nothing has given out nothing. -/
theorem bounded_start (fixed : Int) (next : Nat) : Bounded (start fixed) next := by
  intro u _ slot known
  rw [new?_start] at known
  cases known

/-- From a fresh shifter one mapping gives all new slots exactly where no slot is used again. -/
theorem exists_mapping_iff_not_reused {fixed : Int} {slots : List Int}
    (moves : MovesAll (start fixed) next uses slots s' next')
    (sizes : ∀ u ∈ uses, u.2 = 1 ∨ u.2 = 2) :
    (∃ f, Mapping fixed f uses slots) ↔ ∀ slot, fixed ≤ slot → ¬Reused uses slot := by
  constructor
  · rintro ⟨f, -, mapped⟩ slot above
    exact moves.not_reused sizes (bounded_start fixed next) (new?_start ..) above mapped
  · intro unused
    have safe : Safe (start fixed) uses := by
      intro slot above _ before after split first narrow again
      refine unused slot above ⟨before, after, split, first, ?_, again⟩
      rcases narrow with known | met
      · exact absurd (new?_start ..) known
      · exact met
    obtain ⟨f, mapping, -⟩ := moves.mapping sizes safe
    exact ⟨f, mapping⟩

end LocalsShifter

namespace CodeDraft

/-! ## Calls of a body builder -/

open LocalsShifter (Use)

variable {σ : Type}

/-- What can be asked of the builder of a body. -/
inductive Call (σ : Type) where
  | emit (e : CodeElement)
  | startLabel
  | endLabel
  /-- Whatever does not concern the body: constants, labels, errors. -/
  | session (act : Build σ Unit)
  | allocate (k : Kind)

/-- Asks a builder, and gives the slots that it hands out. There are none where the request is an
error. -/
def Call.ask : Call σ → CodeM σ (Option Use)
  | .emit e => do
    Outlet.terminal.emit e
    return none
  | .startLabel => do
    let _ ← CodeM.startLabel
    return none
  | .endLabel => do
    let _ ← CodeM.endLabel
    return none
  | .session act => do
    Drafting.session act
    return none
  | .allocate k => do
    let slot ← CodeM.allocateLocal k
    return if 0 ≤ slot then some (slot, k.slots) else none

/-- All slots that a builder hands out over some calls. -/
def handedOut : List (Call σ) → CodeM σ (List Use)
  | [] => return []
  | call :: rest => do
    let u ← call.ask
    return u.toList ++ (← handedOut rest)

/-- The elements that some calls emit. -/
def emitted (calls : List (Call σ)) : List CodeElement :=
  calls.filterMap fun
    | .emit e => some e
    | _ => none

variable {d d' d'' : CodeDraft} {s s' s'' : Session σ}

/-- The slots for several calls are those for the first and then those for the others. -/
theorem handedOut_cons_apply (call : Call σ) (rest : List (Call σ)) (d : CodeDraft)
    (s : Session σ) :
    handedOut (call :: rest) d s =
      (let first := call.ask d s
      let others := handedOut rest first.1.2 first.2
      ((first.1.1.toList ++ others.1.1, others.1.2), others.2)) := rfl

/-- The slots for several calls start with those for the first. -/
theorem handedOut_cons (call : Call σ) (rest : List (Call σ)) (d : CodeDraft) (s : Session σ) :
    (handedOut (call :: rest) d s).1.1 =
      (call.ask d s).1.1.toList ++ (handedOut rest (call.ask d s).1.2 (call.ask d s).2).1.1 := rfl

/-- The slots for calls after others come after theirs. -/
theorem handedOut_append {first rest : List (Call σ)} {handed handed' : List Use}
    (ran : handedOut first d s = ((handed, d'), s'))
    (further : handedOut rest d' s' = ((handed', d''), s'')) :
    handedOut (first ++ rest) d s = ((handed ++ handed', d''), s'') := by
  induction first generalizing d s handed with
  | nil =>
      cases ran
      exact further
  | cons call first inductionHypothesis =>
      rcases asked : call.ask d s with ⟨⟨u, d₁⟩, s₁⟩
      rcases others : handedOut first d₁ s₁ with ⟨⟨handed₁, d₂⟩, s₂⟩
      rw [handedOut_cons_apply, asked] at ran
      simp only [others] at ran
      cases ran
      rw [List.cons_append, handedOut_cons_apply, asked]
      simp only [inductionHypothesis others, List.append_assoc]

/-- Taking an element hands out no slots. -/
theorem frame_take (e : CodeElement) (d : CodeDraft) (s : Session σ) :
    ((take e : CodeM σ Unit) d s).1.2.frame = d.frame := by
  rcases d with ⟨source, parent, frame, start, stop, target⟩
  cases target with
  | collecting elements => rfl
  | writing w =>
      simp only [take]
      rcases Build.interning (w.put s.options e).run s with ⟨_ | _, s'⟩ <;> rfl

/-- Emitting an element hands out no slots. -/
theorem frame_emit (e : CodeElement) (d : CodeDraft) (s : Session σ) :
    ((Outlet.terminal.emit e : CodeM σ Unit) d s).1.2.frame = d.frame := by
  by_cases taking : Draft.stop? d s = none
  · rw [Outlet.emit_of_open taking]
    exact frame_take e d (s.withUser ())
  · rw [Outlet.emit_of_stop taking]

/-- Emitting an element leaves what the caller keeps. -/
theorem user_emit (e : CodeElement) (d : CodeDraft) (s : Session σ) :
    ((Outlet.terminal.emit e : CodeM σ Unit) d s).2.user = s.user := by
  by_cases taking : Draft.stop? d s = none
  · rw [Outlet.emit_of_open taking]
    rfl
  · rw [Outlet.emit_of_stop taking]

/-- A draft that has collected some elements. -/
def Collected (d : CodeDraft) (elements : List CodeElement) : Prop :=
  d.target = .collecting elements.toArray

/-- Calls lead from draft `d` in session `s` to draft `d'` in session `s'`. They hand out the slots
`handed` and emit the elements `es`, which a draft that collects has at its end. -/
structure Made (d : CodeDraft) (s : Session σ) (handed : List Use) (es : List CodeElement)
    (d' : CodeDraft) (s' : Session σ) : Prop where
  calls : ∃ calls : List (Call σ), handedOut calls d s = ((handed, d'), s') ∧ emitted calls = es
  collects : ∀ elements, Collected d elements → Collected d' (elements ++ es)

/-- No calls hand out nothing and emit nothing. -/
theorem Made.refl (d : CodeDraft) (s : Session σ) : Made d s [] [] d s where
  calls := ⟨[], rfl, rfl⟩
  collects elements collected := by rwa [List.append_nil]

/-- Calls after others hand out and emit after them. -/
theorem Made.trans {handed handed' : List Use} {es es' : List CodeElement}
    (made : Made d s handed es d' s') (further : Made d' s' handed' es' d'' s'') :
    Made d s (handed ++ handed') (es ++ es') d'' s'' where
  calls := by
    obtain ⟨first, ran, rfl⟩ := made.calls
    obtain ⟨rest, ran', rfl⟩ := further.calls
    exact ⟨first ++ rest, handedOut_append ran ran', List.filterMap_append ..⟩
  collects elements collected := by
    rw [← List.append_assoc]
    exact further.collects _ (made.collects _ collected)

end CodeDraft

end JvmClass
