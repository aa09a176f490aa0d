import JvmClass.Proofs.Code.Encoding

/-!
# Jumps and switches that are encoded and decoded again

A jump is written as the distance to its target, and what is read from there is the label of the
body at the same offset. Switches have such a distance for the default and one for every case.
-/

namespace JvmClass

open Layout (covered)

namespace Cell

open Instruction (Restates)
open InputCode (Opens)

variable {q : PoolBuilder} {offset : Nat} {op : Opcode} {i : Instruction}

/-! ### Jumps -/

/-- An instruction whose only label is the target of a jump. -/
structure Jumps (i : Instruction) (target : Label) (make : Label → Instruction) : Prop where
  labels : i.labels = [some target]
  made : ∀ l, (make l).labels = [some l]
  same : ∀ l place place', place' l = place target →
    (make l).canonical.relabel place' = i.canonical.relabel place

/-- A jump to a label that stands somewhere is restated by one to the label of this offset. -/
theorem Jumps.restates {target : Label} {make : Label → Instruction} {stands : Label → Option Nat}
    {c : InputCode} {n : Nat} (jumps : Jumps i target make) (there : stands target = some n) :
    i.Restates stands c (make (c.label n)) where
  same place place' agree := by
    refine jumps.same _ place place' (agree target ?_ n there)
    rw [jumps.labels]
    exact List.mem_singleton_self _
  named l member m found := by
    rw [jumps.labels, List.mem_singleton] at member
    obtain rfl := Option.some.inj member
    obtain rfl := Option.some.inj (there.symm.trans found)
    rw [jumps.made]
    exact List.mem_singleton_self _
  only l' member := by
    rw [jumps.made, List.mem_singleton] at member
    refine ⟨target, n, ?_, there, Option.some.inj member⟩
    rw [jumps.labels]
    exact List.mem_singleton_self _

/-- The shapes of jumps, with the opcode that jumps far and the instruction. -/
def jumpForm? (op : Opcode) : Shape → Option (Opcode × (Label → Instruction))
  | .branch => some (Opcode.gotoW, fun l => .branch op (some l))
  | .discontinued => some (Opcode.jsrW, fun l => .discontinued op (some l) 0)
  | _ => none

/-- A jump by its shape has its target for its only label. -/
theorem jumps_of_jumpForm {shape : Shape} {long : Opcode} {make : Label → Instruction}
    (form : jumpForm? op shape = some (long, make)) (target : Label) :
    Jumps (make target) target make := by
  cases shape <;> cases form <;>
    exact ⟨rfl, fun _ => rfl, fun l place place' same => by
      simp [Instruction.canonical, Instruction.relabel, same]⟩

set_option maxRecDepth 8000 in
/-- How far a jump goes is told by its opcode. -/
theorem ofJump_of_form {shape : Shape} {long : Opcode} {make : Label → Instruction}
    (shaped : op.shape? = some shape) (form : jumpForm? op shape = some (long, make))
    (target : Option Label) : ofJump op target offset =
      code op [] ++ [if op = long then .far offset target else .near offset target] := by
  have branches : Opcode.jsrW.shape? ≠ some .branch := by decide
  have leaves : Opcode.gotoW.shape? ≠ some .discontinued := by decide
  rw [ofJump]
  cases shape <;> cases form
  case branch =>
    have other : op ≠ Opcode.jsrW := fun same => branches (same ▸ shaped)
    by_cases far : op = Opcode.gotoW <;> simp [far, other]
  case discontinued =>
    have other : op ≠ Opcode.gotoW := fun same => leaves (same ▸ shaped)
    by_cases far : op = Opcode.jsrW <;> simp [far, other]

/-- A jump takes five bytes if it is far, and three otherwise. -/
theorem length_of_form {shape : Shape} {long : Opcode} {make : Label → Instruction}
    (form : jumpForm? op shape = some (long, make)) (jumps : op ≠ Opcode.ret) :
    op.length shape = if op = long then 5 else 3 := by
  cases shape <;> cases form
  case branch => rfl
  case discontinued => rw [Opcode.length, if_neg jumps]

/-- A jump is decoded from the cells that are given for it, near or far. -/
theorem encodes_jump {shape : Shape} {long : Opcode} {make : Label → Instruction} {target : Label}
    (shaped : op.shape? = some shape) (form : jumpForm? op shape = some (long, make))
    (jumps : op ≠ Opcode.ret) :
    Encodes q offset (make target) (ofJump op (some target) offset) := by
  have labelled := jumps_of_jumpForm form target
  rw [ofJump_of_form shaped form]
  refine ⟨by rw [widths_append, code, widths_bytes]; exact Nat.add_pos_left (Nat.succ_pos _) _, ?_⟩
  intro stands text c resolves _ short inside room spells
  obtain ⟨front, back, rfl, first, second⟩ := resolves_append_iff.mp resolves
  obtain rfl := resolves_code_iff.mp first
  obtain ⟨opcode, distance⟩ := spells.cons
  obtain ⟨info, known, shaped, size⟩ := Opcode.row_of_shape shaped
  rw [length_of_form form jumps] at size
  -- The target is the same whether its distance takes two bytes or four.
  have reached : ∃ n : Nat, stands target = some n ∧ ([op.byte] ++ back).length = info.size ∧
      (if op = long then c.cursor.s4? ((c.codeStart + offset : Nat) + 1)
        else c.cursor.s2? ((c.codeStart + offset : Nat) + 1)) = some ((n : Int) - offset) := by
    by_cases far : op = long
    · rw [if_pos far] at second size
      obtain ⟨n, there, rfl⟩ := resolves_far_iff.mp second
      have before := inside target (by simp [labelled.labels]) n there
      rw [BodyWriter.maxSize] at short
      rw [List.length_append] at room
      have fits : signed 32 ((n : Int) - offset) = (n : Int) - offset :=
        signed_of_bounds (by omega) (by omega)
      exact ⟨n, there, by simp [size], by rw [if_pos far]; exact fits ▸ distance.s4⟩
    · rw [if_neg far] at second size
      obtain ⟨n, there, low, high, rfl⟩ := resolves_near_iff.mp second
      have fits : signed 16 ((n : Int) - offset) = (n : Int) - offset :=
        signed_of_bounds (by omega) (by omega)
      exact ⟨n, there, by simp [size], by rw [if_neg far]; exact fits ▸ distance.s2⟩
  obtain ⟨n, there, length, delta⟩ := reached
  rw [length] at room ⊢
  have opens : c.Opens offset op info := ⟨opcode, known, room⟩
  have target' : c.readTarget offset ((n : Int) - offset) = .ok (c.label n) :=
    InputCode.readTarget_of_lt (inside target (by simp [labelled.labels]) n there)
  refine ⟨make (c.label n), ?_, labelled.restates there⟩
  simp only [InputCode.readInstruction, opens.first, covered, bind, Except.bind, Opens.byte,
    opens.notWide, opens.known, opens.whole, if_false]
  cases shape <;> cases form <;> simp only [shaped, delta, target', jumps, if_false] <;> rfl

end Cell

/-! ## Switches that are encoded and decoded again

A switch has one distance for the default and one for every case. A search is decoded with its cases
in the order of their values, and a table with a case for every value between its bounds.
-/

/-! ## Lists that are related item by item -/

section Related

variable {α β γ : Type} {R : α → β → Prop} {as : List α} {bs : List β}

/-- Every item of one list has a related one in the other. -/
theorem exists_right_of_forall₂ (all : List.Forall₂ R as bs) {a : α} (member : a ∈ as) :
    ∃ b ∈ bs, R a b := by
  induction all with
  | nil => cases member
  | @cons a' b as bs first others inductionHypothesis =>
      rcases List.mem_cons.mp member with rfl | member
      · exact ⟨b, List.mem_cons_self, first⟩
      · obtain ⟨b, there, holds⟩ := inductionHypothesis member
        exact ⟨b, List.mem_cons_of_mem _ there, holds⟩

/-- Every item of the second list has a related one in the first. -/
theorem exists_left_of_forall₂ (all : List.Forall₂ R as bs) {b : β} (member : b ∈ bs) :
    ∃ a ∈ as, R a b :=
  exists_right_of_forall₂ (R := flip R) (List.Forall₂.flip all) member

/-- Lists of related items have the same values, if related items do. -/
theorem map_eq_of_forall₂ {f : α → γ} {g : β → γ}
    (all : List.Forall₂ (fun a b => g b = f a) as bs) : bs.map g = as.map f := by
  induction all with
  | nil => rfl
  | cons first others inductionHypothesis =>
      rw [List.map_cons, List.map_cons, first, inductionHypothesis]

/-- What is related is so of items of the first list. -/
theorem forall₂_mem (all : List.Forall₂ R as bs) : List.Forall₂ (fun a b => a ∈ as ∧ R a b) as bs :=
  (List.forall₂_and_left as bs).mpr ⟨fun _ => id, all⟩

/-- Items of two lists that are related by way of a third. -/
theorem forall₂_trans {S : β → γ → Prop} {T : α → γ → Prop} {cs : List γ}
    (first : List.Forall₂ R as bs)
    (second : List.Forall₂ S bs cs) (through : ∀ a b c, R a b → S b c → T a c) :
      List.Forall₂ T as cs := by
  induction first generalizing cs with
  | nil =>
      cases second
      exact .nil
  | cons here others inductionHypothesis =>
      obtain ⟨c, cs, there, further, rfl⟩ := List.forall₂_cons_left_iff.mp second
      exact .cons (through _ _ _ here there) (inductionHypothesis further)

/-- Items of one list stand apart as those of the related list do. -/
theorem pairwise_of_forall₂ {S : α → α → Prop} {T : β → β → Prop} (all : List.Forall₂ R as bs)
    (apart : bs.Pairwise T) (through : ∀ a b a' b', R a b → R a' b' → T b b' → S a a') :
    as.Pairwise S := by
  induction all with
  | nil => exact .nil
  | cons here others inductionHypothesis =>
      obtain ⟨first, apart⟩ := List.pairwise_cons.mp apart
      refine .cons (fun a member => ?_) (inductionHypothesis apart)
      obtain ⟨b, there, related⟩ := exists_right_of_forall₂ others member
      exact through _ _ _ _ here related (first b there)

end Related

/-! ## Rows of one width -/

/-- Rows of one width are read one by one, each from its own bytes. -/
theorem Cursor.Spells.rows {α β : Type} {c : Cursor} {f : Nat → Except Error β} {R : α → β → Prop}
    {items : List α} {chunks : List Bytes} {width p : Nat} (spells : c.Spells p chunks.flatten)
    (each : List.Forall₂ (fun a chunk => chunk.length = width ∧
      ∀ n, c.Spells (p + width * n) chunk → ∃ b, f n = .ok b ∧ R a b) items chunks) :
    ∃ bs, (List.range items.length).mapM f = .ok bs ∧ List.Forall₂ R items bs := by
  induction items generalizing chunks p f with
  | nil => exact ⟨[], rfl, .nil⟩
  | cons a items inductionHypothesis =>
      obtain ⟨chunk, chunks, first, others, rfl⟩ := List.forall₂_cons_left_iff.mp each
      rw [List.flatten_cons, Cursor.spells_append_iff] at spells
      obtain ⟨here, there⟩ := spells
      rw [first.1] at there
      obtain ⟨b, read, holds⟩ := first.2 0 here
      obtain ⟨bs, reads, all⟩ := inductionHypothesis (f := fun n => f (n + 1)) there <|
        others.imp fun a chunk ⟨length, row⟩ => ⟨length, fun n spells => row (n + 1) <| by
          rwa [Nat.mul_add_one, Nat.add_comm (width * n), ← Nat.add_assoc]⟩
      refine ⟨b :: bs, mapM_eq_ok_iff.mpr ?_, .cons holds all⟩
      rw [List.length_cons, List.range_succ_eq_map]
      exact .cons read (List.forall₂_map_left_iff.mpr (mapM_eq_ok_iff.mp reads))

namespace Cell

variable {α : Type} {stands : Label → Option Nat}

/-- Cells of several items come out as bytes exactly if those of each come out as a part of them. -/
theorem resolves_flatMap_iff {f : α → List Cell} {as : List α} {text : Bytes} :
    Resolves stands (as.flatMap f) text ↔ ∃ chunks, text = chunks.flatten ∧
      List.Forall₂ (fun a chunk => Resolves stands (f a) chunk) as chunks := by
  induction as generalizing text with
  | nil =>
      rw [List.flatMap_nil, resolves_nil_iff]
      constructor
      · rintro rfl
        exact ⟨[], rfl, .nil⟩
      · rintro ⟨_, rfl, all⟩
        cases all
        rfl
  | cons a rest inductionHypothesis =>
      rw [List.flatMap_cons, resolves_append_iff]
      constructor
      · rintro ⟨first, _, rfl, here, there⟩
        obtain ⟨chunks, rfl, all⟩ := inductionHypothesis.mp there
        exact ⟨first :: chunks, rfl, .cons here all⟩
      · rintro ⟨_, rfl, all⟩
        cases all with
        | cons here all => exact ⟨_, _, rfl, here, inductionHypothesis.mpr ⟨_, rfl, all⟩⟩

end Cell

/-! ## Targets -/

/-- A label that was decoded names the offset that a label stands at. -/
def Reaches (stands : Label → Option Nat) (c : InputCode) (target target' : Option Label) : Prop :=
  ∃ l n, target = some l ∧ stands l = some n ∧ target' = some (c.label n)

/-- A case that was decoded has the value of a case, and reaches its target. -/
structure SwitchCase.Agrees (stands : Label → Option Nat) (c : InputCode) (a a' : SwitchCase) :
    Prop where
  value : a'.value = a.value
  target : Reaches stands c a.target a'.target

section Agreeing

variable {stands : Label → Option Nat} {c : InputCode} {fallback fallback' : Option Label}
  {listed cases' : List SwitchCase}

/-- Cases that were decoded have the values of the cases that were written. -/
theorem values_of_agrees (all : List.Forall₂ (SwitchCase.Agrees stands c) listed cases') :
    cases'.map (·.value) = listed.map (·.value) := map_eq_of_forall₂ (all.imp fun _ _ => (·.value))

/-- Cases that were decoded reach the targets of the cases that were written. -/
theorem targets_of_agrees (all : List.Forall₂ (SwitchCase.Agrees stands c) listed cases') :
    List.Forall₂ (Reaches stands c) (listed.map (·.target)) (cases'.map (·.target)) :=
  List.forall₂_map_left_iff.mpr (List.forall₂_map_right_iff.mpr (all.imp fun _ _ => (·.target)))

/-- A switch restates another one if its cases agree with the cases that the other one stands
for. -/
theorem Instruction.restates_of_agrees {i i' : Instruction}
    (make : Option Label → List SwitchCase → Instruction)
    (relabels : ∀ place fallback cases, (make fallback cases).relabel place =
      make (fallback.bind place) (cases.map (SwitchCase.relabel place)))
    (canonical : i.canonical = make fallback listed)
    (canonical' : i'.canonical = make fallback' cases')
    (labels : ∀ l, some l ∈ i.labels ↔ some l ∈ fallback :: listed.map (·.target))
    (labels' : i'.labels = fallback' :: cases'.map (·.target))
    (reaches : Reaches stands c fallback fallback')
    (all : List.Forall₂ (SwitchCase.Agrees stands c) listed cases') : i.Restates stands c i' := by
  have every := List.Forall₂.cons reaches (targets_of_agrees all)
  have placed {place place' : Label → Option Label}
      (agree : ∀ l, some l ∈ i.labels → ∀ n, stands l = some n → place' (c.label n) = place l)
      {target target' : Option Label} (member : target ∈ fallback :: listed.map (·.target))
      (reach : Reaches stands c target target') : target'.bind place' = target.bind place := by
    obtain ⟨l, n, rfl, there, rfl⟩ := reach
    exact agree l ((labels l).mpr member) n there
  constructor
  · intro place place' agree
    have same : List.Forall₂ (fun a a' => a'.relabel place' = a.relabel place) listed cases' :=
      (forall₂_mem all).imp fun a a' ⟨member, agrees⟩ => by
        rw [SwitchCase.relabel, SwitchCase.relabel, agrees.value,
          placed agree (List.mem_cons_of_mem _ (List.mem_map_of_mem member)) agrees.target]
    rw [canonical, canonical', relabels, relabels, map_eq_of_forall₂ same,
      placed agree List.mem_cons_self reaches]
  · intro l member n there
    obtain ⟨_, member', l, n', ⟨⟩, there', rfl⟩ :=
      exists_right_of_forall₂ every ((labels l).mp member)
    obtain rfl := Option.some.inj (there.symm.trans there')
    exact labels' ▸ member'
  · intro l' member
    obtain ⟨_, member', l, n, rfl, there, same⟩ := exists_left_of_forall₂ every (labels' ▸ member)
    exact ⟨l, n, (labels l).mpr member', there, Option.some.inj same⟩

end Agreeing

/-! ## Reading switches -/

namespace Cell

open Instruction (Restates)
open InputCode (Opens padding)

variable {q : PoolBuilder} {offset : Nat} {op : Opcode} {fallback : Option Label}
  {stands : Label → Option Nat} {c : InputCode}

/-- A distance in four bytes is read as the label of the target. -/
theorem reaches_of_far {target : Option Label} {text : Bytes} {p : Nat}
    (resolves : Resolves stands [.far offset target] text)
    (short : c.codeLength ≤ BodyWriter.maxSize) (within : offset < c.codeLength)
    (inside : ∀ l, target = some l → ∀ n, stands l = some n → n < c.codeLength)
    (spells : c.cursor.Spells p text) : ∃ delta l', c.cursor.s4? p = some delta ∧
      c.readTarget offset delta = .ok l' ∧ Reaches stands c target (some l') := by
  obtain ⟨n, there, rfl⟩ := resolves_far_iff.mp resolves
  obtain ⟨l, rfl, there⟩ := Option.bind_eq_some_iff.mp there
  have before := inside l rfl n there
  rw [BodyWriter.maxSize] at short
  have fits : signed 32 ((n : Int) - offset) = (n : Int) - offset :=
    signed_of_bounds (by omega) (by omega)
  exact ⟨_, _, fits ▸ spells.s4, InputCode.readTarget_of_lt before, l, n, rfl, there, rfl⟩

/-- What a switch starts with: its opcode, the padding and the default. -/
structure Heads (c : InputCode) (stands : Label → Option Nat) (op : Opcode) (offset : Nat)
    (fallback : Option Label) (back : List Cell) (text rest : Bytes) : Prop where
  length : text.length = 1 + padding offset + 4 + rest.length
  resolves : Resolves stands back rest
  spells : c.cursor.Spells (c.codeStart + offset + 1 + padding offset + 4) rest
  target : ∃ delta l', c.cursor.s4? (c.codeStart + offset + 1 + padding offset : Nat) = some delta ∧
    c.readTarget offset delta = .ok l' ∧ Reaches stands c fallback (some l')
  switches : c.readInstruction offset = c.readSwitch op offset

/-- What a switch starts with is read as its padding and its default. -/
theorem heads_of_resolves {back : List Cell} {text : Bytes}
    (shape : op.shape? = some .lookupSwitch ∨ op.shape? = some .tableSwitch)
    (resolves : Resolves stands (switchHead op offset fallback ++ back) text)
    (short : c.codeLength ≤ BodyWriter.maxSize)
    (inside : ∀ l, fallback = some l → ∀ n, stands l = some n → n < c.codeLength)
    (room : offset + text.length ≤ c.codeLength)
    (spells : c.cursor.Spells (c.codeStart + offset) text) :
    ∃ rest, Heads c stands op offset fallback back text rest := by
  obtain ⟨front, rest, rfl, first, second⟩ := resolves_append_iff.mp resolves
  obtain ⟨opening, distance, rfl, first, far⟩ := resolves_append_iff.mp first
  obtain rfl := resolves_code_iff.mp first
  obtain ⟨spells, there⟩ := Cursor.spells_append_iff.mp spells
  obtain ⟨spells, target⟩ := Cursor.spells_append_iff.mp spells
  obtain ⟨opcode, -⟩ := spells.cons
  have four : distance.length = 4 := far.length
  have before : (op.byte :: List.replicate (padding offset) 0).length = 1 + padding offset := by
    rw [List.length_cons, List.length_replicate, Nat.add_comm]
  simp only [List.length_append, before, four, ← Nat.add_assoc] at there target room
  refine ⟨rest, ?_, second, there, ?_, ?_⟩
  · simp only [List.length_append, before, four]
  · exact reaches_of_far far short (by omega) inside target
  · have reads {s : Shape} (shape : op.shape? = some s)
        (switches : s = .lookupSwitch ∨ s = .tableSwitch) :
        c.readInstruction offset = c.readSwitch op offset := by
      obtain ⟨info, known, shape, size⟩ := Opcode.row_of_shape shape
      have none : info.size = 0 := by rcases switches with rfl | rfl <;> exact size
      have opens : c.Opens offset op info := ⟨opcode, known, by omega⟩
      simp only [InputCode.readInstruction, opens.first, covered, bind, Except.bind, Opens.byte,
        opens.notWide, opens.known, opens.whole, if_false]
      rcases switches with rfl | rfl <;> simp only [shape] <;> rfl
    rcases shape with shape | shape
    · exact reads shape (.inl rfl)
    · exact reads shape (.inr rfl)

/-- Chunks of one width are as long as there are items. -/
theorem length_of_widths {α : Type} {as : List α} {chunks : List Bytes} {width : Nat}
    (all : List.Forall₂ (fun _ chunk => chunk.length = width) as chunks) :
    chunks.flatten.length = width * as.length := by
  induction all with
  | nil => rfl
  | cons first others inductionHypothesis =>
      rw [List.flatten_cons, List.length_append, inductionHypothesis, first, List.length_cons,
        Nat.mul_add_one, Nat.add_comm]

/-- Cases in the order of their values. -/
def ordered (cases : List SwitchCase) : List SwitchCase :=
  cases.mergeSort fun a b => a.value ≤ b.value

/-- Cases that have the values of ordered ones are in order. -/
theorem ordered_of_values {cases cases' : List SwitchCase}
    (same : cases'.map (·.value) = (ordered cases).map (·.value)) : ordered cases' = cases' := by
  have sorted : (ordered cases).Pairwise fun a b => decide (a.value ≤ b.value) = true :=
    List.pairwise_mergeSort (by simp; omega) (by simp; omega) cases
  have values : ((ordered cases).map (·.value)).Pairwise fun a b => decide (a ≤ b) = true :=
    List.pairwise_map.mpr sorted
  rw [← same] at values
  exact List.mergeSort_of_pairwise (List.pairwise_map.mp values)

/-- The cell that a case of a search is written as, after its value. -/
def searchCase (offset : Nat) (a : SwitchCase) : List Cell :=
  bytes (u4 a.value) ++ [.far offset a.target]

/-- The cases of a switch by search are read as they were written. -/
theorem reads_lookupCases {listed : List SwitchCase} {chunks : List Bytes} {p : Nat}
    (all : List.Forall₂ (fun a chunk => Resolves stands (searchCase offset a) chunk) listed chunks)
    (short : c.codeLength ≤ BodyWriter.maxSize) (within : offset < c.codeLength)
    (fits : ∀ a ∈ listed, signed 32 a.value = a.value)
    (inside : ∀ a ∈ listed, ∀ l, a.target = some l → ∀ n, stands l = some n → n < c.codeLength)
    (spells : c.cursor.Spells p chunks.flatten) :
    ∃ cases', c.readLookupCases offset p listed.length = .ok cases' ∧
      List.Forall₂ (SwitchCase.Agrees stands c) listed cases' := by
  refine @Cursor.Spells.rows _ _ _ _ _ _ _ 8 _ spells
    ((forall₂_mem all).imp fun a chunk ⟨member, resolves⟩ => ⟨?_, ?_⟩)
  · rw [resolves.length, searchCase, widths_append, widths_bytes, length_u4]
    rfl
  · intro n spells
    obtain ⟨value, distance, rfl, first, second⟩ := resolves_append_iff.mp resolves
    obtain rfl := resolves_bytes_iff.mp first
    obtain ⟨here, there⟩ := Cursor.spells_append_iff.mp spells
    rw [length_u4] at there
    obtain ⟨delta, l', read, reached, reaches⟩ :=
      reaches_of_far second short within (inside a member) there
    have number : c.cursor.s4? (p + 8 * n) = some (signed 32 a.value) := here.s4
    have read : c.cursor.s4? (p + 8 * n + 4) = some delta := read
    refine ⟨⟨a.value, some l'⟩, ?_, rfl, reaches⟩
    refine bind_eq_ok_iff.mpr ⟨delta, by rw [read]; rfl, bind_eq_ok_iff.mpr ⟨l', reached, ?_⟩⟩
    refine bind_eq_ok_iff.mpr ⟨a.value, by rw [number, fits a member]; rfl, rfl⟩

/-- A search has its cases in the order of their values. -/
theorem encodes_lookup {cases : List SwitchCase}
    (fits : ∀ a ∈ cases, signed 32 a.value = a.value) :
    Encodes q offset (.lookupSwitch fallback cases)
      (switchHead Opcode.lookupswitch offset fallback ++ bytes (u4 (ordered cases).length) ++
        (ordered cases).flatMap (searchCase offset)) where
  positive := by
    simp only [switchHead, code, widths_append, widths_bytes, List.length_cons]
    omega
  reads {stands text c} resolves _ short inside room spells := by
    have perm := List.mergeSort_perm cases fun a b => a.value ≤ b.value
    rw [List.append_assoc] at resolves
    obtain ⟨rest, heads⟩ := heads_of_resolves (.inl (by decide +kernel)) resolves short
      (fun l same => inside l (same ▸ List.mem_cons_self)) room spells
    obtain ⟨delta, l', read, reached, reaches⟩ := heads.target
    obtain ⟨counted, rows, rfl, first, second⟩ := resolves_append_iff.mp heads.resolves
    obtain rfl := resolves_bytes_iff.mp first
    obtain ⟨chunks, rfl, all⟩ := resolves_flatMap_iff.mp second
    obtain ⟨number, there⟩ := Cursor.spells_append_iff.mp heads.spells
    have length := heads.length
    have wide : chunks.flatten.length = 8 * (ordered cases).length :=
      length_of_widths (all.imp fun a chunk resolves => by
        rw [resolves.length, searchCase, widths_append, widths_bytes, length_u4]
        rfl)
    rw [List.length_append, length_u4, wide] at length
    rw [length_u4] at there
    have within : offset < c.codeLength := by omega
    obtain ⟨cases', decoded, agrees⟩ := reads_lookupCases all short within
      (fun a member => fits a (perm.mem_iff.mp member))
      (fun a member l same => inside l (same ▸ List.mem_cons_of_mem _
        (List.mem_map_of_mem (perm.mem_iff.mp member)))) there
    have count : signed 32 ((ordered cases).length : Nat) = (ordered cases).length := by
      rw [BodyWriter.maxSize] at short
      exact signed_of_bounds (by omega) (by omega)
    have pairs : c.cursor.s4? ((c.codeStart + offset + 1 + padding offset : Nat) + 4) =
        some ((ordered cases).length : Int) := count ▸ number.s4
    refine ⟨.lookupSwitch (some l') cases', ?_, ?_⟩
    · rw [heads.switches, InputCode.readSwitch]
      have other : ¬Opcode.lookupswitch = Opcode.tableswitch := by decide
      refine guard_eq_ok_iff.mpr ⟨by rw [if_neg other]; omega, ?_⟩
      refine bind_eq_ok_iff.mpr ⟨delta, by rw [read]; rfl, bind_eq_ok_iff.mpr ⟨l', reached, ?_⟩⟩
      rw [if_neg other]
      refine bind_eq_ok_iff.mpr ⟨(ordered cases).length, by rw [pairs]; rfl, ?_⟩
      refine guard_eq_ok_iff.mpr ⟨by omega, guard_eq_ok_iff.mpr ⟨?_, ?_⟩⟩
      · rw [if_neg other, Int.toNat_natCast]
        omega
      · rw [Int.toNat_natCast]
        refine bind_eq_ok_iff.mpr ⟨cases', decoded, ?_⟩
        rw [if_neg other]
        refine congrArg (fun n => Except.ok (Instruction.lookupSwitch (some l') cases', n)) ?_
        omega
    · refine Instruction.restates_of_agrees .lookupSwitch (fun _ _ _ => rfl) rfl ?_
        (fun l => ?_) rfl
        reaches agrees
      · exact congrArg _ (ordered_of_values (values_of_agrees agrees))
      · exact ((perm.map (·.target)).cons fallback).mem_iff.symm

/-! ### Tables -/

open Instruction (tableTarget tableCases)

/-- The last case with a value counts, and where values are distinct that is the only one. -/
theorem getElem?_insert_cases {cases : List SwitchCase} (distinct : (cases.map (·.value)).Nodup)
    (m : Std.HashMap Int (Option Label)) (v : Int) :
    (cases.foldl (fun m a => m.insert a.value a.target) m)[v]? =
      ((cases.find? fun a => a.value = v).map (·.target)).or m[v]? := by
  induction cases generalizing m with
  | nil => rfl
  | cons a rest inductionHypothesis =>
      rw [List.map_cons, List.nodup_cons] at distinct
      rw [List.foldl_cons, inductionHypothesis distinct.2, Std.HashMap.getElem?_insert]
      by_cases here : a.value = v
      · have absent : rest.find? (fun b => b.value = v) = none := by
          rw [List.find?_eq_none]
          intro b member same
          refine distinct.1 (List.mem_map.mpr ⟨b, member, ?_⟩)
          rw [here]
          exact of_decide_eq_true same
        simp [here, absent]
      · simp [here]

/-- A table filled from cases of different values gives for a value where the switch goes. -/
theorem getD_insert_cases {cases : List SwitchCase} (distinct : (cases.map (·.value)).Nodup)
    (fallback : Option Label) (v : Int) :
    ((cases.foldl (fun m a => m.insert a.value a.target)
      (∅ : Std.HashMap Int (Option Label)))[v]?).getD fallback = tableTarget fallback cases v := by
  rw [getElem?_insert_cases distinct, Std.HashMap.getElem?_empty, Option.or_none, tableTarget]

/-- A table goes where its cases or its default go. -/
theorem tableTarget_mem (fallback : Option Label) (cases : List SwitchCase) (v : Int) :
    tableTarget fallback cases v ∈ fallback :: cases.map (·.target) := by
  rw [tableTarget]
  cases found : cases.find? fun a => a.value = v with
  | none => exact List.mem_cons_self
  | some a => exact List.mem_cons_of_mem _ (List.mem_map_of_mem (List.mem_of_find?_eq_some found))

/-- A case of a switch with different values is where it goes for its value. -/
theorem tableTarget_of_mem {cases : List SwitchCase} (distinct : (cases.map (·.value)).Nodup)
    (fallback : Option Label) {a : SwitchCase} (member : a ∈ cases) :
    tableTarget fallback cases a.value = a.target := by
  have found : cases.find? (fun b => b.value = a.value) = some a := by
    induction cases with
    | nil => cases member
    | cons b rest inductionHypothesis =>
        rw [List.map_cons, List.nodup_cons] at distinct
        rcases List.mem_cons.mp member with rfl | member
        · exact List.find?_cons_of_pos (by simp)
        · have other : b.value ≠ a.value := fun same =>
            distinct.1 (same ▸ List.mem_map_of_mem member)
          rw [List.find?_cons_of_neg (by simpa using other)]
          exact inductionHypothesis distinct.2 member
  rw [tableTarget, found]
  rfl

/-- The values of a table. -/
theorem values_tableCases (low high : Int) (fallback : Option Label) (cases : List SwitchCase) :
    (tableCases low high fallback cases).map (·.value) =
      (List.range (high - low + 1).toNat).map fun n : Nat => low + n := by
  rw [tableCases, List.map_map]
  rfl

/-- A table that has a case for every value needs no other. -/
theorem tableCases_of_values {low high : Int} {fallback : Option Label} {cases : List SwitchCase}
    (every : cases.map (·.value) = (List.range (high - low + 1).toNat).map fun n : Nat => low + n) :
    tableCases low high fallback cases = cases := by
  have distinct : (cases.map (·.value)).Nodup := by
    rw [every]
    exact List.nodup_range.map fun a b same => Int.ofNat_inj.mp (Int.add_left_cancel same)
  have each : ∀ a ∈ cases, (⟨a.value, tableTarget fallback cases a.value⟩ : SwitchCase) = a :=
    fun a member => by rw [tableTarget_of_mem distinct fallback member]
  calc tableCases low high fallback cases
      = (cases.map (·.value)).map fun v => ⟨v, tableTarget fallback cases v⟩ := by
        rw [every, List.map_map]
        rfl
    _ = cases := by
        rw [List.map_map]
        exact (List.map_congr_left each).trans (List.map_id _)

/-- A case between the bounds is in the table. -/
theorem mem_tableCases {low high : Int} (fallback : Option Label) {cases : List SwitchCase}
    (distinct : (cases.map (·.value)).Nodup) {a : SwitchCase} (member : a ∈ cases)
    (between : low ≤ a.value ∧ a.value ≤ high) : a ∈ tableCases low high fallback cases := by
  refine List.mem_map.mpr ⟨(a.value - low).toNat, List.mem_range.mpr (by omega), ?_⟩
  have value : low + ((a.value - low).toNat : Int) = a.value := by omega
  rw [value, tableTarget_of_mem distinct fallback member]

/-- The cases of a switch by table are read as they were written, one for each value. -/
theorem reads_tableCases {low : Int} {listed : List SwitchCase} {chunks : List Bytes} {p : Nat}
    (values : listed.map (·.value) = (List.range listed.length).map fun n : Nat => low + n)
    (all : List.Forall₂ (fun a chunk => Resolves stands [.far offset a.target] chunk) listed chunks)
    (short : c.codeLength ≤ BodyWriter.maxSize) (within : offset < c.codeLength)
    (inside : ∀ a ∈ listed, ∀ l, a.target = some l → ∀ n, stands l = some n → n < c.codeLength)
    (spells : c.cursor.Spells p chunks.flatten) :
    ∃ cases', c.readTableCases offset low p listed.length = .ok cases' ∧
      List.Forall₂ (SwitchCase.Agrees stands c) listed cases' := by
  induction all generalizing low p with
  | nil => exact ⟨[], rfl, .nil⟩
  | @cons a chunk listed chunks first others inductionHypothesis =>
      rw [List.length_cons, List.range_succ_eq_map, List.map_cons, List.map_cons, List.map_map,
        List.cons.injEq] at values
      obtain ⟨value, values⟩ := values
      obtain ⟨within', inside⟩ := List.forall_mem_cons.mp inside
      rw [List.flatten_cons, Cursor.spells_append_iff, first.length] at spells
      obtain ⟨here, there⟩ := spells
      obtain ⟨delta, l', read, reached, reaches⟩ := reaches_of_far first short within within' here
      -- What follows the first case is a table from the next value on.
      have shifted : listed.map (·.value) =
          (List.range listed.length).map fun n : Nat => low + 1 + n := by
        rw [values]
        refine List.map_congr_left fun n _ => ?_
        simp only [Function.comp_apply, Nat.succ_eq_add_one, Int.natCast_add]
        omega
      obtain ⟨cases', reads, agrees⟩ := inductionHypothesis shifted inside there
      refine ⟨⟨a.value, some l'⟩ :: cases', mapM_eq_ok_iff.mpr ?_, .cons ⟨rfl, reaches⟩ agrees⟩
      rw [List.length_cons, List.range_succ_eq_map]
      refine .cons ?_ (List.forall₂_map_left_iff.mpr
        ((mapM_eq_ok_iff.mp reads).imp fun n b row => ?_))
      · refine bind_eq_ok_iff.mpr
          ⟨delta, congrArg covered read, bind_eq_ok_iff.mpr ⟨l', reached, ?_⟩⟩
        rw [value]
        rfl
      · have place : (p : Int) + 4 * (n.succ : Nat) =
            ((p + widths [Cell.far offset a.target] : Nat) : Int) + 4 * n := by
          rw [show widths [Cell.far offset a.target] = 4 from rfl]
          omega
        have next : low + (n.succ : Nat) = low + 1 + n := by omega
        rw [place, next]
        exact row

/-- A table has a case for every value between its bounds. -/
theorem encodes_table {low high : Int} {cases : List SwitchCase}
    (fits : (Instruction.tableSwitch low high fallback cases).Fits) (ordered : low ≤ high) :
    Encodes q offset (.tableSwitch low high fallback cases)
      (switchHead Opcode.tableswitch offset fallback ++ bytes (u4 low ++ u4 high) ++
        (tableCases low high fallback cases).map fun a => .far offset a.target) where
  positive := by
    simp only [switchHead, code, widths_append, widths_bytes, List.length_cons]
    omega
  reads {stands text c} resolves _ short inside room spells := by
    obtain ⟨lowFits, highFits, distinct, between⟩ := fits
    have labels (l : Label) : some l ∈ fallback :: cases.map (·.target) ↔
        some l ∈ fallback :: (tableCases low high fallback cases).map (·.target) := by
      constructor
      · intro member
        rcases List.mem_cons.mp member with same | member
        · exact List.mem_cons.mpr (.inl same)
        obtain ⟨a, there, target⟩ := List.mem_map.mp member
        have row := mem_tableCases fallback distinct there (between a there)
        exact List.mem_cons_of_mem _ (List.mem_map.mpr ⟨a, row, target⟩)
      · intro member
        rcases List.mem_cons.mp member with same | member
        · exact List.mem_cons.mpr (.inl same)
        obtain ⟨a, there, target⟩ := List.mem_map.mp member
        obtain ⟨n, -, rfl⟩ := List.mem_map.mp there
        exact target ▸ tableTarget_mem fallback cases _
    rw [List.append_assoc, List.map_eq_flatMap] at resolves
    obtain ⟨rest, heads⟩ := heads_of_resolves (.inr (by decide +kernel)) resolves short
      (fun l same => inside l (same ▸ List.mem_cons_self)) room spells
    obtain ⟨delta, l', read, reached, reaches⟩ := heads.target
    obtain ⟨counted, rows, rfl, first, second⟩ := resolves_append_iff.mp heads.resolves
    obtain rfl := resolves_bytes_iff.mp first
    obtain ⟨chunks, rfl, all⟩ := resolves_flatMap_iff.mp second
    obtain ⟨bounds, there⟩ := Cursor.spells_append_iff.mp heads.spells
    obtain ⟨lower, upper⟩ := Cursor.spells_append_iff.mp bounds
    have length := heads.length
    have size : (tableCases low high fallback cases).length = (high - low + 1).toNat := by
      rw [tableCases, List.length_map, List.length_range]
    have wide : chunks.flatten.length = 4 * (high - low + 1).toNat := by
      rw [← size]
      exact length_of_widths (all.imp fun a chunk resolves => resolves.length)
    rw [List.length_append, List.length_append, length_u4, length_u4, wide] at length
    rw [List.length_append, length_u4, length_u4] at there
    rw [length_u4] at upper
    have within : offset < c.codeLength := by omega
    obtain ⟨cases', decoded, agrees⟩ := reads_tableCases (by rw [size]; exact values_tableCases ..)
      all short within (fun a member l same =>
        inside l ((labels l).mpr (same ▸ List.mem_cons_of_mem _
        (List.mem_map_of_mem member)))) there
    rw [size] at decoded
    have first : c.cursor.s4? ((c.codeStart + offset + 1 + padding offset : Nat) + 4) =
        some low := lowFits ▸ lower.s4
    have last : c.cursor.s4? ((c.codeStart + offset + 1 + padding offset : Nat) + 8) =
        some high := highFits ▸ upper.s4
    refine ⟨.tableSwitch low high (some l') cases', ?_, ?_⟩
    · rw [heads.switches, InputCode.readSwitch]
      refine guard_eq_ok_iff.mpr ⟨by rw [if_pos rfl]; omega, ?_⟩
      refine bind_eq_ok_iff.mpr ⟨delta, by rw [read]; rfl, bind_eq_ok_iff.mpr ⟨l', reached, ?_⟩⟩
      rw [if_pos rfl]
      refine bind_eq_ok_iff.mpr ⟨low, by rw [first]; rfl, ?_⟩
      refine bind_eq_ok_iff.mpr ⟨high, by rw [last]; rfl, ?_⟩
      refine guard_eq_ok_iff.mpr ⟨by omega, guard_eq_ok_iff.mpr ⟨by rw [if_pos rfl]; omega, ?_⟩⟩
      refine bind_eq_ok_iff.mpr ⟨cases', decoded, ?_⟩
      rw [if_pos rfl]
      refine congrArg (fun n => Except.ok (Instruction.tableSwitch low high (some l') cases', n)) ?_
      omega
    · refine Instruction.restates_of_agrees (.tableSwitch low high)
        (fun _ _ _ => rfl) rfl ?_ labels rfl
        reaches agrees
      refine congrArg _ (tableCases_of_values ((values_of_agrees agrees).trans ?_))
      exact values_tableCases ..

end Cell

end JvmClass
