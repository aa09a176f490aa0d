import JvmClass.Proofs.Bytes.Cursor
import JvmClass.Proofs.Descriptor.Grammar
import JvmClass.Proofs.Locals.Allocation

/-!
# The slots of parameters

The receiver and the parameters of a method take its first local slots, one after another. Where
they lie is worked out from the descriptor in five places: by the builder of a body, by the frame
that hands out the slots after them, by the transform that moves the other locals, by the reader of
stack maps and by the encoder of interface calls. The frame, the transform and the encoder start
from one sum, the builder goes through the parameters before the one asked for, and the reader lists
a type for each. They agree for every descriptor that is read.
-/

namespace JvmClass

open LocalsShifter (Use)
open LocalsShifter.Use (Apart)
open CodeDraft (EndToEnd)

/-- How many slots a local variable of the type takes. -/
def VerificationType.slots : VerificationType → Nat
  | .plain 3 | .plain 4 => 2
  | _ => 1

/-- A value takes a slot. -/
theorem Kind.slots_pos {k : Kind} (value : k ≠ .void) : 0 < k.slots := by
  cases k with
  | void => exact absurd rfl value
  | _ => exact Nat.zero_lt_succ _

/-- A type has values. -/
theorem Descriptor.FieldSpelling.kind_ne_void {type : Descriptor}
    (spelling : FieldSpelling type.text) : type.kind ≠ .void := by
  obtain ⟨c, tail, first, lead⟩ := spelling.head
  have letters : (91 :: 76 :: baseLetters).all (Kind.ofDescriptor [·] ≠ .void) = true := by decide
  have listed : c ∈ 91 :: 76 :: baseLetters := by
    rcases lead with rfl | base | rfl <;> simp [*]
  rw [Descriptor.kind, first]
  exact of_decide_eq_true (List.all_eq_true.mp letters c listed)

/-- A parameter takes as many slots as the type that a frame has for it. -/
theorem VerificationType.slots_ofDescriptor {type : Descriptor} (value : type.kind ≠ .void) :
    (ofDescriptor type).slots = type.kind.slots := by
  rw [ofDescriptor]
  cases kind : type.kind with
  | void => exact absurd kind value
  | _ => rfl

namespace MethodDescriptor

variable {d : MethodDescriptor} {s : Text} {static : Bool}

/-- The slots that types take which lie end to end from a slot on. -/
def usesFrom (n : Nat) : List Descriptor → List Use
  | [] => []
  | type :: rest => (n, type.kind.slots) :: usesFrom (n + type.kind.slots) rest

/-- How many slots the receiver takes. -/
def receiverSlots (static : Bool) : Nat := if static then 0 else 1

/-- The slots of the parameters, above that of the receiver. -/
def uses (d : MethodDescriptor) (static : Bool) : List Use :=
  usesFrom (receiverSlots static) d.params

/-- The slots of types lie end to end. -/
theorem endToEnd_usesFrom (n : Nat) (types : List Descriptor) : EndToEnd n (usesFrom n types) := by
  induction types generalizing n with
  | nil => exact .done n
  | cons type rest inductionHypothesis => exact .next (inductionHypothesis _)

/-- Every type has the slots of its kind. -/
theorem sizes_usesFrom (n : Nat) (types : List Descriptor) :
    (usesFrom n types).map (·.2) = types.map fun type => type.kind.slots := by
  induction types generalizing n with
  | nil => rfl
  | cons type rest inductionHypothesis =>
      rw [usesFrom, List.map_cons, List.map_cons, inductionHypothesis]

/-- A type starts above all that the types before it take. -/
theorem getElem?_usesFrom (n : Nat) (types : List Descriptor) (i : Nat) :
    (usesFrom n types)[i]? = types[i]?.map fun type =>
      (((n + ((types.take i).map fun type => type.kind.slots).sum : Nat) : Int),
        type.kind.slots) := by
  induction types generalizing n i with
  | nil => rfl
  | cons type rest inductionHypothesis =>
      cases i with
      | zero => rfl
      | succ i =>
          rw [usesFrom, List.getElem?_cons_succ, inductionHypothesis, List.getElem?_cons_succ,
            List.take_succ_cons, List.map_cons, List.sum_cons, Nat.add_assoc]

/-- A method is as wide as its receiver and the sum of its parameters. -/
theorem width_eq (d : MethodDescriptor) (static : Bool) :
    d.width static = receiverSlots static + (d.params.map fun type => type.kind.slots).sum := by
  rw [width, slots, List.sum, List.foldr_map, Nat.add_comm, receiverSlots]

/-! ## The five computations -/

section Builder

variable {σ : Type} {draft : CodeDraft} {slot : Int}

/-- A builder hands on the slot that its frame has for a parameter. -/
theorem parameterSlot_of_frame {i : Int} (known : draft.frame.parameter? i = .ok slot)
    (session : Session σ) :
    (CodeM.parameterSlot i : CodeM σ Int) draft session = ((slot, draft), session) := by
  change (CodeM.slotOr (draft.frame.parameter? i) : CodeM σ Int) draft session = _
  rw [known]
  rfl

/-- A builder hands on the slot that its frame has for the receiver. -/
theorem receiverSlot_of_frame (known : draft.frame.receiver? = .ok slot) (session : Session σ) :
    (CodeM.receiverSlot : CodeM σ Int) draft session = ((slot, draft), session) := by
  change (CodeM.slotOr draft.frame.receiver? : CodeM σ Int) draft session = _
  rw [known]
  rfl

end Builder

/-- Going on by the size of each type in turn adds their sum. -/
theorem foldl_slots (types : List Descriptor) (n : Nat) :
    types.foldl (fun slot type => slot + type.kind.slots) n =
      n + (types.map fun type => type.kind.slots).sum := by
  induction types generalizing n with
  | nil => rfl
  | cons type rest inductionHypothesis =>
      rw [List.foldl_cons, inductionHypothesis, List.map_cons, List.sum_cons, Nat.add_assoc]

/-- A frame works a slot out from the parameters before it. -/
theorem parameter?_of_getElem? {frame : LocalFrame} {i : Nat} {u : Use}
    (here : (frame.descriptor.uses frame.static)[i]? = some u) :
    frame.parameter? i = .ok u.1 := by
  rw [uses, getElem?_usesFrom, Option.map_eq_some_iff] at here
  obtain ⟨type, here, rfl⟩ := here
  obtain ⟨inside, -⟩ := List.getElem?_eq_some_iff.mp here
  have known : ¬((i : Int) < 0 ∨ (frame.descriptor.params.length : Int) ≤ i) := by omega
  simp only [LocalFrame.parameter?, Bool.or_eq_true, decide_eq_true_eq, if_neg known,
    Int.toNat_natCast, foldl_slots, receiverSlots]

/-- The types that a stack map starts from take the slots of the receiver and the parameters. -/
theorem slots_initialLocals (values : ∀ type ∈ d.params, type.kind ≠ .void) {m : InputMember}
    (parses : parse m.descriptor.text = .ok d) :
    ∃ types, Attribute.initialLocals m = .ok types ∧
      (types.map VerificationType.slots).sum = d.width m.flags.isStatic := by
  have sizes : d.params.map (fun type => (VerificationType.ofDescriptor type).slots) =
      d.params.map fun type => type.kind.slots :=
    List.map_congr_left fun type member => VerificationType.slots_ofDescriptor (values type member)
  rw [Attribute.initialLocals, parses]
  refine ⟨_, rfl, ?_⟩
  rw [List.map_append, List.sum_append, List.map_map, Function.comp_def, sizes, width_eq,
    receiverSlots]
  congr 1
  split
  · rfl
  · split <;> rfl

/-- An interface call is written with the sum of its slots, in one byte. -/
theorem ofInstruction_invokeinterface {m : MemberEntry} (parses : parse m.type = .ok d)
    (offset : Nat) (p : PoolBuilder) : ∃ (index : Nat) (p' : PoolBuilder),
      (Cell.ofInstruction offset (.invoke Opcode.invokeinterface (some m))).run p =
        (.ok (Cell.code Opcode.invokeinterface
          (u2 index ++ [(d.width false).toUInt8, 0])), p') := by
  have count : u1 (1 + d.slots : Nat) = [(d.width false).toUInt8] := by
    have low : unsigned 8 ((1 + d.slots : Nat) : Int) = (1 + d.slots) % 256 := rfl
    have byte : ((1 + d.slots) % 256).toUInt8 = (d.width false).toUInt8 := by
      apply UInt8.toNat_inj.mp
      rw [toNat_toUInt8, toNat_toUInt8, width]
      simp [Nat.add_comm]
    rw [u1, low, bigEndian, bigEndian, byte, List.nil_append]
  have invoked : Cell.ofInstruction offset (.invoke Opcode.invokeinterface (some m)) = do
      let cells ← Cell.ofRef Opcode.invokeinterface (some (.member m)) []
      return cells ++ Cell.bytes ([(d.width false).toUInt8] ++ u1 0) := by
    change Cell.ofInvoke Opcode.invokeinterface (some m) = _
    simp only [Cell.ofInvoke, parses, count, Option.map_some, ↓reduceIte]
  rw [invoked]
  refine ⟨(PoolBuilder.indexOf (.member m) p).1, (PoolBuilder.indexOf (.member m) p).2, ?_⟩
  have zero : u1 0 = [0] := by decide
  have joined (index : Nat) : Cell.code Opcode.invokeinterface (u2 index ++ []) ++
      Cell.bytes ([(d.width false).toUInt8] ++ u1 0) =
        Cell.code Opcode.invokeinterface (u2 index ++ [(d.width false).toUInt8, 0]) := by
    simp [Cell.code, Cell.bytes, zero]
  rw [← joined]
  rfl

/-- The sums of all the computations, for the text of a descriptor and either kind of method. -/
structure Agrees (s : Text) (d : MethodDescriptor) (static : Bool) : Prop where
  sizes : (d.uses static).map (·.2) = d.params.map fun type => type.kind.slots
  occupied : ∀ u ∈ d.uses static, 0 < u.2
  consecutive : EndToEnd (receiverSlots static) (d.uses static)
  apart : (d.uses static).Pairwise Apart
  ends : receiverSlots static + ((d.uses static).map (·.2)).sum = d.width static
  /-- A builder of a body gives the slots of the parameters. -/
  parameter : ∀ {σ : Type} (draft : CodeDraft) (session : Session σ), draft.frame.static = static →
    draft.frame.descriptor = d → ∀ (i : Nat) (u : Use), (d.uses static)[i]? = some u →
      (CodeM.parameterSlot i : CodeM σ Int) draft session = ((u.1, draft), session)
  /-- A builder of a body gives the first slot for the receiver. -/
  receiver : ∀ {σ : Type} (draft : CodeDraft) (session : Session σ), draft.frame.static = static →
    static = false → (CodeM.receiverSlot : CodeM σ Int) draft session = ((0, draft), session)
  /-- A fresh frame hands out slots from above the parameters on. -/
  frame : ∀ source, (CodeDraft.frameFor static d source).static = static ∧
    (CodeDraft.frameFor static d source).descriptor = d ∧
      d.width static ≤ (CodeDraft.frameFor static d source).next
  /-- Where there is no body to go by, it starts right above them. -/
  fresh : (CodeDraft.frameFor static d none).next = d.width static
  /-- The locals that are moved are those above the parameters. -/
  shifter : ∀ flags : AccessFlags, flags.isStatic = static →
    LocalsShifter.ofMethod flags s = .ok (.start (d.width static))
  /-- The frame that a stack map starts from has as many slots. -/
  locals : ∀ m : InputMember, m.descriptor.text = s → m.flags.isStatic = static →
    ∃ types, Attribute.initialLocals m = .ok types ∧
      (types.map VerificationType.slots).sum = d.width static
  /-- An interface call counts the slots of a method that is not static. -/
  call : ∀ (m : MemberEntry) (offset : Nat) (p : PoolBuilder), m.type = s →
    ∃ (index : Nat) (count : UInt8) (p' : PoolBuilder),
      (Cell.ofInstruction offset (.invoke Opcode.invokeinterface (some m))).run p =
        (.ok (Cell.code Opcode.invokeinterface (u2 index ++ [count, 0])), p') ∧
      (d.width false ≤ 255 → count.toNat = d.width false)

/-- All computations of the slots of parameters agree for a descriptor that is read. -/
theorem agrees_of_parse (parses : parse s = .ok d) (static : Bool) : Agrees s d static := by
  obtain ⟨proper, -⟩ := parse_eq_ok_iff.mp parses
  have values (type : Descriptor) (member : type ∈ d.params) : type.kind ≠ .void :=
    (proper.params type member).kind_ne_void
  have sizes : (d.uses static).map (·.2) = d.params.map fun type => type.kind.slots :=
    sizes_usesFrom _ _
  have consecutive := endToEnd_usesFrom (receiverSlots static) d.params
  constructor
  case sizes => exact sizes
  case occupied =>
    intro u member
    have size : u.2 ∈ (d.uses static).map (·.2) := List.mem_map_of_mem member
    rw [sizes] at size
    obtain ⟨type, member, same⟩ := List.mem_map.mp size
    rw [← same]
    exact Kind.slots_pos (values type member)
  case consecutive => exact consecutive
  case apart => exact consecutive.pairwise_apart
  case ends => rw [sizes, width_eq]
  case parameter =>
    rintro σ draft session rfl rfl i u here
    exact parameterSlot_of_frame (parameter?_of_getElem? here) session
  case receiver =>
    intro σ draft session flag instance_
    apply receiverSlot_of_frame
    simp [LocalFrame.receiver?, flag, instance_]
  case frame =>
    intro source
    exact ⟨rfl, rfl, Nat.le_max_left _ _⟩
  case fresh => exact Nat.max_eq_left (Nat.zero_le _)
  case shifter =>
    intro flags flag
    rw [LocalsShifter.ofMethod, parses, flag]
  case locals =>
    rintro m text rfl
    rw [← text] at parses
    exact slots_initialLocals values parses
  case call =>
    intro m offset p text
    rw [← text] at parses
    obtain ⟨index, p', written⟩ := ofInstruction_invokeinterface parses offset p
    exact ⟨index, _, p', written, fun small => Nat.mod_eq_of_lt (by omega)⟩

/-- Wide parameters, arrays and classes of a method with a receiver. -/
theorem agrees_of_parse_wide : Agrees "(J[D[[JLjava/lang/Long;DI)V"
    ⟨[⟨"J"⟩, ⟨"[D"⟩, ⟨"[[J"⟩, ⟨"Ljava/lang/Long;"⟩, ⟨"D"⟩, ⟨"I"⟩], .void⟩ false :=
  agrees_of_parse (parse_eq_ok_iff.mpr (by decide)) false

end MethodDescriptor

end JvmClass
