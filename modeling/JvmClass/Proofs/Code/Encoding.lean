import JvmClass.Proofs.Build.Lays
import JvmClass.Proofs.Code.Cells
import JvmClass.Proofs.Code.Outline
import JvmClass.Proofs.Stack.Effect

/-!
# Instructions that are encoded and decoded again

Cells encode an instruction if, wherever a body spells what they come out as, decoding gives an
instruction that says the same. Every form of an instruction has its own layout, from which the
operands are read.
-/

namespace JvmClass

open Layout (covered)

/-! ## Instructions that say the same -/

namespace Instruction

/-- The instruction refers to no label. -/
structure Unlabelled (i : Instruction) : Prop where
  names : ∀ l, some l ∉ i.labels
  stays : ∀ place, i.canonical.relabel place = i.canonical

/-- An instruction without labels refers to none. -/
theorem Unlabelled.of_labels {i : Instruction} (labels : i.labels = [])
    (stays : ∀ place, i.canonical.relabel place = i.canonical) : i.Unlabelled :=
  ⟨fun _ member => absurd (labels ▸ member) List.not_mem_nil, stays⟩

/-- What was decoded says the same as the instruction, where the body names labels by the offsets
that they stand at. -/
structure Restates (stands : Label → Option Nat) (c : InputCode) (i i' : Instruction) : Prop where
  same : ∀ place place' : Label → Option Label,
    (∀ l, some l ∈ i.labels → ∀ n, stands l = some n → place' (c.label n) = place l) →
    i'.canonical.relabel place' = i.canonical.relabel place
  named : ∀ l, some l ∈ i.labels → ∀ n, stands l = some n → some (c.label n) ∈ i'.labels
  only : ∀ l', some l' ∈ i'.labels → ∃ l n, some l ∈ i.labels ∧ stands l = some n ∧ l' = c.label n

variable {stands : Label → Option Nat} {c : InputCode} {i i' : Instruction}

/-- Instructions that refer to no labels say the same if they have the same form. -/
theorem Restates.of_unlabelled (free : i.Unlabelled) (free' : i'.Unlabelled)
    (same : i'.canonical = i.canonical) : i.Restates stands c i' where
  same _ _ _ := by rw [free.stays, free'.stays, same]
  named l member := absurd member (free.names l)
  only l' member := absurd member (free'.names l')

end Instruction

/-! ## Reading operands -/

namespace Opcode

/-- The length of an instruction by its shape, zero when it varies. -/
def length (op : Opcode) : Shape → Nat
  | .load | .store => if op.implicitSlot?.isSome then 1 else 2
  | .increment | .field | .newObject | .newReferenceArray | .typeCheck => 3
  | .branch => if op = gotoW then 5 else 3
  | .invoke => if op = invokeinterface then 5 else 3
  | .invokeDynamic => 5
  | .newMultiArray => 4
  | .newPrimitiveArray => 2
  | .constant => if op = bipush ∨ op = ldc then 2
      else if op = sipush ∨ op = ldcW ∨ op = ldc2W then 3 else 1
  | .discontinued => if op = ret then 2 else if op = jsrW then 5 else 3
  | .tableSwitch | .lookupSwitch => 0
  | _ => 1

set_option maxRecDepth 8000 in
/-- The size of an opcode in the table is the length of its shape. -/
theorem size_eq_length (op : Opcode) : ∀ info ∈ op.info?, info.size = op.length info.shape :=
  forall_of_rows (p := fun op info => info.size = op.length info.shape) (by decide) op

/-- The row of an opcode of a shape. -/
theorem row_of_shape {op : Opcode} {s : Shape} (shape : op.shape? = some s) :
    ∃ info, op.info? = some info ∧ info.shape = s ∧ info.size = op.length s := by
  obtain ⟨info, known, rfl⟩ := Option.map_eq_some_iff.mp shape
  exact ⟨info, known, rfl, op.size_eq_length info known⟩

/-- Opcodes with a layout of their own, and their shapes. -/
def loneShapes : List (Opcode × Shape) :=
  [(invokedynamic, .invokeDynamic), (new, .newObject), (anewarray, .newReferenceArray),
    (multianewarray, .newMultiArray), (ldc, .constant), (bipush, .constant),
    (sipush, .constant), (newarray, .newPrimitiveArray), (iinc, .increment),
    (ret, .discontinued), (ldcW, .constant), (ldc2W, .constant)]

/-- An opcode with a layout of its own has this shape. -/
theorem shape_of_lone {op : Opcode} {s : Shape} (lone : (op, s) ∈ loneShapes) :
    op.shape? = some s := by
  have all : ∀ row ∈ loneShapes, row.1.shape? = some row.2 := by decide +kernel
  exact all (op, s) lone

/-- An opcode with a layout of its own has a row of the table, with the length of its shape. -/
theorem row_of_lone {op : Opcode} {s : Shape} (lone : (op, s) ∈ loneShapes) :
    ∃ info, op.info? = some info ∧ info.shape = s ∧ info.size = op.length s :=
  row_of_shape (shape_of_lone lone)

/-- The code of a kind of component stands for the kind. -/
theorem arrayKind?_of_arrayCode? {k : Kind} {n : Nat} (named : arrayCode? k = some n) :
    n < 256 ∧ arrayKind? n = some k := by
  have told : ∀ row ∈ arrayCodes, row.1 < 256 ∧ arrayKind? row.1 = some row.2 := by decide
  obtain ⟨row, found, rfl⟩ := Option.map_eq_some_iff.mp named
  obtain rfl : row.2 = k := by simpa using List.find?_some found
  exact told row (List.mem_of_find?_eq_some found)

set_option maxRecDepth 8000 in
/-- The loads whose slot can be widened. -/
theorem widens_load (op : Opcode) (explicit : op.implicitSlot? = none)
    (shape : op.shape? = some .load) :
    op ≠ iinc ∧ (iload.byte ≤ op.byte && op.byte ≤ aload.byte) = true := by
  obtain ⟨info, known, shape⟩ := info_of_shape shape
  exact forall_of_rows (p := fun op info => op.implicitSlot? = none → info.shape = .load →
    op ≠ iinc ∧ (iload.byte ≤ op.byte && op.byte ≤ aload.byte) = true) (by decide)
    op info known explicit shape

set_option maxRecDepth 8000 in
/-- The stores whose slot can be widened. -/
theorem widens_store (op : Opcode) (explicit : op.implicitSlot? = none)
    (shape : op.shape? = some .store) :
    op ≠ iinc ∧ (iload.byte ≤ op.byte && op.byte ≤ aload.byte) = false ∧
      (istore.byte ≤ op.byte && op.byte ≤ astore.byte) = true := by
  obtain ⟨info, known, shape⟩ := info_of_shape shape
  exact forall_of_rows (p := fun op info => op.implicitSlot? = none → info.shape = .store →
    op ≠ iinc ∧ (iload.byte ≤ op.byte && op.byte ≤ aload.byte) = false ∧
      (istore.byte ≤ op.byte && op.byte ≤ astore.byte) = true) (by decide)
    op info known explicit shape

set_option maxRecDepth 8000 in
/-- The widening prefix is no opcode. -/
theorem byte_ne_wide (op : Opcode) : ∀ info ∈ op.info?, op.byte ≠ wide :=
  forall_of_rows (p := fun op _ => op.byte ≠ wide) (by decide) op

end Opcode

namespace InputCode

variable {c : InputCode} {offset : Nat} {op : Opcode} {info : OpcodeInfo}

/-- An instruction with a known opcode stands at the offset, not past the end of the code. -/
structure Opens (c : InputCode) (offset : Nat) (op : Opcode) (info : OpcodeInfo) : Prop where
  first : c.cursor.u1? (c.codeStart + offset : Nat) = some op.byte.toNat
  known : op.info? = some info
  room : offset + info.size ≤ c.codeLength

namespace Opens

/-- An opcode is found again from its byte. -/
theorem byte (op : Opcode) : (⟨op.byte.toNat.toUInt8⟩ : Opcode) = op := by simp

/-- An instruction that opens is not a wide form. -/
theorem notWide (opens : c.Opens offset op info) : ¬op.byte.toNat.toUInt8 = Opcode.wide := by
  have other := op.byte_ne_wide info opens.known
  simpa using other

/-- An instruction that opens ends inside the code. -/
theorem whole (opens : c.Opens offset op info) :
    (decide (0 < info.size) && decide (c.codeLength < offset + info.size)) = false := by
  have room := opens.room
  rw [Bool.and_eq_false_iff, decide_eq_false_iff_not, decide_eq_false_iff_not]
  omega

end Opens

/-- Offsets in the code are targets of jumps. -/
theorem readTarget_of_lt {n : Nat} (inside : n < c.codeLength) :
    c.readTarget offset ((n : Int) - offset) = .ok (c.label n) := by
  have target : (offset : Int) + ((n : Int) - offset) = n := by omega
  simp only [readTarget, target, Int.toNat_natCast]
  rw [if_neg]
  simp only [Bool.or_eq_true, decide_eq_true_eq]
  omega

/-- A constant of the pool is loaded by the instruction for its width. -/
theorem readConstant_of_loads {size p index : Nat} {e : Loadable}
    (loads : op = Opcode.ldc ∨ op = Opcode.ldcW ∨ op = Opcode.ldc2W)
    (number : (if op = Opcode.ldc then c.cursor.u1? (p + 1) else c.cursor.u2? (p + 1)) = some index)
    (referred : ∀ offset, c.input.pool.refer Entry.loadable? offset index = .ok e)
    (wide : e.kind.isWide = (op = Opcode.ldc2W)) :
    c.readConstant op size p = .ok (.constant op 0 (some e), size) := by
  have other : op ≠ Opcode.bipush ∧ op ≠ Opcode.sipush := by
    rcases loads with rfl | rfl | rfl <;> decide
  rw [readConstant, if_neg other.1, if_neg other.2, if_pos (by simpa [or_assoc] using loads)]
  refine bind_eq_ok_iff.mpr ⟨index, by rw [number]; rfl, ?_⟩
  refine bind_eq_ok_iff.mpr ⟨e, referred _, ?_⟩
  exact guard_eq_ok_iff.mpr ⟨by simp [wide], rfl⟩

/-- Other constants stand in the opcode. -/
theorem readConstant_of_length {p : Nat} (one : 1 = op.length .constant) :
    c.readConstant op 1 p = .ok (.constant op 0 none, 1) := by
  have other : op ∉ [Opcode.bipush, Opcode.sipush, Opcode.ldc, Opcode.ldcW, Opcode.ldc2W] := by
    intro member
    simp only [List.mem_cons, List.not_mem_nil, or_false] at member
    rcases member with rfl | rfl | rfl | rfl | rfl <;> revert one <;> decide
  simp only [List.mem_cons, List.not_mem_nil, or_false, not_or] at other
  obtain ⟨byte, word, short, long, wide⟩ := other
  rw [readConstant, if_neg byte, if_neg word, if_neg (by simp [short, long, wide])]
  rfl

end InputCode

/-! ## Cells that encode an instruction -/

namespace Cell

open Instruction (Unlabelled Restates)
open InputCode (Opens)

/-- Wherever a body spells what the cells come out as, decoding gives an instruction that says the
same, if the body reads the pool and its labels stand for instructions. -/
structure Encodes (q : PoolBuilder) (offset : Nat) (i : Instruction) (cells : List Cell) :
    Prop where
  positive : 0 < widths cells
  reads : ∀ {stands : Label → Option Nat} {text : Bytes} {c : InputCode},
    Resolves stands cells text → c.input.Reads q → c.codeLength ≤ BodyWriter.maxSize →
    (∀ l, some l ∈ i.labels → ∀ n, stands l = some n → n < c.codeLength) →
    offset + text.length ≤ c.codeLength → c.cursor.Spells (c.codeStart + offset) text →
    ∃ i', c.readInstruction offset = .ok (i', text.length) ∧ i.Restates stands c i'

variable {q : PoolBuilder} {offset : Nat} {op : Opcode} {info : OpcodeInfo} {operands : Bytes}
  {i : Instruction}

/-- An instruction without labels that is an opcode with operands. -/
theorem encodes_code (known : op.info? = some info) (size : info.size = 1 + operands.length)
    (free : i.Unlabelled)
    (reads : ∀ c : InputCode, c.input.Reads q → c.Opens offset op info →
      c.cursor.Spells (c.codeStart + offset + 1) operands →
      ∃ i', c.readInstruction offset = .ok (i', info.size) ∧ i'.Unlabelled ∧
        i'.canonical = i.canonical) : Encodes q offset i (code op operands) where
  positive := by
    rw [code, widths_bytes]
    exact Nat.succ_pos _
  reads {stands text c} resolves reads' _ _ room spells := by
    obtain rfl := resolves_code_iff.mp resolves
    obtain ⟨first, there⟩ := spells.cons
    have length : (op.byte :: operands).length = info.size := by
      rw [size, List.length_cons, Nat.add_comm]
    rw [length] at room ⊢
    obtain ⟨i', read, free', same⟩ := reads c reads' ⟨first, known, room⟩ there
    exact ⟨i', read, .of_unlabelled free free' same⟩

/-! ### Instructions that refer to a constant -/

/-- What an instruction refers to is read from its first two operand bytes. -/
theorem encodes_referring {α γ : Type} {want : Entry → Option α} {bare : α → γ} {e : Entry} {a : α}
    {index : Nat} {more : Bytes} (make : α → Instruction) (known : op.info? = some info)
    (size : info.size = 3 + more.length) (blind : Entry.Blind want bare) (taken : want e = some a)
    (denotes : q.Denotes index e.bare) (free : ∀ a, (make a).Unlabelled)
    (same : ∀ a', bare a' = bare a → (make a').canonical = (make a).canonical)
    (reads : ∀ (c : InputCode) (a' : α), bare a' = bare a → c.Opens offset op info →
      c.cursor.Spells (c.codeStart + offset + 3) more →
      c.cursor.u2? ((c.codeStart + offset : Nat) + 1) = some index →
      (∀ p, c.input.pool.refer want p index = .ok a') →
      c.readInstruction offset = .ok (make a', info.size)) :
    Encodes q offset (make a) (code op (u2 index ++ more)) := by
  refine encodes_code known (by rw [size, List.length_append, length_u2]; omega) (free a)
    fun c reads' opens spells => ?_
  obtain ⟨small, -, a', referred, equal⟩ := reads'.refer blind taken denotes
  obtain ⟨number, rest⟩ := Cursor.spells_append_iff.mp spells
  rw [length_u2] at rest
  exact ⟨make a', reads c a' equal opens rest (number.u2_of_lt small) referred, free a',
    same a' equal⟩

/-- An access to a field is decoded from its opcode and its index. -/
theorem encodes_field {m : MemberEntry} {index : Nat} (shape : op.shape? = some .field)
    (kind : m.kind = .field) (denotes : q.Denotes index (Entry.member m).bare) :
    Encodes q offset (.field op (some m)) (code op (u2 index)) := by
  obtain ⟨info, known, shape, size⟩ := Opcode.row_of_shape shape
  rw [← List.append_nil (u2 index)]
  refine encodes_referring (fun m => .field op (some m)) known size Entry.blind_field?
    (e := .member m) (by simp [Entry.field?, kind]) denotes (fun _ => .of_labels rfl fun _ => rfl)
    (fun m' same => ?_) fun c m' same opens rest number referred => ?_
  · rw [Instruction.canonical, Instruction.canonical, Option.map_some, Option.map_some, same]
  · simp only [InputCode.readInstruction, opens.first, covered, bind, Except.bind, Opens.byte,
      opens.notWide, opens.known, opens.whole, shape, number, referred, if_false]
    rw [size]
    rfl

/-- A call of a method is decoded from its opcode and its index, with two more bytes for an
interface. -/
theorem encodes_invoke {m : MemberEntry} {index : Nat} {more : Bytes}
    (shape : op.shape? = some .invoke) (kind : m.kind ≠ .field)
    (interface : op = Opcode.invokeinterface → m.kind = .interfaceMethod)
    (counted : more.length = if op = Opcode.invokeinterface then 2 else 0)
    (denotes : q.Denotes index (Entry.member m).bare) :
    Encodes q offset (.invoke op (some m)) (code op (u2 index ++ more)) := by
  obtain ⟨info, known, shape, size⟩ := Opcode.row_of_shape shape
  refine encodes_referring (fun m => .invoke op (some m)) known ?_ Entry.blind_member?
    (e := .member m) rfl denotes (fun _ => .of_labels rfl fun _ => rfl)
    (fun m' same => ?_) fun c m' same opens rest number referred => ?_
  · rw [size, counted, Opcode.length]
    split <;> rfl
  · rw [Instruction.canonical, Instruction.canonical, Option.map_some, Option.map_some, same]
  · have kinds : m'.bare.kind = m.bare.kind := congrArg MemberEntry.kind same
    have kinds : m'.kind = m.kind := kinds
    have called : (decide (m'.kind = .field) ||
        (decide (op = Opcode.invokeinterface) && decide (m'.kind ≠ .interfaceMethod))) = false := by
      rw [kinds]
      by_cases isInterface : op = Opcode.invokeinterface
      · simp [interface isInterface]
      · simp [kind, isInterface]
    simp only [InputCode.readInstruction, opens.first, covered, bind, Except.bind, Opens.byte,
      opens.notWide, opens.known, opens.whole, shape, number, referred, called]
    rfl

/-- A call of a call site is decoded from its opcode, its index and two more bytes. -/
theorem encodes_invokeDynamic {site : CallSiteEntry} {index : Nat} {more : Bytes}
    (two : more.length = 2) (denotes : q.Denotes index (Entry.callSite site).bare) :
    Encodes q offset (.invokeDynamic (some site))
      (code Opcode.invokedynamic (u2 index ++ more)) := by
  obtain ⟨info, known, shape, size⟩ :=
    Opcode.row_of_lone (show (Opcode.invokedynamic, Shape.invokeDynamic) ∈ _ by decide)
  refine encodes_referring (fun s => .invokeDynamic (some s)) known (by rw [size, two]; rfl)
    Entry.blind_callSite? (e := .callSite site) rfl denotes (fun _ => .of_labels rfl fun _ => rfl)
    (fun s same => ?_) fun c s same opens rest number referred => ?_
  · rw [Instruction.canonical, Instruction.canonical, Option.map_some, Option.map_some, same]
  · simp only [InputCode.readInstruction, opens.first, covered, bind, Except.bind, Opens.byte,
      opens.notWide, opens.known, opens.whole, shape, number, referred, if_false]
    rw [size]
    rfl

section Classes

variable {type : ClassEntry} {index : Nat}
  (denotes : q.Denotes index (Entry.loadable (.class type)).bare)
include denotes

/-- The creation of an object is decoded from its opcode and the index of its class. -/
theorem encodes_newObject :
    Encodes q offset (.newObject (some type)) (code Opcode.new (u2 index)) := by
  obtain ⟨info, known, shape, size⟩ :=
    Opcode.row_of_lone (show (Opcode.new, Shape.newObject) ∈ _ by decide)
  rw [← List.append_nil (u2 index)]
  refine encodes_referring (fun t => .newObject (some t)) known size Entry.blind_class?
    (e := .loadable (.class type)) rfl denotes (fun _ => .of_labels rfl fun _ => rfl)
    (fun t same => ?_) fun c t same opens rest number referred => ?_
  · rw [Instruction.canonical, Instruction.canonical, Option.map_some, Option.map_some, same]
  · simp only [InputCode.readInstruction, opens.first, covered, bind, Except.bind, Opens.byte,
      opens.notWide, opens.known, opens.whole, shape, number, referred, if_false]
    rw [size]
    rfl

/-- The creation of an array of references is decoded from its opcode and the index of its class. -/
theorem encodes_newReferenceArray :
    Encodes q offset (.newReferenceArray (some type)) (code Opcode.anewarray (u2 index)) := by
  obtain ⟨info, known, shape, size⟩ :=
    Opcode.row_of_lone (show (Opcode.anewarray, Shape.newReferenceArray) ∈ _ by decide)
  rw [← List.append_nil (u2 index)]
  refine encodes_referring (fun t => .newReferenceArray (some t)) known size Entry.blind_class?
    (e := .loadable (.class type)) rfl denotes (fun _ => .of_labels rfl fun _ => rfl)
    (fun t same => ?_) fun c t same opens rest number referred => ?_
  · rw [Instruction.canonical, Instruction.canonical, Option.map_some, Option.map_some, same]
  · simp only [InputCode.readInstruction, opens.first, covered, bind, Except.bind, Opens.byte,
      opens.notWide, opens.known, opens.whole, shape, number, referred, if_false]
    rw [size]
    rfl

/-- A cast or a check of a type is decoded from its opcode and the index of its class. -/
theorem encodes_typeCheck (shape : op.shape? = some .typeCheck) :
    Encodes q offset (.typeCheck op (some type)) (code op (u2 index)) := by
  obtain ⟨info, known, shape, size⟩ := Opcode.row_of_shape shape
  rw [← List.append_nil (u2 index)]
  refine encodes_referring (fun t => .typeCheck op (some t)) known size Entry.blind_class?
    (e := .loadable (.class type)) rfl denotes (fun _ => .of_labels rfl fun _ => rfl)
    (fun t same => ?_) fun c t same opens rest number referred => ?_
  · rw [Instruction.canonical, Instruction.canonical, Option.map_some, Option.map_some, same]
  · simp only [InputCode.readInstruction, opens.first, covered, bind, Except.bind, Opens.byte,
      opens.notWide, opens.known, opens.whole, shape, number, referred, if_false]
    rw [size]
    rfl

/-- The creation of an array of several dimensions is decoded from its opcode, the index of its
class and their number. -/
theorem encodes_newMultiArray {dimensions : Nat} (small : dimensions < 256) :
    Encodes q offset (.newMultiArray (some type) dimensions)
      (code Opcode.multianewarray (u2 index ++ u1 dimensions)) := by
  obtain ⟨info, known, shape, size⟩ :=
    Opcode.row_of_lone (show (Opcode.multianewarray, Shape.newMultiArray) ∈ _ by decide)
  refine encodes_referring (fun t => .newMultiArray (some t) dimensions) known
    (by rw [size, length_u1]; rfl) Entry.blind_class? (e := .loadable (.class type)) rfl denotes
    (fun _ => .of_labels rfl fun _ => rfl) (fun t same => ?_)
    fun c t same opens rest number referred => ?_
  · rw [Instruction.canonical, Instruction.canonical, Option.map_some, Option.map_some, same]
  · have count : c.cursor.u1? ((c.codeStart + offset : Nat) + 3) = some dimensions :=
      rest.u1_of_lt small
    simp only [InputCode.readInstruction, opens.first, covered, bind, Except.bind, Opens.byte,
      opens.notWide, opens.known, opens.whole, shape, number, count, referred, if_false]
    rw [size]
    rfl

end Classes

/-- What encodes an instruction encodes others of the same canonical form. -/
theorem Encodes.of_canonical {j : Instruction} {cells : List Cell}
    (encodes : Encodes q offset j cells)
    (free : j.Unlabelled) (free' : i.Unlabelled) (same : j.canonical = i.canonical) :
    Encodes q offset i cells where
  positive := encodes.positive
  reads resolves reads short _ room spells := by
    obtain ⟨i', read, restates⟩ := encodes.reads resolves reads short
      (fun l member => absurd member (free.names l)) room spells
    refine ⟨i', read, fun place place' _ => ?_, fun l member => absurd member (free'.names l),
      fun l' member => ?_⟩
    · rw [restates.same place place' fun l member => absurd member (free.names l), free.stays,
        free'.stays, same]
    · obtain ⟨l, -, named, -⟩ := restates.only l' member
      exact absurd named (free.names l)

/-! ### Constants -/

/-- A constant with a wide index is decoded from its opcode and its index. -/
theorem encodes_loadLong {e : Loadable} {index : Nat} (loads : op = Opcode.ldcW ∨ op = Opcode.ldc2W)
    (wide : e.kind.isWide = (op = Opcode.ldc2W))
    (denotes : q.Denotes index (Entry.loadable e).bare) :
    Encodes q offset (.constant op 0 (some e)) (code op (u2 index)) := by
  have constant : op.shape? = some .constant := by
    rcases loads with rfl | rfl <;> exact Opcode.shape_of_lone (by decide)
  obtain ⟨info, known, shape, size⟩ := Opcode.row_of_shape constant
  have three : info.size = 3 := by rcases loads with rfl | rfl <;> exact size
  rw [← List.append_nil (u2 index)]
  refine encodes_referring (fun e => .constant op 0 (some e)) known three Entry.blind_loadable?
    (e := .loadable e) rfl denotes (fun _ => .of_labels rfl fun _ => rfl) (fun e' same => ?_)
    fun c e' same opens rest number referred => ?_
  · rw [Instruction.canonical, Instruction.canonical, Option.map_some, Option.map_some, same]
  · have kinds : e'.kind = e.kind := by rw [← Loadable.kind_bare, same, Loadable.kind_bare]
    have number : (if op = Opcode.ldc then c.cursor.u1? ((c.codeStart + offset : Nat) + 1)
        else c.cursor.u2? ((c.codeStart + offset : Nat) + 1)) = some index := by
      rwa [if_neg (by rcases loads with rfl | rfl <;> decide)]
    simp only [InputCode.readInstruction, opens.first, covered, bind, Except.bind, Opens.byte,
      opens.notWide, opens.known, opens.whole, shape, if_false]
    exact InputCode.readConstant_of_loads (.inr loads) number referred (kinds ▸ wide)

/-- A constant with a short index is decoded from one byte. -/
theorem encodes_loadShort {e : Loadable} {index : Nat} (short : index < 256)
    (wide : e.kind.isWide = false) (denotes : q.Denotes index (Entry.loadable e).bare) :
    Encodes q offset (.constant Opcode.ldc 0 (some e)) (code Opcode.ldc (u1 index)) := by
  obtain ⟨info, known, shape, size⟩ :=
    Opcode.row_of_lone (show (Opcode.ldc, Shape.constant) ∈ _ by decide)
  refine encodes_code known (by rw [size, length_u1]; rfl) (.of_labels rfl fun _ => rfl)
    fun c reads opens spells => ?_
  obtain ⟨-, -, e', referred, same⟩ :=
    reads.refer Entry.blind_loadable? (e := .loadable e) rfl denotes
  have kinds : e'.kind = e.kind := by rw [← Loadable.kind_bare, same, Loadable.kind_bare]
  have number : (if Opcode.ldc = Opcode.ldc then c.cursor.u1? ((c.codeStart + offset : Nat) + 1)
      else c.cursor.u2? ((c.codeStart + offset : Nat) + 1)) = some index := spells.u1_of_lt short
  refine ⟨.constant Opcode.ldc 0 (some e'), ?_, (.of_labels rfl fun _ => rfl), ?_⟩
  · simp only [InputCode.readInstruction, opens.first, covered, bind, Except.bind, Opens.byte,
      opens.notWide, opens.known, opens.whole, shape, if_false]
    refine InputCode.readConstant_of_loads (.inl rfl) number referred ?_
    rw [kinds, wide]
    decide
  · rw [Instruction.canonical, Instruction.canonical, Option.map_some, Option.map_some, same]

/-- A constant of one byte is decoded from it. -/
theorem encodes_bytePush {value : Int} (fits : signed 8 value = value) :
    Encodes q offset (.constant Opcode.bipush value none) (code Opcode.bipush (u1 value)) := by
  obtain ⟨info, known, shape, size⟩ :=
    Opcode.row_of_lone (show (Opcode.bipush, Shape.constant) ∈ _ by decide)
  refine encodes_code known (by rw [size, length_u1]; rfl) (.of_labels rfl fun _ => rfl)
    fun c _ opens spells =>
      ⟨.constant Opcode.bipush value none, ?_, (.of_labels rfl fun _ => rfl), rfl⟩
  have number : c.cursor.s1? ((c.codeStart + offset : Nat) + 1) = some value :=
    fits ▸ spells.s1
  simp only [InputCode.readInstruction, opens.first, covered, bind, Except.bind, Opens.byte,
    opens.notWide, opens.known, opens.whole, shape, InputCode.readConstant, number, if_true,
    if_false]
  rw [size]
  rfl

/-- A constant of two bytes is decoded from them. -/
theorem encodes_shortPush {value : Int} (fits : signed 16 value = value) :
    Encodes q offset (.constant Opcode.sipush value none) (code Opcode.sipush (u2 value)) := by
  obtain ⟨info, known, shape, size⟩ :=
    Opcode.row_of_lone (show (Opcode.sipush, Shape.constant) ∈ _ by decide)
  refine encodes_code known (by rw [size, length_u2]; rfl) (.of_labels rfl fun _ => rfl)
    fun c _ opens spells =>
      ⟨.constant Opcode.sipush value none, ?_, (.of_labels rfl fun _ => rfl), rfl⟩
  have number : c.cursor.s2? ((c.codeStart + offset : Nat) + 1) = some value :=
    fits ▸ spells.s2
  have other : Opcode.sipush ≠ Opcode.bipush := by decide
  simp only [InputCode.readInstruction, opens.first, covered, bind, Except.bind, Opens.byte,
    opens.notWide, opens.known, opens.whole, shape, InputCode.readConstant, other, number, if_true,
    if_false]
  rw [size]
  rfl

/-! ### Instructions without operands -/

/-- An instruction that is only its opcode is decoded from it. -/
theorem encodes_plain (given : Instruction.ofOpcode? op = some i) :
    Encodes q offset i (code op []) := by
  have whole := given
  rw [Instruction.ofOpcode?, Option.bind_eq_bind, Option.bind_eq_some_iff] at given
  obtain ⟨info, known, given⟩ := given
  have size := op.size_eq_length info known
  split at given
  · cases given
  rename_i one
  have one : info.size = 1 := not_not.mp one
  have free : i.Unlabelled := by
    cases shape : info.shape <;> simp only [shape] at given <;> cases given <;>
      exact .of_labels rfl fun _ => rfl
  refine encodes_code known one free fun c _ opens _ => ⟨i, ?_, free, rfl⟩
  have inside := opens.whole
  rw [one] at inside ⊢
  simp only [InputCode.readInstruction, opens.first, covered, bind, Except.bind, Opens.byte,
    opens.notWide, opens.known, one, inside, if_false, if_true]
  cases shape : info.shape <;> simp only [shape, reduceCtorEq] at given ⊢
  case load | store =>
    obtain rfl := Option.some.inj given
    rfl
  case constant =>
    obtain rfl := Option.some.inj given
    rw [one, shape] at size
    exact InputCode.readConstant_of_length size
  all_goals
    simp only [whole]
    rfl

/-! ### Instructions with numbers -/

/-- The creation of an array of numbers is decoded from its opcode and the code of its kind. -/
theorem encodes_newPrimitiveArray {k : Kind} {n : Nat} (named : Opcode.arrayCode? k = some n) :
    Encodes q offset (.newPrimitiveArray k) (code Opcode.newarray (u1 n)) := by
  obtain ⟨info, known, shape, size⟩ :=
    Opcode.row_of_lone (show (Opcode.newarray, Shape.newPrimitiveArray) ∈ _ by decide)
  obtain ⟨small, told⟩ := Opcode.arrayKind?_of_arrayCode? named
  refine encodes_code known (by rw [size, length_u1]; rfl) (.of_labels rfl fun _ => rfl)
    fun c _ opens spells => ⟨.newPrimitiveArray k, ?_, (.of_labels rfl fun _ => rfl), rfl⟩
  have number : c.cursor.u1? ((c.codeStart + offset : Nat) + 1) = some n := spells.u1_of_lt small
  simp only [InputCode.readInstruction, opens.first, covered, bind, Except.bind, Opens.byte,
    opens.notWide, opens.known, opens.whole, shape, number, told, if_false]
  rw [size]
  rfl

/-- Loads and stores, by shape. -/
def localForm? : Shape → Option (Opcode → Int → Instruction)
  | .load => some .load
  | .store => some .store
  | _ => none

variable {shape : Shape} {make : Opcode → Int → Instruction}

/-- A load or a store refers to no label. -/
theorem unlabelled_of_localForm (form : localForm? shape = some make) (slot : Int) :
    (make op slot).Unlabelled := by
  cases shape <;> cases form <;> exact .of_labels rfl fun _ => rfl

/-- A load or store with its slot in one byte. -/
theorem encodes_local {slot : Nat} (small : slot < 256) (form : localForm? shape = some make)
    (shaped : op.shape? = some shape) (long : op.implicitSlot? = none) :
    Encodes q offset (make op slot) (code op (u1 slot)) := by
  obtain ⟨info, known, shaped, size⟩ := Opcode.row_of_shape shaped
  have two : info.size = 2 := by
    cases shape <;> cases form <;> simpa [Opcode.length, long] using size
  have free : (make op slot).Unlabelled := unlabelled_of_localForm form slot
  refine encodes_code known (by rw [two, length_u1]) free
    fun c _ opens spells => ⟨make op slot, ?_, free, rfl⟩
  have number : c.cursor.u1? ((c.codeStart + offset : Nat) + 1) = some slot :=
    spells.u1_of_lt small
  have inside := opens.whole
  rw [two] at inside ⊢
  simp only [InputCode.readInstruction, opens.first, covered, bind, Except.bind, Opens.byte,
    opens.notWide, opens.known, inside, two, number, if_false]
  cases shape <;> cases form <;> simp only [shaped] <;> rfl

/-- An instruction without labels that comes after the widening prefix. -/
theorem encodes_wide (free : i.Unlabelled)
    (reads : ∀ c : InputCode, offset + (2 + operands.length) ≤ c.codeLength →
      c.cursor.u1? ((c.codeStart + offset : Nat) + 1) = some op.byte.toNat →
      c.cursor.Spells (c.codeStart + offset + 2) operands →
      c.readWide offset = .ok (i, 2 + operands.length)) :
    Encodes q offset i (bytes (Opcode.wide :: op.byte :: operands)) where
  positive := by
    rw [widths_bytes]
    exact Nat.succ_pos _
  reads {stands text c} resolves _ _ _ room spells := by
    obtain rfl := resolves_bytes_iff.mp resolves
    obtain ⟨first, rest⟩ := spells.cons
    obtain ⟨second, rest⟩ := rest.cons
    have length : (Opcode.wide :: op.byte :: operands).length = 2 + operands.length := by
      rw [List.length_cons, List.length_cons]
      omega
    rw [length] at room ⊢
    refine ⟨i, ?_, .of_unlabelled free free rfl⟩
    simp only [InputCode.readInstruction, first, covered, bind, Except.bind]
    exact reads c room second rest

/-- A load or a store of a wide slot is decoded from its wide form. -/
theorem encodes_wideLocal {slot : Nat} (small : slot < 65536) (form : localForm? shape = some make)
    (shaped : op.shape? = some shape) (long : op.implicitSlot? = none) :
    Encodes q offset (make op slot) (bytes (Opcode.wide :: op.byte :: u2 slot)) := by
  refine encodes_wide (unlabelled_of_localForm form slot) fun c room second rest => ?_
  have number : c.cursor.u2? ((c.codeStart + offset : Nat) + 2) = some slot := rest.u2_of_lt small
  have whole : ¬c.codeLength < offset + 4 := by
    rw [length_u2] at room
    omega
  have same : op.byte.toNat.toUInt8 = op.byte := congrArg Opcode.byte (Opens.byte op)
  simp only [InputCode.readWide, whole, second, covered, bind, Except.bind, same, number, if_false]
  cases shape <;> cases form
  case load =>
    obtain ⟨other, loads⟩ := op.widens_load long shaped
    rw [if_neg other, if_pos loads]
    rfl
  case store =>
    obtain ⟨other, loads, stores⟩ := op.widens_store long shaped
    rw [if_neg other, if_neg (by rw [loads]; decide), if_pos stores]
    rfl

/-- An increment in its short form. -/
theorem encodes_increment {slot : Nat} {delta : Int} (small : slot < 256)
    (fits : signed 8 delta = delta) :
    Encodes q offset (.increment slot delta) (code Opcode.iinc (u1 slot ++ u1 delta)) := by
  obtain ⟨info, known, shape, size⟩ :=
    Opcode.row_of_lone (show (Opcode.iinc, Shape.increment) ∈ _ by decide)
  refine encodes_code known (by rw [size, List.length_append, length_u1, length_u1]; rfl)
    (.of_labels rfl fun _ => rfl)
    fun c _ opens spells => ⟨.increment slot delta, ?_, (.of_labels rfl fun _ => rfl), rfl⟩
  obtain ⟨here, there⟩ := Cursor.spells_append_iff.mp spells
  rw [length_u1] at there
  have number : c.cursor.u1? ((c.codeStart + offset : Nat) + 1) = some slot := here.u1_of_lt small
  have amount : c.cursor.s1? ((c.codeStart + offset : Nat) + 2) = some delta := fits ▸ there.s1
  simp only [InputCode.readInstruction, opens.first, covered, bind, Except.bind, Opens.byte,
    opens.notWide, opens.known, opens.whole, shape, number, amount, if_false]
  rw [size]
  rfl

/-- An increment of a wide slot or by a wide number is decoded from its wide form. -/
theorem encodes_wideIncrement {slot : Nat} {delta : Int} (small : slot < 65536)
    (fits : signed 16 delta = delta) :
    Encodes q offset (.increment slot delta)
      (bytes (Opcode.wide :: Opcode.iinc.byte :: (u2 slot ++ u2 delta))) := by
  refine encodes_wide (.of_labels rfl fun _ => rfl) fun c room second rest => ?_
  obtain ⟨here, there⟩ := Cursor.spells_append_iff.mp rest
  rw [length_u2] at there
  rw [List.length_append, length_u2, length_u2] at room ⊢
  have number : c.cursor.u2? ((c.codeStart + offset : Nat) + 2) = some slot := here.u2_of_lt small
  have amount : c.cursor.s2? ((c.codeStart + offset : Nat) + 4) = some delta := fits ▸ there.s2
  have four : ¬c.codeLength < offset + 4 := by omega
  have six : ¬c.codeLength < offset + 6 := by omega
  simp only [InputCode.readWide, four, six, second, covered, bind, Except.bind, Opens.byte, number,
    amount, if_true, if_false]
  rfl

/-- A return from a subroutine with its slot in one byte. -/
theorem encodes_ret {slot : Nat} (small : slot < 256) :
    Encodes q offset (.discontinued Opcode.ret none slot) (code Opcode.ret (u1 slot)) := by
  obtain ⟨info, known, shape, size⟩ :=
    Opcode.row_of_lone (show (Opcode.ret, Shape.discontinued) ∈ _ by decide)
  have free : (Instruction.discontinued Opcode.ret none slot).Unlabelled :=
    ⟨fun l member => absurd (List.mem_singleton.mp member) (Option.some_ne_none l), fun _ => rfl⟩
  refine encodes_code known (by rw [size, length_u1]; rfl) free
    fun c _ opens spells => ⟨_, ?_, free, rfl⟩
  have number : c.cursor.u1? ((c.codeStart + offset : Nat) + 1) = some slot :=
    spells.u1_of_lt small
  simp only [InputCode.readInstruction, opens.first, covered, bind, Except.bind, Opens.byte,
    opens.notWide, opens.known, opens.whole, shape, number, if_true, if_false]
  rw [size]
  rfl

/-- A return from a subroutine by a wide slot is decoded from its wide form. -/
theorem encodes_wideRet {slot : Nat} (small : slot < 65536) :
    Encodes q offset (.discontinued Opcode.ret none slot)
      (bytes (Opcode.wide :: Opcode.ret.byte :: u2 slot)) := by
  refine encodes_wide ⟨fun l member =>
      absurd (List.mem_singleton.mp member) (Option.some_ne_none l), fun _ => rfl⟩
    fun c room second rest => ?_
  rw [length_u2] at room ⊢
  have number : c.cursor.u2? ((c.codeStart + offset : Nat) + 2) = some slot := rest.u2_of_lt small
  have whole : ¬c.codeLength < offset + 4 := by omega
  simp only [InputCode.readWide, whole, second, covered, bind, Except.bind, Opens.byte, number,
    if_false]
  rfl

end Cell

end JvmClass
