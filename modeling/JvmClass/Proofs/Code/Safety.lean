import JvmClass.Code.Reader
import JvmClass.Proofs.Attribute.Safety
import JvmClass.Proofs.Stack.Effect

/-!
# Decoding bodies never leaves their parts

A body whose parts follow one another in the buffer is decoded into elements, or not, without a
read outside of it. Every instruction is checked against the end of the code before its operands
are read, and takes up at least one byte of it, so the decoding of the instructions ends however
long it is allowed to go on.
-/

namespace JvmClass

namespace Opcode

/-- How many bytes of an instruction are looked at before anything else is checked. -/
def extent (op : Opcode) (info : OpcodeInfo) : Nat :=
  match info.shape with
  | .tableSwitch | .lookupSwitch => 0
  | .load | .store => if info.size = 1 then 1 else 2
  | .increment => 3
  | .branch => if op = gotoW then 5 else 3
  | .constant => if op = bipush || op = ldc then 2
      else if op = sipush || op = ldcW || op = ldc2W then 3 else 1
  | .field | .invoke | .invokeDynamic | .newObject | .newReferenceArray | .typeCheck => 3
  | .newMultiArray => 4
  | .newPrimitiveArray => 2
  | .discontinued => if op = ret then 2 else if op = jsrW then 5 else 3
  | _ => 1

/-- Shapes whose instructions have operands. -/
def operated : List Shape :=
  [.load, .store, .increment, .branch, .lookupSwitch, .tableSwitch, .constant, .field, .invoke,
    .invokeDynamic, .newObject, .newPrimitiveArray, .newReferenceArray, .newMultiArray, .typeCheck,
    .discontinued]

set_option maxRecDepth 8000 in
/-- What is looked at first of an instruction is no more than its size. -/
theorem extent_le_size (op : Opcode) : ∀ info ∈ op.info?, op.extent info ≤ info.size :=
  forall_of_rows (p := fun op info => op.extent info ≤ info.size) (by decide) op

set_option maxRecDepth 8000 in
/-- An opcode without operands is an instruction. -/
theorem ofOpcode?_isSome (op : Opcode) (info : OpcodeInfo) (known : info ∈ op.info?)
    (bare : info.shape ∉ operated) : (Instruction.ofOpcode? op).isSome := by
  have one : info.size = 1 :=
    forall_of_rows (p := fun _ info => info.shape ∉ operated → info.size = 1)
    (by decide) op info known bare
  rw [Option.mem_def] at known
  simp only [Instruction.ofOpcode?, known, Option.bind_eq_bind, Option.bind_some, one]
  cases shape : info.shape <;> simp [operated, shape] at bare ⊢

end Opcode

/-- A read that something else has covered. -/
theorem Yields.covered {α : Type} {fails : Error → Prop} {o : Option α} (there : ∃ a, o = some a) :
    Yields fails (Layout.covered o) fun a => o = some a := by
  obtain ⟨a, rfl⟩ := there
  exact .pure rfl

namespace InputCode

open Layout (covered Row Rows Table)

variable {c : InputCode} {fails : Error → Prop}

namespace Lies

variable {stop : Nat} (lies : c.Lies stop)
include lies

/-- The code lies in the buffer. -/
theorem code_inside : c.codeStart + c.codeLength ≤ c.cursor.size := by
  obtain ⟨n, count, -⟩ := lies.catches
  have inside := (Cursor.number?_eq_some_iff.mp count).1
  have start := lies.exceptions
  simp only [cursor]
  omega

/-- The exception table ends where the table of attributes starts. -/
theorem catches_inside {n : Nat} (count : c.cursor.u2? c.exceptions = some n) :
    c.exceptions + 2 + 8 * n ≤ c.cursor.size := by
  obtain ⟨m, count', start⟩ := lies.catches
  obtain rfl := Option.some.inj (count.symm.trans count')
  obtain ⟨rows, q, table, -⟩ := lies.attributes
  have inside := (Cursor.number?_eq_some_iff.mp table.count).1
  simp only [cursor]
  omega

end Lies

section Rows

variable (safe : c.input.Safe fails)

/-- A number that lies in the buffer is read. -/
theorem yields_number {width p : Nat} (inside : p + width ≤ c.cursor.size) :
    Yields fails (covered (c.cursor.number? width p)) fun n => c.cursor.number? width p = some n :=
  .covered (Cursor.number?_of_inside inside)

include safe

/-- Reading a handler of the table stays inside the buffer. -/
theorem yields_readCatch {n k : Nat} (row : k < n)
    (inside : c.exceptions + 2 + 8 * n ≤ c.cursor.size) :
    Yields fails (c.readCatch k) fun _ => True := by
  refine (yields_number (p := c.exceptions + 2 + 8 * k) (by omega)).bind fun start _ => ?_
  refine (yields_number (p := c.exceptions + 2 + 8 * k + 2) (by omega)).bind fun stop _ => ?_
  refine (yields_number (p := c.exceptions + 2 + 8 * k + 4) (by omega)).bind fun handler _ => ?_
  refine .guard (fun _ => safe.flaw _ _) fun _ => ?_
  refine (yields_number (p := c.exceptions + 2 + 8 * k + 6) (by omega)).bind fun type _ => ?_
  refine .ite (fun _ => .pure trivial) fun _ => ?_
  exact safe.referSome.bind fun _ _ => .pure trivial

/-- Reading the lines of a table stays inside the buffer. -/
theorem yields_readLines {env : Envelope} (inside : env.offset + env.length ≤ c.cursor.size)
    (count : env.offset + 2 ≤ c.cursor.size) :
    Yields fails (c.readLines env) fun _ => True := by
  refine (yields_number (p := env.offset) count).bind fun n _ => ?_
  refine .guard (fun _ => safe.flaw _ _) fun sized => ?_
  refine (Yields.mapM fun k member => ?_).mono fun _ (_ : ∀ _ ∈ _, True) => trivial
  have row := List.mem_range.mp member
  refine (yields_number (p := env.offset + 2 + 4 * k) (by omega)).bind fun offset _ => ?_
  refine .guard (fun _ => safe.flaw _ _) fun _ => ?_
  exact (yields_number (p := env.offset + 2 + 4 * k + 2) (by omega)).bind fun _ _ => .pure trivial

/-- Reading the scopes of a table stays inside the buffer. -/
theorem yields_readScopes {env : Envelope} (inside : env.offset + env.length ≤ c.cursor.size)
    (count : env.offset + 2 ≤ c.cursor.size) :
    Yields fails (c.readScopes env) fun _ => True := by
  refine (yields_number (p := env.offset) count).bind fun n _ => ?_
  refine .guard (fun _ => safe.flaw _ _) fun sized => ?_
  refine (Yields.mapM fun k member => ?_).mono fun _ (_ : ∀ _ ∈ _, True) => trivial
  have row := List.mem_range.mp member
  refine (yields_number (p := env.offset + 2 + 10 * k) (by omega)).bind fun start _ => ?_
  refine (yields_number (p := env.offset + 2 + 10 * k + 2) (by omega)).bind fun length _ => ?_
  refine .guard (fun _ => safe.flaw _ _) fun _ => ?_
  refine (yields_number (p := env.offset + 2 + 10 * k + 4) (by omega)).bind fun _ _ => ?_
  refine safe.refer.bind fun name _ => ?_
  refine (yields_number (p := env.offset + 2 + 10 * k + 6) (by omega)).bind fun _ _ => ?_
  refine safe.refer.bind fun type _ => ?_
  exact (yields_number (p := env.offset + 2 + 10 * k + 8) (by omega)).bind fun _ _ => .pure trivial

/-- What a nested attribute holds is added. Tables of lines and of scopes are counted before their
lengths are checked, which takes two bytes even where the attribute has none. -/
theorem yields_readNested {env : Envelope} (inside : env.offset + env.length ≤ c.cursor.size)
    (count : env.offset + 2 ≤ c.cursor.size) (n : Nested) :
    Yields fails (c.readNested env n) fun _ => True := by
  have fits : Attribute.Context.Fits
      { input := c.input, holder := .code, method := some c.method, code := some c } :=
    ⟨nofun, fun _ => ⟨c, rfl, rfl⟩⟩
  have lines := yields_readLines safe inside count
  have scopes := yields_readScopes safe inside count
  unfold readNested
  dsimp only
  refine .ite (fun _ => .ite (fun _ => .pure trivial) fun _ => ?_) fun _ => ?_
  · exact lines.bind fun _ _ => .pure trivial
  refine .ite (fun _ => .ite (fun _ => .pure trivial) fun _ => ?_) fun _ => ?_
  · exact scopes.bind fun _ _ => .pure trivial
  refine .ite (fun _ => .ite (fun _ => .pure trivial) fun _ => ?_) fun _ => ?_
  · exact scopes.bind fun _ _ => .pure trivial
  refine (Attribute.yields_decode fits safe _ inside).bind fun a _ => ?_
  split
  · exact .pure trivial
  · exact .ite (fun _ => .pure trivial) fun _ => .pure trivial
  · exact .pure trivial

/-- Nested attributes lie one after another, and two bytes follow the last. -/
theorem yields_readNestedFrom {p q : Nat} {rows : List Row} (held : Rows c.cursor p rows q)
    (room : q + 2 ≤ c.cursor.size) (nested : Nested) :
    Yields fails (c.readNestedFrom nested p rows.length) fun _ => True := by
  induction held generalizing nested with
  | done p => exact .pure trivial
  | @next p q row rest name length offset inside others inductionHypothesis =>
      have forward := others.forward
      rw [List.length_cons, readNestedFrom]
      refine (Yields.covered ⟨_, name⟩).bind fun index _ => ?_
      refine safe.refer.bind fun name _ => ?_
      refine (Yields.covered ⟨_, length⟩).bind fun size given => ?_
      obtain rfl := Option.some.inj (length.symm.trans given)
      rw [offset] at inside inductionHypothesis forward
      have step : Yields fails (c.readNested ⟨name, p + 6, row.length⟩ nested) fun _ => True :=
        yields_readNested safe inside (by dsimp only; omega) nested
      refine step.bind fun nested _ => ?_
      exact inductionHypothesis room nested

end Rows

section Instructions

variable (safe : c.input.Safe fails) {offset stop : Nat}
include safe

/-- Computing the target of a jump reads nothing. -/
theorem yields_readTarget (delta : Int) : Yields fails (c.readTarget offset delta) fun _ => True :=
  .ite (fun _ => .throw (safe.flaw _ _)) fun _ => .pure trivial

/-- Reading the cases of a switch by table stays inside the buffer. -/
theorem yields_readTableCases {low : Int} {p n : Nat}
    (inside : p + 4 * n ≤ c.cursor.size) :
    Yields fails (c.readTableCases offset low p n) fun _ => True := by
  refine (Yields.mapM fun k member => ?_).mono fun _ (_ : ∀ _ ∈ _, True) => trivial
  have row := List.mem_range.mp member
  refine (Yields.covered (Cursor.s4?_of_inside (p := p + 4 * k) (by omega))).bind fun delta _ => ?_
  exact (yields_readTarget safe delta).bind fun _ _ => .pure trivial

/-- Reading the cases of a switch by search stays inside the buffer. -/
theorem yields_readLookupCases {p n : Nat} (inside : p + 8 * n ≤ c.cursor.size) :
    Yields fails (c.readLookupCases offset p n) fun _ => True := by
  refine (Yields.mapM fun k member => ?_).mono fun _ (_ : ∀ _ ∈ _, True) => trivial
  have row := List.mem_range.mp member
  refine (Yields.covered (Cursor.s4?_of_inside (p := p + 8 * k + 4) (by omega))).bind
    fun delta _ => ?_
  refine (yields_readTarget safe delta).bind fun _ _ => ?_
  exact (Yields.covered (Cursor.s4?_of_inside (p := p + 8 * k) (by omega))).bind
    fun _ _ => .pure trivial

variable (lies : c.Lies stop)
include lies

/-- An instruction takes up at least one byte. -/
theorem yields_readWide : Yields fails (c.readWide offset) fun r => 0 < r.2 := by
  have code := lies.code_inside
  unfold readWide
  dsimp only
  refine .guard (fun _ => safe.flaw _ _) fun four => ?_
  refine (Yields.covered (Cursor.number?_of_inside (p := c.codeStart + offset + 1) (by omega))).bind
    fun byte _ => ?_
  refine (Yields.covered (Cursor.number?_of_inside (p := c.codeStart + offset + 2) (by omega))).bind
    fun slot _ => ?_
  refine .ite (fun _ => .guard (fun _ => safe.flaw _ _) fun six => ?_) fun _ => ?_
  · exact (Yields.covered (Cursor.s2?_of_inside (p := c.codeStart + offset + 4) (by omega))).bind
      fun _ _ => .pure (Nat.succ_pos _)
  refine .ite (fun _ => .pure (Nat.succ_pos _)) fun _ =>
    .ite (fun _ => .pure (Nat.succ_pos _)) fun _ => ?_
  exact .ite (fun _ => .pure (Nat.succ_pos _)) fun _ => .throw (safe.flaw _ _)

/-- The rows of a switch are counted before they are read. -/
theorem yields_readSwitch (op : Opcode) :
    Yields fails (c.readSwitch op offset) fun r => 0 < r.2 := by
  have code := lies.code_inside
  unfold readSwitch
  dsimp only
  refine .guard (fun _ => safe.flaw _ _) fun fixed => ?_
  generalize padding offset = pad at fixed ⊢
  refine (Yields.covered (Cursor.s4?_of_inside (p := c.codeStart + offset + 1 + pad)
    (by omega))).bind fun delta _ => ?_
  refine (yields_readTarget safe delta).bind fun fallback _ => .ite (fun isTable => ?_) fun _ => ?_
  · simp only [isTable, ↓reduceIte] at fixed ⊢
    refine (Yields.covered (Cursor.s4?_of_inside (p := c.codeStart + offset + 1 + pad + 4)
      (by omega))).bind fun low _ => ?_
    refine (Yields.covered (Cursor.s4?_of_inside (p := c.codeStart + offset + 1 + pad + 8)
      (by omega))).bind fun high _ => ?_
    refine .guard (fun _ => safe.flaw _ _) fun _ => .guard (fun _ => safe.flaw _ _) fun rows => ?_
    exact (yields_readTableCases safe (by omega)).bind fun _ _ => .pure (by simp only; omega)
  · refine (Yields.covered (Cursor.s4?_of_inside (p := c.codeStart + offset + 1 + pad + 4)
      (by omega))).bind fun pairs _ => ?_
    refine .guard (fun _ => safe.flaw _ _) fun _ => .guard (fun _ => safe.flaw _ _) fun rows => ?_
    exact (yields_readLookupCases safe (by omega)).bind fun _ _ => .pure (by simp only; omega)

/-- Reading a constant instruction stays inside the code, and it takes some bytes. -/
theorem yields_readConstant {op : Opcode} {info : OpcodeInfo} (known : op.info? = some info)
    (shape : info.shape = .constant) (inside : offset + info.size ≤ c.codeLength) :
    Yields fails (c.readConstant op info.size (c.codeStart + offset)) fun r => 0 < r.2 := by
  have code := lies.code_inside
  have extent := op.extent_le_size info known
  simp only [Opcode.extent, shape] at extent
  unfold readConstant
  refine .ite (fun isByte => ?_) fun notByte => .ite (fun isWord => ?_) fun notWord =>
    .ite (fun loads => ?_)
    fun _ => .pure (Nat.succ_pos _)
  · simp only [isByte, decide_true, Bool.true_or, ↓reduceIte] at extent
    exact (Yields.covered (Cursor.s1?_of_inside (p := c.codeStart + offset + 1) (by omega))).bind
      fun _ _ => .pure (Nat.succ_pos _)
  · rw [isWord] at extent
    have three : 3 ≤ info.size := extent
    exact (Yields.covered (Cursor.s2?_of_inside (p := c.codeStart + offset + 1) (by omega))).bind
      fun _ _ => .pure (Nat.succ_pos _)
  · have index : ∃ n, (if op = Opcode.ldc then c.cursor.u1? (c.codeStart + offset + 1 : Nat)
        else c.cursor.u2? (c.codeStart + offset + 1 : Nat)) = some n := by
      split
      · exact Cursor.number?_of_inside (by grind)
      · exact Cursor.number?_of_inside (by grind)
    refine (Yields.covered index).bind fun index _ => safe.refer.bind fun e _ => ?_
    refine .guard (fun _ => safe.plain _ rfl) fun _ => .pure ?_
    show 0 < info.size
    grind

/-- Every operand lies before the end of the instruction, which has been checked. -/
theorem yields_readInstruction (before : offset < c.codeLength) :
    Yields fails (c.readInstruction offset) fun r => 0 < r.2 := by
  have code := lies.code_inside
  unfold readInstruction
  dsimp only
  refine (Yields.covered (Cursor.number?_of_inside (p := c.codeStart + offset) (by omega))).bind
    fun byte _ => ?_
  refine .ite (fun _ => ?_) fun _ => ?_
  · exact yields_readWide safe lies
  split
  · exact .throw (safe.flaw _ _)
  rename_i info known
  generalize (⟨byte.toUInt8⟩ : Opcode) = op at known ⊢
  refine .guard (fun _ => safe.flaw _ _) fun sized => ?_
  have extent := op.extent_le_size info known
  have inside : offset + info.size ≤ c.codeLength := by
    simp only [Bool.and_eq_true, decide_eq_true_eq] at sized
    omega
  have referring {α : Type} {want : Entry → Option α} (three : 3 ≤ info.size) :
      Yields fails (do
        c.input.pool.refer want ((c.codeStart + offset : Nat) + 1)
          (← covered (c.cursor.u2? ((c.codeStart + offset : Nat) + 1)))) fun _ => True :=
    (Yields.covered (Cursor.number?_of_inside (p := c.codeStart + offset + 1) (by omega))).bind
      fun _ _ => safe.refer
  have jumping {long : Opcode} (room : if op = long then 5 ≤ info.size else 3 ≤ info.size) :
      Yields fails (do
        c.readTarget offset (← covered
          (if op = long then c.cursor.s4? ((c.codeStart + offset : Nat) + 1)
          else c.cursor.s2? ((c.codeStart + offset : Nat) + 1)))) fun _ => True := by
    have delta : ∃ n, (if op = long then c.cursor.s4? ((c.codeStart + offset : Nat) + 1)
        else c.cursor.s2? ((c.codeStart + offset : Nat) + 1)) = some n := by
      split at room <;> rename_i isLong
      · rw [if_pos isLong]
        exact Cursor.s4?_of_inside (p := c.codeStart + offset + 1) (by omega)
      · rw [if_neg isLong]
        exact Cursor.s2?_of_inside (p := c.codeStart + offset + 1) (by omega)
    exact (Yields.covered delta).bind fun delta _ => yields_readTarget safe delta
  have slot (room : (if info.size = 1 then 1 else 2) ≤ info.size) :
      Yields fails (do
        if info.size = 1 then return (op.implicitSlot?.getD 0 : Nat)
        return (← covered (c.cursor.u1? ((c.codeStart + offset : Nat) + 1)) : Nat) :
          Except Error Int)
        fun _ => True := by
    refine .ite (fun _ => .pure trivial) fun long => ?_
    rw [if_neg long] at room
    exact (Yields.covered
      (Cursor.number?_of_inside (p := c.codeStart + offset + 1) (by omega))).bind
      fun _ _ => .pure trivial
  have plain (simple : info.shape ∉ Opcode.operated) : ∃ i, Instruction.ofOpcode? op = some i :=
    Option.isSome_iff_exists.mp (op.ofOpcode?_isSome info known simple)
  cases shape : info.shape <;> simp only [Opcode.extent, shape] at extent ⊢
  case tableSwitch => exact yields_readSwitch safe lies op
  case lookupSwitch => exact yields_readSwitch safe lies op
  case constant => exact yields_readConstant safe lies known shape inside
  case load => exact (slot extent).bind fun _ _ => .pure (by grind)
  case store => exact (slot extent).bind fun _ _ => .pure (by grind)
  case increment =>
    refine (Yields.covered (Cursor.number?_of_inside (p := c.codeStart + offset + 1)
      (by omega))).bind fun _ _ => ?_
    exact (Yields.covered (Cursor.s1?_of_inside (p := c.codeStart + offset + 2) (by omega))).bind
      fun _ _ => .pure (Nat.succ_pos _)
  case branch => exact (jumping (by grind)).bind fun _ _ => .pure (by grind)
  case field => exact (referring extent).bind fun _ _ => .pure (Nat.succ_pos _)
  case invoke =>
    exact (referring extent).bind fun _ _ => .guard (fun _ => safe.plain _ rfl) fun _ =>
      .pure (by grind)
  case invokeDynamic => exact (referring extent).bind fun _ _ => .pure (Nat.succ_pos _)
  case newObject => exact (referring extent).bind fun _ _ => .pure (Nat.succ_pos _)
  case newReferenceArray => exact (referring extent).bind fun _ _ => .pure (Nat.succ_pos _)
  case typeCheck => exact (referring extent).bind fun _ _ => .pure (Nat.succ_pos _)
  case newMultiArray =>
    refine (referring (by omega)).bind fun _ _ => ?_
    exact (Yields.covered (Cursor.number?_of_inside (p := c.codeStart + offset + 3)
      (by omega))).bind fun _ _ => .pure (Nat.succ_pos _)
  case newPrimitiveArray =>
    refine (Yields.covered (Cursor.number?_of_inside (p := c.codeStart + offset + 1)
      (by omega))).bind fun code _ => ?_
    split
    · exact .pure (Nat.succ_pos _)
    · exact .throw (safe.flaw _ _)
  case discontinued =>
    refine .ite (fun isRet => ?_) fun notRet => ?_
    · exact (Yields.covered (Cursor.number?_of_inside (p := c.codeStart + offset + 1)
        (by grind))).bind fun _ _ => .pure (Nat.succ_pos _)
    · exact (jumping (by grind)).bind fun _ _ => .pure (by grind)
  all_goals
    obtain ⟨i, given⟩ := plain (by rw [shape]; decide)
    rw [given]
    exact .pure (Nat.succ_pos _)

/-- Reading instructions one after another stays inside the buffer, from any offset on. -/
theorem yields_readInstructionsFrom (fuel : Nat) (done : List (Nat × Instruction)) (offset : Nat) :
    Yields fails (c.readInstructionsFrom done offset fuel) fun _ => True := by
  induction fuel generalizing done offset with
  | zero => exact .pure trivial
  | succ fuel inductionHypothesis =>
      rw [readInstructionsFrom]
      refine .ite (fun _ => .pure trivial) fun before => ?_
      obtain ⟨-, stops⟩ := yields_readInstruction safe lies (Nat.not_le.mp before)
      split
      · rename_i e read
        exact .throw (stops e read)
      · exact inductionHypothesis _ _

omit safe in
/-- Once it is enough for the bytes that are left, the bound on the number of instructions is never
reached. -/
theorem readInstructionsFrom_of_enough (addressable : c.cursor.Addressable) {fuel fuel' : Nat}
    (done : List (Nat × Instruction)) (enough : c.codeLength ≤ offset + fuel)
    (enough' : c.codeLength ≤ offset + fuel') :
    c.readInstructionsFrom done offset fuel = c.readInstructionsFrom done offset fuel' := by
  have safe : c.input.Safe fun _ => True :=
    ⟨addressable, fun _ _ => trivial, fun _ _ _ _ => trivial, fun _ _ _ => trivial⟩
  induction fuel generalizing fuel' done offset with
  | zero =>
      cases fuel' with
      | zero => rfl
      | succ fuel' => rw [readInstructionsFrom, readInstructionsFrom,
          if_pos (show c.codeLength ≤ offset from enough)]
  | succ fuel inductionHypothesis =>
      by_cases ended : c.codeLength ≤ offset
      · cases fuel' <;> simp only [readInstructionsFrom, ended, ↓reduceIte]
      · obtain ⟨fuel', rfl⟩ : ∃ n, fuel' = n + 1 := ⟨fuel' - 1, by omega⟩
        obtain ⟨sized, -⟩ := yields_readInstruction safe lies (Nat.not_le.mp ended)
        rw [readInstructionsFrom, readInstructionsFrom, if_neg ended, if_neg ended]
        cases read : c.readInstruction offset with
        | error e => rfl
        | ok r =>
            have forward := sized r read
            exact inductionHypothesis _ (by omega) (by omega)

end Instructions

/-- A body whose parts lie in the buffer, with two bytes after them, is decoded from there. -/
theorem yields_elements {stop : Nat} (safe : c.input.Safe fails) (lies : c.Lies stop)
    (room : stop + 2 ≤ c.cursor.size) : Yields fails c.elements fun _ => True := by
  obtain ⟨rows, q, table, before⟩ := lies.attributes
  obtain ⟨n, count, -⟩ := lies.catches
  unfold elements
  refine (Yields.covered ⟨n, count⟩).bind fun n given => ?_
  have inside := lies.catches_inside given
  refine Yields.bind (Yields.mapM fun k member =>
    yields_readCatch safe (List.mem_range.mp member) inside) fun catches _ => ?_
  refine (Yields.covered ⟨_, table.count⟩).bind fun size given => ?_
  obtain rfl := Option.some.inj (table.count.symm.trans given)
  refine (yields_readNestedFrom safe table.rows (by simp only [cursor] at room ⊢; omega) {}).bind
    fun nested _ => ?_
  refine (yields_readInstructionsFrom safe lies _ [] 0).bind fun instructions _ => ?_
  dsimp only
  split
  · exact .throw (safe.flaw _ _)
  split
  · exact .throw (safe.flaw _ _)
  exact .pure trivial

end InputCode

end JvmClass
