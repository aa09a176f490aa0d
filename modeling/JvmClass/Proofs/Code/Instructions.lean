import JvmClass.Proofs.Code.Switches

/-!
# Cells of every instruction

Whatever an instruction with operands in range is written as encodes it in the pool that comes out
of writing it.
-/

namespace JvmClass

open PoolBuilder (Grants)

variable {α β : Type} {p q : PoolBuilder}

namespace PoolBuilder

/-- The action fails, or what it gives has `post` in the pool that comes out of it. -/
def Offers (p : PoolBuilder) (act : ExceptT Error Interning α) (post : PoolBuilder → α → Prop) :
    Prop :=
  Grants p act.run none fun q outcome => ∀ a, outcome = .ok a → post q a

namespace Offers

variable {post : PoolBuilder → α → Prop} {post' : PoolBuilder → β → Prop}

/-- Giving something offers it. -/
theorem pure {a : α} (holds : p.error = none → post p a) : Offers p (pure a) post :=
  Grants.pure fun fine _ same => Except.ok.inj same ▸ holds fine

/-- An action that fails offers anything. -/
theorem throw (e : Error) : Offers p (throw e : ExceptT Error Interning α) post :=
  Grants.pure fun _ _ same => nomatch same

/-- A step without a pool offers what it gives if it does not fail. -/
theorem liftM {x : Except Error α} (holds : ∀ a, x = .ok a → post p a) : Offers p (liftM x) post :=
  Grants.pure fun _ => holds

/-- What is granted of constants is offered. -/
theorem lift {x : Interning α} (grants : Grants p x none post) : Offers p (ExceptT.lift x) post :=
  grants.bind fun _ _ _ holds => Grants.pure fun fine _ same => Except.ok.inj same ▸ holds fine

/-- What comes last only wraps up what was given. -/
theorem bind {x : ExceptT Error Interning α} {f : α → ExceptT Error Interning β}
    (first : Offers p x post)
    (next : ∀ a q, (q.error = none → post q a) → Offers q (f a) post') :
    Offers p (x >>= f) post' := by
  change Grants p (x.run >>= ExceptT.bindCont f) none _
  refine Grants.bind first fun outcome q grown holds => ?_
  cases outcome with
  | error e => exact Grants.pure fun _ _ same => nomatch same
  | ok a => exact next a q fun fine => holds fine a rfl

/-- What lasts is true of the action in all later pools. -/
theorem lasting {x : ExceptT Error Interning α} (offers : Offers p x post)
    (lasts : ∀ {q q' a}, q.Inv → q.Extends q' none → post q a → post q' a) :
    Offers p x fun q a => p.Extends q none ∧ ∀ q', q.Becomes q' → post q' a := by
  intro sound
  obtain ⟨grown, sound', holds⟩ := offers sound
  exact ⟨grown, sound', fun fine a same =>
    ⟨grown, fun q' becomes => lasts (sound' fine) becomes.grown (holds fine a same)⟩⟩

/-- A check that passes or fails. -/
theorem guard {c : Prop} [Decidable c] {e : Error} {stops : β → ExceptT Error Interning α}
    {rest : ExceptT Error Interning α} (offers : ¬c → Offers p rest post) :
    Offers p (if c then throwThe Error e >>= stops else rest) post := by
  split
  · exact .throw e
  · rename_i passes
    exact offers passes

/-- A choice between two actions that offer something offers it. -/
theorem ite {c : Prop} [Decidable c] {x y : ExceptT Error Interning α} (first : c → Offers p x post)
    (second : ¬c → Offers p y post) : Offers p (if c then x else y) post := by
  split
  · exact first ‹_›
  · exact second ‹_›

end Offers

end PoolBuilder

open PoolBuilder (Offers)

namespace Opcode

/-- A load or store that has its slot in the opcode is its own instruction. -/
theorem ofOpcode?_of_implicitSlot {op : Opcode} {n : Nat} (implicit : op.implicitSlot? = some n) :
    (op.shape? = some .load → Instruction.ofOpcode? op = some (.load op n)) ∧
    (op.shape? = some .store → Instruction.ofOpcode? op = some (.store op n)) := by
  constructor <;>
  · intro shape
    obtain ⟨info, known, shape, size⟩ := row_of_shape shape
    rw [length, implicit] at size
    have one : info.size = 1 := size
    simp only [Instruction.ofOpcode?, known, Option.bind_eq_bind, Option.bind_some, one, shape,
      implicit]
    rfl

/-- Other opcodes are their own base. -/
theorem base_of_explicit {op : Opcode} (explicit : op.implicitSlot? = none) : op.base = op := by
  rw [implicitSlot?] at explicit
  rw [base]
  split at explicit
  · cases explicit
  split at explicit
  · cases explicit
  rename_i load store
  rw [if_neg load, if_neg store]

end Opcode

namespace Cell

variable {offset : Nat} {op : Opcode} {cells : List Cell}

/-- A load or a store is decoded from the cells that are given for it, in whatever form. -/
theorem encodes_ofLocal {slot : Int} {shape : Shape} {make : Opcode → Int → Instruction}
    (form : localForm? shape = some make) (shaped : op.shape? = some shape)
    (own : ∀ n ∈ op.implicitSlot?, slot = n) (given : ofLocal op slot = .ok cells) :
    Encodes q offset (make op slot) cells := by
  obtain ⟨inside, given⟩ := guard_eq_ok_iff.mp given
  simp only [Bool.or_eq_true, decide_eq_true_eq, not_or, Int.not_lt] at inside
  obtain ⟨n, rfl⟩ := Int.eq_ofNat_of_zero_le inside.1
  cases implicit : op.implicitSlot? with
  | some m =>
      obtain rfl : n = m := Int.ofNat_inj.mp (own m implicit)
      rw [if_pos (by rw [implicit]; rfl)] at given
      obtain rfl := pure_eq_ok_iff.mp given
      have known := Opcode.ofOpcode?_of_implicitSlot implicit
      cases shape <;> cases form
      · exact encodes_plain (known.1 shaped)
      · exact encodes_plain (known.2 shaped)
  | none =>
      rw [if_neg (by rw [implicit]; nofun), Opcode.base_of_explicit implicit] at given
      by_cases short : (n : Int) ≤ 255
      · rw [if_pos short] at given
        obtain rfl := pure_eq_ok_iff.mp given
        exact encodes_local (by omega) form shaped implicit
      · rw [if_neg short] at given
        obtain rfl := pure_eq_ok_iff.mp given
        exact encodes_wideLocal (by omega) form shaped implicit

/-- An increment is decoded from the cells that are given for it, in whatever form. -/
theorem encodes_ofIncrement {slot delta : Int} (given : ofIncrement slot delta = .ok cells) :
    Encodes q offset (.increment slot delta) cells := by
  rw [ofIncrement] at given
  split at given
  · rename_i short
    simp only [Bool.and_eq_true, decide_eq_true_eq] at short
    obtain ⟨⟨⟨positive, below⟩, low⟩, high⟩ := short
    obtain ⟨n, rfl⟩ := Int.eq_ofNat_of_zero_le positive
    obtain rfl := pure_eq_ok_iff.mp given
    exact encodes_increment (by omega) (signed_of_bounds (by omega) (by omega))
  split at given
  · rename_i long
    simp only [Bool.and_eq_true, decide_eq_true_eq] at long
    obtain ⟨⟨⟨positive, below⟩, low⟩, high⟩ := long
    obtain ⟨n, rfl⟩ := Int.eq_ofNat_of_zero_le positive
    obtain rfl := pure_eq_ok_iff.mp given
    exact encodes_wideIncrement (by omega) (signed_of_bounds (by omega) (by omega))
  · cases given

/-- A switch by search is decoded from the cells that are given for it. -/
theorem encodes_ofLookup {fallback : Option Label} {cases : List SwitchCase}
    (fits : ∀ a ∈ cases, signed 32 a.value = a.value)
    (given : ofLookup offset fallback cases = .ok cells) :
    Encodes q offset (.lookupSwitch fallback cases) cells := by
  rw [ofLookup] at given
  dsimp only at given
  split at given
  · cases given
  · obtain rfl := pure_eq_ok_iff.mp given
    exact encodes_lookup fits

/-- A switch by table is decoded from the cells that are given for it. -/
theorem encodes_ofTable {low high : Int} {fallback : Option Label} {cases : List SwitchCase}
    (fits : (Instruction.tableSwitch low high fallback cases).Fits)
    (given : ofTable offset low high fallback cases = .ok cells) :
    Encodes q offset (.tableSwitch low high fallback cases) cells := by
  obtain ⟨ordered, given⟩ := guard_eq_ok_iff.mp given
  obtain rfl := pure_eq_ok_iff.mp given
  have encodes := @encodes_table q offset fallback low high cases fits (by omega)
  rw [Instruction.tableCases, List.map_map] at encodes
  have same : (List.range (high - low + 1).toNat).map
      ((fun a : SwitchCase => Cell.far offset a.target) ∘ fun n : Nat =>
        ⟨low + n, Instruction.tableTarget fallback cases (low + n)⟩) =
      (List.range (high - low + 1).toNat).map fun n : Nat => Cell.far offset
        (((cases.foldl (fun m c => m.insert c.value c.target)
          ({} : Std.HashMap Int (Option Label)))[low + n]?).getD fallback) :=
    List.map_congr_left fun n _ => congrArg _ (getD_insert_cases fits.2.2.1 fallback _).symm
  rwa [same] at encodes

/-- A reference is written as an index that denotes it. -/
theorem offers_refIndex {e : Option Entry} (accepted : ∀ m ∈ Entry.optional e, m.Accepted p) :
    Offers p (refIndex e) fun q n => ∃ m, e = some m ∧ q.Denotes n m.bare := by
  cases e with
  | none => exact .throw _
  | some m =>
      exact .lift ((PoolBuilder.grants_indexOf (accepted m (List.mem_singleton_self m))).mono
        fun n _ _ _ denotes => ⟨m, rfl, denotes⟩)

/-- An instruction with a constant becomes its opcode, an index that denotes the constant and some
more bytes. -/
theorem offers_ofRef {e : Option Entry} {more : Bytes}
    (accepted : ∀ m ∈ Entry.optional e, m.Accepted p) :
    Offers p (ofRef op e more) fun q cells => ∃ (m : Entry) (n : Nat), e = some m ∧
      q.Denotes n m.bare ∧
      cells = code op (u2 n ++ more) := by
  refine (offers_refIndex accepted).bind fun n q known => .pure fun fine => ?_
  obtain ⟨m, there, denotes⟩ := known fine
  exact ⟨m, n, there, denotes, rfl⟩

/-- Instructions that are an opcode with a reference. -/
theorem offers_referring {γ : Type} {e : Option γ} {make : γ → Entry} {i : Option γ → Instruction}
    {more : Bytes} (accepted : ∀ m ∈ Entry.optional (e.map make), m.Accepted p)
    (encodes : ∀ (q : PoolBuilder) (a : γ) (n : Nat), e = some a → q.Denotes n (make a).bare →
      Encodes q offset (i (some a)) (code op (u2 n ++ more))) :
    Offers p (ofRef op (e.map make) more) fun q cells => Encodes q offset (i e) cells := by
  refine Grants.mono (offers_ofRef accepted) fun outcome q _ _ known cells same => ?_
  obtain ⟨m, n, there, denotes, rfl⟩ := known cells same
  obtain ⟨a, rfl, rfl⟩ := Option.map_eq_some_iff.mp there
  exact encodes q a n rfl denotes

/-- A call of a method is decoded from the cells that are given for it, in the pool that comes
out. -/
theorem offers_ofInvoke {method : Option MemberEntry}
    (fits : (Instruction.invoke op method).Fits)
    (accepted : ∀ m ∈ (Instruction.invoke op method).mentions, m.Accepted p) :
    Offers p (ofInvoke op method) fun q cells => Encodes q offset (.invoke op method) cells := by
  obtain ⟨shape, kinds⟩ := fits
  refine (offers_ofRef accepted).bind fun cells q known => ?_
  cases method with
  | none => exact .pure fun fine => nomatch (known fine).choose_spec.choose_spec.1
  | some m =>
      obtain ⟨kind, interface⟩ := kinds m rfl
      have encoded (more : Bytes)
          (counted : more.length = if op = Opcode.invokeinterface then 2 else 0)
          (fine : q.error = none) :
          Encodes q offset (.invoke op (some m)) (cells ++ Cell.bytes more) := by
        obtain ⟨_, n, ⟨rfl⟩, denotes, rfl⟩ := known fine
        have split : code op (u2 n ++ []) ++ Cell.bytes more = code op (u2 n ++ more) := by
          simp [code, Cell.bytes]
        rw [split]
        exact encodes_invoke shape kind interface counted denotes
      refine .ite (fun isInterface => ?_) fun other => ?_
      · dsimp only
        split
        · exact .throw _
        · refine .pure fun fine => encoded _ ?_ fine
          rw [if_pos isInterface, List.length_append, length_u1, length_u1]
      · refine .pure fun fine => ?_
        have bare := encoded [] (by rw [if_neg other]; rfl) fine
        rwa [Cell.bytes, List.map_nil, List.append_nil] at bare

/-- A constant instruction is decoded from the cells that are given for it, in the pool that comes
out. Whether the short form does depends on the index. -/
theorem offers_ofConstant {value : Int} {entry : Option Loadable}
    (fits : Instruction.ConstantFits op value entry)
    (accepted : ∀ m ∈ (Instruction.constant op value entry).mentions, m.Accepted p) :
    Offers p (ofConstant op value entry) fun q cells =>
      Encodes q offset (.constant op value entry) cells := by
  rw [Instruction.ConstantFits] at fits
  rw [ofConstant]
  refine .ite (fun isByte => .guard fun inside => ?_) fun notByte => ?_
  · obtain rfl := isByte
    obtain rfl : entry = none := by rwa [if_pos (.inl rfl)] at fits
    simp only [Bool.or_eq_true, decide_eq_true_eq, not_or, Int.not_lt] at inside
    exact .pure fun _ => encodes_bytePush (signed_of_bounds (by omega) (by omega))
  refine .ite (fun isWord => .guard fun inside => ?_) fun notWord => ?_
  · obtain rfl := isWord
    obtain rfl : entry = none := by rwa [if_pos (.inr rfl)] at fits
    simp only [Bool.or_eq_true, decide_eq_true_eq, not_or, Int.not_lt] at inside
    exact .pure fun _ => encodes_shortPush (signed_of_bounds (by omega) (by omega))
  rw [if_neg (not_or.mpr ⟨notByte, notWord⟩)] at fits
  refine .ite (fun loads => ?_) fun other => ?_
  · rw [Bool.or_eq_true, Bool.or_eq_true, decide_eq_true_eq, decide_eq_true_eq, decide_eq_true_eq,
      or_assoc] at loads
    rw [if_pos loads] at fits
    obtain ⟨rfl, wide⟩ := fits
    refine (offers_refIndex accepted).bind fun index q known => ?_
    cases entry with
    | none =>
        have never (fine : q.error = none) : False := nomatch (known fine).choose_spec.1
        refine .ite (fun _ => ?_) fun _ => .ite (fun _ => ?_) fun _ => ?_ <;>
          exact .pure fun fine => (never fine).elim
    | some e =>
        have wide := wide e rfl
        have denotes (fine : q.error = none) : q.Denotes index (Entry.loadable e).bare := by
          obtain ⟨_, ⟨rfl⟩, denotes⟩ := known fine
          exact denotes
        refine .ite (fun isWide => ?_) fun notWide => .ite (fun short => ?_) fun long => ?_
        · have isWide : e.kind.isWide = true := isWide
          rw [isWide, eq_iff_iff, eq_self, true_iff] at wide
          obtain rfl := wide
          exact .pure fun fine =>
            encodes_loadLong (.inr rfl) (by simp [isWide]) (denotes fine)
        · have notWide : e.kind.isWide = false := Bool.eq_false_iff.mpr notWide
          rw [Bool.and_eq_true, decide_eq_true_eq, decide_eq_true_eq] at short
          obtain ⟨rfl, short⟩ := short
          exact .pure fun fine =>
            encodes_loadShort (by omega) notWide (denotes fine)
        · have notWide : e.kind.isWide = false := Bool.eq_false_iff.mpr notWide
          rw [notWide] at wide
          have narrow : op ≠ Opcode.ldc2W := by simpa using wide
          refine .pure fun fine => ?_
          have loaded : Encodes q offset (.constant Opcode.ldcW 0 (some e)) _ :=
            encodes_loadLong (.inl rfl) (by rw [notWide]; decide) (denotes fine)
          refine loaded.of_canonical ⟨nofun, fun _ => rfl⟩ ⟨nofun, fun _ => rfl⟩ ?_
          rcases loads with rfl | rfl | rfl
          · rfl
          · rfl
          · exact absurd rfl narrow
  · have other : ¬(op = Opcode.ldc ∨ op = Opcode.ldcW ∨ op = Opcode.ldc2W) := by
      simpa [or_assoc] using other
    rw [if_neg other] at fits
    obtain ⟨rfl, rfl⟩ := fits
    refine .ite (fun one => ?_) fun _ => .throw _
    rw [Bool.and_eq_true, decide_eq_true_eq, decide_eq_true_eq] at one
    refine .pure fun _ => encodes_plain ?_
    obtain ⟨info, known, shape, -⟩ := Opcode.row_of_shape one.1
    have size : info.size = 1 := by simpa [Opcode.size, known] using one.2
    simp [Instruction.ofOpcode?, known, size, shape]

/-- A jump to no label never comes out as bytes. -/
theorem encodes_lost (i : Instruction) (op : Opcode) :
    Encodes q offset i (ofJump op none offset) where
  positive := by
    rw [ofJump, widths_append, code, widths_bytes]
    exact Nat.add_pos_left (Nat.succ_pos _) _
  reads resolves := by
    obtain ⟨_, _, _, -, lost⟩ := resolves_append_iff.mp resolves
    split at lost
    · obtain ⟨_, there, -⟩ := resolves_far_iff.mp lost
      cases there
    · obtain ⟨_, there, -⟩ := resolves_near_iff.mp lost
      cases there

/-- An instruction that is only its opcode is decoded from the cells that are given for it. -/
theorem offers_plain {i j : Instruction} (given : Instruction.ofOpcode? op = some i) :
    Offers p (ofInstruction.plain j op) fun q cells => Encodes q offset i cells :=
  .ite (fun _ => .pure fun _ => encodes_plain given) fun _ => .throw _

/-- A return from a subroutine is decoded from either of its forms. -/
theorem encodes_ofReturn {slot : Int} (word : Word slot) :
    Encodes q offset (.discontinued Opcode.ret none slot)
      (if slot ≤ 255 then code Opcode.ret (u1 slot)
        else Cell.bytes (Opcode.wide :: Opcode.ret.byte :: u2 slot)) := by
  obtain ⟨positive, below⟩ := word
  obtain ⟨n, rfl⟩ := Int.eq_ofNat_of_zero_le positive
  split
  · exact encodes_ret (by omega)
  · exact encodes_wideRet (by omega)

set_option maxRecDepth 8000 in
/-- Whatever an instruction is written as encodes it. -/
theorem offers_ofInstruction {i : Instruction} (fits : i.Fits)
    (accepted : ∀ m ∈ i.mentions, m.Accepted p) :
    Offers p (ofInstruction offset i) fun q cells => Encodes q offset i cells := by
  cases i with
  | load op slot => exact .liftM fun _ given => encodes_ofLocal rfl fits.1 fits.2 given
  | store op slot => exact .liftM fun _ given => encodes_ofLocal rfl fits.1 fits.2 given
  | increment slot delta => exact .liftM fun _ given => encodes_ofIncrement given
  | branch op target =>
      have shaped : op.shape? = some .branch := fits
      cases target with
      | none => exact .throw _
      | some target =>
          refine .pure fun _ => encodes_jump shaped rfl ?_
          rintro rfl
          exact absurd shaped (by decide)
  | lookupSwitch fallback cases => exact .liftM fun _ given => encodes_ofLookup fits given
  | tableSwitch low high fallback cases => exact .liftM fun _ given => encodes_ofTable fits given
  | constant op value entry => exact offers_ofConstant fits accepted
  | field op f =>
      refine offers_referring (i := .field op) accepted fun q m n there denotes => ?_
      rw [List.append_nil]
      exact encodes_field fits.1 (fits.2 m there) denotes
  | invoke op method => exact offers_ofInvoke fits accepted
  | invokeDynamic site =>
      exact offers_referring (i := .invokeDynamic) accepted fun q m n _ denotes =>
        encodes_invokeDynamic (length_u2 0) denotes
  | newObject type =>
      refine offers_referring (i := .newObject) accepted fun q m n _ denotes => ?_
      rw [List.append_nil]
      exact encodes_newObject denotes
  | newReferenceArray type =>
      refine offers_referring (i := .newReferenceArray) accepted fun q m n _ denotes => ?_
      rw [List.append_nil]
      exact encodes_newReferenceArray denotes
  | typeCheck op type =>
      refine offers_referring (i := .typeCheck op) accepted fun q m n _ denotes => ?_
      rw [List.append_nil]
      exact encodes_typeCheck denotes fits
  | newMultiArray type dimensions =>
      obtain ⟨positive, below⟩ := fits
      obtain ⟨d, rfl⟩ := Int.eq_ofNat_of_zero_le positive
      exact offers_referring (i := fun t => .newMultiArray t d) accepted fun q m n _ denotes =>
        encodes_newMultiArray denotes (by omega)
  | newPrimitiveArray k =>
      rw [ofInstruction]
      split
      · rename_i named
        exact .pure fun _ => encodes_newPrimitiveArray named
      · exact .throw _
  | discontinued op target slot =>
      rw [Instruction.Fits] at fits
      refine .ite (fun isRet => ?_) fun jumps => .pure fun _ => ?_
      · rw [if_pos isRet] at fits
        obtain rfl := isRet
        obtain ⟨rfl, word⟩ := fits
        have encodes := @encodes_ofReturn p offset slot word
        refine .ite (fun short => .pure fun _ => ?_) fun long => .pure fun _ => ?_
        · rwa [if_pos short] at encodes
        · rwa [if_neg long] at encodes
      · rw [if_neg jumps] at fits
        obtain ⟨shaped, rfl⟩ := fits
        cases target with
        | none => exact encodes_lost _ _
        | some target => exact encodes_jump shaped rfl jumps
  | «return» | arrayLoad | arrayStore | convert | operator | stack | monitor =>
      exact offers_plain fits
  | throw => exact offers_plain fits
  | nop => exact offers_plain fits

end Cell

end JvmClass
