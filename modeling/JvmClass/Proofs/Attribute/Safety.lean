import JvmClass.Attribute.Reader
import JvmClass.Proofs.Bytes.Proceeds
import JvmClass.Proofs.ClassFile.Layout

/-!
# Decoding attributes never leaves their bodies

Every layout of an attribute reads inside the body that its table gives it, whatever stands there,
and fails with no other errors than the constants do that it refers to and those that it raises
itself. A read outside the buffer is none of them.
-/

namespace JvmClass

open Scan (Proceeds Stays)

/-- Decoding the parts of an input may fail with every error that can be kept back, with those of
its constants, and with all that wrap them. -/
structure Input.Safe (i : Input) (fails : Error → Prop) : Prop where
  addressable : i.cursor.Addressable
  plain : ∀ e, e.abort? = none → fails e
  wraps : ∀ p f e, fails e → fails (.malformed p f (some e))
  entry : ∀ n e, i.pool.entry n = .error e → fails e

variable {i : Input} {fails : Error → Prop} {stop : Nat}

namespace Input.Safe

variable (safe : i.Safe fails)
include safe

/-- A flaw is an error that decoding may fail with. -/
theorem flaw (p : Int) (f : Flaw) : fails (.flaw p f) := safe.plain _ rfl

/-- A shortage of bytes is an error that decoding may fail with. -/
theorem shortage (d : Shortage) : fails (.shortage d) := safe.plain _ rfl

/-- What ends inside the input is a window of it. -/
theorem window (inside : stop ≤ i.cursor.size) : Window i.cursor stop :=
  ⟨inside, safe.addressable⟩

/-- A reference fails as its constant does, or because it is of another kind. -/
theorem refer {α : Type} {want : Entry → Option α} {offset : Int} {n : Nat} :
    Yields fails (i.pool.refer want offset n) fun _ => True := by
  have entry : Yields fails (i.pool.entry n) fun _ => True :=
    ⟨fun _ _ => trivial, safe.entry n⟩
  refine Yields.mapError (entry.bind fun e _ => ?_) fun e => safe.wraps _ _ e
  split
  · exact .pure trivial
  · exact .throw (safe.plain _ rfl)

/-- An optional reference fails with what the reference fails with. -/
theorem referSome {α : Type} {want : Entry → Option α} {offset : Int} {n : Nat} :
    Yields fails (some <$> i.pool.refer want offset n) fun _ => True :=
  safe.refer.map

end Input.Safe

/-- The fixed targets of type annotations are short. -/
theorem TargetLayout.fixed_le {targetType n : Nat} (known : of? targetType = some (.fixed n)) :
    n ≤ 3 := by
  simp only [of?] at known
  grind

/-- The parts of a body follow one another, and its table of attributes ends at `stop` or before. -/
structure InputCode.Lies (c : InputCode) (stop : Nat) : Prop where
  exceptions : c.exceptions = c.codeStart + c.codeLength
  catches : ∃ n, c.input.cursor.u2? c.exceptions = some n ∧ c.attributes = c.exceptions + 2 + 8 * n
  «attributes» : ∃ rows q, Layout.Table c.input.cursor c.attributes rows q ∧ q ≤ stop

/-- Whether the attribute is the body of a method. -/
def AttributeBody.isCode : AttributeBody → Bool
  | .code _ => true
  | _ => false

/-- A body that an attribute holds is one of the method that the attribute belongs to, and ends at
`stop` or before. -/
def AttributeBody.Sound (method : Option InputMember) (stop : Nat) (b : AttributeBody) : Prop :=
  ∀ c, b = .code c → method = some c.method ∧ c.Lies stop

/-- An attribute that is no body of a method has nothing to lie anywhere. -/
theorem AttributeBody.Sound.of_isCode {b : AttributeBody} (other : b.isCode = false) :
    b.Sound method stop := by
  rintro c rfl
  cases other

/-- What ends before a place ends before every later one. -/
theorem AttributeBody.Sound.mono {method : Option InputMember} {stop' : Nat} {b : AttributeBody}
    (sound : b.Sound method stop) (within : stop ≤ stop') : b.Sound method stop' := by
  intro c held
  obtain ⟨same, lies⟩ := sound c held
  obtain ⟨rows, q, table, before⟩ := lies.attributes
  exact ⟨same, lies.exceptions, lies.catches, rows, q, table, Nat.le_trans before within⟩

namespace Attribute

section Layouts

variable (safe : i.Safe fails) (window : Window i.cursor stop)
include safe window

/-- Reading a reference stays inside the window. -/
theorem stays_readRef {α : Type} (want : Entry → Option α) :
    Stays fails i.cursor stop (readRef i want) fun _ => True :=
  Stays.pos.bind fun _ _ => (Stays.u2 window safe.shortage).bind fun _ _ => .ofExcept safe.refer

/-- Reading a reference that may be zero stays inside the window. -/
theorem stays_readOptionalRef {α : Type} (want : Entry → Option α) :
    Stays fails i.cursor stop (readOptionalRef i want) fun _ => True :=
  Stays.pos.bind fun _ _ => (Stays.u2 window safe.shortage).bind fun _ _ =>
    .ite (fun _ => .pure trivial) fun _ => (Stays.ofExcept safe.refer).bind fun _ _ => .pure trivial

/-- Reading a counted list of references stays inside the window. -/
theorem stays_readRefs {α : Type} (want : Entry → Option α) :
    Stays fails i.cursor stop (readRefs i want) fun _ => True :=
  have item : Stays fails i.cursor stop (some <$> readRef i want) fun _ => True :=
    (stays_readRef safe window want).map
  (Stays.counted window safe.shortage item).mono fun _ _ => trivial

omit window in
/-- Nesting too deep is an error, and reads nothing. -/
theorem stays_tooDeep {α : Type} {post : α → Prop} :
    Stays fails i.cursor stop tooDeep post :=
  Stays.pos.bind fun _ _ => .fail (safe.flaw _ _)

/-- Reading a constant of an annotation stays inside the window. -/
theorem stays_readConst (kind : UInt8) (tag : Tag) :
    Stays fails i.cursor stop (readConst i kind tag) fun _ => True :=
  (stays_readRef safe window _).bind fun _ _ => .pure trivial

/-- Annotations and the values of their elements, at every depth. -/
theorem stays_annotated (room : Nat) :
    Stays fails i.cursor stop (readAnnotationRow i room) (fun _ => True) ∧
      Stays fails i.cursor stop (readValue i room) fun _ => True := by
  induction room with
  | zero => exact ⟨by rw [readAnnotationRow]; exact stays_tooDeep safe,
      by rw [readValue]; exact stays_tooDeep safe⟩
  | succ room inductionHypothesis =>
      obtain ⟨row, value⟩ := inductionHypothesis
      have text := stays_readRef safe window Entry.utf8?
      have element : Stays fails i.cursor stop (do
          let name ← readRef i Entry.utf8?
          return AnnotationElement.mk (some name) (← readValue i room)) fun _ => True :=
        text.bind fun _ _ => value.bind fun _ _ => .pure trivial
      constructor
      · rw [readAnnotationRow]
        exact text.bind fun _ _ => (Stays.counted window safe.shortage element).bind fun _ _ =>
          .pure trivial
      · rw [readValue]
        refine Stays.pos.bind fun _ _ => (Stays.u1 window safe.shortage).bind fun tag _ => ?_
        dsimp only
        split
        case h_10 => exact text.bind fun _ _ => text.bind fun _ _ => .pure trivial
        case h_11 => exact text.bind fun _ _ => .pure trivial
        case h_12 => exact row.bind fun _ _ => .pure trivial
        case h_13 =>
          exact (Stays.counted window safe.shortage value).bind fun _ _ => .pure trivial
        case h_14 => exact .fail (safe.flaw _ _)
        all_goals exact stays_readConst safe window _ _

/-- The target of a type annotation is kept as it stands, from where it starts to where the reading
of it ends. -/
theorem stays_readTypeAnnotationRow (room : Nat) :
    Stays fails i.cursor stop (readTypeAnnotationRow i room) fun _ => True := by
  intro p before
  refine (Proceeds.pos before).bind fun offset _ _ _ _ => ?_
  refine (Proceeds.u1 window safe.shortage ‹_›).bind fun targetType q _ inside _ => ?_
  split
  · exact .fail (safe.flaw _ _)
  · rename_i layout known
    refine (Proceeds.pos inside).bind fun start _ _ _ here => ?_
    obtain ⟨rfl, rfl⟩ := here
    -- What follows the target, wherever it ends.
    have rest {r : Nat} (forward : q ≤ r) (inside : r ≤ stop) : Proceeds fails i.cursor stop r (do
        let stop ← Scan.pos
        let targetInfo ← Scan.ofExcept (i.slice (q : Int).toNat (stop - q).toNat)
        let steps ← Scan.u1
        let typePath ← Scan.bytes (2 * steps)
        let marker ← readAnnotationRow i room
        return { targetType := targetType.toUInt8, targetInfo, typePath, marker : TypeAnnotation })
        fun _ _ => True := by
      refine (Proceeds.pos inside).bind fun stop' _ _ _ here => ?_
      obtain ⟨rfl, rfl⟩ := here
      have slice : Yields fails (i.slice (q : Int).toNat ((r : Int) - q).toNat) fun _ => True := by
        have width : ((r : Int) - q).toNat = r - q := by omega
        have within := window.inside
        rw [Input.slice, Int.toNat_natCast, width, Cursor.slice?_eq_segment forward (by omega)]
        exact .pure trivial
      refine (Proceeds.ofExcept inside slice).bind fun _ _ _ inside _ => ?_
      refine (Proceeds.u1 window safe.shortage inside).bind fun steps _ _ inside read => ?_
      have small := Cursor.u1_lt read.1
      have twice : 2 * (steps : Int) = (2 * steps : Nat) := by omega
      rw [twice]
      refine (Proceeds.bytes window safe.shortage (by omega) inside).bind fun _ _ _ inside _ => ?_
      exact ((stays_annotated safe window room).1 _ inside).bind fun _ _ _ inside _ =>
        .pure inside trivial
    split
    · rename_i n
      have small := TargetLayout.fixed_le known
      refine (Proceeds.skip window safe.shortage (by omega) inside).bind fun _ r forward inside _ =>
        ?_
      exact rest forward inside
    · refine (Proceeds.u2 window safe.shortage inside).bind fun n r forward inside read => ?_
      have small := Cursor.u2_lt read.1
      have six : 6 * (n : Int) = (6 * n : Nat) := by omega
      rw [six]
      refine (Proceeds.skip window safe.shortage (by omega) inside).bind
        fun _ r' forward' inside _ => ?_
      exact rest (by omega) inside

/-- Reading a row about a nested class stays inside the window. -/
theorem stays_readInnerClass :
    Stays fails i.cursor stop (readInnerClass i) fun _ => True :=
  (stays_readRef safe window _).bind fun _ _ =>
    (stays_readOptionalRef safe window _).bind fun _ _ =>
    (stays_readOptionalRef safe window _).bind fun _ _ =>
      (Stays.u2 window safe.shortage).bind fun _ _ => .pure trivial

/-- Reading a module that a module needs stays inside the window. -/
theorem stays_readRequire : Stays fails i.cursor stop (readRequire i) fun _ => True :=
  (stays_readRef safe window _).bind fun _ _ => (Stays.u2 window safe.shortage).bind fun _ _ =>
    (stays_readOptionalRef safe window _).bind fun _ _ => .pure trivial

/-- Reading a package that a module exports or opens stays inside the window. -/
theorem stays_readExport : Stays fails i.cursor stop (readExport i) fun _ => True :=
  (stays_readRef safe window _).bind fun _ _ => (Stays.u2 window safe.shortage).bind fun _ _ =>
    (stays_readRefs safe window _).bind fun _ _ => .pure trivial

/-- Reading a service with its providers stays inside the window. -/
theorem stays_readProvide : Stays fails i.cursor stop (readProvide i) fun _ => True :=
  (stays_readRef safe window _).bind fun _ _ => (stays_readRefs safe window _).bind fun _ _ =>
    .pure trivial

variable {method : Option InputMember}

/-- Reading a module declaration stays inside the window. -/
theorem stays_readModule :
    Stays fails i.cursor stop (readModule i) (AttributeBody.Sound method stop) :=
  (stays_readRef safe window _).bind fun _ _ => (Stays.u2 window safe.shortage).bind fun _ _ =>
    (stays_readOptionalRef safe window _).bind fun _ _ =>
    (Stays.counted window safe.shortage (stays_readRequire safe window)).bind fun _ _ =>
    (Stays.counted window safe.shortage (stays_readExport safe window)).bind fun _ _ =>
    (Stays.counted window safe.shortage (stays_readExport safe window)).bind fun _ _ =>
    (stays_readRefs safe window _).bind fun _ _ =>
    (Stays.counted window safe.shortage (stays_readProvide safe window)).bind fun _ _ =>
      .pure (.of_isCode rfl)

/-- Reading the initial value of a field stays inside the window. -/
theorem stays_readConstantValue :
    Stays fails i.cursor stop (readConstantValue i) (AttributeBody.Sound method stop) :=
  Stays.pos.bind fun _ _ => (stays_readRef safe window _).bind fun _ _ =>
    .guard (fun _ => safe.wraps _ _ _ (safe.plain _ rfl)) fun _ => .pure (.of_isCode rfl)

/-- Reading a row about a formal parameter stays inside the window. -/
theorem stays_readParameter : Stays fails i.cursor stop (readParameter i) fun _ => True :=
  (stays_readOptionalRef safe window _).bind fun _ _ =>
    (Stays.u2 window safe.shortage).bind fun _ _ => .pure trivial

end Layouts

section Skipping

variable {c : Cursor} (window : Window c stop) (short : ∀ d, fails (.shortage d))
include window short

/-- Skipping an attribute stays inside the window. -/
theorem stays_skipAttribute : Stays fails c stop Layout.skipAttribute fun _ => True :=
  (Stays.skip window short (n := 2) (by decide)).bind fun _ _ =>
    (Stays.u4 window short).bind fun _ small => Stays.remaining.bind fun _ _ =>
      .guard (fun _ => short _) fun _ => .skip window short small

/-- Skipping a table of attributes stays inside the window. -/
theorem stays_skipAttributes : Stays fails c stop Layout.skipAttributes fun _ => True :=
  (Stays.u2 window short).bind fun _ _ =>
    (stays_skipAttribute window short).times.bind fun _ _ => .pure trivial

end Skipping

section StackMaps

/-- Where a frame stands that is an offset delta after the frame before. -/
def frameOffset (previous : Option Nat) (delta : Nat) : Nat :=
  match previous with
  | none => delta
  | some p => p + delta + 1

/-- Frames from one on that stands at an offset, and whose bytes start at another. -/
def framesFrom (c : InputCode) (done : List StackMapFrame) (n : Nat) (start offset : Nat)
    (frame : List VerificationType × List VerificationType) : Scan (List StackMapFrame) := fun d =>
  if c.codeLength ≤ offset then
    .error ⟨.flaw start (.frameOffset offset c.codeLength), d.pos⟩
  else
    readFrames c (⟨some (.decoded c.input.origin c.offset offset), frame.1, frame.2⟩ :: done)
      (some offset) frame.1 n d

/-- Frames are read one after another, and what follows a frame depends on where that stands. -/
theorem readFrames_succ (c : InputCode) (done : List StackMapFrame) (previous : Option Nat)
    (locals : List VerificationType) (n : Nat) (cursor : Cursor) (p : Nat) :
    readFrames c done previous locals (n + 1) (.on cursor stop p) =
      (readFrame c locals >>= fun frame =>
        framesFrom c done n p (frameOffset previous frame.1) frame.2) (.on cursor stop p) := by
  cases read : readFrame c locals (.on cursor stop p) with
  | error s =>
      rw [Scan.bind_of_error read]
      cases previous <;> (rw [readFrames]; simp only [read])
  | ok r =>
      obtain ⟨⟨delta, locals', stack⟩, d⟩ := r
      rw [Scan.bind_of_ok read]
      cases previous <;> (rw [readFrames]; simp only [read]; rfl)

variable {c : InputCode} (safe : c.input.Safe fails) (window : Window c.input.cursor stop)
include safe window

/-- Reading a type of a frame stays inside the window. -/
theorem stays_readVerificationType :
    Stays fails c.input.cursor stop (readVerificationType c) fun _ => True := by
  refine Stays.pos.bind fun _ _ => (Stays.u1 window safe.shortage).bind fun tag _ => ?_
  refine .ite (fun _ => .pure trivial) fun _ => .ite (fun _ => ?_) fun _ =>
    .ite (fun _ => ?_) fun _ => ?_
  · exact (stays_readRef safe window _).bind fun _ _ => .pure trivial
  · exact (Stays.u2 window safe.shortage).bind fun _ _ =>
      .guard (fun _ => safe.flaw _ _) fun _ => .pure trivial
  · exact .fail (safe.flaw _ _)

/-- Reading a frame stays inside the window. -/
theorem stays_readFrame (locals : List VerificationType) :
    Stays fails c.input.cursor stop (readFrame c locals) fun _ => True := by
  have type := stays_readVerificationType safe window
  have types := Stays.counted window safe.shortage type
  refine Stays.pos.bind fun _ _ => (Stays.u1 window safe.shortage).bind fun kind _ => ?_
  refine .ite (fun _ => .pure trivial) fun _ => ?_
  refine .ite (fun _ => type.bind fun _ _ => .pure trivial) fun _ => ?_
  refine .guard (fun _ => safe.flaw _ _) fun _ => ?_
  refine (Stays.u2 window safe.shortage).bind fun delta _ => ?_
  refine .ite (fun _ => type.bind fun _ _ => .pure trivial) fun _ => ?_
  refine .ite (fun _ => .guard (fun _ => safe.flaw _ _) fun _ => .pure trivial) fun _ => ?_
  refine .ite (fun _ => .pure trivial) fun _ => ?_
  refine .ite (fun _ => type.times.bind fun _ _ => .pure trivial) fun _ => ?_
  exact types.bind fun _ _ => types.bind fun _ _ => .pure trivial

omit window in
/-- Reading frames from one that has been read stays inside the window, if reading those that follow
does. -/
theorem stays_framesFrom (done : List StackMapFrame) {n : Nat}
    (later : ∀ done previous locals,
      Stays fails c.input.cursor stop (readFrames c done previous locals n)
      fun _ => True)
    (start offset : Nat) (frame : List VerificationType × List VerificationType) :
    Stays fails c.input.cursor stop (framesFrom c done n start offset frame) fun _ => True := by
  intro p before
  by_cases beyond : c.codeLength ≤ offset
  · refine ⟨fun frames d given => ?_, fun s given => ?_⟩ <;>
      simp only [framesFrom, beyond, ↓reduceIte, reduceCtorEq, Except.error.injEq] at given
    exact given ▸ safe.flaw _ _
  · have same : framesFrom c done n start offset frame (.on c.input.cursor stop p) =
        readFrames c (⟨some (.decoded c.input.origin c.offset offset), frame.1, frame.2⟩ :: done)
          (some offset) frame.1 n (.on c.input.cursor stop p) := by
      simp only [framesFrom, beyond, ↓reduceIte]
    exact ⟨same ▸ (later _ _ _ p before).1, same ▸ (later _ _ _ p before).2⟩

/-- Reading frames stays inside the window, however many there are. -/
theorem stays_readFrames (done : List StackMapFrame) (previous : Option Nat)
    (locals : List VerificationType) (n : Nat) :
    Stays fails c.input.cursor stop (readFrames c done previous locals n) fun _ => True := by
  induction n generalizing done previous locals with
  | zero => exact .pure trivial
  | succ n inductionHypothesis =>
      intro p before
      have proceeds := (stays_readFrame safe window locals p before).bind
        fun frame q _ inside _ => stays_framesFrom safe done inductionHypothesis p
          (frameOffset previous frame.1) frame.2 q inside
      rw [Proceeds, ← readFrames_succ] at proceeds
      exact proceeds

/-- Reading a stack map stays inside the window. -/
theorem stays_readStackMap {method : Option InputMember} :
    Stays fails c.input.cursor stop (readStackMap c) (AttributeBody.Sound method stop) := by
  have locals : Yields fails (initialLocals c.method) fun _ => True := by
    unfold initialLocals
    split
    · exact .throw (safe.plain _ rfl)
    · exact .pure trivial
  exact (Stays.ofExcept locals).bind fun _ _ => (Stays.u2 window safe.shortage).bind fun _ _ =>
    (stays_readFrames safe window _ _ _ _).bind fun _ _ => .pure (.of_isCode rfl)

end StackMaps

section Bodies

/-- A body is read where its parts follow one another up to the end of the window. -/
theorem readCode_eq_ok_iff {c : Cursor} {stop : Nat} (window : Window c stop) {m : InputMember}
    {env : Envelope} {p : Nat} {d : Decoder} {b : AttributeBody} (before : p ≤ stop) :
    readCode m env (.on c stop p) = .ok (b, d) ↔
      ∃ maxStack maxLocals codeLength n rows q, c.u2? p = some maxStack ∧
        c.u2? (p + 2 : Nat) = some maxLocals ∧ c.u4? (p + 4 : Nat) = some codeLength ∧
        0 < codeLength ∧ codeLength ≤ 0xFFFF ∧ c.u2? (p + 8 + codeLength : Nat) = some n ∧
        Layout.Table c (p + 8 + codeLength + 2 + 8 * n) rows q ∧ q ≤ stop ∧ d = .on c stop q ∧
        b = .code
          { method := m, offset := env.offset, length := env.length, maxStack, maxLocals
            codeStart := p + 8, codeLength, exceptions := p + 8 + codeLength
            «attributes» := p + 8 + codeLength + 2 + 8 * n } := by
  have inside := window.inside
  have eight (n : Nat) : (8 * (n : Int)) = (8 * n : Nat) := by omega
  simp only [readCode, Scan.bind_eq_ok_iff, Scan.guard_eq_ok_iff, Scan.pos_eq_ok_iff,
    Scan.pure_eq_ok_iff]
  constructor
  · rintro ⟨maxStack, _, read₁, maxLocals, _, read₂, _, _, ⟨-, rfl⟩, codeLength, _, read₃, sized, _,
      _, ⟨rfl, rfl⟩, _, _, skipped, _, _, ⟨rfl, rfl⟩, n, _, read₄, _, _, skipped', _, _, ⟨rfl, rfl⟩,
      _, _, others, rfl, rfl⟩
    obtain ⟨stack, room, rfl⟩ := (Scan.u2_eq_ok_iff window before).mp read₁
    obtain ⟨locals, room, rfl⟩ := (Scan.u2_eq_ok_iff window room).mp read₂
    obtain ⟨length, room, rfl⟩ := (Scan.u4_eq_ok_iff window room).mp read₃
    have small := Cursor.u4_lt length
    simp only [Bool.or_eq_true, decide_eq_true_eq, not_or, Nat.not_lt] at sized
    obtain ⟨room, rfl⟩ := (Scan.skip_eq_ok_iff window room (by omega)).mp skipped
    obtain ⟨count, room, rfl⟩ := (Scan.u2_eq_ok_iff window room).mp read₄
    have small' := Cursor.u2_lt count
    rw [eight] at skipped'
    obtain ⟨room, rfl⟩ := (Scan.skip_eq_ok_iff window room (by omega)).mp skipped'
    obtain ⟨rows, q, table, last, rfl⟩ := (Layout.skipAttributes_eq_ok_iff window room).mp others
    exact ⟨maxStack, maxLocals, codeLength, n, rows, q, stack, locals, length, by omega, sized.2,
      count, table, last, rfl, rfl⟩
  · rintro ⟨maxStack, maxLocals, codeLength, n, rows, q, stack, locals, length, positive, short,
      count, table, last, rfl, rfl⟩
    have forward := table.forward
    have small' := Cursor.u2_lt count
    refine ⟨maxStack, _, (Scan.u2_eq_ok_iff window before).mpr ⟨stack, by omega, rfl⟩,
      maxLocals, _, (Scan.u2_eq_ok_iff window (by omega)).mpr ⟨locals, by omega, rfl⟩, _, _,
      ⟨rfl, rfl⟩, codeLength, _, (Scan.u4_eq_ok_iff window (by omega)).mpr ⟨length, by omega, rfl⟩,
      ?_, _, _, ⟨rfl, rfl⟩, (), _,
      (Scan.skip_eq_ok_iff window (by omega) (by omega)).mpr ⟨by omega, rfl⟩, _, _,
      ⟨rfl, rfl⟩, n, _, (Scan.u2_eq_ok_iff window (by omega)).mpr ⟨count, by omega, rfl⟩, (), _, ?_,
      _, _, ⟨rfl, rfl⟩, (), _, (Layout.skipAttributes_eq_ok_iff window (by omega)).mpr
        ⟨rows, q, table, last, rfl⟩, rfl, rfl⟩
    · simp only [Bool.or_eq_true, decide_eq_true_eq, not_or, Nat.not_lt]
      omega
    · rw [eight]
      exact (Scan.skip_eq_ok_iff window (by omega) (by omega)).mpr ⟨by omega, rfl⟩

/-- Reading the extent of a body stays inside the window, and the body that it gives lies there. -/
theorem stays_readCode {m : InputMember} (safe : m.input.Safe fails)
    (window : Window m.input.cursor stop) (env : Envelope) :
    Stays fails m.input.cursor stop (readCode m env) (AttributeBody.Sound (some m) stop) := by
  have twice := Stays.u2 window safe.shortage
  have stays : Stays fails m.input.cursor stop (readCode m env) fun _ => True := by
    refine twice.bind fun _ _ => twice.bind fun _ _ => Stays.pos.bind fun _ _ => ?_
    refine (Stays.u4 window safe.shortage).bind fun codeLength small => ?_
    refine .guard (fun _ => safe.flaw _ _) fun _ => Stays.pos.bind fun _ _ => ?_
    refine (Stays.skip window safe.shortage small).bind fun _ _ => Stays.pos.bind fun _ _ => ?_
    refine twice.bind fun n few => ?_
    have width : 8 * (n : Int) = (8 * n : Nat) := by omega
    rw [width]
    refine (Stays.skip window safe.shortage (by omega)).bind fun _ _ => Stays.pos.bind fun _ _ => ?_
    exact (stays_skipAttributes window safe.shortage).bind fun _ _ => .pure trivial
  refine stays.strengthen fun p before b d read => ?_
  obtain ⟨maxStack, maxLocals, codeLength, n, rows, q, -, -, -, -, -, count, table, last, -, rfl⟩ :=
    (readCode_eq_ok_iff window before).mp read
  intro c same
  obtain rfl := AttributeBody.code.inj same
  exact ⟨rfl, rfl, ⟨n, count, rfl⟩, rows, q, table, last⟩

end Bodies

/-- What a table belongs to is there with it. -/
structure Context.Fits (ctx : Context) : Prop where
  method : ctx.holder = .method → ∃ m, ctx.method = some m ∧ m.input = ctx.input
  code : ctx.holder = .code → ∃ c, ctx.code = some c ∧ c.input = ctx.input

section Contexts

variable {ctx : Context} (fits : ctx.Fits) (safe : ctx.input.Safe fails)
  (window : Window ctx.input.cursor stop) (room : Nat) (env : Envelope)

/-- A layout is read inside the window where it means something. -/
def StaysRow (fails : Error → Prop) (ctx : Context) (stop : Nat)
    (row : String × List Holder × Scan AttributeBody) : Prop :=
  ctx.holder ∈ row.2.1 →
    Stays fails ctx.input.cursor stop row.2.2 (AttributeBody.Sound ctx.method stop)

include safe window

include fits in
/-- Every plain layout stays inside the window of its attribute, and a body that it gives lies
there. -/
theorem stays_plainLayouts : ∀ row ∈ plainLayouts ctx room env, StaysRow fails ctx stop row := by
  have text := stays_readRef safe window Entry.utf8?
  have cls := stays_readRef safe window Entry.class?
  have classes := stays_readRefs safe window Entry.class?
  simp only [plainLayouts, List.forall_mem_cons, List.not_mem_nil, false_imp_iff, implies_true,
    and_true]
  refine ⟨?_, ?_, ?_, ?_, ?_, ?_, ?_, ?_, ?_, ?_, ?_, ?_, ?_, ?_, ?_, ?_, ?_⟩
  · exact fun _ => text.bind fun _ _ => .pure (.of_isCode rfl)
  · exact fun _ => .rest window safe.shortage fun _ => .pure (.of_isCode rfl)
  · exact fun _ => (Stays.counted window safe.shortage (stays_readInnerClass safe window)).bind
      fun _ _ => .pure (.of_isCode rfl)
  · exact fun _ => cls.bind fun _ _ => (stays_readOptionalRef safe window _).bind fun _ _ =>
      .pure (.of_isCode rfl)
  · exact fun _ => cls.bind fun _ _ => .pure (.of_isCode rfl)
  · exact fun _ => classes.bind fun _ _ => .pure (.of_isCode rfl)
  · exact fun _ => classes.bind fun _ _ => .pure (.of_isCode rfl)
  · exact fun _ => stays_readModule safe window
  · exact fun _ => text.bind fun _ _ => .pure (.of_isCode rfl)
  · exact fun _ => .pure (.of_isCode rfl)
  · exact fun _ => .pure (.of_isCode rfl)
  · exact fun _ => stays_readConstantValue safe window
  · exact fun _ => classes.bind fun _ _ => .pure (.of_isCode rfl)
  · exact fun _ => (Stays.u1 window safe.shortage).bind fun _ _ =>
      (stays_readParameter safe window).times.bind fun _ _ => .pure (.of_isCode rfl)
  · exact fun _ => (stays_annotated safe window room).2.bind fun _ _ => .pure (.of_isCode rfl)
  · intro holder
    obtain ⟨m, given, same⟩ := fits.method (List.mem_singleton.mp holder)
    rw [given]
    exact same ▸ stays_readCode (same ▸ safe) (same ▸ window) env
  · intro holder
    obtain ⟨c, given, same⟩ := fits.code (List.mem_singleton.mp holder)
    rw [given]
    exact same ▸ stays_readStackMap (same ▸ safe) (same ▸ window)

/-- Every annotation layout stays inside the window of its attribute. -/
theorem stays_annotatingLayouts (visible : Bool) :
    ∀ row ∈ annotationLayouts ctx room visible, StaysRow fails ctx stop row := by
  have rows := Stays.counted window safe.shortage (stays_annotated safe window room).1
  simp only [annotationLayouts, List.forall_mem_cons, List.not_mem_nil, false_imp_iff, implies_true,
    and_true]
  refine ⟨?_, ?_, ?_⟩
  · exact fun _ => rows.bind fun _ _ => .pure (.of_isCode rfl)
  · exact fun _ => (Stays.u1 window safe.shortage).bind fun _ _ =>
      rows.times.bind fun _ _ => .pure (.of_isCode rfl)
  · exact fun _ => (Stays.counted window safe.shortage
      (stays_readTypeAnnotationRow safe window room)).bind fun _ _ => .pure (.of_isCode rfl)

include fits in
/-- Whatever layout an attribute has, reading it stays inside its window. -/
theorem stays_layout {read : Scan AttributeBody} (found : layout? ctx room env = some read) :
    Stays fails ctx.input.cursor stop read (AttributeBody.Sound ctx.method stop) := by
  have rows : ∀ row ∈ layouts ctx room env, StaysRow fails ctx stop row := by
    simp only [layouts, List.forall_mem_append]
    exact ⟨⟨stays_plainLayouts fits safe window room env,
      stays_annotatingLayouts safe window room true⟩,
      stays_annotatingLayouts safe window room false⟩
  simp only [layout?] at found
  split at found
  · rename_i name holders read' first
    split at found
    · rename_i holds
      obtain rfl := Option.some.inj found
      exact rows _ (List.mem_of_find?_eq_some first) (List.contains_iff_mem.mp holds)
    · cases found
  · cases found

omit window

/-- An attribute whose body lies in the buffer is decoded from there. -/
theorem yields_decodeWith {read : Option (Scan AttributeBody)} {env : Envelope}
    (inside : env.offset + env.length ≤ ctx.input.cursor.size)
    (stays : ∀ step, read = some step → Stays fails ctx.input.cursor (env.offset + env.length) step
      (AttributeBody.Sound ctx.method (env.offset + env.length))) :
    Yields fails (decodeWith ctx.input env read) fun a =>
      a.body.Sound ctx.method (env.offset + env.length) := by
  cases read with
  | none =>
      rw [decodeWith, Input.slice, Cursor.slice?_eq_some_iff.mpr ⟨inside, rfl⟩]
      exact .pure (.of_isCode rfl)
  | some step =>
      have window := safe.window inside
      obtain ⟨gives, stops⟩ := stays step rfl env.offset (Nat.le_add_right _ _)
      rw [decodeWith, ← Int.natCast_add, Scan.onWindow_eq window (Nat.le_add_right _ _)]
      cases read : step (.on ctx.input.cursor (env.offset + env.length) env.offset) with
      | error s => exact .throw (safe.wraps _ _ _ (stops s read))
      | ok r =>
          obtain ⟨q, -, -, -, sound⟩ := gives r.1 r.2 read
          exact .guard (fun _ => safe.flaw _ _) fun _ => .pure sound

/-- Reading a row passes over its body, wherever in the window it stands. -/
theorem stays_readTableRow {decode : Envelope → Except Error Attribute}
    (window : Window ctx.input.cursor stop)
    (yields : ∀ env : Envelope, env.offset + env.length ≤ stop →
      Yields fails (decode env) fun a => a.body.Sound ctx.method (env.offset + env.length)) :
    Stays fails ctx.input.cursor stop (readTableRow ctx decode) fun out =>
      ∀ a, out = some a → a.body.Sound ctx.method stop := by
  intro p before
  refine (Proceeds.pos before).bind fun offset _ _ inside _ => ?_
  refine (Proceeds.u2 window safe.shortage inside).bind fun index _ _ inside _ => ?_
  refine (Proceeds.ofExcept inside safe.refer).bind fun name _ _ inside _ => ?_
  refine (Proceeds.u4 window safe.shortage inside).bind fun length _ _ inside read => ?_
  have small := Cursor.u4_lt read.1
  refine (Proceeds.remaining window inside).bind fun left _ _ inside _ => ?_
  refine .guard (fun _ => safe.flaw _ _) fun _ => ?_
  refine (Proceeds.pos inside).bind fun start _ _ inside here => ?_
  refine (Proceeds.skip window safe.shortage (by omega) inside).bind fun _ _ _ inside here' => ?_
  split
  · exact .pure inside nofun
  · have within : start.toNat + length ≤ stop := by omega
    refine (Proceeds.ofExcept inside (yields ⟨name, _, length⟩ within)).bind
      fun a _ _ inside sound => ?_
    split
    · exact .pure inside nofun
    · exact .pure inside fun _ same => Option.some.inj same ▸ sound.1.mono within

/-- Reading a table stays inside its window if decoding what its rows hold does, and bodies in it
lie there. -/
theorem stays_readTable {decode : Envelope → Except Error Attribute}
    (window : Window ctx.input.cursor stop)
    (yields : ∀ env : Envelope, env.offset + env.length ≤ stop →
      Yields fails (decode env) fun a => a.body.Sound ctx.method (env.offset + env.length)) :
    Stays fails ctx.input.cursor stop (readTable ctx decode) fun as =>
      ∀ a ∈ as, a.body.Sound ctx.method stop := by
  refine (Stays.counted window safe.shortage (stays_readTableRow safe window yields)).bind
    fun outs sound => .pure fun a member => ?_
  obtain ⟨out, held, same⟩ := List.mem_filterMap.mp member
  exact sound out held a same

include fits in
/-- A table of attributes without components of its own. -/
theorem stays_plainTable (window : Window ctx.input.cursor stop) (room : Nat) :
    Stays fails ctx.input.cursor stop
      (readTable ctx fun env => decodeWith ctx.input env (layout? ctx room env)) fun as =>
        ∀ a ∈ as, a.body.Sound ctx.method stop := by
  refine stays_readTable safe window fun env within => ?_
  have inside := Nat.le_trans within window.inside
  exact yields_decodeWith safe inside fun step found =>
    stays_layout fits safe (safe.window inside) room env found

end Contexts

/-- A component and its attributes, which mean less than those of a class. -/
theorem stays_readComponent (safe : i.Safe fails) (window : Window i.cursor stop) (room : Nat) :
    Stays fails i.cursor stop (readComponent i room) fun _ => True := by
  have text := stays_readRef safe window Entry.utf8?
  cases room with
  | zero => exact text.bind fun _ _ => text.bind fun _ _ => stays_tooDeep safe
  | succ room =>
      have fits : Context.Fits { input := i, holder := .component, method := none, code := none } :=
        ⟨nofun, nofun⟩
      refine text.bind fun _ _ => text.bind fun _ _ => ?_
      exact (stays_plainTable fits safe window room).bind fun _ _ => .pure trivial

section Tables

variable {ctx : Context} (fits : ctx.Fits) (safe : ctx.input.Safe fails)
include fits safe

/-- Decoding an attribute reads nothing outside its body. -/
theorem yields_decode (room : Nat) {env : Envelope}
    (inside : env.offset + env.length ≤ ctx.input.cursor.size) :
    Yields fails (decode ctx room env) fun a =>
      a.body.Sound ctx.method (env.offset + env.length) := by
  have window := safe.window inside
  refine yields_decodeWith safe inside fun step found => ?_
  split at found
  · split at found
    · obtain rfl := Option.some.inj found
      exact (Stays.counted window safe.shortage (stays_readComponent safe window room)).bind
        fun _ _ => .pure (.of_isCode rfl)
    · cases found
  · exact stays_layout fits safe window room env found

/-- A table of attributes is decoded, and the bodies among them lie in the buffer. -/
theorem yields_table {start stop : Nat} (ordered : start ≤ stop)
    (inside : stop ≤ ctx.input.cursor.size) :
    Yields fails (table ctx start stop) fun as => ∀ a ∈ as, a.body.Sound ctx.method stop := by
  have window := safe.window inside
  have stays := stays_readTable safe window fun env within =>
    yields_decode fits safe maxNesting (Nat.le_trans within inside)
  obtain ⟨gives, stops⟩ := stays start ordered
  rw [table, Scan.onWindow_eq window ordered]
  cases read : readTable ctx (decode ctx maxNesting) (.on ctx.input.cursor stop start) with
  | error s => exact .throw (stops s read)
  | ok r =>
      obtain ⟨q, -, -, -, sound⟩ := gives r.1 r.2 read
      exact .pure sound

end Tables

end Attribute

end JvmClass
