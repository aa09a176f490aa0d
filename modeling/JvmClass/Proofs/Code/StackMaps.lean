import JvmClass.Proofs.Attribute.RoundTrip
import JvmClass.Proofs.Build.Blame
import JvmClass.Proofs.Code.Outline
import JvmClass.Proofs.Code.Switches

/-!
# Stack maps that are written and read again

Frames are written in full, in the order of the offsets that they are for. Each says how far it
stands behind the one before. Reading adds these distances up again, whatever the locals of the
method are.
-/

namespace JvmClass

open Attribute
open Emit (Lays maxCount maxLength)
open Scan (Parses)

variable {σ : Type} {p : PoolBuilder} {options : Options} {offsets : Emit.Offsets}
  {stands : Label → Option Nat} {size : Nat}

/-- The label of a decoded body for the offset that a label stands at. -/
def InputCode.standing (c : InputCode) (stands : Label → Option Nat) (l : Label) : Option Label :=
  (stands l).map c.label

/-- The offsets that are given for labels are those that they stand at. -/
def Emit.Offsets.Follow (offsets : Emit.Offsets) (stands : Label → Option Nat) : Prop :=
  ∀ l n, l.bind stands = some n → offsets l = .ok n

/-- The offsets that a body gives for labels are those that they are bound to. -/
theorem BodyWriter.follow (w : BodyWriter) : Emit.Offsets.Follow w.offset w.stands := fun _ _ =>
  offset_eq_ok_iff.mpr

namespace VerificationType

/-- A type that can be written, about an instruction before the end of the code. -/
structure Storable (stands : Label → Option Nat) (size : Nat) (v : VerificationType) : Prop where
  fits : v.Fits
  inside : ∀ l ∈ v.label?, ∃ n < size, l.bind stands = some n

/-- What is written of a type is read as the type. -/
theorem Storable.lays {v : VerificationType} (storable : v.Storable stands size)
    (follow : offsets.Follow stands) (short : size ≤ BodyWriter.maxSize) :
    Lays p options (Emit.verificationType offsets v : Emit σ Bytes) fun q text =>
      ∀ c : InputCode, c.input.Reads q → c.codeLength = size →
        Parses c.input.cursor (readVerificationType c) text
          (· = v.relabel (c.standing stands)) := by
  obtain ⟨fits, inside⟩ := storable
  rw [BodyWriter.maxSize] at short
  cases v with
  | plain tag =>
      have fits : tag ≤ 6 := fits
      refine .pure fun q _ c _ _ => .pos fun _ => ?_
      rw [← List.append_nil (u1 _)]
      refine (Parses.u1 (n := tag) (by omega)).bind fun n same => ?_
      subst same
      rw [if_pos fits]
      exact .pure rfl
  | object name =>
      refine (Lays.interning (fun _ _ => PoolBuilder.grants_class fits)
        fun grown has => ⟨grown.has has.1, has.2⟩).bind fun e => .pure ?_
      intro q _ has c reads _
      refine .pos fun _ => (Parses.u1 (n := 7) (by decide)).bind fun n same => ?_
      subst same
      have denotes : q.Denotes e.place.index (Entry.loadable (.class e)).bare :=
        ⟨_, has.1, rfl, rfl⟩
      refine (parses_readRef reads Entry.blind_class? (e := .loadable (.class e)) rfl denotes).map
        fun e' same => ?_
      rw [ClassEntry.bare_eq_iff.mp same, has.2]
      rfl
  | uninitialized new =>
      obtain ⟨m, before, there⟩ := inside new rfl
      obtain ⟨l, rfl, here⟩ := Option.bind_eq_some_iff.mp there
      rw [Emit.verificationType, follow _ _ there]
      refine .pure fun q _ c _ length => .pos fun _ => ?_
      refine (Parses.u1 (n := 8) (by decide)).bind fun n same => ?_
      subst same
      rw [← List.append_nil (u2 _)]
      refine (Parses.u2 (n := m) (by omega)).bind fun n same => ?_
      subst same
      refine .guard (by omega) (.pure ?_)
      rw [relabel, Option.bind_some, InputCode.standing, here]
      rfl

/-- Types are written with their count. -/
theorem lays_counted {vs : List VerificationType} (few : vs.length ≤ maxCount)
    (storable : ∀ v ∈ vs, v.Storable stands size) (follow : offsets.Follow stands)
    (short : size ≤ BodyWriter.maxSize) :
    Lays p options (Emit.counted (Emit.verificationType offsets) vs : Emit σ Bytes) fun q text =>
      ∀ c : InputCode, c.input.Reads q → c.codeLength = size →
        Parses c.input.cursor (Scan.counted (readVerificationType c)) text
          (· = vs.map (relabel (c.standing stands))) := by
  refine (Lays.count few).bind fun n =>
    (Lays.each fun v member => (storable v member).lays follow short).bind fun chunk => .pure ?_
  rintro q _ ⟨chunks, rfl, all⟩ rfl c reads length
  rw [maxCount] at few
  have each := Parses.times (f := id) (all.imp fun _ _ parses => parses c reads length)
  exact (Parses.counted (by omega) each).mono fun vs' same => by rwa [List.map_id] at same

end VerificationType

/-! ## Frames -/

/-- A frame in full is read as its distance, its locals and its stack. -/
theorem Attribute.parses_fullFrame {c : InputCode} {delta : Nat} {front back : Bytes}
    {before locals stack : List VerificationType} (small : delta < 65536)
    (first : Parses c.input.cursor (Scan.counted (readVerificationType c)) front (· = locals))
    (second : Parses c.input.cursor (Scan.counted (readVerificationType c)) back (· = stack)) :
    Parses c.input.cursor (readFrame c before) (u1 255 ++ (u2 delta ++ (front ++ back)))
      (· = (delta, locals, stack)) := by
  refine .pos fun _ => (Parses.u1 (n := 255) (by decide)).bind fun kind same => ?_
  subst same
  refine (Parses.u2 small).bind fun d same => ?_
  subst same
  refine first.bind fun ls same => second.map fun st same' => ?_
  rw [same, same']

/-- A frame is read before the frames after it. -/
theorem Attribute.parses_readFrames_succ {c : InputCode} {before : List StackMapFrame}
    {previous : Option Nat} {locals locals' stack : List VerificationType} {delta n : Nat}
    {front back : Bytes} {post : List StackMapFrame → Prop}
    (first : Parses c.input.cursor (readFrame c locals) front (· = (delta, locals', stack)))
    (inside : frameOffset previous delta < c.codeLength)
    (others : Parses c.input.cursor
      (readFrames c (⟨some (c.label (frameOffset previous delta)), locals', stack⟩ :: before)
        (some (frameOffset previous delta)) locals' n) back post) :
    Parses c.input.cursor (readFrames c before previous locals (n + 1)) (front ++ back) post where
  reads {stop p} window spells fits := by
    rw [readFrames_succ]
    refine (first.bind fun frame same => ?_).reads window spells fits
    subst same
    refine ⟨fun {stop p} window spells fits => ?_⟩
    rw [framesFrom, if_neg (Nat.not_le.mpr inside)]
    exact others.reads window spells fits

namespace StackMapFrame

/-- A frame that can be written in full, for an instruction before the end of the code. -/
structure Storable (stands : Label → Option Nat) (size : Nat) (f : StackMapFrame) : Prop where
  target : ∃ n < size, f.target.bind stands = some n
  locals : f.locals.length ≤ maxCount
  stack : f.stack.length ≤ maxCount
  types : ∀ v ∈ f.locals ++ f.stack, v.Storable stands size

/-- The first frame is for an earlier instruction than the second. -/
def Precedes (stands : Label → Option Nat) (f g : StackMapFrame) : Prop :=
  ∃ m n, f.target.bind stands = some m ∧ g.target.bind stands = some n ∧ m < n

end StackMapFrame

/-- The offset that a frame stands after, one before the start if there is no frame before. -/
def Attribute.offsetBefore : Option Nat → Int
  | none => -1
  | some n => n

/-- The offset of a frame is the one that its distance was computed from. -/
theorem Attribute.frameOffset_eq {previous : Option Nat} {delta n : Nat}
    (apart : (delta : Int) = n - offsetBefore previous - 1) : frameOffset previous delta = n := by
  cases previous <;> simp only [frameOffset, offsetBefore] at * <;> omega

/-- Frames that stand one after another are written and read again. -/
theorem Emit.lays_framesAfter {rows : List (Nat × StackMapFrame)}
    (storable : ∀ row ∈ rows, row.2.Storable stands size)
    (placed : ∀ row ∈ rows, row.2.target.bind stands = some row.1)
    (sorted : rows.Pairwise fun a b => a.1 < b.1) {previous : Option Nat}
    (after : ∀ row ∈ rows, offsetBefore previous < row.1) (follow : offsets.Follow stands)
    (short : size ≤ BodyWriter.maxSize) (done : List Bytes) :
    Lays p options (framesAfter offsets (offsetBefore previous) done rows : Emit σ Bytes)
      fun q text =>
      ∃ tail, text = done.reverse.flatten ++ tail ∧
        ∀ c : InputCode, c.input.Reads q → c.codeLength = size → ∀ locals before,
          Parses c.input.cursor (readFrames c before previous locals rows.length) tail
            (· = before.reverse ++ rows.map fun row => row.2.relabel (c.standing stands)) := by
  induction rows generalizing previous done with
  | nil =>
      refine .pure fun q _ => ⟨[], (List.append_nil _).symm, fun c _ _ locals before => ?_⟩
      exact .pure (List.append_nil _).symm
  | cons row rest inductionHypothesis =>
      obtain ⟨offset, f⟩ := row
      obtain ⟨here, storable⟩ := List.forall_mem_cons.mp storable
      obtain ⟨stood, placed⟩ := List.forall_mem_cons.mp placed
      obtain ⟨later, sorted⟩ := List.pairwise_cons.mp sorted
      obtain ⟨beyond, after⟩ := List.forall_mem_cons.mp after
      obtain ⟨⟨_, before, same⟩, few, few', types⟩ := here
      obtain rfl := Option.some.inj (stood.symm.trans same)
      obtain ⟨locals, stack⟩ := List.forall_mem_append.mp types
      obtain ⟨delta, apart⟩ := Int.eq_ofNat_of_zero_le
        (show 0 ≤ (offset : Int) - offsetBefore previous - 1 by dsimp only at beyond; omega)
      have small : delta < 65536 := by
        have low : -1 ≤ offsetBefore previous := by cases previous <;> simp [offsetBefore]
        rw [BodyWriter.maxSize] at short
        omega
      refine .guard (by dsimp only at beyond; omega) ?_
      refine (VerificationType.lays_counted few locals follow short).bind fun front => ?_
      refine (VerificationType.lays_counted few' stack follow short).bind fun back => ?_
      have next : ∀ row ∈ rest, offsetBefore (some offset) < row.1 := fun row member =>
        Int.ofNat_lt.mpr (later row member)
      refine (inductionHypothesis storable placed sorted next _).mono ?_
      rintro q text - ⟨tail, rfl, others⟩ second first
      refine ⟨u1 255 ++ (u2 delta ++ (front ++ back)) ++ tail, ?_,
        fun c reads length locals before => ?_⟩
      · rw [apart]
        simp [List.append_assoc]
      · rw [List.length_cons]
        have there := frameOffset_eq apart.symm
        refine parses_readFrames_succ
          (parses_fullFrame small (first c reads length) (second c reads length))
          (by rw [there, length]; assumption) ?_
        rw [there]
        refine (others c reads length _ _).mono fun frames same => ?_
        obtain ⟨l, target, stood⟩ := Option.bind_eq_some_iff.mp stood
        have labelled : f.target.bind (c.standing stands) = some (c.label offset) := by
          rw [target, Option.bind_some, InputCode.standing, stood]
          rfl
        rw [same, List.reverse_cons, List.append_assoc, List.map_cons, StackMapFrame.relabel,
          labelled]
        rfl

/-- Frames for different instructions, each with the offset that it is for, in order. -/
theorem StackMapFrame.exists_rows {frames : List StackMapFrame}
    (storable : ∀ f ∈ frames, f.Storable stands size)
    (apart : frames.Pairwise fun f g => f.target.bind stands ≠ g.target.bind stands)
    (follow : offsets.Follow stands) : ∃ rows : List (Nat × StackMapFrame),
      (frames.mapM fun f =>
        (do return (← offsets f.target, f) : Except Error (Nat × StackMapFrame))) =
        .ok rows ∧ rows.map Prod.snd = frames ∧
      (∀ row ∈ rows, row.2.target.bind stands = some row.1) ∧
        rows.Pairwise fun a b => a.1 ≠ b.1 := by
  induction frames with
  | nil => exact ⟨[], rfl, rfl, nofun, .nil⟩
  | cons f rest inductionHypothesis =>
      obtain ⟨here, storable⟩ := List.forall_mem_cons.mp storable
      obtain ⟨differs, apart⟩ := List.pairwise_cons.mp apart
      obtain ⟨n, -, stood⟩ := here.target
      obtain ⟨rows, placed, rfl, all, distinct⟩ := inductionHypothesis storable apart
      refine ⟨(n, f) :: rows, ?_, rfl, List.forall_mem_cons.mpr ⟨stood, all⟩,
        List.pairwise_cons.mpr ⟨fun row member same => ?_, distinct⟩⟩
      · rw [List.mapM_cons, follow _ _ stood, placed]
        rfl
      · refine differs row.2 (List.mem_map_of_mem member) ?_
        rw [stood, all row member, ← same]

/-- Frames for different instructions are written, and they are read in order. -/
theorem Emit.lays_stackMap {frames : List StackMapFrame} (few : frames.length ≤ maxCount)
    (storable : ∀ f ∈ frames, f.Storable stands size)
    (apart : frames.Pairwise fun f g => f.target.bind stands ≠ g.target.bind stands)
    (follow : offsets.Follow stands) (short : size ≤ BodyWriter.maxSize) :
    ∃ sorted : List StackMapFrame, sorted.Perm frames ∧
      sorted.Pairwise (StackMapFrame.Precedes stands) ∧
      Lays p options (stackMap (some offsets) frames : Emit σ Bytes) fun q text =>
        ∀ c : InputCode, c.input.Reads q → c.codeLength = size →
          (∃ d, MethodDescriptor.parse c.method.descriptor.text = .ok d) →
          Parses c.input.cursor (readStackMap c) text
            (· = .stackMapTable (sorted.map (StackMapFrame.relabel (c.standing stands)))) := by
  obtain ⟨rows, placed, rfl, stood, distinct⟩ :=
    StackMapFrame.exists_rows storable apart follow
  have same := List.mergeSort_perm rows fun a b => a.1 ≤ b.1
  have sorted : (rows.mergeSort fun a b => a.1 ≤ b.1).Pairwise fun a b => a.1 < b.1 := by
    have ascending : (rows.mergeSort fun a b => a.1 ≤ b.1).Pairwise fun a b =>
        decide (a.1 ≤ b.1) = true :=
      List.pairwise_mergeSort (fun a b c => by simp only [decide_eq_true_eq]; omega)
        (fun a b => by simp only [Bool.or_eq_true, decide_eq_true_eq]; omega) rows
    have differs := (same.pairwise_iff fun apart => Ne.symm apart).mpr distinct
    refine (ascending.and differs).imp fun ⟨first, second⟩ => ?_
    exact lt_of_le_of_ne (of_decide_eq_true first) second
  have opened : (stackMap (some offsets) (rows.map Prod.snd) : Emit σ Bytes) = (do
      let n ← count rows.length
      return n ++ (← framesAfter offsets (-1) [] (rows.mergeSort fun a b => a.1 ≤ b.1))) := by
    rw [stackMap, mapM_place, placed]
    rfl
  rw [opened]
  generalize (rows.mergeSort fun a b => a.1 ≤ b.1) = ordered at same sorted
  have all : ∀ row ∈ ordered, row.2.target.bind stands = some row.1 := fun row member =>
    stood row (same.mem_iff.mp member)
  refine ⟨ordered.map Prod.snd, same.map _, List.pairwise_map.mpr (sorted.imp_of_mem ?_), ?_⟩
  · exact fun first second before => ⟨_, _, all _ first, all _ second, before⟩
  rw [List.length_map] at few
  have each : ∀ row ∈ ordered, row.2.Storable stands size := fun row member =>
    storable row.2 (List.mem_map_of_mem (same.mem_iff.mp member))
  have first : ∀ row ∈ ordered, offsetBefore none < row.1 := fun row _ => by
    rw [offsetBefore]
    omega
  refine (Lays.count few).bind fun n =>
    (lays_framesAfter each all sorted first follow short []).bind fun text => .pure ?_
  rintro q _ ⟨tail, rfl, parses⟩ rfl c reads length ⟨d, parsed⟩
  obtain ⟨locals, given⟩ : ∃ locals, initialLocals c.method = .ok locals := by
    rw [initialLocals, parsed]
    exact ⟨_, rfl⟩
  rw [maxCount] at few
  have framed := parses c reads length locals []
  rw [same.length_eq] at framed
  refine (Parses.ofExcept given rfl : Parses c.input.cursor _ [] (· = locals)).bind fun ls known =>
    ?_
  subst known
  refine (Parses.u2 (n := rows.length) (by omega)).bind fun n known => ?_
  subst known
  refine framed.map fun frames same => ?_
  rw [same, List.map_map]
  rfl

/-! ## The attribute -/

/-- A stack map in a body is read with the types at the start of its method. -/
theorem Attribute.reader?_stackMap (c : InputCode) (room : Nat) {env : Envelope}
    (named : env.name.text = "StackMapTable") :
    reader? c.context room env = some (readStackMap c) := by
  have row : (("StackMapTable", [.code], readStackMap c) :
      String × List Holder × Scan AttributeBody) ∈
      layouts c.context room env := by
    simp [layouts, plainLayouts, InputCode.context]
  have defined : Defined c.context.holder env.name.text := by
    rw [named]
    exact (by decide : Defined .code "StackMapTable")
  exact reader?_of_mem row named.symm defined

namespace Emit

/-- Wherever an input that reads the pool spells the bytes, they are the stack map of a body of that
size: it is decoded to the frames, for the instructions that their labels stand at. -/
def ReadsFrames (q : PoolBuilder) (stands : Label → Option Nat) (size : Nat)
    (frames : List StackMapFrame) (text : Bytes) : Prop :=
  ∃ (n : Nat) (body : Bytes), text = u2 n ++ u4 body.length ++ body ∧ body.length ≤ maxLength ∧
    ∀ c : InputCode, c.input.Reads q → c.codeLength = size →
    (∃ d, MethodDescriptor.parse c.method.descriptor.text = .ok d) →
    ∀ room start, c.input.cursor.Spells start text →
    ∃ name a, c.input.cursor.u2? start = some n ∧
      c.input.cursor.u4? (start + 2 : Nat) = some body.length ∧
      c.input.pool.refer Entry.utf8? start n = .ok name ∧ name.text = "StackMapTable" ∧
      Takes c.context room ⟨name, start + 6, body.length⟩ a ∧
      a.body = .stackMapTable (frames.map (StackMapFrame.relabel (c.standing stands)))

/-- The stack map is too long to be written, or it is written so that every later state of the pool
reads the frames from it. -/
def KeepsFrames (s : Session σ) (act : Emit σ Bytes) (stands : Label → Option Nat) (size : Nat)
    (frames : List StackMapFrame) : Prop :=
  (∃ name n s', maxLength < n ∧
    finish act s = (.error (.misuse (.attributeLength name n)), s')) ∨
  ∃ text s', finish act s = (.ok text, s') ∧ s.pool.Extends s'.pool none ∧ s'.pool.Sound ∧
    ∀ q, s'.pool.Becomes q → ReadsFrames q stands size frames text

/-- Nothing is copied of an attribute that is always written anew. -/
theorem Writes.anew {s : Session σ} {a : Attribute} (never : a.body.copies s.options = false) :
    Writes s (copied? a : Emit σ (Option Bytes)) none s := by
  rw [copied?]
  refine Writes.session.bind ?_
  cases a.span with
  | none => exact .pure none
  | some span =>
      cases s.pool.parent with
      | none => exact .pure none
      | some parent =>
          simp only [never, Bool.and_false, Bool.false_eq_true, ↓reduceIte]
          exact .pure _

/-- An attribute that is never copied is written anew. -/
theorem Lays.anew {a : Attribute} (never : a.body.copies options = false) :
    Lays p options (copied? a : Emit σ (Option Bytes)) fun _ out => out = none :=
  fun s _ sound same => .inr ⟨_, s, .anew (same ▸ never), .refl _, sound, same, fun _ _ => rfl⟩

/-- A stack map that is read as frames is kept as a whole. -/
theorem KeepsFrames.of_lays {s : Session σ} {code : InputCode → Emit σ Bytes} {span : Option Span}
    {frames sorted : List StackMapFrame} (sound : s.pool.Sound)
    (lays : Lays s.pool s.options (stackMap (some offsets) frames : Emit σ Bytes) fun q text =>
      ∀ c : InputCode, c.input.Reads q → c.codeLength = size →
        (∃ d, MethodDescriptor.parse c.method.descriptor.text = .ok d) →
        Parses c.input.cursor (readStackMap c) text
          (· = .stackMapTable (sorted.map (StackMapFrame.relabel (c.standing stands))))) :
    KeepsFrames s (attributeRow (some offsets) code (.mk span (.stackMapTable frames))) stands size
      sorted := by
  have body : Lays s.pool s.options
      (contents (some offsets) code (.mk span (.stackMapTable frames))) _ :=
    (Lays.anew rfl).bind fun out => by
      cases out with
      | none => exact lays.mono fun q text _ parses (_ : none = none) => parses
      | some bytes => exact .pure fun q _ none => absurd none (Option.some_ne_none bytes)
  have listed : ("StackMapTable" : Text) ∈ catalogue.map Prod.fst := by decide
  rcases Lays.named (decodes_of_listed listed) body s (.refl _) sound rfl with
    refuses | ⟨text, s', writes, grown, sound', -, stated⟩
  · exact .inl refuses.finish
  refine .inr ⟨text, s', writes.finish, grown, sound', fun q becomes => ?_⟩
  obtain ⟨n, body, rfl, denotes, short, parses⟩ := stated q becomes
  refine ⟨n, body, rfl, short, fun c reads length valid room start spells => ?_⟩
  obtain ⟨index, name, named, called⟩ := refer_of_denotes denotes reads
  obtain ⟨header, there⟩ := Cursor.spells_append_iff.mp spells
  obtain ⟨nameAt, lengthAt⟩ := Cursor.spells_append_iff.mp header
  simp only [List.length_append, length_u2, length_u4] at there lengthAt
  rw [maxLength] at short
  obtain ⟨a, decoded, same⟩ : ∃ a, decode c.context room ⟨name, start + 6, body.length⟩ = .ok a ∧
      a.body = .stackMapTable (sorted.map (StackMapFrame.relabel (c.standing stands))) := by
    rw [decode_eq, reader?_stackMap c room called]
    exact decodeWith_of_fills reads.addressable (parses c reads length valid).fills rfl there
  exact ⟨name, a, nameAt.u2_of_lt index, lengthAt.u4_of_lt (by omega), named start, called,
    takes_of_decode decoded, same⟩

/-- Frames for different instructions are kept, in the order of the instructions. -/
theorem keepsFrames_of_storable {s : Session σ} {code : InputCode → Emit σ Bytes}
    {span : Option Span}
    {frames : List StackMapFrame} (sound : s.pool.Sound) (few : frames.length ≤ maxCount)
    (storable : ∀ f ∈ frames, f.Storable stands size)
    (apart : frames.Pairwise fun f g => f.target.bind stands ≠ g.target.bind stands)
    (follow : offsets.Follow stands) (short : size ≤ BodyWriter.maxSize) :
    ∃ sorted : List StackMapFrame, sorted.Perm frames ∧
      sorted.Pairwise (StackMapFrame.Precedes stands) ∧
      KeepsFrames s (attributeRow (some offsets) code (.mk span (.stackMapTable frames))) stands
        size
        sorted := by
  obtain ⟨sorted, same, ascending, lays⟩ :=
    @lays_stackMap σ s.pool s.options _ _ _ _ few storable apart follow short
  exact ⟨sorted, same, ascending, .of_lays sound lays⟩

end Emit

/-! ## Frames that are too large -/

/-- The number of the types in a frame. -/
def StackMapFrame.entries (f : StackMapFrame) : Nat := f.locals.length + f.stack.length

namespace Emit

variable {s s' : Session σ} {text : Bytes}

/-- A type starts with its tag. -/
theorem pos_of_writes_verificationType {v : VerificationType}
    (writes : Writes s (verificationType offsets v) text s') : 0 < text.length := by
  cases v with
  | plain tag =>
      obtain ⟨rfl, -⟩ := writes_pure_iff.mp writes
      simp
  | object name =>
      obtain ⟨e, s₁, -, writes⟩ := (writes_bind_iff fun _ => .pure _).mp writes
      obtain ⟨rfl, -⟩ := writes_pure_iff.mp writes
      simp
  | uninitialized new =>
      obtain ⟨n, s₁, -, writes⟩ := (writes_bind_iff fun _ => .pure _).mp writes
      obtain ⟨rfl, -⟩ := writes_pure_iff.mp writes
      simp

/-- Types that are written can be counted, and each takes up a byte. -/
theorem length_le_of_writes_types {vs : List VerificationType}
    (writes : Writes s (counted (verificationType offsets) vs) text s') :
    vs.length ≤ maxCount ∧ vs.length ≤ text.length := by
  obtain ⟨short, chunks, rfl, all⟩ :=
    chunks_of_writes_counted (fun v _ => tries_verificationType offsets v) writes
  refine ⟨short, Nat.le_trans ?_ (List.length_append ▸ Nat.le_add_left ..)⟩
  clear writes short
  induction all with
  | nil => exact Nat.le_refl 0
  | cons first others inductionHypothesis =>
      obtain ⟨s₁, s₂, wrote⟩ := first
      have pos := pos_of_writes_verificationType wrote
      rw [List.length_cons, List.flatten_cons, List.length_append]
      omega

/-- Frames are written only if the types of each can be counted, and take up a byte for each. -/
theorem short_of_writes_framesAfter {rows : List (Nat × StackMapFrame)} {previous : Int}
    {done : List Bytes} (writes : Writes s (framesAfter offsets previous done rows) text s') :
    (∀ row ∈ rows, row.2.locals.length ≤ maxCount ∧ row.2.stack.length ≤ maxCount) ∧
      done.flatten.length + (rows.map fun row => row.2.entries).sum ≤ text.length := by
  induction rows generalizing s previous done with
  | nil =>
      refine ⟨nofun, ?_⟩
      rw [← (writes_pure_iff.mp writes).1]
      simp [List.length_flatten]
  | cons row rest inductionHypothesis =>
      obtain ⟨offset, f⟩ := row
      rw [framesAfter] at writes
      split at writes
      · obtain ⟨_, _, _, failed, -⟩ := Drafting.Gives.bind_iff.mp writes
        exact absurd failed Drafting.Gives.not_throw
      · have types (vs : List VerificationType) : Tries (.calls σ)
            (counted (verificationType offsets) vs : Emit σ Bytes) :=
          tries_counted fun v _ => tries_verificationType offsets v
        obtain ⟨front, s₁, locals, writes⟩ := (writes_bind_iff fun _ =>
          .bind (types f.stack) fun _ => tries_framesAfter offsets _ _ rest).mp writes
        obtain ⟨back, s₂, stack, writes⟩ :=
          (writes_bind_iff fun _ => tries_framesAfter offsets _ _ rest).mp writes
        obtain ⟨few, least⟩ := length_le_of_writes_types locals
        obtain ⟨few', least'⟩ := length_le_of_writes_types stack
        obtain ⟨short, others⟩ := inductionHypothesis writes
        refine ⟨List.forall_mem_cons.mpr ⟨⟨few, few'⟩, short⟩, ?_⟩
        rw [List.flatten_cons, List.length_append, List.length_append, List.length_append] at others
        rw [List.map_cons, List.sum_cons, StackMapFrame.entries]
        dsimp only
        omega

/-- A stack map is written only if the types of every frame can be counted, and takes up a byte for
each. -/
theorem short_of_writes_stackMap {frames : List StackMapFrame}
    (writes : Writes s (stackMap (some offsets) frames) text s') :
    (∀ f ∈ frames, f.locals.length ≤ maxCount ∧ f.stack.length ≤ maxCount) ∧
      (frames.map StackMapFrame.entries).sum ≤ text.length := by
  rw [stackMap] at writes
  simp only [mapM_place] at writes
  have rest (placed : List (Nat × StackMapFrame)) : Tries (.calls σ) (do
      let n ← count placed.length
      return n ++ (← framesAfter offsets (-1) [] (placed.mergeSort fun a b => a.1 ≤ b.1)) :
        Emit σ Bytes) :=
    .bind (tries_count _) fun _ => .bind (tries_framesAfter ..) fun _ => .pure _
  obtain ⟨placed, s₁, found, writes⟩ := (writes_bind_iff rest).mp writes
  obtain ⟨all, rfl⟩ := writes_monadLift_iff.mp found
  obtain ⟨n, s₂, -, writes⟩ := (writes_bind_iff fun _ =>
    .bind (tries_framesAfter ..) fun _ => .pure _).mp writes
  obtain ⟨tail, s₃, wrote, given⟩ := (writes_bind_iff fun _ => .pure _).mp writes
  obtain ⟨rfl, -⟩ := writes_pure_iff.mp given
  obtain ⟨short, least⟩ := short_of_writes_framesAfter wrote
  obtain rfl : placed.map Prod.snd = frames := by
    refine (map_eq_of_forall₂ ((mapM_eq_ok_iff.mp all).imp fun f row place => ?_)).trans
      (List.map_id frames)
    obtain ⟨n, -, same⟩ := bind_eq_ok_iff.mp place
    rw [← pure_eq_ok_iff.mp same, id]
  have same := List.mergeSort_perm placed fun a b => a.1 ≤ b.1
  refine ⟨List.forall_mem_map.mpr fun row member => short row (same.mem_iff.mpr member), ?_⟩
  rw [(same.map _).sum_nat, List.flatten_nil, List.length_nil, Nat.zero_add] at least
  rw [List.map_map, List.length_append]
  exact Nat.le_trans least (Nat.le_add_left ..)

/-- The attribute is written only if the types of every frame can be counted, and all types together
fit its body. -/
theorem short_of_finish {frames : List StackMapFrame} {code : InputCode → Emit σ Bytes}
    {span : Option Span}
    (finished : finish (attributeRow (some offsets) code (.mk span (.stackMapTable frames))) s =
      (.ok text, s')) :
    (∀ f ∈ frames, f.locals.length ≤ maxCount ∧ f.stack.length ≤ maxCount) ∧
      (frames.map StackMapFrame.entries).sum ≤ maxLength := by
  have anew (out : Option Bytes) :=
    tries_filled out (tries_stackMap (some offsets) frames : Tries (.calls σ) (stackMap _ frames))
  obtain ⟨_, contents, s₁, -, filled, fits, -⟩ :=
    writes_of_named (.bind (tries_copied? _) anew) (writes_of_finish finished)
  obtain ⟨out, s₂, copied, written⟩ := (writes_bind_iff anew).mp filled
  obtain ⟨rfl, rfl⟩ := copied.unique (.anew rfl)
  obtain ⟨short, least⟩ := short_of_writes_stackMap written
  exact ⟨short, Nat.le_trans least fits⟩

end Emit

end JvmClass
