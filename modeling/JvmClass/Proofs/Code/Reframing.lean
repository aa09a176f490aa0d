import JvmClass.Proofs.Build.Rebuild
import JvmClass.Proofs.Code.StackMaps
import JvmClass.Proofs.Code.Switches
import JvmClass.Proofs.Text.Descriptors

/-!
# Stack maps of decoded bodies

The frames of a decoded body stand in the order of their offsets, and their types can be stored. So
they are written as they are, unless a frame has more locals than can be counted: frames that only
add locals to those before can come to any number.
-/

namespace JvmClass

open Attribute
open Emit (Lays maxCount maxLength)
open Scan (Parses Returns)

/-- The name of a class that an input gives for an index can be stored. -/
theorem Pool.Tells.className_decodes {l : Layout} {p : Pool} (tells : p.Tells l) {offset : Int}
    {n : Nat}
    {e : ClassEntry} (given : p.refer Entry.class? offset n = .ok e) : e.internalName.Decodes := by
  have made : l.Holds p.origin e.name.place.index (.utf8 e.name) := (tells.class given).1.made
  exact (Layout.Holds.text_iff.mp made).2.storable.decodes

namespace InputCode

variable {c : InputCode}

/-- The names that the frames of a body can have can be stored. -/
structure Spelled (c : InputCode) : Prop where
  classes : ∀ offset n e, c.input.pool.refer Entry.class? offset n = .ok e → e.internalName.Decodes
  className : c.method.className.Decodes
  descriptor : c.method.descriptor.text.Decodes

/-- The names in a class that was parsed can be stored. -/
theorem spelled_of_parse {number : Nat} {bytes : Array UInt8} {options : Options}
    {parsed state : ClassFile}
    (addressable : Cursor.Addressable ⟨bytes⟩)
    (given : ClassFile.parse number bytes options = .ok parsed) (reached : parsed.StateOf state)
    (member : c.method ∈ state.methods) : c.Spelled := by
  have read := ClassFile.parsedFrom_of_parse addressable given
  obtain ⟨m, member, same⟩ : ∃ m ∈ parsed.methods, m.withInput state.input = c.method := by
    cases reached with
    | parsed =>
        obtain ⟨span, -, from_⟩ := exists_left_of_forall₂ read.headed.methods member
        exact ⟨c.method, member, by rw [InputMember.withInput, ← from_.input]⟩
    | settled search => exact List.mem_map.mp member
  obtain ⟨span, -, from_⟩ := exists_left_of_forall₂ read.headed.methods member
  obtain ⟨n, -, described⟩ := from_.descriptor
  have className := read.tells.className_decodes read.headed.this
  have descriptor := (read.tells.text described).2.1.storable.decodes
  refine ⟨fun offset n e given => ?_, ?_, ?_⟩
  · rw [input, ← same] at given
    exact (reached.exact read).tells.className_decodes given
  · rw [← same]
    exact from_.className ▸ className
  · rw [← same]
    exact descriptor

/-- A type that frames of a body can have: its name can be stored, and its label lies in the
body. -/
def Types (c : InputCode) (t : VerificationType) : Prop :=
  t.Fits ∧ ∀ l ∈ t.label?, c.Names c.codeLength l

/-- A type of a frame that is read is one that frames of the body can have. -/
theorem Spelled.returns_types (spelled : c.Spelled) :
    Returns (readVerificationType c) c.Types := by
  have fits : Returns (readVerificationType c) VerificationType.Fits := by
    refine .bind fun offset => .bind fun tag => .ite (fun plain => .pure plain) fun _ => ?_
    refine .ite (fun _ => ?_) fun _ => .ite (fun _ => ?_) fun _ => .fail
    · have named : Returns (readRef c.input Entry.class?) fun e => e.internalName.Decodes :=
        .bind fun p => .bind fun n => .ofExcept fun e given => spelled.classes p n e given
      exact named.after fun e decodes => .pure decodes
    · exact .bind fun new => .check fun _ => .pure trivial
  exact fun d t d' given => ⟨fits d t d' given, returns_readVerificationType d t d' given⟩

/-- The types at the start of a method can be stored. -/
theorem Spelled.types_of_initialLocals (spelled : c.Spelled) {types : List VerificationType}
    (given : initialLocals c.method = .ok types) : ∀ t ∈ types, c.Types t := by
  refine fun t member => ⟨?_, namesTypes_of_initialLocals given t member⟩
  rw [initialLocals] at given
  split at given
  · cases given
  · rename_i d parsed
    obtain rfl := Except.ok.inj given
    rcases List.mem_append.mp member with receiver | parameter
    · split at receiver
      · cases receiver
      · split at receiver
        · obtain rfl := List.mem_singleton.mp receiver
          exact Nat.le_refl 6
        · obtain rfl := List.mem_singleton.mp receiver
          exact spelled.className
    · obtain ⟨type, listed, rfl⟩ := List.mem_map.mp parameter
      have decodes := MethodDescriptor.decodes_of_parse parsed spelled.descriptor type listed
      rw [VerificationType.ofDescriptor]
      split
      case h_4 => exact decodes
      all_goals
        change _ ≤ 6
        decide

/-- A stack map is decoded to frames in the order of their offsets, with types that can be
stored. -/
theorem Spelled.framed_of_decode (spelled : c.Spelled) {room : Nat} {env : Envelope} {a : Attribute}
    {frames : List StackMapFrame} (decoded : decode c.context room env = .ok a)
    (same : a.body = .stackMapTable frames) : c.Framed c.Types frames ∧ frames.length < 65536 := by
  have named : env.name.text = "StackMapTable" := by
    rw [← (decodedFrom_of_decode decoded).name, Attribute.name, same, AttributeBody.name]
  rw [decode_eq, reader?_stackMap c room named] at decoded
  refine (@of_decodeWith _ _ _ _ (fun body => ∀ frames, body = .stackMapTable frames →
    c.Framed c.Types frames ∧ frames.length < 65536) (fun read given => ?_)
    (fun data frames same => by cases same)
    decoded).2 frames same
  obtain rfl := Option.some.inj given
  have returns := returns_readStackMap spelled.returns_types fun types =>
    spelled.types_of_initialLocals
  rintro d body d' read frames rfl
  obtain ⟨_, ⟨rfl⟩, framed⟩ := returns d _ d' read
  exact framed

/-! ## Other bodies -/

/-- The labels of the list stand before the end of a new body of that size, in which labels stand in
the order of their offsets. -/
structure Carried (c : InputCode) (stands : Label → Option Nat) (size : Nat)
    (labels : List (Option Label)) : Prop where
  placed : ∀ l ∈ labels, ∃ n < size, l.bind stands = some n
  ascending : ∀ i j m n, i < j → stands (c.label i) = some m → stands (c.label j) = some n → m < n

variable {stands : Label → Option Nat} {size : Nat} {frames : List StackMapFrame}

/-- The labels of decoded frames stand at their own offsets in a body that is as it was. -/
theorem carried_of_decode {room : Nat} {env : Envelope} {a : Attribute}
    (decoded : decode c.context room env = .ok a) (same : a.body = .stackMapTable frames) :
    c.Carried Label.offset? c.codeLength (frames.flatMap StackMapFrame.labels) where
  placed l member := by
    have kept := kept_of_decode decoded
    rw [same] at kept
    obtain ⟨n, inside, rfl⟩ := kept.labels l member
    exact ⟨n, inside, rfl⟩
  ascending i j m n before here there := by
    cases here
    cases there
    exact before

/-- Frames with types that can be stored can be written, if there are not too many locals. -/
theorem Framed.storable (framed : c.Framed c.Types frames)
    (few : ∀ f ∈ frames, f.locals.length ≤ maxCount)
    (carried : c.Carried stands size (frames.flatMap StackMapFrame.labels)) :
    ∀ f ∈ frames, f.Storable stands size := by
  intro f member
  have placed (l : Option Label) (there : l ∈ f.labels) : ∃ n < size, l.bind stands = some n :=
    carried.placed l (List.mem_flatMap.mpr ⟨f, member, there⟩)
  refine ⟨placed _ (List.mem_cons_self ..), few f member,
    Nat.le_of_lt_succ (framed.heights f member),
    fun t there => ⟨(framed.types f member t there).1, fun l label => ?_⟩⟩
  exact placed l (List.mem_cons_of_mem _ (List.mem_filterMap.mpr ⟨t, there, label⟩))

/-- Frames stand in the same order in the new body. -/
theorem Framed.precedes (framed : c.Framed c.Types frames)
    (carried : c.Carried stands size (frames.flatMap StackMapFrame.labels)) :
    frames.Pairwise (StackMapFrame.Precedes stands) := by
  refine framed.ascending.imp_of_mem fun {f g} first second ahead => ?_
  have placed (f : StackMapFrame) (member : f ∈ frames) :
      ∃ n < size, f.target.bind stands = some n :=
    carried.placed _ (List.mem_flatMap.mpr ⟨f, member, List.mem_cons_self ..⟩)
  obtain ⟨i, j, here, there, before⟩ := ahead
  obtain ⟨m, -, stood⟩ := placed f first
  obtain ⟨n, -, stood'⟩ := placed g second
  refine ⟨m, n, stood, stood', carried.ascending i j m n before ?_ ?_⟩
  · rwa [here] at stood
  · rwa [there] at stood'

end InputCode

namespace Emit

variable {σ : Type} {stands : Label → Option Nat} {size : Nat} {frames : List StackMapFrame}

/-- Frames of a body that are in order are kept as they are. -/
theorem keepsFrames_of_framed {s : Session σ} {offsets : Offsets} {code : InputCode → Emit σ Bytes}
    {span : Option Span} {c : InputCode} (sound : s.pool.Sound) (framed : c.Framed c.Types frames)
    (short : frames.length ≤ maxCount) (few : ∀ f ∈ frames, f.locals.length ≤ maxCount)
    (carried : c.Carried stands size (frames.flatMap StackMapFrame.labels))
    (follow : offsets.Follow stands) (small : size ≤ BodyWriter.maxSize) :
    KeepsFrames s (attributeRow (some offsets) code (.mk span (.stackMapTable frames))) stands size
      frames := by
  have precedes := framed.precedes carried
  have apart : frames.Pairwise fun f g => f.target.bind stands ≠ g.target.bind stands := by
    refine precedes.imp fun {f g} ⟨m, n, here, there, before⟩ same => ?_
    rw [here, there] at same
    exact absurd (Option.some.inj same) (Nat.ne_of_lt before)
  obtain ⟨sorted, same, ascending, keeps⟩ :=
    @keepsFrames_of_storable σ offsets stands size s code span
    frames sound short (framed.storable few carried) apart follow small
  suffices sorted = frames from this ▸ keeps
  refine List.Perm.eq_of_pairwise (fun f g _ _ first second => ?_) ascending precedes same
  obtain ⟨m, n, here, there, before⟩ := first
  obtain ⟨n', m', there', here', before'⟩ := second
  rw [here'] at here
  rw [there'] at there
  cases here
  cases there
  exact absurd before (Nat.lt_asymm before')

/-- The offsets of a decoded body that is as it was. -/
def Offsets.own : Offsets := fun l =>
  match l.bind Label.offset? with
  | some n => .ok n
  | none => .error (.misuse (.unresolvedLabel l.isNone))

/-- The offsets of a decoded body as it was are those that its labels name. -/
theorem Offsets.follow_own : Offsets.own.Follow Label.offset? := fun l n same => by
  rw [own, same]

end Emit

/-- A class `A` with a method of two instructions, whose stack map has a frame for either: the first
is as the method starts, and the second has another local. -/
def mapped : Array UInt8 :=
  #[0xCA, 0xFE, 0xBA, 0xBE, 0, 0, 0, 52, 0, 7,
    1, 0, 1, 65,
    7, 0, 1,
    1, 0, 1, 109,
    1, 0, 3, 40, 41, 86,
    1, 0, 4, 67, 111, 100, 101,
    1, 0, 13, 83, 116, 97, 99, 107, 77, 97, 112, 84, 97, 98, 108, 101,
    0, 33, 0, 2, 0, 0, 0, 0, 0, 0, 0, 1,
    0, 8, 0, 3, 0, 4, 0, 1, 0, 5, 0, 0, 0, 27,
    0, 0, 0, 1, 0, 0, 0, 2, 0, 177, 0, 0, 0, 1, 0, 6, 0, 0, 0, 7, 0, 2, 0, 252, 0, 0, 1,
    0, 0]

/-- The body of the method. -/
def mappedBody (m : InputMember) : InputCode where
  method := m
  offset := 76
  length := 27
  maxStack := 0
  maxLocals := 1
  codeStart := 84
  codeLength := 2
  exceptions := 86
  attributes := 88

/-- The frames of a stack map. -/
def AttributeBody.frames? : AttributeBody → Option (List StackMapFrame)
  | .stackMapTable frames => some frames
  | _ => none

/-- A body has frames exactly if it is a stack map of these. -/
theorem AttributeBody.frames?_eq_some {b : AttributeBody} {frames : List StackMapFrame}
    (given : b.frames? = some frames) : b = .stackMapTable frames := by
  cases b with
  | stackMapTable fs => exact congrArg _ (Option.some.inj given)
  | _ => cases given

/-- The class with the mapped method is parsed, and its stack map is decoded to two frames. -/
theorem parse_mapped : ∃ parsed m a frames, ClassFile.parse 0 mapped .none = .ok parsed ∧
    m ∈ parsed.methods ∧
    decode (mappedBody m).context maxNesting ⟨⟨default, "StackMapTable"⟩, 96, 7⟩ = .ok a ∧
    a.body = .stackMapTable frames ∧ frames.map (·.locals.length) = [0, 1] := by
  have ran : ((ClassFile.parse 0 mapped .none).toOption.any fun c => c.methods.any fun m =>
      (decode (mappedBody m).context maxNesting ⟨⟨default, "StackMapTable"⟩, 96, 7⟩).toOption.any
        fun a => a.body.frames?.any fun frames => frames.map (·.locals.length) = [0, 1]) =
          true := by
    decide +kernel
  obtain ⟨c, parsed, ran⟩ := (Option.any_eq_true _ _).mp ran
  obtain ⟨m, member, ran⟩ := List.any_eq_true.mp ran
  obtain ⟨a, decoded, ran⟩ := (Option.any_eq_true _ _).mp ran
  obtain ⟨frames, same, ran⟩ := (Option.any_eq_true _ _).mp ran
  exact ⟨c, m, a, frames, toOption_eq_some_iff.mp parsed, member, toOption_eq_some_iff.mp decoded,
    AttributeBody.frames?_eq_some same, of_decide_eq_true ran⟩

/-- A frame for the second instruction that refers to the first, and a frame for the first. -/
def turnedFrames : List StackMapFrame :=
  [⟨some (.decoded (.input 0) 0 1), [.plain 1, .object "A"],
      [.uninitialized (some (.decoded (.input 0) 0 0))]⟩,
    ⟨some (.decoded (.input 0) 0 0), [], []⟩]

/-- The turned frames can be written in full. -/
theorem storable_turnedFrames : ∀ f ∈ turnedFrames, f.Storable Label.offset? 2 := by
  have named : ("A" : Text).Decodes := (by decide +kernel :
    ModifiedUtf8.decode? (ModifiedUtf8.encode "A") = some "A")
  refine List.forall_mem_cons.mpr ⟨⟨⟨1, by decide, rfl⟩, by decide, by decide, ?_⟩,
    List.forall_mem_singleton.mpr ⟨⟨0, by decide, rfl⟩, by decide, by decide, nofun⟩⟩
  refine List.forall_mem_cons.mpr ⟨⟨(by decide : 1 ≤ 6), nofun⟩, List.forall_mem_cons.mpr
    ⟨⟨named, nofun⟩, List.forall_mem_singleton.mpr ⟨trivial, ?_⟩⟩⟩
  rintro l ⟨⟩
  exact ⟨0, by decide, rfl⟩

/-- A stack map with a frame of `n` locals, and one behind it that has another. -/
def crowdedMap (n : Nat) : Bytes :=
  u2 2 ++ ((u1 255 ++ (u2 0 ++ ((u2 n ++ (List.replicate n [0]).flatten) ++ (u2 0 ++ [])))) ++
    (u1 252 ++ (u2 0 ++ [0])))

/-- A body of two instructions in a method without parameters, whose input is the stack map. -/
def crowdedBody (n : Nat) : InputCode where
  method :=
    { (default : InputMember) with
      input := ⟨{ (default : Layout) with cursor := ⟨(crowdedMap n).toArray⟩ }, default⟩
      flags := .ofInt 8
      descriptor := ⟨default, "()V"⟩ }
  offset := 0
  length := 0
  maxStack := 0
  maxLocals := 0
  codeStart := 0
  codeLength := 2
  exceptions := 0
  attributes := 0

/-- The frames of the stack map. -/
def crowdedFrames (c : InputCode) (n : Nat) : List StackMapFrame :=
  [⟨some (c.label 0), List.replicate n (.plain 0), []⟩,
    ⟨some (c.label 1), List.replicate n (.plain 0) ++ [.plain 0], []⟩]

/-- The map with a crowded frame is read as its two frames, the second with one local more than can
be counted if the first has as many as can. -/
theorem parses_crowdedMap {c : InputCode} {n : Nat} (small : n < 65536) (long : 1 < c.codeLength)
    (valid : ∃ d, MethodDescriptor.parse c.method.descriptor.text = .ok d) :
    Parses c.input.cursor (readStackMap c) (crowdedMap n)
      (· = .stackMapTable (crowdedFrames c n)) := by
  obtain ⟨d, parsed⟩ := valid
  obtain ⟨locals, given⟩ : ∃ locals, initialLocals c.method = .ok locals := by
    rw [initialLocals, parsed]
    exact ⟨_, rfl⟩
  have top : Parses c.input.cursor (readVerificationType c) [0] (· = .plain 0) :=
    .pos fun _ => (Parses.u1 (n := 0) (by decide)).bind fun tag same => by
      subst same
      exact .pure rfl
  have tops (m : Nat) : Parses c.input.cursor (Scan.times m (readVerificationType c))
      (List.replicate m [0]).flatten (· = List.replicate m (.plain 0)) := by
    induction m with
    | zero => exact .pure rfl
    | succ m inductionHypothesis =>
        refine (Parses.times_succ top inductionHypothesis).mono ?_
        rintro _ ⟨_, _, rfl, rfl, rfl⟩
        rfl
  have first : Parses c.input.cursor (readFrame c locals)
      (u1 255 ++ (u2 0 ++ ((u2 n ++ (List.replicate n [0]).flatten) ++ (u2 0 ++ []))))
      (· = (0, List.replicate n (.plain 0), [])) :=
    parses_fullFrame (by decide) (.counted small (tops n)) (.counted (by decide) (tops 0))
  have second : Parses c.input.cursor (readFrame c (List.replicate n (.plain 0)))
      (u1 252 ++ (u2 0 ++ [0])) (· = (0, List.replicate n (.plain 0) ++ [.plain 0], [])) := by
    refine .pos fun _ => (Parses.u1 (n := 252) (by decide)).bind fun kind same => ?_
    subst same
    refine (Parses.u2 (n := 0) (by decide)).bind fun delta same => ?_
    subst same
    exact (tops 1).map fun types same => by rw [same]; rfl
  have frames : Parses c.input.cursor (readFrames c [] none locals 2) _ (· = crowdedFrames c n) :=
    parses_readFrames_succ first (Nat.zero_lt_of_lt long)
      (parses_readFrames_succ second long (.pure rfl))
  refine (Parses.ofExcept given rfl : Parses c.input.cursor _ [] (· = locals)).bind fun ls known =>
    ?_
  subst known
  refine (Parses.u2 (n := 2) (by decide)).bind fun count known => ?_
  subst known
  rw [← List.append_nil (u1 252 ++ _)]
  exact frames.map fun frames same => by rw [same]

/-- The method of the body has no parameters. -/
theorem valid_crowdedBody (n : Nat) :
    ∃ d, MethodDescriptor.parse (crowdedBody n).method.descriptor.text = .ok d :=
  ⟨_, MethodDescriptor.parse_bare⟩

/-- The map with a crowded frame takes thirteen bytes and one for each of the locals. -/
theorem length_crowdedMap (n : Nat) : (crowdedMap n).length = n + 13 := by
  simp [crowdedMap, length_u1, length_u2]
  omega

/-- The stack map is accepted in the body. -/
theorem decode_crowdedMap {n : Nat} (small : n < 65536) : ∃ a,
    decode (crowdedBody n).context maxNesting
      ⟨⟨default, "StackMapTable"⟩, 0, (crowdedMap n).length⟩ = .ok a ∧
      a.body = .stackMapTable (crowdedFrames (crowdedBody n) n) := by
  have addressable : (crowdedBody n).input.cursor.Addressable := by
    change (crowdedMap n).toArray.size < _
    rw [List.size_toArray, length_crowdedMap]
    omega
  rw [decode_eq, reader?_stackMap _ _ rfl]
  exact decodeWith_of_fills addressable
    (parses_crowdedMap small (Nat.lt_succ_self 1) (valid_crowdedBody n)).fills rfl
    (Cursor.spells_all _)

/-- Frames for 65535 instructions, each with as many locals and values as can be counted. -/
def crowdedList : List StackMapFrame :=
  (List.range 65535).map fun n =>
    ⟨some (.decoded (.input 0) 0 n), List.replicate 65535 (.plain 0),
      List.replicate 65535 (.plain 0)⟩

/-- Each of the frames in the list can be written in full. -/
theorem storable_crowdedList : ∀ f ∈ crowdedList, f.Storable Label.offset? 65535 := by
  refine List.forall_mem_map.mpr fun n member => ?_
  have few : (List.replicate 65535 (VerificationType.plain 0)).length ≤ maxCount :=
    Nat.le_of_eq List.length_replicate
  refine ⟨⟨n, List.mem_range.mp member, rfl⟩, few, few, fun v there => ?_⟩
  obtain rfl : v = .plain 0 := by
    rcases List.mem_append.mp there with there | there <;> exact List.eq_of_mem_replicate there
  exact ⟨Nat.zero_le 6, nofun⟩

end JvmClass
