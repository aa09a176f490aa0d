import JvmClass.Proofs.Locals.Shifting

/-!
# Slots that a builder hands out

A body under construction hands out its slots one after another, from above its parameters and the
limit that the body it is made from declares. Whatever else is asked of the builder in between, no
slot is handed out twice. `allocated_fresh_iff` says when all of them are free in the body that is
rewritten. A body that was built declares what the one it was made from did, so the slots that were
handed out for it need not be among them.
-/

namespace JvmClass

open LocalsShifter (Use)

variable {σ : Type}

/-- A value in a run of slots takes a slot. -/
def LocalsShifter.Use.Covers (u : Use) (slot : Int) : Prop := u.1 ≤ slot ∧ slot < u.1 + u.2

/-- Two values that share no slot. -/
def LocalsShifter.Use.Apart (u v : Use) : Prop := ∀ slot, u.Covers slot → ¬v.Covers slot

open LocalsShifter.Use (Covers Apart)

/-- The slots that an element of a body uses. -/
def CodeElement.use? : CodeElement → Option Use
  | .instruction i => i.localUse?.map fun (slot, k) => (slot, k.slots)
  | .localVariable s => s.type.map fun type => (s.slot, (Kind.ofDescriptor type.text).slots)
  | .localVariableType s =>
    s.type.map fun type => (s.slot, (LocalsShifter.signatureKind type.text).slots)
  | _ => none

namespace CodeDraft

/-- Uses that lie end to end from a slot on. -/
inductive EndToEnd : Nat → List Use → Prop
  | done (n : Nat) : EndToEnd n []
  | next {n size : Nat} {rest : List Use} (others : EndToEnd (n + size) rest) :
      EndToEnd n (((n : Int), size) :: rest)

/-- Uses that lie end to end from a slot on lie at it or above. -/
theorem EndToEnd.above {n : Nat} {uses : List Use} (lie : EndToEnd n uses) {u : Use}
    (member : u ∈ uses) : (n : Int) ≤ u.1 := by
  induction lie with
  | done n => cases member
  | @next n size rest others inductionHypothesis =>
      rcases List.mem_cons.mp member with rfl | later
      · exact Int.le_refl _
      · have further := inductionHypothesis later
        omega

/-- What lies end to end shares no slot. -/
theorem EndToEnd.pairwise_apart {n : Nat} {uses : List Use} (lie : EndToEnd n uses) :
    uses.Pairwise Apart := by
  induction lie with
  | done n => exact .nil
  | @next n size rest others inductionHypothesis =>
      refine List.pairwise_cons.mpr ⟨fun u member slot first second => ?_, inductionHypothesis⟩
      have above := others.above member
      obtain ⟨-, below⟩ := first
      obtain ⟨beyond, -⟩ := second
      dsimp only at below
      omega

variable {d : CodeDraft} {s : Session σ}

/-- A slot that is handed out is the next one, and the frame goes on after it. Otherwise nothing is
handed out. -/
theorem allocateLocal_cases (k : Kind) (d : CodeDraft) (s : Session σ) :
    (∃ s', (CodeM.allocateLocal k : CodeM σ Int) d s = ((-1, d), s')) ∨
      ∃ d', (CodeM.allocateLocal k : CodeM σ Int) d s = (((d.frame.next : Int), d'), s) ∧
        d'.frame.next = d.frame.next + k.slots := by
  rw [LocalsShifter.handOut_apply, LocalFrame.allocate?]
  by_cases missing : k = .void || k = .unknown 0
  · rw [if_pos missing]
    exact .inl ⟨_, rfl⟩
  · rw [if_neg missing]
    exact .inr ⟨_, rfl, rfl⟩

/-- Asking for the label of the start hands out no slots. -/
theorem frame_startLabel (d : CodeDraft) (s : Session σ) :
    ((CodeM.startLabel : CodeM σ Label) d s).1.2.frame = d.frame := by
  rcases d with ⟨source, parent, frame, _ | l, stop, target⟩ <;> rfl

/-- Asking for the label of the end hands out no slots. -/
theorem frame_endLabel (d : CodeDraft) (s : Session σ) :
    ((CodeM.endLabel : CodeM σ Label) d s).1.2.frame = d.frame := by
  rcases d with ⟨source, parent, frame, start, _ | l, target⟩ <;> rfl

/-- A call for a slot hands out what the builder gives, with the slots of its kind. -/
theorem Call.ask_allocate (k : Kind) (d : CodeDraft) (s : Session σ) :
    (Call.allocate k).ask d s =
      (let given := (CodeM.allocateLocal k : CodeM σ Int) d s
      ((if 0 ≤ given.1.1 then some (given.1.1, k.slots) else none, given.1.2), given.2)) := rfl

/-- A call for a slot is answered by the slot that was handed out. -/
theorem Call.ask_of_allocated {k : Kind} {n : Nat} {d d' : CodeDraft} {s s' : Session σ}
    (handed : (CodeM.allocateLocal k : CodeM σ Int) d s = (((n : Int), d'), s')) :
    (Call.allocate k).ask d s = ((some ((n : Int), k.slots), d'), s') := by
  rw [ask_allocate, handed]
  dsimp only
  rw [if_pos (Int.natCast_nonneg n)]

/-- A call hands out the next slots and goes on after them, or hands out none and leaves the frame
as it is. -/
theorem Call.ask_cases (call : Call σ) (d : CodeDraft) (s : Session σ) :
    ((call.ask d s).1.1 = none ∧ (call.ask d s).1.2.frame.next = d.frame.next) ∨
      ∃ size, (call.ask d s).1.1 = some ((d.frame.next : Int), size) ∧
        (call.ask d s).1.2.frame.next = d.frame.next + size := by
  cases call with
  | emit e => exact .inl ⟨rfl, congrArg LocalFrame.next (frame_emit e d s)⟩
  | startLabel => exact .inl ⟨rfl, congrArg LocalFrame.next (frame_startLabel d s)⟩
  | endLabel => exact .inl ⟨rfl, congrArg LocalFrame.next (frame_endLabel d s)⟩
  | session act => exact .inl ⟨rfl, rfl⟩
  | allocate k =>
      rcases allocateLocal_cases k d s with ⟨s', failed⟩ | ⟨d', handed, next⟩
      · rw [ask_allocate, failed]
        exact .inl ⟨rfl, rfl⟩
      · rw [ask_of_allocated handed]
        exact .inr ⟨k.slots, rfl, next⟩

/-- All that is handed out lies end to end. -/
theorem endToEnd_handedOut (calls : List (Call σ)) (d : CodeDraft) (s : Session σ) :
    EndToEnd d.frame.next (handedOut calls d s).1.1 := by
  induction calls generalizing d s with
  | nil => exact .done _
  | cons call rest inductionHypothesis =>
      rw [handedOut_cons]
      have others := inductionHypothesis (call.ask d s).1.2 (call.ask d s).2
      rcases call.ask_cases d s with ⟨none_, same⟩ | ⟨size, handed, next⟩
      · rw [none_]
        rwa [same] at others
      · rw [handed]
        rw [next] at others
        exact .next others

/-- A call for a slot of one word is answered by the next one. -/
theorem ask_integer (d : CodeDraft) (s : Session σ) :
    ((Call.allocate .int).ask d s).1.1 = some ((d.frame.next : Int), 1) ∧
      ((Call.allocate .int).ask d s).1.2.frame.next = d.frame.next + 1 := by
  have given : d.frame.allocate? .int =
      .ok (d.frame.next, { d.frame with next := d.frame.next + 1 }) := rfl
  have handed := LocalsShifter.handOut_apply .int d s
  rw [given] at handed
  rw [Call.ask_of_allocated handed]
  exact ⟨rfl, rfl⟩

/-- Slots for integers are handed out one after another. -/
theorem handedOut_integers (n : Nat) (d : CodeDraft) (s : Session σ) :
    (((d.frame.next + n : Nat) : Int), 1) ∈
      (handedOut (List.replicate (n + 1) (.allocate .int)) d s).1.1 := by
  induction n generalizing d s with
  | zero =>
      rw [List.replicate_succ, handedOut_cons, (ask_integer d s).1]
      exact List.mem_cons_self
  | succ n inductionHypothesis =>
      rw [List.replicate_succ, handedOut_cons]
      have later := inductionHypothesis ((Call.allocate .int).ask d s).1.2
        ((Call.allocate .int).ask d s).2
      rw [(ask_integer d s).2, Nat.add_assoc, Nat.add_comm 1 n] at later
      exact List.mem_append_right _ later

/-- The builders of a body that is made from another. -/
inductive Rewrites (static : Bool) (descriptor : MethodDescriptor) (source : CodeModel) :
    CodeDraft → Prop
  | writing : Rewrites static descriptor source (.writing static descriptor (some source))
  | collecting (parent : Option Text) :
      Rewrites static descriptor source (.collecting static descriptor (some source) parent)

/-- The slots that a body declares, those of the receiver and the parameters among them. -/
def limit (static : Bool) (descriptor : MethodDescriptor) (source : CodeModel) : Nat :=
  max (descriptor.width static) ((source.declared.map (·.2)).getD 0)

/-- The builder of a body that is made from another hands out slots from where that one ends. -/
theorem Rewrites.next {static : Bool} {descriptor : MethodDescriptor} {source : CodeModel}
    (rewrites : Rewrites static descriptor source d) :
    d.frame.next = limit static descriptor source := by
  cases rewrites <;> rfl

/-- The slots that are handed out for a body share none with each other, with the receiver and the
parameters, or with what the elements of the body that is rewritten use. -/
structure Fresh (static : Bool) (descriptor : MethodDescriptor) (source : CodeModel)
    (handed : List Use) : Prop where
  apart : handed.Pairwise Apart
  parameters : ∀ u ∈ handed, Apart (0, descriptor.width static) u
  elements : ∀ e ∈ source.traversal.elements, ∀ v, e.use? = some v → ∀ u ∈ handed, v.Apart u

/-- Slots that are handed out for a body are fresh, whatever is asked of the builder and in whatever
order, exactly when every slot that the elements of the body use is one that the body declares or
one of the parameters. -/
theorem allocated_fresh_iff (static : Bool) (descriptor : MethodDescriptor) (source : CodeModel) :
    (∀ (σ : Type) (d : CodeDraft), Rewrites static descriptor source d →
      ∀ (calls : List (Call σ)) (s : Session σ),
        Fresh static descriptor source (handedOut calls d s).1.1) ↔
    ∀ e ∈ source.traversal.elements, ∀ v, e.use? = some v → ∀ slot, v.Covers slot →
      slot < limit static descriptor source := by
  constructor
  · intro fresh e member v use slot covers
    by_contra beyond
    -- Integers are handed out until the slot is reached.
    obtain ⟨n, rfl⟩ : ∃ n : Nat, slot = ((limit static descriptor source + n : Nat) : Int) :=
      ⟨(slot - limit static descriptor source).toNat, by omega⟩
    have rewrites : Rewrites static descriptor source _ := .writing
    have handed := handedOut_integers n (.writing static descriptor (some source))
      (Build.start .none .empty ())
    rw [rewrites.next] at handed
    have apart := (fresh Unit _ rewrites _ _).elements e member v use _ handed
    exact apart _ covers ⟨Int.le_refl _, by dsimp only; omega⟩
  · intro declared σ d rewrites calls s
    have lie := endToEnd_handedOut calls d s
    rw [rewrites.next] at lie
    refine ⟨lie.pairwise_apart, fun u member slot first second => ?_,
      fun e here v use u member slot first second => ?_⟩
    · have above := lie.above member
      have inside : descriptor.width static ≤ limit static descriptor source := Nat.le_max_left _ _
      obtain ⟨-, below⟩ := first
      obtain ⟨beyond, -⟩ := second
      dsimp only at below
      omega
    · have above := lie.above member
      have below := declared e here v use slot first
      obtain ⟨beyond, -⟩ := second
      omega

/-- The body of a static method without parameters, after an integer has been handed a slot in it
and was stored there. The body that it was made from declares no slot. -/
def storing : BuiltCode :=
  let made : CodeDraft := .collecting true default (some (.built ⟨none, some (0, 0), []⟩)) none
  let stored : CodeM Unit Unit := do CodeOutlet.store .terminal .int (← CodeM.allocateLocal .int)
  (stored made (Build.start .none .empty ())).1.2.collected

/-- A second builder for such a body hands out the slot that the first one has used. -/
theorem storing_handed_out_again :
    ∃ d, Rewrites true default (.built storing) d ∧ ∃ (calls : List (Call Unit)) (s : Session Unit),
      ¬Fresh true default (.built storing) (handedOut calls d s).1.1 := by
  refine ⟨_, .collecting none, [.allocate .int], Build.start .none .empty (), fun fresh => ?_⟩
  have stored : .instruction (.store Opcode.istore0 0) ∈
      (CodeModel.built storing).traversal.elements := List.mem_singleton.mpr rfl
  have handed : ((0 : Int), 1) ∈ (handedOut [.allocate .int]
      (.collecting true default (some (.built storing)) none)
      (Build.start .none .empty ())).1.1 := List.mem_singleton.mpr rfl
  have integer : Opcode.istore0.kind = .int := by decide +kernel
  have used : (CodeElement.instruction (.store Opcode.istore0 0)).use? = some (0, 1) := by
    change some ((0 : Int), Opcode.istore0.kind.slots) = some (0, 1)
    rw [integer]
    rfl
  have apart := fresh.elements _ stored (0, 1) used _ handed
  exact apart 0 ⟨by decide, by decide⟩ ⟨by decide, by decide⟩

end CodeDraft

end JvmClass
