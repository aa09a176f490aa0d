import JvmClass.Proofs.Locals.Mapping

/-!
# Bodies with their locals moved

A shifter that runs over a body forwards each element with the slot that its use moves to, and
leaves stack maps out. `shifted_by_mapping_iff` says when one mapping accounts for the slots of
a whole body.
-/

namespace JvmClass.LocalsShifter

open Drafting (Gives)
open CodeDraft (Made Collected Call emitted handedOut handedOut_cons_apply)

variable {σ : Type}

/-- The use of a local slot that an element makes. -/
def use? : CodeElement → Option Use
  | .instruction (.load op slot) | .instruction (.store op slot) => some (slot, op.kind.slots)
  | .instruction (.increment slot _) => some (slot, 1)
  | .localVariable s => s.type.map fun type => (s.slot, (Kind.ofDescriptor type.text).slots)
  | .localVariableType s => s.type.map fun type => (s.slot, (signatureKind type.text).slots)
  | _ => none

/-- What stands for an element when its slot moves to a given one: loads and stores are written
in the form that fits the new slot, and a stack map is left out. -/
def place (slot : Int) : CodeElement → Option CodeElement
  | .instruction (.load op _) =>
    (Opcode.load? op.kind).map fun base => .instruction (.load ((base.short? slot).getD base) slot)
  | .instruction (.store op _) =>
    (Opcode.store? op.kind).map fun base =>
      .instruction (.store ((base.short? slot).getD base) slot)
  | .instruction (.increment _ delta) => some (.instruction (.increment slot delta))
  | .localVariable s => some (.localVariable { s with slot })
  | .localVariableType s => some (.localVariableType { s with slot })
  | .attribute a =>
    match a.body with
    | .stackMapTable _ => none
    | _ => some (.attribute a)
  | e => some e

/-- What stands for an element under a mapping of slots and sizes. -/
def relocate (f : Int → Nat → Int) (e : CodeElement) : Option CodeElement :=
  match use? e with
  | some (slot, size) => place (f slot size) e
  | none => place 0 e

/-- Elements with the slots that their uses move to. -/
inductive Placed : List CodeElement → List Int → List CodeElement → Prop
  | nil : Placed [] [] []
  | used {e e' : CodeElement} {es es' : List CodeElement} {u : Use} {slot : Int} {slots : List Int}
      (use : use? e = some u) (placed : place slot e = some e') (others : Placed es slots es') :
      Placed (e :: es) (slot :: slots) (e' :: es')
  | unused {e : CodeElement} {es es' : List CodeElement} {slots : List Int}
      (use : use? e = none) (others : Placed es slots es') :
      Placed (e :: es) slots ((place 0 e).toList ++ es')

/-- What stands for an element that uses a slot uses the new slot. -/
theorem use?_place {e e' : CodeElement} {u : Use} {slot : Int} (use : use? e = some u)
    (placed : place slot e = some e') : ∃ size, use? e' = some (slot, size) := by
  cases e with
  | instruction i =>
      cases i with
      | load op a =>
          simp only [place, Option.map_eq_some_iff] at placed
          obtain ⟨base, -, rfl⟩ := placed
          exact ⟨_, rfl⟩
      | store op a =>
          simp only [place, Option.map_eq_some_iff] at placed
          obtain ⟨base, -, rfl⟩ := placed
          exact ⟨_, rfl⟩
      | increment a delta =>
          cases placed
          exact ⟨_, rfl⟩
      | _ => cases use
  | localVariable scope =>
      obtain ⟨type, typed, rfl⟩ := Option.map_eq_some_iff.mp use
      cases placed
      exact ⟨(Kind.ofDescriptor type.text).slots, Option.map_eq_some_iff.mpr ⟨type, typed, rfl⟩⟩
  | localVariableType scope =>
      obtain ⟨type, typed, rfl⟩ := Option.map_eq_some_iff.mp use
      cases placed
      exact ⟨(signatureKind type.text).slots, Option.map_eq_some_iff.mpr ⟨type, typed, rfl⟩⟩
  | _ => cases use

/-- Whether anything stands for an element does not depend on the slot. -/
theorem place_isSome {e e' : CodeElement} {slot : Int} (placed : place slot e = some e')
    (slot' : Int) : ∃ e'', place slot' e = some e'' := by
  cases e with
  | instruction i =>
      cases i with
      | load op a | store op a =>
          simp only [place, Option.map_eq_some_iff] at placed ⊢
          obtain ⟨base, found, -⟩ := placed
          exact ⟨_, base, found, rfl⟩
      | _ => exact ⟨_, rfl⟩
  | «attribute» a =>
      simp only [place] at placed ⊢
      split at placed
      · cases placed
      · exact ⟨_, rfl⟩
  | _ => exact ⟨_, rfl⟩

/-- Elements stand under a mapping exactly where the mapping gives all their slots. -/
theorem Placed.eq_filterMap_iff {es es' : List CodeElement} {slots : List Int}
    (placed : Placed es slots es') (f : Int → Nat → Int) :
    es' = es.filterMap (relocate f) ↔ slots = (es.filterMap use?).map fun u => f u.1 u.2 := by
  induction placed with
  | nil => simp
  | @used e e' es es' u slot slots use placed others inductionHypothesis =>
      obtain ⟨moved, placed'⟩ := place_isSome placed (f u.1 u.2)
      have relocated : relocate f e = some moved := by rw [relocate, use]; exact placed'
      rw [List.filterMap_cons_some relocated, List.filterMap_cons_some use, List.map_cons,
        List.cons.injEq, List.cons.injEq, inductionHypothesis]
      refine and_congr_left fun _ => ⟨?_, ?_⟩
      · rintro rfl
        obtain ⟨_, here⟩ := use?_place use placed
        obtain ⟨_, there⟩ := use?_place use placed'
        exact congrArg Prod.fst (Option.some.inj (here.symm.trans there))
      · rintro rfl
        exact Option.some.inj (placed.symm.trans placed')
  | @unused e es es' slots use others inductionHypothesis =>
      rw [List.filterMap_cons_none use, ← inductionHypothesis]
      have relocated : relocate f e = place 0 e := by rw [relocate, use]
      cases standing : place 0 e with
      | none =>
          rw [List.filterMap_cons_none (relocated.trans standing)]
          rfl
      | some e' =>
          rw [List.filterMap_cons_some (relocated.trans standing)]
          simp

/-! One element. -/

variable {h : Held σ LocalsShifter} {d d' : CodeDraft} {s s' : Session σ}
  {elements : List CodeElement} {slot new : Int} {k : Kind}

/-- Setting a part and then getting it gives what was set. -/
def Keeps (h : Held σ LocalsShifter) : Prop := ∀ shifter kept, h.get (h.set shifter kept) = shifter

/-- A kind that has slots has one or two. -/
theorem slots_of_ne_void (present : k ≠ .void) : k.slots = 1 ∨ k.slots = 2 := by
  cases k <;> simp_all [Kind.slots]

/-- Looking at the shifter gives the one that the caller keeps. -/
theorem gives_read {shifter : LocalsShifter} (gives : Gives d s h.read shifter d' s') :
    shifter = h.get s.user ∧ d = d' ∧ s = s' := by
  rw [Held.read, Gives.bind_iff] at gives
  obtain ⟨session, d₁, s₁, got, gives⟩ := gives
  have same : ((Except.ok s, d), s) = (((.ok session : Except Error _), d₁), s₁) := got
  obtain ⟨⟨⟨⟩, rfl⟩, rfl⟩ := Prod.mk.inj same
  obtain ⟨rfl, rfl, rfl⟩ := Gives.pure_iff.mp gives
  exact ⟨rfl, rfl, rfl⟩

/-- Remembering a shifter changes only what the caller keeps. -/
theorem gives_write {shifter : LocalsShifter} (gives : Gives d s (h.write shifter) () d' s') :
    d = d' ∧ s' = { s with user := h.set shifter s.user } ∧ Made d s [] [] d' s' := by
  have same : (((), d), { s with user := h.set shifter s.user }) = (((), d'), s') :=
    Gives.lift_iff.mp gives
  simp only [Prod.mk.injEq] at same
  obtain ⟨⟨-, rfl⟩, rfl⟩ := same
  refine ⟨rfl, rfl, ⟨⟨[.session (Build.onUser (modify (h.set shifter)))], rfl, rfl⟩, ?_⟩⟩
  intro elements collected
  rwa [List.append_nil]

/-- What handing out a slot does. -/
theorem handOut_apply (k : Kind) (d : CodeDraft) (s : Session σ) :
    (CodeM.allocateLocal k : CodeM σ Int) d s =
      match d.frame.allocate? k with
      | .error e => ((-1, d), (Build.fail e s).2)
      | .ok (slot, frame) =>
        (((slot : Int), { d with
          frame
          target := match d.target with
            | .writing w => .writing (w.useLocal slot k)
            | t => t }), s) := by
  change (match d.frame.allocate? k with
    | .error e => (CodeM.slotOr (.error e) : CodeM σ Int)
    | .ok (slot, frame) => do
      modify fun (d : CodeDraft) => { d with
        frame
        target := match d.target with
          | .writing w => .writing (w.useLocal slot k)
          | t => t }
      return (slot : Int)) d s = _
  cases d.frame.allocate? k <;> rfl

/-- Handing out a slot in a draft that collects. -/
theorem allocateLocal_apply (collected : Collected d elements) :
    (CodeM.allocateLocal k : CodeM σ Int) d s =
      match d.frame.allocate? k with
      | .error e => ((-1, d), (Build.fail e s).2)
      | .ok (slot, frame) => (((slot : Int), { d with frame }), s) := by
  rw [handOut_apply, collected]

/-- A slot that is handed out is the next one, or an error is recorded. -/
theorem gives_allocateLocal
    (gives : Gives d s (ExceptT.lift (CodeM.allocateLocal k) : ExceptT Error (CodeM σ) Int) new
      d' s') :
    s'.error ≠ none ∨ new = d.frame.next ∧ d'.frame.next = d.frame.next + k.slots ∧ s' = s ∧
      Made d s [(new, k.slots)] [] d' s' := by
  have ran := Gives.lift_iff.mp gives
  have call : (Call.allocate k).ask d s =
      ((if 0 ≤ new then some (new, k.slots) else none, d'), s') := by
    change (let given := (CodeM.allocateLocal k : CodeM σ Int) d s
      ((if 0 ≤ given.1.1 then some (given.1.1, k.slots) else none, given.1.2), given.2)) = _
    rw [ran]
  rw [handOut_apply, LocalFrame.allocate?] at ran
  split at ran <;> rename_i handed
  · cases ran
    exact .inl (Option.some_ne_none _)
  · split at handed
    · cases handed
    · cases handed
      cases ran
      refine .inr ⟨rfl, rfl, rfl, ⟨[.allocate k], ?_, rfl⟩, fun elements collected => ?_⟩
      · rw [handedOut_cons_apply, call, if_pos (Int.natCast_nonneg _)]
        rfl
      · rw [List.append_nil, Collected, collected]

/-- The slots that are handed out where slots are asked for. -/
def runs (given : List (Use × Nat)) : List Use := given.map fun (u, n) => ((n : Int), u.2)

/-- A slot that a kind moves to, or an error is recorded. -/
theorem gives_shift (keeps : Keeps h) (gives : Gives d s (shift h slot k) new d' s') :
    k ≠ .void ∧ (s'.error ≠ none ∨
      Moves (h.get s.user) d.frame.next (slot, k.slots) new (h.get s'.user) d'.frame.next ∧
        Made d s (runs (asked (h.get s.user) d.frame.next [(slot, k.slots)])) [] d' s' ∧
        s'.error = s.error) := by
  rw [shift] at gives
  by_cases none_ : k = .void
  · rw [if_pos none_] at gives
    exact absurd (Gives.bind_iff.mp gives).choose_spec.choose_spec.choose_spec.1 Gives.not_throw
  refine ⟨none_, ?_⟩
  rw [if_neg none_] at gives
  obtain ⟨shifter, d₁, s₁, looked, gives⟩ := Gives.bind_iff.mp gives
  obtain ⟨rfl, rfl, rfl⟩ := gives_read looked
  by_cases below : slot < (h.get s.user).fixed
  · rw [if_pos below] at gives
    obtain ⟨rfl, rfl, rfl⟩ := Gives.pure_iff.mp gives
    refine .inr ⟨.kept below, ?_, rfl⟩
    simpa [asked, runs, below] using Made.refl d s
  rw [if_neg below] at gives
  have above : (h.get s.user).fixed ≤ slot := by omega
  by_cases outside : 2 * slot < (h.get s.user).fixed
  · rw [if_pos outside] at gives
    exact absurd (Gives.bind_iff.mp gives).choose_spec.choose_spec.choose_spec.1 Gives.not_throw
  rw [if_neg outside] at gives
  cases remembered : (h.get s.user).slots[(h.get s.user).key slot k.slots]? with
  | some known =>
      rw [remembered] at gives
      obtain ⟨rfl, rfl, rfl⟩ := Gives.pure_iff.mp gives
      refine .inr ⟨.known above remembered, ?_, rfl⟩
      simpa [asked, runs, below, new?, remembered] using Made.refl d s
  | none =>
      rw [remembered] at gives
      obtain ⟨handed, d₁, s₁, allocated, gives⟩ := Gives.bind_iff.mp gives
      obtain ⟨_, d₂, s₂, written, gives⟩ := Gives.bind_iff.mp gives
      obtain ⟨rfl, rfl, noted⟩ := gives_write written
      obtain ⟨rfl, rfl, rfl⟩ := Gives.pure_iff.mp gives
      rcases gives_allocateLocal allocated with failed | ⟨rfl, next, rfl, made⟩
      · exact .inl failed
      · refine .inr ⟨?_, ?_, rfl⟩
        · rw [next, keeps]
          exact .given above remembered
        · simpa [asked, runs, below, new?, remembered] using made.trans noted

/-- Nothing is emitted where an error has been recorded. -/
theorem emit_of_error {e : CodeElement} {error : Error} (failed : s.error = some error) :
    (Outlet.terminal : CodeOutlet σ).emit e d s = (((), d), s) := by
  refine Outlet.emit_of_stop ?_ e
  rw [Draft.stop?, failed]
  split <;> exact Option.some_ne_none _

/-- A draft that collects takes every element. -/
theorem accept_apply {e : CodeElement} (collected : Collected d elements) :
    (Draft.accept e : CodeM σ Unit) d s =
      (((), { d with target := .collecting (elements.toArray.push e) }), s) := by
  obtain ⟨source, parent, frame, start, stop, target⟩ := d
  cases collected
  rfl

/-- An element that is emitted where nothing has failed is made part of the draft. -/
theorem gives_emit {e : CodeElement}
    (gives : Gives d s (ExceptT.lift ((Outlet.terminal : CodeOutlet σ).emit e)) () d' s')
    (quiet : s'.error = none) :
    Made d s [] [e] d' s' ∧ d'.frame = d.frame ∧ s'.user = s.user := by
  have ran := Gives.lift_iff.mp gives
  have frame := CodeDraft.frame_emit e d s
  have user := CodeDraft.user_emit e d s
  rw [ran] at frame user
  have running : s.error = none := by
    by_contra failed
    obtain ⟨error, failed⟩ := Option.ne_none_iff_exists'.mp failed
    have same : s = s' := congrArg (·.2) ((emit_of_error failed).symm.trans ran)
    rw [← same, failed] at quiet
    cases quiet
  have call : (Call.emit e).ask d s = ((none, d'), s') := by
    change ((none, ((Outlet.terminal.emit e : CodeM σ Unit) d s).1.2),
      ((Outlet.terminal.emit e : CodeM σ Unit) d s).2) = _
    rw [ran]
  refine ⟨⟨⟨[.emit e], ?_, rfl⟩, fun elements collected => ?_⟩, frame, user⟩
  · rw [handedOut_cons_apply, call]
    rfl
  · have taking : Draft.stop? d s = none := by
      have collects : Draft.collects d = true := by
        change d.collects = true
        rw [CodeDraft.collects, collected]
      rw [Draft.stop?, if_pos collects, running]
    rw [Outlet.emit_of_open taking] at ran
    obtain rfl : _ = d' := congrArg (·.1.2) ((accept_apply collected).symm.trans ran)
    simp [Collected]

/-- What running an element does, where nothing fails: its use moves and what stands for it is
emitted. -/
def Forwards (h : Held σ LocalsShifter) (d : CodeDraft) (s : Session σ) (e : CodeElement)
    (d' : CodeDraft) (s' : Session σ) : Prop :=
  match use? e with
  | some u => (u.2 = 1 ∨ u.2 = 2) ∧ ∃ slot e', place slot e = some e' ∧
      Moves (h.get s.user) d.frame.next u slot (h.get s'.user) d'.frame.next ∧
      Made d s (runs (asked (h.get s.user) d.frame.next [u])) [e'] d' s'
  | none => h.get s'.user = h.get s.user ∧ d'.frame.next = d.frame.next ∧
      Made d s [] (place 0 e).toList d' s'

/-- Moving a slot and then emitting what stands for an element forwards the element. -/
theorem forwards_of_shift {e e' : CodeElement} (keeps : Keeps h) {d₁ : CodeDraft} {s₁ : Session σ}
    (use : use? e = some (slot, k.slots)) (shifted : Gives d s (shift h slot k) new d₁ s₁)
    (placed : place new e = some e')
    (emitted : Gives d₁ s₁ (ExceptT.lift ((Outlet.terminal : CodeOutlet σ).emit e')) () d' s')
    (quiet : s'.error = none) : Forwards h d s e d' s' := by
  obtain ⟨present, failed | ⟨moves, made, -⟩⟩ := gives_shift keeps shifted
  · obtain ⟨error, failed⟩ := Option.ne_none_iff_exists'.mp failed
    have same : s₁ = s' :=
      congrArg (·.2) ((emit_of_error failed).symm.trans (Gives.lift_iff.mp emitted))
    rw [← same, failed] at quiet
    cases quiet
  · obtain ⟨further, frame, user⟩ := gives_emit emitted quiet
    rw [Forwards, use]
    refine ⟨slots_of_ne_void present, new, e', placed, ?_, by simpa using made.trans further⟩
    rw [frame, user]
    exact moves

/-- An element that is passed on as it is is forwarded. -/
theorem forwards_of_emit {e : CodeElement} (use : use? e = none) (placed : place 0 e = some e)
    (emitted : Gives d s (ExceptT.lift ((Outlet.terminal : CodeOutlet σ).emit e)) () d' s')
    (quiet : s'.error = none) : Forwards h d s e d' s' := by
  obtain ⟨made, frame, user⟩ := gives_emit emitted quiet
  rw [Forwards, use]
  refine ⟨by rw [user], by rw [frame], ?_⟩
  rw [placed]
  exact made

/-- A misuse is recorded. -/
theorem not_quiet_misuse {m : Misuse}
    (gives : Gives d s (ExceptT.lift (CodeM.misuse m : CodeM σ Unit)) () d' s') :
    s'.error ≠ none := by
  have same : (Build.fail (.misuse m) s).2 = s' := congrArg (·.2) (Gives.lift_iff.mp gives)
  rw [← same]
  exact Option.some_ne_none _

/-- A scope moves with its slot. -/
theorem gives_shiftScope {kind : Text → Kind} {scope scope' : LocalScope}
    (gives : Gives d s (shiftScope h kind scope) scope' d' s') :
    ∃ type new, scope.type = some type ∧ scope' = { scope with slot := new } ∧
      Gives d s (shift h scope.slot (kind type.text)) new d' s' := by
  rw [shiftScope] at gives
  cases typed : scope.type with
  | none =>
      rw [typed] at gives
      exact absurd gives Gives.not_throw
  | some type =>
      rw [typed] at gives
      obtain ⟨new, d₁, s₁, shifted, gives⟩ := Gives.bind_iff.mp gives
      obtain ⟨rfl, rfl, rfl⟩ := Gives.pure_iff.mp gives
      refine ⟨type, new, rfl, ?_, shifted⟩
      cases scope
      cases typed
      rfl

/-- An element that a shifter accepts without an error is forwarded. -/
theorem forwards_of_accept {e : CodeElement} (keeps : Keeps h)
    (gives : Gives d s (accept h .terminal e) () d' s') (quiet : s'.error = none) :
    Forwards h d s e d' s' := by
  cases e with
  | instruction i =>
      cases i with
      | load op a =>
          obtain ⟨new, d₁, s₁, shifted, gives⟩ := Gives.bind_iff.mp gives
          simp only [CodeOutlet.load] at gives
          cases loads : Opcode.load? op.kind with
          | none =>
              rw [loads] at gives
              exact absurd quiet (not_quiet_misuse gives)
          | some base =>
              rw [loads] at gives
              exact forwards_of_shift keeps rfl shifted (by simp [place, loads]) gives quiet
      | store op a =>
          obtain ⟨new, d₁, s₁, shifted, gives⟩ := Gives.bind_iff.mp gives
          simp only [CodeOutlet.store] at gives
          cases stores : Opcode.store? op.kind with
          | none =>
              rw [stores] at gives
              exact absurd quiet (not_quiet_misuse gives)
          | some base =>
              rw [stores] at gives
              exact forwards_of_shift keeps rfl shifted (by simp [place, stores]) gives
                quiet
      | increment a delta =>
          obtain ⟨new, d₁, s₁, shifted, gives⟩ := Gives.bind_iff.mp gives
          exact forwards_of_shift (k := .int) keeps rfl shifted rfl gives quiet
      | _ => exact forwards_of_emit rfl rfl gives quiet
  | localVariable scope =>
      obtain ⟨scope', d₁, s₁, moved, gives⟩ := Gives.bind_iff.mp gives
      obtain ⟨type, new, typed, rfl, shifted⟩ := gives_shiftScope moved
      have use : use? (.localVariable scope) =
          some (scope.slot, (Kind.ofDescriptor type.text).slots) := by
        rw [use?, typed]
        rfl
      exact forwards_of_shift keeps use shifted rfl gives quiet
  | localVariableType scope =>
      obtain ⟨scope', d₁, s₁, moved, gives⟩ := Gives.bind_iff.mp gives
      obtain ⟨type, new, typed, rfl, shifted⟩ := gives_shiftScope moved
      have use : use? (.localVariableType scope) =
          some (scope.slot, (signatureKind type.text).slots) := by
        rw [use?, typed]
        rfl
      exact forwards_of_shift keeps use shifted rfl gives quiet
  | «attribute» a =>
      simp only [accept] at gives
      split at gives
      · rename_i dropped
        obtain ⟨-, rfl, rfl⟩ := Gives.pure_iff.mp gives
        have use : use? (.attribute a) = none := rfl
        rw [Forwards, use]
        refine ⟨rfl, rfl, ?_⟩
        rw [place]
        split
        · exact Made.refl d s
        · rename_i other
          exact absurd dropped (other _)
      · rename_i other
        refine forwards_of_emit rfl ?_ gives quiet
        rw [place]
        split
        · rename_i dropped
          exact absurd dropped (other _)
        · rfl
  | _ => exact forwards_of_emit rfl rfl gives quiet

/-! A whole body. -/

/-- A run forwards one element after another. -/
theorem made_of_feed {es : List CodeElement} (keeps : Keeps h)
    (gives : Gives d s (Transform.feed (accept h .terminal) es) () d' s') :
    ∃ slots es', Placed es slots es' ∧
      Made d s (runs (asked (h.get s.user) d.frame.next (es.filterMap use?))) es' d' s' ∧
      MovesAll (h.get s.user) d.frame.next (es.filterMap use?) slots (h.get s'.user)
        d'.frame.next ∧ ∀ u ∈ es.filterMap use?, u.2 = 1 ∨ u.2 = 2 := by
  induction es generalizing d s with
  | nil =>
      obtain ⟨-, rfl, rfl⟩ := Gives.pure_iff.mp gives
      exact ⟨[], [], .nil, .refl d s, .done .., by simp⟩
  | cons e es inductionHypothesis =>
      obtain ⟨d₁, s₁, first, quiet, others⟩ := Transform.feed_cons gives
      have forwards := forwards_of_accept keeps first quiet.session
      rw [Forwards] at forwards
      obtain ⟨slots, es', placed', made', moves', sizes⟩ := inductionHypothesis others
      cases use : use? e with
      | some u =>
          rw [use] at forwards
          obtain ⟨size, slot, e', placed, moves, made⟩ := forwards
          rw [List.filterMap_cons_some use]
          refine ⟨slot :: slots, e' :: es', .used use placed placed', ?_, .step moves moves',
            List.forall_mem_cons.mpr ⟨size, sizes⟩⟩
          rw [moves.asked_cons, runs, List.map_append]
          exact made.trans made'
      | none =>
          rw [use] at forwards
          obtain ⟨kept, next, made⟩ := forwards
          rw [List.filterMap_cons_none use]
          rw [kept, next] at moves' made'
          exact ⟨slots, _, .unused use placed', made.trans made', moves', sizes⟩

/-- The elements that a draft collects over a run. -/
theorem placed_of_feed {es : List CodeElement} (keeps : Keeps h) (collected : Collected d elements)
    (gives : Gives d s (Transform.feed (accept h .terminal) es) () d' s') :
    ∃ slots es', Placed es slots es' ∧ Collected d' (elements ++ es') ∧
      MovesAll (h.get s.user) d.frame.next (es.filterMap use?) slots (h.get s'.user)
        d'.frame.next ∧ ∀ u ∈ es.filterMap use?, u.2 = 1 ∨ u.2 = 2 := by
  obtain ⟨slots, es', placed, made, moves⟩ := made_of_feed keeps gives
  exact ⟨slots, es', placed, made.collects elements collected, moves⟩

/-! Stores into slots of a body are never refused. -/

/-- A shifter moves a slot that is not negative, for a kind of value that can be stored. -/
theorem exists_shift {shifter : LocalsShifter} {next : Nat} (keeps : Keeps h)
    (collected : Collected d elements) (usable : k ≠ .void ∧ k ≠ .unknown 0) (inside : 0 ≤ slot)
    (moves : Moves (h.get s.user) d.frame.next (slot, k.slots) new shifter next) :
    ∃ d' s', Gives d s (shift h slot k) new d' s' ∧ Collected d' elements ∧
      d'.frame.next = next ∧ h.get s'.user = shifter ∧ s'.error = s.error ∧ s'.pool = s.pool := by
  have looked : Gives d s (h.read : ExceptT Error (CodeM σ) _) (h.get s.user) d s := rfl
  rw [shift, if_neg usable.1]
  cases moves with
  | kept below =>
      refine ⟨d, s, looked.bind ?_, collected, rfl, rfl, rfl, rfl⟩
      rw [if_pos below]
      exact .pure _
  | known above remembered =>
      have outside : ¬2 * slot < (h.get s.user).fixed := by
        simp only at above
        omega
      refine ⟨d, s, looked.bind ?_, collected, rfl, rfl, rfl, rfl⟩
      rw [if_neg (by simpa using above), if_neg outside, show (h.get s.user).slots[_]? = _ from
        remembered]
      exact .pure _
  | given above unknown =>
      have outside : ¬2 * slot < (h.get s.user).fixed := by
        simp only at above
        omega
      let d₁ : CodeDraft := { d with frame := { d.frame with next := d.frame.next + k.slots } }
      let s₁ : Session σ := { s with user := h.set ((h.get s.user).give
        ((h.get s.user).key slot k.slots) d.frame.next k.slots) s.user }
      have handed : Gives d s (ExceptT.lift (CodeM.allocateLocal k) : ExceptT Error (CodeM σ) Int)
          d.frame.next d₁ s := by
        refine .lift ((allocateLocal_apply collected).trans ?_)
        rw [LocalFrame.allocate?, if_neg (by simpa using usable)]
      have written : Gives d₁ s (h.write ((h.get s.user).give ((h.get s.user).key slot k.slots)
          d.frame.next k.slots)) () d₁ s₁ := rfl
      refine ⟨d₁, s₁, looked.bind ?_, collected, rfl, keeps .., rfl, rfl⟩
      rw [if_neg (by simpa using above), if_neg outside, show (h.get s.user).slots[_]? = _ from
        unknown]
      exact handed.bind (written.bind (.pure _))

/-- A draft that collects takes what is emitted where nothing has failed. -/
theorem exists_emit (collected : Collected d elements) (quiet : s.Quiet) (e : CodeElement) :
    ∃ d', Gives d s (ExceptT.lift ((Outlet.terminal : CodeOutlet σ).emit e)) () d' s ∧
      Collected d' (elements ++ [e]) ∧ d'.frame = d.frame := by
  refine ⟨{ d with target := .collecting (elements.toArray.push e) }, .lift ?_, ?_, rfl⟩
  · rw [Outlet.emit_terminal quiet, accept_apply collected]
  · simp [Collected]

/-- A store into a slot that is not negative. -/
def Stores (e : CodeElement) : Prop :=
  ∃ op base slot, e = .instruction (.store op slot) ∧ 0 ≤ slot ∧ Opcode.store? op.kind = some base

/-- An instruction that a shifter leaves as it is. -/
def Passes (e : CodeElement) : Prop :=
  ∃ op target slot, e = .instruction (.discontinued op target slot)

/-- Stores that have somewhere to move are forwarded, and so is what passes. -/
theorem exists_feed {es es' : List CodeElement} {slots : List Int} {shifter : LocalsShifter}
    {next : Nat} (keeps : Keeps h) (collected : Collected d elements) (quiet : s.Quiet)
    (stores : ∀ e ∈ es, Stores e ∨ Passes e) (placed : Placed es slots es')
    (moves : MovesAll (h.get s.user) d.frame.next (es.filterMap use?) slots shifter next) :
    ∃ d' s', Gives d s (Transform.feed (accept h .terminal) es) () d' s' ∧ s'.Quiet ∧
      Collected d' (elements ++ es') := by
  induction placed generalizing d s elements with
  | nil => exact ⟨d, s, .pure _, quiet, by simpa using collected⟩
  | @unused e es es' slots use others inductionHypothesis =>
      obtain ⟨head, tail⟩ := List.forall_mem_cons.mp stores
      rcases head with ⟨op, base, slot, rfl, -, -⟩ | ⟨op, target, slot, rfl⟩
      · cases use
      · rw [List.filterMap_cons_none use] at moves
        obtain ⟨d₁, emitted, collected₁, frame⟩ := exists_emit collected quiet
          (.instruction (.discontinued op target slot))
        rw [← frame] at moves
        obtain ⟨d', s', fed, quiet', collected'⟩ :=
          inductionHypothesis collected₁ quiet tail moves
        refine ⟨d', s', ?_, quiet', by simpa [place] using collected'⟩
        have accepted : Gives d s
            (accept h .terminal (.instruction (.discontinued op target slot))) () d₁ s := emitted
        exact accepted.bind (quiet.settle.bind fed)
  | @used e e' es es' u slot slots use placed others inductionHypothesis =>
      obtain ⟨head, tail⟩ := List.forall_mem_cons.mp stores
      rcases head with ⟨op, base, old, rfl, inside, stored⟩ | ⟨op, target, old, rfl⟩
      · rw [List.filterMap_cons_some use] at moves
        obtain rfl : (old, op.kind.slots) = u := Option.some.inj use
        have usable : op.kind ≠ .void ∧ op.kind ≠ .unknown 0 := by
          constructor <;> intro same <;> rw [same] at stored <;> cases stored
        cases moves with
        | step first rest =>
            obtain ⟨d₁, s₁, shifted, collected₁, next₁, shifter₁, error, pool⟩ :=
              exists_shift keeps collected usable inside first
            have quiet₁ : s₁.Quiet := ⟨error.trans quiet.session, pool ▸ quiet.pool⟩
            obtain ⟨d₂, emitted, collected₂, frame⟩ := exists_emit collected₁ quiet₁ e'
            rw [← next₁, ← shifter₁, ← frame] at rest
            obtain ⟨d', s', fed, quiet', collected'⟩ :=
              inductionHypothesis collected₂ quiet₁ tail rest
            refine ⟨d', s', ?_, quiet', by simpa using collected'⟩
            have accepted : Gives d s (accept h .terminal (.instruction (.store op old))) () d₂
                s₁ := by
              refine shifted.bind ?_
              simp only [place, stored, Option.map_some, Option.some.injEq] at placed
              rw [CodeOutlet.store, stored]
              subst placed
              exact emitted
            exact accepted.bind (quiet₁.settle.bind fed)
      · cases use

/-- A whole run, where there is nothing to do at the end. -/
theorem run_of_feed {es : List CodeElement} (quiet : s'.Quiet)
    (fed : Gives d s (Transform.feed (accept h .terminal) es) () d' s') :
    Gives d s (Transform.run (.ofList es) (some (transform h)) .terminal) () d' s' := by
  have bound : Gives d s (liftM ((transform h).bind (.terminal : CodeOutlet σ)))
      ⟨accept h .terminal, return⟩ d s := rfl
  exact bound.bind (fed.bind (Gives.bind (.pure _) quiet.settle))

/-- The empty body of a method without parameters, to be collected. -/
def emptyBody : CodeDraft := .collecting true ⟨[], .void⟩ none none

/-- The store of an integer is for integers. -/
theorem kind_istore : Opcode.istore.kind = .int := by decide +kernel

/-- The opcode `lstore`. -/
theorem kind_lstore : (⟨0x37⟩ : Opcode).kind = .long := by decide +kernel

/-- A store of an integer into slot five. -/
def narrowStore : CodeElement := .instruction (.store .istore 5)

/-- A store of a long integer into slot five. -/
def wideStore : CodeElement := .instruction (.store ⟨0x37⟩ 5)

/-- The store of an integer is a store into a slot that is not negative. -/
theorem stores_narrowStore : Stores narrowStore ∨ Passes narrowStore :=
  .inl ⟨.istore, .istore, 5, rfl, by decide, by rw [kind_istore]; rfl⟩

/-- The store of a long integer is a store into a slot that is not negative. -/
theorem stores_wideStore : Stores wideStore ∨ Passes wideStore :=
  .inl ⟨⟨0x37⟩, ⟨0x37⟩, 5, rfl, by decide, by rw [kind_lstore]; rfl⟩

/-- The store of an integer uses slot five. -/
theorem use?_narrowStore : use? narrowStore = some (5, 1) := by
  rw [narrowStore, use?, kind_istore]
  rfl

/-- The store of a long integer uses slot five and the one after it. -/
theorem use?_wideStore : use? wideStore = some (5, 2) := by
  rw [wideStore, use?, kind_lstore]
  rfl

/-- In place of the store of an integer stands one into the new slot, in its short form if there is
one. -/
theorem place_narrowStore (slot : Int) : place slot narrowStore =
    some (.instruction (.store ((Opcode.istore.short? slot).getD .istore) slot)) := by
  rw [narrowStore, place, kind_istore]
  rfl

/-- In place of the store of a long integer stands one into the new slot, in its short form if there
is one. -/
theorem place_wideStore (slot : Int) : place slot wideStore =
    some (.instruction (.store (((⟨0x37⟩ : Opcode).short? slot).getD ⟨0x37⟩) slot)) := by
  rw [wideStore, place, kind_lstore]
  rfl

/-- Stores and what passes run through a fresh shifter where they have somewhere to move. -/
theorem exists_run_of {es es' : List CodeElement} {slots : List Int} {fixed : Int}
    {shifter : LocalsShifter} {next : Nat} (keeps : Keeps h) (fresh : h.get s.user = start fixed)
    (quiet : s.Quiet) (empty : Collected d []) (stores : ∀ e ∈ es, Stores e ∨ Passes e)
    (placed : Placed es slots es')
    (moves : MovesAll (start fixed) d.frame.next (es.filterMap use?) slots shifter next) :
    ∃ d' s', Gives d s (Transform.run (.ofList es) (some (transform h)) .terminal) () d' s' ∧
      s'.Quiet ∧ Collected d' es' := by
  rw [← fresh] at moves
  obtain ⟨d', s', fed, quiet', collected⟩ := exists_feed keeps empty quiet stores placed moves
  exact ⟨d', s', run_of_feed quiet' fed, quiet', collected⟩

/-- From a fresh shifter that keeps no slot, stores run where they have somewhere to move. -/
theorem exists_run {es es' : List CodeElement} {slots : List Int} {shifter : LocalsShifter}
    {next : Nat} (stores : ∀ e ∈ es, Stores e ∨ Passes e) (placed : Placed es slots es')
    (moves : MovesAll (start 0) 0 (es.filterMap use?) slots shifter next) :
    ∃ d' s', Gives emptyBody (Build.start .none .empty (start 0))
        (Transform.run (.ofList es) (some (transform .whole)) .terminal) () d' s' ∧
      Collected d' es' := by
  obtain ⟨d', s', gives, -, collected⟩ := exists_run_of (h := .whole)
    (s := Build.start .none .empty (start 0)) (fun _ _ => rfl) rfl ⟨rfl, rfl⟩
    (show Collected emptyBody [] from rfl) stores placed moves
  exact ⟨d', s', gives, collected⟩

/-- The slots of a body that has run through a fresh shifter come from one mapping of slots and
sizes exactly where no slot has a narrow use both before its first wide use and after it. -/
theorem shifted_by_mapping_iff {es es' : List CodeElement} {fixed : Int} (keeps : Keeps h)
    (fresh : h.get s.user = start fixed) (empty : Collected d [])
    (gives : Gives d s (Transform.run (.ofList es) (some (transform h)) .terminal) () d' s')
    (collected : Collected d' es') :
    (∃ f : Int → Nat → Int, (∀ slot < fixed, ∀ size, f slot size = slot) ∧
      es' = es.filterMap (relocate f)) ↔
      ∀ slot, fixed ≤ slot → ¬Reused (es.filterMap use?) slot := by
  obtain ⟨stage, d₁, s₁, bound, run⟩ := Gives.bind_iff.mp gives
  obtain ⟨rfl, rfl, rfl⟩ : (⟨accept h .terminal, return⟩ : Transform.Stage σ _ _) = stage ∧
    d = d₁ ∧ s = s₁ := Gives.pure_iff.mp bound
  obtain ⟨⟨⟩, d₂, s₂, fed, ending⟩ := Gives.bind_iff.mp run
  have fed : Gives d s (Transform.feed (accept h .terminal) es) () d₂ s₂ := fed
  obtain ⟨slots, placedElements, placed, collected₂, moves, sizes⟩ :=
    placed_of_feed keeps empty fed
  -- The end of the walk does nothing.
  obtain ⟨⟨⟩, d₃, s₃, ended, settled⟩ := Gives.bind_iff.mp ending
  obtain ⟨-, rfl, rfl⟩ := Gives.pure_iff.mp ended
  obtain ⟨-, rfl, rfl⟩ := Session.quiet_of_settle settled
  have all : es' = placedElements := by simpa [Collected] using collected.symm.trans collected₂
  rw [fresh] at moves
  rw [← exists_mapping_iff_not_reused moves sizes, all]
  simp only [Mapping, placed.eq_filterMap_iff]

/-- A narrow and then a wide use of slot five move to slots zero and one. -/
theorem narrow_wide_by_mapping :
    ∃ (d' : CodeDraft) (s' : Session LocalsShifter) (es' : List CodeElement),
      Gives emptyBody (Build.start .none .empty (start 0))
        (Transform.run (.ofList [narrowStore, wideStore]) (some (transform .whole)) .terminal) ()
        d' s' ∧ Collected d' es' ∧
      ∃ f : Int → Nat → Int, (∀ slot < 0, ∀ size, f slot size = slot) ∧
        es' = [narrowStore, wideStore].filterMap (relocate f) := by
  have uses : [narrowStore, wideStore].filterMap use? = [(5, 1), (5, 2)] := by
    rw [List.filterMap_cons_some use?_narrowStore, List.filterMap_cons_some use?_wideStore]
    rfl
  have unknown : ((start 0).give ((start 0).key 5 1) (0 : Nat) 1).new? (5, 2) = none := by
    rw [new?_give (u := (5, 1)) (.inl rfl) (.inr rfl), if_neg (by decide), new?_start]
  have moves := MovesAll.step (.given (by decide) (new?_start 0 (5, 1)))
    (.step (.given (u := (5, 2)) (by rw [fixed_give]; decide) unknown) (.done _ _))
  have placed := Placed.used use?_narrowStore (place_narrowStore 0)
    (.used use?_wideStore (place_wideStore 1) .nil)
  obtain ⟨d', s', gives, collected⟩ := exists_run (by
    simpa using ⟨stores_narrowStore, stores_wideStore⟩) placed (uses ▸ moves)
  refine ⟨d', s', _, gives, collected, ?_⟩
  refine (shifted_by_mapping_iff (h := .whole) (fun _ _ => rfl) rfl
    (show Collected emptyBody [] from rfl) gives collected).mpr fun slot _ => ?_
  rw [uses]
  rintro ⟨before, after, split, -, -, again⟩
  -- Nothing narrow comes after the wide use.
  have last : ∀ v ∈ after, v.2 = 2 := by
    rcases before with _ | ⟨_, _ | ⟨_, before⟩⟩ <;> simp_all
  exact absurd (last _ again) (by simp)

/-- A narrow use of slot five moves to slot zero before the first wide one and to slot one after
it, so no mapping accounts for the three stores. -/
theorem narrow_wide_narrow_by_no_mapping :
    ∃ (d' : CodeDraft) (s' : Session LocalsShifter) (es' : List CodeElement),
      Gives emptyBody (Build.start .none .empty (start 0))
        (Transform.run (.ofList [narrowStore, wideStore, narrowStore]) (some (transform .whole))
          .terminal) () d' s' ∧ Collected d' es' ∧
      ¬∃ f : Int → Nat → Int, (∀ slot < 0, ∀ size, f slot size = slot) ∧
        es' = [narrowStore, wideStore, narrowStore].filterMap (relocate f) := by
  have uses : [narrowStore, wideStore, narrowStore].filterMap use? = [(5, 1), (5, 2), (5, 1)] := by
    rw [List.filterMap_cons_some use?_narrowStore, List.filterMap_cons_some use?_wideStore,
      List.filterMap_cons_some use?_narrowStore]
    rfl
  have unknown : ((start 0).give ((start 0).key 5 1) (0 : Nat) 1).new? (5, 2) = none := by
    rw [new?_give (u := (5, 1)) (.inl rfl) (.inr rfl), if_neg (by decide), new?_start]
  have displaced : (((start 0).give ((start 0).key 5 1) (0 : Nat) 1).give
      (((start 0).give ((start 0).key 5 1) (0 : Nat) 1).key 5 2) (1 : Nat) 2).new? (5, 1) =
        some ((1 : Nat) : Int) := by
    rw [new?_give (u := (5, 2)) (.inr rfl) (.inl rfl), if_pos (by decide)]
  have moves := MovesAll.step (.given (by decide) (new?_start 0 (5, 1)))
    (.step (.given (u := (5, 2)) (by rw [fixed_give]; decide) unknown)
      (.step (.known (u := (5, 1)) (by rw [fixed_give, fixed_give]; decide) displaced)
        (.done _ _)))
  have placed := Placed.used use?_narrowStore (place_narrowStore 0)
    (.used use?_wideStore (place_wideStore 1) (.used use?_narrowStore (place_narrowStore 1) .nil))
  obtain ⟨d', s', gives, collected⟩ := exists_run (by
    simpa using ⟨stores_narrowStore, stores_wideStore, stores_narrowStore⟩) placed (uses ▸ moves)
  refine ⟨d', s', _, gives, collected, ?_⟩
  rintro ⟨f, -, all⟩
  have slots := (placed.eq_filterMap_iff f).mp all
  rw [uses] at slots
  obtain ⟨first, -, third, -⟩ : 0 = f 5 1 ∧ 1 = f 5 2 ∧ 1 = f 5 1 ∧ True := by simpa using slots
  omega

end JvmClass.LocalsShifter
