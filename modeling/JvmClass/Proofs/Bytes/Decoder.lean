import JvmClass.Proofs.Bytes.Scan

/-!
# Calls on a decoder

A decoder checks a region by one comparison of its window's end with the sum of a position and
a length, and that sum is a machine word. As long as it does not wrap around, the check is what
it looks like: no call leaves the window, and after the first error nothing moves. The sum does
wrap around for lengths near the top of the range, and then the check lets the region through.
-/

namespace JvmClass.Decoder

/-- One use of a decoder. A length is a machine word. -/
inductive Call
  | u1
  | u2
  | s2
  | u4
  | s4
  | bytes (n : Int64)
  | skip (n : Int64)
  | fail (e : Error)

/-- What a call returns. -/
inductive Answer
  | number (n : Int)
  | bytes (b : Bytes)
  | nothing
deriving DecidableEq

/-- A region that passes the check although the buffer does not hold it. Reading there has no
result. -/
def overruns (n : Int) (d : Decoder) : Bool := (d.need n).1 && !d.cursor.has d.pos n

/-- A number as an answer, unless its region is not in the buffer. -/
def reads (width : Nat) (d : Decoder) (result : Int × Decoder) : Option (Answer × Decoder) :=
  if d.overruns width then none else some (.number result.1, result.2)

namespace Call

/-- The call's answer and what it leaves, none where it reads outside of the buffer. -/
def perform (d : Decoder) : Call → Option (Answer × Decoder)
  | u1 => d.reads 1 (d.u1.1, d.u1.2)
  | u2 => d.reads 2 (d.u2.1, d.u2.2)
  | s2 => d.reads 2 d.s2
  | u4 => d.reads 4 (d.u4.1, d.u4.2)
  | s4 => d.reads 4 d.s4
  | bytes n => (d.bytes n.toInt).map fun (b, d) => (.bytes b, d)
  | skip n => some (.nothing, d.skip n.toInt)
  | fail e => some (.nothing, d.fail e)

/-- How many bytes a call asks for. -/
def length? : Call → Option Int
  | u1 => some 1
  | u2 | s2 => some 2
  | u4 | s4 => some 4
  | bytes n | skip n => some n.toInt
  | fail _ => none

/-- What a call answers from the bytes that it has passed. -/
def answer (b : Bytes) : Call → Answer
  | u1 | u2 | u4 => .number (ofBigEndian b)
  | s2 => .number (signed 16 (ofBigEndian b))
  | s4 => .number (signed 32 (ofBigEndian b))
  | bytes _ => .bytes b
  | skip _ | fail _ => .nothing

/-- What a call answers after an error: zero, or no bytes. -/
def blank (call : Call) : Answer := call.answer []

/-- Whether the end of the region that a call asks for is no machine word. -/
def Wraps (d : Decoder) (call : Call) : Prop :=
  d.error = none ∧ ∃ n ∈ call.length?, 0x8000000000000000 ≤ d.pos + n

instance (d : Decoder) (call : Call) : Decidable (call.Wraps d) :=
  inferInstanceAs (Decidable (_ ∧ ∃ n ∈ call.length?, _))

/-- What one call keeps to. Without an error it has moved forward by what it asked for, inside
the window, and answers from the bytes in between. With an error it has not moved and answers
nothing, and the first error stays. -/
structure Contained (d : Decoder) (call : Call) (a : Answer) (d' : Decoder) : Prop where
  window : d'.cursor = d.cursor ∧ d'.stop = d.stop
  moves : d'.error = none → ∃ n, call.length? = some n ∧ 0 ≤ n ∧ d'.pos = d.pos + n ∧
    d'.pos ≤ d.stop ∧ a = call.answer (d.cursor.segment d.pos.toNat d'.pos.toNat)
  rests : d'.error ≠ none → d'.pos = d.pos ∧ a = call.blank
  sticks : d.error ≠ none → d'.error = d.error

end Call

/-- A decoder without an error stands between a start and the end of its window. -/
def Inside (start : Int) (d : Decoder) : Prop :=
  d.error = none → start ≤ d.pos ∧ d.pos ≤ d.stop

/-- Every call of a sequence has an answer and keeps to its window. -/
def Safe (start : Int) : List Call → Decoder → Prop
  | [], d => d.Inside start
  | call :: rest, d =>
    d.Inside start ∧ ∃ a d', call.perform d = some (a, d') ∧ call.Contained d a d' ∧
      Safe start rest d'

/-- No call of a sequence asks for a region whose end is no machine word. -/
def NeverWraps : List Call → Decoder → Prop
  | [], _ => True
  | call :: rest, d =>
    ¬call.Wraps d ∧ ∀ outcome ∈ call.perform d, NeverWraps rest outcome.2

instance NeverWraps.decidable : ∀ calls d, Decidable (NeverWraps calls d)
  | [], _ => .isTrue trivial
  | call :: rest, d =>
    have := NeverWraps.decidable rest
    inferInstanceAs (Decidable (¬call.Wraps d ∧ ∀ outcome ∈ call.perform d, _))

/-! ## The check of a region -/

variable {d : Decoder} {n start : Int} {width : Nat}

/-- A decoder whose window, as long as there is no error, lies in the buffer from a start on. -/
structure Sound (start : Int) (d : Decoder) : Prop where
  held : d.cursor.size < 0x8000000000000000
  clipped : d.stop ≤ d.cursor.size
  inside : d.error = none → 0 ≤ start ∧ start ≤ d.pos ∧ d.pos ≤ d.stop

/-- Where a window is sound, a decoder without an error stands inside it. -/
theorem Sound.stands (sound : d.Sound start) : d.Inside start := fun clear =>
  (sound.inside clear).2

/-- Only the first error is remembered. -/
theorem fail_of_error {e : Error} (failed : d.error ≠ none) : d.fail e = d := by
  obtain ⟨first, failed⟩ := Option.ne_none_iff_exists'.mp failed
  rw [fail, failed, Option.some_or, ← failed]

/-- Nothing is granted once there is an error, and the error stays. -/
theorem need_of_error (failed : d.error ≠ none) : d.need n = (false, d) := by
  simp [need, Option.isSome_iff_ne_none.mpr failed]

/-- The check of a region whose end is a machine word compares its end with the window's. -/
theorem need_of_word (clear : d.error = none) (start : 0 ≤ d.pos)
    (word : d.pos + n < 0x8000000000000000) :
    d.need n = if 0 ≤ n ∧ d.pos + n ≤ d.stop then (true, d)
      else (false, d.fail (.shortage (.pastWindow n d.pos d.stop))) := by
  by_cases negative : n < 0
  · have refused : ¬(0 ≤ n ∧ d.pos + n ≤ d.stop) := by omega
    simp [need, clear, negative, refused]
  · have same : signed 64 (d.pos + n) = d.pos + n := signed_of_lt (by omega) word
    by_cases past : d.stop < d.pos + n
    · have refused : ¬(0 ≤ n ∧ d.pos + n ≤ d.stop) := by omega
      simp [need, clear, same, past, refused]
    · have granted : 0 ≤ n ∧ d.pos + n ≤ d.stop := by omega
      simp [need, clear, same, past, negative, granted]

/-- An end between the words' bound and twice that is taken for a negative number. -/
theorem signed_of_ge {m : Int} (low : 0x8000000000000000 ≤ m) (high : m < 0x10000000000000000) :
    signed 64 m = m - 0x10000000000000000 := by
  have modulus : Nat.pow 2 64 = 18446744073709551616 := by decide
  have shifted : m.bmod 18446744073709551616 =
      (m - 18446744073709551616).bmod 18446744073709551616 := by
    rw [Int.sub_eq_add_neg, ← Int.neg_one_mul, Int.mul_comm]
    exact (Int.add_mul_bmod_self_left m 18446744073709551616 (-1)).symm
  rw [signed, modulus, shifted]
  exact Int.bmod_eq_of_le_mul_two (by omega) (by omega)

/-- The check of a region whose end wraps around lets it through. -/
theorem need_of_wraps (clear : d.error = none) (stop : 0 ≤ d.stop)
    (position : d.pos < 0x8000000000000000) (length : n < 0x8000000000000000)
    (wraps : 0x8000000000000000 ≤ d.pos + n) : d.need n = (true, d) := by
  have negative := signed_of_ge wraps (by omega)
  have granted : ¬d.stop < signed 64 (d.pos + n) := by omega
  have counts : ¬n < 0 := by omega
  simp [need, clear, granted, counts]

/-- Inside the window every region that is granted is read. -/
theorem segment_of_granted (sound : d.Sound start) (clear : d.error = none) (counts : 0 ≤ n)
    (fits : d.pos + n ≤ d.stop) :
    d.cursor.slice? d.pos n = some (d.cursor.segment d.pos.toNat (d.pos + n).toNat) := by
  obtain ⟨bound, from_, before⟩ := sound.inside clear
  have clipped := sound.clipped
  have there : d.cursor.has d.pos n = true := by
    simp only [Cursor.has, Bool.and_eq_true, decide_eq_true_eq]
    omega
  simp only [Cursor.slice?, there, ↓reduceIte, Cursor.segment]

/-! ## One call -/

/-- A number that is read, with the decoder that the check has left. -/
theorem number_of_granted (sound : d.Sound start) (clear : d.error = none)
    (fits : d.pos + width ≤ d.stop) :
    d.number width = (ofBigEndian (d.cursor.segment d.pos.toNat (d.pos + width).toNat),
      { d with pos := d.pos + width }) := by
  have inside := sound.inside clear
  have held := sound.held
  have clipped := sound.clipped
  have passes := need_of_word (n := width) clear (by omega) (by omega)
  have granted : 0 ≤ (width : Int) ∧ d.pos + width ≤ d.stop := by omega
  rw [if_pos granted] at passes
  simp only [number, passes, Cursor.number?,
    segment_of_granted sound clear granted.1 granted.2, Option.map_some]

/-- A number for which the check fails is zero. -/
theorem number_of_refused {d' : Decoder} (refused : d.need width = (false, d')) :
    d.number width = (0, d') := by
  simp only [number, refused]

/-- A region that does not wrap around is either passed or refused. -/
theorem need_cases (sound : d.Sound start)
    (fits : d.error = none → d.pos + n < 0x8000000000000000) :
    (d.error = none ∧ 0 ≤ n ∧ d.pos + n ≤ d.stop ∧ d.need n = (true, d)) ∨
      ∃ e, d.need n = (false, d.fail e) := by
  by_cases clear : d.error = none
  · have inside := sound.inside clear
    have passes := need_of_word (n := n) clear (by omega) (fits clear)
    by_cases granted : 0 ≤ n ∧ d.pos + n ≤ d.stop
    · rw [if_pos granted] at passes
      exact .inl ⟨clear, granted.1, granted.2, passes⟩
    · rw [if_neg granted] at passes
      exact .inr ⟨_, passes⟩
  · exact .inr ⟨.outOfBounds, by rw [fail_of_error clear, need_of_error clear]⟩

namespace Call

variable {call : Call}

/-- A call that is refused, or that records an error, keeps to its window. -/
theorem contained_of_fail (e : Error) : call.Contained d call.blank (d.fail e) := by
  constructor
  · exact ⟨rfl, rfl⟩
  · intro clear
    simp [Decoder.fail] at clear
  · intro _
    exact ⟨rfl, rfl⟩
  · intro failed
    rw [fail_of_error failed]

/-- A call that moves by what it asks for, inside the window, keeps to it. -/
theorem contained_of_granted (length : call.length? = some n) (clear : d.error = none)
    (counts : 0 ≤ n) (fits : d.pos + n ≤ d.stop) :
    call.Contained d (call.answer (d.cursor.segment d.pos.toNat (d.pos + n).toNat))
      { d with pos := d.pos + n } := by
  constructor
  · exact ⟨rfl, rfl⟩
  · intro _
    exact ⟨n, length, counts, rfl, fits, rfl⟩
  · intro failed
    exact absurd clear failed
  · intro failed
    exact absurd clear failed

/-- A number whose region does not wrap around. -/
theorem contained_of_number (sound : d.Sound start) {result : Int × Decoder} (f : Nat → Int)
    (length : call.length? = some width)
    (fits : d.error = none → d.pos + width < 0x8000000000000000)
    (shape : result = (f (d.number width).1, (d.number width).2))
    (answers : ∀ b, call.answer b = .number (f (ofBigEndian b))) :
    ∃ a d', d.reads width result = some (a, d') ∧ call.Contained d a d' := by
  rcases need_cases sound fits with ⟨clear, counts, inside, passes⟩ | ⟨e, refused⟩
  · have held : d.cursor.has d.pos width = true := by
      have read := segment_of_granted sound clear counts inside
      by_contra outside
      simp [Cursor.slice?, outside] at read
    have number := number_of_granted sound clear inside
    have contained := contained_of_granted length clear counts inside
    rw [answers] at contained
    refine ⟨_, _, ?_, contained⟩
    simp [reads, overruns, passes, held, shape, number]
  · have number := number_of_refused refused
    have contained : call.Contained d call.blank (d.fail e) := contained_of_fail e
    rw [blank, answers] at contained
    refine ⟨_, _, ?_, contained⟩
    simp [reads, overruns, refused, shape, number, ofBigEndian]

/-- A call keeps to its window where the end of its region is a machine word. -/
theorem contained_of_not_wraps (sound : d.Sound start) (word : ¬call.Wraps d) :
    ∃ a d', call.perform d = some (a, d') ∧ call.Contained d a d' := by
  have fits (n : Int) (length : call.length? = some n) :
      d.error = none → d.pos + n < 0x8000000000000000 := by
    intro clear
    by_contra past
    exact word ⟨clear, n, length, by omega⟩
  cases call with
  | u1 => exact contained_of_number sound Nat.cast rfl (fits 1 rfl) rfl fun _ => rfl
  | u2 => exact contained_of_number sound Nat.cast rfl (fits 2 rfl) rfl fun _ => rfl
  | s2 => exact contained_of_number sound (fun n => signed 16 n) rfl (fits 2 rfl) rfl fun _ => rfl
  | u4 => exact contained_of_number sound Nat.cast rfl (fits 4 rfl) rfl fun _ => rfl
  | s4 => exact contained_of_number sound (fun n => signed 32 n) rfl (fits 4 rfl) rfl fun _ => rfl
  | bytes n =>
      rcases need_cases sound (fits n.toInt rfl) with ⟨clear, counts, inside, passes⟩ | ⟨e, refused⟩
      · have contained := @contained_of_granted d _ (.bytes n) rfl clear counts inside
        have bound := sound.inside clear
        have same : signed 64 (d.pos + n.toInt) = d.pos + n.toInt :=
          signed_of_lt (by omega) (fits n.toInt rfl clear)
        have read := segment_of_granted sound clear counts inside
        refine ⟨_, _, ?_, contained⟩
        simp [perform, Decoder.bytes, passes, read, same, answer]
      · refine ⟨_, _, ?_, contained_of_fail e⟩
        simp [perform, Decoder.bytes, refused, blank, answer]
  | skip n =>
      rcases need_cases sound (fits n.toInt rfl) with ⟨clear, counts, inside, passes⟩ | ⟨e, refused⟩
      · have contained := @contained_of_granted d _ (.skip n) rfl clear counts inside
        have bound := sound.inside clear
        have same : signed 64 (d.pos + n.toInt) = d.pos + n.toInt :=
          signed_of_lt (by omega) (fits n.toInt rfl clear)
        refine ⟨_, _, ?_, contained⟩
        simp [perform, Decoder.skip, passes, same, answer]
      · refine ⟨_, _, ?_, contained_of_fail e⟩
        simp [perform, Decoder.skip, refused, blank, answer]
  | fail e => exact ⟨_, _, rfl, contained_of_fail e⟩

/-- A region that wraps around is let through and is not in the buffer. -/
theorem overruns_of_wraps (sound : d.Sound start) (clear : d.error = none)
    (length : n < 0x8000000000000000) (wraps : 0x8000000000000000 ≤ d.pos + n) :
    d.need n = (true, d) ∧ d.cursor.has d.pos n = false := by
  have inside := sound.inside clear
  have held := sound.held
  have clipped := sound.clipped
  constructor
  · exact need_of_wraps clear (by omega) (by omega) length wraps
  · simp only [Cursor.has, Bool.and_eq_false_iff, decide_eq_false_iff_not]
    omega

/-- A call whose region wraps around reads outside of the buffer, or it leaves the window. -/
theorem not_contained_of_wraps (sound : d.Sound start) (wraps : call.Wraps d) {a : Answer}
    {d' : Decoder} (performs : call.perform d = some (a, d')) : ¬call.Contained d a d' := by
  obtain ⟨clear, n, length, past⟩ := wraps
  rw [Option.mem_def] at length
  have unread (width : Nat) (same : n = width) (small : (width : Int) ≤ 4)
      {result : Int × Decoder} : d.reads width result = none := by
    subst same
    obtain ⟨passes, outside⟩ := overruns_of_wraps sound clear (by omega) past
    simp [reads, overruns, passes, outside]
  cases call with
  | u1 | u2 | s2 | u4 | s4 =>
      simp only [length?, Option.some.injEq] at length
      simp only [perform] at performs
      rw [unread _ length.symm (by decide)] at performs
      cases performs
  | bytes m =>
      obtain rfl : m.toInt = n := by simpa [length?] using length
      obtain ⟨passes, outside⟩ := overruns_of_wraps sound clear m.toInt_lt past
      simp [perform, Decoder.bytes, passes, Cursor.slice?, outside] at performs
  | skip m =>
      obtain rfl : m.toInt = n := by simpa [length?] using length
      obtain ⟨passes, outside⟩ := overruns_of_wraps sound clear m.toInt_lt past
      simp only [perform, Decoder.skip, passes, Option.some.injEq, Prod.mk.injEq] at performs
      obtain ⟨-, rfl⟩ := performs
      intro contained
      obtain ⟨m', same, -, moved, inside, -⟩ := contained.moves clear
      have bound := sound.inside clear
      have clipped := sound.clipped
      have held := sound.held
      simp only [length?, Option.some.injEq] at same
      omega
  | fail e => simp [length?] at length

/-- What keeps to a window leaves a decoder whose window lies in the buffer. -/
theorem Contained.sound {a : Answer} {d' : Decoder} (contained : call.Contained d a d')
    (sound : d.Sound start) : d'.Sound start := by
  obtain ⟨cursor, stop⟩ := contained.window
  constructor
  · rw [cursor]
    exact sound.held
  · rw [cursor, stop]
    exact sound.clipped
  · intro clear'
    have clear : d.error = none := by
      by_contra failed
      exact failed (contained.sticks failed ▸ clear')
    obtain ⟨n, -, counts, moved, inside, -⟩ := contained.moves clear'
    have bound := sound.inside clear
    omega

end Call

/-! ## Calls one after another -/

/-- Calls on a decoder whose window lies in the buffer are safe exactly when none of them wraps
around. -/
theorem Sound.safe_iff (sound : d.Sound start) {calls : List Call} :
    Safe start calls d ↔ NeverWraps calls d := by
  induction calls generalizing d with
  | nil => exact iff_of_true sound.stands trivial
  | cons call rest inductionHypothesis =>
      constructor
      · rintro ⟨-, a, d', performs, contained, safe⟩
        constructor
        · intro wraps
          exact Call.not_contained_of_wraps sound wraps performs contained
        · intro outcome performs'
          rw [performs] at performs'
          cases performs'
          exact (inductionHypothesis (contained.sound sound)).mp safe
      · rintro ⟨word, others⟩
        obtain ⟨a, d', performs, contained⟩ := Call.contained_of_not_wraps sound word
        have safe := (inductionHypothesis (contained.sound sound)).mpr (others _ performs)
        exact ⟨sound.stands, a, d', performs, contained, safe⟩

/-- The window of a new decoder lies in the buffer, or the decoder starts with an error. -/
theorem sound_ofWindow {c : Cursor} (held : c.size < 0x8000000000000000) (start stop : Int) :
    (ofWindow c start stop).Sound start := by
  constructor
  · exact held
  · simp only [ofWindow]
    split <;> omega
  · intro clear
    simp only [ofWindow, ite_eq_right_iff, reduceCtorEq, imp_false, Bool.or_eq_true,
      decide_eq_true_eq, not_or] at clear ⊢
    omega

/-- After an error a call answers zero or no bytes and leaves the decoder as it is, wherever the
decoder stands. -/
theorem Call.perform_of_error {call : Call} (failed : d.error ≠ none) :
    call.perform d = some (call.blank, d) := by
  have refused (n : Int) : d.need n = (false, d) := need_of_error failed
  have number (width : Nat) : d.number width = (0, d) := number_of_refused (refused width)
  cases call <;>
    simp [perform, reads, overruns, refused, number, fail_of_error failed, Decoder.bytes,
      Decoder.skip, Decoder.u1, Decoder.u2, Decoder.u4, Decoder.s2, Decoder.s4, blank, answer,
      ofBigEndian]

/-- Any calls on any window of a buffer are safe exactly when no call asks for a region whose
end wraps around. That the first error stays, and that nothing moves or is read after it, holds
wherever a decoder stands. -/
theorem calls_safe_iff {c : Cursor} (held : c.size < 0x8000000000000000) (start stop : Int)
    (calls : List Call) :
    (Safe start calls (ofWindow c start stop) ↔ NeverWraps calls (ofWindow c start stop)) ∧
      ∀ (d : Decoder) (call : Call), d.error ≠ none → call.perform d = some (call.blank, d) :=
  ⟨(sound_ofWindow held start stop).safe_iff, fun _ _ failed => Call.perform_of_error failed⟩

/-- Reads and refusals in a window whose end was moved to the end of the buffer. -/
theorem calls_safe_clipped :
    Safe 1 [.u2, .bytes 1, .bytes (-1), .skip 0x7fffffffffffffff, .s4, .fail .outOfBounds]
      (ofWindow ⟨#[1, 2, 3, 4, 5]⟩ 1 100) :=
  (calls_safe_iff (by decide) 1 100 _).1.mpr (by decide)

/-- At the end of a buffer of 1024 bytes a length of 2⁶³ - 1024 passes the check. The decoder
moves in front of its window and remembers no error. -/
theorem calls_unsafe_wrapping :
    ¬Safe 1024 [.skip 0x7ffffffffffffc00] (ofWindow ⟨Array.replicate 1024 0⟩ 1024 1024) := by
  have sound : (ofWindow ⟨Array.replicate 1024 0⟩ 1024 1024).Sound 1024 :=
    sound_ofWindow (by simp [Cursor.size]) 1024 1024
  rw [sound.safe_iff]
  decide +kernel

end JvmClass.Decoder
