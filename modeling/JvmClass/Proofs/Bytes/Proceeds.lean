import JvmClass.Proofs.Bytes.Scan
import JvmClass.Proofs.Outcome

/-!
# Reading that never leaves its window

A step of reading either moves forward inside its window or stops with an error. Which errors it
may stop with is a parameter here; that a read outside the buffer is none of them is what the
decoders of attributes are shown with these rules.
-/

namespace JvmClass.Scan

variable {α β : Type} {c : Cursor} {stop p : Nat} {fails : Error → Prop}

/-- From `p` on a step moves forward inside the window, with `post` for what it gives and where it
stands then, or stops with an error that has `fails`. -/
def Proceeds (fails : Error → Prop) (c : Cursor) (stop p : Nat) (x : Scan α)
    (post : α → Nat → Prop) : Prop :=
  (∀ a d, x (.on c stop p) = .ok (a, d) → ∃ q, p ≤ q ∧ q ≤ stop ∧ d = .on c stop q ∧ post a q) ∧
    ∀ s, x (.on c stop p) = .error s → fails s.error

namespace Proceeds

variable {x : Scan α} {post : α → Nat → Prop}

/-- Returning proceeds to where it is. -/
theorem pure {a : α} (before : p ≤ stop) (holds : post a p) :
    Proceeds fails c stop p (pure a) post := by
  constructor
  · intro b d given
    obtain ⟨rfl, rfl⟩ := pure_eq_ok_iff.mp given
    exact ⟨p, Nat.le_refl p, before, rfl, holds⟩
  · intro s given
    cases given

/-- An error that may be failed with ends a step. -/
theorem fail {e : Error} (failing : fails e) :
    Proceeds fails c stop p (Scan.fail e : Scan α) post := by
  constructor
  · intro a d given
    cases given
  · intro s given
    obtain rfl := Except.error.inj given
    exact failing

/-- A step proceeds from where the step before it stopped. -/
theorem bind {f : α → Scan β} {post' : β → Nat → Prop} (first : Proceeds fails c stop p x post)
    (next : ∀ a q, p ≤ q → q ≤ stop → post a q → Proceeds fails c stop q (f a) post') :
    Proceeds fails c stop p (x >>= f) post' := by
  constructor
  · intro b d given
    obtain ⟨a, e, read, rest⟩ := bind_eq_ok_iff.mp given
    obtain ⟨q, forward, inside, rfl, here⟩ := first.1 a e read
    obtain ⟨r, forward', inside', rfl, there⟩ := (next a q forward inside here).1 b d rest
    exact ⟨r, Nat.le_trans forward forward', inside', rfl, there⟩
  · intro s given
    cases read : x (.on c stop p) with
    | error s' =>
        obtain rfl := Except.error.inj ((bind_of_error read).symm.trans given)
        exact first.2 s' read
    | ok r =>
        obtain ⟨q, forward, inside, same, here⟩ := first.1 r.1 r.2 read
        exact (next r.1 q forward inside here).2 s (same ▸ (bind_of_ok read).symm.trans given)

/-- What a step proceeds to has everything that follows from it. -/
theorem mono {post' : α → Nat → Prop} (proceeds : Proceeds fails c stop p x post)
    (weaker : ∀ a q, post a q → post' a q) : Proceeds fails c stop p x post' := by
  refine ⟨fun a d given => ?_, proceeds.2⟩
  obtain ⟨q, forward, inside, same, here⟩ := proceeds.1 a d given
  exact ⟨q, forward, inside, same, weaker a q here⟩

/-- A check fails with an error that may be failed with, or the step after it proceeds. -/
theorem guard {P : Prop} [Decidable P] {e : Error} {stops : α → Scan β} {rest : Scan β}
    {post' : β → Nat → Prop} (failing : P → fails e)
    (passes : ¬P → Proceeds fails c stop p rest post') :
    Proceeds fails c stop p (if P then Scan.fail e >>= stops else rest) post' := by
  split
  · rename_i holds
    exact fail (failing holds)
  · rename_i fits
    exact passes fits

/-- The position is that of the step, and is kept. -/
theorem pos (before : p ≤ stop) : Proceeds fails c stop p Scan.pos fun a q => a = p ∧ p = q := by
  constructor
  · intro a d given
    obtain ⟨rfl, rfl⟩ := pos_eq_ok_iff.mp given
    exact ⟨p, Nat.le_refl p, before, rfl, rfl, rfl⟩
  · intro s given
    cases given

/-- What remains is what is left of the window, and nothing is read. -/
theorem remaining (window : Window c stop) (before : p ≤ stop) :
    Proceeds fails c stop p Scan.remaining fun a q => a = (stop - p : Nat) ∧ p = q := by
  constructor
  · intro a d given
    obtain ⟨rfl, rfl⟩ := remaining_eq_ok_iff.mp given
    exact ⟨p, Nat.le_refl p, before, rfl, remaining_on window before, rfl⟩
  · intro s given
    cases given

/-- An outcome proceeds to its value, or is an error that may be failed with. -/
theorem ofExcept {x : Except Error α} {each : α → Prop} (before : p ≤ stop)
    (yields : Yields fails x each) :
    Proceeds fails c stop p (Scan.ofExcept x) fun a q => each a ∧ p = q := by
  cases x with
  | error e => exact fail (yields.2 e rfl)
  | ok a => exact pure before ⟨yields.1 a rfl, rfl⟩

/-- Items that are read one after another. -/
theorem times {item : Scan α} {each : α → Prop} {n : Nat}
    (itemProceeds : ∀ q, p ≤ q → q ≤ stop → Proceeds fails c stop q item fun a _ => each a)
    (before : p ≤ stop) :
    Proceeds fails c stop p (Scan.times n item) fun as _ => ∀ a ∈ as, each a := by
  have onto : ∀ n done q, p ≤ q → q ≤ stop → (∀ a ∈ done, each a) →
      Proceeds fails c stop q (timesOnto item done n) fun as _ => ∀ a ∈ as, each a := by
    intro n
    induction n with
    | zero =>
        exact fun done q forward inside held =>
          pure inside fun a member => held a (List.mem_reverse.mp member)
    | succ n inductionHypothesis =>
        intro done q forward inside held
        have step : timesOnto item done (n + 1) = item >>= fun a =>
            timesOnto item (a :: done) n := by
          funext d
          rw [timesOnto]
          simp only [Bind.bind, StateT.bind, Except.bind]
          split <;> rename_i given <;> rw [given]
        rw [step]
        exact (itemProceeds q forward inside).bind fun a r forward' inside' here =>
          inductionHypothesis _ r (Nat.le_trans forward forward') inside'
            (List.forall_mem_cons.mpr ⟨here, held⟩)
  exact onto n [] p (Nat.le_refl p) before fun a member => absurd member List.not_mem_nil

section Window

variable (window : Window c stop) (short : ∀ d, fails (.shortage d))
include window short

/-- A number is read in a window that has room for it, or the shortage is an error that may be
failed with. -/
theorem number {width : Nat} (narrow : width ≤ 8) (before : p ≤ stop) :
    Proceeds fails c stop p (lift (Decoder.number width)) fun n q =>
      c.number? width p = some n ∧ q = p + width := by
  constructor
  · intro n d given
    obtain ⟨read, inside, rfl⟩ := (number_eq_ok_iff window narrow before).mp given
    exact ⟨p + width, Nat.le_add_right p width, inside, rfl, read, rfl⟩
  · intro s given
    have inside := window.inside
    rw [lift, Decoder.number, Decoder.need_on window before (by omega)] at given
    by_cases fits : p + width ≤ stop
    · have held : c.number? width p = some (ofBigEndian (c.segment p (p + width))) :=
        Cursor.number?_eq_some_iff.mpr ⟨by omega, rfl⟩
      simp [Decoder.on, fits, held] at given
    · simp only [fits, ↓reduceIte, Decoder.fail, Decoder.on, Option.none_or,
        Except.error.injEq] at given
      exact given ▸ short _

/-- A byte is read, or the shortage is an error that may be failed with. -/
theorem u1 (before : p ≤ stop) :
    Proceeds fails c stop p Scan.u1 fun n q => c.u1? p = some n ∧ q = p + 1 :=
  number window short (by decide) before

/-- Two bytes are read, or the shortage is an error that may be failed with. -/
theorem u2 (before : p ≤ stop) :
    Proceeds fails c stop p Scan.u2 fun n q => c.u2? p = some n ∧ q = p + 2 :=
  number window short (by decide) before

/-- Four bytes are read, or the shortage is an error that may be failed with. -/
theorem u4 (before : p ≤ stop) :
    Proceeds fails c stop p Scan.u4 fun n q => c.u4? p = some n ∧ q = p + 4 :=
  number window short (by decide) before

/-- Bytes are skipped, or the shortage is an error that may be failed with. -/
theorem skip {n : Nat} (small : n < 0x4000000000000000) (before : p ≤ stop) :
    Proceeds fails c stop p (Scan.skip n) fun _ q => q = p + n := by
  constructor
  · intro u d given
    obtain ⟨inside, rfl⟩ := (skip_eq_ok_iff window before small).mp given
    exact ⟨p + n, Nat.le_add_right p n, inside, rfl, rfl⟩
  · intro s given
    rw [Scan.skip, lift, Decoder.skip, Decoder.need_on window before small] at given
    by_cases fits : p + n ≤ stop
    · simp [Decoder.on, fits] at given
    · simp only [fits, ↓reduceIte, Decoder.fail, Decoder.on, Option.none_or,
        Except.error.injEq] at given
      exact given ▸ short _

/-- Bytes are taken, or the shortage is an error that may be failed with. -/
theorem bytes {n : Nat} (small : n < 0x4000000000000000) (before : p ≤ stop) :
    Proceeds fails c stop p (Scan.bytes n) fun _ q => q = p + n := by
  have inside := window.inside
  constructor
  · intro b d given
    obtain ⟨inside', -, rfl⟩ := (bytes_eq_ok_iff window before small).mp given
    exact ⟨p + n, Nat.le_add_right p n, inside', rfl, rfl⟩
  · intro s given
    rw [Scan.bytes, Decoder.bytes, Decoder.need_on window before small] at given
    by_cases fits : p + n ≤ stop
    · have held : c.slice? p n = some (c.segment p (p + n)) :=
        Cursor.slice?_eq_some_iff.mpr ⟨by omega, rfl⟩
      simp [Decoder.on, fits, held, lift] at given
    · simp only [fits, ↓reduceIte, Decoder.fail, Decoder.on, Option.none_or, lift,
        Except.error.injEq] at given
      exact given ▸ short _

end Window

end Proceeds

/-- A step that never leaves its window, wherever in it it starts, with `post` for what it gives. -/
def Stays (fails : Error → Prop) (c : Cursor) (stop : Nat) (x : Scan α) (post : α → Prop) : Prop :=
  ∀ p, p ≤ stop → Proceeds fails c stop p x fun a _ => post a

namespace Stays

variable {x : Scan α} {post : α → Prop}

theorem pure {a : α} (holds : post a) : Stays fails c stop (pure a) post :=
  fun _ before => .pure before holds

/-- An error that may be failed with stays anywhere. -/
theorem fail {e : Error} (failing : fails e) : Stays fails c stop (Scan.fail e : Scan α) post :=
  fun _ _ => .fail failing

/-- One step after another stays inside a window if either does. -/
theorem bind {f : α → Scan β} {post' : β → Prop} (first : Stays fails c stop x post)
    (next : ∀ a, post a → Stays fails c stop (f a) post') : Stays fails c stop (x >>= f) post' :=
  fun p before => (first p before).bind fun a q _ inside here => next a here q inside

/-- What stays inside a window may be changed afterwards. -/
theorem map {f : α → β} {post' : β → Prop} (stays : Stays fails c stop x fun a => post' (f a)) :
    Stays fails c stop (f <$> x) post' := by
  have same : f <$> x = x >>= fun a => Pure.pure (f a) := (bind_pure_comp f x).symm
  rw [same]
  exact stays.bind fun _ here => pure here

/-- What stays inside a window has everything that follows from what it gives. -/
theorem mono {post' : α → Prop} (stays : Stays fails c stop x post)
    (weaker : ∀ a, post a → post' a) : Stays fails c stop x post' :=
  fun p before => (stays p before).mono fun a _ here => weaker a here

/-- What is known of a step that reads inside its window holds of what it gives. -/
theorem strengthen {post' : α → Prop} (stays : Stays fails c stop x post)
    (known : ∀ p, p ≤ stop → ∀ a d, x (.on c stop p) = .ok (a, d) → post' a) :
    Stays fails c stop x post' := fun p before => by
  refine ⟨fun a d given => ?_, (stays p before).2⟩
  obtain ⟨q, forward, inside, same, -⟩ := (stays p before).1 a d given
  exact ⟨q, forward, inside, same, known p before a d given⟩

/-- A check before a step that stays inside a window stays there. -/
theorem guard {P : Prop} [Decidable P] {e : Error} {stops : α → Scan β} {rest : Scan β}
    {post' : β → Prop} (failing : P → fails e) (passes : ¬P → Stays fails c stop rest post') :
    Stays fails c stop (if P then Scan.fail e >>= stops else rest) post' :=
  fun p before => .guard failing fun fits => passes fits p before

/-- Either of two steps that stay inside a window stays there. -/
theorem ite {P : Prop} [Decidable P] {y : Scan α} (first : P → Stays fails c stop x post)
    (second : ¬P → Stays fails c stop y post) : Stays fails c stop (if P then x else y) post := by
  split
  · rename_i holds
    exact first holds
  · rename_i differs
    exact second differs

/-- Looking at the position stays inside a window. -/
theorem pos : Stays fails c stop Scan.pos fun _ => True := fun _ before =>
  (Proceeds.pos before).mono fun _ _ _ => trivial

/-- Looking at what remains stays inside a window. -/
theorem remaining : Stays fails c stop Scan.remaining fun _ => True := fun p before =>
  ⟨fun _ _ given => ⟨p, Nat.le_refl p, before, (remaining_eq_ok_iff.mp given).2, trivial⟩, nofun⟩

/-- An outcome stays inside a window if it is a value or an error that may be failed with. -/
theorem ofExcept {x : Except Error α} (yields : Yields fails x post) :
    Stays fails c stop (Scan.ofExcept x) post :=
  fun _ before => (Proceeds.ofExcept before yields).mono fun _ _ here => here.1

/-- A number of items stay inside a window if each does. -/
theorem times {item : Scan α} {n : Nat} (stays : Stays fails c stop item post) :
    Stays fails c stop (Scan.times n item) fun as => ∀ a ∈ as, post a := fun _ before =>
  Proceeds.times (fun q _ inside => stays q inside) before

section Window

variable (window : Window c stop) (short : ∀ d, fails (.shortage d))
include window short

/-- Reading a byte stays inside a window. -/
theorem u1 : Stays fails c stop Scan.u1 fun _ => True := fun _ before =>
  (Proceeds.u1 window short before).mono fun _ _ _ => trivial

/-- Reading two bytes stays inside a window, and gives less than 65536. -/
theorem u2 : Stays fails c stop Scan.u2 fun n => n < 65536 := fun _ before =>
  (Proceeds.u2 window short before).mono fun _ _ read => Cursor.u2_lt read.1

/-- Reading four bytes stays inside a window, and gives less than two to the power of 32. -/
theorem u4 : Stays fails c stop Scan.u4 fun n => n < 4294967296 := fun _ before =>
  (Proceeds.u4 window short before).mono fun _ _ read => Cursor.u4_lt read.1

/-- Skipping bytes stays inside a window. -/
theorem skip {n : Nat} (small : n < 4294967296) :
    Stays fails c stop (Scan.skip n) fun _ => True := fun _ before =>
  (Proceeds.skip window short (by omega) before).mono fun _ _ _ => trivial

/-- All that is left is there to be read. -/
theorem rest {f : Bytes → Scan β} {post' : β → Prop}
    (next : ∀ b, Stays fails c stop (f b) post') :
    Stays fails c stop (Scan.remaining >>= fun n => Scan.bytes n >>= f) post' := fun _ before =>
  (Proceeds.remaining window before).bind fun _ _ _ inside left => by
    have small := window.lt
    rw [left.1]
    exact (Proceeds.bytes window short (by omega) inside).bind fun b q _ inside _ => next b q inside

/-- A counted list stays inside a window if its items do. -/
theorem counted {item : Scan α} (stays : Stays fails c stop item post) :
    Stays fails c stop (Scan.counted item) fun as => ∀ a ∈ as, post a :=
  (u2 window short).bind fun _ _ => stays.times

end Window

end Stays

end JvmClass.Scan
