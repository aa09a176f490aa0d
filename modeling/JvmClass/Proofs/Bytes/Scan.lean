import JvmClass.Bytes.Scan
import JvmClass.Proofs.Bytes.Cursor

/-!
# Reading inside a window

A decoder that has met no error stands at a position of a window. Inside a window of an
addressable buffer positions never wrap around, so a step reads what the cursor holds there
and moves on by as many bytes as it has read.
-/

namespace JvmClass

/-- The low sixty-four bits of a small number are the number. -/
theorem signed_of_lt {n : Int} (nonnegative : 0 ≤ n) (small : n < 0x8000000000000000) :
    signed 64 n = n := by
  have modulus : Nat.pow 2 64 = 18446744073709551616 := by decide
  rw [signed, modulus]
  exact Int.bmod_eq_of_le_mul_two (by omega) (by omega)

/-- The decoder that stands at `p` of a window that ends at `stop`. -/
def Decoder.on (c : Cursor) (stop p : Nat) : Decoder :=
  { cursor := c, pos := p, stop, error := none }

/-- A window of an addressable buffer. -/
structure Window (c : Cursor) (stop : Nat) : Prop where
  inside : stop ≤ c.size
  addressable : c.Addressable

/-- A window ends where a machine word can say. -/
theorem Window.lt {c : Cursor} {stop : Nat} (window : Window c stop) :
    stop < 0x4000000000000000 := Nat.lt_of_le_of_lt window.inside window.addressable

/-- Positions a little past the window do not wrap around. -/
theorem Window.signed_add {c : Cursor} {stop p n : Nat} (window : Window c stop)
    (before : p ≤ stop) (short : n < 0x4000000000000000) : signed 64 ((p : Int) + n) = p + n := by
  have small := window.lt
  exact signed_of_lt (by omega) (by omega)

/-- The whole of a buffer is a window. -/
theorem Window.ofSize {c : Cursor} (addressable : c.Addressable) : Window c c.size :=
  ⟨Nat.le_refl _, addressable⟩

/-- Whether there are `n` more bytes in a window. -/
theorem Decoder.need_on {c : Cursor} {stop p n : Nat} (window : Window c stop)
    (before : p ≤ stop) (short : n < 0x4000000000000000) :
    (Decoder.on c stop p).need n =
      if p + n ≤ stop then (true, .on c stop p)
      else (false, (Decoder.on c stop p).fail (.shortage (.pastWindow n p stop))) := by
  have wraps : signed 64 ((Decoder.on c stop p).pos + (n : Int)) = ((p + n : Nat) : Int) :=
    window.signed_add before short
  rw [Decoder.need, wraps]
  by_cases fits : p + n ≤ stop
  · have enough : ¬((stop : Int) < (p : Int) + n) := by omega
    simp [Decoder.on, fits, enough]
  · have lacking : (stop : Int) < (p : Int) + n := by omega
    simp [Decoder.on, fits, lacking]

namespace Scan

variable {α β : Type} {c : Cursor} {stop : Nat}

/-- Returning gives its value and leaves the decoder. -/
theorem pure_eq_ok_iff {a b : α} {d d' : Decoder} :
    (pure a : Scan α) d = .ok (b, d') ↔ b = a ∧ d' = d := by
  change Except.ok (a, d) = Except.ok (b, d') ↔ _
  rw [Except.ok.injEq, Prod.mk.injEq]
  grind

/-- Nothing follows a step that stops. -/
theorem bind_of_error {x : Scan α} {f : α → Scan β} {d : Decoder} {s : Stop}
    (stops : x d = .error s) : (x >>= f) d = .error s := by
  simp only [bind, StateT.bind, Except.bind, stops]

/-- What follows a step is what comes next from where that left off. -/
theorem bind_of_ok {x : Scan α} {f : α → Scan β} {d d' : Decoder} {a : α}
    (reads : x d = .ok (a, d')) : (x >>= f) d = f a d' := by
  simp only [bind, StateT.bind, Except.bind, reads]

/-- Two steps give something where the first gives something that the second goes on from. -/
theorem bind_eq_ok_iff {x : Scan α} {f : α → Scan β} {d d' : Decoder} {b : β} :
    (x >>= f) d = .ok (b, d') ↔ ∃ a e, x d = .ok (a, e) ∧ f a e = .ok (b, d') := by
  simp only [bind, StateT.bind, Except.bind]
  cases x d with
  | error s => simp
  | ok r =>
      simp only [Except.ok.injEq]
      constructor
      · intro reads
        exact ⟨r.1, r.2, rfl, reads⟩
      · rintro ⟨a, e, rfl, reads⟩
        exact reads

/-- Failing gives nothing. -/
@[simp] theorem fail_ne_ok {e : Error} {d : Decoder} {r : α × Decoder} :
    (fail e : Scan α) d ≠ .ok r := by
  simp [fail]

/-- Asking for the position gives it and leaves the decoder. -/
theorem pos_eq_ok_iff {d d' : Decoder} {p : Int} :
    pos d = .ok (p, d') ↔ p = d.pos ∧ d' = d := by
  simp only [pos, Except.ok.injEq, Prod.mk.injEq]
  grind

/-- Asking for what remains gives it and leaves the decoder. -/
theorem remaining_eq_ok_iff {d d' : Decoder} {n : Int} :
    remaining d = .ok (n, d') ↔ n = d.remaining ∧ d' = d := by
  simp only [remaining, Except.ok.injEq, Prod.mk.injEq]
  grind

/-- An outcome gives its value, if it has one, and leaves the decoder. -/
theorem ofExcept_eq_ok_iff {x : Except Error α} {d d' : Decoder} {a : α} :
    ofExcept x d = .ok (a, d') ↔ x = .ok a ∧ d' = d := by
  cases x with
  | error e => simp [ofExcept]
  | ok b =>
      rw [ofExcept, pure_eq_ok_iff]
      grind

/-- A check passes where its condition for stopping does not hold. -/
theorem guard_eq_ok_iff {p : Prop} [Decidable p] {e : Error} {stops : α → Scan β} {rest : Scan β}
    {d : Decoder} {r : β × Decoder} :
    (if p then fail e >>= stops else rest) d = .ok r ↔ ¬p ∧ rest d = .ok r := by
  split
  · simp_all [bind, StateT.bind, Except.bind, fail]
  · simp_all

/-- The items that a step reads one after another. -/
inductive Reads (item : Scan α) : Decoder → List α → Decoder → Prop
  | done (d : Decoder) : Reads item d [] d
  | next {d e d' : Decoder} {a : α} {rest : List α} (first : item d = .ok (a, e))
      (others : Reads item e rest d') : Reads item d (a :: rest) d'

/-- Items after some that were read are read one after another, and are put behind those. -/
theorem timesOnto_eq_ok_iff {item : Scan α} {done : List α} {n : Nat} {d d' : Decoder}
    {as : List α} :
    timesOnto item done n d = .ok (as, d') ↔
      ∃ rest, as = done.reverse ++ rest ∧ rest.length = n ∧ Reads item d rest d' := by
  induction n generalizing done d with
  | zero =>
      rw [timesOnto, pure_eq_ok_iff]
      constructor
      · rintro ⟨rfl, rfl⟩
        exact ⟨[], by simp, rfl, .done _⟩
      · rintro ⟨rest, rfl, length, reads⟩
        obtain rfl := List.length_eq_zero_iff.mp length
        cases reads
        simp
  | succ n inductionHypothesis =>
      simp only [timesOnto]
      split
      · rename_i a e first
        rw [inductionHypothesis]
        constructor
        · rintro ⟨rest, rfl, length, reads⟩
          exact ⟨a :: rest, by simp, by simp [length], .next first reads⟩
        · rintro ⟨rest, rfl, length, reads⟩
          cases reads with
          | done => simp at length
          | next first' others =>
              rw [first] at first'
              cases first'
              exact ⟨_, by simp, by simpa using length, others⟩
      · rename_i s stops
        simp only [reduceCtorEq, false_iff]
        rintro ⟨rest, rfl, length, reads⟩
        cases reads with
        | done => simp at length
        | next first others =>
            rw [stops] at first
            cases first

/-- A number of items is read one after another. -/
theorem times_eq_ok_iff {item : Scan α} {n : Nat} {d d' : Decoder} {as : List α} :
    times n item d = .ok (as, d') ↔ as.length = n ∧ Reads item d as d' := by
  rw [times, timesOnto_eq_ok_iff]
  simp

section Window

variable (window : Window c stop)
include window

/-- A number is read where the cursor holds one before the end of the window. -/
theorem number_eq_ok_iff {width p n : Nat} {d : Decoder} (narrow : width ≤ 8) (before : p ≤ stop) :
    lift (Decoder.number width) (.on c stop p) = .ok (n, d) ↔
      c.number? width p = some n ∧ p + width ≤ stop ∧ d = .on c stop (p + width) := by
  have inside := window.inside
  rw [lift, Decoder.number, Decoder.need_on window before (by omega)]
  by_cases fits : p + width ≤ stop
  · have held : c.number? width p = some (ofBigEndian (c.segment p (p + width))) :=
      Cursor.number?_eq_some_iff.mpr ⟨by omega, rfl⟩
    simp only [Decoder.on, fits, ↓reduceIte, held, Except.ok.injEq,
      Prod.mk.injEq, Option.some.injEq, true_and, Int.natCast_add]
    grind
  · simp [fits, Decoder.fail, Decoder.on]

/-- A byte is read where it lies in the window. -/
theorem u1_eq_ok_iff {p n : Nat} {d : Decoder} (before : p ≤ stop) :
    u1 (.on c stop p) = .ok (n, d) ↔
      c.u1? p = some n ∧ p + 1 ≤ stop ∧ d = .on c stop (p + 1) :=
  number_eq_ok_iff window (by decide) before

/-- Two bytes are read where they lie in the window. -/
theorem u2_eq_ok_iff {p n : Nat} {d : Decoder} (before : p ≤ stop) :
    u2 (.on c stop p) = .ok (n, d) ↔
      c.u2? p = some n ∧ p + 2 ≤ stop ∧ d = .on c stop (p + 2) :=
  number_eq_ok_iff window (by decide) before

/-- Four bytes are read where they lie in the window. -/
theorem u4_eq_ok_iff {p n : Nat} {d : Decoder} (before : p ≤ stop) :
    u4 (.on c stop p) = .ok (n, d) ↔
      c.u4? p = some n ∧ p + 4 ≤ stop ∧ d = .on c stop (p + 4) :=
  number_eq_ok_iff window (by decide) before

/-- Bytes are skipped where they lie in the window. -/
theorem skip_eq_ok_iff {p n : Nat} {d : Decoder} {u : Unit} (before : p ≤ stop)
    (short : n < 0x4000000000000000) :
    skip n (.on c stop p) = .ok (u, d) ↔ p + n ≤ stop ∧ d = .on c stop (p + n) := by
  have wraps := window.signed_add before short
  rw [skip, lift, Decoder.skip, Decoder.need_on window before short]
  by_cases fits : p + n ≤ stop
  · simp only [Decoder.on, fits, ↓reduceIte, wraps, Except.ok.injEq, Prod.mk.injEq, true_and,
      Int.natCast_add]
    grind
  · simp [fits, Decoder.fail, Decoder.on]

/-- Bytes are taken where they lie in the window. -/
theorem bytes_eq_ok_iff {p n : Nat} {d : Decoder} {b : Bytes} (before : p ≤ stop)
    (short : n < 0x4000000000000000) :
    bytes n (.on c stop p) = .ok (b, d) ↔
      p + n ≤ stop ∧ b = c.segment p (p + n) ∧ d = .on c stop (p + n) := by
  have inside := window.inside
  have wraps := window.signed_add before short
  rw [bytes, Decoder.bytes, Decoder.need_on window before short]
  by_cases fits : p + n ≤ stop
  · have held : c.slice? p n = some (c.segment p (p + n)) :=
      Cursor.slice?_eq_some_iff.mpr ⟨by omega, rfl⟩
    simp only [Decoder.on, fits, ↓reduceIte, wraps, held, Option.map_some, lift, Except.ok.injEq,
      Prod.mk.injEq, true_and, Int.natCast_add]
    grind
  · simp [fits, Decoder.fail, Decoder.on, lift]

/-- What remains is what lies between the position and the end of the window. -/
theorem remaining_on {p : Nat} (before : p ≤ stop) :
    (Decoder.on c stop p).remaining = ((stop - p : Nat) : Int) := by
  have small := window.lt
  have difference : (stop : Int) - p = ((stop - p : Nat) : Int) := by omega
  simp only [Decoder.remaining, Decoder.on, difference]
  exact signed_of_lt (by omega) (by omega)

/-- A window of the buffer is read from its start. -/
theorem onWindow_eq {p : Nat} (ordered : p ≤ stop) (step : Scan α) :
    onWindow c p stop step = step (.on c stop p) := by
  have inside := window.inside
  have whole : ¬(c.size : Int) < stop := by omega
  have start : ¬(p : Int) < 0 := by omega
  have order : ¬(stop : Int) < p := by omega
  simp only [onWindow, Decoder.ofWindow, Decoder.on, whole, start, order, decide_false,
    Bool.or_self, Bool.false_eq_true, ↓reduceIte]

end Window

end Scan

end JvmClass
