import JvmClass.Build.Body
import JvmClass.Proofs.Bytes.Cursor
import JvmClass.Proofs.Outcome

/-!
# Cells that come out as bytes

Once it is known where labels stand, cells come out as bytes. Distances come out as numbers from
which the labels can be told again.
-/

namespace JvmClass

namespace Cell

variable {stands : Label → Option Nat} {cells front back : List Cell} {text : Bytes}

/-- The number of bytes that some cells take. -/
def widths (cells : List Cell) : Nat := (cells.map width).sum

/-- No cells take no bytes. -/
@[simp] theorem widths_nil : widths [] = 0 := rfl

/-- Cells after others take their bytes together. -/
@[simp] theorem widths_append (front back : List Cell) :
    widths (front ++ back) = widths front + widths back := by
  rw [widths, List.map_append, List.sum_append, widths, widths]

/-- Every byte is a cell of one byte. -/
@[simp] theorem widths_bytes (b : Bytes) : widths (bytes b) = b.length := by
  have ones : (bytes b).map width = List.replicate b.length 1 := by
    rw [bytes, List.map_map, List.eq_replicate_iff]
    exact ⟨List.length_map _, by simp [width]⟩
  rw [widths, ones, List.sum_replicate_nat, Nat.mul_one]

/-- The cells come out as the bytes if labels stand at the offsets that `stands` gives. -/
inductive Resolves (stands : Label → Option Nat) : List Cell → Bytes → Prop
  | nil : Resolves stands [] []
  | byte {b : UInt8} {rest : List Cell} {text : Bytes} (next : Resolves stands rest text) :
    Resolves stands (.byte b :: rest) (b :: text)
  | near {offset n : Nat} {target : Option Label} {rest : List Cell} {text whole : Bytes}
    (there : target.bind stands = some n) (low : -32768 ≤ (n : Int) - offset)
    (high : (n : Int) - offset ≤ 32767) (next : Resolves stands rest text)
    (same : whole = u2 ((n : Int) - offset) ++ text) :
    Resolves stands (.near offset target :: rest) whole
  | far {offset n : Nat} {target : Option Label} {rest : List Cell} {text whole : Bytes}
    (there : target.bind stands = some n) (next : Resolves stands rest text)
    (same : whole = u4 ((n : Int) - offset) ++ text) :
    Resolves stands (.far offset target :: rest) whole

/-- Cells come out as bytes exactly if the first of them come out as the front and the others as the
rest. -/
theorem resolves_append_iff : Resolves stands (front ++ back) text ↔
    ∃ first second, text = first ++ second ∧ Resolves stands front first ∧
      Resolves stands back second := by
  induction front generalizing text with
  | nil =>
      refine ⟨fun resolves => ⟨[], text, rfl, .nil, resolves⟩, ?_⟩
      rintro ⟨_, second, rfl, resolves, resolves'⟩
      cases resolves
      exact resolves'
  | cons cell rest inductionHypothesis =>
      constructor
      · intro resolves
        cases resolves with
        | byte next =>
            obtain ⟨first, second, rfl, here, there⟩ := inductionHypothesis.mp next
            exact ⟨_, second, rfl, .byte here, there⟩
        | near target low high next same =>
            obtain ⟨first, second, rfl, here, there⟩ := inductionHypothesis.mp next
            exact ⟨_, second, by rw [same, List.append_assoc], .near target low high here rfl,
              there⟩
        | far target next same =>
            obtain ⟨first, second, rfl, here, there⟩ := inductionHypothesis.mp next
            exact ⟨_, second, by rw [same, List.append_assoc], .far target here rfl, there⟩
      · rintro ⟨_, second, rfl, resolves, resolves'⟩
        have join {text : Bytes} (next : Resolves stands rest text) :
            Resolves stands (rest ++ back) (text ++ second) :=
          inductionHypothesis.mpr ⟨text, second, rfl, next, resolves'⟩
        cases resolves with
        | byte next => exact .byte (join next)
        | near there low high next same =>
            exact .near there low high (join next) (by rw [same, List.append_assoc])
        | far there next same => exact .far there (join next) (by rw [same, List.append_assoc])

/-- No cells come out as no bytes. -/
theorem resolves_nil_iff : Resolves stands [] text ↔ text = [] :=
  ⟨fun resolves => by cases resolves; rfl, fun same => same ▸ .nil⟩

/-- Plain bytes come out as they are. -/
theorem resolves_bytes_iff {b : Bytes} : Resolves stands (bytes b) text ↔ text = b := by
  induction b generalizing text with
  | nil => exact resolves_nil_iff
  | cons first rest inductionHypothesis =>
      constructor
      · intro resolves
        cases resolves with
        | byte next => rw [inductionHypothesis.mp next]
      · rintro rfl
        exact .byte (inductionHypothesis.mpr rfl)

/-- An opcode and its operands come out as they are. -/
theorem resolves_code_iff {op : Opcode} {operands : Bytes} :
    Resolves stands (code op operands) text ↔ text = op.byte :: operands := resolves_bytes_iff

/-- A near jump comes out exactly if its target stands within reach of sixteen bits, as the
distance. -/
theorem resolves_near_iff {offset : Nat} {target : Option Label} :
    Resolves stands [.near offset target] text ↔ ∃ n : Nat, target.bind stands = some n ∧
      -32768 ≤ (n : Int) - offset ∧ (n : Int) - offset ≤ 32767 ∧
        text = u2 ((n : Int) - offset) := by
  constructor
  · intro resolves
    cases resolves with
    | near there low high next same =>
        rw [resolves_nil_iff.mp next, List.append_nil] at same
        exact ⟨_, there, low, high, same⟩
  · rintro ⟨n, there, low, high, same⟩
    exact .near there low high .nil (same.trans (List.append_nil _).symm)

/-- A far jump comes out exactly if its target stands somewhere, as the distance. -/
theorem resolves_far_iff {offset : Nat} {target : Option Label} :
    Resolves stands [.far offset target] text ↔ ∃ n : Nat, target.bind stands = some n ∧
      text = u4 ((n : Int) - offset) := by
  constructor
  · intro resolves
    cases resolves with
    | far there next same =>
        rw [resolves_nil_iff.mp next, List.append_nil] at same
        exact ⟨_, there, same⟩
  · rintro ⟨n, there, same⟩
    exact .far there .nil (same.trans (List.append_nil _).symm)

/-- Distances take as many bytes as was reckoned with. -/
theorem Resolves.length (resolves : Resolves stands cells text) : text.length = widths cells := by
  induction resolves with
  | nil => rfl
  | byte next inductionHypothesis =>
      rw [List.length_cons, inductionHypothesis, widths, widths, List.map_cons, List.sum_cons,
        width]
      omega
  | near there low high next same inductionHypothesis =>
      rw [same, List.length_append, inductionHypothesis, length_u2, widths, widths, List.map_cons,
        List.sum_cons, width]
  | far there next same inductionHypothesis =>
      rw [same, List.length_append, inductionHypothesis, length_u4, widths, widths, List.map_cons,
        List.sum_cons, width]

end Cell

namespace BodyWriter

variable {w : BodyWriter} {text : Bytes}

/-- Where the labels of a body stand that have been bound. -/
def stands (w : BodyWriter) (l : Label) : Option Nat := w.bound[l]?

/-- A label has an offset exactly if it stands there. -/
theorem offset_eq_ok_iff {l : Option Label} {n : Nat} :
    w.offset l = .ok n ↔ l.bind w.stands = some n := by
  cases l with
  | none => simp [offset]
  | some l =>
      rw [Option.bind_some, stands, offset]
      cases w.bound[l]? <;> simp

/-- A cell that is resolved comes out as its bytes. -/
theorem resolves_of_resolve {cell : Cell} {bytes : Bytes}
    (resolved : cell.resolve w.offset = .ok bytes) : Cell.Resolves w.stands [cell] bytes := by
  cases cell with
  | byte b =>
      obtain rfl := pure_eq_ok_iff.mp resolved
      exact .byte .nil
  | near offset target =>
      obtain ⟨n, there, resolved⟩ := bind_eq_ok_iff.mp resolved
      obtain ⟨inside, rest⟩ := guard_eq_ok_iff.mp resolved
      obtain rfl := pure_eq_ok_iff.mp rest
      simp only [Bool.or_eq_true, decide_eq_true_eq, not_or] at inside
      exact Cell.resolves_near_iff.mpr
        ⟨n, offset_eq_ok_iff.mp there, by omega, by omega, rfl⟩
  | far offset target =>
      obtain ⟨n, there, rest⟩ := bind_eq_ok_iff.mp resolved
      obtain rfl := pure_eq_ok_iff.mp rest
      exact Cell.resolves_far_iff.mpr ⟨n, offset_eq_ok_iff.mp there, rfl⟩

/-- Cells that are resolved one by one come out as all that was resolved. -/
theorem resolves_of_mapM {cells : List Cell} {parts : List Bytes}
    (resolved : cells.mapM (Cell.resolve w.offset) = .ok parts) :
    Cell.Resolves w.stands cells parts.flatten := by
  induction mapM_eq_ok_iff.mp resolved with
  | nil => exact .nil
  | cons first others inductionHypothesis =>
      rw [List.flatten_cons, ← List.singleton_append]
      exact Cell.resolves_append_iff.mpr ⟨_, _, rfl, resolves_of_resolve first,
        inductionHypothesis (mapM_eq_ok_iff.mpr others)⟩

/-- The encoded instructions are what the cells come out as. -/
theorem resolves_of_code (given : w.code = .ok text) :
    Cell.Resolves w.stands w.cells.toList text := by
  obtain ⟨parts, resolved, kept⟩ := bind_eq_ok_iff.mp given
  obtain rfl := pure_eq_ok_iff.mp kept
  exact resolves_of_mapM resolved

end BodyWriter

end JvmClass
