import Mathlib.Data.Nat.Bitwise
import JvmClass.Options

/-!
# Sets of options

A set that has none of some options meets no union of them.
-/

namespace JvmClass.Options

variable {a b c : Options}

/-- Options of two sets together are met where those of either are. -/
theorem meets_union : a.meets (b.union c) = (a.meets b || a.meets c) := by
  have distributes : a.bits &&& (b.bits ||| c.bits) = a.bits &&& b.bits ||| a.bits &&& c.bits := by
    simp [← UInt32.toNat_inj, Nat.and_or_distrib_left]
  rw [Bool.eq_iff_iff]
  simp only [meets, union, distributes, bne_iff_ne, ne_eq, UInt32.or_eq_zero_iff, Bool.or_eq_true]
  rw [Decidable.not_and_iff_not_or_not]

/-- A set meets a single option only if it has it. -/
theorem meets_eq_false {k : Nat} (single : b.bits.toNat = 2 ^ k) (lacks : a.has b = false) :
    a.meets b = false := by
  simp only [has, meets, beq_eq_false_iff_ne, bne_eq_false_iff_eq, ne_eq, ← UInt32.toNat_inj,
    UInt32.toNat_and, single, Nat.and_two_pow] at lacks ⊢
  cases bit : a.bits.toNat.testBit k <;> simp_all

/-- Members and bodies are copied verbatim where nothing is left out. -/
theorem copiesVerbatim_of_lacks (debug : a.has dropDebugInfo = false)
    (lines : a.has dropLineNumbers = false) (unknown : a.has dropUnknownAttributes = false)
    (frames : a.has dropStackMaps = false) : a.copiesVerbatim = true := by
  rw [copiesVerbatim, altering, meets_union, meets_union, meets_union,
    meets_eq_false (k := 0) rfl debug, meets_eq_false (k := 1) rfl lines,
    meets_eq_false (k := 3) rfl frames, meets_eq_false (k := 2) rfl unknown]
  rfl

/-- A set has no options of one that it does not meet. -/
theorem has_eq_false (some_ : b.bits ≠ 0) (apart : a.meets b = false) : a.has b = false := by
  rw [meets, bne_eq_false_iff_eq] at apart
  rw [has, apart, beq_eq_false_iff_ne]
  exact some_.symm

/-- Where members and bodies are copied verbatim, nothing is left out. -/
theorem lacks_of_copiesVerbatim (verbatim : a.copiesVerbatim = true) :
    a.has dropDebugInfo = false ∧ a.dropsLineNumbers = false ∧
      a.has dropUnknownAttributes = false ∧ a.has dropStackMaps = false := by
  rw [copiesVerbatim, Bool.not_eq_true', altering, meets_union, meets_union (b := dropStackMaps),
    Bool.or_eq_false_iff, Bool.or_eq_false_iff] at verbatim
  obtain ⟨lines, frames, unknown⟩ := verbatim
  have debug := lines
  rw [meets_union, Bool.or_eq_false_iff] at debug
  exact ⟨has_eq_false (by decide) debug.1, lines, has_eq_false (by decide) unknown,
    has_eq_false (by decide) frames⟩

end JvmClass.Options
