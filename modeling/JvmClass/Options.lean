/-!
# Options

A set of switches that a class is read and rebuilt with, held as the bits of one
word so that sets combine by union.
-/

namespace JvmClass

/-- A set of options. -/
structure Options where
  bits : UInt32
deriving DecidableEq, Repr, Inhabited

namespace Options

/-- No option. -/
def none : Options := ⟨0⟩

/-- Leaves out line numbers and both local variable tables of code bodies. -/
def dropDebugInfo : Options := ⟨1⟩

/-- Leaves out line numbers only. -/
def dropLineNumbers : Options := ⟨2⟩

/-- Leaves out attributes without a known layout. -/
def dropUnknownAttributes : Options := ⟨4⟩

/-- Leaves out stack maps. -/
def dropStackMaps : Options := ⟨8⟩

/-- Builds with a fresh constant pool, so that nothing is copied verbatim. -/
def noPoolSharing : Options := ⟨16⟩

/-- Writes the declared stack depth of a body instead of the computed one. -/
def keepMaxStack : Options := ⟨32⟩

/-- The options of either set. -/
def union (a b : Options) : Options := ⟨a.bits ||| b.bits⟩

/-- Whether every option of `b` is in `a`. -/
def has (a b : Options) : Bool := a.bits &&& b.bits == b.bits

/-- Whether the two sets have an option in common. -/
def meets (a b : Options) : Bool := a.bits &&& b.bits != 0

/-- The options under which line numbers are left out. -/
def dropsLineNumbers (o : Options) : Bool := o.meets (dropDebugInfo.union dropLineNumbers)

/-- The options that change what a body is rebuilt to. -/
def altering : Options :=
  (dropDebugInfo.union dropLineNumbers).union (dropStackMaps.union dropUnknownAttributes)

/-- Whether members and bodies may be copied verbatim. -/
def copiesVerbatim (o : Options) : Bool := !o.meets altering

end Options

end JvmClass
