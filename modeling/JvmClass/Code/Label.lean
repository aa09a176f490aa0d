import JvmClass.Constant.Entry

/-!
# Labels

A label marks a position of a code body without saying where it is. Labels of a
decoded body are named by the body and the offset they mark; labels that a builder
makes are numbered. Either way two labels are the same label exactly when they are
equal.
-/

namespace JvmClass

/-- A position of a code body. -/
inductive Label where
  /-- An offset in the decoded body that starts at `body` of an input. -/
  | decoded (input : Origin) (body offset : Nat)
  | fresh (number : Nat)
deriving DecidableEq, Hashable, Repr, Inhabited

/-- The offset that a label of a decoded body marks. -/
def Label.offset? : Label → Option Nat
  | .decoded _ _ offset => some offset
  | .fresh _ => none

end JvmClass
