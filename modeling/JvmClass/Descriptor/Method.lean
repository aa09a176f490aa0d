import JvmClass.Descriptor

/-!
# Method descriptors

A method descriptor is the list of its parameter types in parentheses and its
result type, which may be `V` for none. Wide parameters take two local slots.
-/

namespace JvmClass

/-- The types of a method's parameters and result. -/
structure MethodDescriptor where
  params : List Descriptor
  result : Descriptor
deriving DecidableEq, Repr, Inhabited

namespace MethodDescriptor

/-- Reads parameters up to the closing parenthesis. `whole` and `offset` say where
for an error; `done` holds the parameters read, last one first. -/
def readParams (whole : Text) (offset : Nat) (done : List Descriptor) (s : Text) :
    Except DescriptorError (List Descriptor × Text) :=
  match s with
  | [] => .error (.unterminated whole)
  | c :: rest =>
    if c = 41 then .ok (done.reverse, rest)
    else
      match _split : Descriptor.split? (c :: rest) with
      | none => .error (.parameter whole offset)
      | some (field, rest') => readParams whole (offset + field.length) (⟨field⟩ :: done) rest'
termination_by s.length
decreasing_by exact Descriptor.length_lt_of_split? _split

/-- Reads a method descriptor. -/
def parse (s : Text) : Except DescriptorError MethodDescriptor :=
  match s with
  | [] => .error (.method s)
  | c :: rest =>
    if c ≠ 40 then .error (.method s)
    else
      match readParams s 1 [] rest with
      | .error e => .error e
      | .ok (params, result) =>
        if result = Descriptor.void.text then .ok ⟨params, .void⟩
        else
          match Descriptor.split? result with
          | some (_, []) => .ok ⟨params, ⟨result⟩⟩
          | _ => .error (.result s)

/-- The text of a method descriptor. -/
def text (m : MethodDescriptor) : Text :=
  [40] ++ m.params.flatMap (·.text) ++ [41] ++ m.result.text

/-- The local slots of the parameters, without a receiver. -/
def slots (m : MethodDescriptor) : Nat :=
  m.params.foldr (fun p n => p.kind.slots + n) 0

/-- The local slots of the parameters and of the receiver, which a static method
lacks. -/
def width (m : MethodDescriptor) (static : Bool) : Nat := m.slots + if static then 0 else 1

end MethodDescriptor

end JvmClass
