import JvmClass.Text.Quoted
import JvmClass.Opcode
import JvmClass.Constant.Tag

/-!
# What can go wrong

Every failure of the library is a cause: input that ends too early, a malformed
class file, a builder that was misused. The wording of a cause is in one function
each; an error found inside another structure keeps the cause that it was found
with, so a caller can ask for any category on the way down.
-/

namespace JvmClass

/-- Input that ends before what was asked of it. -/
inductive Shortage where
  /-- A region that the buffer does not hold. -/
  | region (need offset have_ : Int)
  /-- A window that does not lie in the buffer. -/
  | window (start stop : Int)
  /-- A read past the end of a window. -/
  | pastWindow (need offset stop : Int)
  /-- An attribute that is longer than what holds it. -/
  | attribute (length remaining : Int)
deriving DecidableEq, Repr

/-- The detail of a shortage. -/
def Shortage.text : Shortage → Text
  | .region need offset have_ => s!"need {need} bytes at offset {offset}, have {have_}"
  | .window start stop => s!"window [{start}, {stop}) outside buffer"
  | .pastWindow need offset stop =>
    s!"need {need} bytes at offset {offset}, window ends at {stop}"
  | .attribute length remaining =>
    s!"attribute length {length} exceeds remaining {remaining} bytes"

/-- A text that is no descriptor. -/
inductive DescriptorError where
  | field (text : Text)
  /-- A method descriptor that does not start with its parameter list. -/
  | method (text : Text)
  | parameter (text : Text) (offset : Nat)
  | unterminated (text : Text)
  | result (text : Text)
deriving DecidableEq, Repr

/-- The wording of a descriptor error. -/
def DescriptorError.message : DescriptorError → Text
  | .field s => "invalid descriptor: field descriptor " ++ s.quoted
  | .method s => "invalid descriptor: method descriptor " ++ s.quoted
  | .parameter s i => "invalid descriptor: method descriptor " ++ s.quoted ++ s!" at {i}"
  | .unterminated s => "invalid descriptor: method descriptor " ++ s.quoted ++ " is unterminated"
  | .result s => "invalid descriptor: method descriptor " ++ s.quoted ++ " has a bad return type"

/-- What a signature lacks. -/
inductive SignatureProblem where
  | trailing
  | expected (c : Char)
  | identifier
  | reference
  | noTypeParameters
  | noTypeArguments
deriving DecidableEq, Repr

/-- A text that is no signature, with the offset at which reading stopped. -/
structure SignatureError where
  text : Text
  offset : Nat
  problem : SignatureProblem
deriving DecidableEq, Repr

/-- The wording of a signature problem. -/
def SignatureProblem.message : SignatureProblem → Text
  | .trailing => "trailing characters"
  | .expected c => "expected " ++ Text.quotedByte (Text.byte c)
  | .identifier => "expected identifier"
  | .reference => "expected reference type"
  | .noTypeParameters => "empty type parameter list"
  | .noTypeArguments => "empty type argument list"

/-- The wording of a signature error. -/
def SignatureError.message (e : SignatureError) : Text :=
  "invalid signature: " ++ e.text.quoted ++ s!" at {e.offset}: " ++ e.problem.message

/-- What is wrong at an offset of a class file. -/
inductive Flaw where
  | tooShort (size : Nat)
  | badMagic (word : Nat)
  | emptyPool
  | poolTruncated (index : Nat)
  | noSecondSlot (tag : Tag) (index : Nat)
  | unknownTag (byte : Nat) (index : Nat)
  | truncatedStructure
  | trailing (count : Int)
  | notAnEntry (index : Int) (size : Nat)
  | selfReference (index : Nat)
  | reference (index : Int)
  | utf8 (index : Nat)
  | handleTarget (index : Nat) (kind : HandleKind) (target : Tag)
  | bootstrapOf (index : Nat)
  | bootstrapRange (row : Int) (count : Nat)
  | bootstrapTable
  | bootstrapTrailing (count : Int)
  | nesting (limit : Nat)
  | attributeLength (name : Text) (length remaining : Int)
  | attributeTable
  | attribute (name : Text)
  | attributeTrailing (count : Int) (name : Text)
  | constantValue (tag : Tag)
  | elementTag (byte : UInt8)
  | annotationTarget (byte : UInt8)
  | codeLength (length : Nat)
  | exceptionRange (start stop handler length : Nat)
  | codeAttributeTable
  | targetBoundary (offset : Nat)
  | lineBoundary (offset : Nat)
  | lineTable (rows length : Nat)
  | lineOffset (offset length : Nat)
  | localTable (name : Text) (rows length : Nat)
  | localRange (start stop length : Nat)
  | branch (offset : Nat) (target : Int) (length : Nat)
  | pastCode (op : Opcode) (offset : Nat)
  | widened (op : Opcode)
  | opcode (byte : UInt8) (offset : Nat)
  | loads (op : Opcode) (tag : Tag)
  | invokes (op : Opcode) (tag : Tag)
  | arrayCode (code : Nat)
  | tableBounds (low high : Int)
  | lookupPairs (count : Int)
  | reservedFrame (kind : Nat)
  | chopFrame (removed present : Nat)
  | frameOffset (offset length : Nat)
  | uninitialized (offset length : Nat)
  | verificationType (tag : Nat)
  | methodDescriptor
deriving DecidableEq, Repr

/-- The wording of a flaw. -/
def Flaw.text : Flaw → Text
  | .tooShort n => s!"{n} bytes is too short for a classfile header"
  | .badMagic w => "bad magic 0x" ++ Text.hexUpper 8 w
  | .emptyPool => "constant_pool_count is 0"
  | .poolTruncated i => s!"constant pool truncated at entry #{i}"
  | .noSecondSlot t i => t.name ++ s!" entry #{i} has no second slot"
  | .unknownTag b i => s!"unknown constant pool tag {b} at entry #{i}"
  | .truncatedStructure => "truncated class structure"
  | .trailing n => s!"{n} trailing bytes after class attributes"
  | .notAnEntry i n => s!"constant pool index {i} is not an entry (pool size {n})"
  | .selfReference i => s!"constant pool entry #{i} refers to itself"
  | .reference i => s!"reference to #{i}"
  | .utf8 i => s!"Utf8 entry #{i}"
  | .handleTarget i k t =>
    s!"method handle #{i} of kind {k.byte.toNat} refers to " ++ t.name
  | .bootstrapOf i => s!"bootstrap method of entry #{i}"
  | .bootstrapRange i n => s!"bootstrap method index {i} out of range ({n} methods)"
  | .bootstrapTable => "BootstrapMethods attribute"
  | .bootstrapTrailing n => s!"{n} trailing bytes in BootstrapMethods attribute"
  | .nesting n => s!"nesting deeper than {n}"
  | .attributeLength name n r =>
    "attribute " ++ name ++ s!" length {n} exceeds remaining {r} bytes"
  | .attributeTable => "attribute table"
  | .attribute name => "attribute " ++ name
  | .attributeTrailing n name => s!"{n} trailing bytes in attribute " ++ name
  | .constantValue t => "ConstantValue of kind " ++ t.name
  | .elementTag b => "unknown element_value tag " ++ Text.quotedByte b
  | .annotationTarget b => "unknown type annotation target 0x" ++ Text.hexUpper 2 b.toNat
  | .codeLength n => s!"code length {n}"
  | .exceptionRange s e h n =>
    s!"exception range [{s}, {e}) handler {h} in code of length {n}"
  | .codeAttributeTable => "code attribute table"
  | .targetBoundary o => s!"offset {o} is referenced but is not an instruction boundary"
  | .lineBoundary o => s!"line number at offset {o} is not an instruction boundary"
  | .lineTable n l => s!"LineNumberTable of {n} rows has length {l}"
  | .lineOffset o n => s!"line number offset {o} beyond code length {n}"
  | .localTable name n l => name ++ s!" of {n} rows has length {l}"
  | .localRange s e n => s!"local variable range [{s}, {e}) beyond code length {n}"
  | .branch o t n => s!"branch at {o} to {t} outside code of length {n}"
  | .pastCode op o => op.name ++ s!" at {o} runs past the end of the code"
  | .widened op => "wide cannot modify " ++ op.name
  | .opcode b o => "unknown opcode 0x" ++ Text.hexUpper 2 b.toNat ++ s!" at {o}"
  | .loads op t => op.name ++ " cannot load " ++ t.name
  | .invokes op t => op.name ++ " of " ++ t.name
  | .arrayCode n => s!"newarray of unknown type code {n}"
  | .tableBounds l h => s!"tableswitch bounds [{l}, {h}]"
  | .lookupPairs n => s!"lookupswitch with {n} pairs"
  | .reservedFrame k => s!"reserved frame type {k}"
  | .chopFrame k n => s!"chop frame removes {k} of {n} locals"
  | .frameOffset o n => s!"frame at offset {o} beyond code length {n}"
  | .uninitialized o n => s!"uninitialized value created at {o} beyond code length {n}"
  | .verificationType t => s!"unknown verification type {t}"
  | .methodDescriptor => "bad method descriptor"

/-- The parts of a class that elements belong to. -/
inductive Level where
  | «class»
  | field
  | method
  | code
deriving DecidableEq, Repr

/-- The word for a level. -/
def Level.name : Level → String
  | .class => "class"
  | .field => "field"
  | .method => "method"
  | .code => "code"

/-- A request that a builder cannot honour. -/
inductive Misuse where
  | missingElement (level : Level)
  | missingAttribute
  | missingReference
  | missingAnnotationValue
  | unknownAnnotationValue
  | missingTransform
  | missingConstant
  | missingTarget (op : Opcode)
  | bindsMissingLabel
  | boundTwice
  /-- A label that nothing binds, or none at all. -/
  | unresolvedLabel (missing : Bool)
  | duplicateAttribute (name : Text)
  | stackUnknown
  | poolOverflow
  | utf8Length (length : Nat)
  | primitiveClass (descriptor : Text)
  | handleTarget (kind : HandleKind) (target : Tag)
  | notAnEntry (index : Int) (size : Nat)
  | bootstrapRange (row : Int) (count : Nat)
  | table (rows : Nat)
  | attributeLength (name : Text) (length : Nat)
  | constantValue (holds : Text)
  | methodParameters (count : Nat)
  | annotatedParameters (count : Nat)
  | typePath (length : Nat)
  | stackMapOutsideCode
  | framesAt (offset : Nat)
  | slot (slot : Int)
  | increment (slot delta : Int)
  | duplicateCase (value : Int)
  | tableBounds (low high : Int)
  | interfaceCall (target : Text) (problem : DescriptorError)
  | arrayOf (kind : Kind)
  | encodes (what : Text) (op : Opcode)
  | bytePush (value : Int)
  | shortPush (value : Int)
  | notConstant (op : Opcode)
  | branchOffset (delta : Int) (offset : Nat)
  | emptyBody
  | bodyLength (length : Nat)
  | catchRange (start stop : Nat)
  | localRange (name : Text) (start stop : Nat)
  | emptyClassName
  | noLoad (kind : Kind)
  | noStore (kind : Kind)
  | noReturn (kind : Kind)
  | notBranch (op : Opcode)
  | takesOperands (op : Opcode)
  | notField (op : Opcode)
  | notInvoke (op : Opcode)
  | dimensions (count : Int)
  | staticReceiver
  | parameter (index : Int) (count : Nat)
  | allocates (kind : Kind)
  | methodDescriptor (name : Text) (problem : DescriptorError)
  | members (fields methods : Nat)
  | voidLocal
deriving DecidableEq, Repr

/-- The wording of a misuse. -/
def Misuse.text : Misuse → Text
  | .missingElement l => s!"nil {l.name} element"
  | .missingAttribute => "nil attribute"
  | .missingReference => "missing constant pool reference"
  | .missingAnnotationValue => "nil annotation value"
  | .unknownAnnotationValue => "annotation value <nil>"
  | .missingTransform => "nil transform"
  | .missingConstant => "ldc of nil entry"
  | .missingTarget op => op.name ++ " without a target"
  | .bindsMissingLabel => "binding a nil label"
  | .boundTwice => "label bound twice"
  | .unresolvedLabel missing =>
    if missing then "unresolved label: nil label" else "unresolved label"
  | .duplicateAttribute name => "duplicate attribute: " ++ name
  | .stackUnknown => "max stack cannot be computed"
  | .poolOverflow => "constant pool overflow"
  | .utf8Length n => s!"string of {n} bytes does not fit a Utf8 entry"
  | .primitiveClass d => "no class entry for primitive descriptor " ++ d
  | .handleTarget k t => "method handle kind " ++ k.name ++ " cannot refer to " ++ t.name
  | .notAnEntry i n => s!"constant pool index {i} is not an entry (pool size {n})"
  | .bootstrapRange i n => s!"bootstrap method index {i} out of range ({n} methods)"
  | .table n => s!"table of {n} entries"
  | .attributeLength name n =>
    "attribute " ++ name ++ s!": value does not fit its field: region length {n}"
  | .constantValue holds => "ConstantValue cannot hold " ++ holds
  | .methodParameters n => s!"{n} method parameters"
  | .annotatedParameters n => s!"{n} annotated parameters"
  | .typePath n => s!"type path of {n} bytes"
  | .stackMapOutsideCode => "StackMapTable outside a code body"
  | .framesAt o => s!"two stack map frames at offset {o}"
  | .slot s => s!"local slot {s} out of range"
  | .increment s d => s!"iinc {s} by {d} out of range"
  | .duplicateCase v => s!"lookupswitch has duplicate case {v}"
  | .tableBounds l h => s!"tableswitch low {l} above high {h}"
  | .interfaceCall target problem => "invokeinterface " ++ target ++ ": " ++ problem.message
  | .arrayOf k => "newarray of " ++ k.name
  | .encodes what op => "cannot encode " ++ what ++ " " ++ op.name
  | .bytePush v => s!"bipush {v} out of range"
  | .shortPush v => s!"sipush {v} out of range"
  | .notConstant op => op.name ++ " is not a constant instruction"
  | .branchOffset d o => s!"branch offset {d} at {o} does not fit 16 bits"
  | .emptyBody => "empty code body"
  | .bodyLength n => s!"code body of {n} bytes"
  | .catchRange s e => s!"exception range [{s}, {e}) is reversed"
  | .localRange name s e => "local variable " ++ name ++ s!" range [{s}, {e}) is reversed"
  | .emptyClassName => "empty class name"
  | .noLoad k => "no load instruction for " ++ k.name
  | .noStore k => "no store instruction for " ++ k.name
  | .noReturn k => "no return instruction for " ++ k.name
  | .notBranch op => op.name ++ " is not a branch"
  | .takesOperands op => op.name ++ " takes operands"
  | .notField op => op.name ++ " is not a field instruction"
  | .notInvoke op => op.name ++ " is not an invoke instruction"
  | .dimensions n => s!"multianewarray of {n} dimensions"
  | .staticReceiver => "static method has no receiver"
  | .parameter i n => s!"parameter {i} of {n}"
  | .allocates k => "cannot allocate a local of kind " ++ k.name
  | .methodDescriptor name problem => "method " ++ name ++ ": " ++ problem.message
  | .members f m => s!"{f} fields and {m} methods"
  | .voidLocal => "local of kind void"

/-- The lookup that a search for the bootstrap table begins with. -/
inductive TableSearch where
  | constant (index : Nat)
  /-- The table itself or a row of it. -/
  | table
deriving DecidableEq, Repr

/-- A failure of the library. -/
inductive Error where
  | shortage (detail : Shortage)
  /-- A length that its field cannot hold. -/
  | overflow (length : Int)
  | descriptor (problem : DescriptorError)
  | signature (problem : SignatureError)
  /-- Bytes that are no modified UTF-8. -/
  | encoding
  /-- A constant of another kind than was asked for; the index and tag are known
  where the constant was looked up by index. -/
  | wrongKind (found : Option (Int × Tag))
  /-- Malformed input at an offset, and what was found there if that is an error
  of its own. -/
  | malformed (offset : Int) (flaw : Flaw) (cause : Option Error)
  | misuse (problem : Misuse)
  /-- A read outside the buffer, which no checked caller makes. -/
  | outOfBounds
  /-- A lookup that is the first to search an input for its bootstrap table, where the
  first one counts. Whatever made the lookup starts over with that search done. -/
  | unsettled (input : Nat) (search : TableSearch)
  /-- An error that a caller raised; the library passes it on unchanged. -/
  | raised (text : Text)
deriving Repr, Inhabited

namespace Error

/-- Malformed input without a further cause. -/
def flaw (offset : Int) (f : Flaw) : Error := .malformed offset f none

/-- The complete wording of an error. -/
def message : Error → Text
  | .shortage d => "unexpected end of data: " ++ d.text
  | .overflow n => s!"value does not fit its field: region length {n}"
  | .descriptor p => p.message
  | .signature p => p.message
  | .encoding => "invalid modified UTF-8"
  | .wrongKind none => "constant pool entry has the wrong kind"
  | .wrongKind (some (i, t)) =>
    s!"constant pool entry has the wrong kind: #{i} is {t.name}, want *reflect.rtype"
  | .malformed o f none => s!"malformed classfile at offset {o}: " ++ f.text
  | .malformed o f (some cause) =>
    s!"malformed classfile at offset {o}: " ++ f.text ++ ": " ++ cause.message
  | .misuse p => "builder misuse: " ++ p.text
  | .outOfBounds => "index out of range"
  | .unsettled .. => "bootstrap table not searched for"
  | .raised s => s

/-- What callers tell errors apart by. -/
inductive Category where
  | malformed
  | wrongKind
  | misuse
  | unresolvedLabel
  | duplicateAttribute
  | stackUnknown
  | poolOverflow
  | shortage
  | overflow
  | descriptor
  | signature
  | raised
deriving DecidableEq, Repr

/-- The categories of a misuse beside misuse itself. -/
def misuseCategory? : Misuse → Option Category
  | .unresolvedLabel _ => some .unresolvedLabel
  | .duplicateAttribute _ => some .duplicateAttribute
  | .stackUnknown => some .stackUnknown
  | .poolOverflow => some .poolOverflow
  | _ => none

/-- Whether an error, or one that caused it, falls into a category. -/
def isA (c : Category) : Error → Bool
  | .shortage _ => c = .shortage
  | .overflow _ => c = .overflow
  | .descriptor _ => c = .descriptor
  | .signature _ => c = .signature
  | .encoding | .outOfBounds | .unsettled .. => false
  | .wrongKind _ => c = .wrongKind
  | .malformed _ _ none => c = .malformed
  | .malformed _ _ (some cause) => c = .malformed || cause.isA c
  | .misuse p => c = .misuse || misuseCategory? p = some c
  | .raised _ => c = .raised

/-- The offset of malformed input. -/
def offset? : Error → Option Int
  | .malformed o _ _ => some o
  | _ => none

/-- The innermost cause, if it says that what was going on cannot go on as it is. No caller
keeps such an error to itself. -/
def abort? : Error → Option Error
  | .malformed _ _ (some cause) => cause.abort?
  | .outOfBounds => some .outOfBounds
  | .unsettled n s => some (.unsettled n s)
  | _ => none

/-- The first among errors that cannot be kept back, as it was met. -/
def abortAmong? (es : List Error) : Option Error := es.findSome? abort?

/-- The search that has to be done first, and in which input, if an error asks for one. -/
def search? (e : Error) : Option (Nat × TableSearch) :=
  match e.abort? with
  | some (.unsettled n s) => some (n, s)
  | _ => none

/-- Whether a constant lacks its bootstrap row, on the way to the innermost cause. -/
def lacksRow : Error → Bool
  | .malformed _ (.bootstrapOf _) _ => true
  | .malformed _ _ (some cause) => cause.lacksRow
  | _ => false

/-- The error that is kept when another arrives: the first, unless only the second cannot
be kept back. -/
def first : Option Error → Error → Error
  | none, e => e
  | some kept, e => if kept.abort?.isSome then kept else e.abort?.getD kept

end Error

end JvmClass
