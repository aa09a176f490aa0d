import JvmClass.Proofs.Caller.Contract
import JvmClass.Proofs.Caller.Taking
import JvmClass.Proofs.Constant.HashConsing

/-!
# Programs of callers

A handler or a transform can be anything that uses what the library offers: it looks around, keeps
values of its own, asks the pool for constants, emits elements, has others walked through further
transforms or filled in by further handlers, and may return an error at any point, all of it
depending on everything it has seen. Programs are what callers can be in that sense. While a
program runs, a diary is kept of the calls it makes, the errors that stand after each of them, and
the errors it returns. No program sees the diary.
-/

namespace JvmClass.Caller

open PoolBuilder (Answer Call)

/-- What a diary tells of. -/
inductive Event where
  /-- A call is about to be made, with constants that are handed over and constants that are asked
  for, while the pool is as it is. -/
  | called (handed : List Entry) (asked : List Call) (pool : PoolBuilder)
  /-- The errors of the session and the pool after a call. -/
  | met (session pool : Option Error)
  /-- An error is returned, while those of the session and the pool are as they are. -/
  | raised (e : Error) (session pool : Option Error)

abbrev Diary := List Event

/-- The errors that an event tells of. -/
def Event.errors : Event → List Error
  | .called .. => []
  | .met session pool => session.toList ++ pool.toList
  | .raised e session pool => session.toList ++ pool.toList ++ [e]

/-- The errors that a diary tells of. -/
def Diary.errors (diary : Diary) : List Error := diary.flatMap Event.errors

/-- The constants that go into a call were made by the pool or another one. -/
def Event.Genuine : Event → Prop
  | .called handed asked pool => (∀ e ∈ handed, e.Genuine pool) ∧ ∀ c ∈ asked, c.Genuine pool
  | .met .. | .raised .. => True

/-- All constants that go into calls were made by the pool or another one. -/
def Diary.Genuine (diary : Diary) : Prop := ∀ event ∈ diary, event.Genuine

variable {σ δ ε μ κ ρ α : Type}

/-- Writes an event into the diary. -/
def record (event : Event) : Build (σ × Diary) Unit :=
  Build.onUser (modify fun (kept, diary) => (kept, diary ++ [event]))

/-- Writes into the diary what stands in the session. -/
def recordWith (event : Session (σ × Diary) → Event) : Build (σ × Diary) Unit := do
  record (event (← get))

/-- A call to the library, with what goes into it before it in the diary and the errors after. -/
def observed (handed : List Entry) (asked : List Call) (act : Drafting (σ × Diary) δ α) :
    ExceptT Error (Drafting (σ × Diary) δ) α := ExceptT.lift do
  Drafting.session (recordWith fun s => .called handed asked s.pool)
  let a ← act
  Drafting.session (recordWith fun s => .met s.error s.pool.error)
  return a

mutual

/-- What a caller does with something under construction. It can emit elements, have models walked
through a transform, and perform what else that kind of draft offers. -/
inductive Program (σ δ ε μ κ ρ : Type) where
  | stop
  /-- Goes on depending on what is kept, the session and the draft. -/
  | look (next : Session σ → δ → Program σ δ ε μ κ ρ)
  | keep (value : σ) (next : Program σ δ ε μ κ ρ)
  | ask (c : Call) (next : Answer → Program σ δ ε μ κ ρ)
  /-- Counts the bootstrap rows. -/
  | count (next : Nat → Program σ δ ε μ κ ρ)
  /-- Returns an error. -/
  | raise (e : Error)
  | emit (e : Option ε) (next : Program σ δ ε μ κ ρ)
  | replay (source : μ) (t : Recipe σ δ ε μ κ ρ) (next : Program σ δ ε μ κ ρ)
  | perform (act : κ) (next : ρ → Program σ δ ε μ κ ρ)

/-- How a transform is put together from programs. -/
inductive Recipe (σ δ ε μ κ ρ : Type) where
  /-- No transform where there should be one. -/
  | missing
  | leaf (accept : ε → Program σ δ ε μ κ ρ) (atEnd : Program σ δ ε μ κ ρ)
  | chain (first second : Recipe σ δ ε μ κ ρ)
  | fresh (make : σ → Recipe σ δ ε μ κ ρ) (prepare : σ → σ)

end

/-- How what a program asks for is carried out, and what goes into it. -/
structure Site (τ δ ε μ κ ρ : Type) where
  replay : Outlet τ δ ε → μ → Option (Transform τ δ ε) → Drafting τ δ Unit
  perform : Outlet τ δ ε → κ → Drafting τ δ ρ
  handed : κ → List Entry
  asked : κ → List Call

section Run

variable [Draft δ ε] [Draft.Mentions δ] (site : Site (σ × Diary) δ ε μ κ ρ)

mutual

/-- Runs a program that emits to an outlet. -/
def Program.run : Program σ δ ε μ κ ρ → Outlet (σ × Diary) δ ε →
    ExceptT Error (Drafting (σ × Diary) δ) Unit
  | .stop, _ => return
  | .look next, o => do
    let s ← ExceptT.lift (Drafting.session get)
    let d ← ExceptT.lift get
    (next (s.withUser s.user.1) d).run o
  | .keep value next, o => do
    ExceptT.lift (Drafting.session (Build.onUser (modify fun (_, diary) => (value, diary))))
    next.run o
  | .ask c next, o => do
    let a ← observed [] [c] (Drafting.session (Build.interning c.run))
    (next a).run o
  | .count next, o => do
    let n ← observed [] [] (Drafting.session (Build.interning PoolBuilder.rowCount))
    (next n).run o
  | .raise e, _ => do
    ExceptT.lift (Drafting.session (recordWith fun s => .raised e s.error s.pool.error))
    throw e
  | .emit e next, o => do
    observed (e.toList.flatMap (Draft.Mentions.ofElement δ)) [] (o.emit? e)
    next.run o
  | .replay source t next, o => do
    observed [] [] (site.replay o source t.transform?)
    next.run o
  | .perform act next, o => do
    let r ← observed (site.handed act) (site.asked act) (site.perform o act)
    (next r).run o

/-- The transform of a recipe. What is missing within it cannot be run. -/
def Recipe.transform? : Recipe σ δ ε μ κ ρ → Option (Transform (σ × Diary) δ ε)
  | .missing => none
  | .leaf accept atEnd => some (.leaf (fun o e => (accept e).run o) fun o => atEnd.run o)
  | .chain first second =>
    some (.chain (first.transform?.getD .absent) (second.transform?.getD .absent))
  | .fresh make prepare =>
    some (.fresh (fun (kept, _) => (make kept).transform?.getD .absent)
      fun (kept, diary) => (prepare kept, diary))

end

end Run

/-! ## Programs of the four levels

Bodies, fields, methods and classes offer their callers different things. A method can be given
bodies that other programs fill in or that are transformed, and a class can be given members in the
same ways, so programs of one level are parts of programs of the next.
-/

/-! ## Bodies -/

/-- What a body offers beside emitting and walking through another one. -/
inductive CodeCall where
  | newLabel
  | startLabel
  | endLabel
  | receiverSlot
  | parameterSlot (i : Int)
  | allocateLocal (k : Kind)
  | bindLabel (l : Option Label)
  | load (k : Kind) (slot : Int)
  | store (k : Kind) (slot : Int)
  | increment (slot delta : Int)
  | branch (op : Opcode) (target : Option Label)
  | return_ (k : Kind)
  | plain (op : Opcode)
  | field (op : Opcode) (owner : ClassEntry) (name type : Text)
  | invoke (op : Opcode) (owner : ClassEntry) (name type : Text) (ofInterface : Bool)
  | newPrimitiveArray (k : Kind)
  | newMultiArray (type : Option ClassEntry) (dimensions : Int)
  | constant (e : Option Loadable)
  | constantInt (v : Int)
  | constantString (text : Text)
  | localVariable (slot : Int) (name type : Text) (start stop : Option Label)

/-- What a body answers. -/
inductive CodeReply where
  | done
  | label (l : Label)
  | slot (n : Int)

namespace CodeCall

/-- Carries the call out. -/
def perform (o : CodeOutlet σ) : CodeCall → CodeM σ CodeReply
  | .newLabel => return .label (← CodeM.newLabel)
  | .startLabel => return .label (← CodeM.startLabel)
  | .endLabel => return .label (← CodeM.endLabel)
  | .receiverSlot => return .slot (← CodeM.receiverSlot)
  | .parameterSlot i => return .slot (← CodeM.parameterSlot i)
  | .allocateLocal k => return .slot (← CodeM.allocateLocal k)
  | .bindLabel l => do CodeOutlet.bindLabel o l; return .done
  | .load k slot => do CodeOutlet.load o k slot; return .done
  | .store k slot => do CodeOutlet.store o k slot; return .done
  | .increment slot delta => do CodeOutlet.increment o slot delta; return .done
  | .branch op target => do CodeOutlet.branch o op target; return .done
  | .return_ k => do CodeOutlet.return_ o k; return .done
  | .plain op => do CodeOutlet.plain o op; return .done
  | .field op owner name type => do CodeOutlet.field o op owner name type; return .done
  | .invoke op owner name type ofInterface => do
    CodeOutlet.invoke o op owner name type ofInterface
    return .done
  | .newPrimitiveArray k => do CodeOutlet.newPrimitiveArray o k; return .done
  | .newMultiArray type dimensions => do CodeOutlet.newMultiArray o type dimensions; return .done
  | .constant e => do CodeOutlet.constant o e; return .done
  | .constantInt v => do CodeOutlet.constantInt o v; return .done
  | .constantString text => do CodeOutlet.constantString o text; return .done
  | .localVariable slot name type start stop => do
    CodeOutlet.localVariable o slot name type start stop
    return .done

/-- The constants that are handed over. -/
def handed : CodeCall → List Entry
  | .newMultiArray type _ => ClassEntry.optional type
  | .constant e => Entry.optional (e.map .loadable)
  | _ => []

/-- The constants that are asked for. -/
def asked : CodeCall → List Call
  | .field _ owner name type => [.member .field owner name type]
  | .invoke op owner name type ofInterface =>
    [.member (if ofInterface || op = Opcode.invokeinterface then .interfaceMethod else .method)
      owner name type]
  | .constantInt v => [.integer v]
  | .constantString text => [.string text]
  | _ => []

end CodeCall

abbrev CodeProgram (σ : Type) := Program σ CodeDraft CodeElement CodeModel CodeCall CodeReply

abbrev CodeRecipe (σ : Type) := Recipe σ CodeDraft CodeElement CodeModel CodeCall CodeReply

/-- How a body carries out what a program asks for. -/
def Site.code (σ : Type) : Site σ CodeDraft CodeElement CodeModel CodeCall CodeReply where
  replay o source t := CodeOutlet.replay o source t
  perform := CodeCall.perform
  handed := CodeCall.handed
  asked := CodeCall.asked

/-! ## Fields -/

abbrev FieldProgram (σ : Type) := Program σ FieldDraft FieldElement FieldModel Empty Unit

abbrev FieldRecipe (σ : Type) := Recipe σ FieldDraft FieldElement FieldModel Empty Unit

/-- How a field carries out what a program asks for. -/
def Site.field (σ : Type) : Site σ FieldDraft FieldElement FieldModel Empty Unit where
  replay o source t := FieldOutlet.replay o source t
  perform _ := nofun
  handed := nofun
  asked := nofun

/-! ## Methods -/

/-- What a method offers beside emitting and walking through another one. -/
inductive MethodCall (σ : Type) where
  | code (handler : CodeProgram σ)
  | transformCode (source : CodeModel) (t : CodeRecipe σ)

/-- Carries the call out. -/
def MethodCall.perform (o : MethodOutlet (σ × Diary)) : MethodCall σ → MethodM (σ × Diary) Unit
  | .code handler => MethodOutlet.code o (handler.run (.code _))
  | .transformCode source t => MethodOutlet.transformCode o source (t.transform? (.code _))

abbrev MethodProgram (σ : Type) :=
  Program σ MethodDraft MethodElement MethodModel (MethodCall σ) Unit

abbrev MethodRecipe (σ : Type) :=
  Recipe σ MethodDraft MethodElement MethodModel (MethodCall σ) Unit

/-- How a method carries out what a program asks for. -/
def Site.method (σ : Type) :
    Site (σ × Diary) MethodDraft MethodElement MethodModel (MethodCall σ) Unit where
  replay o source t := MethodOutlet.replay o source t
  perform := MethodCall.perform
  handed _ := []
  asked _ := []

/-! ## Classes -/

/-- What a class offers beside emitting and walking through another one. -/
inductive ClassCall (σ : Type) where
  | field (name descriptor : Text) (flags : AccessFlags) (handler : FieldProgram σ)
  | method (name descriptor : Text) (flags : AccessFlags) (handler : MethodProgram σ)
  | transformField (f : FieldModel) (t : FieldRecipe σ)
  | transformMethod (m : MethodModel) (t : MethodRecipe σ)

namespace ClassCall

/-- Carries the call out. -/
def perform (o : ClassOutlet (σ × Diary)) : ClassCall σ → ClassM (σ × Diary) Unit
  | .field name descriptor flags handler =>
    ClassOutlet.field o name descriptor flags (handler.run (.field _))
  | .method name descriptor flags handler =>
    ClassOutlet.method o name descriptor flags (handler.run (.method σ))
  | .transformField f t => ClassOutlet.transformField o f (t.transform? (.field _))
  | .transformMethod m t => ClassOutlet.transformMethod o m (t.transform? (.method σ))

/-- The constants that are handed over. A member that is transformed passes on its names. -/
def handed : ClassCall σ → List Entry
  | .transformField f _ => [.utf8 f.name, .utf8 f.descriptor]
  | .transformMethod m _ => [.utf8 m.name, .utf8 m.descriptor]
  | .field .. | .method .. => []

end ClassCall

abbrev ClassProgram (σ : Type) :=
  Program σ ClassDraft ClassElement ClassFile (ClassCall σ) Unit

abbrev ClassRecipe (σ : Type) :=
  Recipe σ ClassDraft ClassElement ClassFile (ClassCall σ) Unit

/-- How a class carries out what a program asks for. -/
def Site.class_ (σ : Type) :
    Site (σ × Diary) ClassDraft ClassElement ClassFile (ClassCall σ) Unit where
  replay o source t := ClassOutlet.replay o source t
  perform := ClassCall.perform
  handed := ClassCall.handed
  asked _ := []

end JvmClass.Caller
