import JvmClass.Script.Transform

/-!
# Steps of scripts

A script is a list of steps on a class, and steps hold lists of steps on the members
and bodies that they make. Steps and transforms are nested in each other, so both are
read with fuel, of which the depth of the data is always enough.
-/

namespace JvmClass

namespace Libraries

variable (libs : Libraries)

/-- A field of a library. -/
def fieldModel (k i : Data) : Except Error FieldModel := do
  match (← libs.get (← k.int)).fields[← i.nat]? with
  | some f => return .input f
  | none => Data.unexpected "field"

/-- A method of a library. -/
def methodModel (k i : Data) : Except Error MethodModel := do
  match (← libs.get (← k.int)).methods[← i.nat]? with
  | some m => return .input m
  | none => Data.unexpected "method"

/-- The body of a method of a library. -/
def codeModel (k i : Data) : Except Error CodeModel := do
  match ← (← libs.methodModel k i).code with
  | some c => return c
  | none => throw .outOfBounds

end Libraries

namespace Script

/-- A step on a body that makes no use of other steps or of transforms. -/
def plainCodeStep (libs : Libraries) (o : CodeOutlet Journal) (d : Data) :
    Step CodeDraft Unit := do
  let s (i : Nat) : Step CodeDraft Text := Step.read (d.item i).string
  let n (i : Nat) : Step CodeDraft Int := Step.read (d.item i).int
  let op : Step CodeDraft Opcode := Step.read (d.item 1).opcode
  let k : Step CodeDraft Kind := Step.read (d.item 1).kind
  let owner : Step CodeDraft ClassEntry := do
    match ← libs.class_ (d.item 2) with
    | some c => return c
    | none => throw .outOfBounds
  let instruction (i : Instruction) : Step CodeDraft Unit :=
    Step.draft (CodeOutlet.instruction o i)
  match ← Step.read (d.item 0).name with
  | "with" =>
    let e ← libs.codeElement? (d.item 1)
    Step.draft (o.emit? e)
  | "bind" =>
    let l ← Step.label (d.item 1)
    Step.draft (CodeOutlet.bindLabel o l)
  | "load" =>
    let slot ← Step.slot (d.item 2)
    Step.draft (CodeOutlet.load o (← k) slot)
  | "store" =>
    let slot ← Step.slot (d.item 2)
    Step.draft (CodeOutlet.store o (← k) slot)
  | "iinc" =>
    let slot ← Step.slot (d.item 1)
    Step.draft (CodeOutlet.increment o slot (← n 2))
  | "branch" =>
    let l ← Step.label (d.item 2)
    Step.draft (CodeOutlet.branch o (← op) l)
  | "goto" =>
    let l ← Step.label (d.item 1)
    Step.draft (CodeOutlet.branch o Opcode.goto l)
  | "return" => Step.draft (CodeOutlet.return_ o (← k))
  | "op" => Step.draft (CodeOutlet.plain o (← op))
  | "field" =>
    let owner ← owner
    Step.draft (CodeOutlet.field o (← op) owner (← s 3) (← s 4))
  | "invoke" =>
    let owner ← owner
    let ofInterface ← Step.read (d.item 5).truth
    Step.draft (CodeOutlet.invoke o (← op) owner (← s 3) (← s 4) ofInterface)
  | "indy" => instruction (.invokeDynamic (← libs.entryAs Entry.callSite? (d.item 1)))
  | "new" => instruction (.newObject (← libs.class_ (d.item 1)))
  | "newarray" => Step.draft (CodeOutlet.newPrimitiveArray o (← k))
  | "anewarray" => instruction (.newReferenceArray (← libs.class_ (d.item 1)))
  | "multi" =>
    let c ← libs.class_ (d.item 1)
    Step.draft (CodeOutlet.newMultiArray o c (← n 2))
  | "checkcast" => instruction (.typeCheck Opcode.checkcast (← libs.class_ (d.item 1)))
  | "instanceof" => instruction (.typeCheck Opcode.instanceof (← libs.class_ (d.item 1)))
  | "int" => Step.draft (CodeOutlet.constantInt o (signed 32 (← n 1)))
  | "ldc" =>
    let e ← libs.entryAs Entry.loadable? (d.item 1)
    Step.draft (CodeOutlet.constant o e)
  | "str" => Step.draft (CodeOutlet.constantString o (← s 1))
  | "catch" =>
    let c ← libs.handler d
    Step.draft (o.emit (.handler c))
  | "local" =>
    let slot ← Step.slot (d.item 1)
    let start ← Step.label (d.item 4)
    let stop ← Step.label (d.item 5)
    Step.draft (CodeOutlet.localVariable o slot (← s 2) (← s 3) start stop)
  | "line" => Step.draft (o.emit (.line (← n 1)))
  | "alloc" =>
    let slot ← Step.draft (CodeM.allocateLocal (← k))
    Step.log "alloc" [.number slot]
    if let .text name := d.item 2 then
      modify fun scope => { scope with slots := scope.slots.insert name slot }
  | "receiver" => Step.log "receiver" [.number (← Step.draft CodeM.receiverSlot)]
  | "param" =>
    let i ← n 1
    Step.log "param" [.number (← Step.draft (CodeM.parameterSlot i))]
  | "pool" => Step.log "pool" [← Step.intern (poolSteps libs (d.item 1))]
  | "info" => Step.log "code" [.bool (← getThe CodeDraft).source.isSome]
  | "err" => Step.logError
  | "fail" => throw (.raised (← s 1))
  | _ => Step.read (Data.unexpected "code step")

/-- The steps of a repetition, over and over. -/
def repeating {δ : Type} (step : Data → Step δ Unit) (d : Data) : Step δ Unit := do
  let steps ← Step.read (d.item 2).items
  for _ in [0:← Step.read (d.item 1).nat] do
    steps.forM step

mutual

/-- A step on a body. -/
def codeStep (libs : Libraries) (fuel : Nat) (o : CodeOutlet Journal) (d : Data) :
    Step CodeDraft Unit := do
  match fuel with
  | 0 => throw tooDeep
  | fuel + 1 =>
    match ← Step.read (d.item 0).name with
    | "replay" =>
      let c ← Step.read (libs.codeModel (d.item 1) (d.item 2))
      let t ← Step.keep (codeTransform libs fuel (d.item 3))
      Step.draft (CodeOutlet.replay o c t)
    | "repeat" => repeating (codeStep libs fuel o) d
    | _ => plainCodeStep libs o d

/-- A transform of bodies. -/
def codeTransform (libs : Libraries) (fuel : Nat) (d : Data) :
    StateM Journal (Made CodeDraft CodeElement) :=
  match fuel with
  | 0 => return none
  | fuel + 1 =>
    TransformOps.make {
      kind := CodeElement.kind
      step := codeStep libs fuel
      rename := Renaming.codeTransform
      inner := codeTransform libs fuel
      special := fun name d => do
        match name with
        | "shift" =>
          let i := (← get).shifters.size
          let fixed := orDefault (d.item 1).int
          modify fun j => { j with shifters := j.shifters.push (.start fixed) }
          return some (LocalsShifter.transform (Journal.shifter i))
        | "tracker" =>
          let i := (← get).trackers.size
          let kinds := orDefault (d.item 1).kinds
          modify fun j => { j with trackers := j.trackers.push (.start kinds) }
          return some (StackTracker.transform (Journal.tracker i))
        | _ => return none } d

end

mutual

/-- A step on a field. -/
def fieldStep (libs : Libraries) (fuel : Nat) (o : FieldOutlet Journal) (d : Data) :
    Step FieldDraft Unit := do
  match fuel with
  | 0 => throw tooDeep
  | fuel + 1 =>
    match ← Step.read (d.item 0).name with
    | "flags" => Step.draft (o.emit (.flags (← Step.read (d.item 1).flags)))
    | "attr" =>
      let a ← libs.attributeOf (d.item 1)
      Step.draft (o.emit (.attribute a))
    | "nil" => Step.draft (o.emit? none)
    | "transform" =>
      let f ← Step.read (libs.fieldModel (d.item 1) (d.item 2))
      let t ← Step.keep (fieldTransform libs fuel (d.item 3))
      Step.draft (FieldOutlet.replay o f t)
    | "info" =>
      let f ← getThe FieldDraft
      Step.log "field" [.text f.name.text, .text f.descriptor.text, .bool f.source.isSome]
    | "err" => Step.logError
    | "fail" => throw (.raised (← Step.read (d.item 1).string))
    | _ => Step.read (Data.unexpected "field step")

/-- A transform of fields. -/
def fieldTransform (libs : Libraries) (fuel : Nat) (d : Data) :
    StateM Journal (Made FieldDraft FieldElement) :=
  match fuel with
  | 0 => return none
  | fuel + 1 =>
    TransformOps.make {
      kind := FieldElement.kind
      step := fieldStep libs fuel
      rename := Renaming.fieldTransform
      inner := fieldTransform libs fuel
      special := fun _ _ => return none } d

end

mutual

/-- A step on a method. -/
def methodStep (libs : Libraries) (fuel : Nat) (o : MethodOutlet Journal) (d : Data) :
    Step MethodDraft Unit := do
  match fuel with
  | 0 => throw tooDeep
  | fuel + 1 =>
    match ← Step.read (d.item 0).name with
    | "flags" => Step.draft (o.emit (.flags (← Step.read (d.item 1).flags)))
    | "code" =>
      let steps ← Step.read (d.item 1).items
      Step.draft (MethodOutlet.code o fun co => runSteps (codeStep libs fuel co) steps)
    | "attr" =>
      let a ← libs.attributeOf (d.item 1)
      Step.draft (o.emit (.attribute a))
    | "nil" => Step.draft (o.emit? none)
    | "addcode" =>
      let m ← Step.read (libs.methodModel (d.item 1) (d.item 2))
      let es ← Step.read m.elements
      Step.draft (o.emit? (es.find? fun e => e.code?.isSome))
    | "xcode" =>
      let c ← Step.read (libs.codeModel (d.item 1) (d.item 2))
      let t ← Step.keep (codeTransform libs fuel (d.item 3))
      Step.draft (MethodOutlet.transformCode o c t)
    | "transform" =>
      let m ← Step.read (libs.methodModel (d.item 1) (d.item 2))
      let t ← Step.keep (methodTransform libs fuel (d.item 3))
      Step.draft (MethodOutlet.replay o m t)
    | "info" =>
      let m ← getThe MethodDraft
      Step.log "method"
        [.text m.name.text, .text m.descriptor.text, Outline.flags m.flags, .bool m.source.isSome]
    | "err" => Step.logError
    | "fail" => throw (.raised (← Step.read (d.item 1).string))
    | _ => Step.read (Data.unexpected "method step")

/-- A transform of methods. -/
def methodTransform (libs : Libraries) (fuel : Nat) (d : Data) :
    StateM Journal (Made MethodDraft MethodElement) :=
  match fuel with
  | 0 => return none
  | fuel + 1 =>
    TransformOps.make {
      kind := MethodElement.kind
      step := methodStep libs fuel
      rename := Renaming.methodTransform
      inner := methodTransform libs fuel
      special := fun name d => do
        match name with
        | "code" => return some (MethodTransform.code (← codeTransform libs fuel (d.item 1)))
        | "shift" => return some MethodTransform.shiftingLocals
        | _ => return none } d

end

mutual

/-- A step on a class. -/
def classStep (libs : Libraries) (fuel : Nat) (o : ClassOutlet Journal) (d : Data) :
    Step ClassDraft Unit := do
  match fuel with
  | 0 => throw tooDeep
  | fuel + 1 =>
    let s (i : Nat) : Step ClassDraft Text := Step.read (d.item i).string
    let n (i : Nat) : Step ClassDraft Int := Step.read (d.item i).int
    match ← Step.read (d.item 0).name with
    | "flags" => Step.draft (o.emit (.flags (← Step.read (d.item 1).flags)))
    | "version" => Step.draft (o.emit (.version (← n 1) (← n 2)))
    | "super" =>
      let c ← libs.class_ (d.item 1)
      Step.draft (o.emit (.superclass c))
    | "interfaces" =>
      let cs ← Step.each (d.item 1) libs.class_
      Step.draft (o.emit (.interfaces cs))
    | "field" =>
      let steps ← Step.read (d.item 4).items
      let flags ← Step.read (d.item 3).flags
      Step.draft (ClassOutlet.field o (← s 1) (← s 2) flags fun fo =>
        runSteps (fieldStep libs fuel fo) steps)
    | "method" =>
      let steps ← Step.read (d.item 4).items
      let flags ← Step.read (d.item 3).flags
      Step.draft (ClassOutlet.method o (← s 1) (← s 2) flags fun mo =>
        runSteps (methodStep libs fuel mo) steps)
    | "attr" =>
      let a ← libs.attributeOf (d.item 1)
      Step.draft (o.emit (.attribute a))
    | "nil" => Step.draft (o.emit? none)
    | "addfield" =>
      let f ← Step.read (libs.fieldModel (d.item 1) (d.item 2))
      Step.draft (o.emit (.field f))
    | "addmethod" =>
      let m ← Step.read (libs.methodModel (d.item 1) (d.item 2))
      Step.draft (o.emit (.method m))
    | "xfield" =>
      let f ← Step.read (libs.fieldModel (d.item 1) (d.item 2))
      let t ← Step.keep (fieldTransform libs fuel (d.item 3))
      Step.draft (ClassOutlet.transformField o f t)
    | "xmethod" =>
      let m ← Step.read (libs.methodModel (d.item 1) (d.item 2))
      let t ← Step.keep (methodTransform libs fuel (d.item 3))
      Step.draft (ClassOutlet.transformMethod o m t)
    | "transform" =>
      let c ← Step.read (libs.get (← n 1))
      let t ← Step.keep (classTransform libs fuel (d.item 2))
      Step.draft (ClassOutlet.replay o c t)
    | "pool" => Step.log "pool" [← Step.intern (poolSteps libs (d.item 1))]
    | "repeat" => repeating (classStep libs fuel o) d
    | "info" =>
      let c ← getThe ClassDraft
      Step.log "class" [.text c.this.internalName, .bool c.source.isSome]
    | "err" => Step.logError
    | "fail" => throw (.raised (← s 1))
    | _ => Step.read (Data.unexpected "class step")

/-- A transform of classes. -/
def classTransform (libs : Libraries) (fuel : Nat) (d : Data) :
    StateM Journal (Made ClassDraft ClassElement) :=
  match fuel with
  | 0 => return none
  | fuel + 1 =>
    TransformOps.make {
      kind := ClassElement.kind
      step := classStep libs fuel
      rename := Renaming.classTransform
      inner := classTransform libs fuel
      special := fun name d => do
        let named (n : Utf8Entry) : Bool :=
          (d.item 1).isNull || n.text = orDefault (d.item 1).string
        match name with
        | "methods" =>
          return some (ClassTransform.methods (fun m => named m.name)
            (← methodTransform libs fuel (d.item 2)))
        | "fields" =>
          return some (ClassTransform.fields (fun f => named f.name)
            (← fieldTransform libs fuel (d.item 2)))
        | "bodies" =>
          return some (ClassTransform.bodies (fun m => named m.name)
            (← codeTransform libs fuel (d.item 2)))
        | "inspect" =>
          return some (.ofAccept fun o e => do
            if let some e := Error.abortAmong? (Outline.memberErrors e) then throw e
            if let some row := Outline.member? e then keeping (Journal.write row)
            forward o e)
        | _ => return none } d

end

end Script

end JvmClass
