import JvmClass.Proofs.Build.Callers
import JvmClass.Proofs.Caller.Contract

/-!
# What drafts take

A draft that takes an element mentions afterwards what it mentioned before and what the element
mentions, and refers to nothing else when it writes. The bodies and members of an input that are
copied into a draft one element after another are a case of this.
-/

namespace JvmClass

variable {σ δ ε α β : Type} {known : Entry → Prop}

/-- What holds while the library works on its own: it refers to nothing but `known`. -/
def Contract.library (σ : Type) (known : Entry → Prop) : Contract σ where
  Fine _ := True
  Thrown _ _ := True
  Later s s' := s.Proceeds known s'
  Given _ := known
  Alone _ := False
  refl := .refl
  trans := .trans
  given _ := id
  alone _ := id
  parent := False.elim
  proceeds _ goes := ⟨goes, trivial⟩
  thrown _ _ := trivial
  fail _ := ⟨.fail _, trivial⟩

/-- What is finished after a walk was copied into it. -/
theorem proceeds_copied [Draft δ ε] [Draft.Mentions δ] {source : Traversal ε} {d : δ}
    {finish : δ → Build σ (Except Error β)}
    (given : ∀ e ∈ source.elements, ∀ x ∈ Draft.Mentions.ofElement δ e, known x)
    (mentioned : ∀ x ∈ Draft.Mentions.ofDraft d, known x)
    (finishes : ∀ d' : δ, (∀ x ∈ Draft.Mentions.ofDraft d', known x) →
      (Build.Law.proceeding σ known).Does (finish d')) :
    (Build.Law.proceeding σ known).Does (do
      let (outcome, d) ← (Transform.run source (some .pass) .terminal :
        ExceptT Error (Drafting σ δ) Unit).run.run d
      match outcome with
      | .error e => return .error e
      | .ok () => finish d) := by
  intro s
  have ended := Contract.tries_run_pass (c := .library σ known) (fun e member x mentioned _ =>
    given e member x mentioned) d s trivial ⟨mentioned, False.elim⟩
  rw [bind_apply]
  rcases ran : (Transform.run source (some .pass) .terminal :
    ExceptT Error (Drafting σ δ) Unit).run.run d s with ⟨⟨outcome, d'⟩, s'⟩
  have reached : (Contract.library σ known).Ends s ((outcome, d'), s') := ran ▸ ended
  cases outcome with
  | error e => exact reached.later
  | ok => exact reached.later.trans (finishes d' reached.keeps.given s')

/-! ## Bodies -/

namespace BodyWriter

variable {w w' : BodyWriter}

/-- Using a local leaves what a body mentions. -/
theorem mentions_useLocal (slot : Int) (k : Kind) (w : BodyWriter) :
    (w.useLocal slot k).mentions = w.mentions := by
  rw [useLocal]
  split <;> rfl

/-- An instruction mentions nothing once it is encoded. -/
theorem mentions_instruction {i : Instruction} {p p' : PoolBuilder}
    (put : (w.instruction i).run p = (.ok w', p')) : w'.mentions = w.mentions := by
  rw [instruction, ExceptT.run_bind, bind_apply] at put
  rcases ran : (Cell.ofInstruction w.size i).run p with ⟨_ | cells, q⟩
  · rw [ran] at put
    exact nomatch congrArg Prod.fst put
  · rw [ran] at put
    obtain rfl := Except.ok.inj (congrArg Prod.fst put)
    cases i.localUse? with
    | none => rfl
    | some use => exact mentions_useLocal _ _ w

/-- A body is yet to refer to what it was before and to what the element mentions. -/
theorem mentions_put {options : Options} {e : CodeElement} {p p' : PoolBuilder}
    (put : (w.put options e).run p = (.ok w', p')) {x : Entry} (member : x ∈ w'.mentions) :
    x ∈ w.mentions ∨ x ∈ e.mentions := by
  have ended {w₁ : BodyWriter} (done : (Pure.pure w₁ : ExceptT Error Interning BodyWriter).run p =
      (.ok w', p')) : w₁ = w' := Except.ok.inj (congrArg Prod.fst done)
  cases e with
  | instruction i => exact .inl (mentions_instruction put ▸ member)
  | label l =>
      obtain bound : w.label l = .ok w' := congrArg Prod.fst put
      cases l with
      | none => cases bound
      | some l =>
          simp only [label] at bound
          split at bound
          · cases bound
          · obtain rfl := Except.ok.inj bound
            exact .inl member
  | handler c =>
      obtain rfl := ended put
      simp only [mentions, Array.toList_push, List.flatMap_append, List.flatMap_cons,
        List.flatMap_nil, List.append_nil, List.mem_append, CodeElement.mentions] at member ⊢
      tauto
  | line n =>
      rw [BodyWriter.put] at put
      split at put <;> obtain rfl := ended put <;> exact .inl member
  | localVariable s =>
      obtain rfl := ended put
      split at member
      · exact .inl member
      · have same : (w.variable_ s).mentions = { w with scopes := w.scopes.push s }.mentions := by
          rw [variable_]
          split
          · exact mentions_useLocal ..
          · rfl
        rw [same] at member
        simp only [mentions, Array.toList_push, List.flatMap_append, List.flatMap_cons,
          List.flatMap_nil, List.append_nil, List.mem_append, CodeElement.mentions] at member ⊢
        tauto
  | localVariableType s =>
      rw [BodyWriter.put] at put
      split at put <;> obtain rfl := ended put
      · exact .inl member
      · simp only [mentions, Array.toList_push, List.flatMap_append, List.flatMap_cons,
          List.flatMap_nil, List.append_nil, List.mem_append, CodeElement.mentions] at member ⊢
        tauto
  | «attribute» a =>
      rw [BodyWriter.put] at put
      split at put <;> obtain rfl := ended put
      · exact .inl member
      · simp only [mentions, Array.toList_push, List.flatMap_append, List.flatMap_cons,
          List.flatMap_nil, List.append_nil, List.mem_append, CodeElement.mentions] at member ⊢
        tauto

end BodyWriter

namespace CodeDraft

/-- A body mentions what it did and what the element mentions. -/
theorem mentions_take {e : CodeElement} {d : CodeDraft} {s : Session σ} {x : Entry}
    (member : x ∈ ((take e : CodeM σ Unit) d s).1.2.mentions) :
      x ∈ d.mentions ∨ x ∈ e.mentions := by
  rcases d with ⟨source, parent, frame, start, stop, target⟩
  cases target with
  | collecting elements =>
      simp only [take, mentions, Array.toList_push, List.flatMap_append, List.flatMap_cons,
        List.flatMap_nil, List.append_nil, List.mem_append] at member ⊢
      exact member
  | writing w =>
      rcases ran : Build.interning (w.put s.options e).run s with ⟨_ | w', s'⟩
      · simp only [take, ran, mentions] at member
        exact absurd member List.not_mem_nil
      · simp only [take, ran, mentions] at member ⊢
        have put : (w.put s.options e).run s.pool = (.ok w', s'.pool) :=
          Prod.ext (congrArg (·.1) ran : ((w.put s.options e).run s.pool).1 = _)
            (congrArg (·.2.pool) ran)
        exact BodyWriter.mentions_put put member

instance : Draft.Mentions CodeDraft where
  ofElement := CodeElement.mentions
  ofDraft := mentions
  Whole _ := True
  take given mentioned := ⟨does_take (l := .proceeding Unit _) given _ _,
    fun x member => (mentions_take member).elim (mentioned x) (given x), fun _ _ => trivial⟩

/-- A body whose elements mention nothing but what is known is encoded. -/
theorem proceeds_encode (static : Bool) (descriptor : MethodDescriptor) {source : CodeModel}
    (given : ∀ x ∈ source.mentions, known x) :
    (Build.Law.proceeding σ known).Does (encode static descriptor source) :=
  proceeds_copied (fun e member x mentioned =>
    given x (List.mem_flatMap.mpr ⟨e, member, mentioned⟩))
    (fun _ member => absurd member List.not_mem_nil) fun _ given => does_finish given

end CodeDraft

/-! ## Members -/

namespace FieldDraft

/-- A field that is given an attribute mentions what it did, and what the attribute does. -/
theorem mentions_push {d : FieldDraft} {a : Attribute} {x : Entry}
    (member : x ∈ { d with attributes := d.attributes.push a }.mentions) :
    x ∈ d.mentions ∨ x ∈ a.mentions := by
  simpa [mentions, or_assoc] using member

instance : Draft.Mentions FieldDraft where
  ofElement := FieldElement.mentions
  ofDraft := mentions
  Whole _ := True
  take {known e d s} given mentioned := by
    cases e with
    | flags f => exact ⟨.refl s, mentioned, fun _ _ => trivial⟩
    | «attribute» a =>
        exact ⟨.refl s, fun x member => (mentions_push member).elim (mentioned x) (given x),
          fun _ _ => trivial⟩

end FieldDraft

namespace MethodDraft

/-- Bodies of an input are encoded by a law that nothing but what is known is referred to. -/
theorem encodes_proceeding : Encodes (.proceeding σ known) :=
  fun static descriptor _ given => CodeDraft.proceeds_encode static descriptor given

/-- A method that is given a part mentions what it did, and what the part does. -/
theorem mentions_push {d : MethodDraft} {part : MethodPart} {x : Entry}
    (member : x ∈ { d with parts := d.parts.push part }.mentions) :
    x ∈ d.mentions ∨ x ∈ part.mentions := by
  simpa [mentions, or_assoc] using member

/-- A method that is given the bytes of a body mentions no more than it did. -/
theorem mentions_addEncoded {outcome : Except Error Bytes} {d : MethodDraft} {s : Session σ}
    {x : Entry} (member : x ∈ ((addEncoded outcome : MethodM σ Unit) d s).1.2.mentions) :
    x ∈ d.mentions := by
  cases outcome with
  | error e => exact member
  | ok body => exact (mentions_push member).elim id fun listed => absurd listed List.not_mem_nil

/-- Adding the bytes of a body refers to nothing. -/
theorem proceeds_addEncoded (outcome : Except Error Bytes) (d : MethodDraft) (s : Session σ) :
    s.Proceeds known ((addEncoded outcome : MethodM σ Unit) d s).2 := by
  cases outcome with
  | error e => exact .fail e
  | ok body => exact .refl s

/-- Taking a body that was built refers to nothing but what is known, and adds nothing else to what
the method mentions. -/
theorem takes_code {c : BuiltCode} {d : MethodDraft} {s : Session σ}
    (given : ∀ x ∈ (CodeModel.built c).mentions, known x) (mentioned : ∀ x ∈ d.mentions, known x) :
    s.Proceeds known ((takeCode c : MethodM σ Unit) d s).2 ∧
      ∀ x ∈ ((takeCode c : MethodM σ Unit) d s).1.2.mentions, known x := by
  change s.Proceeds known ((if d.writes then _ else _ : MethodM σ Unit) d s).2 ∧
    ∀ x ∈ ((if d.writes then _ else _ : MethodM σ Unit) d s).1.2.mentions, known x
  split
  · cases d.parsed with
    | error e => exact ⟨.fail e, mentioned⟩
    | ok descriptor =>
        exact ⟨(CodeDraft.proceeds_encode _ _ given s).trans (proceeds_addEncoded ..),
          fun x member => mentioned x (mentions_addEncoded member)⟩
  · exact ⟨.refl s, fun x member => (mentions_push member).elim (mentioned x) (given x)⟩

instance : Draft.Mentions MethodDraft where
  ofElement := MethodElement.mentions
  ofDraft := mentions
  Whole _ := True
  take {known e d s} given mentioned := by
    cases e with
    | flags f => exact ⟨.refl s, mentioned, fun _ _ => trivial⟩
    | code c =>
        obtain ⟨goes, known'⟩ := takes_code (s := s) given mentioned
        exact ⟨goes, known', fun _ _ => trivial⟩
    | «attribute» a =>
        exact ⟨.refl s, fun x member => (mentions_push member).elim (mentioned x) (given x),
          fun _ _ => trivial⟩

end MethodDraft

/-! ## Classes -/

namespace ClassDraft

open Layout (IsMember)

/-- Writing a field refers to nothing but what is known. -/
theorem proceeds_writeField {f : FieldModel} (given : ∀ x ∈ f.mentions, known x) :
    (Build.Law.proceeding σ known).Does (writeField f) :=
  proceeds_copied
    (fun e member x mentioned => given x <| List.mem_append_right _ <|
      List.mem_flatMap.mpr ⟨e, member, mentioned⟩)
    (fun x member => given x <| List.mem_append_left _ <| by
      simpa [Draft.Mentions.ofDraft, FieldDraft.mentions, FieldDraft.ofModel] using member)
    fun _ given => FieldDraft.does_finish given

/-- Writing a method refers to nothing but what is known. -/
theorem proceeds_writeMethod {m : MethodModel} (given : ∀ x ∈ m.mentions, known x) :
    (Build.Law.proceeding σ known).Does (writeMethod m) :=
  proceeds_copied
    (fun e member x mentioned => given x <| List.mem_append_right _ <|
      List.mem_flatMap.mpr ⟨e, member, mentioned⟩)
    (fun x member => given x <| List.mem_append_left _ <| by
      simpa [Draft.Mentions.ofDraft, MethodDraft.mentions, MethodDraft.ofModel] using member)
    fun _ given => MethodDraft.does_finish MethodDraft.encodes_proceeding given

/-- An action refers to nothing but what is known, leaves what a class mentions as it is, and adds
only members that can be scanned, unless it copies them. -/
def Joins (known : Entry → Prop) (act : ClassM σ Unit) : Prop :=
  ∀ (d : ClassDraft) (s : Session σ), s.Proceeds known (act d s).2 ∧
    (act d s).1.2.mentions = d.mentions ∧
    (s.pool.parent = none → d.Scannable → (act d s).1.2.Scannable)

section Joins

variable {add : Except Error Bytes → ClassM σ Unit} (adds : Adds add)
  (goes : ∀ (outcome : Except Error Bytes) (d : ClassDraft) (s : Session σ),
    s.Proceeds known (add outcome d s).2 ∧ (add outcome d s).1.2.mentions = d.mentions)
  {write : Build σ (Except Error Bytes)} (proceeds : (Build.Law.proceeding σ known).Does write)
  (isMember : ∀ (s s' : Session σ) (bytes : Bytes), write s = (.ok bytes, s') → IsMember bytes)
include adds goes proceeds isMember

/-- A member that is written is added. -/
theorem joins_written : Joins known (do add (← Drafting.session write)) := by
  intro d s
  obtain ⟨goes, same⟩ := goes (write s).1 d (write s).2
  exact ⟨(proceeds s).trans goes, same, fun _ => adds.scans (write s).1 d (write s).2
    fun bytes wrote => isMember s (write s).2 bytes (Prod.ext wrote rfl)⟩

/-- A member of an input is copied or written. -/
theorem joins_copied (m : InputMember) : Joins known (do
    match ← Drafting.session (copied? m) with
    | some outcome => add outcome
    | none => add (← Drafting.session write)) := by
  intro d s
  have opened : (Drafting.session (copied? m) : ClassM σ _) d s =
      (((copied? m s).1, d), (copied? m s).2) := rfl
  have copy : copied? m s = (none, s) ∨
      s.pool.parent ≠ none ∧ ∃ outcome, copied? m s = (some outcome, s) := by
    rw [copied?, bind_apply, get_apply]
    cases known : s.pool.parent with
    | none => exact .inl rfl
    | some parent =>
        dsimp only
        split
        · exact .inr ⟨Option.some_ne_none parent, _, rfl⟩
        · exact .inl rfl
  rcases copy with copy | ⟨inherits, outcome, copy⟩
  · simp only [Bind.bind, StateT.bind, opened, copy]
    exact joins_written adds goes proceeds isMember d s
  · simp only [Bind.bind, StateT.bind, opened, copy]
    exact ⟨(goes outcome d s).1, (goes outcome d s).2, fun orphan => absurd orphan inherits⟩

end Joins

/-- Adding a field refers to nothing, and leaves what the class mentions. -/
theorem goes_addField (outcome : Except Error Bytes) (d : ClassDraft) (s : Session σ) :
    s.Proceeds known (addField outcome d s).2 ∧
      (addField outcome d s).1.2.mentions = d.mentions := by
  cases outcome with
  | error e => exact ⟨.fail e, rfl⟩
  | ok bytes => exact ⟨.refl s, rfl⟩

/-- Adding a method refers to nothing, and leaves what the class mentions. -/
theorem goes_addMethod (outcome : Except Error Bytes) (d : ClassDraft) (s : Session σ) :
    s.Proceeds known (addMethod outcome d s).2 ∧
      (addMethod outcome d s).1.2.mentions = d.mentions := by
  cases outcome with
  | error e => exact ⟨.fail e, rfl⟩
  | ok bytes => exact ⟨.refl s, rfl⟩

/-- A field joins a class if what it mentions is known. -/
theorem joins_takeField {f : FieldModel} (given : ∀ x ∈ f.mentions, known x) :
    Joins known (takeField f : ClassM σ Unit) := by
  have proceeds := proceeds_writeField (σ := σ) given
  cases f with
  | input m => exact joins_copied adds_addField goes_addField proceeds isMember_writeField m
  | built f => exact joins_written adds_addField goes_addField proceeds isMember_writeField

/-- A method joins a class if what it mentions is known. -/
theorem joins_takeMethod {m : MethodModel} (given : ∀ x ∈ m.mentions, known x) :
    Joins known (takeMethod m : ClassM σ Unit) := by
  have proceeds := proceeds_writeMethod (σ := σ) given
  cases m with
  | input m => exact joins_copied adds_addMethod goes_addMethod proceeds isMember_writeMethod m
  | built m => exact joins_written adds_addMethod goes_addMethod proceeds isMember_writeMethod

section Header

variable {d : ClassDraft} {x : Entry}

/-- A class that is given a superclass mentions what it did, and the superclass. -/
theorem mentions_superclass {c : Option ClassEntry} (member : x ∈ { d with super := c }.mentions) :
    x ∈ d.mentions ∨ x ∈ (ClassElement.superclass c).mentions := by
  simp only [mentions, ClassElement.mentions, List.mem_append] at member ⊢
  tauto

/-- A class that is given interfaces mentions what it did, and the interfaces. -/
theorem mentions_interfaces {cs : List (Option ClassEntry)}
    (member : x ∈ { d with interfaces := cs }.mentions) :
    x ∈ d.mentions ∨ x ∈ (ClassElement.interfaces cs).mentions := by
  simp only [mentions, ClassElement.mentions, List.mem_append] at member ⊢
  tauto

/-- A class that is given an attribute mentions what it did, and what the attribute does. -/
theorem mentions_push {a : Attribute}
    (member : x ∈ { d with attributes := d.attributes.push a }.mentions) :
    x ∈ d.mentions ∨ x ∈ (ClassElement.attribute a).mentions := by
  simpa [mentions, ClassElement.mentions, or_assoc] using member

end Header

instance : Draft.Mentions ClassDraft where
  ofElement := ClassElement.mentions
  ofDraft := mentions
  Whole := Scannable
  take {known e d s} given mentioned := by
    have noted {d' : ClassDraft} (listed : ∀ x ∈ d'.mentions, x ∈ d.mentions ∨ x ∈ e.mentions) :
        ∀ x ∈ d'.mentions, known x := fun x member => (listed x member).elim (mentioned x) (given x)
    cases e with
    | flags f => exact ⟨.refl s, mentioned, fun _ scans => ⟨scans.1, scans.2⟩⟩
    | version major minor => exact ⟨.refl s, mentioned, fun _ scans => ⟨scans.1, scans.2⟩⟩
    | superclass c =>
        exact ⟨.refl s, noted fun x => mentions_superclass, fun _ scans => ⟨scans.1, scans.2⟩⟩
    | interfaces cs =>
        exact ⟨.refl s, noted fun x => mentions_interfaces, fun _ scans => ⟨scans.1, scans.2⟩⟩
    | field f =>
        obtain ⟨goes, same, scans⟩ := joins_takeField given d s
        exact ⟨goes, fun x member => mentioned x (same ▸ member), scans⟩
    | method m =>
        obtain ⟨goes, same, scans⟩ := joins_takeMethod given d s
        exact ⟨goes, fun x member => mentioned x (same ▸ member), scans⟩
    | «attribute» a =>
        exact ⟨.refl s, noted fun x => mentions_push, fun _ scans => ⟨scans.1, scans.2⟩⟩

end ClassDraft

end JvmClass
