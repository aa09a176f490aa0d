import JvmClass.Proofs.Caller.Keeping

/-!
# Every level keeps a contract

A contract that hosts programs is kept by what bodies, fields, methods and classes do for them.
Where a handler fills something in, its program keeps the contract on a draft of its own, which is
then finished, written or handed on. A class is built by a program or made from another one by a
transform that is put together from programs; between them the draft is opened, filled in, and
finished.
-/

namespace JvmClass

open Caller

variable {σ δ ε : Type} {c : Contract (σ × Diary)} (hosts : c.Hosts)

/-- An instruction without operands mentions nothing. -/
theorem Instruction.mentions_of_ofOpcode? {op : Opcode} {i : Instruction}
    (found : ofOpcode? op = some i) : i.mentions = [] := by
  unfold ofOpcode? at found
  generalize op.info? = known at found
  cases known with
  | none => cases found
  | some info =>
      simp only [Option.bind_eq_bind, Option.bind_some] at found
      split at found
      · cases found
      · generalize info.shape = shape at found
        cases shape <;> cases found <;> rfl

namespace Contract

/-! ## Walks -/

section Walks

variable [Draft δ ε] [Draft.Mentions δ] {s₀ : Session (σ × Diary)}

/-- Walking through a transform, where there is one. -/
theorem tries_walked {o : Outlet (σ × Diary) δ ε} (kept : c.KeptByOutlet o) (source : Traversal ε)
    {t : Option (Transform (σ × Diary) δ ε)} (keeps : ∀ t', t = some t' → c.KeptByTransform t') :
    c.Tries (Transform.run source t o) := by
  cases t with
  | none => exact .throw _
  | some t => exact (keeps t rfl).tries_run source kept

/-- Walking through a transform into an outlet, unless something has failed. -/
theorem does_replay {o : Outlet (σ × Diary) δ ε} (kept : c.KeptByOutlet o) (source : Traversal ε)
    {t : Option (Transform (σ × Diary) δ ε)} (keeps : ∀ t', t = some t' → c.KeptByTransform t') :
    c.Does (do
      if (← Drafting.session Build.error?).isSome then return
      Drafting.session (Build.failOn (← (Transform.run source t o).run))) :=
  .unlessFailed (tries_walked kept source keeps).recorded

/-- What the library does on its own to a draft and the session. -/
theorem leads_proceeding {act : Drafting (σ × Diary) δ Unit}
    (goes : ∀ (d : δ) (s : Session (σ × Diary)), c.Later s₀ s →
      s.Proceeds (c.Given s) (act d s).2 ∧
      (∀ x ∈ Draft.Mentions.ofDraft (act d s).1.2, x ∈ Draft.Mentions.ofDraft d) ∧
      (s.pool.parent = none → Draft.Mentions.Whole d → Draft.Mentions.Whole (act d s).1.2)) :
    c.Leads s₀ act fun _ _ => True := by
  intro d s after fine keeps
  obtain ⟨goes, mentions, whole⟩ := goes d s after
  obtain ⟨later, fine'⟩ := c.proceeds fine goes
  refine ⟨⟨later, ⟨fun x member => c.given later (keeps.given x (mentions x member)),
    fun alone => ?_⟩, fine'⟩, trivial⟩
  have before := c.alone later alone
  exact whole (c.parent before) (keeps.whole before)

/-- A draft that is filled in, with what comes after that. -/
theorem leads_filled {δ' ε' : Type} [Draft δ' ε'] [Draft.Mentions δ']
    {act : ExceptT Error (Drafting (σ × Diary) δ') Unit} (tries : c.Tries act) {d' : δ'}
    (blank : c.Keeps d' s₀) (next : δ' → Drafting (σ × Diary) δ Unit)
    (goes : ∀ d'' s, c.Keeps d'' s → c.Leads s (next d'') fun _ _ => True) :
    c.Leads s₀ (do
      let (outcome, d'') ← Drafting.session (act.run.run d')
      match outcome with
      | .error e => Drafting.session (Build.fail e)
      | .ok () => next d'') fun _ _ => True := by
  intro d s after fine keeps
  have ended := tries d' s fine (blank.mono after)
  have opened : (Drafting.session (act.run.run d') : Drafting (σ × Diary) δ _) d s =
      (((act.run d' s).1, d), (act.run d' s).2) := rfl
  simp only [Bind.bind, StateT.bind, opened]
  generalize act.run d' s = reached at ended ⊢
  obtain ⟨⟨outcome, d''⟩, s'⟩ := reached
  cases outcome with
  | error e =>
      have thrown : c.Throws s e d'' s' := ended
      exact ⟨Throws.failed ⟨thrown.later, keeps.mono thrown.later, thrown.thrown⟩, trivial⟩
  | ok =>
      have reached : c.Reaches s d'' s' := ended
      obtain ⟨reached', -⟩ := goes d'' s' reached.keeps d s' (c.refl s') reached.fine
        (keeps.mono reached.later)
      exact ⟨⟨c.trans reached.later reached'.later, reached'.keeps, reached'.fine⟩, trivial⟩

end Walks

/-! ## Bodies -/

section Bodies

variable {o : CodeOutlet (σ × Diary)} (kept : c.KeptByOutlet o)

/-- Asking for a new label keeps the contract. -/
theorem does_newLabel : c.Does (CodeM.newLabel : CodeM (σ × Diary) Label) :=
  .session fun _ => .labels _

/-- Asking for the label of the start keeps the contract. -/
theorem does_startLabel : c.Does (CodeM.startLabel : CodeM (σ × Diary) Label) :=
  .bind .look fun d => by
    split
    · exact .pure _
    · refine .bind does_newLabel fun l => .bind (.modify (fun d x member => ?_) fun _ => id)
        fun _ => .pure l
      obtain ⟨source, parent, frame, start, stop, target⟩ := d
      cases target <;> exact member

/-- Asking for the label of the end keeps the contract. -/
theorem does_endLabel : c.Does (CodeM.endLabel : CodeM (σ × Diary) Label) :=
  .bind .look fun d => by
    split
    · exact .pure _
    · exact .bind does_newLabel fun l => .bind (.modify (fun _ _ => id) fun _ => id) fun _ =>
        .pure l

/-- A slot is handed out, or the reason why there is none is noted. -/
theorem does_slotOr (outcome : Except Error Int) :
    c.Does (CodeM.slotOr outcome : CodeM (σ × Diary) Int) := by
  cases outcome with
  | ok slot => exact .pure slot
  | error e => exact .bind (.fail e) fun _ => .pure _

/-- Allocating a slot keeps the contract. -/
theorem does_allocateLocal (k : Kind) : c.Does (CodeM.allocateLocal k : CodeM (σ × Diary) Int) :=
  .bind .look fun d => by
    split
    · exact does_slotOr _
    · refine .bind (.modify (fun d x member => ?_) fun _ => id) fun _ => .pure _
      obtain ⟨source, parent, frame, start, stop, target⟩ := d
      cases target with
      | collecting elements => exact member
      | writing w =>
          change x ∈ (w.useLocal _ k).mentions at member
          rwa [BodyWriter.mentions_useLocal] at member

theorem does_misuse (m : Misuse) : c.Does (CodeM.misuse m : CodeM (σ × Diary) Unit) := .fail _

include kept

/-- Emitting an instruction without constants. -/
theorem does_instruction {i : Instruction} (silent : i.mentions = []) :
    c.Does (CodeOutlet.instruction o i) := KeptByOutlet.does_emit kept silent

/-- Loading a local keeps the contract. -/
theorem does_load (k : Kind) (slot : Int) : c.Does (CodeOutlet.load o k slot) := by
  rw [CodeOutlet.load]
  split
  · exact does_misuse _
  · exact does_instruction kept rfl

/-- Storing a local keeps the contract. -/
theorem does_store (k : Kind) (slot : Int) : c.Does (CodeOutlet.store o k slot) := by
  rw [CodeOutlet.store]
  split
  · exact does_misuse _
  · exact does_instruction kept rfl

/-- Branching keeps the contract. -/
theorem does_branch (op : Opcode) (target : Option Label) :
    c.Does (CodeOutlet.branch o op target) := by
  rw [CodeOutlet.branch]
  exact .ite (does_instruction kept rfl) (does_misuse _)

/-- Returning keeps the contract. -/
theorem does_return (k : Kind) : c.Does (CodeOutlet.return_ o k) := by
  rw [CodeOutlet.return_]
  split
  · exact does_misuse _
  · exact does_instruction kept rfl

/-- An instruction without operands keeps the contract. -/
theorem does_plain (op : Opcode) : c.Does (CodeOutlet.plain o op) := by
  have silent (i : Instruction) (found : Instruction.ofOpcode? op = some i) : i.mentions = [] :=
    Instruction.mentions_of_ofOpcode? found
  unfold CodeOutlet.plain
  generalize Instruction.ofOpcode? op = found at silent ⊢
  cases found with
  | none => exact does_misuse _
  | some i => exact does_instruction kept (silent i rfl)

/-- Making an array of primitives keeps the contract. -/
theorem does_newPrimitiveArray (k : Kind) : c.Does (CodeOutlet.newPrimitiveArray o k) :=
  .ite (does_instruction kept rfl) (does_misuse _)

variable {s₀ : Session (σ × Diary)}

/-- Making an array of several dimensions keeps the contract if its class may be referred to. -/
theorem leads_newMultiArray {type : Option ClassEntry} (dimensions : Int)
    (given : ∀ x ∈ ClassEntry.optional type, c.Given s₀ x) :
    c.Leads s₀ (CodeOutlet.newMultiArray o type dimensions) fun _ _ => True := by
  rw [CodeOutlet.newMultiArray]
  split
  · exact (does_misuse _).leads
  · exact KeptByOutlet.leads_emit kept given

/-- Loading a constant keeps the contract if it may be referred to. -/
theorem leads_constant {e : Option Loadable}
    (given : ∀ x ∈ Entry.optional (e.map .loadable), c.Given s₀ x) :
    c.Leads s₀ (CodeOutlet.constant o e) fun _ _ => True := by
  cases e with
  | none => exact (does_misuse _).leads
  | some e => exact KeptByOutlet.leads_emit kept given

include hosts

/-- Accessing a field keeps the contract if the field may be asked for. -/
theorem leads_field (op : Opcode) {owner : ClassEntry} {name type : Text}
    (asked : hosts.Asked s₀ (.member .field owner name type)) :
    c.Leads s₀ (CodeOutlet.field o op owner name type) fun _ _ => True := by
  rw [CodeOutlet.field]
  split
  · exact (does_misuse _).leads
  · refine (hosts.leads_interning .member _ PoolBuilder.Call.run_member asked).bind
      fun f s _ given => ?_
    exact KeptByOutlet.leads_emit kept fun x member => List.mem_singleton.mp member ▸ given

/-- Calling a method keeps the contract if the method may be asked for. -/
theorem leads_invoke (op : Opcode) {owner : ClassEntry} {name type : Text} {ofInterface : Bool}
    (asked : hosts.Asked s₀ (.member
      (if ofInterface || op = Opcode.invokeinterface then .interfaceMethod else .method)
      owner name type)) :
    c.Leads s₀ (CodeOutlet.invoke o op owner name type ofInterface) fun _ _ => True := by
  rw [CodeOutlet.invoke]
  split
  · exact (does_misuse _).leads
  · refine (hosts.leads_interning .member _ PoolBuilder.Call.run_member asked).bind
      fun m s _ given => ?_
    exact KeptByOutlet.leads_emit kept fun x member => List.mem_singleton.mp member ▸ given

/-- Loading an int keeps the contract if it may be asked for. -/
theorem leads_constantInt {v : Int} (asked : hosts.Asked s₀ (.integer v)) :
    c.Leads s₀ (CodeOutlet.constantInt o v) fun _ _ => True := by
  rw [CodeOutlet.constantInt]
  split
  · exact (does_instruction kept rfl).leads
  split
  · exact (does_instruction kept rfl).leads
  split
  · exact (does_instruction kept rfl).leads
  refine (hosts.leads_interning .loadable _ (fun _ => rfl) asked).bind fun e s _ given => ?_
  exact leads_constant kept fun x member => List.mem_singleton.mp member ▸ given

/-- Loading a string keeps the contract if it may be asked for. -/
theorem leads_constantString {text : Text} (asked : hosts.Asked s₀ (.string text)) :
    c.Leads s₀ (CodeOutlet.constantString o text) fun _ _ => True := by
  rw [CodeOutlet.constantString]
  refine (hosts.leads_interning .loadable _ (fun _ => rfl) asked).bind fun e s _ given => ?_
  exact leads_constant kept fun x member => List.mem_singleton.mp member ▸ given

/-- Naming a local keeps the contract, since its texts are entered by name. -/
theorem leads_localVariable (slot : Int) (name type : Text) (start stop : Option Label) :
    c.Leads s₀ (CodeOutlet.localVariable o slot name type start stop) fun _ _ => True := by
  rw [CodeOutlet.localVariable]
  refine (hosts.leads_interning .utf8 _ (fun _ => rfl) (hosts.utf8 _ name)).bind
    fun name s _ named => ?_
  refine (hosts.leads_interning .utf8 _ (fun _ => rfl) (hosts.utf8 _ type)).bind
    fun type s' later typed => ?_
  refine KeptByOutlet.leads_emit kept fun x member => ?_
  rcases List.mem_append.mp member with member | member
  · exact List.mem_singleton.mp member ▸ c.given later named
  · exact List.mem_singleton.mp member ▸ typed

/-- What a body offers keeps the contract. -/
theorem leads_perform (k : CodeCall) (given : ∀ x ∈ k.handed, c.Given s₀ x)
    (asked : ∀ q ∈ k.asked, hosts.Asked s₀ q) : c.Leads s₀ (k.perform o) fun _ _ => True := by
  have replied {act : CodeM (σ × Diary) Unit} (leads : c.Leads s₀ act fun _ _ => True) :
      c.Leads s₀ (do act; return CodeReply.done) fun _ _ => True :=
    leads.bind fun _ _ _ _ => (Does.pure _).leads
  have returned {α : Type} {act : CodeM (σ × Diary) α} (does : c.Does act) (f : α → CodeReply) :
      c.Leads s₀ (do return f (← act)) fun _ _ => True := (does.bind fun _ => .pure _).leads
  cases k with
  | newLabel => exact returned does_newLabel _
  | startLabel => exact returned does_startLabel _
  | endLabel => exact returned does_endLabel _
  | receiverSlot => exact returned (.bind .look fun d => does_slotOr _) _
  | parameterSlot i => exact returned (.bind .look fun d => does_slotOr _) _
  | allocateLocal k => exact returned (does_allocateLocal k) _
  | bindLabel l => exact replied (KeptByOutlet.does_emit kept rfl).leads
  | load k slot => exact replied (does_load kept k slot).leads
  | store k slot => exact replied (does_store kept k slot).leads
  | increment slot delta => exact replied (does_instruction kept rfl).leads
  | branch op target => exact replied (does_branch kept op target).leads
  | return_ k => exact replied (does_return kept k).leads
  | plain op => exact replied (does_plain kept op).leads
  | field op owner name type =>
      exact replied (leads_field hosts kept op (asked _ (List.mem_singleton_self _)))
  | invoke op owner name type ofInterface =>
      exact replied (leads_invoke hosts kept op (asked _ (List.mem_singleton_self _)))
  | newPrimitiveArray k => exact replied (does_newPrimitiveArray kept k).leads
  | newMultiArray type dimensions => exact replied (leads_newMultiArray kept dimensions given)
  | constant e => exact replied (leads_constant kept given)
  | constantInt v =>
      exact replied (leads_constantInt hosts kept (asked _ (List.mem_singleton_self _)))
  | constantString text =>
      exact replied (leads_constantString hosts kept (asked _ (List.mem_singleton_self _)))
  | localVariable slot name type start stop =>
      exact replied (leads_localVariable hosts kept slot name type start stop)

end Bodies

/-- A body that carries out what programs ask for keeps the contract. -/
theorem kept_code : hosts.Kept (.code (σ × Diary)) where
  replay kept source _ keeps := does_replay kept source.traversal keeps
  perform kept k _ := leads_perform hosts kept k

/-- A field that carries out what programs ask for keeps the contract. -/
theorem kept_field : hosts.Kept (.field (σ × Diary)) where
  replay kept source _ keeps := does_replay kept source.traversal keeps
  perform _ := nofun

/-! ## Methods -/

/-- A body that was collected mentions what its draft does. -/
theorem mentions_collected {d : CodeDraft} {x : Entry}
    (member : x ∈ (CodeModel.built d.collected).mentions) : x ∈ d.mentions := by
  rcases d with ⟨source, parent, frame, start, stop, target⟩
  rw [CodeModel.mentions, CodeModel.traversal, CodeModel.elements, Traversal.after] at member
  obtain ⟨e, listed, mentioned⟩ := List.mem_flatMap.mp member
  rw [List.nil_append, CodeDraft.collected] at listed
  have bound {l : Option Label} (listed : e ∈ (l.map fun l => CodeElement.label (some l)).toList) :
      x ∈ ([] : List Entry) := by
    obtain ⟨l, -, rfl⟩ := Option.map_eq_some_iff.mp (Option.mem_toList.mp listed)
    exact mentioned
  rcases List.mem_append.mp listed with listed | listed
  · rcases List.mem_append.mp listed with listed | listed
    · exact absurd (bound listed) List.not_mem_nil
    · cases target with
      | writing w => exact absurd listed List.not_mem_nil
      | collecting elements => exact List.mem_flatMap.mpr ⟨e, listed, mentioned⟩
  · exact absurd (bound listed) List.not_mem_nil

/-- A body that is filled in from the start, and what becomes of it. -/
theorem does_filled {act : ExceptT Error (CodeM (σ × Diary)) Unit} (tries : c.Tries act)
    {d : CodeDraft} (silent : d.mentions = []) (next : CodeDraft → MethodM (σ × Diary) Unit)
    (goes : ∀ code s, c.Keeps code s → c.Leads s (next code) fun _ _ => True) :
    c.Does (do
      let (outcome, code) ← Drafting.session (act.run.run d)
      match outcome with
      | .error e => Drafting.session (Build.fail e)
      | .ok () => next code) := fun d' s fine keeps =>
  (leads_filled tries ⟨fun x member => absurd (silent ▸ member : x ∈ []) List.not_mem_nil,
    fun _ => trivial⟩ next goes d' s (c.refl s) fine keeps).1

section Methods

variable {o : MethodOutlet (σ × Diary)} (kept : c.KeptByOutlet o)
include kept

/-- A body that is filled in, and then handed on or written. -/
theorem does_withCode (source : Option CodeModel) {act : ExceptT Error (CodeM (σ × Diary)) Unit}
    (tries : c.Tries act) : c.Does (o.withCode source fun d => act.run.run d) := by
  refine .unlessFailed (.bind .look fun d => ?_)
  split
  · exact .fail _
  · split
    · refine does_filled tries (d := .collecting _ _ source _) rfl
        (fun code => o.emit (.code code.collected))
        fun code s keeps => KeptByOutlet.leads_emit kept fun x member => ?_
      exact keeps.given x (mentions_collected member)
    · refine does_filled tries (d := .writing _ _ source) rfl
        (fun code => do MethodDraft.addEncoded (← Drafting.session code.finish))
        fun code s keeps => leads_proceeding fun d s' later =>
          ⟨?_, fun x => MethodDraft.mentions_addEncoded, fun _ => id⟩
      exact (CodeDraft.does_finish (l := .proceeding _ _)
        (fun x member => c.given later (keeps.given x member)) s').trans
        (MethodDraft.proceeds_addEncoded ..)

include hosts

/-- Whatever is asked of a method, carrying it out keeps the contract. -/
theorem leads_methodCall (k : MethodCall σ) (s : Session (σ × Diary)) :
    c.Leads s (k.perform o) fun _ _ => True := by
  cases k with
  | code handler =>
      exact (does_withCode kept none
        (hosts.tries_run (kept_code hosts) handler (o := .terminal) trivial)).leads
  | transformCode source t =>
      exact (does_withCode kept (some source)
        (tries_walked (o := .terminal) trivial source.traversal
        (hosts.kept_transform? (kept_code hosts) t))).leads

end Methods

/-- A method that carries out what programs ask for keeps the contract. -/
theorem kept_method : hosts.Kept (.method σ) where
  replay kept source _ keeps := does_replay kept source.traversal keeps
  perform kept k s _ _ := leads_methodCall hosts kept k s

/-! ## Classes -/

/-- A field that was collected mentions what its draft does. -/
theorem mentions_collectedField {d : FieldDraft} {x : Entry}
    (member : x ∈ (FieldModel.built d.collected).mentions) : x ∈ d.mentions := by
  rcases List.mem_append.mp member with named | listed
  · exact List.mem_append_left _ named
  · refine List.mem_append_right _ ?_
    obtain ⟨e, listed, mentioned⟩ := List.mem_flatMap.mp listed
    rcases List.mem_cons.mp listed with rfl | listed
    · exact absurd mentioned List.not_mem_nil
    · have contained : e ∈ d.attributes.toList.map FieldElement.attribute := listed
      obtain ⟨a, held, rfl⟩ := List.mem_map.mp contained
      exact List.mem_flatMap.mpr ⟨a, held, mentioned⟩

/-- A method that was collected mentions what its draft does. -/
theorem mentions_collectedMethod {d : MethodDraft} {x : Entry}
    (member : x ∈ (MethodModel.built d.collected).mentions) : x ∈ d.mentions := by
  rcases List.mem_append.mp member with named | listed
  · exact List.mem_append_left _ named
  · refine List.mem_append_right _ ?_
    obtain ⟨e, listed, mentioned⟩ := List.mem_flatMap.mp listed
    rcases List.mem_cons.mp listed with rfl | listed
    · exact absurd mentioned List.not_mem_nil
    · obtain ⟨part, listed, made⟩ := List.mem_filterMap.mp listed
      refine List.mem_flatMap.mpr ⟨part, listed, ?_⟩
      cases part <;> cases made <;> exact mentioned

section Classes

variable {o : ClassOutlet (σ × Diary)} (kept : c.KeptByOutlet o) {s₀ : Session (σ × Diary)}
include kept

/-- A field that is filled in, and then handed on or written. -/
theorem leads_withField {draft : FieldDraft} (given : c.Keeps draft s₀)
    {fill : ExceptT Error (FieldM (σ × Diary)) Unit} (tries : c.Tries fill) :
    c.Leads s₀ (o.withField draft fill) fun _ _ => True := by
  refine leads_filled tries given (fun d => if draft.writes then
    (do ClassDraft.addField (← Drafting.session d.finish)) else o.emit
    (.field (.built d.collected)))
    fun d s keeps => ?_
  split
  · refine leads_proceeding fun d' s' later => ?_
    obtain ⟨goes, same, scans⟩ := ClassDraft.joins_written ClassDraft.adds_addField
      ClassDraft.goes_addField (FieldDraft.does_finish (l := .proceeding _ (c.Given s'))
        fun x member => c.given later (keeps.given x member))
      (fun _ _ _ => FieldDraft.isMember_finish) d' s'
    exact ⟨goes, fun x => (congrArg (x ∈ ·) same).mp, scans⟩
  · exact KeptByOutlet.leads_emit kept fun x member =>
      keeps.given x (mentions_collectedField member)

/-- A method that is filled in, and then handed on or written. -/
theorem leads_withMethod {draft : MethodDraft} (given : c.Keeps draft s₀)
    {fill : ExceptT Error (MethodM (σ × Diary)) Unit} (tries : c.Tries fill) :
    c.Leads s₀ (o.withMethod draft fill) fun _ _ => True := by
  refine leads_filled tries given (fun d => if draft.writes then
    (do ClassDraft.addMethod (← Drafting.session d.finish))
    else o.emit (.method (.built d.collected))) fun d s keeps => ?_
  split
  · refine leads_proceeding fun d' s' later => ?_
    obtain ⟨goes, same, scans⟩ := ClassDraft.joins_written ClassDraft.adds_addMethod
      ClassDraft.goes_addMethod (MethodDraft.does_finish MethodDraft.encodes_proceeding
        (l := .proceeding _ (c.Given s')) fun x member => c.given later (keeps.given x member))
      (fun _ _ _ => MethodDraft.isMember_finish) d' s'
    exact ⟨goes, fun x => (congrArg (x ∈ ·) same).mp, scans⟩
  · exact KeptByOutlet.leads_emit kept fun x member =>
      keeps.given x (mentions_collectedMethod member)

include hosts

omit kept in
/-- A member under a name and a descriptor that are entered first. -/
theorem leads_named (name descriptor : Text)
    {next : Utf8Entry → Utf8Entry → ClassM (σ × Diary) Unit}
    (leads : ∀ name descriptor s, (∀ x ∈ [Entry.utf8 name, .utf8 descriptor], c.Given s x) →
      c.Leads s (next name descriptor) fun _ _ => True) :
    c.Leads s₀ (do
      let name ← Drafting.session (Build.interning (PoolBuilder.utf8 name))
      let descriptor ← Drafting.session (Build.interning (PoolBuilder.utf8 descriptor))
      next name descriptor) fun _ _ => True := by
  refine (hosts.leads_interning .utf8 _ (fun _ => rfl) (hosts.utf8 _ name)).bind
    fun name s _ named => ?_
  refine (hosts.leads_interning .utf8 _ (fun _ => rfl) (hosts.utf8 _ descriptor)).bind
    fun descriptor s' later described => leads name descriptor s' ?_
  simpa using ⟨c.given later named, described⟩

/-- Whatever is asked of a class, carrying it out keeps the contract if what is handed over may be
referred to. -/
theorem leads_classCall (k : ClassCall σ) (given : ∀ x ∈ k.handed, c.Given s₀ x) :
    c.Leads s₀ (k.perform o) fun _ _ => True := by
  cases k with
  | field name descriptor flags handler =>
      refine Leads.unlessFailed
        (leads_named hosts name descriptor fun name descriptor s given => ?_)
      refine leads_withField kept ⟨?_, fun _ => trivial⟩
        (hosts.tries_run (kept_field hosts) handler trivial)
      simpa [Draft.Mentions.ofDraft, FieldDraft.mentions, FieldDraft.start] using given
  | method name descriptor flags handler =>
      refine Leads.unlessFailed
        (leads_named hosts name descriptor fun name descriptor s given => ?_)
      refine leads_withMethod kept ⟨?_, fun _ => trivial⟩
        (hosts.tries_run (kept_method hosts) handler trivial)
      simpa [Draft.Mentions.ofDraft, MethodDraft.mentions, MethodDraft.start] using given
  | transformField f t =>
      refine Leads.unlessFailed (leads_withField kept ⟨fun x member => given x ?_, fun _ => trivial⟩
        (tries_walked (o := .terminal) trivial _ (hosts.kept_transform? (kept_field hosts) t)))
      simpa [Draft.Mentions.ofDraft, FieldDraft.mentions, FieldDraft.ofModel, ClassCall.handed]
        using member
  | transformMethod m t =>
      refine Leads.unlessFailed
        (leads_withMethod kept ⟨fun x member => given x ?_, fun _ => trivial⟩
        (tries_walked (o := .terminal) trivial _ (hosts.kept_transform? (kept_method hosts) t)))
      simpa [Draft.Mentions.ofDraft, MethodDraft.mentions, MethodDraft.ofModel, ClassCall.handed]
        using member

end Classes

/-- A class that carries out what programs ask for keeps the contract. -/
theorem kept_class : hosts.Kept (.class_ σ) where
  replay kept source _ keeps := does_replay kept source.traversal keeps
  perform kept k _ given _ := leads_classCall hosts kept k given

end Contract

namespace Caller

/-! ## Classes that programs put together -/

/-- How programs put a class together. -/
inductive Assembly (σ : Type) where
  /-- A class of the given name and superclass, filled in by a program. -/
  | build (this super : Text) (options : Options) (configure : ClassProgram σ)
  /-- Another class, transformed, and renamed if there is a new name. -/
  | rebuild (c : ClassFile) (newName : Option Text) (t : ClassRecipe σ)

namespace Assembly

/-- What comes of it, what the caller keeps, and the diary. -/
def result (kept : σ) : Assembly σ → Except Error Bytes × (σ × Diary)
  | .build this super options configure =>
    ClassFile.build this super options (configure.run (.class_ σ)) (kept, [])
  | .rebuild c newName t => c.rebuild newName (t.transform? (.class_ σ)) (kept, [])

/-- The draft that is to be filled in, and the session. -/
def opened (kept : σ) : Assembly σ → ClassDraft × Session (σ × Diary)
  | .build this super options _ =>
    let draft : Build (σ × Diary) ClassDraft := do
      let this ← Build.interning (PoolBuilder.class_ this)
      let d := ClassDraft.start this none
      if super.isEmpty then return d
      return { d with super := some (← Build.interning (PoolBuilder.class_ super)) }
    draft (Build.start options .empty (kept, []))
  | .rebuild c newName _ =>
    let draft : Build (σ × Diary) ClassDraft := Build.interning do
      let this ← match newName with
        | some name => PoolBuilder.class_ name
        | none => pure c.this
      return .start (← PoolBuilder.adoptClass this) (some c)
    draft (Build.start c.options
      (if c.options.has .noPoolSharing then .empty else .ofParent c.input) (kept, []))

/-- What fills the draft in. -/
def fill : Assembly σ → ExceptT Error (ClassM (σ × Diary)) Unit
  | .build _ _ _ configure => configure.run (.class_ σ) .terminal
  | .rebuild c _ t => Transform.run c.traversal (t.transform? (.class_ σ)) .terminal

/-- The outcome of filling the draft in, what became of it, and the session. -/
def filled (a : Assembly σ) (kept : σ) : (Except Error Unit × ClassDraft) × Session (σ × Diary) :=
  a.fill.run.run (a.opened kept).1 (a.opened kept).2

/-- The outcome of finishing the draft, if it was filled in, and the session. -/
def finished (a : Assembly σ) (kept : σ) : Except Error Bytes × Session (σ × Diary) :=
  match a.filled kept with
  | ((.error e, _), s) => (.error e, s)
  | ((.ok (), d), s) => d.finish s

/-- A class is put together by filling in a draft and finishing it, and an error that cannot be kept
back comes first. -/
theorem assemble_apply (draft : Build (σ × Diary) ClassDraft)
    (fill : ExceptT Error (ClassM (σ × Diary)) Unit) (s : Session (σ × Diary)) :
    ClassFile.assemble draft fill s =
      let closed : Except Error Bytes × Session (σ × Diary) :=
        match fill.run.run (draft s).1 (draft s).2 with
        | ((.error e, _), s) => (.error e, s)
        | ((.ok (), d), s) => d.finish s
      ((Build.abort? closed.2).1.elim closed.1 .error, closed.2) := by
  rw [ClassFile.assemble, bind_apply, bind_apply]
  rcases fill.run.run (draft s).1 (draft s).2 with ⟨⟨_ | _, d⟩, s'⟩
  · exact Build.outcome_apply _ s'
  · exact Build.outcome_apply _ _

/-- The outcome is that of finishing the draft, unless an error stands that cannot be kept back. -/
theorem result_eq (a : Assembly σ) (kept : σ) : a.result kept =
    (((Build.abort? (a.finished kept).2).1.elim (a.finished kept).1 .error),
      (a.finished kept).2.user) := by
  cases a with
  | build this super options configure =>
      rw [result, ClassFile.build, assemble_apply]
      rfl
  | rebuild c newName t =>
      rw [result, ClassFile.rebuild, assemble_apply]
      rfl

section Result

variable (a : Assembly σ) (kept : σ)

/-- An error that cannot be kept back is the outcome. -/
theorem result_of_not_aborted
    (goes : ¬∃ x, (a.result kept).1 = .error x ∧ x.abort?.isSome = true) :
    (Build.abort? (a.finished kept).2).1 = none ∧ (a.result kept).1 = (a.finished kept).1 := by
  have result := congrArg Prod.fst (a.result_eq kept)
  cases aborts : (Build.abort? (a.finished kept).2).1 with
  | none =>
      rw [aborts] at result
      exact ⟨rfl, result⟩
  | some y =>
      rw [aborts] at result
      have stands : y.abort? = some y := by
        have found : ((a.finished kept).2.error.bind Error.abort? <|>
            (a.finished kept).2.pool.error.bind Error.abort?) = some y := aborts
        cases known : (a.finished kept).2.error.bind Error.abort? with
        | some z =>
            rw [known] at found
            obtain rfl := Option.some.inj found
            obtain ⟨e, -, known⟩ := Option.bind_eq_some_iff.mp known
            exact Error.abort?_abort? known
        | none =>
            rw [known] at found
            obtain ⟨e, -, known⟩ := Option.bind_eq_some_iff.mp (found : _ = some y)
            exact Error.abort?_abort? known
      exact absurd ⟨y, result, by rw [stands]; rfl⟩ goes

/-- A draft that could not be filled in is not finished. -/
theorem finished_of_error {x : Error} {d : ClassDraft} {s : Session (σ × Diary)}
    (filled : a.filled kept = ((.error x, d), s)) : a.finished kept = (.error x, s) := by
  rw [finished, filled]

/-- A draft that was filled in is finished. -/
theorem finished_of_ok {d : ClassDraft} {s : Session (σ × Diary)}
    (filled : a.filled kept = ((.ok (), d), s)) : a.finished kept = d.finish s := by
  rw [finished, filled]

end Result

/-- Filling a class in keeps every contract that hosts programs. -/
theorem tries_fill {c : Contract (σ × Diary)} (hosts : c.Hosts) (a : Assembly σ) :
    c.Tries a.fill := by
  cases a with
  | build this super options configure =>
      exact hosts.tries_run (Contract.kept_class hosts) configure (o := .terminal) trivial
  | rebuild c newName t =>
      exact Contract.tries_walked (o := .terminal) trivial _
        (hosts.kept_transform? (Contract.kept_class hosts) t)

end Assembly

end Caller

end JvmClass
