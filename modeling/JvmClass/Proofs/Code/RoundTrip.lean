import JvmClass.Proofs.Code.Restating
import JvmClass.Proofs.Text.Descriptors

/-!
# Bodies that are written and read again

A body that was written from elements in place, with operands in range, is decoded against every
pool that comes out of writing it, and says what the elements said.
-/

namespace JvmClass

open BodyWriter (Recorded)
open Cell (ahead)
open CodeElement (instructions place position? WellPlaced)

variable {p q : PoolBuilder} {options : Options} {es : List CodeElement} {chunks : List (List Cell)}
  {w : BodyWriter}

/-- An offset is that of an instruction exactly if it lies behind so many of them. -/
theorem Cell.mem_starts_iff {o : Nat} : o ∈ Cell.starts 0 chunks ↔
    ∃ k < chunks.length, ahead chunks k = o := by
  rw [Cell.starts_eq]
  simp

namespace InputCode

variable {c : InputCode} {labelled : Nat → Bool} {linesAt : Nat → List Nat}
  {rows : List (Nat × Instruction)} {head tail es' : List CodeElement}

/-- Elements that say something about the body as a whole stand around the instructions. -/
theorem Composed.filterMap_eq {β : Type} (composed : c.Composed labelled linesAt rows head tail es')
    {f : CodeElement → Option β} (plain : ∀ e, e.isRow = false → f e = none) :
    es'.filterMap f = head.filterMap f ++ tail.filterMap f := by
  have marking : (c.marking labelled c.codeLength).filterMap f = [] := by
    rw [InputCode.marking]
    split
    · exact List.filterMap_eq_nil_iff.mpr (List.forall_mem_singleton.mpr (plain _ rfl))
    · rfl
  have stretches : (rows.flatMap (c.stretch labelled linesAt)).filterMap f = [] := by
    refine List.filterMap_eq_nil_iff.mpr fun e member => plain e ?_
    obtain ⟨r, -, member⟩ := List.mem_flatMap.mp member
    simp only [stretch, InputCode.marking, List.append_assoc, List.mem_append, List.mem_map,
      List.mem_singleton] at member
    rcases member with member | ⟨n, -, rfl⟩ | rfl
    · split at member
      · rw [List.mem_singleton.mp member]
        rfl
      · cases member
    · rfl
    · rfl
  rw [composed.elements, List.filterMap_append, List.filterMap_append, List.filterMap_append,
    stretches, marking, List.append_nil, List.append_nil]

/-- The elements of a decoded body say what was recorded, if its labels are placed where those are
that were written. -/
theorem Composed.outline_eq {catches : List Catch} {nested : Nested}
    (composed : c.Composed labelled (c.linesAt nested.lines) rows
      (catches.map .handler ++ nested.scopes)
      (nested.frames.map .attribute ++ nested.others.map .attribute) es')
    (recorded : Recorded p es chunks w) (becomes : p.Becomes q)
    (caught : List.Forall₂ (Catch.Restates w.stands c) w.catches.toList catches)
    (answers : nested.Answers w c)
    (all : List.Forall₂ (fun i row => i.Restates w.stands c row.2) (instructions es) rows)
    (stays : PlacesSame w.stands c (place es) (place es') (w.used (instructions es)))
    (lines : CodeElement.lines es' = CodeElement.lines es) :
      CodeOutline.of es' = CodeOutline.of es := by
  obtain ⟨-, ⟨scopes, types, ranges, local_, generic⟩, as, framed, others, held⟩ := answers
  simp only [BodyWriter.used, PlacesSame, List.forall_mem_append, List.forall_mem_flatMap] at stays
  obtain ⟨⟨⟨handlers, scopesStay, typesStay⟩, bodies⟩, operands⟩ := stays
  have code : (instructions es').map (fun i => i.canonical.relabel (place es')) =
      (instructions es).map fun i => i.canonical.relabel (place es) := by
    rw [show instructions es' = rows.map Prod.snd from composed.instructions_eq, List.map_map]
    refine map_eq_of_forall₂ ((forall₂_mem all).imp fun i row found => ?_)
    refine found.2.same (place es) (place es') fun l label n there => ?_
    simpa [standing, there] using operands i found.1 (some l) label
  have around {β : Type} {f : CodeElement → Option β} (plain : ∀ e, e.isRow = false → f e = none) :
      es'.filterMap f = catches.filterMap (fun row => f (.handler row)) ++
        (scopes.filterMap (fun s => f (.localVariable s)) ++
          types.filterMap fun s => f (.localVariableType s)) ++
        ((as.filter (CodeOutline.isStackMap ·.body)).filterMap (fun a => f (.attribute a)) ++
          (as.filter (!CodeOutline.isStackMap ·.body)).filterMap fun a => f (.attribute a)) := by
    rw [composed.filterMap_eq plain, ranges, framed, others]
    simp only [List.filterMap_append, List.filterMap_map, Function.comp_def]
  have handlersEq : es'.filterMap CodeElement.handler? = catches := by
    rw [around (by rintro (_ | _) <;> first | exact fun _ => rfl | rintro ⟨⟩)]
    simp [CodeElement.handler?]
  have scopesEq : es'.filterMap CodeElement.scope? = scopes := by
    rw [around (by rintro (_ | _) <;> first | exact fun _ => rfl | rintro ⟨⟩)]
    simp [CodeElement.scope?]
  have typesEq : es'.filterMap CodeElement.typeScope? = types := by
    rw [around (by rintro (_ | _) <;> first | exact fun _ => rfl | rintro ⟨⟩)]
    simp [CodeElement.typeScope?]
  have bodiesEq : es'.filterMap CodeElement.attribute? =
      (as.map (·.body)).filter CodeOutline.isStackMap ++
        (as.map (·.body)).filter (!CodeOutline.isStackMap ·) := by
    rw [around (by rintro (_ | _) <;> first | exact fun _ => rfl | rintro ⟨⟩), List.filter_map,
      List.filter_map]
    simp [CodeElement.attribute?, Function.comp_def]
  have written : es.filterMap CodeElement.attribute? = w.attributes.toList.map (·.body) := by
    rw [recorded.attributes, List.map_filterMap]
    refine List.filterMap_congr fun e _ => ?_
    cases e <;> rfl
  have restated : List.Forall₂ (AttributeBody.Restates w.stands c)
      (w.attributes.toList.map (·.body))
      (as.map (·.body)) := List.forall₂_map_left_iff.mpr (List.forall₂_map_right_iff.mpr held)
  have filtered (keep : Bool → Bool) : List.Forall₂ (AttributeBody.Restates w.stands c)
      ((w.attributes.toList.map (·.body)).filter (keep <| CodeOutline.isStackMap ·))
      ((as.map (·.body)).filter (keep <| CodeOutline.isStackMap ·)) :=
    List.rel_filter (fun body body' restates => by dsimp only; rw [restates.isStackMap_eq]) restated
  rw [CodeOutline.of, CodeOutline.of, CodeOutline.mk.injEq, code, lines, handlersEq, scopesEq,
    typesEq, bodiesEq, written, ← recorded.catches, ← recorded.scopes, ← recorded.typeScopes]
  refine ⟨rfl, ?_, rfl, ?_, ?_, ?_, ?_⟩
  · exact map_eq_of_forall₂ ((forall₂_mem caught).imp fun row row' found =>
      found.2.placed_eq (handlers row found.1))
  · exact map_eq_of_forall₂ ((forall₂_mem local_).imp fun s s' found =>
      found.2.placed_eq (scopesStay s found.1))
  · exact map_eq_of_forall₂ ((forall₂_mem generic).imp fun s s' found =>
      found.2.placed_eq (typesStay s found.1))
  · rw [List.filter_append, List.filter_filter, List.filter_filter]
    simp only [Bool.and_self, Bool.and_not_self, List.filter_false, List.append_nil]
    refine map_eq_of_forall₂ ((forall₂_mem (filtered id)).imp fun body body' found => ?_)
    obtain ⟨a, here, rfl⟩ := List.mem_map.mp (List.mem_filter.mp found.1).1
    exact found.2.placed_eq (bodies a here) fun f g => recorded.number_lt becomes
  · rw [List.filter_append, List.filter_filter, List.filter_filter]
    simp only [Bool.and_self, Bool.not_and_self, List.filter_false, List.nil_append]
    refine map_eq_of_forall₂ ((forall₂_mem (filtered not)).imp fun body body' found => ?_)
    exact found.2.bare_eq (by simpa using (List.mem_filter.mp found.1).2)

/-- A body that shows what was recorded is decoded into elements that say the same. -/
theorem Shows.elements {code : Bytes} (shows_ : c.Shows q w code)
    (recorded : Recorded p es chunks w)
    (becomes : p.Becomes q) (resolves : Cell.Resolves w.stands chunks.flatten code)
    (placed : WellPlaced es) :
    ∃ es', c.elements = .ok es' ∧ CodeOutline.of es' = CodeOutline.of es := by
  obtain ⟨rereads, spells, ⟨n, catches, count, read, caught⟩, m, nested, tables, nestedRead,
      answers⟩ := shows_
  have encoded := recorded.encoded q becomes
  have length := rereads.length
  have whole : 0 + code.length = c.codeLength := by
    rw [Nat.zero_add, resolves.length, ← recorded.size, length]
  have inner {e : CodeElement} (member : e ∈ es) {l : Label} (inner : some l ∈ e.inner) {n : Nat}
      (there : w.stands l = some n) : n < w.size := by
    obtain ⟨k, found, rfl⟩ := recorded.stands_eq_some_iff.mp there
    exact recorded.ahead_lt_size becomes (placed.inside e member l inner k found)
  have inside : ∀ i ∈ instructions es, ∀ l, some l ∈ i.labels → ∀ n, w.stands l = some n →
      n < c.codeLength := by
    intro i member l label n there
    obtain ⟨e, here, same⟩ := List.mem_filterMap.mp member
    cases e <;> cases same
    exact length ▸ inner here label there
  obtain ⟨rows, rowsRead, starts, all⟩ := encoded.reads resolves rereads inside whole spells []
    (Nat.le_of_eq (Nat.zero_add c.codeLength).symm)
  rw [List.reverse_nil, List.nil_append] at rowsRead
  have covers := InputCode.covers caught answers all
  have started : ∀ o < c.codeLength, c.labelled catches nested rows o = true →
      o ∈ rows.map Prod.fst := by
    intro o before marked
    obtain ⟨l, -, there⟩ := (labelled_iff_of_covers covers (Nat.le_of_lt before)).mp marked
    obtain ⟨k, found, rfl⟩ := recorded.stands_eq_some_iff.mp there
    refine starts ▸ Cell.mem_starts_iff.mpr
      ⟨k, lt_of_le_of_ne (recorded.position?_le found) ?_, rfl⟩
    rintro rfl
    rw [recorded.count, recorded.ahead_count, length] at before
    exact Nat.lt_irrefl _ before
  have lined : ∀ row ∈ nested.lines, row.1 ∈ rows.map Prod.fst := by
    intro row member
    obtain ⟨written, listed, offset, -⟩ := exists_left_of_forall₂ answers.lines member
    rw [recorded.lines] at listed
    obtain ⟨line, there, rfl⟩ := List.mem_map.mp listed
    exact starts ▸ Cell.mem_starts_iff.mpr
      ⟨_, recorded.count ▸ placed.lined line there, offset.symm⟩
  have keeps := (Options.lacks_of_copiesVerbatim rereads.whole).2.2.2
  obtain ⟨es', elements, composed⟩ :=
    elements_of_parts count read tables nestedRead rowsRead keeps started lined
  refine ⟨es', elements, ?_⟩
  have moved {l : Label} {n : Nat} (used : some l ∈ w.used (instructions es))
      (there : w.stands l = some n) : place es' (c.label n) = place es l :=
    place_label composed recorded becomes starts length there <|
      (labelled_iff_of_covers covers (length ▸ recorded.stands_le becomes there)).mpr
      ⟨l, used, there⟩
  have stays : PlacesSame w.stands c (place es) (place es') (w.used (instructions es)) := by
    intro l used
    cases l with
    | none => rfl
    | some l =>
        rw [Option.bind_some, Option.bind_some, standing]
        cases there : w.stands l with
        | some n => exact moved used there
        | none =>
            have unbound := recorded.bound l
            rw [there, eq_comm, Option.map_eq_none_iff] at unbound
            rw [place, unbound]
            rfl
  exact composed.outline_eq recorded becomes caught answers all stays
    (lines_of_sameLines composed recorded becomes starts length answers.lines placed.lined)

end InputCode

/-- What is trusted of an attribute is trusted of it in a later pool. -/
theorem Emit.Trusts.mono {a : Attribute} (trusts : Trusts p options a) (grown : p.Extends q none) :
    Trusts q options a where
  options parent known := trusts.options parent (grown.parent ▸ known)
  addressable parent known := trusts.addressable parent (grown.parent ▸ known)
  authentic parent known := trusts.authentic parent (grown.parent ▸ known)

namespace CodeDraft

variable {σ : Type} {s s' s'' : Session σ} {text : Bytes}

/-- A body that was written from elements with operands in range, in which everything is in place,
is decoded against every pool that comes out of it as elements that say the same, less what the
options leave out. -/
theorem finish_reads_back {static : Bool} {descriptor : MethodDescriptor}
    {source : Option CodeModel}
    {d : CodeDraft} (sound : s.pool.Sound) (fits : ∀ e ∈ es, e.Fits) (placed : WellPlaced es)
    (accepted : ∀ e ∈ es, ∀ m ∈ e.mentions, m.Accepted s.pool)
    (trusts : ∀ a, .attribute a ∈ es → Emit.Trusts s.pool s.options a)
    (emitted : (es.forM Outlet.terminal.emit : CodeM σ Unit) (writing static descriptor source) s =
      (((), d), s'))
    (finished : d.finish s' = (.ok text, s'')) :
    s.pool.Extends s''.pool none ∧ s''.pool.Sound ∧
      ∀ (q : PoolBuilder) (m : InputMember) (env : Envelope) (room : Nat), s''.pool.Becomes q →
        m.input.Reads q → m.input.options.copiesVerbatim = true →
        (∃ d, MethodDescriptor.parse m.descriptor.text = .ok d) → env.name.text = "Code" →
        env.length = text.length → m.input.cursor.Spells env.offset text →
        ∃ c span es', Attribute.decode ⟨m.input, .method, some m, none⟩ room env =
          .ok (.mk span (.code c)) ∧
          c.method = m ∧ c.elements = .ok es' ∧
          CodeOutline.of es' = CodeOutline.of (es.filter (CodeElement.keptBy s.options)) := by
  obtain ⟨grown, sound', same, stop, w, writes, records⟩ :=
    records_forM (records_writing static descriptor source sound) fits accepted emitted
  rw [finish, writes, stop] at finished
  obtain ⟨quiet, filled, short, wrote⟩ := BodyWriter.writes_of_finish finished
  obtain ⟨chunks, recorded⟩ := records quiet
  rw [List.nil_append] at recorded
  have kept {e : CodeElement} (member : e ∈ es.filter (CodeElement.keptBy s.options)) : e ∈ es :=
    (List.mem_filter.mp member).1
  have placed := placed.filter (CodeElement.keptBy_of_instruction? s.options)
    (CodeElement.keptBy_of_binding? s.options)
  have tables : w.Fits s'.pool s.options w.size :=
    recorded.fits ⟨.refl _, sound', quiet.pool⟩ (fun e member => fits e (kept member)) placed short
      (fun a member => (trusts a (kept member)).mono grown)
      fun e member m mentioned => (accepted e (kept member) m mentioned).mono grown
  obtain ⟨grown', sound'', -, sent⟩ :=
    (BodyWriter.sends_parts tables).sends (.refl _) sound' same (same ▸ wrote)
  refine ⟨grown.trans grown', sound'',
    fun q m env room becomes reads whole described named length spells => ?_⟩
  obtain ⟨code, maxStack, rows, n, attributes, spelled⟩ := sent q becomes
  have resolves : Cell.Resolves w.stands chunks.flatten code :=
    recorded.cells ▸ BodyWriter.resolves_of_code spelled.code
  have size : code.length = w.size := resolves.length.trans recorded.size.symm
  obtain ⟨c, span, decoded, method, shown⟩ :=
    spelled.decodes size filled short reads whole described named length spells room
  obtain ⟨es', elements, outline⟩ := shown.elements recorded (becomes.after grown') resolves placed
  exact ⟨c, span, es', decoded, method, elements, outline⟩

/-! ### A loop -/

/-- A loop that adds to a slot which takes two bytes. -/
def loopElements : List CodeElement :=
  [.label (some (.fresh 0)), .instruction (.increment 300 1000),
    .instruction (.branch Opcode.goto (some (.fresh 0)))]

def loopText : Bytes :=
  [0, 0, 1, 45, 0, 0, 0, 9, 196, 132, 1, 44, 3, 232, 167, 255, 250, 0, 0, 0, 0]

/-- A body that declares how deep its stack is and how many locals it has. -/
def loopSource : CodeModel := .built { parent := none, declared := some (0, 301), elements := [] }

def loopSession : Session Unit := Build.start .keepMaxStack .empty ()

def loopLabelled : BodyWriter :=
  { (BodyWriter.start 301).bindAt (.fresh 0) 0 with flow := #[.label (some (.fresh 0))] }

def loopWriter : BodyWriter :=
  { loopLabelled with
    cells := #[.byte 196, .byte 132, .byte 1, .byte 44, .byte 3, .byte 232, .byte 167,
      .near 6 (some (.fresh 0))]
    size := 9
    flow := loopElements.toArray }

def loopDraft (w : BodyWriter) : CodeDraft :=
  { writing true ⟨[], .void⟩ (some loopSource) with target := .writing w }

/-- The method of an input that has nothing but the bytes of the body. -/
def loopMember : InputMember :=
  { (default : InputMember) with
    descriptor := ⟨default, "()V"⟩
    input := { (default : Input) with
      layout := { (default : Layout) with cursor := ⟨loopText.toArray⟩ } } }

/-- The label of the loop is taken by a draft that has nothing yet. -/
theorem emitted_loopLabel : (Outlet.terminal.emit (.label (some (.fresh 0))) : CodeM Unit Unit)
    (writing true ⟨[], .void⟩ (some loopSource)) loopSession =
      (((), loopDraft loopLabelled), loopSession) := by
  have free : (BodyWriter.start 301).bound.contains (.fresh 0) = false := Std.HashMap.contains_empty
  have labelled : (BodyWriter.start 301).label (some (.fresh 0)) = .ok loopLabelled := by
    rw [BodyWriter.label, free]
    rfl
  have took : ((BodyWriter.start 301).put loopSession.options (.label (some (.fresh 0)))).run
      loopSession.pool = (.ok loopLabelled, loopSession.pool) := congrArg
      (·, PoolBuilder.empty) labelled
  refine (Outlet.emit_terminal ⟨rfl, rfl⟩ _).trans
    ((accept_writing (show _ = CodeTarget.writing (BodyWriter.start 301) from rfl) _ _).trans ?_)
  rw [took]
  rfl

/-- The elements of the loop are taken one after another. -/
theorem emitted_loopElements : (loopElements.forM Outlet.terminal.emit : CodeM Unit Unit)
    (writing true ⟨[], .void⟩ (some loopSource)) loopSession =
      (((), loopDraft loopWriter), loopSession) := by
  let act : CodeM Unit Unit := Outlet.terminal.emit (.label (some (.fresh 0)))
  change (loopElements.tail.forM Outlet.terminal.emit : CodeM Unit Unit)
    (act (writing true ⟨[], .void⟩ (some loopSource)) loopSession).1.2
    (act (writing true ⟨[], .void⟩ (some loopSource)) loopSession).2 = _
  rw [show act _ _ = _ from emitted_loopLabel]
  rfl

/-- The code of the loop: a wide increment and a jump back over it. -/
theorem code_loopWriter : loopWriter.code = .ok [196, 132, 1, 44, 3, 232, 167, 255, 250] := by
  have there : loopWriter.bound[Label.fresh 0]? = some 0 := Std.HashMap.getElem?_insert_self
  have start : loopWriter.offset (some (.fresh 0)) = .ok 0 := by rw [BodyWriter.offset, there]
  have back : Cell.resolve loopWriter.offset (.near 6 (some (.fresh 0))) = .ok [255, 250] := by
    rw [Cell.resolve, start]
    rfl
  change (do
    let parts ← (Cell.bytes [196, 132, 1, 44, 3, 232, 167] ++ [Cell.near 6 (some (.fresh 0))]).mapM
      (Cell.resolve loopWriter.offset)
    return parts.flatten : Except Error Bytes) = _
  rw [List.mapM_append, List.mapM_cons, back]
  rfl

/-- The finished loop, computed. -/
theorem finish_loopDraft :
    (loopDraft loopWriter).finish loopSession = (.ok loopText, loopSession) := by
  change Emit.finish (loopWriter.parts .keepMaxStack (some 0)) loopSession = _
  rw [BodyWriter.parts, code_loopWriter]
  rfl

/-- The elements of the loop fit their encoding. -/
theorem fits_loopElements : ∀ e ∈ loopElements, e.Fits := by
  have branches : Opcode.goto.shape? = some .branch := by decide +kernel
  exact List.forall_mem_cons.mpr ⟨trivial, List.forall_mem_cons.mpr
    ⟨trivial, List.forall_mem_singleton.mpr branches⟩⟩

/-- The elements of the loop are well placed: the jump is for the increment. -/
theorem wellPlaced_loopElements : CodeElement.WellPlaced loopElements where
  inside e member l inner n found := by
    have both : e.inner ⊆ [some (.fresh 0)] := by
      simp only [loopElements, List.mem_cons, List.not_mem_nil, or_false] at member
      rcases member with rfl | rfl | rfl
      · exact List.nil_subset _
      · exact List.nil_subset _
      · exact List.Subset.refl _
    obtain rfl : l = .fresh 0 := Option.some.inj (List.mem_singleton.mp (both inner))
    obtain rfl : 0 = n := Option.some.inj found
    decide
  lined := nofun
  covering c member := by simp [loopElements] at member

/-- The loop refers to no constants. -/
theorem mentions_loopElements : ∀ e ∈ loopElements, e.mentions = [] := by
  simp [loopElements, CodeElement.mentions, Instruction.mentions]

/-- An input of the bytes alone reads the empty pool. -/
theorem reads_loopMember : loopMember.input.Reads .empty where
  inv := PoolBuilder.sound_empty rfl
  addressable := by
    change loopText.toArray.size < _
    decide
  entry e has := by
    cases has with
    | own place slot => cases slot
    | inherited known holds => cases known

/-- The loop is decoded as a loop. -/
theorem loop_reads_back : (∀ e ∈ loopElements, e.Fits) ∧ CodeElement.WellPlaced loopElements ∧
    (loopElements.forM Outlet.terminal.emit : CodeM Unit Unit)
      (writing true ⟨[], .void⟩ (some loopSource)) loopSession =
        (((), loopDraft loopWriter), loopSession) ∧
    (loopDraft loopWriter).finish loopSession = (.ok loopText, loopSession) ∧
    ∃ c span es', Attribute.decode ⟨loopMember.input, .method, some loopMember, none⟩ 0
        ⟨⟨default, "Code"⟩, 0, loopText.length⟩ = .ok (.mk span (.code c)) ∧
      c.elements = .ok es' ∧ CodeOutline.of es' = CodeOutline.of loopElements := by
  refine ⟨fits_loopElements, wellPlaced_loopElements, emitted_loopElements, finish_loopDraft, ?_⟩
  obtain ⟨-, -, reads⟩ := finish_reads_back PoolBuilder.sound_empty fits_loopElements
    wellPlaced_loopElements (fun e member => mentions_loopElements e member ▸ List.forall_mem_nil _)
    (fun a member => by simp [loopElements] at member) emitted_loopElements finish_loopDraft
  obtain ⟨c, span, es', decoded, -, elements, outline⟩ := reads .empty loopMember
    ⟨⟨default, "Code"⟩, 0, loopText.length⟩ 0
    ⟨.refl _, PoolBuilder.sound_empty, rfl⟩ reads_loopMember
    (by decide) ⟨_, MethodDescriptor.parse_bare⟩ rfl rfl (Cursor.spells_all _)
  exact ⟨c, span, es', decoded, elements, outline⟩

end CodeDraft

end JvmClass
