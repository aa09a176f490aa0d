import JvmClass.Proofs.ClassFile.Parse
import JvmClass.Proofs.Code.Safety
import JvmClass.Proofs.Constant.History
import JvmClass.Proofs.Constant.Safety

/-!
# Decoding a class file ends in a value or an error

Whatever bytes are parsed as a class file, under whatever options, parsing them and decoding any
part of the class gives that part or an error that callers may keep. A read outside of the buffer
and a row that a table lacks would be errors of another kind, and none of them is met.
-/

namespace JvmClass

open Scan (Proceeds Stays)

namespace Layout

variable {c : Cursor}

/-- The size of a constant is found, or bytes are missing. -/
theorem yields_sizeAt {t : Tag} {p last : Nat} :
    Yields Lookup.Harmless (sizeAt c t p last) fun _ => True := by
  refine .guard (fun _ => rfl) fun room => .ite (fun isText => ?_) fun _ => .pure trivial
  rw [has_eq_false_iff, Decidable.not_not, isText, constantSize] at room
  refine (Yields.covered (Cursor.number?_of_inside (p := p + 1) (by omega))).bind fun n _ => ?_
  exact .guard (fun _ => rfl) fun _ => .pure trivial

/-- The constants are found one after another, or one of them is flawed. -/
theorem yields_scanConstants {left i p : Nat} {found : Array (Option Nat)} :
    Yields Lookup.Harmless (scanConstants c left i p found) fun _ => True := by
  fun_induction scanConstants c left i p found with
  | case1 => exact .pure trivial
  | case2 | case3 | case4 => exact .throw rfl
  | case5 i p found b byte t tag slots left e stopped => exact .throw (yields_sizeAt.2 e stopped)
  | case7 left i p found b byte t tag slots e stopped => exact .throw (yields_sizeAt.2 e stopped)
  | case6 | case8 => assumption

/-- Scanning a member stays inside a window. -/
theorem stays_scanMember {stop : Nat} (window : Window c stop) :
    Stays Lookup.Harmless c stop scanMember fun _ => True := by
  have short (d : Shortage) : Lookup.Harmless (.shortage d) := rfl
  refine Stays.pos.bind fun _ _ => (Stays.skip window short (n := 6) (by decide)).bind fun _ _ => ?_
  refine Stays.pos.bind fun _ _ => (Attribute.stays_skipAttributes window short).bind fun _ _ => ?_
  exact Stays.pos.bind fun _ _ => .pure trivial

/-- Scanning what comes behind the constants stays inside a window. -/
theorem stays_scanStructure {stop : Nat} (window : Window c stop) (start : Layout) :
    Stays Lookup.Harmless c stop (scanStructure start) fun _ => True := by
  have short (d : Shortage) : Lookup.Harmless (.shortage d) := rfl
  have word := Stays.u2 window short
  have members := Stays.counted window short (stays_scanMember window)
  refine word.bind fun _ _ => word.bind fun _ _ => word.bind fun _ _ => ?_
  refine (Stays.counted window short word).bind fun _ _ => ?_
  refine members.bind fun _ _ => members.bind fun _ _ => Stays.pos.bind fun _ _ => ?_
  exact (Attribute.stays_skipAttributes window short).bind fun _ _ => .pure trivial

/-- Every read of the scan has been covered. -/
theorem yields_scan {bytes : Array UInt8} {options : Options}
    (addressable : Cursor.Addressable ⟨bytes⟩) :
    Yields Lookup.Harmless (scan bytes options) fun l =>
      l.Scanned ∧ l.cursor = ⟨bytes⟩ ∧ l.options = options := by
  refine Yields.strengthen (?_ : Yields _ _ fun _ => True) fun l given =>
    Scanned.of_scan addressable given
  refine .guard (fun _ => rfl) fun long => ?_
  have room : 10 ≤ Cursor.size ⟨bytes⟩ := by
    have missing : (!Cursor.has ⟨bytes⟩ (0 : Nat) (10 : Nat)) = true ↔ _ := has_eq_false_iff
    have held := (not_congr missing).mp long
    omega
  have header (width p : Nat) (inside : p + width ≤ 10) :
      Yields Lookup.Harmless (covered (Cursor.number? ⟨bytes⟩ width p)) fun _ => True :=
    (Yields.covered (Cursor.number?_of_inside (by omega))).mono fun _ _ => trivial
  refine (header 4 0 (by decide)).bind fun word _ => .guard (fun _ => rfl) fun _ => ?_
  refine (header 2 8 (by decide)).bind fun count _ => .guard (fun _ => rfl) fun _ => ?_
  have pool {left i p : Nat} {found : Array (Option Nat)} (inside : p ≤ Cursor.size ⟨bytes⟩) :
      Yields Lookup.Harmless (scanConstants ⟨bytes⟩ left i p found) fun r =>
        r.2 ≤ Cursor.size ⟨bytes⟩ := by
    refine yields_scanConstants.strengthen fun ⟨offsets, q⟩ given => ?_
    obtain ⟨rest, -, -, constants⟩ := constants_of_scanConstants given
    exact (constants.inside inside).2
  refine (pool room).bind fun ⟨offsets, poolEnd⟩ inside => ?_
  refine (header 2 4 (by decide)).bind fun minor _ => (header 2 6 (by decide)).bind fun major _ =>
    ?_
  have window := Window.ofSize addressable
  dsimp only at inside ⊢
  rw [Scan.onWindow_eq window inside]
  obtain ⟨-, stops⟩ := stays_scanStructure window
    { (default : Layout) with
      cursor := ⟨bytes⟩, options, offsets, poolEnd, minor, major } poolEnd inside
  split
  · rename_i s read
    exact .throw (stops s read)
  · exact .guard (fun _ => rfl) fun _ => .pure trivial

end Layout

/-- An input whose layout was scanned and whose pool reports no read outside of the buffer. -/
structure Input.Decodable (i : Input) : Prop where
  addressable : i.cursor.Addressable
  scanned : i.layout.Scanned
  pool : i.pool.Reports i.pool.Stops

namespace Input.Decodable

variable {i : Input} (decodable : i.Decodable)
include decodable

/-- An input can be decoded in its other state, too. -/
theorem settle (search : TableSearch) : (i.settle search).Decodable where
  addressable := decodable.addressable
  scanned := decodable.scanned
  pool := (Pool.reports_afterSearch decodable.scanned decodable.addressable Lookup.tame_harmless
    search).mono fun _ => .inl

/-- An input can be decoded after any use of it. -/
theorem settledBy {α : Type} (use : Input → Except Error α) : (i.settledBy use).Decodable := by
  rw [Input.settledBy]
  split
  · split
    · exact decodable
    · split
      · exact decodable.settle _
      · exact decodable
  · exact decodable

/-- A constant that cannot be decoded stops with an error of the pool. -/
theorem stops_entry {n : Int} {e : Error} (stopped : i.pool.entry n = .error e) :
    i.pool.Stops e := by
  simp only [Pool.entry] at stopped
  split at stopped
  · obtain rfl := Except.error.inj stopped
    exact .inl rfl
  · cases here : i.pool.entries[n.toNat]? with
    | none =>
        simp only [here, Option.getD_none, Except.error.injEq] at stopped
        exact stopped ▸ .inl rfl
    | some outcome =>
        simp only [here, Option.getD_some] at stopped
        exact decodable.pool.entries _ e (by rw [here, stopped])

/-- A row is decoded, or it stops with an error of the pool. -/
theorem yields_row (r : Int) : Yields i.pool.Stops (i.pool.row r) fun _ => True := by
  have table : Yields i.pool.Stops i.pool.rows fun rows => i.pool.rows = .ok rows :=
    ⟨fun _ given => given, decodable.pool.table⟩
  refine table.bind fun rows read => .guard (fun _ => .inl rfl) fun natural => ?_
  refine ⟨fun _ _ => trivial, fun e stopped => ?_⟩
  cases here : rows[r.toNat]? with
  | none =>
      simp only [here, Option.getD_none, Except.error.injEq] at stopped
      exact stopped ▸ .inl rfl
  | some outcome =>
      simp only [here, Option.getD_some] at stopped
      exact decodable.pool.rows rows _ e read (by rw [here, stopped])

/-- Whatever stops an input may be failed with while its parts are decoded. -/
theorem safe : i.Safe i.pool.Stops where
  addressable := decodable.addressable
  plain _ harmless := .inl harmless
  wraps _ _ _ stops := stops
  entry _ _ := decodable.stops_entry

end Input.Decodable

/-- A use of an input that waits for a search makes it first. -/
theorem Input.harmless_query {α : Type} {i : Input} {use : Input → Except Error α} {e : Error}
    (now : ∀ e, use i = .error e → i.pool.Stops e)
    (later : ∀ search e, use (i.settle search) = .error e → (i.settle search).pool.Stops e)
    (stopped : i.query use = .error e) : e.abort? = none := by
  simp only [query, settledBy] at stopped
  split at stopped
  · split at stopped
    · rename_i a given
      rw [given] at stopped
      cases stopped
    · rename_i e' first
      split at stopped
      · rename_i search asked
        refine (later search e stopped).resolve_right fun waits => ?_
        rw [show (i.settle search).pool.unsettled = false from Pool.unsettled_afterSearch search]
          at waits
        cases waits.1
      · rename_i unasked
        obtain rfl := Except.error.inj (first.symm.trans stopped)
        refine (now e' first).resolve_right ?_
        rintro ⟨-, n, search, waits⟩
        simp [Error.search?, waits] at unasked
  · rename_i settled
    exact (now e stopped).resolve_right fun waits => settled waits.1

section Header

variable {i : Input} (decodable : i.Decodable)
include decodable

/-- Spans of members lie in the buffer, and the table of class attributes follows them. -/
theorem Input.Decodable.span {span : MemberSpan}
    (member : span ∈ i.layout.fields ∨ span ∈ i.layout.methods) :
    span.attributes = span.start + 6 ∧ span.attributes ≤ span.stop ∧
      span.stop + 2 ≤ i.cursor.size := by
  obtain ⟨q, -, fields, -, methods⟩ := decodable.scanned.members
  obtain ⟨rows, table⟩ := decodable.scanned.attributes
  have last := table.forward
  have between := methods.forward
  rcases member with member | member
  · obtain ⟨start, ordered, before⟩ := fields.span member
    exact ⟨start, ordered, by simp only [cursor]; omega⟩
  · obtain ⟨start, ordered, before⟩ := methods.span member
    exact ⟨start, ordered, by simp only [cursor]; omega⟩

/-- A member is read from where it lies, or an error of the pool stops it. -/
theorem InputMember.yields_read {className : Text} {span : MemberSpan}
    (member : span ∈ i.layout.fields ∨ span ∈ i.layout.methods) :
    Yields i.pool.Stops (InputMember.read i className span) fun m => m.input = i ∧
      m.span = span := by
  obtain ⟨start, ordered, inside⟩ := decodable.span member
  have word (p : Nat) (within : p + 2 ≤ span.start + 6) :
      Yields i.pool.Stops (Layout.covered (i.cursor.u2? p)) fun _ => True :=
    (Yields.covered (Cursor.number?_of_inside (by omega))).mono fun _ _ => trivial
  refine (word (span.start + 2) (by omega)).bind fun _ _ => decodable.safe.refer.bind fun _ _ => ?_
  refine (word (span.start + 4) (by omega)).bind fun _ _ => decodable.safe.refer.bind fun _ _ => ?_
  exact (word span.start (by omega)).bind fun _ _ => .pure ⟨rfl, rfl⟩

end Header

/-- A class in which every member lies in the input. -/
structure ClassFile.Decodable (c : ClassFile) : Prop where
  input : c.input.Decodable
  fields : ∀ m ∈ c.fields, m.input = c.input ∧ m.span ∈ c.input.layout.fields
  methods : ∀ m ∈ c.methods, m.input = c.input ∧ m.span ∈ c.input.layout.methods

namespace ClassFile

/-- The header of a scanned class file names what is there. -/
theorem yields_ofInput {i : Input} (decodable : i.Decodable) :
    Yields i.pool.Stops (ofInput i) fun c => c.input = i ∧ c.Decodable := by
  have refer {α : Type} {want : Entry → Option α} {offset : Int} {n : Nat} :
      Yields i.pool.Stops (i.pool.refer want offset n) fun _ => True := decodable.safe.refer
  have names {α : Type} {f : α → Except Error ClassEntry} {as : List α}
      (each : ∀ a, Yields i.pool.Stops (f a) fun _ => True) :
      Yields i.pool.Stops (as.mapM f) fun _ => True :=
    (Yields.mapM fun a _ => each a).mono fun _ _ => trivial
  have members {spans : List MemberSpan} {className : Text}
      (held : ∀ span ∈ spans, span ∈ i.layout.fields ∨ span ∈ i.layout.methods) :
      Yields i.pool.Stops (spans.mapM (InputMember.read i className)) fun ms =>
        ∀ m ∈ ms, m.input = i ∧ m.span ∈ spans :=
    Yields.mapM fun span member => (InputMember.yields_read decodable (held span member)).mono
      fun m ⟨input, same⟩ => ⟨input, same ▸ member⟩
  rw [ofInput]
  refine refer.bind fun this _ => ?_
  extract_lets rest
  have rest (super : Option ClassEntry) :
      Yields i.pool.Stops (rest super) fun c => c.input = i ∧ c.Decodable := by
    refine (names fun _ => refer).bind fun interfaces _ => ?_
    refine (members fun _ => .inl).bind fun fields fieldsHeld => ?_
    refine (members fun _ => .inr).bind fun methods methodsHeld => ?_
    exact .pure ⟨rfl, decodable, fieldsHeld, methodsHeld⟩
  refine .ite (fun _ => rest none) fun _ => ?_
  exact Yields.bind decodable.safe.referSome fun super _ => rest super

/-- The class with its input in another state lies in it as before. -/
theorem Decodable.withInput {c : ClassFile} (decodable : c.Decodable) {i : Input}
    (input : i.Decodable) (same : i.layout = c.input.layout) : (c.withInput i).Decodable where
  input := input
  fields m member := by
    obtain ⟨f, held, rfl⟩ := List.mem_map.mp member
    exact ⟨rfl, show f.span ∈ i.layout.fields from same ▸ (decodable.fields f held).2⟩
  methods m member := by
    obtain ⟨f, held, rfl⟩ := List.mem_map.mp member
    exact ⟨rfl, show f.span ∈ i.layout.methods from same ▸ (decodable.methods f held).2⟩

/-- A class can be decoded in each of its states. -/
theorem StateOf.decodable {c c' : ClassFile} (state : c.StateOf c') (decodable : c.Decodable) :
    c'.Decodable := by
  cases state with
  | parsed => exact decodable
  | settled search => exact decodable.withInput (decodable.input.settle search) rfl

/-- A part of a class that is decoded when it is asked for. -/
inductive Part where
  | constant (index : Int)
  | bootstrapRow (row : Int)
  | attributes
  | fieldAttributes (field : Nat)
  | methodAttributes (method : Nat)
  /-- The elements of the body that one of the attributes of a method is. -/
  | elements (method position : Nat)

/-- What a part is decoded to. -/
inductive Decoded where
  | constant (e : Entry)
  | bootstrapRow (row : BootstrapRow)
  | attributes (as : List Attribute)
  | elements (es : List CodeElement)
  /-- There is no such member, or no such body. -/
  | absent

/-- The body that an attribute is. -/
def body? (a : Attribute) : Option InputCode :=
  match a.body with
  | .code c => some c
  | _ => none

/-- Decodes a part of a class. -/
def Part.decode (part : Part) (c : ClassFile) : Except Error Decoded :=
  match part with
  | .constant i => .constant <$> c.pool.entry i
  | .bootstrapRow r => .bootstrapRow <$> c.pool.row r
  | .attributes => .attributes <$> c.attributes
  | .fieldAttributes k =>
    match c.fields[k]? with
    | some f => .attributes <$> f.fieldAttributes
    | none => .ok .absent
  | .methodAttributes k =>
    match c.methods[k]? with
    | some m => .attributes <$> m.methodAttributes
    | none => .ok .absent
  | .elements k n =>
    match c.methods[k]? with
    | some m => do
      match (← m.methodAttributes)[n]?.bind body? with
      | some code => .elements <$> code.elements
      | none => .ok .absent
    | none => .ok .absent

section Parts

variable {c : ClassFile} (decodable : c.Decodable)
include decodable

/-- The attributes of a class are decoded, or an error of the pool stops them. -/
theorem yields_attributes : Yields c.pool.Stops c.attributes fun _ => True := by
  obtain ⟨rows, table⟩ := decodable.input.scanned.attributes
  have forward := table.forward
  have fits : Attribute.Context.Fits
      { input := c.input, holder := .class, method := none, code := none } := ⟨nofun, nofun⟩
  exact (Attribute.yields_table fits decodable.input.safe (show _ ≤ c.input.cursor.size by
    simp only [Input.cursor]; omega) (Nat.le_refl _)).mono fun _ _ => trivial

/-- The attributes of a field are decoded, or an error of the pool stops them. -/
theorem yields_fieldAttributes {f : InputMember} (member : f ∈ c.fields) :
    Yields c.pool.Stops f.fieldAttributes fun _ => True := by
  obtain ⟨input, held⟩ := decodable.fields f member
  obtain ⟨-, ordered, inside⟩ := decodable.input.span (.inl held)
  have fits : Attribute.Context.Fits
      { input := f.input, holder := .field, method := none, code := none } := ⟨nofun, nofun⟩
  have safe : f.input.Safe c.pool.Stops := input ▸ decodable.input.safe
  have room : f.span.stop ≤ f.input.cursor.size := by rw [input]; omega
  exact (Attribute.yields_table fits safe ordered room).mono fun _ _ => trivial

/-- Among the attributes of a method, bodies are its own, and two bytes follow them. -/
theorem yields_methodAttributes {m : InputMember} (member : m ∈ c.methods) :
    Yields c.pool.Stops m.methodAttributes fun as => ∀ a ∈ as, ∀ code, body? a = some code →
      code.method = m ∧ code.Lies m.span.stop := by
  obtain ⟨input, held⟩ := decodable.methods m member
  obtain ⟨-, ordered, inside⟩ := decodable.input.span (.inr held)
  have fits : Attribute.Context.Fits
      { input := m.input, holder := .method, method := some m, code := none } :=
    ⟨fun _ => ⟨m, rfl, rfl⟩, nofun⟩
  have safe : m.input.Safe c.pool.Stops := input ▸ decodable.input.safe
  have room : m.span.stop ≤ m.input.cursor.size := by rw [input]; omega
  refine (Attribute.yields_table fits safe ordered room).mono fun as sound a here code is => ?_
  have same : a.body = .code code := by
    unfold body? at is
    split at is
    · rename_i body
      rw [body, Option.some.inj is]
    · cases is
  obtain ⟨own, lies⟩ := sound a here code same
  exact ⟨(Option.some.inj own).symm, lies⟩

/-- A body is decoded into elements, or an error of the pool stops it. -/
theorem yields_elements {m : InputMember} (member : m ∈ c.methods) {code : InputCode}
    (own : code.method = m) (lies : code.Lies m.span.stop) :
    Yields c.pool.Stops code.elements fun _ => True := by
  obtain ⟨input, held⟩ := decodable.methods m member
  obtain ⟨-, -, inside⟩ := decodable.input.span (.inr held)
  have same : code.input = c.input := by rw [InputCode.input, own, input]
  have safe : code.input.Safe c.pool.Stops := same ▸ decodable.input.safe
  exact InputCode.yields_elements safe lies (by rw [InputCode.cursor, same]; exact inside)

/-- Every part of a class is decoded, or fails with an error that may be kept. -/
theorem yields_part (part : Part) : Yields c.pool.Stops (part.decode c) fun _ => True := by
  cases part with
  | constant i => exact Yields.map ⟨fun _ _ => trivial, fun e => decodable.input.stops_entry⟩
  | bootstrapRow r => exact (decodable.input.yields_row r).map
  | attributes => exact (yields_attributes decodable).map
  | fieldAttributes k =>
      simp only [Part.decode]
      split
      · rename_i f there
        exact (yields_fieldAttributes decodable (List.mem_of_getElem? there)).map
      · exact .pure trivial
  | methodAttributes k =>
      simp only [Part.decode]
      split
      · rename_i m there
        have as := yields_methodAttributes decodable (List.mem_of_getElem? there)
        exact (as.mono fun _ _ => trivial).map
      · exact .pure trivial
  | elements k n =>
      simp only [Part.decode]
      split
      · rename_i m there
        have member := List.mem_of_getElem? there
        refine (yields_methodAttributes decodable member).bind fun as bodies => ?_
        split
        · rename_i code found
          obtain ⟨a, here, is⟩ := Option.bind_eq_some_iff.mp found
          obtain ⟨own, lies⟩ := bodies a (List.mem_of_getElem? here) code is
          exact (yields_elements decodable member own lies).map
        · exact .pure trivial
      · exact .pure trivial

/-- A use of a class as that of its input makes the first search that the input waits for. -/
theorem harmless_query_part {part : Part} {e : Error} (stopped : c.query part.decode = .error e) :
    e.abort? = none := by
  have whole : c.input.query (fun i => part.decode (c.withInput i)) = .error e := stopped
  refine Input.harmless_query (fun e => ?_) (fun search e => ?_) whole
  · exact (yields_part (decodable.withInput decodable.input rfl) part).2 e
  · exact (yields_part (decodable.withInput (decodable.input.settle search) rfl) part).2 e

/-- The instructions of a body end before any bound on their number that is at least the length of
the code. -/
theorem instructions_end {m : InputMember} (member : m ∈ c.methods) {as : List Attribute}
    (given : m.methodAttributes = .ok as) {a : Attribute} (here : a ∈ as) {code : InputCode}
    (is : body? a = some code) {fuel : Nat} (enough : code.codeLength ≤ fuel) :
    code.readInstructionsFrom [] 0 fuel = code.readInstructionsFrom [] 0 code.codeLength := by
  obtain ⟨own, lies⟩ := (yields_methodAttributes decodable member).1 as given a here code is
  have same : code.input = c.input := by
    rw [InputCode.input, own, (decodable.methods m member).1]
  have addressable : code.cursor.Addressable := by
    rw [InputCode.cursor, same]
    exact decodable.input.addressable
  exact InputCode.readInstructionsFrom_of_enough lies addressable [] (by omega) (by omega)

end Parts

/-- A parsed class is decodable, and parsing fails with no error that cannot be kept. -/
theorem yields_parse {bytes : Array UInt8} (addressable : Cursor.Addressable ⟨bytes⟩)
    {options : Options} {number : Nat} :
    Yields Lookup.Harmless (parse number bytes options) Decodable := by
  refine (Layout.yields_scan addressable).bind fun l ⟨scanned, cursor, _⟩ => ?_
  have addressable : l.cursor.Addressable := cursor ▸ addressable
  have fresh : Input.Decodable { layout := l, pool := .ofLayout l number } :=
    ⟨addressable, scanned, Pool.reports_ofLayout scanned addressable number⟩
  refine ⟨fun c given => ?_, fun e stopped => ?_⟩
  · have settled := fresh.settledBy ofInput
    exact ((yields_ofInput settled).1 c given).2
  · exact Input.harmless_query (yields_ofInput fresh).2
      (fun search => (yields_ofInput (fresh.settle search)).2) stopped

/-- Whatever bytes are parsed, under whatever options, parsing them ends in a class or an error, and
so does decoding any part of the class, before and after the first search for its bootstrap table.
Never is that error a read outside of the buffer or of a row that is not there. Lookups follow
references no deeper than there are indices and find a place for all that they remember, and every
body ends before any bound on its instructions that the length of its code does not exceed. -/
theorem decoding_ends (bytes : Array UInt8) (addressable : Cursor.Addressable ⟨bytes⟩)
    (options : Options) (number : Nat) :
    (∀ e, parse number bytes options = .error e → e.abort? = none) ∧
    ∀ c, parse number bytes options = .ok c → ∀ c', c.StateOf c' →
      (∀ (part : Part) e, c'.query part.decode = .error e → e.abort? = none) ∧
      (∀ (call : Lookup.Call) depth, c'.input.layout.size < depth →
        call.within c'.input.layout c'.input.origin depth =
          call.look c'.input.layout c'.input.origin) ∧
      (∀ calls : List Lookup.Call,
        Lookup.Shaped c'.input.layout (Lookup.after c'.input.layout c'.input.origin calls)) ∧
      ∀ m ∈ c'.methods, ∀ as, m.methodAttributes = .ok as → ∀ a ∈ as, ∀ code,
        body? a = some code → ∀ fuel, code.codeLength ≤ fuel →
          code.readInstructionsFrom [] 0 fuel = code.readInstructionsFrom [] 0 code.codeLength := by
  obtain ⟨decodes, stops⟩ : Yields Lookup.Harmless (parse number bytes options) Decodable :=
    yields_parse addressable
  refine ⟨stops, fun c given c' state => ?_⟩
  have decodable := state.decodable (decodes c given)
  exact ⟨fun part e => harmless_query_part decodable,
    fun call depth deep => Lookup.within_eq_look deep call,
    fun calls => (Lookup.after_recalls calls).2,
    fun m member as read a here code is fuel => instructions_end decodable member read here is⟩

/-- A class `A` with one method, the body of which ends in a table of line numbers without a count.
What is read for the count are the two bytes that follow, which say how many attributes the class
has. -/
def uncounted : Array UInt8 :=
  #[0xCA, 0xFE, 0xBA, 0xBE, 0, 0, 0, 52, 0, 6,
    1, 0, 1, 65,
    7, 0, 1,
    1, 0, 4, 67, 111, 100, 101,
    1, 0, 15, 76, 105, 110, 101, 78, 117, 109, 98, 101, 114, 84, 97, 98, 108, 101,
    1, 0, 3, 40, 41, 86,
    0, 0, 0, 2, 0, 0, 0, 0, 0, 0,
    0, 1, 0, 8, 0, 1, 0, 5, 0, 1,
    0, 3, 0, 0, 0, 19, 0, 0, 0, 0, 0, 0, 0, 1, 177, 0, 0, 0, 1, 0, 4, 0, 0, 0, 0,
    0, 0]

/-- The bytes of the class are few enough to be addressed. -/
theorem addressable_uncounted : Cursor.Addressable ⟨uncounted⟩ := by
  rw [Cursor.Addressable]
  decide

/-- A body of the class is refused with an error that can be kept back. -/
theorem decoding_ends_uncounted : ∃ c e, parse 0 uncounted .none = .ok c ∧
    c.query (Part.elements 0 0).decode = .error e ∧ e.abort? = none := by
  have ran : (match parse 0 uncounted .none with
      | .error _ => false
      | .ok c =>
        match c.query (Part.elements 0 0).decode with
        | .error _ => true
        | .ok _ => false) = true := by
    decide +kernel
  split at ran
  · cases ran
  · rename_i c parsed
    split at ran
    · rename_i e stopped
      have ends := decoding_ends uncounted addressable_uncounted .none 0
      exact ⟨c, e, parsed, stopped, (ends.2 c parsed c .parsed).1 _ e stopped⟩
    · cases ran

end ClassFile

end JvmClass
