import JvmClass.Attribute.Reader
import JvmClass.Proofs.ClassFile.Layout
import JvmClass.Proofs.ClassFile.Parse

/-!
# What a decoded attribute table holds

Decoding goes over a table row by row, as scanning does. A decoded attribute has the name that
its row refers to and remembers where the body of the row lies. The table of a class is a row of
envelopes, each of which holds a decoded attribute, unless it holds the bootstrap methods, which are
read with the constants.
-/

namespace JvmClass

namespace Scan

variable {α β : Type} {post : α → Prop}

/-- Whatever a step gives has `post`. -/
def Returns (x : Scan α) (post : α → Prop) : Prop :=
  ∀ d a d', x d = .ok (a, d') → post a

/-- A step that reads nothing returns its value. -/
theorem Returns.pure {a : α} (holds : post a) : Returns (pure a) post :=
  fun _ _ _ given => (pure_eq_ok_iff.mp given).1 ▸ holds

/-- A step returns what the step after it returns. -/
theorem Returns.bind {x : Scan β} {f : β → Scan α} (next : ∀ b, Returns (f b) post) :
    Returns (x >>= f) post := fun _ _ _ given => by
  obtain ⟨b, e, -, last⟩ := bind_eq_ok_iff.mp given
  exact next b _ _ _ last

/-- A step that fails returns nothing. -/
theorem Returns.fail {e : Error} : Returns (Scan.fail e) post := fun _ _ _ given => nomatch given

/-- A check changes nothing about what is returned after it. -/
theorem Returns.guard {p : Prop} [Decidable p] {e : Error} {stops : β → Scan α} {rest : Scan α}
    (passes : Returns rest post) : Returns (if p then Scan.fail e >>= stops else rest) post :=
  fun d a d' given => passes d a d' (guard_eq_ok_iff.mp given).2

/-- What follows a step that gives what is known. -/
theorem Returns.after {x : Scan β} {f : β → Scan α} {mid : β → Prop}
    {post : α → Prop} (first : Returns x mid) (next : ∀ b, mid b → Returns (f b) post) :
    Returns (x >>= f) post := fun _ _ _ given => by
  obtain ⟨b, e, here, last⟩ := bind_eq_ok_iff.mp given
  exact next b (first _ _ _ here) _ _ _ last

/-- What both branches of a choice give has what is promised. -/
theorem Returns.ite {p : Prop} [Decidable p] {x y : Scan α} {post : α → Prop}
    (first : p → Returns x post) (second : ¬p → Returns y post) :
    Returns (if p then x else y) post := by
  split
  · rename_i holds
    exact first holds
  · rename_i differs
    exact second differs

/-- What comes after a check that passes has what is promised. -/
theorem Returns.check {p : Prop} [Decidable p] {e : Error} {stops : β → Scan α}
    {rest : Scan α} {post : α → Prop} (passes : ¬p → Returns rest post) :
    Returns (if p then Scan.fail e >>= stops else rest) post := fun d a d' given =>
  have ⟨fits, last⟩ := guard_eq_ok_iff.mp given
  passes fits d a d' last

/-- A step that reads nothing gives what has what is promised. -/
theorem Returns.ofExcept {x : Except Error α} {post : α → Prop}
    (known : ∀ a, x = .ok a → post a) : Returns (Scan.ofExcept x) post := fun _ _ _ given =>
  known _ (ofExcept_eq_ok_iff.mp given).1

/-- Numbers of two bytes are read, or nothing is. -/
theorem returns_u2 : Returns Scan.u2 (· < 65536) := by
  have small (d : Decoder) : d.u2.1 < 65536 := by
    rw [Decoder.u2, Decoder.number]
    split
    · split
      · rename_i number
        exact Cursor.number?_lt number
      · exact Nat.succ_pos _
    · exact Nat.succ_pos _
  intro d n d' given
  rw [Scan.u2, Scan.lift] at given
  dsimp only at given
  split at given
  · have same : d.u2.1 = n := congrArg Prod.fst (Except.ok.inj given)
    exact same ▸ small d
  · cases given

/-- Items that are read one after another. -/
theorem Returns.times {item : Scan α} {each : α → Prop} {n : Nat}
    (first : Returns item each) :
    Returns (Scan.times n item) fun as => as.length = n ∧ ∀ a ∈ as, each a := by
  intro d as d' given
  obtain ⟨length, reads⟩ := times_eq_ok_iff.mp given
  refine ⟨length, ?_⟩
  clear given length
  induction reads with
  | done d => exact fun a member => nomatch member
  | next here others inductionHypothesis =>
      exact List.forall_mem_cons.mpr ⟨first _ _ _ here, inductionHypothesis⟩

/-- A counted list has fewer than 65536 items, each as promised. -/
theorem Returns.counted {item : Scan α} {each : α → Prop}
    (first : Returns item each) :
    Returns (Scan.counted item) fun as => as.length < 65536 ∧ ∀ a ∈ as, each a :=
  returns_u2.after fun _ small d as d' given =>
    have ⟨length, all⟩ := first.times d as d' given
    ⟨length ▸ small, all⟩

end Scan

namespace Layout

variable {c : Cursor}

/-- A number of rows that lie one after another from a place are determined by the bytes. -/
theorem Rows.functional {p q q' : Nat} {rows rows' : List Row} (first : Rows c p rows q)
    (second : Rows c p rows' q') (length : rows.length = rows'.length) : rows = rows' ∧ q = q' := by
  induction first generalizing rows' q' with
  | done p =>
      obtain rfl := List.length_eq_zero_iff.mp length.symm
      cases second
      exact ⟨rfl, rfl⟩
  | @next p q row rest name size offset inside others inductionHypothesis =>
      cases second with
      | done => simp at length
      | @next _ _ row' _ name' size' offset' inside' others' =>
          have same : row = row' := by
            obtain ⟨n, o, s⟩ := row
            obtain ⟨n', o', s'⟩ := row'
            simp_all
          subst same
          obtain ⟨rfl, rfl⟩ := inductionHypothesis others' (by simpa using length)
          exact ⟨rfl, rfl⟩

/-- The rows of a table and its end are determined by the bytes. -/
theorem Table.functional {p q q' : Nat} {rows rows' : List Row} (first : Table c p rows q)
    (second : Table c p rows' q') : rows = rows' ∧ q = q' :=
  first.rows.functional second.rows (Option.some.inj (first.count.symm.trans second.count))

end Layout

namespace Attribute

open Layout (Row Rows Table)

/-- What reading gives for a row of a table. -/
inductive ReadRow (ctx : Context) (decode : Envelope → Except Error Attribute) (row : Row) :
    Option Attribute → Prop
  | bootstrap {offset : Int} {name : Utf8Entry}
      (named : ctx.input.pool.refer Entry.utf8? offset row.name = .ok name)
      (table : isBootstrapTable ctx.holder name.text = true) : ReadRow ctx decode row none
  | dropped {offset : Int} {name : Utf8Entry} {a : Attribute}
      (named : ctx.input.pool.refer Entry.utf8? offset row.name = .ok name)
      (plain : isBootstrapTable ctx.holder name.text = false)
      (decoded : decode ⟨name, row.offset, row.length⟩ = .ok a) (unknown : a.body.isUnknown = true)
      (drops : ctx.input.options.has .dropUnknownAttributes = true) : ReadRow ctx decode row none
  | kept {offset : Int} {name : Utf8Entry} {a : Attribute}
      (named : ctx.input.pool.refer Entry.utf8? offset row.name = .ok name)
      (plain : isBootstrapTable ctx.holder name.text = false)
      (decoded : decode ⟨name, row.offset, row.length⟩ = .ok a)
      (keeps : (a.body.isUnknown && ctx.input.options.has .dropUnknownAttributes) = false) :
      ReadRow ctx decode row (some a)

section Window

variable {c : Cursor} {stop : Nat} (window : Window c stop) {ctx : Context}
  {decode : Envelope → Except Error Attribute}
include window

/-- A row that is read has a header of six bytes and a body of the length that the header gives,
inside the window. -/
theorem of_readTableRow {p : Nat} {out : Option Attribute} {d : Decoder} (before : p ≤ stop)
    (read : readTableRow ctx decode (.on c stop p) = .ok (out, d)) :
    ∃ row : Row, c.u2? p = some row.name ∧ c.u4? (p + 2 : Nat) = some row.length ∧
      row.offset = p + 6 ∧ row.offset + row.length ≤ stop ∧
      d = .on c stop (row.offset + row.length) ∧ ReadRow ctx decode row out := by
  simp only [readTableRow, Scan.bind_eq_ok_iff, Scan.guard_eq_ok_iff, Scan.remaining_eq_ok_iff,
    Scan.pos_eq_ok_iff, Scan.ofExcept_eq_ok_iff] at read
  obtain ⟨offset, _, ⟨rfl, rfl⟩, i, _, index, name, _, ⟨named, rfl⟩, n, _, length, left, _,
    ⟨rfl, rfl⟩, fits, start, _, ⟨rfl, rfl⟩, _, _, skipped, rest⟩ := read
  obtain ⟨indexAt, inside, rfl⟩ := (Scan.u2_eq_ok_iff window before).mp index
  obtain ⟨lengthAt, inside, rfl⟩ := (Scan.u4_eq_ok_iff window inside).mp length
  have short := Cursor.u4_lt lengthAt
  obtain ⟨inside, rfl⟩ := (Scan.skip_eq_ok_iff window inside (by omega)).mp skipped
  refine ⟨⟨i, p + 6, n⟩, indexAt, lengthAt, rfl, inside, ?_⟩
  split at rest
  · rename_i table
    obtain ⟨rfl, rfl⟩ := Scan.pure_eq_ok_iff.mp rest
    exact ⟨rfl, .bootstrap named table⟩
  · rename_i plain
    obtain ⟨a, _, gives, rest⟩ := Scan.bind_eq_ok_iff.mp rest
    obtain ⟨decoded, rfl⟩ := Scan.ofExcept_eq_ok_iff.mp gives
    have plain := Bool.eq_false_iff.mpr plain
    split at rest
    · rename_i drops
      rw [Bool.and_eq_true] at drops
      obtain ⟨rfl, rfl⟩ := Scan.pure_eq_ok_iff.mp rest
      exact ⟨rfl, .dropped named plain decoded drops.1 drops.2⟩
    · rename_i keeps
      obtain ⟨rfl, rfl⟩ := Scan.pure_eq_ok_iff.mp rest
      exact ⟨rfl, .kept named plain decoded (Bool.eq_false_iff.mpr keeps)⟩

/-- Rows are read one after another as they are skipped. -/
theorem rows_of_reads {p : Nat} {outs : List (Option Attribute)} {d : Decoder}
    (before : p ≤ stop)
    (reads : Scan.Reads (readTableRow ctx decode) (.on c stop p) outs d) :
    ∃ rows q, Rows c p rows q ∧ q ≤ stop ∧ d = .on c stop q ∧
      List.Forall₂ (ReadRow ctx decode) rows outs := by
  have whole := window.inside
  induction outs generalizing p with
  | nil =>
      cases reads
      exact ⟨[], p, .done p, before, rfl, .nil⟩
  | cons out outs inductionHypothesis =>
      cases reads with
      | next first others =>
          obtain ⟨row, index, length, offset, inside, rfl, read⟩ :=
            of_readTableRow window before first
          obtain ⟨rows, q, rest, inside', rfl, all⟩ := inductionHypothesis inside others
          exact ⟨row :: rows, q, .next index length offset (Nat.le_trans inside whole) rest,
            inside', rfl, .cons read all⟩

/-- A table that decodes is one that is skipped, and each row of it is read. -/
theorem of_table {start : Nat} {as : List Attribute} (cursor : ctx.input.cursor = c)
    (ordered : start ≤ stop) (decoded : table ctx start stop = .ok as) :
    ∃ rows q outs, Table c start rows q ∧ q ≤ stop ∧
      List.Forall₂ (ReadRow ctx (Attribute.decode ctx maxNesting)) rows outs ∧
      as = outs.filterMap id := by
  rw [table, cursor, Scan.onWindow_eq window ordered] at decoded
  split at decoded
  · cases decoded
  · rename_i given
    obtain rfl := Except.ok.inj decoded
    simp only [readTable, Scan.bind_eq_ok_iff, Scan.pure_eq_ok_iff] at given
    obtain ⟨outs, d, counted, rfl, rfl⟩ := given
    obtain ⟨count, inside, reads⟩ := (Layout.counted_eq_ok_iff window ordered).mp counted
    obtain ⟨rows, q, held, inside', -, all⟩ := rows_of_reads window inside reads
    exact ⟨rows, q, outs, ⟨by rw [count, all.length_eq], held⟩, inside', all, rfl⟩

end Window

/-- What every attribute has that is read by the layout of its name. -/
structure Layered (name : String) (holders : List Holder) (body : AttributeBody) : Prop where
  name : body.name = name
  frames : ∀ frames, body = .stackMapTable frames → holders = [.code]
  code : ∀ c, body = .code c → holders = [.method]

/-- Whether the attribute is a body, or points into one. -/
def isInner : AttributeBody → Bool
  | .code _ | .stackMapTable _ => true
  | _ => false

/-- What neither is a body nor points into one is of every layout of its name. -/
theorem Layered.of_outer {name : String} {holders : List Holder} {body : AttributeBody}
    (named : body.name = name) (outer : isInner body = false) : Layered name holders body := by
  refine ⟨named, ?_, ?_⟩ <;> rintro _ rfl <;> cases outer

open Scan (Returns)

variable {ctx : Context} {room : Nat} {env : Envelope}

/-- The layout of initial values gives attributes of its name. -/
theorem layered_constantValue (i : Input) :
    Returns (readConstantValue i) (Layered "ConstantValue" [.field]) := by
  exact .bind fun offset => .bind fun value => .guard (.pure (.of_outer rfl rfl))

/-- The layout of module declarations gives attributes of its name. -/
theorem layered_module (i : Input) : Returns (readModule i) (Layered "Module" [.class]) := by
  exact .bind fun module => .bind fun flags => .bind fun version => .bind fun requires =>
    .bind fun exports => .bind fun opens => .bind fun uses => .bind fun provides =>
    .pure (.of_outer rfl rfl)

/-- The layout of bodies gives attributes of its name, and is the one that gives bodies. -/
theorem layered_code (m : InputMember) (env : Envelope) :
    Returns (readCode m env) (Layered "Code" [.method]) := by
  refine .bind fun maxStack => .bind fun maxLocals => .bind fun at_ => .bind fun length =>
    .guard (.bind fun start => .bind fun _ => .bind fun exceptions => .bind fun count =>
    .bind fun _ => .bind fun attributes => .bind fun _ => .pure ⟨rfl, ?_, fun _ _ => rfl⟩)
  simp

/-- The layout of stack maps gives attributes of its name, and is the one that gives stack maps. -/
theorem layered_stackMap (c : InputCode) :
    Returns (readStackMap c) (Layered "StackMapTable" [.code]) :=
  .bind fun _ => .bind fun _ => .bind fun _ => .pure ⟨rfl, fun _ _ => rfl, by simp⟩

/-- Every layout gives attributes of its name, and only that of bodies gives one and only that of
stack maps one. -/
theorem layered_layouts :
    ∀ row ∈ layouts ctx room env, Returns row.2.2 (Layered row.1 row.2.1) := by
  have one {α : Type} {x : Scan α} {f : α → AttributeBody} {name : String} {holders : List Holder}
      (named : ∀ a, (f a).name = name) (outer : ∀ a, isInner (f a) = false) :
      Returns (x >>= fun a => pure (f a)) (Layered name holders) :=
    .bind fun a => .pure (.of_outer (named a) (outer a))
  have all (visible : Bool) :
      ∀ row ∈ annotationLayouts ctx room visible, Returns row.2.2 (Layered row.1 row.2.1) := by
    simp only [annotationLayouts, List.forall_mem_cons, List.not_mem_nil, false_implies,
      implies_true, and_true]
    exact ⟨one (fun _ => rfl) fun _ => rfl, .bind fun _ => one (fun _ => rfl) fun _ => rfl,
      one (fun _ => rfl) fun _ => rfl⟩
  simp only [layouts, List.forall_mem_append]
  refine ⟨⟨?_, all true⟩, all false⟩
  simp only [plainLayouts, List.forall_mem_cons, List.not_mem_nil, false_implies, implies_true,
    and_true]
  refine ⟨one (fun _ => rfl) fun _ => rfl, .bind fun _ => one (fun _ => rfl) fun _ => rfl,
    one (fun _ => rfl) fun _ => rfl, .bind fun _ => one (fun _ => rfl) fun _ => rfl,
    one (fun _ => rfl) fun _ => rfl, one (fun _ => rfl) fun _ => rfl,
    one (fun _ => rfl) fun _ => rfl, layered_module _, one (fun _ => rfl) fun _ => rfl,
    .pure (.of_outer rfl rfl), .pure (.of_outer rfl rfl), layered_constantValue _,
    one (fun _ => rfl) fun _ => rfl, .bind fun _ => one (fun _ => rfl) fun _ => rfl,
    one (fun _ => rfl) fun _ => rfl, ?_, ?_⟩
  · split
    · exact layered_code _ _
    · exact .fail
  · split
    · exact layered_stackMap _
    · exact .fail

/-- What decoding a row of a table gives: an attribute of the name of the row, which remembers
where its body lies. -/
structure DecodedFrom (ctx : Context) (env : Envelope) (a : Attribute) : Prop where
  name : a.name = env.name.text
  span : a.span = some ⟨ctx.input.origin, env.offset, env.length⟩
  frames : ∀ frames, a.body = .stackMapTable frames → ctx.holder = .code
  code : ∀ c, a.body = .code c → ctx.holder = .method

/-- A decoded body is one that its reader gives, or the bytes themselves. -/
theorem of_decodeWith {i : Input} {read : Option (Scan AttributeBody)} {a : Attribute}
    {post : AttributeBody → Prop} (known : ∀ r, read = some r → Returns r post)
    (unknown : ∀ data, post (.unknown env.name.text data))
    (decoded : decodeWith i env read = .ok a) :
    a.span = some ⟨i.origin, env.offset, env.length⟩ ∧ post a.body := by
  cases read with
  | none =>
      rw [decodeWith] at decoded
      obtain ⟨data, -, same⟩ := bind_eq_ok_iff.mp decoded
      obtain rfl := pure_eq_ok_iff.mp same
      exact ⟨rfl, unknown data⟩
  | some r =>
      rw [decodeWith] at decoded
      split at decoded
      · simp at decoded
      · rename_i body d given
        obtain ⟨-, same⟩ := guard_eq_ok_iff.mp decoded
        obtain rfl := pure_eq_ok_iff.mp same
        refine ⟨rfl, ?_⟩
        simp only [Scan.onWindow] at given
        split at given
        · cases given
        · exact known r rfl _ _ _ given

/-- A layout of a holder gives attributes of its name. -/
theorem layered_layout? {read : Scan AttributeBody} (found : layout? ctx room env = some read) :
    Returns read fun body => body.name = env.name.text ∧
      (∀ frames, body = .stackMapTable frames → ctx.holder = .code) ∧
      ∀ c, body = .code c → ctx.holder = .method := by
  rw [layout?] at found
  split at found
  · rename_i name holders read' row
    split at found
    · rename_i held
      obtain rfl := Option.some.inj found
      have named : (name : Text) = env.name.text := by simpa using List.find?_some row
      have layered := layered_layouts _ (List.mem_of_find?_eq_some row)
      intro d body d' given
      have here := layered d body d' given
      have only {holder : Holder} (alone : holders = [holder]) : ctx.holder = holder := by
        rw [alone] at held
        simpa using held
      exact ⟨here.name.trans named, fun frames same => only (here.frames frames same),
        fun c same => only (here.code c same)⟩
    · cases found
  · cases found

/-- Decoding a row gives an attribute of the name of the row, which remembers where its body
lies. -/
theorem decodedFrom_of_decode {a : Attribute}
    (decoded : Attribute.decode ctx room env = .ok a) : DecodedFrom ctx env a := by
  have both := @of_decodeWith _ _ _ _ (fun body => body.name = env.name.text ∧
    (∀ frames, body = .stackMapTable frames → ctx.holder = .code) ∧
    ∀ c, body = .code c → ctx.holder = .method) (fun read given => ?_)
    (fun data => ⟨rfl, nofun, nofun⟩) decoded
  · exact ⟨both.2.1, both.1, both.2.2.1, both.2.2.2⟩
  · split at given
    · rename_i record
      split at given
      · obtain rfl := Option.some.inj given
        exact .bind fun components => .pure ⟨record.symm, nofun, nofun⟩
      · cases given
    · exact layered_layout? given

end Attribute

/-! ## The attributes of a class one after another -/

/-- The attributes of a class from `p` up to `q`: where each lies and what it decodes to, if it
counts as an attribute. -/
inductive ClassFile.Laid (c : ClassFile) : Nat → List Envelope → List (Option Attribute) → Nat →
    Prop
  | done (p : Nat) : Laid c p [] [] p
  | bootstrap {p n q : Nat} {name : Utf8Entry} {envs : List Envelope}
      {outs : List (Option Attribute)} (index : c.input.cursor.u2? p = some name.place.index)
      (named : c.pool.entry name.place.index = .ok (.utf8 name))
      (length : c.input.cursor.u4? (p + 2 : Nat) = some n)
      (inside : p + 6 + n ≤ c.input.cursor.size)
      (table : name.text = Lookup.bootstrapMethods) (others : Laid c (p + 6 + n) envs outs q) :
      Laid c p (⟨name, p + 6, n⟩ :: envs) (none :: outs) q
  | kept {p n q : Nat} {name : Utf8Entry} {a : Attribute} {envs : List Envelope}
      {outs : List (Option Attribute)} (index : c.input.cursor.u2? p = some name.place.index)
      (named : c.pool.entry name.place.index = .ok (.utf8 name))
      (length : c.input.cursor.u4? (p + 2 : Nat) = some n)
      (inside : p + 6 + n ≤ c.input.cursor.size)
      (plain : name.text ≠ Lookup.bootstrapMethods) (called : a.name = name.text)
      (span : a.span = some ⟨c.input.origin, p + 6, n⟩)
      (frameless : ∀ frames, a.body ≠ .stackMapTable frames)
      (others : Laid c (p + 6 + n) envs outs q) :
      Laid c p (⟨name, p + 6, n⟩ :: envs) (some a :: outs) q

namespace ClassFile.Laid

variable {c : ClassFile} {p q : Nat} {envs : List Envelope} {outs : List (Option Attribute)}

/-- Attributes that follow one another end after they start. -/
theorem forward (laid : c.Laid p envs outs q) : p ≤ q := by
  induction laid <;> omega

/-- There is an outcome for each envelope. -/
theorem length (laid : c.Laid p envs outs q) : envs.length = outs.length := by
  induction laid <;> simp_all

/-- Where the attributes of a class lie is what the envelopes of its layout say. -/
theorem envelopes (tells : c.pool.Tells c.input.layout) (laid : c.Laid p envs outs q) :
    c.input.layout.Envelopes c.input.origin p envs := by
  have spelled {name : Utf8Entry} (named : c.pool.entry name.place.index = .ok (.utf8 name)) :
      name.place = ⟨c.input.origin, name.place.index⟩ ∧
        c.input.layout.TextAt name.place.index name.text :=
    Layout.Holds.text_iff.mp (tells.entry named)
  induction laid with
  | done p => exact .done p
  | @bootstrap p n q name envs outs index named length inside table others inductionHypothesis =>
      obtain ⟨place, text⟩ := spelled named
      have next := Layout.Envelopes.next index text length inductionHypothesis
      rwa [← place] at next
  | @kept p n q name a envs outs index named length inside plain called span frameless others
      inductionHypothesis =>
      obtain ⟨place, text⟩ := spelled named
      have next := Layout.Envelopes.next index text length inductionHypothesis
      rwa [← place] at next

/-- Where no attribute is the bootstrap table every one is decoded. -/
theorem outs_of_absent (laid : c.Laid p envs outs q)
    (absent : ∀ env ∈ envs, env.name.text ≠ Lookup.bootstrapMethods) :
    outs = (outs.filterMap id).map some := by
  induction laid with
  | done p => rfl
  | bootstrap index named length inside table others inductionHypothesis =>
      exact absurd table (absent _ (List.mem_cons_self ..))
  | kept index named length inside plain called span frameless others inductionHypothesis =>
      have rest := inductionHypothesis fun env member => absent env (List.mem_cons_of_mem _ member)
      exact congrArg (List.cons (some _)) rest

/-- What comes before some attributes ends where they start. -/
theorem split {front back : List Envelope} (laid : c.Laid p (front ++ back) outs q) :
    ∃ m first second, outs = first ++ second ∧ c.Laid p front first m ∧ c.Laid m back second q := by
  induction front generalizing p outs with
  | nil => exact ⟨p, [], outs, rfl, .done p, laid⟩
  | cons env front inductionHypothesis =>
      cases laid with
      | bootstrap index named length inside table others =>
          obtain ⟨m, first, second, rfl, before, after⟩ := inductionHypothesis others
          exact ⟨m, none :: first, second, rfl,
            .bootstrap index named length inside table before, after⟩
      | kept index named length inside plain called span frameless others =>
          obtain ⟨m, first, second, rfl, before, after⟩ := inductionHypothesis others
          exact ⟨m, some _ :: first, second, rfl,
            .kept index named length inside plain called span frameless before, after⟩

/-- Where only the last attribute is the bootstrap table every other one is decoded. -/
theorem outs_of_last {front : List Envelope} {table : Envelope}
    (laid : c.Laid p (front ++ [table]) outs q)
    (plain : ∀ env ∈ front, env.name.text ≠ Lookup.bootstrapMethods)
    (named : table.name.text = Lookup.bootstrapMethods) :
    outs = (outs.filterMap id).map some ++ [none] ∧ table.offset + table.length ≤
      c.input.cursor.size := by
  obtain ⟨m, first, second, rfl, before, after⟩ := laid.split
  have decoded := before.outs_of_absent plain
  cases after with
  | kept index named' length inside other => exact absurd named other
  | bootstrap index named' length inside table others =>
      cases others
      refine ⟨?_, inside⟩
      have none_left : [(none : Option Attribute)].filterMap id = [] := rfl
      rw [List.filterMap_append, none_left, List.append_nil, ← decoded]

end ClassFile.Laid

open Layout (Rows)
open Attribute (ReadRow Context)

/-- The rows of the class attributes, as they are read. -/
theorem ClassFile.laid_of_rows {c : ClassFile} (tells : c.pool.Tells c.input.layout)
    (keeps : c.options.has .dropUnknownAttributes = false) {p q : Nat} {rows : List Layout.Row}
    {outs : List (Option Attribute)} {ctx : Context} (input : ctx.input = c.input)
    (holder : ctx.holder = .class) (held : Rows c.input.cursor p rows q)
    (read : List.Forall₂ (ReadRow ctx (Attribute.decode ctx Attribute.maxNesting)) rows outs) :
    ∃ envs, c.Laid p envs outs q := by
  induction held generalizing outs with
  | done p =>
      cases read
      exact ⟨[], .done p⟩
  | @next p q row rest index length offset inside others inductionHypothesis =>
      obtain ⟨i, o, n⟩ := row
      obtain rfl : o = p + 6 := offset
      cases read with
      | cons first read =>
          obtain ⟨envs, laid⟩ := inductionHypothesis read
          -- The index of the row is that of its name.
          have naming {offset : Int} {name : Utf8Entry}
              (named : ctx.input.pool.refer Entry.utf8? offset i = .ok name) :
              c.input.cursor.u2? p = some name.place.index ∧
                c.pool.entry name.place.index = .ok (.utf8 name) := by
            rw [input] at named
            obtain ⟨place, -, looked⟩ := tells.text named
            rw [place]
            exact ⟨index, looked⟩
          cases first with
          | bootstrap named table =>
              obtain ⟨index', named'⟩ := naming named
              simp only [Attribute.isBootstrapTable, Bool.and_eq_true, decide_eq_true_eq] at table
              exact ⟨_, .bootstrap index' named' length inside table.2 laid⟩
          | dropped named plain decoded unknown drops =>
              rw [input] at drops
              rw [show c.input.options = c.options from rfl, keeps] at drops
              cases drops
          | kept named plain decoded keeps' =>
              obtain ⟨index', named'⟩ := naming named
              have from_ := Attribute.decodedFrom_of_decode decoded
              simp only [Attribute.isBootstrapTable, holder, decide_true, Bool.true_and,
                decide_eq_false_iff_not] at plain
              refine ⟨_, .kept index' named' length inside plain from_.name ?_ ?_ laid⟩
              · rw [from_.span, input]
              · intro frames same
                have code := from_.frames frames same
                rw [holder] at code
                cases code

/-- The attributes of a parsed class, of which none is left out. -/
theorem ClassFile.ParsedFrom.laid {bytes : Array UInt8} {options : Options} {number : Nat}
    {c : ClassFile} (parsed : c.ParsedFrom bytes options number)
    (addressable : Cursor.Addressable ⟨bytes⟩)
    (keeps : options.has .dropUnknownAttributes = false) {as : List Attribute}
    (decoded : c.attributes = .ok as) :
    ∃ envs outs, c.Laid (c.input.layout.attributes + 2) envs outs c.input.cursor.size ∧
      as = outs.filterMap id ∧ c.input.layout.ClassEnvelopes c.input.origin envs ∧
      c.input.cursor.u2? c.input.layout.attributes = some outs.length := by
  obtain ⟨rows, held⟩ := parsed.scanned.attributes
  have cursor : c.input.layout.cursor = c.input.cursor := rfl
  rw [cursor] at held
  have ordered : c.input.layout.attributes ≤ c.input.cursor.size :=
    Nat.le_trans (Nat.le_add_right _ 2) held.forward
  have window : Window c.input.cursor c.input.cursor.size := by
    rw [parsed.cursor]
    exact .ofSize addressable
  obtain ⟨rows', q, outs, held', inside, read, rfl⟩ :=
    Attribute.of_table window rfl ordered decoded
  obtain ⟨rfl, rfl⟩ := held.functional held'
  have keeps' : c.options.has .dropUnknownAttributes = false := by
    rw [ClassFile.options, parsed.options, keeps]
  obtain ⟨envs, laid⟩ := laid_of_rows parsed.tells keeps' rfl rfl held.rows read
  have count : c.input.cursor.u2? c.input.layout.attributes = some outs.length := by
    rw [held.count, read.length_eq]
  exact ⟨envs, outs, laid, rfl, ⟨by rw [cursor, count, laid.length], laid.envelopes parsed.tells⟩,
    count⟩

end JvmClass
