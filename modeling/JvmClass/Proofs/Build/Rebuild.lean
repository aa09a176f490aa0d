import JvmClass.Proofs.Attribute.Copying
import JvmClass.Proofs.Build.Identity
import JvmClass.Proofs.Build.Library
import JvmClass.Proofs.Build.Rescan

/-!
# What a rebuilt class keeps of its source

A class that shares its pool is rebuilt by walking it through a transform. Whatever the transform
does, as long as it goes through the builders, each index of the source denotes in the result what
it denoted before, so what is copied byte by byte still means the same.
-/

namespace JvmClass

open PoolBuilder (Keeps)

variable {σ : Type} {c : ClassFile}

namespace PoolBuilder

/-- A class that comes first in a pool. -/
def firstClass (name : Text) : ClassEntry := ⟨⟨.output, 2⟩, ⟨.output, 1⟩, name⟩

/-- The pool with a text for the name of a class. -/
def ofName (name : Text) : PoolBuilder :=
  { PoolBuilder.empty with indexed := true }.withEntry (.text name) (.utf8 (firstClass name).name)

/-- The pool with the class, too. -/
def ofClass (name : Text) : PoolBuilder :=
  (ofName name).withEntry (.single .class 1) (.loadable (.class (firstClass name)))

/-- The first text of a pool is entered at index one. -/
theorem utf8_empty {name : Text} (short : (ModifiedUtf8.encode name).length ≤ maxTextLength) :
    utf8 name .empty = ((firstClass name).name, ofName name) := by
  have indexed : (ensureIndexed .empty).2 = { PoolBuilder.empty with indexed := true } := rfl
  have unknown : (ensureIndexed .empty).2.places[ConstantKey.text name]? = none := by
    rw [indexed]
    exact Std.HashMap.getElem?_empty
  have interned : intern (.text name) (fun p => .utf8 ⟨p, name⟩) .empty = _ :=
    intern_fresh unknown (by decide : 1 + 1 ≤ maxSize)
  simp only [utf8, if_neg (Nat.not_lt.mpr short)]
  exact (bind_apply ..).trans (by rw [interned]; rfl)

/-- The first class of a pool is entered at index two, behind its name. -/
theorem class_empty {name : Text} (short : (ModifiedUtf8.encode name).length ≤ maxTextLength) :
    class_ name .empty = (firstClass name, ofClass name) := by
  have unknown : (ofName name).places[ConstantKey.single .class 1]? = none := by
    rw [ofName, withEntry, Std.HashMap.getElem?_insert]
    exact Std.HashMap.getElem?_empty
  have interned : intern (.single .class 1)
      (fun p => .loadable (.class ⟨p, (firstClass name).name⟩)) (ofName name) = _ :=
    intern_fresh unknown (by decide : 2 + 1 ≤ maxSize)
  have through (p : PoolBuilder) : classOf (firstClass name).name p =
      (intern (.single .class 1) (fun p => .loadable (.class ⟨p, (firstClass name).name⟩)) p).map
        (⟨·, (firstClass name).name⟩) id := rfl
  rw [class_, bind_apply, utf8_empty short, through, interned]
  rfl

end PoolBuilder

namespace ClassFile

/-- What a transform of a class gives, under a new name if there is one. -/
def transformTo (c : ClassFile) (newName : Option Text) (t : Option (ClassTransform σ)) (user : σ) :
    Except Error Bytes × σ :=
  match newName with
  | none => c.transform t user
  | some name => c.transformAs name t user

/-- The draft that a class which shares its pool is rebuilt in. -/
def opening (c : ClassFile) (newName : Option Text) : Interning ClassDraft := do
  let this ← match newName with
    | some name => PoolBuilder.class_ name
    | none => pure c.this
  return .start (← PoolBuilder.adoptClass this) (some c)

/-- The walk of a class that shares its pool through a transform: its outcome, the draft when it is
over, and the session. -/
def walk (c : ClassFile) (newName : Option Text) (t : Option (ClassTransform σ)) (user : σ) :
    (Except Error Unit × ClassDraft) × Session σ :=
  let (d, s) := Build.interning (c.opening newName) (Build.start c.options (.ofParent c.input) user)
  (Transform.run c.traversal t .terminal).run d s

/-- The draft after the walk, and the pool that it is written with. -/
def walkedDraft (c : ClassFile) (newName : Option Text) (t : Option (ClassTransform σ)) (user : σ) :
    ClassDraft := (c.walk newName t user).1.2

def writtenPool (c : ClassFile) (newName : Option Text) (t : Option (ClassTransform σ)) (user : σ) :
    PoolBuilder :=
  ((c.walkedDraft newName t user).finish (c.walk newName t user).2).2.pool

/-- Putting a class together starts from the draft, however it was come by. -/
theorem assemble_of_draft {draft : Build σ ClassDraft} {fill : ExceptT Error (ClassM σ) Unit}
    {s s' : Session σ} {d : ClassDraft} (drafted : draft s = (d, s')) :
    assemble draft fill s = assemble (pure d) fill s' := by
  rw [assemble, bind_apply, drafted]
  rfl

/-- A class that does not share its pool is rebuilt in a pool that has its new name only. -/
theorem rebuild_fresh {name : Text} {t : Option (ClassTransform σ)} {user : σ}
    (fresh : c.options.has .noPoolSharing = true)
    (short : (ModifiedUtf8.encode name).length ≤ PoolBuilder.maxTextLength) :
    (c.rebuild (some name) t user).1 =
      (assemble (pure (.start (PoolBuilder.firstClass name) (some c)))
        (Transform.run c.traversal t .terminal)
        (Build.start c.options (PoolBuilder.ofClass name) user)).1 := by
  have adopted : PoolBuilder.adoptClass (PoolBuilder.firstClass name) (PoolBuilder.ofClass name) =
      (PoolBuilder.firstClass name, PoolBuilder.ofClass name) := rfl
  have opened : c.opening (some name) .empty =
      (.start (PoolBuilder.firstClass name) (some c), PoolBuilder.ofClass name) := by
    rw [opening, bind_apply, PoolBuilder.class_empty short]
    dsimp only
    rw [bind_apply, adopted]
    rfl
  have drafted : Build.interning (c.opening (some name)) (Build.start c.options .empty user) =
      (.start (PoolBuilder.firstClass name) (some c),
        Build.start c.options (PoolBuilder.ofClass name) user) := by
    dsimp only [Build.interning, Build.start]
    rw [opened]
  rw [rebuild, if_pos fresh]
  exact congrArg Prod.fst (assemble_of_draft drafted)

/-- Opening a draft only makes the pool grow. -/
theorem grow_opening (c : ClassFile) (newName : Option Text) :
    PoolBuilder.Grow (c.opening newName) := by
  cases newName with
  | none => exact .bind (.pure _) fun _ => .bind (PoolBuilder.grow_adoptClass _) fun _ => .pure _
  | some name =>
      exact .bind (PoolBuilder.grow_class _) fun _ =>
        .bind (PoolBuilder.grow_adoptClass _) fun _ => .pure _

/-- A draft that has just been opened has no members that could not be scanned. -/
theorem scannable_opening (c : ClassFile) (newName : Option Text) (p : PoolBuilder) :
    (c.opening newName p).1.Scannable := by
  cases newName <;> exact .empty rfl rfl

/-- A class that is put together has been filled in and finished. -/
theorem finish_of_assemble {draft : Build σ ClassDraft} {fill : ExceptT Error (ClassM σ) Unit}
    {s : Session σ} {bytes : Bytes} (done : (assemble draft fill s).1 = .ok bytes) :
    ((fill.run (draft s).1 (draft s).2).1.2.finish (fill.run (draft s).1 (draft s).2).2).1 =
      .ok bytes := by
  rw [assemble, bind_apply, bind_apply] at done
  rcases ran : fill.run (draft s).1 (draft s).2 with ⟨⟨outcome, d⟩, s₁⟩
  have ran' : fill.run.run (draft s).1 (draft s).2 = ((outcome, d), s₁) := ran
  rw [ran'] at done
  dsimp only at done ⊢
  have kept {outcome : Except Error Bytes} {s : Session σ}
      (done : (Build.abort? s).1.elim outcome .error = .ok bytes) : outcome = .ok bytes := by
    cases aborted : (Build.abort? s).1 with
    | some e =>
        rw [aborted] at done
        cases done
    | none =>
        rw [aborted] at done
        exact done
  cases outcome with
  | error e => cases kept ((congrArg Prod.fst (Build.outcome_apply ..)).symm.trans done)
  | ok _ => exact kept ((congrArg Prod.fst (Build.outcome_apply ..)).symm.trans done)

/-- A transform that succeeds has come through the walk and finished the draft. -/
theorem finish_of_transformTo {newName : Option Text} {t : Option (ClassTransform σ)} {user : σ}
    {bytes : Bytes} (shared : c.options.has .noPoolSharing = false)
    (done : (c.transformTo newName t user).1 = .ok bytes) :
    ((c.walkedDraft newName t user).finish (c.walk newName t user).2).1 = .ok bytes := by
  have rebuilt : (c.rebuild newName t user).1 = .ok bytes := by
    cases newName with
    | none => exact done
    | some name =>
        rw [transformTo, transformAs] at done
        split at done
        · cases done
        · exact done
  have assembled : (assemble (Build.interning (c.opening newName))
      (Transform.run c.traversal t .terminal) (Build.start c.options (.ofParent c.input) user)).1 =
      .ok bytes := by
    rw [rebuild] at rebuilt
    simp only [shared, Bool.false_eq_true, ↓reduceIte] at rebuilt
    exact rebuilt
  have finished := finish_of_assemble assembled
  rw [walkedDraft, walk]
  generalize Build.interning (c.opening newName) (Build.start c.options (.ofParent c.input) user) =
    opened at finished
  exact finished

/-- A class in any state has a pool that tells what its bytes hold. -/
theorem StateOf.exact {c₀ : ClassFile} {bytes : Array UInt8} {options : Options} {number : Nat}
    (read : c₀.ParsedFrom bytes options number) (state : c₀.StateOf c) : c.input.Exact := by
  have origin : Origin.input number ≠ .output := nofun
  cases state with
  | parsed => exact ⟨read.tells, read.origin ▸ origin, read.scanned⟩
  | settled search =>
      refine ⟨Pool.tells_afterSearch search, ?_, read.scanned⟩
      have same : (c₀.settle search).input.origin = c₀.input.origin :=
        Pool.origin_afterSearch search
      rw [same, read.origin]
      exact origin

/-- The header of a class says the same in each of its states, and its members lie where they
did. -/
theorem StateOf.headed {c₀ : ClassFile} {bytes : Array UInt8} {options : Options} {number : Nat}
    (read : c₀.ParsedFrom bytes options number) (state : c₀.StateOf c) : c.Headed := by
  cases state with
  | parsed => exact read.headed
  | settled search =>
      have settled : (c₀.settle search).pool.Tells c₀.input.layout := Pool.tells_afterSearch search
      have origin : (c₀.settle search).pool.origin = c₀.pool.origin :=
        Pool.origin_afterSearch search
      have refer {α : Type} {want : Entry → Option α} {p : Int} {n : Nat} {a : α}
          (given : c₀.pool.refer want p n = .ok a) :
          (c₀.settle search).pool.refer want p n = .ok a := by
        obtain ⟨e, found, taken⟩ := Pool.refer_eq_ok_iff.mp given
        have holds := origin ▸ read.tells.entry found
        exact Pool.refer_eq_ok_iff.mpr
          ⟨e, Pool.entry_eq_ok_iff.mpr (settled.complete _ _ holds), taken⟩
      have members {spans : List MemberSpan} {members : List InputMember}
          (all : List.Forall₂ (InputMember.ReadFrom c₀.input c₀.this.internalName) spans members) :
          List.Forall₂ (InputMember.ReadFrom (c₀.settle search).input c₀.this.internalName) spans
            (members.map (·.withInput (c₀.settle search).input)) := by
        refine List.forall₂_map_right_iff.mpr (all.imp fun span m from_ => ?_)
        obtain ⟨n, nameAt, named⟩ := from_.name
        obtain ⟨n', descriptorAt, described⟩ := from_.descriptor
        exact ⟨rfl, from_.className, from_.lies, from_.flags, ⟨n, nameAt, refer named⟩,
          ⟨n', descriptorAt, refer described⟩⟩
      refine ⟨refer read.headed.this, ?_, ?_, members read.headed.fields,
        members read.headed.methods⟩
      · rcases read.headed.super with absent | ⟨s, present, same, named⟩
        · exact .inl absent
        · exact .inr ⟨s, present, same, refer named⟩
      · exact read.headed.interfaces.imp fun _ _ ⟨offset, named⟩ => ⟨offset, refer named⟩

/-- The members of a class in any state lie in its input. -/
theorem StateOf.genuine {c₀ : ClassFile} {bytes : Array UInt8} {options : Options} {number : Nat}
    (read : c₀.ParsedFrom bytes options number) (state : c₀.StateOf c) :
    ∀ e ∈ c.traversal.elements, e.Genuine c.input := by
  have lies {spans : List MemberSpan} {members : List InputMember} {m : InputMember}
      (all : List.Forall₂ (InputMember.ReadFrom c.input c.this.internalName) spans members)
      (member : m ∈ members) : m.input = c.input ∧ m.span ∈ spans := by
    induction all with
    | nil => cases member
    | cons first others inductionHypothesis =>
        rcases List.mem_cons.mp member with rfl | member
        · exact ⟨first.input, first.lies ▸ List.mem_cons_self ..⟩
        · exact ⟨(inductionHypothesis member).1,
            List.mem_cons_of_mem _ (inductionHypothesis member).2⟩
  have headed := state.headed read
  have fields (m : InputMember) (member : m ∈ c.fields) : m.LiesIn c.input := fun _ =>
    have ⟨same, inside⟩ := lies headed.fields member
    ⟨same ▸ rfl, List.mem_append_left _ inside⟩
  have methods (m : InputMember) (member : m ∈ c.methods) : m.LiesIn c.input := fun _ =>
    have ⟨same, inside⟩ := lies headed.methods member
    ⟨same ▸ rfl, List.mem_append_right _ inside⟩
  have front : ∀ e ∈ [ClassElement.flags c.flags, ClassElement.version c.major c.minor]
      ++ (c.super.map fun s => ClassElement.superclass (some s)).toList
      ++ [ClassElement.interfaces (c.interfaces.map some)]
      ++ c.fields.map (fun f => ClassElement.field (.input f))
      ++ c.methods.map (fun m => ClassElement.method (.input m)), e.Genuine c.input := by
    intro e member
    simp only [List.mem_append, List.mem_cons, List.not_mem_nil, or_false, List.mem_map,
      Option.mem_toList, Option.map_eq_some_iff] at member
    rcases member with ((((rfl | rfl) | ⟨s, -, rfl⟩) | rfl) | ⟨m, here, rfl⟩) | ⟨m, here, rfl⟩
    · trivial
    · trivial
    · trivial
    · trivial
    · exact fields m here
    · exact methods m here
  rw [traversal]
  cases c.attributes with
  | error e => exact front
  | ok as =>
      intro e member
      rcases List.mem_append.mp member with member | member
      · exact front e member
      · obtain ⟨a, -, rfl⟩ := List.mem_map.mp member
        trivial

section Rebuilt

variable {c₀ c' : ClassFile} {source : Array UInt8} {bytes : Bytes} {options options' : Options}
  {number number' : Nat} {newName : Option Text} {t : Option (ClassTransform σ)} {user : σ}
  (addressable : Cursor.Addressable ⟨source⟩)
  (parsed : ClassFile.parse number source options = .ok c₀) (state : c₀.StateOf c)
  (shared : options.has .noPoolSharing = false)
  (within : ∀ t', t = some t' → t'.Within (ClassDraft.manner σ c.input))
  (done : (c.transformTo newName t user).1 = .ok bytes)
include addressable parsed state shared within done

/-- A transform that succeeds has only added to the pool, from which the draft is put together. -/
theorem assembled_of_transformTo : c.input.Exact ∧ (c.walkedDraft newName t user).Scannable ∧
    ∃ q, Keeps c.input q ∧ Keeps c.input (c.writtenPool newName t user) ∧ q.indexed = true ∧
      q.Grows (c.writtenPool newName t user) ∧
      (c.walkedDraft newName t user).Assembled q (c.writtenPool newName t user) bytes := by
  have read := parsedFrom_of_parse addressable parsed
  have exact := state.exact read
  have same : c.options = options := by
    cases state with
    | parsed => exact read.options
    | settled search => exact read.options
  have finished := finish_of_transformTo (same ▸ shared) done
  obtain ⟨d₀, s₀, opened⟩ : ∃ d s, Build.interning (c.opening newName)
      (Build.start c.options (.ofParent c.input) user) = (d, s) := ⟨_, _, rfl⟩
  have walked : c.walk newName t user =
      (Transform.run c.traversal t .terminal : ExceptT Error (ClassM σ) Unit).run d₀ s₀ := by
    rw [walk, opened]
  have started : c.opening newName (.ofParent c.input) = (d₀, s₀.pool) := by
    cases opened
    rfl
  have opening := grow_opening c newName (.ofParent c.input)
  have blank := scannable_opening c newName (.ofParent c.input)
  rw [started] at opening blank
  have acts : ClassDraft.Acts c.input
      (Transform.run c.traversal t .terminal : ExceptT Error (ClassM σ) Unit).run :=
    Transform.tries_run (m := ClassDraft.manner σ c.input) (state.genuine read) within trivial
  obtain ⟨walking, scans⟩ := acts.sustains exact.scanned d₀ s₀
  rw [← walked] at walking scans
  obtain ⟨q, before, after, assembled⟩ :=
    ClassDraft.assembled_of_finish (Prod.ext finished
      (Eq.refl ((c.walkedDraft newName t user).finish (c.walk newName t user).2).2))
  obtain ⟨-, -, fine, indexed, -⟩ := id assembled
  have clear := before.error (after.error fine)
  have keeps := opening.keeps _ (walking.error clear) (PoolBuilder.keeps_ofParent exact)
  have kept := before.keeps _ (after.error fine) (walking.keeps _ clear keeps)
  exact ⟨exact, scans clear keeps blank, q, kept, after.keeps _ fine kept, indexed, after,
    assembled⟩

/-- Read again, what a transform gives starts with the constants and rows of the pool it was put
together from, which the source shares. -/
theorem reread_of_transformTo
    (foreign : ∀ a ∈ (c.walkedDraft newName t user).attributes, a.name ≠ Lookup.bootstrapMethods)
    (few : (c.writtenPool newName t user).rows.size ≤ 65535)
    (short : ∀ row ∈ (c.writtenPool newName t user).rows, row.arguments.length ≤ 65535)
    (addressable' : Cursor.Addressable ⟨bytes.toArray⟩)
    (parsed' : ClassFile.parse number' bytes.toArray options' = .ok c') :
    c.input.Exact ∧ ∃ q, Keeps c.input q ∧ q.indexed = true ∧
      c'.input.layout.Inherits c.input.layout ∧ c'.input.layout.HasRows c'.pool.origin q := by
  obtain ⟨exact, scannable, q, kept, keeps, indexed, after, assembled⟩ :=
    assembled_of_transformTo addressable parsed state shared within done
  have read' := parsedFrom_of_parse addressable' parsed'
  -- The rows that were written are among those at the end.
  have fewer : q.rows.size ≤ 65535 := by
    refine Nat.le_trans (Nat.le_of_not_lt fun more => ?_) few
    have there := after.rows _ _ (Array.getElem?_eq_getElem more)
    exact absurd (Array.getElem?_eq_some_iff.mp there).1 (Nat.lt_irrefl _)
  have shorter : ∀ row ∈ q.rows, row.arguments.length ≤ 65535 := by
    intro row member
    obtain ⟨r, there⟩ := Array.getElem?_of_mem member
    exact short row (Array.mem_of_getElem? (after.rows r row there))
  have cursor : c'.input.layout.cursor = ⟨bytes.toArray⟩ := read'.cursor
  obtain ⟨lies, hasRows⟩ := assembled.reread exact keeps scannable read'.scanned cursor
    (by rw [cursor]; exact addressable') c'.pool.origin foreign fewer shorter
  exact ⟨exact, q, kept, indexed, lies.inherits, hasRows⟩

/-- In each of its states the result covers the source. -/
theorem covers_of_transformTo
    (foreign : ∀ a ∈ (c.walkedDraft newName t user).attributes, a.name ≠ Lookup.bootstrapMethods)
    (few : (c.writtenPool newName t user).rows.size ≤ 65535)
    (short : ∀ row ∈ (c.writtenPool newName t user).rows, row.arguments.length ≤ 65535)
    (addressable' : Cursor.Addressable ⟨bytes.toArray⟩)
    (parsed' : ClassFile.parse number' bytes.toArray options' = .ok c') {c'' : ClassFile}
    (state' : c'.StateOf c'') : c''.input.Covers c.input := by
  intro n e found
  obtain ⟨exact, q, kept, indexed, inherits, hasRows⟩ :=
    reread_of_transformTo addressable parsed state shared within done foreign few short addressable'
      parsed'
  obtain ⟨e', holds, same⟩ :=
    (exact.tells.entry found).mirrored exact kept indexed inherits hasRows
  have told := (state'.exact (parsedFrom_of_parse addressable' parsed')).tells
  have there : c''.input.layout.Holds c''.pool.origin n e' := by
    cases state' with
    | parsed => exact holds
    | settled search =>
        have origin : (c'.settle search).pool.origin = c'.pool.origin :=
          Pool.origin_afterSearch search
        exact origin ▸ holds
  exact ⟨e', Pool.entry_eq_ok_iff.mpr (told.complete _ _ there), same⟩

end Rebuilt

/-- Whatever a transform does through the builders, each index of the source denotes in the result
what it denoted before: the same constant, with the same row and arguments where a row produces it.
The transform may add constants and rows, but no bootstrap table of its own. -/
theorem transformTo_keeps_constants {c₀ c' : ClassFile} {source : Array UInt8} {bytes : Bytes}
    {options options' : Options} {number number' : Nat} {newName : Option Text}
    {t : Option (ClassTransform σ)} {user : σ} (addressable : Cursor.Addressable ⟨source⟩)
    (parsed : ClassFile.parse number source options = .ok c₀) (state : c₀.StateOf c)
    (shared : options.has .noPoolSharing = false)
    (within : ∀ t', t = some t' → t'.Within (ClassDraft.manner σ c.input))
    (done : (c.transformTo newName t user).1 = .ok bytes)
    (foreign : ∀ a ∈ (c.walkedDraft newName t user).attributes, a.name ≠ Lookup.bootstrapMethods)
    (few : (c.writtenPool newName t user).rows.size ≤ 65535)
    (short : ∀ row ∈ (c.writtenPool newName t user).rows, row.arguments.length ≤ 65535)
    (addressable' : Cursor.Addressable ⟨bytes.toArray⟩)
    (parsed' : ClassFile.parse number' bytes.toArray options' = .ok c') {k : Int} {e : Entry}
    (found : c.pool.entry k = .ok e) : ∃ e', c'.pool.entry k = .ok e' ∧ e'.bare = e.bare := by
  have covers := covers_of_transformTo addressable parsed state shared within done foreign few short
    addressable' parsed' .parsed
  obtain ⟨j, rfl⟩ : ∃ j : Nat, (j : Int) = k := by
    rw [Pool.entry] at found
    split at found
    · cases found
    · exact ⟨k.toNat, by omega⟩
  exact covers j e found

/-- What is left of a walk that a class comes through. -/
theorem walk_of_gives {d d' : ClassDraft} {s s' : Session σ} {newName : Option Text}
    {t : Option (ClassTransform σ)} {user : σ}
    (opened : Build.interning (c.opening newName)
      (Build.start c.options (.ofParent c.input) user) = (d, s))
    (ran : Drafting.Gives d s (Transform.run c.traversal t .terminal) () d' s') :
    c.walk newName t user = ((.ok (), d'), s') := by
  rw [walk, opened]
  exact ran

end ClassFile

/-! ## A class that is added to -/

namespace PoolBuilder

variable {i : Input} {rows : List BootstrapRow} {h : HandleEntry}

/-- The number five at a place. -/
def five (place : Place) : Loadable := .integer place 5

/-- Asks for the number, and for a row of a handle with the number for its argument. -/
def addRow (h : HandleEntry) : Interning Unit := do
  let n ← integer 5
  let _ ← bootstrap h [n]
  return

/-- The row that is asked for, in a pool that starts from an input with some rows. -/
def addedRow (i : Input) (rows : List BootstrapRow) (h : HandleEntry) : BootstrapRow :=
  .mk ⟨.output, rows.length⟩ h [five ⟨.output, i.pool.size⟩]

/-- The pool of an input with the number and the row. -/
def added (i : Input) (rows : List BootstrapRow) (h : HandleEntry) : PoolBuilder :=
  ((shared i rows).withEntry (five default).key (.loadable (five ⟨.output, i.pool.size⟩))).withRow
    (addedRow i rows h)

/-- A number and a row that an input does not have are added behind its own. -/
theorem addRow_ofParent (exact : i.Exact) (sharable : Sharable i rows)
    (unknown : i.pool.entries.toList.findSome? (placeOf? (five default).key) = none)
    (fits : i.pool.size < maxSize) (own : h.place.origin = i.origin)
    (apart : ∀ row ∈ rows, row.key ≠ (addedRow i rows h).key) :
    addRow h (ofParent i) = ((), added i rows h) := by
  have indexed : ensureIndexed (ofParent i) = ((), shared i rows) :=
    ensureIndexed_ofParent sharable.settled sharable.entered
  have missing : (ensureIndexed (ofParent i)).2.places[(five default).key]? = none := by
    have nothing : (default : PoolBuilder).places = ∅ := rfl
    rw [indexed, shared, ← Array.foldl_toList, getElem?_foldl_enterEntry, unknown, nothing,
      Std.HashMap.getElem?_empty, Option.none_or]
  have interned : integer 5 (ofParent i) = (five ⟨.output, i.pool.size⟩,
      (shared i rows).withEntry (five default).key (.loadable (five ⟨.output, i.pool.size⟩))) := by
    have placed : intern (Loadable.integer default 5).key
        (fun p => .loadable (.integer p 5)) (ofParent i) = _ :=
      intern_fresh missing (by rw [indexed]; exact fits)
    rw [integer, internLoadable, bind_apply, placed, indexed]
    rfl
  -- The rows of the input are the only ones that a row could be found among.
  have unfound : ((shared i rows).withEntry (five default).key
      (.loadable (five ⟨.output, i.pool.size⟩))).rowOf[(addedRow i rows h).key]? = none := by
    rw [Option.eq_none_iff_forall_ne_some]
    intro row found
    obtain ⟨there, same⟩ := (inv_shared exact sharable.entered).rowOf _ row found
    have listed : row ∈ (shared i rows).rows := Array.mem_of_getElem? there
    exact apart row (by simpa [shared] using listed) same
  have rowed := internRow_fresh unfound
  have owned : ((shared i rows).withEntry (five default).key
      (.loadable (five ⟨.output, i.pool.size⟩))).owns h.place.origin = true := by
    rw [own]
    exact (show Shares i rows (shared i rows) from .asked).owns
  have argued (p : PoolBuilder) : adoptArguments [five ⟨.output, i.pool.size⟩] p =
      ([five ⟨.output, i.pool.size⟩], p) := by
    rw [adoptArguments, bind_apply, adoptLoadable_own rfl, bind_apply, adoptArguments]
    rfl
  rw [addRow, bind_apply, interned]
  dsimp only
  rw [bind_apply, bootstrap, bind_apply, ensureIndexed_done rfl]
  dsimp only
  rw [bind_apply, adoptHandle_own owned]
  dsimp only
  rw [bind_apply, argued]
  dsimp only
  rw [rowed]
  rfl

/-- The constants of the input and the number behind them. -/
theorem encode_added : (added i rows h).encode = u2 (i.pool.size + 1 : Nat)
    ++ (i.cursor.slice? 10 (i.layout.poolEnd - 10 : Nat)).getD [] ++ [3, 0, 0, 0, 5] := by
  have empty : (default : PoolBuilder).slots = #[] := rfl
  have number : (Entry.loadable (five ⟨.output, i.pool.size⟩)).encode = [3, 0, 0, 0, 5] := rfl
  have single : (five default).key.tag.slots = 1 := rfl
  simp [added, withRow, withEntry, encode, size, parentBytes, shared, empty, number, single]

/-- The rows of the input and the one behind them. -/
theorem encodeRows_added : (added i rows h).encodeRows = u2 (rows.length + 1 : Nat)
    ++ rows.flatMap Layout.rowBytes ++ Layout.rowBytes (addedRow i rows h) := by
  have row (r : BootstrapRow) : u2 r.handle.place.index ++ (u2 r.arguments.length
      ++ r.arguments.flatMap fun a => u2 a.place.index) = Layout.rowBytes r := by
    rw [Layout.rowBytes, List.append_assoc]
  simp [added, withRow, withEntry, encodeRows, shared, row]

/-- A text that the input has keeps its place. -/
theorem places_added {text : Text} {place : Place}
    (found : i.pool.entries.toList.findSome? (placeOf? (.text text)) = some place) :
    (added i rows h).places[ConstantKey.text text]? = some place := by
  have nothing : (default : PoolBuilder).places = ∅ := rfl
  have other : ((five default).key == ConstantKey.text text) = false := rfl
  rw [added, withRow, withEntry, Std.HashMap.getElem?_insert, other, shared, ← Array.foldl_toList]
  simp only [Bool.false_eq_true, ↓reduceIte]
  rw [getElem?_foldl_enterEntry, nothing, Std.HashMap.getElem?_empty, Option.none_or, found]

end PoolBuilder

namespace ClassFile

open PoolBuilder (addRow added addedRow placeOf? five RowsOf Sharable)

/-- Asks the pool of a class for a number and a row. -/
def askRow (h : HandleEntry) (_ : ClassOutlet σ) : ExceptT Error (ClassM σ) Unit :=
  ExceptT.lift (Drafting.session (Build.interning (addRow h)))

/-- Passes a class on and asks for a number and a row at its end. -/
def addingRow (h : HandleEntry) : ClassTransform σ := .endHandler (askRow h)

/-- What asks for a number and a row is put together from calls. -/
theorem composed_addingRow (i : Input) (h : HandleEntry) :
    ClassTransform.Composed i (addingRow h : ClassTransform σ) :=
  .endHandler fun _ => .lift <| .session <| .interning <| .bind (.integer 5) fun n =>
    .bind (.bootstrap h [n]) fun _ => .pure ()

/-- Where there are no other attributes, the rows of a pool are written under the name that stands
in it. -/
theorem writes_rows {s : Session σ} {q : PoolBuilder} {place : Place} (pooled : s.pool = q)
    (indexed : q.indexed = true) (some_row : q.rows.size ≠ 0)
    (named : q.places[ConstantKey.text Lookup.bootstrapMethods]? = some place)
    (short : q.encodeRows.length ≤ Emit.maxLength) (fields methods : List Bytes) :
    Emit.Writes s (c.draft fields methods []).attributeTable
      (u2 1 ++ u2 place.index ++ (u4 q.encodeRows.length ++ q.encodeRows)) s := by
  subst pooled
  have none : Emit.Writes s (Emit.items (Emit.attributeItems none (fun _ => throw .outOfBounds)
      ((c.draft fields methods []).attributes.toList.map some))) [] s := Emit.Writes.settle.bind
      (.pure _)
  have counted : Emit.Writes s (Emit.interning PoolBuilder.rowCount) s.pool.rows.size s := by
    refine Emit.Writes.interning ?_
    rw [PoolBuilder.rowCount, bind_apply, PoolBuilder.ensureIndexed_done indexed]
    rfl
  have name : Emit.Writes s (Emit.refText Lookup.bootstrapMethods) (u2 place.index) s := by
    have found : PoolBuilder.utf8 Lookup.bootstrapMethods s.pool =
        (⟨place, Lookup.bootstrapMethods⟩, s.pool) := by
      have known : (PoolBuilder.ensureIndexed s.pool).2.places[
          ConstantKey.text Lookup.bootstrapMethods]? = some place := by
        rw [PoolBuilder.ensureIndexed_done indexed]
        exact named
      have fits : ¬PoolBuilder.maxTextLength <
          (ModifiedUtf8.encode Lookup.bootstrapMethods).length := by cbv
      simp only [PoolBuilder.utf8, if_neg fits]
      rw [bind_apply, PoolBuilder.intern_known known, PoolBuilder.ensureIndexed_done indexed]
      rfl
    exact .map (Emit.Writes.interning found)
  rw [ClassDraft.attributeTable]
  refine none.bind (counted.bind ?_)
  rw [if_neg some_row]
  exact name.bind (Emit.Writes.session.bind ((Emit.Writes.sized short).bind (.pure _)))

/-- Asking for a number and a row changes nothing but the pool. -/
theorem gives_askRow {i : Input} {p : PoolBuilder} {h : HandleEntry}
    (acted : addRow h (.ofParent i) = ((), p)) (options : Options) (user : σ) (d : ClassDraft) :
    Drafting.Gives d (Build.start options (.ofParent i) user) (askRow h .terminal) () d
      (Build.start options p user) := by
  have asked : Build.interning (addRow h) (Build.start options (.ofParent i) user) =
      ((), Build.start options p user) := by
    simp only [Build.interning, Build.start, acted]
  have drafted : Drafting.session (Build.interning (addRow h)) d
      (Build.start options (.ofParent i) user) = (((), d), Build.start options p user) := by
    change (((Build.interning (addRow h) (Build.start options (.ofParent i) user)).1, d),
      (Build.interning (addRow h) (Build.start options (.ofParent i) user)).2) = _
    rw [asked]
  exact .lift drafted

section Added

variable {bytes : Array UInt8} {options : Options} {number : Nat} {rows : List BootstrapRow}
  {h : HandleEntry} {place : Place} (parsed : c.ParsedFrom bytes options number)
  (verbatim : c.options.copiesVerbatim = true) (decoded : c.attributes = .ok [])
  (acted : addRow h (.ofParent c.input) = ((), added c.input rows h))
  (named : c.pool.entries.toList.findSome? (placeOf? (.text Lookup.bootstrapMethods)) =
    some place)
  (short : (added c.input rows h).encodeRows.length ≤ Emit.maxLength) (user : σ)
include named short

/-- The bootstrap table of the class with a row more. -/
theorem writes_added (fields methods : List Bytes) :
    Emit.Writes (Build.start c.options (added c.input rows h) user)
      (c.draft fields methods []).attributeTable
      (u2 1 ++ u2 place.index
        ++ (u4 (added c.input rows h).encodeRows.length ++ (added c.input rows h).encodeRows))
      (Build.start c.options (added c.input rows h) user) := by
  have some_row : (added c.input rows h).rows.size ≠ 0 := by
    simp [added, PoolBuilder.withRow]
  have indexed : (added c.input rows h).indexed = true := rfl
  have pooled : (Build.start c.options (added c.input rows h) user).pool =
      added c.input rows h := by
    simp only [Build.start]
  exact writes_rows pooled indexed some_row (PoolBuilder.places_added named) short fields methods

include parsed verbatim decoded acted

/-- A class without attributes but its bootstrap table is rebuilt with a number and a row more. -/
theorem ParsedFrom.transform_addingRow (shared : c.options.has .noPoolSharing = false) :
    (c.transformTo none (some (addingRow h)) user).1 =
      .ok (c.around (added c.input rows h).encode (u2 1 ++ u2 place.index
        ++ (u4 (added c.input rows h).encodeRows.length ++ (added c.input rows h).encodeRows))) ∧
    (c.walkedDraft none (some (addingRow h)) user).attributes = #[] ∧
    c.writtenPool none (some (addingRow h)) user = added c.input rows h := by
  obtain ⟨s, ends, writes, pooled, fine⟩ : ∃ s : Session σ,
      (∀ d, Drafting.Gives d (Build.start c.options (.ofParent c.input) user)
        (askRow h .terminal) () d s) ∧
      (∀ fields methods, Emit.Writes s (c.draft fields methods []).attributeTable
        (u2 1 ++ u2 place.index
          ++ (u4 (added c.input rows h).encodeRows.length ++ (added c.input rows h).encodeRows))
        s) ∧
      s.pool = added c.input rows h ∧ s.error = none :=
    ⟨_, gives_askRow acted c.options user, writes_added named short user, rfl, rfl⟩
  have quiet : s.Quiet := ⟨fine, by rw [pooled]; rfl⟩
  have owns : s.pool.owns c.input.origin = true := by
    rw [pooled]
    exact (show PoolBuilder.Shares c.input rows (PoolBuilder.shared c.input rows) from .asked).owns
  obtain ⟨fields, methods, ran, finished⟩ :=
    parsed.passed verbatim decoded ends quiet writes owns quiet
  have rebuilt := parsed.transform_endHandler verbatim decoded ends quiet writes owns quiet shared
  have opened : Build.interning (c.opening none) (Build.start c.options (.ofParent c.input) user) =
      (.start c.this (some c), Build.start c.options (.ofParent c.input) user) := by
    have opening : c.opening none (.ofParent c.input) =
        (.start c.this (some c), .ofParent c.input) := parsed.opens
    simp only [Build.interning, Build.start, opening]
  have walked := walk_of_gives opened ran
  rw [pooled] at rebuilt
  refine ⟨rebuilt, ?_, ?_⟩
  · rw [walkedDraft, addingRow, walked]
    rfl
  · rw [writtenPool, walkedDraft, addingRow, walked]
    exact (congrArg (fun outcome => outcome.2.pool) finished).trans pooled

end Added

/-- The class of `tabled` with the number five behind its constants, and a row of its handle with
this number behind its row. -/
def enlarged : Bytes :=
  [0xCA, 0xFE, 0xBA, 0xBE, 0, 0, 0, 52, 0, 10,
    1, 0, 1, 65,
    7, 0, 1,
    1, 0, 1, 98,
    1, 0, 3, 40, 41, 86,
    12, 0, 3, 0, 4,
    10, 0, 2, 0, 5,
    15, 6, 0, 6,
    1, 0, 16, 66, 111, 111, 116, 115, 116, 114, 97, 112, 77, 101, 116, 104, 111, 100, 115,
    3, 0, 0, 0, 5,
    0, 33, 0, 2, 0, 0, 0, 0, 0, 0, 0, 0,
    0, 1, 0, 8, 0, 0, 0, 12, 0, 2, 0, 7, 0, 0, 0, 7, 0, 1, 0, 9]

/-- The bytes are few enough to be addressed. -/
theorem addressable_enlarged : Cursor.Addressable ⟨enlarged.toArray⟩ := by
  rw [Cursor.Addressable]
  decide

/-- What there is to be known about the class before it is added to. -/
theorem parse_tabled_handle : ∃ c h row, ClassFile.parse 0 tabled .none = .ok c ∧
    c.attributes = .ok [] ∧ c.pool.entry 7 = .ok (.loadable (.handle h)) ∧
    c.pool.rows = .ok #[.ok row] ∧ row.arguments = [] ∧ row.handle.place.index = 7 ∧
    h.place = ⟨c.input.origin, 7⟩ ∧ c.pool.size = 9 ∧ c.pool.abort? = none ∧
    c.pool.entries.toList.findSome? (placeOf? (five default).key) = none ∧
    c.pool.entries.toList.findSome? (placeOf? (.text Lookup.bootstrapMethods)) =
      some ⟨c.input.origin, 8⟩ ∧
    c.around (u2 10 ++ (c.input.cursor.slice? 10 (c.input.layout.poolEnd - 10 : Nat)).getD []
        ++ [3, 0, 0, 0, 5])
      (u2 1 ++ u2 8 ++ (u4 12 ++ (u2 2 ++ (u2 7 ++ u2 0) ++ (u2 7 ++ u2 1 ++ u2 9)))) =
      enlarged := by
  have ran : (match ClassFile.parse 0 tabled .none with
      | .error _ => false
      | .ok c => c.attributes.toOption.any List.isEmpty &&
          ((c.pool.entry 7).toOption.bind Entry.handle?).any
            (decide <| ·.place = ⟨c.input.origin, 7⟩) &&
          (c.pool.row 0).toOption.any
            (fun row => row.arguments.isEmpty && decide (row.handle.place.index = 7)) &&
          c.pool.abort?.isNone &&
          decide (c.pool.rowCount = 1 ∧ c.pool.size = 9 ∧
            c.pool.entries.toList.findSome? (placeOf? (five default).key) = none ∧
            c.pool.entries.toList.findSome? (placeOf? (.text Lookup.bootstrapMethods)) =
              some ⟨c.input.origin, 8⟩ ∧
            c.around (u2 10
                ++ (c.input.cursor.slice? 10 (c.input.layout.poolEnd - 10 : Nat)).getD []
                ++ [3, 0, 0, 0, 5])
              (u2 1 ++ u2 8 ++ (u4 12 ++ (u2 2 ++ (u2 7 ++ u2 0) ++ (u2 7 ++ u2 1 ++ u2 9)))) =
              enlarged)) = true := by
    decide +kernel
  split at ran
  · cases ran
  · rename_i c parsed
    simp only [Bool.and_eq_true, decide_eq_true_eq, Option.any_eq_true, List.isEmpty_iff,
      Option.isNone_iff_eq_none, Option.bind_eq_some_iff] at ran
    obtain ⟨⟨⟨⟨⟨as, decoded, rfl⟩, h, ⟨e, found, handle⟩, place⟩, row, read, empty, target⟩,
      settled⟩, count, size, unknown, named, bytes⟩ := ran
    obtain rfl := Entry.handle?_eq_some_iff.mp handle
    have only : c.pool.row 0 = .ok row := toOption_eq_some_iff.mp read
    obtain ⟨rows, -, given⟩ := rows_of_each (c := c) (by omega) fun r before => by
      obtain rfl : r = 0 := by omega
      exact ⟨row, only⟩
    obtain ⟨row', rfl⟩ : ∃ row', rows = [row'] := by
      rw [Pool.rowCount, given] at count
      exact List.length_eq_one_iff.mp (by simpa using count)
    obtain rfl : row' = row := by
      rw [Pool.row, given] at only
      simpa [bind, Except.bind] using only
    exact ⟨c, h, row', parsed, toOption_eq_some_iff.mp decoded, toOption_eq_some_iff.mp found,
      given, empty, target, place, size, settled, unknown, named, bytes⟩

/-- The enlarged class is parsed, with the number and the second row. -/
theorem parse_enlarged : ∃ c, ClassFile.parse 1 enlarged.toArray .none = .ok c ∧
    c.pool.size = 10 ∧ c.pool.rowCount = 2 := by
  have ran : (match ClassFile.parse 1 enlarged.toArray .none with
      | .error _ => false
      | .ok c => decide (c.pool.size = 10 ∧ c.pool.rowCount = 2)) = true := by
    decide +kernel
  split at ran
  · cases ran
  · rename_i c parsed
    exact ⟨c, parsed, of_decide_eq_true ran⟩

/-- The class `A` is enlarged: its draft has no attributes, and the pool that it is written with has
its row and one more. -/
theorem enlarged_tabled : ∃ c h row, ClassFile.parse 0 tabled .none = .ok c ∧
    c.pool.entry 7 = .ok (.loadable (.handle h)) ∧ c.pool.rows = .ok #[.ok row] ∧
    (c.transformTo none (some (addingRow h)) ()).1 = .ok enlarged ∧
    (c.walkedDraft none (some (addingRow h)) ()).attributes = #[] ∧
    (c.writtenPool none (some (addingRow h)) ()).rows.size = 2 ∧
    ∀ row ∈ (c.writtenPool none (some (addingRow h)) ()).rows, row.arguments.length ≤ 1 := by
  obtain ⟨c, h, row, parsed, decoded, found, given, empty, handle, place, size, settled, unknown,
    named, bytes⟩ := parse_tabled_handle
  have read := parsedFrom_of_parse addressable_tabled parsed
  have options : c.options = .none := read.options
  have sharable : Sharable c.input [row] := ⟨settled, .read given (by simp)⟩
  have acted : addRow h (.ofParent c.input) = ((), added c.input [row] h) := by
    refine PoolBuilder.addRow_ofParent ((StateOf.parsed).exact read) sharable unknown ?_ ?_ ?_
    · rw [show c.input.pool.size = 9 from size, PoolBuilder.maxSize]
      omega
    · rw [place]
    · intro row' member same
      obtain rfl := List.mem_singleton.mp member
      have one : (addedRow c.input [row'] h).arguments.length = 1 := rfl
      have lengths := congrArg List.length same
      simp [BootstrapRow.key, one, empty] at lengths
  have rows : (added c.input [row] h).encodeRows =
      u2 2 ++ (u2 7 ++ u2 0) ++ (u2 7 ++ u2 1 ++ u2 9) := by
    have first : Layout.rowBytes row = u2 7 ++ u2 0 := by
      rw [Layout.rowBytes, handle, empty]
      rfl
    have second : Layout.rowBytes (addedRow c.input [row] h) =
        u2 h.place.index ++ u2 1 ++ (u2 c.input.pool.size ++ []) := rfl
    rw [PoolBuilder.encodeRows_added, second, place, show c.input.pool.size = 9 from size,
      List.flatMap_singleton, first, List.append_nil]
    rfl
  have long : (added c.input [row] h).encodeRows.length = 12 := by
    rw [rows]
    rfl
  obtain ⟨done, plain, written⟩ := read.transform_addingRow
    (by rw [options]; decide) decoded acted named (by rw [long, Emit.maxLength]; omega) ()
    (by rw [options]; decide)
  refine ⟨c, h, row, parsed, found, given, ?_, plain, ?_, ?_⟩
  · rw [done, PoolBuilder.encode_added, long, rows, show c.input.pool.size = 9 from size]
    exact congrArg Except.ok bytes
  · rw [written]
    rfl
  · rw [written]
    intro row' member
    obtain rfl | rfl : row' = row ∨ row' = addedRow c.input [row] h := by
      simpa [added, PoolBuilder.withRow, PoolBuilder.withEntry, PoolBuilder.shared] using member
    · simp [empty]
    · exact Nat.le_refl 1

/-- The class `A` with a bootstrap row, to which a transform adds a number and a row that loads it:
the result is parsed again, and the handle at index 7 denotes what it did. -/
theorem transformTo_tabled_keeps_handle : ∃ c c' h, ClassFile.parse 0 tabled .none = .ok c ∧
    (c.transformTo none (some (addingRow h)) ()).1 = .ok enlarged ∧
    ClassFile.parse 1 enlarged.toArray .none = .ok c' ∧ c'.pool.size = 10 ∧
    c'.pool.rowCount = 2 ∧ c.pool.entry 7 = .ok (.loadable (.handle h)) ∧
    ∃ e', c'.pool.entry 7 = .ok e' ∧ e'.bare = (Entry.loadable (.handle h)).bare := by
  obtain ⟨c, h, row, parsed, found, -, done, plain, few, short⟩ := enlarged_tabled
  obtain ⟨c', parsed', size, rows⟩ := parse_enlarged
  refine ⟨c, c', h, parsed, done, parsed', size, rows, found,
    transformTo_keeps_constants addressable_tabled parsed .parsed (by decide) ?_ done
      (by simp [plain]) (by omega) ?_ addressable_enlarged parsed' found⟩
  · rintro t' same
    exact Option.some.inj same ▸ (composed_addingRow c.input h).within
  · intro row member
    have one := short row member
    omega

end ClassFile

end JvmClass
