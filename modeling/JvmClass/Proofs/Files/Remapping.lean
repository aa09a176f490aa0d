import JvmClass.Command.Remap
import JvmClass.Proofs.Build.Rebuild
import JvmClass.Proofs.Code.Switches
import JvmClass.Proofs.Descriptor.Grammar
import JvmClass.Proofs.Files.Places
import Mathlib.Data.List.Dedup

/-!
# Where renamed classes go

In a folder a class goes where its new name says, whichever file it was read from; in an archive it
stays in the folder of its version as well. Main statement: where each class comes out and can be
written, all of them are there in the end exactly if those by the same name come out with the same
bytes.
-/

namespace JvmClass

namespace Action

/-! ## Actions that go well -/

variable {α β : Type} {c c' : Console}

/-- An action goes well, with what it gives and the console that it leaves. -/
def Gives (act : Action α) (c : Console) (a : α) (c' : Console) : Prop :=
  act.run.run c = (.ok a, c')

/-- An action that gives something leaves the console. -/
theorem gives_pure (a : α) : Gives (pure a) c a c := rfl

/-- Looking at the console gives it and leaves it. -/
theorem gives_get : Gives get c c c := rfl

/-- Two actions go well exactly if both do, the second on the console that the first leaves. -/
theorem gives_bind_iff {act : Action α} {next : α → Action β} {b : β} :
    Gives (act >>= next) c b c' ↔
      ∃ a between, Gives act c a between ∧ Gives (next a) between b c' := by
  have opened : (act >>= next).run.run c =
      ExceptT.bindCont next (act.run.run c).1 (act.run.run c).2 := rfl
  rw [Gives, opened]
  constructor
  · intro gives
    rcases ran : act.run.run c with ⟨outcome, between⟩
    rw [ran] at gives
    cases outcome with
    | error e => cases congrArg Prod.fst gives
    | ok a => exact ⟨a, between, ran, gives⟩
  · rintro ⟨a, between, first, rest⟩
    rw [first]
    exact rest

/-- If an action goes well on each item and leaves the console, it does so on all. -/
theorem gives_mapM {f : α → Action β} {as : List α} {bs : List β}
    (each : List.Forall₂ (fun a b => Gives (f a) c b c) as bs) : Gives (as.mapM f) c bs c := by
  induction each with
  | nil => exact gives_pure []
  | cons first _ inductionHypothesis =>
      rw [List.mapM_cons]
      exact gives_bind_iff.mpr ⟨_, c, first, gives_bind_iff.mpr ⟨_, c, inductionHypothesis, rfl⟩⟩

/-- If an action goes well on a list, it went well on each item. -/
theorem forall₂_of_gives_mapM {f : α → Action β} {as : List α} {bs : List β}
    (gives : Gives (as.mapM f) c bs c') :
    List.Forall₂ (fun a b => ∃ before after, Gives (f a) before b after) as bs := by
  induction as generalizing c c' bs with
  | nil =>
      obtain rfl : [] = bs := Except.ok.inj (congrArg Prod.fst gives)
      exact .nil
  | cons a as inductionHypothesis =>
      rw [List.mapM_cons] at gives
      obtain ⟨b, between, first, gives⟩ := gives_bind_iff.mp gives
      obtain ⟨others, after, rest, gives⟩ := gives_bind_iff.mp gives
      obtain rfl : b :: others = bs := Except.ok.inj (congrArg Prod.fst gives)
      exact .cons ⟨c, between, first⟩ (inductionHypothesis rest)

section Change

variable {act : Workspace → Except FileError Workspace}

/-- A change to the workspace is made, or its error is noted. -/
theorem change_run (act : Workspace → Except FileError Workspace) (c : Console) :
    (change act).run.run c = match act c.workspace with
      | .ok w => (.ok none, { c with workspace := w })
      | .error e => (.ok (some e), c) := by
  have opened : (change act).run.run c = ((match act c.workspace with
      | .ok w => do set { c with workspace := w }; return none
      | .error e => return some e) : Action (Option FileError)).run.run c := rfl
  rw [opened]
  cases act c.workspace <;> rfl

/-- A change that succeeds is made. -/
theorem gives_change {w : Workspace} (done : act c.workspace = .ok w) :
    Gives (change act) c none { c with workspace := w } := by
  rw [Gives, change_run, done]

/-- A change that fails leaves the console, and its error is given. -/
theorem gives_change_error {e : FileError} (failed : act c.workspace = .error e) :
    Gives (change act) c (some e) c := by
  rw [Gives, change_run, failed]

end Change

/-- An action leaves the console as it is, whether it goes well or not. -/
def Quiet (act : Action α) : Prop := ∀ c, (act.run.run c).2 = c

/-- An action that leaves the console, before others that do where it goes well, leaves it with
them. -/
theorem quiet_bind_of_gives {act : Action α} {next : α → Action β} (first : Quiet act)
    (rest : ∀ a, Gives act c a c → ((next a).run.run c).2 = c) :
    ((act >>= next).run.run c).2 = c := by
  have opened : (act >>= next).run.run c =
      ExceptT.bindCont next (act.run.run c).1 (act.run.run c).2 := rfl
  rw [opened, first c]
  cases ran : (act.run.run c).1 with
  | error e => rfl
  | ok a => exact rest a (Prod.ext ran (first c))

/-- Actions that leave the console do so one after another. -/
theorem quiet_bind {act : Action α} {next : α → Action β} (first : Quiet act)
    (rest : ∀ a, Quiet (next a)) : Quiet (act >>= next) :=
  fun c => quiet_bind_of_gives first fun a _ => rest a c

/-- An action that leaves the console does so on a list. -/
theorem quiet_mapM {f : α → Action β} (each : ∀ a, Quiet (f a)) (as : List α) :
    Quiet (as.mapM f) := by
  induction as with
  | nil => exact fun c => rfl
  | cons a as inductionHypothesis =>
      rw [List.mapM_cons]
      exact quiet_bind (each a) fun b => quiet_bind inductionHypothesis fun bs c => rfl

/-- An outcome that is computed leaves the console. -/
theorem quiet_attempt (outcome : Except Error α) : Quiet (attempt outcome) := by
  intro c
  rw [attempt.eq_def]
  split <;> rfl

/-! ## Files that are written -/

/-- A file that is written is there with its folders, and there is always an outcome. -/
theorem gives_writeUnder (path : Text) (content : Content) (c : Console) :
    ∃ fault c', Gives (writeUnder path content) c fault c' ∧
      (fault = none → Workspace.Stores path content c.workspace c'.workspace) := by
  cases made : c.workspace.makeFolders (Path.folder path) with
  | error e =>
      exact ⟨some e, c, gives_bind_iff.mpr ⟨some e, c, gives_change_error made, rfl⟩, nofun⟩
  | ok w =>
      have through {fault : Option FileError} {c' : Console}
          (last : Gives (change (·.write path content)) { c with workspace := w } fault c') :
          Gives (writeUnder path content) c fault c' :=
        gives_bind_iff.mpr ⟨none, _, gives_change made, last⟩
      cases written : w.write path content with
      | error e => exact ⟨some e, _, through (gives_change_error written), nofun⟩
      | ok w' =>
          exact ⟨none, _, through (gives_change written),
            fun _ => Workspace.stores_of_write made written⟩

end Action

namespace RemapPlan

/-- The file that a class goes to. -/
def target (plan : RemapPlan) (name : Text) : Text := Path.join plan.folder name

end RemapPlan

namespace Action

variable {plan : RemapPlan}

/-- Writing classes counts those that were written and tells what went wrong. If nothing did, all
are stored. -/
theorem gives_writeClasses (plan : RemapPlan) (files : List (Text × Bytes)) (c : Console) :
    ∃ count problems c', Gives (writeClasses plan files) c (count, problems) c' ∧
      (problems = [] → count = files.length ∧ Workspace.StoresAll
        (files.map fun file => (plan.target file.1, .bytes file.2)) c.workspace c'.workspace) := by
  induction files generalizing c with
  | nil => exact ⟨0, [], c, gives_pure _, fun _ => ⟨rfl, .nil⟩⟩
  | cons file files inductionHypothesis =>
      obtain ⟨fault, between, first, stored⟩ :=
        gives_writeUnder (plan.target file.1) (.bytes file.2) c
      cases fault with
      | some e => exact ⟨0, [.file e], between, gives_bind_iff.mpr ⟨_, between, first, rfl⟩, nofun⟩
      | none =>
          obtain ⟨count, problems, c', rest, all⟩ := inductionHypothesis between
          refine ⟨count + 1, problems, c', ?_, fun none => ?_⟩
          · exact gives_bind_iff.mpr ⟨_, between, first, gives_bind_iff.mpr ⟨_, c', rest, rfl⟩⟩
          · exact ⟨congrArg (· + 1) (all none).1, .cons (stored rfl) (all none).2⟩

end Action

/-! ## Classes that come out -/

/-- A class that is renamed. -/
structure ClassMove where
  old : Text
  new : Text
  bytes : Bytes

/-- The file that a class goes to under its new name. -/
def ClassMove.file (m : ClassMove) : Text := m.new ++ ".class"

namespace RemapPlan

variable {plan : RemapPlan} {s s' : ClassSource} {m m' : ClassMove}

/-- A class is read from a source and comes out of a plan. -/
structure Moves (plan : RemapPlan) (s : ClassSource) (m : ClassMove) : Prop where
  renamed : (Renaming.ofPackages plan.table).internalName m.old = .ok m.new
  comes : ∃ f, s.parse plan.options = .ok f ∧ f.this.internalName = m.old ∧
    f.query (Renaming.ofPackages plan.table).classFile = .ok m.bytes

/-- A class comes out of a plan exactly as it moves. -/
theorem apply_eq_ok_iff {out : Text × Bytes} :
    plan.apply s = .ok out ↔ ∃ m, plan.Moves s m ∧ out = (m.file, m.bytes) := by
  simp only [apply, bind_eq_ok_iff, pure_eq_ok_iff]
  constructor
  · rintro ⟨f, read, bytes, built, new, renamed, rfl⟩
    exact ⟨⟨f.this.internalName, new, bytes⟩, ⟨renamed, f, read, rfl, built⟩, rfl⟩
  · rintro ⟨m, ⟨renamed, f, read, named, built⟩, rfl⟩
    exact ⟨f, read, m.bytes, built, m.new, named ▸ renamed, rfl⟩

/-- Two classes of the same name move to the same name. -/
theorem Moves.new_eq (here : plan.Moves s m) (there : plan.Moves s' m') (same : m.old = m'.old) :
    m.new = m'.new :=
  Except.ok.inj (here.renamed.symm.trans (same ▸ there.renamed))

end RemapPlan

/-- The file of a class stands for itself all the way. -/
theorem ClassMove.plain_file {m : ClassMove} (internal : InternalName.fault? m.new = none) :
    ∀ piece ∈ Path.split m.file, Path.Plain piece := by
  obtain ⟨meaning, whole⟩ := InternalName.fault?_eq_none_iff.mp internal
  have absent : Path.slash ∉ (".class" : Text) := by decide
  obtain ⟨front, last, old, new⟩ := Text.splitOn_append (s := m.new) absent
  intro piece member
  have single := Path.not_mem_of_mem_split member
  rw [file, Path.split, new] at member
  rcases List.mem_append.mp member with member | member
  · have old : piece ∈ m.new.splitOn Path.slash := old ▸ List.mem_append_left _ member
    have dotless : (46 : UInt8) ∉ piece := fun dot =>
      meaning 46 (Text.mem_of_mem_splitOn old 46 dot).1 (by decide)
    refine ⟨single, fun empty => whole (empty ▸ old), ?_, fun _ => ?_⟩
    · rintro rfl
      exact dotless (by decide)
    · rintro rfl
      exact dotless (by decide)
  · obtain rfl := List.mem_singleton.mp member
    have long : 6 ≤ (last ++ (".class" : Text)).length := by
      rw [List.length_append]
      exact Nat.le_add_left 6 _
    refine ⟨single, ?_, ?_, fun _ => ?_⟩ <;> intro same <;> rw [same] at long <;>
      exact absurd long (by decide)

namespace RemapPlan

/-- Classes get internal names, and no two names become one. -/
structure Spreads (moves : List ClassMove) : Prop where
  internal : ∀ m ∈ moves, InternalName.fault? m.new = none
  apart : ∀ a ∈ moves, ∀ b ∈ moves, a.new = b.new → a.old = b.old

variable {plan : RemapPlan} {moves : List ClassMove} {a b : ClassMove}

/-- Classes that spread go to one file exactly if they had one name. -/
theorem Spreads.old_eq_iff (spreads : Spreads moves) (moved : ∀ m ∈ moves, ∃ s, plan.Moves s m)
    (here : a ∈ moves) (there : b ∈ moves) : a.old = b.old ↔ a.file = b.file := by
  obtain ⟨_, first⟩ := moved a here
  obtain ⟨_, second⟩ := moved b there
  refine ⟨fun same => congrArg (· ++ (".class" : Text)) (first.new_eq second same), fun same => ?_⟩
  exact spreads.apart a here b there (List.append_cancel_right same)

/-- What is in the output folder for classes from files: as many classes are counted as came out,
and what is there in the end is right for all of them if those by one name have the same bytes. -/
structure InFolder (plan : RemapPlan) (moves : List ClassMove) (count : Nat) (w : Workspace) :
    Prop where
  total : count = moves.length
  kept : (∀ m ∈ moves, w.read (plan.target m.file) = .ok m.bytes) ↔
    ∀ a ∈ moves, ∀ b ∈ moves, a.old = b.old → a.bytes = b.bytes
  counted : count = (moves.map fun m => plan.target m.file).dedup.length ↔
    (moves.map (·.old)).Nodup

/-- A list has as many items as different ones exactly if no two are the same. -/
theorem length_dedup_iff {α : Type} [DecidableEq α] {l : List α} :
    l.length = l.dedup.length ↔ l.Nodup := by
  rw [eq_comm, (List.dedup_sublist l).length_eq, List.dedup_eq_self]

/-- When classes that spread have been stored, every class is in its file: the one that came last,
of those that had one name. -/
theorem Spreads.inFolder {w w' : Workspace} (spreads : Spreads moves)
    (moved : ∀ m ∈ moves, ∃ s, plan.Moves s m)
    (stored : Workspace.StoresAll (moves.map fun m => (plan.target m.file, .bytes m.bytes)) w w') :
    plan.InFolder moves moves.length w' := by
  -- what a class finds at its place was written for a class by the same name
  have found {m : ClassMove} (member : m ∈ moves) : ∃ other ∈ moves, ∃ loc,
      w'.locate (plan.target m.file) = .ok loc ∧ other.old = m.old ∧
        w'.read (plan.target m.file) = .ok other.bytes := by
    obtain ⟨_, written, loc, here, there, held⟩ := stored.found (List.mem_map_of_mem member)
    obtain ⟨other, known, rfl⟩ := List.mem_map.mp written
    have same := Workspace.locate_join_inj (ClassMove.plain_file (spreads.internal other known))
      (ClassMove.plain_file (spreads.internal m member)) there here
    exact ⟨other, known, loc, here, (spreads.old_eq_iff moved known member).mpr same,
      Workspace.read_file here held⟩
  refine ⟨rfl, ⟨fun kept a here b there same => ?_, fun alike m member => ?_⟩, ?_⟩
  · have path := (spreads.old_eq_iff moved here there).mp same
    have read := kept a here
    rw [path] at read
    exact Except.ok.inj (read.symm.trans (kept b there))
  · obtain ⟨other, known, _, _, same, read⟩ := found member
    rw [read, alike other known m member same]
  · rw [← List.length_map (f := fun m : ClassMove => plan.target m.file), length_dedup_iff,
      List.Nodup, List.pairwise_map, List.pairwise_map]
    refine List.Pairwise.iff_of_mem fun {a b} here there => not_congr ?_
    rw [spreads.old_eq_iff moved here there]
    refine ⟨fun same => ?_, congrArg plan.target⟩
    obtain ⟨_, _, loc, led, _⟩ := found here
    have back : w'.locate (plan.target b.file) = .ok loc := same ▸ led
    exact Workspace.locate_join_inj (ClassMove.plain_file (spreads.internal a here))
      (ClassMove.plain_file (spreads.internal b there)) led back

end RemapPlan

namespace Action

variable {plan : RemapPlan} {path : Text} {c : Console}

/-- A class that moves is remapped without a change to the console. -/
theorem gives_remapClass {s : ClassSource} {m : ClassMove} (moves : plan.Moves s m) :
    Gives (remapClass plan s) c (.ok (m.file, m.bytes)) c := by
  have comes := RemapPlan.apply_eq_ok_iff.mpr ⟨m, moves, rfl⟩
  rw [remapClass, comes]
  rfl

/-- A class that comes out of the command is one that comes out of its plan. -/
theorem moves_of_gives {s : ClassSource} {out : Text × Bytes} {c' : Console}
    (gives : Gives (remapClass plan s) c (.ok out) c') : ∃ m, plan.Moves s m := by
  obtain ⟨outcome, _, tried, gives⟩ := gives_bind_iff.mp gives
  have mapped : outcome.mapError (Problem.inClass s.name) = .ok out :=
    Except.ok.inj (congrArg Prod.fst gives)
  rw [mapError_eq_ok_iff] at mapped
  cases came : plan.apply s with
  | ok out =>
      obtain ⟨m, moves, -⟩ := RemapPlan.apply_eq_ok_iff.mp came
      exact ⟨m, moves⟩
  | error e =>
      rw [came, mapped] at tried
      cases e <;> cases congrArg Prod.fst tried

/-- Items that all succeed have no problems. -/
theorem problems_map_ok {α β : Type} (f : α → β) (as : List α) :
    problems (as.map fun a => .ok (f a)) = [] := by
  induction as with
  | nil => rfl
  | cons a as inductionHypothesis => exact inductionHypothesis

/-- Classes from files that all come out are written one after another. -/
theorem gives_remapClasses {moved : List (ClassSource × ClassMove)} {tally : RemapTally}
    {c' : Console} (comes : ∀ p ∈ moved, plan.Moves p.1 p.2)
    (written : Gives (writeClasses plan (moved.map fun p => (p.2.file, p.2.bytes))) c tally c') :
    Gives (remapClasses plan (moved.map (·.1))) c tally c' := by
  let out (p : ClassSource × ClassMove) : Text × Bytes := (p.2.file, p.2.bytes)
  have outcomes :
      Gives ((moved.map (·.1)).mapM (remapClass plan)) c (moved.map (.ok <| out ·)) c := by
    refine gives_mapM (List.forall₂_map_left_iff.mpr (List.forall₂_map_right_iff.mpr ?_))
    exact List.forall₂_same.mpr fun p member => gives_remapClass (comes p member)
  have classes : (moved.map fun p => (.ok (out p) : Except Problem (Text × Bytes))).filterMap
      Except.toOption = moved.map out :=
    List.filterMap_map.trans (congrFun List.filterMap_eq_map moved)
  refine gives_bind_iff.mpr ⟨_, c, outcomes, ?_⟩
  rw [classes, problems_map_ok]
  exact gives_bind_iff.mpr ⟨tally, c', written, rfl⟩

end Action

/-! ## Archives -/

namespace ArchiveEntry

variable {name file : Text}

/-- The folder of a version is found in a name. -/
theorem versionFolder_versions {version rest : Text} (single : Path.slash ∉ version) :
    versionFolder (versions ++ (version ++ Path.slash :: rest)) = versions ++ version ++ "/" := by
  have front : Text.dropFront? versions (versions ++ (version ++ Path.slash :: rest)) =
      some (version ++ Path.slash :: rest) := Text.dropFront?_eq_some_iff.mpr rfl
  have cut : Text.cut? Path.slash (version ++ Path.slash :: rest) = some (version, rest) :=
    Text.cut?_eq_some_iff.mpr ⟨single, rfl⟩
  simp only [versionFolder, front, cut]

/-- A name has no folder of a version, or one with a single element. -/
theorem versionFolder_cases (name : Text) : versionFolder name = [] ∨
    ∃ version, Path.slash ∉ version ∧ versionFolder name = versions ++ version ++ "/" := by
  rw [versionFolder]
  split
  · exact .inl rfl
  · split
    · exact .inl rfl
    · rename_i cut
      exact .inr ⟨_, (Text.cut?_eq_some_iff.mp cut).1, rfl⟩

/-- The folder of a version is the folder of what is put in it. -/
theorem versionFolder_append (free : versionFolder file = []) :
    versionFolder (versionFolder name ++ file) = versionFolder name := by
  rcases versionFolder_cases name with none | ⟨version, single, here⟩
  · rw [none]
    exact free
  · have placed : versionFolder (versions ++ (version ++ Path.slash :: file)) = _ :=
      versionFolder_versions single
    rw [here, ← placed, placed, List.append_assoc, List.append_assoc]
    exact placed

end ArchiveEntry

namespace RemapPlan

variable {plan : RemapPlan} {path : Text} {entries : List ArchiveEntry}
  {moved : List (ArchiveEntry × ClassMove)}

/-- Where a class of an archive goes: under its new name, in the folder of its version if it has
one. -/
def archived (p : ArchiveEntry × ClassMove) : Text :=
  ArchiveEntry.versionFolder p.1.name ++ p.2.file

/-- What becomes of an entry of an archive: a class goes under its new name, and anything else stays
as it is. -/
def EntryMoves (plan : RemapPlan) (path : Text) (e out : ArchiveEntry) : Prop :=
  if e.isClass then
    ∃ m, plan.Moves (Workspace.entrySource path e) m ∧ out = ⟨archived (e, m), m.bytes⟩
  else out = e

/-- What is in the output folder for an archive: the archive with its entries in order, where two
classes have one name if they had before, for the same version. -/
structure InArchive (plan : RemapPlan) (path : Text) (entries : List ArchiveEntry)
    (moved : List (ArchiveEntry × ClassMove)) (count : Nat) (w : Workspace) : Prop where
  total : count = moved.length
  kept : ∃ loc outs, w.find (plan.target (Path.base path)) = .ok (loc, .file (.archive outs)) ∧
    List.Forall₂ (plan.EntryMoves path) entries outs
  apart : ∀ p ∈ moved, ∀ q ∈ moved, archived p = archived q ↔
    ArchiveEntry.versionFolder p.1.name = ArchiveEntry.versionFolder q.1.name ∧ p.2.old = q.2.old
  counted : count = (moved.map archived).dedup.length ↔
    (moved.map fun p => (ArchiveEntry.versionFolder p.1.name, p.2.old)).Nodup

/-- Entries that spread get one name exactly if they had one and stand in the same folder of a
version. -/
theorem Spreads.archived_eq_iff (spreads : Spreads (moved.map (·.2)))
    (comes : ∀ p ∈ moved, plan.Moves (Workspace.entrySource path p.1) p.2)
    (free : ∀ p ∈ moved, ArchiveEntry.versionFolder p.2.file = []) :
    ∀ p ∈ moved, ∀ q ∈ moved, archived p = archived q ↔
      ArchiveEntry.versionFolder p.1.name = ArchiveEntry.versionFolder q.1.name ∧
        p.2.old = q.2.old := by
  intro p here q there
  have sources : ∀ m ∈ moved.map (·.2), ∃ s, plan.Moves s m :=
    List.forall_mem_map.mpr fun p member => ⟨_, comes p member⟩
  rw [spreads.old_eq_iff sources (List.mem_map_of_mem here) (List.mem_map_of_mem there)]
  constructor
  · intro same
    have folders := congrArg ArchiveEntry.versionFolder same
    rw [archived, archived, ArchiveEntry.versionFolder_append (free p here),
      ArchiveEntry.versionFolder_append (free q there)] at folders
    rw [archived, archived, folders] at same
    exact ⟨folders, List.append_cancel_left same⟩
  · rintro ⟨folders, files⟩
    rw [archived, archived, folders, files]

/-- The archive with the entries in their places is as it should be, when classes that spread have
been remapped. -/
theorem Spreads.inArchive {w w' : Workspace} {outs : List ArchiveEntry}
    (spreads : Spreads (moved.map (·.2)))
    (comes : ∀ p ∈ moved, plan.Moves (Workspace.entrySource path p.1) p.2)
    (free : ∀ p ∈ moved, ArchiveEntry.versionFolder p.2.file = [])
    (each : List.Forall₂ (plan.EntryMoves path) entries outs)
    (stored : Workspace.Stores (plan.target (Path.base path)) (.archive outs) w w') :
    plan.InArchive path entries moved moved.length w' := by
  have apart := spreads.archived_eq_iff comes free
  obtain ⟨loc, found, put⟩ := stored.files
  have held : w'.tree.files.lookup loc = some (.archive outs) :=
    put ▸ FileTree.lookup_putFile.trans (if_pos rfl)
  refine ⟨rfl, ⟨loc, outs, Workspace.find_file found held, each⟩, apart, ?_⟩
  rw [← List.length_map (f := archived), length_dedup_iff, List.Nodup, List.pairwise_map,
    List.Nodup, List.pairwise_map]
  refine List.Pairwise.iff_of_mem fun {p q} here there => not_congr ?_
  rw [apart p here q there, Prod.mk.injEq]

end RemapPlan

namespace Action

variable {plan : RemapPlan} {path : Text} {c : Console} {entries : List ArchiveEntry}

/-- A class of an archive is remapped and goes into the folder of its version. -/
theorem remapEntry_of_class {e : ArchiveEntry} (kind : e.isClass = true) :
    remapEntry plan path e = do
      return (← remapClass plan (Workspace.entrySource path e)).map fun (name, bytes) =>
        ⟨ArchiveEntry.versionFolder e.name ++ name, bytes⟩ := by
  rw [remapEntry, kind]
  rfl

/-- An entry that moves is remapped without a change to the console. -/
theorem gives_remapEntry {e out : ArchiveEntry} (moves : plan.EntryMoves path e out) :
    Gives (remapEntry plan path e) c (.ok out) c := by
  rw [RemapPlan.EntryMoves] at moves
  cases kind : e.isClass with
  | false =>
      rw [if_neg (by simp [kind])] at moves
      rw [remapEntry, kind, moves]
      rfl
  | true =>
      rw [if_pos kind] at moves
      obtain ⟨m, moves, rfl⟩ := moves
      rw [remapEntry_of_class kind]
      exact gives_bind_iff.mpr ⟨_, c, gives_remapClass moves, rfl⟩

/-- Remapping an entry leaves the console, whether it goes well or not. -/
theorem quiet_remapEntry (e : ArchiveEntry) : Quiet (remapEntry plan path e) := by
  cases kind : e.isClass with
  | false =>
      rw [remapEntry, kind]
      exact fun c => rfl
  | true =>
      rw [remapEntry_of_class kind]
      exact quiet_bind (quiet_bind (quiet_attempt _) fun _ _ => rfl) fun _ _ => rfl

/-- If every item has a related one, lists of them are related. -/
theorem exists_forall₂ {α β : Type} {R : α → β → Prop} {as : List α} (each : ∀ a ∈ as, ∃ b, R a b) :
    ∃ bs, List.Forall₂ R as bs := by
  induction as with
  | nil => exact ⟨[], .nil⟩
  | cons a as inductionHypothesis =>
      obtain ⟨⟨b, first⟩, others⟩ := List.forall_mem_cons.mp each |>.imp_right inductionHypothesis
      obtain ⟨bs, rest⟩ := others
      exact ⟨b :: bs, .cons first rest⟩

/-- An archive all of whose classes come out is written with all its entries. -/
theorem gives_remapArchive {moved : List (ArchiveEntry × ClassMove)}
    (held : c.workspace.archive path = .ok entries)
    (classes : moved.map (·.1) = entries.filter (·.isClass))
    (comes : ∀ p ∈ moved, plan.Moves (Workspace.entrySource path p.1) p.2) :
    ∃ outs fault c', List.Forall₂ (plan.EntryMoves path) entries outs ∧
      Gives (remapArchive plan path) c (moved.length, (fault.map Problem.file).toList) c' ∧
      (fault = none → Workspace.Stores (plan.target (Path.base path)) (.archive outs)
        c.workspace c'.workspace) := by
  have each : ∀ e ∈ entries, ∃ out, plan.EntryMoves path e out := by
    intro e member
    by_cases kind : e.isClass = true
    · have known : e ∈ moved.map (·.1) := classes ▸ List.mem_filter.mpr ⟨member, kind⟩
      obtain ⟨p, inside, rfl⟩ := List.mem_map.mp known
      exact ⟨_, (if_pos kind).mpr ⟨p.2, comes p inside, rfl⟩⟩
    · exact ⟨e, (if_neg kind).mpr rfl⟩
  obtain ⟨outs, all⟩ := exists_forall₂ each
  obtain ⟨fault, c', written, stored⟩ :=
    gives_writeUnder (plan.target (Path.base path)) (.archive outs) c
  refine ⟨outs, fault, c', all, ?_, stored⟩
  have outcomes : Gives (entries.mapM (remapEntry plan path)) c (outs.map .ok) c :=
    gives_mapM (List.forall₂_map_right_iff.mpr (all.imp fun _ _ => gives_remapEntry))
  have kept : (outs.map (.ok : ArchiveEntry → Except Problem ArchiveEntry)).filterMap
      Except.toOption = outs :=
    List.filterMap_map.trans List.filterMap_some
  have none : problems (outs.map (.ok : ArchiveEntry → Except Problem ArchiveEntry)) = [] :=
    problems_map_ok id outs
  have count : moved.length = entries.countP (·.isClass) := by
    rw [List.countP_eq_length_filter, ← classes, List.length_map]
  rw [remapArchive, count]
  refine gives_bind_iff.mpr ⟨c, c, gives_get, ?_⟩
  rw [held]
  refine gives_bind_iff.mpr ⟨_, c, outcomes, ?_⟩
  rw [none, kept]
  exact gives_bind_iff.mpr ⟨fault, c', written, rfl⟩

/-- An archive with a class that does not come out is not written. -/
theorem quiet_remapArchive (held : c.workspace.archive path = .ok entries) {e : ArchiveEntry}
    (member : e ∈ entries) (kind : e.isClass = true)
    (fails : ∀ m, ¬plan.Moves (Workspace.entrySource path e) m) :
    ((remapArchive plan path).run.run c).2 = c := by
  rw [remapArchive]
  refine quiet_bind_of_gives (fun _ => rfl) fun c' got => ?_
  obtain rfl : c = c' := Except.ok.inj (congrArg Prod.fst got)
  rw [held]
  refine quiet_bind_of_gives (quiet_mapM quiet_remapEntry entries) fun outcomes gives => ?_
  obtain ⟨outcome, known, before, after, gives⟩ :=
    exists_right_of_forall₂ (forall₂_of_gives_mapM gives) member
  rw [remapEntry_of_class kind] at gives
  obtain ⟨came, between, first, rest⟩ := gives_bind_iff.mp gives
  obtain rfl : came.map _ = outcome := Except.ok.inj (congrArg Prod.fst rest)
  cases came with
  | ok out =>
      obtain ⟨m, moves⟩ := moves_of_gives first
      exact absurd moves (fails m)
  | error p =>
      have found : p ∈ problems outcomes := List.mem_filterMap.mpr ⟨_, known, rfl⟩
      cases met : problems outcomes with
      | nil => rw [met] at found; cases found
      | cons p ps => rfl

/-! ## What a path leads to -/

/-- Remapping a path first looks at what is there, and then goes through an archive or through
classes. -/
theorem remapPath_run : (remapPath plan path).run.run c = ((match c.workspace.stat path with
    | .error e => return (0, [.file e])
    | .ok (loc, node) =>
      if Path.isArchive path then remapArchive plan path
      else match node with
        | .folder => remapClasses plan (c.workspace.classesUnder path loc)
        | .file content => remapClasses plan [⟨path, content.raw⟩]) :
    Action RemapTally).run.run c := rfl

/-- A path that is an archive is remapped as one. -/
theorem remapPath_of_archive (archive : Path.isArchive path = true)
    (held : c.workspace.archive path = .ok entries) :
    (remapPath plan path).run.run c = (remapArchive plan path).run.run c := by
  rw [remapPath_run, Workspace.stat]
  rw [Workspace.archive] at held
  cases found : c.workspace.find path with
  | error fault => rw [found] at held; cases held
  | ok at_ =>
      rw [Except.mapError]
      dsimp only
      rw [if_pos archive]

/-- A path that is no archive is remapped class by class. -/
theorem remapPath_of_classes (archive : Path.isArchive path = false) {sources : List ClassSource}
    (held : c.workspace.classesAt path = .ok sources) :
    (remapPath plan path).run.run c = (remapClasses plan sources).run.run c := by
  rw [remapPath_run, Workspace.stat]
  simp only [Workspace.classesAt, bind_eq_ok_iff, Workspace.stat, mapError_eq_ok_iff] at held
  obtain ⟨⟨loc, node⟩, found, held⟩ := held
  rw [found]
  cases node with
  | folder =>
      obtain rfl := pure_eq_ok_iff.mp held
      rw [Except.mapError]
      dsimp only
      rw [if_neg (by simp [archive])]
  | file content =>
      dsimp only at held
      rw [if_neg (by simp [archive])] at held
      obtain ⟨source, read, held⟩ := bind_eq_ok_iff.mp held
      rw [mapError_eq_ok_iff, Workspace.classIn, bind_eq_ok_iff] at read
      obtain ⟨data, read, whole⟩ := read
      rw [Workspace.read, found] at read
      obtain rfl := Except.ok.inj read
      obtain rfl := pure_eq_ok_iff.mp whole
      obtain rfl := pure_eq_ok_iff.mp held
      rw [Except.mapError]
      dsimp only
      rw [if_neg (by simp [archive])]

end Action

/-! ## A class that there are two versions of -/

namespace RemapPlan

/-- A class file with nothing but a name, of one letter in a package of one letter. -/
def bareClass (major package name : UInt8) : Bytes :=
  [0xCA, 0xFE, 0xBA, 0xBE, 0, 0, 0, major, 0, 3, 1, 0, 3, package, 47, name, 7, 0, 1, 0, 0x21, 0, 2,
    0, 0, 0, 0, 0, 0, 0, 0, 0, 0]

/-- A plan to rename one class. -/
def single : RemapPlan := ⟨[("t/T", "u/U")], .noPoolSharing, "out"⟩

/-- What becomes of the class. -/
def singleMove (major : UInt8) : ClassMove := ⟨"t/T", "u/U", bareClass major 117 85⟩

/-- The class as it is read. -/
def bareFile (major : UInt8) : ClassFile :=
  (ClassFile.parse 0 (bareClass major 116 84).toArray single.options).toOption.getD default

variable {major : UInt8}

/-- The class is read under its name and with a settled pool, which is not to be shared, for either
version. -/
theorem reads_bareFile (known : major = 52 ∨ major = 53) :
    (ClassFile.parse 0 (bareClass major 116 84).toArray single.options).toOption.isSome = true ∧
      (bareFile major).this.internalName = "t/T" ∧
      (bareFile major).input.pool.unsettled = false ∧
      ((bareFile major).withInput (bareFile major).input).options.has .noPoolSharing = true := by
  rcases known with rfl | rfl <;> decide +kernel

/-- The class with nothing but a name is parsed, for either version. -/
theorem parse_bareFile (known : major = 52 ∨ major = 53) :
    ClassFile.parse 0 (bareClass major 116 84).toArray single.options = .ok (bareFile major) := by
  obtain ⟨f, parsed⟩ := Option.isSome_iff_exists.mp (reads_bareFile known).1
  have same : bareFile major = f := congrArg (Option.getD · default) parsed
  rw [same]
  exact toOption_eq_some_iff.mp parsed

/-- The class comes out under its new name with nothing else changed. -/
theorem moves_single (known : major = 52 ∨ major = 53) (name : Text) :
    single.Moves ⟨name, bareClass major 116 84⟩ (singleMove major) := by
  obtain ⟨-, named, settled, fresh⟩ := reads_bareFile known
  have renamed : (Renaming.ofPackages single.table).internalName "t/T" = .ok "u/U" := by
    refine toOption_eq_some_iff.mp ?_
    decide
  have unchanged : (bareFile major).settledBy (Renaming.ofPackages single.table).classFile =
      (bareFile major).withInput (bareFile major).input := by
    rw [ClassFile.settledBy, Input.settledBy, settled]
    rfl
  have this (f : ClassFile) (i : Input) : (f.withInput i).this = f.this := rfl
  have given : ¬("u/U" : Text).isEmpty = true := by decide
  refine ⟨renamed, bareFile major, parse_bareFile known, named, ?_⟩
  rw [ClassFile.query, unchanged, Renaming.classFile, this, named]
  refine bind_eq_ok_iff.mpr ⟨"u/U", renamed, ?_⟩
  rw [ClassFile.transformAs, if_neg given]
  refine (ClassFile.rebuild_fresh fresh ?_).trans (toOption_eq_some_iff.mp ?_)
  · cbv
  rcases known with rfl | rfl <;> decide +kernel

end RemapPlan

namespace Action

open RemapPlan (bareClass single singleMove moves_single)

/-- A class for all and one for version 9, each in a file and with what becomes of it. -/
def inFiles : List (ClassSource × ClassMove) :=
  [(⟨"in/META-INF/versions/9/t/T.class", bareClass 53 116 84⟩, singleMove 53),
    (⟨"in/t/T.class", bareClass 52 116 84⟩, singleMove 52)]

/-- The same as entries of an archive. -/
def inEntries : List (ArchiveEntry × ClassMove) :=
  [(⟨"META-INF/versions/9/t/T.class", bareClass 53 116 84⟩, singleMove 53),
    (⟨"t/T.class", bareClass 52 116 84⟩, singleMove 52)]

/-- An entry that has the name of a class but is none. -/
def broken : ArchiveEntry := ⟨"t/T.class", []⟩

/-- A console in a tree with a folder and an archive with both classes, and an archive with one that
is broken. -/
def releases : Console :=
  let add (loc : Location) (content : Content) (t : FileTree) : FileTree :=
    (t.addParents loc).addFile loc content
  { workspace :=
      { tree := FileTree.empty
          |> add ["in", "META-INF", "versions", "9", "t", "T.class"] (.bytes (bareClass 53 116 84))
          |> add ["in", "t", "T.class"] (.bytes (bareClass 52 116 84))
          |> add ["in.jar"] (.archive (inEntries.map (·.1)))
          |> add ["broken.jar"] (.archive [broken])
        home := "/w"
        current := [] }
    printed := [] }

/-- The folder with both classes has them as its classes. -/
theorem classesAt_releases : releases.workspace.classesAt "in" = .ok (inFiles.map (·.1)) := by
  have found : releases.workspace.stat "in" = .ok ((["in"] : List Text), .folder) := rfl
  let read (file : Location × Content) : ClassSource :=
    { name := Path.join "in" (Text.join [Path.slash] file.1), data := file.2.raw }
  have listed : ((releases.workspace.tree.under ["in"]).map read).filter
      (fun s => s.name.endsWith ".class") = inFiles.map (·.1) := by decide
  have sorted : (inFiles.map (·.1)).Pairwise fun a b => Text.ble a.name b.name = true := by
    decide
  have classes : releases.workspace.classesUnder "in" ["in"] = inFiles.map (·.1) := by
    rw [Workspace.classesUnder]
    refine (congrArg (List.mergeSort · _) listed).trans ?_
    exact List.mergeSort_of_pairwise sorted
  rw [Workspace.classesAt, found, ← classes]
  rfl

/-- Both classes come out of the plan. -/
theorem comes_inFiles : ∀ p ∈ inFiles, single.Moves p.1 p.2 := by
  simp only [inFiles, List.forall_mem_cons, List.not_mem_nil, false_implies, implies_true, and_true]
  exact ⟨moves_single (.inr rfl) _, moves_single (.inl rfl) _⟩

/-- The moves of both classes spread: they had one name and get one. -/
theorem spreads_single : RemapPlan.Spreads [singleMove 53, singleMove 52] where
  internal := by decide
  apart := by decide

/-- Both classes are written, the second over the first. -/
theorem gives_releases : ∃ c', Gives (remapPath single "in") releases (2, []) c' ∧
    c'.workspace.tree.files.map (·.2) =
      releases.workspace.tree.files.map (·.2) ++ [.bytes (singleMove 52).bytes] := by
  obtain ⟨ran, written⟩ : ∃ ran, (writeClasses single
      (inFiles.map fun p => (p.2.file, p.2.bytes))).run.run releases = ran := ⟨_, rfl⟩
  have outcome : ran.1.toOption.map (fun r => (r.1, r.2.length)) = some (2, 0) ∧
      ran.2.workspace.tree.files.map (·.2) =
        releases.workspace.tree.files.map (·.2) ++ [.bytes (singleMove 52).bytes] := by
    rw [← written]
    decide +kernel
  obtain ⟨counted, files⟩ := outcome
  obtain ⟨⟨n, failures⟩, done, same⟩ := Option.map_eq_some_iff.mp counted
  obtain ⟨rfl, none⟩ := Prod.mk.inj same
  obtain rfl := List.length_eq_zero_iff.mp none
  have gives := gives_remapClasses comes_inFiles
    (written.trans (Prod.ext (toOption_eq_some_iff.mp done) rfl))
  exact ⟨_, (remapPath_of_classes rfl classesAt_releases).trans gives, files⟩

/-! ## What becomes of classes -/

/-- Renaming always has an outcome where every class comes out. Unless a file cannot be written, the
classes of a folder are all there in the end if, and only if, those by one name come out with the
same bytes; the classes of an archive are there among its other entries, apart from one another
unless they had one name for one version. If a class of an archive does not come out, nothing is
written. -/
theorem remapPath_keeps_classes (plan : RemapPlan) (path : Text) (c : Console) :
    (Path.isArchive path = false →
      ∀ moved : List (ClassSource × ClassMove), c.workspace.classesAt path = .ok (moved.map (·.1)) →
        (∀ p ∈ moved, plan.Moves p.1 p.2) → RemapPlan.Spreads (moved.map (·.2)) →
        ∃ count problems c', Gives (remapPath plan path) c (count, problems) c' ∧
          (problems = [] → plan.InFolder (moved.map (·.2)) count c'.workspace)) ∧
    (Path.isArchive path = true → ∀ entries, c.workspace.archive path = .ok entries →
      (∀ moved : List (ArchiveEntry × ClassMove), moved.map (·.1) = entries.filter (·.isClass) →
        (∀ p ∈ moved, plan.Moves (Workspace.entrySource path p.1) p.2) →
        RemapPlan.Spreads (moved.map (·.2)) →
        (∀ p ∈ moved, ArchiveEntry.versionFolder p.2.file = []) →
        ∃ count problems c', Gives (remapPath plan path) c (count, problems) c' ∧
          (problems = [] → plan.InArchive path entries moved count c'.workspace)) ∧
      ((∃ e ∈ entries, e.isClass ∧ ∀ m, ¬plan.Moves (Workspace.entrySource path e) m) →
        ((remapPath plan path).run.run c).2 = c)) := by
  refine ⟨fun single moved held comes spreads => ?_, fun archive entries held => ⟨?_, ?_⟩⟩
  · obtain ⟨count, problems, c', written, stored⟩ :=
      gives_writeClasses plan (moved.map fun p => (p.2.file, p.2.bytes)) c
    have gives := (remapPath_of_classes single held).trans (gives_remapClasses comes written)
    refine ⟨count, problems, c', gives, fun none => ?_⟩
    obtain ⟨rfl, all⟩ := stored none
    have sources : ∀ m ∈ moved.map (·.2), ∃ s, plan.Moves s m :=
      List.forall_mem_map.mpr fun p member => ⟨p.1, comes p member⟩
    rw [List.map_map] at all
    rw [List.length_map, ← List.length_map (f := Prod.snd)]
    refine spreads.inFolder (w := c.workspace) sources ?_
    rw [List.map_map]
    exact all
  · intro moved classes comes spreads free
    obtain ⟨outs, fault, c', each, gives, stored⟩ := gives_remapArchive held classes comes
    refine ⟨_, _, c', (remapPath_of_archive archive held).trans gives, fun none => ?_⟩
    cases fault with
    | some e => cases none
    | none => exact spreads.inArchive comes free each (stored rfl)
  · rintro ⟨e, member, kind, fails⟩
    rw [remapPath_of_archive archive held]
    exact quiet_remapArchive held member kind fails


/-- The class for version 9 is lost in a folder: two classes are counted, but what it became is in
no file. -/
theorem remapPath_loses_version :
    releases.workspace.classesAt "in" = .ok (inFiles.map (·.1)) ∧
      (∀ p ∈ inFiles, single.Moves p.1 p.2) ∧ RemapPlan.Spreads (inFiles.map (·.2)) ∧
      ∃ c', Gives (remapPath single "in") releases (2, []) c' ∧
        ∀ loc, c'.workspace.tree.files.lookup loc ≠ some (.bytes (singleMove 53).bytes) := by
  obtain ⟨c', gives, held⟩ := gives_releases
  refine ⟨classesAt_releases, comes_inFiles, spreads_single, c', gives, fun loc found => ?_⟩
  obtain ⟨front, back, files, -⟩ := List.lookup_eq_some_iff.mp found
  have member : Content.bytes (singleMove 53).bytes ∈ c'.workspace.tree.files.map (·.2) := by
    rw [files, List.map_append]
    exact List.mem_append_right _ List.mem_cons_self
  rw [held] at member
  revert member
  decide

/-- The classes in a folder and in an archive, and an archive that is not written. -/
theorem remapPath_keeps_classes_releases :
    (∃ count problems c', Gives (remapPath single "in") releases (count, problems) c' ∧
      (problems = [] → single.InFolder (inFiles.map (·.2)) count c'.workspace)) ∧
    (∃ count problems c', Gives (remapPath single "in.jar") releases (count, problems) c' ∧
      (problems = [] →
        single.InArchive "in.jar" (inEntries.map (·.1)) inEntries count c'.workspace)) ∧
    ((remapPath single "broken.jar").run.run releases).2 = releases := by
  have inArchive : releases.workspace.archive "in.jar" = .ok (inEntries.map (·.1)) := rfl
  have inBroken : releases.workspace.archive "broken.jar" = .ok [broken] := rfl
  have comes : ∀ p ∈ inEntries, single.Moves (Workspace.entrySource "in.jar" p.1) p.2 := by
    simp only [inEntries, List.forall_mem_cons, List.not_mem_nil, false_implies, implies_true,
      and_true]
    exact ⟨moves_single (.inr rfl) _, moves_single (.inl rfl) _⟩
  have free : ∀ p ∈ inEntries, ArchiveEntry.versionFolder p.2.file = [] := by decide
  have fails : ∀ m, ¬single.Moves (Workspace.entrySource "broken.jar" broken) m := by
    rintro m ⟨-, f, read, -⟩
    have none :
        ((Workspace.entrySource "broken.jar" broken).parse single.options).toOption.isNone := by
      decide
    rw [read] at none
    cases none
  exact ⟨(remapPath_keeps_classes single "in" releases).1 rfl inFiles classesAt_releases
      comes_inFiles spreads_single,
    ((remapPath_keeps_classes single "in.jar" releases).2 rfl _ inArchive).1 inEntries rfl comes
      spreads_single free,
    ((remapPath_keeps_classes single "broken.jar" releases).2 rfl _ inBroken).2
      ⟨broken, List.mem_singleton_self _, rfl, fails⟩⟩

end Action

end JvmClass
