import JvmClass.Proofs.Renaming.Packages
import JvmClass.Workspace

/-!
# Places in a tree

A path is put together from a folder and a name, and leads to a place. Where every piece of the name
stands for itself, and is not empty, a step up or a step that goes nowhere, nothing of the name is
lost on the way. Main statement: such names lead to different places if they differ.
-/

namespace JvmClass

/-! ## Pieces of texts -/

namespace Text

variable {s t : Text} {sep : UInt8}

/-- A piece has the bytes of the text except for the separator. -/
theorem mem_of_mem_splitOn {piece : Text} (member : piece ∈ s.splitOn sep) :
    ∀ b ∈ piece, b ∈ s ∧ b ≠ sep := by
  induction s generalizing piece with
  | nil =>
      obtain rfl := List.mem_singleton.mp (List.splitOn_nil sep ▸ member)
      exact nofun
  | cons c s inductionHypothesis =>
      have later {piece : Text} (member : piece ∈ s.splitOn sep) :
          ∀ b ∈ piece, b ∈ c :: s ∧ b ≠ sep := fun b inside =>
          (inductionHypothesis member b inside).imp_left (List.mem_cons_of_mem c)
      obtain ⟨first, others, split⟩ := List.exists_cons_of_ne_nil (List.splitOn_ne_nil sep s)
      rw [List.splitOn_cons_eq_if_modifyHead] at member
      split at member
      · rcases List.mem_cons.mp member with rfl | member
        · exact nofun
        · exact later member
      · rename_i other
        rw [split, List.modifyHead_cons] at member
        rcases List.mem_cons.mp member with rfl | member
        · have apart : c ≠ sep := fun same => other (beq_iff_eq.mpr same)
          have front := later (split ▸ List.mem_cons_self : first ∈ s.splitOn sep)
          exact List.forall_mem_cons.mpr ⟨⟨List.mem_cons_self, apart⟩, front⟩
        · exact later (split ▸ List.mem_cons_of_mem _ member)

/-- What has no separator is added to the last piece. -/
theorem splitOn_append (absent : sep ∉ t) : ∃ front last, s.splitOn sep = front ++ [last] ∧
    (s ++ t).splitOn sep = front ++ [last ++ t] := by
  induction s with
  | nil => exact ⟨[], [], List.splitOn_nil sep, List.splitOn_eq_singleton absent⟩
  | cons c s inductionHypothesis =>
      obtain ⟨front, last, split, whole⟩ := inductionHypothesis
      rw [List.cons_append, List.splitOn_cons_eq_if_modifyHead, List.splitOn_cons_eq_if_modifyHead,
        split, whole]
      split
      · exact ⟨[] :: front, last, rfl, rfl⟩
      · cases front with
        | nil => exact ⟨[], c :: last, rfl, rfl⟩
        | cons first front => exact ⟨(c :: first) :: front, last, rfl, rfl⟩

/-- Several pieces are joined with the glue after the first. -/
theorem join_cons {glue piece : Text} {pieces : List Text} (more : pieces ≠ []) :
    join glue (piece :: pieces) = piece ++ (glue ++ join glue pieces) := by
  obtain ⟨next, others, rfl⟩ := List.exists_cons_of_ne_nil more
  rfl

/-- A text that was split is joined again. -/
theorem join_splitOn : join [sep] (s.splitOn sep) = s :=
  List.intercalate_splitOn sep

/-- Texts with the same pieces are the same. -/
theorem splitOn_inj : s.splitOn sep = t.splitOn sep ↔ s = t := by
  refine ⟨fun same => ?_, fun same => same ▸ rfl⟩
  rw [← join_splitOn (s := s), same, join_splitOn]

end Text

/-! ## Elements of paths -/

namespace Path

variable {folder name path : Text} {done names : List Text} {rooted : Bool}

/-- An element of a path that leads somewhere: it has no slash, and is not empty or a single dot.
Steps up are only left at the start of a path that does not start at the root. -/
structure Settled (rooted : Bool) (element : Text) : Prop where
  single : slash ∉ element
  nonempty : element ≠ []
  moves : element ≠ "."
  descends : rooted = true → element ≠ ".."

/-- An element that stands for a file or a folder by that name. -/
abbrev Plain (element : Text) : Prop := Settled true element

/-- An element that stands for a file or a folder leads somewhere. -/
theorem Settled.relative {element : Text} (plain : Plain element) : Settled false element :=
  ⟨plain.single, plain.nonempty, plain.moves, nofun⟩

/-- An element that stands for a file or a folder is no step up. -/
theorem Settled.ne_up {element : Text} (plain : Plain element) : element ≠ ".." :=
  plain.descends rfl

/-- An element that stands for a file or a folder goes to the end of a path. -/
theorem push_plain {element : Text} (plain : Plain element) :
    push rooted done element = element :: done := by
  have nonempty : element.isEmpty = false := List.isEmpty_eq_false_iff.mpr plain.nonempty
  rw [push.eq_def, nonempty, Bool.false_or, if_neg (by simpa using plain.moves),
    if_neg plain.ne_up]

/-- Elements that stand for files or folders all go to the end of a path, in their order. -/
theorem foldl_push_plain (plain : ∀ element ∈ names, Plain element) :
    names.foldl (push rooted) done = names.reverse ++ done := by
  induction names generalizing done with
  | nil => rfl
  | cons element names inductionHypothesis =>
      obtain ⟨first, others⟩ := List.forall_mem_cons.mp plain
      rw [List.foldl_cons, push_plain first, inductionHypothesis others]
      simp

/-- What is left of a path when an element is put to its end leads somewhere. -/
theorem push_settled {element : Text} (single : slash ∉ element)
    (settled : ∀ e ∈ done, Settled rooted e) :
    ∀ e ∈ push rooted done element, Settled rooted e := by
  rw [push.eq_def]
  split
  · exact settled
  rename_i moving
  simp only [Bool.or_eq_true, List.isEmpty_iff, decide_eq_true_eq, not_or] at moving
  split
  · -- A step up is kept only where nothing is left that it could take away.
    rename_i up
    have up_settled (free : rooted = false) : Settled rooted element :=
      ⟨single, moving.1, moving.2, fun held => by rw [free] at held; cases held⟩
    split
    · split
      · exact nofun
      · rename_i free
        exact List.forall_mem_singleton.mpr (up_settled (by simpa using free))
    · rename_i last rest
      obtain ⟨here, others⟩ := List.forall_mem_cons.mp settled
      split
      · rename_i same
        have free : rooted = false := by
          by_contra held
          exact here.descends (by simpa using held) same
        exact List.forall_mem_cons.mpr ⟨up_settled free, settled⟩
      · exact others
  · rename_i down
    exact List.forall_mem_cons.mpr ⟨⟨single, moving.1, moving.2, fun _ => down⟩, settled⟩

/-- The pieces between slashes have no slash. -/
theorem not_mem_of_mem_split {piece : Text} (member : piece ∈ split path) : slash ∉ piece :=
  fun inside => (Text.mem_of_mem_splitOn member slash inside).2 rfl

/-- What is left of a path when it is cleaned. -/
def elements (path : Text) : List Text := ((split path).foldl (push (isAbsolute path)) []).reverse

/-- A path by its elements. -/
def spell (rooted : Bool) (elements : List Text) : Text :=
  let body := Text.join [slash] elements
  if rooted then slash :: body else if body.isEmpty then "." else body

/-- A clean path is spelled by its elements. -/
theorem clean_eq (path : Text) : clean path = spell (isAbsolute path) (elements path) := rfl

/-- What is left of a path when pieces are put to its end leads somewhere. -/
theorem foldl_push_settled {pieces : List Text} (single : ∀ piece ∈ pieces, slash ∉ piece)
    (settled : ∀ e ∈ done, Settled rooted e) :
    ∀ e ∈ pieces.foldl (push rooted) done, Settled rooted e := by
  induction pieces generalizing done with
  | nil => exact settled
  | cons piece pieces inductionHypothesis =>
      obtain ⟨first, others⟩ := List.forall_mem_cons.mp single
      exact inductionHypothesis others (push_settled first settled)

/-- What is left of a path when it is cleaned leads somewhere. -/
theorem settled_elements (path : Text) : ∀ e ∈ elements path, Settled (isAbsolute path) e := by
  intro e member
  have none : ∀ e ∈ ([] : List Text), Settled (isAbsolute path) e := nofun
  exact foldl_push_settled (fun _ => not_mem_of_mem_split) none e (List.mem_reverse.mp member)

/-- Pieces without a slash are found again when they are joined and split. -/
theorem split_join {pieces : List Text} (single : ∀ piece ∈ pieces, slash ∉ piece)
    (nonempty : pieces ≠ []) : split (Text.join [slash] pieces) = pieces :=
  List.splitOn_intercalate slash single nonempty

/-- The pieces of an empty or absolute path include an empty one. -/
theorem nil_mem_split (front : path = [] ∨ isAbsolute path = true) : [] ∈ split path := by
  rcases front with rfl | rooted
  · exact List.mem_singleton_self _
  · obtain ⟨rest, rfl⟩ := List.head?_eq_some_iff.mp (eq_of_beq rooted)
    exact Text.nil_mem_splitOn.mpr (.inl (.inr ⟨rest, rfl⟩))

/-- A path with a name in a folder leads through what is left of the folder and then through the
pieces of the name. -/
theorem join_eq (plain : ∀ piece ∈ split name, Plain piece) :
    join folder name = spell (isAbsolute folder) (elements folder ++ split name) := by
  have front : ¬(name = [] ∨ isAbsolute name = true) := fun front =>
    (plain [] (nil_mem_split front)).nonempty rfl
  rw [not_or, Bool.not_eq_true] at front
  cases folder with
  | nil =>
      have whole : elements name = split name := by
        rw [elements, foldl_push_plain plain, List.append_nil, List.reverse_reverse]
      rw [join, List.isEmpty_nil, if_pos rfl, if_neg (by simpa using front.1), clean_eq, front.2,
        whole]
      rfl
  | cons c folder =>
      have pieces : elements (c :: folder ++ slash :: name) =
          elements (c :: folder) ++ split name := by
        rw [elements, split, List.splitOn_append_cons_self, List.foldl_append]
        refine (congrArg List.reverse (foldl_push_plain plain)).trans ?_
        simp [elements, isAbsolute, split]
      rw [join, if_neg (by simp), clean_eq, pieces]
      rfl

/-- From the root, a path has a first piece that is empty. -/
theorem split_spell_root {pieces : List Text} (single : ∀ piece ∈ pieces, slash ∉ piece)
    (nonempty : pieces ≠ []) : split (spell true pieces) = [] :: pieces := by
  rw [← congrArg ([] :: ·) (split_join single nonempty)]
  exact List.splitOn_append_cons_self [] _

/-- An absolute path of elements that stand for files or folders is clean. -/
theorem clean_spell {pieces : List Text} (plain : ∀ piece ∈ pieces, Plain piece)
    (nonempty : pieces ≠ []) : clean (spell true pieces) = spell true pieces := by
  have left : elements (spell true pieces) = pieces := by
    rw [elements, split_spell_root (fun piece member => (plain piece member).single) nonempty,
      List.foldl_cons, foldl_push_plain plain, push.eq_def]
    simp
  rw [clean_eq, left]
  rfl

/-- Where no piece is empty, the path is neither empty nor starts at the root. -/
theorem split_spell_relative {pieces : List Text} (settled : ∀ piece ∈ pieces, Settled false piece)
    (nonempty : pieces ≠ []) :
    isAbsolute (spell false pieces) = false ∧ split (spell false pieces) = pieces := by
  have whole := split_join (fun piece member => (settled piece member).single) nonempty
  have front : ¬(Text.join [slash] pieces = [] ∨ isAbsolute (Text.join [slash] pieces) = true) := by
    intro front
    exact (settled [] (whole ▸ nil_mem_split front)).nonempty rfl
  rw [not_or, Bool.not_eq_true] at front
  have body : spell false pieces = Text.join [slash] pieces := by
    rw [spell, if_neg Bool.false_ne_true, if_neg (by simpa using front.1)]
  rw [body]
  exact ⟨front.2, whole⟩

end Path

/-! ## Where paths lead -/

namespace Workspace

variable {w : Workspace} {path folder : Text} {names : List Text} {loc place : Location}

/-- A step into an element that stands for a file or a folder goes there. -/
theorem step_plain {t : FileTree} {element : Text} (plain : Path.Plain element)
    (way : step t loc element = .ok place) : place = loc ++ [element] := by
  have nonempty : element.isEmpty = false := List.isEmpty_eq_false_iff.mpr plain.nonempty
  have moves : (element.isEmpty || decide (element = ("." : Text))) = false := by
    rw [nonempty, Bool.false_or, decide_eq_false_iff_not]
    exact plain.moves
  rw [step] at way
  split at way
  · cases way
  · cases way
  rw [if_neg (by simp [moves]), if_neg plain.ne_up] at way
  split at way
  · cases way
  · exact (Except.ok.inj way).symm

/-- Names that stand for themselves are all that is added on the way. -/
theorem foldlM_step_plain {t : FileTree} (plain : ∀ name ∈ names, Path.Plain name)
    (way : names.foldlM (step t) loc = .ok place) : place = loc ++ names := by
  induction names generalizing loc with
  | nil => exact (Except.ok.inj way).symm.trans (List.append_nil loc).symm
  | cons name names inductionHypothesis =>
      obtain ⟨first, others⟩ := List.forall_mem_cons.mp plain
      rw [List.foldlM_cons, bind_eq_ok_iff] at way
      obtain ⟨next, here, way⟩ := way
      rw [inductionHypothesis others way, step_plain first here, List.append_assoc]
      rfl

/-- A path leads from the current folder or, if it starts at the root, inwards from the folder that
the tree is in. -/
theorem locate_eq_ok (found : w.locate path = .ok loc) :
    (Path.isAbsolute path = false ∧ (Path.split path).foldlM (step w.tree) w.current = .ok loc) ∨
      (Path.isAbsolute path = true ∧ (Path.clean path = w.home ∧ loc = [] ∨
        ∃ rest, Path.clean path = w.home ++ Path.slash :: rest ∧
          (Path.split rest).foldlM (step w.tree) [] = .ok loc)) := by
  rw [locate] at found
  split at found
  · cases found
  split at found
  · cases found
  split at found
  · cases found
  split at found
  · rename_i rooted
    refine .inr ⟨rooted, ?_⟩
    split at found
    · rename_i home
      rw [Text.dropFront?_eq_some_iff, List.append_nil] at home
      exact .inl ⟨home, (Except.ok.inj found).symm⟩
    · rename_i rest inside
      exact .inr ⟨rest, Text.dropFront?_eq_some_iff.mp inside, found⟩
    · cases found
  · rename_i relative
    exact .inl ⟨Bool.not_eq_true _ ▸ relative, found⟩

/-- A path from the root is the path of the place that it leads to. -/
theorem pathOf_locate (plain : ∀ name ∈ names, Path.Plain name) (nonempty : names ≠ [])
    (found : w.locate (Path.spell true names) = .ok loc) :
    w.pathOf loc = Path.spell true names := by
  have rooted : Path.isAbsolute (Path.spell true names) = true := rfl
  rcases locate_eq_ok found with ⟨relative, -⟩ | ⟨-, ⟨home, rfl⟩ | ⟨rest, inside, way⟩⟩
  · rw [rooted] at relative
    cases relative
  · rw [Path.clean_spell plain nonempty] at home
    rw [pathOf, ← home]
    exact List.append_nil _
  · rw [Path.clean_spell plain nonempty] at inside
    have pieces : [] :: names = Path.split w.home ++ Path.split rest := by
      rw [← Path.split_spell_root (fun name member => (plain name member).single) nonempty, inside]
      exact List.splitOn_append_cons_self _ _
    have others : ∀ name ∈ Path.split rest, Path.Plain name := by
      cases start : Path.split w.home with
      | nil => exact absurd start (List.splitOn_ne_nil _ _)
      | cons first front =>
          rw [start, List.cons_append, List.cons_eq_cons] at pieces
          exact fun name member => plain name (pieces.2 ▸ List.mem_append_right front member)
    obtain rfl := foldlM_step_plain others way
    have inner : Path.split rest ≠ [] := List.splitOn_ne_nil _ _
    rw [List.nil_append, pathOf, if_neg (by simp [inner]), Text.join_cons inner, inside, Path.split,
      Text.join_splitOn]
    rfl

/-- A name in a folder that is not given from the root is added to wherever the folder is. -/
theorem locate_spell_relative {elements : List Text}
    (settled : ∀ e ∈ elements, Path.Settled false e) (plain : ∀ name ∈ names, Path.Plain name)
    (nonempty : names ≠ [])
    (found : w.locate (Path.spell false (elements ++ names)) = .ok loc) :
    ∃ base, elements.foldlM (step w.tree) w.current = .ok base ∧ loc = base ++ names := by
  have every := List.forall_mem_append.mpr
    ⟨settled, fun name inside => (plain name inside).relative⟩
  obtain ⟨relative, whole⟩ := Path.split_spell_relative every
    (List.append_ne_nil_of_right_ne_nil elements nonempty)
  rcases locate_eq_ok found with ⟨-, way⟩ | ⟨absolute, -⟩
  · rw [whole, List.foldlM_append, bind_eq_ok_iff] at way
    obtain ⟨base, before, after⟩ := way
    exact ⟨base, before, foldlM_step_plain plain after⟩
  · rw [relative] at absolute
    cases absolute

/-- Two names lead to different places in a folder if they differ. -/
theorem locate_join_inj {first second : Text} (plain : ∀ piece ∈ Path.split first, Path.Plain piece)
    (other : ∀ piece ∈ Path.split second, Path.Plain piece)
    (here : w.locate (Path.join folder first) = .ok loc)
    (there : w.locate (Path.join folder second) = .ok loc) : first = second := by
  rw [Path.join_eq plain] at here
  rw [Path.join_eq other] at there
  have front := Path.settled_elements folder
  have pieces (name : Text) : Path.split name ≠ [] := List.splitOn_ne_nil _ _
  refine Text.splitOn_inj.mp (?_ : Path.split first = Path.split second)
  cases rooted : Path.isAbsolute folder with
  | true =>
      -- The place has one path from the root, and that path has both names in it.
      rw [rooted] at here there front
      have single {names : List Text} (plain : ∀ name ∈ names, Path.Plain name) :
          ∀ name ∈ names, Path.slash ∉ name := fun name inside => (plain name inside).single
      have last (name : Text) : Path.elements folder ++ Path.split name ≠ [] :=
        List.append_ne_nil_of_right_ne_nil _ (pieces name)
      have plain := List.forall_mem_append.mpr ⟨front, plain⟩
      have other := List.forall_mem_append.mpr ⟨front, other⟩
      have paths := (pathOf_locate plain (last first) here).symm.trans
        (pathOf_locate other (last second) there)
      have elements := congrArg Path.split paths
      rw [Path.split_spell_root (single plain) (last first),
        Path.split_spell_root (single other) (last second)] at elements
      exact List.append_cancel_left (List.tail_eq_of_cons_eq elements)
  | false =>
      -- The folder leads to one place, from which both names go on.
      rw [rooted] at here there front
      obtain ⟨base, before, rfl⟩ := locate_spell_relative front plain (pieces first) here
      obtain ⟨same, again, places⟩ := locate_spell_relative front other (pieces second) there
      obtain rfl := Except.ok.inj (before.symm.trans again)
      exact List.append_cancel_left places

end Workspace

/-! ## Trees with more in them -/

namespace FileTree

variable {t : FileTree} {loc place : Location} {content : Content}

/-- After a file is put somewhere, it is there, and elsewhere all is as before. -/
theorem lookup_putFile {files : List (Location × Content)} :
    (putFile loc content files).lookup place =
      if place = loc then some content else files.lookup place := by
  induction files with
  | nil =>
      rw [putFile, List.lookup_cons, List.lookup_nil]
      split <;> simp_all
  | cons file files inductionHypothesis =>
      obtain ⟨here, held⟩ := file
      rw [putFile]
      split
      · rename_i same
        subst same
        simp only [List.lookup_cons]
        split <;> simp_all
      · rename_i apart
        simp only [List.lookup_cons, inductionHypothesis]
        split <;> simp_all

/-- A place is a folder exactly if no file is there and it is the root or was made. -/
theorem node?_eq_folder_iff : t.node? loc = some .folder ↔
    t.files.lookup loc = none ∧ (loc = [] ∨ loc ∈ t.folders) := by
  rw [node?]
  cases t.files.lookup loc with
  | some held => exact iff_of_false nofun nofun
  | none =>
      have inside :
          (loc.isEmpty || t.folders.contains loc) = true ↔ loc = [] ∨ loc ∈ t.folders := by
        rw [Bool.or_eq_true, List.isEmpty_iff, List.contains_iff_mem]
      dsimp only
      rw [← inside]
      split <;> simp_all

end FileTree

namespace Workspace

variable {w w' w'' : Workspace} {path : Text} {content : Content} {loc place : Location}

/-- A workspace that differs in its tree only, where every folder is one still. -/
structure Grows (w w' : Workspace) : Prop where
  home : w'.home = w.home
  current : w'.current = w.current
  folders : ∀ loc, w.tree.node? loc = some .folder → w'.tree.node? loc = some .folder

namespace Grows

/-- A workspace grows into itself. -/
theorem refl (w : Workspace) : Grows w w := ⟨rfl, rfl, fun _ => id⟩

/-- What grows twice has grown. -/
theorem trans (first : Grows w w') (second : Grows w' w'') : Grows w w'' :=
  ⟨second.home.trans first.home, second.current.trans first.current,
    fun loc held => second.folders loc (first.folders loc held)⟩

/-- A workspace grows by a folder. -/
theorem addFolder : Grows w { w with tree := w.tree.addFolder loc } where
  home := rfl
  current := rfl
  folders place held := by
    rw [FileTree.node?_eq_folder_iff] at held ⊢
    dsimp only [FileTree.addFolder]
    split
    · exact held
    · exact held.imp_right (Or.imp_right (List.mem_append_left _))

/-- A workspace grows by a file where there is no folder. -/
theorem addFile (free : w.tree.node? loc ≠ some .folder) :
    Grows w { w with tree := w.tree.addFile loc content } where
  home := rfl
  current := rfl
  folders place held := by
    have apart : place ≠ loc := fun same => free (same ▸ held)
    rw [FileTree.node?_eq_folder_iff] at held ⊢
    exact ⟨(FileTree.lookup_putFile.trans (if_neg apart)).trans held.1, held.2⟩

/-- A way leads to the same place. -/
theorem foldlM_step (grows : Grows w w') {elements : List Text}
    (way : elements.foldlM (Workspace.step w.tree) place = .ok loc) :
    elements.foldlM (Workspace.step w'.tree) place = .ok loc := by
  induction elements generalizing place with
  | nil => exact way
  | cons element elements inductionHypothesis =>
      rw [List.foldlM_cons, bind_eq_ok_iff] at way ⊢
      obtain ⟨next, here, way⟩ := way
      refine ⟨next, ?_, inductionHypothesis way⟩
      rw [Workspace.step] at here ⊢
      split at here
      · cases here
      · cases here
      · rename_i folder
        rw [grows.folders _ folder]
        exact here

/-- A path leads to the same place after the workspace has grown. -/
theorem locate (grows : Grows w w') (found : w.locate path = .ok loc) :
    w'.locate path = .ok loc := by
  rw [Workspace.locate] at found ⊢
  rw [grows.home, grows.current]
  split at found
  · cases found
  rename_i named
  split at found
  · cases found
  rename_i short
  split at found
  · cases found
  rename_i nonempty
  rw [if_neg named, if_neg short, if_neg nonempty]
  split at found
  · rename_i rooted
    rw [if_pos rooted]
    split at found
    · exact found
    · exact grows.foldlM_step found
    · cases found
  · rename_i relative
    rw [if_neg relative]
    exact grows.foldlM_step found

end Grows

/-! ## Writing files -/

/-- Making a folder lets a workspace grow, and leaves its files. -/
theorem makeFolder_grows (made : w.makeFolder path = .ok w') :
    Grows w w' ∧ w'.tree.files = w.tree.files := by
  rw [makeFolder] at made
  split at made
  · cases made
  · obtain rfl := Except.ok.inj made
    refine ⟨.addFolder, ?_⟩
    dsimp only [FileTree.addFolder]
    split <;> rfl

/-- Folders are made, and files stay as they are. -/
theorem makeFoldersWith_grows {fuel : Nat} (made : w.makeFoldersWith fuel path = .ok w') :
    Grows w w' ∧ w'.tree.files = w.tree.files := by
  induction fuel generalizing w w' path with
  | zero =>
      rw [makeFoldersWith.eq_def] at made
      split at made
      · exact Except.ok.inj made ▸ ⟨.refl w, rfl⟩
      · cases made
      · exact makeFolder_grows made
      · contradiction
  | succ fuel inductionHypothesis =>
      rw [makeFoldersWith.eq_def] at made
      split at made
      · exact Except.ok.inj made ▸ ⟨.refl w, rfl⟩
      · cases made
      · contradiction
      · rename_i same _
        obtain rfl := Nat.succ.inj same
        dsimp only at made
        split at made
        · obtain ⟨before, front, made⟩ := bind_eq_ok_iff.mp made
          obtain ⟨last, files⟩ := makeFolder_grows made
          obtain ⟨grows, kept⟩ := inductionHypothesis front
          exact ⟨grows.trans last, files.trans kept⟩
        · exact makeFolder_grows made

/-- A file that is written is put where its path leads, which is no folder. -/
theorem write_eq_ok (written : w.write path content = .ok w') : ∃ loc, w.locate path = .ok loc ∧
    w.tree.node? loc ≠ some .folder ∧ w' = { w with tree := w.tree.addFile loc content } := by
  rw [write] at written
  split at written
  · cases written
  rename_i loc found
  refine ⟨loc, found, ?_⟩
  split at written
  · cases written
  · rename_i free
    exact ⟨fun held => free held, (Except.ok.inj written).symm⟩
  · cases written
  · cases written

/-- One workspace comes from another as a file is written, with all folders on the way to it. -/
structure Stores (path : Text) (content : Content) (w w' : Workspace) : Prop where
  grows : Grows w w'
  files : ∃ loc, w'.locate path = .ok loc ∧
    w'.tree.files = FileTree.putFile loc content w.tree.files

/-- Making the folders on the way and writing a file stores it. -/
theorem stores_of_write {folder : Text} (made : w.makeFolders folder = .ok w')
    (written : w'.write path content = .ok w'') : Stores path content w w'' := by
  obtain ⟨grows, files⟩ := makeFoldersWith_grows made
  obtain ⟨loc, found, free, rfl⟩ := write_eq_ok written
  refine ⟨grows.trans (.addFile free), loc, (Grows.addFile free).locate found, ?_⟩
  rw [← files]
  rfl

/-- Files are written one after another. -/
inductive StoresAll : List (Text × Content) → Workspace → Workspace → Prop where
  | nil {w : Workspace} : StoresAll [] w w
  | cons {file : Text × Content} {files : List (Text × Content)} {w w' w'' : Workspace}
      (first : Stores file.1 file.2 w w') (rest : StoresAll files w' w'') :
      StoresAll (file :: files) w w''

namespace StoresAll

variable {files : List (Text × Content)}

/-- Storing files lets a workspace grow. -/
theorem grows (all : StoresAll files w w') : Grows w w' := by
  induction all with
  | nil => exact .refl _
  | cons first _ inductionHypothesis => exact first.grows.trans inductionHypothesis

/-- A file is still there in the end, or another one was written to its place. -/
theorem lookup (all : StoresAll files w w') (held : w.tree.files.lookup loc = some content) :
    w'.tree.files.lookup loc = some content ∨ ∃ file ∈ files, w'.locate file.1 = .ok loc ∧
      w'.tree.files.lookup loc = some file.2 := by
  induction all generalizing content with
  | nil => exact .inl held
  | cons first rest inductionHypothesis =>
      rename_i file files before after final
      obtain ⟨place, found, put⟩ := first.files
      have now : after.tree.files.lookup loc = _ := put ▸ FileTree.lookup_putFile
      have later {held : Content} (kept : after.tree.files.lookup loc = some held) :
          final.tree.files.lookup loc = some held ∨ ∃ other ∈ file :: files,
            final.locate other.1 = .ok loc ∧ final.tree.files.lookup loc = some other.2 := by
        refine (inductionHypothesis kept).imp_right ?_
        rintro ⟨other, member, led⟩
        exact ⟨other, List.mem_cons_of_mem _ member, led⟩
      split at now
      · rename_i same
        subst same
        rcases later now with kept | replaced
        · exact .inr ⟨file, List.mem_cons_self, rest.grows.locate found, kept⟩
        · exact .inr replaced
      · exact later (now.trans held)

/-- Each file is there in the end, or another one that was written to the same place. -/
theorem found (all : StoresAll files w w') {file : Text × Content} (member : file ∈ files) :
    ∃ other ∈ files, ∃ loc, w'.locate file.1 = .ok loc ∧ w'.locate other.1 = .ok loc ∧
      w'.tree.files.lookup loc = some other.2 := by
  induction all with
  | nil => cases member
  | cons first rest inductionHypothesis =>
      rcases List.mem_cons.mp member with rfl | member
      · obtain ⟨loc, found, put⟩ := first.files
        have held := put ▸ FileTree.lookup_putFile.trans (if_pos rfl)
        have found := rest.grows.locate found
        rcases rest.lookup held with kept | ⟨other, member, led, kept⟩
        · exact ⟨_, List.mem_cons_self, loc, found, found, kept⟩
        · exact ⟨other, List.mem_cons_of_mem _ member, loc, found, led, kept⟩
      · obtain ⟨other, member, led⟩ := inductionHypothesis member
        exact ⟨other, List.mem_cons_of_mem _ member, led⟩

end StoresAll

/-- A file at the end of a path is found there. -/
theorem find_file (found : w.locate path = .ok loc)
    (held : w.tree.files.lookup loc = some content) :
    w.find path = .ok (loc, .file content) := by
  have node : w.tree.node? loc = some (.file content) := by
    rw [FileTree.node?, held]
  refine bind_eq_ok_iff.mpr ⟨loc, found, ?_⟩
  rw [node]
  rfl

/-- A file at the end of a path is read. -/
theorem read_file (found : w.locate path = .ok loc)
    (held : w.tree.files.lookup loc = some content) :
    w.read path = .ok content.raw := by
  rw [read, find_file found held]

end Workspace

end JvmClass
