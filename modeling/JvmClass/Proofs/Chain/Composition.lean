import JvmClass.Proofs.Chain.Delivery

/-!
# Chains of transforms

A walk through a chain calls every factory once, feeds the first stage, and ends the stages from
left to right. How a chain is put together from its stages makes no difference. Rewriters in a
chain deliver what they would deliver one after another, each over all that the one before it has
emitted, although nothing is collected in between.
-/

namespace JvmClass

variable {σ τ υ δ ε α : Type}

/-! ## Rewriters as transforms -/

section Rewriters

variable [Draft δ ε]

/-- Goes through a script: what it emits goes to an outlet, and its state is a part of what the
caller keeps. -/
def Script.run (p : Part σ τ) (o : Outlet σ δ ε) : Script τ ε → Drafting σ δ Unit
  | done => return
  | read rest => do
    let user := (← getThe (Session σ)).user
    (rest (p.get user)).run p o
  | write t rest => do
    Drafting.session (Build.onUser (modify (p.set t)))
    rest.run p o
  | emit e rest => do
    o.emit e
    rest.run p o

/-- A rewriter as a transform. -/
def Rewriter.transform {τ : Type} : Rewriter ε τ → Part σ τ → Transform σ δ ε
  | leaf accept atEnd, p =>
    .leaf (fun o e => ExceptT.lift ((accept e).run p o)) fun o => ExceptT.lift (atEnd.run p o)
  | fresh make prepare, p =>
    .fresh (fun user => (make (p.get user)).transform p)
      fun user => p.set (prepare (p.get user)) user
  | chain first second, p => .chain (first.transform p.first) (second.transform p.second)

/-- What a script emits by way of a stage that puts other elements in the place of each. -/
def Script.through (p : Part σ τ) (k : ε → StateM σ (List ε)) : Script τ ε → StateM σ (List ε)
  | done => return []
  | read rest => do
    let user ← get
    (rest (p.get user)).through p k
  | write t rest => do
    modify (p.set t)
    rest.through p k
  | emit e rest => do
    let es ← k e
    return es ++ (← rest.through p k)

/-- Running a script towards an outlet emits what the script gives by way of a stage, if the outlet
puts `k` in the place of each element. -/
theorem Script.emits_run {p : Part σ τ} {o : Outlet σ δ ε} {k : ε → StateM σ (List ε)}
    (carries : ∀ e, Emits (k e) (o.emit e)) (script : Script τ ε) :
    Emits (script.through p k) (script.run p o) := by
  induction script with
  | done => exact .nothing
  | read rest inductionHypothesis => exact .look fun u => inductionHypothesis (p.get u)
  | write t rest inductionHypothesis => exact .change _ inductionHypothesis
  | emit e rest inductionHypothesis => exact (carries e).bind inductionHypothesis

/-- Where the stage leaves the state of a script alone, all that the script emits can be collected
first. -/
theorem Script.through_eq {p : Part σ τ} {k : ε → StateM σ (List ε)}
    (spares : ∀ e, p.Spares (k e)) (script : Script τ ε) :
    script.through p k = p.act script.emitted >>= feedAll k := by
  induction script with
  | done =>
      simp only [through, emitted, p.act_pure, pure_bind]
      rfl
  | read rest inductionHypothesis =>
      simp only [through, emitted, inductionHypothesis, p.act_bind, p.act_get, bind_assoc,
        map_eq_pure_bind, pure_bind]
  | write t rest inductionHypothesis =>
      simp only [through, emitted, inductionHypothesis, p.act_bind, p.act_set, bind_assoc]
  | emit e rest inductionHypothesis =>
      simp only [through, emitted, inductionHypothesis, p.act_bind, p.act_pure, bind_assoc,
        pure_bind, feedAll]
      exact (spares e).comm _ _

/-- A stage emits what a machine gives, by way of an outlet that puts `k` in the place of each
element. -/
structure Transform.Stage.Plays (s : Stage σ δ ε) (p : Part σ τ) (m : Machine τ ε)
    (k : ε → StateM σ (List ε)) : Prop where
  accept : ∀ e, ∃ act, s.accept e = ExceptT.lift act ∧
    Emits (p.act (m.accept e) >>= feedAll k) act
  atEnd : ∃ act, s.atEnd = ExceptT.lift act ∧ Emits (p.act m.atEnd >>= feedAll k) act

/-- Elements fed one by one to a machine whose outlet leaves its state alone. -/
theorem feedAll_through {p : Part σ τ} {k : ε → StateM σ (List ε)} (spares : ∀ e, p.Spares (k e))
    (accept : ε → StateM τ (List ε)) (xs : List ε) :
    feedAll (fun e => p.act (accept e) >>= feedAll k) xs =
      p.act (feedAll accept xs) >>= feedAll k := by
  induction xs with
  | nil =>
      simp only [feedAll, p.act_pure, pure_bind]
  | cons x rest inductionHypothesis =>
      rw [feedAll, inductionHypothesis]
      simp only [feedAll, p.act_bind, p.act_pure, bind_assoc, pure_bind, feedAll_append]
      exact bind_congr fun ys => (Part.Spares.feedAll spares ys).comm _ _

/-- A stage that feeds another plays with it what the machines do together. -/
theorem Transform.Stage.Plays.andThen {earlier later : Stage σ δ ε} {p : Part σ (τ × υ)}
    {m : Machine τ ε} {n : Machine υ ε} {k : ε → StateM σ (List ε)}
    (spares : ∀ e, p.Spares (k e))
    (first : earlier.Plays p.first m fun e => p.second.act (n.accept e) >>= feedAll k)
    (second : later.Plays p.second n k) :
    Stage.Plays { accept := earlier.accept, atEnd := do earlier.atEnd; later.atEnd } p
      (m.andThen n) k := by
  have through := feedAll_through fun e => (spares e).second
  constructor
  · intro e
    obtain ⟨act, same, emits⟩ := first.accept e
    have together : p.act ((m.andThen n).accept e) >>= feedAll k =
        p.first.act (m.accept e) >>=
          feedAll fun e => p.second.act (n.accept e) >>= feedAll k := by
      simp only [Machine.andThen, p.act_bind, p.act_left, p.act_right, bind_assoc]
      exact bind_congr fun ys => (through n.accept ys).symm
    exact ⟨act, same, together ▸ emits⟩
  · obtain ⟨act, same, emits⟩ := first.atEnd
    obtain ⟨act', same', emits'⟩ := second.atEnd
    have together : p.act (m.andThen n).atEnd >>= feedAll k = (do
        let ys ← p.first.act m.atEnd >>=
          feedAll fun e => p.second.act (n.accept e) >>= feedAll k
        return ys ++ (← p.second.act n.atEnd >>= feedAll k)) := by
      simp only [Machine.andThen, Machine.rewrite, Part.act_bind, p.act_left, p.act_right,
        Part.act_pure, bind_assoc, pure_bind, feedAll_append, through]
      refine bind_congr fun ys => bind_congr fun zs => ?_
      exact ((Part.Spares.feedAll (fun e => (spares e).second) zs).comm _ _).symm
    refine ⟨act >>= fun _ => act', ?_, together ▸ emits.bind emits'⟩
    rw [same, same']
    rfl

/-- Binding a rewriter to an outlet calls its factories, and the stage plays its machine. -/
theorem Rewriter.bind_transform {τ : Type} (r : Rewriter ε τ) {p : Part σ τ} {o : Outlet σ δ ε}
    {k : ε → StateM σ (List ε)} (carries : ∀ e, Emits (k e) (o.emit e))
    (spares : ∀ e, p.Spares (k e)) (d : δ) (s : Session σ) :
    ∃ stage : Transform.Stage σ δ ε, stage.Plays p (p.act r.resolve s.user).1 k ∧
      (r.transform p).bind o d s = ((stage, d), s.withUser (p.act r.resolve s.user).2) := by
  induction r generalizing o k s with
  | leaf accept atEnd =>
      have emits (script : Script _ ε) :
          Emits (p.act script.emitted >>= feedAll k) (script.run p o) :=
        Script.through_eq spares script ▸ Script.emits_run carries script
      refine ⟨⟨fun e => ExceptT.lift ((accept e).run p o), ExceptT.lift (atEnd.run p o)⟩,
        ⟨fun e => ⟨_, rfl, ?_⟩, ⟨_, rfl, ?_⟩⟩, ?_⟩
      · rw [resolve, p.act_pure]
        exact emits (accept e)
      · rw [resolve, p.act_pure]
        exact emits atEnd
      · rw [resolve, p.act_pure]
        rfl
  | fresh make prepare inductionHypothesis =>
      have resolved : p.act (fresh make prepare).resolve s.user =
          p.act (make (p.get s.user)).resolve (p.set (prepare (p.get s.user)) s.user) := by
        simp only [Part.act, resolve, bind_apply, get_apply, modify_apply, p.get_set, p.set_set]
      rw [resolved]
      exact inductionHypothesis (p.get s.user) carries spares (s.withUser _)
  | chain first second forFirst forSecond =>
      obtain ⟨later, laterPlays, laterBound⟩ := forSecond carries (fun e => (spares e).second) s
      have carries' (e : ε) := (laterPlays.accept e).elim fun act emits => emits.2.stage emits.1
      obtain ⟨earlier, earlierPlays, earlierBound⟩ := forFirst carries'
        (fun e => .bind (.first_act p _) fun _ => .feedAll (fun e => (spares e).first) _)
        (s.withUser (p.second.act second.resolve s.user).2)
      have resolved : p.act (chain first second).resolve s.user =
          ((p.first.act first.resolve (p.second.act second.resolve s.user).2).1.andThen
            (p.second.act second.resolve s.user).1,
            (p.first.act first.resolve (p.second.act second.resolve s.user).2).2) := by
        simp only [resolve, p.act_bind, p.act_pure, p.act_left, p.act_right, bind_apply, pure_apply]
      rw [resolved]
      refine ⟨_, .andThen spares earlierPlays laterPlays, ?_⟩
      simp only [transform, Transform.bind, Bind.bind, StateT.bind, laterBound]
      rw [earlierBound]
      rfl

/-- What a rewriter emits over a walk, by way of an outlet that leaves its state alone, is what its
machine emits for each element and at the end. -/
theorem Rewriter.rewrite_through {p : Part σ τ} {k : ε → StateM σ (List ε)}
    (spares : ∀ e, p.Spares (k e)) (r : Rewriter ε τ) (xs : List ε) :
    p.act (r.rewrite xs) >>= feedAll k = (do
      let m ← p.act r.resolve
      let ys ← feedAll (fun e => p.act (m.accept e) >>= feedAll k) xs
      let zs ← p.act m.atEnd >>= feedAll k
      return ys ++ zs) := by
  rw [r.rewrite_eq, p.act_bind, bind_assoc]
  refine bind_congr fun m => ?_
  simp only [Machine.rewrite, p.act_bind, p.act_pure, bind_assoc, pure_bind, feedAll_append,
    feedAll_through spares]
  exact bind_congr fun ys => ((Part.Spares.feedAll spares ys).comm _ _).symm

/-- A walk through a rewriter hands all that it emits over the walk to its outlet, where the draft
is handed what `k` gives for each element. -/
theorem Rewriter.run_transform {d : δ} {s : Session σ} (quiet : s.Quiet) (r : Rewriter ε τ)
    {p : Part σ τ} {o : Outlet σ δ ε} {k : ε → StateM σ (List ε)}
    (carries : ∀ e, Emits (k e) (o.emit e)) (spares : ∀ e, p.Spares (k e)) (xs : List ε) :
    Draft.Delivers d s ((p.act (r.rewrite xs) >>= feedAll k) s.user).1
      ((p.act (r.rewrite xs) >>= feedAll k) s.user).2
      (Transform.run ⟨xs, none⟩ (some (r.transform p)) o) := by
  obtain ⟨stage, plays, bound⟩ := r.bind_transform carries spares d s
  rw [Rewriter.rewrite_through spares, bind_apply]
  generalize resolved : p.act r.resolve s.user = made at plays bound
  obtain ⟨m, user⟩ := made
  have opened : (Transform.run ⟨xs, none⟩ (some (r.transform p)) o).run d s =
      (do Transform.feed stage.accept xs; stage.atEnd; Transform.settle).run d (s.withUser user) :=
    Drafting.run_bind_of_ok (Drafting.run_lift bound)
  have quiet' := quiet.withUser user
  obtain ⟨act, same, emits⟩ := plays.atEnd
  have fed := Draft.Delivers.feed (d := d) plays.accept quiet' xs
  have delivered := fed.bind quiet' fun d' s' quiet' user' => by
    have settled := Draft.Delivers.settled (d := d') emits quiet'
    rwa [user', ← same] at settled
  obtain ⟨d', s', ran, ends⟩ := delivered
  exact ⟨d', s', opened.trans ran, ends.draft, ends.session, ends.user⟩

end Rewriters

/-! ## The stages of a walk -/

namespace Transform

/-- A transform of one stage. -/
structure Leaf (σ δ ε : Type) where
  accept : Outlet σ δ ε → ε → ExceptT Error (Drafting σ δ) Unit
  atEnd : Outlet σ δ ε → ExceptT Error (Drafting σ δ) Unit

/-- The leaves of a transform from left to right. Every factory on the way is called once, and what
it makes takes its place. -/
def resolve : Transform σ δ ε → StateM σ (List (Leaf σ δ ε))
  | .leaf accept atEnd => return [⟨accept, atEnd⟩]
  | .chain first second => do
    let later ← second.resolve
    return (← first.resolve) ++ later
  | .fresh make prepare => do
    let made := make (← get)
    modify prepare
    made.resolve

/-- Where a stage emits to that comes before others. -/
def outletBefore (later : List (Stage σ δ ε)) (o : Outlet σ δ ε) : Outlet σ δ ε :=
  match later with
  | [] => o
  | s :: _ => .stage s.accept

/-- Leaves bound for one walk, each to the one after it and the last to an outlet. -/
def stages : List (Leaf σ δ ε) → Outlet σ δ ε → List (Stage σ δ ε)
  | [], _ => []
  | l :: rest, o =>
    let next := outletBefore (stages rest o) o
    { accept := l.accept next, atEnd := l.atEnd next } :: stages rest o

/-- Some stages as one: an element goes to the first, and they end from left to right. -/
def row (stages : List (Stage σ δ ε)) : Stage σ δ ε where
  accept e :=
    match stages with
    | [] => return
    | s :: _ => s.accept e
  atEnd := forM stages Stage.atEnd

/-- A transform has at least one leaf. -/
theorem resolve_ne_nil (t : Transform σ δ ε) (user : σ) : (t.resolve user).1 ≠ [] := by
  induction t generalizing user with
  | leaf accept atEnd => exact List.cons_ne_nil _ _
  | chain first second forFirst forSecond =>
      exact List.append_ne_nil_of_left_ne_nil (forFirst _) _
  | fresh make prepare inductionHypothesis => exact inductionHypothesis _ _

/-- Leaves bound before others emit to the first of those, and the others to the outlet. -/
theorem stages_append (ls ls' : List (Leaf σ δ ε)) (o : Outlet σ δ ε) :
    stages (ls ++ ls') o = stages ls (outletBefore (stages ls' o) o) ++ stages ls' o := by
  induction ls with
  | nil => rfl
  | cons l rest inductionHypothesis =>
      have next : outletBefore (stages (rest ++ ls') o) o =
          outletBefore (stages rest (outletBefore (stages ls' o) o))
            (outletBefore (stages ls' o) o) := by
        rw [inductionHypothesis]
        cases stages rest (outletBefore (stages ls' o) o) <;> rfl
      rw [List.cons_append, stages, next, inductionHypothesis]
      rfl

/-- Leaves bound for a walk are at least as many stages. -/
theorem stages_ne_nil {ls : List (Leaf σ δ ε)} (some : ls ≠ []) (o : Outlet σ δ ε) :
    stages ls o ≠ [] := by
  cases ls with
  | nil => exact absurd rfl some
  | cons l rest => exact List.cons_ne_nil _ _

/-- Where there are stages, what comes before them emits to the first. -/
theorem outletBefore_of_ne_nil {ss : List (Stage σ δ ε)} (some : ss ≠ []) (o : Outlet σ δ ε) :
    outletBefore ss o = .stage (row ss).accept := by
  cases ss with
  | nil => exact absurd rfl some
  | cons s rest => rfl

/-- A row of one stage is that stage. -/
theorem row_singleton (s : Stage σ δ ε) : row [s] = s := by
  have alone : forM [s] Stage.atEnd = s.atEnd := by simp
  rw [row, alone]

/-- In a longer row the first stage still takes the elements, and those of the later row end
last. -/
theorem row_append {ss : List (Stage σ δ ε)} (some : ss ≠ []) (later : List (Stage σ δ ε)) :
    row (ss ++ later) =
      { accept := (row ss).accept, atEnd := do (row ss).atEnd; (row later).atEnd } := by
  cases ss with
  | nil => exact absurd rfl some
  | cons s rest =>
      rw [row, List.forM_append]
      rfl

/-- A transform is bound by calling its factories and putting its stages in a row. -/
theorem bind_eq (t : Transform σ δ ε) (o : Outlet σ δ ε) (d : δ) (s : Session σ) :
    t.bind o d s =
      ((row (stages (t.resolve s.user).1 o), d), s.withUser (t.resolve s.user).2) := by
  induction t generalizing o s with
  | leaf accept atEnd =>
      change _ = ((row [⟨accept o, atEnd o⟩], d), s)
      rw [row_singleton]
      rfl
  | chain first second forFirst forSecond =>
      have some := second.resolve_ne_nil s.user
      have some' := first.resolve_ne_nil (second.resolve s.user).2
      have resolved : (chain first second).resolve s.user =
          ((first.resolve (second.resolve s.user).2).1 ++ (second.resolve s.user).1,
            (first.resolve (second.resolve s.user).2).2) := rfl
      rw [resolved, stages_append, row_append (stages_ne_nil some' _),
        outletBefore_of_ne_nil (stages_ne_nil some _)]
      simp only [bind, Bind.bind, StateT.bind, forSecond o s]
      rw [forFirst]
      rfl
  | fresh make prepare inductionHypothesis =>
      exact inductionHypothesis (s.user) o (s.withUser (prepare s.user))

/-- A walk calls every factory once, feeds the first stage, and ends the stages from left to
right. -/
theorem run_eq (source : Traversal ε) (t : Transform σ δ ε) (o : Outlet σ δ ε) :
    run source (some t) o = (do
      let leaves ← ExceptT.lift (Drafting.session (Build.onUser t.resolve))
      feed (row (stages leaves o)).accept source.elements
      if let some e := source.failure then throw e
      forM (stages leaves o) Stage.atEnd
      settle) := by
  have bound : t.bind o = (do
      let leaves ← Drafting.session (Build.onUser t.resolve)
      return row (stages leaves o)) := by
    funext d s
    exact t.bind_eq o d s
  rw [run, bound]
  rfl

/-- How a chain is put together from its parts makes no difference. -/
theorem bind_chain_assoc (a b c : Transform σ δ ε) (o : Outlet σ δ ε) :
    (chain (chain a b) c).bind o = (chain a (chain b c)).bind o := by
  simp only [bind, bind_assoc, pure_bind]

end Transform

open Transform (run chain chainAll resolve stages row feed settle)

/-- Chains compose. Two rewriters in a chain deliver what the second emits over all that the first
emits, and leave their states as these two walks would. Where they feed a further stage, the draft
is handed what that makes of it. A walk through any transform calls its factories once each, feeds
its stages, and ends them once each from left to right. Chains of three that are put together in
different ways are run alike. -/
theorem chain_composes [Draft δ ε] {d : δ} {s : Session σ} (quiet : s.Quiet) (xs : List ε)
    (first : Rewriter ε τ) (second : Rewriter ε υ) (p : Part σ (τ × υ)) :
    (let collected := p.first.act (first.rewrite xs) s.user
     let rewritten := p.second.act (second.rewrite collected.1) collected.2
     Draft.Delivers d s rewritten.1 rewritten.2
      (run ⟨xs, none⟩ (chainAll [some (first.transform p.first), some (second.transform p.second)])
        .terminal)) ∧
    (∀ (consume : ε → ExceptT Error (Drafting σ δ) Unit) (k : ε → StateM σ (List ε)),
      (∀ e, p.Spares (k e)) → (∀ e, ∃ act, consume e = ExceptT.lift act ∧ Emits (k e) act) →
      let collected := p.first.act (first.rewrite xs) s.user
      let rewritten := p.second.act (second.rewrite collected.1) collected.2
      let handed := feedAll k rewritten.1 rewritten.2
      Draft.Delivers d s handed.1 handed.2
        (run ⟨xs, none⟩ (chainAll
          [some (first.transform p.first), some (second.transform p.second)])
          (.stage consume))) ∧
    (∀ (source : Traversal ε) (t : Transform σ δ ε) (o : Outlet σ δ ε),
      run source (some t) o = (do
        let leaves ← ExceptT.lift (Drafting.session (Build.onUser t.resolve))
        feed (row (stages leaves o)).accept source.elements
        if let some e := source.failure then throw e
        forM (stages leaves o) Transform.Stage.atEnd
        settle)) ∧
    ∀ (source : Traversal ε) (a b c : Transform σ δ ε) (o : Outlet σ δ ε),
      run source (some (chain (chain a b) c)) o = run source (chainAll [some a, some b, some c]) o ∧
      run source (some (chain a (chain b c))) o =
      run source (chainAll [some a, some b, some c]) o := by
  have rewritten : p.act ((first.chain second).rewrite xs) = (do
      let ys ← p.first.act (first.rewrite xs)
      p.second.act (second.rewrite ys)) := by
    simp only [Rewriter.rewrite, p.act_bind, p.act_left, p.act_right]
  refine ⟨?_, ?_, Transform.run_eq, fun source a b c o => ⟨rfl, ?_⟩⟩
  · have unchanged : feedAll (fun e => (pure [e] : StateM σ (List ε))) = pure := funext feedAll_pure
    have delivered := (first.chain second).run_transform (d := d) quiet (p := p) Emits.terminal
      (fun e => .pure [e]) xs
    rwa [rewritten, unchanged, bind_pure] at delivered
  · intro consume k spares consumes
    have carries (e : ε) : Emits (k e) ((Outlet.stage consume).emit e) := by
      obtain ⟨act, same, emits⟩ := consumes e
      exact emits.stage same
    have delivered := (first.chain second).run_transform (d := d) quiet carries spares xs
    rwa [rewritten, bind_assoc] at delivered
  · rw [run, ← Transform.bind_chain_assoc]
    rfl

/-- Emits every element twice and, at the end, how many there were. It counts anew in every walk. -/
def Rewriter.doubling : Rewriter CodeElement Nat :=
  .fresh (fun _ => .leaf
    (fun e => .emit e (.read fun n => .write (n + 1) (.emit e .done)))
    (.read fun n => .emit (.line n) .done)) fun _ => 0

/-- Emits every element and, at the end, how many there have ever been. -/
def Rewriter.counting : Rewriter CodeElement Nat :=
  .leaf (fun e => .read fun n => .write (n + 1) (.emit e .done))
    (.read fun n => .emit (.line n) .done)

/-- A walk of a chain of a rewriter that doubles, which counts anew, and one that goes on with its
count from walks before. -/
theorem chain_composes_counted :
    let s : Session (Nat × Nat) := Build.start .none .empty (7, 10)
    let d : CodeDraft := .collecting true default none none
    s.Quiet ∧ Draft.Delivers d s [.line 5, .line 5, .line 1, .line 13] (1, 13)
      (run ⟨[.line 5], none⟩ (chainAll [some (Rewriter.doubling.transform Part.whole.first),
        some (Rewriter.counting.transform Part.whole.second)]) .terminal) := by
  intro s d
  have quiet : s.Quiet := ⟨rfl, rfl⟩
  have collected : Part.whole.first.act (Rewriter.doubling.rewrite [.line 5]) s.user =
      ([.line 5, .line 5, .line 1], (1, 10)) := rfl
  have rewritten : Part.whole.second.act
      (Rewriter.counting.rewrite [.line 5, .line 5, .line 1]) ((1, 10) : Nat × Nat) =
        ([.line 5, .line 5, .line 1, .line 13], (1, 13)) := rfl
  have composed := (chain_composes (d := d) quiet [.line 5] .doubling .counting .whole).1
  simp only [collected, rewritten] at composed
  exact ⟨quiet, composed⟩

end JvmClass
