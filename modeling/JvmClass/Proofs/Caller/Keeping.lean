import JvmClass.Proofs.Caller.Handlers

/-!
# Programs keep contracts

A contract hosts programs if they may keep values, if the diary may be written, and if what a
program hands over and asks for may then be referred to. Such a contract is kept by every program
and every transform put together from programs, on all four levels.
-/

namespace JvmClass

open Caller
open PoolBuilder (Call)

variable {σ τ δ ε μ κ ρ α β : Type}

/-- The session after an event is written into the diary. -/
def Session.writing (s : Session (σ × Diary)) (event : Event) : Session (σ × Diary) :=
  s.withUser (s.user.1, s.user.2 ++ [event])

/-- The session where a caller keeps another value. -/
def Session.keeping (s : Session (σ × Diary)) (kept : σ) : Session (σ × Diary) :=
  s.withUser (kept, s.user.2)

namespace Contract

/-! ## Actions after some session -/

section Leads

variable [Draft δ ε] [Draft.Mentions δ] {c : Contract τ} {s₀ : Session τ}

/-- An action keeps the contract in all sessions after one, and has `post` of what it gives. -/
def Leads (c : Contract τ) (s₀ : Session τ) (act : Drafting τ δ α) (post : Session τ → α → Prop) :
    Prop :=
  ∀ (d : δ) (s : Session τ), c.Later s₀ s → c.Fine s → c.Keeps d s →
    c.Reaches s (act d s).1.2 (act d s).2 ∧ post (act d s).2 (act d s).1.1

/-- An action that keeps the contract leads anywhere. -/
theorem Does.leads {act : Drafting τ δ α} (does : c.Does act) :
    c.Leads s₀ act fun _ _ => True :=
  fun _ _ _ fine keeps => ⟨does _ _ fine keeps, trivial⟩

/-- One action after another leads on from where the first led. -/
theorem Leads.bind {x : Drafting τ δ α} {f : α → Drafting τ δ β} {post : Session τ → α → Prop}
    {post' : Session τ → β → Prop} (first : c.Leads s₀ x post)
    (next : ∀ a s, c.Later s₀ s → post s a → c.Leads s (f a) post') :
    c.Leads s₀ (x >>= f) post' := by
  intro d s later fine keeps
  obtain ⟨reached, holds⟩ := first d s later fine keeps
  obtain ⟨reached', holds'⟩ := next _ _ (c.trans later reached.later) holds _ _ (c.refl _)
    reached.fine reached.keeps
  exact ⟨reached.trans reached', holds'⟩

/-- Nothing needs to be known of what an action gives. -/
theorem Leads.weaken {act : Drafting τ δ α} {post : Session τ → α → Prop}
    (leads : c.Leads s₀ act post) : c.Leads s₀ act fun _ _ => True :=
  fun d s later fine keeps => ⟨(leads d s later fine keeps).1, trivial⟩

/-- Emitting an element that mentions only what may be referred to. -/
theorem KeptByOutlet.leads_emit {o : Outlet τ δ ε} (kept : c.KeptByOutlet o) {e : ε}
    (given : ∀ x ∈ Draft.Mentions.ofElement δ e, c.Given s₀ x) :
    c.Leads s₀ (o.emit e) fun _ _ => True :=
  fun _ _ later fine keeps => ⟨kept.reaches_emit? fine keeps fun _ same y mentioned =>
    c.given later (given y (Option.some.inj same ▸ mentioned)), trivial⟩

/-- Emitting an element that mentions nothing. -/
theorem KeptByOutlet.does_emit {o : Outlet τ δ ε} (kept : c.KeptByOutlet o) {e : ε}
    (silent : Draft.Mentions.ofElement δ e = []) : c.Does (o.emit e) := fun _ _ fine keeps =>
  kept.reaches_emit? fine keeps fun _ same _ mentioned => by
    obtain rfl := Option.some.inj same
    rw [silent] at mentioned
    exact absurd mentioned List.not_mem_nil

/-- A change of the draft that adds to nothing that it mentions. -/
theorem Does.modify {f : δ → δ}
    (mentions : ∀ d x, x ∈ Draft.Mentions.ofDraft (f d) → x ∈ Draft.Mentions.ofDraft d)
    (whole : ∀ d : δ, Draft.Mentions.Whole d → Draft.Mentions.Whole (f d)) :
    c.Does (modify f : Drafting τ δ PUnit) := fun d s fine keeps =>
  ⟨c.refl s, ⟨fun x member => keeps.given x (mentions d x member),
    fun alone => whole d (keeps.whole alone)⟩, fine⟩

/-- Acting only where nothing has failed. -/
theorem Does.unlessFailed {act : Drafting τ δ Unit} (does : c.Does act) :
    c.Does (do if (← Drafting.session Build.error?).isSome then return
               act) :=
  .bind .error? fun found => by
    split
    · exact .pure _
    · exact does

/-- Acting only where nothing has failed. -/
theorem Leads.unlessFailed {act : Drafting τ δ Unit} (leads : c.Leads s₀ act fun _ _ => True) :
    c.Leads s₀ (do if (← Drafting.session Build.error?).isSome then return
                   act) fun _ _ => True :=
  Leads.bind Does.error?.leads fun found s later _ => by
    split
    · exact (Does.pure _).leads
    · exact fun d s' later' => leads d s' (c.trans later later')

end Leads

/-! ## Hosts -/

section Hosts

/-- What a contract has to allow for if programs are to keep it. -/
structure Hosts (c : Contract (σ × Diary)) where
  /-- The constants that a call asks for can be made. -/
  Asked : Session (σ × Diary) → Call → Prop
  asked : ∀ {s s' q}, c.Later s s' → Asked s q → Asked s' q
  utf8 : ∀ s text, Asked s (.utf8 text)
  keep : ∀ {s} kept, c.Fine s → c.Later s (s.keeping kept) ∧ c.Fine (s.keeping kept)
  called : ∀ {s} (handed : List Entry) (asked : List Call), c.Fine s →
    let s' := s.writing (.called handed asked s.pool)
    c.Later s s' ∧ c.Fine s' ∧ (∀ x ∈ handed, c.Given s' x) ∧ ∀ q ∈ asked, Asked s' q
  met : ∀ {s}, c.Fine s →
    let s' := s.writing (.met s.error s.pool.error)
    c.Later s s' ∧ c.Fine s'
  raised : ∀ {s} e, c.Fine s →
    let s' := s.writing (.raised e s.error s.pool.error)
    c.Later s s' ∧ c.Thrown e s'
  answer : ∀ {s q}, c.Fine s → Asked s q →
    let s' := (Build.interning q.run s).2
    c.Later s s' ∧ c.Fine s' ∧ ∀ x, (q.run s.pool).1 = .entry x → c.Given s' x

variable {c : Contract (σ × Diary)} (hosts : c.Hosts) [Draft δ ε] [Draft.Mentions δ]
  {s₀ : Session (σ × Diary)}
include hosts

/-- Asking the pool for a constant. -/
theorem Hosts.leads_ask {q : Call} (asked : hosts.Asked s₀ q) :
    c.Leads s₀ (Drafting.session (Build.interning q.run) : Drafting (σ × Diary) δ _) fun s a =>
      ∀ x, a = .entry x → c.Given s x := by
  intro d s later fine keeps
  obtain ⟨later', fine', given⟩ := hosts.answer fine (hosts.asked later asked)
  exact ⟨⟨later', keeps.mono later', fine'⟩, given⟩

/-- Asking the pool for a constant of a kind. -/
theorem Hosts.leads_interning {act : Interning α} (wrap : α → Entry) (q : Call)
    (runs : ∀ p, q.run p = (.entry (wrap (act p).1), (act p).2)) (asked : hosts.Asked s₀ q) :
    c.Leads s₀ (Drafting.session (Build.interning act) : Drafting (σ × Diary) δ _) fun s a =>
      c.Given s (wrap a) := by
  intro d s later fine keeps
  obtain ⟨reached, given⟩ := hosts.leads_ask (δ := δ) asked d s later fine keeps
  have same : (Build.interning q.run s).2 = (Build.interning act s).2 := by
    change { s with pool := (q.run s.pool).2 } = { s with pool := (act s.pool).2 }
    rw [runs]
  have answer : (q.run s.pool).1 = .entry (wrap (act s.pool).1) := by rw [runs]
  exact ⟨same ▸ reached, same ▸ given _ answer⟩

/-- A call that keeps the contract with what goes into it is one that a program can make. -/
theorem Hosts.tries_observed {act : Drafting (σ × Diary) δ α} {handed : List Entry}
    {asked : List Call}
    (leads : ∀ s, (∀ x ∈ handed, c.Given s x) → (∀ q ∈ asked, hosts.Asked s q) →
      c.Leads s act fun _ _ => True) :
    c.Tries (observed handed asked act) := by
  refine .lift fun d s fine keeps => ?_
  obtain ⟨later, fine', given, made⟩ := hosts.called handed asked fine
  obtain ⟨reached, -⟩ := leads _ given made d _ (c.refl _) fine' (keeps.mono later)
  obtain ⟨later', fine''⟩ := hosts.met reached.fine
  exact ⟨c.trans later (c.trans reached.later later'), reached.keeps.mono later', fine''⟩

/-- What a site does keeps the contract. -/
structure Hosts.Kept (site : Site (σ × Diary) δ ε μ κ ρ) : Prop where
  replay : ∀ {o : Outlet (σ × Diary) δ ε}, c.KeptByOutlet o → ∀ (source : μ)
    {t : Option (Transform (σ × Diary) δ ε)}, (∀ t', t = some t' → c.KeptByTransform t') →
    c.Does (site.replay o source t)
  perform : ∀ {o : Outlet (σ × Diary) δ ε}, c.KeptByOutlet o → ∀ (k : κ) (s : Session (σ × Diary)),
    (∀ x ∈ site.handed k, c.Given s x) → (∀ q ∈ site.asked k, hosts.Asked s q) →
    c.Leads s (site.perform o k) fun _ _ => True

omit hosts in
/-- A transform that is missing keeps the contract. -/
theorem kept_absent : c.KeptByTransform (.absent : Transform (σ × Diary) δ ε) :=
  fun _ _ => ⟨fun _ => .throw _, .throw _⟩

omit hosts in
/-- A transform that there may be keeps the contract if the one that there is does. -/
theorem kept_getD {t : Option (Transform (σ × Diary) δ ε)}
    (kept : ∀ t', t = some t' → c.KeptByTransform t') : c.KeptByTransform (t.getD .absent) := by
  cases t with
  | none => exact kept_absent
  | some t => exact kept t rfl

variable {site : Site (σ × Diary) δ ε μ κ ρ}

mutual

/-- Programs keep the contract, whatever they do. -/
theorem Hosts.tries_run (sited : hosts.Kept site) : ∀ (p : Program σ δ ε μ κ ρ)
    {o : Outlet (σ × Diary) δ ε}, c.KeptByOutlet o → c.Tries (p.run site o)
  | .stop, _, _ => by
    rw [Program.run]
    exact .pure ()
  | .look next, _, kept => by
    rw [Program.run]
    refine .bind (.lift fun _ _ => .refl) fun s => .bind (.lift .look) fun d => ?_
    exact tries_run sited (next _ d) kept
  | .keep value next, _, kept => by
    rw [Program.run]
    refine .bind (.lift fun d s fine keeps => ?_) fun _ => tries_run sited next kept
    obtain ⟨later, fine'⟩ := hosts.keep value fine
    exact ⟨later, keeps.mono later, fine'⟩
  | .ask q next, _, kept => by
    rw [Program.run]
    refine .bind (hosts.tries_observed fun s _ asked => ?_) fun a => tries_run sited (next a) kept
    exact (hosts.leads_ask (asked q (List.mem_singleton_self q))).weaken
  | .count next, _, kept => by
    rw [Program.run]
    refine .bind (hosts.tries_observed fun s _ _ => Does.leads ?_) fun n =>
      tries_run sited (next n) kept
    exact .session fun s => (Build.Law.proceeding _ _).interning
      (PoolBuilder.Law.stepping _).rowCount s
  | .raise e, _, _ => by
    rw [Program.run]
    intro d s fine keeps
    obtain ⟨later, thrown⟩ := hosts.raised e fine
    exact ⟨later, keeps.mono later, thrown⟩
  | .emit e next, _, kept => by
    rw [Program.run]
    refine .bind (hosts.tries_observed fun s given _ d s' later fine keeps => ⟨?_, trivial⟩)
      fun _ => tries_run sited next kept
    refine kept.reaches_emit? fine keeps fun x same y mentioned => c.given later (given y ?_)
    exact List.mem_flatMap.mpr ⟨x, Option.mem_toList.mpr same, mentioned⟩
  | .replay source t next, _, kept => by
    rw [Program.run]
    refine .bind (hosts.tries_observed fun s _ _ => ?_) fun _ => tries_run sited next kept
    exact (sited.replay kept source (kept_transform? sited t)).leads
  | .perform k next, _, kept => by
    rw [Program.run]
    exact .bind (hosts.tries_observed (sited.perform kept k)) fun r => tries_run sited (next r) kept

/-- Transforms that are put together from programs keep the contract. -/
theorem Hosts.kept_transform? (sited : hosts.Kept site) : ∀ (t : Recipe σ δ ε μ κ ρ)
    (t' : Transform (σ × Diary) δ ε), t.transform? site = some t' → c.KeptByTransform t'
  | .missing, _, made => by
    rw [Recipe.transform?] at made
    cases made
  | .leaf accept atEnd, _, made => by
    rw [Recipe.transform?] at made
    obtain rfl := Option.some.inj made
    exact fun o kept => ⟨fun e => tries_run sited (accept e) kept, tries_run sited atEnd kept⟩
  | .chain first second, _, made => by
    rw [Recipe.transform?] at made
    obtain rfl := Option.some.inj made
    exact ⟨kept_getD (kept_transform? sited first), kept_getD (kept_transform? sited second)⟩
  | .fresh make prepare, _, made => by
    rw [Recipe.transform?] at made
    obtain rfl := Option.some.inj made
    refine ⟨fun user => kept_getD (kept_transform? sited (make user.1)), fun d s fine keeps => ?_⟩
    obtain ⟨later, fine'⟩ := hosts.keep (prepare s.user.1) fine
    exact ⟨later, keeps.mono later, fine'⟩

end

end Hosts

end Contract

end JvmClass
