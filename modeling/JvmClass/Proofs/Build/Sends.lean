import JvmClass.Proofs.Build.Lays
import JvmClass.Proofs.Build.Members

/-!
# What has been written

Whether an action writes anything may depend on numbers that are only known once it runs. Here it is
told what was written if something was. Where an action is known to write, `Emit.Lays` says more.
-/

namespace JvmClass.Emit

variable {σ α β γ : Type} {p : PoolBuilder} {options : Options}

/-- Whatever the action writes from a later state of a pool, `post` is true of that in each pool
that comes out of it. -/
structure Sends (p : PoolBuilder) (options : Options) (act : Emit σ α)
    (post : PoolBuilder → α → Prop) : Prop where
  tries : Tries (.calls σ) act
  sends : ∀ {s s' : Session σ} {a : α}, p.Extends s.pool none → s.pool.Sound → s.options = options →
    Writes s act a s' → s.pool.Extends s'.pool none ∧ s'.pool.Sound ∧ s'.options = options ∧
      ∀ q, s'.pool.Becomes q → post q a

variable {post : PoolBuilder → α → Prop} {post' : PoolBuilder → β → Prop}

/-- Nothing is written by an action that refuses. -/
theorem Refuses.not_writes {s s' : Session σ} {act : Emit σ α} {a : α} (refuses : Refuses s act) :
    ¬Writes s act a s' := by
  rintro writes
  obtain ⟨name, n, s'', -, ran⟩ := refuses
  cases ran.symm.trans writes

/-- What the action writes when it can be told from there that it writes. -/
theorem Sends.of_writes {act : Emit σ α} (tries : Tries (.calls σ) act)
    (lays : ∀ s a s', s.options = options → Writes s act a s' → Lays p options act post) :
    Sends p options act post where
  tries := tries
  sends grown sound same writes := by
    rcases lays _ _ _ same writes _ grown sound same with
      refuses | ⟨a', s'', writes', grown', sound', same', holds⟩
    · exact absurd writes refuses.not_writes
    · obtain ⟨rfl, rfl⟩ := writes.unique writes'
      exact ⟨grown', sound', same', holds⟩

/-- What is laid is sent: nothing is written that the pool could refuse. -/
theorem Lays.sends {act : Emit σ α} (lays : Lays p options act post)
    (tries : Tries (.calls σ) act) :
    Sends p options act post := .of_writes tries fun _ _ _ _ _ => lays

namespace Sends

/-- Returning sends what is true of the value in every later pool. -/
theorem pure {a : α} (holds : ∀ q, p.Becomes q → post q a) :
    Sends p options (pure a : Emit σ α) post :=
  (Lays.pure holds).sends (.pure _)

/-- Nothing is written by an action that fails. -/
theorem throw (e : Error) : Sends p options (throw e : Emit σ α) post where
  tries := .throw e
  sends _ _ _ writes := nomatch writes

/-- What is true of a first result stays so while others are written. -/
theorem bind {x : Emit σ α} {f : α → Emit σ β} (first : Sends p options x post)
    (next : ∀ a, Sends p options (f a) fun q b => post q a → post' q b) :
    Sends p options (x >>= f) post' where
  tries := first.tries.bind fun a => (next a).tries
  sends grown sound same writes := by
    obtain ⟨a, s', wrote, writes⟩ := (writes_bind_iff fun a => (next a).tries).mp writes
    obtain ⟨grown', sound', same', holds⟩ := first.sends grown sound same wrote
    obtain ⟨grown'', sound'', same'', holds'⟩ :=
      (next a).sends (grown.trans grown') sound' same' writes
    exact ⟨grown'.trans grown'', sound'', same'', fun q becomes =>
      holds' q becomes (holds q (becomes.after grown''))⟩

/-- What is sent has everything that follows from it in later states of the pool. -/
theorem mono {x : Emit σ α} {weaker : PoolBuilder → α → Prop} (sends : Sends p options x post)
    (weaken : ∀ q a, p.Becomes q → post q a → weaker q a) : Sends p options x weaker where
  tries := sends.tries
  sends grown sound same writes := by
    obtain ⟨grown', sound', same', holds⟩ := sends.sends grown sound same writes
    exact ⟨grown', sound', same', fun q becomes =>
      weaken q _ (becomes.after (grown.trans grown')) (holds q becomes)⟩

/-- What comes from outside is known where anything comes after it. -/
theorem given {x : Except Error α} {f : α → Emit σ β}
    (next : ∀ a, x = .ok a → Sends p options (f a) post') :
    Sends p options (liftM x >>= f) post' := by
  cases x with
  | error e =>
      have stops : (liftM (Except.error e : Except Error α) >>= f) =
          (throwThe Error e : Emit σ β) := rfl
      exact stops ▸ throw e
  | ok a => exact next a rfl

/-- A check that passes or fails. -/
theorem guard {c : Prop} [Decidable c] {e : Error} {stops : β → Emit σ α} {rest : Emit σ α}
    (sends : ¬c → Sends p options rest post) :
    Sends p options (if c then throwThe Error e >>= stops else rest) post := by
  split
  · exact throw e
  · rename_i passes
    exact sends passes

/-- A count that is written is one that fits two bytes. -/
theorem count (n : Nat) :
    Sends p options (count n : Emit σ Bytes) fun _ text => text = u2 n ∧ n ≤ maxCount :=
  .of_writes (tries_count n) fun _ _ _ _ writes =>
    have short := (writes_count_iff.mp writes).1
    (Lays.count short).mono fun _ _ _ same => ⟨same, short⟩

/-- A part that is written behind its length is no longer than its length can say. -/
theorem sized {excess : Nat → Error} {body : Bytes} :
    Sends p options (sized excess body : Emit σ Bytes)
      fun _ text => text = u4 body.length ++ body ∧ body.length ≤ maxLength where
  tries := tries_sized excess body
  sends _ sound same writes := by
    obtain ⟨short, rfl, rfl⟩ := writes_sized_iff.mp writes
    exact ⟨.refl _, sound, same, fun _ _ => ⟨rfl, short⟩⟩

/-- Items that are written after some chunks are chunks of their own, behind those. -/
theorem eachOnto {write : γ → Emit σ Bytes} {items : List γ}
    {means : PoolBuilder → γ → Bytes → Prop}
    (sends : ∀ b ∈ items, Sends p options (write b) fun q chunk => means q b chunk)
    (done : List Bytes) :
    Sends p options (eachOnto write done items) fun q text => ∃ chunks,
      text = done.reverse.flatten ++ chunks.flatten ∧ List.Forall₂ (means q) items chunks := by
  induction items generalizing done with
  | nil => exact .pure fun _ _ => ⟨[], by simp, .nil⟩
  | cons b rest inductionHypothesis =>
      obtain ⟨here, sends⟩ := List.forall_mem_cons.mp sends
      refine here.bind fun chunk => ?_
      refine (inductionHypothesis sends (chunk :: done)).mono fun q text _
        ⟨chunks, same, others⟩ first => ?_
      exact ⟨chunk :: chunks, by simp [same], .cons first others⟩

/-- Rows with their count. -/
theorem counted {write : γ → Emit σ Bytes} {items : List γ} {means : PoolBuilder → γ → Bytes → Prop}
    (sends : ∀ b ∈ items, Sends p options (write b) fun q chunk => means q b chunk) :
    Sends p options (counted write items) fun q text => ∃ chunks,
      text = u2 items.length ++ chunks.flatten ∧ items.length ≤ maxCount ∧
        List.Forall₂ (means q) items chunks := by
  refine (count _).bind fun n => (eachOnto sends []).bind fun rows => .pure ?_
  rintro q - ⟨chunks, rfl, all⟩ ⟨rfl, short⟩
  exact ⟨chunks, rfl, short, all⟩

/-- The items of a table. -/
theorem itemsAfter {item : γ → Item σ} {cs : List γ} {means : PoolBuilder → γ → Bytes → Prop}
    (sends : ∀ b ∈ cs, Sends p options (item b).write fun q chunk => means q b chunk)
    (seen : List Text) (done : List Bytes) :
    Sends p options (itemsAfter seen done (cs.map fun b => some (item b))) fun q text => ∃ chunks,
      text = done.reverse.flatten ++ chunks.flatten ∧ List.Forall₂ (means q) cs chunks := by
  induction cs generalizing seen done with
  | nil =>
      refine ((Lays.settle fun _ _ => trivial).sends tries_settle :
        Sends p options Emit.settle fun _ _ => True).bind fun _ => ?_
      exact .pure fun _ _ _ => ⟨[], by simp, .nil⟩
  | cons b rest inductionHypothesis =>
      obtain ⟨here, sends⟩ := List.forall_mem_cons.mp sends
      refine guard fun _ => here.bind fun chunk => ?_
      refine (inductionHypothesis sends _ (chunk :: done)).mono
        fun q text _ ⟨chunks, same, others⟩ first => ?_
      exact ⟨chunk :: chunks, by simp [same], .cons first others⟩

/-- A table with a name and a length. -/
theorem table {name : Text} {excess : Nat → Error} {body : Emit σ Bytes}
    {post : PoolBuilder → Bytes → Prop} (decodes : name.Decodes)
    (sends : Sends p options body post) :
    Sends p options (do
        let name ← refText name
        let rows ← body
        return name ++ (← Emit.sized excess rows)) fun q text => ∃ (n : Nat) (bytes : Bytes),
      text = u2 n ++ u4 bytes.length ++ bytes ∧ q.Denotes n (.utf8 ⟨default, name⟩) ∧
        bytes.length ≤ maxLength ∧ post q bytes := by
  refine ((Lays.refText decodes).sends (tries_refText name)).bind fun index =>
    sends.bind fun rows => ?_
  refine sized.bind fun text => .pure ?_
  rintro q - ⟨rfl, short⟩ holds ⟨n, rfl, denotes⟩
  exact ⟨n, rows, (List.append_assoc ..).symm, denotes, short, holds⟩

/-- An attribute has a header, with the index of its name and the length of its body. -/
theorem named {name : Text} {body : Emit σ Bytes} {post : PoolBuilder → Bytes → Prop}
    (decodes : name.Decodes) (sends : Sends p options body post) :
    Sends p options (named name body) fun q text => ∃ (n : Nat) (bytes : Bytes),
      text = u2 n ++ u4 bytes.length ++ bytes ∧ q.Denotes n (.utf8 ⟨default, name⟩) ∧
        bytes.length ≤ maxLength ∧ post q bytes := by
  have settled : Sends p options (Emit.settle : Emit σ Unit) fun _ _ => True :=
    (Lays.settle fun _ _ => trivial).sends tries_settle
  refine ((Lays.refText decodes).sends (tries_refText name)).bind fun index =>
    sends.bind fun rows => ?_
  refine sized.bind fun text => settled.bind fun _ => .pure ?_
  rintro q - - ⟨rfl, short⟩ holds ⟨n, rfl, denotes⟩
  exact ⟨n, rows, (List.append_assoc ..).symm, denotes, short, holds⟩

end Sends

end JvmClass.Emit
