import JvmClass.Build.ClassDraft
import JvmClass.Proofs.Attribute.Table
import JvmClass.Proofs.Build.Walk
import JvmClass.Proofs.Build.Writing
import JvmClass.Proofs.Constant.Sharing
import JvmClass.Proofs.Text.ModifiedUtf8

/-!
# Writing against the constants of an input

Where the pool of a session starts from an input, a constant of the input is written by the
index that it has there, a text by the index of the constant that spells it, and a decoded
attribute by the bytes that it was decoded from. None of this adds to the pool.
-/

namespace JvmClass

variable {σ : Type} {i : Input} {rows : List BootstrapRow}

/-- No two text constants of a pool spell the same text. -/
def Pool.TextsDiffer (p : Pool) : Prop :=
  ∀ (m n : Int) (first second : Utf8Entry), p.entry m = .ok (.utf8 first) →
    p.entry n = .ok (.utf8 second) → first.text = second.text → m = n

/-- The text of an index, if its constant is one. -/
def Pool.text? (p : Pool) (n : Nat) : Option Text :=
  match p.entry n with
  | .ok (.utf8 e) => some e.text
  | _ => none

/-- An index spells a text where it has a constant that is one. -/
theorem Pool.text?_eq_some_iff {p : Pool} {n : Nat} {text : Text} :
    p.text? n = some text ↔ ∃ e, p.entry n = .ok (.utf8 e) ∧ e.text = text := by
  rw [Pool.text?]
  split
  · rename_i e given
    simp [given]
  · rename_i other
    simp only [reduceCtorEq, false_iff]
    rintro ⟨e, given, -⟩
    exact other e given

/-- Texts differ where those of the indices below the size of the pool do. -/
theorem Pool.textsDiffer_iff {p : Pool} :
    p.TextsDiffer ↔ ∀ m < p.size, ∀ n < p.size, p.text? m ≠ none → p.text? m = p.text? n →
      m = n := by
  constructor
  · intro differ m _ n _ spelled same
    obtain ⟨text, here⟩ := Option.ne_none_iff_exists'.mp spelled
    obtain ⟨first, given, rfl⟩ := text?_eq_some_iff.mp here
    obtain ⟨second, given', equal⟩ := text?_eq_some_iff.mp (same ▸ here)
    have indices := differ m n first second given given' equal.symm
    omega
  · intro differ m n first second given given' same
    have within {k : Int} {e : Entry} (given : p.entry k = .ok e) :
        ∃ i : Nat, k = i ∧ i < p.size := by
      rw [Pool.entry] at given
      split at given
      · cases given
      · rename_i natural
        refine ⟨k.toNat, by omega, ?_⟩
        rw [Pool.size]
        by_contra outside
        rw [Array.getElem?_eq_none (Nat.not_lt.mp outside)] at given
        cases given
    obtain ⟨m, rfl, inside⟩ := within given
    obtain ⟨n, rfl, inside'⟩ := within given'
    have here : p.text? m = some first.text := text?_eq_some_iff.mpr ⟨first, given, rfl⟩
    have there : p.text? n = some first.text := text?_eq_some_iff.mpr ⟨second, given', same.symm⟩
    rw [differ m inside n inside' (by simp [here]) (here.trans there.symm)]

instance Pool.decidableTextsDiffer (p : Pool) : Decidable p.TextsDiffer :=
  decidable_of_iff _ textsDiffer_iff.symm

/-- An input whose texts are found where they stand. -/
structure Input.Reusable (i : Input) (rows : List BootstrapRow) : Prop
    extends PoolBuilder.Sharable i rows where
  tells : i.pool.Tells i.layout
  differ : i.pool.TextsDiffer

/-- A session that builds on the constants of an input, in which nothing has failed. -/
structure Session.SharesWith (i : Input) (rows : List BootstrapRow) (s : Session σ) : Prop where
  options : s.options = i.options
  error : s.error = none
  pool : PoolBuilder.Shares i rows s.pool

/-- Nothing stands in a session that shares the pool of an input. -/
theorem Session.SharesWith.quiet {s : Session σ} (shares : s.SharesWith i rows) : s.Quiet :=
  ⟨shares.error, shares.pool.error⟩

/-- A session that shares the pool of an input shares it after it was asked for a constant. -/
theorem Session.SharesWith.asked {s : Session σ} (shares : s.SharesWith i rows) :
    Session.SharesWith i rows { s with pool := PoolBuilder.shared i rows } :=
  ⟨shares.options, shares.error, .asked⟩

/-- A text of an input is not too long to be written. -/
theorem Layout.TextAt.short {l : Layout} {n : Nat} {text : Text} (spelled : l.TextAt n text) :
    (ModifiedUtf8.encode text).length ≤ PoolBuilder.maxTextLength := by
  obtain ⟨constant, length, slice, decoded⟩ := spelled
  have bound := Cursor.u2_lt length
  obtain ⟨inside, rfl⟩ := Cursor.slice?_eq_some_iff.mp slice
  have encoded := ModifiedUtf8.length_encode_le decoded
  rw [Cursor.length_segment inside] at encoded
  rw [PoolBuilder.maxTextLength]
  omega

namespace Emit

variable {s : Session σ}

/-- A constant of the pool's own is written by its index. -/
theorem writes_ref {e : Entry} (own : s.pool.owns e.place.origin = true) :
    Writes s (ref (some e)) (u2 e.index) s :=
  .map (Writes.interning (PoolBuilder.indexOf_own own))

/-- A reference to a constant of the pool's own is its index, and asks nothing of the pool. -/
theorem writes_optionalRef {e : Entry} (own : s.pool.owns e.place.origin = true) :
    Writes s (optionalRef (some e)) (u2 e.index) s :=
  .map (Writes.interning (PoolBuilder.indexOf_own own))

/-- Constants of the input are written by their indices, one after another. -/
theorem writes_eachOnto {β : Type} {write : β → Emit σ Bytes} {bytes : β → Bytes} {bs : List β}
    (each : ∀ b ∈ bs, Writes s (write b) (bytes b) s) (done : List Bytes) :
    Writes s (eachOnto write done bs) (done.reverse.flatten ++ bs.flatMap bytes) s := by
  induction bs generalizing done with
  | nil =>
      rw [List.flatMap_nil, List.append_nil]
      exact .pure _
  | cons b rest inductionHypothesis =>
      have others := inductionHypothesis
        (fun b member => each b (List.mem_cons_of_mem _ member)) (bytes b :: done)
      rw [List.reverse_cons, List.flatten_append, List.flatten_singleton, List.append_assoc]
        at others
      exact (each b (List.mem_cons_self ..)).bind others

/-- A table of items that each write the same whatever comes before. -/
theorem writes_counted {β : Type} {write : β → Emit σ Bytes} {bytes : β → Bytes} {bs : List β}
    (short : bs.length ≤ maxCount) (each : ∀ b ∈ bs, Writes s (write b) (bytes b) s) :
    Writes s (counted write bs) (u2 bs.length ++ bs.flatMap bytes) s :=
  (Writes.count short).bind (.map (writes_eachOnto each []))

/-- A text that the input spells is written by the index of the constant that spells it. -/
theorem writes_refText (reusable : i.Reusable rows) (shares : s.SharesWith i rows)
    {name : Utf8Entry} (named : i.pool.entry name.place.index = .ok (.utf8 name)) :
    Writes s (refText name.text) (u2 name.place.index)
      { s with pool := PoolBuilder.shared i rows } := by
  have spelled := Layout.Holds.text_iff.mp (reusable.tells.entry named)
  have here : i.pool.entries.toList[name.place.index]? = some (.ok (.utf8 name)) := by
    rw [Array.getElem?_toList]
    exact Pool.entry_eq_ok_iff.mp named
  have found := PoolBuilder.findSome?_text here fun k other there same => by
    rw [Array.getElem?_toList] at there
    have equal := reusable.differ k name.place.index other name (Pool.entry_eq_ok_iff.mpr there)
      named same
    omega
  exact .map (Writes.interning
    (shares.pool.utf8 reusable.toSharable spelled.2.short found))

/-- A decoded attribute of the input is written as the bytes that it was decoded from. -/
theorem writes_copied? (shares : s.SharesWith i rows) {a : Attribute} {offset length : Nat}
    (span : a.span = some ⟨i.origin, offset, length⟩) (copies : a.body.copies i.options = true)
    (inside : offset + length ≤ i.cursor.size) :
    Writes s (copied? a) (some (i.cursor.segment offset (offset + length))) s := by
  have slice : i.slice offset length = .ok (i.cursor.segment offset (offset + length)) :=
    Layout.covered_eq_ok_iff.mpr (Cursor.slice?_eq_some_iff.mpr ⟨inside, rfl⟩)
  have took : Writes s (do return some (← liftM (i.slice offset length)) : Emit σ (Option Bytes))
      (some (i.cursor.segment offset (offset + length))) s := .map (Writes.liftM slice)
  rw [copied?]
  refine Writes.session.bind ?_
  simp only [span, shares.pool.parent, shares.options, copies, decide_true, Bool.and_self,
    ↓reduceIte]
  exact took

end Emit

/-- What decoding gives for an attribute of a class may be copied unless options forbid it. -/
theorem AttributeBody.copies_of_options {options : Options} {body : AttributeBody}
    (frameless : ∀ frames, body ≠ .stackMapTable frames) (verbatim : options.copiesVerbatim = true)
    (keeps : options.has .dropUnknownAttributes = false) : body.copies options = true := by
  cases body with
  | stackMapTable frames => exact absurd rfl (frameless frames)
  | code body => exact verbatim
  | record components => simp [AttributeBody.copies, keeps]
  | _ => rfl

namespace Emit

variable {s : Session σ} {c : ClassFile} {p n : Nat}

/-- The name, the length and the body of an attribute make up its bytes. -/
theorem writes_sized (excess : Nat → Error) {c : Cursor} {i : Nat} (index : c.u2? p = some i)
    (length : c.u4? (p + 2 : Nat) = some n) (inside : p + 6 + n ≤ c.size) :
    ∃ body, Writes s (sized excess (c.segment (p + 6) (p + 6 + n))) body s ∧
      u2 i ++ body = c.segment p (p + 6 + n) := by
  have size : (c.segment (p + 6) (p + 6 + n)).length = n := by
    rw [Cursor.length_segment inside, Nat.add_sub_cancel_left]
  have short := Cursor.u4_lt length
  refine ⟨_, Writes.sized (by rw [size, maxLength]; omega), ?_⟩
  rw [size, Cursor.u2_number index, Cursor.u4_number length,
    Cursor.segment_append (by omega) (by omega), Cursor.segment_append (by omega) (by omega)]

/-- A name, a length and a body are written as they stand. -/
theorem writes_named (reusable : c.input.Reusable rows) (shares : s.SharesWith c.input rows)
    {name : Utf8Entry} (named' : c.pool.entry name.place.index = .ok (.utf8 name))
    (index : c.input.cursor.u2? p = some name.place.index)
    (length : c.input.cursor.u4? (p + 2 : Nat) = some n) (inside : p + 6 + n ≤ c.input.cursor.size)
    {body : Emit σ Bytes} {s' : Session σ}
    (writes : Writes { s with pool := PoolBuilder.shared c.input rows } body
      (c.input.cursor.segment (p + 6) (p + 6 + n)) s') :
    Writes s (named name.text body) (c.input.cursor.segment p (p + 6 + n)) s' := by
  obtain ⟨whole, sizes, joined⟩ := writes_sized (s := s') _ index length inside
  rw [← joined]
  exact (writes_refText reusable shares named').bind
    (writes.bind (sizes.bind (Writes.settle.bind (.pure _))))

/-- The decoded attributes of a class are written as they stand. -/
theorem writes_items (reusable : c.input.Reusable rows)
    (verbatim : c.options.copiesVerbatim = true)
    (keeps : c.options.has .dropUnknownAttributes = false) {q : Nat} {envs : List Envelope}
    {as : List Attribute} (laid : c.Laid p envs (as.map some) q)
    (once : as.Pairwise fun a b => a.name = b.name → b.body.repeatable = true)
    (offsets : Option Offsets) (code : InputCode → Emit σ Bytes) (seen : List Text)
    (unseen : ∀ a ∈ as, a.name ∈ seen → a.body.repeatable = true) (done : List Bytes)
    (shares : s.SharesWith c.input rows) :
    ∃ s', Session.SharesWith c.input rows s' ∧
      Writes s (itemsAfter seen done (attributeItems offsets code (as.map some)))
        (done.reverse.flatten ++ c.input.cursor.segment p q) s' := by
  induction as generalizing p envs seen done s with
  | nil =>
      cases laid
      refine ⟨s, shares, ?_⟩
      rw [Cursor.segment_self, List.append_nil]
      exact Writes.settle.bind (.pure _)
  | cons a rest inductionHypothesis =>
      obtain ⟨first, further⟩ := List.pairwise_cons.mp once
      cases laid with
      | @kept p n q name a envs outs index named length inside plain called span frameless others =>
          obtain ⟨spanned, body⟩ := a
          have copies := AttributeBody.copies_of_options frameless verbatim keeps
          have copied : Writes { s with pool := PoolBuilder.shared c.input rows }
              (contents offsets code (.mk spanned body))
              (c.input.cursor.segment (p + 6) (p + 6 + n)) _ :=
            (writes_copied? shares.asked span copies inside).bind (.pure _)
          have item := writes_named reusable shares named index length inside copied
          have admitted : (seen.contains body.name && !body.repeatable) = false := by
            by_cases again : body.name ∈ seen
            · have may := unseen (.mk spanned body) (List.mem_cons_self ..) again
              rw [show body.repeatable = true from may, Bool.not_true, Bool.and_false]
            · simp [again]
          obtain ⟨s', shares', writes⟩ := inductionHypothesis others further (body.name :: seen)
            (fun b member again => by
              rcases List.mem_cons.mp again with same | before
              · exact first b member same.symm
              · exact unseen b (List.mem_cons_of_mem _ member) before)
            (c.input.cursor.segment p (p + 6 + n) :: done) shares.asked
          refine ⟨s', shares', ?_⟩
          have calledAs : body.name = name.text := called
          rw [List.map_cons, attributeItems, itemsAfter]
          simp only [admitted, Bool.false_eq_true, ↓reduceIte]
          rw [← calledAs] at item
          refine item.bind ?_
          rw [List.reverse_cons, List.flatten_append, List.flatten_singleton, List.append_assoc,
            Cursor.segment_append (by omega) others.forward] at writes
          exact writes

end Emit

end JvmClass
