import JvmClass.Proofs.Build.Envelopes
import JvmClass.Proofs.Build.Reading
import JvmClass.Proofs.Build.Rebuild
import JvmClass.Proofs.Constant.Blame

/-!
# Attribute tables inside each other

The components of a record have attribute tables of their own, inside of the body of the record, and
these may hold records again. Written anew or copied from an input, every one of these tables can be
skipped and listed where it stands, as the table around it can.
-/

namespace JvmClass

open Attribute (ReadRow componentContext decode decode_eq reader? decodedFrom_of_decode)
open Emit (Written maxCount maxLength)
open Layout (Rows Row)

/-! ## What is in a table -/

mutual

/-- The attributes in the components of a record, and those in them. -/
def AttributeBody.within : AttributeBody → List Attribute
  | .record components => RecordComponent.withinAll components
  | _ => []

/-- The attributes of components, and those in them. -/
def RecordComponent.withinAll : List RecordComponent → List Attribute
  | [] => []
  | .mk _ _ as :: rest => Attribute.withinAll as ++ RecordComponent.withinAll rest

/-- Attributes and those in them. -/
def Attribute.withinAll : List (Option Attribute) → List Attribute
  | [] => []
  | none :: rest => Attribute.withinAll rest
  | some (.mk span body) :: rest => .mk span body :: (body.within ++ Attribute.withinAll rest)

end

namespace Emit

variable {σ : Type}

/-- A row has the body that an attribute was decoded from. -/
inductive CopiedRow (i : Input) : Option Attribute → Written → Prop
  | intro {a : Attribute} {w : Written} {span : Span} (name : w.name = a.name)
      (place : a.span = some span) (origin : span.origin = i.origin)
      (body : i.slice span.offset span.length = .ok w.body) : CopiedRow i (some a) w

/-- The rows of a table were written one after another, or each has the body that its attribute was
decoded from in the input that the pool started from. -/
inductive Sourced (parent? : Option Input) (offsets : Option Offsets)
    (code : InputCode → Emit σ Bytes) (as : List (Option Attribute)) (ws : List Written) : Prop
  | written {s s' : Session σ} (rows : WritesRows offsets code s as ws s')
  | copied {i : Input} (known : parent? = some i) (rows : List.Forall₂ (CopiedRow i) as ws)

section Within

variable (l : Layout) (origin : Origin) (parent? : Option Input) (offsets : Option Offsets)
  (code : InputCode → Emit σ Bytes)

mutual

/-- The tables of all record components in the attributes of a table are consistent, and those in
their attributes. -/
inductive Tabled : List (Option Attribute) → List Written → Prop
  | nil : Tabled [] []
  | cons {a : Attribute} {as : List (Option Attribute)} {w : Written} {ws : List Written}
      (within : Bodied a.body w.body) (others : Tabled as ws) : Tabled (some a :: as) (w :: ws)

/-- The body of a record is a count and its components; no other body has components. -/
inductive Bodied : AttributeBody → Bytes → Prop
  | record {cs : List RecordComponent} {bytes : Bytes} (components : Composed cs bytes) :
      Bodied (.record cs) (u2 cs.length ++ bytes)
  | plain {body : AttributeBody} {bytes : Bytes} (other : ∀ cs, body ≠ .record cs) :
      Bodied body bytes

/-- A component is the indices of its name and its descriptor and a table, which is consistent. -/
inductive Composed : List RecordComponent → Bytes → Prop
  | nil : Composed [] []
  | cons {name descriptor : Option Utf8Entry} {as : List (Option Attribute)} {ws : List Written}
      {cs : List RecordComponent} {front back : Bytes} (length : front.length = 4)
      (sourced : Sourced parent? offsets code as ws) (consistent : Written.Consistent l origin ws)
      (within : Tabled as ws) (others : Composed cs back) :
      Composed (.mk name descriptor as :: cs) (front ++ (Written.table ws ++ back))

end

end Within

/-! ## Tables that were copied -/

/-- Where a class file ends that was put together from an input, if it was from one. -/
structure Finished (q : PoolBuilder) (l : Layout) (parent? : Option Input) : Prop where
  scanned : l.Scanned
  fine : q.error = none
  stores : q.Stores l
  inherits : ∀ i, parent? = some i → i.Exact ∧ l.Inherits i.layout

/-- Records are attributes of classes alone, under their own name. -/
theorem of_decode_record {ctx : Attribute.Context} {room : Nat} {env : Envelope} {a : Attribute}
    {cs : List RecordComponent} (decoded : decode ctx room env = .ok a)
    (same : a.body = .record cs) : env.name.text = "Record" ∧ ctx.holder = .class := by
  have named : env.name.text = "Record" := by
    rw [← (decodedFrom_of_decode decoded).name, Attribute.name, same, AttributeBody.name]
  refine ⟨named, by_contra fun held => ?_⟩
  rw [decode_eq, reader?, if_pos named, if_neg held] at decoded
  have kept := (@Attribute.of_decodeWith _ _ _ _ (fun body => body.isUnknown = true)
    (fun _ given => by cases given) (fun _ => rfl) decoded).2
  rw [same] at kept
  cases kept

section Copied

variable {i : Input} {l : Layout} {origin : Origin} {offsets : Option Offsets}
  {code : InputCode → Emit σ Bytes} {p q stop room : Nat} (exact : i.Exact)
  (inherits : l.Inherits i.layout) (scanned : l.Scanned)
  (whole : i.options.has .dropUnknownAttributes = false)
include exact inherits whole

/-- A row that was read is one that was written, with the bytes it was read from. -/
theorem copiedRow_of_reads {row : Row} {out : Option Attribute}
    (name : i.cursor.u2? p = some row.name) (length : i.cursor.u4? (p + 2 : Nat) = some row.length)
    (offset : row.offset = p + 6) (inside : row.offset + row.length ≤ i.cursor.size)
    (read : ReadRow (componentContext i) (decode (componentContext i) room) row out) :
    ∃ a w, out = some a ∧ CopiedRow i (some a) w ∧ w.Stands l ∧ (∀ cs, a.body ≠ .record cs) ∧
      w.bytes = i.cursor.segment p (row.offset + row.length) := by
  cases read with
  | bootstrap _ table => cases table
  | dropped _ _ _ _ drops => exact absurd (drops.symm.trans whole) (by decide)
  | @kept _ name a named _ decoded _ =>
      obtain ⟨place, spelled, -⟩ := exact.tells.text named
      have «from» := decodedFrom_of_decode decoded
      have size : (i.cursor.segment row.offset (row.offset + row.length)).length = row.length := by
        rw [Cursor.length_segment inside, Nat.add_sub_cancel_left]
      have short := Cursor.u4_lt length
      have slice : i.slice row.offset row.length =
          .ok (i.cursor.segment row.offset (row.offset + row.length)) :=
        Layout.covered_eq_ok_iff.mpr (Cursor.slice?_eq_some_iff.mpr ⟨inside, rfl⟩)
      obtain ⟨body, same⟩ : ∃ b, i.cursor.segment row.offset (row.offset + row.length) = b :=
        ⟨_, rfl⟩
      rw [same] at size slice
      refine ⟨a, ⟨a.name, ⟨i.origin, row.name⟩, body⟩, rfl, .intro rfl «from».span rfl slice,
        ⟨?_, ?_⟩, fun cs record => (nomatch (of_decode_record decoded record).2), ?_⟩
      · rw [size, maxLength]
        omega
      · rw [«from».name]
        exact ⟨_, inherits.textAt exact.scanned spelled, spelled.storable.decodes⟩
      · rw [Written.bytes, size, ← same, offset, Cursor.u2_number ‹_›, Cursor.u4_number length,
          Cursor.segment_append (by omega) (by omega), Cursor.segment_append (by omega) (by omega)]

/-- Rows that were read are rows that were written. -/
theorem copiedRows_of_reads {rows : List Row} {outs : List (Option Attribute)}
    (held : Rows i.cursor p rows q)
    (reads : List.Forall₂ (ReadRow (componentContext i) (decode (componentContext i) room)) rows
      outs) : (outs.filterMap id).map some = outs ∧ ∃ ws, List.Forall₂ (CopiedRow i) outs ws ∧
      (∀ w ∈ ws, w.Stands l) ∧ Tabled l origin (some i) offsets code outs ws ∧
      ws.flatMap Written.bytes = i.cursor.segment p q := by
  induction held generalizing outs with
  | done p =>
      cases reads
      exact ⟨rfl, [], .nil, nofun, .nil, (Cursor.segment_self _ _).symm⟩
  | @next p q row rest name length offset inside others inductionHypothesis =>
      cases reads with
      | cons read reads =>
          obtain ⟨a, w, rfl, copied, stands, plain, bytes⟩ :=
            copiedRow_of_reads exact inherits whole name length offset inside read
          obtain ⟨same, ws, rows, there, tabled, rest⟩ := inductionHypothesis reads
          refine ⟨congrArg (some a :: ·) same, w :: ws, .cons copied rows,
            List.forall_mem_cons.mpr ⟨stands, there⟩, .cons (.plain plain) tabled, ?_⟩
          rw [List.flatMap_cons, bytes, rest, Cursor.segment_append (by omega) others.forward]

include scanned

/-- A component that was read is a component with a table that was copied. -/
theorem component_of_reads {name descriptor : Option Utf8Entry} {as : List (Option Attribute)}
    {d : Decoder} (window : Window i.cursor stop) (before : p ≤ stop)
    (read : Attribute.readComponent i room (.on i.cursor stop p) =
      .ok (.mk name descriptor as, d)) :
    ∃ q, p ≤ q ∧ q ≤ stop ∧ d = .on i.cursor stop q ∧
      ∀ {cs back}, Composed l origin (some i) offsets code cs back →
        Composed l origin (some i) offsets code (.mk name descriptor as :: cs)
          (i.cursor.segment p q ++ back) := by
  cases room with
  | zero =>
      simp only [Attribute.readComponent, Attribute.tooDeep, Scan.bind_eq_ok_iff] at read
      obtain ⟨_, _, -, _, _, -, _, _, -, failed⟩ := read
      cases failed
  | succ room =>
      simp only [Attribute.readComponent_succ, Attribute.readRef, Attribute.readTable,
        Scan.bind_eq_ok_iff, Scan.pure_eq_ok_iff, Scan.pos_eq_ok_iff, Scan.ofExcept_eq_ok_iff]
        at read
      obtain ⟨_, _, ⟨_, _, ⟨rfl, rfl⟩, _, _, named, -, rfl⟩,
        _, _, ⟨_, _, ⟨rfl, rfl⟩, _, _, described, -, rfl⟩,
        _, _, ⟨outs, _, counted, rfl, rfl⟩, same, rfl⟩ := read
      obtain ⟨nameAt, inside, rfl⟩ := (Scan.u2_eq_ok_iff window before).mp named
      obtain ⟨descriptorAt, inside, rfl⟩ := (Scan.u2_eq_ok_iff window inside).mp described
      obtain ⟨count, inside, reads⟩ := (Layout.counted_eq_ok_iff window inside).mp counted
      obtain ⟨rows, q, held, inside', rfl, all⟩ := Attribute.rows_of_reads window inside reads
      obtain ⟨kept, ws, copied, there, tabled, bytes⟩ :=
        copiedRows_of_reads exact inherits whole held all
      have forward := held.forward
      have few : ws.length ≤ maxCount := by
        have small := Cursor.u2_lt count
        rw [← copied.length_eq, maxCount]
        omega
      obtain ⟨rfl, rfl, rfl⟩ := RecordComponent.mk.inj same
      refine ⟨q, by omega, inside', rfl, fun composed => ?_⟩
      have table : i.cursor.segment (p + 2 + 2) q = Written.table ws := by
        rw [Written.table, bytes, ← copied.length_eq, Cursor.u2_number count,
          Cursor.segment_append (by omega) forward]
      have front : (i.cursor.segment p (p + 2 + 2)).length = 4 := by
        have whole := window.inside
        rw [Cursor.length_segment (by omega)]
        omega
      rw [kept, ← Cursor.segment_append (q := p + 2 + 2) (by omega) (by omega), table,
        List.append_assoc]
      exact .cons front (.copied rfl copied) (Written.consistent scanned origin few there) tabled
        composed

/-- Components that were read are components with tables that were copied. -/
theorem composed_of_reads {cs : List RecordComponent} {d : Decoder}
    (window : Window i.cursor stop) (before : p ≤ stop)
    (reads : Scan.Reads (Attribute.readComponent i room) (.on i.cursor stop p) cs d) :
    ∃ q, p ≤ q ∧ q ≤ stop ∧ d = .on i.cursor stop q ∧
      Composed l origin (some i) offsets code cs (i.cursor.segment p q) := by
  induction cs generalizing p with
  | nil =>
      cases reads
      refine ⟨p, Nat.le_refl _, before, rfl, ?_⟩
      rw [Cursor.segment_self]
      exact .nil
  | cons c rest inductionHypothesis =>
      cases reads with
      | next first others =>
          obtain ⟨name, descriptor, as⟩ := c
          obtain ⟨q, at_, inside, rfl, bytes⟩ : ∃ q, p ≤ q ∧ q ≤ stop ∧
              _ = Decoder.on i.cursor stop q ∧
                ∀ {cs back}, Composed l origin (some i) offsets code cs back →
                Composed l origin (some i) offsets code (.mk name descriptor as :: cs)
                  (i.cursor.segment p q ++ back) :=
            component_of_reads exact inherits scanned whole window before first
          obtain ⟨r, forward, inside', rfl, composed⟩ := inductionHypothesis inside others
          refine ⟨r, Nat.le_trans at_ forward, inside', rfl, ?_⟩
          rw [← Cursor.segment_append at_ forward]
          exact bytes composed

/-- The body that an attribute was decoded from is one that was written. -/
theorem bodied_of_authentic {a : Attribute} {span : Span} {bytes : Bytes}
    (addressable : i.cursor.Addressable) (authentic : a.Authentic i) (place : a.span = some span)
    (same : span.origin = i.origin) (slice : i.slice span.offset span.length = .ok bytes) :
    Bodied l origin (some i) offsets code a.body bytes := by
  by_cases record : ∃ cs, a.body = .record cs
  case neg => exact .plain (not_exists.mp record)
  obtain ⟨cs, record⟩ := record
  obtain ⟨ctx, room, env, rfl, offset, length, inside, decoded⟩ := authentic span place same
  rw [← offset, ← length] at slice
  obtain ⟨-, rfl⟩ := Cursor.slice?_eq_some_iff.mp (Layout.covered_eq_ok_iff.mp slice)
  have window : Window ctx.input.cursor (env.offset + env.length) := ⟨inside, addressable⟩
  obtain ⟨named, held⟩ := of_decode_record decoded record
  rw [decode_eq, reader?, if_pos named, if_pos held] at decoded
  obtain ⟨d, given, done⟩ := Attribute.of_decodeWith_some window decoded
  simp only [Scan.bind_eq_ok_iff, Scan.pure_eq_ok_iff] at given
  obtain ⟨components, _, counted, same, rfl⟩ := given
  obtain ⟨count, within, reads⟩ :=
    (Layout.counted_eq_ok_iff window (Nat.le_add_right _ _)).mp counted
  obtain ⟨q, forward, before, rfl, composed⟩ :=
    composed_of_reads exact inherits scanned whole window within reads
  rw [Scan.remaining_on window before] at done
  obtain rfl : q = env.offset + env.length := by omega
  rw [same, ← Cursor.segment_append (Nat.le_add_right env.offset 2) forward,
    ← Cursor.u2_number count]
  exact .record composed

end Copied

/-! ## Tables that were written -/

/-- The input that a pool under construction starts from, if there is one, with what has been taken
from it. -/
inductive Rooted (p : PoolBuilder) : Option Input → Prop
  | shared {i : Input} (keeps : PoolBuilder.Keeps i p) : Rooted p (some i)
  | own (orphan : p.parent = none) (blameless : p.Blameless) : Rooted p none

variable {s s' : Session σ} {q : PoolBuilder} {l : Layout} {parent? : Option Input}

/-- A rooted pool has the parent that it starts from. -/
theorem Rooted.parent {p : PoolBuilder} (rooted : Rooted p parent?) : p.parent = parent? := by
  cases rooted with
  | shared keeps => exact keeps.parent
  | own orphan _ => exact orphan

/-- A session that goes on with the options and the parent it started with. -/
structure Continues (parent? : Option Input) (options : Options) (s : Session σ) : Prop where
  rooted : Rooted s.pool parent?
  same : s.options = options

/-- A session goes on with what it started with while calls are made, if none fails. -/
theorem Writes.continues {α : Type} {act : Emit σ α} {a : α} {options : Options}
    (writes : Writes s act a s') (tries : Tries (.calls σ) act) (fine : s'.pool.error = none)
    (continues : Continues parent? options s) : Continues parent? options s' := by
  have calls : Build.Calls (act.run none) := tries.does none
  have ran : (act.run none s).2 = s' := congrArg Prod.snd writes
  refine ⟨?_, (ran ▸ calls.options_eq s).trans continues.same⟩
  cases continues.rooted with
  | shared keeps => exact .shared ((writes.grows tries).keeps _ fine keeps)
  | own orphan blameless =>
      have ⟨after, same⟩ := calls.spares s blameless
      rw [ran] at after same
      exact .own (same.trans orphan) after

section Codes

variable {offsets : Option Offsets} {code : InputCode → Emit σ Bytes}
  (codes : ∀ c, Tries (.calls σ) (code c))
include codes

section Finished

variable {p : PoolBuilder} {options : Options} {origin : Origin}
  (finished : Finished q l p.parent)
include finished

omit codes in
/-- What is written of an attribute that is copied is a body that was written. -/
theorem bodied_of_copied {a : Attribute} {bytes : Bytes} (continues : Continues p.parent options s)
    (trusts : Trusts p options a) (writes : Writes s (copied? a) (some bytes) s') :
    Bodied l origin p.parent offsets code a.body bytes := by
  obtain ⟨-, copied⟩ := of_writes_copied writes
  obtain ⟨span, i, place, known, owned, copies, slice⟩ := copied bytes rfl
  have parent : p.parent = some i := continues.rooted.parent.symm.trans known
  obtain ⟨exact, inherits⟩ := finished.inherits i parent
  by_cases record : ∃ cs, a.body = .record cs
  case neg => exact .plain (not_exists.mp record)
  obtain ⟨cs, record⟩ := record
  have whole : i.options.has .dropUnknownAttributes = false := by
    rw [trusts.options i parent]
    simpa [record, AttributeBody.copies, continues.same] using copies
  rw [parent]
  exact bodied_of_authentic exact inherits finished.scanned whole (trusts.addressable i parent)
    (trusts.authentic i parent) place owned slice

/-- The names of rows that were written stand in the class file. -/
theorem WritesRows.consistent {as : List (Option Attribute)} {ws : List Written}
    (rows : WritesRows offsets code s as ws s') (few : ws.length ≤ maxCount)
    (grows : s'.pool.Grows q) : Written.Consistent l origin ws :=
  Written.consistent finished.scanned origin few fun w member =>
    have here := (rows.there codes w member).mono grows
    ⟨here.fits, finished.stores _ _ (here.known finished.fine)⟩

-- The induction is on the attributes as a tree. What carries it is that the session goes on with
-- its parent and its options, that the pool at the end has grown from it, and that the attributes
-- still to come can be trusted.
mutual

/-- Components that are written have tables that are consistent. -/
theorem composed_of_writes : ∀ (cs : List RecordComponent) {s s' : Session σ} {bytes : Bytes},
    Continues p.parent options s → s'.pool.Grows q →
    (∀ a ∈ RecordComponent.withinAll cs, Trusts p options a) →
    Writes s (recordComponents offsets code cs) bytes s' →
    Composed l origin p.parent offsets code cs bytes
  | [], s, s', bytes, continues, grows, trusts, writes => by
    rw [recordComponents] at writes
    obtain ⟨rfl, -⟩ := writes_pure_iff.mp writes
    exact .nil
  | .mk name descriptor as :: rest, s, s', bytes, continues, grows, trusts, writes => by
    rw [RecordComponent.withinAll, List.forall_mem_append] at trusts
    rw [recordComponents] at writes
    have gives (es : List Entry) := Build.Law.gives_calls (σ := σ) es
    have others : Tries (.calls σ) (recordComponents offsets code rest) :=
      tries_recordComponents (fun c _ => codes c) offsets rest
        (gives (RecordComponent.mentionsWith (fun _ => []) rest))
    have table : Tries (.calls σ) (itemTable (attributeItems offsets code as)) :=
      tries_itemTable (named_items codes as)
    obtain ⟨first, s₁, named, writes⟩ := (writes_bind_iff fun _ =>
      .bind (tries_refUtf8 (gives _)) fun _ => .bind table fun _ => .bind others fun _ =>
        .pure _).mp writes
    obtain ⟨second, s₂, described, writes⟩ := (writes_bind_iff fun _ =>
      .bind table fun _ => .bind others fun _ => .pure _).mp writes
    obtain ⟨text, s₃, wrote, writes⟩ :=
      (writes_bind_iff fun _ => .bind others fun _ => .pure _).mp writes
    obtain ⟨back, s₄, wrote', given⟩ := (writes_bind_iff fun _ => .pure _).mp writes
    obtain ⟨rfl, rfl⟩ := writes_pure_iff.mp given
    have behind := (wrote'.grows others).trans grows
    have before := (wrote.grows table).trans behind
    have early := (described.grows (tries_refUtf8 (gives _))).trans before
    have start := named.continues (tries_refUtf8 (gives _)) (early.error finished.fine) continues
    have middle := described.continues (tries_refUtf8 (gives _)) (before.error finished.fine) start
    have «end» := wrote.continues table (behind.error finished.fine) middle
    obtain ⟨ws, few, rfl, rows⟩ := rows_of_writes codes wrote
    have length : (first ++ second).length = 4 := by
      rw [List.length_append, length_of_writes_ref named, length_of_writes_ref described]
    rw [List.append_assoc (first ++ second)]
    exact .cons length (.written rows) (rows.consistent codes finished few behind)
      (tabled_of_rows as middle behind trusts.1 rows)
      (composed_of_writes rest «end» grows trusts.2 wrote')

/-- The tables of the components in attributes that are written are consistent. -/
theorem tabled_of_rows : ∀ (as : List (Option Attribute)) {s s' : Session σ} {ws : List Written},
    Continues p.parent options s → s'.pool.Grows q →
    (∀ a ∈ Attribute.withinAll as, Trusts p options a) → WritesRows offsets code s as ws s' →
    Tabled l origin p.parent offsets code as ws
  | [], s, s', ws, continues, grows, trusts, rows => by
    cases rows
    exact .nil
  | none :: rest, s, s', ws, continues, grows, trusts, rows => nomatch rows
  | some (.mk span body) :: rest, s, s', ws, continues, grows, trusts, rows => by
    rw [Attribute.withinAll, List.forall_mem_cons, List.forall_mem_append] at trusts
    obtain ⟨trust, inside, trusts⟩ := trusts
    cases rows with
    | next name referred place filled fits others =>
      have behind := (others.grows codes).trans grows
      have contained : Tries (.calls σ) (contents offsets code (.mk span body)) :=
        tries_content codes _
      have before := (filled.grows contained).trans behind
      have start := referred.continues (.interning (.utf8 _)) (before.error finished.fine) continues
      have next := filled.continues contained (behind.error finished.fine) start
      refine .cons ?_ (tabled_of_rows rest next grows trusts others)
      cases body with
      | record cs =>
        rcases of_writes_contents codes filled with copied | writes
        · exact bodied_of_copied finished start trust copied
        rw [AttributeBody.within] at inside
        rw [Attribute.body, attributeBody] at writes
        have components : Tries (.calls σ) (recordComponents offsets code cs) :=
          tries_recordComponents (fun c _ => codes c) offsets cs
            (Build.Law.gives_calls (RecordComponent.mentionsWith (fun _ => []) cs))
        obtain ⟨n, s₁, counted, writes⟩ :=
          (writes_bind_iff fun _ => .bind components fun _ => .pure _).mp writes
        obtain ⟨-, rfl, rfl⟩ := writes_count_iff.mp counted
        obtain ⟨text, s₁, wrote, given⟩ := (writes_bind_iff fun _ => .pure _).mp writes
        obtain ⟨same, rfl⟩ := writes_pure_iff.mp given
        rw [← same]
        exact .record (composed_of_writes cs start behind inside wrote)
      | _ => exact .plain nofun

end

end Finished

end Codes

/-! ## Class files -/

/-- A pool in order from one state to a later one: it keeps what it takes from an input, or it
starts from none and each constant of it stands once. -/
inductive Ordered (p q : PoolBuilder) : Prop
  | shared {i : Input} (exact : i.Exact) (keeps : PoolBuilder.Keeps i p) : Ordered p q
  | own (orphan : p.parent = none) (consed : q.Consed) : Ordered p q

/-- A pool in order is rooted in its parent. -/
theorem Ordered.rooted {p q : PoolBuilder} (ordered : Ordered p q) (fine : p.error = none) :
    Rooted p p.parent := by
  cases ordered with
  | shared exact keeps =>
      rw [keeps.parent]
      exact .shared keeps
  | own orphan consed =>
      rw [orphan]
      exact .own orphan ⟨fun e known => (nomatch fine.symm.trans known),
        fun i known => (nomatch orphan.symm.trans known)⟩

/-- The pool of a class that was put together stands in the file. -/
theorem Ordered.finished {p q r : PoolBuilder} {d : ClassDraft} {bytes : Bytes}
    (ordered : Ordered p q) (grows : p.Grows q) (assembled : d.Assembled r q bytes)
    (scanned : l.Scanned) (cursor : l.cursor = ⟨bytes.toArray⟩) : Finished q l p.parent := by
  have spells := assembled.spells cursor
  obtain ⟨-, -, fine, -⟩ := assembled
  cases ordered with
  | @shared i exact keeps =>
      have keeps' := grows.keeps i fine keeps
      have lies := PoolBuilder.liesIn_of_spells exact keeps' scanned spells
      refine ⟨scanned, fine, lies.stores exact keeps', fun j known => ?_⟩
      obtain rfl := Option.some.inj (keeps.parent.symm.trans known)
      exact ⟨exact, lies.inherits⟩
  | own orphan consed =>
      exact ⟨scanned, fine, consed.stores fine (consed.laid fine scanned spells),
        fun i known => (nomatch orphan.symm.trans known)⟩

/-- A table that is written without an error has a row for each attribute, with the index of its
name, the length of what is written of it and just that, and it is skipped wherever it stands. In a
class file that is finished later, it is consistent, and so are the tables of the record components
in it. -/
theorem tables_consistent {s s' : Session σ} {offsets : Option Offsets}
    {code : InputCode → Emit σ Bytes} {as : List (Option Attribute)} {text : Bytes}
    (codes : ∀ c, Tries (.calls σ) (code c))
    (writes : Writes s (itemTable (attributeItems offsets code as)) text s') :
    ∃ ws, text = Written.table ws ∧ WritesRows offsets code s as ws s' ∧
      (∀ {c : Cursor} {stop p : Nat}, Window c stop → c.Spells p text → p + text.length ≤ stop →
        Layout.skipAttributes (.on c stop p) = .ok ((), .on c stop (p + text.length))) ∧
      ∀ {t t' : Session σ} {d : ClassDraft} {bytes : Bytes} {options : Options} {l : Layout},
        (∀ a ∈ Attribute.withinAll as, Trusts s.pool s.options a) → s'.pool.Grows t.pool →
        d.finish t = (.ok bytes, t') → Ordered s.pool t'.pool →
        Cursor.Addressable ⟨bytes.toArray⟩ → Layout.scan bytes.toArray options = .ok l →
        ∀ origin, Written.Consistent l origin ws ∧
          Tabled l origin s.pool.parent offsets code as ws := by
  obtain ⟨ws, few, rfl, rows⟩ := rows_of_writes codes writes
  refine ⟨ws, rfl, rows, Written.skips_table few rows.fits, ?_⟩
  intro t t' d bytes options l trusts later finished ordered addressable scanned origin
  obtain ⟨r, before, after, assembled⟩ := ClassDraft.assembled_of_finish finished
  obtain ⟨sound, cursor, -⟩ := Layout.Scanned.of_scan addressable scanned
  have rest := later.trans (before.trans after)
  have whole := (rows.grows codes).trans rest
  have ended := ordered.finished whole assembled sound cursor
  have continues : Continues s.pool.parent s.options s :=
    ⟨ordered.rooted (whole.error ended.fine), rfl⟩
  exact ⟨rows.consistent codes ended few rest,
    tabled_of_rows codes ended as continues rest trusts rows⟩

end Emit

open PoolBuilder (firstClass ofClass)

namespace Emit

/-- A record class A with one component of that name, which has an unknown attribute. -/
def nestedRecord : Attribute :=
  .mk none (.record [.mk (some (firstClass "A").name) (some (firstClass "A").name)
    [some (.mk none (.unknown "M" [7]))]])

/-- The pool of the class with the name of the attribute. -/
def recordPool : PoolBuilder :=
  (ofClass "A").withEntry (.text "Record") (.utf8 ⟨⟨.output, 3⟩, "Record"⟩)

/-- The pool with the name of the attribute of the component, too. -/
def nestedPool : PoolBuilder :=
  recordPool.withEntry (.text "M") (.utf8 ⟨⟨.output, 4⟩, "M"⟩)

/-- No text but the name stands in the pool of the class. -/
theorem unknown_ofClass {text : Text} (other : text ≠ "A") :
    (ofClass "A").places[ConstantKey.text text]? = none := by
  have apart : ConstantKey.single .class 1 ≠ .text text := nofun
  have apart' : ConstantKey.text "A" ≠ .text text := fun same =>
    other (ConstantKey.text.inj same).symm
  rw [ofClass, PoolBuilder.places_withEntry apart, PoolBuilder.ofName,
    PoolBuilder.places_withEntry apart']
  exact Std.HashMap.getElem?_empty

/-- The name of records is entered as the third constant. -/
theorem utf8_recordPool : PoolBuilder.utf8 "Record" (ofClass "A") =
    (⟨⟨.output, 3⟩, "Record"⟩, recordPool) :=
  PoolBuilder.utf8_fresh rfl (unknown_ofClass (by decide)) (by decide) (by cbv)

/-- The name of the attribute is entered as the fourth constant. -/
theorem utf8_nestedPool : PoolBuilder.utf8 "M" recordPool = (⟨⟨.output, 4⟩, "M"⟩, nestedPool) := by
  have unknown : recordPool.places[ConstantKey.text "M"]? = none := by
    rw [recordPool, PoolBuilder.places_withEntry (by decide)]
    exact unknown_ofClass (by decide)
  exact PoolBuilder.utf8_fresh rfl unknown (by decide) (by cbv)

/-- What a body of code would be written with, where there is none. -/
def noCode (_ : InputCode) : Emit Unit Bytes := throw .outOfBounds

/-- The table of the component. -/
def innerText : Bytes := u2 1 ++ (u2 4 ++ (u4 1 ++ [7]))

/-- The body of the record. -/
def recordText : Bytes := u2 1 ++ (u2 1 ++ u2 1 ++ innerText ++ [])

/-- The table of the record. -/
def nestedText : Bytes := u2 1 ++ (u2 3 ++ (u4 15 ++ recordText))

/-- The table of the record is written as the bytes above, and its names are entered on the way. -/
theorem writes_nestedText : Writes (Build.start .none (ofClass "A") ())
    (itemTable (attributeItems none noCode [some nestedRecord])) nestedText
    (Build.start .none nestedPool ()) := by
  have name : Writes (Build.start .none recordPool ()) (refUtf8 (some (firstClass "A").name)) (u2 1)
      (Build.start .none recordPool ()) := rfl
  have inner : Writes (Build.start .none recordPool ())
      (itemTable (attributeItems none noCode [some (.mk none (.unknown "M" [7]))])) innerText
      (Build.start .none nestedPool ()) := by
    have filled : Writes (Build.start .none nestedPool ())
        (attributeBody none noCode (.unknown "M" [7])) [7] (Build.start .none nestedPool ()) := by
      rw [attributeBody]
      exact .pure _
    exact (Writes.attributeRow (s := Build.start .none recordPool ())
      (a := .mk none (.unknown "M" [7])) utf8_nestedPool filled.contents (by decide)).itemTable
  have outer : Writes (Build.start .none recordPool ())
      (attributeBody none noCode nestedRecord.body) recordText
      (Build.start .none nestedPool ()) := by
    rw [nestedRecord, Attribute.body, attributeBody, recordComponents, recordComponents]
    exact .bind (.count (by decide)) (.map (.bind name (.bind name (.bind inner (.map (.pure _))))))
  exact (Writes.attributeRow (s := Build.start .none (ofClass "A") ()) (a := nestedRecord)
    utf8_recordPool outer.contents (by decide)).itemTable

/-- The class, with a field that has a table. -/
def draftWith (table : Bytes) : ClassDraft :=
  { ClassDraft.start (firstClass "A") none with fields := #[u2 0 ++ (u2 1 ++ (u2 1 ++ table))] }

/-- The file that is written. -/
def nestedBytes : Bytes :=
  [0xCA, 0xFE, 0xBA, 0xBE, 0, 0, 0, 52, 0, 5,
    1, 0, 1, 65,
    7, 0, 1,
    1, 0, 6, 82, 101, 99, 111, 114, 100,
    1, 0, 1, 77,
    0, 1, 0, 2, 0, 0, 0, 0, 0, 1, 0, 0, 0, 1, 0, 1] ++ nestedText ++ [0, 0, 0, 0]

/-- The class with the table is finished as the file above. -/
theorem finish_nested : (draftWith nestedText).finish (Build.start .none nestedPool ()) =
    (.ok nestedBytes, Build.start .none nestedPool ()) := by
  have outcome : ((draftWith nestedText).finish (Build.start .none nestedPool ())).1.toOption =
      some nestedBytes := by
    decide +kernel
  exact Prod.ext (toOption_eq_some_iff.mp outcome) rfl

/-- The pool of the class has each constant once. -/
theorem consed_ofClass : (ofClass "A").Consed := by
  have steps := (PoolBuilder.answers_class "A" .empty).1
  rw [PoolBuilder.class_empty (by cbv)] at steps
  exact PoolBuilder.Consed.empty.steps steps

/-- A text that is added keeps a pool in order. -/
theorem consed_utf8 {p q : PoolBuilder} {text : Text} {entry : Utf8Entry} (consed : p.Consed)
    (asked : PoolBuilder.utf8 text p = (entry, q)) : q.Consed := by
  have steps := (PoolBuilder.answers_utf8 text consed).1
  rw [asked] at steps
  exact consed.steps steps

/-- The table of a record with an attribute inside is consistent in the file. -/
theorem tables_consistent_nested : ∃ l ws,
    Writes (Build.start .none (ofClass "A") ())
      (itemTable (attributeItems none noCode [some nestedRecord])) nestedText
      (Build.start .none nestedPool ()) ∧
    (draftWith nestedText).finish (Build.start .none nestedPool ()) =
      (.ok nestedBytes, Build.start .none nestedPool ()) ∧
    Layout.scan nestedBytes.toArray .none = .ok l ∧ nestedText = Written.table ws ∧
    WritesRows none noCode (Build.start .none (ofClass "A") ()) [some nestedRecord] ws
      (Build.start .none nestedPool ()) ∧
    Written.Consistent l (.input 0) ws ∧
    Tabled l (.input 0) none none noCode [some nestedRecord] ws := by
  have ran : (Layout.scan nestedBytes.toArray .none).toOption.isSome = true := by decide +kernel
  obtain ⟨l, scanned⟩ := Option.isSome_iff_exists.mp ran
  have scanned := toOption_eq_some_iff.mp scanned
  have consed : nestedPool.Consed :=
    consed_utf8 (consed_utf8 consed_ofClass utf8_recordPool) utf8_nestedPool
  have addressable : Cursor.Addressable ⟨nestedBytes.toArray⟩ :=
    (by decide : nestedBytes.toArray.size < 0x4000000000000000)
  obtain ⟨ws, whole, rows, -, later⟩ := tables_consistent (fun _ => .throw _) writes_nestedText
  obtain ⟨consistent, tabled⟩ := later (t := Build.start .none nestedPool ())
    (fun a _ => ⟨nofun, nofun, nofun⟩) (.refl _) finish_nested (.own rfl consed) addressable
    scanned (.input 0)
  exact ⟨l, ws, writes_nestedText, finish_nested, scanned, whole, rows, consistent, tabled⟩

/-- The pool of the class with a byte that is not the text of anything. -/
def strayPool : PoolBuilder := (ofClass "A").withEntry (.text [0xFF]) (.utf8 ⟨⟨.output, 3⟩, [0xFF]⟩)

/-- The table of an attribute that is called by the byte. -/
def strayText : Bytes := u2 1 ++ (u2 3 ++ (u4 0 ++ []))

/-- The file with the table. -/
def strayBytes : Bytes :=
  [0xCA, 0xFE, 0xBA, 0xBE, 0, 0, 0, 52, 0, 4,
    1, 0, 1, 65,
    7, 0, 1,
    1, 0, 3, 0xEF, 0xBF, 0xBD,
    0, 1, 0, 2, 0, 0, 0, 0, 0, 1, 0, 0, 0, 1, 0, 1] ++ strayText ++ [0, 0, 0, 0]

/-- The name of an attribute that is not UTF-8 comes back as another, and not as it was given. -/
theorem stray_name_replaced : ∃ l env,
    Writes (Build.start .none (ofClass "A") ())
      (itemTable (attributeItems none noCode [some (.mk none (.unknown [0xFF] []))])) strayText
      (Build.start .none strayPool ()) ∧
    (draftWith strayText).finish (Build.start .none strayPool ()) =
      (.ok strayBytes, Build.start .none strayPool ()) ∧
    Layout.scan strayBytes.toArray .none = .ok l ∧ l.cursor.Spells 39 strayText ∧
    (∀ searching, Lookup.Always l (.input 0) searching
      (Lookup.envelopesAt l (Lookup.entry l (.input 0)) 39) [env]) ∧
    env.name.text = [0xEF, 0xBF, 0xBD] := by
  have asked : PoolBuilder.utf8 [0xFF] (ofClass "A") = (⟨⟨.output, 3⟩, [0xFF]⟩, strayPool) :=
    PoolBuilder.utf8_fresh rfl (unknown_ofClass (by decide)) (by decide) (by cbv)
  have filled : Writes (Build.start .none strayPool ())
      (attributeBody none noCode (.unknown [0xFF] [])) [] (Build.start .none strayPool ()) := by
    rw [attributeBody]
    exact .pure _
  have writes := (Writes.attributeRow (s := Build.start .none (ofClass "A") ())
    (a := .mk none (.unknown [0xFF] [])) asked filled.contents (by decide)).itemTable
  have finished : (draftWith strayText).finish (Build.start .none strayPool ()) =
      (.ok strayBytes, Build.start .none strayPool ()) := by
    have outcome : ((draftWith strayText).finish (Build.start .none strayPool ())).1.toOption =
        some strayBytes := by
      decide +kernel
    exact Prod.ext (toOption_eq_some_iff.mp outcome) rfl
  have ran : (Layout.scan strayBytes.toArray .none).toOption.isSome = true := by decide +kernel
  obtain ⟨l, scanned⟩ := Option.isSome_iff_exists.mp ran
  have scanned := toOption_eq_some_iff.mp scanned
  have addressable : Cursor.Addressable ⟨strayBytes.toArray⟩ :=
    (by decide : strayBytes.toArray.size < 0x4000000000000000)
  obtain ⟨sound, cursor, -⟩ := Layout.Scanned.of_scan addressable scanned
  have spells : l.cursor.Spells 39 strayText := by
    have all := cursor ▸ Cursor.spells_all strayBytes
    rw [strayBytes] at all
    exact (Cursor.spells_append_iff.mp (Cursor.spells_append_iff.mp all).1).2
  obtain ⟨r, -, -, assembled⟩ := ClassDraft.assembled_of_finish finished
  have ordered : Ordered strayPool strayPool := .own rfl (consed_utf8 consed_ofClass asked)
  have ended := ordered.finished (.refl _) assembled sound cursor
  have known : strayPool.places[ConstantKey.text [0xFF]]? = some ⟨.output, 3⟩ :=
    Std.HashMap.getElem?_insert_self
  have consistent : Written.Consistent l (.input 0) [⟨[0xFF], ⟨.output, 3⟩, []⟩] :=
    Written.consistent sound _ (by decide) (List.forall_mem_singleton.mpr
      ⟨by decide, ended.stores _ _ known⟩)
  obtain ⟨envs, lists, always⟩ := consistent.lists 39 spells
  cases lists with
  | next offset holds others =>
  cases others
  refine ⟨l, _, writes, finished, scanned, spells, always, ?_⟩
  have read : ModifiedUtf8.decode? (ModifiedUtf8.encode [0xFF]) = some [0xEF, 0xBF, 0xBD] := by
    cbv
  exact Option.some.inj (holds.name.symm.trans read)

end Emit

end JvmClass
