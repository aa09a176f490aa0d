import JvmClass.Bytes.Writer
import JvmClass.Proofs.Attribute.RoundTrip
import JvmClass.Proofs.Build.Rescan

/-!
# Attribute tables row by row

An attribute is written as the index of its name, a length and a body, one after another behind
their count. The length may be reserved first and patched when the body is there. Whoever skips the
table by these lengths comes to its end, and whoever lists it finds the names and the bodies.
-/

namespace JvmClass

/-! ## Lengths that are patched -/

namespace Writer

/-- Writing twice is writing both at once. -/
theorem write_write (w : Writer) (a b : Bytes) : (w.write a).write b = w.write (a ++ b) := by
  simp only [write, List.append_assoc]

/-- The bytes that were reserved are overwritten, and what was written after them stays. -/
theorem endLength?_write (w : Writer) {body : Bytes} (short : body.length ≤ Emit.maxLength) :
    ((w.reserve 4).2.write body).endLength? (w.reserve 4).1 =
      some (.ok (w.write (u4 body.length ++ body))) := by
  have opened : (w.reserve 4).2.write body = ⟨w.bytes ++ (List.replicate 4 0 ++ body)⟩ := by
    simp only [reserve, write, List.append_assoc]
    rfl
  have size : (⟨w.bytes ++ (List.replicate 4 0 ++ body)⟩ : Writer).size =
      w.size + 4 + body.length := by
    simp only [Writer.size, List.length_append, List.length_replicate]
    omega
  have behind : ((w.size + 4 + body.length : Nat) : Int) - w.size - 4 = body.length := by omega
  have front : (w.bytes ++ (List.replicate 4 0 ++ body)).take w.size = w.bytes :=
    List.take_left' rfl
  have back : (w.bytes ++ (List.replicate 4 0 ++ body)).drop (w.size + 4) = body := by
    rw [← List.append_assoc, List.drop_left' (by simp [Writer.size])]
  have mark : (w.reserve 4).1 = w.size := rfl
  have fits : ¬(decide ((body.length : Int) < 0) || decide (0xFFFFFFFF < (body.length : Int))) := by
    rw [Emit.maxLength] at short
    simp only [Bool.or_eq_true, decide_eq_true_eq]
    omega
  have inside : decide (0 ≤ (w.size : Int)) &&
      decide ((w.size : Int) + (4 : Nat) ≤ (w.size + 4 + body.length : Nat)) := by
    simp only [Bool.and_eq_true, decide_eq_true_eq]
    omega
  rw [opened, mark, endLength?, size, behind, if_neg fits, patch?, size, length_u4, if_pos inside]
  simp only [Int.toNat_natCast, front, back, Option.map_some, write, List.append_assoc]

/-- A way to append to a buffer. It may fail, or overwrite bytes that are not there. -/
abbrev Fill := Writer → Option (Except Error Writer)

namespace Fill

/-- One after another. -/
def andThen (first second : Fill) : Fill := fun w =>
  match first w with
  | some (.ok between) => second between
  | failed => failed

/-- Appends bytes. -/
def raw (bytes : Bytes) : Fill := fun w => some (.ok (w.write bytes))

/-- Reserves a length, appends what is measured, and goes back to the length. -/
def measured (fill : Fill) : Fill := fun w =>
  let (mark, opened) := w.beginLength
  match fill opened with
  | some (.ok filled) => filled.endLength? mark
  | failed => failed

/-- Wherever it is called, it appends the given bytes and leaves those before them. -/
def Appends (fill : Fill) (bytes : Bytes) : Prop := ∀ w, fill w = some (.ok (w.write bytes))

variable {first second fill : Fill} {a b body : Bytes}

/-- Bytes that are appended are appended. -/
theorem Appends.raw (bytes : Bytes) : (raw bytes).Appends bytes := fun _ => rfl

/-- One after another, two fills append what either appends. -/
theorem Appends.andThen (one : first.Appends a) (two : second.Appends b) :
    (first.andThen second).Appends (a ++ b) := fun w => by
  rw [Fill.andThen, one w]
  exact (two _).trans (by rw [write_write])

/-- What is measured comes after its length, lengths inside it included. -/
theorem Appends.measured (fills : fill.Appends body) (short : body.length ≤ Emit.maxLength) :
    fill.measured.Appends (u4 body.length ++ body) := fun w => by
  have filled := fills (w.reserve 4).2
  rw [Fill.measured, beginLength]
  simp only [filled, endLength?_write w short]

end Fill

end Writer

open Emit (Written maxCount maxLength)
open Writer (Fill)

/-! ## Rows that are written -/

namespace Emit.Written

/-- An attribute table. -/
def table (ws : List Written) : Bytes := u2 ws.length ++ ws.flatMap bytes

/-- The rows of a table, each of which has its body written between its header and the next. -/
def fillRows : List Written → List Fill → Fill
  | w :: ws, fill :: fills =>
    ((Fill.raw (u2 w.place.index)).andThen fill.measured).andThen (fillRows ws fills)
  | _, _ => Fill.raw []

/-- A table is what is appended where the length of each row is patched after its body. -/
theorem fillRows_appends {ws : List Written} {fills : List Fill}
    (fit : ∀ w ∈ ws, w.body.length ≤ maxLength)
    (each : List.Forall₂ (fun w (fill : Fill) => fill.Appends w.body) ws fills) :
    ((Fill.raw (u2 ws.length)).andThen (fillRows ws fills)).Appends (table ws) := by
  refine .andThen (.raw _) ?_
  -- A body is measured after it has been appended, so the rows before it are not looked at again.
  induction each with
  | nil => exact .raw _
  | cons first _ inductionHypothesis =>
      rw [List.forall_mem_cons] at fit
      exact .andThen (.andThen (.raw _) (first.measured fit.1)) (inductionHypothesis fit.2)

end Emit.Written

namespace Emit

variable {σ : Type}

/-- The rows of a table are written one after another, each with the index of its name and what is
written of its attribute. -/
inductive WritesRows (offsets : Option Offsets) (code : InputCode → Emit σ Bytes) :
    Session σ → List (Option Attribute) → List Written → Session σ → Prop
  | done (s : Session σ) : WritesRows offsets code s [] [] s
  | next {s s₁ s₂ s' : Session σ} {a : Attribute} {entry : Utf8Entry} {w : Written}
      {as : List (Option Attribute)} {ws : List Written} (name : w.name = a.name)
      (referred : Writes s (interning (PoolBuilder.utf8 a.name)) entry s₁)
      (place : w.place = entry.place)
      (filled : Writes s₁ (contents offsets code a) w.body s₂) (fits : w.body.length ≤ maxLength)
      (others : WritesRows offsets code s₂ as ws s') :
      WritesRows offsets code s (some a :: as) (w :: ws) s'

section Rows

variable {s s' : Session σ}

/-- What is copied is what the attribute was decoded from, in the input that the pool started
from. -/
theorem of_writes_copied {a : Attribute} {out : Option Bytes}
    (writes : Writes s (copied? a) out s') :
    s = s' ∧ ∀ bytes, out = some bytes → ∃ span i, a.span = some span ∧ s.pool.parent = some i ∧
      span.origin = i.origin ∧ a.body.copies s.options = true ∧
      i.slice span.offset span.length = .ok bytes := by
  rw [copied?, writes_session_iff] at writes
  split at writes
  · rename_i span i place known
    split at writes
    · rename_i owned
      rw [Bool.and_eq_true, decide_eq_true_eq] at owned
      obtain ⟨taken, s₁, took, given⟩ := (writes_bind_iff fun _ => .pure _).mp writes
      obtain ⟨slice, rfl⟩ := writes_monadLift_iff.mp took
      obtain ⟨rfl, rfl⟩ := writes_pure_iff.mp given
      refine ⟨rfl, fun bytes same => ?_⟩
      obtain rfl := Option.some.inj same
      exact ⟨span, i, place, known, owned.1, owned.2, slice⟩
    · obtain ⟨rfl, rfl⟩ := writes_pure_iff.mp writes
      exact ⟨rfl, fun bytes same => by cases same⟩
  · obtain ⟨rfl, rfl⟩ := writes_pure_iff.mp writes
    exact ⟨rfl, fun bytes same => by cases same⟩

section Codes

variable {offsets : Option Offsets} {code : InputCode → Emit σ Bytes}
  (codes : ∀ c, Tries (.calls σ) (code c))
include codes

/-- A body of an attribute is written by calls. -/
theorem tries_body (body : AttributeBody) : Tries (.calls σ) (attributeBody offsets code body) :=
  tries_attributeBody (fun c _ => codes c) offsets body
    (Build.Law.gives_calls (body.mentionsWith fun _ => []))

/-- Attributes of a table are written by calls, each under its name. -/
theorem named_items (as : List (Option Attribute)) :
    Named (.calls σ) (attributeItems offsets code as) :=
  named_attributeItems (fun c _ => codes c) offsets as
    (Build.Law.gives_calls (Attribute.mentionsAll (fun _ => []) as))

/-- What is written of an attribute, copied or anew, is written by calls. -/
theorem tries_content (a : Attribute) : Tries (.calls σ) (contents offsets code a) :=
  tries_contents (tries_body codes a.body)

/-- What is written of an attribute is copied, or its body. -/
theorem of_writes_contents {a : Attribute} {bytes : Bytes}
    (writes : Writes s (contents offsets code a) bytes s') :
    Writes s (copied? a) (some bytes) s' ∨
      Writes s (attributeBody offsets code a.body) bytes s' := by
  obtain ⟨out, s₁, copied, writes⟩ := (writes_bind_iff fun _ =>
    tries_filled _ (tries_body codes a.body)).mp writes
  cases out with
  | some bytes =>
      obtain ⟨rfl, rfl⟩ := writes_pure_iff.mp writes
      exact .inl copied
  | none =>
      obtain ⟨rfl, -⟩ := of_writes_copied copied
      exact .inr writes

/-- Writing rows only makes the pool grow. -/
theorem WritesRows.grows {as : List (Option Attribute)} {ws : List Written}
    (rows : WritesRows offsets code s as ws s') : s.pool.Grows s'.pool := by
  induction rows with
  | done s => exact .refl _
  | next _ referred _ filled _ _ inductionHypothesis =>
      exact (referred.grows (.interning (.utf8 _))).trans
        ((filled.grows (tries_content codes _)).trans inductionHypothesis)

omit codes in
/-- The bodies of the rows fit into their lengths. -/
theorem WritesRows.fits {as : List (Option Attribute)} {ws : List Written}
    (rows : WritesRows offsets code s as ws s') : ∀ w ∈ ws, w.body.length ≤ maxLength := by
  induction rows with
  | done s => exact nofun
  | next _ _ _ _ fits _ inductionHypothesis =>
      exact List.forall_mem_cons.mpr ⟨fits, inductionHypothesis⟩

/-- The names of the rows stand in the pool. -/
theorem WritesRows.there {as : List (Option Attribute)} {ws : List Written}
    (rows : WritesRows offsets code s as ws s') : ∀ w ∈ ws, w.In s'.pool := by
  induction rows with
  | done s => exact nofun
  | @next s s₁ s₂ s' a entry w as ws name referred place filled fits others inductionHypothesis =>
      refine List.forall_mem_cons.mpr ⟨⟨fits, fun fine => ?_⟩, inductionHypothesis⟩
      obtain ⟨rfl, rfl⟩ := writes_interning_iff.mp referred
      have grows := (filled.grows (tries_content codes a)).trans (others.grows codes)
      have known := PoolBuilder.places_utf8 (grows.error fine)
      rw [name, place]
      exact grows.places fine _ _ known

/-- Items are written as rows. -/
theorem rows_of_itemsAfter {as : List (Option Attribute)} {seen : List Text} {done : List Bytes}
    {text : Bytes}
    (writes : Writes s (itemsAfter seen done (attributeItems offsets code as)) text s') :
    ∃ ws, ws.length = as.length ∧ text = done.reverse.flatten ++ ws.flatMap Written.bytes ∧
      WritesRows offsets code s as ws s' := by
  induction as generalizing s seen done with
  | nil =>
      rw [attributeItems] at writes
      obtain ⟨⟨⟩, s₁, settled, given⟩ := (writes_bind_iff fun _ => .pure _).mp writes
      obtain rfl := writes_settle settled
      obtain ⟨rfl, rfl⟩ := writes_pure_iff.mp given
      exact ⟨[], rfl, by simp, .done _⟩
  | cons a rest inductionHypothesis =>
      cases a with
      | none =>
          rw [attributeItems] at writes
          exact absurd writes Drafting.Gives.not_throw
      | some a =>
          have tries (seen : List Text) (done : List Bytes) :
              Tries (.calls σ) (itemsAfter seen done (attributeItems offsets code rest)) :=
            tries_itemsAfter _ _ _ (named_items codes rest)
          rw [attributeItems_eq, List.map_cons, Option.map_some, ← attributeItems_eq, itemsAfter]
            at writes
          split at writes
          -- The name was there before and may not be repeated.
          · obtain ⟨_, _, _, failed, -⟩ := Drafting.Gives.bind_iff.mp writes
            exact absurd failed Drafting.Gives.not_throw
          obtain ⟨bytes, s₁, wrote, writes⟩ := (writes_bind_iff fun _ => tries _ _).mp writes
          obtain ⟨_, body, s₂, referred, filled, fits, rfl⟩ :=
            writes_of_named (tries_content codes a) wrote
          obtain ⟨entry, s₃, asked, given⟩ := (writes_bind_iff fun _ => .pure _).mp referred
          obtain ⟨rfl, rfl⟩ := writes_pure_iff.mp given
          obtain ⟨ws, length, rfl, rows⟩ := inductionHypothesis writes
          exact ⟨⟨a.name, entry.place, body⟩ :: ws, by simp [length], by simp [Written.bytes],
            .next rfl asked rfl filled fits rows⟩

/-- A table is a count and its rows. -/
theorem rows_of_writes {as : List (Option Attribute)} {text : Bytes}
    (writes : Writes s (itemTable (attributeItems offsets code as)) text s') : ∃ ws,
    ws.length ≤ maxCount ∧ text = Written.table ws ∧ WritesRows offsets code s as ws s' := by
  obtain ⟨n, s₁, counted, writes⟩ :=
    (writes_bind_iff fun _ => .bind (tries_items (named_items codes as)) fun _ => .pure _).mp writes
  obtain ⟨short, rfl, rfl⟩ := writes_count_iff.mp counted
  obtain ⟨items, s₂, wrote, given⟩ := (writes_bind_iff fun _ => .pure _).mp writes
  obtain ⟨rfl, rfl⟩ := writes_pure_iff.mp given
  obtain ⟨ws, length, rfl, rows⟩ := rows_of_itemsAfter codes wrote
  rw [attributeItems_eq, List.length_map] at short
  refine ⟨ws, length ▸ short, ?_, rows⟩
  rw [Written.table, length, attributeItems_eq, List.length_map]
  rfl

end Codes

end Rows

end Emit

/-! ## Tables that are skipped and listed -/

/-- The attribute envelopes of the table at `p`. -/
def Lookup.envelopesAt (l : Layout) (entry : EntryAt) (p : Nat) : Lookup (List Envelope) := do
  envelopesFrom l entry [] (p + 2) (← covered (l.cursor.u2? p))

section Table

variable {l : Layout} {ws : List Written} {c : Cursor} {p : Nat}

/-- A table that was written lies in the buffer. -/
theorem Layout.table_of_spells (few : ws.length ≤ maxCount)
    (fit : ∀ w ∈ ws, w.body.length ≤ maxLength) (spells : c.Spells p (Written.table ws)) :
    ∃ rows, Layout.Table c p rows (p + (Written.table ws).length) ∧
      List.Forall₂ (Layout.Row.Shows c) rows ws := by
  rw [maxCount] at few
  rw [Written.table, Cursor.spells_append_iff, length_u2] at spells
  obtain ⟨count, spelled⟩ := spells
  obtain ⟨rows, held, shows⟩ := Layout.rows_of_spells fit spelled
  refine ⟨rows, ⟨by rw [shows.length_eq]; exact count.u2_of_lt (by omega), ?_⟩, shows⟩
  rw [Written.table, List.length_append, length_u2, ← Nat.add_assoc]
  exact held

/-- A table that was written is skipped, wherever it stands in a buffer. -/
theorem Emit.Written.skips_table {stop : Nat} (few : ws.length ≤ maxCount)
    (fit : ∀ w ∈ ws, w.body.length ≤ maxLength) (window : Window c stop)
    (spells : c.Spells p (table ws)) (inside : p + (table ws).length ≤ stop) :
    Layout.skipAttributes (.on c stop p) = .ok ((), .on c stop (p + (table ws).length)) := by
  obtain ⟨rows, held, -⟩ := Layout.table_of_spells few fit spells
  exact (Layout.skipAttributes_eq_ok_iff window (by omega)).mpr ⟨rows, _, held, inside, rfl⟩

/-- A table is consistent in a class file if, wherever it stands in a buffer, all of it is skipped;
wherever it stands in the class file, its attributes are listed with their names and bodies,
whatever was looked up before; and patching the lengths of its rows leaves what their bodies
hold. -/
structure Emit.Written.Consistent (l : Layout) (origin : Origin) (ws : List Written) : Prop where
  skips : ∀ {c : Cursor} {stop p : Nat}, Window c stop → c.Spells p (table ws) →
    p + (table ws).length ≤ stop → Layout.skipAttributes (.on c stop p) =
      .ok ((), .on c stop (p + (table ws).length))
  lists : ∀ p, l.cursor.Spells p (table ws) → ∃ envs, l.Lists (p + 2) envs ws ∧
    ∀ searching, Lookup.Always l origin searching
      (Lookup.envelopesAt l (Lookup.entry l origin) p) envs
  patched : ∀ fills, List.Forall₂ (fun w (fill : Fill) => fill.Appends w.body) ws fills →
    ((Fill.raw (u2 ws.length)).andThen (fillRows ws fills)).Appends (table ws)

/-- A table of attributes that stand in a class file is consistent there, if it has no more of them
than can be counted. -/
theorem Emit.Written.consistent (scanned : l.Scanned) (origin : Origin)
    (few : ws.length ≤ maxCount) (there : ∀ w ∈ ws, w.Stands l) : Consistent l origin ws where
  skips := skips_table few fun w member => (there w member).fits
  lists p spells := by
    obtain ⟨rows, held, shows⟩ :=
      Layout.table_of_spells few (fun w member => (there w member).fits) spells
    obtain ⟨envs, found, shown⟩ := Layout.envelopes_of_rows scanned origin held.rows shows there
    have count : l.cursor.u2? p = some envs.length := by
      rw [held.count, shows.length_eq, shown.length]
    exact ⟨envs, shown, fun searching =>
      .bind .covered (.covered count) (Lookup.always_envelopesFrom Lookup.sound_entry found)⟩
  patched fills := fillRows_appends fun w member => (there w member).fits

end Table

end JvmClass
