import JvmClass.Proofs.Bytes.Scan
import JvmClass.Proofs.Bytes.Cursor

/-!
# Reading bytes wherever they stand

A step parses some bytes if it reads them wherever a window spells them, and moves on by as many.
A step follows another one if it parses whatever the other has read.
-/

namespace JvmClass.Scan

variable {α β γ δ : Type} {c c₀ : Cursor} {front back text : Bytes}

/-- Wherever a window spells the bytes, the step reads them and no more. -/
structure Parses (c : Cursor) (step : Scan α) (text : Bytes) (post : α → Prop) : Prop where
  reads : ∀ {stop p : Nat}, Window c stop → c.Spells p text → p + text.length ≤ stop →
    ∃ a, step (.on c stop p) = .ok (a, .on c stop (p + text.length)) ∧ post a

/-- The step reads the bytes where they fill a window. -/
structure Fills (c : Cursor) (step : Scan α) (text : Bytes) (post : α → Prop) : Prop where
  reads : ∀ {p : Nat}, Window c (p + text.length) → c.Spells p text →
    ∃ a, step (.on c (p + text.length) p) =
      .ok (a, .on c (p + text.length) (p + text.length)) ∧ post a

namespace Parses

variable {post : α → Prop} {post' : β → Prop}

/-- What is parsed wherever it stands is parsed where it fills a window. -/
theorem fills {step : Scan α} (parses : Parses c step text post) : Fills c step text post :=
  ⟨fun window spells => parses.reads window spells (Nat.le_refl _)⟩

theorem pure {a : α} (holds : post a) : Parses c (pure a) [] post :=
  ⟨fun _ _ _ => ⟨a, rfl, holds⟩⟩

/-- What is parsed has everything that follows from it. -/
theorem mono {step : Scan α} {weaker : α → Prop} (parses : Parses c step text post)
    (weaken : ∀ a, post a → weaker a) : Parses c step text weaker where
  reads window spells fits :=
    have ⟨a, read, holds⟩ := parses.reads window spells fits
    ⟨a, read, weaken a holds⟩

/-- One step after another parses one text after another. -/
theorem bind {x : Scan α} {f : α → Scan β} (first : Parses c x front post)
    (next : ∀ a, post a → Parses c (f a) back post') :
    Parses c (x >>= f) (front ++ back) post' where
  reads {stop p} window spells fits := by
    rw [List.length_append] at fits ⊢
    obtain ⟨here, there⟩ := Cursor.spells_append_iff.mp spells
    obtain ⟨a, read, holds⟩ := first.reads window here (by omega)
    obtain ⟨b, read', holds'⟩ := (next a holds).reads window there (by omega)
    refine ⟨b, ?_, holds'⟩
    rw [bind_of_ok read, read', Nat.add_assoc]

/-- A last step only changes what was read. -/
theorem map {x : Scan α} {f : α → β} (first : Parses c x text post)
    (next : ∀ a, post a → post' (f a)) : Parses c (do return f (← x)) text post' := by
  rw [← List.append_nil text]
  exact first.bind fun a holds => .pure (next a holds)

/-- Where the step stands does not matter. -/
theorem pos {f : Int → Scan β} (next : ∀ p, Parses c (f p) text post') :
    Parses c (Scan.pos >>= f) text post' :=
  ⟨fun {_ p} window spells fits => (next p).reads window spells fits⟩

/-- An outcome that is no error takes no bytes. -/
theorem ofExcept {x : Except Error α} {a : α} (given : x = .ok a) (holds : post a) :
    Parses c (Scan.ofExcept x) [] post := by
  subst given
  exact .pure holds

/-- A check that passes is as if it were not there. -/
theorem guard {p : Prop} [Decidable p] {e : Error} {stops : β → Scan α} {rest : Scan α}
    (passes : ¬p) (parses : Parses c rest text post) :
    Parses c (if p then fail e >>= stops else rest) text post := by
  rwa [if_neg passes]

/-- A byte is parsed as the number that it was written as. -/
theorem u1 {n : Nat} (small : n < 256) : Parses c Scan.u1 (JvmClass.u1 n) (· = n) where
  reads {stop p} window spells fits := by
    rw [length_u1] at fits ⊢
    exact ⟨n, (u1_eq_ok_iff window (by omega)).mpr ⟨spells.u1_of_lt small, fits, rfl⟩, rfl⟩

/-- Two bytes are parsed as the number that they were written as. -/
theorem u2 {n : Nat} (small : n < 65536) : Parses c Scan.u2 (JvmClass.u2 n) (· = n) where
  reads {stop p} window spells fits := by
    rw [length_u2] at fits ⊢
    exact ⟨n, (u2_eq_ok_iff window (by omega)).mpr ⟨spells.u2_of_lt small, fits, rfl⟩, rfl⟩

/-- A single byte is read as its number. -/
theorem byte (b : UInt8) : Parses c Scan.u1 [b] (· = b.toNat) := by
  rw [← u1_toNat b]
  exact .u1 b.toNat_lt

/-- What lies in a window is no longer than a buffer can be. -/
theorem short_of_inside {stop p : Nat} (window : Window c stop) (fits : p + text.length ≤ stop) :
    text.length < 0x4000000000000000 := by
  have small := window.lt
  omega

/-- As many bytes are skipped as a text has. -/
theorem skip : Parses c (Scan.skip text.length) text fun _ => True where
  reads {stop p} window spells fits :=
    ⟨(), (skip_eq_ok_iff window (by omega) (short_of_inside window fits)).mpr ⟨fits, rfl⟩, trivial⟩

/-- As many bytes are taken as a text has, and they are those of the text. -/
theorem bytes : Parses c (Scan.bytes text.length) text (· = text) where
  reads {stop p} window spells fits :=
    ⟨text, (bytes_eq_ok_iff window (by omega) (short_of_inside window fits)).mpr
      ⟨fits, spells.same.symm, rfl⟩, rfl⟩

/-- One item is read before the others. -/
theorem times_succ {item : Scan α} {n : Nat} {others : List α → Prop}
    (first : Parses c item front post) (rest : Parses c (Scan.times n item) back others) :
    Parses c (Scan.times (n + 1) item) (front ++ back)
      fun as => ∃ a tail, as = a :: tail ∧ post a ∧ others tail where
  reads {stop p} window spells fits := by
    rw [List.length_append] at fits ⊢
    obtain ⟨here, there⟩ := Cursor.spells_append_iff.mp spells
    obtain ⟨a, read, holds⟩ := first.reads window here (by omega)
    obtain ⟨tail, read', holds'⟩ := rest.reads window there (by omega)
    obtain ⟨length, reads⟩ := times_eq_ok_iff.mp read'
    refine ⟨a :: tail, ?_, a, tail, rfl, holds, holds'⟩
    rw [times_eq_ok_iff, ← Nat.add_assoc]
    exact ⟨by rw [List.length_cons, length], .next read reads⟩

/-- Items are read one after another, each from its own bytes. -/
theorem times {item : Scan α} {f : α → γ} {g : β → γ} {items : List β} {chunks : List Bytes}
    (each : List.Forall₂ (fun b chunk => Parses c item chunk fun a => f a = g b) items chunks) :
    Parses c (Scan.times items.length item) chunks.flatten fun as => as.map f = items.map g := by
  induction each with
  | nil => exact .pure rfl
  | cons first others inductionHypothesis =>
      rw [List.length_cons, List.flatten_cons]
      refine (times_succ first inductionHypothesis).mono ?_
      rintro _ ⟨a, tail, rfl, same, same'⟩
      rw [List.map_cons, List.map_cons, same, same']

/-- A counted list is parsed from its count and its items. -/
theorem counted {item : Scan α} {n : Nat} {post : List α → Prop} (small : n < 65536)
    (parses : Parses c (Scan.times n item) back post) :
    Parses c (Scan.counted item) (JvmClass.u2 n ++ back) post :=
  (u2 small).bind fun _ same => same ▸ parses

end Parses

namespace Fills

variable {post : α → Prop} {post' : β → Prop}

/-- What fills a window may be changed after it was read. -/
theorem map {x : Scan α} {f : α → β} (first : Fills c x text post)
    (next : ∀ a, post a → post' (f a)) : Fills c (do return f (← x)) text post' where
  reads window spells := by
    obtain ⟨a, read, holds⟩ := first.reads window spells
    exact ⟨f a, bind_of_ok read, next a holds⟩

/-- What fills a window is all that is left at its start. -/
theorem rest : Fills c (do Scan.bytes (← Scan.remaining)) text (· = text) where
  reads {p} window spells := by
    have left : Scan.remaining (.on c (p + text.length) p) =
        .ok ((text.length : Int), .on c (p + text.length) p) := by
      rw [remaining_eq_ok_iff, remaining_on window (by omega), Nat.add_sub_cancel_left]
      exact ⟨rfl, rfl⟩
    rw [bind_of_ok left]
    exact Parses.bytes.fills.reads window spells

/-- Reading the window of a buffer that the bytes fill. -/
theorem onWindow {step : Scan α} {p : Nat} (fills : Fills c step text post)
    (addressable : c.Addressable) (spells : c.Spells p text) :
    ∃ a, Scan.onWindow c p (p + text.length : Nat) step =
      .ok (a, .on c (p + text.length) (p + text.length)) ∧ post a := by
  have window : Window c (p + text.length) := ⟨spells.inside, addressable⟩
  rw [onWindow_eq window (by omega)]
  exact fills.reads window spells

end Fills

/-! ## Steps that read the same bytes -/

/-- Whatever one step reads that is to be kept, there is something that is related to it and that
the other step parses the same bytes as. -/
structure Follows (c₀ c : Cursor) (keep : α → Prop) (x : Scan α) (y : Scan β)
    (related : α → β → Prop) : Prop where
  advances : ∀ {stop p : Nat} {a : α} {d : Decoder}, Window c₀ stop → p ≤ stop →
    x (.on c₀ stop p) = .ok (a, d) → keep a → ∃ q, p ≤ q ∧ q ≤ stop ∧ d = .on c₀ stop q ∧
      (∃ b, related a b) ∧ Parses c y (c₀.segment p q) (related a)

namespace Follows

variable {keep : α → Prop} {keep' : γ → Prop} {related : α → β → Prop} {related' : γ → δ → Prop}

/-- Two steps that read nothing follow each other if their values are related. -/
theorem pure {a : α} {b : β} (holds : related a b) :
    Follows c₀ c keep (pure a) (pure b) related where
  advances {stop p a' d} window before read _ := by
    obtain ⟨rfl, rfl⟩ := pure_eq_ok_iff.mp read
    exact ⟨p, Nat.le_refl _, before, rfl, ⟨b, holds⟩, by
      rw [Cursor.segment_self]
      exact .pure holds⟩

theorem fail {e : Error} {y : Scan β} : Follows c₀ c keep (fail e : Scan α) y related :=
  ⟨fun _ _ read => nomatch read⟩

/-- Nothing is read. -/
theorem of_fails {x : Scan α} {y : Scan β} (fails : ∀ a d d', x d ≠ .ok (a, d')) :
    Follows c₀ c keep x y related :=
  ⟨fun _ _ read => absurd read (fails _ _ _)⟩

/-- Nothing is to be kept. -/
theorem none {x : Scan α} {y : Scan β} (never : ∀ a, ¬keep a) : Follows c₀ c keep x y related :=
  ⟨fun _ _ _ kept => absurd kept (never _)⟩

/-- What follows follows more that is kept, and is related in every weaker way. -/
theorem mono {x : Scan α} {y : Scan β} {keep₁ : α → Prop} {related₁ : α → β → Prop}
    (follows : Follows c₀ c keep₁ x y related₁) (keeps : ∀ a, keep a → keep₁ a)
    (weaken : ∀ a b, related₁ a b → related a b) : Follows c₀ c keep x y related where
  advances {stop p a d} window before read kept := by
    obtain ⟨q, forward, inside, rfl, ⟨b, holds⟩, parses⟩ :=
      follows.advances window before read (keeps a kept)
    exact ⟨q, forward, inside, rfl, ⟨b, weaken a b holds⟩, parses.mono (weaken a)⟩

/-- One step after another follows one step after another. -/
theorem bind {x : Scan α} {y : Scan β} {f : α → Scan γ} {g : β → Scan δ}
    (first : Follows c₀ c (fun _ => True) x y related)
    (next : ∀ a b, related a b → Follows c₀ c keep' (f a) (g b) related') :
    Follows c₀ c keep' (x >>= f) (y >>= g) related' where
  advances {stop p e d} window before read kept := by
    obtain ⟨a, _, read, read'⟩ := bind_eq_ok_iff.mp read
    obtain ⟨q, forward, inside, rfl, ⟨b, holds⟩, parses⟩ :=
      first.advances window before read trivial
    obtain ⟨r, forward', inside', rfl, given, -⟩ :=
      (next a b holds).advances window inside read' kept
    refine ⟨r, Nat.le_trans forward forward', inside', rfl, given, ?_⟩
    rw [← Cursor.segment_append forward forward']
    refine parses.bind fun b holds => ?_
    -- Whatever the first step gives, the second one moves on to the same place.
    obtain ⟨r', _, _, same, _, parses'⟩ := (next a b holds).advances window inside read' kept
    obtain rfl : r = r' := Int.ofNat_inj.mp (congrArg Decoder.pos same)
    exact parses'

/-- What is read last is only wrapped up. -/
theorem map {x : Scan α} {y : Scan β} {f : α → γ} {g : β → δ}
    (last : Follows c₀ c keep x y related) (keeps : ∀ a, keep' (f a) → keep a)
    (next : ∀ a b, related a b → related' (f a) (g b)) :
    Follows c₀ c keep' (do return f (← x)) (do return g (← y)) related' where
  advances {stop p e d} window before read kept := by
    obtain ⟨a, _, given, wrapped⟩ := bind_eq_ok_iff.mp read
    obtain ⟨rfl, rfl⟩ := pure_eq_ok_iff.mp wrapped
    obtain ⟨q, forward, inside, rfl, ⟨b, holds⟩, parses⟩ :=
      last.advances window before given (keeps a kept)
    exact ⟨q, forward, inside, rfl, ⟨g b, next a b holds⟩, parses.map (next a)⟩

/-- Where a step stands may be looked at, as long as nothing depends on it. -/
theorem pos {f : Int → Scan γ} {g : Int → Scan δ}
    (next : ∀ p q, Follows c₀ c keep' (f p) (g q) related') :
    Follows c₀ c keep' (Scan.pos >>= f) (Scan.pos >>= g) related' where
  advances {stop p e d} window before read kept := by
    obtain ⟨r, forward, inside, same, given, -⟩ := (next p 0).advances window before read kept
    refine ⟨r, forward, inside, same, given, .pos fun q => ?_⟩
    obtain ⟨r', _, _, same', _, parses⟩ := (next p q).advances window before read kept
    obtain rfl : r = r' := Int.ofNat_inj.mp (congrArg Decoder.pos (same.symm.trans same'))
    exact parses

/-- Outcomes follow each other if both are values and these are related. -/
theorem ofExcept {x : Except Error α} {y : Except Error β}
    (given : ∀ a, x = .ok a → ∃ b, y = .ok b ∧ related a b) :
    Follows c₀ c keep (Scan.ofExcept x) (Scan.ofExcept y) related := by
  cases x with
  | error e => exact fail
  | ok a =>
      obtain ⟨b, rfl, holds⟩ := given a rfl
      exact .pure holds

/-- A check may come before what is followed, since nothing is to be followed where it fails. -/
theorem guard {p : Prop} [Decidable p] {e : Error} {stops : β → Scan γ} {rest : Scan γ}
    {y : Scan δ} (follows : ¬p → Follows c₀ c keep' rest y related') :
    Follows c₀ c keep' (if p then Scan.fail e >>= stops else rest) y related' := by
  by_cases stop : p
  · rw [if_pos stop]
    exact ⟨fun _ _ read => nomatch (bind_eq_ok_iff.mp read).choose_spec.choose_spec.1⟩
  · rw [if_neg stop]
    exact follows stop

variable {keep : Nat → Prop}

/-- A byte is read alike in both buffers, and is less than 256. -/
theorem u1_lt : Follows c₀ c keep Scan.u1 Scan.u1 fun m n => m = n ∧ m < 256 where
  advances {stop p n d} window before read _ := by
    obtain ⟨here, fits, rfl⟩ := (u1_eq_ok_iff window before).mp read
    obtain ⟨inside, same⟩ := Cursor.number?_eq_some_iff.mp here
    have small := Cursor.u1_lt here
    refine ⟨p + 1, by omega, fits, rfl, ⟨n, rfl, small⟩, ?_⟩
    have written : JvmClass.u1 n = c₀.segment p (p + 1) := by
      rw [same]
      exact u1_ofBigEndian (by rw [Cursor.length_segment inside]; omega)
    rw [← written]
    exact (Parses.u1 small).mono fun _ same => ⟨same.symm, small⟩

/-- Two bytes are read alike in both buffers, and are less than 65536. -/
theorem u2_lt : Follows c₀ c keep Scan.u2 Scan.u2 fun m n => m = n ∧ m < 65536 where
  advances {stop p n d} window before read _ := by
    obtain ⟨here, fits, rfl⟩ := (u2_eq_ok_iff window before).mp read
    have small := Cursor.u2_lt here
    refine ⟨p + 2, by omega, fits, rfl, ⟨n, rfl, small⟩, ?_⟩
    rw [← Cursor.u2_number here]
    exact (Parses.u2 small).mono fun _ same => ⟨same.symm, small⟩

/-- A byte is read alike in both buffers. -/
theorem u1 : Follows c₀ c keep Scan.u1 Scan.u1 Eq := u1_lt.mono (fun _ => id) fun _ _ => And.left

/-- Two bytes are read alike in both buffers. -/
theorem u2 : Follows c₀ c keep Scan.u2 Scan.u2 Eq := u2_lt.mono (fun _ => id) fun _ _ => And.left

/-- A number of bytes is taken alike in both buffers. -/
theorem bytes {keep : Bytes → Prop} {n : Nat} (short : n < 0x4000000000000000) :
    Follows c₀ c keep (Scan.bytes n) (Scan.bytes n) Eq where
  advances {stop p b d} window before read _ := by
    obtain ⟨fits, rfl, rfl⟩ := (bytes_eq_ok_iff window before short).mp read
    have length : (c₀.segment p (p + n)).length = n := by
      rw [Cursor.length_segment (Nat.le_trans fits window.inside), Nat.add_sub_cancel_left]
    have parses : Parses c (Scan.bytes (c₀.segment p (p + n)).length) _ _ := .bytes
    rw [length] at parses
    exact ⟨p + n, by omega, fits, rfl, ⟨_, rfl⟩, parses.mono fun _ => Eq.symm⟩

/-- A number of bytes is skipped alike in both buffers. -/
theorem skip {keep : Unit → Prop} {n : Nat} (short : n < 0x4000000000000000) :
    Follows c₀ c keep (Scan.skip n) (Scan.skip n) fun _ _ => True where
  advances {stop p u d} window before read _ := by
    obtain ⟨fits, rfl⟩ := (skip_eq_ok_iff window before short).mp read
    have length : (c₀.segment p (p + n)).length = n := by
      rw [Cursor.length_segment (Nat.le_trans fits window.inside), Nat.add_sub_cancel_left]
    have parses : Parses c (Scan.skip (c₀.segment p (p + n)).length) _ _ := .skip
    rw [length] at parses
    exact ⟨p + n, by omega, fits, rfl, ⟨(), trivial⟩, parses⟩

variable {keep : α → Prop}

/-- Items that are read one after another. -/
theorem times {item : Scan α} {item' : Scan β} (follows : Follows c₀ c keep item item' related)
    (n : Nat) : Follows c₀ c (fun as => ∀ a ∈ as, keep a) (Scan.times n item) (Scan.times n item')
      (List.Forall₂ related) := by
  induction n with
  | zero => exact .pure .nil
  | succ n inductionHypothesis =>
      constructor
      intro stop p as d window before read kept
      obtain ⟨length, reads⟩ := times_eq_ok_iff.mp read
      cases reads with
      | done => cases length
      | @next _ _ _ a rest first others =>
          obtain ⟨here, kept⟩ := List.forall_mem_cons.mp kept
          obtain ⟨q, forward, inside, rfl, ⟨b, holds⟩, parses⟩ :=
            follows.advances window before first here
          obtain ⟨r, forward', inside', rfl, ⟨bs, holds'⟩, parses'⟩ :=
            inductionHypothesis.advances window inside
              (times_eq_ok_iff.mpr ⟨Nat.succ.inj length, others⟩) kept
          refine ⟨r, Nat.le_trans forward forward', inside', rfl, ⟨b :: bs, .cons holds holds'⟩, ?_⟩
          rw [← Cursor.segment_append forward forward']
          refine (parses.times_succ parses').mono ?_
          rintro _ ⟨b, bs, rfl, holds, holds'⟩
          exact .cons holds holds'

/-- Counted lists follow each other if their items do. -/
theorem counted {item : Scan α} {item' : Scan β} (follows : Follows c₀ c keep item item' related) :
    Follows c₀ c (fun as => ∀ a ∈ as, keep a) (Scan.counted item) (Scan.counted item')
      (List.Forall₂ related) :=
  u2.bind fun n _ same => same ▸ follows.times n

end Follows

end JvmClass.Scan
