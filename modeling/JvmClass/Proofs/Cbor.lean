import JvmClass.Cbor
import JvmClass.Proofs.Bytes.Scan

/-!
# Data items that are read back

A canonical item has numbers of at most eight bytes, strings in one piece, and lists and nesting
within the limits of the reader. What such an item is written as is read as the item, whatever
follows it. The reader goes by fuel, of which two units for each byte are enough.

What others rely on is only what the documentation of a library says, `Library.Documented`. It is
said of canonical items and of single values, and a library has to be shown to bear it out.
-/

namespace JvmClass.Cbor

/-! ## Heads -/

section Heads

variable {major n : Nat} {rest : Bytes}

/-- How many bytes the argument of a head takes after the first byte. -/
def argumentWidth (n : Nat) : Nat :=
  if n < 24 then 0
  else if n < 0x100 then 1
  else if n < 0x10000 then 2
  else if n < 0x100000000 then 4
  else 8

/-- As many bytes are split off as the front has. -/
theorem split?_append {front : Bytes} (length : front.length = n) :
    split? n (front ++ rest) = some (front, rest) := by
  subst length
  simp [split?]

/-- The bytes of a head: the first byte, and the argument after it. -/
theorem encodeHead_eq (major n : Nat) : ∃ info, info ≤ 27 ∧
    encodeHead major n = (major * 32 + info).toUInt8 :: bigEndian (argumentWidth n) n ∧
    (if info < 24 then info = n ∧ argumentWidth n = 0
      else argumentWidth n = Nat.pow 2 (info - 24)) := by
  have one (info : Nat) : bigEndian 1 (major * 32 + info) = [(major * 32 + info).toUInt8] := rfl
  rw [encodeHead, argumentWidth]
  simp only [one]
  split
  · exact ⟨n, by omega, rfl, by simp [*]⟩
  · split
    · exact ⟨24, by decide, rfl, rfl⟩
    · split
      · exact ⟨25, by decide, rfl, rfl⟩
      · split
        · exact ⟨26, by decide, rfl, rfl⟩
        · exact ⟨27, by decide, rfl, rfl⟩

/-- An argument fits the bytes that it takes. -/
theorem lt_of_argumentWidth (fits : n < 2 ^ 64) (wide : argumentWidth n ≠ 0) :
    n < 256 ^ argumentWidth n := by
  simp only [argumentWidth] at wide ⊢
  split
  · rename_i short
    exact absurd (if_pos short) wide
  · split
    · omega
    · split
      · omega
      · split <;> omega

/-- A head is read as what it was written from, and the rest is left. -/
theorem head?_encodeHead (small : major < 8) (fits : n < 2 ^ 64) (rest : Bytes) :
    head? (encodeHead major n ++ rest) = some (⟨major, some n, argumentWidth n⟩, rest) := by
  obtain ⟨info, bound, spelled, argument⟩ := encodeHead_eq major n
  have byte : (major * 32 + info).toUInt8.toNat = major * 32 + info := by
    rw [toNat_toUInt8]
    omega
  have high : (major * 32 + info) / 32 = major := by omega
  have low : (major * 32 + info) % 32 = info := by omega
  rw [spelled, List.cons_append]
  simp only [head?, byte, high, low]
  split at argument
  · rename_i short
    obtain ⟨rfl, none_⟩ := argument
    simp [short, none_, bigEndian]
  · rename_i long
    have wide : argumentWidth n ≠ 0 := by
      rw [argument]
      exact Nat.ne_of_gt (Nat.two_pow_pos _)
    rw [if_neg long, if_pos bound, ← argument, split?_append (length_bigEndian _ _)]
    simp [ofBigEndian_bigEndian, Nat.mod_eq_of_lt (lt_of_argumentWidth fits wide)]

/-- A head takes at least one byte. -/
theorem length_encodeHead_pos (major n : Nat) : 0 < (encodeHead major n).length := by
  obtain ⟨info, -, spelled, -⟩ := encodeHead_eq major n
  rw [spelled]
  exact Nat.zero_lt_succ _

/-- The first byte of a head tells what kind of item it starts. -/
theorem encodeHead_major (small : major < 8) (n : Nat) :
    ∃ b tail, encodeHead major n = b :: tail ∧ b.toNat / 32 = major := by
  obtain ⟨info, bound, spelled, -⟩ := encodeHead_eq major n
  refine ⟨_, _, spelled, ?_⟩
  rw [toNat_toUInt8]
  omega

end Heads

/-! ## Items -/

/-- The kind of an item, which its first byte tells. -/
def Item.major : Item → Nat
  | .uint _ => 0
  | .nint _ => 1
  | .bytes _ => 2
  | .text _ => 3
  | .array _ => 4
  | .map _ => 5
  | .tag .. => 6
  | .simple _ | .float .. => 7

/-- An item that can be written canonically, and read inside of others that leave it some room for
lists, records and tags in a row. -/
inductive Item.Canonical : Nat → Item → Prop
  | uint {room n : Nat} (fits : n < 2 ^ 64) : Canonical room (.uint n)
  | nint {room n : Nat} (fits : n < 2 ^ 64) : Canonical room (.nint n)
  | bytes {room : Nat} {data : Bytes} (fits : data.length < 2 ^ 64) : Canonical room (.bytes data)
  | text {room : Nat} {t : Text} (fits : t.length < 2 ^ 64) : Canonical room (.text [t])
  | array {room : Nat} {items : List Item} (few : items.length ≤ maxCount)
      (each : ∀ x ∈ items, Canonical room x) : Canonical (room + 1) (.array items)
  | map {room : Nat} {pairs : List (Item × Item)} (few : pairs.length ≤ maxCount)
      (keys : ∀ p ∈ pairs, Canonical room p.1) (values : ∀ p ∈ pairs, Canonical room p.2) :
      Canonical (room + 1) (.map pairs)
  | tag {room n : Nat} {x : Item} (fits : n < 2 ^ 64) (plain : x.major ≠ 6)
      (content : Canonical room x) : Canonical room (.tag n x)
  | tagged {room n : Nat} {x : Item} (fits : n < 2 ^ 64) (nested : x.major = 6)
      (content : Canonical room x) : Canonical (room + 1) (.tag n x)
  | simple {room n : Nat} (known : n < 24 ∨ 32 ≤ n ∧ n < 256) : Canonical room (.simple n)
  | float {room width bits : Nat} (known : width = 2 ∨ width = 4 ∨ width = 8)
      (fits : bits < 256 ^ width) : Canonical room (.float width bits)

open Item (Canonical)

/-- What an item is written as is read as the item, inside of as many others as leave it its
room. -/
def Rereads (room : Nat) (x : Item) : Prop :=
  ∀ depth fuel rest, depth + room ≤ maxDepth → 2 * (encode x).length ≤ fuel + 2 →
    item? (fuel + 1) depth (encode x ++ rest) = some (x, rest)

/-- An item takes at least one byte. -/
theorem length_encode_pos (x : Item) : 0 < (encode x).length := by
  cases x with
  | float width bits =>
      simp only [encode, List.length_append, length_bigEndian]
      omega
  | _ =>
      simp only [encode, List.length_append]
      have := length_encodeHead_pos
      grind

/-- Items that are written one after another are read one after another. -/
theorem items?_encodeAll {room : Nat} {items : List Item} (each : ∀ x ∈ items, Rereads room x)
    {depth fuel : Nat} (inside : depth + room ≤ maxDepth)
    (enough : 2 * (encodeAll items).length ≤ fuel) (done : List Item) (rest : Bytes) :
    items? fuel depth items.length done (encodeAll items ++ rest) =
      some (done.reverse ++ items, rest) := by
  induction items generalizing fuel done with
  | nil => cases fuel <;> simp [items?, encodeAll]
  | cons x items inductionHypothesis =>
      obtain ⟨first, others⟩ := List.forall_mem_cons.mp each
      have positive := length_encode_pos x
      rw [encodeAll, List.length_append] at enough
      obtain ⟨fuel, rfl⟩ : ∃ f, fuel = f + 2 := ⟨fuel - 2, by omega⟩
      have here := first depth fuel (encodeAll items ++ rest) inside (by omega)
      rw [encodeAll, List.append_assoc, List.length_cons, items?, here]
      dsimp only
      rw [inductionHypothesis others (by omega)]
      simp

/-- A record is written as its keys and values in a row. -/
theorem encodePairs_eq (pairs : List (Item × Item)) :
    encodePairs pairs = encodeAll (pairs.flatMap fun p => [p.1, p.2]) := by
  induction pairs with
  | nil => rfl
  | cons p pairs inductionHypothesis =>
      obtain ⟨k, v⟩ := p
      simp [encodePairs, encodeAll, inductionHypothesis]

/-- Pairs that are laid out one after another are twice as many items. -/
theorem length_flatMap_pair (pairs : List (Item × Item)) :
    (pairs.flatMap fun p => [p.1, p.2]).length = 2 * pairs.length := by
  induction pairs with
  | nil => rfl
  | cons p pairs inductionHypothesis =>
      rw [List.flatMap_cons, List.length_append, inductionHypothesis, List.length_cons]
      simp only [List.length_cons, List.length_nil]
      omega

/-- Items that pairs were laid out as are paired up again. -/
theorem pairUp_flatMap (pairs done : List (Item × Item)) :
    pairUp (pairs.flatMap fun p => [p.1, p.2]) done = some (done.reverse ++ pairs) := by
  induction pairs generalizing done with
  | nil => simp [pairUp]
  | cons p pairs inductionHypothesis => simp [pairUp, inductionHypothesis]

/-- The first byte of an item tells its kind. -/
theorem Item.Canonical.first {room : Nat} {x : Item} (canonical : Canonical room x) :
    ∃ b tail, encode x = b :: tail ∧ b.toNat / 32 = x.major := by
  have head {n : Nat} {body : Bytes} (small : x.major < 8)
      (written : encode x = encodeHead x.major n ++ body) :
      ∃ b tail, encode x = b :: tail ∧ b.toNat / 32 = x.major := by
    obtain ⟨b, tail, spelled, same⟩ := encodeHead_major small n
    exact ⟨b, tail ++ body, by rw [written, spelled, List.cons_append], same⟩
  cases canonical with
  | uint | nint | simple => exact head (by simp [Item.major]) (by rw [encode, List.append_nil]; rfl)
  | float known =>
      rcases known with rfl | rfl | rfl <;> exact ⟨_, _, by rw [encode]; rfl, rfl⟩
  | _ => exact head (by simp [Item.major]) (by rw [encode]; rfl)

/-- A canonical item is read back. -/
theorem Item.Canonical.rereads {room : Nat} {x : Item} (canonical : Canonical room x) :
    Rereads room x := by
  induction canonical with
  | uint fits | nint fits =>
      intro depth fuel rest inside enough
      rw [encode, item?, head?_encodeHead (by decide) fits]
      rfl
  | bytes fits =>
      intro depth fuel rest inside enough
      rw [encode, List.append_assoc, item?, head?_encodeHead (by decide) fits]
      simp [split?_append]
  | text fits =>
      intro depth fuel rest inside enough
      rw [encode, List.append_assoc, item?, List.flatten_singleton,
        head?_encodeHead (by decide) fits]
      simp [split?_append]
  | @array room items few each inductionHypothesis =>
      intro depth fuel rest inside enough
      have fits : items.length < 2 ^ 64 := Nat.lt_of_le_of_lt few (by decide)
      have head := length_encodeHead_pos 4 items.length
      rw [encode, List.length_append] at enough
      have deeper : depth + 1 + room ≤ maxDepth := by omega
      have left : 2 * (encodeAll items).length ≤ fuel := by omega
      have read := items?_encodeAll inductionHypothesis deeper left [] rest
      have allowed : ¬(maxDepth ≤ depth ∨ maxCount < items.length) := by omega
      rw [encode, List.append_assoc, item?, head?_encodeHead (by decide) fits]
      simp [allowed, read]
  | @map room pairs few keys values keysRead valuesRead =>
      intro depth fuel rest inside enough
      have fits : pairs.length < 2 ^ 64 := Nat.lt_of_le_of_lt few (by decide)
      have head := length_encodeHead_pos 5 pairs.length
      have each : ∀ x ∈ pairs.flatMap fun p => [p.1, p.2], Rereads room x := by
        intro x member
        obtain ⟨p, here, part⟩ := List.mem_flatMap.mp member
        simp only [List.mem_cons, List.not_mem_nil, or_false] at part
        rcases part with rfl | rfl
        · exact keysRead p here
        · exact valuesRead p here
      rw [encode, List.length_append, encodePairs_eq] at enough
      have deeper : depth + 1 + room ≤ maxDepth := by omega
      have left : 2 * (encodeAll (pairs.flatMap fun p => [p.1, p.2])).length ≤ fuel := by omega
      have read := items?_encodeAll each deeper left [] rest
      have allowed : ¬(maxDepth ≤ depth ∨ maxCount < pairs.length) := by omega
      rw [length_flatMap_pair] at read
      rw [encode, List.append_assoc, encodePairs_eq, item?, head?_encodeHead (by decide) fits]
      simp [allowed, read, pairUp_flatMap]
  | @tag room n x fits plain content inductionHypothesis =>
      intro depth fuel rest inside enough
      obtain ⟨b, tail, spelled, kind⟩ := content.first
      have head := length_encodeHead_pos 6 n
      have positive := length_encode_pos x
      rw [encode, List.length_append] at enough
      obtain ⟨fuel, rfl⟩ : ∃ f, fuel = f + 1 := ⟨fuel - 1, by omega⟩
      have read := inductionHypothesis depth fuel rest inside (by omega)
      rw [encode, List.append_assoc, item?, head?_encodeHead (by decide) fits]
      rw [spelled, List.cons_append] at read ⊢
      have other : ¬b.toNat / 32 = 6 := by rwa [kind]
      simp [other, read]
  | @tagged room n x fits nested content inductionHypothesis =>
      intro depth fuel rest inside enough
      obtain ⟨b, tail, spelled, kind⟩ := content.first
      have head := length_encodeHead_pos 6 n
      have positive := length_encode_pos x
      rw [encode, List.length_append] at enough
      obtain ⟨fuel, rfl⟩ : ∃ f, fuel = f + 1 := ⟨fuel - 1, by omega⟩
      have read := inductionHypothesis (depth + 1) fuel rest (by omega) (by omega)
      rw [encode, List.append_assoc, item?, head?_encodeHead (by decide) fits]
      rw [spelled, List.cons_append] at read ⊢
      have same : b.toNat / 32 = 6 := by rwa [kind]
      have allowed : ¬maxDepth ≤ depth := by omega
      simp [same, allowed, read]
  | @simple room n known =>
      intro depth fuel rest inside enough
      rw [encode, item?, head?_encodeHead (by decide) (by omega)]
      have width : argumentWidth n = if n < 24 then 0 else 1 := by
        simp only [argumentWidth]
        grind
      simp only [width]
      grind
  | @float room width bits known fits =>
      intro depth fuel rest inside enough
      have argument : ofBigEndian (bigEndian width bits) = bits := by
        rw [ofBigEndian_bigEndian, Nat.mod_eq_of_lt fits]
      have taken :
          split? width (bigEndian width bits ++ rest) = some (bigEndian width bits, rest) :=
        split?_append (length_bigEndian _ _)
      rcases known with rfl | rfl | rfl
      · have first : bigEndian 1 (7 * 32 + 24 + Nat.log2 2) = [249] := rfl
        rw [encode, List.append_assoc, first, item?]
        simp [head?, taken, argument]
      · have first : bigEndian 1 (7 * 32 + 24 + Nat.log2 4) = [250] := rfl
        rw [encode, List.append_assoc, first, item?]
        simp [head?, taken, argument]
      · have first : bigEndian 1 (7 * 32 + 24 + Nat.log2 8) = [251] := rfl
        rw [encode, List.append_assoc, first, item?]
        simp [head?, taken, argument]

/-- Canonical items are what their bytes are read as. -/
theorem parse?_encode {x : Item} (canonical : Canonical maxDepth x) :
    parse? (encode x) = some x := by
  have read := canonical.rereads 0 (2 * (encode x).length + 1) [] (by omega) (by omega)
  rw [List.append_nil] at read
  rw [parse?, read]

/-! ## What is documented of a library -/

/-- A machine word of sixty-four bits with a sign. -/
def IsWord (n : Int) : Prop := -0x8000000000000000 ≤ n ∧ n < 0x8000000000000000

/-- What the documentation of a library says of canonical items and of the values in them. -/
structure Library.Documented (library : Library) : Prop where
  /-- The canonical encoding of an item is well-formed and within the limits of the decoder. Texts
  are written without checking them. -/
  reads : ∀ x, Canonical maxDepth x → library.parse? (library.encode x) = some x
  /-- Numbers are read when they fit what they are read into. -/
  word : ∀ n, IsWord n → library.int? (.ofInt n) = some n
  half : ∀ n, n < 0x10000 → library.u16? (.uint n) = some n
  /-- A text that is not valid UTF-8 is rejected. -/
  text : ∀ t, library.text? (.ofText t) = Option.guard Text.isUtf8 t
  elements : ∀ xs, library.elements? (.array xs) = some xs
  /-- The keys of a record are integers. -/
  fields : ∀ fs : List (Nat × Item), (∀ f ∈ fs, f.1 < 0x8000000000000000) →
    library.fields? (.map (fs.map fun f => (.uint f.1, f.2))) =
      some (fs.map fun f => (some (f.1 : Int), f.2))

namespace Item

/-- A number that is not negative is read as itself. -/
theorem int?_uint {n : Nat} (small : n < 0x8000000000000000) :
    (Item.uint n).int? = some (n : Int) := by
  have plain : (Item.uint n).untagged? = some (.uint n) := by simp [untagged?]
  rw [int?, plain]
  exact if_pos small

/-- So is a negative one. -/
theorem int?_nint {n : Nat} (small : n < 0x8000000000000000) :
    (Item.nint n).int? = some (-1 - (n : Int)) := by
  have plain : (Item.nint n).untagged? = some (.nint n) := by simp [untagged?]
  rw [int?, plain]
  exact if_pos small

/-- A word is read from the item that it is written as. -/
theorem int?_ofInt {n : Int} (word : IsWord n) : (Item.ofInt n).int? = some n := by
  obtain ⟨low, high⟩ := word
  rw [ofInt]
  split
  · rw [int?_uint (by omega), Option.some.injEq]
    omega
  · rw [int?_nint (by omega), Option.some.injEq]
    omega

/-- A number of sixteen bits is read as itself. -/
theorem u16?_uint {n : Nat} (small : n < 0x10000) : (Item.uint n).u16? = some n := by
  have inside : (decide ((0 : Int) ≤ n) && decide ((n : Int) < 0x10000)) = true := by
    rw [Bool.and_eq_true, decide_eq_true_eq, decide_eq_true_eq]
    omega
  rw [u16?, int?_uint (by omega), Option.bind_eq_bind, Option.bind_some, if_pos inside,
    Int.toNat_natCast]

/-- A text is read if it is valid UTF-8. -/
theorem text?_ofText (t : Text) : (Item.ofText t).text? = Option.guard Text.isUtf8 t := by
  simp [ofText, text?, untagged?, Option.guard]

/-- The keys of a record are read as the numbers of its fields. -/
theorem fields?_map (fs : List (Nat × Item)) (small : ∀ f ∈ fs, f.1 < 0x8000000000000000) :
    (Item.map (fs.map fun f => (.uint f.1, f.2))).fields? =
      some (fs.map fun f => (some (f.1 : Int), f.2)) := by
  have keyed : (fs.map fun f => (Item.uint f.1, f.2)).mapM
      (fun p => do return (← p.1.key?, p.2)) = some (fs.map fun f => (some (f.1 : Int), f.2)) := by
    induction fs with
    | nil => rfl
    | cons f fs inductionHypothesis =>
        obtain ⟨first, others⟩ := List.forall_mem_cons.mp small
        have word : signed 64 (f.1 : Int) = f.1 := signed_of_lt (by omega) (by omega)
        have key : (Item.uint f.1).key? = some (some (f.1 : Int)) := by rw [key?, word]
        rw [List.map_cons, List.map_cons, List.mapM_cons, inductionHypothesis others]
        simp [key]
  exact keyed

end Item

/-- The library of the program does what is documented. -/
theorem documented_library : library.Documented := by
  constructor
  case reads =>
    intro x canonical
    exact parse?_encode canonical
  case word =>
    intro n word
    exact Item.int?_ofInt word
  case half =>
    intro n small
    exact Item.u16?_uint small
  case text => exact Item.text?_ofText
  case elements =>
    intro xs
    simp [library, Item.elements?, Item.untagged?]
  case fields => exact Item.fields?_map

end JvmClass.Cbor
