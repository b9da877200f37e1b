import FamicomDisk.Flash.Header
import FamicomDisk.Proofs.Check

/-!
Slot headers, packed and unpacked.

The bytes of a header keep the units of its title and its lead-in, but not whether a lead-in of zero
was given, and the first unit alone tells whether the slot is empty or continues a disk. What is
left of a header in its bytes is `SlotHeader.stored`, and unpacking finds just that
(`unpack_pack`), unless the title begins with the unit of an empty slot; no text does that but one
whose first character has that number (`head?_units_eq_iff`).

* `pack_eq_ok_iff`, `pack_eq_error`: a header has bytes if its lead-in is a word.
* `words_pack`: the units and the lead-in of a header are found in its bytes.
* `unpack_pack`: **what is read from the bytes of a header**.
-/

namespace FamicomDisk

/-! ### Units of text -/

namespace Text

lemma toNat_lt (c : Char) : c.toNat < 0xd800 ∨ (0xdfff < c.toNat ∧ c.toNat < 0x110000) := c.valid

lemma lt_of_mem_unitsOf {c : Char} {u : Nat} (h : u ∈ unitsOf c) : u < 0x10000 := by
  have hc := toNat_lt c
  simp only [unitsOf] at h
  split at h
  · next hlt =>
    rw [List.mem_singleton] at h
    omega
  · simp only [List.mem_cons, List.not_mem_nil, or_false] at h
    omega

lemma lt_of_mem_units {cs : List Char} {u : Nat} (h : u ∈ units cs) : u < 0x10000 := by
  obtain ⟨c, -, hu⟩ := List.mem_flatMap.mp h
  exact lt_of_mem_unitsOf hu

/-- A text begins with the unit of an empty slot only if its first character has that number. -/
lemma head?_units_eq_iff (cs : List Char) :
    (units cs).head? = some 0xffff ↔ cs.head? = some '\uffff' := by
  cases cs with
  | nil => simp [units]
  | cons c cs =>
      have hc := toNat_lt c
      have hchar : c = '\uffff' ↔ c.toNat = 0xffff :=
        ⟨fun h => by rw [h]; rfl, fun h => Char.ext (UInt32.toNat_inj.mp h)⟩
      rw [units, List.flatMap_cons, unitsOf, List.head?_cons, Option.some.injEq, hchar]
      split
      · simp
      · simp only [List.cons_append, List.head?_cons, Option.some.injEq]
        omega

end Text

namespace SlotHeader

/-! ### Words of bytes -/

lemma words_flatMap_ofWord {us : List Nat} (h : ∀ u ∈ us, u < 0x10000) (rest : List UInt8) :
    words (us.flatMap Bits.ofWord ++ rest) = us ++ words rest := by
  induction us with
  | nil => rfl
  | cons u us ih =>
      rw [List.flatMap_cons, List.append_assoc, Bits.ofWord, List.cons_append, List.cons_append,
        List.nil_append, words, ih fun v hv => h v (by simp [hv]),
        Bits.word_ofNat (h u (by simp))]
      rfl

lemma words_zeros (n : Nat) : words (List.replicate (2 * n) 0) = List.replicate n 0 := by
  induction n with
  | zero => rfl
  | succ n ih =>
      rw [Nat.mul_succ, List.replicate_succ, List.replicate_succ, words, ih, List.replicate_succ]
      rfl

lemma length_flatMap_ofWord (us : List Nat) : (us.flatMap Bits.ofWord).length = 2 * us.length := by
  induction us with
  | nil => rfl
  | cons u us ih =>
      rw [List.flatMap_cons, List.length_append, ih, List.length_cons, Bits.ofWord]
      simp only [List.length_cons, List.length_nil]
      omega

/-! ### Packing -/

variable {h : SlotHeader} {dat : List UInt8}

lemma length_storedUnits_lt (h : SlotHeader) : h.storedUnits.length < titleUnits := by
  rw [storedUnits]
  split
  · decide
  · rw [List.length_take, titleUnits]
    omega

lemma lt_of_mem_storedUnits {u : Nat} (hu : u ∈ h.storedUnits) : u < 0x10000 := by
  rw [storedUnits] at hu
  split at hu
  · simp at hu
  · exact Text.lt_of_mem_units (List.mem_of_mem_take hu)

/-- The bytes of a header that is not empty. -/
lemma pack_eq_ok_iff (hne : h.isEmpty = false) :
    h.pack = .ok dat ↔ (0 ≤ h.leadIn.getD 0 ∧ h.leadIn.getD 0 ≤ 0xffff)
      ∧ dat = h.storedUnits.flatMap Bits.ofWord
        ++ List.replicate (slotHeaderSize - 2 - (h.storedUnits.flatMap Bits.ofWord).length) 0
        ++ Bits.ofWord (h.leadIn.getD 0).toNat := by
  rw [pack, if_neg (by simp [hne])]
  dsimp only
  split
  · next hbad =>
    constructor
    · intro heq
      cases heq
    · rintro ⟨hgood, -⟩
      omega
  · next hgood =>
    constructor
    · intro heq
      exact ⟨by omega, (Except.ok.inj heq).symm⟩
    · rintro ⟨-, rfl⟩
      rfl

/-- A header with another lead-in than a word has no bytes. -/
lemma pack_eq_error (hne : h.isEmpty = false)
    (hlead : ¬ (0 ≤ h.leadIn.getD 0 ∧ h.leadIn.getD 0 ≤ 0xffff)) :
    h.pack = .error .recordMismatch := by
  rw [pack, if_neg (by simp [hne])]
  dsimp only
  rw [if_pos (by omega)]
  rfl

/-- A header has all its bytes. -/
lemma length_pack (hpack : h.pack = .ok dat) : dat.length = slotHeaderSize := by
  cases hne : h.isEmpty with
  | true =>
      rw [pack, if_pos hne] at hpack
      obtain rfl := Except.ok.inj hpack
      exact List.length_replicate
  | false =>
      have hfew := h.length_storedUnits_lt
      obtain ⟨-, rfl⟩ := (pack_eq_ok_iff hne).mp hpack
      rw [List.length_append, List.length_append, List.length_replicate, length_flatMap_ofWord,
        Bits.ofWord, slotHeaderSize]
      rw [titleUnits] at hfew
      simp only [List.length_cons, List.length_nil]
      omega

/-- The units of a header, filled with zeros, and its lead-in are the words of its bytes. -/
lemma words_pack (hne : h.isEmpty = false) (hpack : h.pack = .ok dat) :
    words (dat.take (2 * titleUnits))
        = h.storedUnits ++ List.replicate (titleUnits - h.storedUnits.length) 0
      ∧ words (dat.drop (slotHeaderSize - 2)) = [(h.leadIn.getD 0).toNat] := by
  have hfew := h.length_storedUnits_lt
  obtain ⟨hlead, rfl⟩ := (pack_eq_ok_iff hne).mp hpack
  have hname := length_flatMap_ofWord h.storedUnits
  rw [titleUnits] at hfew ⊢
  rw [slotHeaderSize]
  constructor
  · rw [List.append_assoc, List.take_append, List.take_of_length_le (by omega),
      List.take_append_of_le_length (by rw [List.length_replicate]; omega), List.take_replicate,
      words_flatMap_ofWord fun _ => lt_of_mem_storedUnits, ← words_zeros]
    congr 3
    omega
  · rw [List.drop_left' (by rw [List.length_append, List.length_replicate]; omega), Bits.ofWord,
      words, Bits.word_ofNat (by omega)]
    rfl

/-- What is left of a header in its bytes: a lead-in of zero is no lead-in, and a title without
units is no title. -/
def stored (h : SlotHeader) : SlotHeader :=
  let leadIn := if h.leadIn.getD 0 = 0 then none else h.leadIn
  if h.storedUnits.headD 0 = 0 then { leadIn, continuation := true }
  else
    let title := (Text.ofUnits (h.storedUnits
      ++ List.replicate (titleUnits - h.storedUnits.length) 0)).takeWhile (· ≠ Char.ofNat 0)
    { title := some (String.ofList title), leadIn }

/-- The lead-in that is read from its word. -/
lemma leadIn_of_word {leadIn : Option Int} (h : 0 ≤ leadIn.getD 0) :
    (match [(leadIn.getD 0).toNat] with
      | 0 :: _ | [] => (none : Option Int)
      | n :: _ => some (n : Int)) = if leadIn.getD 0 = 0 then none else leadIn := by
  cases leadIn with
  | none => rfl
  | some m =>
      obtain ⟨n, rfl⟩ := Int.eq_ofNat_of_zero_le h
      cases n with
      | zero => rfl
      | succ n =>
          rw [Option.getD_some, if_neg (by omega)]
          rfl

/-- **What is read from the bytes of a header** that does not begin as that of an empty slot. -/
lemma unpack_pack (hne : h.isEmpty = false) (hfirst : h.storedUnits.head? ≠ some 0xffff)
    (hpack : h.pack = .ok dat) : unpack dat = .ok h.stored := by
  have hlen := length_pack hpack
  have hleadIn := leadIn_of_word ((pack_eq_ok_iff hne).mp hpack).1.1
  obtain ⟨hunits, hlead⟩ := words_pack hne hpack
  have hhead : (h.storedUnits ++ List.replicate (titleUnits - h.storedUnits.length) 0).headD 0
      = h.storedUnits.headD 0 := by
    cases h.storedUnits with
    | nil => rfl
    | cons u us => rfl
  rw [unpack, List.take_of_length_le (Nat.le_of_eq hlen), stored, ← hleadIn]
  dsimp only
  rw [if_neg (by omega), hunits, hlead, hhead]
  split
  · next hempty =>
    refine absurd ?_ hfirst
    cases hus : h.storedUnits with
    | nil =>
        rw [hus] at hempty
        cases hempty
    | cons u us =>
        rw [hus, List.headD_cons] at hempty
        rw [hempty, List.head?_cons]
  · next hzero =>
    rw [if_pos hzero]
    rfl
  · next hzero =>
    rw [if_neg hzero]
    rfl

/-- Bytes as many as a header has can be unpacked. -/
lemma exists_unpack (hlen : slotHeaderSize ≤ dat.length) : ∃ h, unpack dat = .ok h := by
  have htake : ¬ (dat.take slotHeaderSize).length < slotHeaderSize := by
    rw [List.length_take]
    omega
  rw [unpack]
  dsimp only
  rw [if_neg htake]
  split <;> exact ⟨_, rfl⟩

/-- What stands behind a header does not matter to it. -/
lemma unpack_take (dat : List UInt8) : unpack (dat.take slotHeaderSize) = unpack dat := by
  rw [unpack, unpack, List.take_take, Nat.min_self]

end SlotHeader

end FamicomDisk
