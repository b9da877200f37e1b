import FamicomDisk.Proofs.SlotHeaders

/-!
Titles in slot headers.

The field of a title holds its first 119 units, and a terminator. The cut may fall within the two
units of one character, of which the first one is then stored alone, and is read as the replacement
character. No unit but the first tells the kind of a slot, so the header of a title that has a
character, but neither a zero nor the number of an empty slot in front, is read as that of a titled
slot.

* `Text.IsCut`: what is left of a text that is cut behind a number of units, and `exists_isCut`.
* `Text.IsCut.ofUnits_take`: **the units of a cut text, filled with zeros, are read** as what is
  left of it.
* `SlotHeader.stored_of_isCut`: the header that is left of one with a title.
* `SlotHeader.exists_unpack_pack`: **headers are read back**, those of titles, of further sides and
  of empty slots.
-/

namespace FamicomDisk

namespace Text

/-- What is left of a text that is cut behind `n` units. -/
inductive IsCut (n : Nat) : List Char → List Char → Prop where
  /-- A text with no more than these units is left as it is. -/
  | whole {cs : List Char} (fits : (units cs).length ≤ n) : IsCut n cs cs
  /-- The cut falls between two characters. -/
  | between {kept rest : List Char} (full : (units kept).length = n) (more : rest ≠ []) :
      IsCut n (kept ++ rest) kept
  /-- The cut falls within the pair of units of a character, of which the first one is left. -/
  | within {kept rest : List Char} {c : Char} (full : (units kept).length + 1 = n)
      (pair : (unitsOf c).length = 2) : IsCut n (kept ++ c :: rest) (kept ++ [replacement])

lemma length_units_cons (c : Char) (cs : List Char) :
    (units (c :: cs)).length = (unitsOf c).length + (units cs).length := by
  rw [units, List.flatMap_cons, List.length_append, ← units]

/-- A character has one unit, or it has two, the first of which is a high surrogate. -/
lemma unitsOf_cases (c : Char) :
    (unitsOf c = [c.toNat] ∧ c.toNat < 0x10000)
      ∨ ∃ high low, unitsOf c = [high, low] ∧ isHigh high = true := by
  have hc := toNat_lt c
  rw [unitsOf]
  split
  · next hlt => exact .inl ⟨rfl, hlt⟩
  · next hge =>
    refine .inr ⟨_, _, rfl, ?_⟩
    simp only [isHigh, decide_eq_true_eq]
    omega

/-- A text can be cut anywhere. -/
lemma exists_isCut (n : Nat) (cs : List Char) : ∃ left, IsCut n cs left := by
  induction cs generalizing n with
  | nil => exact ⟨[], .whole (Nat.zero_le n)⟩
  | cons c cs ih =>
      by_cases hfits : (unitsOf c).length ≤ n
      · -- the character fits as a whole, and the rest is cut behind the units that it leaves
        have hkept : ∀ kept, (units (c :: kept)).length
            = (unitsOf c).length + (units kept).length := length_units_cons c
        obtain ⟨left, hleft⟩ := ih (n - (unitsOf c).length)
        cases hleft with
        | whole fits => exact ⟨_, .whole (by rw [hkept]; omega)⟩
        | @between _ rest full more =>
            exact ⟨_, @IsCut.between n (c :: left) rest (by rw [hkept]; omega) more⟩
        | @within kept rest d full pair =>
            exact ⟨_, @IsCut.within n (c :: kept) rest d (by rw [hkept]; omega) pair⟩
      · rcases unitsOf_cases c with ⟨hone, -⟩ | ⟨high, low, htwo, -⟩
        · rw [hone, List.length_singleton] at hfits
          have hnone : n = 0 := by omega
          exact ⟨[], @IsCut.between n [] (c :: cs) hnone.symm (List.cons_ne_nil c cs)⟩
        · have hpair : (unitsOf c).length = 2 := by rw [htwo]; rfl
          obtain rfl | rfl : n = 0 ∨ n = 1 := by omega
          · exact ⟨[], @IsCut.between 0 [] (c :: cs) rfl (List.cons_ne_nil c cs)⟩
          · exact ⟨[replacement], @IsCut.within 1 [] cs c rfl hpair⟩

lemma ofUnits_zeros (k : Nat) :
    ofUnits (List.replicate k 0) = List.replicate k (Char.ofNat 0) := by
  induction k with
  | zero => rfl
  | succ k ih =>
      rw [List.replicate_succ, List.replicate_succ, ← ih]
      exact ofUnits_units_append [Char.ofNat 0] (List.replicate k 0)

section

variable {n : Nat} {cs left : List Char}

/-- **The units of a cut text, filled with zeros, are read** as what is left of the text, and as
many zeros. -/
lemma IsCut.ofUnits_take (h : IsCut n cs left) (k : Nat) :
    ofUnits ((units cs).take n ++ List.replicate (k + 1) 0)
      = left ++ List.replicate (k + 1) (Char.ofNat 0) := by
  have happend : ∀ kept rest : List Char, units (kept ++ rest) = units kept ++ units rest :=
    fun _ _ => List.flatMap_append
  cases h with
  | whole fits => rw [List.take_of_length_le fits, ofUnits_units_append, ofUnits_zeros]
  | between full more => rw [happend, List.take_left' full, ofUnits_units_append, ofUnits_zeros]
  | @within kept rest c full pair =>
      obtain ⟨high, low, hunits, hhigh⟩ :
          ∃ high low, unitsOf c = [high, low] ∧ isHigh high = true := by
        rcases unitsOf_cases c with ⟨hone, -⟩ | htwo
        · rw [hone] at pair
          cases pair
        · exact htwo
      have hfirst : (units (c :: rest)).take 1 = [high] := by
        rw [units, List.flatMap_cons, hunits]
        rfl
      -- a zero is no low surrogate
      have hlone : ofUnits (high :: List.replicate (k + 1) 0)
          = replacement :: ofUnits (List.replicate (k + 1) 0) := by
        rw [List.replicate_succ, ofUnits, if_pos hhigh]
        rfl
      rw [happend, ← full, List.take_length_add_append, hfirst, List.append_assoc,
        ofUnits_units_append, List.singleton_append, hlone, ofUnits_zeros, List.append_assoc,
        List.singleton_append]

/-- A text is cut in one way. -/
lemma IsCut.unique {left' : List Char} (h : IsCut n cs left) (h' : IsCut n cs left') :
    left = left' :=
  List.append_cancel_right ((h.ofUnits_take 0).symm.trans (h'.ofUnits_take 0))

/-- A cut does not bring in a zero. -/
lemma IsCut.zero_notMem (h : IsCut n cs left) (hcs : Char.ofNat 0 ∉ cs) : Char.ofNat 0 ∉ left := by
  cases h with
  | whole => exact hcs
  | between => exact fun hmem => hcs (List.mem_append_left _ hmem)
  | within =>
      rw [List.mem_append, not_or]
      exact ⟨fun hmem => hcs (List.mem_append_left _ hmem), by decide⟩

end

/-- A text without zeros has no zero in front of its units. -/
lemma headD_units_ne_zero {cs : List Char} (hne : cs ≠ []) (hcs : Char.ofNat 0 ∉ cs) :
    (units cs).headD 0 ≠ 0 := by
  obtain ⟨c, cs, rfl⟩ := List.exists_cons_of_ne_nil hne
  rw [units, List.flatMap_cons]
  rcases unitsOf_cases c with ⟨hone, -⟩ | ⟨high, low, htwo, hhigh⟩
  · rw [hone, List.singleton_append, List.headD_cons]
    intro hzero
    refine hcs (List.mem_cons.mpr (.inl ?_))
    rw [← hzero, Char.ofNat_toNat]
  · rw [htwo, List.cons_append, List.headD_cons]
    rintro rfl
    cases hhigh

end Text

namespace SlotHeader

variable {dat : List UInt8} {title : String} {leadIn : Option Int} {left : List Char}

/-- The header that is left of one with a title: what is left of the title, if its field cuts it. -/
lemma stored_of_isCut (hne : title.toList ≠ []) (hzero : Char.ofNat 0 ∉ title.toList)
    (hcut : Text.IsCut (titleUnits - 1) title.toList left) :
    stored { title := some title, leadIn }
      = { title := some (String.ofList left),
          leadIn := if leadIn.getD 0 = 0 then none else leadIn } := by
  have hunits : storedUnits { title := some title, leadIn }
      = (Text.units title.toList).take (titleUnits - 1) := rfl
  have hlen : ((Text.units title.toList).take (titleUnits - 1)).length < titleUnits := by
    rw [List.length_take, titleUnits]
    omega
  have hhead : ((Text.units title.toList).take (titleUnits - 1)).headD 0 ≠ 0 := by
    have hfirst := Text.headD_units_ne_zero hne hzero
    cases hus : Text.units title.toList with
    | nil =>
        rw [hus] at hfirst
        exact absurd rfl hfirst
    | cons u us =>
        rw [hus] at hfirst
        exact hfirst
  have hread : (Text.ofUnits ((Text.units title.toList).take (titleUnits - 1)
      ++ List.replicate (titleUnits - ((Text.units title.toList).take (titleUnits - 1)).length)
        0)).takeWhile (· ≠ Char.ofNat 0) = left := by
    obtain ⟨k, hk⟩ := Nat.exists_eq_add_of_lt hlen
    rw [show titleUnits - ((Text.units title.toList).take (titleUnits - 1)).length = k + 1 by omega,
      hcut.ofUnits_take, List.takeWhile_append_of_pos, List.replicate_succ,
      List.takeWhile_cons_of_neg (by simp), List.append_nil]
    intro c hc
    have hother : c ≠ Char.ofNat 0 := by
      rintro rfl
      exact hcut.zero_notMem hzero hc
    simpa using hother
  rw [stored, hunits, if_neg hhead, hread]

/-- Bytes whose first unit is that of an empty slot are read as its header. -/
lemma unpack_of_marked (hlen : dat.length = slotHeaderSize)
    (hfirst : (words (dat.take (2 * titleUnits))).head? = some 0xffff) : unpack dat = .ok {} := by
  obtain ⟨us, hus⟩ := List.head?_eq_some_iff.mp hfirst
  rw [unpack, List.take_of_length_le (Nat.le_of_eq hlen)]
  dsimp only
  rw [if_neg (by omega), hus, List.headD_cons]
  rfl

/-- The header of an empty slot is read as one, without a lead-in. -/
lemma unpack_pack_of_isEmpty {h : SlotHeader} (hempty : h.isEmpty = true)
    (hpack : h.pack = .ok dat) : unpack dat = .ok {} := by
  have hlen := length_pack hpack
  rw [pack, if_pos hempty] at hpack
  obtain rfl := Except.ok.inj hpack
  refine unpack_of_marked hlen ?_
  rw [List.take_replicate, show min (2 * titleUnits) slotHeaderSize = 238 + 1 + 1 from rfl,
    List.replicate_succ, List.replicate_succ, words]
  rfl

/-- A header whose title begins with the number of an empty slot is read as that of an empty
slot. -/
lemma unpack_pack_of_marked {h : SlotHeader} (hne : h.isEmpty = false)
    (hfirst : h.storedUnits.head? = some 0xffff) (hpack : h.pack = .ok dat) :
    unpack dat = .ok {} := by
  refine unpack_of_marked (length_pack hpack) ?_
  rw [(words_pack hne hpack).1, List.head?_append, hfirst]
  rfl

/-- The last unit of the field of a title is zero. -/
lemma getElem?_words_pack {h : SlotHeader} (hne : h.isEmpty = false) (hpack : h.pack = .ok dat) :
    (words (dat.take (2 * titleUnits)))[titleUnits - 1]? = some 0 := by
  have hfew := h.length_storedUnits_lt
  rw [(words_pack hne hpack).1, List.getElem?_append_right (by omega), List.getElem?_replicate,
    if_pos (by omega)]

/-- A header that is not empty, and whose lead-in is a word, has bytes. -/
lemma exists_pack {h : SlotHeader} (hne : h.isEmpty = false)
    (hlead : ∀ n ∈ h.leadIn, 0 ≤ n ∧ n ≤ 0xffff) : ∃ dat, h.pack = .ok dat := by
  refine ⟨_, (pack_eq_ok_iff hne).mpr ⟨?_, rfl⟩⟩
  cases hn : h.leadIn with
  | none => decide
  | some n => exact hlead n hn

lemma leadIn_eq_ite (leadIn : Option Int) :
    (if leadIn.getD 0 = 0 then none else leadIn) = if leadIn = some 0 then none else leadIn := by
  cases leadIn <;> simp

/-- **Headers are read back.** A header with a lead-in that is a word has 256 bytes, and its lead-in
is read back, unless it is zero, which is no lead-in. With a title that has characters, none of
which is zero, and does not begin with the number of an empty slot, the last unit of the field is
zero, and the title is read back, cut behind 119 units. A further side of a disk is read back as
one, and an empty slot as one, without its lead-in. -/
theorem exists_unpack_pack (hlead : ∀ n ∈ leadIn, 0 ≤ n ∧ n ≤ 0xffff) :
    (∀ title : String, title ≠ "" → Char.ofNat 0 ∉ title.toList →
        title.toList.head? ≠ some '\uffff' →
        ∃ dat title', pack { title := some title, leadIn } = .ok dat ∧ dat.length = 256
          ∧ (words (dat.take 240))[119]? = some 0
          ∧ unpack dat = .ok
            { title := some title', leadIn := if leadIn = some 0 then none else leadIn,
              continuation := false }
          ∧ Text.IsCut 119 title.toList title'.toList)
      ∧ (∀ title : Option String,
        ∃ dat, pack { title, leadIn, continuation := true } = .ok dat ∧ dat.length = 256
          ∧ unpack dat = .ok
            { title := none, leadIn := if leadIn = some 0 then none else leadIn,
              continuation := true })
      ∧ ∃ dat, pack { title := none, leadIn, continuation := false } = .ok dat ∧ dat.length = 256
          ∧ unpack dat = .ok { title := none, leadIn := none, continuation := false } := by
  refine ⟨?_, ?_, ?_⟩
  · intro title htitle hzero hmark
    have hchars : title.toList ≠ [] := fun h => htitle (String.toList_eq_nil_iff.mp h)
    have hfirst : (storedUnits { title := some title, leadIn }).head? ≠ some 0xffff := by
      change ((Text.units title.toList).take 119).head? ≠ some 0xffff
      rw [List.head?_take, if_neg (by decide)]
      exact mt (Text.head?_units_eq_iff _).mp hmark
    obtain ⟨dat, hpack⟩ := exists_pack (h := { title := some title, leadIn }) rfl hlead
    obtain ⟨left, hcut⟩ := Text.exists_isCut 119 title.toList
    refine ⟨dat, String.ofList left, hpack, length_pack hpack, getElem?_words_pack rfl hpack,
      ?_, ?_⟩
    · rw [unpack_pack rfl hfirst hpack, stored_of_isCut hchars hzero hcut, leadIn_eq_ite]
    · rwa [String.toList_ofList]
  · intro title
    have hne : isEmpty { title, leadIn, continuation := true } = false := Bool.and_false _
    obtain ⟨dat, hpack⟩ := exists_pack hne hlead
    refine ⟨dat, hpack, length_pack hpack, ?_⟩
    rw [unpack_pack hne (by simp [storedUnits]) hpack, ← leadIn_eq_ite]
    rfl
  · exact ⟨_, rfl, List.length_replicate, unpack_pack_of_isEmpty (h := { leadIn }) rfl rfl⟩

/-- A title of 120 units, the last two of which are the pair of one character. -/
def pairedTitle : String := String.ofList (List.replicate 118 'x' ++ ['𠮷'])

/-- The last character of such a title is replaced, and a lead-in of zero is lost. -/
theorem exists_unpack_pack_pairedTitle :
    (∀ n ∈ some (0 : Int), 0 ≤ n ∧ n ≤ 0xffff)
      ∧ pairedTitle ≠ "" ∧ Char.ofNat 0 ∉ pairedTitle.toList
      ∧ pairedTitle.toList.head? ≠ some '\uffff'
      ∧ ∃ dat, pack { title := some pairedTitle, leadIn := some 0 } = .ok dat
        ∧ unpack dat = .ok
          { title := some (String.ofList (List.replicate 118 'x' ++ [Text.replacement])) } := by
  have hlead : ∀ n ∈ some (0 : Int), 0 ≤ n ∧ n ≤ 0xffff := by simp
  have hchars : pairedTitle.toList = List.replicate 118 'x' ++ '𠮷' :: [] := String.toList_ofList
  have hne : pairedTitle ≠ "" := fun h => by
    rw [h] at hchars
    cases hchars
  have hzero : Char.ofNat 0 ∉ pairedTitle.toList := by
    rw [hchars]
    decide
  have hmark : pairedTitle.toList.head? ≠ some '\uffff' := by
    rw [hchars]
    decide
  refine ⟨hlead, hne, hzero, hmark, ?_⟩
  obtain ⟨dat, title, hpack, -, -, hunpack, hcut⟩ :=
    (exists_unpack_pack hlead).1 pairedTitle hne hzero hmark
  have hleft : title.toList = List.replicate 118 'x' ++ [Text.replacement] := by
    rw [hchars] at hcut
    exact hcut.unique (.within (by decide) rfl)
  refine ⟨dat, hpack, ?_⟩
  rw [hunpack, ← hleft, String.ofList_toList, if_pos rfl]

end SlotHeader

end FamicomDisk
