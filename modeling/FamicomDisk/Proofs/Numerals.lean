import FamicomDisk.Text.Integer
import Mathlib.Algebra.Group.Nat.Defs
import Mathlib.Tactic.Lemma

/-!
Numbers that are spelt by plain digits.

A number may be written with blanks, a sign, underscores and the digits of any script. The plain
decimal digits are read as one expects, with zeros before them or without, as long as there are not
too many of them. What is written of an integer has no zeros in front, so that it is also read where
a zero tells the base.

* `digitsFrom?_of_isDigit`: digits are read from left to right, by induction over them.
* `Spells`, `spells_toDigits`: digits that spell a number, and those that every number has.
* `Spells.readInt?_eq`: **the number that digits spell is read**.
* `readInt?_eq_none`: too many digits are not read.
* `head?_toDigits`: no zero stands in front of the digits of a number.
* `readAnyInt?_of_decimal?`: **an integer that is written is read**.
-/

namespace FamicomDisk

namespace Text

/-! ### Digits as characters -/

section

variable {c : Char} {cs : List Char}

lemma toNat_of_isDigit (h : c.isDigit) : 0x30 ≤ c.toNat ∧ c.toNat ≤ 0x39 := by
  simp only [Char.isDigit, Bool.and_eq_true, decide_eq_true_eq] at h
  exact ⟨UInt32.le_iff_toNat_le.mp h.1, UInt32.le_iff_toNat_le.mp h.2⟩

lemma isBlank_of_isDigit (h : c.isDigit) : isBlank c = false := by
  obtain ⟨hle, hge⟩ := toNat_of_isDigit h
  rw [isBlank, decide_eq_false_iff_not]
  rintro (rfl | hblank)
  · exact absurd hle (by decide)
  · omega

lemma digitIn?_of_isDigit (h : c.isDigit) : digitIn? 10 c = some (c.toNat - '0'.toNat) := by
  obtain ⟨hle, hge⟩ := toNat_of_isDigit h
  have hdigit : '0' ≤ c ∧ c ≤ '9' := by
    simp only [Char.isDigit, Bool.and_eq_true, decide_eq_true_eq] at h
    exact h
  have hlt : c.toNat - '0'.toNat < 10 := by
    have hzero : '0'.toNat = 0x30 := rfl
    omega
  simp only [digitIn?, if_pos hdigit, if_pos hlt]

/-- **Digits are read from left to right.** -/
lemma digitsFrom?_of_isDigit (h : ∀ c ∈ cs, c.isDigit) (value : Nat) {open_ : Bool}
    (hopen : open_ = true → cs ≠ []) :
    digitsFrom? 10 value open_ cs = some (Nat.ofDigitChars 10 cs value) := by
  induction cs generalizing value open_ with
  | nil =>
      cases open_ with
      | false => rfl
      | true => exact absurd rfl (hopen rfl)
  | cons c cs ih =>
      have hc := h c List.mem_cons_self
      have hline : ¬ (c = '_' ∧ open_ = false) := by
        rintro ⟨rfl, -⟩
        exact absurd hc (by decide)
      rw [digitsFrom?, if_neg hline, digitIn?_of_isDigit hc, Nat.ofDigitChars_cons, Nat.mul_comm]
      exact ih (fun c hc => h c (List.mem_cons_of_mem _ hc)) _ nofun

/-- There is nothing to trim where no character is a blank. -/
lemma trim_eq_self (h : ∀ c ∈ cs, isBlank c = false) : trim cs = cs := by
  have hfront : ∀ cs : List Char, (∀ c ∈ cs, isBlank c = false) → cs.dropWhile isBlank = cs := by
    intro cs h
    cases cs with
    | nil => rfl
    | cons c cs =>
        refine List.dropWhile_cons_of_neg ?_
        rw [h c List.mem_cons_self]
        exact Bool.false_ne_true
  rw [trim, hfront cs h, hfront cs.reverse (fun c hc => h c (List.mem_reverse.mp hc)),
    List.reverse_reverse]

lemma plainText?_eq_self (h : ∀ c ∈ cs, c.toNat < 128) : plainText? cs = some cs :=
  if_pos (List.all_eq_true.mpr fun c hc => decide_eq_true (h c hc))

lemma toNat_lt_of_isDigit (h : c.isDigit) : c.toNat < 128 := by
  have hle := toNat_of_isDigit h
  omega

/-- Digits are a number without a sign. -/
lemma signed?_of_isDigit (h : ∀ c ∈ cs, c.isDigit) (digits : List Char → Option Nat) :
    signed? digits (String.ofList cs) = (digits cs).map Int.ofNat := by
  have hplain := plainText?_eq_self fun c hc => toNat_lt_of_isDigit (h c hc)
  have htrim := trim_eq_self fun c hc => isBlank_of_isDigit (h c hc)
  rw [signed?, String.toList_ofList, hplain]
  simp only [Option.bind_eq_bind, Option.bind_some, htrim]
  split
  · exact absurd (h '-' List.mem_cons_self) (by decide)
  · exact absurd (h '+' List.mem_cons_self) (by decide)
  · rfl

/-- Digits behind a dash are a number below zero, or zero. -/
lemma signed?_of_dash (h : ∀ c ∈ cs, c.isDigit) (digits : List Char → Option Nat) :
    signed? digits (String.ofList ('-' :: cs)) = (digits cs).map fun n => -(n : Int) := by
  have hplain : plainText? ('-' :: cs) = some ('-' :: cs) :=
    plainText?_eq_self (List.forall_mem_cons.mpr
      ⟨by decide, fun c hc => toNat_lt_of_isDigit (h c hc)⟩)
  have htrim : trim ('-' :: cs) = '-' :: cs :=
    trim_eq_self (List.forall_mem_cons.mpr
      ⟨by decide, fun c hc => isBlank_of_isDigit (h c hc)⟩)
  rw [signed?, String.toList_ofList, hplain]
  simp only [Option.bind_eq_bind, Option.bind_some, htrim]

lemma countP_of_isDigit (h : ∀ c ∈ cs, c.isDigit) : cs.countP (· ≠ '_') = cs.length := by
  refine List.countP_eq_length.mpr fun c hc => decide_eq_true ?_
  rintro rfl
  exact absurd (h '_' hc) (by decide)

/-- Too many digits are not read. -/
lemma readInt?_eq_none (h : ∀ c ∈ cs, c.isDigit) (hmany : maxDigits < cs.length) :
    readInt? (String.ofList cs) = none := by
  rw [readInt?, signed?_of_isDigit h, decimalDigits?, countP_of_isDigit h, if_pos hmany,
    Option.map_none]

end

/-! ### Digits that spell a number -/

/-- At most `most` digits that spell a number, with zeros before them or without. -/
structure Spells (most : Nat) (n : Nat) (cs : List Char) : Prop where
  ne_nil : cs ≠ []
  isDigit : ∀ c ∈ cs, c.isDigit
  value_eq : Nat.ofDigitChars 10 cs 0 = n
  length_le : cs.length ≤ most

/-- Every number is spelt by its decimal digits. -/
lemma spells_toDigits {most n : Nat} (hmost : 0 < most) (hn : n < 10 ^ most) :
    Spells most n (Nat.toDigits 10 n) where
  ne_nil := Nat.toDigits_ne_nil
  isDigit _ hc := Nat.isDigit_of_mem_toDigits (by decide) (by decide) hc
  value_eq := Nat.ofDigitChars_toDigits (by decide) (by decide)
  length_le := (Nat.length_toDigits_le_iff (by decide) hmost).mpr hn

lemma Spells.decimalDigits?_eq {n : Nat} {cs : List Char} (h : Spells maxDigits n cs) :
    decimalDigits? cs = some n := by
  have hfew : ¬ maxDigits < cs.length := Nat.not_lt.mpr h.length_le
  rw [decimalDigits?, countP_of_isDigit h.isDigit, if_neg hfew, digits?,
    digitsFrom?_of_isDigit h.isDigit 0 fun _ => h.ne_nil, h.value_eq]

/-- **The number that digits spell is read.** -/
lemma Spells.readInt?_eq {n : Nat} {cs : List Char} (h : Spells maxDigits n cs) :
    readInt? (String.ofList cs) = some (n : Int) := by
  rw [readInt?, signed?_of_isDigit h.isDigit, h.decimalDigits?_eq]
  rfl

/-! ### Integers that are written -/

/-- The digits of a number do not begin with a zero, unless the number is zero. -/
lemma head?_toDigits {n : Nat} (hn : 0 < n) : (Nat.toDigits 10 n).head? ≠ some '0' := by
  induction n using Nat.strongRecOn with
  | ind n ih =>
      by_cases hlt : n < 10
      · rw [Nat.toDigits_of_lt_base hlt, List.head?_singleton, Ne, Option.some.injEq,
          Nat.digitChar_eq_zero]
        omega
      · -- the first digit is that of a tenth of the number
        have hfirst : (Nat.toDigits 10 n).head? = (Nat.toDigits 10 (n / 10)).head? := by
          rw [Nat.toDigits_of_base_le (by decide) (Nat.not_lt.mp hlt),
            List.head?_append, Option.or_of_isSome (List.isSome_head?.mpr Nat.toDigits_ne_nil)]
        rw [hfirst]
        exact ih (n / 10) (by omega) (by omega)

/-- The decimal digits of a number do not tell another base. -/
lemma anyDigits?_toDigits (n : Nat) :
    anyDigits? (Nat.toDigits 10 n) = decimalDigits? (Nat.toDigits 10 n) := by
  rcases Nat.eq_zero_or_pos n with rfl | hn
  · rfl
  · have hhead := head?_toDigits hn
    unfold anyDigits?
    split
    · next hdigits =>
      rw [hdigits] at hhead
      exact absurd rfl hhead
    · rfl

/-- An integer is written with the digits of its absolute value, behind a dash if it is below
zero. -/
lemma toString_eq_ofList (n : Int) :
    toString n
      = String.ofList ((if n < 0 then ['-'] else []) ++ Nat.toDigits 10 n.natAbs) := by
  rw [Int.toString_eq_repr, Int.repr_eq_if]
  by_cases hn : n < 0
  · have habs : (-n).toNat = n.natAbs := by omega
    rw [if_neg (Int.not_le.mpr hn), if_pos hn, habs, Nat.repr_eq_ofList_toDigits,
      String.ofList_append]
  · have habs : n.toNat = n.natAbs := by omega
    rw [if_pos (Int.not_lt.mp hn), if_neg hn, habs, Nat.repr_eq_ofList_toDigits, List.nil_append]

/-- An integer is written unless it has too many digits. -/
lemma decimal?_eq_some_iff {n : Int} {text : String} :
    decimal? n = some text
      ↔ (Nat.toDigits 10 n.natAbs).length ≤ maxDigits ∧ text = toString n := by
  rw [decimal?, Nat.pow_eq, Option.ite_none_right_eq_some, Option.some.injEq,
    Nat.length_toDigits_le_iff (by decide) (by decide), eq_comm (a := text)]

/-- **An integer that is written is read**, where the base can be told. -/
lemma readAnyInt?_of_decimal? {n : Int} {text : String} (h : decimal? n = some text) :
    readAnyInt? text = some n := by
  obtain ⟨hfew, rfl⟩ := decimal?_eq_some_iff.mp h
  have hspells : Spells maxDigits n.natAbs (Nat.toDigits 10 n.natAbs) :=
    spells_toDigits (by decide) ((Nat.length_toDigits_le_iff (by decide) (by decide)).mp hfew)
  have hdigits : anyDigits? (Nat.toDigits 10 n.natAbs) = some n.natAbs := by
    rw [anyDigits?_toDigits, hspells.decimalDigits?_eq]
  rw [readAnyInt?, toString_eq_ofList]
  by_cases hn : n < 0
  · rw [if_pos hn, List.singleton_append, signed?_of_dash hspells.isDigit, hdigits]
    have hneg : -(n.natAbs : Int) = n := by omega
    exact congrArg some hneg
  · rw [if_neg hn, List.nil_append, signed?_of_isDigit hspells.isDigit, hdigits]
    exact congrArg some (Int.natAbs_of_nonneg (Int.not_lt.mp hn))

/-- An integer is written with digits, and a dash. -/
lemma mem_toString {n : Int} {c : Char} (h : c ∈ (toString n).toList) : c = '-' ∨ c.isDigit := by
  rw [toString_eq_ofList, String.toList_ofList, List.mem_append] at h
  rcases h with hsign | hdigit
  · split at hsign
    · exact .inl (List.mem_singleton.mp hsign)
    · cases hsign
  · exact .inr (Nat.isDigit_of_mem_toDigits (by decide) (by decide) hdigit)

end Text

end FamicomDisk
