/-!
# Text in 16-bit units

A character among the first 65536 is one unit, any other is a pair of surrogates, the high one first.

* `Text.units`: the units of a text.
* `Text.ofUnits`: the text of units. A surrogate without its partner becomes the replacement
  character.
* `Text.ofUnits_units`: the text of the units of a text is the text.
-/

namespace FamicomDisk

namespace Text

/-- The units of a character. -/
def unitsOf (c : Char) : List Nat :=
  let n := c.toNat
  if n < 0x10000 then [n] else [0xd800 + (n - 0x10000) / 0x400, 0xdc00 + (n - 0x10000) % 0x400]

/-- The units of a text. -/
def units (cs : List Char) : List Nat := cs.flatMap unitsOf

/-- Whether a unit is a high surrogate. -/
def isHigh (u : Nat) : Bool := 0xd800 ≤ u ∧ u < 0xdc00

/-- Whether a unit is a low surrogate. -/
def isLow (u : Nat) : Bool := 0xdc00 ≤ u ∧ u < 0xe000

/-- What stands for a unit that is no character. -/
def replacement : Char := '\ufffd'

/-- The text of units. -/
def ofUnits : List Nat → List Char
  | [] => []
  | u :: us =>
      if isHigh u then
        match us with
        | v :: vs =>
            if isLow v then
              Char.ofNat (0x10000 + (u - 0xd800) * 0x400 + (v - 0xdc00)) :: ofUnits vs
            else replacement :: ofUnits (v :: vs)
        | [] => [replacement]
      else if isLow u then replacement :: ofUnits us
      else Char.ofNat u :: ofUnits us

theorem ofUnits_units_append (cs : List Char) (us : List Nat) :
    ofUnits (units cs ++ us) = cs ++ ofUnits us := by
  induction cs with
  | nil => rfl
  | cons c cs ih =>
    have hv : c.toNat < 0xd800 ∨ (0xdfff < c.toNat ∧ c.toNat < 0x110000) := c.valid
    rw [units, List.flatMap_cons, List.append_assoc, ← units, List.cons_append, ← ih, unitsOf]
    split
    · next h =>
      have h₁ : isHigh c.toNat = false := by simp only [isHigh, decide_eq_false_iff_not]; omega
      have h₂ : isLow c.toNat = false := by simp only [isLow, decide_eq_false_iff_not]; omega
      rw [List.cons_append, List.nil_append]
      conv => lhs; unfold ofUnits
      simp [h₁, h₂]
    · next h =>
      have h₁ : isHigh (0xd800 + (c.toNat - 0x10000) / 0x400) = true := by
        simp only [isHigh, decide_eq_true_eq]; omega
      have h₂ : isLow (0xdc00 + (c.toNat - 0x10000) % 0x400) = true := by
        simp only [isLow, decide_eq_true_eq]; omega
      have e : 0x10000 + (0xd800 + (c.toNat - 0x10000) / 0x400 - 0xd800) * 0x400
          + (0xdc00 + (c.toNat - 0x10000) % 0x400 - 0xdc00) = c.toNat := by omega
      simp only [List.cons_append, List.nil_append, ofUnits, h₁, h₂, if_true, e, Char.ofNat_toNat]

/-- The text of the units of a text is the text. -/
theorem ofUnits_units (cs : List Char) : ofUnits (units cs) = cs := by
  have := ofUnits_units_append cs []
  rwa [List.append_nil, ofUnits, List.append_nil] at this

end Text

end FamicomDisk
