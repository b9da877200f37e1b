import FamicomDisk.Text.Digit

/-!
# Integers in text

An integer may have blanks around it, a sign before it, and single underscores between its digits. Its
digits may be those of any script. Where a base can be told, `0x`, `0o` and `0b` stand before
hexadecimal, octal and binary digits, and a decimal number does not begin with a zero unless it is
zero.

* `Text.readInt?` reads a decimal integer, `Text.readAnyInt?` one that can tell its base.
* `Text.decimal?` writes an integer, unless it has more than 4300 digits.
-/

namespace FamicomDisk

namespace Text

/-- The most decimal digits that are read or written. -/
def maxDigits : Nat := 4300

/-- A character of a number as one of the first 128: blanks become spaces, digits plain digits. -/
def plain? (c : Char) : Option Char :=
  if c.toNat < 127 then some c
  else if isWideBlank c then some ' '
  else (digitValue? c).map fun d => Char.ofNat (0x30 + d)

/-- The text of a number in the first 128 characters, if it can be written in them. -/
def plainText? (cs : List Char) : Option (List Char) :=
  if cs.all (·.toNat < 128) then some cs else cs.mapM plain?

/-- The text without the blanks around it. -/
def trim (cs : List Char) : List Char :=
  ((cs.dropWhile isBlank).reverse.dropWhile isBlank).reverse

/-- The value of a digit in a base. -/
def digitIn? (base : Nat) (c : Char) : Option Nat :=
  let value :=
    if '0' ≤ c ∧ c ≤ '9' then c.toNat - '0'.toNat
    else if 'a' ≤ c ∧ c ≤ 'z' then c.toNat - 'a'.toNat + 10
    else if 'A' ≤ c ∧ c ≤ 'Z' then c.toNat - 'A'.toNat + 10
    else base
  if value < base then some value else none

/-- The value of digits that follow those of `value`. An underscore stands between two digits only;
`open_` tells that a digit has to follow. -/
def digitsFrom? (base : Nat) (value : Nat) (open_ : Bool) : List Char → Option Nat
  | [] => if open_ then none else some value
  | c :: cs =>
      if c = '_' ∧ open_ = false then digitsFrom? base value true cs
      else
        match digitIn? base c with
        | some d => digitsFrom? base (value * base + d) false cs
        | none => none

/-- The value of digits. -/
def digits? (base : Nat) (cs : List Char) : Option Nat := digitsFrom? base 0 true cs

/-- The value of decimal digits, of which there may not be too many. -/
def decimalDigits? (cs : List Char) : Option Nat :=
  if maxDigits < cs.countP (· ≠ '_') then none else digits? 10 cs

/-- The value of digits behind the mark of their base; one underscore may come before them. -/
def markedDigits? (base : Nat) (cs : List Char) : Option Nat :=
  match cs with
  | '_' :: cs => digits? base cs
  | cs => digits? base cs

/-- The value of digits that can tell their base. -/
def anyDigits? (cs : List Char) : Option Nat :=
  match cs with
  | '0' :: mark :: rest =>
      match mark.toLower with
      | 'x' => markedDigits? 16 rest
      | 'o' => markedDigits? 8 rest
      | 'b' => markedDigits? 2 rest
      | _ => (decimalDigits? cs).filter (· = 0)
  | _ => decimalDigits? cs

/-- The integer of a text, with the given reader for its digits. -/
def signed? (digits : List Char → Option Nat) (s : String) : Option Int := do
  match trim (← plainText? s.toList) with
  | '-' :: cs => (digits cs).map fun n => -(n : Int)
  | '+' :: cs => (digits cs).map Int.ofNat
  | cs => (digits cs).map Int.ofNat

/-- The decimal integer of a text. -/
def readInt? (s : String) : Option Int := signed? decimalDigits? s

/-- The integer of a text that can tell its base. -/
def readAnyInt? (s : String) : Option Int := signed? anyDigits? s

/-- The decimal text of an integer, unless it has too many digits. -/
def decimal? (n : Int) : Option String :=
  if n.natAbs < Nat.pow 10 maxDigits then some (toString n) else none

end Text

end FamicomDisk
