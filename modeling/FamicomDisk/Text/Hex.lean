/-!
# Hexadecimal numbers

Offsets, byte values and checks are written in upper-case hexadecimal, filled with zeros to a least
width that counts a minus sign.

* `Text.hex`: the number in a least width.
* `Text.length_hexDigits`: filled digits have the width asked for, if the number needs no more.
-/

namespace FamicomDisk

namespace Text

/-- The digits of a number, at least `width` of them. -/
def hexDigits (width : Nat) (n : Nat) : List Char :=
  let digits := (Nat.toDigits 16 n).map Char.toUpper
  List.replicate (width - digits.length) '0' ++ digits

/-- The number in upper-case hexadecimal, with at least `width` characters. -/
def hex (width : Nat) (n : Int) : String :=
  if n < 0 then String.ofList ('-' :: hexDigits (width - 1) n.natAbs)
  else String.ofList (hexDigits width n.natAbs)

theorem length_hexDigits (width n : Nat) :
    (hexDigits width n).length = max width (Nat.toDigits 16 n).length := by
  simp only [hexDigits, List.length_append, List.length_replicate, List.length_map]
  omega

end Text

end FamicomDisk
