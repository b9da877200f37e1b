import FamicomDisk.Text.Hex
import FamicomDisk.Text.Shown

/-!
# Names in quotes

A name in a message stands in quotes: single ones, or double ones when it has single quotes and no
double ones. Its own quotes, backslashes and characters that cannot be shown are escaped.

* `Text.quoted`: a name in quotes.
-/

namespace FamicomDisk

namespace Text

/-- The quote that names usually stand in. -/
def singleQuote : Char := '\x27'

/-- The quote for names that have single quotes. -/
def doubleQuote : Char := '\x22'

/-- What begins an escape. -/
def backslash : Char := '\x5c'

/-- Lower-case hexadecimal digits, at least `width` of them. -/
def lowerHexDigits (width n : Nat) : List Char := (hexDigits width n).map Char.toLower

/-- A character of a name in the given quotes. -/
def escape (quote c : Char) : List Char :=
  if c = quote ∨ c = backslash then [backslash, c]
  else if c = '\t' then [backslash, 't']
  else if c = '\n' then [backslash, 'n']
  else if c = '\r' then [backslash, 'r']
  else if isShown c then [c]
  else if c.toNat < 0x100 then backslash :: 'x' :: lowerHexDigits 2 c.toNat
  else if c.toNat < 0x10000 then backslash :: 'u' :: lowerHexDigits 4 c.toNat
  else backslash :: 'U' :: lowerHexDigits 8 c.toNat

/-- A name in quotes. -/
def quoted (name : String) : String :=
  let cs := name.toList
  let quote := if singleQuote ∈ cs ∧ doubleQuote ∉ cs then doubleQuote else singleQuote
  String.ofList (quote :: cs.flatMap (escape quote) ++ [quote])

end Text

end FamicomDisk
