/-!
# File names

The name of a file is what stands behind the last slash of its path, and its suffix is what stands
from the last dot of the name on. Dots that a name begins with do not count.

* `Text.baseName` and `Text.suffix`.
-/

namespace FamicomDisk

namespace Text

/-- What stands behind the last slash. -/
def baseName (path : List Char) : List Char := (path.reverse.takeWhile (· ≠ '/')).reverse

/-- The suffix of a path with its dot, or nothing. -/
def suffix (path : List Char) : List Char :=
  let name := (baseName path).dropWhile (· = '.')
  if '.' ∈ name then '.' :: (name.reverse.takeWhile (· ≠ '.')).reverse else []

/-- The text in lower case; only the first 26 letters change. -/
def lower (cs : List Char) : List Char := cs.map Char.toLower

theorem baseName_not_mem (path : List Char) : '/' ∉ baseName path := by
  intro h
  have h := List.all_eq_true.1 List.all_takeWhile _ (List.mem_reverse.1 h)
  simp at h

end Text

end FamicomDisk
