import FamicomDisk.Fault
import FamicomDisk.Text.Path

/-!
# Names that are no texts

A name as the system gives it is made of characters, but also of surrogates, where a part of it has
no character. Such a name is split as any other, but it cannot be written as a text.

* `Text.Point`, `Text.Name`: names and what they are made of. Every text is a name.
* `Text.Name.baseName`: what stands behind the last slash.
* `Text.Name.text`: the text of a name, if it has one.
* `Text.Name.text_eq_ok_iff`: the names that have a text are the texts.
-/

namespace FamicomDisk

namespace Text

/-- What a name is made of. -/
inductive Point where
  | char (c : Char)
  /-- A surrogate, counted from the first one. -/
  | surrogate (n : Fin 0x800)
  deriving DecidableEq

/-- A name, which need not be a text. -/
structure Name where
  points : List Point
  deriving DecidableEq

namespace Name

/-- A text as a name. -/
def ofString (s : String) : Name := ⟨s.toList.map .char⟩

instance : Coe String Name := ⟨ofString⟩

/-- What stands behind the last slash. -/
def baseName (n : Name) : Name := ⟨(n.points.reverse.takeWhile (· ≠ .char '/')).reverse⟩

/-- The characters of points, the first of which stands at `place`. -/
def charsFrom (place : Nat) : List Point → Except Fault (List Char)
  | [] => pure []
  | .char c :: ps => do pure (c :: (← charsFrom (place + 1) ps))
  | .surrogate n :: _ => throw (.value (.surrogateInTitle n place))

/-- The text of a name. -/
def text (n : Name) : Except Fault String := do
  pure (String.ofList (← charsFrom 0 n.points))

theorem charsFrom_chars (place : Nat) (cs : List Char) :
    charsFrom place (cs.map .char) = .ok cs := by
  induction cs generalizing place with
  | nil => rfl
  | cons c cs ih =>
    rw [List.map_cons, charsFrom, ih]
    rfl

theorem eq_chars_of_charsFrom {place : Nat} {ps : List Point} {cs : List Char}
    (h : charsFrom place ps = .ok cs) : ps = cs.map .char := by
  induction ps generalizing place cs with
  | nil =>
    obtain rfl := Except.ok.inj h
    rfl
  | cons p ps ih =>
    cases p with
    | surrogate n => cases h
    | char c =>
      rw [charsFrom] at h
      cases hps : charsFrom (place + 1) ps with
      | error e =>
        rw [hps] at h
        cases h
      | ok ds =>
        rw [hps] at h
        obtain rfl := Except.ok.inj h
        rw [List.map_cons, ← ih hps]

/-- The names that have a text are the texts. -/
theorem text_eq_ok_iff {n : Name} {s : String} : n.text = .ok s ↔ n = ofString s := by
  constructor
  · intro h
    rw [text] at h
    cases hcs : charsFrom 0 n.points with
    | error e =>
      rw [hcs] at h
      cases h
    | ok cs =>
      rw [hcs] at h
      obtain rfl := Except.ok.inj h
      rw [ofString, String.toList_ofList, ← eq_chars_of_charsFrom hcs]
  · rintro rfl
    rw [text, ofString, charsFrom_chars]
    exact congrArg Except.ok String.ofList_toList

end Name

end Text

end FamicomDisk
