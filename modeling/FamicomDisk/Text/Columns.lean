import FamicomDisk.Fault

/-!
# Texts in columns

* `Text.columns`: texts in rows of equal columns, as many to a row as its width allows.
-/

namespace FamicomDisk

namespace Text

/-- The text with blanks behind it up to a width. -/
def padRight (width : Nat) (s : String) : String :=
  s ++ String.ofList (List.replicate (width - s.length) ' ')

/-- Rows of `n` texts each; the last one is filled with empty texts. -/
def rows (n : Nat) (texts : List String) : List (List String) :=
  if n = 0 then []
  else
    match texts with
    | [] => []
    | t :: ts =>
        let row := (t :: ts).take n
        (row ++ List.replicate (n - row.length) "") :: rows n ((t :: ts).drop n)
termination_by texts.length
decreasing_by simp only [List.length_drop, List.length_cons]; omega

/-- The largest number of columns, and the largest width of one. -/
def maxColumns : Int := 0x7fffffffffffffff

/-- Texts in columns, `gap` characters wider than the longest text, in rows of at most `width`
characters, or of one column. -/
def columns (texts : List String) (width gap : Int) : Except Fault String := do
  match (texts.map String.length).max? with
  | none => throw (.value .unreadable)
  | some longest =>
      let column : Int := longest + gap
      if column = 0 then throw .dividedByZero
      let perRow := max 1 (Int.fdiv width column)
      if maxColumns < perRow then throw (.range .length)
      if column < 0 ∨ maxColumns < column then throw (.value .unreadable)
      pure ("\n".intercalate ((rows perRow.toNat texts).map fun row =>
        String.join (row.map (padRight column.toNat))))

end Text

end FamicomDisk
