/-!
# Splitting text

* `Text.split` cuts a text at every occurrence of a character; there is always a first piece.
* `Text.intercalate_split`: joining the pieces gives the text back.
* `Text.not_mem_of_mem_split`: no piece holds the separator.
* `Text.split_append_cons`: the pieces before a separator, and then those behind it.
* `Text.split_intercalate`: pieces without the separator come back from the joined text.
* `Text.eq_of_getLast?_split`: a text whose last piece is empty ends with the separator, or is empty.
-/

namespace FamicomDisk

namespace Text

/-- The pieces of a text between the occurrences of a separator. -/
def split (sep : Char) : List Char → List (List Char)
  | [] => [[]]
  | c :: cs =>
      if c = sep then [] :: split sep cs
      else
        match split sep cs with
        | [] => [[c]]
        | piece :: pieces => (c :: piece) :: pieces

theorem split_ne_nil (sep : Char) (cs : List Char) : split sep cs ≠ [] := by
  cases cs with
  | nil => simp [split]
  | cons c cs =>
    rw [split]
    split
    · simp
    · split <;> simp

theorem intercalate_split (sep : Char) (cs : List Char) :
    [sep].intercalate (split sep cs) = cs := by
  induction cs with
  | nil => rfl
  | cons c cs ih =>
    rw [split]
    split
    · next h =>
      subst h
      match hs : split c cs with
      | [] => exact absurd hs (split_ne_nil c cs)
      | piece :: pieces => rw [hs] at ih; simpa [List.intercalate, List.intersperse] using ih
    · match hs : split sep cs with
      | [] => exact absurd hs (split_ne_nil sep cs)
      | [piece] => rw [hs] at ih; simpa [List.intercalate, List.intersperse] using ih
      | piece :: piece' :: pieces =>
        rw [hs] at ih
        simpa [List.intercalate, List.intersperse] using ih

theorem not_mem_of_mem_split {sep : Char} {cs piece : List Char} (h : piece ∈ split sep cs) :
    sep ∉ piece := by
  induction cs generalizing piece with
  | nil => simp [split] at h; simp [h]
  | cons c cs ih =>
    rw [split] at h
    split at h
    · rcases List.mem_cons.1 h with h | h
      · simp [h]
      · exact ih h
    · next hc =>
      split at h
      · simp at h; simp [h, Ne.symm hc]
      · next first pieces hs =>
        rcases List.mem_cons.1 h with h | h
        · have := ih (hs ▸ List.mem_cons_self)
          subst h
          simp [this, Ne.symm hc]
        · exact ih (hs ▸ List.mem_cons_of_mem _ h)

theorem split_of_not_mem {sep : Char} {piece : List Char} (h : sep ∉ piece) :
    split sep piece = [piece] := by
  induction piece with
  | nil => rfl
  | cons c cs ih =>
    obtain ⟨hc, hcs⟩ := not_or.1 (mt List.mem_cons.2 h)
    rw [split, if_neg (Ne.symm hc), ih hcs]

/-- Before and behind a separator, a text is cut as on its own. -/
theorem split_append_cons (sep : Char) (cs cs' : List Char) :
    split sep (cs ++ sep :: cs') = split sep cs ++ split sep cs' := by
  induction cs with
  | nil => simp only [List.nil_append, split, if_true, List.singleton_append]
  | cons c cs ih =>
    obtain ⟨piece, pieces, hs⟩ := List.exists_cons_of_ne_nil (split_ne_nil sep cs)
    simp only [List.cons_append, split, ih, hs]
    split <;> rfl

theorem split_append {sep : Char} {piece : List Char} (h : sep ∉ piece) (cs : List Char) :
    split sep (piece ++ sep :: cs) = piece :: split sep cs := by
  rw [split_append_cons, split_of_not_mem h, List.singleton_append]

/-- Pieces without the separator come back from the joined text. -/
theorem split_intercalate {sep : Char} {pieces : List (List Char)} (hne : pieces ≠ [])
    (h : ∀ piece ∈ pieces, sep ∉ piece) : split sep ([sep].intercalate pieces) = pieces := by
  induction pieces with
  | nil => exact absurd rfl hne
  | cons piece pieces ih =>
    have hp : sep ∉ piece := h piece List.mem_cons_self
    cases pieces with
    | nil => simpa [List.intercalate, List.intersperse] using split_of_not_mem hp
    | cons piece' pieces =>
      have ih := ih (List.cons_ne_nil _ _) fun p hp => h p (List.mem_cons_of_mem _ hp)
      have e : [sep].intercalate (piece :: piece' :: pieces)
          = piece ++ sep :: [sep].intercalate (piece' :: pieces) := by
        simp [List.intercalate, List.intersperse]
      rw [e, split_append hp, ih]

/-- A text whose last piece is empty ends with the separator, or is empty itself. -/
theorem eq_of_getLast?_split {sep : Char} {cs : List Char} (h : (split sep cs).getLast? = some []) :
    cs = [] ∨ cs.getLast? = some sep := by
  induction cs with
  | nil => exact .inl rfl
  | cons c cs ih =>
    refine .inr ?_
    obtain ⟨piece, pieces, hs⟩ := List.exists_cons_of_ne_nil (split_ne_nil sep cs)
    rw [split, hs] at h
    rw [hs] at ih
    split at h
    · next hc =>
      -- The separator ends its piece, and the last piece is that of the rest.
      rcases ih (by simpa using h) with rfl | hlast
      · rw [hc, List.getLast?_singleton]
      · rw [List.getLast?_cons, hlast, Option.getD_some]
    · cases pieces with
      | nil => simp at h
      | cons piece' pieces =>
        rcases ih (by simpa using h) with rfl | hlast
        · simp [split] at hs
        · rw [List.getLast?_cons, hlast, Option.getD_some]

end Text

end FamicomDisk
