import FamicomDisk.Proofs.Surface

/-!
Where a search in a capture stops.

A search for the next mark goes through the pulses and counts the short ones. It stops behind the
first place at which a whole gap and its mark stand, whatever the other pulses are, and it finds
nothing only if there is no such place. The same is said of the search for a disk header.

* `exists_of_seek`, `exists_seek_le`: where a search stops a gap ends, and it goes past no gap end.
* `IsFirstGap`, `seekMark?_cases`: **the next mark is the first** at or behind the place from which
  it is looked for.
* `prefix_of_findHeader?`, `not_prefix_of_findHeader?`: the same for the first disk header.
-/

namespace FamicomDisk

namespace Capture

/-! ### The next mark -/

namespace Head

variable {least run offset : Nat} {ps : List Pulse} {h : Head}

lemma drop_replicate_cons {α : Type} (run i : Nat) (q p : α) (ps : List α) :
    (List.replicate run q ++ p :: ps).drop (run + 1 + i) = ps.drop i := by
  rw [Nat.add_assoc, ← List.drop_drop, List.drop_left' List.length_replicate, Nat.add_comm 1 i,
    List.drop_succ_cons]

/-- Where a search stops a gap ends. The short pulses that have passed before it began count. -/
lemma exists_of_seek (e : seek least run offset ps = some h) :
    ∃ i, (List.replicate least Pulse.short ++ [Pulse.medium])
          <+: (List.replicate run Pulse.short ++ ps).drop i
        ∧ h.offset + run = offset + i + least + 1
        ∧ h.rest = (List.replicate run Pulse.short ++ ps).drop (i + least + 1) := by
  -- a pulse that is no short one separates what follows it from what came before
  have hother : ∀ {run offset : Nat} {p : Pulse} {ps : List Pulse},
      (∃ i, (List.replicate least Pulse.short ++ [Pulse.medium])
            <+: (List.replicate 0 Pulse.short ++ ps).drop i
          ∧ h.offset + 0 = offset + 1 + i + least + 1
          ∧ h.rest = (List.replicate 0 Pulse.short ++ ps).drop (i + least + 1)) →
      ∃ i, (List.replicate least Pulse.short ++ [Pulse.medium])
            <+: (List.replicate run Pulse.short ++ p :: ps).drop i
          ∧ h.offset + run = offset + i + least + 1
          ∧ h.rest = (List.replicate run Pulse.short ++ p :: ps).drop (i + least + 1) := by
    rintro run offset p ps ⟨i, hgap, hoffset, hrest⟩
    refine ⟨run + 1 + i, ?_, by omega, ?_⟩
    · rw [drop_replicate_cons]
      exact hgap
    · rw [Nat.add_assoc, Nat.add_assoc (run + 1), drop_replicate_cons]
      exact hrest
  induction ps generalizing run offset with
  | nil => cases e
  | cons p ps ih =>
      cases p with
      | short =>
          obtain ⟨i, hgap, hoffset, hrest⟩ := ih e
          rw [List.replicate_succ', List.append_assoc] at hgap hrest
          exact ⟨i, hgap, by omega, hrest⟩
      | medium =>
          rw [seek] at e
          by_cases hle : least ≤ run
          · rw [if_pos hle] at e
            obtain rfl := Option.some.inj e
            refine ⟨run - least, ?_, by simp only; omega, ?_⟩
            · rw [List.drop_append_of_le_length (by simp), List.drop_replicate,
                show run - (run - least) = least by omega]
              exact ⟨ps, by simp⟩
            · rw [show run - least + least + 1 = run + 1 + 0 by omega, drop_replicate_cons]
              rfl
          · rw [if_neg hle] at e
            exact hother (ih e)
      | long | glitch | unknown => exact hother (ih e)

/-- A search goes past no gap end. -/
lemma exists_seek_le (least run offset : Nat) (before rest : List Pulse) :
    ∃ h, seek least run offset (before ++ (List.replicate least .short ++ .medium :: rest)) = some h
      ∧ h.offset ≤ offset + before.length + least + 1 := by
  induction before generalizing run offset with
  | nil =>
      rw [List.nil_append, seek_shorts, seek, if_pos (by omega)]
      exact ⟨_, rfl, by simp⟩
  | cons p before ih =>
      have hnext : ∀ run, ∃ h, seek least run (offset + 1)
            (before ++ (List.replicate least .short ++ .medium :: rest)) = some h
          ∧ h.offset ≤ offset + (p :: before).length + least + 1 := by
        intro run
        obtain ⟨h, hseek, hle⟩ := ih run (offset + 1)
        exact ⟨h, hseek, by rw [List.length_cons]; omega⟩
      rw [List.cons_append]
      cases p with
      | short => exact hnext (run + 1)
      | medium =>
          rw [seek]
          by_cases hle : least ≤ run
          · rw [if_pos hle]
            exact ⟨_, rfl, by simp only [List.length_cons]; omega⟩
          · rw [if_neg hle]
            exact hnext 0
      | long | glitch | unknown => exact hnext 0

end Head

/-- Of the gaps that begin at `start` or behind it, the first one that is whole and has its mark
begins at `pos`. -/
structure IsFirstGap (pulses : List Pulse) (start pos : Nat) : Prop where
  le : start ≤ pos
  gap : gapEnd <+: pulses.drop pos
  first : ∀ p, start ≤ p → p < pos → ¬ gapEnd <+: pulses.drop p

/-- A search goes past no gap end, from the place on where it begins. -/
lemma exists_seekMark?_le {pulses : List Pulse} {start pos : Nat} (hle : start ≤ pos)
    (hgap : gapEnd <+: pulses.drop pos) :
    ∃ h, (Head.ofOffset pulses start).seekMark? minGap = some h ∧ h.offset ≤ pos + minGap + 1 := by
  obtain ⟨rest, hrest⟩ := hgap
  have hlen : ((pulses.drop start).take (pos - start)).length ≤ pos - start :=
    List.length_take_le _ _
  have hsplit : pulses.drop start = (pulses.drop start).take (pos - start)
      ++ (List.replicate minGap .short ++ .medium :: rest) := by
    have hdrop : pulses.drop pos = List.replicate minGap .short ++ .medium :: rest := by
      rw [← hrest, gapEnd, List.append_assoc]
      rfl
    rw [← hdrop, show pulses.drop pos = (pulses.drop start).drop (pos - start) by
      rw [List.drop_drop, Nat.add_sub_cancel' hle], List.take_append_drop]
  obtain ⟨h, hseek, hoffset⟩ := Head.exists_seek_le minGap 0 start
    ((pulses.drop start).take (pos - start)) rest
  refine ⟨h, ?_, by omega⟩
  rw [Head.seekMark?, Head.ofOffset, hsplit]
  exact hseek

/-- **The next mark is the first** at or behind the place from which it is looked for. -/
lemma seekMark?_cases (pulses : List Pulse) (start : Nat) :
    ((Head.ofOffset pulses start).seekMark? minGap = none
        ∧ ∀ pos, start ≤ pos → ¬ gapEnd <+: pulses.drop pos)
      ∨ ∃ pos, IsFirstGap pulses start pos
        ∧ (Head.ofOffset pulses start).seekMark? minGap
          = some (.ofOffset pulses (pos + minGap + 1)) := by
  cases hseek : (Head.ofOffset pulses start).seekMark? minGap with
  | none =>
      refine .inl ⟨rfl, ?_⟩
      intro pos hle hgap
      obtain ⟨h, hsome, -⟩ := exists_seekMark?_le hle hgap
      cases hseek.symm.trans hsome
  | some h =>
      obtain ⟨i, hgap, hoffset, hrest⟩ := Head.exists_of_seek hseek
      simp only [Head.ofOffset, List.replicate_zero, List.nil_append, List.drop_drop] at hgap hrest
      simp only [Head.ofOffset] at hoffset
      refine .inr ⟨start + i, ⟨Nat.le_add_right _ _, hgap, ?_⟩, ?_⟩
      · intro p hle hlt hp
        obtain ⟨h', hsome, hbefore⟩ := exists_seekMark?_le hle hp
        obtain rfl := Option.some.inj (hseek.symm.trans hsome)
        omega
      · obtain ⟨offset, rest⟩ := h
        simp only at hoffset hrest
        rw [hrest, Head.ofOffset, show offset = start + i + minGap + 1 by omega, Nat.add_assoc,
          Nat.add_assoc, Nat.add_assoc]

lemma IsFirstGap.unique {pulses : List Pulse} {start pos pos' : Nat}
    (h : IsFirstGap pulses start pos) (h' : IsFirstGap pulses start pos') : pos = pos' := by
  rcases Nat.lt_trichotomy pos pos' with hlt | heq | hlt
  · exact absurd h.gap (h'.first pos h.le hlt)
  · exact heq
  · exact absurd h'.gap (h.first pos' h'.le hlt)

/-- The first gap is where the next mark is found. -/
lemma IsFirstGap.seekMark?_eq {pulses : List Pulse} {start pos : Nat}
    (h : IsFirstGap pulses start pos) :
    (Head.ofOffset pulses start).seekMark? minGap = some (.ofOffset pulses (pos + minGap + 1)) := by
  rcases seekMark?_cases pulses start with ⟨-, hnone⟩ | ⟨pos', h', hseek⟩
  · exact absurd h.gap (hnone pos h.le)
  · rwa [h'.unique h] at hseek

/-! ### The first disk header -/

/-- Where a pattern is found, it stands. -/
lemma exists_of_firstOccurrence? {pattern ps : List Pulse} {offset pos : Nat}
    (e : firstOccurrence? pattern offset ps = some pos) :
    ∃ i, pos = offset + i ∧ pattern <+: ps.drop i := by
  induction ps generalizing offset with
  | nil =>
      rw [firstOccurrence?] at e
      split at e
      · next hnil =>
        obtain rfl := List.isEmpty_iff.mp hnil
        exact ⟨0, (Option.some.inj e).symm, List.nil_prefix⟩
      · cases e
  | cons p ps ih =>
      rw [firstOccurrence?] at e
      split at e
      · next hpre => exact ⟨0, (Option.some.inj e).symm, List.isPrefixOf_iff_prefix.mp hpre⟩
      · obtain ⟨i, rfl, hpre⟩ := ih e
        exact ⟨i + 1, by omega, hpre⟩

/-- A pattern that is not found stands nowhere. -/
lemma not_prefix_of_firstOccurrence? {pattern ps : List Pulse} {offset : Nat}
    (e : firstOccurrence? pattern offset ps = none) (i : Nat) : ¬ pattern <+: ps.drop i := by
  induction ps generalizing offset i with
  | nil =>
      rw [firstOccurrence?] at e
      intro hpre
      rw [List.drop_nil, List.prefix_nil] at hpre
      rw [hpre] at e
      cases e
  | cons p ps ih =>
      rw [firstOccurrence?] at e
      split at e
      · cases e
      · next hpre =>
        cases i with
        | zero => exact fun h => hpre (List.isPrefixOf_iff_prefix.mpr h)
        | succ i => exact ih e i

/-- A pattern stands in the first pulses of a capture. -/
lemma prefix_drop_take_iff {pattern pulses : List Pulse} {bound i : Nat} (hne : pattern ≠ []) :
    pattern <+: (pulses.take bound).drop i
      ↔ pattern <+: pulses.drop i ∧ i + pattern.length ≤ bound := by
  have hpos := List.length_pos_iff.mpr hne
  rw [List.drop_take, List.prefix_take_iff]
  constructor
  · exact fun h => ⟨h.1, by omega⟩
  · exact fun h => ⟨h.1, by omega⟩

lemma headerSignature_ne_nil : headerSignature ≠ [] := List.cons_ne_nil _ _

/-- Where the disk header is found, its signature stands. -/
lemma prefix_of_findHeader? {bound pos : Nat} {pulses : List Pulse}
    (e : findHeader? bound pulses = some pos) :
    headerSignature <+: pulses.drop pos ∧ pos + headerSignature.length ≤ bound := by
  obtain ⟨i, rfl, hpre⟩ := exists_of_firstOccurrence? e
  rw [Nat.zero_add]
  exact (prefix_drop_take_iff headerSignature_ne_nil).mp hpre

/-- When no disk header is found, its signature stands nowhere in the window. -/
lemma not_prefix_of_findHeader? {bound pos : Nat} {pulses : List Pulse}
    (e : findHeader? bound pulses = none) (hpos : pos + headerSignature.length ≤ bound) :
    ¬ headerSignature <+: pulses.drop pos := fun h =>
  not_prefix_of_firstOccurrence? e pos ((prefix_drop_take_iff headerSignature_ne_nil).mpr ⟨h, hpos⟩)

end Capture

end FamicomDisk
