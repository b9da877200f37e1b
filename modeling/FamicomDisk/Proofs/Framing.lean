import FamicomDisk.Proofs.Walking

/-!
Framed blocks, walked back.

The layout of recorded blocks is a byte string in which they are placed, each at the sum of the
lengths of those before it, so the walker reads them back from it, whatever the stored checks are
and however many zeros stand around the layout.

* `walk_layoutOf`: what the walker makes of a layout with zeros around it.
* `walk_zeros_layoutOf_zeros`: **walking inverts framing**, for every first part of a standard side,
  and tells each check that is not right by the offset of its mark.
-/

namespace FamicomDisk

/-! ### Layouts -/

/-- Recorded blocks are placed in their layout, with any number of zeros behind it. -/
lemma exists_placed_layoutOf (offset behind : Nat) (rs : List Recorded) :
    ∃ found, Placed offset found (layoutOf rs ++ List.replicate behind 0)
      ∧ found.map Prod.snd = rs
      ∧ (found.filterMap fun p => p.2.fault? p.1)
        = Recorded.faultsFrom (·.framed.length) offset rs := by
  induction rs generalizing offset with
  | nil => exact ⟨[], .zeros offset behind, rfl, rfl⟩
  | cons r rs ih =>
      obtain ⟨found, hplaced, hblocks, hfaults⟩ := ih (offset + r.framed.length)
      refine ⟨(offset, r) :: found, ?_, by rw [List.map_cons, hblocks], ?_⟩
      · have hsplit : layoutOf (r :: rs) ++ List.replicate behind 0
            = List.replicate 0 0 ++ gapEndMark :: (r.bytes
              ++ (List.replicate Layout.gap 0 ++ (layoutOf rs ++ List.replicate behind 0))) := by
          simp [Recorded.framed]
        have hnext : offset + r.framed.length
            = offset + 0 + 1 + r.bytes.length + Layout.gap := by
          rw [r.length_framed, r.length_bytes, Layout.gap]
          omega
        have hblock : Placed offset ((offset + 0, r) :: found) _ :=
          .block (n := 0) (.zeros_append (hnext ▸ hplaced))
        rw [hsplit]
        exact hblock
      · rw [Recorded.faultsFrom, ← hfaults]
        cases hr : r.fault? offset <;> simp [hr]

namespace Layout

/-- What the walker makes of a layout with zeros around it. -/
lemma walk_layoutOf (before behind : Nat) (leadIn : Option Int) {rs : List Recorded}
    (horder : InOrder .diskHeader none (rs.map Recorded.block)) :
    walk (List.replicate before 0 ++ layoutOf rs ++ List.replicate behind 0) leadIn
      = .ok { blocks := rs.map Recorded.block
              leadIn
              layout := some (List.replicate before 0 ++ layoutOf rs ++ List.replicate behind 0)
              diagnostics := Recorded.faultsFrom (·.framed.length) before rs } := by
  obtain ⟨found, hplaced, rfl, hfaults⟩ := exists_placed_layoutOf before behind rs
  rw [List.map_map] at horder
  have hwhole : Placed 0 found (List.replicate before 0
      ++ (layoutOf (found.map Prod.snd) ++ List.replicate behind 0)) := by
    refine .zeros_append ?_
    rwa [Nat.zero_add]
  rw [List.append_assoc, walk_placed leadIn hwhole horder, hfaults, List.map_map]
  rfl

/-- In the layout of a side the walker finds its blocks, without a fault. -/
lemma walk_ofBlocks (behind : Nat) (leadIn : Option Int) {blocks : List Block}
    (horder : InOrder .diskHeader none blocks) :
    walk (ofBlocks blocks ++ List.replicate behind 0) leadIn
      = .ok { blocks, leadIn, layout := some (ofBlocks blocks ++ List.replicate behind 0) } := by
  have horder' : InOrder .diskHeader none ((blocks.map Recorded.ofBlock).map Recorded.block) := by
    rwa [Recorded.map_block_ofBlock]
  have hwalk := walk_layoutOf 0 behind leadIn horder'
  rwa [List.replicate_zero, List.nil_append, Recorded.map_block_ofBlock,
    Recorded.faultsFrom_ofBlock, layoutOf_ofBlock] at hwalk

/-- **Walking inverts framing**: from the layout of a first part of a standard side, with any number
of zeros before and behind it, the walker reads just these blocks, and it reports the checks that
are not right, in order, at the offsets of the marks. Of the layout that a side is given with its
right checks nothing is reported. -/
theorem walk_zeros_layoutOf_zeros (rs : List Recorded) (before behind : Nat) (leadIn : Option Int)
    (hstandard : ∃ whole, IsStandard whole ∧ rs.map Recorded.block <+: whole) :
    walk (List.replicate before 0 ++ layoutOf rs ++ List.replicate behind 0) leadIn
        = .ok { blocks := rs.map Recorded.block
                leadIn
                layout := some (List.replicate before 0 ++ layoutOf rs ++ List.replicate behind 0)
                diagnostics := Recorded.faultsFrom (·.framed.length) before rs }
      ∧ ∀ (room : Int) (side : Side) (layout : List UInt8), frameIn room side = .ok layout →
        side.blocks.map Recorded.ofBlock = rs →
          layout = layoutOf rs ∧ Recorded.faultsFrom (·.framed.length) before rs = [] := by
  obtain ⟨whole, hwhole, hprefix⟩ := hstandard
  refine ⟨walk_layoutOf before behind leadIn (hwhole.inOrder.of_prefix hprefix), ?_⟩
  rintro room side layout hframe rfl
  exact ⟨(frameIn_eq_ok_iff.mp hframe).1.symm, Recorded.faultsFrom_ofBlock _ before side.blocks⟩

/-- A side with a file whose last check was lost, with five zeros before it and seven behind it. -/
theorem walk_zeros_layoutOf_zeros_lostCheck :
    walk (List.replicate 5 0 ++ layoutOf lostCheck ++ List.replicate 7 0) none
      = .ok { blocks := oneFile
              layout := some (List.replicate 5 0 ++ layoutOf lostCheck ++ List.replicate 7 0)
              diagnostics := [.badCheck 451 0 2186] } := by
  have hwalk := (walk_zeros_layoutOf_zeros lostCheck 5 7 none
    ⟨oneFile, isStandard_oneFile, List.prefix_rfl⟩).1
  simp only [Recorded.faultsFrom_lostCheck, Recorded.length_framed] at hwalk
  exact hwalk

end Layout

end FamicomDisk
