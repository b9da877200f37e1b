import FamicomDisk.Image.Basic
import FamicomDisk.Proofs.Assembling
import FamicomDisk.Proofs.Verifying
import FamicomDisk.Proofs.Walking

/-!
Recovered layouts without a fault.

The recovery and the walker check a layout each on its own: the one when it comes to the next mark,
the other block by block, and they remember different things of the block before. Where the first
finds nothing wrong, the pieces of the layout are blocks in the standard order with their right
checks, so the second reads all of them and finds nothing wrong either.

* `placed_of_verifyPieces`: pieces without a fault are blocks in order, by induction over them.
* `walk_of_diagnostics_nil`: **a recovered layout without a fault is read in full.**
-/

namespace FamicomDisk

namespace Recovery

open Mfm

/-- **Pieces without a fault** are blocks in the standard order, with their right checks and nothing
but zeros around them. -/
lemma placed_of_verifyPieces {th : Thresholds} {previous : Option Block} {t : BlockType}
    {offset : Nat} {ps : List Piece} (he : Expects previous t)
    (h : verifyPieces th previous offset ps = []) :
    ∃ found, Placed offset found (ps.flatMap Piece.bytes)
      ∧ found.map Prod.fst = (extents offset ps).map Prod.fst
      ∧ (∀ p ∈ found, p.2.IsIntact)
      ∧ InOrder t previous (found.map fun p => p.2.block) := by
  induction ps generalizing previous t offset with
  | nil => exact ⟨[], .zeros offset 0, rfl, by simp, trivial⟩
  | cons p ps ih =>
      rw [verifyPieces, List.append_eq_nil_iff] at h
      obtain ⟨r, zeros, hpayload, hr, ht, hs⟩ := exists_recorded_of_verifyBlock he h.1
      have hnext := next_recorded ht hs (List.replicate zeros 0)
      rw [← hpayload] at hnext
      obtain ⟨found, hplaced, hoffsets, hintact, horder⟩ := ih (hnext []).1 h.2
      refine ⟨(offset, r) :: found, ?_, ?_, ?_, ht, hs, ?_⟩
      · rw [List.flatMap_cons, Piece.bytes, hpayload, List.cons_append, List.append_assoc]
        refine Placed.block (n := 0) (Placed.zeros_append (n := zeros) ?_)
        rw [Piece.bytes, hpayload, List.length_cons, List.length_append, List.length_replicate]
          at hplaced
        rwa [show offset + 0 + 1 + r.bytes.length + zeros
          = offset + (r.bytes.length + zeros + 1) by omega]
      · rw [List.map_cons, hoffsets]
        rfl
      · simpa [hr] using hintact
      · exact (hnext _).2.mp horder

/-- **A recovered layout without a fault is read in full**: every block that the recovery counts is
a block with its right check behind a mark at the offset that the recovery gives, and only zeros
stand elsewhere; the walker finds these blocks and no fault. So an image that takes its faults from
the recovery hides none. -/
theorem walk_of_diagnostics_nil {pulses : List Pulse} {start : Int} {marks : Marks}
    {th : Thresholds} {rec : Recovered} (h : assemble pulses start marks th = .ok rec)
    (hnil : rec.diagnostics = []) :
    ∃ found side, Placed 0 found rec.layout
      ∧ found.map Prod.fst = rec.blocks.map Prod.fst
      ∧ (∀ p ∈ found, p.2.IsIntact)
      ∧ Layout.walk rec.layout = .ok side
      ∧ side.blocks = found.map (fun p => p.2.block)
      ∧ side.blocks.length = rec.blocks.length
      ∧ side.diagnostics = []
      ∧ ∀ (i : Image) (raw : List UInt8) (th' : Thresholds), ofRaw raw th' = .ok rec →
          i.loadRecovered raw th' = .ok { i with sides := [side], recovered := some rec } := by
  obtain ⟨lead, ps, hlayout, hblocks, hfaults⟩ := assemble_pieces h
  rw [hfaults] at hnil
  obtain ⟨found, hplaced, hoffsets, hintact, horder⟩ := placed_of_verifyPieces .first hnil
  have hwhole : Placed 0 found rec.layout := by
    rw [hlayout, joined]
    refine Placed.zeros_append ?_
    rwa [Nat.zero_add]
  have hnone : (found.filterMap fun p => p.2.fault? p.1) = [] := by
    rw [List.filterMap_eq_nil_iff]
    intro p hp
    rw [Recorded.fault?, if_pos (hintact p hp)]
  have hwalk := Layout.walk_placed none hwhole horder
  rw [hnone] at hwalk
  refine ⟨found, _, hwhole, hblocks ▸ hoffsets, hintact, hwalk, rfl, ?_, rfl, ?_⟩
  · have hlen := congrArg List.length hoffsets
    rw [List.length_map, List.length_map] at hlen
    rw [hblocks, List.length_map, hlen]
  · intro i raw th' hraw
    rw [Image.loadRecovered, hraw]
    have hempty : rec.diagnostics = [] := hfaults.trans hnil
    simp [bind, Except.bind, hwalk, hempty, pure, Except.pure]

set_option maxRecDepth 20000 in
/-- A disk header whose end is marked is recovered without a fault, and read. -/
theorem walk_of_diagnostics_nil_emptyHeader :
    ∃ rec side, assemble (modulate (Bits.ofBytes (Recorded.ofBlock emptyHeader).framed)) 7
          (.ofList [(455 : Int)]) {} = .ok rec
      ∧ rec.blocks = [(0, 59)]
      ∧ Layout.walk rec.layout = .ok side ∧ side.blocks.length = 1 ∧ side.diagnostics = [] := by
  have hrec : (assemble (modulate (Bits.ofBytes (Recorded.ofBlock emptyHeader).framed)) 7
      (.ofList [(455 : Int)]) {}).toOption.map (fun r => (r.blocks, r.diagnostics))
        = some ([(0, 59)], []) := by decide +kernel
  obtain ⟨rec, h, hparts⟩ := exists_recovered_of_map hrec
  rw [Prod.mk.injEq] at hparts
  obtain ⟨hblocks, hnil⟩ := hparts
  obtain ⟨found, side, -, -, -, hwalk, -, hlen, hnone, -⟩ := walk_of_diagnostics_nil h hnil
  exact ⟨rec, side, h, hblocks, hwalk, by rw [hlen, hblocks]; rfl, hnone⟩

end Recovery

end FamicomDisk
