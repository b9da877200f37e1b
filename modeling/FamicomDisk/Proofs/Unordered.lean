import FamicomDisk.Proofs.Fidelity

/-!
Blocks in no particular order.

What a scan knows about the size of a block it takes from the first byte of it, and from the block
before. Both may mislead it: the type may not be that of any block, and the declared size may be
anything. But the declared size matters only behind zeros as long as a gap, so without such zeros
within a block the scan comes to the check of the block, whatever the types and sizes are.

* `not_marksAt_of_noGap`: within a block without a gap nothing looks like a mark.
* `scannable_of_noGap`: **blocks in any order are scanned to their ends**, by induction over the
  blocks.
* `reconstruct_ofBlocks`: the recovery gives back the layout of such blocks.
-/

namespace FamicomDisk

open Mfm

namespace Recovery

/-- The zeros at the end of bits are a run of zeros. -/
lemma zeroTail_suffix (bits : List Bool) :
    List.replicate (zeroTail bits) false <:+ bits := by
  have hlen := zeroTail_le bits
  refine ⟨bits.take (bits.length - zeroTail bits), ?_⟩
  have htake : (bits.take (bits.length - zeroTail bits)).length = bits.length - zeroTail bits := by
    rw [List.length_take]
    omega
  have hrun : bits.drop (bits.length - zeroTail bits)
      = List.replicate (bits.drop (bits.length - zeroTail bits)).length false := by
    refine @eq_replicate_of_getElem? _ _ (bits.take (bits.length - zeroTail bits)) _ ?_
    intro j hge hlt
    rw [List.take_append_drop] at hlt ⊢
    exact getElem?_of_zeroTail bits j (by omega) hlt
  rw [List.length_drop, Nat.sub_sub_self hlen] at hrun
  rw [← hrun, List.take_append_drop]

/-- A mark stands behind a gap, so there is none where there is no gap. -/
lemma not_marksAt_of_noGap {previous : Option Block} {bits : List Bool}
    (h : ¬ List.replicate minGap false <:+: bits) (j : Nat) : ¬ MarksAt {} previous bits j := by
  rintro ⟨-, hlong, -, -⟩
  have hmin : ({} : Thresholds).minGap = minGap := rfl
  have hle : minGap ≤ zeroTail (bits.take j) := by omega
  obtain ⟨n, hn⟩ := Nat.exists_eq_add_of_le' hle
  have hgap : List.replicate minGap false <:+ List.replicate (zeroTail (bits.take j)) false :=
    ⟨List.replicate n false, by rw [List.replicate_append_replicate, hn]⟩
  exact h ((hgap.trans (zeroTail_suffix _)).isInfix.trans (List.take_prefix j bits).isInfix)

/-- **Blocks in any order are scanned to their ends**, if their checks are right, none of them has
an early end, and none of them has a gap within. What was scanned before does not matter. -/
lemma scannable_of_noGap {rs : List Recorded} (hdata : ∀ r ∈ rs, r.block.data ≠ [])
    (hr : ∀ r ∈ rs, r.IsIntact) (hearly : ∀ r ∈ rs, ∀ k, ¬ r.EndsEarly k)
    (hgap : ∀ r ∈ rs, ¬ List.replicate minGap false <:+: Bits.ofBytes r.bytes)
    (scanned : Option Block) : Scannable False scanned rs := by
  induction rs generalizing scanned with
  | nil => trivial
  | cons r rs ih =>
      have hpos := List.length_pos_of_ne_nil (hdata r (by simp))
      refine ⟨?_, .inl (hr r (by simp)), fun k hk => absurd hk (hearly r (by simp) k),
        .inr fun j _ => not_marksAt_of_noGap (hgap r (by simp)) j, fun data _ =>
        ih (fun r' h => hdata r' (by simp [h])) (fun r' h => hr r' (by simp [h]))
          (fun r' h => hearly r' (by simp [h])) (fun r' h => hgap r' (by simp [h])) _⟩
      rw [r.length_bytes]
      omega

/-- Blocks of few bytes have no gap within. -/
lemma not_many_zeros {bytes : List UInt8} (h : bytes.length < 96) :
    ¬ List.replicate minGap false <:+: Bits.ofBytes bytes := by
  intro hzeros
  have hlen := hzeros.length_le
  have hmin : minGap = 768 := rfl
  rw [List.length_replicate, Bits.length_ofBytes] at hlen
  omega

/-- **The recovery does not depend on the standard order.** Of any blocks that are not empty, behind
any lead-in, the layout comes back, with one block for each of them at the offset of its mark, if
the first one begins as a disk header does, no block has an early end, and none has zeros as long as
a gap or more than nine hundred ones in a row. -/
theorem reconstruct_ofBlocks {side : Side} {leadIn : Nat} (hdata : ∀ b ∈ side.blocks, b.data ≠ [])
    (htitle : HasTitle side.blocks)
    (hearly : ∀ b ∈ side.blocks, ∀ k, ¬ (Recorded.ofBlock b).EndsEarly k)
    (hzeros : ∀ b ∈ side.blocks,
      ¬ List.replicate 768 false <:+: Bits.ofBytes (Recorded.ofBlock b).bytes)
    (hones : ∀ b ∈ side.blocks,
      ¬ List.replicate 901 true <:+: Bits.ofBytes (Recorded.ofBlock b).bytes) :
    (∀ room : Int, ((Layout.ofBlocks side.blocks).length : Int) ≤ room →
        Layout.frameIn room side = .ok (Layout.ofBlocks side.blocks))
      ∧ ((leadIn : Int) ≤ maxLength →
        ∃ pulses, modulateBytes (Layout.ofBlocks side.blocks) leadIn = .ok pulses)
      ∧ ∀ pulses, modulateBytes (Layout.ofBlocks side.blocks) leadIn = .ok pulses →
        ∃ rec, reconstruct pulses {} = .ok rec ∧ rec.layout = Layout.ofBlocks side.blocks
          ∧ rec.blocks.map Prod.fst
            = Recorded.offsetsFrom (·.framed.length) 0 (side.blocks.map Recorded.ofBlock) := by
  refine ⟨fun room hroom => frameIn_eq_ok_iff.mpr ⟨layoutOf_ofBlock _, hroom⟩,
    fun hmax => ⟨_, modulateBytes_eq hmax _⟩, ?_⟩
  intro pulses hpulses
  obtain rfl := modulate_eq_of_modulateBytes hpulses
  have hall : ∀ {P : Recorded → Prop}, (∀ b ∈ side.blocks, P (.ofBlock b)) →
      ∀ r ∈ side.blocks.map Recorded.ofBlock, P r := fun h r hr => by
    obtain ⟨b, hb, rfl⟩ := List.mem_map.mp hr
    exact h b hb
  have hscan := scannable_of_noGap (hall hdata) (hall fun b _ => Recorded.isIntact_ofBlock b)
    (hall hearly) (hall hzeros) none
  have hones' := @hall (fun r => ¬ List.replicate 901 true <:+: Bits.ofBytes r.bytes) hones
  rw [← Recorded.map_block_ofBlock side.blocks] at htitle
  have hsignature := Capture.headerSignature_prefix_surface htitle
  rw [← layoutOf_ofBlock]
  obtain ⟨r, rs, hrs, -⟩ := htitle.exists_cons
  rw [hrs] at hscan hsignature hones' ⊢
  obtain ⟨rec, ps, hrec, hmade, hrestores⟩ := reconstruct_layoutOf leadIn hsignature hscan
  have hexact := hrestores.exact_of_forall fun r hr bytes hwipe => hones' r hr hwipe.many_ones
  refine ⟨rec, hrec, ?_, ?_⟩
  · rw [hmade.layout_eq, joined, hexact.layout_eq]
    rfl
  · rw [hmade.blocks_eq, hexact.extents_eq]

/-- A header of a file of three hundred bytes, with a name of letters. -/
def misplacedHeader : Block :=
  ⟨[3, 0, 0, 0x41, 0x42, 0x43, 0x44, 0x45, 0x46, 0x47, 0x48, 0, 0x60, 0x2c, 1, 0]⟩

set_option maxRecDepth 20000 in
/-- A disk header, a file header in the place of the file count, a file that is shorter than this
declares, a block of no type, and another file count come back. -/
theorem reconstruct_ofBlocks_misplaced :
    ∃ pulses rec,
      modulateBytes (Layout.ofBlocks
          [emptyHeader, misplacedHeader, ⟨[4, 7]⟩, ⟨[9]⟩, ⟨[2, 1]⟩]) (0 : Nat) = .ok pulses
        ∧ reconstruct pulses {} = .ok rec
        ∧ rec.layout = Layout.ofBlocks
          [emptyHeader, misplacedHeader, ⟨[4, 7]⟩, ⟨[9]⟩, ⟨[2, 1]⟩]
        ∧ rec.blocks.map Prod.fst = [0, 180, 320, 446, 571] := by
  have hearly : ∀ b ∈ [emptyHeader, misplacedHeader, ⟨[4, 7]⟩, ⟨[9]⟩, ⟨[2, 1]⟩],
      ∀ k < (Recorded.ofBlock b).bytes.length, ¬ (Recorded.ofBlock b).EndsEarly k := by
    decide +kernel
  have hshort : ∀ b ∈ [emptyHeader, misplacedHeader, ⟨[4, 7]⟩, ⟨[9]⟩, ⟨[2, 1]⟩],
      (Recorded.ofBlock b).bytes.length < 96 := by decide
  obtain ⟨-, hsome, hread⟩ := @reconstruct_ofBlocks
    { blocks := [emptyHeader, misplacedHeader, ⟨[4, 7]⟩, ⟨[9]⟩, ⟨[2, 1]⟩] } 0 (by decide)
    ⟨_, rfl, List.prefix_append _ _⟩ (fun b hb k hk => hearly b hb k hk.2.1 hk)
    (fun b hb => not_many_zeros (hshort b hb))
    fun b hb => not_many_ones (Nat.le_trans (Nat.le_of_lt (hshort b hb)) (by decide))
  obtain ⟨pulses, hpulses⟩ := hsome (by decide)
  obtain ⟨rec, hrec, hlayout, hblocks⟩ := hread pulses hpulses
  exact ⟨pulses, rec, hpulses, hrec, hlayout, hblocks⟩

end Recovery

end FamicomDisk
