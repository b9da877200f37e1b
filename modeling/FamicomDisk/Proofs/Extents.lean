import FamicomDisk.Proofs.NoisyRecovery
import FamicomDisk.Proofs.Transitions

/-!
The extents of recovered blocks.

The scan of a block ends with the pulse that carries the last bit of its check. If the check ends
in a one and a zero, this pulse carries the first zero of the gap as well, so the assembly takes one
bit too many for the block and fills it up to a whole byte. The layout is right all the same, since
what was filled up is left out of the gap, but the block is told to be one byte longer than it is.

* `Recorded.overhang_ofBlock`: a bit hangs over exactly when the top two bits of the check are 01.
* `Noisy.bits_quieted`: a block with zeros in its gap is a block with noise, too.
* `reconstruct_extents`: **the extents of the blocks** of a standard side, and when they are right.
-/

namespace FamicomDisk

open Mfm

namespace Recorded

/-! ### The bit that hangs over -/

/-- The last two bits of a byte are its top ones. -/
lemma suffix_ofByte_iff (b : UInt8) (bits : List Bool) :
    [true, false] <:+ bits ++ Bits.ofByte b ↔ b.toNat / 64 = 1 := by
  have htop : ∀ n : Fin 256, (true = (UInt8.ofNat n &&& 64 != 0)
      ∧ false = (UInt8.ofNat n &&& 128 != 0)) ↔ (UInt8.ofNat n).toNat / 64 = 1 := by
    decide +kernel
  have hbyte := htop ⟨b.toNat, b.toNat_lt⟩
  rw [UInt8.ofNat_toNat] at hbyte
  have hsplit : bits ++ Bits.ofByte b
      = (bits ++ [b &&& 1 != 0, b &&& 2 != 0, b &&& 4 != 0, b &&& 8 != 0, b &&& 16 != 0,
          b &&& 32 != 0] ++ [b &&& 64 != 0]) ++ [b &&& 128 != 0] := by
    simp [Bits.ofByte]
  rw [hsplit, show [true, false] = [true] ++ [false] from rfl, concat_suffix_concat,
    show [true] = [] ++ [true] from rfl, concat_suffix_concat, ← hbyte]
  simp [and_comm]

/-- The byte by which a block is told to be too long: there is one if the top two bits of its check
are 01. -/
def surplus (b : Block) : Nat := if (Crc.of b.data).toNat / 2 ^ 14 = 1 then 1 else 0

/-- **A bit hangs over** exactly when the top two bits of the check are 01. -/
lemma overhang_ofBlock (b : Block) : (ofBlock b).overhang = surplus b := by
  have hlt : (Crc.of b.data).toNat < 65536 := (Crc.of b.data).isLt
  have hhigh : (ofBlock b).high.toNat = (Crc.of b.data).toNat / 256 :=
    UInt8.toNat_ofNat_of_lt' (show (Crc.of b.data).toNat / 256 < 256 by omega)
  have hbits : true :: Bits.ofBytes (ofBlock b).bytes
      = (true :: Bits.ofBytes (b.data ++ [(ofBlock b).low])) ++ Bits.ofByte (ofBlock b).high := by
    rw [bytes, List.append_cons, Bits.ofBytes_append, Bits.ofBytes_cons (ofBlock b).high]
    simp [ofBlock]
  have hpending : modulator.final .one (Bits.ofBytes (ofBlock b).bytes) = .zeroAfterOne
      ↔ (Crc.of b.data).toNat / 2 ^ 14 = 1 := by
    have hiff := final_eq_zeroAfterOne_iff (true :: Bits.ofBytes (ofBlock b).bytes)
    rw [hbits, suffix_ofByte_iff, ← hbits, hhigh, Machine.final_cons] at hiff
    rw [show (Crc.of b.data).toNat / 2 ^ 14 = (Crc.of b.data).toNat / 256 / 64 by omega]
    exact hiff
  rw [overhang, surplus]
  by_cases htop : (Crc.of b.data).toNat / 2 ^ 14 = 1
  · rw [if_pos htop, hpending.mpr htop]
    rfl
  · rw [if_neg htop, Phase.pending_of_ne (mt hpending.mp htop)]
    rfl

/-- Extents are the same when the lengths of all blocks are. -/
lemma extentsFrom_eq_iff {length length' : Recorded → Nat} {offset : Nat} {rs : List Recorded} :
    extentsFrom length offset rs = extentsFrom length' offset rs
      ↔ ∀ r ∈ rs, length r = length' r := by
  induction rs generalizing offset with
  | nil => simp [extentsFrom]
  | cons r rs ih =>
      rw [extentsFrom, extentsFrom, List.cons.injEq, ih, Prod.mk.injEq, List.forall_mem_cons]
      exact and_congr_left' ⟨fun h => h.2, fun h => ⟨rfl, h⟩⟩

end Recorded

namespace Noisy

/-! ### Blocks without noise -/

/-- A block with nothing but zeros in its gap. -/
def quieted (r : Recorded) : Noisy := ⟨r, List.replicate 174 false, List.length_replicate⟩

lemma bits_quieted (r : Recorded) : (quieted r).bits = Bits.ofBytes r.framed := by
  have hzeros : (quieted r).front ++ List.replicate quiet false
      = List.replicate lastZeros false := by
    have hsum : 16 + 174 + quiet = lastZeros := rfl
    rw [front, quieted, List.replicate_append_replicate, List.replicate_append_replicate, hsum]
  rw [bits_eq, ofBytes_framed, behind, hzeros, Recorded.bits]
  rfl

/-- A layout is that of blocks without noise. -/
lemma flatMap_bits_quieted (rs : List Recorded) :
    (rs.map quieted).flatMap Noisy.bits = Bits.ofBytes (layoutOf rs) := by
  rw [List.flatMap_map, layoutOf, Bits.ofBytes, List.flatMap_assoc]
  exact congrArg (rs.flatMap ·) (funext bits_quieted)

end Noisy

namespace Recovery

/-! ### The extents of the blocks -/

/-- Of plain blocks the extents are told from the marks on, with a byte too much where a bit hangs
over. -/
lemma exists_reconstruct_extents {blocks : List Block} (leadIn : Nat)
    (hstandard : IsStandard blocks) (htitle : HasTitle blocks)
    (hearly : ∀ b ∈ blocks, ∀ k, ¬ (Recorded.ofBlock b).EndsEarly k)
    (hones : ∀ b ∈ blocks,
      ¬ List.replicate 901 true <:+: Bits.ofBytes (Recorded.ofBlock b).bytes) :
    ∃ rec, reconstruct (modulate (List.replicate leadIn false
        ++ Bits.ofBytes (layoutOf (blocks.map .ofBlock)))) {} = .ok rec
      ∧ rec.layout = layoutOf (blocks.map .ofBlock) ∧ rec.diagnostics = []
      ∧ rec.blocks = Recorded.extentsFrom
        (fun r => 1 + r.block.data.length + 2 + Recorded.surplus r.block) 0
        (blocks.map .ofBlock) := by
  have hrecorded : ((blocks.map Recorded.ofBlock).map Noisy.quieted).map Noisy.recorded
      = blocks.map .ofBlock := by
    rw [List.map_map]
    exact List.map_id _
  have hplain : ∀ b ∈ (blocks.map Recorded.ofBlock).map Noisy.quieted, IsPlain b.recorded := by
    rw [List.forall_mem_map, List.forall_mem_map]
    exact fun b hb => ⟨Recorded.isIntact_ofBlock b, hearly b hb, hones b hb⟩
  obtain ⟨rec, hrec, hlayout, hblocks, hfaults⟩ :=
    @reconstruct_noisy ((blocks.map Recorded.ofBlock).map Noisy.quieted) leadIn
      (by rwa [hrecorded, Recorded.map_block_ofBlock])
      (by rwa [hrecorded, Recorded.map_block_ofBlock]) hplain
  rw [Noisy.flatMap_bits_quieted] at hrec
  rw [hrecorded] at hlayout hblocks
  refine ⟨rec, hrec, hlayout, hfaults, hblocks.trans (Recorded.extentsFrom_eq_iff.mpr ?_)⟩
  rw [List.forall_mem_map]
  intro b _
  rw [Recorded.length_bytes, Recorded.overhang_ofBlock]
  change 1 + (b.data.length + 2) + Recorded.surplus b = 1 + b.data.length + 2 + Recorded.surplus b
  omega

/-- **The extents of the blocks.** The capture of every standard side that fits into a slot, behind
any lead-in, is recovered exactly, if no block has an early end or more than nine hundred ones in a
row. Each block is told from its mark to the end of its check, with one byte too much if the top
two bits of the check are 01. So the extents are right exactly when no block has such a check. -/
theorem reconstruct_extents {side : Side} {layout : List UInt8} {leadIn : Nat}
    (hstandard : IsStandard side.blocks) (htitle : HasTitle side.blocks)
    (hframe : Layout.frame side = .ok layout)
    (hearly : ∀ b ∈ side.blocks, ∀ k, ¬ (Recorded.ofBlock b).EndsEarly k)
    (hones : ∀ b ∈ side.blocks,
      ¬ List.replicate 901 true <:+: Bits.ofBytes (Recorded.ofBlock b).bytes) :
    ((leadIn : Int) ≤ maxLength → ∃ pulses, modulateBytes layout leadIn = .ok pulses)
      ∧ ∀ pulses, modulateBytes layout leadIn = .ok pulses →
        ∃ rec, reconstruct pulses {} = .ok rec ∧ rec.layout = layout ∧ rec.diagnostics = []
          ∧ rec.blocks = Recorded.extentsFrom
            (fun r => 1 + r.block.data.length + 2 + Recorded.surplus r.block) 0
            (side.blocks.map .ofBlock)
          ∧ (rec.blocks = Recorded.extentsFrom (fun r => 1 + r.block.data.length + 2) 0
              (side.blocks.map .ofBlock)
            ↔ ∀ b ∈ side.blocks, (Crc.of b.data).toNat / 2 ^ 14 ≠ 1) := by
  refine ⟨fun hmax => ⟨_, modulateBytes_eq hmax _⟩, ?_⟩
  intro pulses hpulses
  obtain rfl := modulate_eq_of_modulateBytes hpulses
  obtain ⟨rfl, -⟩ := frame_eq_ok_iff.mp hframe
  obtain ⟨rec, hrec, hlayout, hfaults, hblocks⟩ :=
    exists_reconstruct_extents leadIn hstandard htitle hearly hones
  refine ⟨rec, hrec, hlayout, hfaults, hblocks, ?_⟩
  rw [hblocks, Recorded.extentsFrom_eq_iff, List.forall_mem_map]
  refine forall₂_congr fun b _ => ?_
  change _ + Recorded.surplus b = _ ↔ _
  rw [Nat.add_eq_left, Recorded.surplus]
  by_cases htop : (Crc.of b.data).toNat / 2 ^ 14 = 1
  · rw [if_pos htop]
    exact ⟨fun h => absurd h Nat.one_ne_zero, fun h => absurd htop h⟩
  · rw [if_neg htop]
    exact ⟨fun _ => htop, fun _ => rfl⟩

set_option maxRecDepth 20000 in
/-- The checks of a side with one file have other top bits, and its blocks are told as they are. -/
theorem reconstruct_extents_oneFile : ∃ pulses rec,
    modulateBytes (layoutOf (oneFile.map .ofBlock)) (0 : Nat) = .ok pulses
      ∧ reconstruct pulses {} = .ok rec ∧ rec.diagnostics = []
      ∧ rec.blocks = [(0, 59), (180, 5), (306, 19), (446, 5)] := by
  obtain ⟨hsome, hread⟩ := @reconstruct_extents { blocks := oneFile } _ 0
    isStandard_oneFile hasTitle_oneFile frame_oneFile
    (fun b hb => (isPlain_oneFile b hb).not_endsEarly) fun b hb => (isPlain_oneFile b hb).few_ones
  obtain ⟨pulses, hpulses⟩ := hsome (by decide)
  obtain ⟨rec, hrec, -, hfaults, -, htrue⟩ := hread pulses hpulses
  exact ⟨pulses, rec, hpulses, hrec, hfaults, htrue.mpr (by decide +kernel)⟩

set_option maxRecDepth 20000 in
/-- A side with one file is recovered with its four blocks. -/
lemma exists_reconstruct_oneFile (leadIn : Nat) :
    ∃ rec, reconstruct (modulate (List.replicate leadIn false
        ++ Bits.ofBytes (layoutOf (oneFile.map .ofBlock)))) {} = .ok rec
      ∧ rec.blocks = [(0, 59), (180, 5), (306, 19), (446, 5)] := by
  obtain ⟨rec, hrec, -, -, hblocks⟩ :=
    exists_reconstruct_extents leadIn isStandard_oneFile hasTitle_oneFile
      (fun b hb => (isPlain_oneFile b hb).not_endsEarly) fun b hb => (isPlain_oneFile b hb).few_ones
  exact ⟨rec, hrec, hblocks.trans (by decide +kernel)⟩

/-- A side without files that tells of four, whose second check is 7978. -/
def fourFiles : List Block := [emptyHeader, ⟨[2, 4]⟩]

set_option maxRecDepth 20000 in
/-- The second block of a side is told to be one byte longer than it is. -/
theorem not_forall_extents : ¬ ∀ (side : Side) (layout : List UInt8) (leadIn : Nat)
    (pulses : List Pulse) (rec : Recovered), IsStandard side.blocks → HasTitle side.blocks →
    Layout.frame side = .ok layout →
    (∀ b ∈ side.blocks, ∀ k, ¬ (Recorded.ofBlock b).EndsEarly k) →
    (∀ b ∈ side.blocks,
      ¬ List.replicate 901 true <:+: Bits.ofBytes (Recorded.ofBlock b).bytes) →
    modulateBytes layout leadIn = .ok pulses → reconstruct pulses {} = .ok rec →
    rec.blocks = Recorded.extentsFrom (fun r => 1 + r.block.data.length + 2) 0
      (side.blocks.map .ofBlock) := by
  intro h
  have hstandard : IsStandard fourFiles := .side rfl rfl rfl rfl .nil
  have htitle : HasTitle fourFiles := ⟨emptyHeader, rfl, List.prefix_append _ _⟩
  have hearly : ∀ b ∈ fourFiles, ∀ k, ¬ (Recorded.ofBlock b).EndsEarly k := by decide +kernel
  have hshort : ∀ b ∈ fourFiles, (Recorded.ofBlock b).bytes.length ≤ 112 := by decide
  have hones : ∀ b ∈ fourFiles,
      ¬ List.replicate 901 true <:+: Bits.ofBytes (Recorded.ofBlock b).bytes :=
    fun b hb => not_many_ones (hshort b hb)
  have hroom : (layoutOf (fourFiles.map Recorded.ofBlock)).length ≤ Layout.capacity := by decide
  obtain ⟨rec, hrec, -, -, hblocks⟩ :=
    exists_reconstruct_extents 0 hstandard htitle hearly hones
  have htrue := h { blocks := fourFiles } _ 0 _ rec hstandard htitle
    (frame_eq_ok_iff.mpr ⟨rfl, hroom⟩) hearly hones (modulateBytes_eq (by decide) _) hrec
  have hsame := Recorded.extentsFrom_eq_iff.mp (hblocks.symm.trans htrue)
    (.ofBlock ⟨[2, 4]⟩) (by simp [fourFiles])
  revert hsame
  decide +kernel

end Recovery

end FamicomDisk
