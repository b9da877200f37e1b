import FamicomDisk.Proofs.KnownDecoding

/-!
Noise in the gaps.

Where a gap was written over, stray bits may stand in it. The reader of a standard side does not see
them if there are zeros enough behind them, whatever they are: it takes the bits of a block and its
check, and what it comes to before the next gap ends is too short to end a gap itself.

* `Noisy`: a block with noise in its gap, and `Noisy.bits_eq`: its bits behind its mark.
* `Noisy.seek_next`, `Noisy.seek_none`: from behind a block the next mark is found, noise or not.
* `decodeKnown_noisy`: **known decoding does not see noise** in the gaps of a standard side.
-/

namespace FamicomDisk

open Mfm Capture

/-- A recorded block, and the noise that stands in its gap: the bits numbered from 16 to 189. -/
structure Noisy where
  recorded : Recorded
  noise : List Bool
  length_noise : noise.length = 174

namespace Noisy

/-- The zeros of a gap behind the noise. -/
def quiet : Nat := 778

/-- The bits of the block in a layout before its noise: its mark, the block, its check, and the first
sixteen bits of the gap. -/
def start (b : Noisy) : Nat := 8 * (b.recorded.bytes.length + 1) + 16

/-- The bits of the block in a layout, with the noise in the place of zeros. -/
def bits (b : Noisy) : List Bool :=
  (Bits.ofBytes b.recorded.framed).take b.start ++ b.noise
    ++ (Bits.ofBytes b.recorded.framed).drop (b.start + b.noise.length)

/-- The first bits of the gap, up to the end of the noise. -/
def front (b : Noisy) : List Bool := List.replicate 16 false ++ b.noise

/-- The bits from behind the mark on, when `zeros` zeros stand behind the noise. -/
def behind (b : Noisy) (zeros : Nat) : List Bool :=
  Bits.ofBytes b.recorded.bytes ++ (b.front ++ List.replicate zeros false)

/-- The pulses of these bits. -/
def pulses (b : Noisy) (zeros : Nat) : List Pulse := modulator.run .one (b.behind zeros)

variable (b : Noisy) {zeros m : Nat}

lemma length_front : b.front.length = 190 := by
  rw [front, List.length_append, List.length_replicate, b.length_noise]

/-- The first bits of the gap are zeros, noise or not. -/
lemma take_front {e : Nat} (h : e ≤ 16) : b.front.take e = List.replicate e false := by
  rw [front, List.take_append_of_le_length (by rw [List.length_replicate]; exact h),
    List.take_replicate, Nat.min_eq_left h]

lemma length_behind (zeros : Nat) :
    (b.behind zeros).length = 8 * b.recorded.bytes.length + (190 + zeros) := by
  rw [behind, List.length_append, List.length_append, Bits.length_ofBytes, b.length_front,
    List.length_replicate]

/-- Noise changes nothing in the mark and the block. -/
lemma bits_eq : b.bits = afterMark (b.behind quiet) := by
  have hzeros : List.replicate lastZeros false
      = List.replicate 16 false ++ (List.replicate 174 false ++ List.replicate quiet false) := by
    rw [List.replicate_append_replicate, List.replicate_append_replicate]
    rfl
  have hframed : Bits.ofBytes b.recorded.framed
      = (afterMark (Bits.ofBytes b.recorded.bytes) ++ List.replicate 16 false)
        ++ (List.replicate 174 false ++ List.replicate quiet false) := by
    rw [ofBytes_framed, Recorded.bits, hzeros, afterMark]
    simp only [List.append_assoc, List.cons_append]
  have hlen : (afterMark (Bits.ofBytes b.recorded.bytes) ++ List.replicate 16 false).length
      = b.start := by
    rw [List.length_append, afterMark, List.length_append, List.length_cons, Bits.length_ofBytes,
      List.length_replicate, List.length_replicate, start]
    omega
  calc b.bits
      = (afterMark (Bits.ofBytes b.recorded.bytes) ++ List.replicate 16 false) ++ b.noise
          ++ List.replicate quiet false := by
        rw [bits, hframed, List.take_left' hlen, ← List.drop_drop, List.drop_left' hlen,
          b.length_noise, List.drop_left' List.length_replicate]
    _ = afterMark (b.behind quiet) := by
        rw [afterMark, afterMark, behind, front]
        simp only [List.append_assoc, List.cons_append]

/-- The zeros of the next mark belong to the gap, too. -/
lemma behind_append_mark : b.behind quiet ++ List.replicate 7 false = b.behind (quiet + 7) := by
  rw [behind, behind, List.append_assoc, List.append_assoc, List.replicate_append_replicate]

lemma demodulate_pulses (h : 2 ≤ zeros) : demodulate true (b.pulses zeros) = b.behind zeros := by
  rw [pulses, behind, ← List.append_assoc]
  exact demodulate_run_append_zeros (show Phase.one ≠ .zeroAfterOne by decide) _ h

/-- The block and the first zeros of its gap are read, whatever stands behind. -/
lemma bits_prefix (h : 2 ≤ zeros) (rest : List Pulse) :
    b.recorded.bits 16 <+: demodulate true (b.pulses zeros ++ rest) := by
  rw [demodulate_append, b.demodulate_pulses h, behind, front, Recorded.bits]
  simp only [List.append_assoc]
  exact ⟨_, List.append_assoc _ _ _⟩

lemma final_pulses (h : 2 ≤ zeros) : demodulator.final true (b.pulses zeros) = false := by
  have hfinal := final_run .one (b.behind zeros)
  rwa [behind, ← List.append_assoc, final_append_zeros _ _ h, List.append_assoc] at hfinal

variable {b}

/-- A reader that has read the block stops in the pulses of the block and its gap. -/
lemma isReadAt_pulses {rest : List Pulse} (h : 2 ≤ zeros)
    (hm : b.recorded.IsReadAt (b.pulses zeros ++ rest) m) :
    b.recorded.IsReadAt (b.pulses zeros) m :=
  hm.of_append (by rw [b.demodulate_pulses h, b.length_behind]; omega)

/-- **A cut where a reader stops** that has read the block: behind it there is what is left of the
gap. -/
lemma exists_cut_behind (h : b.recorded.IsReadAt (b.pulses zeros) m) :
    ∃ phase, demodulate true ((b.pulses zeros).take m)
        = Bits.ofBytes b.recorded.bytes ++ List.replicate b.recorded.overhang false
      ∧ demodulator.final true ((b.pulses zeros).take m) = phase.last
      ∧ (b.pulses zeros).drop m
        = modulator.run phase (b.front.drop b.recorded.overhang ++ List.replicate zeros false) := by
  obtain ⟨u, v, phase, huv, -, hread, hfinal, hrest⟩ := exists_cut .one (b.behind zeros) m h.le
  have hread' : demodulate true ((b.pulses zeros).take m) = u := hread
  -- the first bit of the gap is a zero, so it is known how many bits were taken
  have hu' : u.length = 8 * b.recorded.bytes.length + b.recorded.overhang := by
    rw [← hread']
    exact @Recorded.IsReadAt.length_eq b.recorded
      (List.replicate 15 false ++ b.noise ++ List.replicate zeros false) m h
  have hcut : b.behind zeros = u ++ v := huv.symm
  have hu : u = (b.behind zeros).take (8 * b.recorded.bytes.length + b.recorded.overhang) := by
    rw [hcut, List.take_left' hu']
  have hv : v = (b.behind zeros).drop (8 * b.recorded.bytes.length + b.recorded.overhang) := by
    rw [hcut, List.drop_left' hu']
  have hlen := Bits.length_ofBytes b.recorded.bytes
  have hfront := b.length_front
  have hle := b.recorded.overhang_le
  refine ⟨phase, ?_, hfinal, ?_⟩
  · rw [hread', hu, behind, List.take_append, List.take_of_length_le (by omega), hlen,
      Nat.add_sub_cancel_left, List.take_append_of_le_length (by omega), b.take_front (by omega)]
  · have hdrop : (b.pulses zeros).drop m = modulator.run phase v := hrest
    rw [hdrop, hv, behind, ← List.drop_drop, List.drop_left' hlen,
      List.drop_append_of_le_length (by omega)]

/-- From behind the block the next mark is found. -/
lemma seek_next (h : b.recorded.IsReadAt (b.pulses zeros) m) (hz : minGap + 2 ≤ zeros) (offset : Nat)
    (rest : List Pulse) :
    Head.seek minGap 0 offset ((b.pulses zeros).drop m ++ .medium :: rest)
      = some ⟨offset + ((b.pulses zeros).drop m).length + 1, rest⟩ := by
  obtain ⟨phase, -, -, hdrop⟩ := exists_cut_behind h
  have hfront := b.length_front
  have hmin : minGap = 768 := rfl
  rw [hdrop]
  exact Head.seek_behind phase (by rw [List.length_drop]; omega) hz rest

/-- From behind the last block no mark is found. -/
lemma seek_none (h : b.recorded.IsReadAt (b.pulses zeros) m) (hz : 2 ≤ zeros) (offset : Nat) :
    Head.seek minGap 0 offset ((b.pulses zeros).drop m) = none := by
  obtain ⟨phase, -, -, hdrop⟩ := exists_cut_behind h
  have hfront := b.length_front
  have hmin : minGap = 768 := rfl
  obtain ⟨n, rfl⟩ := Nat.exists_eq_add_of_le' hz
  rw [hdrop]
  exact Head.seek_zeros phase (by rw [List.length_drop]; omega)

end Noisy

/-! ### Sides with noise -/

/-- The pulses of blocks with noise, from behind the first mark on. -/
def noisySurface (bs : List Noisy) : List Pulse := track (bs.map (·.behind Noisy.quiet))

lemma noisySurface_singleton (b : Noisy) : noisySurface [b] = b.pulses Noisy.quiet := rfl

lemma noisySurface_cons (b b' : Noisy) (bs : List Noisy) :
    noisySurface (b :: b' :: bs)
      = b.pulses (Noisy.quiet + 7) ++ .medium :: noisySurface (b' :: bs) := by
  rw [Noisy.pulses, ← b.behind_append_mark]
  rfl

/-- **The capture of a side with noise**: a lead-in of short pulses, the first mark, and its
surface. -/
lemma modulate_noisy (leadIn : Nat) (b : Noisy) (bs : List Noisy) :
    modulate (List.replicate leadIn false ++ (b :: bs).flatMap Noisy.bits)
      = List.replicate (leadIn + 7) .short ++ .medium :: noisySurface (b :: bs) := by
  have hbits : (b :: bs).flatMap Noisy.bits
      = ((b :: bs).map (·.behind Noisy.quiet)).flatMap afterMark := by
    rw [List.flatMap_map]
    exact congrArg ((b :: bs).flatMap ·) (funext Noisy.bits_eq)
  rw [hbits, List.map_cons, modulate_track]
  rfl

/-- A disk header shows its signature on a surface with noise. -/
lemma headerSignature_prefix_noisySurface {bs : List Noisy}
    (h : HasTitle (bs.map (·.recorded.block))) :
    headerSignature <+: .medium :: noisySurface bs := by
  obtain ⟨block, hblock, more, hdata⟩ := h
  cases bs with
  | nil => simp at hblock
  | cons b bs =>
      obtain rfl : b.recorded.block = block := by simpa using hblock
      have hbits : Bits.ofBytes diskTitle <+: b.behind Noisy.quiet := by
        rw [Noisy.behind, Recorded.bytes, ← hdata, List.append_assoc, Bits.ofBytes_append,
          List.append_assoc]
        exact List.prefix_append _ _
      exact headerSignature_prefix_track _ hbits

/-- **A surface with noise is read block by block.** -/
lemma readable_noisySurface {b : Noisy} {bs : List Noisy} {offset : Nat} {h : Head}
    (hmark : h.seekMark? minGap = some ⟨offset, noisySurface (b :: bs)⟩) :
    Readable h ((b :: bs).map Noisy.recorded) := by
  have hmin : minGap = 768 := rfl
  have hquiet : Noisy.quiet = 778 := rfl
  have hblock : ∀ r : Recorded, Bits.ofBytes r.bytes <+: r.bits 16 := fun r => List.prefix_append _ _
  induction bs generalizing b offset h with
  | nil =>
      rw [noisySurface_singleton, ← List.append_nil (b.pulses Noisy.quiet)] at hmark
      have hbits := b.bits_prefix (show 2 ≤ Noisy.quiet by omega) []
      refine .block hmark ((hblock _).trans hbits) fun m hm => .done ?_
      rw [List.append_nil]
      exact Noisy.seek_none (Noisy.isReadAt_pulses (by omega) hm) (by omega) _
  | cons b' bs ih =>
      rw [noisySurface_cons] at hmark
      have hbits := b.bits_prefix (show 2 ≤ Noisy.quiet + 7 by omega)
        (.medium :: noisySurface (b' :: bs))
      refine .block hmark ((hblock _).trans hbits) fun m hm => ?_
      have hread := Noisy.isReadAt_pulses (by omega) hm
      obtain ⟨o, hmark'⟩ : ∃ o, Head.seekMark? minGap
          ⟨offset + m, (b.pulses (Noisy.quiet + 7) ++ .medium :: noisySurface (b' :: bs)).drop m⟩
          = some ⟨o, noisySurface (b' :: bs)⟩ := by
        rw [List.drop_append_of_le_length hread.le]
        exact ⟨_, Noisy.seek_next hread (by omega) _ _⟩
      exact ih hmark'

/-- **Known decoding does not see noise.** Of a standard side with any stored checks and any noise in
its gaps, behind a lead-in that holds a gap together with the zeros of the first mark, all blocks are
read back, and the faults are those of the damaged checks. -/
theorem decodeKnown_noisy {bs : List Noisy} {leadIn : Nat}
    (hstandard : IsStandard ((bs.map Noisy.recorded).map Recorded.block))
    (htitle : HasTitle ((bs.map Noisy.recorded).map Recorded.block))
    (hroom : (layoutOf (bs.map Noisy.recorded)).length ≤ Layout.capacity) (hlead : 761 ≤ leadIn) :
    decodeKnown (modulate (List.replicate leadIn false ++ bs.flatMap Noisy.bits))
      = .ok { blocks := (bs.map Noisy.recorded).map Recorded.block
              diagnostics :=
                Recorded.faultsFrom (·.block.data.length) 0 (bs.map Noisy.recorded) } := by
  have hmin : minGap = 768 := rfl
  have htitle' : HasTitle (bs.map (·.recorded.block)) := by
    rwa [List.map_map] at htitle
  have hsignature := headerSignature_prefix_noisySurface htitle'
  obtain ⟨r, rs, hrs, -⟩ := htitle.exists_cons
  obtain ⟨b, bs, rfl, -, -⟩ := List.map_eq_cons_iff.mp hrs
  rw [modulate_noisy]
  exact decodeKnown_readable hstandard hroom (by omega) hsignature
    fun h hmark => readable_noisySurface hmark

end FamicomDisk
