import FamicomDisk.Proofs.Fidelity
import FamicomDisk.Proofs.NoisyGaps

/-!
The recovery of a side with noise in its gaps.

Where a block has its right check and zeros stand behind it, its scan stops there, so the scans do
not come to the noise, and the next mark is looked for behind a whole gap. In the assembly the noise
is passed over as a part of the gap: a one in it ends no gap, since too few zeros stand before it. So
the layout has zeros in its place, as many as there were bits.

* `scanned_intact`: the scan of a block with its right check, whatever stands behind the zeros.
* `pulledBack_of_read`: the mark behind such a block is not pulled back.
* `NoisyStops`, `blockEndsFrom_noisy`: **the ends of the blocks**, by induction over the blocks.
* `exact_of_noisyStops`: **the pieces of a surface with noise** are its blocks.
* `reconstruct_noisy`: the layout and the extents of a side with noise, without any faults.
* `decodeKnown_reconstruct_of_noise`: known decoding and the recovery do not see noise.
-/

namespace FamicomDisk

open Mfm

/-- Offset and length of recorded blocks in their layout, the first one at `offset`. -/
def Recorded.extentsFrom (length : Recorded → Nat) (offset : Nat) : List Recorded → List (Nat × Nat)
  | [] => []
  | r :: rs => (offset, length r) :: extentsFrom length (offset + r.framed.length) rs

namespace Recovery

/-- A block that cannot be mistaken: its check is right, it does not end early, and no run of ones in
it is long. -/
structure IsPlain (r : Recorded) : Prop where
  intact : r.IsIntact
  not_endsEarly : ∀ k, ¬ r.EndsEarly k
  few_ones : ¬ List.replicate 901 true <:+: Bits.ofBytes r.bytes

/-! ### The scan of a block -/

section

variable {pulses ps more : List Pulse} {start m e : Nat} {previous : Option Block} {r : Recorded}

/-- **The scan of a block with its right check** stops behind it, whatever follows the first sixteen
zeros, if nothing in the block looks like an end. -/
lemma scanned_intact {rest : List Bool}
    (hbits : demodulate true (pulses.drop start) = r.bits 16 ++ rest) (h3 : 3 ≤ r.bytes.length)
    (hplain : IsPlain r)
    (hmarks : ∀ j < 8 * r.bytes.length, ¬ MarksAt {} previous (Bits.ofBytes r.bytes) j) :
    ∃ m, r.IsReadAt (pulses.drop start) m
      ∧ scanned pulses start previous = ⟨some ((start + m : Nat) : Int), r.bytes, none, true⟩ := by
  have hmap : (demodulateAt true start (pulses.drop start)).map Prod.fst = r.bits 16 ++ rest := by
    rw [map_fst_demodulateAt, hbits]
  have hcheck : ChecksAt {} (r.bits 16 ++ rest) r.bytes.length :=
    (checksAt_iff (Nat.le_refl _) (Nat.le_refl _)).mpr (.inr ⟨rfl, h3, hplain.intact⟩)
  have houtcome := scanFrom_usual previous start (pulses.drop start)
  rw [← scanned] at houtcome
  generalize scanned pulses start previous = res at houtcome ⊢
  cases houtcome with
  | @mark j x y marks no_marks no_checks stop resume =>
      rw [hmap] at marks no_checks
      by_cases hin : j < 8 * r.bytes.length
      · rw [Recorded.bits, List.append_assoc, marksAt_append (by rwa [Bits.length_ofBytes])
          (by rw [Bits.length_ofBytes]; omega)] at marks
        exact absurd marks (hmarks j hin)
      · exact absurd hcheck (no_checks _ (by omega))
  | @check k x checks no_marks no_checks stop =>
      rw [hmap] at checks no_checks
      obtain rfl : k = r.bytes.length := by
        rcases Nat.lt_trichotomy k r.bytes.length with hlt | heq | hgt
        · rcases (checksAt_iff (Nat.le_refl _) (Nat.le_of_lt hlt)).mp checks with hend | ⟨h, -, -⟩
          · exact absurd hend (hplain.not_endsEarly k)
          · omega
        · exact heq
        · exact absurd hcheck (no_checks _ hgt)
      obtain ⟨i, hi, hlt, hle, hge, -⟩ := getElem?_demodulateAt (b := x.1) stop
      have hsucc := length_demodulate_take_succ_le true (pulses.drop start) i
      refine ⟨i + 1, ⟨hlt, by omega, by omega, by rw [Nat.add_sub_cancel]; omega⟩, ?_⟩
      rw [hmap, pack_take_bits (Nat.le_refl _), List.take_length, hi]
      congr 2
      omega
  | none no_marks no_checks =>
      rw [hmap] at no_checks
      exact absurd hcheck (no_checks _)

/-- A block with its right check that ends in two bytes of zeros has an early end. -/
lemma endsEarly_of_zeros (hr : r.IsIntact) (h5 : 5 ≤ r.bytes.length)
    (hzeros : ∀ b ∈ r.bytes.drop (r.bytes.length - 2), b = 0) :
    r.EndsEarly (r.bytes.length - 2) := by
  have hdrop : r.bytes.drop (r.bytes.length - 2) = List.replicate 2 0 := by
    rw [List.eq_replicate_iff, List.length_drop]
    exact ⟨by omega, hzeros⟩
  refine ⟨by omega, by omega, ?_, ?_⟩
  · rw [← Crc.of_append_zeros _ 2, ← hdrop, List.take_append_drop, r.of_bytes_eq_zero_iff]
    exact hr
  · rw [Recorded.framed, List.cons_append, List.drop_succ_cons,
      List.drop_append_of_le_length (by omega), hdrop]
    rfl

/-- **A mark behind a plain block is not pulled back**: a long run of short pulses before it would
be ones of the block, or zeros at its end, behind which it ends early. -/
lemma pulledBack_of_read (hdrop : pulses.drop start = ps ++ more)
    (hbefore : pulses[start - 1]? = some .medium) (hm : m ≤ ps.length) (he : e ≤ 1)
    (hread : demodulate true (ps.take m) = Bits.ofBytes r.bytes ++ List.replicate e false)
    (hplain : IsPlain r) : pulledBack pulses (start + m) = start + m := by
  obtain ⟨i, hile, hi, hshorts⟩ := exists_shorts hdrop hbefore hm
  rw [pulledBack, if_neg]
  intro hlong
  have hlen := Bits.length_ofBytes r.bytes
  -- the bits end in a run of one bit
  have hrun : Bits.ofBytes r.bytes ++ List.replicate e false
      = demodulate true (ps.take i)
        ++ List.replicate (m - i) (demodulator.final true (ps.take i)) := by
    rw [← hread, hshorts, demodulate_append, demodulate_shorts]
  have hlens := congrArg List.length hrun
  simp only [List.length_append, List.length_replicate] at hlens
  cases hlast : demodulator.final true (ps.take i) with
  | false =>
      -- so the last two bytes are zeros
      refine hplain.not_endsEarly _ (endsEarly_of_zeros hplain.intact (by omega) ?_)
      rw [← Bits.true_not_mem_ofBytes, ← Bits.drop_ofBytes]
      intro hone
      have hdropped := congrArg (List.drop (8 * (r.bytes.length - 2))) hrun
      rw [hlast, List.drop_append_of_le_length (by omega), List.drop_append,
        List.drop_of_length_le (show (demodulate true (ps.take i)).length
          ≤ 8 * (r.bytes.length - 2) by omega), List.nil_append, List.drop_replicate] at hdropped
      have hmem : true ∈ (Bits.ofBytes r.bytes).drop (8 * (r.bytes.length - 2))
          ++ List.replicate e false := List.mem_append_left _ hone
      rw [hdropped] at hmem
      exact Bool.noConfusion (List.eq_of_mem_replicate hmem)
  | true =>
      rw [hlast] at hrun
      obtain ⟨k, hk⟩ := Nat.exists_eq_add_of_lt (show 900 < m - i by omega)
      have hlastBit := congrArg List.getLast? hrun
      rw [hk, List.replicate_succ', ← List.append_assoc, List.getLast?_concat] at hlastBit
      obtain rfl : e = 0 := by
        by_contra hne
        obtain ⟨d, rfl⟩ := Nat.exists_eq_succ_of_ne_zero hne
        rw [List.replicate_succ', ← List.append_assoc, List.getLast?_concat] at hlastBit
        simp at hlastBit
      rw [List.replicate_zero, List.append_nil] at hrun
      refine hplain.few_ones ⟨demodulate true (ps.take i), List.replicate k true, ?_⟩
      rw [hrun, List.append_assoc, List.replicate_append_replicate, hk]
      congr 2
      omega

end

/-! ### The ends of the blocks -/

/-- Where the scans of blocks with noise behind them stop, the pulses of the first of which begin at
`start`: behind each block, or one bit later. -/
inductive NoisyStops : Nat → List Noisy → List Nat → Prop where
  | last {start m : Nat} {b : Noisy} (read : b.recorded.IsReadAt (b.pulses Noisy.quiet) m) :
      NoisyStops start [b] [start + m]
  | next {start m : Nat} {b b' : Noisy} {bs : List Noisy} {stops : List Nat}
      (read : b.recorded.IsReadAt (b.pulses (Noisy.quiet + 7)) m)
      (rest : NoisyStops (start + (b.pulses (Noisy.quiet + 7)).length + 1) (b' :: bs) stops) :
      NoisyStops start (b :: b' :: bs) ((start + m) :: stops)

section

variable {pulses : List Pulse} {start : Nat} {previous : Option Block} {t : BlockType} {b : Noisy}
  {bs : List Noisy} {stops : List Nat}

lemma NoisyStops.le (h : NoisyStops start bs stops) : ∀ s ∈ stops, start ≤ s := by
  induction h with
  | last => simp
  | next read rest ih =>
      intro s hs
      rcases List.mem_cons.mp hs with rfl | hs
      · omega
      · have hle := ih s hs
        omega

/-- The scan of a block of the expected type and size, with noise behind it. -/
lemma scanned_noisy {zeros : Nat} {rest : List Pulse} (hz : 2 ≤ zeros)
    (hdrop : pulses.drop start = b.pulses zeros ++ rest) (hplain : IsPlain b.recorded)
    (ht : b.recorded.block.type? = some t)
    (hs : Block.sizeOf t.code previous = some b.recorded.block.data.length) :
    ∃ m, b.recorded.IsReadAt (b.pulses zeros) m
      ∧ scanned pulses start previous
        = ⟨some ((start + m : Nat) : Int), b.recorded.bytes, none, true⟩ := by
  obtain ⟨c, cs, hdata, -⟩ := Block.exists_cons_of_type? ht
  have h3 : 3 ≤ b.recorded.bytes.length := by
    rw [b.recorded.length_bytes, hdata, List.length_cons]
    omega
  obtain ⟨more, hmore⟩ := b.bits_prefix hz rest
  rw [← hdrop] at hmore
  obtain ⟨m, hread, hscan⟩ := scanned_intact hmore.symm h3 hplain
    fun j => not_marksAt_of_extent (declaredExtent_eq ht hs)
  rw [hdrop] at hread
  exact ⟨m, Noisy.isReadAt_pulses hz hread, hscan⟩

/-- **The ends of blocks with noise behind them**, by induction over the blocks. -/
lemma blockEndsFrom_noisy {rounds : Nat} (found : List Int) (hstart : 1 ≤ start)
    (hdrop : pulses.drop start = noisySurface (b :: bs)) (hrounds : bs.length < rounds)
    (horder : InOrder t previous (((b :: bs).map Noisy.recorded).map Recorded.block))
    (hplain : ∀ b' ∈ b :: bs, IsPlain b'.recorded) :
    ∃ stops : List Nat, blockEndsFrom pulses {} rounds found ((start : Int) - 1) previous
        = .ok ((stops.map Nat.cast).reverse ++ found) ∧ NoisyStops start (b :: bs) stops := by
  obtain ⟨rounds, rfl⟩ := Nat.exists_eq_add_of_lt hrounds
  have hquiet : Noisy.quiet = 778 := rfl
  have hmin : minGap = 768 := rfl
  induction bs generalizing b start found previous t with
  | nil =>
      obtain ⟨ht, hs, -⟩ := horder
      rw [noisySurface_singleton, ← List.append_nil (b.pulses Noisy.quiet)] at hdrop
      obtain ⟨m, hread, hscan⟩ := scanned_noisy (by omega) hdrop (hplain b (by simp)) ht hs
      have hseek : Capture.Head.seek minGap 0 (start + m) (pulses.drop (start + m)) = none := by
        rw [← List.drop_drop, hdrop, List.append_nil]
        exact Noisy.seek_none hread (by omega) _
      rw [blockEndsFrom_seek hstart (by rw [hscan]) (by rw [hscan]), hseek]
      exact ⟨[start + m], rfl, .last hread⟩
  | cons b' bs ih =>
      obtain ⟨ht, hs, horder⟩ := horder
      rw [noisySurface_cons] at hdrop
      obtain ⟨m, hread, hscan⟩ := scanned_noisy (by omega) hdrop (hplain b (by simp)) ht hs
      have hlen := hread.le
      have hseek : Capture.Head.seek minGap 0 (start + m) (pulses.drop (start + m))
          = some ⟨start + (b.pulses (Noisy.quiet + 7)).length + 1, noisySurface (b' :: bs)⟩ := by
        rw [← List.drop_drop, hdrop, List.drop_append_of_le_length hlen,
          Noisy.seek_next hread (by omega), List.length_drop]
        congr 2
        omega
      have hblock : (scanned pulses start previous).block? previous
          = some ⟨b.recorded.bytes⟩ := by
        rw [hscan, ScanResult.block?, if_neg]
        rw [Recorded.bytes, List.isEmpty_iff]
        simp
      -- the next block is scanned behind the bytes of this one
      obtain ⟨-, hdrop'⟩ := mark_of_drop hdrop
      have horder' := (inOrder_next_append_iff [b.recorded.low, b.recorded.high] ht
        (sixteen_le_of_sizeOf hs)).mpr horder
      obtain ⟨stops, heq, hstops⟩ := ih (((start + m : Nat) : Int) :: found) (by omega) hdrop'
        horder' (fun b'' h => hplain b'' (List.mem_cons_of_mem b h)) (by omega)
      refine ⟨(start + m) :: stops, ?_, .next hread hstops⟩
      have hrounds : (b' :: bs).length + rounds = bs.length + rounds + 1 := by
        rw [List.length_cons]
        omega
      rw [blockEndsFrom_seek hstart (by rw [hscan]) (by rw [hscan]), hseek, hblock, hrounds]
      exact heq.trans (by simp)

end

/-! ### The pieces -/

namespace Assembly

/-- There are no more zeros at the end of bits than bits. -/
lemma zerosAfter_le {zeros : Int} (h : 0 ≤ zeros) (bits : List Bool) :
    0 ≤ zerosAfter zeros bits ∧ zerosAfter zeros bits ≤ zeros + bits.length := by
  induction bits generalizing zeros with
  | nil => exact ⟨h, by simp [zerosAfter]⟩
  | cons b bits ih =>
      have hrest := @ih (if b then 0 else zeros + 1) (by split <;> omega)
      have hcons : zerosAfter zeros (b :: bits)
          = zerosAfter (if b then 0 else zeros + 1) bits := rfl
      rw [hcons, List.length_cons]
      refine ⟨hrest.1, Int.le_trans hrest.2 ?_⟩
      split <;> omega

/-- A one stands before the zeros at the end. -/
lemma length_lt_of_concat_prefix {u front : List Bool} {zeros : Nat}
    (h : u ++ [true] <+: front ++ List.replicate zeros false) : u.length < front.length := by
  by_contra hge
  obtain ⟨v, hv⟩ := h
  have hget : (front ++ List.replicate zeros false)[u.length]? = some true := by
    rw [← hv, List.append_assoc, List.getElem?_append_right (Nat.le_refl _), Nat.sub_self]
    rfl
  rw [List.getElem?_append_right (by omega), List.getElem?_replicate] at hget
  split at hget <;> simp at hget

/-- The bytes that are kept of a block: its own, and one more if a bit hangs over. -/
def keptBytes (r : Recorded) : List UInt8 :=
  Bits.pack (Bits.ofBytes r.bytes ++ List.replicate r.overhang false
    ++ List.replicate (padding (8 * r.bytes.length + r.overhang)) false)

lemma length_keptBytes (r : Recorded) : (keptBytes r).length = r.bytes.length + r.overhang := by
  have he := r.overhang_le
  refine Bits.length_pack ?_
  rw [List.length_append, List.length_append, Bits.length_ofBytes, List.length_replicate,
    List.length_replicate, padding]
  omega

variable {marks : Marks} {a : Assembly} {lead start m zeros : Nat} {ps : List Piece} {b : Noisy}

/-- **A run over a block and its noise**: the block is kept with the bits that hang over, filled up
to a whole byte, and the noise is gap. -/
lemma InBlock.run_noisy (h : a.InBlock {} lead ps []) (hlast : a.last = true)
    (first : FirstMark marks start m) (hm : b.recorded.IsReadAt (b.pulses zeros) m)
    (hz : minGap ≤ zeros) :
    ∃ n : Nat, ∃ count : Int, (minGap : Int) ≤ count
      ∧ padding (8 * b.recorded.bytes.length + b.recorded.overhang) + (b.recorded.overhang + n)
        = 190 + zeros
      ∧ (Assembly.run {} marks a start (b.pulses zeros)).last = false
      ∧ (Assembly.run {} marks a start (b.pulses zeros)).InGap {} lead ps
        (keptBytes b.recorded) n count 0 := by
  have hmin : minGap = 768 := rfl
  have hfront := b.length_front
  have he := b.recorded.overhang_le
  obtain ⟨phase, hread, -, -⟩ := Noisy.exists_cut_behind hm
  have hall := b.demodulate_pulses (show 2 ≤ zeros by omega)
  have hlen : (demodulate true ((b.pulses zeros).take m)).length
      = 8 * b.recorded.bytes.length + b.recorded.overhang := by
    rw [hread, List.length_append, Bits.length_ofBytes, List.length_replicate]
  have hsplit : b.front
      = List.replicate b.recorded.overhang false ++ b.front.drop b.recorded.overhang := by
    rw [← b.take_front (by omega), List.take_append_drop]
  have hbits : demodulate true (b.pulses zeros) = demodulate true ((b.pulses zeros).take m)
      ++ (b.front.drop b.recorded.overhang ++ List.replicate zeros false) := by
    rw [hall, hread, Noisy.behind, List.append_assoc,
      ← List.append_assoc (List.replicate b.recorded.overhang false), ← hsplit]
  have hlt : m < (b.pulses zeros).length := by
    by_contra hge
    rw [List.take_of_length_le (by omega), hall, b.length_behind] at hlen
    omega
  have hgapLen : (b.front.drop b.recorded.overhang ++ List.replicate zeros false).length
      = 190 - b.recorded.overhang + zeros := by
    rw [List.length_append, List.length_drop, hfront, List.length_replicate]
  have hrun := h.run_gap hlast first hlt hbits (by omega) fun u hu => by
    -- too few bits stand before a one
    have hpos := length_lt_of_concat_prefix hu
    have hle := (zerosAfter_le (Int.le_refl 0) u).2
    have hmin' : ({} : Thresholds).minGap = minGap := rfl
    rw [List.length_drop] at hpos
    omega
  have hcount := (zerosAfter_le (Int.le_refl 0) (b.front.drop b.recorded.overhang)).1
  have hpad : padding (8 * b.recorded.bytes.length + b.recorded.overhang) ≤ 7 := by
    rw [padding]
    omega
  rw [hlen, hread, zerosAfter_append, zerosAfter_zeros, hgapLen] at hrun
  refine ⟨_, _, by omega, ?_, ?_, hrun⟩
  · omega
  · rw [last_run, hlast, b.final_pulses (by omega)]

/-- A block, filled up with zeros, and as many bytes of zeros as its gap has left. -/
lemma payload_of_read {r : Recorded} {n : Nat} {gap : Option Int}
    (hn : r.overhang + padding (8 * r.bytes.length + r.overhang) + 8 * n = 8 * Layout.gap) :
    Piece.payload ⟨keptBytes r, n, gap⟩ = r.bytes ++ List.replicate Layout.gap 0 := by
  have hpiece := ofBytes_pieceOf (Bits.ofBytes r.bytes ++ List.replicate r.overhang false) n gap
  rw [pieceOf, List.length_append, Bits.length_ofBytes, List.length_replicate] at hpiece
  refine Bits.ofBytes_injective (hpiece.trans ?_)
  rw [Bits.ofBytes_append, Bits.ofBytes_replicate_zero, List.append_assoc,
    List.replicate_append_replicate, ← hn, Nat.add_assoc]

end Assembly

section

variable {pulses : List Pulse} {marks : Marks} {a : Assembly} {start lead : Nat} {bs : List Noisy}
  {stops : List Nat} {ps : List Piece}

/-- **The pieces of a surface with noise** are its blocks, by induction over them: the mark of each
block is the end that was found. -/
lemma exact_of_noisyStops (h : NoisyStops start bs stops)
    (hdrop : pulses.drop start = noisySurface bs) (hbefore : pulses[start - 1]? = some .medium)
    (hmarks : ∀ n, start ≤ n →
      (marks.contains (n : Int) = true ↔ ∃ s ∈ stops, pulledBack pulses s = n))
    (hplain : ∀ b ∈ bs, IsPlain b.recorded) (ha : a.InBlock {} lead ps []) (hlast : a.last = true)
    (offset : Int) :
    ∃ more, IsMadeOf ((Assembly.run {} marks a start (noisySurface bs)).finish {} offset) {} lead
        (ps ++ more) ∧ Exact (bs.map Noisy.recorded) more
      ∧ more.map Piece.kept = (bs.map Noisy.recorded).map Assembly.keptBytes := by
  have hgap : Layout.gap = 121 := rfl
  have hmin : minGap = 768 := rfl
  have hquiet : Noisy.quiet = 778 := rfl
  induction h generalizing a ps with
  | @last start m b read =>
      rw [noisySurface_singleton, ← List.append_nil (b.pulses Noisy.quiet)] at hdrop
      have he := b.recorded.overhang_le
      obtain ⟨-, hread, -, -⟩ := Noisy.exists_cut_behind read
      have hpulled := pulledBack_of_read hdrop hbefore read.le he hread (hplain b (by simp))
      have first := firstMark_of_pulledBack hmarks hpulled (by simp)
      obtain ⟨n, count, -, hn, -, hrun⟩ := ha.run_noisy hlast first read (by omega)
      refine ⟨_, hrun.finish offset, .cons ⟨Assembly.payload_of_read ?_, nofun⟩ .nil, rfl⟩
      rw [Assembly.padding] at hn ⊢
      omega
  | @next start m b b' bs stops read rest ih =>
      rw [noisySurface_cons] at hdrop
      have he := b.recorded.overhang_le
      obtain ⟨-, hread, -, -⟩ := Noisy.exists_cut_behind read
      have hpulled := pulledBack_of_read hdrop hbefore read.le he hread (hplain b (by simp))
      obtain ⟨hmedium, hdrop'⟩ := mark_of_drop hdrop
      have hlater : ∀ s ∈ stops,
          start + (b.pulses (Noisy.quiet + 7)).length + 1 ≤ pulledBack pulses s := fun s hs =>
        le_pulledBack (rest.le s hs) hmedium
      have hm := read.le
      have first := firstMark_of_pulledBack hmarks hpulled fun s hs => by
        have hk := hlater s hs
        omega
      obtain ⟨n, count, hcount, hn, hzero, hrun⟩ := ha.run_noisy hlast first read (by omega)
      obtain ⟨a', ha', hlast', heq⟩ := exists_inBlock_of_inGap hrun hzero hcount
        (noisySurface (b' :: bs))
      obtain ⟨more, hmade, hexact, hkept⟩ := ih hdrop' hmedium (fun k hk => by
        rw [hmarks k (by omega), List.exists_mem_cons_iff]
        refine or_iff_right ?_
        omega) (fun b'' h => hplain b'' (List.mem_cons_of_mem b h)) ha' hlast'
      rw [← heq, ← noisySurface_cons, List.append_assoc] at hmade
      refine ⟨_, hmade, .cons ⟨Assembly.payload_of_read ?_, ?_⟩ hexact, congrArg _ hkept⟩
      · rw [Assembly.padding] at hn ⊢
        omega
      · intro n hn
        obtain rfl := Option.some.inj hn
        exact hcount

end

/-- Of pieces that are the blocks, the extents are told by the bytes that were kept. -/
lemma Exact.extents_of_kept {rs : List Recorded} {ps : List Piece} {offset : Nat} (h : Exact rs ps)
    (hkept : ps.map Piece.kept = rs.map Assembly.keptBytes) :
    extents offset ps
      = Recorded.extentsFrom (fun r => 1 + r.bytes.length + r.overhang) offset rs := by
  induction h generalizing offset with
  | nil => rfl
  | @cons r p rs ps hp _ ih =>
      obtain ⟨hfirst, hrest⟩ := List.cons.inj hkept
      rw [extents, Recorded.extentsFrom, ih hrest, Exact.length_bytes hp.1, hfirst,
        Assembly.length_keptBytes, Nat.add_comm, Nat.add_assoc]

/-- **The recovery of a side with noise** has its blocks for pieces. -/
lemma exists_reconstruct_noisy {b : Noisy} {bs : List Noisy} (leadIn : Nat)
    (hsignature : Capture.headerSignature <+: .medium :: noisySurface (b :: bs))
    (horder : InOrder .diskHeader none (((b :: bs).map Noisy.recorded).map Recorded.block))
    (hplain : ∀ b' ∈ b :: bs, IsPlain b'.recorded) :
    ∃ rec ps, reconstruct (modulate (List.replicate leadIn false
        ++ (b :: bs).flatMap Noisy.bits)) {} = .ok rec
      ∧ IsMadeOf rec {} 0 ps ∧ Exact ((b :: bs).map Noisy.recorded) ps
      ∧ ps.map Piece.kept = ((b :: bs).map Noisy.recorded).map Assembly.keptBytes := by
  have hclean := glitch_not_mem_modulate
    (List.replicate leadIn false ++ (b :: bs).flatMap Noisy.bits)
  rw [modulate_noisy] at hclean ⊢
  obtain ⟨hdrop, hmedium⟩ := drop_leadIn (leadIn + 7) (noisySurface (b :: bs))
  have hrounds : bs.length < maxRounds
      (List.replicate (leadIn + 7) Pulse.short ++ .medium :: noisySurface (b :: bs)) {} := by
    have hlen := length_le_length_track ((b :: bs).map (·.behind Noisy.quiet))
    rw [← noisySurface, ← hdrop, List.length_drop, List.length_map, List.length_cons] at hlen
    have hmax : maxRounds (List.replicate (leadIn + 7) Pulse.short
        ++ .medium :: noisySurface (b :: bs)) {}
      = (List.replicate (leadIn + 7) Pulse.short
        ++ .medium :: noisySurface (b :: bs)).length + 1 := rfl
    omega
  obtain ⟨stops, heq, hstops⟩ := blockEndsFrom_noisy [] (by omega) hdrop hrounds horder hplain
  obtain ⟨hends, hle⟩ := blockEnds_eq heq
  obtain ⟨marks, a, offset, hcontains, hblock, hlast, hrec⟩ :=
    exists_reconstruct hclean hsignature hends hle
  obtain ⟨ps, hmade, hexact, hkept⟩ := exact_of_noisyStops hstops hdrop hmedium
    (fun n _ => hcontains n) hplain hblock hlast offset
  exact ⟨_, ps, hrec, hmade, hexact, hkept⟩

/-- **The recovery does not see noise.** Of a standard side of plain blocks with any noise in its
gaps the layout comes back without noise, with one block for each recorded one from its mark to the
end of its check, or a byte longer if a bit hangs over, and without a fault. -/
theorem reconstruct_noisy {bs : List Noisy} (leadIn : Nat)
    (hstandard : IsStandard ((bs.map Noisy.recorded).map Recorded.block))
    (htitle : HasTitle ((bs.map Noisy.recorded).map Recorded.block))
    (hplain : ∀ b ∈ bs, IsPlain b.recorded) :
    ∃ rec, reconstruct (modulate (List.replicate leadIn false ++ bs.flatMap Noisy.bits)) {}
        = .ok rec
      ∧ rec.layout = layoutOf (bs.map Noisy.recorded)
      ∧ rec.blocks = Recorded.extentsFrom (fun r => 1 + r.bytes.length + r.overhang) 0
        (bs.map Noisy.recorded)
      ∧ rec.diagnostics = [] := by
  have htitle' : HasTitle (bs.map (·.recorded.block)) := by
    rwa [List.map_map] at htitle
  have hsignature := headerSignature_prefix_noisySurface htitle'
  obtain ⟨r, rs, hrs, -⟩ := htitle.exists_cons
  obtain ⟨b, bs, rfl, -, -⟩ := List.map_eq_cons_iff.mp hrs
  obtain ⟨rec, ps, hrec, ⟨hlayout, hblocks, hfaults⟩, hexact, hkept⟩ :=
    exists_reconstruct_noisy leadIn hsignature hstandard.inOrder hplain
  have hintact : ∀ r ∈ (b :: bs).map Noisy.recorded, r.IsIntact := by
    intro r hr
    obtain ⟨b', hb', rfl⟩ := List.mem_map.mp hr
    exact (hplain b' hb').intact
  refine ⟨rec, hrec, ?_, ?_, ?_⟩
  · rw [hlayout, joined, hexact.layout_eq]
    rfl
  · rw [hblocks, hexact.extents_of_kept hkept]
  · rw [hfaults, hexact.verifyPieces_eq .first hstandard.inOrder,
      Recorded.faultsFrom_eq_nil hintact]

/-- No block of a side with one file can be mistaken. -/
lemma isPlain_oneFile : ∀ b ∈ oneFile, IsPlain (.ofBlock b) := by
  have hearly : ∀ b ∈ oneFile, ∀ k, ¬ (Recorded.ofBlock b).EndsEarly k := by decide +kernel
  have hshort : ∀ b ∈ oneFile, (Recorded.ofBlock b).bytes.length ≤ 112 := by decide
  exact fun b hb => ⟨Recorded.isIntact_ofBlock b, hearly b hb, not_many_ones (hshort b hb)⟩

/-- **Stray bits in gaps are invisible.** Of every standard side that fits into a slot, with any noise
in the gaps of its layout and behind a lead-in that holds a gap together with the zeros of the first
mark, known decoding gives back the blocks without a fault. If no block has an early end or more than
nine hundred ones in a row, the recovery gives back the layout without noise, and without a fault. -/
theorem decodeKnown_reconstruct_of_noise {side : Side} {layout : List UInt8} {bs : List Noisy}
    {leadIn : Nat} (hstandard : IsStandard side.blocks) (htitle : HasTitle side.blocks)
    (hframe : Layout.frame side = .ok layout)
    (hblocks : bs.map Noisy.recorded = side.blocks.map Recorded.ofBlock) (hlead : 761 ≤ leadIn) :
    Capture.decodeKnown (modulate (List.replicate leadIn false ++ bs.flatMap Noisy.bits))
        = .ok { blocks := side.blocks }
      ∧ ((∀ b ∈ side.blocks, ∀ k, ¬ (Recorded.ofBlock b).EndsEarly k) →
        (∀ b ∈ side.blocks,
          ¬ List.replicate 901 true <:+: Bits.ofBytes (Recorded.ofBlock b).bytes) →
        ∃ rec, reconstruct (modulate (List.replicate leadIn false ++ bs.flatMap Noisy.bits)) {}
            = .ok rec
          ∧ rec.layout = layout ∧ rec.diagnostics = []) := by
  obtain ⟨hlayout, hroom⟩ := frame_eq_ok_iff.mp hframe
  have hmap : (bs.map Noisy.recorded).map Recorded.block = side.blocks := by
    rw [hblocks, Recorded.map_block_ofBlock]
  rw [← hmap] at hstandard htitle
  rw [← hblocks] at hlayout
  constructor
  · rw [decodeKnown_noisy hstandard htitle (by rwa [hlayout]) hlead, hmap, hblocks,
      Recorded.faultsFrom_ofBlock]
  · intro hearly hones
    have hplain : ∀ b ∈ bs, IsPlain b.recorded := by
      intro b hb
      have hmem : b.recorded ∈ side.blocks.map Recorded.ofBlock := by
        rw [← hblocks]
        exact List.mem_map_of_mem hb
      obtain ⟨block, hblock, heq⟩ := List.mem_map.mp hmem
      rw [← heq]
      exact ⟨Recorded.isIntact_ofBlock block, hearly block hblock, hones block hblock⟩
    obtain ⟨rec, hrec, hrecovered, -, hfaults⟩ := reconstruct_noisy leadIn hstandard htitle hplain
    exact ⟨rec, hrec, hrecovered.trans hlayout, hfaults⟩

/-- A side with a file is read and recovered, with ones in the first gap, with ones and zeros by
turns in the third one, and with a single one in the last one. -/
theorem decodeKnown_reconstruct_of_noise_oneFile :
    ∃ bs : List Noisy, bs.map Noisy.recorded = oneFile.map Recorded.ofBlock
      ∧ bs.map Noisy.noise = [List.replicate 174 true, List.replicate 174 false,
          (List.replicate 87 [true, false]).flatten, List.replicate 173 false ++ [true]]
      ∧ Capture.decodeKnown (modulate (List.replicate 761 false ++ bs.flatMap Noisy.bits))
        = .ok { blocks := oneFile }
      ∧ ∃ rec, reconstruct (modulate (List.replicate 761 false ++ bs.flatMap Noisy.bits)) {} = .ok rec
        ∧ rec.layout = layoutOf (oneFile.map Recorded.ofBlock) ∧ rec.diagnostics = [] := by
  obtain ⟨hread, hrecover⟩ := @decodeKnown_reconstruct_of_noise { blocks := oneFile } _
    [⟨.ofBlock emptyHeader, List.replicate 174 true, rfl⟩,
      ⟨.ofBlock ⟨[2, 1]⟩, List.replicate 174 false, rfl⟩,
      ⟨.ofBlock byteHeader, (List.replicate 87 [true, false]).flatten, rfl⟩,
      ⟨.ofBlock byteData, List.replicate 173 false ++ [true], rfl⟩] 761
    isStandard_oneFile hasTitle_oneFile frame_oneFile rfl (Nat.le_refl _)
  exact ⟨_, rfl, rfl, hread, hrecover (fun b hb => (isPlain_oneFile b hb).not_endsEarly)
    fun b hb => (isPlain_oneFile b hb).few_ones⟩

end Recovery

end FamicomDisk
