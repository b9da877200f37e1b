import FamicomDisk.Capture.Known
import FamicomDisk.Proofs.KnownDecoding
import FamicomDisk.Proofs.Sequencing
import FamicomDisk.Proofs.Transitions

/-!
The two ways in which a side leaves the library.

The write stream of a side spends a cell of two bits on every bit of the disk, and its capture is
the modulation of these bits. Read back, both carry a lead-in of zeros and then the bits of the
layout (`WriteStream.bits_ofBytes`, `Mfm.demodulate_layout`). But they do not take the lead-in from
the side in the same way: the stream takes the usual one only if the side has none, and the capture
also if the side has a lead-in of zero bits. So there is one disk that both describe just if that is
not the lead-in of the side.

* `WriteStream.cells`, `WriteStream.bits`: the cells of a stream, and the bits they stand for.
* `WriteStream.exists_cells_ofBytes`: **the stream of a byte string is faithful**.
* `Carries`: a stream and a capture describe the same disk.
* `exists_outputs`: what the stream and the capture of a side carry.
* `exists_carries_iff`: **when they describe the same disk**.
-/

namespace FamicomDisk

/-! ### Streams -/

namespace WriteStream

/-- The four cells of a stream byte, from the least significant end. -/
def cells (b : UInt8) : List Nat :=
  [b.toNat % 4, b.toNat / 4 % 4, b.toNat / 16 % 4, b.toNat / 64]

/-- The bit that a cell stands for. Two of the four cells stand for none. -/
def bitOf? : Nat → Option Bool
  | 0b10 => some false
  | 0b01 => some true
  | _ => none

/-- What the cells of a stream stand for, in order. -/
def bits (stream : List UInt8) : List (Option Bool) := (stream.flatMap cells).map bitOf?

lemma bits_append (xs ys : List UInt8) : bits (xs ++ ys) = bits xs ++ bits ys := by
  rw [bits, List.flatMap_append, List.map_append]
  rfl

/-- Four bits are read back from their cells. -/
lemma map_cells_expand (b₀ b₁ b₂ b₃ : Bool) :
    (cells (expand b₀ b₁ b₂ b₃)).map bitOf? = [b₀, b₁, b₂, b₃].map some := by
  revert b₀ b₁ b₂ b₃
  decide

/-- The two stream bytes of a byte stand for its bits. -/
lemma bits_ofByte (b : UInt8) : bits (ofByte b) = (Bits.ofByte b).map some := by
  have hexpand := map_cells_expand
  simp only [List.map_cons, List.map_nil] at hexpand
  simp only [bits, ofByte, Bits.ofByte, List.flatMap_cons, List.flatMap_nil, List.append_nil,
    List.map_append, hexpand, List.map_cons, List.map_nil, List.cons_append, List.nil_append]

lemma bits_flatMap_ofByte (dat : List UInt8) :
    bits (dat.flatMap ofByte) = (Bits.ofBytes dat).map some := by
  induction dat with
  | nil => rfl
  | cons b dat ih =>
      rw [List.flatMap_cons, bits_append, bits_ofByte, ih, Bits.ofBytes_cons, List.map_append]

lemma bits_fill (n : Nat) :
    bits (List.replicate n fill) = (List.replicate (4 * n) false).map some := by
  induction n with
  | zero => rfl
  | succ n ih =>
      have hone : bits [fill] = (List.replicate 4 false).map some := by decide
      calc bits (List.replicate (n + 1) fill)
          = bits [fill] ++ bits (List.replicate n fill) := bits_append [fill] _
        _ = (List.replicate (4 + 4 * n) false).map some := by
            rw [hone, ih, ← List.map_append, List.replicate_append_replicate]
        _ = (List.replicate (4 * (n + 1)) false).map some := by rw [Nat.mul_succ, Nat.add_comm]

/-- A lead-in takes two stream bytes for each eight bits. -/
lemma leadInBytes_eq (leadIn : Nat) : leadInBytes leadIn = ((2 * (leadIn / 8) : Nat) : Int) := by
  rw [leadInBytes, Int.fdiv_eq_ediv_of_nonneg _ (by decide)]
  omega

lemma leadInBytes_le {leadIn : Nat} (h : (leadIn : Int) ≤ Mfm.maxLength) :
    leadInBytes leadIn ≤ Mfm.maxLength := by
  rw [leadInBytes_eq]
  omega

/-- **A stream** stands for its lead-in, in whole bytes of the disk, and the bits of the byte string
behind it. -/
lemma bits_ofBytes {leadIn : Nat} (h : leadInBytes leadIn ≤ Mfm.maxLength) (dat : List UInt8) :
    ∃ stream, ofBytes dat leadIn = .ok stream
      ∧ bits stream
        = (List.replicate (8 * (leadIn / 8)) false ++ Bits.ofBytes dat).map some := by
  have hmax : Mfm.maxLength = 0x7fffffffffffffff := rfl
  have hbytes := leadInBytes_eq leadIn
  refine ⟨List.replicate (2 * (leadIn / 8)) fill ++ dat.flatMap ofByte, ?_, ?_⟩
  · rw [hbytes] at h
    simp only [ofBytes, hbytes]
    rw [if_neg (by omega), Int.toNat_natCast]
    rfl
  · rw [bits_append, bits_fill, bits_flatMap_ofByte, ← List.map_append]
    congr 3
    omega

/-! ### What the cells of a stream tell -/

/-- A stream byte is told by its cells. -/
lemma cells_injective {b c : UInt8} (h : cells b = cells c) : b = c := by
  simp only [cells, List.cons.injEq, and_true] at h
  exact UInt8.toNat_inj.mp (by omega)

/-- A stream is told by its cells, as every byte of it has four. -/
lemma flatMap_cells_injective {xs ys : List UInt8} (h : xs.flatMap cells = ys.flatMap cells) :
    xs = ys := by
  induction xs generalizing ys with
  | nil =>
      cases ys with
      | nil => rfl
      | cons y ys => cases h
  | cons x xs ih =>
      cases ys with
      | nil => cases h
      | cons y ys =>
          obtain ⟨hfirst, hrest⟩ := List.append_inj h rfl
          rw [cells_injective hfirst, ih hrest]

/-- A cell that stands for a bit is the cell of that bit. -/
lemma bitOf?_eq_some_iff {n : Nat} {b : Bool} : bitOf? n = some b ↔ n = (cell b).toNat := by
  constructor
  · intro h
    unfold bitOf? at h
    split at h <;> cases h <;> rfl
  · rintro rfl
    cases b <;> rfl

/-- Cells that stand for bits are the cells of these bits. -/
lemma bits_eq_map_some_iff {stream : List UInt8} {bs : List Bool} :
    bits stream = bs.map some ↔ stream.flatMap cells = bs.map fun b => (cell b).toNat := by
  rw [bits]
  generalize stream.flatMap cells = ns
  induction ns generalizing bs with
  | nil => cases bs <;> simp
  | cons n ns ih =>
      cases bs with
      | nil => simp
      | cons b bs =>
          rw [List.map_cons, List.map_cons, List.map_cons, List.cons.injEq, List.cons.injEq, ih,
            bitOf?_eq_some_iff]

/-- **The stream of a byte string is faithful.** It has nothing but the cells of zeros and ones, and
these are the lead-in, in whole bytes of the disk, and the bits of the byte string. No other stream
has these bits, and no other byte string has this stream behind the same lead-in. There is a stream
unless the lead-in takes more bytes than any length that can be asked for. -/
theorem exists_cells_ofBytes (dat : List UInt8) (leadIn : Nat) :
    if leadInBytes leadIn ≤ Mfm.maxLength then
      ∃ stream, ofBytes dat leadIn = .ok stream
        ∧ (∀ c ∈ stream.flatMap cells, c = 0b10 ∨ c = 0b01)
        ∧ bits stream
          = (List.replicate (8 * (leadIn / 8)) false ++ Bits.ofBytes dat).map some
        ∧ (∀ other, bits other = bits stream → other = stream)
        ∧ ∀ dat', ofBytes dat' leadIn = .ok stream → dat' = dat
    else ofBytes dat leadIn = .error (.range .length) := by
  split
  · next h =>
    obtain ⟨stream, hstream, hbits⟩ := bits_ofBytes h dat
    have hcells := bits_eq_map_some_iff.mp hbits
    refine ⟨stream, hstream, fun c hc => ?_, hbits, fun other hother => ?_, fun dat' hdat' => ?_⟩
    · rw [hcells] at hc
      obtain ⟨b, -, rfl⟩ := List.mem_map.mp hc
      cases b
      · exact .inl rfl
      · exact .inr rfl
    · rw [hbits, bits_eq_map_some_iff, ← hcells] at hother
      exact flatMap_cells_injective hother
    · obtain ⟨stream', hstream', hbits'⟩ := bits_ofBytes h dat'
      obtain rfl := Except.ok.inj (hdat'.symm.trans hstream')
      have hsame := List.map_injective_iff.mpr (fun _ _ => Option.some.inj)
        (hbits'.symm.trans hbits)
      exact Bits.ofBytes_injective (List.append_cancel_left hsame)
  · next h =>
    rw [ofBytes, if_pos (.inr (Int.not_le.mp h))]
    rfl

end WriteStream

/-! ### Captures -/

/-- The layout of blocks ends in zeros, so nothing of it is owed when it is modulated. -/
lemma Mfm.demodulate_layout (leadIn : Nat) (blocks : List Block) :
    demodulate false
        (modulate (List.replicate leadIn false ++ Bits.ofBytes (Layout.ofBlocks blocks)))
      = List.replicate leadIn false ++ Bits.ofBytes (Layout.ofBlocks blocks) := by
  have hfinal : modulator.final .zero
      (List.replicate leadIn false ++ Bits.ofBytes (Layout.ofBlocks blocks)) = .zero := by
    rcases blocks.eq_nil_or_concat' with rfl | ⟨blocks, b, rfl⟩
    · rw [Layout.ofBlocks, List.flatMap_nil, Bits.ofBytes_nil, List.append_nil]
      exact final_zero_zeros leadIn
    · have hgap : Layout.ofBlocks (blocks ++ [b]) = (Layout.ofBlocks blocks
          ++ gapEndMark :: b.data ++ Crc.bytes b.data) ++ List.replicate Layout.gap 0 := by
        simp [Layout.ofBlocks, Layout.framed]
      rw [hgap, Bits.ofBytes_append, Bits.ofBytes_replicate_zero, ← List.append_assoc]
      exact final_append_zeros .zero _ (by decide)
  rw [demodulate_modulate, if_neg]
  rw [← final_eq_zeroAfterOne_iff, hfinal]
  decide

namespace Capture

/-- The lead-in of the capture of a side: one of zero bits passes for none. -/
def leadInOf (s : Side) : Int :=
  if s.leadIn = some 0 then defaultLeadIn else s.leadIn.getD defaultLeadIn

/-- The capture of a side that has a layout is the modulation of the layout. -/
lemma ofSide_eq {s : Side} {layout : List UInt8} (hframe : Layout.frame s = .ok layout) :
    ofSide s none = (Mfm.modulateBytes layout (leadInOf s)).map Pulse.intervals := by
  rw [ofSide, hframe, leadInOf]
  split
  · next h =>
    rw [h, if_pos rfl]
    rfl
  · next h =>
    rw [h, if_neg (by simp), Option.getD_none]
    rfl
  · next n hn h =>
    rw [h, if_neg (by simpa using hn), Option.getD_some]
    rfl

end Capture

/-! ### The same disk -/

/-- A stream and a capture describe the same disk: a lead-in, which the stream has in whole bytes of
the disk, and the bits of a layout. -/
def Carries (layout : List UInt8) (leadIn : Nat) (stream raw : List UInt8) : Prop :=
  WriteStream.bits stream
      = (List.replicate (8 * (leadIn / 8)) false ++ Bits.ofBytes layout).map some
    ∧ Mfm.demodulate false (Pulse.quantise raw)
      = List.replicate leadIn false ++ Bits.ofBytes layout

section

variable {s : Side} {layout : List UInt8}

/-- What the stream and the capture of a side carry, each behind its own lead-in. -/
lemma exists_outputs (hframe : Layout.frame s = .ok layout)
    (hlead : 0 ≤ s.leadIn.getD defaultLeadIn) (hmax : s.leadIn.getD defaultLeadIn ≤ Mfm.maxLength) :
    ∃ stream raw, s.toWriteStream = .ok stream ∧ Capture.ofSide s none = .ok raw
      ∧ WriteStream.bits stream
        = (List.replicate (8 * ((s.leadIn.getD defaultLeadIn).toNat / 8)) false
          ++ Bits.ofBytes layout).map some
      ∧ Mfm.demodulate false (Pulse.quantise raw)
        = List.replicate (Capture.leadInOf s).toNat false ++ Bits.ofBytes layout := by
  have hwritten : ((s.leadIn.getD defaultLeadIn).toNat : Int) = s.leadIn.getD defaultLeadIn :=
    Int.toNat_of_nonneg hlead
  have hcaptured : ((Capture.leadInOf s).toNat : Int) = Capture.leadInOf s
      ∧ Capture.leadInOf s ≤ Mfm.maxLength := by
    rw [Capture.leadInOf]
    split
    · decide
    · exact ⟨hwritten, hmax⟩
  obtain ⟨stream, hstream, hbits⟩ := WriteStream.bits_ofBytes
    (WriteStream.leadInBytes_le (hwritten ▸ hmax)) layout
  have hpulses := modulateBytes_eq (hcaptured.1.trans_le hcaptured.2) layout
  refine ⟨stream, Pulse.intervals (Mfm.modulate (List.replicate (Capture.leadInOf s).toNat false
    ++ Bits.ofBytes layout)), ?_, ?_, hbits, ?_⟩
  · rw [Side.toWriteStream, hframe, ok_bind, WriteStream.ofLayout, ← hwritten, hstream]
  · rw [Capture.ofSide_eq hframe, ← hcaptured.1, hpulses]
    rfl
  · obtain rfl := (layoutOf_ofBlock s.blocks).symm.trans (frame_eq_ok_iff.mp hframe).1
    rw [Capture.quantise_intervals_modulate, Mfm.demodulate_layout]

/-- The lead-in of a disk that a stream and a capture with lead-ins of their own describe is both of
these, up to whole bytes of the disk. -/
lemma carries_iff {stream raw : List UInt8} {written captured leadIn : Nat}
    (hbits : WriteStream.bits stream
      = (List.replicate (8 * (written / 8)) false ++ Bits.ofBytes layout).map some)
    (hread : Mfm.demodulate false (Pulse.quantise raw)
      = List.replicate captured false ++ Bits.ofBytes layout) :
    Carries layout leadIn stream raw ↔ leadIn = captured ∧ leadIn / 8 = written / 8 := by
  rw [Carries, hbits, hread]
  constructor
  · rintro ⟨hstream, hraw⟩
    have hwritten := congrArg List.length hstream
    have hcaptured := congrArg List.length hraw
    simp only [List.length_map, List.length_append, List.length_replicate] at hwritten hcaptured
    omega
  · rintro ⟨rfl, heq⟩
    rw [heq]
    exact ⟨rfl, rfl⟩

/-- **When the stream and the capture of a side describe the same disk**: whatever lead-in the side
has, they do so just behind that lead-in, or the usual one if the side has none, unless it is one
of zero bits. Then the stream has no lead-in and the capture the usual one, and there is no lead-in
behind which they agree. A lead-in longer than any length that can be asked for has no capture. -/
theorem exists_carries_iff (hframe : Layout.frame s = .ok layout)
    (hlead : 0 ≤ s.leadIn.getD defaultLeadIn) :
    (s.leadIn.getD defaultLeadIn ≤ Mfm.maxLength →
        ∃ stream raw, s.toWriteStream = .ok stream ∧ Capture.ofSide s none = .ok raw
          ∧ (∀ leadIn : Nat, Carries layout leadIn stream raw
            ↔ s.leadIn ≠ some 0 ∧ (leadIn : Int) = s.leadIn.getD defaultLeadIn)
          ∧ (s.leadIn = some 0 → WriteStream.bits stream = (Bits.ofBytes layout).map some
            ∧ Mfm.demodulate false (Pulse.quantise raw)
              = List.replicate defaultLeadIn.toNat false ++ Bits.ofBytes layout))
      ∧ (Mfm.maxLength < s.leadIn.getD defaultLeadIn →
        Capture.ofSide s none = .error (.range .length)) := by
  constructor
  · intro hmax
    obtain ⟨stream, raw, hstream, hraw, hbits, hread⟩ := exists_outputs hframe hlead hmax
    refine ⟨stream, raw, hstream, hraw, fun leadIn => ?_, fun hzero => ?_⟩
    · rw [carries_iff hbits hread, Capture.leadInOf]
      split
      · next hzero =>
        rw [hzero]
        refine iff_of_false ?_ fun h => h.1 rfl
        rintro ⟨rfl, hnone⟩
        revert hnone
        decide
      · next hzero =>
        constructor
        · rintro ⟨rfl, -⟩
          exact ⟨hzero, Int.toNat_of_nonneg hlead⟩
        · rintro ⟨-, heq⟩
          rw [← heq]
          exact ⟨rfl, rfl⟩
    · rw [hzero] at hbits
      rw [Capture.leadInOf, if_pos hzero] at hread
      exact ⟨hbits, hread⟩
  · intro hmax
    have hzero : s.leadIn ≠ some 0 := by
      intro h
      rw [h] at hmax
      revert hmax
      decide
    rw [Capture.ofSide_eq hframe, Capture.leadInOf, if_neg hzero, Mfm.modulateBytes,
      if_pos (.inr hmax)]
    rfl

/-- A side without files and with a lead-in that is no whole number of bytes of the disk, and then
with one that is longer than any length. -/
theorem exists_carries_iff_emptySide :
    (∃ stream raw, Side.toWriteStream { blocks := emptySide, leadIn := some 13 } = .ok stream
        ∧ Capture.ofSide { blocks := emptySide, leadIn := some 13 } none = .ok raw
        ∧ Carries (Layout.ofBlocks emptySide) 13 stream raw)
      ∧ Capture.ofSide { blocks := emptySide, leadIn := some 0x8000000000000000 } none
        = .error (.range .length) := by
  constructor
  · obtain ⟨stream, raw, hstream, hraw, hiff, -⟩ :=
      (exists_carries_iff (frame_emptySide (some 13)) (by decide)).1 (by decide)
    exact ⟨stream, raw, hstream, hraw, (hiff 13).mpr ⟨by decide, rfl⟩⟩
  · exact (exists_carries_iff (frame_emptySide (some 0x8000000000000000)) (by decide)).2 (by decide)

/-- So the stream and the capture of a side do not always describe the same disk: they do not for a
side without files and with a lead-in of zero bits. -/
theorem not_forall_exists_carries :
    ¬ ∀ (s : Side) (layout : List UInt8), Layout.frame s = .ok layout →
      0 ≤ s.leadIn.getD defaultLeadIn →
      ∃ leadIn stream raw, s.toWriteStream = .ok stream ∧ Capture.ofSide s none = .ok raw
        ∧ Carries layout leadIn stream raw := by
  intro hall
  obtain ⟨leadIn, stream, raw, hstream, hraw, hcarries⟩ :=
    hall _ _ (frame_emptySide (some 0)) (by decide)
  obtain ⟨stream', raw', hstream', hraw', hbits, hread⟩ :=
    exists_outputs (frame_emptySide (some 0)) (by decide) (by decide)
  obtain rfl := Except.ok.inj (hstream.symm.trans hstream')
  obtain rfl := Except.ok.inj (hraw.symm.trans hraw')
  obtain ⟨rfl, hnone⟩ := (carries_iff hbits hread).mp hcarries
  revert hnone
  decide

end

end FamicomDisk
