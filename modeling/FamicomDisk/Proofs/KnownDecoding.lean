import FamicomDisk.Proofs.Reading
import FamicomDisk.Proofs.Surface
import Mathlib.Tactic.Set

/-!
Reading the capture of a standard side.

A block is read from behind a mark by taking as many bits as it has, whatever they are, so data
that look like a gap do no harm. The last bit of the check may share its pulse with the first zero
of the gap; wherever the reader stops, what is left of the gap is zeros, in which the next mark is
found.

* `readOnto_eq`: the reader stops at the first pulse that completes the bits it needs.
* `readNext_recorded`: one block is read, with its fault.
* `Readable`, `decodeFrom_readable`: blocks that stand one after the other are read, by induction
  over them; `readable_surface`: those of a surface do.
* `decodeKnown_modulateBytes`: **known decoding inverts framing and modulation**, and reports
  exactly the damaged checks.
-/

namespace FamicomDisk

open Mfm

/-- The reader stops at the first pulse that completes the bits it needs. -/
lemma Mfm.readOnto_eq {last : Bool} {before : List Bool} {need offset : Nat} {ps : List Pulse}
    (hpos : 0 < need) (h : need ≤ (demodulate last ps).length) :
    ∃ m, m ≤ ps.length ∧ need ≤ (demodulate last (ps.take m)).length
      ∧ (demodulate last (ps.take m)).length ≤ need + 1
      ∧ (demodulate last (ps.take (m - 1))).length < need
      ∧ readOnto last before need offset ps
          = some ⟨before.reverse ++ demodulate last (ps.take m), offset + m, ps.drop m⟩ := by
  induction ps generalizing last before need offset with
  | nil =>
      rw [demodulate_nil, List.length_nil] at h
      omega
  | cons p ps ih =>
      have h2 := decode_length_le last p
      by_cases hneed : need ≤ (decode last p).1.length
      · refine ⟨1, by simp, ?_, ?_, hpos, ?_⟩
        · simpa [demodulate_cons] using hneed
        · simp only [List.take_succ_cons, List.take_zero, demodulate_cons, demodulate_nil,
            List.append_nil]
          omega
        · simp only [readOnto]
          rw [if_pos hneed]
          simp [demodulate_cons, List.reverseAux_eq]
      · rw [demodulate_cons, List.length_append] at h
        obtain ⟨m, hm, hle, hge, hleast, hread⟩ :=
          @ih (decode last p).2 ((decode last p).1.reverseAux before)
            (need - (decode last p).1.length) (offset + 1) (by omega) (by omega)
        refine ⟨m + 1, by simpa using hm, ?_, ?_, ?_, ?_⟩
        · rw [List.take_succ_cons, demodulate_cons, List.length_append]
          omega
        · rw [List.take_succ_cons, demodulate_cons, List.length_append]
          omega
        · cases m with
          | zero => exact hpos
          | succ m =>
              rw [Nat.add_sub_cancel] at hleast ⊢
              rw [List.take_succ_cons, demodulate_cons, List.length_append]
              omega
        · simp only [readOnto]
          rw [if_neg hneed, hread, List.take_succ_cons, demodulate_cons, List.drop_succ_cons]
          congr 2
          · simp [List.reverseAux_eq]
          · omega

namespace Capture

/-! ### One block -/

/-- No mark follows the last block: where a reader that has read it stops, no gap ends. -/
def NoMarkBehind (tail : List Pulse) (r : Recorded) : Prop :=
  ∀ m offset, m ≤ (r.pulses lastZeros).length →
    8 * r.bytes.length ≤ (demodulate true ((r.pulses lastZeros).take m)).length →
    (demodulate true ((r.pulses lastZeros).take m)).length ≤ 8 * r.bytes.length + 1 →
    Head.seek minGap 0 offset ((r.pulses lastZeros).drop m ++ tail) = none

/-- **One block is read**, with its fault if its check is damaged, if its bits stand behind the next
mark. -/
lemma readNext_recorded {h : Head} {offset : Nat} {ps : List Pulse} {r : Recorded} {t : BlockType}
    (output : Nat) (hmark : h.seekMark? minGap = some ⟨offset, ps⟩)
    (hbits : Bits.ofBytes r.bytes <+: demodulate true ps) (ht : r.block.type? = some t) :
    ∃ m, r.IsReadAt ps m
      ∧ readNext h output r.block.data.length t.code
          = .read r.block.data (r.fault? output) ⟨offset + m, ps.drop m⟩ := by
  have hlen := r.length_bytes
  have hbound := hbits.length_le
  rw [Bits.length_ofBytes] at hbound
  obtain ⟨m, hm, hge, hle, hleast, hread⟩ := @readOnto_eq true [] _ offset ps
    (show 0 < 8 * r.bytes.length by omega) hbound
  refine ⟨m, ⟨hm, hge, hle, hleast⟩, ?_⟩
  obtain ⟨c, rest, hdata, -⟩ := Block.exists_cons_of_type? ht
  -- what was read begins with the bits of the block
  have hpre : Bits.ofBytes r.bytes <+: demodulate true (ps.take m) := by
    refine List.prefix_of_prefix_length_le hbits ?_ (by rwa [Bits.length_ofBytes])
    exact ⟨_, (demodulate_append true (ps.take m) (ps.drop m)).symm.trans
      (by rw [List.take_append_drop])⟩
  obtain ⟨more, hmore⟩ := hpre
  have hbytes : Bits.pack ((demodulate true (ps.take m)).take (8 * r.bytes.length)) = r.bytes := by
    rw [← hmore, List.take_left' (Bits.length_ofBytes _), Bits.pack_ofBytes]
  rw [readNext_of_reading output t.code (List.ne_nil_of_length_pos (by simp [hdata])) hmark hread
    hbytes, outcome, if_pos (Block.code_of_type? ht)]

/-! ### All blocks -/

section

variable {found : Findings} {expected : BlockType} {previous : Option Block} {output size : Nat}
  {h : Head}

lemma decodeFrom_read {data : List UInt8} {fault : Option BlockFault} {after : Head}
    (hs : Block.sizeOf expected.code previous = some size) (hroom : output + size ≤ sideSize)
    (hr : readNext h output size expected.code = .read data fault after) :
    decodeFrom found expected previous output h
      = decodeFrom ((found.addFault? fault).addBlock ⟨data⟩) expected.next (some ⟨data⟩)
          (output + size) after := by
  rw [decodeFrom, hs]
  simp only
  rw [if_neg (by omega)]
  split <;> rename_i e <;> rw [hr] at e
  · simp at e
  · simp at e
  · simp at e
  · simp only [Outcome.read.injEq] at e
    obtain ⟨rfl, rfl, rfl⟩ := e
    rfl

/-- A block of another type is reported and passed over. -/
lemma decodeFrom_otherType {fault : BlockFault} {after : Head}
    (hs : Block.sizeOf expected.code previous = some size) (hroom : output + size ≤ sideSize)
    (hr : readNext h output size expected.code = .otherType fault after) :
    decodeFrom found expected previous output h
      = decodeFrom (found.addFault fault) expected previous output after := by
  rw [decodeFrom, hs]
  simp only
  rw [if_neg (by omega)]
  split <;> rename_i e <;> rw [hr] at e
  · simp at e
  · simp at e
  · simp only [Outcome.otherType.injEq] at e
    obtain ⟨rfl, rfl⟩ := e
    rfl
  · simp at e

lemma decodeFrom_noGap {offset : Nat} (hs : Block.sizeOf expected.code previous = some size)
    (hroom : output + size ≤ sideSize) (hr : readNext h output size expected.code = .noGap offset) :
    decodeFrom found expected previous output h = .ok found := by
  rw [decodeFrom, hs]
  simp only
  rw [if_neg (by omega)]
  split <;> rename_i e <;> rw [hr] at e <;> first | rfl | simp at e

end

/-- The bytes of the data of blocks. -/
def dataSize : List Recorded → Nat
  | [] => 0
  | r :: rs => r.block.data.length + dataSize rs

/-- What reading finds in a surface, on top of what was found before. -/
def findings (found : Findings) (output : Nat) (rs : List Recorded) : Findings where
  blocks := (rs.map Recorded.block).reverse ++ found.blocks
  faults := (Recorded.faultsFrom (·.block.data.length) output rs).reverse ++ found.faults

lemma findings_cons (found : Findings) (output : Nat) (r : Recorded) (rs : List Recorded) :
    findings ((found.addFault? (r.fault? output)).addBlock r.block)
        (output + r.block.data.length) rs
      = findings found output (r :: rs) := by
  cases hf : r.fault? output <;>
    simp [findings, Recorded.faultsFrom, hf, Findings.addFault?, Findings.addFault,
      Findings.addBlock]

/-- The blocks stand one after the other from a place on: behind the next mark there are the bits of
the first one, and wherever a reader stops that has read it, the others follow. -/
inductive Readable : Head → List Recorded → Prop where
  | done {h : Head} (no_mark : h.seekMark? minGap = none) : Readable h []
  | block {h : Head} {offset : Nat} {ps : List Pulse} {r : Recorded} {rs : List Recorded}
      (mark : h.seekMark? minGap = some ⟨offset, ps⟩)
      (bits : Bits.ofBytes r.bytes <+: demodulate true ps)
      (rest : ∀ m, r.IsReadAt ps m → Readable ⟨offset + m, ps.drop m⟩ rs) : Readable h (r :: rs)

/-- **Blocks are read one by one**, by induction over them. -/
lemma decodeFrom_readable {h : Head} {rs : List Recorded} (hread : Readable h rs)
    (found : Findings) {expected : BlockType} {previous : Option Block} {output : Nat}
    (horder : InOrder expected previous (rs.map Recorded.block))
    (hend : BlockType.next^[rs.length] expected = .fileHeader)
    (hroom : output + dataSize rs + 16 ≤ sideSize) :
    decodeFrom found expected previous output h = .ok (findings found output rs) := by
  induction hread generalizing found expected previous output with
  | done no_mark =>
      -- behind the last block a file header may come, but there is no mark
      obtain rfl : expected = .fileHeader := hend
      have hsize : Block.sizeOf BlockType.fileHeader.code previous = some 16 := rfl
      have hfits : output + 16 ≤ sideSize := hroom
      rw [decodeFrom_noGap hsize hfits (by rw [readNext, no_mark])]
      rfl
  | @block h offset ps r rs mark bits rest ih =>
      obtain ⟨ht, hs, horder'⟩ := horder
      have hsum : dataSize (r :: rs) = r.block.data.length + dataSize rs := rfl
      obtain ⟨m, hm, hread⟩ := readNext_recorded output mark bits ht
      rw [decodeFrom_read hs (by omega) hread, ih m hm _ horder' hend (by omega), findings_cons]

/-- **A surface is read block by block.** The invariant: the head stands before a mark, behind which
the surface of the remaining blocks begins. -/
lemma readable_surface {rs : List Recorded} {offset : Nat} {h : Head} {tail : List Pulse}
    (hne : rs ≠ []) (hmark : h.seekMark? minGap = some ⟨offset, surface rs ++ tail⟩)
    (hlast : ∀ r ∈ rs.getLast?, NoMarkBehind tail r) : Readable h rs := by
  have hl : lastZeros = 968 := rfl
  have hi : innerZeros = 975 := rfl
  have hg : minGap = 768 := rfl
  -- the bits of a block and its gap
  have hbits : ∀ (r : Recorded) {zeros : Nat} (behind : List Pulse), 2 ≤ zeros →
      Bits.ofBytes r.bytes <+: demodulate true (r.pulses zeros ++ behind)
        ∧ 8 * r.bytes.length + 2 ≤ (demodulate true (r.pulses zeros)).length := by
    intro r zeros behind hz
    rw [demodulate_append, r.demodulate_pulses hz, r.length_bits, Recorded.bits, List.append_assoc]
    exact ⟨List.prefix_append _ _, by omega⟩
  induction rs using surface.induct generalizing offset h with
  | case1 => exact absurd rfl hne
  | case2 r =>
      have hsurface : surface [r] = r.pulses lastZeros := rfl
      rw [hsurface] at hmark
      obtain ⟨hpre, hlong⟩ := hbits r tail (show 2 ≤ lastZeros by omega)
      refine .block hmark hpre fun m hm => .done ?_
      obtain ⟨hle, hge, hlen, -⟩ := hm.of_append hlong
      have hnone := hlast r (by simp) m (offset + m) hle hge hlen
      rw [Head.seekMark?, List.drop_append_of_le_length hle]
      exact hnone
  | case3 r r' rs ih =>
      rw [surface_cons, List.append_assoc] at hmark
      obtain ⟨hpre, hlong⟩ := hbits r (.medium :: surface (r' :: rs) ++ tail)
        (show 2 ≤ innerZeros by omega)
      refine .block hmark hpre fun m hm => ?_
      obtain ⟨hle, hge, hlen, -⟩ := hm.of_append hlong
      obtain ⟨before, behind, phase, hz, -, hbefore, -, hdrop⟩ := r.exists_cut_behind hle hge
      rw [hbefore, Recorded.length_bits] at hlen
      obtain ⟨o, hmark'⟩ : ∃ o, Head.seekMark? minGap ⟨offset + m,
          (r.pulses innerZeros ++ (.medium :: surface (r' :: rs) ++ tail)).drop m⟩
          = some ⟨o, surface (r' :: rs) ++ tail⟩ := by
        rw [List.drop_append_of_le_length hle, hdrop]
        exact ⟨_, Head.seek_gap phase (by decide) (by omega) _⟩
      exact ih (by simp) hmark' (by simpa using hlast)

/-! ### Behind the last block -/

/-- The pulses that end before the gap behind the last check does. -/
def pulsesToLastCheck (leadIn : Nat) (rs : List Recorded) : Nat :=
  (modulate (List.replicate leadIn false
    ++ Bits.ofBytes ((layoutOf rs).take ((layoutOf rs).length - Layout.gap)))).length

/-- The last block of a capture, and the pulses that end with its check. -/
lemma exists_last_pulses (leadIn : Nat) {rs : List Recorded} {r : Recorded}
    (h : rs.getLast? = some r) :
    ∃ before, modulate (List.replicate leadIn false ++ Bits.ofBytes (layoutOf rs))
        = before ++ r.pulses lastZeros
      ∧ pulsesToLastCheck leadIn rs
        = before.length + (modulator.run .one (Bits.ofBytes r.bytes)).length := by
  obtain ⟨init, rfl⟩ := List.getLast?_eq_some_iff.mp h
  set lead := List.replicate leadIn false ++ Bits.ofBytes (layoutOf init) with hlead
  have hlayout : layoutOf (init ++ [r]) = layoutOf init ++ r.framed := by
    simp [layoutOf]
  have hfinal : modulator.final .zero (lead ++ List.replicate 7 false) = .zero :=
    final_append_zeros _ _ (by decide)
  refine ⟨modulate (lead ++ List.replicate 7 false) ++ [.medium], ?_, ?_⟩
  · rw [hlayout, Bits.ofBytes_append, ← List.append_assoc, ← hlead, ofBytes_framed,
      ← List.append_assoc, modulate, run_mark hfinal]
    simp [modulate, Recorded.pulses]
  · have htake : (layoutOf (init ++ [r])).take ((layoutOf (init ++ [r])).length - Layout.gap)
        = layoutOf init ++ gapEndMark :: r.bytes := by
      rw [hlayout, Recorded.framed, List.cons_append, ← List.cons_append, ← List.append_assoc]
      refine List.take_left' ?_
      simp only [List.length_append, List.length_cons, List.length_replicate]
      omega
    have hbits : List.replicate leadIn false
          ++ Bits.ofBytes (layoutOf init ++ gapEndMark :: r.bytes)
        = (lead ++ List.replicate 7 false) ++ true :: Bits.ofBytes r.bytes := by
      rw [Bits.ofBytes_append, Bits.ofBytes_cons, gapEndMark, Bits.ofByte_mark, ← List.append_assoc,
        ← hlead]
      simp
    rw [pulsesToLastCheck, htake, hbits, modulate, run_mark hfinal]
    simp only [modulate, List.length_append, List.length_cons, List.length_nil]
    omega

/-- If no gap ends behind the last check, no mark follows the last block. -/
lemma noMarkBehind_of_gapEnd {leadIn : Nat} {rs : List Recorded} {tail : List Pulse}
    (h : ∀ i, pulsesToLastCheck leadIn rs ≤ i → ¬ gapEnd
      <+: (modulate (List.replicate leadIn false ++ Bits.ofBytes (layoutOf rs)) ++ tail).drop i) :
    ∀ r ∈ rs.getLast?, NoMarkBehind tail r := by
  intro r hr m offset hm hge _
  obtain ⟨before, hcapture, hcheck⟩ := exists_last_pulses leadIn hr
  -- fewer pulses than those of the block and its check carry fewer bits
  have hle : (modulator.run .one (Bits.ofBytes r.bytes)).length ≤ m := by
    by_contra hlt
    have hpre : modulator.run .one (Bits.ofBytes r.bytes) <+: r.pulses lastZeros := by
      rw [Recorded.pulses, Recorded.bits, Machine.run_append]
      exact List.prefix_append _ _
    obtain ⟨more, hmore⟩ := hpre
    rw [← hmore, List.take_append_of_le_length (by omega)] at hge
    have hread := congrArg List.length (demodulate_run .one (Bits.ofBytes r.bytes))
    have hsplit := congrArg List.length (demodulate_append true
      ((modulator.run .one (Bits.ofBytes r.bytes)).take m)
      ((modulator.run .one (Bits.ofBytes r.bytes)).drop m))
    have hrest := length_le_length_demodulate
      (demodulator.final true ((modulator.run .one (Bits.ofBytes r.bytes)).take m))
      ((modulator.run .one (Bits.ofBytes r.bytes)).drop m)
    rw [List.take_append_drop, List.length_append] at hsplit
    rw [List.length_append, Phase.pending, List.nil_append, Bits.length_ofBytes] at hread
    rw [List.length_drop] at hrest
    change (demodulate true _).length + _ = _ at hread
    omega
  refine @Head.seek_eq_none _ 0 _ _ ?_
  intro i
  have hdrop : (List.replicate 0 Pulse.short ++ ((r.pulses lastZeros).drop m ++ tail)).drop i
      = (before ++ r.pulses lastZeros ++ tail).drop (before.length + m + i) := by
    rw [List.replicate_zero, List.nil_append, List.append_assoc, ← List.drop_drop,
      ← List.drop_drop, List.drop_left, List.drop_append_of_le_length hm]
  rw [hdrop, ← hcapture]
  exact h _ (by omega)

/-- No gap ends in the gap behind the last check: a mark is no short pulse. -/
lemma not_gapEnd_behind {leadIn i : Nat} {rs : List Recorded} (hne : rs ≠ [])
    (hi : pulsesToLastCheck leadIn rs ≤ i) : ¬ gapEnd
      <+: (modulate (List.replicate leadIn false ++ Bits.ofBytes (layoutOf rs)) ++ []).drop i := by
  obtain ⟨before, hcapture, hcheck⟩ := exists_last_pulses leadIn
    (List.getLast?_eq_some_getLast hne)
  obtain ⟨k, rfl⟩ := Nat.exists_eq_add_of_le hi
  rw [List.append_nil, hcapture, hcheck, Recorded.pulses, Recorded.bits, Machine.run_append,
    ← List.append_assoc, ← List.drop_drop, List.drop_left' List.length_append]
  obtain ⟨p, n, hgap, -, -⟩ := exists_run_zeros
    (modulator.final .one (Bits.ofBytes (rs.getLast hne).bytes)) 966
  rw [show lastZeros = 966 + 2 from rfl, hgap]
  rintro ⟨rest, hrest⟩
  have hlast : (List.drop k (p :: List.replicate n .short))[minGap]? = some .medium := by
    rw [← hrest, gapEnd, List.append_assoc, List.getElem?_append_right (by simp)]
    simp
  have hshort : (List.drop k (p :: List.replicate n Pulse.short))[minGap]? ≠ some .medium := by
    rw [List.getElem?_drop, show k + minGap = k + 767 + 1 from rfl, List.getElem?_cons_succ,
      List.getElem?_replicate]
    split <;> simp
  exact hshort hlast

/-! ### The whole capture -/

lemma length_layoutOf (rs : List Recorded) :
    (layoutOf rs).length = dataSize rs + 124 * rs.length := by
  induction rs with
  | nil => rfl
  | cons r rs ih =>
      have hsum : dataSize (r :: rs) = r.block.data.length + dataSize rs := rfl
      rw [layoutOf_cons, List.length_append, Recorded.length_framed, ih, hsum, List.length_cons]
      omega

/-- Reading begins no more than a gap before the first block, or at the start. -/
lemma seekMark?_start {n : Nat} {rest : List Pulse} (h : headerSignature <+: .medium :: rest)
    (hn : minGap ≤ n) :
    (Head.ofOffset (List.replicate n .short ++ .medium :: rest)
        ((findUsualHeader? (List.replicate n .short ++ .medium :: rest)).getD 0 - minGap)).seekMark?
      minGap = some ⟨n + 1, rest⟩ := by
  -- both ways at least a gap of short pulses is left before the mark
  have hseek : ∀ start, start + minGap ≤ n →
      (Head.ofOffset (List.replicate n .short ++ .medium :: rest) start).seekMark? minGap
        = some ⟨n + 1, rest⟩ := by
    intro start hstart
    rw [Head.seekMark?, Head.ofOffset, List.drop_append_of_le_length (by simp; omega),
      List.drop_replicate, Head.seek_shorts, Head.seek, if_pos (by omega),
      show start + (n - start) = n by omega]
  refine hseek _ ?_
  rw [findUsualHeader?, findHeader?_leadIn h]
  split
  · rw [Option.getD_some]
    omega
  · rw [Option.getD_none]
    omega

/-- Blocks behind a lead-in are read from their capture. -/
lemma decodeKnown_readable {rs : List Recorded} {n : Nat} {rest : List Pulse}
    (hstandard : IsStandard (rs.map Recorded.block))
    (hroom : (layoutOf rs).length ≤ Layout.capacity) (hn : minGap ≤ n)
    (hsignature : headerSignature <+: .medium :: rest)
    (hread : ∀ h : Head, h.seekMark? minGap = some ⟨n + 1, rest⟩ → Readable h rs) :
    decodeKnown (List.replicate n .short ++ .medium :: rest)
      = .ok { blocks := rs.map Recorded.block
              diagnostics := Recorded.faultsFrom (·.block.data.length) 0 rs } := by
  have htwo : 2 ≤ rs.length := by simpa using hstandard.two_le_length
  have hend : BlockType.next^[rs.length] .diskHeader = .fileHeader := by
    simpa using hstandard.next_iterate
  have hdata : 0 + dataSize rs + 16 ≤ sideSize := by
    have hs : sideSize = 65500 := rfl
    have hc : Layout.capacity = 65280 := rfl
    rw [length_layoutOf] at hroom
    omega
  have hfound := decodeFrom_readable (hread _ (seekMark?_start hsignature hn)) {}
    hstandard.inOrder hend hdata
  rw [decodeKnown, hfound]
  change Except.ok (findings {} 0 rs).toSide = _
  simp [findings, Findings.toSide]

/-- A surface is read from its capture. -/
lemma decodeKnown_surface {rs : List Recorded} {n : Nat} {tail : List Pulse}
    (hstandard : IsStandard (rs.map Recorded.block)) (htitle : HasTitle (rs.map Recorded.block))
    (hroom : (layoutOf rs).length ≤ Layout.capacity) (hn : minGap ≤ n)
    (hlast : ∀ r ∈ rs.getLast?, NoMarkBehind tail r) :
    decodeKnown (List.replicate n .short ++ .medium :: surface rs ++ tail)
      = .ok { blocks := rs.map Recorded.block
              diagnostics := Recorded.faultsFrom (·.block.data.length) 0 rs } := by
  obtain ⟨r, rs, rfl, -⟩ := htitle.exists_cons
  rw [List.append_assoc, List.cons_append]
  exact decodeKnown_readable hstandard hroom hn
    ((headerSignature_prefix_surface htitle).trans (List.prefix_append _ _))
    fun h hmark => readable_surface (by simp) hmark hlast

/-- A modulated capture is read back from the bytes that a drive delivers for it. -/
lemma quantise_intervals_modulate (bits : List Bool) :
    Pulse.quantise (Pulse.intervals (modulate bits)) = modulate bits := by
  rw [Pulse.quantise, Pulse.intervals, List.map_map]
  refine (List.map_congr_left fun p hp => ?_).trans (List.map_id _)
  refine Pulse.ofInterval_interval ?_
  rintro rfl
  rcases isClean_of_mem_run hp with h | h | h <;> simp at h

/-- **Known decoding inverts framing and modulation.** Of a standard side with any stored checks,
behind a lead-in that holds a gap together with the zeros of the first mark, all blocks are read
back, and the faults are those of the damaged checks, no matter what follows, as long as no gap ends
in it. With the right checks a side is read back from its captured bytes without a fault. -/
theorem decodeKnown_modulateBytes {rs : List Recorded} {leadIn : Nat}
    (hstandard : IsStandard (rs.map Recorded.block)) (htitle : HasTitle (rs.map Recorded.block))
    (hroom : (layoutOf rs).length ≤ Layout.capacity) (hlead : 761 ≤ leadIn) :
    ((leadIn : Int) ≤ maxLength → ∃ pulses, modulateBytes (layoutOf rs) leadIn = .ok pulses)
      ∧ ∀ pulses, modulateBytes (layoutOf rs) leadIn = .ok pulses →
        (∀ tail, (∀ i, pulsesToLastCheck leadIn rs ≤ i → ¬ gapEnd <+: (pulses ++ tail).drop i) →
          decodeKnown (pulses ++ tail)
            = .ok { blocks := rs.map Recorded.block
                    diagnostics := Recorded.faultsFrom (·.block.data.length) 0 rs })
        ∧ ∀ side : Side, side.blocks.map Recorded.ofBlock = rs →
            ∃ raw, ofSide side (some leadIn) = .ok raw
              ∧ sideOfRaw raw = .ok { blocks := side.blocks } := by
  refine ⟨fun hmax => ⟨_, modulateBytes_eq hmax _⟩, ?_⟩
  intro pulses hpulses
  obtain rfl := modulate_eq_of_modulateBytes hpulses
  have htwo : 2 ≤ rs.length := by simpa using hstandard.two_le_length
  have hread : ∀ tail, (∀ i, pulsesToLastCheck leadIn rs ≤ i → ¬ gapEnd
      <+: (modulate (List.replicate leadIn false ++ Bits.ofBytes (layoutOf rs)) ++ tail).drop i) →
      decodeKnown (modulate (List.replicate leadIn false ++ Bits.ofBytes (layoutOf rs)) ++ tail)
        = .ok { blocks := rs.map Recorded.block
                diagnostics := Recorded.faultsFrom (·.block.data.length) 0 rs } := by
    intro tail htail
    have hlast := noMarkBehind_of_gapEnd htail
    obtain ⟨r, rs, rfl⟩ := List.exists_cons_of_length_pos (show 0 < rs.length by omega)
    rw [modulate_layoutOf]
    refine decodeKnown_surface hstandard htitle hroom ?_ hlast
    have hg : minGap = 768 := rfl
    omega
  refine ⟨hread, ?_⟩
  intro side hside
  subst hside
  have hframe : Layout.frame side = .ok (layoutOf (side.blocks.map Recorded.ofBlock)) :=
    frame_eq_ok_iff.mpr ⟨rfl, hroom⟩
  refine ⟨_, by rw [ofSide, hframe]; exact congrArg (·.map Pulse.intervals) hpulses, ?_⟩
  have hne : side.blocks.map Recorded.ofBlock ≠ [] := by
    intro h
    rw [h] at htwo
    simp at htwo
  have hside := hread [] fun i hi => not_gapEnd_behind hne hi
  rw [List.append_nil] at hside
  rw [sideOfRaw, quantise_intervals_modulate, hside, Recorded.faultsFrom_eq_nil, List.map_map]
  · exact congrArg (fun blocks => Except.ok (ε := Fault) ({ blocks := blocks } : Side))
      (List.map_id _)
  · intro r hr
    obtain ⟨b, -, rfl⟩ := List.mem_map.mp hr
    exact Recorded.isIntact_ofBlock b

/-- A side with a file is read back when its last check was lost, and the loss is told. With its
checks, it is read back from its captured bytes. -/
theorem decodeKnown_modulateBytes_oneFile :
    (∃ pulses, modulateBytes (layoutOf lostCheck) (761 : Nat) = .ok pulses
        ∧ decodeKnown (pulses ++ [])
          = .ok { blocks := oneFile, diagnostics := [.badCheck 74 0 2186] })
      ∧ ∃ raw, ofSide { blocks := oneFile } (some (761 : Nat)) = .ok raw
        ∧ sideOfRaw raw = .ok { blocks := oneFile } := by
  constructor
  · have hroom : (layoutOf lostCheck).length ≤ Layout.capacity := by
      rw [length_layoutOf]
      decide
    obtain ⟨hsome, hread⟩ := @decodeKnown_modulateBytes lostCheck 761 isStandard_oneFile
      hasTitle_oneFile hroom (Nat.le_refl _)
    obtain ⟨pulses, hpulses⟩ := hsome (by decide)
    have hlost := (hread pulses hpulses).1 []
    rw [Recorded.faultsFrom_lostCheck] at hlost
    refine ⟨pulses, hpulses, hlost ?_⟩
    obtain rfl := modulate_eq_of_modulateBytes hpulses
    exact fun i hi => not_gapEnd_behind (List.cons_ne_nil _ _) hi
  · have hroom := (frame_eq_ok_iff.mp frame_oneFile).2
    obtain ⟨hsome, hread⟩ := @decodeKnown_modulateBytes (oneFile.map Recorded.ofBlock)
      761 isStandard_oneFile hasTitle_oneFile hroom (Nat.le_refl _)
    obtain ⟨pulses, hpulses⟩ := hsome (by decide)
    exact (hread pulses hpulses).2 { blocks := oneFile } rfl

end Capture

end FamicomDisk
