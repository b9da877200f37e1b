import FamicomDisk.Proofs.Assembling
import FamicomDisk.Proofs.Preceding
import FamicomDisk.Proofs.Seeking

/-!
Recovering any capture.

A capture need not be one of a disk. Nothing that it holds keeps the recovery from coming to its
end: the search for ends moves on from each block to the next one (`exists_ends`), every mark can be
pulled back, and every pulse can be assembled. Only the first block may be missing. It begins where
its search has found the signature of a header or the end of a gap, and in both cases with the pulse
of a mark, so the first pulse that is assembled begins a block.

* `findStart_cases`: **where the first block begins**, and when there is none.
* `exists_marks`: marks are found and pulled back in every capture.
* `exists_assemble`: what is assembled from the pulse of a mark on begins with that mark.
* `reconstruct_total`: **every capture is recovered**, unless no block begins in it.
-/

namespace FamicomDisk

open Capture

namespace Recovery

/-! ### The first block -/

/-- A first block begins in a capture: the signature of a disk header stands in the usual window, or
a gap ends with its mark. -/
def HasStart (pulses : List Pulse) : Prop :=
  (∃ i ≤ signatureWindow, headerSignature <+: pulses.drop i) ∨ gapEnd <:+: pulses

/-- If no header is found, none stands in the usual window. -/
lemma not_signature_of_findHeader? {pulses : List Pulse}
    (hheader : findHeader? (headerBound {} pulses.length) pulses = none) :
    ∀ i ≤ signatureWindow, ¬ headerSignature <+: pulses.drop i := by
  intro i hi hheads
  have hlen := hheads.length_le
  rw [length_headerSignature, List.length_drop] at hlen
  refine not_prefix_of_findHeader? hheader ?_ hheads
  rw [signatureWindow] at hi
  rw [headerBound_usual, length_headerSignature]
  omega

/-- If no header is found, the first block begins where the first gap ends. -/
lemma findStart_of_findHeader? {pulses : List Pulse}
    (hheader : findHeader? (headerBound {} pulses.length) pulses = none) :
    findStart pulses {} = ((Head.seek minGap 0 0 (pulses.drop 0)).map
      fun mark => (mark.offset : Int) - 1).elim (.error (.gapNotFound 0)) .ok := by
  rw [findStart, hheader]
  change (nextGapEnd? {} (placeAt pulses ((0 : Nat) : Int)) >>= _) = _
  rw [nextGapEnd?_eq, ok_bind]
  cases Head.seek minGap 0 0 (pulses.drop 0) <;> rfl

/-- **Where the first block begins**: at the pulse of a mark, if one begins at all. -/
lemma findStart_cases (pulses : List Pulse) :
    (HasStart pulses ∧ ∃ (start : Nat) (rest : List Pulse), findStart pulses {} = .ok (start : Int)
        ∧ pulses.drop start = .medium :: rest)
      ∨ (¬ HasStart pulses ∧ findStart pulses {} = .error (.gapNotFound 0)) := by
  cases hheader : findHeader? (headerBound {} pulses.length) pulses with
  | some start =>
      obtain ⟨hheads, hbound⟩ := prefix_of_findHeader? hheader
      rw [headerBound_usual, length_headerSignature] at hbound
      have hwindow : start ≤ signatureWindow := by
        rw [signatureWindow]
        omega
      obtain ⟨sig, hsig⟩ := headerSignature_eq
      obtain ⟨rest, hrest⟩ := hheads
      refine .inl ⟨.inl ⟨start, hwindow, rest, hrest⟩, start, sig ++ rest, ?_, ?_⟩
      · rw [findStart, hheader]
        rfl
      · rw [← hrest, hsig]
        rfl
  | none =>
      rcases seekMark?_cases pulses 0 with ⟨hseek, hgap⟩ | ⟨pos, hgap, hseek⟩
      · have hseek' : Head.seek minGap 0 0 (pulses.drop 0) = none := hseek
        refine .inr ⟨?_, ?_⟩
        · rintro (⟨i, hi, hheads⟩ | ⟨before, rest, hsplit⟩)
          · exact not_signature_of_findHeader? hheader i hi hheads
          · refine hgap before.length (Nat.zero_le _) ⟨rest, ?_⟩
            rw [← hsplit, List.append_assoc, List.drop_left]
        · rw [findStart_of_findHeader? hheader, hseek', Option.map_none, Option.elim_none]
      · have hseek' : Head.seek minGap 0 0 (pulses.drop 0)
            = some (.ofOffset pulses (pos + minGap + 1)) := hseek
        obtain ⟨rest, hrest⟩ := hgap.gap
        have hinfix : gapEnd <:+: pulses :=
          List.IsInfix.trans ⟨[], rest, hrest⟩ (List.drop_suffix _ _).isInfix
        refine .inl ⟨.inr hinfix, pos + minGap, rest, ?_, ?_⟩
        · have hoffset : ((Head.ofOffset pulses (pos + minGap + 1)).offset : Int) - 1
              = (pos + minGap : Nat) := by
            simp only [Head.ofOffset]
            omega
          rw [findStart_of_findHeader? hheader, hseek', Option.map_some, hoffset, Option.elim_some]
        · rw [← List.drop_drop, ← hrest, gapEnd, List.append_assoc,
            List.drop_left' List.length_replicate]
          rfl

/-! ### The marks -/

/-- Marks are found behind glitches and where blocks end, and all of them can be pulled back. The
search for ends comes to an end by itself. -/
lemma exists_marks {pulses : List Pulse} (hlen : (pulses.length : Int) + 33 ≤ Mfm.maxLength)
    (start : Nat) :
    ∃ gaps stops marks, glitchGaps pulses {} = .ok gaps ∧ Ends pulses (start + 1) none stops
      ∧ blockEnds pulses start {} = .ok (stops.map Nat.cast)
      ∧ consolidate pulses (.ofList (gaps.map Int.ofNat ++ stops.map Nat.cast)) {} = .ok marks := by
  have hgaps : glitchGaps pulses {} = .ok (gapStarts 0 pulses) := by
    rw [glitchGaps_eq (by decide) (by decide),
      glitchGapsFrom_eq [] (by rw [Nat.zero_add]; exact hlen),
      List.append_nil]
    exact congrArg Except.ok (List.reverse_reverse _)
  obtain ⟨stops, hends⟩ := exists_ends pulses (start + 1) none
  have hpull : ∀ n ∈ gapStarts 0 pulses ++ stops,
      pullBack pulses.toArray {} n = .ok (pulled pulses.toArray n) := by
    intro n hn
    refine pullBack_eq ?_
    rw [List.size_toArray]
    rcases List.mem_append.mp hn with hn | hn
    · have hle := le_of_mem_gapStarts hn
      omega
    · exact (hends.le.2 n hn).2
  obtain ⟨marks, hmarks, -⟩ := exists_consolidate hpull
  rw [List.map_append] at hmarks
  exact ⟨_, stops, marks, hgaps, hends, blockEnds_of_ends hends, hmarks⟩

/-! ### The layout -/

/-- The pulse of a mark, read first, begins the first block: it is a one bit behind as many zeros as
a gap must have. -/
lemma exists_begun (marks : Marks) (start : Int) (rest : List Pulse) :
    ∃ a : Assembly, a.InBlock {} 0 [] [] ∧ a.origins = [start]
      ∧ Assembly.run {} marks { place := .gap none ({} : Thresholds).minGap 0 } start
          (.medium :: rest) = Assembly.run {} marks a (start + 1) rest := by
  have hlead : Assembly.InLead {} { place := .gap none ({} : Thresholds).minGap 0 } 0
      ({} : Thresholds).minGap := ⟨⟨rfl, rfl, rfl, rfl⟩, rfl, rfl⟩
  have hplace : ({ place := .gap none ({} : Thresholds).minGap 0 } : Assembly).place
      = .gap none ({} : Thresholds).minGap 0 := rfl
  refine ⟨_, hlead.step_mark (p := .medium) rfl (Int.le_refl _), ?_, rfl⟩
  rw [Assembly.step_gap_mark hplace rfl (Int.le_refl _)]
  rfl

/-- **What is assembled from the pulse of a mark on** begins with that mark: it is the first byte,
it begins the first block, and it comes from that pulse. -/
lemma exists_assemble {pulses rest : List Pulse} {start : Nat} (marks : Marks)
    (hmark : pulses.drop start = .medium :: rest) :
    ∃ rec, assemble pulses start marks {} = .ok rec ∧ rec.layout.head? = some gapEndMark
      ∧ (∃ n, rec.blocks.head? = some (0, n)) ∧ rec.origins.head? = some (start : Int) := by
  have hread : readFrom pulses start = .ok (.medium :: rest) := by
    rw [readFrom, if_pos (Int.natCast_nonneg start), Int.toNat_natCast, hmark]
    rfl
  obtain ⟨a, hblock, horigins, hrun⟩ := exists_begun marks start rest
  have hassemble : assemble pulses start marks {}
      = .ok ((Assembly.run {} marks a (start + 1) rest).finish {}
          (max (start : Int) (pulses.length - 1))) := by
    rw [assemble, hread, ← hrun]
    rfl
  obtain ⟨more, hne, hmade⟩ := (hblock.reached.run marks (start + 1) rest).finish
    (max (start : Int) (pulses.length - 1))
  obtain ⟨piece, more, rfl⟩ := List.exists_cons_of_ne_nil hne
  have hgrown := List.reverse_prefix.mpr (a.origins_run {} marks (start + 1) rest)
  rw [horigins] at hgrown
  obtain ⟨later, hlater⟩ := hgrown.trans (Assembly.origins_finish _ {}
    (max (start : Int) (pulses.length - 1)))
  refine ⟨_, hassemble, ?_, ?_, ?_⟩
  · rw [hmade.layout_eq]
    rfl
  · rw [hmade.blocks_eq]
    exact ⟨_, rfl⟩
  · rw [← hlater]
    rfl

/-- **Every capture is recovered**, unless no block begins in it: then no gap is found, and nothing
else can go wrong. The search for the ends of blocks, of which the number is not known, comes to an
end by itself. What is recovered begins with the mark of its first block, and this comes from the
pulse at which the first block begins. The hypothesis holds of every capture in memory: a byte
string leaves room for 33 more offsets behind it, which the search for a gap behind a glitch may ask
for. -/
theorem reconstruct_total {pulses : List Pulse}
    (hlen : (pulses.length : Int) + 33 ≤ Mfm.maxLength) :
    ((∃ (rec : Recovered) (start : Nat) (stops : List Nat), reconstruct pulses {} = .ok rec
          ∧ findStart pulses {} = .ok (start : Int)
          ∧ Ends pulses (start + 1) none stops
          ∧ blockEnds pulses start {} = .ok (stops.map Nat.cast)
          ∧ rec.layout.head? = some gapEndMark
          ∧ (∃ n, rec.blocks.head? = some (0, n))
          ∧ rec.origins.head? = some (start : Int))
        ∨ reconstruct pulses {} = .error (.gapNotFound 0))
      ∧ (reconstruct pulses {} = .error (.gapNotFound 0)
        ↔ (∀ i ≤ signatureWindow, ¬ headerSignature <+: pulses.drop i)
          ∧ ¬ gapEnd <:+: pulses) := by
  have hstart_iff : ¬ HasStart pulses
      ↔ (∀ i ≤ signatureWindow, ¬ headerSignature <+: pulses.drop i) ∧ ¬ gapEnd <:+: pulses := by
    rw [HasStart, not_or, not_exists]
    simp only [not_and]
  rw [← hstart_iff]
  rcases findStart_cases pulses with ⟨hhas, start, rest, hstart, hmark⟩ | ⟨hnone, hfail⟩
  · obtain ⟨gaps, stops, marks, hgaps, hends, hstops, hmarks⟩ := exists_marks hlen start
    obtain ⟨rec, hrec, hlayout, hblocks, horigins⟩ := exists_assemble marks hmark
    have hok : reconstruct pulses {} = .ok rec := by
      rw [reconstruct, hgaps, ok_bind, hstart, ok_bind, hstops, ok_bind, hmarks, ok_bind]
      exact hrec
    refine ⟨.inl ⟨rec, start, stops, hok, hstart, hends, hstops, hlayout, hblocks, horigins⟩, ?_⟩
    rw [hok]
    exact ⟨fun h => (by cases h), fun h => absurd hhas h⟩
  · obtain ⟨gaps, -, -, hgaps, -⟩ := exists_marks hlen 0
    have herror : reconstruct pulses {} = .error (.gapNotFound 0) := by
      rw [reconstruct, hgaps, ok_bind, hfail, error_bind]
    exact ⟨.inr herror, fun _ => hnone, fun _ => herror⟩

/-- The capture of a side with one file is recovered with its four blocks, from the pulse at which
the first one begins. -/
theorem reconstruct_total_oneFile :
    ∃ pulses rec start, Mfm.modulateBytes (layoutOf (oneFile.map .ofBlock)) (761 : Nat) = .ok pulses
      ∧ (pulses.length : Int) + 33 ≤ Mfm.maxLength
      ∧ reconstruct pulses {} = .ok rec ∧ findStart pulses {} = .ok start
      ∧ rec.layout.head? = some gapEndMark ∧ rec.origins.head? = some start
      ∧ rec.blocks = [(0, 59), (180, 5), (306, 19), (446, 5)] := by
  have hlen := length_modulate_le (frame_eq_ok_iff.mp frame_oneFile).2 761
  have hcapacity : Layout.capacity = 65280 := rfl
  have hmax : Mfm.maxLength = 0x7fffffffffffffff := rfl
  obtain ⟨rec, hrec, hblocks⟩ := exists_reconstruct_oneFile 761
  have hlong : ((Mfm.modulate (List.replicate 761 false
      ++ Bits.ofBytes (layoutOf (oneFile.map .ofBlock)))).length : Int) + 33 ≤ Mfm.maxLength := by
    omega
  obtain ⟨⟨rec', start, -, hrec', hstart, -, -, hlayout, -, horigins⟩ | herror, -⟩ :=
    reconstruct_total hlong
  · obtain rfl : rec' = rec := Except.ok.inj (hrec'.symm.trans hrec)
    exact ⟨_, rec', start, modulateBytes_eq (by decide) _, hlong, hrec, hstart, hlayout,
      horigins, hblocks⟩
  · cases hrec.symm.trans herror

end Recovery

end FamicomDisk
