import FamicomDisk.Proofs.Extents
import FamicomDisk.Proofs.Moving
import FamicomDisk.Proofs.Sequencing
import FamicomDisk.Proofs.Splices
import FamicomDisk.Recovery.Assembly

/-!
What stands before a disk header.

From the header on a capture is assembled pulse by pulse, and the offset of a pulse only decides
whether a block ends there and where the bytes are said to come from. So a capture with other
pulses before the header is recovered as the disk alone is, with its origins moved.

* `findStart_append`: a disk begins at its header.
* `Assembly.run_moved`: assembling moved pulses.
* `exists_marks_moved`: **the marks on a disk** do not depend on what precedes it.
* `reconstruct_append`: **what precedes a disk header does not matter.**
-/

namespace FamicomDisk

open Mfm

namespace Capture

/-- A pattern that does not stand in the first part of a capture is looked for behind it. -/
lemma firstOccurrence?_append {pattern before pulses : List Pulse} {offset : Nat}
    (h : ∀ i < before.length, ¬ pattern <+: (before ++ pulses).drop i) :
    firstOccurrence? pattern offset (before ++ pulses)
      = firstOccurrence? pattern (offset + before.length) pulses := by
  induction before generalizing offset with
  | nil => rfl
  | cons p before ih =>
      have hhere : ¬ pattern.isPrefixOf (p :: (before ++ pulses)) = true := by
        rw [List.isPrefixOf_iff_prefix]
        exact h 0 (Nat.succ_pos _)
      have hrest : ∀ i < before.length, ¬ pattern <+: (before ++ pulses).drop i := by
        intro i hi
        exact h (i + 1) (Nat.succ_lt_succ hi)
      rw [List.cons_append, firstOccurrence?, if_neg hhere, ih hrest, List.length_cons,
        Nat.add_assoc, Nat.add_comm 1]

lemma firstOccurrence?_prefix {pattern pulses : List Pulse} (h : pattern <+: pulses)
    (offset : Nat) : firstOccurrence? pattern offset pulses = some offset := by
  cases pulses with
  | nil =>
      obtain rfl := List.prefix_nil.mp h
      rfl
  | cons p pulses =>
      rw [firstOccurrence?, if_pos (List.isPrefixOf_iff_prefix.mpr h)]

/-- The header of a disk is found, if it stands among the pulses in which it is looked for. -/
lemma findHeader?_append {before pulses : List Pulse} {bound : Nat}
    (hheader : headerSignature <+: pulses)
    (hfirst : ∀ i < before.length, ¬ headerSignature <+: (before ++ pulses).drop i)
    (hbound : before.length + headerSignature.length ≤ bound) :
    findHeader? bound (before ++ pulses) = some before.length := by
  have htake : (before ++ pulses).take bound = before ++ pulses.take (bound - before.length) := by
    rw [List.take_append, List.take_of_length_le (by omega)]
  have hprefix : headerSignature <+: pulses.take (bound - before.length) :=
    List.prefix_take_iff.mpr ⟨hheader, by omega⟩
  have hnone : ∀ i < before.length,
      ¬ headerSignature <+: (before ++ pulses.take (bound - before.length)).drop i := by
    intro i hi hstands
    rw [← htake, List.drop_take] at hstands
    exact hfirst i hi (hstands.trans (List.take_prefix _ _))
  rw [findHeader?, htake, firstOccurrence?_append hnone, firstOccurrence?_prefix hprefix,
    Nat.zero_add]

end Capture

namespace Recovery

/-- **A disk begins at its header**, which is found within the usual window. -/
lemma findStart_append {before pulses : List Pulse}
    (hheader : Capture.headerSignature <+: pulses) (hbefore : before.length ≤ 65536)
    (hfirst : ∀ i < before.length, ¬ Capture.headerSignature <+: (before ++ pulses).drop i) :
    findStart (before ++ pulses) {} = .ok (before.length : Int) := by
  have hlen := hheader.length_le
  rw [Capture.length_headerSignature] at hlen
  have hbound : before.length + Capture.headerSignature.length
      ≤ headerBound {} (before ++ pulses).length := by
    rw [headerBound_usual, List.length_append, Capture.length_headerSignature]
    omega
  rw [findStart, Capture.findHeader?_append hheader hfirst hbound]
  rfl

/-! ### Assembling -/

namespace Assembly

variable {th : Thresholds} {marks marks' : Marks}

/-- The work on pulses that stand `k` pulses further on. -/
def moved (k : Nat) (a : Assembly) : Assembly := { a with origins := a.origins.map (k + ·) }

lemma emit_moved (k : Nat) (a : Assembly) (offset : Int) (b : Bool) :
    (a.moved k).emit (k + offset) b = (a.emit offset b).moved k := by
  by_cases h : a.count % 8 = 0 <;> simp [emit, moved, h]

lemma foldl_emit_moved (k : Nat) (a : Assembly) (offset : Int) (bits : List Bool) :
    bits.foldl (·.emit (k + offset)) (a.moved k)
      = (bits.foldl (·.emit offset) a).moved k := by
  induction bits generalizing a with
  | nil => rfl
  | cons b bits ih => rw [List.foldl_cons, List.foldl_cons, emit_moved, ih]

lemma emitZeros_moved (k : Nat) (a : Assembly) (offset : Int) (n : Nat) :
    (a.moved k).emitZeros (k + offset) n = (a.emitZeros offset n).moved k :=
  foldl_emit_moved k a offset _

lemma verify_moved (k : Nat) (a : Assembly) (start : Option Nat) (stop : Nat)
    (gap : Option Int) :
    (a.moved k).verify th start stop gap = (a.verify th start stop gap).moved k := by
  cases start <;> rfl

lemma endBlock_moved (k : Nat) (a : Assembly) (offset : Int) (start : Nat) :
    (a.moved k).endBlock (k + offset) start = (a.endBlock offset start).moved k := by
  have hdebt : (a.moved k).toFullByte = a.toFullByte := rfl
  rw [endBlock, endBlock, hdebt, emitZeros_moved]
  rfl

lemma beginBlock_moved (k : Nat) (a : Assembly) (offset : Int) (before : Option Nat)
    (zeros : Int) :
    (a.moved k).beginBlock th (k + offset) before zeros
      = (a.beginBlock th offset before zeros).moved k := by
  have hcount : ∀ a : Assembly, (a.moved k).count = a.count := fun _ => rfl
  simp only [beginBlock, hcount, emitZeros_moved, verify_moved, emit_moved]
  rfl

/-- A bit of a gap further on is passed over in the same way. -/
lemma gapBit_moved (k : Nat) (a : Assembly) (offset : Int) (before : Option Nat) (zeros : Int)
    (debt : Nat) (b : Bool) :
    gapBit (k + offset) before (a.moved k, zeros, debt) b
      = ((gapBit offset before (a, zeros, debt) b).1.moved k,
          (gapBit offset before (a, zeros, debt) b).2) := by
  simp only [gapBit, emit_moved]
  split <;> rfl

lemma foldl_gapBit_moved (k : Nat) (offset : Int) (before : Option Nat)
    (s : Assembly × Int × Nat) (bits : List Bool) :
    bits.foldl (gapBit (k + offset) before) (s.1.moved k, s.2)
      = ((bits.foldl (gapBit offset before) s).1.moved k,
          (bits.foldl (gapBit offset before) s).2) := by
  induction bits generalizing s with
  | nil => rfl
  | cons b bits ih =>
      obtain ⟨a, zeros, debt⟩ := s
      rw [List.foldl_cons, List.foldl_cons, gapBit_moved, ih]

lemma applyMark_moved (k : Nat) (a : Assembly) (marked : Bool) (offset : Int) :
    (a.moved k).applyMark marked (k + offset) = (a.applyMark marked offset).moved k := by
  have hplace : (a.moved k).place = a.place := rfl
  cases marked with
  | false => rfl
  | true =>
      cases ha : a.place with
      | gap before zeros debt => simp only [applyMark, hplace, ha]
      | block start => simp only [applyMark, hplace, ha, endBlock_moved]

/-- Go on by the bits of a pulse, wherever the work is. -/
def addBits (th : Thresholds) (a : Assembly) (offset : Int) (bits : List Bool) : Assembly :=
  match a.place with
  | .block _ => bits.foldl (·.emit offset) a
  | .gap before zeros debt =>
      if bits = [true] ∧ th.minGap ≤ zeros then a.beginBlock th offset before zeros
      else (bits.foldl (gapBit offset before) (a, zeros, debt)).1

/-- A step is a mark and then the bits of a pulse. -/
lemma step_eq_addBits (th : Thresholds) (marks : Marks) (a : Assembly) (offset : Int) (p : Pulse) :
    a.step th marks offset p
      = addBits th { a.applyMark (marks.contains offset) offset with
            last := (Mfm.decode (a.applyMark (marks.contains offset) offset).last p).2 } offset
          (Mfm.decode (a.applyMark (marks.contains offset) offset).last p).1 := rfl

lemma addBits_moved (k : Nat) (a : Assembly) (offset : Int) (bits : List Bool) :
    (a.moved k).addBits th (k + offset) bits = (a.addBits th offset bits).moved k := by
  have hplace : (a.moved k).place = a.place := rfl
  rw [addBits, addBits, hplace]
  cases a.place with
  | block start => exact foldl_emit_moved k a offset bits
  | gap before zeros debt =>
      dsimp only
      split
      · exact beginBlock_moved k a offset before zeros
      · exact congrArg Prod.fst (foldl_gapBit_moved k offset before (a, zeros, debt) bits)

/-- **One pulse further on** is assembled in the same way, if it is marked as it was. -/
lemma step_moved (k : Nat) (a : Assembly) (offset : Int) (p : Pulse)
    (h : marks'.contains (k + offset) = marks.contains offset) :
    (a.moved k).step th marks' (k + offset) p = (a.step th marks offset p).moved k := by
  rw [step_eq_addBits, step_eq_addBits, h, applyMark_moved, ← addBits_moved]
  rfl

/-- **Pulses further on** are assembled in the same way, by induction over the pulses. -/
lemma run_moved (k : Nat) (a : Assembly) {offset : Int} (ps : List Pulse) (hoffset : 0 ≤ offset)
    (h : ∀ x : Int, 0 ≤ x → marks'.contains (k + x) = marks.contains x) :
    (a.moved k).run th marks' (k + offset) ps = (a.run th marks offset ps).moved k := by
  induction ps generalizing a offset with
  | nil => rfl
  | cons p ps ih =>
      rw [run, run, step_moved k a offset p (h offset hoffset), Int.add_assoc]
      exact ih _ (by omega)

/-- Work that ends further on gives the same, with other origins. -/
lemma finish_moved (k : Nat) (a : Assembly) (offset : Int) :
    (a.moved k).finish th (k + offset)
      = { a.finish th offset with origins := (a.finish th offset).origins.map (k + ·) } := by
  have hbyte : (a.moved k).toFullByte = a.toFullByte := rfl
  have hplace : ∀ a : Assembly, (a.moved k).place = a.place := fun _ => rfl
  have hcount : ∀ a : Assembly, (a.moved k).count = a.count := fun _ => rfl
  have horigins : ∀ a : Assembly,
      (a.moved k).origins.reverse = a.origins.reverse.map ((k : Int) + ·) :=
    fun a => List.map_reverse.symm
  simp only [finish, hbyte, emitZeros_moved, hplace, hcount]
  cases (a.emitZeros offset a.toFullByte).place with
  | block start => simp only [verify_moved, horigins]; rfl
  | gap before zeros debt => simp only [verify_moved, horigins]; rfl

end Assembly

/-! ### The whole recovery -/

section

variable {before pulses : List Pulse}

/-- **The marks on a disk** are those that it has alone, if more marks are set before it only. -/
lemma exists_marks_moved {near xs : List Nat} (hheader : Capture.headerSignature <+: pulses)
    (hxs : ∀ x ∈ xs, 16 ≤ x ∧ x ≤ pulses.length) (hnear : ∀ z ∈ near, z < before.length) :
    ∃ marks marks', consolidate pulses (.ofList (xs.map Nat.cast : List Int)) {} = .ok marks
      ∧ consolidate (before ++ pulses)
          (.ofList ((near ++ xs.map (before.length + ·)).map Nat.cast : List Int)) {} = .ok marks'
      ∧ ∀ x : Int, 0 ≤ x → marks'.contains (before.length + x) = marks.contains x := by
  have halone : ∀ n ∈ xs, pullBack pulses.toArray {} n = .ok (pulled pulses.toArray n) := by
    intro n hn
    exact pullBack_eq (hxs n hn).2
  have hbehind : ∀ n ∈ near ++ xs.map (before.length + ·),
      pullBack (before ++ pulses).toArray {} n
        = .ok (pulled (before ++ pulses).toArray n) := by
    intro n hn
    refine pullBack_eq ?_
    rw [List.size_toArray, List.length_append]
    rcases List.mem_append.mp hn with hn | hn
    · have hlt := hnear n hn
      omega
    · obtain ⟨x, hx, rfl⟩ := List.mem_map.mp hn
      have hle := (hxs x hx).2
      omega
  obtain ⟨marks, hmarks, hcontains⟩ := exists_consolidate halone
  obtain ⟨marks', hmarks', hcontains'⟩ := exists_consolidate hbehind
  refine ⟨marks, marks', hmarks, hmarks', ?_⟩
  intro x hx
  obtain ⟨i, rfl⟩ := Int.eq_ofNat_of_zero_le hx
  rw [Bool.eq_iff_iff]
  have hcast : ((before.length : Int) + (i : Int)) = ((before.length + i : Nat) : Int) := rfl
  rw [hcast, hcontains', hcontains]
  constructor
  · rintro ⟨n, hn, heq⟩
    rcases List.mem_append.mp hn with hn | hn
    · -- marks before the disk stay before it
      have hlt := hnear n hn
      have hle := pulled_le (before ++ pulses).toArray n
      omega
    · obtain ⟨m, hm, rfl⟩ := List.mem_map.mp hn
      rw [pulled_moved before hheader (hxs m hm).1] at heq
      exact ⟨m, hm, by omega⟩
  · rintro ⟨m, hm, heq⟩
    refine ⟨before.length + m, List.mem_append_right _ (List.mem_map_of_mem hm), ?_⟩
    rw [pulled_moved before hheader (hxs m hm).1, heq]

/-- Assembling moved pulses gives the same, with other origins. -/
lemma exists_assemble_moved {marks marks' : Marks}
    (h : ∀ x : Int, 0 ≤ x → marks'.contains (before.length + x) = marks.contains x) :
    ∃ r, assemble pulses 0 marks {} = .ok r
      ∧ assemble (before ++ pulses) before.length marks' {}
        = .ok { r with origins := r.origins.map ((before.length : Int) + ·) } := by
  have hrun : Assembly.run {} marks' { place := .gap none ({} : Thresholds).minGap 0 }
        before.length pulses
      = (Assembly.run {} marks { place := .gap none ({} : Thresholds).minGap 0 } 0 pulses).moved
          before.length := by
    rw [← Assembly.run_moved before.length _ pulses (Int.le_refl 0) h, Int.add_zero]
    rfl
  have hread : readFrom (before ++ pulses) before.length = .ok pulses := by
    rw [readFrom, if_pos (by omega), Int.toNat_natCast, List.drop_left]
    rfl
  have hlast : max (before.length : Int) ((before ++ pulses).length - 1)
      = before.length + max 0 ((pulses.length : Int) - 1) := by
    rw [List.length_append]
    omega
  refine ⟨_, rfl, ?_⟩
  rw [assemble, hread, ok_bind, hlast, hrun, ← Assembly.finish_moved]
  rfl

/-- No header begins where no mark stands. -/
lemma not_signature_drop_append (h : .medium ∉ before) :
    ∀ i < before.length, ¬ Capture.headerSignature <+: (before ++ pulses).drop i := by
  intro i hi hheads
  obtain ⟨sig, hsig⟩ := Capture.headerSignature_eq
  rw [List.drop_append_of_le_length hi.le, List.drop_eq_getElem_cons hi, List.cons_append,
    hsig] at hheads
  obtain ⟨hmark, -⟩ := List.cons_prefix_cons.mp hheads
  exact h (hmark ▸ List.getElem_mem hi)

/-- The capture of a layout that fits into a slot has no more pulses than the slot has bits, and
the lead-in. -/
lemma length_modulate_le {layout : List UInt8} (hroom : layout.length ≤ Layout.capacity)
    (leadIn : Nat) : (modulate (List.replicate leadIn false ++ Bits.ofBytes layout)).length
      ≤ leadIn + 8 * Layout.capacity := by
  have hlen := length_run_le .zero (List.replicate leadIn false ++ Bits.ofBytes layout)
  rw [List.length_append, List.length_replicate, Bits.length_ofBytes] at hlen
  exact hlen.trans (Nat.add_le_add_left (Nat.mul_le_mul_left 8 hroom) leadIn)

/-- **What precedes a disk header does not matter**: if no header stands in the first part of a
capture, which is not longer than the usual window, a disk behind it is recovered as it is alone,
with its origins moved. The last hypothesis holds of every capture in memory: a byte string leaves
room for 33 more offsets behind it, which the search for a gap behind a glitch may ask for. -/
theorem reconstruct_append (hheader : Capture.headerSignature <+: pulses)
    (hbefore : before.length ≤ 65536)
    (hfirst : ∀ i < before.length, ¬ Capture.headerSignature <+: (before ++ pulses).drop i)
    (hlen : ((before ++ pulses).length : Int) + 33 ≤ maxLength) :
    ∃ r, reconstruct pulses {} = .ok r
      ∧ reconstruct (before ++ pulses) {}
        = .ok { r with origins := r.origins.map ((before.length : Int) + ·) } := by
  obtain ⟨near, gaps, hgaps, hgaps', hnear, hgapsOn⟩ := exists_glitchGaps_append hheader hlen
  have hstart : findStart pulses {} = .ok 0 :=
    @findStart_append [] pulses hheader (Nat.zero_le _) (by simp)
  have hstart' := findStart_append hheader hbefore hfirst
  obtain ⟨stops, hstops, hstops', hstopsOn⟩ := exists_blockEnds_append before hheader
  -- all marks on the disk are far enough behind its header
  have hmarked : ∀ x ∈ gaps ++ stops, 16 ≤ x ∧ x ≤ pulses.length := by
    intro x hx
    rcases List.mem_append.mp hx with hx | hx
    · exact hgapsOn x hx
    · exact hstopsOn x hx
  obtain ⟨marks, marks', hmarks, hmarks', hcontains⟩ := exists_marks_moved hheader hmarked hnear
  obtain ⟨r, hr, hr'⟩ : ∃ r, assemble pulses 0 marks {} = .ok r
      ∧ assemble (before ++ pulses) before.length marks' {}
        = .ok { r with origins := r.origins.map ((before.length : Int) + ·) } :=
    exists_assemble_moved hcontains
  have hofNat : ∀ xs : List Nat, xs.map Int.ofNat = xs.map Nat.cast := fun _ => rfl
  rw [List.map_append] at hmarks
  rw [List.map_append, List.map_append, List.map_append, ← List.append_assoc,
    ← List.map_append] at hmarks'
  refine ⟨r, ?_, ?_⟩
  · rw [reconstruct, hgaps, ok_bind, hstart, ok_bind, hstops, ok_bind, hofNat, hmarks, ok_bind]
    exact hr
  · rw [reconstruct, hgaps', ok_bind, hstart', ok_bind, hstops', ok_bind, hofNat, hmarks', ok_bind]
    exact hr'

/-- A side with one file, behind a splice that ends just before its header, is recovered with its
four blocks. -/
theorem reconstruct_append_oneFile :
    ∃ r, reconstruct (.medium :: surface (oneFile.map .ofBlock)) {} = .ok r
      ∧ r.blocks = [(0, 59), (180, 5), (306, 19), (446, 5)]
      ∧ reconstruct (.glitch :: List.replicate 17 .short
          ++ .medium :: surface (oneFile.map .ofBlock)) {}
        = .ok { r with origins := r.origins.map (((18 : Nat) : Int) + ·) } := by
  have hheader : Capture.headerSignature <+: .medium :: surface (oneFile.map .ofBlock) :=
    Capture.headerSignature_prefix_surface hasTitle_oneFile
  have hcapture : modulate (List.replicate 0 false
      ++ Bits.ofBytes (layoutOf (oneFile.map .ofBlock)))
        = List.replicate 7 .short ++ .medium :: surface (oneFile.map .ofBlock) :=
    modulate_layoutOf 0 _ _
  have hlen := length_modulate_le (frame_eq_ok_iff.mp frame_oneFile).2 0
  obtain ⟨rec, hrec, hblocks⟩ := exists_reconstruct_oneFile 0
  rw [hcapture] at hlen hrec
  generalize Pulse.medium :: surface (oneFile.map .ofBlock) = pulses at *
  rw [List.length_append, List.length_replicate] at hlen
  have hcapacity : Layout.capacity = 65280 := rfl
  have hmax : maxLength = 0x7fffffffffffffff := rfl
  have hlong : ∀ before : List Pulse, before.length ≤ 65536 →
      ((before ++ pulses).length : Int) + 33 ≤ maxLength := by
    intro before hle
    rw [List.length_append]
    omega
  -- the side alone, and behind the zeros of its first mark
  obtain ⟨r, hr, hzeros⟩ := @reconstruct_append (List.replicate 7 .short) pulses hheader
    (by decide) (not_signature_drop_append (by decide)) (hlong _ (by decide))
  obtain ⟨r', hr', hsplice⟩ := @reconstruct_append (.glitch :: List.replicate 17 .short) pulses
    hheader (by decide) (not_signature_drop_append (by decide)) (hlong _ (by decide))
  obtain rfl : r = r' := Except.ok.inj (hr.symm.trans hr')
  obtain rfl := Except.ok.inj (hzeros.symm.trans hrec)
  exact ⟨r, hr, hblocks, hsplice⟩

end

end Recovery

end FamicomDisk
