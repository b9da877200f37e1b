import FamicomDisk.Capture.Known
import FamicomDisk.Proofs.Verifying

/-!
Reading one block from a capture.

Behind the next mark as many bits are taken as a block and its check have, and these are a recorded
block, whatever they are. So one equation says what comes of them (`readNext_of_reading`): the block
with the fault of its check if it begins with the code asked for, and else the fault of its type.

* `length_le_of_readBits`: a reading has the bits that were asked for.
* `readNext_cases`: **what comes of reading** is a recorded block, unless the capture ends.
* `readNext_ne_impossible`, `exists_of_readNext_otherType`, `exists_recorded_of_readNext`: the same
  told by what came of it.
-/

namespace FamicomDisk

open Recovery

/-- A reading has the bits that were asked for. -/
lemma Mfm.length_le_of_readOnto {last : Bool} {before : List Bool} {need offset : Nat}
    {ps : List Pulse} {r : Mfm.Reading} (h : Mfm.readOnto last before need offset ps = some r) :
    before.length + need ≤ r.bits.length := by
  induction ps generalizing last before need offset with
  | nil => simp [Mfm.readOnto] at h
  | cons p ps ih =>
      simp only [Mfm.readOnto] at h
      split at h
      · next hneed =>
        simp only [Option.some.injEq] at h
        subst h
        simp only [List.reverseAux_eq, List.length_reverse, List.length_append]
        omega
      · next hneed =>
        have hlen := ih h
        simp only [List.reverseAux_eq, List.length_append, List.length_reverse] at hlen
        omega

lemma Mfm.length_le_of_readBits {need offset : Nat} {ps : List Pulse} {r : Mfm.Reading}
    (h : Mfm.readBits need offset ps = some r) : need ≤ r.bits.length := by
  simpa using Mfm.length_le_of_readOnto h

namespace Capture

/-- What comes of a recorded block when one that begins with `code` is asked for. -/
def outcome (mark : Head) (reading : Mfm.Reading) (output : Nat) (code : Int) (r : Recorded) :
    Outcome :=
  if r.block.code = code then
    .read r.block.data (r.fault? output) ⟨reading.offset, reading.rest⟩
  else
    .otherType (.wrongType output r.block.code code (some (mark.offset - 1, reading.offset))
      (some ⟨reading.offset, output⟩)) ⟨reading.offset, reading.rest⟩

/-- What comes of reading a recorded block. -/
lemma readNext_of_reading {h mark : Head} {reading : Mfm.Reading} {r : Recorded} (output : Nat)
    (code : Int) (hne : r.block.data ≠ []) (hmark : h.seekMark? minGap = some mark)
    (hread : Mfm.readBits (8 * r.bytes.length) mark.offset mark.rest = some reading)
    (hbits : Bits.pack (reading.bits.take (8 * r.bytes.length)) = r.bytes) :
    readNext h output r.block.data.length code = outcome mark reading output code r := by
  obtain ⟨c, rest, hdata⟩ := List.exists_cons_of_ne_nil hne
  have hlen := r.length_bytes
  have hneed : 8 * ((r.block.data.length : Int) + 2).toNat = 8 * r.bytes.length := by omega
  have hcons : r.bytes = c :: (rest ++ [r.low, r.high]) := by rw [Recorded.bytes, hdata]; rfl
  have hcode : r.block.code = c.toNat := by rw [Block.code, hdata]
  have htake : r.bytes.take r.block.data.length = r.block.data := List.take_left
  have hdrop : r.bytes.drop r.block.data.length = [r.low, r.high] := List.drop_left
  simp only [readNext, hmark, hneed, hread, hbits, outcome, hcode]
  simp only [hcons, Int.toNat_natCast]
  rw [← hcons, htake, hdrop, r.checkFault?_stored]
  by_cases h : (c.toNat : Int) = code
  · rw [if_neg (not_not.mpr h), if_pos h, if_neg (by omega)]
  · rw [if_pos h, if_neg h]

/-- **What comes of reading** a block of any size: the capture ends before it does, or a recorded
block of this size is read. -/
lemma readNext_cases (h : Head) (output : Nat) {size : Nat} (code : Int) (hpos : 0 < size) :
    (∃ offset, readNext h output size code = .noGap offset)
      ∨ ∃ (mark : Head) (reading : Mfm.Reading) (r : Recorded), r.block.data.length = size
        ∧ readNext h output size code = outcome mark reading output code r := by
  cases hmark : h.seekMark? minGap with
  | none => exact .inl ⟨_, by rw [readNext, hmark]⟩
  | some mark =>
      have hneed : 8 * ((size : Int) + 2).toNat = 8 * (size + 2) := by omega
      cases hread : Mfm.readBits (8 * (size + 2)) mark.offset mark.rest with
      | none => exact .inl ⟨mark.offset - 1, by simp only [readNext, hmark, hneed, hread]⟩
      | some reading =>
          have hlen := Mfm.length_le_of_readBits hread
          have hpack : (Bits.pack (reading.bits.take (8 * (size + 2)))).length = size + 2 := by
            refine Bits.length_pack ?_
            rw [List.length_take]
            omega
          obtain ⟨r, hbytes, rfl⟩ := Recorded.exists_bytes_eq hpack
          refine .inr ⟨mark, reading, r, rfl, ?_⟩
          rw [← r.length_bytes] at hread hbytes
          exact readNext_of_reading output code (List.ne_nil_of_length_pos hpos) hmark hread
            hbytes.symm

section

variable {h after : Head} {output size : Nat} {code : Int} {fault : BlockFault}

/-- A block of a size can always be. -/
lemma readNext_ne_impossible (hpos : 0 < size) (cause : Fault) :
    readNext h output size code ≠ .impossible cause := by
  rcases readNext_cases h output code hpos with ⟨offset, hnone⟩ | ⟨mark, reading, r, -, hread⟩
  · rw [hnone]
    exact Outcome.noConfusion
  · rw [hread, outcome]
    split <;> exact Outcome.noConfusion

/-- A block that is passed over has another code. -/
lemma exists_of_readNext_otherType (hpos : 0 < size)
    (hread : readNext h output size code = .otherType fault after) :
    ∃ found span resume, fault = .wrongType output found code (some span) (some resume) := by
  rcases readNext_cases h output code hpos with ⟨offset, hnone⟩ | ⟨mark, reading, r, -, hr⟩
  · cases hnone.symm.trans hread
  · have hout := hr.symm.trans hread
    rw [outcome] at hout
    split at hout
    · cases hout
    · injection hout with hfault
      exact ⟨_, _, _, hfault.symm⟩

/-- A block that is read is a recorded block, and comes with the fault of its check. -/
lemma exists_recorded_of_readNext {data : List UInt8} {fault : Option BlockFault} (hpos : 0 < size)
    (hread : readNext h output size code = .read data fault after) :
    ∃ r : Recorded, r.block = ⟨data⟩ ∧ data.length = size ∧ r.block.code = code
      ∧ fault = r.fault? output := by
  rcases readNext_cases h output code hpos with ⟨offset, hnone⟩ | ⟨mark, reading, r, hlen, hr⟩
  · cases hnone.symm.trans hread
  · have hout := hr.symm.trans hread
    rw [outcome] at hout
    split at hout
    · next hcode =>
      injection hout with hdata hfault
      subst hdata
      exact ⟨r, rfl, hlen, hcode, hfault.symm⟩
    · cases hout

end

end Capture

end FamicomDisk
