import FamicomDisk.Proofs.Scanning
import FamicomDisk.Proofs.StoredChecks
import Mathlib.Tactic.Lemma

/-!
Zeros behind a block.

A gap is zeros, and zeros neither clear the register nor set a clear one. Two readers take the zeros
of a gap into the register, not knowing where the block ends: the scan of a capture, which looks for
a clear register, and the verifier, which is given a block with zeros behind it. Neither is misled
by them.

* `scanFrom_checked`: what a scan takes for a block with a right check are bytes of the capture that
  do check, whatever its thresholds are; by induction over the pulses.
* `checkedPart_append_zeros`: what the verifier checks of a block with zeros behind it.
* `gap_zeros_keep_check`: **a gap neither sets a check right nor spoils it**, for the register and
  for both readers.
-/

namespace FamicomDisk

namespace Recovery

open Mfm

/-! ### The scan -/

/-- Bytes at the beginning of a bit string that check. -/
structure ChecksIn (bits : List Bool) (data : List UInt8) : Prop where
  check_eq : Crc.of data = 0
  isPrefix : Bits.ofBytes data <+: bits

section

variable {th : Thresholds} {previous : Option Block} {base : Int} {u : List (Bool × Nat)} {s : Scan}
  {r : ScanResult}

/-- A scan reads a bit, or it stops there. It tells an end by the check only when the bytes that it
has read check. -/
lemma scanBit_cases (h : s.Reads previous base u) (th : Thresholds) (i : Nat) (last : Bool)
    (ahead : List Pulse) (b : Bool) (pending : List Bool) :
    scanBit th previous (base + i) last ahead b pending s = .ok (s.read previous (base + i) b)
      ∨ ∃ r, scanBit th previous (base + i) last ahead b pending s = .error r
        ∧ (r.checked = true → ChecksIn ((u ++ [(b, i)]).map Prod.fst) r.data) := by
  have hread := h.read b i
  simp only [scanBit]
  split
  · -- the mark behind a gap
    exact .inr ⟨_, rfl, fun hchecked => absurd hchecked Bool.false_ne_true⟩
  · rw [Scan.read] at hread ⊢
    split at hread
    · next hlt =>
      rw [if_pos hlt, if_pos hlt]
      exact .inl rfl
    · next hlt =>
      rw [if_neg hlt, if_neg hlt]
      split
      · next hends =>
        refine .inr ⟨_, rfl, fun _ => ⟨?_, ?_⟩⟩
        · simp only [Bool.and_eq_true, beq_iff_eq] at hends
          rw [Scan.result, ← hread.check_eq]
          exact hends.1.1.2
        · rw [← hread.bits_eq]
          exact List.prefix_append _ _
      · exact .inl rfl

/-- The bits of a pulse are read, or the scan stops among them. -/
lemma scanPulse_cases (h : s.Reads previous base u) (th : Thresholds) (i : Nat) (last : Bool)
    (ahead : List Pulse) (bits : List Bool) :
    (∃ s', scanPulse th previous (base + i) last ahead bits s = .ok s'
        ∧ s'.Reads previous base (u ++ bits.map fun b => (b, i)))
      ∨ ∃ r, scanPulse th previous (base + i) last ahead bits s = .error r
        ∧ (r.checked = true → ChecksIn (u.map Prod.fst ++ bits) r.data) := by
  induction bits generalizing u s with
  | nil => exact .inl ⟨s, rfl, by simpa using h⟩
  | cons b bits ih =>
      rw [scanPulse]
      rcases scanBit_cases h th i last ahead b bits with hbit | ⟨r, hbit, hchecks⟩
      · rw [hbit]
        have hrest := ih (h.read b i)
        rw [List.map_append, List.map_singleton, List.append_assoc, List.append_assoc,
          List.singleton_append, List.singleton_append] at hrest
        exact hrest
      · rw [hbit]
        have hsplit : u.map Prod.fst ++ b :: bits = (u ++ [(b, i)]).map Prod.fst ++ bits := by simp
        rw [hsplit]
        exact .inr ⟨r, rfl, fun hr =>
          ⟨(hchecks hr).check_eq, (hchecks hr).isPrefix.trans (List.prefix_append _ bits)⟩⟩

/-- **What a scan takes for a block with a right check** does check, and was read from the
capture. -/
lemma scanFrom_checked (h : s.Reads previous base u) (th : Thresholds) (i : Nat) (last : Bool)
    (ps : List Pulse) (hchecked : (scanFrom th previous (base + i) last s ps).checked = true) :
    ChecksIn (u.map Prod.fst ++ demodulate last ps)
      (scanFrom th previous (base + i) last s ps).data := by
  induction ps generalizing u s i last with
  | nil => cases hchecked
  | cons p ps ih =>
      rw [scanFrom_cons] at hchecked ⊢
      rw [demodulate_cons, ← List.append_assoc]
      rcases scanPulse_cases h th i (decode last p).2 ps (decode last p).1 with
        ⟨s', hpulse, hs'⟩ | ⟨r, hpulse, hchecks⟩
      · rw [hpulse] at hchecked ⊢
        have hrest := ih hs' (i + 1) (decode last p).2
        rw [Int.natCast_succ, ← Int.add_assoc] at hrest
        have hbits := hrest hchecked
        rwa [List.map_append, List.map_map, show (Prod.fst ∘ fun b => (b, i)) = (id : Bool → Bool)
          from rfl, List.map_id] at hbits
      · rw [hpulse] at hchecked ⊢
        exact ⟨(hchecks hchecked).check_eq,
          (hchecks hchecked).isPrefix.trans (List.prefix_append _ _)⟩

end

/-- Bytes that check do not end in the zeros behind a block that does not check. -/
lemma ChecksIn.not_in_gap {bits : List Bool} {data w : List UInt8} {n : Nat}
    (h : ChecksIn bits data) (hbits : Bits.ofBytes w ++ List.replicate n false <+: bits)
    (hw : Crc.of w ≠ 0) : data.length < w.length ∨ 8 * w.length + n < 8 * data.length := by
  by_contra hin
  obtain ⟨hle, hlast⟩ : w.length ≤ data.length ∧ 8 * data.length ≤ 8 * w.length + n := by omega
  obtain ⟨k, hk⟩ := Nat.exists_eq_add_of_le hle
  -- the bytes are those of the block, and zeros
  have hdata : data = w ++ List.replicate k 0 := by
    refine Bits.ofBytes_injective ?_
    have hgap : Bits.ofBytes data <+: Bits.ofBytes w ++ List.replicate n false :=
      List.prefix_of_prefix_length_le h.isPrefix hbits (by simpa using hlast)
    have hlen : (Bits.ofBytes data).length = (Bits.ofBytes w).length + 8 * k := by
      rw [Bits.length_ofBytes, Bits.length_ofBytes, hk]
      omega
    rw [List.prefix_iff_eq_take.mp hgap, hlen, List.take_length_add_append, List.take_replicate,
      Nat.min_eq_left (by omega), Bits.ofBytes_append, Bits.ofBytes_replicate_zero]
  have hcheck := h.check_eq
  rw [hdata, Crc.of_append_zeros] at hcheck
  exact hw hcheck

/-! ### The verifier -/

/-- What the verifier checks of a block with zeros behind it: the block, with zeros behind it. -/
lemma checkedPart_append_zeros {w : List UInt8} {size : Option Nat}
    (hsize : ∀ m ∈ size, w.length ≤ m + 2) (n : Nat) :
    ∃ k, checkedPart (w ++ List.replicate n 0) size = w ++ List.replicate k 0 := by
  cases size with
  | none => exact ⟨n, rfl⟩
  | some m =>
      have hle := hsize m rfl
      rw [checkedPart]
      split
      · refine ⟨min (m + 2 - w.length) n, ?_⟩
        rw [List.take_append, List.take_of_length_le hle, List.take_replicate]
      · exact ⟨n, rfl⟩

/-- The check of a block of two bytes or more with zeros behind it is reported exactly when the
block does not check. -/
lemma exists_isBadCheck_verifyBlock_iff {w : List UInt8} (hw : 2 ≤ w.length)
    {previous : Option Block}
    (hsize : ∀ m ∈ Block.sizeOf (Block.code ⟨w⟩) previous, w.length ≤ m + 2)
    (mark : UInt8) (n : Nat) (gap : Option Int) (th : Thresholds) (offset : Int) :
    (∃ fault ∈ verifyBlock (mark :: w ++ List.replicate n 0) previous gap th offset,
        fault.isBadCheck = true) ↔ Crc.of w ≠ 0 := by
  obtain ⟨code, rest, rfl⟩ := List.exists_cons_of_length_pos (show 0 < w.length by omega)
  obtain ⟨k, hk⟩ := checkedPart_append_zeros hsize n
  have hchecked : checkedBytes (mark :: (code :: rest) ++ List.replicate n 0) previous
      = code :: rest ++ List.replicate k 0 := hk
  have hfound := checkFault?_found offset (code :: rest ++ List.replicate k 0)
  rw [← hchecked, ← filter_verifyBlock _ previous gap th offset, hchecked,
    Ne, Crc.of_append_zeros] at hfound
  have hlen : 2 ≤ (code :: rest ++ List.replicate k (0 : UInt8)).length := by
    rw [List.length_append]
    omega
  constructor
  · rintro ⟨fault, hmem, hbad⟩ hcheck
    have hnone := hfound.eq_nil fun h => h.2 hcheck
    exact List.not_mem_nil (hnone ▸ List.mem_filter.mpr ⟨hmem, hbad⟩)
  · intro hcheck
    obtain ⟨fault, hone⟩ := List.length_eq_one_iff.mp (hfound.length_eq ⟨hlen, hcheck⟩)
    have hmem := List.mem_filter.mp (hone ▸ List.mem_singleton_self fault)
    exact ⟨fault, hmem⟩

/-! ### Gaps and checks -/

/-- **A gap neither sets a check right nor spoils it.** With zeros behind them, bytes check exactly
when they check without them. So the scan of a capture, whatever its thresholds are, does not come
upon a right check in the gap behind a block whose check is wrong: what it takes for a block with a
right check ends before the end of that block, or behind its gap. And the verifier, given a block
that is not longer than its declared size with any zeros behind it, reports the check exactly when
it is wrong, whether that size is known or not. -/
theorem gap_zeros_keep_check :
    (∀ (data : List UInt8) (n : Nat),
        Crc.of (data ++ List.replicate n 0) = 0 ↔ Crc.of data = 0)
      ∧ (∀ (pulses rest : List Pulse) (offset : Int) (th : Thresholds) (previous : Option Block)
          (w : List UInt8) (n : Nat), readFrom pulses (offset + 1) = .ok rest → Crc.of w ≠ 0 →
          Bits.ofBytes w ++ List.replicate n false <+: demodulate true rest →
        ∃ r, scanBlock pulses offset th previous = .ok r ∧ (r.checked = true →
          Crc.of r.data = 0 ∧ Bits.ofBytes r.data <+: demodulate true rest
            ∧ (r.data.length < w.length ∨ 8 * w.length + n < 8 * r.data.length)))
      ∧ ∀ (mark : UInt8) (w : List UInt8) (n : Nat) (previous : Option Block) (gap : Option Int)
          (th : Thresholds) (offset : Int), 2 ≤ w.length →
          (∀ m ∈ Block.sizeOf (Block.code ⟨w⟩) previous, w.length ≤ m + 2) →
        ((∃ fault ∈ verifyBlock (mark :: w ++ List.replicate n 0) previous gap th offset,
          fault.isBadCheck = true) ↔ Crc.of w ≠ 0) := by
  refine ⟨Crc.of_append_zeros, ?_, ?_⟩
  · intro pulses rest offset th previous w n hread hw hbits
    refine ⟨_, by rw [scanBlock, hread]; rfl, fun hchecked => ?_⟩
    have hstart := Scan.Reads.start previous (offset + 1) (offset + 1)
    have hchecks := scanFrom_checked hstart th 0 true rest
    rw [Int.natCast_zero, Int.add_zero] at hchecks
    have hin : ChecksIn (demodulate true rest) _ := hchecks hchecked
    exact ⟨hin.check_eq, hin.isPrefix, hin.not_in_gap hbits hw⟩
  · intro mark w n previous gap th offset hw hsize
    exact exists_isBadCheck_verifyBlock_iff hw hsize mark n gap th offset

/-- A file count whose check is wrong, and two bytes of zeros behind it. -/
def wrongCount : List Pulse :=
  .medium :: modulator.run .one (Bits.ofBytes [2, 1, 0, 0] ++ List.replicate 16 false)

/-- The check of a file count that is right stays right with two bytes of zeros behind it, and the
verifier does not report it. No end is told by one that is wrong, also when no zeros need to follow
it, and the verifier reports it. -/
theorem gap_zeros_keep_check_fileCount :
    (Crc.of ([2, 1, 0xd5, 0x2e] ++ List.replicate 2 0) = 0
        ∧ ∀ fault ∈ verifyBlock (0x80 :: [2, 1, 0xd5, 0x2e] ++ List.replicate 2 0) none none {} 0,
          fault.isBadCheck = false)
      ∧ Crc.of [2, 1, 0, 0] ≠ 0
      ∧ (∃ r, scanBlock wrongCount 0 { shortGap := 0 } none = .ok r ∧ r.checked = false)
      ∧ ∃ fault ∈ verifyBlock (0x80 :: [2, 1, 0, 0] ++ List.replicate 2 0) none none {} 0,
        fault.isBadCheck = true := by
  obtain ⟨hzeros, hscan, hverify⟩ := gap_zeros_keep_check
  have hright : Crc.of [2, 1, 0xd5, 0x2e] = 0 := by decide +kernel
  have hwrong : Crc.of [2, 1, 0, 0] ≠ 0 := by decide +kernel
  refine ⟨⟨(hzeros _ 2).mpr hright, ?_⟩, hwrong, ?_,
    (hverify 0x80 [2, 1, 0, 0] 2 none none {} 0 (by decide) (by decide)).mpr hwrong⟩
  · intro fault hmem
    have hiff := hverify 0x80 [2, 1, 0xd5, 0x2e] 2 none none {} 0 (by decide) (by decide)
    exact Bool.eq_false_iff.mpr fun hbad => hiff.mp ⟨fault, hmem, hbad⟩ hright
  have hone : Phase.one ≠ .zeroAfterOne := by decide
  have hbits : demodulate true (wrongCount.drop 1)
      = Bits.ofBytes [2, 1, 0, 0] ++ List.replicate 16 false :=
    demodulate_run_append_zeros hone _ (by decide)
  obtain ⟨r, hr, hchecked⟩ := hscan wrongCount (wrongCount.drop 1) 0 { shortGap := 0 } none
    [2, 1, 0, 0] 16 rfl hwrong (hbits ▸ List.prefix_rfl)
  refine ⟨r, hr, ?_⟩
  by_contra htrue
  obtain ⟨hcheck, hread, hlen⟩ := hchecked (Bool.not_eq_false _ ▸ htrue)
  rw [hbits] at hread
  have hle := hread.length_le
  rw [Bits.length_ofBytes, List.length_append, Bits.length_ofBytes, List.length_replicate] at hle
  rw [List.length_cons, List.length_cons, List.length_cons, List.length_cons, List.length_nil]
    at hle hlen
  -- no first bytes of the block check
  have hfirst : r.data = [2, 1, 0, 0].take r.data.length := by
    refine Bits.ofBytes_injective ?_
    rw [← Bits.take_ofBytes, List.prefix_iff_eq_take.mp hread, Bits.length_ofBytes,
      List.take_append_of_le_length (by rw [Bits.length_ofBytes]; simp; omega)]
  have hnone : ∀ k < 4, Crc.of ([2, 1, 0, 0].take k) ≠ 0 := by decide +kernel
  exact hnone r.data.length (by omega) (hfirst ▸ hcheck)

end Recovery

end FamicomDisk
