import FamicomDisk.Crc
import FamicomDisk.Proofs.Packing
import Mathlib.Algebra.Group.Nat.Defs

/-!
The block check as a function on bits.

One step of the register is invertible: `feedBit_toNat_eq_iff` tells the register before a bit from
the one after it, as long as that is small. Two facts follow, and they are all that a reader of the
disk relies on.

* `foldl_feedBit_eq_zero_iff`: of all bit strings of a length up to sixteen just one takes a
  register to zero, the one that spells it. Hence `of_append_stored`: a block and the two bytes
  behind it check exactly when these are its check.
* `feed_zeros_eq_zero_iff`: zero bytes neither clear a register nor set a clear one, so no block
  begins to check in the gap behind it, and none ceases to.
-/

namespace FamicomDisk

namespace Bits

lemma value_append (xs ys : List Bool) :
    value (xs ++ ys) = value xs + 2 ^ xs.length * value ys := by
  induction xs with
  | nil => simp [value]
  | cons b xs ih =>
      have hstep : ∀ zs, value (b :: zs) = b.toNat + 2 * value zs := fun _ => rfl
      rw [List.cons_append, hstep, hstep, ih, List.length_cons, Nat.pow_succ, Nat.mul_add,
        Nat.mul_comm (2 ^ xs.length) 2, Nat.mul_assoc]
      omega

lemma value_lt (bits : List Bool) : value bits < 2 ^ bits.length := by
  induction bits with
  | nil => simp [value]
  | cons b bits ih =>
      have hb : b.toNat ≤ 1 := b.toNat_le
      have hstep : value (b :: bits) = b.toNat + 2 * value bits := rfl
      rw [hstep, List.length_cons, Nat.pow_succ]
      omega

@[simp] lemma value_ofByte (b : UInt8) : value (ofByte b) = b.toNat := by
  have hlt : value (ofByte b) < 2 ^ 8 := by simpa using value_lt (ofByte b)
  have hb := congrArg UInt8.toNat (toByte_ofByte b)
  rwa [toByte, UInt8.toNat_ofNat_of_lt' hlt] at hb

/-- A word is spelt by its two bytes. -/
lemma value_ofBytes_pair (low high : UInt8) : value (ofBytes [low, high]) = word low high := by
  rw [ofBytes_cons, ofBytes_cons, ofBytes_nil, List.append_nil, value_append, value_ofByte,
    value_ofByte, length_ofByte]
  rfl

/-- The two bytes of a word spell it. -/
lemma word_ofNat {w : Nat} (h : w < 65536) : word (UInt8.ofNat w) (UInt8.ofNat (w / 256)) = w := by
  rw [word, UInt8.toNat_ofNat_of_lt' (show w / 256 < 256 by omega), UInt8.toNat_ofNat']
  omega

/-- The two bytes of the word that two bytes spell are these. -/
lemma ofWord_word (low high : UInt8) : ofWord (word low high) = [low, high] := by
  have hlow := low.toNat_lt
  have hhigh := high.toNat_lt
  rw [ofWord, word]
  congr 2
  · refine UInt8.toNat_inj.mp ?_
    rw [UInt8.toNat_ofNat']
    omega
  · refine UInt8.toNat_inj.mp ?_
    rw [UInt8.toNat_ofNat']
    omega

end Bits

namespace Crc

/-- The register after one more bit, when that is below the top bit. -/
lemma feedBit_toNat_eq_iff (c : Crc) (b : Bool) {v : Nat} (hv : v < 2 ^ 15) :
    (feedBit c b).toNat = v ↔ c.toNat = b.toNat + 2 * v := by
  have hlow : c.getLsbD 0 = decide (c.toNat % 2 = 1) := by
    rw [BitVec.getLsbD, Nat.testBit_zero]
  by_cases h : c.getLsbD 0 = b
  · have hstep : feedBit c b = c >>> 1 := by
      rw [feedBit, if_pos (by rw [h, beq_self_eq_true])]
    rw [hstep, BitVec.toNat_ushiftRight, Nat.shiftRight_eq_div_pow]
    have hpar : c.toNat % 2 = b.toNat := by
      rw [← h, hlow]
      rcases Nat.mod_two_eq_zero_or_one c.toNat with e | e <;> simp [e]
    omega
  · -- the polynomial sets the top bit, which the shift has left clear
    have hstep : feedBit c b = (c >>> 1) ^^^ 0x8408#16 := by
      rw [feedBit, if_neg (by rwa [beq_iff_eq])]
    have htop : (feedBit c b).toNat.testBit 15 = true := by
      rw [hstep]
      have hc : (c >>> 1).getLsbD 15 = false := by simp
      have hx : ((c >>> 1) ^^^ 0x8408#16).getLsbD 15 = true := by
        rw [BitVec.getLsbD_xor, hc]
        decide
      exact hx
    have hge := Nat.ge_two_pow_of_testBit htop
    have hpar : c.toNat % 2 ≠ b.toNat := by
      intro e
      refine h ?_
      rw [hlow]
      cases b <;> simp_all
    have hb : b.toNat ≤ 1 := b.toNat_le
    omega

/-- Of the bit strings of a length up to sixteen the one that spells a register clears it. -/
lemma foldl_feedBit_eq_zero_iff (c : Crc) (bits : List Bool) (h : bits.length ≤ 16) :
    bits.foldl feedBit c = 0 ↔ c.toNat = Bits.value bits := by
  induction bits generalizing c with
  | nil => simp [Bits.value, BitVec.toNat_eq]
  | cons b bits ih =>
      rw [List.length_cons] at h
      have hlt : Bits.value bits < 2 ^ 15 :=
        Nat.lt_of_lt_of_le (Bits.value_lt bits) (Nat.pow_le_pow_right (by omega) (by omega))
      rw [List.foldl_cons, ih _ (by omega), feedBit_toNat_eq_iff _ _ hlt]
      rfl

/-- Zero bits neither clear a register nor set a clear one. -/
lemma foldl_zeros_eq_zero_iff (c : Crc) (n : Nat) :
    (List.replicate n false).foldl feedBit c = 0 ↔ c = 0 := by
  induction n generalizing c with
  | zero => rfl
  | succ n ih =>
      rw [List.replicate_succ, List.foldl_cons, ih, ← BitVec.toNat_inj, ← BitVec.toNat_inj]
      exact feedBit_toNat_eq_iff c false (by decide)

/-- The register takes in a byte string bit by bit. -/
lemma feed_eq_foldl (c : Crc) (bytes : List UInt8) :
    feed c bytes = (Bits.ofBytes bytes).foldl feedBit c := by
  induction bytes generalizing c with
  | nil => rfl
  | cons b bytes ih => rw [feed_cons, ih, Bits.ofBytes_cons, List.foldl_append, feedByte]

lemma of_append (xs ys : List UInt8) : of (xs ++ ys) = feed (of xs) ys := feed_append seed xs ys

/-- Zero bytes neither clear a register nor set a clear one. -/
lemma feed_zeros_eq_zero_iff (c : Crc) (n : Nat) : feed c (List.replicate n 0) = 0 ↔ c = 0 := by
  rw [feed_eq_foldl, Bits.ofBytes_replicate_zero, foldl_zeros_eq_zero_iff]

/-- A block with zeros behind it checks exactly when it checks itself. -/
lemma of_append_zeros (data : List UInt8) (n : Nat) :
    of (data ++ List.replicate n 0) = 0 ↔ of data = 0 := by
  rw [of_append, feed_zeros_eq_zero_iff]

/-- A block and the two bytes behind it check exactly when these spell its check. -/
lemma of_append_stored (data : List UInt8) (low high : UInt8) :
    of (data ++ [low, high]) = 0 ↔ Bits.word low high = (of data).toNat := by
  rw [of_append, feed_eq_foldl, foldl_feedBit_eq_zero_iff _ _ (by simp), Bits.value_ofBytes_pair]
  exact eq_comm

/-- The stored check of a block is the two bytes that spell it. -/
lemma word_bytes (data : List UInt8) : ∃ low high : UInt8,
    bytes data = [low, high] ∧ Bits.word low high = (of data).toNat :=
  ⟨_, _, rfl, Bits.word_ofNat (of data).isLt⟩

end Crc

end FamicomDisk
