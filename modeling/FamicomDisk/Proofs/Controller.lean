import FamicomDisk.Proofs.Check
import Mathlib.Logic.Function.Iterate

/-!
The register of the disk controller.

The controller does not compare a bit that comes in with one that drops out. Its register begins with
the mark, every byte joins above the sixteen bits that are there, and eight shifts move it down; two
zero bytes push the last bits through. So at any time the register holds the check of the bytes that
have left it and, over that, the two bytes that have not: `Controller.feed_xor_word` keeps these
two parts apart, and in the end the second one is zero.

* `Controller.shift_xor`: one shift moves one bit from the bytes that wait into the check.
* `Controller.foldl_feed`: what the register holds behind a byte string.
* `of_eq_controller`: **the check of a block is the register of the controller**, in whatever pieces
  the block comes.
-/

namespace FamicomDisk

namespace Crc

namespace Controller

/-- One shift of the register. The polynomial is added when the bit that drops out is a one. -/
def shift (r : Nat) : Nat := (if r.testBit 0 then r ^^^ 0x10810 else r) >>> 1

/-- A byte joins the register above its sixteen bits, and eight shifts move it down. -/
def feed (r : Nat) (b : UInt8) : Nat := shift^[8] (r ||| b.toNat <<< 16)

/-- The register behind a block and two zero bytes, when it begins with the mark. -/
def check (dat : List UInt8) : Nat := (dat ++ [0, 0]).foldl feed 0x8000

/-! ### One shift -/

lemma shift_eq (r : Nat) : shift r = if r.testBit 0 then r >>> 1 ^^^ 0x8408 else r >>> 1 := by
  rw [shift]
  split
  · exact Nat.shiftRight_xor_distrib
  · rfl

/-- **One shift** moves the first of the bits that wait into the check. -/
lemma shift_xor (c : Crc) (b : Bool) (n : Nat) :
    shift (c.toNat ^^^ (b.toNat + 2 * n)) = (feedBit c b).toNat ^^^ n := by
  have hb : b.toNat ≤ 1 := b.toNat_le
  have hfirst : (b.toNat + 2 * n).testBit 0 = b := by
    rw [Nat.testBit_zero]
    cases b <;> simp
  have hrest : (b.toNat + 2 * n) >>> 1 = n := by
    rw [Nat.shiftRight_eq_div_pow]
    omega
  have hlow : c.toNat.testBit 0 = c.getLsbD 0 := rfl
  rw [shift_eq, Nat.testBit_xor, hfirst, hlow, Nat.shiftRight_xor_distrib, hrest, feedBit]
  by_cases h : c.getLsbD 0 = b
  · rw [if_neg (by rw [h, Bool.xor_self]; decide), if_pos (beq_iff_eq.mpr h),
      BitVec.toNat_ushiftRight]
  · rw [if_pos (bne_iff_ne.mpr h), if_neg (mt beq_iff_eq.mp h), BitVec.toNat_xor,
      BitVec.toNat_ushiftRight, Nat.xor_assoc, Nat.xor_comm n, ← Nat.xor_assoc]
    rfl

/-- As many shifts as there are bits move these into the check. -/
lemma iterate_shift (c : Crc) (bits rest : List Bool) :
    shift^[bits.length] (c.toNat ^^^ Bits.value (bits ++ rest))
      = (bits.foldl feedBit c).toNat ^^^ Bits.value rest := by
  induction bits generalizing c with
  | nil => rfl
  | cons b bits ih =>
      have hvalue : Bits.value (b :: bits ++ rest) = b.toNat + 2 * Bits.value (bits ++ rest) := rfl
      rw [List.length_cons, Function.iterate_succ_apply, hvalue, shift_xor, ih, List.foldl_cons]

/-! ### Bytes -/

/-- A byte above sixteen bits leaves these alone. -/
lemma xor_or_shiftLeft {x w : Nat} (n : Nat) (hx : x < 2 ^ 16) (hw : w < 2 ^ 16) :
    (x ^^^ w) ||| n <<< 16 = x ^^^ (w + 2 ^ 16 * n) := by
  have hjoin : w + 2 ^ 16 * n = n <<< 16 ||| w := by
    rw [← Nat.shiftLeft_add_eq_or_of_lt hw, Nat.shiftLeft_eq]
    omega
  rw [hjoin]
  refine Nat.eq_of_testBit_eq fun i => ?_
  rw [Nat.testBit_or, Nat.testBit_xor, Nat.testBit_xor, Nat.testBit_or, Nat.testBit_shiftLeft]
  by_cases hi : 16 ≤ i
  · have hpow : 2 ^ 16 ≤ 2 ^ i := Nat.pow_le_pow_right (by decide) hi
    rw [Nat.testBit_lt_two_pow (Nat.lt_of_lt_of_le hx hpow),
      Nat.testBit_lt_two_pow (Nat.lt_of_lt_of_le hw hpow)]
    simp
  · simp [hi]

/-- **One byte** pushes the first of two that wait into the check, and waits in its place. -/
lemma feed_xor_word (c : Crc) (low high b : UInt8) :
    feed (c.toNat ^^^ Bits.word low high) b
      = (feedByte c low).toNat ^^^ Bits.word high b := by
  have hword : Bits.word low high < 2 ^ 16 := by
    rw [← Bits.value_ofBytes_pair]
    exact Bits.value_lt _
  have hvalue : Bits.word low high + 2 ^ 16 * b.toNat
      = Bits.value (Bits.ofByte low ++ Bits.ofBytes [high, b]) := by
    rw [Bits.value_append, Bits.value_ofByte, Bits.length_ofByte, Bits.value_ofBytes_pair,
      Bits.word, Bits.word]
    omega
  rw [feed, xor_or_shiftLeft _ c.isLt hword, hvalue]
  change shift^[(Bits.ofByte low).length] _ = _
  rw [iterate_shift, Bits.value_ofBytes_pair, feedByte]

/-- **A byte string**: two zero bytes push out the two bytes that wait, so the register ends as the
check of these and of the string. -/
lemma foldl_feed (c : Crc) (low high : UInt8) (dat : List UInt8) :
    (dat ++ [0, 0]).foldl feed (c.toNat ^^^ Bits.word low high)
      = (Crc.feed c (low :: high :: dat)).toNat := by
  induction dat generalizing c low high with
  | nil =>
      have hzero : Bits.word 0 0 = 0 := rfl
      rw [List.nil_append, List.foldl_cons, feed_xor_word, List.foldl_cons, feed_xor_word,
        List.foldl_nil, hzero, Nat.xor_zero]
      rfl
  | cons b dat ih =>
      rw [List.cons_append, List.foldl_cons, feed_xor_word, ih]
      rfl

end Controller

/-- Feeding pieces one after the other is feeding them at once. -/
lemma foldl_feed_flatten (c : Crc) (pieces : List (List UInt8)) :
    pieces.foldl feed c = feed c pieces.flatten := by
  induction pieces generalizing c with
  | nil => rfl
  | cons piece pieces ih => rw [List.foldl_cons, ih, List.flatten_cons, feed_append]

/-- **The check of a block is the register of the controller**: it is that of the mark and the
block from an empty register, it is what the controller holds behind the block, and it does not
depend on the pieces in which the block is fed. -/
theorem of_eq_controller (dat : List UInt8) :
    of dat = feed 0 (gapEndMark :: dat) ∧ (of dat).toNat = Controller.check dat
      ∧ ∀ pieces : List (List UInt8), pieces.foldl feed seed = of pieces.flatten := by
  refine ⟨rfl, ?_, foldl_feed_flatten seed⟩
  -- the register begins with a zero byte and the mark waiting
  have hstart : 0x8000 = (0 : Crc).toNat ^^^ Bits.word 0 gapEndMark := rfl
  have hzero : feedByte 0 0 = 0 := by decide
  calc (of dat).toNat
      = (feed 0 (gapEndMark :: dat)).toNat := rfl
    _ = (feed 0 (0 :: gapEndMark :: dat)).toNat := by rw [feed_cons 0 0, hzero]
    _ = Controller.check dat := by rw [Controller.check, hstart, Controller.foldl_feed]

end Crc

end FamicomDisk
