import FamicomDisk.Bits
import Mathlib.Tactic.Lemma

/-!
Byte strings as bit strings.

A byte string and the bits of it on the disk are two views of one thing: `Bits.ofBytes` is
additive (`ofBytes_append`), eight bits a byte (`length_ofBytes`), and on bit strings that fill
whole bytes it is the inverse of `Bits.pack` (`ofBytes_pack`). So a bit string that is a whole
number of bytes long may be exchanged for its bytes in every argument about a capture.

* `ofByte_toByte`: eight bits are the bits of one byte.
* `ofBytes_injective`: a byte string is known when its bits are.
-/

namespace FamicomDisk

namespace Bits

@[simp] lemma ofBytes_nil : ofBytes [] = [] := rfl

@[simp] lemma ofBytes_cons (b : UInt8) (bytes : List UInt8) :
    ofBytes (b :: bytes) = ofByte b ++ ofBytes bytes := rfl

@[simp] lemma ofBytes_append (xs ys : List UInt8) : ofBytes (xs ++ ys) = ofBytes xs ++ ofBytes ys :=
  List.flatMap_append

@[simp] lemma length_ofBytes (bytes : List UInt8) : (ofBytes bytes).length = 8 * bytes.length := by
  induction bytes with
  | nil => rfl
  | cons b bytes ih =>
      simp only [ofBytes_cons, List.length_append, length_ofByte, ih, List.length_cons]
      omega

/-- The bits of the first bytes are the first bits. -/
lemma take_ofBytes (bytes : List UInt8) (n : Nat) :
    (ofBytes bytes).take (8 * n) = ofBytes (bytes.take n) := by
  induction n generalizing bytes with
  | zero => rfl
  | succ n ih =>
      cases bytes with
      | nil => simp
      | cons b bytes =>
          have hbyte : (ofByte b).length ≤ 8 * (n + 1) := by
            rw [length_ofByte]
            omega
          rw [ofBytes_cons, List.take_append, List.take_of_length_le hbyte, length_ofByte,
            show 8 * (n + 1) - 8 = 8 * n by omega, ih, List.take_succ_cons, ofBytes_cons]

lemma drop_ofBytes (bytes : List UInt8) (n : Nat) :
    (ofBytes bytes).drop (8 * n) = ofBytes (bytes.drop n) := by
  induction n generalizing bytes with
  | zero => rfl
  | succ n ih =>
      cases bytes with
      | nil => simp
      | cons b bytes =>
          have hbyte : (ofByte b).length ≤ 8 * (n + 1) := by
            rw [length_ofByte]
            omega
          rw [ofBytes_cons, List.drop_append, List.drop_of_length_le hbyte, length_ofByte,
            show 8 * (n + 1) - 8 = 8 * n by omega, ih, List.drop_succ_cons, List.nil_append]

/-- A byte string without a one bit is zero. -/
lemma true_not_mem_ofBytes {bytes : List UInt8} :
    (true ∉ ofBytes bytes) ↔ ∀ b ∈ bytes, b = 0 := by
  have hbyte : ∀ b : UInt8, (true ∉ ofByte b) ↔ b = 0 := by
    intro b
    constructor
    · intro h
      have hz : ofByte b = ofByte 0 := by
        rw [List.eq_replicate_iff.mpr ⟨length_ofByte b, fun c hc => ?_⟩]
        · rfl
        · cases c with
          | true => exact absurd hc h
          | false => rfl
      rw [← toByte_ofByte b, hz]
      rfl
    · rintro rfl
      decide
  induction bytes with
  | nil => simp
  | cons b bytes ih =>
      rw [ofBytes_cons, List.mem_append, not_or, List.forall_mem_cons]
      exact and_congr (hbyte b) ih

/-- Zero bytes are zero bits. -/
lemma ofBytes_replicate_zero (n : Nat) :
    ofBytes (List.replicate n 0) = List.replicate (8 * n) false := by
  induction n with
  | zero => rfl
  | succ n ih =>
      have hz : ofByte 0 = List.replicate 8 false := by decide
      rw [List.replicate_succ, ofBytes_cons, ih, hz, List.replicate_append_replicate]
      congr 1
      omega

/-- Eight bits are the bits of one byte. -/
lemma ofByte_toByte {bits : List Bool} (h : bits.length = 8) : ofByte (toByte bits) = bits := by
  match bits, h with
  | [b₀, b₁, b₂, b₃, b₄, b₅, b₆, b₇], _ =>
      revert b₀ b₁ b₂ b₃ b₄ b₅ b₆ b₇
      decide

/-- A bit string as long as whole bytes is the bits of its packing. -/
lemma ofBytes_pack {bits : List Bool} (h : 8 ∣ bits.length) : ofBytes (pack bits) = bits := by
  obtain ⟨n, hn⟩ := h
  induction n generalizing bits with
  | zero =>
      obtain rfl := List.eq_nil_of_length_eq_zero hn
      rfl
  | succ n ih =>
      have h8 : (bits.take 8).length = 8 := by
        rw [List.length_take]
        omega
      have hrest : (bits.drop 8).length = 8 * n := by
        rw [List.length_drop]
        omega
      rw [← List.take_append_drop 8 bits, pack_append _ _ h8, ofBytes_cons, ofByte_toByte h8,
        ih hrest]

lemma ofBytes_injective : Function.Injective ofBytes := fun xs ys h => by
  rw [← pack_ofBytes xs, h, pack_ofBytes]

lemma length_pack {bits : List Bool} {n : Nat} (h : bits.length = 8 * n) :
    (pack bits).length = n := by
  have hb := congrArg List.length (ofBytes_pack (⟨n, h⟩ : 8 ∣ bits.length))
  rw [length_ofBytes, h] at hb
  omega

/-- A last zero of the last byte is filled in where it is missing. -/
lemma pack_concat_false {bits : List Bool} {n : Nat} (h : bits.length = 8 * n + 7) :
    pack (bits ++ [false]) = pack bits := by
  induction n generalizing bits with
  | zero =>
      match bits, h with
      | [_, _, _, _, _, _, _], _ => rfl
  | succ n ih =>
      have h8 : (bits.take 8).length = 8 := by
        rw [List.length_take]
        omega
      have hrest : (bits.drop 8).length = 8 * n + 7 := by
        rw [List.length_drop]
        omega
      rw [← List.take_append_drop 8 bits, List.append_assoc, pack_append _ _ h8, ih hrest,
        pack_append _ _ h8]

/-- The mark is the last bit of a byte of zeros. -/
lemma ofByte_mark : ofByte 0x80 = List.replicate 7 false ++ [true] := by decide

end Bits

end FamicomDisk
