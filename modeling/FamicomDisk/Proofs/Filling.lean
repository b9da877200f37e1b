import FamicomDisk.Proofs.KnownDecoding
import FamicomDisk.Proofs.Seeking
import FamicomDisk.Proofs.Sequencing

/-!
Reading one block into a buffer.

What comes of it is decided at four places: whether the output has room, whether a gap ends at all,
whether enough bits follow, and whether the first byte is the type asked for. Only when all four are
passed are the buffer and the faults touched, and then only where the block belongs.

* `IsWhole`, `bytesBehind`: the first gap with enough bits behind it, and the bytes that stand
  there.
* `Decoding`, `decodeBlock_cases`: **what comes of reading a block** into a buffer.
* `IsFilled`, `Buffer.isFilled`: what the buffer holds then.
* `decodeBlock_atomic`: **a failure leaves the buffer alone**, and a success fills one place of it.
-/

namespace FamicomDisk

open Mfm

/-- A reading fails when there are fewer bits than were asked for. -/
lemma Mfm.readOnto_eq_none {last : Bool} {before : List Bool} {need offset : Nat} {ps : List Pulse}
    (h : (demodulate last ps).length < need) : readOnto last before need offset ps = none := by
  induction ps generalizing last before need offset with
  | nil => rfl
  | cons p ps ih =>
      rw [demodulate_cons, List.length_append] at h
      simp only [readOnto]
      rw [if_neg (by omega)]
      exact ih (by omega)

namespace Capture

/-! ### The block behind a gap -/

/-- The bits behind the gap that begins at `pos`, and its mark. -/
def bitsBehind (pulses : List Pulse) (pos : Nat) : List Bool :=
  demodulate true (pulses.drop (pos + minGap + 1))

/-- The bytes that a block of the given size has with its check, behind the gap at `pos`. -/
def bytesBehind (pulses : List Pulse) (pos size : Nat) : List UInt8 :=
  Bits.pack ((bitsBehind pulses pos).take (8 * (size + 2)))

/-- The first gap from `start` on begins at `pos`, and as many bits follow it as a block of the
given size has with its check. -/
structure IsWhole (pulses : List Pulse) (start size pos : Nat) : Prop where
  gap : IsFirstGap pulses start pos
  enough : 8 * (size + 2) ≤ (bitsBehind pulses pos).length

section

variable {pulses : List Pulse} {start size pos : Nat}

lemma IsWhole.length_bytesBehind (h : IsWhole pulses start size pos) :
    (bytesBehind pulses pos size).length = size + 2 := by
  refine Bits.length_pack ?_
  rw [List.length_take]
  exact Nat.min_eq_left h.enough

/-- A reading of the bits behind a gap gives the first of them, and goes past the mark. -/
lemma IsWhole.exists_readBits (h : IsWhole pulses start size pos) :
    ∃ m bits, 0 < m ∧ bits.take (8 * (size + 2)) = (bitsBehind pulses pos).take (8 * (size + 2))
      ∧ readBits (8 * (size + 2)) (pos + minGap + 1) (pulses.drop (pos + minGap + 1))
        = some ⟨bits, pos + minGap + 1 + m, pulses.drop (pos + minGap + 1 + m)⟩ := by
  obtain ⟨m, hm, hge, -, -, hread⟩ := @readOnto_eq true [] _ (pos + minGap + 1) _
    (show 0 < 8 * (size + 2) by omega) h.enough
  rw [List.drop_drop] at hread
  refine ⟨m, _, ?_, ?_, hread⟩
  · by_contra hzero
    rw [show m = 0 by omega, List.take_zero, demodulate_nil, List.length_nil] at hge
    omega
  · rw [List.reverse_nil, List.nil_append, bitsBehind]
    conv_rhs => rw [← List.take_append_drop m (pulses.drop (pos + minGap + 1)), demodulate_append]
    rw [List.take_append_of_le_length hge]

/-- **What comes of reading** a block that is whole: the first byte decides. -/
lemma IsWhole.exists_readNext (h : IsWhole pulses start size pos) (output : Nat) (code : Int) :
    ∃ inp, pos + minGap + 1 < inp
      ∧ readNext (.ofOffset pulses start) output size code
        = if Block.code ⟨bytesBehind pulses pos size⟩ = code then
            .read ((bytesBehind pulses pos size).take size)
              (Layout.checkFault? output ((bytesBehind pulses pos size).take size)
                ((bytesBehind pulses pos size).drop size)) (.ofOffset pulses inp)
          else
            .otherType (.wrongType output (Block.code ⟨bytesBehind pulses pos size⟩) code
              (some (pos + minGap, inp)) (some ⟨inp, output⟩)) (.ofOffset pulses inp) := by
  obtain ⟨m, bits, hm, htake, hread⟩ := h.exists_readBits
  have hlen := h.length_bytesBehind
  obtain ⟨c, rest, hbytes⟩ := List.exists_cons_of_length_pos
    (show 0 < (bytesBehind pulses pos size).length by omega)
  have hneed : 8 * ((size : Int) + 2).toNat = 8 * (size + 2) := by omega
  refine ⟨pos + minGap + 1 + m, by omega, ?_⟩
  have hcode : Block.code ⟨bytesBehind pulses pos size⟩ = c.toNat := by rw [Block.code, hbytes]
  rw [hcode]
  simp only [readNext, h.gap.seekMark?_eq, hneed]
  simp only [Head.ofOffset, hread, htake]
  rw [← bytesBehind]
  simp only [hbytes, Int.toNat_natCast, Nat.add_sub_cancel]
  by_cases hc : (c.toNat : Int) = code
  · rw [if_neg (not_not.mpr hc), if_pos hc, if_neg (by omega)]
  · rw [if_pos hc, if_neg hc]

/-- A capture that ends in the block behind the first gap. -/
lemma readNext_of_lt (hgap : IsFirstGap pulses start pos)
    (hlt : (bitsBehind pulses pos).length < 8 * (size + 2)) (output : Nat) (code : Int) :
    readNext (.ofOffset pulses start) output size code = .noGap (pos + minGap) := by
  have hneed : 8 * ((size : Int) + 2).toNat = 8 * (size + 2) := by omega
  have hread : readBits (8 * (size + 2)) (pos + minGap + 1) (pulses.drop (pos + minGap + 1))
      = none := readOnto_eq_none hlt
  simp only [readNext, hgap.seekMark?_eq, hneed]
  simp only [Head.ofOffset, hread, Nat.add_sub_cancel]

end

/-! ### What comes of reading a block -/

/-- The bytes that the output lacks for a block of the given size and its check. -/
def shortfall (cursor : Cursor) (size : Nat) (b : Buffer) : Int :=
  cursor.output + size + 2 - b.bytes.length

/-- What can come of reading a block into a buffer. -/
inductive Decoding (pulses : List Pulse) (cursor : Cursor) (size : Nat) (code : Int) (b : Buffer) :
    Except Fault Cursor × Buffer → Prop where
  /-- The output has no room for the block and its check. -/
  | noRoom (room : 0 < shortfall cursor size b) :
      Decoding pulses cursor size code b (.error (.outputFull (shortfall cursor size b)), b)
  /-- No gap ends behind the cursor. -/
  | noGap (room : shortfall cursor size b ≤ 0)
      (none : ∀ pos, cursor.input ≤ pos → ¬ gapEnd <+: pulses.drop pos) :
      Decoding pulses cursor size code b (.error (.gapNotFound cursor.input), b)
  /-- The capture ends before the block does. -/
  | cutOff {pos : Nat} (room : shortfall cursor size b ≤ 0)
      (gap : IsFirstGap pulses cursor.input pos)
      (short : (bitsBehind pulses pos).length < 8 * (size + 2)) :
      Decoding pulses cursor size code b (.error (.gapNotFound (pos + minGap : Nat)), b)
  /-- The block is of another type. -/
  | otherType {pos inp : Nat} (room : shortfall cursor size b ≤ 0)
      (whole : IsWhole pulses cursor.input size pos) (forward : pos + minGap + 1 < inp)
      (other : Block.code ⟨bytesBehind pulses pos size⟩ ≠ code) :
      Decoding pulses cursor size code b
        (.error (.block (.wrongType cursor.output (Block.code ⟨bytesBehind pulses pos size⟩) code
          (some (pos + minGap, inp)) (some ⟨inp, cursor.output⟩))), b)
  /-- The block is read. -/
  | read {pos inp : Nat} (room : shortfall cursor size b ≤ 0)
      (whole : IsWhole pulses cursor.input size pos) (forward : pos + minGap + 1 < inp)
      (same : Block.code ⟨bytesBehind pulses pos size⟩ = code) :
      Decoding pulses cursor size code b
        (.ok ⟨inp, cursor.output + size⟩,
          (b.write cursor.output ((bytesBehind pulses pos size).take size ++ [0, 0])).report
            (Layout.checkFault? cursor.output ((bytesBehind pulses pos size).take size)
              ((bytesBehind pulses pos size).drop size)))

/-- **What comes of reading a block** into a buffer, for every capture and every buffer. -/
lemma decodeBlock_cases (pulses : List Pulse) (cursor : Cursor) (size : Nat) (code : Int)
    (b : Buffer) : Decoding pulses cursor size code b (decodeBlock pulses cursor size code b) := by
  rw [decodeBlock, ← shortfall]
  by_cases hroom : 0 < shortfall cursor size b
  · simp only [if_pos hroom]
    exact .noRoom hroom
  · simp only [if_neg hroom]
    have hle : shortfall cursor size b ≤ 0 := by omega
    rcases seekMark?_cases pulses cursor.input with ⟨hmark, hnone⟩ | ⟨pos, hgap, -⟩
    · simp only [readNext, hmark]
      exact .noGap hle hnone
    · by_cases hlt : (bitsBehind pulses pos).length < 8 * (size + 2)
      · simp only [readNext_of_lt hgap hlt]
        exact .cutOff hle hgap hlt
      · have hwhole : IsWhole pulses cursor.input size pos := ⟨hgap, by omega⟩
        obtain ⟨inp, hinp, hread⟩ := hwhole.exists_readNext cursor.output code
        by_cases hcode : Block.code ⟨bytesBehind pulses pos size⟩ = code
        · simp only [hread, if_pos hcode]
          exact .read hle hwhole hinp hcode
        · simp only [hread, if_neg hcode]
          exact .otherType hle hwhole hinp hcode

/-! ### What the buffer holds -/

/-- A buffer `b` was filled at the cursor with a block of the given size, from behind the gap at
`pos`: it is `b'` now, and the cursor `after`. -/
structure IsFilled (pulses : List Pulse) (cursor : Cursor) (size : Nat) (b : Buffer) (pos : Nat)
    (after : Cursor) (b' : Buffer) : Prop where
  output_eq : after.output = cursor.output + size
  input_lt : cursor.input + minGap < after.input
  length_eq : b'.bytes.length = b.bytes.length
  outside : ∀ i, i < cursor.output ∨ cursor.output + size + 2 ≤ i → b'.bytes[i]? = b.bytes[i]?
  data_eq : (b'.bytes.drop cursor.output).take size = (bytesBehind pulses pos size).take size
  check_eq : (b'.bytes.drop (cursor.output + size)).take 2 = [0, 0]
  faults_eq : ∃ stored, b'.diagnostics = b.diagnostics
    ++ if Crc.of (bytesBehind pulses pos size) = 0 then []
      else [.badCheck cursor.output stored
        (Crc.of ((bytesBehind pulses pos size).take size)).toNat]

/-- The fault of the check over bytes of a block and its check. -/
lemma exists_checkFault?_eq {bytes : List UInt8} {size : Nat} (h : bytes.length = size + 2)
    (output : Nat) :
    ∃ stored, (Layout.checkFault? output (bytes.take size) (bytes.drop size)).toList
      = if Crc.of bytes = 0 then []
        else [.badCheck output stored (Crc.of (bytes.take size)).toNat] := by
  have htwo : (bytes.drop size).length = 2 := by
    rw [List.length_drop]
    omega
  obtain ⟨low, high, hstored⟩ := List.length_eq_two.mp htwo
  have hall : bytes.take size ++ [low, high] = bytes := by rw [← hstored, List.take_append_drop]
  refine ⟨Bits.word low high, ?_⟩
  rw [hstored, Layout.checkFault?, hall]
  by_cases hzero : Crc.of bytes = 0
  · rw [if_pos hzero, if_pos hzero]
    rfl
  · rw [if_neg hzero, if_neg hzero]
    rfl

/-- What is written with a block lies where the block belongs. -/
lemma IsWhole.isFilled {pulses : List Pulse} {cursor : Cursor} {size pos inp : Nat} {b : Buffer}
    (h : IsWhole pulses cursor.input size pos) (room : shortfall cursor size b ≤ 0)
    (forward : pos + minGap + 1 < inp) :
    IsFilled pulses cursor size b pos ⟨inp, cursor.output + size⟩
      ((b.write cursor.output ((bytesBehind pulses pos size).take size ++ [0, 0])).report
        (Layout.checkFault? cursor.output ((bytesBehind pulses pos size).take size)
          ((bytesBehind pulses pos size).drop size))) := by
  have hbytes := h.length_bytesBehind
  have hdata : ((bytesBehind pulses pos size).take size).length = size := by
    rw [List.length_take]
    omega
  have hlen : ((bytesBehind pulses pos size).take size ++ [0, 0]).length = size + 2 := by
    rw [List.length_append, hdata]
    rfl
  have hfits : cursor.output + ((bytesBehind pulses pos size).take size ++ [0, 0]).length
      ≤ b.bytes.length := by
    rw [shortfall] at room
    omega
  have hgap := h.gap.le
  obtain ⟨stored, hstored⟩ := exists_checkFault?_eq hbytes cursor.output
  constructor
  · rfl
  · simp only
    omega
  · exact length_replaced hfits
  · intro i hi
    exact getElem?_replaced hfits (by rw [hlen, ← Nat.add_assoc]; exact hi)
  · have hreplaced := take_drop_replaced hfits (i := 0) (n := size) (by omega)
    rw [Nat.add_zero, List.drop_zero, List.take_left' hdata] at hreplaced
    exact hreplaced
  · have hreplaced := take_drop_replaced hfits (i := size) (n := 2) (by omega)
    rw [List.drop_left' hdata] at hreplaced
    exact hreplaced
  · exact ⟨stored, congrArg (b.diagnostics ++ ·) hstored⟩

/-- **A failure leaves the buffer alone.** The output is too short exactly when it lacks bytes for
the block and its check, and the fault of a wrong type tells where reading may go on. A block that
is read fills its place in the buffer and no other, with zeros for its check; a wrong check is
reported and nothing else is. A block is read whenever there is room and a whole block of its type
comes next. -/
theorem decodeBlock_atomic (pulses : List Pulse) (cursor : Cursor) (size : Nat) (code : Int)
    (b : Buffer) :
    (∀ n, decodeBlock pulses cursor size code b = (.error (.outputFull n), b)
        ↔ 0 < shortfall cursor size b ∧ n = shortfall cursor size b)
      ∧ (∀ fault b', decodeBlock pulses cursor size code b = (.error fault, b') → b' = b
        ∧ ∀ cause, fault = .block cause → ∃ found span inp,
          cause = .wrongType cursor.output found code (some span) (some ⟨inp, cursor.output⟩)
            ∧ cursor.input + minGap < inp)
      ∧ (∀ after b', decodeBlock pulses cursor size code b = (.ok after, b') →
        ∃ pos, IsWhole pulses cursor.input size pos
          ∧ IsFilled pulses cursor size b pos after b')
      ∧ ((∃ after b', decodeBlock pulses cursor size code b = (.ok after, b'))
        ↔ shortfall cursor size b ≤ 0 ∧ ∃ pos, IsWhole pulses cursor.input size pos
          ∧ Block.code ⟨bytesBehind pulses pos size⟩ = code) := by
  have hcases := decodeBlock_cases pulses cursor size code b
  refine ⟨?_, ?_, ?_, ?_⟩
  · intro n
    constructor
    · intro h
      rw [h] at hcases
      cases hcases with
      | noRoom room => exact ⟨room, rfl⟩
    · rintro ⟨room, rfl⟩
      rw [decodeBlock, ← shortfall]
      simp only [if_pos room]
      rfl
  · intro fault b' h
    rw [h] at hcases
    cases hcases with
    | noRoom | noGap | cutOff => exact ⟨rfl, fun _ hcause => by cases hcause⟩
    | @otherType pos inp _ whole forward _ =>
        refine ⟨rfl, ?_⟩
        rintro _ ⟨⟩
        have hle := whole.gap.le
        exact ⟨_, _, _, rfl, by omega⟩
  · intro after b' h
    rw [h] at hcases
    cases hcases with
    | read room whole forward _ => exact ⟨_, whole, whole.isFilled room forward⟩
  · constructor
    · rintro ⟨after, b', h⟩
      rw [h] at hcases
      cases hcases with
      | read room whole _ same => exact ⟨room, _, whole, same⟩
    · rintro ⟨room, pos, whole, same⟩
      generalize decodeBlock pulses cursor size code b = result at hcases
      cases hcases with
      | noRoom hroom => omega
      | noGap _ none => exact absurd whole.gap.gap (none pos whole.gap.le)
      | cutOff _ gap short =>
          rw [gap.unique whole.gap] at short
          exact absurd whole.enough (by omega)
      | otherType _ whole' _ other =>
          rw [whole'.gap.unique whole.gap] at other
          exact absurd same other
      | read => exact ⟨_, _, rfl⟩

end Capture

end FamicomDisk
