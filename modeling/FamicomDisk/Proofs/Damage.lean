import FamicomDisk.Proofs.Reading
import FamicomDisk.Proofs.Walking
import Mathlib.Algebra.Ring.Parity

/-!
Damage to a block.

The register is linear: two bit strings of one length take it to registers whose difference is what
their difference makes of an empty register (`foldl_errors`). So a damaged block checks just when
the damage alone leaves an empty register empty, whatever the block is. Two kinds of damage do not.

* A burst: the zeros before and behind it neither set an empty register nor clear one, and of
  sixteen bits none but zeros leave it empty (`foldl_burst_ne_zero`).
* An odd number of wrong bits: the polynomial sets an odd number of cells, so the ones in the
  register and the ones it took in are both odd in number, or both even (`parity_foldl_feedBit`).

`of_ne_zero_of_damage`: **damage of either kind is found**, by the walker over a layout and by the
reader of a capture.
-/

namespace FamicomDisk

namespace Bits

/-! ### The bits that differ -/

/-- Ones where two bit strings differ. -/
def errors (xs ys : List Bool) : List Bool := List.zipWith xor xs ys

/-- All ones lie within sixteen consecutive places. -/
def IsBurst (bits : List Bool) : Prop := ∃ i, ∀ k, bits[k]? = some true → i ≤ k ∧ k < i + 16

lemma errors_cons (x y : Bool) (xs ys : List Bool) :
    errors (x :: xs) (y :: ys) = xor x y :: errors xs ys := rfl

/-- Bit strings of one length that differ have a one among their differences. -/
lemma true_mem_errors {xs ys : List Bool} (h : xs.length = ys.length) (hne : xs ≠ ys) :
    true ∈ errors xs ys := by
  induction xs generalizing ys with
  | nil => exact absurd (List.length_eq_zero_iff.mp h.symm).symm hne
  | cons x xs ih =>
      cases ys with
      | nil => simp at h
      | cons y ys =>
          rw [errors_cons, List.mem_cons]
          by_cases hxy : x = y
          · exact .inr (ih (by simpa using h) fun hrest => hne (by rw [hxy, hrest]))
          · exact .inl (bne_iff_ne.mpr hxy).symm

lemma value_ne_zero {bits : List Bool} (h : true ∈ bits) : value bits ≠ 0 := by
  induction bits with
  | nil => simp at h
  | cons b bits ih =>
      have hstep : value (b :: bits) = b.toNat + 2 * value bits := rfl
      rw [hstep]
      rcases List.mem_cons.mp h with rfl | hrest
      · simp
      · have := ih hrest
        omega

lemma eq_zeros_of_true_not_mem {bits : List Bool} (h : true ∉ bits) :
    bits = List.replicate bits.length false := by
  refine List.eq_replicate_of_mem fun b hb => ?_
  cases b with
  | true => exact absurd hb h
  | false => rfl

/-- A burst is at most sixteen bits between zeros. -/
lemma IsBurst.exists_eq {bits : List Bool} (h : IsBurst bits) :
    ∃ before burst behind, bits
        = List.replicate before false ++ (burst ++ List.replicate behind false)
      ∧ burst.length ≤ 16 := by
  obtain ⟨i, hi⟩ := h
  have hbefore : true ∉ bits.take i := by
    intro hmem
    obtain ⟨k, hk, hbit⟩ := List.mem_take_iff_getElem.mp hmem
    have := hi k (by rw [List.getElem?_eq_getElem (by omega), hbit])
    omega
  have hbehind : true ∉ bits.drop (i + 16) := by
    intro hmem
    obtain ⟨k, hk, hbit⟩ := List.mem_drop_iff_getElem.mp hmem
    have := hi (i + 16 + k) (by rw [List.getElem?_eq_getElem (by omega), ← hbit])
    omega
  refine ⟨(bits.take i).length, (bits.drop i).take 16, (bits.drop (i + 16)).length, ?_,
    List.length_take_le _ _⟩
  rw [← eq_zeros_of_true_not_mem hbefore, ← eq_zeros_of_true_not_mem hbehind, ← List.drop_drop,
    List.take_append_drop, List.take_append_drop]

/-! ### Odd numbers of ones -/

/-- Whether the number of ones is odd. -/
def parity (bits : List Bool) : Bool := bits.foldr xor false

@[simp] lemma parity_nil : parity [] = false := rfl

@[simp] lemma parity_cons (b : Bool) (bits : List Bool) : parity (b :: bits) = xor b (parity bits) :=
  rfl

lemma parity_eq_true_iff {bits : List Bool} : parity bits = true ↔ Odd (bits.count true) := by
  induction bits with
  | nil => simp
  | cons b bits ih =>
      cases b with
      | false => simpa using ih
      | true =>
          rw [parity_cons, List.count_cons_self, Nat.odd_add_one, ← ih]
          simp

lemma parity_append (xs ys : List Bool) : parity (xs ++ ys) = xor (parity xs) (parity ys) := by
  induction xs with
  | nil => simp
  | cons b xs ih => simp [ih]

lemma parity_errors {xs ys : List Bool} (h : xs.length = ys.length) :
    parity (errors xs ys) = xor (parity xs) (parity ys) := by
  induction xs generalizing ys with
  | nil =>
      obtain rfl := List.length_eq_zero_iff.mp h.symm
      rfl
  | cons x xs ih =>
      cases ys with
      | nil => simp at h
      | cons y ys =>
          rw [errors_cons, parity_cons, parity_cons, parity_cons, ih (by simpa using h)]
          cases x <;> cases y <;> simp

end Bits

namespace Crc

/-! ### The register is linear -/

/-- One step of the register: a shift, and the polynomial if the bits that meet differ. -/
lemma feedBit_eq (c : Crc) (b : Bool) :
    feedBit c b = (c >>> 1) ^^^ if xor (c.getLsbD 0) b then 0x8408#16 else 0#16 := by
  rw [feedBit]
  cases c.getLsbD 0 <;> cases b <;> simp

/-- One step takes differences to differences. -/
lemma feedBit_xor (c d : Crc) (x y : Bool) :
    feedBit (c ^^^ d) (xor x y) = feedBit c x ^^^ feedBit d y := by
  have hadd : ∀ p q p' q' : Bool, (if xor (xor p q) (xor p' q') then 0x8408#16 else 0#16)
      = (if xor p p' then 0x8408#16 else 0#16) ^^^ if xor q q' then 0x8408#16 else 0#16 := by
    decide
  rw [feedBit_eq, feedBit_eq, feedBit_eq, BitVec.ushiftRight_xor_distrib, BitVec.getLsbD_xor, hadd]
  ac_rfl

/-- **The register is linear.** -/
lemma foldl_errors {xs ys : List Bool} (c d : Crc) (h : xs.length = ys.length) :
    (Bits.errors xs ys).foldl feedBit (c ^^^ d) = xs.foldl feedBit c ^^^ ys.foldl feedBit d := by
  induction xs generalizing ys c d with
  | nil =>
      obtain rfl := List.length_eq_zero_iff.mp h.symm
      rfl
  | cons x xs ih =>
      cases ys with
      | nil => simp at h
      | cons y ys =>
          rw [Bits.errors_cons, List.foldl_cons, List.foldl_cons, List.foldl_cons, feedBit_xor,
            ih _ _ (by simpa using h)]

/-- Of a block that would check, the damage tells what the register holds behind it. -/
lemma of_eq_foldl_errors {w good : List UInt8} (hlen : w.length = good.length)
    (hgood : of good = 0) :
    of w = (Bits.errors (Bits.ofBytes w) (Bits.ofBytes good)).foldl feedBit 0 := by
  have hbits : (Bits.ofBytes w).length = (Bits.ofBytes good).length := by
    rw [Bits.length_ofBytes, Bits.length_ofBytes, hlen]
  rw [of, feed_eq_foldl] at hgood
  calc of w
      = (Bits.ofBytes w).foldl feedBit seed := feed_eq_foldl seed w
    _ = (Bits.ofBytes w).foldl feedBit seed ^^^ (Bits.ofBytes good).foldl feedBit seed := by
        rw [hgood]
        exact BitVec.xor_zero.symm
    _ = (Bits.errors (Bits.ofBytes w) (Bits.ofBytes good)).foldl feedBit (seed ^^^ seed) :=
        (foldl_errors seed seed hbits).symm
    _ = (Bits.errors (Bits.ofBytes w) (Bits.ofBytes good)).foldl feedBit 0 := by
        rw [BitVec.xor_self]
        rfl

/-! ### Bursts -/

/-- **A burst** does not leave an empty register empty. -/
lemma foldl_burst_ne_zero {bits : List Bool} (h : Bits.IsBurst bits) (hmem : true ∈ bits) :
    bits.foldl feedBit 0 ≠ 0 := by
  obtain ⟨before, burst, behind, rfl, hlen⟩ := h.exists_eq
  have hburst : true ∈ burst := by simpa using hmem
  have hempty : (List.replicate before false).foldl feedBit 0 = 0 :=
    (foldl_zeros_eq_zero_iff 0 before).mpr rfl
  rw [List.foldl_append, List.foldl_append, hempty, Ne, foldl_zeros_eq_zero_iff,
    foldl_feedBit_eq_zero_iff _ _ hlen]
  exact (Bits.value_ne_zero hburst).symm

/-! ### Odd numbers of wrong bits -/

/-- The cells of the register, the one that drops out next first. -/
def cells (c : Crc) : List Bool := (List.range 16).map c.getLsbD

lemma cells_xor (c d : Crc) : cells (c ^^^ d) = Bits.errors (cells c) (cells d) := by
  simp [cells, Bits.errors, List.zipWith_map]

lemma cells_shift (c : Crc) : c.getLsbD 0 :: cells (c >>> 1) = cells c ++ [false] := by
  have hlast : c.getLsbD 16 = false := BitVec.getLsbD_of_ge c 16 (Nat.le_refl _)
  have hnext : (c >>> 1).getLsbD = c.getLsbD ∘ Nat.succ := by
    funext i
    rw [BitVec.getLsbD_ushiftRight, Function.comp_apply, Nat.succ_eq_one_add]
  calc c.getLsbD 0 :: cells (c >>> 1)
      = (0 :: (List.range 16).map Nat.succ).map c.getLsbD := by
        rw [cells, hnext, List.map_cons, List.map_map]
    _ = (List.range 16 ++ [16]).map c.getLsbD := by
        rw [← List.range_succ_eq_map, List.range_succ]
    _ = cells c ++ [false] := by rw [List.map_append, List.map_singleton, hlast, cells]

/-- One step of the register keeps count of the ones, up to an even number. -/
lemma parity_feedBit (c : Crc) (b : Bool) :
    Bits.parity (cells (feedBit c b)) = xor (Bits.parity (cells c)) b := by
  have hlen : ∀ c d : Crc, (cells c).length = (cells d).length := by simp [cells]
  have hshift : xor (c.getLsbD 0) (Bits.parity (cells (c >>> 1))) = Bits.parity (cells c) := by
    rw [← Bits.parity_cons, cells_shift, Bits.parity_append]
    simp
  have hpoly : ∀ b, Bits.parity (cells (if b then 0x8408#16 else 0#16)) = b := by decide
  rw [feedBit_eq, cells_xor, Bits.parity_errors (hlen _ _), hpoly, ← hshift]
  cases c.getLsbD 0 <;> cases b <;> simp

/-- **The register keeps count** of the ones that it takes in, up to an even number. -/
lemma parity_foldl_feedBit (c : Crc) (bits : List Bool) :
    Bits.parity (cells (bits.foldl feedBit c))
      = xor (Bits.parity (cells c)) (Bits.parity bits) := by
  induction bits generalizing c with
  | nil => simp
  | cons b bits ih => rw [List.foldl_cons, ih, parity_feedBit, Bits.parity_cons, Bool.xor_assoc]

/-- An odd number of ones does not leave an empty register empty. -/
lemma foldl_odd_ne_zero {bits : List Bool} (h : Odd (bits.count true)) :
    bits.foldl feedBit 0 ≠ 0 := by
  intro hzero
  have hparity := parity_foldl_feedBit 0 bits
  rw [hzero, Bits.parity_eq_true_iff.mpr h] at hparity
  exact absurd hparity (by decide)

end Crc

/-! ### Damaged blocks -/

namespace Recorded

/-- The fault of a block with a wrong check. -/
def badCheck (r : Recorded) (offset : Nat) : BlockFault :=
  .badCheck offset (Bits.word r.low r.high) (Crc.of r.block.data).toNat

/-- Whoever takes the recorded block for one of its type and size reports its check. -/
structure IsReported (r : Recorded) : Prop where
  /-- The walker over a layout goes on behind the block with its fault. -/
  walked {found : Findings} {expected : BlockType} {previous : Option Block} {offset offset' : Nat}
    {rest behind : List UInt8} :
    Layout.skipZeros offset rest = (offset', gapEndMark :: (r.bytes ++ behind)) →
    r.block.type? = some expected →
    Block.sizeOf expected.code previous = some r.block.data.length →
    Layout.walkFrom found expected previous offset rest
      = Layout.walkFrom ((found.addFault (r.badCheck offset')).addBlock r.block) expected.next
          (some r.block) (offset' + 1 + r.bytes.length) behind
  /-- The reader of a capture gives the fault with the block. -/
  read {h mark : Capture.Head} {reading : Mfm.Reading} (output : Nat) :
    r.block.data ≠ [] → h.seekMark? minGap = some mark →
    Mfm.readBits (8 * r.bytes.length) mark.offset mark.rest = some reading →
    reading.bits.take (8 * r.bytes.length) = Bits.ofBytes r.bytes →
    Capture.readNext h output r.block.data.length r.block.code
      = .read r.block.data (some (r.badCheck output)) ⟨reading.offset, reading.rest⟩
  /-- And so does one that reads into a buffer. -/
  decoded {pulses : List Pulse} {cursor : Cursor} {mark : Capture.Head} {reading : Mfm.Reading}
    {b : Capture.Buffer} :
    r.block.data ≠ [] → cursor.output + r.bytes.length ≤ b.bytes.length →
    (Capture.Head.ofOffset pulses cursor.input).seekMark? minGap = some mark →
    Mfm.readBits (8 * r.bytes.length) mark.offset mark.rest = some reading →
    reading.bits.take (8 * r.bytes.length) = Bits.ofBytes r.bytes →
    Capture.decodeBlock pulses cursor r.block.data.length r.block.code b
      = (.ok ⟨reading.offset, cursor.output + r.block.data.length⟩,
          (b.write cursor.output (r.block.data ++ [0, 0])).report (some (r.badCheck cursor.output)))

lemma fault?_of_not_isIntact {r : Recorded} (h : ¬ r.IsIntact) (offset : Nat) :
    r.fault? offset = some (r.badCheck offset) := by
  rw [fault?, if_neg h]
  rfl

/-- A wrong check is reported. -/
lemma isReported_of_not_isIntact {r : Recorded} (h : ¬ r.IsIntact) : r.IsReported := by
  have hread : ∀ {head mark : Capture.Head} {reading : Mfm.Reading} (output : Nat),
      r.block.data ≠ [] → head.seekMark? minGap = some mark →
      Mfm.readBits (8 * r.bytes.length) mark.offset mark.rest = some reading →
      reading.bits.take (8 * r.bytes.length) = Bits.ofBytes r.bytes →
      Capture.readNext head output r.block.data.length r.block.code
        = .read r.block.data (some (r.badCheck output)) ⟨reading.offset, reading.rest⟩ := by
    intro head mark reading output hne hmark hreading hbits
    rw [Capture.readNext_of_reading output _ hne hmark hreading
      (by rw [hbits, Bits.pack_ofBytes]), Capture.outcome, if_pos rfl, fault?_of_not_isIntact h]
  refine ⟨?_, hread, ?_⟩
  · intro found expected previous offset offset' rest behind hskip htype hsize
    rw [Layout.walkFrom_block hskip (List.prefix_append _ _) htype hsize, List.drop_left,
      fault?_of_not_isIntact h]
    rfl
  · intro pulses cursor mark reading b hne hroom hmark hreading hbits
    rw [r.length_bytes] at hroom
    rw [Capture.decodeBlock, hread cursor.output hne hmark hreading hbits]
    simp only
    rw [if_neg (by omega), Int.toNat_natCast]
    rfl

end Recorded

namespace Crc

/-- Where a block and its check are read wrongly: ones for the wrong bits, in the order of the
disk. -/
def damage (dat w : List UInt8) : List Bool :=
  Bits.errors (Bits.ofBytes w) (Bits.ofBytes (dat ++ bytes dat))

/-- **Damage is found.** Let the wrong bits of a block and its check lie within sixteen consecutive
places of the disk, or be odd in number. Then what is read does not check, and whoever takes it for
a block reports this. -/
theorem of_ne_zero_of_damage {dat w : List UInt8} (hlen : w.length = dat.length + 2)
    (hne : w ≠ dat ++ bytes dat)
    (hdamage : Bits.IsBurst (damage dat w) ∨ Odd ((damage dat w).count true)) :
    of w ≠ 0 ∧ ∃ r : Recorded, r.bytes = w ∧ r.block.data.length = dat.length ∧ r.IsReported := by
  have hgood : of (dat ++ bytes dat) = 0 := by
    obtain ⟨low, high, hbytes, hword⟩ := word_bytes dat
    rw [hbytes]
    exact (of_append_stored dat low high).mpr hword
  have hlength : w.length = (dat ++ bytes dat).length := by
    rw [List.length_append, length_bytes, hlen]
  have hfold : of w = (damage dat w).foldl feedBit 0 := of_eq_foldl_errors hlength hgood
  have hzero : of w ≠ 0 := by
    rw [hfold]
    rcases hdamage with hburst | hodd
    · refine foldl_burst_ne_zero hburst (Bits.true_mem_errors ?_ ?_)
      · rw [Bits.length_ofBytes, Bits.length_ofBytes, hlength]
      · exact fun h => hne (Bits.ofBytes_injective h)
    · exact foldl_odd_ne_zero hodd
  obtain ⟨r, rfl, hsize⟩ := Recorded.exists_bytes_eq hlen
  exact ⟨hzero, r, rfl, hsize, Recorded.isReported_of_not_isIntact
    fun hintact => hzero (r.of_bytes_eq_zero_iff.mpr hintact)⟩

/-- Two wrong bits on both sides of the border between a file count and its check are found. -/
theorem of_ne_zero_of_damage_border :
    bytes [2, 0] = [0x5c, 0x3f] ∧ Bits.IsBurst (damage [2, 0] [2, 0x80, 0x5d, 0x3f])
      ∧ of [2, 0x80, 0x5d, 0x3f] ≠ 0
      ∧ ∃ r : Recorded, r.bytes = [2, 0x80, 0x5d, 0x3f] ∧ r.block.data.length = 2
        ∧ r.IsReported := by
  have hstored : bytes [2, 0] = [0x5c, 0x3f] := by decide +kernel
  have hburst : Bits.IsBurst (damage [2, 0] [2, 0x80, 0x5d, 0x3f]) := by
    have hplaces : ∀ k < 32, (damage [2, 0] [2, 0x80, 0x5d, 0x3f])[k]? = some true →
        15 ≤ k ∧ k < 31 := by decide +kernel
    refine ⟨15, fun k hk => hplaces k ?_ hk⟩
    exact (List.getElem?_eq_some_iff.mp hk).1
  exact ⟨hstored, hburst, of_ne_zero_of_damage rfl (by rw [hstored]; decide) (.inl hburst)⟩

end Crc

end FamicomDisk
