import FamicomDisk.Proofs.Scanning
import FamicomDisk.Proofs.Surface
import Mathlib.Data.List.Induction

/-!
Where the blocks of a surface end.

The scan of a recorded block stops at a cut behind which there are only zeros up to the next mark:
at its check, or, if that is not right, where the zeros begin that the gap ends. It stops before
that only where a first part of the block checks and zeros follow (`Recorded.EndsEarly`); what comes
of it depends on whether the rest of the block is zeros, too.

* `Recorded.ZerosBehind`: a cut of the pulses of a block behind which there are only zeros.
* `scanFrom_inner`, `scanFrom_last`: **the scan of a block**, before another one and at the end.
-/

namespace FamicomDisk

open Mfm

/-- What stands behind the first part of a list is a run, if each of its members is known. -/
lemma eq_replicate_of_getElem? {α : Type} {a : α} {xs ys : List α}
    (h : ∀ j, xs.length ≤ j → j < (xs ++ ys).length → (xs ++ ys)[j]? = some a) :
    ys = List.replicate ys.length a := by
  rw [List.eq_replicate_iff]
  refine ⟨rfl, ?_⟩
  intro y hy
  obtain ⟨i, hi⟩ := List.mem_iff_getElem?.mp hy
  have hlt := (List.getElem?_eq_some_iff.mp hi).1
  have hj := h (xs.length + i) (by omega) (by rw [List.length_append]; omega)
  rw [List.getElem?_append_right (by omega), Nat.add_sub_cancel_left, hi] at hj
  exact Option.some.inj hj

namespace Recorded

variable {r : Recorded} {zeros m k : Nat}

/-- The first `k` bytes of the block and its check are right as they stand, and the next two bytes
on the disk are zeros. -/
def EndsEarly (r : Recorded) (k : Nat) : Prop :=
  3 ≤ k ∧ k < r.bytes.length ∧ Crc.of (r.bytes.take k) = 0
    ∧ (r.framed.drop (k + 1)).take 2 = [0, 0]

instance (r : Recorded) (k : Nat) : Decidable (r.EndsEarly k) :=
  inferInstanceAs (Decidable (_ ∧ _ ∧ _ ∧ _))

/-- An early end stands within the block. -/
instance (r : Recorded) : Decidable (∀ k, ¬ r.EndsEarly k) :=
  decidable_of_iff (∀ k < r.bytes.length, ¬ r.EndsEarly k)
    ⟨fun h k hk => h k hk.2.1 hk, fun h k _ => h k⟩

/-- Behind the first `m` pulses of a block there are only zeros, all those behind the check but at
most one. -/
def ZerosBehind (r : Recorded) (zeros m : Nat) : Prop :=
  m ≤ (r.pulses zeros).length
    ∧ ∃ n, zeros ≤ n + 1
      ∧ r.bits zeros = demodulate true ((r.pulses zeros).take m) ++ List.replicate n false

/-- The bits of the first pulses of a block are its first bits. -/
lemma demodulate_take (r : Recorded) (zeros m : Nat) (hm : m ≤ (r.pulses zeros).length) :
    demodulate true ((r.pulses zeros).take m) <+: r.bits zeros := by
  obtain ⟨u, v, -, huv, -, hu, -, -⟩ := exists_cut .one (r.bits zeros) m hm
  exact ⟨v, by rw [← hu] at huv; exact huv⟩

lemma zerosBehind_of_getElem? (hm : m ≤ (r.pulses zeros).length)
    (hle : (demodulate true ((r.pulses zeros).take m)).length ≤ 8 * r.bytes.length + 1)
    (h : ∀ j, (demodulate true ((r.pulses zeros).take m)).length ≤ j → j < (r.bits zeros).length →
      (r.bits zeros)[j]? = some false) : r.ZerosBehind zeros m := by
  obtain ⟨v, hv⟩ := r.demodulate_take zeros m hm
  have hlen := congrArg List.length hv
  rw [List.length_append, length_bits] at hlen
  refine ⟨hm, v.length, by omega, ?_⟩
  rw [← hv] at h ⊢
  rw [← eq_replicate_of_getElem? h]

/-- Behind a cut that is followed by zeros only, the pulses are those of zeros. -/
lemma ZerosBehind.exists_drop (h : r.ZerosBehind zeros m) :
    ∃ n phase, zeros ≤ n + 1 ∧ phase ≠ .zeroAfterOne
      ∧ r.bits zeros = demodulate true ((r.pulses zeros).take m) ++ List.replicate n false
      ∧ demodulator.final true ((r.pulses zeros).take m) = phase.last
      ∧ (r.pulses zeros).drop m = modulator.run phase (List.replicate n false) := by
  obtain ⟨hm, n, hn, hbits⟩ := h
  obtain ⟨u, v, phase, huv, hphase, hu, hfinal, hdrop⟩ := exists_cut .one (r.bits zeros) m hm
  have hv : v = List.replicate n false := by
    rw [← hu] at huv
    exact List.append_cancel_left (huv.trans hbits)
  exact ⟨n, phase, hn, hphase, hbits, hfinal, by rw [hv] at hdrop; exact hdrop⟩

/-- Within a block there are zeros as long as a gap from a cut on, and a one bit behind them is
alone in its pulse. -/
structure TornAt (r : Recorded) (zeros m q : Nat) : Prop where
  le : m ≤ q
  lt : (demodulate true ((r.pulses zeros).take q)).length < 8 * r.bytes.length
  mark : (r.pulses zeros)[q]? = some .medium
  bits_eq : ∃ n, minGap ≤ n ∧ demodulate true ((r.pulses zeros).take q)
    = demodulate true ((r.pulses zeros).take m) ++ List.replicate n false

/-- **The pulse of a bit of a block**, told by the numbers of bits before and behind it. -/
lemma exists_pulse {start j : Nat} {x : Bool × Nat} {tail : List Pulse} (hz : 2 ≤ zeros)
    (h : (demodulateAt true start (r.pulses zeros ++ tail))[j]? = some x)
    (hj : j < (r.bits zeros).length) :
    ∃ i, x.2 = start + i ∧ i < (r.pulses zeros).length
      ∧ (demodulate true ((r.pulses zeros).take i)).length ≤ j
      ∧ j < (demodulate true ((r.pulses zeros).take (i + 1))).length
      ∧ ∀ j', (demodulate true ((r.pulses zeros).take i)).length ≤ j' → j' < j →
          (r.bits zeros)[j']? = some false := by
  obtain ⟨i, hi, -, hle, hlt, hbefore⟩ := getElem?_demodulateAt (b := x.1) h
  have hall := r.demodulate_pulses hz
  -- all bits of the block are read from its own pulses
  have hin : i < (r.pulses zeros).length := by
    by_contra hge
    rw [List.take_append, List.take_of_length_le (by omega), demodulate_append, hall,
      List.length_append] at hle
    omega
  rw [List.take_append_of_le_length (by omega)] at hle
  rw [List.take_append_of_le_length (by omega)] at hlt
  rw [List.take_append_of_le_length (by omega)] at hbefore
  refine ⟨i, hi, hin, hle, hlt, ?_⟩
  intro j' hj' hlt'
  have hb := hbefore j' hj' hlt'
  rwa [demodulate_append, hall, List.getElem?_append_left (by omega)] at hb

/-- A one bit behind a zero that an earlier pulse carries is the only bit of a medium pulse. -/
lemma medium_of_one {j q : Nat} (hq : q < (r.pulses zeros).length)
    (hlast : demodulator.final true ((r.pulses zeros).take q) = false)
    (hle : (demodulate true ((r.pulses zeros).take q)).length ≤ j)
    (hlt : j < (demodulate true ((r.pulses zeros).take (q + 1))).length)
    (hone : (r.bits zeros)[j]? = some true) :
    (r.pulses zeros)[q]? = some .medium
      ∧ (demodulate true ((r.pulses zeros).take q)).length = j := by
  have hp : (r.pulses zeros).take (q + 1) = (r.pulses zeros).take q ++ [(r.pulses zeros)[q]] :=
    List.take_succ_eq_append_getElem hq
  obtain ⟨v, hv⟩ := r.demodulate_take zeros (q + 1) hq
  rw [List.getElem?_eq_getElem hq]
  rw [hp, demodulate_append, hlast, demodulate_cons, demodulate_nil, List.append_nil] at hlt hv
  rw [List.length_append] at hlt
  cases h : (r.pulses zeros)[q] with
  | medium =>
      rw [h] at hlt
      have hsingle : (decode false .medium).1.length = 1 := rfl
      exact ⟨rfl, by omega⟩
  | short | long | glitch | unknown =>
      -- such a pulse carries one zero
      rw [h] at hlt hv
      change j < _ + 1 at hlt
      change _ ++ [false] ++ v = _ at hv
      have hj : j = (demodulate true ((r.pulses zeros).take q)).length := by omega
      rw [← hv, hj, List.append_assoc, List.getElem?_append_right (Nat.le_refl _),
        Nat.sub_self] at hone
      simp at hone

/-- A one bit behind a long run of zeros is alone in its pulse. -/
lemma tornAt {j q : Nat} (hq : q < (r.pulses zeros).length)
    (hle : (demodulate true ((r.pulses zeros).take q)).length ≤ j)
    (hlt : j < (demodulate true ((r.pulses zeros).take (q + 1))).length)
    (hj : j < 8 * r.bytes.length) (hone : (r.bits zeros)[j]? = some true)
    (hm : (demodulate true ((r.pulses zeros).take m)).length + minGap ≤ j)
    (hmle : m ≤ (r.pulses zeros).length)
    (hzeros : ∀ j', (demodulate true ((r.pulses zeros).take m)).length ≤ j' → j' < j →
      (r.bits zeros)[j']? = some false) : r.TornAt zeros m q := by
  have hmin : minGap = 768 := rfl
  have hbits : demodulate true ((r.pulses zeros).take q) <+: r.bits zeros :=
    r.demodulate_take zeros q (by omega)
  have hmq : m ≤ q := by
    by_contra hlt'
    have hmono := length_demodulate_take_mono true (r.pulses zeros) (show q + 1 ≤ m by omega)
    omega
  obtain ⟨v, hv⟩ := hbits
  have hget : ∀ j', j' < (demodulate true ((r.pulses zeros).take q)).length →
      (demodulate true ((r.pulses zeros).take q))[j']? = (r.bits zeros)[j']? := by
    intro j' hj'
    rw [← hv, List.getElem?_append_left hj']
  -- the bit before is a zero of the run
  have hsucc := length_demodulate_take_succ_le true (r.pulses zeros) q
  have hlast : demodulator.final true ((r.pulses zeros).take q) = false := by
    rw [final_eq_getLastD, List.getLastD_eq_getLast?, List.getLast?_eq_getElem?,
      hget _ (by omega), hzeros _ (by omega) (by omega)]
    rfl
  obtain ⟨hmedium, hlen⟩ := medium_of_one hq hlast hle hlt hone
  refine ⟨hmq, by omega, hmedium, ?_⟩
  obtain ⟨u, hu⟩ : demodulate true ((r.pulses zeros).take m)
      <+: demodulate true ((r.pulses zeros).take q) :=
    List.prefix_of_prefix_length_le (r.demodulate_take zeros m (by omega)) ⟨v, hv⟩ (by omega)
  have hulen := congrArg List.length hu
  rw [List.length_append] at hulen
  have hrun : u = List.replicate u.length false := by
    refine @eq_replicate_of_getElem? _ _ (demodulate true ((r.pulses zeros).take m)) _ ?_
    intro j' hge hlt'
    rw [hu] at hlt' ⊢
    rw [hget j' hlt']
    exact hzeros j' hge (by omega)
  exact ⟨u.length, by omega, by rw [← hrun, hu]⟩

end Recorded

namespace Recovery

/-! ### Zeros at the end -/

lemma zeroTail_append_zeros (bits : List Bool) (n : Nat) :
    zeroTail (bits ++ List.replicate n false) = zeroTail bits + n := by
  induction n with
  | zero => simp
  | succ n ih =>
      rw [List.replicate_succ', ← List.append_assoc, zeroTail_concat, ih]
      rfl

lemma getElem?_of_zeroTail (bits : List Bool) (j : Nat) (h : bits.length - zeroTail bits ≤ j)
    (hj : j < bits.length) : bits[j]? = some false := by
  induction bits using List.reverseRecOn with
  | nil => simp at hj
  | append_singleton bits b ih =>
      rw [zeroTail_concat, List.length_append, List.length_singleton] at h
      rw [List.length_append, List.length_singleton] at hj
      cases b with
      | true =>
          simp only [if_true] at h
          omega
      | false =>
          simp only [Bool.false_eq_true, if_false] at h
          by_cases hlt : j < bits.length
          · rw [List.getElem?_append_left hlt]
            exact ih (by omega) hlt
          · obtain rfl : j = bits.length := by omega
            simp

/-! ### The bits of a block and what follows -/

section

variable {r : Recorded} {zeros k : Nat} {more : List Bool}

/-- The bits from a byte of a block on are those of its layout. -/
lemma take_drop_bits (hz : 16 ≤ zeros) (hk : k ≤ r.bytes.length) :
    ((r.bits zeros ++ more).drop (8 * k)).take 16
      = Bits.ofBytes ((r.framed.drop (k + 1)).take 2) := by
  obtain ⟨n, rfl⟩ := Nat.exists_eq_add_of_le hz
  have hlen := r.length_bytes
  have hbits : r.bits (16 + n) ++ more
      = Bits.ofBytes (r.bytes ++ [0, 0]) ++ (List.replicate n false ++ more) := by
    rw [Recorded.bits, Bits.ofBytes_append, ← List.replicate_append_replicate]
    simp only [List.append_assoc]
    rfl
  have hle : k ≤ (r.bytes ++ [0, 0]).length := by
    rw [List.length_append]
    omega
  have hframed : (r.framed.drop (k + 1)).take 2 = ((r.bytes ++ [0, 0]).drop k).take 2 := by
    have hsplit : r.framed = gapEndMark :: ((r.bytes ++ [0, 0]) ++ List.replicate 119 0) := by
      rw [Recorded.framed, List.append_assoc]
      rfl
    rw [hsplit, List.drop_succ_cons, List.drop_append_of_le_length hle,
      List.take_append_of_le_length (by simp; omega)]
  rw [hbits, hframed, List.drop_append_of_le_length (by rw [Bits.length_ofBytes]; omega),
    Bits.drop_ofBytes, List.take_append_of_le_length (by simp; omega),
    show 16 = 8 * 2 from rfl, Bits.take_ofBytes]

lemma pack_take_bits (hk : 8 * k ≤ 8 * r.bytes.length) :
    Bits.pack ((r.bits zeros ++ more).take (8 * k)) = r.bytes.take k := by
  rw [Recorded.bits, List.append_assoc, List.take_append_of_le_length (by simpa using hk),
    Bits.take_ofBytes, Bits.pack_ofBytes]

/-- In the gap behind a block whole bytes of it are the block, its check and zeros. -/
lemma pack_take_bits_zeros (hk : r.bytes.length ≤ k) (hz : 8 * k ≤ (r.bits zeros).length) :
    Bits.pack ((r.bits zeros ++ more).take (8 * k))
      = r.bytes ++ List.replicate (k - r.bytes.length) 0 := by
  rw [Recorded.length_bits] at hz
  have hsplit : r.bits zeros = Bits.ofBytes (r.bytes ++ List.replicate (k - r.bytes.length) 0)
      ++ List.replicate (zeros - 8 * (k - r.bytes.length)) false := by
    rw [Recorded.bits, Bits.ofBytes_append, Bits.ofBytes_replicate_zero, List.append_assoc,
      List.replicate_append_replicate]
    congr 2
    omega
  rw [hsplit, List.append_assoc, List.take_left', Bits.pack_ofBytes]
  rw [Bits.length_ofBytes, List.length_append, List.length_replicate]
  omega

/-- Within a block, an end by the check comes early, or it is the right one. -/
lemma checksAt_iff (hz : 16 ≤ zeros) (hk : k ≤ r.bytes.length) :
    ChecksAt {} (r.bits zeros ++ more) k
      ↔ r.EndsEarly k ∨ (k = r.bytes.length ∧ 3 ≤ k ∧ r.IsIntact) := by
  have hlen := r.length_bits zeros
  have hgap : Layout.gap = 121 := rfl
  have hrange : 8 * k ≤ (r.bits zeros ++ more).length := by
    rw [List.length_append]
    omega
  have hnext : (true ∉ ((r.bits zeros ++ more).drop (8 * k)).take 16)
      ↔ (r.framed.drop (k + 1)).take 2 = [0, 0] := by
    rw [take_drop_bits hz hk, Bits.true_not_mem_ofBytes]
    have htwo : ((r.framed.drop (k + 1)).take 2).length = 2 := by
      have hb := r.length_bytes
      rw [List.length_take, List.length_drop, Recorded.length_framed]
      omega
    match (r.framed.drop (k + 1)).take 2, htwo with
    | [a, b], _ => simp
  rw [ChecksAt, pack_take_bits (by omega)]
  change _ ∧ _ ∧ _ ∧ (true ∉ ((r.bits zeros ++ more).drop (8 * k)).take 16) ↔ _
  rw [hnext, Recorded.EndsEarly]
  by_cases heq : k = r.bytes.length
  · have hbehind : (r.framed.drop (k + 1)).take 2 = [0, 0] := by
      rw [Recorded.framed, List.cons_append, List.drop_succ_cons, List.drop_left' heq.symm]
      rfl
    rw [List.take_of_length_le (by omega), r.of_bytes_eq_zero_iff, hbehind]
    constructor
    · rintro ⟨h3, -, hr, -⟩
      exact .inr ⟨heq, h3, hr⟩
    · rintro (⟨-, hlt, -, -⟩ | ⟨-, h3, hr⟩)
      · omega
      · exact ⟨h3, hrange, hr, rfl⟩
  · constructor
    · rintro ⟨h3, -, hr, hz⟩
      exact .inl ⟨h3, by omega, hr, hz⟩
    · rintro (⟨h3, -, hr, hz⟩ | ⟨h, -, -⟩)
      · exact ⟨h3, hrange, hr, hz⟩
      · exact absurd h heq

/-- In the gap behind a block nothing checks unless the block does. -/
lemma isIntact_of_checksAt (hk : r.bytes.length ≤ k) (hin : 8 * k ≤ (r.bits zeros).length)
    (h : ChecksAt {} (r.bits zeros ++ more) k) : r.IsIntact := by
  have hcheck := h.2.2.1
  rwa [pack_take_bits_zeros hk hin, Crc.of_append_zeros, r.of_bytes_eq_zero_iff] at hcheck

end

/-! ### The scan of a block -/

/-- Where a block ends at the latest is told by the bits before. -/
lemma marksAt_append {th : Thresholds} {previous : Option Block} {bits : List Bool} {j : Nat}
    (hj : j < bits.length) (h8 : 8 ≤ bits.length) (more : List Bool) :
    MarksAt th previous (bits ++ more) j ↔ MarksAt th previous bits j := by
  rw [MarksAt, MarksAt, List.getElem?_append_left hj, List.take_append_of_le_length (by omega),
    List.take_append_of_le_length h8]

/-- What a scan takes for the block: a first part of its bytes, its check, and zeros. It is a part
of the block only where this ends early. -/
def Taken (r : Recorded) (data : List UInt8) : Prop :=
  ∃ k, 3 ≤ k ∧ data = (r.bytes ++ List.replicate Layout.gap 0).take k
    ∧ (k < r.bytes.length → r.EndsEarly k)

/-- The scan of a block whose pulses begin at `start` stops at the cut `m`, and if it has come to
the next mark, this is the one behind the block. -/
structure EndsAt (r : Recorded) (zeros start m : Nat) (res : ScanResult) : Prop where
  stop_eq : res.stop = some ((start + m : Nat) : Int)
  zerosBehind : r.ZerosBehind zeros m
  taken : Taken r res.data
  resume_eq : res.resume = none
    ∨ res.resume = some ((start + (r.pulses zeros).length : Nat) : Int)

/-- The scan of a block whose pulses begin at `start` stops within it, where zeros begin that are as
long as a gap and that a one bit of the block ends. -/
structure StopsWithin (r : Recorded) (zeros start m q : Nat) (res : ScanResult) : Prop where
  stop_eq : res.stop = some ((start + m : Nat) : Int)
  resume_eq : res.resume = some ((start + q : Nat) : Int)
  torn : r.TornAt zeros m q

section

variable {r : Recorded} {previous : Option Block} {start k : Nat} {more : List Pulse}

/-- Where a scan stops by the check, only zeros follow, if nothing else follows an early end. -/
lemma zerosBehind_check {zeros : Nat} {x : Bool × Nat} (hz : lastZeros ≤ zeros)
    (hk : k ≤ r.bytes.length) (h3 : 3 ≤ k) (hrest : ∀ b ∈ r.bytes.drop k, b = 0)
    (hx : (demodulateAt true start (r.pulses zeros ++ more))[8 * k - 1]? = some x) :
    ∃ m, x.2 + 1 = start + m ∧ r.ZerosBehind zeros m := by
  have hlast : lastZeros = 968 := rfl
  have hlen := r.length_bits zeros
  obtain ⟨i, hi, hlt, hle, hge, -⟩ := Recorded.exists_pulse (by omega) hx (by omega)
  have hsucc := length_demodulate_take_succ_le true (r.pulses zeros) i
  refine ⟨i + 1, by omega, Recorded.zerosBehind_of_getElem? hlt (by omega) ?_⟩
  intro j hj hj'
  -- behind the first `k` bytes all bits are zeros
  have hzeros : (r.bits zeros).drop (8 * k)
      = List.replicate (8 * (r.bytes.length - k) + zeros) false := by
    have hall : r.bytes.drop k = List.replicate (r.bytes.length - k) 0 := by
      rw [List.eq_replicate_iff]
      exact ⟨List.length_drop, hrest⟩
    rw [Recorded.bits, List.drop_append_of_le_length (by rw [Bits.length_ofBytes]; omega),
      Bits.drop_ofBytes, hall,
      Bits.ofBytes_replicate_zero, List.replicate_append_replicate]
  have hget : (r.bits zeros)[j]? = ((r.bits zeros).drop (8 * k))[j - 8 * k]? := by
    rw [List.getElem?_drop]
    congr 1
    omega
  rw [hget, hzeros, List.getElem?_replicate, if_pos]
  omega

/-- A scan that stops by the check within a block has found its end. -/
lemma endsAt_of_check {zeros : Nat} {x : Bool × Nat} {bits : List Bool} (hz : lastZeros ≤ zeros)
    (hk : k ≤ r.bytes.length) (hchecks : ChecksAt {} (r.bits zeros ++ bits) k)
    (hearly : ∀ k, r.EndsEarly k → ∀ b ∈ r.bytes.drop k, b = 0)
    (hx : (demodulateAt true start (r.pulses zeros ++ more))[8 * k - 1]? = some x) :
    ∃ m, EndsAt r zeros start m ⟨some (0 + x.2 + 1),
      Bits.pack ((r.bits zeros ++ bits).take (8 * k)), none, true⟩ := by
  have hends : k < r.bytes.length → r.EndsEarly k := by
    intro hlt
    have hlast : lastZeros = 968 := rfl
    rcases (checksAt_iff (by omega) hk).mp hchecks with h | ⟨h, -, -⟩
    · exact h
    · omega
  have hrest : ∀ b ∈ r.bytes.drop k, b = 0 := by
    by_cases hlt : k < r.bytes.length
    · exact hearly k (hends hlt)
    · rw [List.drop_of_length_le (by omega)]
      simp
  obtain ⟨m, hm, hbehind⟩ := zerosBehind_check hz hk hchecks.1 hrest hx
  refine ⟨m, ?_, hbehind, ⟨k, hchecks.1, ?_, hends⟩, .inl rfl⟩
  · rw [Int.zero_add, ← hm]
    rfl
  · rw [pack_take_bits (by omega), List.take_append_of_le_length hk]

/-- A scan that stops before a mark within the block. -/
lemma stopsWithin_of_mark {zeros j : Nat} {x y : Bool × Nat} {bits : List Bool}
    (h3 : 3 ≤ r.bytes.length) (hz : 2 ≤ zeros) (hj : j < 8 * r.bytes.length)
    (hmark : MarksAt {} previous (r.bits zeros ++ bits) j)
    (hx : (demodulateAt true start (r.pulses zeros ++ more))[j
      - zeroTail ((r.bits zeros ++ bits).take j)]? = some x)
    (hy : (demodulateAt true start (r.pulses zeros ++ more))[j]? = some y) (data : List UInt8) :
    MarksAt {} previous (Bits.ofBytes r.bytes) j
      ∧ ∃ m q, StopsWithin r zeros start m q ⟨some (0 + x.2), data, some (0 + y.2), false⟩ := by
  have hlen := r.length_bits zeros
  have hmin : ({} : Thresholds).minGap = minGap := rfl
  have hlong := hmark.2.1
  rw [List.take_append_of_le_length (by omega)] at hx hlong
  have htail := zeroTail_le ((r.bits zeros).take j)
  rw [List.length_take, Nat.min_eq_left (by omega)] at htail
  obtain ⟨m, hm, hmle, hle, -, hbefore⟩ := Recorded.exists_pulse hz hx (by omega)
  obtain ⟨q, hq, hqle, hleq, hltq, -⟩ := Recorded.exists_pulse hz hy (by omega)
  refine ⟨?_, m, q, congrArg some (by omega), congrArg some (by omega),
    Recorded.tornAt hqle hleq hltq hj ?_ (by omega) (by omega) ?_⟩
  · rwa [Recorded.bits, List.append_assoc, marksAt_append (by rw [Bits.length_ofBytes]; exact hj)
      (by rw [Bits.length_ofBytes]; omega)] at hmark
  · have hget := hmark.1
    rwa [List.getElem?_append_left (by omega)] at hget
  · intro j' hge hlt
    by_cases hzero : j' < j - zeroTail ((r.bits zeros).take j)
    · exact hbefore j' hge hzero
    · have hz := getElem?_of_zeroTail ((r.bits zeros).take j) j'
        (by rw [List.length_take]; omega) (by rw [List.length_take]; omega)
      rwa [List.getElem?_take, if_pos hlt] at hz

/-- In the gap there is no one bit. -/
lemma getElem?_bits_gap {zeros j : Nat} (hge : 8 * r.bytes.length ≤ j)
    (hlt : j < (r.bits zeros).length) : (r.bits zeros)[j]? = some false := by
  rw [Recorded.length_bits] at hlt
  rw [Recorded.bits, List.getElem?_append_right (by rw [Bits.length_ofBytes]; exact hge),
    List.getElem?_replicate, if_pos (by rw [Bits.length_ofBytes]; omega)]

/-- The bits of a capture from behind a mark on. -/
lemma map_fst_demodulateAt_pulses (r : Recorded) {zeros : Nat} (hz : 2 ≤ zeros) (start : Nat)
    (more : List Pulse) :
    (demodulateAt true start (r.pulses zeros ++ more)).map Prod.fst
      = r.bits zeros ++ demodulate false more := by
  rw [map_fst_demodulateAt, demodulate_append, r.demodulate_pulses hz, r.final_pulses hz]

/-- The mark behind a gap has a pulse of its own. -/
lemma pulse_of_mark {y : Bool × Nat} (h : (demodulateAt true start
      (r.pulses innerZeros ++ .medium :: more))[(r.bits innerZeros).length]? = some y) :
    y.2 = start + (r.pulses innerZeros).length := by
  have hinner : innerZeros = 975 := rfl
  have hall := r.demodulate_pulses (show 2 ≤ innerZeros by omega)
  obtain ⟨i, hi, -, hle, hge, -⟩ := getElem?_demodulateAt (b := y.1) h
  by_contra hne
  rcases Nat.lt_or_gt_of_ne (show i ≠ (r.pulses innerZeros).length by omega) with hlt | hgt
  · -- the pulses of the block carry no more than its bits
    rw [List.take_append_of_le_length (by omega)] at hge
    have hpre := (r.demodulate_take innerZeros (i + 1) (by omega)).length_le
    omega
  · -- and one more pulse carries one more bit
    obtain ⟨n, rfl⟩ := Nat.exists_eq_add_of_lt hgt
    have hone := length_le_length_demodulate false ((Pulse.medium :: more).take (n + 1))
    rw [Nat.add_assoc, List.take_append, List.take_of_length_le (by omega), demodulate_append, hall,
      r.final_pulses (by omega), List.length_append, Nat.add_sub_cancel_left] at hle
    rw [List.take_succ_cons, List.length_cons] at hone
    rw [List.take_succ_cons] at hle
    omega

/-- A scan that comes to the mark behind the gap has found the end of the block where the zeros
before the mark begin. -/
lemma endsAt_of_mark {x y : Bool × Nat} (bits : List Bool) (h3 : 3 ≤ r.bytes.length)
    (hx : (demodulateAt true start (r.pulses innerZeros ++ .medium :: more))[
      (r.bits innerZeros).length - zeroTail (r.bits innerZeros)]? = some x)
    (hy : (demodulateAt true start (r.pulses innerZeros ++ .medium :: more))[
      (r.bits innerZeros).length]? = some y) :
    ∃ m, EndsAt r innerZeros start m ⟨some (0 + x.2),
      Bits.pack ((r.bits innerZeros ++ bits).take (8 * ((r.bits innerZeros).length / 8))),
      some (0 + y.2), false⟩ := by
  have hinner : innerZeros = 975 := rfl
  have hgap : Layout.gap = 121 := rfl
  have hlen := r.length_bits innerZeros
  have htail : zeroTail (r.bits innerZeros) ≤ (r.bits innerZeros).length := zeroTail_le _
  have hpos : innerZeros ≤ zeroTail (r.bits innerZeros) := by
    rw [Recorded.bits, zeroTail_append_zeros]
    omega
  obtain ⟨i, hi, hin, hle, -, hbefore⟩ := Recorded.exists_pulse (by omega) hx (by omega)
  have hmark := pulse_of_mark hy
  refine ⟨i, congrArg some (by omega),
    Recorded.zerosBehind_of_getElem? (by omega) (by omega) ?_,
    ⟨r.bytes.length + Layout.gap, by omega, ?_, fun h => by omega⟩,
    .inr (congrArg some (by omega))⟩
  · intro j hj hj'
    by_cases hzero : j < (r.bits innerZeros).length - zeroTail (r.bits innerZeros)
    · exact hbefore j hj hzero
    · exact getElem?_of_zeroTail _ j (by omega) hj'
  · rw [pack_take_bits_zeros (by omega) (by omega), List.take_of_length_le (by simp),
      show (r.bits innerZeros).length / 8 - r.bytes.length = Layout.gap by omega]

/-- **The scan of a block before another one** stops at a cut behind which there are only zeros, and
it may have come to the next mark then. Otherwise a mark seems to stand within the block. -/
lemma scanFrom_inner (start : Nat) (more : List Pulse) (h3 : 3 ≤ r.bytes.length)
    (hextent : r.IsIntact ∨ declaredExtent previous (r.bytes.take 1) ≤ r.bytes.length)
    (hearly : ∀ k, r.EndsEarly k → ∀ b ∈ r.bytes.drop k, b = 0) :
    (∃ m, EndsAt r innerZeros start m (scanFrom {} previous start true { zerosStart := start }
        (r.pulses innerZeros ++ .medium :: more)))
      ∨ ((∃ j < 8 * r.bytes.length, MarksAt {} previous (Bits.ofBytes r.bytes) j)
        ∧ ∃ m q, StopsWithin r innerZeros start m q (scanFrom {} previous start true
          { zerosStart := start } (r.pulses innerZeros ++ .medium :: more))) := by
  have hinner : innerZeros = 975 := rfl
  have hlast : lastZeros = 968 := rfl
  have hgap : Layout.gap = 121 := rfl
  have hlen := r.length_bits innerZeros
  have hmap := map_fst_demodulateAt_pulses r (show 2 ≤ innerZeros by omega) start (.medium :: more)
  have hbits : demodulate false (.medium :: more) = true :: demodulate true more := by
    rw [demodulate_cons]
    rfl
  rw [hbits] at hmap
  -- the mark behind the gap ends the block at the latest, unless it checks
  have hnext : r.IsIntact ∨ MarksAt {} previous
      (r.bits innerZeros ++ true :: demodulate true more) (r.bits innerZeros).length := by
    rcases hextent with hr | hle
    · exact .inl hr
    · refine .inr ⟨by simp, ?_, by omega, ?_⟩
      · rw [List.take_left, Recorded.bits, zeroTail_append_zeros, hinner]
        have hmin : ({} : Thresholds).minGap = 768 := rfl
        omega
      · rw [show 8 = 8 * 1 from rfl, pack_take_bits (by omega)]
        omega
  have hcheck : r.IsIntact → ChecksAt {}
      (r.bits innerZeros ++ true :: demodulate true more) r.bytes.length := fun hr =>
    (checksAt_iff (by omega) (Nat.le_refl _)).mpr (.inr ⟨rfl, h3, hr⟩)
  have houtcome := scanFrom_usual previous start (r.pulses innerZeros ++ .medium :: more)
  generalize scanFrom {} previous start true { zerosStart := start }
    (r.pulses innerZeros ++ .medium :: more) = res at houtcome ⊢
  cases houtcome with
  | @mark j x y marks no_marks no_checks stop resume =>
      rw [hmap] at marks no_marks no_checks stop ⊢
      by_cases hin : j < 8 * r.bytes.length
      · obtain ⟨hmark, hstop⟩ := stopsWithin_of_mark h3 (by omega) hin marks stop resume
          (Bits.pack ((r.bits innerZeros ++ true :: demodulate true more).take (8 * (j / 8))))
        exact .inr ⟨⟨j, hin, hmark⟩, hstop⟩
      have hge : 8 * r.bytes.length ≤ j := by omega
      have hbad : ¬ r.IsIntact := fun hr => no_checks _ hge (hcheck hr)
      have hend : j = (r.bits innerZeros).length := by
        by_contra hne
        rcases Nat.lt_or_gt_of_ne hne with hlt | hgt
        · have hj := marks.1
          rw [List.getElem?_append_left hlt, getElem?_bits_gap hge hlt] at hj
          simp at hj
        · exact no_marks _ hgt (hnext.resolve_left hbad)
      subst hend
      rw [List.take_left] at stop
      exact .inl (endsAt_of_mark _ h3 stop resume)
  | @check k x checks no_marks no_checks stop =>
      rw [hmap] at checks no_marks no_checks ⊢
      have hle : k ≤ r.bytes.length := by
        by_contra hgt
        have hr : r.IsIntact := by
          by_cases hin : 8 * k ≤ (r.bits innerZeros).length
          · exact isIntact_of_checksAt (by omega) hin checks
          · exact hnext.resolve_right (no_marks _ (by omega))
        exact no_checks _ (by omega) (hcheck hr)
      exact .inl (endsAt_of_check (by omega) hle checks hearly stop)
  | none no_marks no_checks =>
      rw [hmap] at no_marks no_checks
      rcases hnext with hr | hmark
      · exact absurd (hcheck hr) (no_checks _)
      · exact absurd hmark (no_marks _)

/-- **The scan of the last block** stops at such a cut, too. If its check is not right, no end of it
may be found. -/
lemma scanFrom_last (previous : Option Block) (start : Nat) (h3 : 3 ≤ r.bytes.length)
    (hearly : ∀ k, r.EndsEarly k → ∀ b ∈ r.bytes.drop k, b = 0) :
    (∃ m, EndsAt r lastZeros start m (scanFrom {} previous start true { zerosStart := start }
          (r.pulses lastZeros))
        ∧ (scanFrom {} previous start true { zerosStart := start } (r.pulses lastZeros)).resume
          = none)
      ∨ (¬ r.IsIntact ∧ (scanFrom {} previous start true { zerosStart := start }
          (r.pulses lastZeros)).stop = none)
      ∨ ((∃ j < 8 * r.bytes.length, MarksAt {} previous (Bits.ofBytes r.bytes) j)
        ∧ ∃ m q, StopsWithin r lastZeros start m q (scanFrom {} previous start true
          { zerosStart := start } (r.pulses lastZeros))) := by
  have hlast : lastZeros = 968 := rfl
  have hlen := r.length_bits lastZeros
  have hmap := map_fst_demodulateAt_pulses r (show 2 ≤ lastZeros by omega) start []
  have hcheck : r.IsIntact → ChecksAt {} (r.bits lastZeros ++ []) r.bytes.length := fun hr =>
    (checksAt_iff (by omega) (Nat.le_refl _)).mpr (.inr ⟨rfl, h3, hr⟩)
  have houtcome := scanFrom_usual previous start (r.pulses lastZeros ++ [])
  rw [demodulate_nil] at hmap
  rw [← List.append_nil (r.pulses lastZeros)]
  generalize scanFrom {} previous start true { zerosStart := start }
    (r.pulses lastZeros ++ []) = res at houtcome ⊢
  cases houtcome with
  | @mark j x y marks no_marks no_checks stop resume =>
      -- a one bit has to stand in the block
      rw [hmap] at marks stop ⊢
      by_cases hlt : j < 8 * r.bytes.length
      · obtain ⟨hmark, hstop⟩ := stopsWithin_of_mark h3 (by omega) hlt marks stop resume
          (Bits.pack ((r.bits lastZeros ++ []).take (8 * (j / 8))))
        exact .inr (.inr ⟨⟨j, hlt, hmark⟩, hstop⟩)
      · have hj := marks.1
        have hin := (List.getElem?_eq_some_iff.mp hj).1
        rw [List.append_nil] at hin hj
        rw [getElem?_bits_gap (by omega) hin] at hj
        simp at hj
  | @check k x checks no_marks no_checks stop =>
      rw [hmap] at checks no_checks ⊢
      have hle : k ≤ r.bytes.length := by
        by_contra hgt
        have hin := checks.2.1
        rw [List.append_nil] at hin
        exact no_checks _ (by omega) (hcheck (isIntact_of_checksAt (by omega) hin checks))
      obtain ⟨m, hm⟩ := endsAt_of_check (Nat.le_refl _) hle checks hearly stop
      exact .inl ⟨m, hm, rfl⟩
  | none no_marks no_checks =>
      rw [hmap] at no_checks
      exact .inr (.inl ⟨fun hr => no_checks _ (hcheck hr), rfl⟩)

end

end Recovery

end FamicomDisk
