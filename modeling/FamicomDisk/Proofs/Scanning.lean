import FamicomDisk.Proofs.Check
import FamicomDisk.Proofs.Modulation
import FamicomDisk.Recovery.Scan
import Mathlib.Tactic.ByContra

/-!
The scan of a block, told by its bits.

The scan reads pulses, keeps a register and counts zeros as it goes. What it finds depends only on
the bits behind the mark: a block ends behind `k` bytes that check and are followed by zeros
(`ChecksAt`), or before a one bit that stands behind a whole gap and behind the declared end
(`MarksAt`), whichever comes first.

* `scanFrom_eq_scanBits`: the scan of pulses is a scan of bits, each with the pulse it was read
  from.
* `Scan.Reads`: the invariant, what the scan remembers of the bits it has read.
* `scanBits_cases`: **what a scan finds**, by induction over the bits that are still to be read.
-/

namespace FamicomDisk

namespace Recovery

open Mfm

/-! ### A scan of bits -/

/-- Read a bit, when the block does not end there. -/
def Scan.read (previous : Option Block) (s : Scan) (offset : Int) (b : Bool) : Scan :=
  let s := s.countZeros offset b
  let bits := b :: s.bits
  if bits.length < 8 then { s with bits } else s.addByte previous (Bits.toByte bits.reverse)

/-- The block ends before this bit: it stands behind a gap and behind the declared end. -/
def Scan.endsBefore (th : Thresholds) (s : Scan) (b : Bool) : Bool :=
  b && th.minGap ≤ s.zeros && s.isPastExtent

/-- The block ends behind what was read, if a byte was just completed: it checks, and the bits
`rest` begin with enough zeros. -/
def Scan.endsBehind (th : Thresholds) (s : Scan) (rest : List Bool) : Bool :=
  s.bits.isEmpty && 3 ≤ s.count && s.check == 0
    && !(rest.take th.shortGap.toNat).contains true

/-- Scan bits, each with the number of its pulse behind the pulse `base`. -/
def scanBits (th : Thresholds) (previous : Option Block) (base : Int) (s : Scan) :
    List (Bool × Nat) → ScanResult
  | [] => s.result none none false
  | (b, i) :: rest =>
      if s.endsBefore th b then s.result (some s.zerosStart) (some (base + i)) false
      else
        let s := s.read previous (base + i) b
        if s.endsBehind th (rest.map Prod.fst) then s.result (some (base + i + 1)) none true
        else scanBits th previous base s rest

/-- Zeros follow in the capture exactly when the next bits are zeros. -/
lemma zerosFollow_eq (least : Int) (last : Bool) (count : Nat) (ps : List Pulse) :
    zerosFollow least last count ps
      = !((demodulate last ps).take (least - count).toNat).contains true := by
  induction ps generalizing last count with
  | nil => simp [zerosFollow]
  | cons p ps ih =>
      rw [zerosFollow, demodulate_cons, List.take_append, List.contains_append]
      simp only
      by_cases hle : least ≤ count
      · rw [if_pos hle, show (least - count).toNat = 0 by omega]
        simp
      · rw [if_neg hle, ih]
        by_cases hc : ((decode last p).1.take (least - count).toNat).contains true
        · rw [if_pos hc, hc]
          rfl
        · rw [if_neg hc, Bool.not_eq_true _ |>.mp hc, Bool.false_or,
            show (least - (count + (decode last p).1.length : Nat)).toNat
              = (least - count).toNat - (decode last p).1.length by omega]

/-- One bit of the scan of pulses is one bit of the scan of bits. -/
lemma scanBit_eq {th : Thresholds} (hs : 1 ≤ th.shortGap) (previous : Option Block) (offset : Int)
    (last : Bool) (ahead : List Pulse) (b : Bool) {pending : List Bool} (hp : pending.length ≤ 1)
    (s : Scan) :
    scanBit th previous offset last ahead b pending s
      = if s.endsBefore th b then .error (s.result (some s.zerosStart) (some offset) false)
        else if (s.read previous offset b).endsBehind th (pending ++ demodulate last ahead) then
          .error ((s.read previous offset b).result (some (offset + 1)) none true)
        else .ok (s.read previous offset b) := by
  have hfollow : (!pending.contains true
        && zerosFollow th.shortGap last pending.length ahead)
      = !((pending ++ demodulate last ahead).take th.shortGap.toNat).contains true := by
    rw [List.take_append,
      List.take_of_length_le (show pending.length ≤ th.shortGap.toNat by omega),
      List.contains_append, Bool.not_or, zerosFollow_eq,
      show (th.shortGap - (pending.length : Int)).toNat = th.shortGap.toNat - pending.length by
        omega]
  simp only [scanBit]
  change (if s.endsBefore th b then _ else _) = _
  by_cases hb : s.endsBefore th b = true
  · rw [if_pos hb, if_pos hb]
    rfl
  · rw [if_neg hb, if_neg hb]
    by_cases hlt : (b :: (s.countZeros offset b).bits).length < 8
    · have hread : s.read previous offset b
          = { s.countZeros offset b with bits := b :: (s.countZeros offset b).bits } := by
        rw [Scan.read]
        exact if_pos hlt
      rw [hread, if_pos hlt, if_neg (by simp [Scan.endsBehind])]
      rfl
    · have hread : s.read previous offset b = (s.countZeros offset b).addByte previous
          (Bits.toByte (b :: (s.countZeros offset b).bits).reverse) := by
        rw [Scan.read]
        exact if_neg hlt
      rw [hread, if_neg hlt]
      simp only [Scan.endsBehind, Scan.addByte, List.isEmpty_nil, Bool.true_and, Bool.and_assoc,
        hfollow]
      rfl

/-- Scanning the bits of a pulse and going on is scanning these bits and those that follow. -/
lemma scanPulse_eq {th : Thresholds} (hs : 1 ≤ th.shortGap) (previous : Option Block) (base : Int)
    (i : Nat) (last : Bool) (ahead : List Pulse) {bits : List Bool} (hb : bits.length ≤ 2)
    {rest : List (Bool × Nat)} (hrest : rest.map Prod.fst = demodulate last ahead) (s : Scan) :
    (match scanPulse th previous (base + i) last ahead bits s with
      | .error r => r
      | .ok s => scanBits th previous base s rest)
      = scanBits th previous base s (bits.map (fun b => (b, i)) ++ rest) := by
  induction bits generalizing s with
  | nil => rfl
  | cons b bits ih =>
      rw [List.length_cons] at hb
      have hmap : (bits.map (fun b => (b, i)) ++ rest).map Prod.fst
          = bits ++ demodulate last ahead := by
        rw [List.map_append, List.map_map, hrest]
        simp [Function.comp_def]
      rw [scanPulse, scanBit_eq hs previous _ _ _ _ (by omega), List.map_cons, List.cons_append,
        scanBits, hmap]
      by_cases hbefore : s.endsBefore th b = true
      · rw [if_pos hbefore, if_pos hbefore]
        rfl
      · rw [if_neg hbefore, if_neg hbefore]
        by_cases hbehind : (s.read previous (base + i) b).endsBehind th
            (bits ++ demodulate last ahead) = true
        · rw [if_pos hbehind]
          simp only [if_pos hbehind]
          rfl
        · rw [if_neg hbehind]
          simp only [if_neg hbehind]
          exact ih (by omega) _

lemma scanFrom_cons (th : Thresholds) (previous : Option Block) (offset : Int) (last : Bool)
    (s : Scan) (p : Pulse) (ps : List Pulse) :
    scanFrom th previous offset last s (p :: ps)
      = match scanPulse th previous offset (decode last p).2 ps (decode last p).1 s with
        | .error r => r
        | .ok s => scanFrom th previous (offset + 1) (decode last p).2 s ps := rfl

/-- **The scan of pulses is a scan of bits.** -/
lemma scanFrom_eq_scanBits {th : Thresholds} (hs : 1 ≤ th.shortGap) (previous : Option Block)
    (base : Int) (i : Nat) (last : Bool) (s : Scan) (ps : List Pulse) :
    scanFrom th previous (base + i) last s ps
      = scanBits th previous base s (demodulateAt last i ps) := by
  induction ps generalizing i last s with
  | nil => rfl
  | cons p ps ih =>
      have hrest : (demodulateAt (decode last p).2 (i + 1) ps).map Prod.fst
          = demodulate (decode last p).2 ps := map_fst_demodulateAt _ _ _
      have hnext : ∀ s : Scan, scanFrom th previous (base + i + 1) (decode last p).2 s ps
          = scanBits th previous base s (demodulateAt (decode last p).2 (i + 1) ps) := by
        intro s
        rw [← ih, Int.natCast_add, Int.add_assoc]
        rfl
      rw [scanFrom_cons, demodulateAt_cons, ← scanPulse_eq hs previous base i _ _
        (decode_length_le last p) hrest]
      cases scanPulse th previous (base + i) (decode last p).2 ps (decode last p).1 s with
      | error r => rfl
      | ok s => exact hnext s

/-! ### What a scan remembers -/

/-- The number of zeros at the end of bits. -/
def zeroTail (bits : List Bool) : Nat := (bits.reverse.takeWhile (!·)).length

@[simp] lemma zeroTail_concat (bits : List Bool) (b : Bool) :
    zeroTail (bits ++ [b]) = if b then 0 else zeroTail bits + 1 := by
  cases b <;> simp [zeroTail]

lemma zeroTail_le (bits : List Bool) : zeroTail bits ≤ bits.length := by
  simpa [zeroTail] using (List.takeWhile_sublist (p := (!·)) (l := bits.reverse)).length_le

/-- The declared size of a block and its check, told by its first byte; zero if it is not known. -/
def declaredExtent (previous : Option Block) (bytes : List UInt8) : Nat :=
  match Block.sizeOf (bytes.headD 0).toNat previous with
  | some size => size + 2
  | none => 0

/-- After the bits `u`, each with the number of its pulse behind `base`, the scan remembers the
bytes, the bits of the byte that is not complete, the check and the zeros at the end. -/
structure Scan.Reads (previous : Option Block) (base : Int) (u : List (Bool × Nat)) (s : Scan) :
    Prop where
  bits_eq : Bits.ofBytes s.bytes.reverse ++ s.bits.reverse = u.map Prod.fst
  bits_lt : s.bits.length < 8
  count_eq : s.count = s.bytes.length
  check_eq : s.check = Crc.of s.bytes.reverse
  extent_eq : s.extent
    = if s.bytes = [] then none else some (declaredExtent previous s.bytes.reverse)
  zeros_eq : s.zeros = zeroTail (u.map Prod.fst)
  zerosStart_eq : 0 < s.zeros → ∃ x, u[u.length - s.zeros]? = some x ∧ s.zerosStart = base + x.2

namespace Scan.Reads

variable {previous : Option Block} {base : Int} {u : List (Bool × Nat)} {s : Scan}

lemma start (previous : Option Block) (base zerosStart : Int) :
    Scan.Reads previous base [] { zerosStart } :=
  ⟨rfl, Nat.succ_pos 7, rfl, rfl, rfl, rfl, fun h => absurd h (Nat.lt_irrefl 0)⟩

lemma length_eq (h : s.Reads previous base u) : u.length = 8 * s.bytes.length + s.bits.length := by
  have hlen := congrArg List.length h.bits_eq
  simpa using hlen.symm

lemma countZeros (h : s.Reads previous base u) (b : Bool) (i : Nat) :
    (s.countZeros (base + i) b).zeros = zeroTail ((u ++ [(b, i)]).map Prod.fst)
      ∧ (0 < (s.countZeros (base + i) b).zeros → ∃ x,
          (u ++ [(b, i)])[(u ++ [(b, i)]).length - (s.countZeros (base + i) b).zeros]? = some x
            ∧ (s.countZeros (base + i) b).zerosStart = base + x.2) := by
  rw [List.map_append, List.map_singleton, zeroTail_concat, ← h.zeros_eq, List.length_append,
    List.length_singleton]
  cases b with
  | true => exact ⟨rfl, fun hpos => absurd hpos (Nat.lt_irrefl 0)⟩
  | false =>
      refine ⟨rfl, ?_⟩
      intro _
      simp only [Scan.countZeros, Bool.false_eq_true, if_false, Nat.add_sub_add_right]
      by_cases hz : s.zeros = 0
      · rw [if_pos hz, hz]
        exact ⟨(false, i), by simp, rfl⟩
      · obtain ⟨x, hx, hstart⟩ := h.zerosStart_eq (Nat.pos_of_ne_zero hz)
        have hle : s.zeros ≤ u.length := by
          have hz := zeroTail_le (u.map Prod.fst)
          rwa [← h.zeros_eq, List.length_map] at hz
        rw [if_neg hz, List.getElem?_append_left (by omega)]
        exact ⟨x, hx, hstart⟩

/-- Reading one more bit keeps the invariant. -/
lemma read (h : s.Reads previous base u) (b : Bool) (i : Nat) :
    (s.read previous (base + i) b).Reads previous base (u ++ [(b, i)]) := by
  obtain ⟨hzeros, hstart⟩ := h.countZeros b i
  have hbits : Bits.ofBytes s.bytes.reverse ++ (b :: s.bits).reverse
      = (u ++ [(b, i)]).map Prod.fst := by
    rw [List.map_append, ← h.bits_eq, List.reverse_cons, List.append_assoc]
    rfl
  have hsame : (s.countZeros (base + i) b).bytes = s.bytes
      ∧ (s.countZeros (base + i) b).bits = s.bits
      ∧ (s.countZeros (base + i) b).count = s.count
      ∧ (s.countZeros (base + i) b).check = s.check
      ∧ (s.countZeros (base + i) b).extent = s.extent := by
    cases b <;> exact ⟨rfl, rfl, rfl, rfl, rfl⟩
  obtain ⟨ebytes, ebits, ecount, echeck, eextent⟩ := hsame
  rw [Scan.read, ebits]
  by_cases hlt : (b :: s.bits).length < 8
  · simp only [if_pos hlt]
    exact ⟨by rw [ebytes]; exact hbits, hlt, by rw [ecount, ebytes]; exact h.count_eq,
      by rw [echeck, ebytes]; exact h.check_eq, by rw [eextent, ebytes]; exact h.extent_eq, hzeros,
      hstart⟩
  · simp only [if_neg hlt]
    have h8 : (b :: s.bits).reverse.length = 8 := by
      have hl := h.bits_lt
      rw [List.length_cons] at hlt
      rw [List.length_reverse, List.length_cons]
      omega
    have hbyte := Bits.ofByte_toByte h8
    rw [List.reverse_cons] at hbyte
    constructor
    · rw [← hbits]
      simp [Scan.addByte, ebytes, hbyte]
    · exact Nat.succ_pos 7
    · simp [Scan.addByte, ebytes, ecount, h.count_eq]
    · simp [Scan.addByte, ebytes, echeck, h.check_eq, Crc.of_append]
    · simp only [Scan.addByte, ecount, ebytes, eextent, h.count_eq, h.extent_eq]
      by_cases hnil : s.bytes = []
      · rw [hnil]
        rfl
      · obtain ⟨c, cs, hc⟩ := List.exists_cons_of_ne_nil
          (show s.bytes.reverse ≠ [] by simpa using hnil)
        rw [if_neg (by simpa using hnil), if_neg hnil, if_neg (by simp), List.reverse_cons, hc]
        rfl
    · exact hzeros
    · exact hstart

/-- The first bits that were read are those of the first bytes. -/
lemma pack_take (h : s.Reads previous base u) {k : Nat} (hk : k ≤ s.bytes.length) :
    Bits.pack ((u.map Prod.fst).take (8 * k)) = s.bytes.reverse.take k := by
  rw [← h.bits_eq, List.take_append_of_le_length (by simp; omega), Bits.take_ofBytes,
    Bits.pack_ofBytes]

/-- The complete bytes of what was read. -/
lemma pack_complete (h : s.Reads previous base u) (rest : List (Bool × Nat)) :
    Bits.pack (((u ++ rest).map Prod.fst).take (8 * (u.length / 8))) = s.bytes.reverse := by
  have hlen := h.length_eq
  have hlt := h.bits_lt
  rw [List.map_append, List.take_append_of_le_length (by rw [List.length_map]; omega),
    show u.length / 8 = s.bytes.length by omega, h.pack_take (Nat.le_refl _),
    List.take_of_length_le (by simp)]

end Scan.Reads

/-! ### Where a block ends -/

/-- A block may end behind the first `k` bytes: they check, and zeros follow. -/
def ChecksAt (th : Thresholds) (bits : List Bool) (k : Nat) : Prop :=
  3 ≤ k ∧ 8 * k ≤ bits.length ∧ Crc.of (Bits.pack (bits.take (8 * k))) = 0
    ∧ true ∉ (bits.drop (8 * k)).take th.shortGap.toNat

/-- A block ends at the latest before bit `j`: that is a one behind a whole gap, and behind the
declared end. -/
def MarksAt (th : Thresholds) (previous : Option Block) (bits : List Bool) (j : Nat) : Prop :=
  bits[j]? = some true ∧ th.minGap ≤ zeroTail (bits.take j) ∧ 8 ≤ j
    ∧ declaredExtent previous (Bits.pack (bits.take 8)) ≤ j / 8

variable {th : Thresholds} {previous : Option Block} {base : Int} {u : List (Bool × Nat)} {s : Scan}

lemma Scan.Reads.endsBefore_iff (h : s.Reads previous base u) (b : Bool) (rest : List Bool) :
    s.endsBefore th b = true ↔ MarksAt th previous (u.map Prod.fst ++ b :: rest) u.length := by
  have hlen := h.length_eq
  have hlt := h.bits_lt
  have hget : (u.map Prod.fst ++ b :: rest)[u.length]? = some b := by
    rw [List.getElem?_append_right (by simp)]
    simp
  have htake : (u.map Prod.fst ++ b :: rest).take u.length = u.map Prod.fst :=
    List.take_left' (List.length_map _)
  have hpast : s.isPastExtent = true ↔ 8 ≤ u.length
      ∧ declaredExtent previous (Bits.pack ((u.map Prod.fst ++ b :: rest).take 8))
        ≤ u.length / 8 := by
    rw [Scan.isPastExtent, h.extent_eq]
    by_cases hnil : s.bytes = []
    · rw [if_pos hnil]
      rw [hnil, List.length_nil] at hlen
      simp only [Bool.false_eq_true, false_iff, not_and]
      omega
    · have hpos := List.length_pos_iff.mpr hnil
      have hpack := h.pack_take (k := 1) hpos
      obtain ⟨c, cs, hc⟩ := List.exists_cons_of_ne_nil
        (show s.bytes.reverse ≠ [] by simpa using hnil)
      rw [hc] at hpack
      rw [if_neg hnil, hc, List.take_append_of_le_length (by simp; omega), hpack, h.count_eq]
      simp only [decide_eq_true_eq, show u.length / 8 = s.bytes.length by omega]
      exact ⟨fun hle => ⟨by omega, hle⟩, fun hle => hle.2⟩
  rw [Scan.endsBefore, MarksAt, hget, htake, Bool.and_eq_true, Bool.and_eq_true, hpast, h.zeros_eq,
    decide_eq_true_eq, Option.some.injEq, and_assoc]

lemma Scan.Reads.endsBehind_iff (h : s.Reads previous base u) (th : Thresholds)
    (rest : List Bool) :
    s.endsBehind th rest = true
      ↔ 8 ∣ u.length ∧ ChecksAt th (u.map Prod.fst ++ rest) (u.length / 8) := by
  have hlen := h.length_eq
  have hlt := h.bits_lt
  rw [Scan.endsBehind]
  by_cases hnil : s.bits = []
  · rw [hnil, List.length_nil, Nat.add_zero] at hlen
    have hpack := h.pack_take (Nat.le_refl s.bytes.length)
    rw [← hlen, List.take_of_length_le (by simp), List.take_of_length_le (by simp)] at hpack
    have hcount : s.bytes.length = u.length / 8 := by omega
    have htake : (u.map Prod.fst ++ rest).take u.length = u.map Prod.fst :=
      List.take_left' (List.length_map _)
    have hdrop : (u.map Prod.fst ++ rest).drop u.length = rest :=
      List.drop_left' (List.length_map _)
    rw [ChecksAt, show 8 * (u.length / 8) = u.length by omega, htake, hdrop, hpack, ← h.check_eq,
      h.count_eq, hcount, hnil]
    simp [and_assoc]
    omega
  · have hpos := List.length_pos_iff.mpr hnil
    have hfalse : s.bits.isEmpty = false := by simpa using hnil
    rw [hfalse]
    simp only [Bool.false_and, Bool.false_eq_true, false_iff, not_and]
    omega

/-- What a scan of bits can find. Each outcome tells that no end comes before it. -/
inductive ScanOutcome (th : Thresholds) (previous : Option Block) (base : Int)
    (bits : List (Bool × Nat)) : ScanResult → Prop where
  /-- The block ends where a gap begins, and the next mark was seen. -/
  | mark {j : Nat} {x y : Bool × Nat} (marks : MarksAt th previous (bits.map Prod.fst) j)
      (no_marks : ∀ j' < j, ¬ MarksAt th previous (bits.map Prod.fst) j')
      (no_checks : ∀ k, 8 * k ≤ j → ¬ ChecksAt th (bits.map Prod.fst) k)
      (stop : bits[j - zeroTail ((bits.map Prod.fst).take j)]? = some x)
      (resume : bits[j]? = some y) :
      ScanOutcome th previous base bits ⟨some (base + x.2),
        Bits.pack ((bits.map Prod.fst).take (8 * (j / 8))), some (base + y.2), false⟩
  /-- The block ends behind its check. -/
  | check {k : Nat} {x : Bool × Nat} (checks : ChecksAt th (bits.map Prod.fst) k)
      (no_marks : ∀ j < 8 * k, ¬ MarksAt th previous (bits.map Prod.fst) j)
      (no_checks : ∀ k' < k, ¬ ChecksAt th (bits.map Prod.fst) k')
      (stop : bits[8 * k - 1]? = some x) :
      ScanOutcome th previous base bits ⟨some (base + x.2 + 1),
        Bits.pack ((bits.map Prod.fst).take (8 * k)), none, true⟩
  /-- No end is found. -/
  | none (no_marks : ∀ j, ¬ MarksAt th previous (bits.map Prod.fst) j)
      (no_checks : ∀ k, ¬ ChecksAt th (bits.map Prod.fst) k) :
      ScanOutcome th previous base bits ⟨none,
        Bits.pack ((bits.map Prod.fst).take (8 * (bits.length / 8))), none, false⟩

/-- A scan ends before a mark that stands behind a gap. -/
lemma ScanOutcome.of_mark {b : Bool} {i : Nat} {rest : List (Bool × Nat)} (hgap : 1 ≤ th.minGap)
    (h : s.Reads previous base u) (hbefore : s.endsBefore th b = true)
    (hm : ∀ j < u.length, ¬ MarksAt th previous ((u ++ (b, i) :: rest).map Prod.fst) j)
    (hc : ∀ k, 8 * k ≤ u.length → ¬ ChecksAt th ((u ++ (b, i) :: rest).map Prod.fst) k) :
    ScanOutcome th previous base (u ++ (b, i) :: rest)
      (s.result (some s.zerosStart) (some (base + i)) false) := by
  have hmark : MarksAt th previous ((u ++ (b, i) :: rest).map Prod.fst) u.length := by
    rw [List.map_append, List.map_cons]
    exact (h.endsBefore_iff b (rest.map Prod.fst)).mp hbefore
  have htake : ((u ++ (b, i) :: rest).map Prod.fst).take u.length = u.map Prod.fst := by
    rw [List.map_append]
    exact List.take_left' (List.length_map _)
  have hzeros := hmark.2.1
  rw [htake, ← h.zeros_eq] at hzeros
  obtain ⟨x, hx, hstart⟩ := h.zerosStart_eq (by omega)
  have hlt := (List.getElem?_eq_some_iff.mp hx).1
  rw [Scan.result, hstart, ← h.pack_complete ((b, i) :: rest)]
  refine .mark (y := (b, i)) hmark hm hc ?_ (by simp)
  rw [htake, ← h.zeros_eq, List.getElem?_append_left hlt]
  exact hx

/-- A scan ends behind a check. -/
lemma ScanOutcome.of_check {x : Bool × Nat} {rest : List (Bool × Nat)}
    (h : s.Reads previous base (u ++ [x])) (hbehind : s.endsBehind th (rest.map Prod.fst) = true)
    (hm : ∀ j < u.length + 1, ¬ MarksAt th previous ((u ++ [x] ++ rest).map Prod.fst) j)
    (hc : ∀ k, 8 * k ≤ u.length → ¬ ChecksAt th ((u ++ [x] ++ rest).map Prod.fst) k) :
    ScanOutcome th previous base (u ++ [x] ++ rest)
      (s.result (some (base + x.2 + 1)) .none true) := by
  have hends := (h.endsBehind_iff th (rest.map Prod.fst)).mp hbehind
  rw [← List.map_append, List.length_append, List.length_singleton] at hends
  obtain ⟨hdvd, hchecks⟩ := hends
  have hpack := h.pack_complete rest
  rw [List.length_append, List.length_singleton] at hpack
  rw [Scan.result, ← hpack]
  refine .check hchecks ?_ ?_ ?_
  · intro j hj
    exact hm j (by omega)
  · intro k hk
    exact hc k (by omega)
  · rw [show 8 * ((u.length + 1) / 8) - 1 = u.length by omega]
    simp

/-- **What a scan finds**, from any place on: the end that comes first. -/
lemma scanBits_cases (hgap : 1 ≤ th.minGap) {rest : List (Bool × Nat)}
    (h : s.Reads previous base u)
    (hm : ∀ j < u.length, ¬ MarksAt th previous ((u ++ rest).map Prod.fst) j)
    (hc : ∀ k, 8 * k ≤ u.length → ¬ ChecksAt th ((u ++ rest).map Prod.fst) k) :
    ScanOutcome th previous base (u ++ rest) (scanBits th previous base s rest) := by
  induction rest generalizing u s with
  | nil =>
      have hpack := h.pack_complete []
      rw [List.append_nil] at hm hc hpack ⊢
      rw [scanBits, Scan.result, ← hpack]
      refine .none ?_ ?_
      · intro j hj
        refine hm j ?_ hj
        by_contra hge
        have hj1 := hj.1
        rw [List.getElem?_eq_none (by simp; omega)] at hj1
        simp at hj1
      · intro k hk
        refine hc k ?_ hk
        have hk2 := hk.2.1
        rwa [List.length_map] at hk2
  | cons x rest ih =>
      obtain ⟨b, i⟩ := x
      rw [scanBits]
      by_cases hbefore : s.endsBefore th b = true
      · rw [if_pos hbefore]
        exact .of_mark hgap h hbefore hm hc
      · rw [if_neg hbefore]
        have hread := h.read b i
        have hnomark : ¬ MarksAt th previous ((u ++ (b, i) :: rest).map Prod.fst) u.length := by
          rw [List.map_append, List.map_cons]
          exact mt (h.endsBefore_iff b (rest.map Prod.fst)).mpr hbefore
        have hm' : ∀ j < u.length + 1,
            ¬ MarksAt th previous ((u ++ (b, i) :: rest).map Prod.fst) j := by
          intro j hj
          rcases Nat.lt_succ_iff_lt_or_eq.mp hj with hlt | rfl
          · exact hm j hlt
          · exact hnomark
        -- the bit is one of those that were read now
        rw [← List.singleton_append, ← List.append_assoc] at hm' hc ⊢
        by_cases hbehind : (s.read previous (base + i) b).endsBehind th (rest.map Prod.fst) = true
        · simp only [if_pos hbehind]
          exact .of_check hread hbehind hm' hc
        · simp only [if_neg hbehind]
          refine ih hread ?_ ?_
          · intro j hj
            rw [List.length_append, List.length_singleton] at hj
            exact hm' j hj
          · intro k hk hchecks
            rw [List.length_append, List.length_singleton] at hk
            by_cases hk' : 8 * k ≤ u.length
            · exact hc k hk' hchecks
            · -- the byte was just completed
              have hlen : (u ++ [(b, i)]).length = 8 * k := by
                rw [List.length_append, List.length_singleton]
                omega
              rw [List.map_append] at hchecks
              refine hbehind ((hread.endsBehind_iff th _).mpr ⟨⟨k, hlen⟩, ?_⟩)
              rw [hlen, Nat.mul_div_cancel_left k (by omega)]
              exact hchecks

/-- **What the scan of a block finds** depends only on the bits behind its mark. -/
theorem scanFrom_cases (hgap : 1 ≤ th.minGap) (hshort : 1 ≤ th.shortGap) (previous : Option Block)
    (base : Int) (i : Nat) (ps : List Pulse) :
    ScanOutcome th previous base (demodulateAt true i ps)
      (scanFrom th previous (base + i) true { zerosStart := base + i } ps) := by
  rw [scanFrom_eq_scanBits hshort]
  have hstart := Scan.Reads.start previous base (base + i)
  refine scanBits_cases (u := []) hgap hstart ?_ ?_
  · intro j hj
    exact absurd hj (Nat.not_lt_zero j)
  · intro k hk hchecks
    have h3 := hchecks.1
    rw [List.length_nil] at hk
    omega

/-- The scan with the usual thresholds of the block whose pulses begin at `start`. -/
lemma scanFrom_usual (previous : Option Block) (start : Nat) (ps : List Pulse) :
    ScanOutcome {} previous 0 (demodulateAt true start ps)
      (scanFrom {} previous start true { zerosStart := start } ps) := by
  have hgap : 1 ≤ ({} : Thresholds).minGap := by decide
  have hshort : 1 ≤ ({} : Thresholds).shortGap := by decide
  have houtcome := scanFrom_cases hgap hshort previous 0 start ps
  rwa [Int.zero_add] at houtcome

end Recovery

end FamicomDisk
