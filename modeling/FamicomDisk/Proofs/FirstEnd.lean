import FamicomDisk.Proofs.Scanning

/-!
The end of a block, looked up in all of its bits.

The scan of a block goes through its bits once. It keeps a register, a count of zeros and the place
where they began, and looks ahead where a byte checks. Here the same end is looked up without a
scan: each candidate is judged by the whole string of bits, the first check and the first mark are
chosen, and the one that comes first decides. When both come with the same bit, the mark decides.

* `firstCheck?_eq_some_iff`, `firstMark?_eq_some_iff`: the candidates that are chosen are the least.
* `wholeScan`: the end that all bits together tell.
* `ScanOutcome.eq_wholeScan`: an outcome of the scan is that end.
* `scanBlock_eq_wholeScan`: **a scan finds what the bits tell**, for every capture, every place in
  it and all thresholds that ask for a gap.
-/

namespace FamicomDisk

namespace Recovery

open Mfm

variable {th : Thresholds} {previous : Option Block}

/-! ### The first candidates -/

instance (th : Thresholds) (bits : List Bool) (k : Nat) : Decidable (ChecksAt th bits k) :=
  inferInstanceAs (Decidable (_ ∧ _ ∧ _ ∧ _))

instance (th : Thresholds) (previous : Option Block) (bits : List Bool) (j : Nat) :
    Decidable (MarksAt th previous bits j) :=
  inferInstanceAs (Decidable (_ ∧ _ ∧ _ ∧ _))

/-- The least number of bytes behind which a block may end. -/
def firstCheck? (th : Thresholds) (bits : List Bool) : Option Nat :=
  (List.range (bits.length / 8 + 1)).find? (ChecksAt th bits ·)

/-- The first bit before which a block ends at the latest. -/
def firstMark? (th : Thresholds) (previous : Option Block) (bits : List Bool) : Option Nat :=
  (List.range bits.length).find? (MarksAt th previous bits ·)

lemma ChecksAt.lt {bits : List Bool} {k : Nat} (h : ChecksAt th bits k) :
    k < bits.length / 8 + 1 := by
  have hk := h.2.1
  omega

lemma MarksAt.lt {bits : List Bool} {j : Nat} (h : MarksAt th previous bits j) :
    j < bits.length :=
  (List.getElem?_eq_some_iff.mp h.1).1

/-- The check that is chosen is the least. -/
lemma firstCheck?_eq_some_iff {bits : List Bool} {k : Nat} :
    firstCheck? th bits = some k ↔ ChecksAt th bits k ∧ ∀ k' < k, ¬ ChecksAt th bits k' := by
  rw [firstCheck?, List.find?_range_eq_some]
  simp only [decide_eq_true_eq, List.mem_range, Bool.not_eq_true', decide_eq_false_iff_not]
  exact ⟨fun h => ⟨h.1, h.2.2⟩, fun h => ⟨h.1, h.1.lt, h.2⟩⟩

lemma firstCheck?_eq_none_iff {bits : List Bool} :
    firstCheck? th bits = none ↔ ∀ k, ¬ ChecksAt th bits k := by
  rw [firstCheck?, List.find?_range_eq_none]
  simp only [Bool.not_eq_true', decide_eq_false_iff_not]
  exact ⟨fun h k hk => h k hk.lt hk, fun h k _ => h k⟩

/-- The mark that is chosen is the first. -/
lemma firstMark?_eq_some_iff {bits : List Bool} {j : Nat} :
    firstMark? th previous bits = some j
      ↔ MarksAt th previous bits j ∧ ∀ j' < j, ¬ MarksAt th previous bits j' := by
  rw [firstMark?, List.find?_range_eq_some]
  simp only [decide_eq_true_eq, List.mem_range, Bool.not_eq_true', decide_eq_false_iff_not]
  exact ⟨fun h => ⟨h.1, h.2.2⟩, fun h => ⟨h.1, h.1.lt, h.2⟩⟩

lemma firstMark?_eq_none_iff {bits : List Bool} :
    firstMark? th previous bits = none ↔ ∀ j, ¬ MarksAt th previous bits j := by
  rw [firstMark?, List.find?_range_eq_none]
  simp only [Bool.not_eq_true', decide_eq_false_iff_not]
  exact ⟨fun h j hj => h j hj.lt hj, fun h j _ => h j⟩

/-! ### The end that all bits tell -/

/-- The offset of the pulse that bit `i` was read from. -/
def pulseOf (bits : List (Bool × Nat)) (i : Nat) : Int := (bits.map Prod.snd).getD i 0

lemma pulseOf_eq {bits : List (Bool × Nat)} {i : Nat} {x : Bool × Nat} (h : bits[i]? = some x) :
    pulseOf bits i = x.2 := by
  rw [pulseOf, List.getD_eq_getElem?_getD, List.getElem?_map, h]
  rfl

deriving instance DecidableEq for ScanResult

/-- The first `n` complete bytes of a string of bits. -/
def firstBytes (n : Nat) (bits : List (Bool × Nat)) : List UInt8 :=
  Bits.pack ((bits.map Prod.fst).take (8 * n))

/-- The end of a block that is told by a mark at bit `j`: the first of the zeros before it. -/
def ScanResult.ofMark (bits : List (Bool × Nat)) (j : Nat) : ScanResult :=
  { stop := some (pulseOf bits (j - zeroTail ((bits.map Prod.fst).take j)))
    data := firstBytes (j / 8) bits
    resume := some (pulseOf bits j)
    checked := false }

/-- The end of a block that is told by its check behind `k` bytes: one behind the last bit. -/
def ScanResult.ofCheck (bits : List (Bool × Nat)) (k : Nat) : ScanResult :=
  { stop := some (pulseOf bits (8 * k - 1) + 1)
    data := firstBytes k bits
    resume := none
    checked := true }

/-- All complete bytes, when no end is found. -/
def ScanResult.ofNone (bits : List (Bool × Nat)) : ScanResult :=
  { stop := none
    data := firstBytes (bits.length / 8) bits
    resume := none
    checked := false }

/-- The end of a block, told by all bits behind its mark, each with the offset of its pulse. The
first mark decides unless the first check comes before it. -/
def wholeScan (th : Thresholds) (previous : Option Block) (bits : List (Bool × Nat)) :
    ScanResult :=
  match firstMark? th previous (bits.map Prod.fst), firstCheck? th (bits.map Prod.fst) with
  | some j, some k => if j ≤ 8 * k - 1 then .ofMark bits j else .ofCheck bits k
  | some j, none => .ofMark bits j
  | none, some k => .ofCheck bits k
  | none, none => .ofNone bits

/-- An outcome of the scan is the end that all bits tell. -/
lemma ScanOutcome.eq_wholeScan {bits : List (Bool × Nat)} {r : ScanResult}
    (h : ScanOutcome th previous 0 bits r) : r = wholeScan th previous bits := by
  cases h with
  | @mark j x y marks no_marks no_checks stop resume =>
      have hfirst := firstMark?_eq_some_iff.mpr ⟨marks, no_marks⟩
      have hr : (⟨some (0 + (x.2 : Int)), Bits.pack ((bits.map Prod.fst).take (8 * (j / 8))),
          some (0 + (y.2 : Int)), false⟩ : ScanResult) = .ofMark bits j := by
        rw [ScanResult.ofMark, pulseOf_eq stop, pulseOf_eq resume, Int.zero_add, Int.zero_add]
        rfl
      rw [hr, wholeScan, hfirst]
      cases hcheck : firstCheck? th (bits.map Prod.fst) with
      | none => rfl
      | some k =>
          -- a check before the mark would have ended the scan
          have hk : ¬ 8 * k ≤ j := fun hle => no_checks k hle (firstCheck?_eq_some_iff.mp hcheck).1
          simp only
          rw [if_pos (by omega)]
  | @check k x checks no_marks no_checks stop =>
      have hfirst := firstCheck?_eq_some_iff.mpr ⟨checks, no_checks⟩
      have hr : (⟨some (0 + (x.2 : Int) + 1), Bits.pack ((bits.map Prod.fst).take (8 * k)), .none,
          true⟩ : ScanResult) = .ofCheck bits k := by
        rw [ScanResult.ofCheck, pulseOf_eq stop, Int.zero_add]
        rfl
      rw [hr, wholeScan, hfirst]
      cases hmark : firstMark? th previous (bits.map Prod.fst) with
      | none => rfl
      | some j =>
          have hj : ¬ j < 8 * k := fun hlt => no_marks j hlt (firstMark?_eq_some_iff.mp hmark).1
          have hk := checks.1
          simp only
          rw [if_neg (by omega)]
  | none no_marks no_checks =>
      rw [wholeScan, firstMark?_eq_none_iff.mpr no_marks, firstCheck?_eq_none_iff.mpr no_checks]
      rfl

/-- **A scan finds what the bits tell.** The block whose gap-end mark is at `pos` is scanned in one
pass, and what the scan returns is the end that all bits behind the mark tell, whatever the capture
is. -/
theorem scanBlock_eq_wholeScan (pulses : List Pulse) {pos : Int} (hpos : -1 ≤ pos)
    {th : Thresholds} (hshort : 1 ≤ th.shortGap) (hgap : 1 ≤ th.minGap)
    (previous : Option Block) :
    scanBlock pulses pos th previous
      = .ok (wholeScan th previous
          (demodulateAt true (pos + 1).toNat (pulses.drop (pos + 1).toNat))) := by
  obtain ⟨start, hstart⟩ : ∃ start : Nat, pos + 1 = start := ⟨(pos + 1).toNat, by omega⟩
  have houtcome := scanFrom_cases hgap hshort previous 0 start (pulses.drop start)
  rw [Int.zero_add] at houtcome
  rw [scanBlock, readFrom, hstart, if_pos (Int.natCast_nonneg start), Int.toNat_natCast,
    ← houtcome.eq_wholeScan]
  rfl

/-- A block of an unknown type whose check is complete with the bit that also ends a run of four
zeros: that bit is taken for the next mark. -/
theorem scanBlock_eq_wholeScan_tie :
    scanBlock (modulate (Bits.ofBytes [gapEndMark, 0x88, 0x8c, 0x84, 0])) 7
        { minGap := 4, shortGap := 1 } none
      = .ok ⟨some 22, [0x88, 0x8c], some 25, false⟩ := by
  rw [scanBlock_eq_wholeScan _ (by decide) (by decide) (by decide)]
  exact congrArg Except.ok (by decide +kernel)

end Recovery

end FamicomDisk
