import FamicomDisk.Proofs.Verifying

/-!
What is reported of any block.

A payload of any bytes is verified: with the type that is expected of it or with another, of a size
that is known or of one that is not, too short, too long, or just right. `Found` says that one fault
of a kind is reported when its condition holds, and none when it does not.

* `checkFault?_found`: the fault of a check is that of two bytes and more that do not check, and the
  check that was stored is then not the one that was computed.
* `checkFault?_delimit_none`: where no size is known it makes no difference at which length the
  block is taken to end. The check is right there exactly when it is right for the whole payload.
* `verifyBlock_found`: **the faults of any block**, each with its condition, in their order.
-/

namespace FamicomDisk

namespace Recovery

/-! ### Bytes and the zeros behind them -/

/-- Bytes are what is left without the zeros at their end, and these zeros. -/
lemma exists_trimZeros_append (bytes : List UInt8) :
    ∃ n, bytes = trimZeros bytes ++ List.replicate n 0 := by
  have hzeros : bytes.reverse.takeWhile (· = 0)
      = List.replicate (bytes.reverse.takeWhile (· = 0)).length 0 := by
    refine List.eq_replicate_iff.mpr ⟨rfl, ?_⟩
    intro b hb
    simpa using List.mem_takeWhile_imp hb
  refine ⟨(bytes.reverse.takeWhile (· = 0)).length, ?_⟩
  rw [← List.reverse_replicate, ← hzeros, trimZeros, ← List.reverse_append,
    List.takeWhile_append_dropWhile, List.reverse_reverse]

/-- Nothing but zeros stands behind the bytes without the zeros at their end. -/
lemma drop_eq_zeros {bytes : List UInt8} {n : Nat} (hn : (trimZeros bytes).length ≤ n) :
    bytes.drop n = List.replicate (bytes.length - n) 0 := by
  obtain ⟨k, hk⟩ := exists_trimZeros_append bytes
  rw [List.eq_replicate_iff]
  refine ⟨List.length_drop, ?_⟩
  intro b hb
  rw [hk, List.drop_append, List.drop_eq_nil_of_le hn, List.nil_append, List.drop_replicate] at hb
  exact List.eq_of_mem_replicate hb

/-- Something is left without the zeros at the end when there is a byte that is not zero. -/
lemma length_trimZeros_eq_zero_iff (bytes : List UInt8) :
    (trimZeros bytes).length = 0 ↔ ¬ ∃ b ∈ bytes, b ≠ 0 := by
  rw [List.length_eq_zero_iff, trimZeros_eq_nil, List.eq_replicate_iff]
  simp

/-! ### One fault of a kind -/

/-- What is found of one kind of fault: one when its condition holds, and none when it does not. -/
inductive Found (condition : Prop) (kind : BlockFault → Prop) : List BlockFault → Prop where
  | fault {f : BlockFault} (holds : condition) (is_kind : kind f) : Found condition kind [f]
  | nothing (fails : ¬ condition) : Found condition kind []

variable {condition : Prop} {kind : BlockFault → Prop} {found : List BlockFault}

lemma Found.of_iff {condition' : Prop} (h : Found condition kind found)
    (hiff : condition ↔ condition') : Found condition' kind found := by
  rwa [← hiff]

lemma Found.length_eq (h : Found condition kind found) (hc : condition) : found.length = 1 := by
  cases h with
  | fault _ _ => rfl
  | nothing fails => exact absurd hc fails

lemma Found.eq_nil (h : Found condition kind found) (hc : ¬ condition) : found = [] := by
  cases h with
  | fault holds _ => exact absurd holds hc
  | nothing _ => rfl

/-- A fault that is reported unless all is well. -/
lemma found_ite [Decidable condition] {f : BlockFault} (hf : ¬ condition → kind f) :
    Found (¬ condition) kind (if condition then [] else [f]) := by
  by_cases h : condition
  · rw [if_pos h]
    exact .nothing (not_not_intro h)
  · rw [if_neg h]
    exact .fault h (hf h)

/-! ### The fault of the check -/

/-- A fault of the check: the stored check is not that of the bytes before it. -/
def IsBadCheck (offset : Int) (checked : List UInt8) (f : BlockFault) : Prop :=
  ∃ front low high, checked = front ++ [low, high]
    ∧ f = .badCheck offset (Bits.word low high) (Crc.of front).toNat
    ∧ Bits.word low high ≠ (Crc.of front).toNat

/-- **The fault of a check** is that of two bytes and more that do not check. -/
lemma checkFault?_found (offset : Int) (block : List UInt8) :
    Found (2 ≤ block.length ∧ Crc.of block ≠ 0) (IsBadCheck offset block)
      (checkFault? offset block).toList := by
  rw [checkFault?]
  by_cases hcheck : Crc.of block = 0
  · rw [if_pos hcheck]
    exact .nothing fun h => h.2 hcheck
  rw [if_neg hcheck]
  by_cases hlen : 2 ≤ block.length
  · have htwo : (block.drop (block.length - 2)).length = 2 := by
      rw [List.length_drop]
      omega
    obtain ⟨low, high, hstored⟩ := List.length_eq_two.mp htwo
    have hblock : block = block.take (block.length - 2) ++ [low, high] := by
      rw [← hstored, List.take_append_drop]
    simp only [hstored, Option.toList_some]
    refine .fault ⟨hlen, hcheck⟩ ⟨_, low, high, hblock, rfl, ?_⟩
    intro heq
    rw [hblock, Crc.of_append_stored] at hcheck
    exact hcheck heq
  · have hnothing : checkFault? offset block = none := by
      rw [checkFault?, if_neg hcheck]
      cases block with
      | nil => rfl
      | cons b bytes =>
          obtain rfl : bytes = [] := by
            rw [← List.length_eq_zero_iff]
            rw [List.length_cons] at hlen
            omega
          rfl
    rw [checkFault?, if_neg hcheck] at hnothing
    rw [hnothing]
    exact .nothing fun h => hlen h.1

/-! ### The part of a payload that is checked -/

/-- Where no size is known a shorter block is taken only for its right check, and then the check of
the whole payload is right, too: what stands behind the block is zeros. -/
lemma checkFault?_delimit_none (offset : Int) (payload : List UInt8) :
    checkFault? offset (delimit offset payload none).1 = checkFault? offset payload := by
  simp only [delimit]
  cases hend : endsOnCheck? payload with
  | none => rw [Option.getD_none, List.take_length]
  | some n =>
      rw [Option.getD_some]
      have hcheck : Crc.of (payload.take n) = 0 := by
        simpa using List.find?_some hend
      have hle : (trimZeros payload).length ≤ n := by
        have hmem := List.mem_range'_1.mp (List.mem_of_find?_eq_some hend)
        omega
      have hwhole : Crc.of payload = 0 := by
        rw [← List.take_append_drop n payload, drop_eq_zeros hle, Crc.of_append_zeros]
        exact hcheck
      rw [checkFault?, if_pos hcheck, checkFault?, if_pos hwhole]

/-- The part of a payload that the check is told of: block and check when the size is known and the
payload has as many bytes, and all of it otherwise. -/
def checkedPart (payload : List UInt8) (size : Option Nat) : List UInt8 :=
  match size with
  | some n => if n + 2 ≤ payload.length then payload.take (n + 2) else payload
  | none => payload

lemma checkFault?_delimit (offset : Int) (payload : List UInt8) (size : Option Nat) :
    checkFault? offset (delimit offset payload size).1
      = checkFault? offset (checkedPart payload size) := by
  cases size with
  | none => exact checkFault?_delimit_none offset payload
  | some n =>
      simp only [delimit, checkedPart]
      by_cases hlen : n + 2 ≤ payload.length
      · rw [if_neg (by omega), if_pos hlen]
      · rw [if_pos (by omega), if_neg hlen]

/-! ### The fault of the size -/

/-- **The fault of a size** that is known: there are too few bytes, or there is one behind block and
check that is not zero. -/
lemma delimit_found (offset : Int) (payload : List UInt8) (size : Option Nat) :
    ∃ short beyond, (delimit offset payload size).2.toList = short ++ beyond
      ∧ Found (∃ n ∈ size, payload.length < n + 2)
        (fun f => ∃ n ∈ size, f = .badSpacing offset (.tooShort payload.length (n + 2))) short
      ∧ Found (∃ n ∈ size, n + 2 ≤ payload.length ∧ ∃ b ∈ payload.drop (n + 2), b ≠ 0)
        (fun f => ∃ n ∈ size,
          f = .badSpacing offset (.trailing (trimZeros (payload.drop (n + 2))).length)) beyond := by
  cases size with
  | none => exact ⟨[], [], rfl, .nothing (by simp), .nothing (by simp)⟩
  | some n =>
      simp only [delimit]
      by_cases hlen : payload.length < n + 2
      · refine ⟨[.badSpacing offset (.tooShort payload.length (n + 2))], [], ?_, ?_, ?_⟩
        · rw [if_pos hlen]
          rfl
        · exact .fault ⟨n, rfl, hlen⟩ ⟨n, rfl, rfl⟩
        · refine .nothing ?_
          rintro ⟨m, hm, hle, -⟩
          cases hm
          omega
      · refine ⟨[], if (trimZeros (payload.drop (n + 2))).length = 0 then [] else
          [.badSpacing offset (.trailing (trimZeros (payload.drop (n + 2))).length)], ?_, ?_, ?_⟩
        · rw [if_neg hlen]
          exact apply_ite Option.toList _ _ _
        · refine .nothing ?_
          rintro ⟨m, hm, hlt⟩
          cases hm
          omega
        · refine (found_ite fun _ => ⟨n, rfl, rfl⟩).of_iff ?_
          rw [length_trimZeros_eq_zero_iff, not_not]
          constructor
          · exact fun h => ⟨n, rfl, by omega, h⟩
          · rintro ⟨m, hm, -, h⟩
            cases hm
            exact h

/-! ### All faults of a block -/

/-- A gap that is too short is reported when there is one. -/
lemma shortGap?_found (th : Thresholds) (offset : Int) (gap : Option Int) :
    Found (∃ n ∈ gap, n < th.minGap) (fun f => ∃ n ∈ gap, f = .badSpacing offset (.shortGap n))
      (shortGap? th offset gap).toList := by
  cases gap with
  | none => exact .nothing (by simp)
  | some n =>
      rw [shortGap?]
      by_cases hshort : n < th.minGap
      · rw [if_pos hshort]
        exact .fault ⟨n, rfl, hshort⟩ ⟨n, rfl, rfl⟩
      · rw [if_neg hshort]
        refine .nothing ?_
        rintro ⟨m, hm, hlt⟩
        cases hm
        exact hshort hlt

/-- **What is reported of any block**, behind any block, with any gap, thresholds and offset. An
empty one is reported as such, alone. Otherwise there are, in this order and each exactly under its
condition: a type other than the expected one; too few bytes for a size that is known; a byte other
than zero behind the block of such a size and its check; a check that is not right, over block and
check where the size is known and there are as many bytes, and over the whole payload where not;
and a gap before the next block that is too short. -/
theorem verifyBlock_found (data : List UInt8) (previous : Option Block) (gap : Option Int)
    (th : Thresholds) (offset : Int) :
    (data.drop 1 = [] → verifyBlock data previous gap th offset = [.badSpacing offset .empty])
    ∧ ∀ code rest, data.drop 1 = code :: rest →
      let payload := code :: rest
      let size := Block.sizeOf code.toNat previous
      let checked := checkedPart payload size
      ∃ wrong short beyond check near,
        verifyBlock data previous gap th offset = wrong ++ short ++ beyond ++ check ++ near
        ∧ Found ((code.toNat : Int) ≠ expectedCode previous)
          (· = .wrongType offset code.toNat (expectedCode previous) none none) wrong
        ∧ Found (∃ n ∈ size, payload.length < n + 2)
          (fun f => ∃ n ∈ size, f = .badSpacing offset (.tooShort payload.length (n + 2))) short
        ∧ Found (∃ n ∈ size, n + 2 ≤ payload.length ∧ ∃ b ∈ payload.drop (n + 2), b ≠ 0)
          (fun f => ∃ n ∈ size,
            f = .badSpacing offset (.trailing (trimZeros (payload.drop (n + 2))).length)) beyond
        ∧ Found (2 ≤ checked.length ∧ Crc.of checked ≠ 0) (IsBadCheck offset checked) check
        ∧ Found (∃ n ∈ gap, n < th.minGap)
          (fun f => ∃ n ∈ gap, f = .badSpacing offset (.shortGap n)) near := by
  constructor
  · intro h
    simp only [verifyBlock, h]
  intro code rest h payload size checked
  obtain ⟨short, beyond, hspacing, hshort, hbeyond⟩ := delimit_found offset payload size
  refine ⟨_, short, beyond, (checkFault? offset checked).toList, (shortGap? th offset gap).toList,
    ?_, found_ite fun _ => rfl, hshort, hbeyond, checkFault?_found offset checked,
    shortGap?_found th offset gap⟩
  rw [List.append_assoc _ short beyond, ← hspacing, ← checkFault?_delimit]
  simp only [verifyBlock, h]
  congr 1
  cases gap with
  | none => rfl
  | some n =>
      simp only [shortGap?]
      split <;> rfl

/-- File data where a disk header is expected, of a size that is not known, with a wrong check and
before a gap of five zeros: three of the five faults. -/
theorem verifyBlock_found_headless : ∃ wrong short beyond check near : List BlockFault,
    verifyBlock [0x80, 4, 0x11, 0x22, 0] none (some 5) {} 7
      = wrong ++ short ++ beyond ++ check ++ near
    ∧ wrong.length = 1 ∧ short = [] ∧ beyond = [] ∧ check.length = 1 ∧ near.length = 1 := by
  obtain ⟨wrong, short, beyond, check, near, heq, hwrong, hshort, hbeyond, hcheck, hnear⟩ :=
    (verifyBlock_found [0x80, 4, 0x11, 0x22, 0] none (some 5) {} 7).2 4 [0x11, 0x22, 0] rfl
  have hsize : Block.sizeOf (4 : UInt8).toNat none = none := by decide
  rw [hsize] at hshort hbeyond hcheck
  exact ⟨wrong, short, beyond, check, near, heq, hwrong.length_eq (by decide),
    hshort.eq_nil (by simp), hbeyond.eq_nil (by simp), hcheck.length_eq (by decide +kernel),
    hnear.length_eq ⟨5, rfl, by decide⟩⟩

end Recovery

end FamicomDisk
