import FamicomDisk.Proofs.AnyCapture
import FamicomDisk.Proofs.AnyLayout
import FamicomDisk.Proofs.Filling
import FamicomDisk.Proofs.Verdicts

/-!
The two bytes behind a block.

Just one pair of bytes behind a block makes it check: the bytes of its check. Three readers rely on
that. Each of them feeds the block together with the two bytes to the register and asks whether it
is clear; what they report is what a comparison of the two bytes with the check of the block would
report, and a block with other bytes is reported by all of them.

* `Recorded.checkFault?`, `TellsChecks`: what the comparison reports, and that a reader reports it.
* `Layout.exists_tellsChecks_walk`: the walker over a layout.
* `Capture.exists_tellsChecks_decodeBlock`: the reader of one block of a capture.
* `Recovery.exists_tellsChecks_verifyBlock`: the verifier of recovered blocks.
* `stored_check_unique`: **exactly one check is accepted**, by the register and by the readers.
-/

namespace FamicomDisk

open Recovery (checkedPart)

/-! ### What a comparison reports -/

/-- The fault of a recorded block whose two bytes are not those of its check. -/
def Recorded.checkFault? (r : Recorded) (offset : Int) : Option BlockFault :=
  if [r.low, r.high] = Crc.bytes r.block.data then none
  else some (.badCheck offset (Bits.word r.low r.high) (Crc.of r.block.data).toNat)

/-- What faults tell of checks is what a comparison reports of the given blocks, each at an offset.
So they never tell that a check is other than itself. -/
structure TellsChecks (recorded : List (Int × Recorded)) (faults : List BlockFault) : Prop where
  checks_eq : faults.filter BlockFault.isBadCheck
    = recorded.filterMap fun p => p.2.checkFault? p.1
  differ : ∀ offset n, .badCheck offset n n ∉ faults

section

variable {r : Recorded} {recorded : List (Int × Recorded)} {faults : List BlockFault}

/-- The comparison of bytes is the comparison of the numbers that they spell. -/
lemma Recorded.checkFault?_eq (r : Recorded) (offset : Int) :
    r.checkFault? offset = if r.IsIntact then none
      else some (.badCheck offset (Bits.word r.low r.high) (Crc.of r.block.data).toNat) :=
  if_congr r.isIntact_iff.symm rfl rfl

lemma Recorded.fault?_eq (r : Recorded) (offset : Nat) :
    r.fault? offset = r.checkFault? offset := by
  rw [fault?, checkFault?_eq]

lemma Recorded.isBadCheck_of_checkFault? {offset : Int} {fault : BlockFault}
    (h : r.checkFault? offset = some fault) : fault.isBadCheck = true := by
  rw [checkFault?] at h
  split at h
  · cases h
  · cases h
    rfl

/-- The check that was stored is not the one that was computed. -/
lemma Recorded.checkFault?_ne (r : Recorded) (offset offset' : Int) (n : Nat) :
    r.checkFault? offset ≠ some (.badCheck offset' n n) := by
  rw [checkFault?_eq]
  split
  · exact nofun
  · next hbad =>
    intro h
    obtain ⟨-, hstored, hcomputed⟩ := BlockFault.badCheck.inj (Option.some.inj h)
    exact hbad (hstored.trans hcomputed.symm)

lemma TellsChecks.of_eq (h : faults.filter BlockFault.isBadCheck
    = recorded.filterMap fun p => p.2.checkFault? p.1) : TellsChecks recorded faults where
  checks_eq := h
  differ := by
    intro offset n hmem
    have hcheck : .badCheck offset n n ∈ faults.filter BlockFault.isBadCheck :=
      List.mem_filter.mpr ⟨hmem, rfl⟩
    rw [h] at hcheck
    obtain ⟨p, -, hp⟩ := List.mem_filterMap.mp hcheck
    exact p.2.checkFault?_ne p.1 offset n hp

end

/-! ### The three readers -/

section

variable {faults : List BlockFault}

/-- Faults of other kinds tell nothing of checks. -/
lemma filter_isBadCheck_eq_nil (h : ∀ fault ∈ faults, fault.isBadCheck = false) :
    faults.filter BlockFault.isBadCheck = [] :=
  List.filter_eq_nil_iff.mpr fun fault hfault => by
    rw [h fault hfault]
    exact Bool.false_ne_true

/-- A fault of a check tells of a check. -/
lemma filter_isBadCheck_toList {fault? : Option BlockFault}
    (h : ∀ fault, fault? = some fault → fault.isBadCheck = true) :
    fault?.toList.filter BlockFault.isBadCheck = fault?.toList :=
  List.filter_eq_self.mpr fun fault hfault => h fault (Option.mem_toList.mp hfault)

/-- What a comparison reports of one block tells of its check. -/
lemma tellsChecks_singleton (r : Recorded) (offset : Int) :
    TellsChecks [(offset, r)] (r.checkFault? offset).toList := by
  refine .of_eq ?_
  rw [filter_isBadCheck_toList fun _ => Recorded.isBadCheck_of_checkFault?]
  cases h : r.checkFault? offset <;> simp [h]

end

namespace Layout

lemma EndsAt.isBadCheck_eq {offset : Nat} {fault : BlockFault} (h : EndsAt offset fault) :
    fault.isBadCheck = false := by
  cases h <;> rfl

/-- **The walker** over any byte string takes blocks that stand in it behind their marks, and tells
of their checks. -/
lemma exists_tellsChecks_walk (dat : List UInt8) (leadIn : Option Int) :
    ∃ (side : Side) (found : List (Nat × Recorded)), walk dat leadIn = .ok side
      ∧ side.blocks = found.map (fun p => p.2.block)
      ∧ (∀ p ∈ found, gapEndMark :: p.2.bytes <+: dat.drop p.1)
      ∧ TellsChecks (found.map fun p => ((p.1 : Int), p.2)) side.diagnostics := by
  obtain ⟨found, stop, ⟨⟨bytes, behind, rfl, hplaced, hstop⟩, -⟩, hwalk⟩ :=
    exists_passes_walkFrom {} 0 dat .first
  refine ⟨_, found, by rw [walk, hwalk]; rfl, ?_, ?_, .of_eq ?_⟩
  · cases stop <;> simp [placedFindings, Findings.toSide, Findings.addFault?, Findings.addFault]
  · intro p hp
    rw [List.drop_append]
    exact (hplaced.prefix_drop p hp).trans (List.prefix_append _ _)
  · have hfaults : ((placedFindings {} found).addFault? stop).toSide.diagnostics
        = (found.filterMap fun p => p.2.checkFault? p.1) ++ stop.toList := by
      cases stop <;> simp [placedFindings, Findings.toSide, Findings.addFault?, Findings.addFault,
        Recorded.fault?_eq]
    have hchecks : (found.filterMap fun p => p.2.checkFault? p.1).filter BlockFault.isBadCheck
        = found.filterMap fun p => p.2.checkFault? p.1 := by
      refine List.filter_eq_self.mpr fun fault hfault => ?_
      obtain ⟨p, -, hp⟩ := List.mem_filterMap.mp hfault
      exact Recorded.isBadCheck_of_checkFault? hp
    have hend : stop.toList.filter BlockFault.isBadCheck = [] :=
      filter_isBadCheck_eq_nil fun fault hfault =>
        (hstop fault (Option.mem_toList.mp hfault)).isBadCheck_eq
    change ((placedFindings {} found).addFault? stop).toSide.diagnostics.filter _ = _
    rw [hfaults, List.filter_append, hchecks, hend, List.append_nil, List.filterMap_map]
    rfl

end Layout

namespace Capture

/-- A block of a size below zero is never read. -/
lemma nonneg_of_readNext {h after : Head} {output : Nat} {size code : Int} {data : List UInt8}
    {fault : Option BlockFault} (hread : readNext h output size code = .read data fault after) :
    0 ≤ size := by
  by_contra hneg
  unfold readNext at hread
  split at hread
  · cases hread
  · dsimp only at hread
    split at hread
    · cases hread
    · split at hread
      · cases hread
      · rw [if_pos (by omega : size < 0)] at hread
        split at hread <;> cases hread

lemma exists_decodeBlock_of_neg (pulses : List Pulse) (cursor : Cursor) {size : Int}
    (hneg : size < 0) (code : Int) (b : Buffer) :
    ∃ fault, decodeBlock pulses cursor size code b = (.error fault, b) := by
  unfold decodeBlock
  dsimp only
  split
  · exact ⟨_, rfl⟩
  · split
    · exact ⟨_, rfl⟩
    · exact ⟨_, rfl⟩
    · exact ⟨_, rfl⟩
    · next hread => exact absurd (nonneg_of_readNext hread) (by omega)

/-- **The reader of one block** of a capture fails and leaves the buffer alone, or writes the block
into the buffer and tells of its check. -/
lemma exists_tellsChecks_decodeBlock (pulses : List Pulse) (cursor : Cursor) (size code : Int)
    (b : Buffer) :
    (∃ fault, decodeBlock pulses cursor size code b = (.error fault, b))
      ∨ ∃ (after : Cursor) (b' : Buffer) (pos : Nat) (r : Recorded) (added : List BlockFault),
        decodeBlock pulses cursor size code b = (.ok after, b')
          ∧ r.block.data.length = size ∧ IsWhole pulses cursor.input r.block.data.length pos
          ∧ r.bytes = bytesBehind pulses pos r.block.data.length
          ∧ (b'.bytes.drop cursor.output).take r.block.data.length = r.block.data
          ∧ b'.diagnostics = b.diagnostics ++ added
          ∧ TellsChecks [((cursor.output : Int), r)] added := by
  rcases Int.lt_or_le size 0 with hneg | hpos
  · exact .inl (exists_decodeBlock_of_neg pulses cursor hneg code b)
  obtain ⟨n, rfl⟩ := Int.eq_ofNat_of_zero_le hpos
  generalize hout : decodeBlock pulses cursor n code b = out
  have hcases := decodeBlock_cases pulses cursor n code b
  rw [hout] at hcases
  cases hcases with
  | noRoom | noGap | cutOff | otherType => exact .inl ⟨_, rfl⟩
  | @read pos inp room whole forward _ =>
      obtain ⟨r, hbytes, rfl⟩ := Recorded.exists_bytes_eq whole.length_bytesBehind
      have hdata : (bytesBehind pulses pos r.block.data.length).take r.block.data.length
          = r.block.data := by rw [← hbytes, Recorded.bytes, List.take_left]
      have hstored : (bytesBehind pulses pos r.block.data.length).drop r.block.data.length
          = [r.low, r.high] := by rw [← hbytes, Recorded.bytes, List.drop_left]
      have hfilled := (whole.isFilled room forward).data_eq
      rw [hdata, hstored, r.checkFault?_stored, r.fault?_eq] at hfilled ⊢
      exact .inr ⟨_, _, pos, r, _, rfl, rfl, whole, hbytes, hfilled, rfl,
        tellsChecks_singleton r _⟩

end Capture

namespace Recovery

/-- What is found of another kind of fault tells nothing of checks. -/
lemma Found.filter_isBadCheck {condition : Prop} {kind : BlockFault → Prop}
    {found : List BlockFault} (h : Found condition kind found)
    (hkind : ∀ fault, kind fault → fault.isBadCheck = false) :
    found.filter BlockFault.isBadCheck = [] := by
  cases h with
  | fault _ is_kind => exact filter_isBadCheck_eq_nil (by simpa using hkind _ is_kind)
  | nothing _ => rfl

lemma isBadCheck_of_checkFault? {offset : Int} {block : List UInt8} {fault : BlockFault}
    (h : checkFault? offset block = some fault) : fault.isBadCheck = true := by
  rw [checkFault?] at h
  split at h
  · cases h
  · dsimp only at h
    split at h
    · cases h
      rfl
    · cases h

/-- A comparison of the last two bytes of a block reports what the register does. -/
lemma checkFault?_bytes_eq (r : Recorded) (offset : Int) :
    checkFault? offset r.bytes = r.checkFault? offset := by
  rw [checkFault?, r.checkFault?_eq]
  simp only [r.length_bytes, Nat.add_sub_cancel]
  rw [Recorded.bytes, List.drop_left, List.take_left, ← Recorded.bytes]
  exact if_congr r.of_bytes_eq_zero_iff rfl rfl

/-- What is taken for block and check of recovered data. -/
def checkedBytes (data : List UInt8) (previous : Option Block) : List UInt8 :=
  checkedPart (data.drop 1) (Block.sizeOf (Block.code ⟨data.drop 1⟩) previous)

/-- The faults of recovered data by what they tell of: the type, the size, the check, the gap. -/
lemma verifyBlock_of_cons {data rest : List UInt8} {code : UInt8} (h : data.drop 1 = code :: rest)
    (previous : Option Block) (gap : Option Int) (th : Thresholds) (offset : Int) :
    verifyBlock data previous gap th offset
      = (if (code.toNat : Int) = expectedCode previous then []
          else [.wrongType offset code.toNat (expectedCode previous) none none])
        ++ (delimit offset (code :: rest) (Block.sizeOf code.toNat previous)).2.toList
        ++ (checkFault? offset (checkedBytes data previous)).toList
        ++ (shortGap? th offset gap).toList := by
  rw [checkedBytes, h, ← checkFault?_delimit]
  simp only [verifyBlock, h]
  congr 1
  cases gap with
  | none => rfl
  | some n =>
      simp only [shortGap?]
      split <;> rfl

/-- Only the fault of the check tells of a check. -/
lemma filter_verifyBlock (data : List UInt8) (previous : Option Block) (gap : Option Int)
    (th : Thresholds) (offset : Int) :
    (verifyBlock data previous gap th offset).filter BlockFault.isBadCheck
      = (checkFault? offset (checkedBytes data previous)).toList := by
  cases hdata : data.drop 1 with
  | nil =>
      rw [checkedBytes, hdata]
      simp only [verifyBlock, hdata]
      rfl
  | cons code rest =>
      obtain ⟨short, beyond, hspacing, hshort, hbeyond⟩ :=
        delimit_found offset (code :: rest) (Block.sizeOf code.toNat previous)
      have hwrong : (if (code.toNat : Int) = expectedCode previous then []
          else [BlockFault.wrongType offset code.toNat (expectedCode previous) none none]).filter
            BlockFault.isBadCheck = [] := by
        split <;> rfl
      have hnear := (shortGap?_found th offset gap).filter_isBadCheck (by rintro _ ⟨_, -, rfl⟩; rfl)
      rw [verifyBlock_of_cons hdata]
      simp only [hspacing, List.filter_append, hwrong, hnear, List.nil_append, List.append_nil,
        hshort.filter_isBadCheck (by rintro _ ⟨_, -, rfl⟩; rfl),
        hbeyond.filter_isBadCheck (by rintro _ ⟨_, -, rfl⟩; rfl)]
      exact filter_isBadCheck_toList fun _ => isBadCheck_of_checkFault?

/-- **The verifier** of recovered blocks tells of the check of what it takes for block and check, if
that has as many bytes as a check. -/
lemma exists_tellsChecks_verifyBlock (data : List UInt8) (previous : Option Block)
    (gap : Option Int) (th : Thresholds) (offset : Int) :
    ∃ rs : List Recorded,
      rs.map Recorded.bytes
          = (if 2 ≤ (checkedBytes data previous).length then [checkedBytes data previous] else [])
        ∧ TellsChecks (rs.map fun r => (offset, r)) (verifyBlock data previous gap th offset) := by
  have hfilter := filter_verifyBlock data previous gap th offset
  split
  · next hlen =>
    obtain ⟨r, hbytes, -⟩ := Recorded.exists_bytes_eq
      (show (checkedBytes data previous).length = (checkedBytes data previous).length - 2 + 2 by
        omega)
    rw [← hbytes, checkFault?_bytes_eq,
      ← filter_isBadCheck_toList fun _ => Recorded.isBadCheck_of_checkFault?] at hfilter
    refine ⟨[r], by rw [← hbytes]; rfl, .of_eq (hfilter.trans ?_)⟩
    exact (tellsChecks_singleton r offset).checks_eq
  · next hlen =>
    refine ⟨[], rfl, .of_eq (hfilter.trans ?_)⟩
    exact (checkFault?_found offset _).eq_nil fun h => hlen h.1

end Recovery

/-! ### Exactly one check -/

/-- **Exactly one check is accepted.** Behind any bytes, two bytes clear the register just when they
are the bytes of their check. And the walker over any byte string, the reader of one block of any
capture, with any cursor, size, type and buffer, and the verifier of any recovered data tell of the
checks of the blocks that they take: they report each block whose two bytes are not those of its
check, with these bytes and the check, and never a check that was stored as it was computed. -/
theorem stored_check_unique :
    (∀ (data : List UInt8) (low high : UInt8),
        Crc.of (data ++ [low, high]) = 0 ↔ [low, high] = Crc.bytes data)
      ∧ (∀ (dat : List UInt8) (leadIn : Option Int),
        ∃ (side : Side) (found : List (Nat × Recorded)), Layout.walk dat leadIn = .ok side
          ∧ side.blocks = found.map (fun p => p.2.block)
          ∧ (∀ p ∈ found, gapEndMark :: p.2.bytes <+: dat.drop p.1)
          ∧ TellsChecks (found.map fun p => ((p.1 : Int), p.2)) side.diagnostics)
      ∧ (∀ (pulses : List Pulse) (cursor : Cursor) (size code : Int) (b : Capture.Buffer),
        (∃ fault, Capture.decodeBlock pulses cursor size code b = (.error fault, b))
          ∨ ∃ (after : Cursor) (b' : Capture.Buffer) (pos : Nat) (r : Recorded)
              (added : List BlockFault),
            Capture.decodeBlock pulses cursor size code b = (.ok after, b')
              ∧ r.block.data.length = size
              ∧ Capture.IsWhole pulses cursor.input r.block.data.length pos
              ∧ r.bytes = Capture.bytesBehind pulses pos r.block.data.length
              ∧ (b'.bytes.drop cursor.output).take r.block.data.length = r.block.data
              ∧ b'.diagnostics = b.diagnostics ++ added
              ∧ TellsChecks [((cursor.output : Int), r)] added)
      ∧ ∀ (data : List UInt8) (previous : Option Block) (gap : Option Int)
          (th : Thresholds) (offset : Int),
        ∃ rs : List Recorded,
          rs.map Recorded.bytes
              = (if 2 ≤ (Recovery.checkedBytes data previous).length
                then [Recovery.checkedBytes data previous] else [])
            ∧ TellsChecks (rs.map fun r => (offset, r))
              (Recovery.verifyBlock data previous gap th offset) :=
  ⟨fun data low high => (Recorded.of_bytes_eq_zero_iff ⟨⟨data⟩, low, high⟩).trans
      (Recorded.isIntact_iff ⟨⟨data⟩, low, high⟩),
    Layout.exists_tellsChecks_walk, Capture.exists_tellsChecks_decodeBlock,
    Recovery.exists_tellsChecks_verifyBlock⟩

end FamicomDisk
