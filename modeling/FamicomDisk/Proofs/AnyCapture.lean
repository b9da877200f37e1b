import FamicomDisk.Proofs.Reading
import Mathlib.Tactic.Common

/-!
Reading any capture.

Pulses may hold anything, and reading still ends: each block that is read, and each that is passed
over for its type, leaves less of the capture. What is expected is always known, so no read fails,
and a block is taken only if the ones before it leave room for it.

* `exists_decodeFrom`: **what reading does**, by induction along it: blocks in order, in the room
  that there is, and of the faults of checks one for each block whose check is wrong.
* `exists_decodeKnown`: the same for a whole capture.
-/

namespace FamicomDisk

open Recovery

namespace BlockFault

/-- The fault is that of a check. -/
def isBadCheck : BlockFault → Bool
  | .badCheck .. => true
  | _ => false

end BlockFault

namespace Capture

/-- Blocks in order behind `output` bytes of blocks, in the room of a side, with the faults of their
checks among those that were found. -/
structure Adds (expected : BlockType) (previous : Option Block) (output : Nat)
    (found found' : Findings) (rs : List Recorded) : Prop where
  blocks_eq : found'.blocks = (rs.map Recorded.block).reverse ++ found.blocks
  inOrder : InOrder expected previous (rs.map Recorded.block)
  room : output + (Side.content { blocks := rs.map Recorded.block }).length ≤ sideSize
  checks_eq : found'.faults.filter BlockFault.isBadCheck
    = (Recorded.faultsFrom (·.block.data.length) output rs).reverse
      ++ found.faults.filter BlockFault.isBadCheck

section

variable {expected : BlockType} {previous : Option Block} {output : Nat} {found found' : Findings}
  {rs : List Recorded}

/-- A fault that is not of a check may end reading. -/
lemma adds_nil (hroom : output ≤ sideSize) (hblocks : found'.blocks = found.blocks)
    (hchecks : found'.faults.filter BlockFault.isBadCheck
      = found.faults.filter BlockFault.isBadCheck) :
    Adds expected previous output found found' [] where
  blocks_eq := hblocks
  inOrder := trivial
  room := hroom
  checks_eq := hchecks

/-- A fault that is not of a check may come before what is added. -/
lemma Adds.addFault {fault : BlockFault} (hfault : fault.isBadCheck = false)
    (h : Adds expected previous output (found.addFault fault) found' rs) :
    Adds expected previous output found found' rs where
  blocks_eq := h.blocks_eq
  inOrder := h.inOrder
  room := h.room
  checks_eq := by
    rw [h.checks_eq, Findings.addFault, List.filter_cons_of_neg (by simp [hfault])]

/-- A block that comes next is added with the fault of its check, and then what comes behind it. -/
lemma Adds.addBlock {r : Recorded} (htype : r.block.type? = some expected)
    (hsize : Block.sizeOf expected.code previous = some r.block.data.length)
    (h : Adds expected.next (some r.block) (output + r.block.data.length)
      ((found.addFault? (r.fault? output)).addBlock r.block) found' rs) :
    Adds expected previous output found found' (r :: rs) where
  blocks_eq := by
    rw [h.blocks_eq]
    cases r.fault? output <;> simp [Findings.addFault?, Findings.addFault, Findings.addBlock]
  inOrder := ⟨htype, hsize, h.inOrder⟩
  room := by
    have hroom := h.room
    simp only [Side.content, List.map_cons, List.flatMap_cons, List.length_append] at hroom ⊢
    omega
  checks_eq := by
    rw [h.checks_eq, Recorded.faultsFrom, Recorded.fault?]
    split
    · rfl
    · simp only [Findings.addFault?, Findings.addFault, Findings.addBlock, Option.toList_some,
        List.singleton_append, List.reverse_cons, List.append_assoc]
      rw [List.filter_cons_of_pos rfl]

end

/-- **What reading does** with any capture: it adds blocks in order. -/
lemma exists_decodeFrom (found : Findings) {expected : BlockType} {previous : Option Block}
    {output : Nat} (h : Head) (he : Expects previous expected) (hroom : output ≤ sideSize) :
    ∃ found' rs, decodeFrom found expected previous output h = .ok found'
      ∧ Adds expected previous output found found' rs := by
  fun_induction decodeFrom found expected previous output h with
  | case1 _ _ _ _ _ hnone =>
      -- the size is always known
      obtain ⟨size, hsize, -⟩ := he.exists_sizeOf
      rw [hnone] at hsize
      cases hsize
  | case2 => exact ⟨_, [], rfl, adds_nil hroom rfl rfl⟩
  | case3 => exact ⟨_, [], rfl, adds_nil hroom rfl rfl⟩
  | case4 _ _ _ _ _ _ hsize _ cause hread =>
      exact absurd hread (readNext_ne_impossible (he.pos_of_sizeOf hsize) cause)
  | case5 _ _ _ _ _ _ hsize _ _ _ hread ih =>
      obtain ⟨found', rs, hdecode, hadds⟩ := ih he hroom
      obtain ⟨_, _, _, rfl⟩ := exists_of_readNext_otherType (he.pos_of_sizeOf hsize) hread
      exact ⟨found', rs, hdecode, hadds.addFault rfl⟩
  | case6 found expected previous output h size hsize hfits data fault after hread ih =>
      obtain ⟨r, hblock, rfl, hcode, rfl⟩ :=
        exists_recorded_of_readNext (he.pos_of_sizeOf hsize) hread
      obtain rfl : r.block.data = data := congrArg Block.data hblock
      have htype : r.block.type? = some expected := by
        rw [Block.type?, hcode, BlockType.ofCode?_code]
      -- the block tells what comes behind it
      obtain ⟨found', rs, hdecode, hadds⟩ :=
        ih (.behind htype (sixteen_le_of_sizeOf hsize)) (by omega)
      exact ⟨found', r :: rs, hdecode, hadds.addBlock htype hsize⟩

/-- **Any capture is read**, whatever its pulses are. What is read are blocks in the standard order
and of their declared sizes, no more than a disk image holds of a side. Of the faults those of checks
are one for each block whose check was read wrong, at the offset of the block among the bytes of all
blocks. -/
theorem exists_decodeKnown (pulses : List Pulse) :
    ∃ (side : Side) (rs : List Recorded) (image : List UInt8), decodeKnown pulses = .ok side
      ∧ side.blocks = rs.map Recorded.block
      ∧ InOrder .diskHeader none side.blocks
      ∧ side.content.length ≤ sideSize
      ∧ side.toImage = .ok image ∧ image.length = sideSize
      ∧ side.diagnostics.filter BlockFault.isBadCheck
        = Recorded.faultsFrom (·.block.data.length) 0 rs := by
  obtain ⟨found, rs, hdecode, hadds⟩ := exists_decodeFrom {}
    (.ofOffset pulses ((findUsualHeader? pulses).getD 0 - minGap)) .first (Nat.zero_le _)
  have hblocks : found.toSide.blocks = rs.map Recorded.block := by
    rw [Findings.toSide, hadds.blocks_eq, List.append_nil, List.reverse_reverse]
  have hroom : found.toSide.content.length ≤ sideSize := by
    rw [Side.content, hblocks]
    simpa [Side.content] using hadds.room
  refine ⟨found.toSide, rs, _, by rw [decodeKnown, hdecode]; rfl, hblocks, ?_, hroom,
    if_pos hroom, ?_, ?_⟩
  · rw [hblocks]
    exact hadds.inOrder
  · rw [List.length_append, List.length_replicate]
    omega
  · rw [Findings.toSide, List.filter_reverse, hadds.checks_eq]
    simp

end Capture

end FamicomDisk
