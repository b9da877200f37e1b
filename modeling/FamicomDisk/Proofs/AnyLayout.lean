import FamicomDisk.Proofs.Framing
import FamicomDisk.Proofs.Verifying

/-!
Walking over any byte string.

The walker takes blocks as long as they come in order, and stops at the first byte that cannot be
part of one. What it has passed until then is a byte string in which recorded blocks are placed, so
of every byte string it reads a first part just as it would read a layout, and says at most one
thing of the rest.

* `exists_placed_walkFrom`: **what the walker does**, by induction along the walk.
* `exists_walk`: every byte string has a walk.
* `exists_walk_again`: **walking normalises**: the blocks that are read are in order, and their
  layout is read back without a fault.
-/

namespace FamicomDisk

open Recovery (Expects sixteen_le_of_sizeOf)

/-! ### What is placed in a byte string -/

namespace Placed

variable {offset : Nat} {found : List (Nat × Recorded)} {bytes : List UInt8}

/-- The marks of placed blocks lie behind where the byte string begins. -/
lemma le_of_mem (h : Placed offset found bytes) : ∀ p ∈ found, offset ≤ p.1 := by
  induction h with
  | zeros => simp
  | block _ ih =>
      intro p hp
      rcases List.mem_cons.mp hp with rfl | hp
      · exact Nat.le_add_right _ _
      · have := ih p hp
        omega

/-- Placed blocks stand in the order of their marks. -/
lemma pairwise_lt (h : Placed offset found bytes) : (found.map Prod.fst).Pairwise (· < ·) := by
  induction h with
  | zeros => exact .nil
  | block behind ih =>
      refine List.Pairwise.cons (fun mark hmark => ?_) ih
      obtain ⟨p, hp, rfl⟩ := List.mem_map.mp hmark
      have := behind.le_of_mem p hp
      omega

/-- A placed block, with its check, stands behind its mark. -/
lemma prefix_drop (h : Placed offset found bytes) :
    ∀ p ∈ found, gapEndMark :: p.2.bytes <+: bytes.drop (p.1 - offset) := by
  induction h with
  | zeros => simp
  | @block offset n r found bytes behind ih =>
      intro p hp
      rcases List.mem_cons.mp hp with rfl | hp
      · rw [Nat.add_sub_cancel_left, List.drop_left' List.length_replicate]
        exact ⟨bytes, rfl⟩
      · have hle := behind.le_of_mem p hp
        have hskip : p.1 - offset
            = n + (1 + (r.bytes.length + (p.1 - (offset + n + 1 + r.bytes.length)))) := by
          omega
        rw [hskip, ← List.drop_drop, List.drop_left' List.length_replicate, Nat.add_comm 1,
          List.drop_succ_cons, ← List.drop_drop, List.drop_left]
        exact ih p hp

end Placed

namespace Layout

/-- The zeros that are skipped. -/
lemma exists_of_skipZeros {offset offset' : Nat} {rest tail : List UInt8}
    (h : skipZeros offset rest = (offset', tail)) :
    ∃ n, offset' = offset + n ∧ rest = List.replicate n 0 ++ tail := by
  fun_induction skipZeros offset rest with
  | case1 offset rest ih =>
      obtain ⟨n, rfl, rfl⟩ := ih h
      exact ⟨n + 1, by omega, rfl⟩
  | case2 offset rest hne =>
      obtain ⟨rfl, rfl⟩ := Prod.mk.inj h
      exact ⟨0, rfl, rfl⟩

/-- A block that begins with the code of a type is of that type. -/
lemma type?_take {t : BlockType} {body : List UInt8} {size : Nat} (hpos : 0 < size)
    (hlen : size ≤ body.length) (hcode : ((body.headD 0).toNat : Int) = t.code) :
    (⟨body.take size⟩ : Block).type? = some t := by
  obtain ⟨n, rfl⟩ := Nat.exists_eq_succ_of_ne_zero (Nat.ne_of_gt hpos)
  obtain ⟨c, cs, rfl⟩ := List.exists_cons_of_length_pos (Nat.lt_of_lt_of_le hpos hlen)
  rw [Block.type?, Block.code, List.take_succ_cons]
  change BlockType.ofCode? ((List.headD (c :: cs) 0).toNat : Int) = some t
  rw [hcode, BlockType.ofCode?_code]

/-- A fault that ends a walk at an offset. It is not that of a check. -/
inductive EndsAt (offset : Nat) : BlockFault → Prop where
  | wrongType (found expected : Int) : EndsAt offset (.wrongType offset found expected none none)
  | badSpacing (cause : SpacingFault) : EndsAt offset (.badSpacing offset cause)

/-- In a first part of `rest`, which begins at `offset`, blocks are placed in order, and where it
ends a walk may stop with a fault. -/
structure Passes (expected : BlockType) (previous : Option Block) (offset : Nat)
    (rest : List UInt8) (placed : List (Nat × Recorded)) (stop : Option BlockFault) : Prop where
  exists_eq : ∃ bytes behind, rest = bytes ++ behind ∧ Placed offset placed bytes
    ∧ ∀ fault ∈ stop, EndsAt (offset + bytes.length) fault
  inOrder : InOrder expected previous (placed.map fun p => p.2.block)

section

variable {found : Findings} {expected : BlockType} {previous : Option Block} {offset offset' : Nat}
  {rest body tail : List UInt8} {stop : Option BlockFault}

/-- Zeros are passed. -/
lemma passes_nil (h : skipZeros offset rest = (offset', tail))
    (hstop : ∀ fault ∈ stop, EndsAt offset' fault) :
    Passes expected previous offset rest [] stop := by
  obtain ⟨n, rfl, rfl⟩ := exists_of_skipZeros h
  refine ⟨⟨_, _, rfl, .zeros offset n, ?_⟩, trivial⟩
  rwa [List.length_replicate]

/-- A block that comes next is passed, and then what is passed behind it. -/
lemma Passes.block {r : Recorded} {placed : List (Nat × Recorded)}
    (hskip : skipZeros offset rest = (offset', gapEndMark :: (r.bytes ++ tail)))
    (htype : r.block.type? = some expected)
    (hsize : Block.sizeOf expected.code previous = some r.block.data.length)
    (h : Passes expected.next (some r.block) (offset' + 1 + r.bytes.length) tail placed stop) :
    Passes expected previous offset rest ((offset', r) :: placed) stop := by
  obtain ⟨n, rfl, rfl⟩ := exists_of_skipZeros hskip
  obtain ⟨⟨bytes, behind, rfl, hplaced, hstop⟩, horder⟩ := h
  refine ⟨⟨_, behind, ?_, .block hplaced, ?_⟩, htype, hsize, horder⟩
  · simp only [List.append_assoc, List.cons_append]
  · intro fault hfault
    have hends := hstop fault hfault
    have hlen : offset + n + 1 + r.bytes.length + bytes.length = offset
        + (List.replicate n 0 ++ gapEndMark :: (r.bytes ++ bytes)).length := by
      simp only [List.length_append, List.length_cons, List.length_replicate]
      omega
    rwa [hlen] at hends

/-- A block of the size that is expected, with its check behind it. -/
lemma exists_recorded_take {size : Nat} (hpos : 0 < size) (hlen : size + 2 ≤ body.length)
    (hcode : ((body.headD 0).toNat : Int) = expected.code) :
    ∃ r : Recorded, r.bytes = body.take (size + 2) ∧ r.block.data = (body.take (size + 2)).take size
      ∧ [r.low, r.high] = (body.take (size + 2)).drop size ∧ r.block.data.length = size
      ∧ r.block.type? = some expected := by
  obtain ⟨r, hbytes, hsize⟩ := Recorded.exists_bytes_eq
    (show (body.take (size + 2)).length = size + 2 by rw [List.length_take]; omega)
  have hdata : r.block.data = (body.take (size + 2)).take size := by
    rw [← hbytes, ← hsize, Recorded.bytes, List.take_left]
  refine ⟨r, hbytes, hdata, ?_, hsize, ?_⟩
  · rw [← hbytes, ← hsize, Recorded.bytes, List.drop_left]
  · have hblock : r.block = ⟨body.take size⟩ :=
      congrArg Block.mk (hdata.trans (by rw [List.take_take, Nat.min_eq_left (by omega)]))
    rw [hblock]
    exact type?_take hpos (by omega) hcode

end

/-- **What the walker does** with any byte string: in a first part of it blocks are placed in order,
and these are found, each with the fault of its check; at the first byte that is not passed the walk
ends, perhaps with a fault. -/
lemma exists_passes_walkFrom (found : Findings) {expected : BlockType} {previous : Option Block}
    (offset : Nat) (rest : List UInt8) (h : Expects previous expected) :
    ∃ placed stop, Passes expected previous offset rest placed stop
      ∧ walkFrom found expected previous offset rest
          = .ok ((placedFindings found placed).addFault? stop) := by
  fun_induction walkFrom found expected previous offset rest with
  | case1 _ _ _ _ _ _ hskip => exact ⟨[], none, passes_nil hskip (by simp), rfl⟩
  | case2 _ _ _ _ _ _ _ _ hskip =>
      exact ⟨[], some _, passes_nil hskip (by simpa using .badSpacing _), rfl⟩
  | case3 _ expected _ _ _ offset' _ _ hskip _ code _ =>
      -- no fault is told where files may end
      by_cases hheader : expected = .fileHeader
      · exact ⟨[], none, passes_nil hskip (by simp), by rw [if_pos hheader]; rfl⟩
      · exact ⟨[], some (.wrongType offset' code expected.code none none),
          passes_nil hskip (by simpa using .wrongType _ _), by rw [if_neg hheader]; rfl⟩
  | case4 _ _ _ _ _ _ _ _ _ _ _ _ hnone =>
      -- the size is always known
      obtain ⟨size, hsize, -⟩ := h.exists_sizeOf
      rw [hnone] at hsize
      cases hsize
  | case5 _ _ _ _ _ _ _ _ hskip =>
      exact ⟨[], some _, passes_nil hskip (by simpa using .badSpacing _), rfl⟩
  | case6 found expected previous offset rest offset' mark body hskip hmark code hcode size hsize
      block length hlong data found' ih =>
      obtain ⟨size', hsize', hpos⟩ := h.exists_sizeOf
      obtain rfl : size' = size := Option.some.inj (hsize'.symm.trans hsize)
      obtain rfl : mark = gapEndMark := not_not.mp hmark
      have hlen : size' + 2 ≤ body.length := by
        simp only [length, block, List.length_take] at hlong
        omega
      obtain ⟨r, hbytes, hdata, hstored, hlength, htype⟩ :=
        exists_recorded_take hpos hlen (not_not.mp hcode)
      have hblock : (⟨data⟩ : Block) = r.block := congrArg Block.mk hdata.symm
      have hfault : checkFault? offset' data (block.drop size') = r.fault? offset' := by
        rw [← r.checkFault?_stored, hstored, hdata]
      have hfound : found' = found.addFault? (r.fault? offset') := by rw [← hfault]
      -- the block tells what comes behind it
      have hknown : Block.sizeOf expected.code previous = some r.block.data.length := by
        rw [hlength]
        exact hsize
      rw [hblock] at ih ⊢
      obtain ⟨placed, stop, hpasses, hwalk⟩ := ih (.behind htype (sixteen_le_of_sizeOf hknown))
      have hend : offset' + 1 + (size' + 2) = offset' + 1 + r.bytes.length := by
        rw [r.length_bytes, hlength]
      have hbody : body = r.bytes ++ body.drop (size' + 2) := by
        rw [hbytes, List.take_append_drop]
      refine ⟨(offset', r) :: placed, stop,
        .block (by rw [← hbody]; exact hskip) htype hknown ?_, ?_⟩
      · rwa [← hend]
      · rw [hwalk, hfound, placedFindings_cons]

/-- Every byte string has a walk. -/
lemma exists_walk (dat : List UInt8) (leadIn : Option Int) :
    ∃ side, walk dat leadIn = .ok side ∧ side.leadIn = leadIn := by
  obtain ⟨_, _, -, hwalk⟩ := exists_passes_walkFrom {} 0 dat .first
  exact ⟨_, by rw [walk, hwalk]; rfl, rfl⟩

/-- The layout of blocks in order is read back without a fault, wherever there is room for it. -/
lemma exists_frameIn_walk {side : Side} {room : Int} (leadIn : Option Int)
    (horder : InOrder .diskHeader none side.blocks)
    (hroom : ((ofBlocks side.blocks).length : Int) ≤ room) :
    ∃ layout again, frameIn room side = .ok layout ∧ walk layout leadIn = .ok again
      ∧ again.blocks = side.blocks ∧ again.diagnostics = [] := by
  have hwalk := walk_ofBlocks 0 leadIn horder
  rw [List.replicate_zero, List.append_nil] at hwalk
  exact ⟨_, _, frameIn_eq_ok_iff.mpr ⟨layoutOf_ofBlock _, hroom⟩, hwalk, rfl, rfl⟩

/-- **Walking is safe and normalises.** Of every byte string the walk has blocks in the standard
order and of their declared sizes. They stand behind their marks in a first part of it, with two
bytes for the check behind each one and only zeros around them; there is one fault for each block
whose two bytes are not its check, at its mark, and then at most one more, of another kind, where
that part ends. The layout of the blocks, wherever there is room for it, is read as the same blocks
without a fault. -/
theorem exists_walk_again (dat : List UInt8) (leadIn : Option Int) :
    ∃ (side : Side) (found : List (Nat × Recorded)) (bytes behind : List UInt8)
      (stop : Option BlockFault),
      walk dat leadIn = .ok side
      ∧ side.blocks = found.map (fun p => p.2.block)
      ∧ InOrder .diskHeader none side.blocks
      ∧ dat = bytes ++ behind ∧ Placed 0 found bytes
      ∧ (found.map Prod.fst).Pairwise (· < ·)
      ∧ (∀ p ∈ found, gapEndMark :: p.2.bytes <+: dat.drop p.1)
      ∧ side.diagnostics = (found.filterMap fun p => p.2.fault? p.1) ++ stop.toList
      ∧ (∀ p ∈ found,
          p.2.fault? p.1 = none ↔ [p.2.low, p.2.high] = Crc.bytes p.2.block.data)
      ∧ (∀ fault ∈ stop, EndsAt bytes.length fault)
      ∧ ∀ room : Int, ((ofBlocks side.blocks).length : Int) ≤ room →
          ∃ layout again, frameIn room side = .ok layout ∧ walk layout leadIn = .ok again
            ∧ again.blocks = side.blocks ∧ again.diagnostics = [] := by
  obtain ⟨placed, stop, ⟨⟨bytes, behind, rfl, hplaced, hstop⟩, horder⟩, hwalk⟩ :=
    exists_passes_walkFrom {} 0 dat .first
  rw [Nat.zero_add] at hstop
  have hblocks : ((placedFindings {} placed).addFault? stop).toSide.blocks
      = placed.map (fun p => p.2.block) := by
    cases stop <;> simp [placedFindings, Findings.toSide, Findings.addFault?, Findings.addFault]
  have hfaults : ((placedFindings {} placed).addFault? stop).toSide.diagnostics
      = (placed.filterMap fun p => p.2.fault? p.1) ++ stop.toList := by
    cases stop <;> simp [placedFindings, Findings.toSide, Findings.addFault?, Findings.addFault]
  have hside : walk (bytes ++ behind) leadIn
      = .ok { ((placedFindings {} placed).addFault? stop).toSide with
              leadIn, layout := some (bytes ++ behind) } := by
    rw [walk, hwalk]
    rfl
  rw [← hblocks] at horder
  refine ⟨_, placed, bytes, behind, stop, hside, hblocks, horder, rfl, hplaced,
    hplaced.pairwise_lt, ?_, hfaults, ?_, hstop, fun room => exists_frameIn_walk leadIn horder⟩
  · intro p hp
    rw [List.drop_append]
    exact (hplaced.prefix_drop p hp).trans (List.prefix_append _ _)
  · intro p hp
    rw [Recorded.fault?, ← p.2.isIntact_iff]
    simp

set_option maxRecDepth 20000 in
/-- A disk header behind five zeros, whose check was lost: the layout of what is read has the right
check. -/
theorem exists_walk_again_emptyHeader :
    ∃ side layout again,
      walk (List.replicate 5 0 ++ layoutOf [⟨emptyHeader, 0, 0⟩] ++ List.replicate 7 0) none
          = .ok side
        ∧ side.diagnostics ≠ []
        ∧ frameIn 180 side = .ok layout ∧ walk layout none = .ok again
        ∧ again.blocks = [emptyHeader] ∧ again.diagnostics = [] := by
  obtain ⟨side, -, -, -, -, hside, -, -, -, -, -, -, -, -, -, hagain⟩ := exists_walk_again
    (List.replicate 5 0 ++ layoutOf [⟨emptyHeader, 0, 0⟩] ++ List.replicate 7 0) none
  have horder : InOrder .diskHeader none ([⟨emptyHeader, 0, 0⟩].map Recorded.block) :=
    ⟨rfl, rfl, trivial⟩
  obtain rfl := Except.ok.inj ((walk_layoutOf 5 7 none horder).symm.trans hside)
  obtain ⟨layout, again, hframe, hread, hblocks, hnone⟩ := hagain 180 (by decide +kernel)
  have hlost : ¬ Recorded.IsIntact ⟨emptyHeader, 0, 0⟩ := by decide +kernel
  refine ⟨_, layout, again, hside, ?_, hframe, hread, hblocks, hnone⟩
  rw [Recorded.faultsFrom, Recorded.fault?, if_neg hlost]
  simp

end Layout

end FamicomDisk
