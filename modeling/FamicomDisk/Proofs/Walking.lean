import FamicomDisk.Proofs.Recorded

/-!
Walking over a layout.

A byte string in which recorded blocks stand behind their marks, with nothing but zeros around them,
is read by the walker block by block, whatever the numbers of zeros are.

* `Placed`: recorded blocks at the offsets of their marks in a byte string.
* `walkFrom_placed`: **what the walker finds** is what is placed, and one fault for each check that
  is not right.
-/

namespace FamicomDisk

/-- Recorded blocks behind their marks in a byte string that begins at `offset`. Zeros stand before,
between and behind them. Each block comes with the offset of its mark. -/
inductive Placed : Nat → List (Nat × Recorded) → List UInt8 → Prop where
  | zeros (offset n : Nat) : Placed offset [] (List.replicate n 0)
  | block {offset n : Nat} {r : Recorded} {found : List (Nat × Recorded)} {bytes : List UInt8}
      (behind : Placed (offset + n + 1 + r.bytes.length) found bytes) :
      Placed offset ((offset + n, r) :: found)
        (List.replicate n 0 ++ gapEndMark :: (r.bytes ++ bytes))

/-- More zeros may stand before blocks. -/
lemma Placed.zeros_append {offset n : Nat} {found : List (Nat × Recorded)} {bytes : List UInt8}
    (h : Placed (offset + n) found bytes) : Placed offset found (List.replicate n 0 ++ bytes) := by
  cases h with
  | zeros _ k =>
      rw [List.replicate_append_replicate]
      exact .zeros offset (n + k)
  | @block _ k r found bytes behind =>
      rw [← List.append_assoc, List.replicate_append_replicate, Nat.add_assoc]
      refine .block ?_
      rwa [← Nat.add_assoc offset n k]

/-- What walking finds when blocks are placed, on top of what was found before. -/
def placedFindings (before : Findings) (found : List (Nat × Recorded)) : Findings where
  blocks := (found.map (·.2.block)).reverse ++ before.blocks
  faults := (found.filterMap fun p => p.2.fault? p.1).reverse ++ before.faults

lemma placedFindings_cons (before : Findings) (offset : Nat) (r : Recorded)
    (found : List (Nat × Recorded)) :
    placedFindings ((before.addFault? (r.fault? offset)).addBlock r.block) found
      = placedFindings before ((offset, r) :: found) := by
  cases hf : r.fault? offset <;>
    simp [placedFindings, hf, Findings.addFault?, Findings.addFault, Findings.addBlock]

namespace Layout

lemma skipZeros_replicate (offset n : Nat) (rest : List UInt8) :
    skipZeros offset (List.replicate n 0 ++ rest) = skipZeros (offset + n) rest := by
  induction n generalizing offset with
  | zero => rfl
  | succ n ih =>
      rw [List.replicate_succ, List.cons_append, skipZeros, ih]
      congr 1
      omega

lemma skipZeros_mark (offset n : Nat) (rest : List UInt8) :
    skipZeros offset (List.replicate n 0 ++ gapEndMark :: rest)
      = (offset + n, gapEndMark :: rest) := by
  rw [skipZeros_replicate, skipZeros]
  rintro rest' h
  simp [gapEndMark] at h

lemma skipZeros_zeros (offset n : Nat) :
    skipZeros offset (List.replicate n 0) = (offset + n, []) := by
  rw [← List.append_nil (List.replicate n _), skipZeros_replicate]
  rfl

section

variable {found : Findings} {expected : BlockType} {previous : Option Block} {offset offset' : Nat}
  {rest body : List UInt8}

lemma walkFrom_end (h : skipZeros offset rest = (offset', [])) :
    walkFrom found expected previous offset rest = .ok found := by
  rw [walkFrom]
  split <;> rename_i e <;> rw [h] at e
  · rfl
  · simp at e

/-- One block of the expected type and size is read, with the fault of its check. -/
lemma walkFrom_block {r : Recorded} (h : skipZeros offset rest = (offset', gapEndMark :: body))
    (hbody : r.bytes <+: body) (ht : r.block.type? = some expected)
    (hs : Block.sizeOf expected.code previous = some r.block.data.length) :
    walkFrom found expected previous offset rest
      = walkFrom ((found.addFault? (r.fault? offset')).addBlock r.block) expected.next
          (some r.block) (offset' + 1 + r.bytes.length) (body.drop r.bytes.length) := by
  obtain ⟨c, cs, hdata, hcode⟩ := Block.exists_cons_of_type? ht
  obtain ⟨behind, rfl⟩ := hbody
  have hfirst : ((r.bytes ++ behind).headD 0).toNat = expected.code := by
    rw [Recorded.bytes, hdata]
    exact hcode
  have htake : (r.bytes ++ behind).take (r.block.data.length + 2) = r.bytes :=
    List.take_left' r.length_bytes
  have hstored : r.bytes.drop r.block.data.length = [r.low, r.high] := List.drop_left
  have hblock : r.bytes.take r.block.data.length = r.block.data := List.take_left
  rw [walkFrom]
  split <;> rename_i e <;> rw [h] at e
  · simp at e
  · simp only [Prod.mk.injEq, List.cons.injEq] at e
    obtain ⟨rfl, rfl, rfl⟩ := e
    rw [if_neg (not_not.mpr rfl), if_neg (not_not.mpr hfirst), hs]
    simp only [htake, hstored, hblock]
    rw [if_neg (by rw [r.length_bytes]; omega), r.checkFault?_stored, r.length_bytes]

end

/-- **What the walker finds** is what is placed: the blocks, and one fault for each check that is
not right. -/
theorem walkFrom_placed {before : Findings} {expected : BlockType} {previous : Option Block}
    {offset : Nat} {found : List (Nat × Recorded)} {bytes : List UInt8}
    (h : Placed offset found bytes)
    (horder : InOrder expected previous (found.map fun p => p.2.block)) :
    walkFrom before expected previous offset bytes = .ok (placedFindings before found) := by
  induction h generalizing before expected previous with
  | zeros offset n => exact walkFrom_end (skipZeros_zeros offset n)
  | @block offset n r found bytes behind ih =>
      obtain ⟨ht, hs, horder⟩ := horder
      rw [walkFrom_block (skipZeros_mark offset n _) (List.prefix_append _ _) ht hs, List.drop_left,
        ih horder, placedFindings_cons]

/-- The side of a layout in which blocks are placed in the standard order. -/
lemma walk_placed {found : List (Nat × Recorded)} {bytes : List UInt8} (leadIn : Option Int)
    (h : Placed 0 found bytes) (horder : InOrder .diskHeader none (found.map fun p => p.2.block)) :
    walk bytes leadIn
      = .ok { blocks := found.map fun p => p.2.block
              leadIn
              layout := some bytes
              diagnostics := found.filterMap fun p => p.2.fault? p.1 } := by
  rw [walk, walkFrom_placed h horder]
  simp [placedFindings, Findings.toSide, pure, Except.pure, bind, Except.bind]

end Layout

end FamicomDisk
