import FamicomDisk.Proofs.Recorded
import FamicomDisk.Recovery.Verify
import Mathlib.Data.List.Basic
import Mathlib.Data.List.TakeWhile

/-!
Verifying recovered blocks.

What stands behind a mark is a block of the declared size, its check, and zeros. The block before it
tells the type that is expected, and, if it is a file header, the size; what was recovered behind
it does not matter (`sizeOf_next_eq`).

* `verifyBlock_known`: the faults of what stands behind a mark, when it is long enough and its size
  is known.
* `exists_recorded_of_verifyBlock`: **no fault** means that a block with the right check stands
  there, and nothing but zeros behind it.
-/

namespace FamicomDisk

/-! ### Byte strings as recorded blocks -/

lemma Recorded.exists_bytes_eq {bytes : List UInt8} {size : Nat} (h : bytes.length = size + 2) :
    ∃ r : Recorded, r.bytes = bytes ∧ r.block.data.length = size := by
  have htwo : (bytes.drop size).length = 2 := by
    rw [List.length_drop]
    omega
  obtain ⟨low, high, hstored⟩ := List.length_eq_two.mp htwo
  refine ⟨⟨⟨bytes.take size⟩, low, high⟩, ?_, ?_⟩
  · rw [Recorded.bytes, ← hstored, List.take_append_drop]
  · rw [List.length_take]
    omega

namespace Recovery

/-! ### The size of what is expected -/

/-- A block with more bytes behind it is of the same type. -/
lemma type?_append {b : Block} {t : BlockType} (ht : b.type? = some t) (behind : List UInt8) :
    (⟨b.data ++ behind⟩ : Block).type? = some t := by
  obtain ⟨c, rest, hdata, -⟩ := Block.exists_cons_of_type? ht
  rw [← ht, Block.type?, Block.type?, Block.code, Block.code, hdata, List.cons_append]

/-- The size of what follows a block is told by its type, and for a file header by its bytes. -/
lemma sizeOf_next_eq {b b' : Block} {t : BlockType} (ht : b.type? = some t)
    (ht' : b'.type? = some t)
    (hheader : t = .fileHeader → 16 ≤ b.data.length ∧ b.data <+: b'.data) :
    Block.sizeOf t.next.code (some b') = Block.sizeOf t.next.code (some b) := by
  cases t with
  | diskHeader | fileCount | fileData => rfl
  | fileHeader =>
      obtain ⟨h16, behind, hdata⟩ := hheader rfl
      have hsize : b'.declaredSize? = b.declaredSize? := by
        rw [Block.declaredSize?, Block.declaredSize?, ← hdata,
          List.drop_append_of_le_length (by omega)]
        have h3 : 2 < (b.data.drop 13).length := by
          rw [List.length_drop]
          omega
        match b.data.drop 13, h3 with
        | _ :: _ :: _, _ => rfl
      have h16' : 16 ≤ b'.data.length := by
        rw [← hdata, List.length_append]
        omega
      have hcode : BlockType.ofCode? BlockType.fileHeader.next.code = some .fileData := rfl
      simp only [Block.sizeOf, hcode, hsize]
      rw [if_pos ⟨ht', h16'⟩, if_pos ⟨ht, h16⟩]

/-- The type that is expected behind a block, and behind no block. -/
inductive Expects : Option Block → BlockType → Prop where
  | first : Expects none .diskHeader
  | behind {b : Block} {t : BlockType} (type_eq : b.type? = some t)
      (length_le : t = .fileHeader → 16 ≤ b.data.length) : Expects (some b) t.next

lemma Expects.expectedCode_eq {previous : Option Block} {t : BlockType} (h : Expects previous t) :
    expectedCode previous = t.code := by
  cases h with
  | first => rfl
  | behind type_eq _ => rw [expectedCode, type_eq]

/-- More bytes behind a block do not change what is expected. -/
lemma Expects.next {b : Block} {t : BlockType} (ht : b.type? = some t)
    (hlen : t = .fileHeader → 16 ≤ b.data.length) (behind : List UInt8) :
    Expects (some ⟨b.data ++ behind⟩) t.next := by
  refine .behind (type?_append ht behind) ?_
  intro h
  have h16 := hlen h
  rw [List.length_append]
  omega

/-- What comes in order behind a block does not depend on the bytes behind it. -/
lemma inOrder_next_append_iff {b : Block} {t : BlockType} {bs : List Block} (behind : List UInt8)
    (ht : b.type? = some t) (hlen : t = .fileHeader → 16 ≤ b.data.length) :
    InOrder t.next (some ⟨b.data ++ behind⟩) bs ↔ InOrder t.next (some b) bs := by
  cases bs with
  | nil => exact Iff.rfl
  | cons b' bs =>
      rw [InOrder, InOrder, sizeOf_next_eq ht (type?_append ht behind)
        fun h => ⟨hlen h, List.prefix_append _ _⟩]

/-- A file header has its sixteen bytes. -/
lemma sixteen_le_of_sizeOf {previous : Option Block} {b : Block} {t : BlockType}
    (hs : Block.sizeOf t.code previous = some b.data.length) :
    t = .fileHeader → 16 ≤ b.data.length := by
  rintro rfl
  have h16 : some 16 = some b.data.length := hs
  rw [← Option.some.inj h16]

/-- Behind the bytes of a recorded block what is expected, and what comes in order, is told by the
block. -/
lemma next_recorded {r : Recorded} {previous : Option Block} {t : BlockType}
    (ht : r.block.type? = some t)
    (hs : Block.sizeOf t.code previous = some r.block.data.length) (behind : List UInt8)
    (bs : List Block) :
    Expects (some ⟨r.bytes ++ behind⟩) t.next
      ∧ (InOrder t.next (some ⟨r.bytes ++ behind⟩) bs ↔ InOrder t.next (some r.block) bs) := by
  have hlen := sixteen_le_of_sizeOf hs
  rw [Recorded.bytes, List.append_assoc]
  exact ⟨.next ht hlen _, inOrder_next_append_iff _ ht hlen⟩

/-- The size of what is expected is always known, and not zero. -/
lemma Expects.exists_sizeOf {previous : Option Block} {t : BlockType} (h : Expects previous t) :
    ∃ size, Block.sizeOf t.code previous = some size ∧ 0 < size := by
  cases h with
  | first => exact ⟨_, rfl, by decide⟩
  | @behind b t type_eq length_le =>
      cases t with
      | diskHeader | fileCount | fileData => exact ⟨_, rfl, by decide⟩
      | fileHeader =>
          have h16 := length_le rfl
          obtain ⟨size, hsize⟩ : ∃ size, b.declaredSize? = some size := by
            have h3 : 2 < (b.data.drop 13).length := by
              rw [List.length_drop]
              omega
            rw [Block.declaredSize?]
            match b.data.drop 13, h3 with
            | _ :: _ :: _, _ => exact ⟨_, rfl⟩
          have hcode : BlockType.ofCode? BlockType.fileHeader.next.code = some .fileData := rfl
          simp only [Block.sizeOf, hcode]
          rw [if_pos ⟨type_eq, h16⟩, hsize]
          exact ⟨1 + size, rfl, by omega⟩

lemma Expects.pos_of_sizeOf {previous : Option Block} {t : BlockType} {size : Nat}
    (h : Expects previous t) (hs : Block.sizeOf t.code previous = some size) : 0 < size := by
  obtain ⟨size', hs', hpos⟩ := h.exists_sizeOf
  rwa [← Option.some.inj (hs'.symm.trans hs)]

/-! ### The faults of a block -/

lemma trimZeros_eq_nil {bytes : List UInt8} :
    trimZeros bytes = [] ↔ bytes = List.replicate bytes.length 0 := by
  rw [trimZeros, List.reverse_eq_nil_iff, List.dropWhile_eq_nil_iff, List.eq_replicate_iff]
  simp

lemma checkFault?_bytes (r : Recorded) (offset : Nat) :
    checkFault? offset r.bytes = r.fault? offset := by
  rw [checkFault?, Recorded.fault?]
  simp only [r.length_bytes, Nat.add_sub_cancel]
  rw [Recorded.bytes, List.drop_left, List.take_left, ← Recorded.bytes]
  by_cases hr : r.IsIntact
  · rw [if_pos (r.of_bytes_eq_zero_iff.mpr hr), if_pos hr]
  · rw [if_neg (mt r.of_bytes_eq_zero_iff.mp hr), if_neg hr]

/-- The fault of a gap that is too short. -/
def shortGap? (th : Thresholds) (offset : Int) (gap : Option Int) : Option BlockFault :=
  match gap with
  | some n => if n < th.minGap then some (.badSpacing offset (.shortGap n)) else none
  | none => none

/-- A block of known size is cut off behind its check, and what is left should be zeros. -/
lemma delimit_known (r : Recorded) (behind : List UInt8) (offset : Int) :
    delimit offset (r.bytes ++ behind) (some r.block.data.length)
      = (r.bytes, if (trimZeros behind).length = 0 then none
          else some (.badSpacing offset (.trailing (trimZeros behind).length))) := by
  rw [delimit]
  simp only
  rw [if_neg (by rw [List.length_append, r.length_bytes]; omega), List.take_left' r.length_bytes,
    List.drop_left' r.length_bytes]

variable {th : Thresholds} {previous : Option Block} {gap : Option Int} {offset : Nat}
  {t : BlockType}

/-- **The faults of what stands behind a mark**, when it is long enough for its size: it is of
another type, something stands behind it, its check is not right, or the gap is too short. -/
lemma verifyBlock_known {r : Recorded} {behind : List UInt8} (hdata : r.block.data ≠ [])
    (hs : Block.sizeOf r.block.code previous = some r.block.data.length) :
    verifyBlock (gapEndMark :: (r.bytes ++ behind)) previous gap th offset
      = (if r.block.code = expectedCode previous then []
          else [.wrongType offset r.block.code (expectedCode previous) none none])
        ++ (if (trimZeros behind).length = 0 then none
            else some (.badSpacing offset (.trailing (trimZeros behind).length))).toList
        ++ (r.fault? offset).toList ++ (shortGap? th offset gap).toList := by
  obtain ⟨c, rest, hc⟩ := List.exists_cons_of_ne_nil hdata
  have hcode : r.block.code = c.toNat := by rw [Block.code, hc]
  have hpayload : r.bytes ++ behind = c :: (rest ++ [r.low, r.high] ++ behind) := by
    rw [Recorded.bytes, hc]
    rfl
  have hdelimit := delimit_known r behind offset
  rw [hpayload] at hdelimit ⊢
  rw [hcode] at hs ⊢
  simp only [verifyBlock, List.drop_succ_cons, List.drop_zero, hs, hdelimit, checkFault?_bytes]
  congr 1
  cases gap with
  | none => rfl
  | some n =>
      simp only [shortGap?]
      split <;> rfl

/-- A block of the expected type and size, with zeros behind it and a gap that is long enough, has
the fault of its check. -/
lemma verifyBlock_recorded {r : Recorded} (he : Expects previous t) (ht : r.block.type? = some t)
    (hs : Block.sizeOf t.code previous = some r.block.data.length)
    (hgap : ∀ n ∈ gap, th.minGap ≤ n) (zeros : Nat) :
    verifyBlock (gapEndMark :: (r.bytes ++ List.replicate zeros 0)) previous gap th offset
      = (r.fault? offset).toList := by
  obtain ⟨c, rest, hdata, -⟩ := Block.exists_cons_of_type? ht
  have hcode := Block.code_of_type? ht
  have htrim : trimZeros (List.replicate zeros 0) = [] := trimZeros_eq_nil.mpr (by simp)
  have hshort : shortGap? th offset gap = none := by
    cases gap with
    | none => rfl
    | some n =>
        have hn := hgap n rfl
        rw [shortGap?, if_neg (by omega)]
  rw [verifyBlock_known (by rw [hdata]; simp) (by rw [hcode]; exact hs), htrim, hshort,
    if_pos (by rw [hcode, he.expectedCode_eq])]
  simp

/-- **No fault** where a type is expected: a block of that type and of its size stands behind the
mark, with the right check, and nothing but zeros behind it. -/
lemma exists_recorded_of_verifyBlock {payload : List UInt8} (he : Expects previous t)
    (h : verifyBlock (gapEndMark :: payload) previous gap th offset = []) :
    ∃ r : Recorded, ∃ zeros, payload = r.bytes ++ List.replicate zeros 0 ∧ r.IsIntact
      ∧ r.block.type? = some t
      ∧ Block.sizeOf t.code previous = some r.block.data.length := by
  obtain ⟨size, hsize, hpos⟩ := he.exists_sizeOf
  cases payload with
  | nil => simp [verifyBlock] at h
  | cons c rest =>
      have hparts := h
      simp only [verifyBlock, List.drop_succ_cons, List.drop_zero, List.append_eq_nil_iff] at hparts
      obtain ⟨⟨⟨htype, hspacing⟩, -⟩, -⟩ := hparts
      have hcode : (c.toNat : Int) = t.code := by
        rw [← he.expectedCode_eq]
        by_contra hne
        rw [if_neg hne] at htype
        simp at htype
      have hlen : size + 2 ≤ (c :: rest).length := by
        by_contra hlt
        rw [hcode, hsize, delimit, if_pos (by omega)] at hspacing
        simp at hspacing
      -- the block is long enough, so its faults are known one by one
      obtain ⟨r, hbytes, hr⟩ := Recorded.exists_bytes_eq
        (show ((c :: rest).take (size + 2)).length = size + 2 by rw [List.length_take]; omega)
      obtain ⟨c', data, hdata⟩ := List.exists_cons_of_length_pos
        (show 0 < r.block.data.length by omega)
      have hc : c' = c := by
        rw [Recorded.bytes, hdata, List.take_succ_cons, List.cons_append] at hbytes
        exact (List.cons.inj hbytes).1
      have hsplit : c :: rest = r.bytes ++ (c :: rest).drop (size + 2) := by
        rw [hbytes, List.take_append_drop]
      have hcode' : r.block.code = t.code := by
        rw [Block.code, hdata, hc]
        exact hcode
      rw [hsplit, verifyBlock_known (by rw [hdata]; simp) (by rw [hcode', hr]; exact hsize)] at h
      simp only [List.append_eq_nil_iff, Option.toList_eq_nil_iff] at h
      obtain ⟨⟨⟨-, htrailing⟩, hfault⟩, -⟩ := h
      refine ⟨r, ((c :: rest).drop (size + 2)).length, ?_, ?_, ?_, hr ▸ hsize⟩
      · rw [← trimZeros_eq_nil.mp]
        · exact hsplit
        · by_contra hne
          rw [if_neg (by simpa using hne)] at htrailing
          simp at htrailing
      · by_contra hne
        rw [Recorded.fault?, if_neg hne] at hfault
        simp at hfault
      · rw [Block.type?, hcode', BlockType.ofCode?_code]

end Recovery

end FamicomDisk
