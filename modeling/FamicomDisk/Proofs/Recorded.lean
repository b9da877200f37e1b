import FamicomDisk.Layout
import FamicomDisk.Proofs.Check
import Mathlib.Logic.Function.Iterate

/-!
Recorded sides.

A recorded block is a block together with the two bytes stored behind it, which need not be its
check. Its layout is that of a block (`framed_ofBlock`), so what is said of recorded blocks holds
of the layout that the library makes and of one whose checks were damaged.

* `Recorded`, `Recorded.fault?`, `layoutOf`: recorded blocks, what is wrong with one, and the
  layout of several.
* `IsStandard`, `HasTitle`: the order and the sizes of the blocks of a side, and the first bytes of
  every disk header.
* `emptySide`: the shortest standard side, and `oneFile`: one with a file.
* `lostCheck`, `Recorded.faultsFrom_lostCheck`: that side when its last check was lost.
* `InOrder`: the same order one block at a time, for every first part of a side
  (`IsStandard.inOrder`, `InOrder.of_prefix`).
-/

namespace FamicomDisk

/-- A block and the two bytes stored behind it. -/
structure Recorded where
  block : Block
  low : UInt8
  high : UInt8

namespace Recorded

/-- The block and its stored check. -/
def bytes (r : Recorded) : List UInt8 := r.block.data ++ [r.low, r.high]

/-- The layout of a recorded block. -/
def framed (r : Recorded) : List UInt8 := gapEndMark :: r.bytes ++ List.replicate Layout.gap 0

/-- The stored check is the right one. -/
def IsIntact (r : Recorded) : Prop := Bits.word r.low r.high = (Crc.of r.block.data).toNat

instance (r : Recorded) : Decidable r.IsIntact := inferInstanceAs (Decidable (_ = _))

/-- The fault of a block whose stored check is not the right one. -/
def fault? (r : Recorded) (offset : Nat) : Option BlockFault :=
  if r.IsIntact then none
  else some (.badCheck offset (Bits.word r.low r.high) (Crc.of r.block.data).toNat)

/-- A block with its right check. -/
def ofBlock (b : Block) : Recorded :=
  ⟨b, UInt8.ofNat (Crc.of b.data).toNat, UInt8.ofNat ((Crc.of b.data).toNat / 256)⟩

/-- The offsets of recorded blocks that take up `size` bytes each, the first one at `offset`. -/
def offsetsFrom (size : Recorded → Nat) (offset : Nat) : List Recorded → List Nat
  | [] => []
  | r :: rs => offset :: offsetsFrom size (offset + size r) rs

/-- The faults of recorded blocks that take up `size` bytes each, the first one at `offset`. -/
def faultsFrom (size : Recorded → Nat) (offset : Nat) : List Recorded → List BlockFault
  | [] => []
  | r :: rs => (r.fault? offset).toList ++ faultsFrom size (offset + size r) rs

@[simp] lemma length_bytes (r : Recorded) : r.bytes.length = r.block.data.length + 2 := by
  simp [bytes]

@[simp] lemma length_framed (r : Recorded) : r.framed.length = r.block.data.length + 124 := by
  simp [framed, Layout.gap]

/-- The check over a block and its stored check is zero exactly when this is right. -/
lemma of_bytes_eq_zero_iff (r : Recorded) : Crc.of r.bytes = 0 ↔ r.IsIntact :=
  Crc.of_append_stored r.block.data r.low r.high

/-- The stored check is right when its bytes are those of the check. -/
lemma isIntact_iff (r : Recorded) : r.IsIntact ↔ [r.low, r.high] = Crc.bytes r.block.data := by
  constructor
  · intro h
    rw [Crc.bytes, ← h, Bits.ofWord_word]
  · intro h
    obtain ⟨low, high, hbytes, hword⟩ := Crc.word_bytes r.block.data
    rw [hbytes, List.cons.injEq, List.cons.injEq] at h
    rw [IsIntact, h.1, h.2.1, hword]

lemma isIntact_ofBlock (b : Block) : (ofBlock b).IsIntact := (isIntact_iff _).mpr rfl

/-- The layout of a block is that of the block with its right check. -/
lemma framed_ofBlock (b : Block) : (ofBlock b).framed = Layout.framed b := rfl

/-- The walker's fault of a block is that of the recorded block. -/
lemma checkFault?_stored (r : Recorded) (offset : Nat) :
    Layout.checkFault? offset r.block.data [r.low, r.high] = r.fault? offset := by
  rw [Layout.checkFault?, fault?]
  have h := r.of_bytes_eq_zero_iff
  rw [bytes] at h
  by_cases hr : r.IsIntact
  · rw [if_pos (h.mpr hr), if_pos hr]
  · rw [if_neg (mt h.mp hr), if_neg hr]

lemma faultsFrom_eq_nil {size : Recorded → Nat} {rs : List Recorded} {offset : Nat}
    (h : ∀ r ∈ rs, r.IsIntact) : faultsFrom size offset rs = [] := by
  induction rs generalizing offset with
  | nil => rfl
  | cons r rs ih =>
      rw [faultsFrom, fault?, if_pos (h r (by simp)), ih fun x hx => h x (by simp [hx])]
      rfl

/-- Blocks with their right checks have no faults. -/
lemma faultsFrom_ofBlock (size : Recorded → Nat) (offset : Nat) (blocks : List Block) :
    faultsFrom size offset (blocks.map ofBlock) = [] := by
  refine faultsFrom_eq_nil ?_
  intro r hr
  obtain ⟨b, -, rfl⟩ := List.mem_map.mp hr
  exact isIntact_ofBlock b

lemma map_block_ofBlock (blocks : List Block) : (blocks.map ofBlock).map block = blocks := by
  rw [List.map_map]
  exact List.map_id blocks

end Recorded

/-- The layout of recorded blocks. -/
def layoutOf (rs : List Recorded) : List UInt8 := rs.flatMap Recorded.framed

@[simp] lemma layoutOf_cons (r : Recorded) (rs : List Recorded) :
    layoutOf (r :: rs) = r.framed ++ layoutOf rs := rfl

/-- The layout of a side is that of its blocks with their right checks. -/
lemma layoutOf_ofBlock (blocks : List Block) :
    layoutOf (blocks.map Recorded.ofBlock) = Layout.ofBlocks blocks := by
  rw [layoutOf, List.flatMap_map]
  exact congrArg (fun framed => blocks.flatMap framed) (funext Recorded.framed_ofBlock)

/-- A side has the layout of its blocks with their right checks, if there is room for it. -/
lemma frameIn_eq_ok_iff {room : Int} {side : Side} {layout : List UInt8} :
    Layout.frameIn room side = .ok layout
      ↔ layoutOf (side.blocks.map Recorded.ofBlock) = layout ∧ (layout.length : Int) ≤ room := by
  rw [layoutOf_ofBlock, Layout.frameIn]
  split
  · next hgt =>
    constructor
    · intro h
      cases h
    · rintro ⟨rfl, hle⟩
      omega
  · next hle =>
    constructor
    · intro h
      obtain rfl := Except.ok.inj h
      exact ⟨rfl, by omega⟩
    · rintro ⟨rfl, -⟩
      rfl

/-- A side has the layout of its blocks with their right checks, if that fits into a slot. -/
lemma frame_eq_ok_iff {side : Side} {layout : List UInt8} :
    Layout.frame side = .ok layout
      ↔ layoutOf (side.blocks.map Recorded.ofBlock) = layout
        ∧ layout.length ≤ Layout.capacity := by
  rw [Layout.frame, frameIn_eq_ok_iff, Int.ofNat_le]

/-! ### The blocks of a standard side -/

/-- Files: a header of sixteen bytes and as many bytes of data as it declares, for each. -/
inductive IsFiles : List Block → Prop where
  | nil : IsFiles []
  | file {header data : Block} {size : Nat} {rest : List Block}
      (header_type : header.type? = some .fileHeader) (header_length : header.data.length = 16)
      (declared : header.declaredSize? = some size)
      (data_type : data.type? = some .fileData) (data_length : data.data.length = 1 + size)
      (pairs : IsFiles rest) : IsFiles (header :: data :: rest)

/-- The blocks of a standard side: a disk header, a file count, and files. -/
inductive IsStandard : List Block → Prop where
  | side {header count : Block} {files : List Block}
      (header_type : header.type? = some .diskHeader) (header_length : header.data.length = 56)
      (count_type : count.type? = some .fileCount) (count_length : count.data.length = 2)
      (pairs : IsFiles files) : IsStandard (header :: count :: files)

/-- The first bytes of the disk headers in use. -/
def diskTitle : List UInt8 := [0x01, 0x2a, 0x4e, 0x49, 0x4e, 0x54]

/-- The first block begins as a disk header does. -/
def HasTitle (blocks : List Block) : Prop := ∃ b ∈ blocks.head?, diskTitle <+: b.data

/-- Blocks of the standard types and sizes, the first one of type `expected` and behind
`previous`. -/
def InOrder (expected : BlockType) (previous : Option Block) : List Block → Prop
  | [] => True
  | b :: bs =>
      b.type? = some expected ∧ Block.sizeOf expected.code previous = some b.data.length
        ∧ InOrder expected.next (some b) bs

/-- A disk header with nothing but the title. -/
def emptyHeader : Block := ⟨diskTitle ++ List.replicate 50 0⟩

/-- A side without files. -/
def emptySide : List Block := [emptyHeader, ⟨[2, 0]⟩]

lemma isStandard_emptySide : IsStandard emptySide := .side rfl rfl rfl rfl .nil

lemma frame_emptySide (leadIn : Option Int) :
    Layout.frame { blocks := emptySide, leadIn } = .ok (Layout.ofBlocks emptySide) :=
  frame_eq_ok_iff.mpr ⟨layoutOf_ofBlock _, by decide +kernel⟩

/-- The header of a file of one byte. -/
def byteHeader : Block := ⟨3 :: List.replicate 12 0x20 ++ [1, 0, 0]⟩

/-- The data of a file of one byte. -/
def byteData : Block := ⟨[4, 0x60]⟩

/-- A side with one file. -/
def oneFile : List Block := [emptyHeader, ⟨[2, 1]⟩, byteHeader, byteData]

lemma isStandard_oneFile : IsStandard oneFile :=
  .side rfl rfl rfl rfl (.file rfl rfl rfl rfl rfl .nil)

lemma hasTitle_oneFile : HasTitle oneFile := ⟨_, rfl, List.prefix_append _ _⟩

lemma frame_oneFile :
    Layout.frame { blocks := oneFile } = .ok (layoutOf (oneFile.map Recorded.ofBlock)) :=
  frame_eq_ok_iff.mpr ⟨rfl, by decide +kernel⟩

/-- A side with one file, of which the last check was lost. -/
def lostCheck : List Recorded :=
  [.ofBlock emptyHeader, .ofBlock ⟨[2, 1]⟩, .ofBlock byteHeader, ⟨byteData, 0, 0⟩]

/-- Only the last check is told. -/
lemma Recorded.faultsFrom_lostCheck (size : Recorded → Nat) (offset : Nat) :
    faultsFrom size offset lostCheck
      = [.badCheck ((offset + size (.ofBlock emptyHeader) + size (.ofBlock ⟨[2, 1]⟩)
          + size (.ofBlock byteHeader) : Nat)) 0 2186] := by
  have hlost : ¬ IsIntact ⟨byteData, 0, 0⟩ := by decide +kernel
  have hcheck : (Crc.of byteData.data).toNat = 2186 := by decide +kernel
  simp only [lostCheck, faultsFrom, fault?, if_pos (isIntact_ofBlock _), if_neg hlost, hcheck]
  rfl

/-- A side that begins as a disk header does has a first block. -/
lemma HasTitle.exists_cons {rs : List Recorded} (h : HasTitle (rs.map Recorded.block)) :
    ∃ r rs', rs = r :: rs' ∧ diskTitle <+: r.block.data := by
  obtain ⟨b, hb, htitle⟩ := h
  cases rs with
  | nil => simp at hb
  | cons r rs =>
      obtain rfl : r.block = b := by simpa using hb
      exact ⟨r, rs, rfl, htitle⟩

lemma IsFiles.inOrder {files : List Block} (h : IsFiles files) (previous : Option Block) :
    InOrder .fileHeader previous files := by
  induction h generalizing previous with
  | nil => trivial
  | @file header data size rest ht hl hs hd hn _ ih =>
      refine ⟨ht, ?_, hd, ?_, ih (some data)⟩
      · rw [hl]
        rfl
      · have hc : BlockType.ofCode? BlockType.fileHeader.next.code = some .fileData := rfl
        simp only [Block.sizeOf, hc]
        rw [if_pos ⟨ht, by omega⟩, hs, hn]
        rfl

lemma IsStandard.inOrder {blocks : List Block} (h : IsStandard blocks) :
    InOrder .diskHeader none blocks := by
  obtain ⟨ht, hl, hc, hn, hf⟩ := h
  refine ⟨ht, ?_, hc, ?_, hf.inOrder _⟩
  · rw [hl]
    rfl
  · rw [hn]
    rfl

/-- Behind a complete side the next block is a file header. -/
lemma IsFiles.next_iterate {files : List Block} (h : IsFiles files) :
    BlockType.next^[files.length] .fileHeader = .fileHeader := by
  induction h with
  | nil => rfl
  | file _ _ _ _ _ _ ih =>
      rw [List.length_cons, List.length_cons, Function.iterate_succ_apply,
        Function.iterate_succ_apply]
      exact ih

lemma IsStandard.next_iterate {blocks : List Block} (h : IsStandard blocks) :
    BlockType.next^[blocks.length] .diskHeader = .fileHeader := by
  obtain ⟨-, -, -, -, hf⟩ := h
  rw [List.length_cons, List.length_cons, Function.iterate_succ_apply, Function.iterate_succ_apply]
  exact hf.next_iterate

lemma IsStandard.two_le_length {blocks : List Block} (h : IsStandard blocks) :
    2 ≤ blocks.length := by
  obtain ⟨-, -, -, -, -⟩ := h
  simp

/-- A first part of blocks in order is in order. -/
lemma InOrder.of_prefix {expected : BlockType} {previous : Option Block} {xs ys : List Block}
    (h : InOrder expected previous ys) (hp : xs <+: ys) : InOrder expected previous xs := by
  obtain ⟨zs, rfl⟩ := hp
  induction xs generalizing expected previous with
  | nil => trivial
  | cons b xs ih => exact ⟨h.1, h.2.1, ih h.2.2⟩

lemma Block.code_of_type? {b : Block} {t : BlockType} (h : b.type? = some t) : b.code = t.code := by
  have hc : ∀ n : Int, BlockType.ofCode? n = some t → n = t.code := by
    intro n hn
    unfold BlockType.ofCode? at hn
    split at hn <;> first | (obtain rfl := Option.some.inj hn; rfl) | simp at hn
  exact hc b.code h

/-- The first byte of a block of a type is the code of the type. -/
lemma Block.exists_cons_of_type? {b : Block} {t : BlockType} (h : b.type? = some t) :
    ∃ c rest, b.data = c :: rest ∧ (c.toNat : Int) = t.code := by
  have hc := code_of_type? h
  rw [code] at hc
  cases hd : b.data with
  | nil =>
      rw [hd] at hc
      cases t <;> simp [BlockType.code] at hc
  | cons c rest =>
      rw [hd] at hc
      exact ⟨c, rest, rfl, hc⟩

end FamicomDisk
