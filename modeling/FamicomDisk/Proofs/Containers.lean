import FamicomDisk.DiskImage
import FamicomDisk.Proofs.Recorded
import FamicomDisk.Proofs.Sequencing

/-!
Disk images, read and written.

A reader of disk images tells the blocks of a side by their sizes alone: it looks at the first
bytes of the disk header and at the codes of the file headers, and takes what stands at the other
places as it is. These are the sized sides (`IsSized`), and on those that fit into an image the
reader undoes the writer: the zeros behind a side are no file header, and a side as long as its
place has none.

* `IsSizedFiles`, `IsSized`, `Side.IsStorable`: files and sides of the right sizes, and the sides
  that disk images hold.
* `Side.exists_parse`, `Side.parse_spaced`: what is enumerated is sized, and what is sized is
  enumerated, whatever bytes stand around the blocks and between them.
* `DiskImage.isStorable_of_read`: a reader finds storable sides only.
* `DiskImage.exists_read_write`: storable sides are read as they were written.
* `DiskImage.read_write`: **reading and writing are inverse** on all that is ever read.
-/

namespace FamicomDisk

/-! ### Sides by their sizes -/

lemma Block.declaredSize_eq_ok_iff {b : Block} {size : Nat} :
    b.declaredSize = .ok size ↔ b.declaredSize? = some size := by
  rw [declaredSize]
  cases b.declaredSize? <;> simp [pure, Except.pure]

/-- Files by their sizes: a header of sixteen bytes with its code, and as many bytes as it declares
behind any first byte. -/
inductive IsSizedFiles : List Block → Prop where
  | nil : IsSizedFiles []
  | file {header data : Block} {size : Nat} {rest : List Block}
      (header_type : header.type? = some .fileHeader) (header_length : header.data.length = 16)
      (declared : header.declaredSize? = some size) (data_length : data.data.length = 1 + size)
      (pairs : IsSizedFiles rest) : IsSizedFiles (header :: data :: rest)

/-- The blocks of a side by their sizes: a disk header with its first bytes, two bytes, and
files. -/
inductive IsSized : List Block → Prop where
  | side {header count : Block} {files : List Block} (signature : diskSignature <+: header.data)
      (header_length : header.data.length = 56) (count_length : count.data.length = 2)
      (pairs : IsSizedFiles files) : IsSized (header :: count :: files)

/-- A side that a disk image can hold. -/
structure Side.IsStorable (s : Side) : Prop where
  sized : IsSized s.blocks
  fits : s.content.length ≤ sideSize

lemma isSized_emptySide : IsSized emptySide := .side ⟨_, rfl⟩ rfl rfl .nil

lemma isStorable_emptySide : Side.IsStorable { blocks := emptySide } where
  sized := isSized_emptySide
  fits := by decide

lemma isStorable_oneFile : Side.IsStorable { blocks := oneFile } where
  sized := .side ⟨_, rfl⟩ rfl rfl (.file rfl rfl rfl rfl .nil)
  fits := by decide

/-- A side with one file whose data does not begin with the code of its type. -/
def unmarkedSide : List Block :=
  [emptyHeader, ⟨[2, 1]⟩, ⟨3 :: List.replicate 12 0x20 ++ [1, 0, 0]⟩, ⟨[5, 0xff]⟩]

lemma isSized_unmarkedSide : IsSized unmarkedSide :=
  .side ⟨_, rfl⟩ rfl rfl (.file rfl rfl rfl rfl .nil)

lemma isStorable_unmarkedSide : Side.IsStorable { blocks := unmarkedSide } where
  sized := isSized_unmarkedSide
  fits := by decide

namespace Side

/-! ### Enumerating blocks -/

lemma content_cons (b : Block) (bs : List Block) :
    content { blocks := b :: bs } = b.data ++ content { blocks := bs } := rfl

lemma takeBlock_eq_ok_iff {offset size : Nat} {rest : List UInt8} {b : Block} :
    takeBlock offset size rest = .ok b ↔ b.data = rest.take size ∧ b.data.length = size := by
  have hle : (rest.take size).length ≤ size := List.length_take_le ..
  rw [takeBlock]
  constructor
  · intro h
    split at h
    · cases h
    · obtain rfl := Except.ok.inj h
      exact ⟨rfl, by dsimp only at *; omega⟩
  · rintro ⟨hdata, hsize⟩
    rw [hdata] at hsize
    rw [if_neg (by omega), ← hdata]
    rfl

/-- The block that the data begins with. -/
lemma takeBlock_append (offset : Nat) {size : Nat} {b : Block} (h : b.data.length = size)
    (rest : List UInt8) : takeBlock offset size (b.data ++ rest) = .ok b :=
  takeBlock_eq_ok_iff.mpr ⟨(List.take_left' h).symm, h⟩

/-- A block that is taken is no longer than the data. -/
lemma length_le_of_takeBlock {offset size : Nat} {rest : List UInt8} {b : Block}
    (h : takeBlock offset size rest = .ok b) : b.data.length ≤ rest.length := by
  rw [(takeBlock_eq_ok_iff.mp h).1, List.length_take]
  exact Nat.min_le_right ..

/-- What is enumerated as files is sized, and no longer than the data. -/
lemma exists_parseFiles {trailer offset : Nat} {before blocks : List Block} {rest : List UInt8}
    (h : parseFiles trailer before offset rest = .ok blocks) :
    ∃ files, blocks = files.reverse ++ before ∧ IsSizedFiles files
      ∧ (content { blocks := files }).length ≤ rest.length := by
  fun_induction parseFiles trailer before offset rest with
  | case1 before offset tail ih =>
      obtain ⟨header, hheader, h⟩ := exists_of_bind_eq_ok h
      obtain ⟨size, hsize, h⟩ := exists_of_bind_eq_ok h
      obtain ⟨data, hdata, h⟩ := exists_of_bind_eq_ok h
      obtain ⟨files, rfl, hfiles, hlen⟩ := ih header size data h
      obtain ⟨htake, hlength⟩ := takeBlock_eq_ok_iff.mp hheader
      obtain ⟨htake', hlength'⟩ := takeBlock_eq_ok_iff.mp hdata
      have htype : header.type? = some .fileHeader := by
        rw [Block.type?, Block.code, htake]
        rfl
      have hdeclared := Block.declaredSize_eq_ok_iff.mp hsize
      refine ⟨header :: data :: files, by simp, .file htype hlength hdeclared hlength' hfiles, ?_⟩
      have hroom := length_le_of_takeBlock hheader
      have hroom' := length_le_of_takeBlock hdata
      rw [content_cons, content_cons, List.length_append, List.length_append]
      rw [List.length_drop] at hroom' hlen
      rw [List.length_drop] at hlen
      omega
  | case2 before offset rest =>
      obtain rfl := Except.ok.inj h
      exact ⟨[], rfl, .nil, Nat.zero_le _⟩

/-- Where no file header begins the files are over. -/
lemma parseFiles_end {trailer offset : Nat} {before : List Block} {rest : List UInt8}
    (h : rest.head? ≠ some 3) : parseFiles trailer before offset rest = .ok before := by
  rw [parseFiles]
  · rfl
  · rintro tail rfl
    exact h rfl

/-- What is enumerated as a side that begins as one does is sized, and no longer than the data. -/
lemma exists_parse {dat : List UInt8} {offset trailer : Nat} {side : Side}
    (h : parse dat offset trailer = .ok side) :
    side = { blocks := side.blocks } ∧ (diskSignature <+: dat.drop offset → IsSized side.blocks)
      ∧ side.content.length ≤ (dat.drop offset).length := by
  obtain ⟨header, hheader, h⟩ := exists_of_bind_eq_ok h
  obtain ⟨count, hcount, h⟩ := exists_of_bind_eq_ok h
  obtain ⟨blocks, hblocks, h⟩ := exists_of_bind_eq_ok h
  obtain rfl := Except.ok.inj h
  obtain ⟨files, rfl, hfiles, hlen⟩ := exists_parseFiles hblocks
  obtain ⟨htake, hlength⟩ := takeBlock_eq_ok_iff.mp hheader
  obtain ⟨htake', hlength'⟩ := takeBlock_eq_ok_iff.mp hcount
  have hwhole : (files.reverse ++ [count, header]).reverse = header :: count :: files := by simp
  rw [hwhole]
  refine ⟨rfl, fun hsignature => .side ?_ hlength hlength' hfiles, ?_⟩
  · rw [htake, List.prefix_take_iff]
    exact ⟨hsignature, by decide⟩
  · have hroom := length_le_of_takeBlock hheader
    have hroom' := length_le_of_takeBlock hcount
    rw [content_cons, content_cons, List.length_append, List.length_append]
    rw [List.length_drop] at hroom' hlen
    rw [List.length_drop] at hlen
    omega

section

variable {α : Type} {block : α → Block} {trail : α → List UInt8} {trailer : Nat}
  {behind : List UInt8} {xs : List α}

/-- Blocks one after the other, each with bytes of its own behind it. -/
def spaced (block : α → Block) (trail : α → List UInt8) (xs : List α) : List UInt8 :=
  xs.flatMap fun x => (block x).data ++ trail x

lemma spaced_cons (x : α) (xs : List α) :
    spaced block trail (x :: xs) = (block x).data ++ (trail x ++ spaced block trail xs) := by
  rw [spaced, List.flatMap_cons, List.append_assoc]
  rfl

/-- Blocks with nothing behind them are the content of a side. -/
lemma spaced_nil (blocks : List Block) :
    spaced id (fun _ => []) blocks = content { blocks } := by
  simp only [spaced, content, id_eq, List.append_nil]

/-- What stands behind a block and the bytes that are passed over with it. -/
lemma drop_block {b : Block} {skipped : List UInt8} {size : Nat} (hsize : b.data.length = size)
    (hskipped : skipped.length = trailer) (rest : List UInt8) :
    (b.data ++ (skipped ++ rest)).drop (size + trailer) = rest := by
  rw [← List.append_assoc, List.drop_left']
  rw [List.length_append, hsize, hskipped]

/-- Sized files are enumerated, whatever bytes are passed over behind each block, as long as no file
header begins behind them. -/
lemma parseFiles_spaced (hsized : IsSizedFiles (xs.map block))
    (htrail : ∀ x ∈ xs, (trail x).length = trailer) (hbehind : behind.head? ≠ some 3)
    (before : List Block) (offset : Nat) :
    parseFiles trailer before offset (spaced block trail xs ++ behind)
      = .ok ((xs.map block).reverse ++ before) := by
  generalize hblocks : xs.map block = blocks at hsized ⊢
  induction hsized generalizing xs before offset with
  | nil =>
      obtain rfl := List.map_eq_nil_iff.mp hblocks
      exact parseFiles_end hbehind
  | @file header data size rest htype hlength hdeclared hlength' _ ih =>
      obtain ⟨x, xs, rfl, rfl, hxs⟩ := List.map_eq_cons_iff.mp hblocks
      obtain ⟨y, ys, rfl, rfl, hys⟩ := List.map_eq_cons_iff.mp hxs
      obtain ⟨c, cs, hc, hcode⟩ := Block.exists_cons_of_type? htype
      have hthree : c = 3 := UInt8.toNat_inj.mp (Int.ofNat_inj.mp hcode)
      have hwhole : spaced block trail (x :: y :: ys) ++ behind
          = (block x).data ++ (trail x ++ ((block y).data
            ++ (trail y ++ (spaced block trail ys ++ behind)))) := by
        simp only [spaced_cons, List.append_assoc]
      obtain ⟨tail, htail⟩ : ∃ tail, spaced block trail (x :: y :: ys) ++ behind = 3 :: tail := by
        rw [hwhole, hc, hthree]
        exact ⟨_, rfl⟩
      rw [htail, parseFiles, ← htail, hwhole]
      simp only [takeBlock_append _ hlength, ok_bind, Block.declaredSize_eq_ok_iff.mpr hdeclared,
        drop_block hlength (htrail x (by simp)), takeBlock_append _ hlength',
        drop_block hlength' (htrail y (by simp))]
      rw [ih (fun z hz => htrail z (by simp [hz])) _ _ hys]
      simp

/-- A sized side is enumerated, whatever bytes stand before it and are passed over behind each
block, as long as no file header begins behind it. -/
lemma parse_spaced (hsized : IsSized (xs.map block))
    (htrail : ∀ x ∈ xs, (trail x).length = trailer) (hbehind : behind.head? ≠ some 3)
    (front : List UInt8) :
    parse (front ++ (spaced block trail xs ++ behind)) front.length trailer
      = .ok { blocks := xs.map block } := by
  generalize hblocks : xs.map block = blocks at hsized ⊢
  obtain @⟨header, count, files, -, hheader, hcount, hfiles⟩ := hsized
  obtain ⟨x, xs, rfl, rfl, hxs⟩ := List.map_eq_cons_iff.mp hblocks
  obtain ⟨y, ys, rfl, rfl, rfl⟩ := List.map_eq_cons_iff.mp hxs
  have hwhole : spaced block trail (x :: y :: ys) ++ behind
      = (block x).data ++ (trail x ++ ((block y).data
        ++ (trail y ++ (spaced block trail ys ++ behind)))) := by
    simp only [spaced_cons, List.append_assoc]
  rw [parse, List.drop_left, hwhole]
  simp only [takeBlock_append _ hheader, ok_bind, drop_block hheader (htrail x (by simp)),
    takeBlock_append _ hcount, drop_block hcount (htrail y (by simp)),
    parseFiles_spaced hfiles (fun z hz => htrail z (by simp [hz])) hbehind]
  simp [pure, Except.pure]

end

/-! ### A side and its bytes -/

/-- The bytes of a side in a disk image, if it fits. -/
def filled (s : Side) : List UInt8 :=
  s.content ++ List.replicate (sideSize - s.content.length) 0

lemma length_filled {s : Side} (h : s.content.length ≤ sideSize) : s.filled.length = sideSize := by
  rw [filled, List.length_append, List.length_replicate]
  omega

lemma toImage_eq {s : Side} (h : s.content.length ≤ sideSize) : s.toImage = .ok s.filled := by
  rw [toImage, if_pos h]
  rfl

/-- The bytes of a storable side begin as a side does. -/
lemma signature_prefix_filled {s : Side} (h : IsSized s.blocks) : diskSignature <+: s.filled := by
  obtain ⟨header, count, files, hsignature, hblocks⟩ :
      ∃ header count files, diskSignature <+: header.data
        ∧ s.blocks = header :: count :: files := by
    cases hs : s.blocks with
    | nil => rw [hs] at h; cases h
    | cons header rest =>
        rw [hs] at h
        cases h with
        | side hsignature => exact ⟨_, _, _, hsignature, rfl⟩
  have hcontent : s.content = header.data ++ content { blocks := count :: files } := by
    rw [content, hblocks]
    rfl
  rw [filled, hcontent, List.append_assoc]
  exact hsignature.trans (List.prefix_append ..)

end Side

namespace DiskImage

variable {dat : List UInt8} {sides : List Side} {i : Nat} {withHeader : Bool}

/-! ### Reading -/

lemma length_sideBytes (dat : List UInt8) (i : Nat) : (sideBytes dat i).length = sideSize := by
  have hle : ((dat.drop (i * sideSize)).take sideSize).length ≤ sideSize := List.length_take_le ..
  rw [sideBytes, List.length_append, List.length_replicate]
  omega

/-- What is read as a side is storable, and nothing but its blocks is known of it. -/
lemma isStorable_of_readSide {s : Side} (h : readSide dat i = .ok s) :
    s = { blocks := s.blocks } ∧ s.IsStorable := by
  rw [readSide] at h
  split at h
  · next hsignature =>
    have hprefix : diskSignature <+: sideBytes dat i := List.isPrefixOf_iff_prefix.mp hsignature
    split at h
    · cases h
    · obtain ⟨hs, hsized, hlen⟩ := Side.exists_parse h
      rw [List.drop_zero] at hsized hlen
      exact ⟨hs, hsized hprefix, length_sideBytes dat i ▸ hlen⟩
  · cases h

/-- The number of sides that are read, when a header tells a number or zero. -/
def sideCount (told : Nat) (behind : List UInt8) : Nat :=
  if told = 0 then (behind.length + sideSize - 1) / sideSize else told

/-- Behind the header there are as many sides as it tells, and at least one. -/
lemma read_of_splitHeader {told : Nat} {behind : List UInt8}
    (h : splitHeader dat = .ok (told, behind)) :
    read dat = if sideCount told behind = 0 then .error (.format .emptyImage)
      else (List.range (sideCount told behind)).mapM (readSide behind) := by
  rw [read, h]
  change (if sideCount told behind = 0 then _ else _) = _
  split <;> rfl

/-- **What is read**: the sides in their order, and there is at least one. -/
lemma read_eq_ok_iff :
    read dat = .ok sides ↔ ∃ told behind, splitHeader dat = .ok (told, behind)
      ∧ sides ≠ [] ∧ sides.length = sideCount told behind
      ∧ ∀ (i : Nat) (s : Side), sides[i]? = some s → readSide behind i = .ok s := by
  constructor
  · intro h
    obtain ⟨⟨told, behind⟩, hsplit, -⟩ := exists_of_bind_eq_ok h
    rw [read_of_splitHeader hsplit] at h
    split at h
    · cases h
    · next hcount =>
      obtain ⟨hlen, hget⟩ := mapM_range_eq_ok_iff.mp h
      exact ⟨told, behind, hsplit, List.ne_nil_of_length_pos (by omega), hlen, hget⟩
  · rintro ⟨told, behind, hsplit, hne, hlen, hget⟩
    have hpos := List.length_pos_of_ne_nil hne
    rw [read_of_splitHeader hsplit, if_neg (by omega)]
    exact mapM_range_eq_ok_iff.mpr ⟨hlen, hget⟩

/-- **A reader finds storable sides only**, and at least one. -/
lemma isStorable_of_read (h : read dat = .ok sides) :
    sides ≠ [] ∧ ∀ s ∈ sides, s = { blocks := s.blocks } ∧ s.IsStorable := by
  obtain ⟨told, behind, -, hne, -, hget⟩ := read_eq_ok_iff.mp h
  refine ⟨hne, fun s hs => ?_⟩
  obtain ⟨i, hi⟩ := List.mem_iff_getElem?.mp hs
  exact isStorable_of_readSide (hget i s hi)

/-! ### Writing and reading back -/

/-- A storable side is read from its bytes. -/
lemma readSide_filled {s : Side} (hs : s.IsStorable) (h : sideBytes dat i = s.filled) :
    readSide dat i = .ok { blocks := s.blocks } := by
  have hbehind : (List.replicate (sideSize - s.content.length) (0 : UInt8)).head? ≠ some 3 := by
    rw [List.head?_replicate]
    split <;> simp
  have hparse : Side.parse s.filled 0 0 = .ok { blocks := s.blocks } := by
    have h := @Side.parse_spaced _ id (fun _ => []) 0 _ s.blocks
      ((List.map_id s.blocks).symm ▸ hs.sized) (fun _ _ => rfl) hbehind []
    rwa [Side.spaced_nil, List.map_id, List.nil_append] at h
  rw [readSide, h, if_pos (List.isPrefixOf_iff_prefix.mpr (Side.signature_prefix_filled hs.sized)),
    hparse]

lemma mapM_toImage (hfits : ∀ s ∈ sides, s.content.length ≤ sideSize) :
    sides.mapM Side.toImage = .ok (sides.map Side.filled) := by
  rw [mapM_eq_ok_iff, List.forall₂_map_right_iff, List.forall₂_same]
  exact fun s hs => Side.toImage_eq (hfits s hs)

/-- The bytes of a disk image, for sides that fit. -/
lemma exists_write (hfits : ∀ s ∈ sides, s.content.length ≤ sideSize)
    (hcount : withHeader = true → sides.length ≤ 255) :
    ∃ start, write sides withHeader = .ok (start ++ (sides.map Side.filled).flatten)
      ∧ (if withHeader then header sides.length else .ok []) = .ok start := by
  obtain ⟨start, hstart⟩ :
      ∃ start, (if withHeader then header sides.length else .ok []) = .ok start := by
    cases withHeader with
    | false => exact ⟨[], rfl⟩
    | true => exact ⟨_, if_pos (Nat.lt_succ_of_le (hcount rfl))⟩
  refine ⟨start, ?_, hstart⟩
  rw [write, mapM_toImage hfits]
  cases withHeader with
  | false =>
      obtain rfl := Except.ok.inj hstart
      rfl
  | true =>
      rw [if_pos rfl] at hstart ⊢
      rw [hstart]
      rfl

/-- A header is taken off and tells the number of sides. -/
lemma splitHeader_header {count : Nat} {start : List UInt8} (h : header count = .ok start)
    (rest : List UInt8) : splitHeader (start ++ rest) = .ok (count, rest) := by
  rw [header] at h
  split at h
  · next hlt =>
    obtain rfl := Except.ok.inj h
    have hcount : (UInt8.ofNat count).toNat = count := UInt8.toNat_ofNat_of_lt' hlt
    conv_rhs => rw [← hcount]
    rfl
  · cases h

/-- Where a side begins there is no header. -/
lemma splitHeader_of_signature (h : diskSignature <+: dat) : splitHeader dat = .ok (0, dat) := by
  obtain ⟨rest, rfl⟩ := h
  rfl

lemma sideBytes_flatten {s : Side} (hfits : ∀ s ∈ sides, s.content.length ≤ sideSize)
    (hs : sides[i]? = some s) : sideBytes (sides.map Side.filled).flatten i = s.filled := by
  have hlen : ∀ bytes ∈ sides.map Side.filled, bytes.length = sideSize :=
    List.forall_mem_map.mpr fun s hs => Side.length_filled (hfits s hs)
  have hbytes := take_drop_flatten hlen (List.getElem?_map.trans (congrArg _ hs))
  rw [sideBytes, hbytes, hlen _ (List.mem_map_of_mem (List.mem_of_getElem? hs)), Nat.sub_self]
  exact List.append_nil _

/-- **Storable sides are read as they were written.** Of their blocks nothing is lost; what else is
known of a side is not written. -/
lemma exists_read_write (withHeader : Bool) (hne : sides ≠ []) (hsides : ∀ s ∈ sides, s.IsStorable)
    (hcount : withHeader = true → sides.length ≤ 255) :
    ∃ dat, write sides withHeader = .ok dat
      ∧ read dat = .ok (sides.map fun s => { blocks := s.blocks }) := by
  have hfits : ∀ s ∈ sides, s.content.length ≤ sideSize := fun s hs => (hsides s hs).fits
  have hpos := List.length_pos_of_ne_nil hne
  obtain ⟨start, hwrite, hstart⟩ := exists_write hfits hcount
  refine ⟨_, hwrite, ?_⟩
  obtain ⟨told, hsplit, htold⟩ : ∃ told,
      splitHeader (start ++ (sides.map Side.filled).flatten)
        = .ok (told, (sides.map Side.filled).flatten)
      ∧ sides.length = sideCount told (sides.map Side.filled).flatten := by
    cases withHeader with
    | true =>
        refine ⟨_, splitHeader_header hstart _, ?_⟩
        rw [sideCount, if_neg (by omega)]
    | false =>
        obtain rfl := Except.ok.inj hstart
        obtain ⟨s, rest, rfl⟩ := List.exists_cons_of_ne_nil hne
        have hbegin : diskSignature <+: (List.map Side.filled (s :: rest)).flatten :=
          (Side.signature_prefix_filled (hsides s (by simp)).sized).trans (List.prefix_append ..)
        refine ⟨0, splitHeader_of_signature hbegin, ?_⟩
        have hlen := length_flatten_of_forall
          (List.forall_mem_map.mpr fun s hs => Side.length_filled (hfits s hs))
        have hsize : sideSize = 65500 := rfl
        rw [sideCount, if_pos rfl, hlen, List.length_map, hsize]
        omega
  refine read_eq_ok_iff.mpr ⟨told, _, hsplit, by simpa using hne, by simpa using htold, ?_⟩
  intro i s' hs'
  rw [List.getElem?_map, Option.map_eq_some_iff] at hs'
  obtain ⟨s, hs, rfl⟩ := hs'
  exact readSide_filled (hsides s (List.mem_of_getElem? hs)) (sideBytes_flatten hfits hs)

/-- **Reading and writing are inverse** on all that is ever read. The sides that are read from any
bytes are storable; storable sides that are written, with or without a header, are read again with
the same blocks, and sides that were read are read again as they are. -/
theorem read_write :
    (∀ dat sides, read dat = .ok sides → sides ≠ [] ∧ ∀ s ∈ sides, s.IsStorable)
      ∧ (∀ (sides : List Side) (withHeader : Bool), sides ≠ [] → (∀ s ∈ sides, s.IsStorable) →
          (withHeader = true → sides.length ≤ 255) →
          ∃ dat, write sides withHeader = .ok dat
            ∧ read dat = .ok (sides.map fun s => { blocks := s.blocks }))
      ∧ ∀ (dat : List UInt8) (sides : List Side) (withHeader : Bool), read dat = .ok sides →
          (withHeader = true → sides.length ≤ 255) →
          ∃ dat', write sides withHeader = .ok dat' ∧ read dat' = .ok sides := by
  refine ⟨fun dat sides h => ?_, fun sides withHeader => exists_read_write withHeader, ?_⟩
  · obtain ⟨hne, hsides⟩ := isStorable_of_read h
    exact ⟨hne, fun s hs => (hsides s hs).2⟩
  · intro dat sides withHeader h hcount
    obtain ⟨hne, hsides⟩ := isStorable_of_read h
    obtain ⟨dat', hwrite, hread⟩ :=
      exists_read_write withHeader hne (fun s hs => (hsides s hs).2) hcount
    have hsame : (sides.map fun s => ({ blocks := s.blocks } : Side)) = sides :=
      (List.map_congr_left fun s hs => (hsides s hs).1.symm).trans (List.map_id sides)
    exact ⟨dat', hwrite, hsame ▸ hread⟩

/-- A side whose file data has a code of its own, in an image with a header and then in one
without. -/
theorem read_write_unmarkedSide : ∃ dat, write [{ blocks := unmarkedSide }] true = .ok dat
    ∧ read dat = .ok [{ blocks := unmarkedSide }]
    ∧ (∀ s ∈ [({ blocks := unmarkedSide } : Side)], s.IsStorable)
    ∧ ∃ dat', write [{ blocks := unmarkedSide }] false = .ok dat'
      ∧ read dat' = .ok [{ blocks := unmarkedSide }] := by
  obtain ⟨hstorable, hwritten, hread⟩ := read_write
  obtain ⟨dat, hwrite, hdat⟩ := hwritten [{ blocks := unmarkedSide }] true (by simp)
    (by simpa using isStorable_unmarkedSide) (by simp)
  exact ⟨dat, hwrite, hdat, (hstorable dat _ hdat).2, hread dat _ false hdat (by simp)⟩

end DiskImage

end FamicomDisk
