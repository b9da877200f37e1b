import FamicomDisk.Proofs.Containers
import FamicomDisk.Proofs.Walking

/-!
From a disk image to layouts and back.

The reader of disk images takes the first block behind the disk header for the file count, and what
stands behind a file header for file data, whatever codes they begin with. The walker over a layout
does not: at the first block that has not the code of its type it stops, with a fault that is not
written. So on the way from a disk image to its layouts and back such a block is lost with all that
stands behind it, and zeros are read in its place.

* `leftFrom`: what is left of the blocks of a side.
* `leftFrom_eq_self_iff`: nothing is lost exactly when each block has the code of its type, but for
  zeros at the end.
* `Layout.exists_walk_ofBlocks`: what the walker finds in the layout of a sized side.
* `DiskImage.read_ofLayouts_toLayouts`: **what is read of a disk image that went through layouts**.
* `DiskImage.not_forall_read_ofLayouts`: some disk images lose blocks.
-/

namespace FamicomDisk

/-! ### What is left of a side -/

/-- What is left of blocks when the first one should be of type `expected`: those up to the first
that is not of its type, and zeros in the place of that one. -/
def leftFrom (expected : BlockType) : List Block → List Block
  | [] => []
  | b :: bs =>
      if b.type? = some expected then b :: leftFrom expected.next bs
      else [⟨List.replicate b.data.length 0⟩]

/-- **Nothing is lost** exactly when every block is of the type of its place, or the last one and
all zeros. -/
lemma leftFrom_eq_self_iff (t : BlockType) (bs : List Block) :
    leftFrom t bs = bs ↔ ∀ (i : Nat) (b : Block), bs[i]? = some b →
      b.type? = some (BlockType.next^[i] t) ∨ (i + 1 = bs.length ∧ ∀ x ∈ b.data, x = 0) := by
  induction bs generalizing t with
  | nil => simp [leftFrom]
  | cons first bs ih =>
      rw [leftFrom]
      split
      · next htype =>
        rw [List.cons_inj_right, ih]
        constructor
        · intro h i b hb
          cases i with
          | zero =>
              obtain rfl : first = b := by simpa using hb
              exact .inl htype
          | succ i => simpa using h i b (by simpa using hb)
        · intro h i b hb
          simpa using h (i + 1) b (by simpa using hb)
      · next htype =>
        constructor
        · intro h i b hb
          obtain ⟨hfirst, rfl⟩ := List.cons.inj h
          obtain ⟨rfl, rfl⟩ : i = 0 ∧ first = b := by
            cases i with
            | zero => simpa using hb
            | succ i => simp at hb
          rw [← hfirst]
          exact .inr ⟨rfl, fun x hx => (List.mem_replicate.mp hx).2⟩
        · intro h
          rcases h 0 first rfl with h0 | ⟨hlen, hzero⟩
          · exact absurd h0 htype
          · obtain rfl : bs = [] := by simpa using hlen.symm
            rw [← List.eq_replicate_of_mem hzero]

lemma length_content_leftFrom_le (t : BlockType) (bs : List Block) :
    (Side.content { blocks := leftFrom t bs }).length
      ≤ (Side.content { blocks := bs }).length := by
  induction bs generalizing t with
  | nil => exact Nat.le_refl _
  | cons b bs ih =>
      rw [leftFrom]
      split
      · rw [Side.content_cons, Side.content_cons, List.length_append, List.length_append]
        exact Nat.add_le_add_left (ih t.next) _
      · rw [Side.content_cons, Side.content_cons, List.length_append, List.length_append,
          List.length_replicate]
        exact Nat.le_add_right _ _

/-- What is left of files is sized as they are: zeros may stand for data, but not for a header. -/
lemma isSizedFiles_leftFrom {files : List Block} (h : IsSizedFiles files) :
    IsSizedFiles (leftFrom .fileHeader files) := by
  induction h with
  | nil => exact .nil
  | @file header data size rest htype hlength hdeclared hlength' _ ih =>
      rw [leftFrom, if_pos htype, leftFrom]
      split
      · exact .file htype hlength hdeclared hlength' ih
      · exact .file htype hlength hdeclared (by rw [List.length_replicate, hlength']) .nil

lemma type?_of_signature {b : Block} (h : diskSignature <+: b.data) :
    b.type? = some .diskHeader := by
  obtain ⟨rest, hdata⟩ := h
  rw [Block.type?, Block.code, ← hdata]
  rfl

/-- What is left of a side is sized. -/
lemma isSized_leftFrom {blocks : List Block} (h : IsSized blocks) :
    IsSized (leftFrom .diskHeader blocks) := by
  obtain @⟨header, count, files, hsignature, hheader, hcount, hfiles⟩ := h
  rw [leftFrom, if_pos (type?_of_signature hsignature), leftFrom]
  split
  · exact .side hsignature hheader hcount (isSizedFiles_leftFrom hfiles)
  · exact .side hsignature hheader (by rw [List.length_replicate, hcount]) .nil

/-- What is left of a storable side is storable. -/
lemma isStorable_leftFrom {s : Side} (hs : s.IsStorable) :
    Side.IsStorable { blocks := leftFrom .diskHeader s.blocks } where
  sized := isSized_leftFrom hs.sized
  fits := Nat.le_trans (length_content_leftFrom_le .diskHeader s.blocks) hs.fits

/-! ### Walking over the layout of a sized side -/

/-- Blocks of the sizes that are expected when the first one should be of type `expected`, and comes
behind `previous`. -/
def SizesFrom (expected : BlockType) (previous : Option Block) : List Block → Prop
  | [] => True
  | b :: bs =>
      (b.data ≠ [] ∧ Block.sizeOf expected.code previous = some b.data.length)
        ∧ SizesFrom expected.next (some b) bs

lemma IsSizedFiles.sizesFrom {files : List Block} (h : IsSizedFiles files)
    (previous : Option Block) : SizesFrom .fileHeader previous files := by
  induction h generalizing previous with
  | nil => trivial
  | @file header data size rest htype hlength hdeclared hlength' _ ih =>
      have hcode : BlockType.ofCode? BlockType.fileHeader.next.code = some .fileData := rfl
      have hsize : Block.sizeOf BlockType.fileHeader.next.code (some header)
          = some data.data.length := by
        simp only [Block.sizeOf, hcode]
        rw [if_pos ⟨htype, by omega⟩, hdeclared, hlength']
        rfl
      refine ⟨⟨List.ne_nil_of_length_pos (by omega), by rw [hlength]; rfl⟩,
        ⟨List.ne_nil_of_length_pos (by omega), hsize⟩, ih (some data)⟩

lemma IsSized.sizesFrom {blocks : List Block} (h : IsSized blocks) :
    SizesFrom .diskHeader none blocks := by
  obtain @⟨header, count, files, -, hheader, hcount, hfiles⟩ := h
  exact ⟨⟨List.ne_nil_of_length_pos (by omega), by rw [hheader]; rfl⟩,
    ⟨List.ne_nil_of_length_pos (by omega), by rw [hcount]; rfl⟩, hfiles.sizesFrom _⟩

namespace Layout

section

variable {expected : BlockType} {previous : Option Block} {offset offset' : Nat}
  {rest body : List UInt8}

/-- A block of another type ends the walk. -/
lemma exists_walkFrom_otherType (found : Findings)
    (h : skipZeros offset rest = (offset', gapEndMark :: body))
    (hcode : ((body.headD 0).toNat : Int) ≠ expected.code) :
    ∃ found', walkFrom found expected previous offset rest = .ok found'
      ∧ found'.blocks = found.blocks := by
  rw [walkFrom]
  split <;> rename_i e <;> rw [h] at e
  · simp at e
  · simp only [Prod.mk.injEq, List.cons.injEq] at e
    obtain ⟨rfl, rfl, rfl⟩ := e
    rw [if_neg (not_not.mpr rfl), if_pos hcode]
    split
    · exact ⟨_, rfl, rfl⟩
    · exact ⟨_, rfl, rfl⟩

end

/-- The code of a block that does not have the type expected is another one. -/
lemma code_ne_of_type?_ne {b : Block} {t : BlockType} (hne : b.data ≠ []) (h : b.type? ≠ some t)
    (behind : List UInt8) : (((b.data ++ behind).headD 0).toNat : Int) ≠ t.code := by
  obtain ⟨c, cs, hdata⟩ := List.exists_cons_of_ne_nil hne
  rintro hcode
  rw [hdata] at hcode
  refine h ?_
  rw [Block.type?, Block.code, hdata, ← BlockType.ofCode?_code t, ← hcode]
  rfl

/-- **What the walker finds** in the layout of sized blocks is what is left of them, but for
zeros. -/
lemma exists_walkFrom_ofBlocks {blocks : List Block} {expected : BlockType}
    {previous : Option Block} (h : SizesFrom expected previous blocks) (found : Findings)
    (offset before : Nat) :
    ∃ found' kept n,
      walkFrom found expected previous offset
          (List.replicate before 0 ++ layoutOf (blocks.map Recorded.ofBlock)) = .ok found'
        ∧ found'.blocks = kept.reverse ++ found.blocks
        ∧ Side.content { blocks := leftFrom expected blocks }
          = Side.content { blocks := kept } ++ List.replicate n 0 := by
  induction blocks generalizing found expected previous offset before with
  | nil =>
      have hend : skipZeros offset (List.replicate before 0 ++ layoutOf [])
          = (offset + before, []) :=
        (congrArg _ (List.append_nil _)).trans (skipZeros_zeros offset before)
      exact ⟨found, [], 0, walkFrom_end hend, rfl, rfl⟩
  | cons b bs ih =>
      obtain ⟨⟨hne, hsize⟩, hrest⟩ := h
      have hlayout : layoutOf ((b :: bs).map Recorded.ofBlock)
          = gapEndMark :: ((Recorded.ofBlock b).bytes
            ++ (List.replicate gap 0 ++ layoutOf (bs.map Recorded.ofBlock))) := by
        rw [List.map_cons, layoutOf_cons, Recorded.framed]
        simp only [List.cons_append, List.append_assoc]
      rw [hlayout, leftFrom]
      split
      · next htype =>
        rw [walkFrom_block (skipZeros_mark offset before _) (List.prefix_append ..) htype hsize,
          List.drop_left]
        obtain ⟨found', kept, n, hwalk, hblocks, hcontent⟩ := ih hrest
          ((found.addFault? ((Recorded.ofBlock b).fault? (offset + before))).addBlock b)
          (offset + before + 1 + (Recorded.ofBlock b).bytes.length) gap
        refine ⟨found', b :: kept, n, hwalk, ?_, ?_⟩
        · rw [hblocks, List.reverse_cons, List.append_assoc]
          cases (Recorded.ofBlock b).fault? (offset + before) <;> rfl
        · rw [Side.content_cons, Side.content_cons, hcontent, List.append_assoc]
      · next htype =>
        have hcode := code_ne_of_type?_ne hne htype
          ([(Recorded.ofBlock b).low, (Recorded.ofBlock b).high]
            ++ (List.replicate gap 0 ++ layoutOf (bs.map Recorded.ofBlock)))
        rw [← List.append_assoc] at hcode
        obtain ⟨found', hwalk, hblocks⟩ :=
          exists_walkFrom_otherType found (skipZeros_mark offset before _) hcode
        refine ⟨found', [], b.data.length, hwalk, hblocks, ?_⟩
        simp [Side.content]

/-- Written to a disk image, the side that is walked back from the layout of a storable one has the
bytes of what is left of that. -/
lemma exists_walk_ofBlocks {s : Side} (hs : s.IsStorable) :
    ∃ walked, walk (ofBlocks s.blocks) = .ok walked ∧ walked.content.length ≤ sideSize
      ∧ walked.filled = Side.filled { blocks := leftFrom .diskHeader s.blocks } := by
  obtain ⟨found, kept, n, hwalk, hblocks, hcontent⟩ :=
    exists_walkFrom_ofBlocks hs.sized.sizesFrom {} 0 0
  have hwhole : walk (ofBlocks s.blocks)
      = .ok { found.toSide with layout := some (ofBlocks s.blocks) } := by
    rw [walk, ← layoutOf_ofBlock]
    rw [List.replicate_zero, List.nil_append] at hwalk
    rw [hwalk]
    rfl
  have hkept : Side.content { found.toSide with layout := some (ofBlocks s.blocks) }
      = Side.content { blocks := kept } := by
    rw [Side.content, Findings.toSide, hblocks]
    simp [Side.content]
  have hfits : (Side.content { blocks := kept }).length + n ≤ sideSize := by
    have hle := (isStorable_leftFrom hs).fits
    rwa [hcontent, List.length_append, List.length_replicate] at hle
  refine ⟨_, hwhole, by rw [hkept]; omega, ?_⟩
  rw [Side.filled, Side.filled, hkept, hcontent, List.append_assoc, List.length_append,
    List.length_replicate, List.replicate_append_replicate]
  congr 2
  omega

end Layout

namespace DiskImage

variable {dat : List UInt8} {sides : List Side}

/-! ### There and back -/

/-- The sides that are walked back from layouts have the bytes of what is left of the sides. -/
lemma exists_mapM_walk (hsides : ∀ s ∈ sides, s.IsStorable) :
    ∃ walked, (sides.map fun s => Layout.ofBlocks s.blocks).mapM (Layout.walk ·) = .ok walked
      ∧ (∀ w ∈ walked, w.content.length ≤ sideSize)
      ∧ walked.map Side.filled
        = sides.map fun s => Side.filled { blocks := leftFrom .diskHeader s.blocks } := by
  induction sides with
  | nil => exact ⟨[], rfl, by simp, rfl⟩
  | cons s sides ih =>
      obtain ⟨w, hw, hfits, hfilled⟩ := Layout.exists_walk_ofBlocks (hsides s (by simp))
      obtain ⟨walked, hwalked, hall, hmap⟩ := ih fun z hz => hsides z (by simp [hz])
      refine ⟨w :: walked, ?_, ?_, ?_⟩
      · rw [List.map_cons, List.mapM_cons, hw, ok_bind, hwalked]
        rfl
      · intro z hz
        rcases List.mem_cons.mp hz with rfl | hz
        · exact hfits
        · exact hall z hz
      · rw [List.map_cons, List.map_cons, hfilled, hmap]

/-- Sides with the same bytes are written as the same disk image. -/
lemma write_congr {sides' : List Side} (hfits : ∀ s ∈ sides, s.content.length ≤ sideSize)
    (hfits' : ∀ s ∈ sides', s.content.length ≤ sideSize)
    (h : sides.map Side.filled = sides'.map Side.filled) (withHeader : Bool) :
    write sides withHeader = write sides' withHeader := by
  have hlen : sides.length = sides'.length := by simpa using congrArg List.length h
  rw [write, write, mapM_toImage hfits, mapM_toImage hfits', h, hlen]

/-- **What is read of sides that went through layouts** is what is left of them. -/
lemma exists_read_ofLayouts (withHeader : Bool) (hne : sides ≠ [])
    (hsides : ∀ s ∈ sides, s.IsStorable) (hcount : withHeader = true → sides.length ≤ 255) :
    ∃ back, ofLayouts (sides.map fun s => Layout.ofBlocks s.blocks) withHeader = .ok back
      ∧ read back = .ok (sides.map fun s => { blocks := leftFrom .diskHeader s.blocks }) := by
  have hleft : ∀ s ∈ sides.map fun s => ({ blocks := leftFrom .diskHeader s.blocks } : Side),
      s.IsStorable := List.forall_mem_map.mpr fun s hs => isStorable_leftFrom (hsides s hs)
  obtain ⟨walked, hwalked, hfits, hfilled⟩ := exists_mapM_walk hsides
  obtain ⟨back, hwrite, hread⟩ :=
    exists_read_write withHeader (by simpa using hne) hleft (by simpa using hcount)
  rw [List.map_map] at hread
  refine ⟨back, ?_, hread⟩
  calc ofLayouts (sides.map fun s => Layout.ofBlocks s.blocks) withHeader
      = write walked withHeader := by rw [ofLayouts, hwalked, ok_bind]
    _ = write (sides.map fun s => { blocks := leftFrom .diskHeader s.blocks }) withHeader :=
        write_congr hfits (fun s hs => (hleft s hs).fits)
          (by rw [hfilled, List.map_map]; rfl) withHeader
    _ = .ok back := hwrite

/-- The layouts of the sides of a disk image, if they fit into slots. -/
lemma toLayouts_eq (hread : read dat = .ok sides)
    (hfits : ∀ s ∈ sides, (Layout.ofBlocks s.blocks).length ≤ Layout.capacity) :
    toLayouts dat = .ok (sides.map fun s => Layout.ofBlocks s.blocks) := by
  rw [toLayouts, hread, ok_bind, mapM_eq_ok_iff, List.forall₂_map_right_iff, List.forall₂_same]
  exact fun s hs => frame_eq_ok_iff.mpr ⟨layoutOf_ofBlock s.blocks, hfits s hs⟩

/-- **What is read of a disk image that went through layouts**: of each side the blocks up to the
first one that has not the code of its type, and zeros in the place of that one. So nothing is lost
exactly when each block has the code of its type, but for a last one that is all zeros. -/
theorem read_ofLayouts_toLayouts (hread : read dat = .ok sides)
    (hfits : ∀ s ∈ sides, (Layout.ofBlocks s.blocks).length ≤ Layout.capacity) :
    ∃ layouts back, toLayouts dat = .ok layouts ∧ ofLayouts layouts false = .ok back
      ∧ read back = .ok (sides.map fun s => { blocks := leftFrom .diskHeader s.blocks })
      ∧ ((sides.map fun s => leftFrom .diskHeader s.blocks) = sides.map Side.blocks
        ↔ ∀ s ∈ sides, ∀ (i : Nat) (b : Block), s.blocks[i]? = some b →
          b.type? = some (BlockType.next^[i] .diskHeader)
            ∨ (i + 1 = s.blocks.length ∧ ∀ x ∈ b.data, x = 0)) := by
  obtain ⟨hne, hsides⟩ := isStorable_of_read hread
  obtain ⟨back, hback, hagain⟩ := exists_read_ofLayouts false hne
    (fun s hs => (hsides s hs).2) nofun
  refine ⟨_, back, toLayouts_eq hread hfits, hback, hagain, ?_⟩
  rw [List.map_inj_left]
  exact forall₂_congr fun s _ => leftFrom_eq_self_iff .diskHeader s.blocks

set_option maxRecDepth 20000 in
/-- The file data of a side is lost, and that of the side before it, which has none, is not. -/
theorem read_ofLayouts_toLayouts_unmarkedSide : ∃ dat layouts back,
    read dat = .ok [{ blocks := emptySide }, { blocks := unmarkedSide }]
      ∧ toLayouts dat = .ok layouts ∧ ofLayouts layouts false = .ok back
      ∧ read back = .ok [{ blocks := emptySide },
        { blocks := unmarkedSide.take 3 ++ [⟨[0, 0]⟩] }] := by
  have hstorable : ∀ s ∈ [({ blocks := emptySide } : Side), { blocks := unmarkedSide }],
      s.IsStorable := by
    simpa using ⟨isStorable_emptySide, isStorable_unmarkedSide⟩
  obtain ⟨dat, -, hread⟩ := exists_read_write false (by simp) hstorable nofun
  obtain ⟨layouts, back, hlayouts, hback, hagain, -⟩ := read_ofLayouts_toLayouts hread (by decide)
  exact ⟨dat, layouts, back, hread, hlayouts, hback, hagain⟩

set_option maxRecDepth 20000 in
/-- **Some disk images lose blocks**: a side whose file data begins with another code than that of
its type is read from an image and fits into a slot, but its data is not read again. -/
theorem not_forall_read_ofLayouts :
    ¬ ∀ (dat : List UInt8) (sides : List Side), read dat = .ok sides →
      (∀ s ∈ sides, (Layout.ofBlocks s.blocks).length ≤ Layout.capacity) →
      ∃ layouts back sides', toLayouts dat = .ok layouts ∧ ofLayouts layouts false = .ok back
        ∧ read back = .ok sides' ∧ sides'.map Side.blocks = sides.map Side.blocks := by
  intro h
  have hstorable : ∀ s ∈ [({ blocks := unmarkedSide } : Side)], s.IsStorable := by
    simpa using isStorable_unmarkedSide
  obtain ⟨dat, -, hread⟩ := exists_read_write false (by simp) hstorable nofun
  have hfits : ∀ s ∈ [({ blocks := unmarkedSide } : Side)],
      (Layout.ofBlocks s.blocks).length ≤ Layout.capacity := by decide
  obtain ⟨layouts, back, sides', hlayouts, hback, hagain, hsame⟩ := h dat _ hread hfits
  obtain ⟨back', hback', hleft⟩ :=
    exists_read_ofLayouts false (by simp) hstorable nofun
  obtain rfl := Except.ok.inj (hlayouts.symm.trans (toLayouts_eq hread hfits))
  obtain rfl := Except.ok.inj (hback.symm.trans hback')
  obtain rfl := Except.ok.inj (hagain.symm.trans hleft)
  have hleft : leftFrom .diskHeader unmarkedSide = unmarkedSide := (List.cons.inj hsame).1
  rcases (leftFrom_eq_self_iff _ _).mp hleft 3 ⟨[5, 0xff]⟩ rfl with htype | ⟨-, hzero⟩
  · exact absurd htype (by decide)
  · exact absurd (hzero 5 (by simp)) (by decide)

end DiskImage

end FamicomDisk
