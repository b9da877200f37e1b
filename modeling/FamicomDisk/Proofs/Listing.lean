import FamicomDisk.Command.Session
import FamicomDisk.Proofs.AnyCapture
import FamicomDisk.Proofs.AnyLayout
import FamicomDisk.Proofs.Converting
import FamicomDisk.Proofs.Trailers

/-!
Sides as they are listed.

A listing takes the first byte of a block for the code of its type, and of a file header it shows
what stands in it: a number, a name and a size. A block that begins as a file header does and ends
before its size cannot be listed. The readers of layouts and of captures take no such block, as they
compare the code of each block with the one that is expected. The readers of disk images and of dumps
do not compare the codes of all blocks, so a file count or file data may have the code of a file
header and be as short as it likes.

* `Block.listingFault?`, `Block.exists_describe`: why a block cannot be listed.
* `Side.perform_print_fst`: how a listing ends, for every side.
* `Side.isListed_iff`: a side is listed exactly when each of its blocks can be.
* `InOrder.listingFault?_eq_none`: blocks in order can be listed.
* `IsSized.listingFault?_eq_none`: of blocks that are told by their sizes every other one can be.
* `Side.isListed_read`: **which sides are listed** of those that the readers find.
-/

namespace FamicomDisk

/-! ### Blocks -/

/-- Why a block cannot be listed: it has the code of a file header, and no number or no size of a
file. -/
def Block.listingFault? (b : Block) : Option Fault :=
  if b.type? = some .fileHeader then
    if b.data.length < 3 then some .noSuchPlace
    else if b.data.length < 15 then some .recordMismatch
    else none
  else none

namespace Block

variable {b : Block}

lemma listingFault?_eq_none_iff :
    b.listingFault? = none ↔ (b.type? = some .fileHeader → 15 ≤ b.data.length) := by
  rw [listingFault?]
  constructor
  · intro h htype
    rw [if_pos htype] at h
    split at h
    · cases h
    · split at h
      · cases h
      · omega
  · intro h
    split
    · next htype =>
      have hle := h htype
      rw [if_neg (by omega), if_neg (by omega)]
    · rfl

/-- A size is declared where there are two bytes for it. -/
lemma declaredSize?_isSome_iff : b.declaredSize?.isSome ↔ 15 ≤ b.data.length := by
  have hlen : (b.data.drop 13).length = b.data.length - 13 := List.length_drop
  rw [declaredSize?]
  cases hdrop : b.data.drop 13 with
  | nil =>
      rw [hdrop, List.length_nil] at hlen
      simp only [Option.isSome_none, Bool.false_eq_true, false_iff]
      omega
  | cons low rest =>
      rw [hdrop, List.length_cons] at hlen
      cases rest with
      | nil =>
          rw [List.length_nil] at hlen
          simp only [Option.isSome_none, Bool.false_eq_true, false_iff]
          omega
      | cons high rest =>
          rw [List.length_cons] at hlen
          simp only [Option.isSome_some, true_iff]
          omega

/-- **How a block is listed**: as some text, unless there is a reason against it. -/
lemma exists_describe (b : Block) :
    ∃ text, b.describe = b.listingFault?.elim (.ok text) .error := by
  rw [describe, listingFault?]
  split
  · next htype => exact ⟨_, by rw [if_neg (by simp [htype])]; rfl⟩
  · next htype =>
    rw [if_pos htype]
    split
    · next hnone =>
      rw [List.getElem?_eq_none_iff] at hnone
      exact ⟨"", by rw [if_pos (by omega)]; rfl⟩
    · next number hsome =>
      obtain ⟨hlt, -⟩ := List.getElem?_eq_some_iff.mp hsome
      rw [if_neg (by omega), declaredSize]
      split
      · next size hsize =>
        have hle := declaredSize?_isSome_iff.mp (by rw [hsize]; rfl)
        exact ⟨_, by rw [if_neg (by omega)]; rfl⟩
      · next hsize =>
        have hlt : ¬ 15 ≤ b.data.length := by
          rw [← declaredSize?_isSome_iff, hsize]
          exact Bool.false_ne_true
        exact ⟨"", by rw [if_pos (by omega)]; rfl⟩
  · next t hne htype =>
    exact ⟨_, by rw [if_neg (by rw [htype]; exact fun h => hne (Option.some.inj h))]; rfl⟩

lemma exists_describe_eq_ok_iff : (∃ text, b.describe = .ok text) ↔ b.listingFault? = none := by
  obtain ⟨text, htext⟩ := b.exists_describe
  rw [htext]
  cases b.listingFault? <;> simp

end Block

/-! ### Sides -/

namespace Side

variable {s : Side}

/-- The line of a block is printed, unless there is a reason against it. -/
lemma exists_perform_line (title : String) (b : Block) (session : Session) :
    ∃ session', (do
        let text ← Action.ofExcept b.describe
        Session.print s!"{title}:   {text}").perform session
      = (b.listingFault?.elim (.ok ()) .error, session') := by
  obtain ⟨text, htext⟩ := b.exists_describe
  rw [htext]
  cases b.listingFault? <;> exact ⟨_, rfl⟩

/-- Blocks are listed up to the first one that cannot be. -/
lemma perform_lines_fst (title : String) (blocks : List Block) (session : Session) :
    ((blocks.forM fun b => do
        let text ← Action.ofExcept b.describe
        Session.print s!"{title}:   {text}").perform session).1
      = (blocks.findSome? Block.listingFault?).elim (.ok ()) .error := by
  induction blocks generalizing session with
  | nil => rfl
  | cons b blocks ih =>
      obtain ⟨session', hline⟩ := exists_perform_line title b session
      rw [List.forM, List.findSome?_cons]
      cases hfault : b.listingFault? with
      | none =>
          rw [hfault] at hline
          rw [Action.perform_bind_ok hline]
          exact ih session'
      | some fault =>
          rw [hfault] at hline
          rw [Action.perform_bind_error hline]
          rfl

/-- The faults of a side are always listed. -/
lemma perform_warnings_fst (title : String) (faults : List BlockFault) (session : Session) :
    ((faults.forM fun f => Session.print s!"{title}: WARNING: {f.message}").perform session).1
      = .ok () := by
  induction faults generalizing session with
  | nil => rfl
  | cons f faults ih => exact ih _

/-- **How a listing ends**: with the fault of the first block that cannot be listed, if the blocks
are asked for and there is one. -/
lemma perform_print_fst (s : Side) (title : String) (withBlocks : Bool) (session : Session) :
    ((s.print title withBlocks).perform session).1
      = if withBlocks then (s.blocks.findSome? Block.listingFault?).elim (.ok ()) .error
        else .ok () := by
  rw [print]
  cases withBlocks with
  | false => exact perform_warnings_fst title s.diagnostics _
  | true =>
      have hends : ∀ (lines : Action Session Unit) (before : Session),
          ((lines >>= fun _ => s.diagnostics.forM fun f =>
              Session.print s!"{title}: WARNING: {f.message}").perform before).1
            = (lines.perform before).1 := by
        intro lines before
        rw [Action.perform_bind]
        split
        · next hlines =>
          rw [hlines]
          exact perform_warnings_fst title s.diagnostics _
        · next hlines => rw [hlines]
      exact (hends _ _).trans (perform_lines_fst title s.blocks _)

/-- A side is listed: there is a text for each block of it, and a listing ends without a fault, with
the blocks or without, under any title and in any session. -/
structure IsListed (s : Side) : Prop where
  described : ∀ b ∈ s.blocks, ∃ text, b.describe = .ok text
  printed : ∀ title withBlocks session, ((s.print title withBlocks).perform session).1 = .ok ()

/-- **A side is listed** exactly when each of its blocks can be. -/
lemma isListed_iff : s.IsListed ↔ ∀ b ∈ s.blocks, b.listingFault? = none := by
  constructor
  · exact fun h b hb => Block.exists_describe_eq_ok_iff.mp (h.described b hb)
  · intro h
    refine ⟨fun b hb => Block.exists_describe_eq_ok_iff.mpr (h b hb), ?_⟩
    intro title withBlocks session
    rw [perform_print_fst, List.findSome?_eq_none_iff.mpr h]
    exact ite_self _

end Side

/-! ### Blocks that the readers take -/

/-- **Blocks in order** can be listed: those with the code of a file header are file headers. -/
lemma InOrder.listingFault?_eq_none {expected : BlockType} {previous : Option Block}
    {blocks : List Block} (h : InOrder expected previous blocks) :
    ∀ b ∈ blocks, b.listingFault? = none := by
  induction blocks generalizing expected previous with
  | nil => simp
  | cons b blocks ih =>
      obtain ⟨htype, hsize, hrest⟩ := h
      refine List.forall_mem_cons.mpr ⟨?_, ih hrest⟩
      by_cases hheader : expected = .fileHeader
      · subst hheader
        have hlen : 16 = b.data.length := Option.some.inj hsize
        exact Block.listingFault?_eq_none_iff.mpr fun _ => by omega
      · refine Block.listingFault?_eq_none_iff.mpr fun h => ?_
        rw [htype] at h
        exact absurd (Option.some.inj h) hheader

/-- Any bytes are walked over, and the blocks that are found are in order. -/
lemma Layout.exists_inOrder_walk (dat : List UInt8) (leadIn : Option Int) :
    ∃ s, walk dat leadIn = .ok s ∧ InOrder .diskHeader none s.blocks := by
  obtain ⟨placed, stop, ⟨-, horder⟩, hwalk⟩ := exists_passes_walkFrom {} 0 dat .first
  refine ⟨_, by rw [walk, hwalk]; rfl, ?_⟩
  cases stop <;>
    simpa [placedFindings, Findings.toSide, Findings.addFault?, Findings.addFault] using horder

/-- Any capture is read, and the blocks that are found are in order. -/
lemma Capture.exists_inOrder_decodeKnown (pulses : List Pulse) :
    ∃ s, decodeKnown pulses = .ok s ∧ InOrder .diskHeader none s.blocks := by
  obtain ⟨found, rs, hdecode, hadds⟩ := exists_decodeFrom {}
    (.ofOffset pulses ((findUsualHeader? pulses).getD 0 - minGap)) .first (Nat.zero_le _)
  refine ⟨found.toSide, by rw [decodeKnown, hdecode]; rfl, ?_⟩
  rw [Findings.toSide, hadds.blocks_eq, List.append_nil, List.reverse_reverse]
  exact hadds.inOrder

/-- The headers of files can be listed. -/
lemma IsSizedFiles.listingFault?_eq_none {files : List Block} (h : IsSizedFiles files) {i : Nat}
    {b : Block} (hb : files[2 * i]? = some b) : b.listingFault? = none := by
  induction h generalizing i with
  | nil => simp at hb
  | @file header data size rest _ hlength _ _ _ ih =>
      cases i with
      | zero =>
          obtain rfl := Option.some.inj hb
          exact Block.listingFault?_eq_none_iff.mpr fun _ => by omega
      | succ i => exact ih hb

/-- **Of blocks that are told by their sizes** every other one can be listed: the disk header and
the headers of files. -/
lemma IsSized.listingFault?_eq_none {blocks : List Block} (h : IsSized blocks) {i : Nat} {b : Block}
    (hb : blocks[2 * i]? = some b) : b.listingFault? = none := by
  obtain @⟨header, count, files, hsignature, -, -, hfiles⟩ := h
  cases i with
  | zero =>
      obtain rfl := Option.some.inj hb
      refine Block.listingFault?_eq_none_iff.mpr fun h => ?_
      rw [type?_of_signature hsignature] at h
      cases h
  | succ i => exact hfiles.listingFault?_eq_none hb

/-- So a side of such blocks is listed exactly when the others can be, too. -/
lemma Side.isListed_iff_of_isSized {s : Side} (h : IsSized s.blocks) :
    s.IsListed ↔ ∀ i b, s.blocks[2 * i + 1]? = some b → b.listingFault? = none := by
  rw [isListed_iff]
  constructor
  · exact fun h i b hb => h b (List.mem_of_getElem? hb)
  · intro hodd b hb
    obtain ⟨i, hi⟩ := List.mem_iff_getElem?.mp hb
    obtain hk | hk : i = 2 * (i / 2) ∨ i = 2 * (i / 2) + 1 := by omega
    · exact h.listingFault?_eq_none (hk ▸ hi)
    · exact hodd (i / 2) b (hk ▸ hi)

namespace GameDoctor

/-- What is read from a dump is told by sizes, and the second block is a file count. -/
lemma isDumped_of_read {dat : List UInt8} {s : Side} (h : read dat = .ok s) :
    IsDumped s.blocks := by
  rw [read] at h
  split at h
  · next hdump =>
    rw [isDump, Bool.and_eq_true, List.isPrefixOf_iff_prefix] at hdump
    refine ⟨(Side.exists_parse h).2.1 hdump.1, ?_⟩
    obtain ⟨header, -, h⟩ := exists_of_bind_eq_ok h
    obtain ⟨count, hcount, h⟩ := exists_of_bind_eq_ok h
    obtain ⟨blocks, hblocks, h⟩ := exists_of_bind_eq_ok h
    obtain rfl := Except.ok.inj h
    obtain ⟨files, rfl, -, -⟩ := Side.exists_parseFiles hblocks
    refine ⟨count, by simp, ?_⟩
    have htwo : (dat.drop (lead + 56 + trailer)).head? = some (UInt8.ofNat 2) := by
      simpa using hdump.2
    obtain ⟨rest, hrest⟩ := List.head?_eq_some_iff.mp htwo
    have htake := (Side.takeBlock_eq_ok_iff.mp hcount).1
    rw [List.drop_drop, ← Nat.add_assoc, hrest, List.take_succ_cons] at htake
    rw [Block.type?, Block.code, htake]
    rfl
  · cases h

/-- A side that is read from a dump is listed exactly when its file data can be: the file count is
one. -/
lemma isListed_iff_of_read {dat : List UInt8} {s : Side} (h : read dat = .ok s) :
    s.IsListed ↔ ∀ i b, s.blocks[2 * i + 3]? = some b → b.listingFault? = none := by
  obtain ⟨hsized, count, hcount, htype⟩ := isDumped_of_read h
  rw [Side.isListed_iff_of_isSized hsized]
  constructor
  · exact fun h i b hb => h (i + 1) b hb
  · intro h i b hb
    cases i with
    | zero =>
        obtain rfl : count = b := Option.some.inj (hcount.symm.trans hb)
        refine Block.listingFault?_eq_none_iff.mpr fun h => ?_
        rw [htype] at h
        cases h
    | succ i => exact h i b hb

end GameDoctor

/-! ### Which sides are listed -/

/-- **Which sides are listed.** Those that the walker finds in any bytes, and those that are read
from any capture. Of a disk image each side is listed exactly when the file count and the file data
of it can be, and the side of a dump exactly when its file data can be: these have fifteen bytes and
more, or not the code of a file header. The listing of any other side ends with the fault of the
first block that cannot be listed. -/
theorem Side.isListed_read (dat : List UInt8) (leadIn : Option Int) (pulses : List Pulse) :
    (∃ s, Layout.walk dat leadIn = .ok s ∧ s.IsListed)
      ∧ (∃ s, Capture.decodeKnown pulses = .ok s ∧ s.IsListed)
      ∧ (∀ sides, DiskImage.read dat = .ok sides → ∀ s ∈ sides,
          (s.IsListed ↔ ∀ i b, s.blocks[2 * i + 1]? = some b → b.listingFault? = none))
      ∧ (∀ s, GameDoctor.read dat = .ok s →
          (s.IsListed ↔ ∀ i b, s.blocks[2 * i + 3]? = some b → b.listingFault? = none))
      ∧ (∀ b : Block, b.listingFault? = none ↔
          (b.type? = some .fileHeader → 15 ≤ b.data.length))
      ∧ ∀ (s : Side) (title : String) (session : Session),
          ((s.print title true).perform session).1
            = (s.blocks.findSome? Block.listingFault?).elim (.ok ()) .error := by
  refine ⟨?_, ?_, fun sides hread s hs => ?_,
    fun s hread => GameDoctor.isListed_iff_of_read hread,
    fun _ => Block.listingFault?_eq_none_iff,
    fun s title session => by rw [perform_print_fst, if_pos rfl]⟩
  · obtain ⟨s, hwalk, horder⟩ := Layout.exists_inOrder_walk dat leadIn
    exact ⟨s, hwalk, isListed_iff.mpr horder.listingFault?_eq_none⟩
  · obtain ⟨s, hdecode, horder⟩ := Capture.exists_inOrder_decodeKnown pulses
    exact ⟨s, hdecode, isListed_iff.mpr horder.listingFault?_eq_none⟩
  · exact isListed_iff_of_isSized ((DiskImage.isStorable_of_read hread).2 s hs).2.sized

/-- A side whose file data has a code of its own, in a disk image and in a dump: it is listed, as
that code is not the one of a file header. -/
theorem Side.isListed_read_unmarkedSide :
    (∃ dat, DiskImage.read dat = .ok [{ blocks := unmarkedSide }]
        ∧ Side.IsListed { blocks := unmarkedSide })
      ∧ ∃ dat, GameDoctor.read dat = .ok { blocks := unmarkedSide }
        ∧ Side.IsListed { blocks := unmarkedSide } := by
  have hall : ∀ b ∈ unmarkedSide, b.listingFault? = none := by decide
  refine ⟨?_, ?_⟩
  · obtain ⟨dat, -, hread⟩ : ∃ dat, DiskImage.write [{ blocks := unmarkedSide }] true = .ok dat
        ∧ DiskImage.read dat = .ok [{ blocks := unmarkedSide }] :=
      DiskImage.exists_read_write true (by simp) (by simpa using isStorable_unmarkedSide) (by simp)
    obtain ⟨-, -, himage, -⟩ := isListed_read dat none []
    exact ⟨dat, hread, (himage _ hread _ (List.mem_singleton_self _)).mpr
      fun i b hb => hall b (List.mem_of_getElem? hb)⟩
  · have hread : GameDoctor.read ([0, 0, 0]
          ++ ((unmarkedSide.map fun b => (⟨b, 0, 0⟩ : Recorded)).flatMap Recorded.bytes ++ []))
        = .ok { blocks := unmarkedSide } :=
      GameDoctor.read_eq rfl ⟨isSized_unmarkedSide, _, rfl, rfl⟩ (by decide)
    obtain ⟨-, -, -, hdump, -⟩ := isListed_read _ none []
    exact ⟨_, hread, (hdump _ hread).mpr fun i b hb => hall b (List.mem_of_getElem? hb)⟩

/-- A side whose second block has the code of a file header in the place of that of a file count. -/
def shortSide : List Block := [emptyHeader, ⟨[3, 7]⟩]

lemma isStorable_shortSide : Side.IsStorable { blocks := shortSide } where
  sized := .side ⟨_, rfl⟩ rfl rfl .nil
  fits := by decide

/-- So not every side that is read is listed: the listing of one of a disk image ends behind the
disk header, as there is no number of a file in the block behind it. -/
theorem Side.not_forall_isListed :
    (¬ ∀ dat sides, DiskImage.read dat = .ok sides → ∀ s ∈ sides, s.IsListed)
      ∧ ∃ dat, DiskImage.read dat = .ok [{ blocks := shortSide }]
        ∧ ∀ title session, ((Side.print title { blocks := shortSide } true).perform session).1
          = .error .noSuchPlace := by
  obtain ⟨dat, -, hread⟩ : ∃ dat, DiskImage.write [{ blocks := shortSide }] false = .ok dat
      ∧ DiskImage.read dat = .ok [{ blocks := shortSide }] :=
    DiskImage.exists_read_write false (by simp) (by simpa using isStorable_shortSide) (by simp)
  have hprint : ∀ title session,
      ((Side.print title { blocks := shortSide } true).perform session).1
        = .error .noSuchPlace := by
    intro title session
    rw [perform_print_fst, if_pos rfl]
    rfl
  refine ⟨fun h => ?_, dat, hread, hprint⟩
  have hlisted := (h dat _ hread _ (List.mem_singleton_self _)).printed "" true {}
  rw [hprint] at hlisted
  cases hlisted

end FamicomDisk
