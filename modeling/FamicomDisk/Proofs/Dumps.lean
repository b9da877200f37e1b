import FamicomDisk.Image.Basic
import FamicomDisk.Proofs.Disks

/-!
Images of layouts, written and read back.

An image of this format is the bare layout of one side, or a dump with a slot for each side, and the
bytes alone tell which of the two it is. A bare layout is shorter than a slot. A dump that was just
written is as long as its slots, and behind the header of the first one the first block begins,
whatever the title is. Then every slot of it is read, for none has the header of an empty one.

* `Side.IsComplete`, `Side.IsReadAs`: the sides that are written, and what is read of one.
* `Flash.exists_store`: the memory that holds the sides of a disk and nothing else.
* `Flash.ofDump_bytes`, `Flash.isDump_of_holds`: its bytes are a dump, and that of this memory.
* `Image.loadDump_eq`: a dump without empty slots is read slot after slot.
* `Image.load_bytes`: **layouts are read as they were written**, with a header and without one.
-/

namespace FamicomDisk

/-- The base name of a text is the same when it is taken as a name. -/
lemma Text.Name.baseName_ofString (s : String) :
    (ofString s).baseName = ofString (String.ofList (Text.baseName s.toList)) := by
  have hslash : ((fun p : Point => decide (p ≠ .char '/')) ∘ Point.char)
      = fun c : Char => decide (c ≠ '/') := by
    funext c
    simp
  rw [baseName, ofString, ← List.map_reverse, List.takeWhile_map, hslash, ← List.map_reverse,
    ofString, String.toList_ofList, Text.baseName]

/-! ### Sides -/

/-- A standard side that has a layout, but was not recovered from one, and whose lead-in is one that
a header can tell. -/
structure Side.IsComplete (s : Side) : Prop where
  standard : IsStandard s.blocks
  framed : ∃ layout, Layout.frame s = .ok layout
  layout_eq : s.layout = none
  leadIn : ∀ n ∈ s.leadIn, 0 < n ∧ n ≤ 0xffff

/-- What a side that was written is read as: a side with the same blocks, without a fault, and with
its lead-in or the usual one. -/
structure Side.IsReadAs (s s' : Side) : Prop where
  blocks_eq : s'.blocks = s.blocks
  leadIn_eq : s'.leadIn = some (s.leadIn.getD defaultLeadIn)
  diagnostics_eq : s'.diagnostics = []

namespace Side

variable {s : Side}

lemma IsComplete.fits (h : s.IsComplete) :
    (Layout.ofBlocks s.blocks).length ≤ Layout.capacity := by
  obtain ⟨layout, hlayout⟩ := h.framed
  obtain ⟨rfl, hfits⟩ := frame_eq_ok_iff.mp hlayout
  rwa [layoutOf_ofBlock] at hfits

/-- The lead-in that is stored with a side is its own, or the usual one. -/
lemma IsComplete.leadIn_eq (h : s.IsComplete) :
    (if s.leadIn.getD 0 = 0 then defaultLeadIn else s.leadIn.getD 0)
      = s.leadIn.getD defaultLeadIn := by
  cases hs : s.leadIn with
  | none => rfl
  | some n =>
      have hpos := (h.leadIn n hs).1
      rw [Option.getD_some, if_neg (by omega), Option.getD_some]

end Side

namespace Flash

variable {f : Flash} {s : Side} {h : SlotHeader} {dat : List UInt8}

/-! ### Dumps -/

/-- The memory of the dump of a memory that has its slots and no more. -/
lemma ofDump_bytes (hlen : f.bytes.length = f.slots * slotSize) : ofDump f.bytes = f := by
  have hpos : 0 < slotSize := by decide
  have hslots : (f.slots * slotSize + slotSize - 1) / slotSize = f.slots := by
    calc (f.slots * slotSize + slotSize - 1) / slotSize
        = (slotSize * f.slots + (slotSize - 1)) / slotSize := by
          rw [Nat.add_sub_assoc hpos, Nat.mul_comm]
      _ = f.slots + (slotSize - 1) / slotSize := Nat.mul_add_div hpos ..
      _ = f.slots := by rw [Nat.div_eq_of_lt (Nat.sub_lt hpos Nat.one_pos), Nat.add_zero]
  simp only [ofDump, hlen, hslots, Nat.sub_self, List.replicate_zero, List.append_nil]

/-- What is shorter than a slot is no dump. -/
lemma isDump_of_length_lt (hlen : dat.length < slotSize) : isDump dat = false := by
  rw [isDump, if_pos]
  rw [Nat.mod_eq_of_lt hlen]
  exact Decidable.em _

/-- A memory is a dump if its first slot holds a side. -/
lemma isDump_of_holds (hlen : f.bytes.length = f.slots * slotSize) (hslots : 0 < f.slots)
    (hholds : f.Holds 0 h s) (hs : IsStandard s.blocks) : isDump f.bytes = true := by
  obtain ⟨head, -, hhead, hbytes⟩ := hholds.contents_eq
  have hmark : (f.slotBytes 0)[slotHeaderSize]? = some gapEndMark := by
    obtain ⟨b, bs, hblocks⟩ : ∃ b bs, s.blocks = b :: bs := by
      generalize s.blocks = blocks at hs
      cases hs
      exact ⟨_, _, rfl⟩
    rw [hbytes, contents, List.append_assoc, List.getElem?_append_right (Nat.le_of_eq hhead),
      hhead, Nat.sub_self, hblocks, Layout.ofBlocks]
    rfl
  have hbehind : (f.bytes.drop slotHeaderSize).head? = some gapEndMark := by
    have hbelow : slotHeaderSize < slotSize := by decide
    rw [slotBytes, Nat.zero_mul, List.drop_zero, List.getElem?_take, if_pos hbelow] at hmark
    rw [List.head?_drop, hmark]
  have hwhole : ¬ (f.bytes.length = 0 ∨ f.bytes.length % slotSize ≠ 0) := by
    have hpos := Nat.mul_pos hslots (show 0 < slotSize by decide)
    rw [hlen, Nat.mul_mod_left]
    omega
  rw [isDump, if_neg hwhole, hbehind]
  simp

/-! ### A memory with one disk -/

/-- A complete side can be stored under any title that is a text. -/
lemma sideRefusal?_eq_none (hs : s.IsComplete) (title : String) (i : Nat) :
    sideRefusal? title s i = none := by
  have hword : 0 ≤ storedLeadIn s ∧ storedLeadIn s ≤ 0xffff := by
    rw [storedLeadIn_eq, hs.leadIn_eq]
    cases hlead : s.leadIn with
    | none => decide
    | some n =>
        have hn := hs.leadIn n hlead
        rw [Option.getD_some]
        omega
  obtain ⟨header, hheader⟩ : ∃ header, headerFor title s i = .ok header := by
    rw [headerFor]
    split
    · rw [Text.Name.text_eq_ok_iff.mpr (Text.Name.baseName_ofString title)]
      exact ⟨_, rfl⟩
    · exact ⟨_, rfl⟩
  simp only [sideRefusal?]
  rw [if_neg (Nat.not_lt.mpr hs.fits), hheader]
  exact if_pos hword

/-- **The memory of a disk**: complete sides are stored in an erased memory of as many slots, and
then each slot holds its side. -/
lemma exists_store {title : String} {sides : List Side} (hsides : ∀ s ∈ sides, s.IsComplete)
    (htitle : (Text.baseName title.toList).head? ≠ some '\uffff') :
    ∃ f : Flash, (writeSides 0 title sides).perform (erased sides.length) = (.ok (), f)
      ∧ f.slots = sides.length ∧ f.bytes.length = f.slots * slotSize
      ∧ ∀ (i : Nat) (s : Side), sides[i]? = some s → ∃ h, f.Holds i h s := by
  have hroom : (erased sides.length).refusal? 0 title sides = none := by
    have hslots : ¬ (erased sides.length).slots < 0 + sides.length := by
      rw [Nat.zero_add]
      exact Nat.lt_irrefl _
    rw [refusal?, if_neg hslots, List.findSome?_eq_none_iff]
    rintro ⟨s, i⟩ hs
    have hget := List.mk_mem_zipIdx_iff_getElem?.mp hs
    exact sideRefusal?_eq_none (hsides s (List.mem_of_getElem? hget)) title i
  have hname : (Text.Name.ofString title).baseName.points.head? ≠ some (.char '\uffff') := by
    rw [Text.Name.baseName_ofString, Text.Name.ofString, String.toList_ofList, List.head?_map]
    intro hbad
    obtain ⟨c, hc, hchar⟩ := Option.map_eq_some_iff.mp hbad
    obtain rfl := Text.Point.char.inj hchar
    exact htitle hc
  have hwhole := isWhole_erased sides.length
  obtain ⟨_, hstore, -⟩ := exists_perform_writeSides hwhole hroom
  obtain ⟨-, images, hf, hbytes, hfits, -, hsize, hget⟩ := exists_images_of_store hwhole hstore
  refine ⟨_, hstore, rfl, hbytes.trans List.length_replicate, fun i s hs => ?_⟩
  obtain ⟨h, head, hheader, hpack, himage⟩ := hget i s hs
  rw [hf, ← Nat.zero_add i]
  exact ⟨h, holds_overwrite hname hsize hfits hheader hpack himage⟩

/-- The slots of such a memory are all read, and none of them is empty. -/
lemma exists_slots {sides : List Side} (hsides : ∀ s ∈ sides, s.IsComplete)
    (hholds : ∀ (i : Nat) (s : Side), sides[i]? = some s → ∃ h, f.Holds i h s) :
    ∃ slots : List (SlotHeader × Side), slots.length = sides.length
      ∧ (∀ (k : Nat) (p : SlotHeader × Side), slots[k]? = some p → f.side k = .ok p)
      ∧ (∀ p ∈ slots, p.1.isEmpty = false)
      ∧ List.Forall₂ Side.IsReadAs sides (slots.map Prod.snd) := by
  have hread : ∀ (k : Nat) (s : Side), sides[k]? = some s →
      ∃ p, f.side k = .ok p ∧ p.1.isEmpty = false ∧ s.IsReadAs p.2 := by
    intro k s hs
    have hcomplete := hsides s (List.mem_of_getElem? hs)
    obtain ⟨h, hslot⟩ := hholds k s hs
    obtain ⟨s', hside, hleadIn, hstandard⟩ := hslot.reads
    obtain ⟨hblocks, hfaults⟩ := hstandard hcomplete.standard
    refine ⟨_, hside, stored_isEmpty h, hblocks, ?_, hfaults⟩
    rw [hleadIn, hslot.leadIn_eq, hcomplete.leadIn_eq]
  obtain ⟨slots, hslots, -⟩ : ∃ slots, (List.range sides.length).mapM f.side = .ok slots ∧ _ :=
    exists_mapM_eq_ok fun k hk => by
      obtain ⟨p, hp, -⟩ := hread k _ (List.getElem?_eq_getElem (List.mem_range.mp hk))
      exact ⟨p, hp⟩
  obtain ⟨hlen, hget⟩ := mapM_range_eq_ok_iff.mp hslots
  have hof : ∀ (k : Nat) (hk : k < slots.length), slots[k].1.isEmpty = false
      ∧ (sides[k]).IsReadAs slots[k].2 := by
    intro k hk
    obtain ⟨p, hp, hfull, hsame⟩ := hread k _ (List.getElem?_eq_getElem (hlen ▸ hk))
    obtain rfl := Except.ok.inj ((hget k _ (List.getElem?_eq_getElem hk)).symm.trans hp)
    exact ⟨hfull, hsame⟩
  refine ⟨slots, hlen, hget, fun p hp => ?_, ?_⟩
  · obtain ⟨k, hk, rfl⟩ := List.getElem_of_mem hp
    exact (hof k hk).1
  · rw [List.forall₂_iff_get]
    refine ⟨by rw [List.length_map, hlen], fun k _ hk => ?_⟩
    simpa using (hof k (by simpa using hk)).2

end Flash

namespace Image

/-! ### Reading a dump -/

variable {i : Image} {dat : List UInt8}

/-- A dump without empty slots is read slot after slot. -/
lemma loadDump_eq {slots : List (SlotHeader × Side)} (hne : slots ≠ [])
    (hlen : (Flash.ofDump dat).slots = slots.length)
    (hside : ∀ (k : Nat) (p : SlotHeader × Side), slots[k]? = some p →
      (Flash.ofDump dat).side k = .ok p) (hfull : ∀ p ∈ slots, p.1.isEmpty = false) :
    i.loadDump dat = .ok { i with sides := i.sides ++ slots.map Prod.snd } := by
  have hheaders : (Flash.ofDump dat).headers = .ok (slots.map Prod.fst) := by
    refine mapM_range_eq_ok_iff.mpr ⟨by rw [List.length_map, hlen], fun k h hk => ?_⟩
    rw [List.getElem?_map, Option.map_eq_some_iff] at hk
    obtain ⟨p, hp, rfl⟩ := hk
    exact Flash.header_of_side (hside k p hp)
  have hall : ∀ q ∈ (slots.map Prod.fst).zipIdx, (!q.1.isEmpty) = true := by
    rintro ⟨h, k⟩ hk
    have hget := List.mk_mem_zipIdx_iff_getElem?.mp hk
    obtain ⟨p, hp, rfl⟩ := List.mem_map.mp (List.mem_of_getElem? hget)
    simp [hfull p hp]
  have hsides : ((slots.map Prod.fst).zipIdx.mapM fun q => do
        pure (← (Flash.ofDump dat).side q.2).2)
      = (.ok (slots.map Prod.snd) : Except Fault (List Side)) := by
    rw [mapM_eq_ok_iff, List.forall₂_iff_get]
    refine ⟨by simp, fun k hk _ => ?_⟩
    have hk' : k < slots.length := by simpa using hk
    simp [hside k slots[k] (List.getElem?_eq_getElem hk')]
  have hsome : (i.sides ++ slots.map Prod.snd).isEmpty = false := by
    simp [hne]
  rw [loadDump]
  dsimp only
  rw [hheaders, ok_bind, List.filter_eq_self.mpr hall, hsides, ok_bind, hsome]
  rfl

/-! ### Reading what was written -/

variable {image reader : Image} {title : Option String} {s : Side}

/-- A reader of layouts tells by the bytes whether they are a dump. -/
lemma load_eq (hformat : reader.format = .layout) (dat : List UInt8) :
    reader.load dat = ([], if Flash.isDump dat then reader.loadDump dat
      else (Layout.walk dat).map fun side => { reader with sides := [side] }) := by
  obtain ⟨header, title, hsettings⟩ : ∃ header title, reader.settings = .layout header title := by
    rw [format] at hformat
    cases hsettings : reader.settings <;> rw [hsettings] at hformat
    case layout header title => exact ⟨header, title, rfl⟩
    all_goals cases hformat
  rw [load, hsettings]
  cases Flash.isDump dat with
  | false => cases Layout.walk dat <;> rfl
  | true => rfl

/-- With a header, the image of a disk is a dump, and a reader finds all sides in it. -/
lemma exists_load_dump (hsettings : image.settings = .layout true title) (hne : image.sides ≠ [])
    (hsides : ∀ s ∈ image.sides, s.IsComplete)
    (htitle : (Text.baseName (image.dumpTitle title).toList).head? ≠ some '\uffff')
    (hformat : reader.format = .layout) (hnew : reader.sides = []) :
    ∃ dat sides, image.bytes = .ok dat ∧ Flash.isDump dat = true
      ∧ reader.load dat = ([], .ok { reader with sides })
      ∧ List.Forall₂ Side.IsReadAs image.sides sides := by
  obtain ⟨f, hstore, hslots, hlen, hholds⟩ := Flash.exists_store hsides htitle
  obtain ⟨slots, hcount, hside, hfull, hsame⟩ := Flash.exists_slots hsides hholds
  have hpos : 0 < image.sides.length := List.length_pos_of_ne_nil hne
  have hdump : Flash.isDump f.bytes = true := by
    have hfirst : image.sides[0]? = some image.sides[0] := List.getElem?_eq_getElem hpos
    obtain ⟨h, hfirst'⟩ := hholds 0 _ hfirst
    exact Flash.isDump_of_holds hlen (hslots ▸ hpos) hfirst'
      (hsides _ (List.mem_of_getElem? hfirst)).standard
  refine ⟨f.bytes, slots.map Prod.snd, ?_, hdump, ?_, hsame⟩
  · rw [bytes, hsettings]
    dsimp only
    rw [if_neg (by simpa using hne), if_pos rfl, hstore]
    rfl
  · have hnil : slots ≠ [] := List.ne_nil_of_length_pos (hcount ▸ hpos)
    rw [load_eq hformat, if_pos hdump, loadDump_eq hnil ?_ ?_ hfull, hnew, List.nil_append]
    · rw [Flash.ofDump_bytes hlen, hslots, hcount]
    · rw [Flash.ofDump_bytes hlen]
      exact hside

/-- Without a header, the image of a side is its layout, and a reader finds the side in it. -/
lemma exists_load_bare (hsettings : image.settings = .layout false title)
    (hsides : image.sides = [s]) (hs : s.IsComplete) (hformat : reader.format = .layout) :
    ∃ dat, image.bytes = .ok dat ∧ Flash.isDump dat = false
      ∧ reader.load dat
        = ([], .ok { reader with sides := [{ blocks := s.blocks, layout := some dat }] }) := by
  obtain ⟨dat, hframe⟩ := hs.framed
  obtain ⟨hlayout, hfits⟩ := frame_eq_ok_iff.mp hframe
  have hdump : Flash.isDump dat = false := by
    refine Flash.isDump_of_length_lt (hfits.trans_lt ?_)
    decide
  have hwalk := Layout.walk_ofBlocks 0 none hs.standard.inOrder
  rw [List.replicate_zero, List.append_nil, ← layoutOf_ofBlock, hlayout] at hwalk
  refine ⟨dat, ?_, hdump, ?_⟩
  · rw [bytes, hsettings, hsides]
    dsimp only
    rw [hs.layout_eq]
    exact hframe
  · rw [load_eq hformat, hdump, hwalk]
    rfl

/-- **Images of layouts are read as they were written.** With a header, complete sides are written
to a dump, under any title that does not begin with the character whose number marks an empty slot;
the reader takes it for a dump and finds as many sides in it, with the same blocks, their lead-ins
or the usual one, and no faults. Without a header, one complete side is written as its layout; the
reader takes it for no dump and finds the side in it. -/
theorem load_bytes (hsides : ∀ s ∈ image.sides, s.IsComplete) (hformat : reader.format = .layout) :
    (image.settings = .layout true title → image.sides ≠ [] →
        (Text.baseName (image.dumpTitle title).toList).head? ≠ some '\uffff' → reader.sides = [] →
        ∃ dat sides, image.bytes = .ok dat ∧ Flash.isDump dat = true
          ∧ reader.load dat = ([], .ok { reader with sides })
          ∧ List.Forall₂ Side.IsReadAs image.sides sides)
      ∧ ∀ s, image.settings = .layout false title → image.sides = [s] →
        ∃ dat, image.bytes = .ok dat ∧ Flash.isDump dat = false
          ∧ reader.load dat
            = ([], .ok { reader with sides := [{ blocks := s.blocks, layout := some dat }] }) := by
  constructor
  · intro hsettings hne htitle hnew
    exact exists_load_dump hsettings hne hsides htitle hformat hnew
  · intro s hsettings hs
    exact exists_load_bare hsettings hs (hsides s (by simp [hs])) hformat

/-- An image of two sides without files, one of which has a lead-in of its own. Its title begins
with the number of the mark that blocks begin with. -/
def markedImage : Image where
  file := "disks/marked.bin"
  settings := .layout true (some "\u0080")
  sides := [{ blocks := emptySide }, { blocks := emptySide, leadIn := some 761 }]

/-- An image of one side without files, and without a header. -/
def bareImage : Image where
  file := "bare.bin"
  settings := .layout false none
  sides := [{ blocks := emptySide }]

lemma isComplete_emptySide {leadIn : Option Int} (h : ∀ n ∈ leadIn, 0 < n ∧ n ≤ 0xffff) :
    Side.IsComplete { blocks := emptySide, leadIn } :=
  ⟨isStandard_emptySide, ⟨_, frame_emptySide leadIn⟩, rfl, h⟩

/-- The sides of one of these images are read from a dump, and that of the other from its layout. -/
theorem load_bytes_markedImage :
    (∃ dat sides, markedImage.bytes = .ok dat ∧ Flash.isDump dat = true
        ∧ (new .layout "copy.bin").load dat = ([], .ok { new .layout "copy.bin" with sides })
        ∧ List.Forall₂ Side.IsReadAs markedImage.sides sides)
      ∧ ∃ dat, bareImage.bytes = .ok dat ∧ Flash.isDump dat = false
        ∧ (new .layout "copy.bin").load dat
          = ([], .ok { new .layout "copy.bin" with
              sides := [{ blocks := emptySide, layout := some dat }] }) := by
  have hfirst : Side.IsComplete { blocks := emptySide } := isComplete_emptySide (by simp)
  have hsecond : Side.IsComplete { blocks := emptySide, leadIn := some 761 } :=
    isComplete_emptySide (by simp)
  have hmarked : ∀ s ∈ markedImage.sides, s.IsComplete := by simp [markedImage, hfirst, hsecond]
  have hbare : ∀ s ∈ bareImage.sides, s.IsComplete := by simp [bareImage, hfirst]
  constructor
  · exact (load_bytes hmarked rfl).1 rfl (by simp [markedImage]) (by decide) rfl
  · exact (load_bytes hbare rfl).2 _ rfl rfl

end Image

end FamicomDisk
