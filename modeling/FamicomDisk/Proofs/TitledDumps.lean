import FamicomDisk.Proofs.Dumps
import FamicomDisk.Proofs.Titles
import FamicomDisk.Proofs.Writing

/-!
Dumps with a title.

A title that is given for a dump is stored as the name of a file would be: what stands before its
last slash is lost. So a title is found in the dump exactly if it has no slash. Of any other the end
is found, and where nothing is left the slot does not even tell that a disk begins in it.

* `Text.baseName_eq_self_iff`, `Text.length_units_baseName_le`: what is left of a path.
* `SlotHeader.titled`, `SlotHeader.unpack_pack_titled`: the header that is read of a title.
* `Flash.exists_header_of_store`, `Image.exists_store_of_bytes`: the header in the first slot of a
  dump.
* `Image.exists_header_of_forFile`: **what the first slot tells of the title that was given**, and
  `Image.not_forall_title`.
-/

namespace FamicomDisk

namespace Text

lemma baseName_suffix (path : List Char) : baseName path <:+ path := by
  rw [baseName, ← List.reverse_prefix, List.reverse_reverse]
  exact List.takeWhile_prefix _

/-- A path is its own base name exactly if it has no slash. -/
lemma baseName_eq_self_iff {path : List Char} : baseName path = path ↔ '/' ∉ path := by
  constructor
  · intro h
    rw [← h]
    exact baseName_not_mem path
  · intro h
    have hall : path.reverse.takeWhile (· ≠ '/') = path.reverse := by
      refine List.takeWhile_eq_self_iff.mpr fun c hc => ?_
      have hother : c ≠ '/' := by
        rintro rfl
        exact h (List.mem_reverse.mp hc)
      simpa using hother
    rw [baseName, hall, List.reverse_reverse]

/-- A base name has no more units than the path. -/
lemma length_units_baseName_le (path : List Char) :
    (units (baseName path)).length ≤ (units path).length := by
  obtain ⟨before, hpath⟩ := baseName_suffix path
  have happend : units path = units before ++ units (baseName path) := by
    conv_lhs => rw [← hpath]
    exact List.flatMap_append
  rw [happend, List.length_append]
  exact Nat.le_add_left _ _

end Text

namespace SlotHeader

variable {base : List Char} {leadIn : Int} {head : List UInt8}

/-- What is read of the header of a titled slot, if that much is left of the title: without any
character it is that of a further side, and with the number of an empty slot in front that of an
empty slot. -/
def titled (base : List Char) (leadIn : Int) : SlotHeader :=
  if base = [] then { leadIn := some leadIn, continuation := true }
  else if base.head? = some '\uffff' then {}
  else { title := some (String.ofList base), leadIn := some leadIn }

/-- The title is read if something is left of it that does not begin with the number of an empty
slot. -/
lemma title_titled (base : List Char) (leadIn : Int) :
    (titled base leadIn).title
      = if base = [] ∨ base.head? = some '\uffff' then none else some (String.ofList base) := by
  rw [titled]
  split
  · next hempty => rw [if_pos (.inl hempty)]
  · next hne =>
    split
    · next hmark => rw [if_pos (.inr hmark)]
    · next hmark => rw [if_neg (not_or.mpr ⟨hne, hmark⟩)]

/-- A title that fits is read back, unless its first character makes it another header. -/
lemma unpack_pack_titled (hzero : Char.ofNat 0 ∉ base)
    (hfits : (Text.units base).length ≤ titleUnits - 1) (hlead : leadIn ≠ 0)
    (hpack : pack { title := some (String.ofList base), leadIn := some leadIn } = .ok head) :
    unpack head = .ok (titled base leadIn) := by
  have hunits : storedUnits { title := some (String.ofList base), leadIn := some leadIn }
      = Text.units base := by
    change (Text.units (String.ofList base).toList).take (titleUnits - 1) = _
    rw [String.toList_ofList, List.take_of_length_le hfits]
  have hfirst := Text.head?_units_eq_iff base
  rw [titled]
  split
  · next hempty =>
    subst hempty
    rw [unpack_pack rfl (by rw [hunits]; simp [Text.units]) hpack, stored, hunits]
    simp [Text.units, hlead]
  · next hne =>
    split
    · next hmark => exact unpack_pack_of_marked rfl (hunits ▸ hfirst.mpr hmark) hpack
    · next hmark =>
      have hchars : (String.ofList base).toList = base := String.toList_ofList
      have hcut : Text.IsCut (titleUnits - 1) (String.ofList base).toList base := by
        rw [hchars]
        exact .whole hfits
      rw [unpack_pack rfl (hunits ▸ mt hfirst.mp hmark) hpack,
        stored_of_isCut (by rwa [hchars]) (by rwa [hchars]) hcut, Option.getD_some, if_neg hlead]

end SlotHeader

namespace Flash

/-- Once sides are stored in an erased memory, its first slot has the header of the base name of their
title. -/
lemma exists_header_of_store {title : String} {s : Side} {rest : List Side} {f : Flash}
    (hstore : (writeSides 0 title (s :: rest)).perform (erased (s :: rest).length) = (.ok (), f)) :
    ∃ head, SlotHeader.pack
        { title := some (String.ofList (Text.baseName title.toList)),
          leadIn := some (storedLeadIn s) } = .ok head
      ∧ (ofDump f.bytes).header 0 = SlotHeader.unpack head := by
  obtain ⟨-, images, rfl, hlength, hfits, hlen, hsize, hget⟩ :=
    exists_images_of_store (isWhole_erased _) hstore
  obtain ⟨h, head, hheader, hpack, himage⟩ := hget 0 s rfl
  obtain ⟨-, base, hbase, rfl⟩ | ⟨hzero, -⟩ := headerFor_cases hheader
  · rw [Text.Name.baseName_ofString] at hbase
    obtain rfl : String.ofList (Text.baseName title.toList) = base :=
      Except.ok.inj ((Text.Name.text_eq_ok_iff.mpr rfl).symm.trans
        (Text.Name.text_eq_ok_iff.mpr hbase))
    have hslot := slotBytes_overwrite hsize hfits himage
    have hall : ((erased (s :: rest).length).overwrite (0 * slotSize)
        images.flatten).bytes.length = (s :: rest).length * slotSize :=
      hlength.trans List.length_replicate
    have hroom : (0 + 1) * slotSize ≤ ((erased (s :: rest).length).overwrite (0 * slotSize)
        images.flatten).bytes.length := by
      rw [hall]
      exact Nat.mul_le_mul_right _ (by simp)
    refine ⟨head, hpack, ?_⟩
    rw [ofDump_bytes hall, header_eq hroom, hslot, ← SlotHeader.unpack_take, contents,
      List.append_assoc, List.take_left' (SlotHeader.length_pack hpack)]
  · exact absurd rfl hzero

end Flash

namespace Image

variable {image : Image} {title : String} {s : Side} {rest : List Side} {dat : List UInt8}

/-- The bytes of a dump are those of a memory in which its sides are stored. -/
lemma exists_store_of_bytes (hsettings : image.settings = .layout true (some title))
    (htitle : title ≠ "") (hsides : image.sides = s :: rest) (hbytes : image.bytes = .ok dat) :
    ∃ f, (Flash.writeSides 0 title (s :: rest)).perform (Flash.erased (s :: rest).length)
        = (.ok (), f) ∧ f.bytes = dat := by
  have hdump : image.dumpTitle (some title) = title := by
    rw [dumpTitle]
    exact htitle
  rw [bytes, hsettings] at hbytes
  simp only [hdump, hsides, List.isEmpty_cons, Bool.false_eq_true, if_false, if_true] at hbytes
  cases hstore : (Flash.writeSides 0 title (s :: rest)).perform
      (Flash.erased (s :: rest).length) with
  | mk result f =>
      rw [hstore] at hbytes
      cases result with
      | error fault => cases hbytes
      | ok _ => exact ⟨f, rfl, Except.ok.inj hbytes⟩

/-- What is read of the first slot of a dump, if its title fits. -/
lemma header_of_bytes (hsettings : image.settings = .layout true (some title)) (htitle : title ≠ "")
    (hfits : (Text.units title.toList).length ≤ 119) (hzero : Char.ofNat 0 ∉ title.toList)
    (hsides : image.sides = s :: rest) (hbytes : image.bytes = .ok dat) :
    (Flash.ofDump dat).header 0
      = .ok (.titled (Text.baseName title.toList) (Flash.storedLeadIn s)) := by
  obtain ⟨f, hstore, rfl⟩ := exists_store_of_bytes hsettings htitle hsides hbytes
  obtain ⟨head, hpack, hheader⟩ := Flash.exists_header_of_store hstore
  rw [hheader]
  exact SlotHeader.unpack_pack_titled (fun h => hzero ((Text.baseName_suffix _).subset h))
    ((Text.length_units_baseName_le _).trans hfits) (Flash.storedLeadIn_ne_zero s) hpack

/-- **What the first slot tells of the title that was given**, with a header, for a dump of any
sides that has bytes: the base name of the title, with the lead-in of the first side, if something
is left of the title that does not begin with the number of an empty slot. So the title is read back
exactly if it has no slash. -/
theorem exists_header_of_forFile {file : String} {options : Options}
    (hoptions : options = [("header", "yes"), ("name", title)]
      ∨ options = [("name", title), ("header", "yes")])
    (hone : 1 ≤ (Text.units title.toList).length)
    (hfits : (Text.units title.toList).length ≤ 119) (hzero : Char.ofNat 0 ∉ title.toList)
    (hmark : title.toList.head? ≠ some '\uffff') (s : Side) (rest : List Side) :
    ∃ image, forFile .layout file options = .ok image
      ∧ ∀ dat, ((s :: rest).foldl addSide image).bytes = .ok dat →
        ∃ h, (Flash.ofDump dat).header 0 = .ok h
          ∧ h = .titled (Text.baseName title.toList) (Flash.storedLeadIn s)
          ∧ (h.title = some title ∧ h.continuation = false ∧ h.isEmpty = false
            ↔ '/' ∉ title.toList) := by
  have hne : title ≠ "" := by
    rintro rfl
    simp [Text.units] at hone
  have himage : forFile .layout file options
      = .ok { file, settings := .layout true (some title) } := by
    rcases hoptions with rfl | rfl <;> rfl
  refine ⟨_, himage, fun dat hbytes => ⟨_, ?_, rfl, ?_⟩⟩
  · rw [foldl_addSide] at hbytes
    exact header_of_bytes rfl hne hfits hzero rfl hbytes
  · rw [← Text.baseName_eq_self_iff]
    constructor
    · rintro ⟨htitle, -⟩
      rw [SlotHeader.title_titled] at htitle
      split at htitle
      · cases htitle
      · exact String.toList_ofList.symm.trans (congrArg String.toList (Option.some.inj htitle))
    · intro hbase
      have hchars : title.toList ≠ [] := fun h => hne (String.toList_eq_nil_iff.mp h)
      rw [hbase, SlotHeader.titled, if_neg hchars, if_neg hmark, String.ofList_toList]
      exact ⟨rfl, rfl, rfl⟩

/-- A dump of one side without files has bytes, if its title does not end as an empty slot
begins. -/
lemma exists_bytes_emptySide (file : String) (htitle : title ≠ "")
    (hmark : (Text.baseName title.toList).head? ≠ some '\uffff') :
    ∃ dat, ([{ blocks := emptySide }].foldl addSide
      { file, settings := .layout true (some title) }).bytes = .ok dat := by
  let image : Image :=
    { file, settings := .layout true (some title), sides := [{ blocks := emptySide }] }
  have hsides : ∀ s ∈ image.sides, s.IsComplete := by
    simpa [image] using isComplete_emptySide (by simp)
  have hdump : image.dumpTitle (some title) = title := by
    rw [dumpTitle]
    exact htitle
  obtain ⟨dat, -, hbytes, -⟩ := exists_load_dump (show image.settings = _ from rfl)
    (List.cons_ne_nil _ _) hsides (by rwa [hdump]) (show (new .layout file).format = _ from rfl) rfl
  exact ⟨dat, hbytes⟩

/-- Nothing is left of a title that ends with a slash, and no disk seems to begin in the slot. -/
theorem exists_header_of_forFile_slash :
    1 ≤ (Text.units "disks/".toList).length ∧ (Text.units "disks/".toList).length ≤ 119
      ∧ Char.ofNat 0 ∉ "disks/".toList ∧ "disks/".toList.head? ≠ some '\uffff'
      ∧ ∃ image dat, forFile .layout "a.bin" [("header", "yes"), ("name", "disks/")] = .ok image
        ∧ ([{ blocks := emptySide }].foldl addSide image).bytes = .ok dat
        ∧ (Flash.ofDump dat).header 0
          = .ok { leadIn := some defaultLeadIn, continuation := true } := by
  have hone : 1 ≤ (Text.units "disks/".toList).length := by decide
  have hfits : (Text.units "disks/".toList).length ≤ 119 := by decide
  have hzero : Char.ofNat 0 ∉ "disks/".toList := by decide
  have hmark : "disks/".toList.head? ≠ some '\uffff' := by decide
  refine ⟨hone, hfits, hzero, hmark, ?_⟩
  obtain ⟨dat, hbytes⟩ := exists_bytes_emptySide "a.bin" (show "disks/" ≠ "" by decide) (by decide)
  obtain ⟨image, himage, hheader⟩ : ∃ image, forFile .layout "a.bin" _ = .ok image ∧ _ :=
    exists_header_of_forFile (.inl rfl) hone hfits hzero hmark { blocks := emptySide } []
  obtain rfl := Except.ok.inj himage
  obtain ⟨h, hread, rfl, -⟩ := hheader dat hbytes
  exact ⟨_, dat, himage, hbytes, hread⟩

/-- Not every title is read back: of one with a slash the end is. -/
theorem not_forall_title : ¬ ∀ (file title : String) (s : Side) (rest : List Side) (image : Image)
    (dat : List UInt8),
    1 ≤ (Text.units title.toList).length → (Text.units title.toList).length ≤ 119 →
    Char.ofNat 0 ∉ title.toList → title.toList.head? ≠ some '\uffff' →
    forFile .layout file [("header", "yes"), ("name", title)] = .ok image →
    ((s :: rest).foldl addSide image).bytes = .ok dat →
    ∃ h, (Flash.ofDump dat).header 0 = .ok h ∧ h.title = some title ∧ h.continuation = false
      ∧ h.isEmpty = false := by
  intro hall
  have hne : "AC/DC" ≠ "" := by decide
  obtain ⟨dat, hbytes⟩ := exists_bytes_emptySide "a.bin" hne (by decide)
  obtain ⟨h, hheader, htitle, -⟩ := hall "a.bin" "AC/DC" { blocks := emptySide } [] _ dat
    (by decide) (by decide) (by decide) (by decide) rfl hbytes
  have hread := header_of_bytes rfl hne (by decide) (by decide) rfl hbytes
  obtain rfl := Except.ok.inj (hheader.symm.trans hread)
  rw [SlotHeader.title_titled] at htitle
  revert htitle
  decide

end Image

end FamicomDisk
