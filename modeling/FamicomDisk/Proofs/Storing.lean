import FamicomDisk.Proofs.Slots

/-!
Storing a disk.

Whether a disk can be stored is told by the number of slots and by each side on its own, with its
header (`refusal?`), and all slots are made up before the first one is erased. So a disk is stored
as a whole, by one replacement of bytes that are just those of its slots, or not at all.

* `contents`: the bytes of a slot with a side.
* `perform_forM_erase_write`: storing slot after slot is one replacement.
* `Holds`: a slot holds a side, and reading gives that side back.
* `perform_writeSides`: **all or nothing**, and nothing but the slots of the disk.
-/

namespace FamicomDisk

namespace Flash

/-! ### What a slot is given -/

/-- The bytes of a slot that holds a side behind the bytes of its header. -/
def contents (head : List UInt8) (s : Side) : List UInt8 :=
  head ++ Layout.ofBlocks s.blocks
    ++ List.replicate (Layout.capacity - (Layout.ofBlocks s.blocks).length) 0

/-- Why a side of a disk, counted from zero, cannot be stored: its layout is too long, or its title is
no text, or its lead-in is no word. -/
def sideRefusal? (name : Text.Name) (s : Side) (i : Nat) : Option Fault :=
  let size := (Layout.ofBlocks s.blocks).length
  if Layout.capacity < size then some (.layoutFull ((size : Int) - Layout.capacity))
  else
    match headerFor name s i with
    | .error fault => some fault
    | .ok _ => if 0 ≤ storedLeadIn s ∧ storedLeadIn s ≤ 0xffff then none else some .recordMismatch

/-- Why a disk cannot be stored from a slot on: there are too few slots, or it has a side that
cannot be stored, the first one of which is told. -/
def refusal? (f : Flash) (slot : Nat) (name : Text.Name) (sides : List Side) : Option Fault :=
  if f.slots < slot + sides.length then some (.store (.tooFewSlots sides.length slot))
  else sides.zipIdx.findSome? fun (s, i) => sideRefusal? name s i

section

variable {name : Text.Name} {s : Side} {i : Nat} {h : SlotHeader}

/-- The header of a side has its lead-in, and is that of the first side, with the title, or continues
the disk. -/
lemma headerFor_cases (hheader : headerFor name s i = .ok h) :
    (i = 0 ∧ ∃ title, name.baseName = .ofString title
        ∧ h = { title := some title, leadIn := some (storedLeadIn s) })
      ∨ (i ≠ 0 ∧ h = { leadIn := some (storedLeadIn s), continuation := true }) := by
  rw [headerFor] at hheader
  split at hheader
  · next hfirst =>
    obtain ⟨title, htitle, hh⟩ := exists_of_bind_eq_ok hheader
    exact .inl ⟨hfirst, title, Text.Name.text_eq_ok_iff.mp htitle, (Except.ok.inj hh).symm⟩
  · next hfurther => exact .inr ⟨hfurther, (Except.ok.inj hheader).symm⟩

lemma headerFor_isEmpty (hheader : headerFor name s i = .ok h) : h.isEmpty = false := by
  obtain ⟨-, title, -, rfl⟩ | ⟨-, rfl⟩ := headerFor_cases hheader <;> rfl

lemma headerFor_leadIn (hheader : headerFor name s i = .ok h) :
    h.leadIn = some (storedLeadIn s) := by
  obtain ⟨-, title, -, rfl⟩ | ⟨-, rfl⟩ := headerFor_cases hheader <;> rfl

/-- The lead-in that is stored is that of the side, or the usual one if the side has none. -/
lemma storedLeadIn_eq (s : Side) :
    storedLeadIn s = if s.leadIn.getD 0 = 0 then defaultLeadIn else s.leadIn.getD 0 := by
  rw [storedLeadIn]
  split
  · next h => rw [h, Option.getD_some, if_pos rfl]
  · next h => rw [h, Option.getD_none, if_pos rfl]
  · next n hn h => rw [h, Option.getD_some, if_neg hn]

lemma storedLeadIn_ne_zero (s : Side) : storedLeadIn s ≠ 0 := by
  rw [storedLeadIn_eq]
  split
  · decide
  · assumption

/-- A side is framed if its layout is not too long. -/
lemma frame_of_not_lt (hroom : ¬ Layout.capacity < (Layout.ofBlocks s.blocks).length) :
    Layout.frame s = .ok (Layout.ofBlocks s.blocks) :=
  frame_eq_ok_iff.mpr ⟨layoutOf_ofBlock _, by omega⟩

/-- A side that cannot be stored has no slot. -/
lemma slotFor_of_refused {fault : Fault} (h : sideRefusal? name s i = some fault) :
    slotFor name s i = .error fault := by
  simp only [sideRefusal?] at h
  split at h
  · next hfull =>
    obtain rfl := Option.some.inj h
    have hframe : Layout.frame s = .error (.layoutFull
        (((Layout.ofBlocks s.blocks).length : Int) - Layout.capacity)) := if_pos (by omega)
    rw [slotFor]
    split
    · rw [slotImage, hframe, error_bind]
    · rw [hframe, error_bind]
  · next hroom =>
    have hframe := frame_of_not_lt hroom
    rw [slotFor]
    cases hheader : headerFor name s i with
    | error e =>
        rw [hheader] at h
        obtain rfl := Option.some.inj h
        dsimp only
        rw [hframe, ok_bind]
        rfl
    | ok header =>
        rw [hheader] at h
        dsimp only at h ⊢
        split at h
        · cases h
        · next hlead =>
          obtain rfl := Option.some.inj h
          have hpack : header.pack = .error .recordMismatch := by
            refine SlotHeader.pack_eq_error (headerFor_isEmpty hheader) ?_
            rwa [headerFor_leadIn hheader, Option.getD_some]
          rw [slotImage, hframe, ok_bind, hpack, error_bind]

/-- A side that can be stored has a slot: its header, its layout, and zeros. -/
lemma exists_slotFor (h : sideRefusal? name s i = none) :
    (Layout.ofBlocks s.blocks).length ≤ Layout.capacity
      ∧ ∃ header head, headerFor name s i = .ok header ∧ header.pack = .ok head
        ∧ slotFor name s i = .ok (contents head s) := by
  simp only [sideRefusal?] at h
  split at h
  · cases h
  · next hroom =>
    cases hheader : headerFor name s i with
    | error e =>
        rw [hheader] at h
        cases h
    | ok header =>
        rw [hheader] at h
        dsimp only at h
        split at h
        · next hlead =>
          have hword : 0 ≤ header.leadIn.getD 0 ∧ header.leadIn.getD 0 ≤ 0xffff := by
            rwa [headerFor_leadIn hheader, Option.getD_some]
          have hhead := (SlotHeader.pack_eq_ok_iff (headerFor_isEmpty hheader)).mpr ⟨hword, rfl⟩
          refine ⟨by omega, header, _, rfl, hhead, ?_⟩
          rw [slotFor, hheader]
          dsimp only
          rw [slotImage, frame_of_not_lt hroom, ok_bind, hhead, ok_bind]
          rfl
        · cases h

lemma length_contents {head : List UInt8} (hhead : head.length = slotHeaderSize)
    (hroom : (Layout.ofBlocks s.blocks).length ≤ Layout.capacity) :
    (contents head s).length = slotSize := by
  have hsize := slotSize_eq
  rw [contents, List.length_append, List.length_append, List.length_replicate]
  omega

end

section

variable {f : Flash} {slot : Nat} {name : Text.Name} {sides : List Side}

/-- If a side cannot be stored, no slots are made up. -/
lemma slotImages_of_refused {fault : Fault}
    (h : (sides.zipIdx.findSome? fun (s, i) => sideRefusal? name s i) = some fault) :
    slotImages name sides = .error fault := by
  obtain ⟨before, ⟨s, i⟩, behind, hsplit, hs, hbefore⟩ := List.findSome?_eq_some_iff.mp h
  rw [slotImages, hsplit]
  refine mapM_eq_error (x := (s, i)) ?_ (slotFor_of_refused hs) _
  rintro ⟨z, k⟩ hz
  obtain ⟨-, header, head, -, -, himage⟩ := exists_slotFor (hbefore (z, k) hz)
  exact ⟨_, himage⟩

/-- If all sides can be stored, each has its slot. -/
lemma exists_slotImages
    (h : (sides.zipIdx.findSome? fun (s, i) => sideRefusal? name s i) = none) :
    ∃ images, slotImages name sides = .ok images ∧ images.length = sides.length
      ∧ (∀ image ∈ images, image.length = slotSize)
      ∧ ∀ (i : Nat) (s : Side), sides[i]? = some s → ∃ header head,
        headerFor name s i = .ok header ∧ header.pack = .ok head
          ∧ images[i]? = some (contents head s) := by
  have hall := List.findSome?_eq_none_iff.mp h
  have hmade : ∀ x ∈ sides.zipIdx, ∃ image, slotFor name x.1 x.2 = .ok image := by
    rintro ⟨s, i⟩ hs
    obtain ⟨-, header, head, -, -, himage⟩ := exists_slotFor (hall (s, i) hs)
    exact ⟨_, himage⟩
  obtain ⟨images, himages, hlen, hget⟩ := exists_mapM_eq_ok hmade
  rw [List.length_zipIdx] at hlen
  have hslot : ∀ (i : Nat) (s : Side), sides[i]? = some s →
      (Layout.ofBlocks s.blocks).length ≤ Layout.capacity ∧ ∃ header head,
        headerFor name s i = .ok header ∧ header.pack = .ok head
          ∧ images[i]? = some (contents head s) := by
    intro i s hs
    have hzip : sides.zipIdx[i]? = some (s, i) := by simp [hs]
    obtain ⟨hroom, header, head, hheader, hhead, himage⟩ :=
      exists_slotFor (hall (s, i) (List.mem_of_getElem? hzip))
    obtain ⟨image, hi, himage'⟩ := hget i (s, i) hzip
    obtain rfl := Except.ok.inj (himage'.symm.trans himage)
    exact ⟨hroom, header, head, hheader, hhead, hi⟩
  refine ⟨images, himages, hlen, ?_, fun i s hs => (hslot i s hs).2⟩
  intro image himage
  obtain ⟨i, hi, rfl⟩ := List.getElem_of_mem himage
  obtain ⟨hroom, header, head, -, hhead, himage⟩ :=
    hslot i (sides[i]) (List.getElem?_eq_getElem (by omega))
  rw [List.getElem?_eq_getElem hi, Option.some.injEq] at himage
  rw [himage]
  exact length_contents (SlotHeader.length_pack hhead) hroom

end

/-! ### Writing slot after slot -/

section

variable {f : Flash} {slot : Nat} {image : List UInt8} {images : List (List UInt8)}

/-- What is replaced twice is what it is replaced with last. -/
lemma overwrite_again {offset : Nat} {dat dat' : List UInt8} (hlen : dat.length = dat'.length)
    (hfits : offset + dat.length ≤ f.bytes.length) :
    (f.overwrite offset dat).overwrite offset dat' = f.overwrite offset dat' := by
  have htake : (f.bytes.take offset).length = offset := by
    rw [List.length_take]
    omega
  simp only [overwrite]
  rw [List.append_assoc (List.take offset f.bytes) dat, List.take_left' htake, ← List.drop_drop,
    List.drop_left' htake, ← hlen, List.drop_left]

lemma perform_erase (f : Flash) (slot : Nat) :
    (erase slot).perform f
      = (.ok (), f.overwrite (slot * slotSize) (List.replicate slotSize 0xff)) := by
  rw [overwrite, List.length_replicate]
  rfl

lemma perform_write {offset : Nat} {dat : List UInt8} (h : offset + dat.length ≤ f.bytes.length) :
    (write offset dat).perform f = (.ok (), f.overwrite offset dat) := by
  have hfits : ¬ f.bytes.length < offset + dat.length := by omega
  rw [write, Action.perform_bind_ok (Action.perform_get f)]
  dsimp only
  rw [if_neg hfits]
  rfl

/-- Erasing a slot and writing all of it replaces its bytes. -/
lemma perform_erase_write (hlen : image.length = slotSize)
    (hfits : (slot + 1) * slotSize ≤ f.bytes.length) :
    (do erase slot; write (slot * slotSize) image : Action Flash Unit).perform f
      = (.ok (), f.overwrite (slot * slotSize) image) := by
  rw [Nat.add_one_mul] at hfits
  have herased : (List.replicate slotSize (0xff : UInt8)).length = slotSize := List.length_replicate
  rw [Action.perform_bind_ok (perform_erase f slot),
    perform_write (by rw [length_overwrite (by omega)]; omega),
    overwrite_again (by omega) (by omega)]

/-- Storing slot after slot replaces the bytes of all of them. -/
lemma perform_forM_erase_write (k : Nat) (hlen : ∀ image ∈ images, image.length = slotSize)
    (hfits : (slot + k + images.length) * slotSize ≤ f.bytes.length) :
    ((images.zipIdx k).forM fun (image, i) => do
        erase (slot + i)
        write ((slot + i) * slotSize) image : Action Flash Unit).perform f
      = (.ok (), f.overwrite ((slot + k) * slotSize) images.flatten) := by
  induction images generalizing f k with
  | nil =>
      rw [List.flatten_nil, overwrite_nil]
      rfl
  | cons image images ih =>
      have himage := hlen image (by simp)
      have hslot : (slot + k + 1) * slotSize ≤ f.bytes.length :=
        (Nat.mul_le_mul_right _ (by simp)).trans hfits
      have hrest : (slot + (k + 1) + images.length) * slotSize
          ≤ (f.overwrite ((slot + k) * slotSize) image).bytes.length := by
        rw [length_overwrite (by rw [himage, ← Nat.add_one_mul]; exact hslot)]
        refine le_of_eq_of_le ?_ hfits
        rw [List.length_cons]
        congr 1
        omega
      rw [List.zipIdx_cons, List.forM, Action.perform_bind_ok (perform_erase_write himage hslot),
        ih (k + 1) (fun z hz => hlen z (by simp [hz])) hrest, List.flatten_cons,
        ← overwrite_overwrite (by rw [himage, ← Nat.add_one_mul]; exact hslot), himage,
        ← Nat.add_one_mul, Nat.add_assoc]

/-! ### What the slots hold -/

/-- The slots that were replaced hold what they were replaced with. -/
lemma slotBytes_overwrite {i : Nat} (hlen : ∀ image ∈ images, image.length = slotSize)
    (hfits : (slot + images.length) * slotSize ≤ f.bytes.length) (hi : images[i]? = some image) :
    (f.overwrite (slot * slotSize) images.flatten).slotBytes (slot + i) = image := by
  have hall := length_flatten_of_forall hlen
  have hbelow : (i + 1) * slotSize ≤ images.length * slotSize :=
    Nat.mul_le_mul_right _ (List.getElem?_eq_some_iff.mp hi).1
  rw [Nat.add_mul] at hfits
  rw [Nat.add_one_mul] at hbelow
  rw [slotBytes, Nat.add_mul, take_drop_overwrite (by omega) (by omega), take_drop_flatten hlen hi]

/-- The slots before and behind are as before. -/
lemma slotBytes_overwrite_of_notMem {i : Nat} (hlen : ∀ image ∈ images, image.length = slotSize)
    (hfits : (slot + images.length) * slotSize ≤ f.bytes.length)
    (hi : i < slot ∨ slot + images.length ≤ i) :
    (f.overwrite (slot * slotSize) images.flatten).slotBytes i = f.slotBytes i := by
  have hall : slot * slotSize + images.flatten.length = (slot + images.length) * slotSize := by
    rw [length_flatten_of_forall hlen, Nat.add_mul]
  refine slotBytes_congr fun j hj hj' => getElem?_overwrite (by omega) ?_
  rcases hi with hi | hi
  · have hslot : (i + 1) * slotSize ≤ slot * slotSize := Nat.mul_le_mul_right _ hi
    exact .inl (by omega)
  · have hslot : (slot + images.length) * slotSize ≤ i * slotSize := Nat.mul_le_mul_right _ hi
    exact .inr (by omega)

end

/-- A slot holds a side under a header: all its bytes are those of the header, the layout of the
side, and zeros, and reading it gives what is left of the header, with the lead-in of the side or
the usual one if it has none, and for a standard side its blocks, without a fault. -/
structure Holds (f : Flash) (slot : Nat) (h : SlotHeader) (s : Side) : Prop where
  contents_eq : ∃ head, h.pack = .ok head ∧ head.length = slotHeaderSize
    ∧ f.slotBytes slot = contents head s
  length_eq : (f.slotBytes slot).length = slotSize
  leadIn_eq :
    h.stored.leadIn = some (if s.leadIn.getD 0 = 0 then defaultLeadIn else s.leadIn.getD 0)
  reads : ∃ s', f.side slot = .ok (h.stored, s') ∧ s'.leadIn = h.stored.leadIn
    ∧ (IsStandard s.blocks → s'.blocks = s.blocks ∧ s'.diagnostics = [])

section

variable {f : Flash} {slot i : Nat} {name : Text.Name} {s : Side} {sides : List Side}
variable {h : SlotHeader}

/-- What is stored with a side does not begin as the header of an empty slot. -/
lemma head?_storedUnits_headerFor (hheader : headerFor name s i = .ok h)
    (hname : name.baseName.points.head? ≠ some (.char '\uffff')) :
    h.storedUnits.head? ≠ some 0xffff := by
  obtain ⟨-, title, htitle, rfl⟩ | ⟨-, rfl⟩ := headerFor_cases hheader
  · have hfirst : title.toList.head? ≠ some '\uffff' := by
      intro hbad
      rw [htitle, Text.Name.ofString, List.head?_map, hbad] at hname
      exact hname rfl
    have hunits := mt (Text.head?_units_eq_iff title.toList).mp hfirst
    simp only [SlotHeader.storedUnits, Option.getD_some, Bool.false_eq_true, if_false]
    rwa [List.head?_take, if_neg (by decide)]
  · simp [SlotHeader.storedUnits]

/-- The lead-in is left of a header in its bytes. -/
lemma stored_headerFor_leadIn (hheader : headerFor name s i = .ok h) :
    h.stored.leadIn = some (storedLeadIn s) := by
  have hlead : (if h.leadIn.getD 0 = 0 then none else h.leadIn) = some (storedLeadIn s) := by
    rw [headerFor_leadIn hheader, Option.getD_some, if_neg (storedLeadIn_ne_zero s)]
  rw [SlotHeader.stored, hlead]
  dsimp only
  split <;> rfl

/-- Reading the bytes that a slot was given. -/
lemma ofSlotBytes_contents {head : List UInt8}
    (hne : h.isEmpty = false) (hfirst : h.storedUnits.head? ≠ some 0xffff)
    (hpack : h.pack = .ok head) :
    ∃ s', ofSlotBytes (contents head s) = .ok (h.stored, s') ∧ s'.leadIn = h.stored.leadIn
      ∧ (IsStandard s.blocks → s'.blocks = s.blocks ∧ s'.diagnostics = []) := by
  have hlen := SlotHeader.length_pack hpack
  have hunpack : SlotHeader.unpack (contents head s) = .ok h.stored := by
    rw [← SlotHeader.unpack_take, contents, List.append_assoc, List.take_left' hlen,
      SlotHeader.unpack_pack hne hfirst hpack]
  obtain ⟨s', hwalk, hleadIn⟩ := Layout.exists_walk ((contents head s).drop slotHeaderSize)
    h.stored.leadIn
  refine ⟨s', ?_, hleadIn, ?_⟩
  · rw [ofSlotBytes, hunpack, ok_bind, hwalk, ok_bind]
    rfl
  · intro hstandard
    rw [contents, List.append_assoc, List.drop_left' hlen,
      Layout.walk_ofBlocks _ _ hstandard.inOrder] at hwalk
    obtain rfl := Except.ok.inj hwalk
    exact ⟨rfl, rfl⟩

/-- A disk that cannot be stored leaves the memory alone. -/
lemma perform_writeSides_of_refused {fault : Fault} (h : f.refusal? slot name sides = some fault) :
    (writeSides slot name sides).perform f = (.error fault, f) := by
  rw [refusal?] at h
  rw [writeSides, Action.perform_bind_ok (Action.perform_get f)]
  split at h
  · next hfew =>
    obtain rfl := Option.some.inj h
    rw [if_pos hfew]
    rfl
  · next hfits =>
    rw [if_neg hfits, slotImages_of_refused h]
    exact Action.perform_bind_error rfl _

/-- A disk that can be stored replaces the bytes of its slots. -/
lemma exists_perform_writeSides (hwhole : f.IsWhole) (h : f.refusal? slot name sides = none) :
    ∃ images : List (List UInt8), (writeSides slot name sides).perform f
        = (.ok (), f.overwrite (slot * slotSize) images.flatten)
      ∧ (slot + images.length) * slotSize ≤ f.bytes.length
      ∧ images.length = sides.length ∧ (∀ image ∈ images, image.length = slotSize)
      ∧ ∀ (i : Nat) (s : Side), sides[i]? = some s → ∃ header head,
        headerFor name s i = .ok header ∧ header.pack = .ok head
          ∧ images[i]? = some (contents head s) := by
  rw [refusal?] at h
  split at h
  · cases h
  · next hfits =>
    obtain ⟨images, himages, hlen, hsize, hget⟩ := exists_slotImages h
    have hroom : (slot + images.length) * slotSize ≤ f.slots * slotSize :=
      Nat.mul_le_mul_right _ (by omega)
    rw [IsWhole] at hwhole
    refine ⟨images, ?_, hroom.trans hwhole, hlen, hsize, hget⟩
    rw [writeSides, Action.perform_bind_ok (Action.perform_get f), if_neg hfits, himages]
    exact perform_forM_erase_write 0 hsize (hroom.trans hwhole)

/-- The slots of a disk hold its sides. -/
lemma holds_overwrite {images : List (List UInt8)} {head : List UInt8}
    (hname : name.baseName.points.head? ≠ some (.char '\uffff'))
    (hlen : ∀ image ∈ images, image.length = slotSize)
    (hfits : (slot + images.length) * slotSize ≤ f.bytes.length)
    (hheader : headerFor name s i = .ok h) (hpack : h.pack = .ok head)
    (hi : images[i]? = some (contents head s)) :
    (f.overwrite (slot * slotSize) images.flatten).Holds (slot + i) h s := by
  have hbytes := slotBytes_overwrite hlen hfits hi
  have hlength : (f.overwrite (slot * slotSize) images.flatten).bytes.length = f.bytes.length :=
    length_overwrite (by rwa [length_flatten_of_forall hlen, ← Nat.add_mul])
  have hslot : (slot + i + 1) * slotSize
      ≤ (f.overwrite (slot * slotSize) images.flatten).bytes.length := by
    have := (List.getElem?_eq_some_iff.mp hi).1
    rw [hlength]
    exact (Nat.mul_le_mul_right _ (by omega)).trans hfits
  obtain ⟨s', hs', hleadIn, hstandard⟩ := ofSlotBytes_contents (s := s)
    (headerFor_isEmpty hheader) (head?_storedUnits_headerFor hheader hname) hpack
  refine ⟨⟨head, hpack, SlotHeader.length_pack hpack, hbytes⟩, length_slotBytes hslot, ?_,
    s', by rw [side_eq hslot, hbytes, hs'], hleadIn, hstandard⟩
  rw [stored_headerFor_leadIn hheader, storedLeadIn_eq]

/-- **All or nothing**: a disk that cannot be stored leaves the memory as it was, and one that can
be stored changes the bytes of its slots only, each of which then holds its side. The title must
not begin with the character whose number marks an empty slot. -/
theorem perform_writeSides (name : Text.Name) (sides : List Side) (slot : Nat)
    (hwhole : f.IsWhole) (hname : name.baseName.points.head? ≠ some (.char '\uffff')) :
    (∃ fault, f.refusal? slot name sides = some fault
        ∧ (writeSides slot name sides).perform f = (.error fault, f))
      ∨ (f.refusal? slot name sides = none
        ∧ ∃ f', (writeSides slot name sides).perform f = (.ok (), f')
          ∧ f'.slots = f.slots ∧ f'.bytes.length = f.bytes.length
          ∧ (∀ i, i < slot * slotSize ∨ (slot + sides.length) * slotSize ≤ i →
              f'.bytes[i]? = f.bytes[i]?)
          ∧ ∀ (i : Nat) (s : Side), sides[i]? = some s →
              ∃ h, headerFor name s i = .ok h ∧ f'.Holds (slot + i) h s) := by
  cases hrefused : f.refusal? slot name sides with
  | some fault => exact .inl ⟨fault, rfl, perform_writeSides_of_refused hrefused⟩
  | none =>
      refine .inr ⟨rfl, ?_⟩
      obtain ⟨images, hperform, hfits, hlen, hsize, hget⟩ :=
        exists_perform_writeSides hwhole hrefused
      have hall : slot * slotSize + images.flatten.length = (slot + images.length) * slotSize := by
        rw [length_flatten_of_forall hsize, Nat.add_mul]
      have hflat : slot * slotSize + images.flatten.length ≤ f.bytes.length := by
        rw [hall]
        exact hfits
      refine ⟨_, hperform, slots_overwrite f _ _, length_overwrite hflat, ?_, ?_⟩
      · intro i hi
        rw [← hlen, ← hall] at hi
        exact getElem?_overwrite hflat hi
      · intro i s hs
        obtain ⟨h, head, hheader, hpack, himage⟩ := hget i s hs
        exact ⟨h, hheader, holds_overwrite hname hsize hfits hheader hpack himage⟩

/-- A side with one file fits into an erased memory of one slot. -/
theorem perform_writeSides_oneFile :
    ∃ f', (writeSides 0 "disk" [{ blocks := oneFile }]).perform (erased 1) = (.ok (), f')
      ∧ f'.Holds 0 { title := some "disk", leadIn := some defaultLeadIn }
        { blocks := oneFile } := by
  have haccepted : (erased 1).refusal? 0 "disk" [{ blocks := oneFile }] = none := by
    decide +kernel
  obtain ⟨fault, hfault, -⟩ | ⟨-, f', hperform, -, -, -, hholds⟩ :=
    perform_writeSides "disk" [{ blocks := oneFile }] 0
      (isWhole_erased 1) (by decide)
  · rw [haccepted] at hfault
    cases hfault
  · obtain ⟨h, hheader, hholds⟩ := hholds 0 _ rfl
    obtain rfl := Except.ok.inj hheader
    exact ⟨f', hperform, hholds⟩

end

end Flash

end FamicomDisk
