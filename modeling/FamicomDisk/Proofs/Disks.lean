import FamicomDisk.Proofs.Storing

/-!
Reading back a stored disk.

The sides of a disk are read as long as the slots continue it. Those that were just stored do, and
then come slots of earlier disks, which the store left as they were: where such a slot was a further
side of a disk that has lost its beginning, it is read as a side of the disk stored now.

* `Reachable`: the memories that storing disks leads to, all of which are whole.
* `exists_continuations_own`: further sides that were stored are read, and then what follows them.
* `exists_sides_writeSides`: **what is read of a disk just stored**: its sides, and those that
  continued an earlier disk behind them.
* `not_forall_sides_writeSides`: the latter do occur.
-/

namespace FamicomDisk

namespace Flash

/-- The memories reached from an erased one by storing disks. -/
inductive Reachable (slots : Nat) : Flash → Prop where
  | erased : Reachable slots (erased slots)
  | stored {f f' : Flash} {slot : Nat} {name : Text.Name} {sides : List Side}
      (before : Reachable slots f)
      (store : (writeSides slot name sides).perform f = (.ok (), f')) : Reachable slots f'

variable {f f' : Flash} {slot slots : Nat} {name : Text.Name} {sides : List Side}

/-- What was stored replaced the bytes of its slots by those of its sides. -/
lemma exists_images_of_store (hwhole : f.IsWhole)
    (hstore : (writeSides slot name sides).perform f = (.ok (), f')) :
    slot + sides.length ≤ f.slots ∧ ∃ images : List (List UInt8),
      f' = f.overwrite (slot * slotSize) images.flatten
      ∧ f'.bytes.length = f.bytes.length ∧ (slot + images.length) * slotSize ≤ f.bytes.length
      ∧ images.length = sides.length ∧ (∀ image ∈ images, image.length = slotSize)
      ∧ ∀ (i : Nat) (s : Side), sides[i]? = some s → ∃ header head,
        headerFor name s i = .ok header ∧ header.pack = .ok head
          ∧ images[i]? = some (contents head s) := by
  cases hrefused : f.refusal? slot name sides with
  | some fault =>
      rw [perform_writeSides_of_refused hrefused] at hstore
      cases hstore
  | none =>
      obtain ⟨images, hperform, hfits, hlen, hsize, hget⟩ :=
        exists_perform_writeSides hwhole hrefused
      obtain rfl : f.overwrite (slot * slotSize) images.flatten = f' :=
        congrArg Prod.snd (hperform.symm.trans hstore)
      have hslots : slot + sides.length ≤ f.slots := by
        rw [refusal?] at hrefused
        split at hrefused
        · cases hrefused
        · next hroom => exact Nat.le_of_not_lt hroom
      have hbytes : slot * slotSize + images.flatten.length ≤ f.bytes.length := by
        rwa [length_flatten_of_forall hsize, ← Nat.add_mul]
      exact ⟨hslots, images, rfl, length_overwrite hbytes, hfits, hlen, hsize, hget⟩

/-- Storing a disk leaves a memory whole. -/
lemma isWhole_writeSides (hwhole : f.IsWhole)
    (hstore : (writeSides slot name sides).perform f = (.ok (), f')) :
    f'.IsWhole ∧ f'.slots = f.slots := by
  obtain ⟨-, images, rfl, hbytes, -⟩ := exists_images_of_store hwhole hstore
  rw [IsWhole] at hwhole ⊢
  rw [hbytes, slots_overwrite]
  exact ⟨hwhole, rfl⟩

/-- A memory is whole whatever was stored in it. -/
lemma Reachable.isWhole (h : Reachable slots f) : f.IsWhole ∧ f.slots = slots := by
  induction h with
  | erased => exact ⟨isWhole_erased slots, rfl⟩
  | stored _ hstore ih =>
      obtain ⟨hwhole, hslots⟩ := isWhole_writeSides ih.1 hstore
      exact ⟨hwhole, hslots.trans ih.2⟩

/-- A header that is read of a slot is the one the slot is read with. -/
lemma header_of_side {h : SlotHeader} {s : Side} (hside : f.side slot = .ok (h, s)) :
    f.header slot = .ok h := by
  obtain ⟨header, hheader, hrest⟩ := exists_of_bind_eq_ok hside
  obtain ⟨dat, -, hrest⟩ := exists_of_bind_eq_ok hrest
  obtain ⟨s', -, hrest⟩ := exists_of_bind_eq_ok hrest
  obtain rfl : header = h := congrArg Prod.fst (Except.ok.inj hrest)
  exact hheader

/-- The header of a further side says so. -/
lemma stored_headerFor_succ {h : SlotHeader} {s : Side} {i : Nat}
    (hheader : headerFor name s (i + 1) = .ok h) : h.stored.continuation = true := by
  obtain rfl := Except.ok.inj hheader
  rfl

/-- A slot with a header that is not empty is not read as an empty one. -/
lemma stored_isEmpty (h : SlotHeader) : h.stored.isEmpty = false := by
  rw [SlotHeader.stored]
  dsimp only
  split <;> rfl

/-! ### Reading further sides -/

/-- Further sides that were stored are read one after the other, and then what follows them. -/
lemma exists_continuations_own {rest : Nat} {left : List Side}
    (hown : ∀ (i : Nat) (s : Side), sides[i]? = some s → ∃ h s', f.side (slot + i) = .ok (h, s')
      ∧ h.continuation = true ∧ s'.blocks = s.blocks ∧ s'.diagnostics = [])
    (hleft : f.continuations rest (slot + sides.length) = .ok left) :
    ∃ own, f.continuations (sides.length + rest) slot = .ok (own ++ left)
      ∧ own.map Side.blocks = sides.map Side.blocks ∧ ∀ s ∈ own, s.diagnostics = [] := by
  induction sides generalizing slot with
  | nil =>
      rw [List.length_nil, Nat.add_zero] at hleft
      exact ⟨[], by rw [List.length_nil, Nat.zero_add, hleft, List.nil_append], rfl, by simp⟩
  | cons s sides ih =>
      obtain ⟨h, s', hside, hcontinued, hblocks, hfaults⟩ := hown 0 s rfl
      rw [Nat.add_zero] at hside
      rw [List.length_cons, Nat.add_comm sides.length, ← Nat.add_assoc] at hleft
      have hnext : ∀ (i : Nat) (z : Side), sides[i]? = some z →
          ∃ h s', f.side (slot + 1 + i) = .ok (h, s')
            ∧ h.continuation = true ∧ s'.blocks = z.blocks ∧ s'.diagnostics = [] := by
        intro i z hz
        rw [Nat.add_assoc, Nat.add_comm 1 i]
        exact hown (i + 1) z (by simpa using hz)
      obtain ⟨own, hrest, hown', hclean⟩ := ih hnext hleft
      refine ⟨s' :: own, ?_, by simp [hblocks, hown'], ?_⟩
      · rw [List.length_cons, Nat.add_right_comm, continuations, header_of_side hside, ok_bind,
          if_pos hcontinued, hside, ok_bind, hrest, ok_bind]
        rfl
      · intro z hz
        rcases List.mem_cons.mp hz with rfl | hz
        · exact hfaults
        · exact hclean z hz

/-- Nothing follows a disk just if the slot behind it does not continue one. -/
lemma left_eq_nil_iff {behind : Nat} {left : List Side} (hwhole : f.IsWhole)
    (hslots : behind ≤ f.slots) (hleft : f.continuations (f.slots - behind) behind = .ok left) :
    left = [] ↔ ∀ header, behind < f.slots → f.header behind = .ok header →
      header.continuation = false := by
  have hbehind : (behind + (f.slots - behind)) * slotSize ≤ f.bytes.length := by
    rw [Nat.add_sub_cancel' hslots]
    exact hwhole
  obtain ⟨left', hleft', hiff⟩ := exists_continuations hbehind
  obtain rfl := Except.ok.inj (hleft.symm.trans hleft')
  rw [hiff]
  exact forall_congr' fun header => by rw [Nat.sub_pos_iff_lt]

/-- Every slot of a disk just stored is read as its side, without a fault. -/
lemma exists_side_of_store (hwhole : f.IsWhole)
    (hname : name.baseName.points.head? ≠ some (.char '\uffff'))
    (hstandard : ∀ s ∈ sides, IsStandard s.blocks)
    (hstore : (writeSides slot name sides).perform f = (.ok (), f'))
    {i : Nat} {s : Side} (hs : sides[i]? = some s) :
    ∃ h s', headerFor name s i = .ok h ∧ f'.side (slot + i) = .ok (h.stored, s')
      ∧ s'.blocks = s.blocks ∧ s'.diagnostics = [] := by
  obtain ⟨-, images, rfl, -, hfits, -, hsize, hget⟩ := exists_images_of_store hwhole hstore
  obtain ⟨h, head, hheader, hpack, himage⟩ := hget i s hs
  obtain ⟨-, -, -, s', hside, -, hblocks⟩ :=
    holds_overwrite hname hsize hfits hheader hpack himage
  exact ⟨h, s', hheader, hside, hblocks (hstandard s (List.mem_of_getElem? hs))⟩

/-- What stands behind a disk just stored is as before. -/
lemma exists_continuations_of_store (hwhole : f.IsWhole)
    (hstore : (writeSides slot name sides).perform f = (.ok (), f')) :
    ∃ left, f.continuations (f.slots - (slot + sides.length)) (slot + sides.length) = .ok left
      ∧ f'.continuations (f.slots - (slot + sides.length)) (slot + sides.length) = .ok left := by
  obtain ⟨hslots, images, rfl, hbytes, hfits, hlen, hsize, -⟩ :=
    exists_images_of_store hwhole hstore
  have hbehind : (slot + sides.length + (f.slots - (slot + sides.length))) * slotSize
      ≤ f.bytes.length := by
    rw [Nat.add_sub_cancel' hslots]
    exact hwhole
  obtain ⟨left, hleft, -⟩ := exists_continuations hbehind
  refine ⟨left, hleft, ?_⟩
  rw [← hleft]
  refine continuations_congr (by rw [hbytes]; exact hbehind) hbehind fun k hk _ => ?_
  exact slotBytes_overwrite_of_notMem hsize hfits (.inr (by omega))

/-- What is read of a disk just stored in a whole memory. -/
lemma exists_sides_of_store (hwhole : f.IsWhole)
    (hname : name.baseName.points.head? ≠ some (.char '\uffff')) (hne : sides ≠ [])
    (hstandard : ∀ s ∈ sides, IsStandard s.blocks)
    (hstore : (writeSides slot name sides).perform f = (.ok (), f')) :
    ∃ own left, f'.sides slot = .ok (own ++ left)
      ∧ own.map Side.blocks = sides.map Side.blocks ∧ (∀ s ∈ own, s.diagnostics = [])
      ∧ f.continuations (f.slots - (slot + sides.length)) (slot + sides.length) = .ok left := by
  obtain ⟨left, hleft, hleft'⟩ := exists_continuations_of_store hwhole hstore
  have hslots := (exists_images_of_store hwhole hstore).1
  cases sides with
  | nil => exact absurd rfl hne
  | cons first sides =>
      obtain ⟨h, s', -, hside, hblocks, hfaults⟩ :=
        exists_side_of_store hwhole hname hstandard hstore (i := 0) rfl
      rw [Nat.add_zero] at hside
      rw [List.length_cons] at hslots
      rw [List.length_cons, Nat.add_comm sides.length, ← Nat.add_assoc] at hleft hleft'
      -- all sides but the first continue the disk
      have hnext : ∀ (i : Nat) (s : Side), sides[i]? = some s →
          ∃ h s', f'.side (slot + 1 + i) = .ok (h, s')
            ∧ h.continuation = true ∧ s'.blocks = s.blocks ∧ s'.diagnostics = [] := by
        intro i s hs
        obtain ⟨h, s', hheader, hs', hboth⟩ :=
          exists_side_of_store hwhole hname hstandard hstore (i := i + 1) (by simpa using hs)
        rw [Nat.add_assoc, Nat.add_comm 1 i]
        exact ⟨h.stored, s', hs', stored_headerFor_succ hheader, hboth⟩
      obtain ⟨own, hrest, hown, hclean⟩ := exists_continuations_own hnext hleft'
      have hcount : f'.slots - (slot + 1)
          = sides.length + (f.slots - (slot + 1 + sides.length)) := by
        rw [(isWhole_writeSides hwhole hstore).2]
        omega
      refine ⟨s' :: own, left, ?_, by simp [hblocks, hown], ?_, ?_⟩
      · rw [Flash.sides, header_of_side hside, ok_bind, stored_isEmpty, hside, hcount, hrest]
        rfl
      · intro z hz
        rcases List.mem_cons.mp hz with rfl | hz
        · exact hfaults
        · exact hclean z hz
      · rw [List.length_cons, Nat.add_comm sides.length, ← Nat.add_assoc]
        exact hleft

/-- **What is read of a disk just stored**, whatever was stored before: its sides, without a fault,
and then those that continue an earlier disk in the slots behind it. There are none of these just
if there is no slot behind the disk, or it does not continue an earlier one. -/
theorem exists_sides_writeSides (hreach : Reachable slots f)
    (hname : name.baseName.points.head? ≠ some (.char '\uffff')) (hne : sides ≠ [])
    (hstandard : ∀ s ∈ sides, IsStandard s.blocks)
    (hstore : (writeSides slot name sides).perform f = (.ok (), f')) :
    ∃ own left, f'.sides slot = .ok (own ++ left)
      ∧ own.map Side.blocks = sides.map Side.blocks ∧ (∀ s ∈ own, s.diagnostics = [])
      ∧ f.continuations (slots - (slot + sides.length)) (slot + sides.length) = .ok left
      ∧ (left = [] ↔ ∀ header, slot + sides.length < slots →
          f.header (slot + sides.length) = .ok header → header.continuation = false) := by
  obtain ⟨hwhole, rfl⟩ := hreach.isWhole
  obtain ⟨own, left, hsides, hblocks, hclean, hleft⟩ :=
    exists_sides_of_store hwhole hname hne hstandard hstore
  refine ⟨own, left, hsides, hblocks, hclean, hleft, ?_⟩
  exact left_eq_nil_iff hwhole (exists_images_of_store hwhole hstore).1 hleft

/-! ### A side without a beginning -/

/-- A disk of one side stored over the first side of another one leaves the second side of that
behind it. -/
lemma exists_behind {s : Side} (hroom : (erased 2).refusal? 0 "first" [s, s] = none)
    (hroom' : sideRefusal? "second" s 0 = none) :
    ∃ f₁ f₂ h, (writeSides 0 "first" [s, s]).perform (Flash.erased 2) = (.ok (), f₁)
      ∧ (writeSides 0 "second" [s]).perform f₁ = (.ok (), f₂)
      ∧ f₁.header 1 = .ok h ∧ h.continuation = true := by
  obtain ⟨images, hfirst, hfits, -, hsize, hget⟩ :=
    exists_perform_writeSides (isWhole_erased 2) hroom
  obtain ⟨hwhole, hslots⟩ := isWhole_writeSides (isWhole_erased 2) hfirst
  obtain ⟨_, hsecond, -⟩ := exists_perform_writeSides hwhole
    (show refusal? _ 0 "second" [s] = none by
      rw [refusal?, hslots, List.length_singleton, if_neg (by decide)]
      simp [hroom'])
  obtain ⟨h, head, hheader, hpack, himage⟩ := hget 1 s rfl
  obtain ⟨-, -, -, s', hside, -⟩ :=
    holds_overwrite (by decide) hsize hfits hheader hpack himage
  rw [Nat.zero_add] at hside
  exact ⟨_, _, _, hfirst, hsecond, header_of_side hside, stored_headerFor_succ hheader⟩

/-- Of two disks with the same file, the second side of the first one is read with the second. -/
theorem exists_sides_writeSides_oneFile :
    ∃ f₁ f₂ own left, (writeSides 0 "first" [{ blocks := oneFile }, { blocks := oneFile }]).perform
        (Flash.erased 2) = (.ok (), f₁)
      ∧ (writeSides 0 "second" [{ blocks := oneFile }]).perform f₁ = (.ok (), f₂)
      ∧ f₂.sides 0 = .ok (own ++ left) ∧ own.map Side.blocks = [oneFile] ∧ left ≠ [] := by
  obtain ⟨f₁, f₂, h, hfirst, hsecond, hheader, hcontinued⟩ :=
    @exists_behind { blocks := oneFile } (by decide +kernel) (by decide +kernel)
  obtain ⟨own, left, hsides, hblocks, -, -, hiff⟩ := exists_sides_writeSides
    (.stored .erased hfirst) (by decide) (by simp) (by simp [isStandard_oneFile]) hsecond
  refine ⟨f₁, f₂, own, left, hfirst, hsecond, hsides, hblocks, fun hnil => ?_⟩
  rw [hiff.mp hnil h (by decide) hheader] at hcontinued
  cases hcontinued

/-- A side without files and without a lead-in of its own. -/
def noFiles : Side := { blocks := emptySide }

/-- So a disk that was stored, under a name of letters and digits, is not always what is read. -/
theorem not_forall_sides_writeSides :
    ¬ ∀ (slots : Nat) (f f' : Flash) (slot : Nat) (name : String) (sides : List Side),
      Reachable slots f → name.toList ≠ [] → (∀ c ∈ name.toList, c.isAlphanum) →
      sides ≠ [] → (∀ s ∈ sides, IsStandard s.blocks) →
      (writeSides slot name sides).perform f = (.ok (), f') →
      ∃ own, f'.sides slot = .ok own ∧ own.length = sides.length
        ∧ own.map Side.blocks = sides.map Side.blocks ∧ ∀ s ∈ own, s.diagnostics = [] := by
  intro hall
  obtain ⟨f₁, f₂, h, hfirst, hsecond, hheader, hcontinued⟩ :=
    @exists_behind noFiles (by decide +kernel) (by decide +kernel)
  have hreach : Reachable 2 f₁ := .stored .erased hfirst
  have hstandard : ∀ s ∈ [noFiles], IsStandard s.blocks := by simp [noFiles, isStandard_emptySide]
  obtain ⟨read, hread, hlen, -⟩ := hall 2 f₁ f₂ 0 "second" [noFiles] hreach (by simp) (by simp)
    (by simp) hstandard hsecond
  obtain ⟨own, left, hsides, hblocks, -, hleft⟩ :=
    exists_sides_of_store hreach.isWhole.1 (by decide) (by simp) hstandard hsecond
  -- the sides that are read are as many as were stored, so none follows them
  obtain rfl : read = own ++ left := Except.ok.inj (hread.symm.trans hsides)
  have hown : own.length = 1 := by simpa using congrArg List.length hblocks
  have hnil : left = [] := by
    rw [List.length_append, hown, List.length_singleton] at hlen
    exact List.length_eq_zero_iff.mp (by omega)
  have hslots := hreach.isWhole.2
  rw [(left_eq_nil_iff hreach.isWhole.1 (by rw [hslots]; decide) hleft).mp hnil h
    (by rw [hslots]; decide) hheader] at hcontinued
  cases hcontinued

end Flash

end FamicomDisk
