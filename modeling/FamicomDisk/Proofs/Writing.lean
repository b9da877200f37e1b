import FamicomDisk.Command.Convert
import FamicomDisk.Proofs.Paths

/-!
Writing the file of an image.

The file is opened first, then the image is filled, and its bytes are made and written last. If the
filling fails the file is removed again, and if there is no fault it holds the bytes of the image. But
a fault of the last step comes behind the point where the file would be removed: an image that has no
bytes leaves an empty file, and what the file held before is lost.

* `contents_of_forFile`: options change neither the name of an image nor its sides.
* `IsFilling`: the image is filled without a look at the files.
* `Ending`: the five ways in which writing ends, and `exists_ending_writeFile`: **it ends in one of
  them**, and no other file changes.
* `Ending.allOrNothing_iff`: four of them are all or nothing.
* `exists_ending_of_forFile`: images whose sides are emitted, and `not_forall_allOrNothing`.
* `Command.Convert.exists_ending_of_addSides`: images whose sides are converted.
-/

namespace FamicomDisk

namespace Action

variable {σ α β γ : Type} {part : σ → γ}

/-! ### What an action leaves alone -/

/-- An action leaves a part of the state alone, whether it fails or not. -/
def Keeps (part : σ → γ) (x : Action σ α) : Prop := ∀ s, part (x.perform s).2 = part s

lemma keeps_pure (a : α) : (pure a : Action σ α).Keeps part := fun _ => rfl

lemma keeps_throw (cause : Fault) : (throw cause : Action σ α).Keeps part := fun _ => rfl

lemma keeps_get : (get : Action σ σ).Keeps part := fun _ => rfl

lemma keeps_liftM (e : Except Fault α) : (liftM e : Action σ α).Keeps part := fun _ => rfl

lemma keeps_ofExcept (e : Except Fault α) : (ofExcept e : Action σ α).Keeps part := fun _ => rfl

lemma keeps_modify {change : σ → σ} (h : ∀ s, part (change s) = part s) :
    (modify change : Action σ Unit).Keeps part := h

lemma Keeps.eq_of_perform {x : Action σ α} {s s' : σ} {result : Except Fault α}
    (hx : x.Keeps part) (h : x.perform s = (result, s')) : part s' = part s := by
  rw [← hx s, h]

lemma Keeps.bind {x : Action σ α} {f : α → Action σ β} (hx : x.Keeps part)
    (hf : ∀ a, (f a).Keeps part) : (x >>= f).Keeps part := by
  intro s
  rw [perform_bind]
  have hs := hx s
  split
  · next a s' h => rw [hf a s', ← hs, h]
  · next cause s' h => rw [← hs, h]

lemma keeps_forM {f : α → Action σ Unit} (h : ∀ a, (f a).Keeps part) (as : List α) :
    (as.forM f).Keeps part := by
  induction as with
  | nil => exact keeps_pure ()
  | cons a as ih => exact (h a).bind fun _ => ih

lemma keeps_foldlM {f : β → α → Action σ β} (h : ∀ b a, (f b a).Keeps part) (as : List α) (b : β) :
    (as.foldlM f b).Keeps part := by
  induction as generalizing b with
  | nil => exact keeps_pure b
  | cons a as ih =>
      rw [List.foldlM_cons]
      exact (h b a).bind fun b' => ih b'

end Action

open FamicomDisk.Action

namespace Image

/-! ### Options -/

/-- What an image is called and what it holds, without its options. -/
def contents (i : Image) : String × List Side := (i.file, i.sides)

section

variable {γ : Type} {part : Image → γ}
  (hpart : ∀ (i : Image) (settings : Settings), part { i with settings } = part i)
include hpart

lemma keeps_setSwitch (option value : String) (put : Bool → Settings) :
    (setSwitch option value put).Keeps part :=
  keeps_get.bind fun _ => (keeps_liftM _).bind fun _ => keeps_modify fun i => hpart i _

/-- Options leave alone what is no option. -/
lemma keeps_assign (option value : String) : (assign option value).Keeps part := by
  refine keeps_get.bind fun i => ?_
  -- The header of a disk image; the header and the name of a layout; the mode, the thresholds and the
  -- lead-in of a capture; and nothing else is set.
  split
  · exact keeps_setSwitch hpart _ _ _
  · exact keeps_setSwitch hpart _ _ _
  · exact keeps_modify fun i => hpart i _
  · split
    · exact keeps_modify fun i => hpart i _
    · exact keeps_throw _
  · dsimp only
    split
    · exact keeps_modify fun i => hpart i _
    · exact keeps_throw _
  · split
    · refine Keeps.bind (keeps_modify ?_) fun _ => ?_
      · exact fun i => hpart i _
      · split
        · exact keeps_throw _
        · exact keeps_pure ()
    · exact keeps_throw _
  · exact keeps_pure ()

lemma keeps_setOption (known : List String) (option value : String) :
    (setOption known option value).Keeps part := by
  rw [setOption]
  split
  · exact keeps_assign hpart option value
  · exact keeps_get.bind fun i => keeps_throw _

end

lemma keeps_setWriteOptions (options : Options) : (setWriteOptions options).Keeps contents :=
  keeps_forM (fun (option, value) => keeps_get.bind fun i =>
    keeps_setOption (fun _ _ => rfl) i.format.writeOptions option value) options

/-- An image that is to be written has the name that is asked for and no sides yet, whatever its
options. -/
lemma contents_of_forFile {format : Format} {file : String} {options : Options} {image : Image}
    (h : forFile format file options = .ok image) : image.file = file ∧ image.sides = [] := by
  have hkeeps := keeps_setWriteOptions options (new format file)
  rw [forFile] at h
  split at h
  · cases h
  · obtain ⟨-, -, h⟩ := exists_of_bind_eq_ok h
    obtain rfl := Except.ok.inj h
    exact Prod.mk.inj hkeeps

/-! ### The file while it is written -/

/-- An image may be filled in any way that leaves the files and the name of the image alone. -/
structure IsFilling (fill : Image → Action Session Image) : Prop where
  files (image : Image) : (fill image).Keeps Session.files
  file {image filled : Image} {s s' : Session} :
    (fill image).perform s = (.ok filled, s') → filled.file = image.file

section

variable {image filled : Image} {exclusive : Bool} {fill : Image → Action Session Image}
  {s s₁ : Session} {fs : Files} {l : Location} {cause : Fault}

lemma perform_onFiles {α : Type} {x : Action Files α} {result : Except Fault α}
    (h : x.perform s.files = (result, fs)) :
    (Session.onFiles x).perform s = (result, { s with files := fs }) := by
  have honFiles : (Session.onFiles x).perform s
      = ((x.perform s.files).1, { s with files := (x.perform s.files).2 }) := rfl
  rw [honFiles, h]

lemma perform_writeFile_unopened
    (hcreate : (Files.create image.file exclusive).perform s.files = (.error cause, s.files)) :
    (image.writeFile exclusive fill).perform s = (.error cause, s) :=
  perform_bind_error (perform_onFiles hcreate) _

variable (hleads : s.files.LeadsTo image.file l)
  (hcreate : (Files.create image.file exclusive).perform s.files = (.ok (), s.files.store l []))
  (hfiles : s₁.files = s.files.store l [])
include hleads hcreate hfiles

/-- If the image cannot be filled, the file that was made is removed. -/
lemma perform_writeFile_abandoned
    (hfill : (fill image).perform { s with files := s.files.store l [] } = (.error cause, s₁)) :
    (image.writeFile exclusive fill).perform s
      = (.error cause, { s₁ with files := (s.files.store l []).discard l }) := by
  have hremove : (Files.remove image.file).perform s₁.files
      = (.ok (), (s.files.store l []).discard l) := by
    rw [hfiles]
    exact (hleads.store []).perform_remove (Files.content?_store_self ..)
  rw [writeFile, perform_bind_ok (perform_onFiles hcreate)]
  refine perform_bind_error ?_ _
  rw [perform_tryCatch, hfill]
  exact perform_bind_ok (perform_onFiles hremove) _

/-- If the image is filled, the file that was made is given its bytes; if it has none, the file stays
as it was made. -/
lemma perform_writeFile_filled
    (hfill : (fill image).perform { s with files := s.files.store l [] } = (.ok filled, s₁))
    (hfile : filled.file = image.file) :
    (image.writeFile exclusive fill).perform s = match filled.bytes with
      | .ok content => (.ok (), { s₁ with files := (s.files.store l []).store l content })
      | .error cause => (.error cause, s₁) := by
  have hcatch : (tryCatch (fill image) fun fault => do
      Session.onFiles (Files.remove image.file)
      throw fault).perform { s with files := s.files.store l [] } = (.ok filled, s₁) := by
    rw [perform_tryCatch, hfill]
  rw [writeFile, perform_bind_ok (perform_onFiles hcreate), perform_bind_ok hcatch]
  cases hbytes : filled.bytes with
  | error cause => exact perform_bind_error (perform_ofExcept (.error cause) s₁) _
  | ok content =>
      have hput : (Files.put filled.file content).perform s₁.files
          = (.ok (), (s.files.store l []).store l content) := by
        rw [hfiles, hfile]
        exact (hleads.store []).perform_put (Files.content?_store_self ..) content
      rw [perform_bind_ok (perform_ofExcept (.ok content) s₁), perform_onFiles hput]

end

/-! ### How writing ends -/

/-- A file can be opened to be written. -/
def Opens (fs : Files) (file : String) (exclusive : Bool) : Prop :=
  ((Files.create file exclusive).perform fs).1 = .ok ()

/-- How writing the file of an image ends, with the files as they are then. -/
inductive Ending (fs : Files) (file : String) (exclusive : Bool) (filled : Except Fault Image) :
    Except Fault Unit → Files → Prop
  /-- There is a file that may not be overwritten. -/
  | refused (content : List UInt8) (hkept : exclusive = true)
      (hthere : fs.read file = .ok content) :
      Ending fs file exclusive filled (.error (Files.fault file .present)) fs
  /-- No file can be made. -/
  | unopened (cause : Fault)
      (hcreate : (Files.create file exclusive).perform fs = (.error cause, fs))
      (hnone : ∀ content, fs.read file ≠ .ok content) :
      Ending fs file exclusive filled (.error cause) fs
  /-- The image could not be filled. -/
  | abandoned (cause : Fault) (fs' : Files) (hopen : Opens fs file exclusive)
      (hfilled : filled = .error cause) (hnone : ∀ content, fs'.read file ≠ .ok content) :
      Ending fs file exclusive filled (.error cause) fs'
  /-- The image is written. -/
  | written (image : Image) (content : List UInt8) (fs' : Files) (hopen : Opens fs file exclusive)
      (hfilled : filled = .ok image) (hbytes : image.bytes = .ok content)
      (hread : fs'.read file = .ok content) :
      Ending fs file exclusive filled (.ok ()) fs'
  /-- The image that was filled has no bytes. -/
  | leftEmpty (image : Image) (cause : Fault) (fs' : Files) (hopen : Opens fs file exclusive)
      (hfilled : filled = .ok image) (hbytes : image.bytes = .error cause)
      (hread : fs'.read file = .ok []) :
      Ending fs file exclusive filled (.error cause) fs'

/-- Nothing changes but what the file holds. -/
def OnlyChanges (fs : Files) (file : String) (fs' : Files) : Prop :=
  fs' = fs ∨ ∃ l, fs.LeadsTo file l ∧ Files.AgreeOff l fs fs'

/-- Writing is all or nothing: there is no fault and the file holds the whole image, or there is one
and no file is left, unless there was one before that may not be overwritten, and nothing changed. -/
def AllOrNothing (fs : Files) (file : String) (exclusive : Bool) (filled : Except Fault Image)
    (result : Except Fault Unit) (fs' : Files) : Prop :=
  (result = .ok () ∧ ∃ image content, filled = .ok image ∧ image.bytes = .ok content
      ∧ fs'.read file = .ok content)
    ∨ (∃ cause, result = .error cause ∧ ∀ content, fs'.read file ≠ .ok content)
    ∨ (∃ cause content, result = .error cause ∧ exclusive = true ∧ fs.read file = .ok content
        ∧ fs' = fs)

section

variable {fs fs' : Files} {file : String} {exclusive : Bool} {filled : Except Fault Image}
  {result : Except Fault Unit}

lemma opens_of_vacant {l : Location} (hcheck : Files.checkPath file = .ok ())
    (hvacant : fs.locate file = .ok (.vacant l)) (hslash : ¬ ['/'] <:+ file.toList) :
    Opens fs file exclusive := by
  have hend : ¬ file.endsWith "/" = true := by
    rwa [Files.endsWith_slash_iff]
  rw [Opens, Files.perform_create, hcheck, hvacant]
  exact congrArg Prod.fst (if_neg hend)

lemma not_opens_of_read {content : List UInt8} (hread : fs.read file = .ok content)
    (hexclusive : exclusive = true) : ¬ Opens fs file exclusive := by
  intro hopen
  rcases Files.create_cases file exclusive fs with ⟨l, hleads, -, hvacant⟩ | ⟨cause, herror, -⟩
  · have hthere := hleads.read_eq_ok_iff.mp hread
    rw [hvacant hexclusive] at hthere
    cases hthere
  · rw [Opens, herror] at hopen
    cases hopen

/-- **Writing is all or nothing unless a file was made for an image that has no bytes.** -/
lemma Ending.allOrNothing_iff (h : Ending fs file exclusive filled result fs') :
    AllOrNothing fs file exclusive filled result fs'
      ↔ ¬ (Opens fs file exclusive
        ∧ ∃ image cause, filled = .ok image ∧ image.bytes = .error cause) := by
  cases h with
  | refused content hkept hthere =>
      refine iff_of_true (.inr (.inr ⟨_, content, rfl, hkept, hthere, rfl⟩)) fun h => ?_
      exact not_opens_of_read hthere hkept h.1
  | unopened cause hcreate hnone =>
      refine iff_of_true (.inr (.inl ⟨cause, rfl, hnone⟩)) ?_
      rintro ⟨hopen, -⟩
      rw [Opens, hcreate] at hopen
      cases hopen
  | abandoned cause _ hopen hfilled hnone =>
      refine iff_of_true (.inr (.inl ⟨cause, rfl, hnone⟩)) ?_
      rintro ⟨-, image, -, hok, -⟩
      cases hfilled.symm.trans hok
  | written image content _ hopen hfilled hbytes hread =>
      refine iff_of_true (.inl ⟨rfl, image, content, hfilled, hbytes, hread⟩) ?_
      rintro ⟨-, image', cause, hok, herror⟩
      obtain rfl := Except.ok.inj (hfilled.symm.trans hok)
      cases hbytes.symm.trans herror
  | leftEmpty image cause _ hopen hfilled hbytes hread =>
      refine iff_of_false ?_ fun h => h ⟨hopen, image, cause, hfilled, hbytes⟩
      rintro (⟨hok, -⟩ | ⟨_, -, hnone⟩ | ⟨_, content, -, hexclusive, hthere, -⟩)
      · cases hok
      · exact hnone [] hread
      · exact not_opens_of_read hthere hexclusive hopen

end

/-- **Writing the file of an image ends in one of five ways**, however the image is filled. -/
lemma exists_ending_writeFile {fill : Image → Action Session Image} (hfill : IsFilling fill)
    (image : Image) (exclusive : Bool) (s : Session) :
    let opened := { s with files := ((Files.create image.file exclusive).perform s.files).2 }
    let filling := (fill image).perform opened
    ∃ result s', (image.writeFile exclusive fill).perform s = (result, s')
      ∧ Ending s.files image.file exclusive filling.1 result s'.files
      ∧ OnlyChanges s.files image.file s'.files
      ∧ (s' = s ∨ s'.lines = filling.2.lines) := by
  intro opened filling
  rcases Files.create_cases image.file exclusive s.files with
    ⟨l, hleads, hcreate, -⟩ | ⟨cause, hcreate, hwhy⟩
  · have hopen : Opens s.files image.file exclusive := congrArg Prod.fst hcreate
    have hopened : opened = { s with files := s.files.store l [] } := by
      simp only [opened, hcreate]
    have hmade := Files.AgreeOff.store s.files l []
    have hfiles : filling.2.files = s.files.store l [] := by
      rw [hfill.files image opened, hopened]
    cases hfilled : filling.1 with
    | error cause =>
        have hperform : (fill image).perform { s with files := s.files.store l [] }
            = (.error cause, filling.2) := hopened ▸ Prod.ext hfilled rfl
        exact ⟨_, _, perform_writeFile_abandoned hleads hcreate hfiles hperform,
          .abandoned cause _ hopen rfl (hleads.store []).not_read_discard,
          .inr ⟨l, hleads, hmade.trans (.discard _ l)⟩, .inr rfl⟩
    | ok filled =>
        have hperform : (fill image).perform { s with files := s.files.store l [] }
            = (.ok filled, filling.2) := hopened ▸ Prod.ext hfilled rfl
        have hwrite := perform_writeFile_filled hleads hcreate hfiles hperform (hfill.file hperform)
        cases hbytes : filled.bytes with
        | error cause =>
            rw [hbytes] at hwrite
            refine ⟨_, _, hwrite, .leftEmpty filled cause _ hopen rfl hbytes ?_, ?_, .inr rfl⟩
            · rw [hfiles, hleads.read_store]
            · exact .inr ⟨l, hleads, hfiles ▸ hmade⟩
        | ok content =>
            rw [hbytes] at hwrite
            exact ⟨_, _, hwrite,
              .written filled content _ hopen rfl hbytes ((hleads.store []).read_store content),
              .inr ⟨l, hleads, hmade.trans (.store _ l content)⟩, .inr rfl⟩
  · refine ⟨_, _, perform_writeFile_unopened hcreate, ?_, .inl rfl, .inl rfl⟩
    rcases hwhy with ⟨hkept, rfl, content, hthere⟩ | hnone
    · exact .refused content hkept hthere
    · exact .unopened cause hcreate hnone

/-! ### Sides that are emitted -/

/-- Add sides to an image, and then fail if there is a fault. -/
def emit (sides : List Side) (failure : Option Fault) (image : Image) : Action Session Image :=
  match failure with
  | some cause => throw cause
  | none => pure (sides.foldl addSide image)

lemma foldl_addSide (image : Image) (sides : List Side) :
    sides.foldl addSide image = { image with sides := image.sides ++ sides } := by
  induction sides generalizing image with
  | nil => rw [List.foldl_nil, List.append_nil]
  | cons side sides ih => rw [List.foldl_cons, ih, addSide, List.append_assoc, List.singleton_append]

lemma perform_emit (sides : List Side) (failure : Option Fault) (image : Image) (s : Session) :
    (emit sides failure image).perform s
      = (failure.elim (.ok { image with sides := image.sides ++ sides }) .error, s) := by
  cases failure with
  | none => exact Prod.ext (congrArg Except.ok (foldl_addSide image sides)) rfl
  | some cause => rfl

lemma isFilling_emit (sides : List Side) (failure : Option Fault) :
    IsFilling (emit sides failure) where
  files image s := by rw [perform_emit]
  file {image filled s s'} h := by
    rw [perform_emit] at h
    cases failure with
    | none =>
        obtain ⟨hfilled, -⟩ := Prod.mk.inj h
        rw [← Except.ok.inj hfilled]
    | some cause => cases h

/-- **Writing an image with the sides that are emitted is all or nothing, unless its file was made and
the image has no bytes**: then the fault is told, and the file stays and is empty. -/
theorem exists_ending_of_forFile {format : Format} {file : String} {options : Options}
    {image : Image} (himage : forFile format file options = .ok image) (exclusive : Bool)
    (sides : List Side) (failure : Option Fault) (s : Session) :
    let filled : Except Fault Image := failure.elim (.ok { image with sides }) .error
    ∃ result s', (image.writeFile exclusive (emit sides failure)).perform s = (result, s')
      ∧ Ending s.files file exclusive filled result s'.files
      ∧ OnlyChanges s.files file s'.files ∧ s'.lines = s.lines
      ∧ (AllOrNothing s.files file exclusive filled result s'.files
          ↔ ¬ (Opens s.files file exclusive ∧ failure = none
            ∧ ∃ cause, ({ image with sides } : Image).bytes = .error cause)) := by
  intro filled
  obtain ⟨rfl, hsides⟩ := contents_of_forFile himage
  obtain ⟨result, s', hperform, hending, honly, hlines⟩ :=
    exists_ending_writeFile (isFilling_emit sides failure) image exclusive s
  simp only [perform_emit, hsides, List.nil_append] at hending hlines
  refine ⟨result, s', hperform, hending, honly, ?_, ?_⟩
  · rcases hlines with rfl | hlines
    · rfl
    · exact hlines
  · rw [hending.allOrNothing_iff]
    cases failure <;> simp

/-- A side that has its layout is what a bare file of it holds. -/
theorem exists_ending_of_forFile_bareSide :
    ∃ s', ((new .layout "a.bin").writeFile false (emit [{ layout := some [0x80] }] none)).perform {}
        = (.ok (), s')
      ∧ s'.files.read "a.bin" = .ok [0x80] := by
  have himage : forFile .layout "a.bin" [] = .ok (new .layout "a.bin") := rfl
  obtain ⟨result, s', hperform, hending, -⟩ :=
    exists_ending_of_forFile himage false [{ layout := some [0x80] }] none {}
  have hopen : Opens {} "a.bin" false := opens_of_vacant rfl rfl (by decide)
  refine ⟨s', ?_⟩
  generalize s'.files = fs' at hending ⊢
  cases hending with
  | refused _ hkept => cases hkept
  | unopened cause hcreate =>
      rw [Opens, hcreate] at hopen
      cases hopen
  | abandoned cause _ _ hfilled => cases hfilled
  | written image content _ _ hfilled hbytes hread =>
      obtain rfl := Except.ok.inj hfilled
      obtain rfl := Except.ok.inj hbytes
      exact ⟨hperform, hread⟩
  | leftEmpty image cause _ _ hfilled hbytes =>
      obtain rfl := Except.ok.inj hfilled
      cases hbytes

/-- An image without sides has no bytes, and its file stays. -/
theorem not_forall_allOrNothing :
    ¬ ∀ {format : Format} {file : String} {options : Options} {image : Image},
      forFile format file options = .ok image →
      ∀ (exclusive : Bool) (sides : List Side) (failure : Option Fault) (s : Session),
        let outcome := (image.writeFile exclusive (emit sides failure)).perform s
        AllOrNothing s.files file exclusive (failure.elim (.ok { image with sides }) .error)
          outcome.1 outcome.2.files := by
  intro hall
  have himage : forFile .diskImage "a.fds" [] = .ok (new .diskImage "a.fds") := rfl
  obtain ⟨result, s', hperform, hending, -⟩ :=
    exists_ending_writeFile (isFilling_emit [] none) (new .diskImage "a.fds") false {}
  have hwhole := hall himage false [] none {}
  rw [hperform] at hwhole
  rw [perform_emit] at hending
  have hopen : Opens {} "a.fds" false := opens_of_vacant rfl rfl (by decide)
  exact hending.allOrNothing_iff.mp hwhole ⟨hopen, _, _, rfl, rfl⟩

end Image

/-! ### Sides that are converted -/

lemma Session.keeps_print (line : String) : (print line).Keeps Session.files :=
  keeps_modify fun _ => rfl

namespace Command.Convert

lemma keeps_print (title : String) (side : Side) (withBlocks : Bool) :
    (side.print title withBlocks).Keeps Session.files := by
  have hfaults : (side.diagnostics.forM fun fault =>
      Session.print s!"{title}: WARNING: {fault.message}").Keeps Session.files :=
    keeps_forM (fun _ => Session.keeps_print _) _
  refine (Session.keeps_print _).bind fun _ => ?_
  cases withBlocks with
  | true =>
      refine Keeps.bind (keeps_forM (fun block => ?_) _) fun _ => hfaults
      exact (keeps_ofExcept _).bind fun _ => Session.keeps_print _
  | false => exact hfaults

lemma perform_addSides_eq_ok {sides : List (Side × Nat)} {withBlocks : Bool} {image filled : Image}
    {s s' : Session} (h : (addSides sides withBlocks image).perform s = (.ok filled, s')) :
    filled = { image with sides := image.sides ++ sides.map Prod.fst } := by
  rw [addSides] at h
  induction sides generalizing image s with
  | nil =>
      obtain ⟨hfilled, -⟩ := Prod.mk.inj h
      rw [← Except.ok.inj hfilled, List.map_nil, List.append_nil]
  | cons side sides ih =>
      rw [List.foldlM_cons] at h
      obtain ⟨next, s₁, hnext, hrest⟩ := exists_of_perform_bind_eq_ok h
      obtain ⟨-, s₂, -, hadd⟩ := exists_of_perform_bind_eq_ok hnext
      obtain rfl := Except.ok.inj (Prod.mk.inj hadd).1
      rw [ih hrest, Image.addSide, List.map_cons, List.append_assoc, List.singleton_append]

lemma isFilling_addSides (sides : List (Side × Nat)) (withBlocks : Bool) :
    Image.IsFilling (addSides sides withBlocks) where
  files image := keeps_foldlM
    (fun _ (side, i) => (keeps_print (Side.title i) side withBlocks).bind fun _ => keeps_pure _)
    sides image
  file h := by rw [perform_addSides_eq_ok h]

/-- Writing the sides that are converted ends in one of the five ways; they are added in order unless
one of them cannot be listed. -/
theorem exists_ending_of_addSides (image : Image) (exclusive : Bool) (sides : List (Side × Nat))
    (withBlocks : Bool) (s : Session) :
    let opened := { s with files := ((Files.create image.file exclusive).perform s.files).2 }
    let filled := ((addSides sides withBlocks image).perform opened).1
    ∃ result s', (image.writeFile exclusive (addSides sides withBlocks)).perform s = (result, s')
      ∧ Image.Ending s.files image.file exclusive filled result s'.files
      ∧ Image.OnlyChanges s.files image.file s'.files
      ∧ ∀ whole, filled = .ok whole →
          whole = { image with sides := image.sides ++ sides.map Prod.fst } := by
  intro opened filled
  obtain ⟨result, s', hperform, hending, honly, -⟩ :=
    Image.exists_ending_writeFile (isFilling_addSides sides withBlocks) image exclusive s
  exact ⟨result, s', hperform, hending, honly,
    fun whole hwhole => perform_addSides_eq_ok (Prod.ext hwhole rfl)⟩

end Command.Convert

end FamicomDisk
