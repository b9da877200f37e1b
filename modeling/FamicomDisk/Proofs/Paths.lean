import FamicomDisk.Files
import FamicomDisk.Proofs.Sequencing

/-!
The place that a path leads to.

A file is found by its path each time anew, when it is made, when it is given its content and when it
is removed. All of them find the same place, because the names before the last one pass through
folders, and no folder changes (`AgreeOff.walk`). Only a path with a slash at its end leads nowhere any
more once a file stands at its place, and no file is made for it.

* `content?_store`, `content?_discard`: what a place holds afterwards, and `AgreeOff`: no other place
  and no folder changes.
* `LeadsTo`: a path leads to a place, whether a file is there or not.
* `LeadsTo.read`, `LeadsTo.perform_put`, `LeadsTo.perform_remove`: reading, filling and removing the
  file at the place.
* `create_cases`: **a file that is made is empty and stands where its path leads**; if none is made,
  nothing changes.
-/

namespace FamicomDisk

/-- The place of a file, or of one that could be made. -/
def Node.place? : Node → Option Location
  | .folder => none
  | .file l _ => some l
  | .vacant l => some l

namespace Files

variable {fs fs' fs'' : Files} {l l' start : Location} {path : String} {content : List UInt8}

/-! ### The content of a place -/

/-- What a place holds after a file was stored. -/
lemma content?_store (fs : Files) (l l' : Location) (content : List UInt8) :
    (fs.store l content).content? l' = if l' = l then some content else fs.content? l' := by
  rw [store]
  split
  · next hthere =>
    -- The file changes its content only, so the first file at a place is the same one.
    have hkey : (fun f : Location × List UInt8 => decide (f.1 = l'))
          ∘ (fun f => if f.1 = l then (l, content) else f) = fun f => decide (f.1 = l') := by
      funext f
      simp only [Function.comp_apply]
      split
      · next h => rw [h]
      · rfl
    simp only [content?, List.find?_map, hkey, Option.map_map]
    split
    · next h =>
      subst h
      obtain ⟨f, hf⟩ := Option.isSome_iff_exists.mp (Option.isSome_map ▸ hthere)
      have : f.1 = l' := by simpa using List.find?_some hf
      simp [hf, this]
    · next h =>
      cases hf : fs.files.find? (·.1 = l') with
      | none => rfl
      | some f =>
          have : f.1 = l' := by simpa using List.find?_some hf
          simp [this, h]
  · next habsent =>
    have hnone : fs.files.find? (·.1 = l) = none :=
      Option.map_eq_none_iff.mp (Option.not_isSome_iff_eq_none.mp habsent)
    simp only [content?, List.find?_append, List.find?_singleton, decide_eq_true_eq]
    split
    · next h =>
      subst h
      rw [hnone, if_pos rfl, Option.none_or, Option.map_some]
    · next h => rw [if_neg (Ne.symm h), Option.or_none]

/-- What a place holds after a file was discarded. -/
lemma content?_discard (fs : Files) (l l' : Location) :
    (fs.discard l).content? l' = if l' = l then none else fs.content? l' := by
  simp only [discard, content?, List.find?_filter]
  split
  · next h =>
    subst h
    simp
  · next h =>
    congr 2
    funext f
    by_cases hf : f.1 = l'
    · simp [hf, h]
    · simp [hf]

@[simp] lemma content?_store_self (fs : Files) (l : Location) (content : List UInt8) :
    (fs.store l content).content? l = some content := by
  rw [content?_store, if_pos rfl]

@[simp] lemma content?_discard_self (fs : Files) (l : Location) :
    (fs.discard l).content? l = none := by
  rw [content?_discard, if_pos rfl]

/-- The same folders, and the same files but for one place. -/
structure AgreeOff (l : Location) (fs fs' : Files) : Prop where
  folders : fs'.folders = fs.folders
  content : ∀ l', l' ≠ l → fs'.content? l' = fs.content? l'

namespace AgreeOff

lemma refl (l : Location) (fs : Files) : AgreeOff l fs fs := ⟨rfl, fun _ _ => rfl⟩

lemma trans (h : AgreeOff l fs fs') (h' : AgreeOff l fs' fs'') : AgreeOff l fs fs'' :=
  ⟨h'.folders.trans h.folders, fun l' hl => (h'.content l' hl).trans (h.content l' hl)⟩

lemma store (fs : Files) (l : Location) (content : List UInt8) :
    AgreeOff l fs (fs.store l content) := by
  refine ⟨?_, fun l' hl => by rw [content?_store, if_neg hl]⟩
  rw [Files.store]
  split <;> rfl

lemma discard (fs : Files) (l : Location) : AgreeOff l fs (fs.discard l) :=
  ⟨rfl, fun l' hl => by rw [content?_discard, if_neg hl]⟩

end AgreeOff

/-! ### What stands at a place -/

lemma AgreeOff.isFolder (h : AgreeOff l fs fs') (l' : Location) :
    fs'.isFolder l' = fs.isFolder l' := by
  rw [Files.isFolder, Files.isFolder, h.folders]

lemma node_of_isFolder (h : fs.isFolder l = true) : fs.node l = .folder := if_pos h

lemma node_of_not_isFolder (h : fs.isFolder l = false) :
    fs.node l = match fs.content? l with
      | some content => .file l content
      | none => .vacant l :=
  if_neg (by simp [h])

/-- A node that is no folder stands at its place. -/
lemma eq_of_place?_node (h : (fs.node l').place? = some l) : l' = l ∧ fs.isFolder l' = false := by
  cases hfolder : fs.isFolder l' with
  | true => simp [node_of_isFolder hfolder, Node.place?] at h
  | false =>
      rw [node_of_not_isFolder hfolder] at h
      split at h <;> exact ⟨Option.some.inj h, rfl⟩

lemma isFolder_of_node (h : fs.node l = .folder) : fs.isFolder l = true := by
  by_contra hfolder
  rw [node_of_not_isFolder (by simpa using hfolder)] at h
  split at h <;> cases h

/-! ### The way to a place -/

section

variable {name : String} {rest : List String}

lemma walk_skip (h : name = "" ∨ name = ".") :
    fs.walk start (name :: rest) = fs.walk start rest := by
  cases rest <;> simp only [walk, if_pos h]

lemma walk_up : fs.walk start (".." :: rest) = fs.walk (parent start) rest := by
  cases rest <;> simp [walk]

lemma walk_last (h : ¬ (name = "" ∨ name = ".")) (hup : ¬ name = "..") :
    fs.walk start [name] = .ok (fs.node (start ++ [name])) := by
  simp only [walk, if_neg h, if_neg hup]
  rfl

lemma walk_folder (h : ¬ (name = "" ∨ name = ".")) (hup : ¬ name = "..") (hrest : rest = [] → False)
    (hfolder : fs.node (start ++ [name]) = .folder) :
    fs.walk start (name :: rest) = fs.walk (start ++ [name]) rest := by
  rw [walk.eq_def]
  simp only [if_neg h, if_neg hup, hfolder]

end

lemma getLast?_cons_eq_some {rest : List String} {last : String} (h : rest.getLast? = some last)
    (name : String) : (name :: rest).getLast? = some last := by
  rw [List.getLast?_cons, h, Option.getD_some]

/-- **The way to a place does not depend on what stands there**, unless nothing does and a slash ends
the way: the names before the last one pass through folders. -/
lemma AgreeOff.walk (h : AgreeOff l fs fs') {ns : List String} {found : Node}
    (hwalk : fs.walk start ns = .ok found) (hplace : found.place? = some l)
    (hlast : ns.getLast? = some "" → ∃ content, found = .file l content) :
    fs'.walk start ns = .ok (fs'.node l) := by
  fun_induction Files.walk fs start ns with
  | case1 start =>
      obtain rfl := Except.ok.inj hwalk
      rw [Files.walk, (eq_of_place?_node hplace).1]
      rfl
  | case2 start name rest hskip ih =>
      rw [walk_skip hskip]
      exact ih hwalk fun hrest => hlast (getLast?_cons_eq_some hrest name)
  | case3 start rest _ ih =>
      rw [walk_up]
      exact ih hwalk fun hrest => hlast (getLast?_cons_eq_some hrest "..")
  | case4 start name hname hup =>
      obtain rfl := Except.ok.inj hwalk
      rw [walk_last hname hup, (eq_of_place?_node hplace).1]
  | case5 start name rest hname hup hfolder hrest ih =>
      have hfolder' : fs'.node (start ++ [name]) = .folder :=
        node_of_isFolder (by rw [h.isFolder, isFolder_of_node hfolder])
      rw [walk_folder hname hup hrest hfolder']
      exact ih hwalk fun hlast' => hlast (getLast?_cons_eq_some hlast' name)
  | case6 => cases hwalk
  | case7 start name rest hname hup l' hvacant hslashes hrest =>
      -- Only slashes follow, so the last name is empty, and no file stands there.
      rw [if_pos hslashes] at hwalk
      obtain rfl := Except.ok.inj hwalk
      have hempty : rest.getLast hrest = "" := by
        simpa using List.all_eq_true.mp hslashes _ (List.getLast_mem hrest)
      obtain ⟨content, hfile⟩ :=
        hlast (getLast?_cons_eq_some (hempty ▸ List.getLast?_eq_some_getLast hrest) name)
      cases hfile
  | case8 start name rest hname hup l' hvacant hslashes =>
      rw [if_neg hslashes] at hwalk
      cases hwalk

lemma locate_empty (fs : Files) : fs.locate "" = .error .absent := rfl

/-- A path is walked from the root or from the working folder, unless it is empty. -/
lemma exists_locate_eq_walk (path : String) :
    (∀ fs : Files, fs.locate path = .error .absent)
      ∨ ∃ start ns, ns.getLast? = (names path).getLast?
          ∧ ∀ fs : Files, fs.locate path = fs.walk start ns := by
  simp only [locate]
  split
  · exact .inl fun _ => rfl
  · exact .inl fun _ => rfl
  · next ns hne hnames =>
    refine .inr ⟨root, ns, ?_, fun _ => rfl⟩
    cases ns with
    | nil => exact (hne rfl).elim
    | cons name ns => rw [hnames, List.getLast?_cons_cons]
  · exact .inr ⟨[], names path, rfl, fun _ => rfl⟩

lemma endsWith_slash_iff : path.endsWith "/" = true ↔ ['/'] <:+ path.toList := by
  rw [String.endsWith_eq_endsWith_toSlice, String.Slice.endsWith_string_iff, String.copy_toSlice]
  rfl

/-- The last name of a path is empty only if a slash ends the path. -/
lemma endsWith_of_getLast?_names (h : (names path).getLast? = some "") :
    path = "" ∨ path.endsWith "/" = true := by
  rw [names, List.getLast?_map, Option.map_eq_some_iff] at h
  obtain ⟨piece, hpiece, hempty⟩ := h
  obtain rfl : piece = [] := by simpa using congrArg String.toList hempty
  rcases Text.eq_of_getLast?_split hpiece with hnil | hslash
  · exact .inl (by simpa using hnil)
  · obtain ⟨cs, hcs⟩ := List.getLast?_eq_some_iff.mp hslash
    exact .inr (endsWith_slash_iff.mpr ⟨cs, hcs.symm⟩)

/-- What can be read is the file that is found. -/
lemma read_eq_ok_iff : fs.read path = .ok content
    ↔ checkPath path = .ok () ∧ ∃ l, fs.locate path = .ok (.file l content) := by
  rw [read]
  cases checkPath path with
  | error cause => simp [error_bind]
  | ok _ =>
      rw [ok_bind]
      cases fs.locate path with
      | error cause => simp
      | ok found =>
          cases found with
          | folder => simp
          | file l found => simp [pure, Except.pure]
          | vacant l => simp

/-- A path leads to the place of a file, whatever the place holds. -/
structure LeadsTo (fs : Files) (path : String) (l : Location) : Prop where
  checkPath : checkPath path = .ok ()
  notFolder : fs.isFolder l = false
  locate : ∀ fs', AgreeOff l fs fs' → fs'.locate path = .ok (fs'.node l)

/-- What is found at a path is where the path leads, but for what a slash at its end might find. -/
lemma leadsTo_of_locate (hcheck : Files.checkPath path = .ok ()) {found : Node}
    (hlocate : fs.locate path = .ok found) (hplace : found.place? = some l)
    (hslash : path.endsWith "/" = true → ∃ content, found = .file l content) :
    fs.LeadsTo path l := by
  rcases exists_locate_eq_walk path with habsent | ⟨start, ns, hlast, hwalk⟩
  · rw [habsent] at hlocate
    cases hlocate
  · have hway : ∀ fs', AgreeOff l fs fs' → fs'.locate path = .ok (fs'.node l) := by
      intro fs' hagree
      rw [hwalk] at hlocate ⊢
      refine hagree.walk hlocate hplace fun hempty => ?_
      rcases endsWith_of_getLast?_names (hlast ▸ hempty) with rfl | hend
      · rw [← hwalk, locate_empty] at hlocate
        cases hlocate
      · exact hslash hend
    have hfound : found = fs.node l :=
      Except.ok.inj (hlocate.symm.trans (hway fs (.refl l fs)))
    exact ⟨hcheck, (eq_of_place?_node (hfound ▸ hplace)).2, hway⟩

namespace LeadsTo

variable (h : fs.LeadsTo path l)
include h

lemma agree (hagree : AgreeOff l fs fs') : fs'.LeadsTo path l :=
  ⟨h.checkPath, by rw [hagree.isFolder, h.notFolder], fun _ h' => h.locate _ (hagree.trans h')⟩

lemma store (content : List UInt8) : (fs.store l content).LeadsTo path l :=
  h.agree (.store fs l content)

lemma locate_eq : fs.locate path = .ok (match fs.content? l with
    | some content => .file l content
    | none => .vacant l) := by
  rw [h.locate fs (.refl l fs), node_of_not_isFolder h.notFolder]

/-- Reading the path gives the content of the place. -/
lemma read_eq_ok_iff : fs.read path = .ok content ↔ fs.content? l = some content := by
  rw [Files.read_eq_ok_iff, h.locate_eq]
  cases fs.content? l <;> simp [h.checkPath]

lemma read_store (content : List UInt8) : (fs.store l content).read path = .ok content :=
  (h.store content).read_eq_ok_iff.mpr (content?_store_self fs l content)

lemma not_read_discard (content : List UInt8) : (fs.discard l).read path ≠ .ok content := by
  rw [Ne, (h.agree (.discard fs l)).read_eq_ok_iff, content?_discard_self]
  nofun

lemma perform_put {old : List UInt8} (hold : fs.content? l = some old) (content : List UInt8) :
    (put path content).perform fs = (.ok (), fs.store l content) := by
  rw [put, Action.perform_bind_ok (Action.perform_get fs), h.locate_eq, hold]
  rfl

lemma perform_remove {old : List UInt8} (hold : fs.content? l = some old) :
    (remove path).perform fs = (.ok (), fs.discard l) := by
  rw [remove, Action.perform_bind_ok (Action.perform_get fs), h.locate_eq, hold]
  rfl

end LeadsTo

/-! ### Making a file -/

lemma perform_create (path : String) (exclusive : Bool) (fs : Files) :
    (create path exclusive).perform fs = match checkPath path, fs.locate path with
      | .error cause, _ => (.error cause, fs)
      | .ok (), .ok (.file l _) =>
          if exclusive then (.error (fault path .present), fs) else (.ok (), fs.store l [])
      | .ok (), .ok .folder =>
          (.error (fault path (if exclusive then .present else .isADirectory)), fs)
      | .ok (), .ok (.vacant l) =>
          if path.endsWith "/" then (.error (fault path .isADirectory), fs)
          else (.ok (), fs.store l [])
      | .ok (), .error cause => (.error (fault path cause), fs) := by
  rw [create]
  cases hcheck : checkPath path with
  | error cause => rw [Action.perform_bind_error (Action.perform_liftM (.error cause) fs)]
  | ok _ =>
      rw [Action.perform_bind_ok (Action.perform_liftM (.ok ()) fs),
        Action.perform_bind_ok (Action.perform_get fs)]
      cases fs.locate path with
      | error cause => rfl
      | ok found =>
          cases found with
          | folder => rfl
          | file l content => cases exclusive <;> rfl
          | vacant l => cases path.endsWith "/" <;> rfl

/-- **A file that is made is empty and stands where its path leads**, and there was none if it may not
be overwritten. Or no file is made and nothing changes: there is one that may not be overwritten, or
none. -/
lemma create_cases (path : String) (exclusive : Bool) (fs : Files) :
    (∃ l, fs.LeadsTo path l ∧ (create path exclusive).perform fs = (.ok (), fs.store l [])
        ∧ (exclusive = true → fs.content? l = none))
      ∨ ∃ cause, (create path exclusive).perform fs = (.error cause, fs)
        ∧ ((exclusive = true ∧ cause = fault path .present ∧ ∃ content, fs.read path = .ok content)
          ∨ ∀ content, fs.read path ≠ .ok content) := by
  rw [perform_create]
  by_cases hthere : ∃ content, fs.read path = .ok content
  · obtain ⟨content, hread⟩ := hthere
    obtain ⟨hcheck, l, hlocate⟩ := read_eq_ok_iff.mp hread
    rw [hcheck, hlocate]
    cases exclusive with
    | true => exact .inr ⟨_, rfl, .inl ⟨rfl, rfl, content, hread⟩⟩
    | false =>
        have hleads : fs.LeadsTo path l :=
          leadsTo_of_locate hcheck hlocate rfl fun _ => ⟨content, rfl⟩
        exact .inl ⟨l, hleads, rfl, nofun⟩
  · rw [not_exists] at hthere
    -- The path is none, or it leads to a file after all, to a folder, to a vacant place, or nowhere.
    split
    · exact .inr ⟨_, rfl, .inr hthere⟩
    · next l content hcheck hlocate =>
      exact absurd (read_eq_ok_iff.mpr ⟨hcheck, l, hlocate⟩) (hthere content)
    · exact .inr ⟨_, rfl, .inr hthere⟩
    · next l hcheck hlocate =>
      split
      · exact .inr ⟨_, rfl, .inr hthere⟩
      · next hslash =>
        have hleads : fs.LeadsTo path l :=
          leadsTo_of_locate hcheck hlocate rfl fun hend => absurd hend hslash
        have hvacant : fs.content? l = none := by
          have hnode := hleads.locate_eq.symm.trans hlocate
          cases hc : fs.content? l with
          | none => rfl
          | some content => simp [hc] at hnode
        exact .inl ⟨l, hleads, rfl, fun _ => hvacant⟩
    · exact .inr ⟨_, rfl, .inr hthere⟩

end Files

end FamicomDisk
