import FamicomDisk.Command.Run
import FamicomDisk.Proofs.Disks
import FamicomDisk.Proofs.Words
import FamicomDisk.Proofs.Writing

/-!
Storing an image in the file of a dump.

The dump and the image are read, and the sides are stored in the memory, before the one step that
writes: the file of the dump is made anew and given all its bytes. Making it may fail, and then
nothing has changed; once it is made it can be given its bytes, and nothing that may fail comes
behind. So a store that fails has changed no file, and one that does not has changed the dump only,
and in the dump only the slots of the sides.

* `Action.NeverFails`, `Action.FailsSafe`: actions that do not fail, or leave the files alone if
  they do, and how they follow each other.
* `Session.writeFile_cases`: **writing a file anew changes that file only, or nothing**.
* `Base`, `Asked`, `Stores`: the bytes that an image is stored in, what the words of a store ask
  for, and what it changes.
* `failsSafe_run`, `exists_stores_of_run`: a store that fails, and one that does not.
* `exists_perform_store`: what a store needs not to fail.
* `run_write_cases`: **a whole command line changes no file, or the dump only**.
-/

namespace FamicomDisk

open FamicomDisk.Action

namespace Action

variable {α β : Type}

/-- An action has a result in every state. -/
def NeverFails {σ : Type} (x : Action σ α) : Prop := ∀ s, ∃ a s', x.perform s = (.ok a, s')

lemma NeverFails.bind {σ : Type} {x : Action σ α} {f : α → Action σ β} (hx : x.NeverFails)
    (hf : ∀ a, (f a).NeverFails) : (x >>= f).NeverFails := by
  intro s
  obtain ⟨a, s₁, ha⟩ := hx s
  rw [perform_bind_ok ha]
  exact hf a s₁

lemma neverFails_forM {σ : Type} {f : α → Action σ Unit} (h : ∀ a, (f a).NeverFails)
    (as : List α) : (as.forM f).NeverFails := by
  induction as with
  | nil => exact fun s => ⟨(), s, rfl⟩
  | cons a as ih => exact (h a).bind fun _ => ih

/-- An action leaves the files alone if it fails. -/
def FailsSafe (x : Action Session α) : Prop :=
  ∀ ⦃s s' cause⦄, x.perform s = (.error cause, s') → s'.files = s.files

lemma Keeps.failsSafe {x : Action Session α} (hx : x.Keeps Session.files) : x.FailsSafe :=
  fun _ _ _ h => hx.eq_of_perform h

/-- What leaves the files alone may come before. -/
lemma Keeps.failsSafe_bind {x : Action Session α} {f : α → Action Session β}
    (hx : x.Keeps Session.files) (hf : ∀ a, (f a).FailsSafe) : (x >>= f).FailsSafe := by
  intro s s' cause h
  rw [perform_bind] at h
  split at h
  · next a s₁ hstep => exact (hf a h).trans (hx.eq_of_perform hstep)
  · next cause' s₁ hstep =>
    obtain ⟨-, rfl⟩ := Prod.mk.inj h
    exact hx.eq_of_perform hstep

/-- What never fails may come behind. -/
lemma FailsSafe.bind_neverFails {x : Action Session α} {f : α → Action Session β}
    (hx : x.FailsSafe) (hf : ∀ a, (f a).NeverFails) : (x >>= f).FailsSafe := by
  intro s s' cause h
  rw [perform_bind] at h
  split at h
  · next a s₁ hstep =>
    obtain ⟨b, s₂, hb⟩ := hf a s₁
    cases h.symm.trans hb
  · next cause' s₁ hstep =>
    obtain ⟨-, rfl⟩ := Prod.mk.inj h
    exact hx hstep

end Action

/-! ### Reading and writing files -/

lemma Session.neverFails_print (line : String) : (print line).NeverFails := fun _ => ⟨(), _, rfl⟩

lemma Image.keeps_ofFile (format : Format) (file : String) (options : Options) :
    (ofFile format file options).Keeps Session.files := by
  refine (keeps_ofExcept _).bind fun _ => ?_
  refine (keeps_get.bind fun _ => keeps_ofExcept _).bind fun content => ?_
  split
  next lines result _ =>
    exact (keeps_forM Session.keeps_print lines).bind fun _ => keeps_ofExcept result

/-- **Writing a file anew changes that file only, or nothing** if it cannot be opened. -/
lemma Session.writeFile_cases (path : String) (content : List UInt8) (s : Session) :
    (∃ l, s.files.LeadsTo path l
        ∧ (writeFile path content).perform s
          = (.ok (), { s with files := (s.files.store l []).store l content }))
      ∨ ¬ Image.Opens s.files path false
        ∧ ∃ cause, (writeFile path content).perform s = (.error cause, s) := by
  rcases Files.create_cases path false s.files with ⟨l, hleads, hcreate, -⟩ | ⟨cause, hcreate, -⟩
  · have hput : (Files.put path content).perform (s.files.store l [])
        = (.ok (), (s.files.store l []).store l content) :=
      (hleads.store []).perform_put (Files.content?_store_self ..) content
    refine .inl ⟨l, hleads, ?_⟩
    rw [writeFile, perform_bind_ok (Image.perform_onFiles hcreate), Image.perform_onFiles hput]
  · refine .inr ⟨?_, cause, perform_bind_error (Image.perform_onFiles hcreate) _⟩
    rw [Image.Opens, hcreate]
    simp

lemma Session.failsSafe_writeFile (path : String) (content : List UInt8) :
    (writeFile path content).FailsSafe := by
  intro s s' cause h
  rcases writeFile_cases path content s with ⟨l, -, hok⟩ | ⟨-, cause', herror⟩
  · cases h.symm.trans hok
  · obtain ⟨-, rfl⟩ := Prod.mk.inj (h.symm.trans herror)
    rfl

namespace Command.Dump

/-! ### What a store is asked for -/

/-- The number of slots that a new dump is given. -/
def AskedSlots (p : Parsed) (slots : Nat) : Prop :=
  (p.value? "--slots" = none ∧ slots = Flash.usualSlots)
    ∨ ∃ text, p.value? "--slots" = some (some text) ∧ Text.readInt? text = some (slots : Int)

/-- The bytes that an image is stored in. -/
inductive Base (fs : Files) (p : Parsed) (dump : String) : List UInt8 → Prop where
  /-- Those of the dump, filled up to whole slots. -/
  | kept {content : List UInt8} {gap : Nat} (hread : fs.read dump = .ok content)
      (hgap : gap < slotSize) (hwhole : slotSize ∣ content.length + gap) :
      Base fs p dump (content ++ List.replicate gap 0xff)
  /-- Those of a new dump, which is erased. -/
  | erased {slots : Nat} (habsent : fs.isPresent dump = false) (hslots : AskedSlots p slots) :
      Base fs p dump (List.replicate (slots * slotSize) 0xff)

/-- The words ask to store an image in a dump, from a slot on that is counted from zero here. -/
structure Asked (fs : Files) (p : Parsed) (dump : String) (slot : Nat) (name : String)
    (image : Image) : Prop where
  dump_eq : p.argument? 1 = some dump
  slot_eq : ∃ text, p.argument? 2 = some text ∧ Text.readInt? text = some ((slot : Int) + 1)
  image_eq : ∃ text options format s, p.argument? 3 = some text
    ∧ Options.splitName text = (name, options) ∧ Format.ofFileName name = .ok format
    ∧ (Image.ofFile format name options).perform { files := fs } = (.ok image, s)

/-- The sides of a disk are stored in a dump that had the bytes `old`, and nothing else changes. -/
structure Stores (fs : Files) (dump : String) (old : List UInt8) (slot : Nat) (name : Text.Name)
    (sides : List Side) (fs' : Files) (new : List UInt8) : Prop where
  /-- No other file changes or appears, and no folder. -/
  other : ∃ l, fs.LeadsTo dump l ∧ Files.AgreeOff l fs fs'
  read_eq : fs'.read dump = .ok new
  whole : slotSize ∣ new.length
  length_eq : new.length = old.length
  room : (slot + sides.length) * slotSize ≤ old.length
  /-- No byte changes outside the slots of the sides. -/
  same : ∀ i, i < slot * slotSize ∨ (slot + sides.length) * slotSize ≤ i → new[i]? = old[i]?
  /-- Each of these slots has a side. -/
  holds : ∀ (i : Nat) (side : Side), sides[i]? = some side →
    ∃ header head, Flash.headerFor name side i = .ok header ∧ header.pack = .ok head
      ∧ (new.drop ((slot + i) * slotSize)).take slotSize = Flash.contents head side

variable {p : Parsed}

lemma argument_eq_ok {i : Nat} {fault : Fault} {text : String} (h : p.argument i fault = .ok text) :
    p.argument? i = some text := by
  rw [Parsed.argument] at h
  split at h
  · next hfound => rw [hfound, Except.ok.inj h]
  · cases h

/-- A text that passes for a number from one on is one. -/
lemma exists_of_isPositive {text : String} (h : isPositive text = true) :
    ∃ n : Nat, Text.readInt? text = some ((n : Int) + 1) ∧ positive text = n + 1 := by
  rw [isPositive, readLeast] at h
  split at h
  · cases h
  · next n hread =>
    split at h
    · cases h
    · next hleast =>
      refine ⟨(n - 1).toNat, by rw [hread]; congr 1; omega, ?_⟩
      rw [positive, hread, Option.getD_some]
      omega

/-- The memory of a dump has the bytes of the dump, filled up to whole slots. -/
lemma base_ofDump {fs : Files} {p : Parsed} {dump : String} {content : List UInt8}
    (hread : fs.read dump = .ok content) :
    Base fs p dump (Flash.ofDump content).bytes
      ∧ (Flash.ofDump content).bytes.length = (Flash.ofDump content).slots * slotSize := by
  have hpos : 0 < slotSize := by decide
  have hupper : content.length ≤ (content.length + slotSize - 1) / slotSize * slotSize := by
    have := Nat.lt_div_mul_add (a := content.length + slotSize - 1) hpos
    omega
  have hlower : (content.length + slotSize - 1) / slotSize * slotSize
      ≤ content.length + slotSize - 1 := Nat.div_mul_le_self ..
  refine ⟨.kept hread (by omega) ?_, Flash.length_bytes_ofDump content⟩
  rw [Nat.add_sub_cancel' hupper]
  exact Nat.dvd_mul_left ..

/-- Sides that are stored in the memory of a dump are stored in the dump when it is written. -/
lemma stores_of_writeSides {fs : Files} {dump : String} {flash flash' : Flash} {slot : Nat}
    {name : Text.Name} {sides : List Side} {l : Location}
    (hlen : flash.bytes.length = flash.slots * slotSize)
    (hstore : (Flash.writeSides slot name sides).perform flash = (.ok (), flash'))
    (hleads : fs.LeadsTo dump l) :
    Stores fs dump flash.bytes slot name sides ((fs.store l []).store l flash'.bytes)
      flash'.bytes := by
  obtain ⟨-, images, rfl, hsame, hfits, hcount, hsize, hget⟩ :=
    Flash.exists_images_of_store hlen.ge hstore
  have hall : slot * slotSize + images.flatten.length = (slot + images.length) * slotSize := by
    rw [length_flatten_of_forall hsize, Nat.add_mul]
  have hroom : slot * slotSize + images.flatten.length ≤ flash.bytes.length := by
    rw [hall]
    exact hfits
  rw [hcount] at hall
  refine ⟨⟨l, hleads, (Files.AgreeOff.store fs l []).trans (.store _ l _)⟩,
    (hleads.store []).read_store _, ?_, hsame, ?_, ?_, ?_⟩
  · rw [hsame, hlen]
    exact Nat.dvd_mul_left ..
  · rw [← hall]
    exact hroom
  · intro i hi
    rw [← hall] at hi
    exact Flash.getElem?_overwrite hroom hi
  · intro i side hside
    obtain ⟨header, head, hheader, hpack, himage⟩ := hget i side hside
    exact ⟨header, head, hheader, hpack, Flash.slotBytes_overwrite hsize hfits himage⟩

/-! ### A store that fails -/

lemma keeps_openDump (p : Parsed) (action dump : String) :
    (openDump p action dump).Keeps Session.files := by
  refine keeps_get.bind fun s => ?_
  split
  · split
    · exact keeps_pure _
    · exact keeps_pure _
    · exact keeps_throw _
  · exact (keeps_get.bind fun _ => keeps_ofExcept _).bind fun _ => keeps_pure _

lemma keeps_listSides (sides : List Side) :
    (sides.zipIdx.forM fun (side, i) => side.print (Side.title i) false).Keeps Session.files :=
  keeps_forM (fun (side, i) => Convert.keeps_print (Side.title i) side false) sides.zipIdx

lemma neverFails_listSides (sides : List Side) :
    (sides.zipIdx.forM fun (side, i) => side.print (Side.title i) false).NeverFails :=
  neverFails_forM (fun (_, _) => (Session.neverFails_print _).bind fun _ =>
    neverFails_forM (fun _ => Session.neverFails_print _) _) sides.zipIdx

lemma failsSafe_store (flash : Flash) (dump : String) (slot : Nat) (format : Format) (file : String)
    (options : Options) : (store flash dump slot format file options).FailsSafe := by
  refine (Image.keeps_ofFile format file options).failsSafe_bind fun image => ?_
  refine (keeps_listSides image.sides).failsSafe_bind fun _ => ?_
  refine (keeps_ofExcept _).failsSafe_bind fun _ => ?_
  exact (Session.failsSafe_writeFile _ _).bind_neverFails fun _ => Session.neverFails_print _

/-- A store that fails changes no file. -/
lemma failsSafe_run (haction : p.argument? 0 = some "write") : (run p).FailsSafe := by
  rw [run, haction]
  refine (keeps_liftM _).failsSafe_bind fun dump => ?_
  refine (keeps_openDump p "write" dump).failsSafe_bind fun flash => ?_
  rw [if_neg (by decide)]
  split
  · next slot file hslot hfile =>
    refine (keeps_liftM _).failsSafe_bind fun format => ?_
    exact failsSafe_store ..
  · exact (keeps_throw _).failsSafe

/-! ### A store that does not fail -/

lemma askedSlots_of_value? (hp : p.Passes grammar) {text : String}
    (hvalue : p.value? "--slots" = some (some text)) : AskedSlots p (positive text) := by
  obtain ⟨spec, hspec, hname, isValid, hkind, hvalid⟩ := hp.exists_of_value? hvalue
  have hpositive : isPositive text = true := by
    rcases List.mem_pair.mp hspec with rfl | rfl
    · cases hkind
    · obtain rfl : isPositive = isValid := OptionKind.value.inj hkind
      exact hvalid
  obtain ⟨n, hread, heq⟩ := exists_of_isPositive hpositive
  exact .inr ⟨text, hvalue, by rw [hread, heq, Int.natCast_succ]⟩

/-- The memory that is opened to store an image has the bytes that the image is stored in. -/
lemma base_of_openDump (hp : p.Passes grammar) {dump : String} {s s' : Session} {flash : Flash}
    (h : (openDump p "write" dump).perform s = (.ok flash, s')) :
    s' = s ∧ Base s.files p dump flash.bytes ∧ flash.bytes.length = flash.slots * slotSize := by
  rw [openDump, perform_bind_ok (perform_get s)] at h
  split at h
  · next hnew =>
    have habsent : s.files.isPresent dump = false := by simpa using hnew
    split at h
    · next hnone =>
      obtain ⟨hflash, rfl⟩ := Prod.mk.inj h
      obtain rfl := Except.ok.inj hflash
      exact ⟨rfl, .erased habsent (.inl ⟨hnone, rfl⟩), List.length_replicate⟩
    · next text hvalue =>
      obtain ⟨hflash, rfl⟩ := Prod.mk.inj h
      obtain rfl := Except.ok.inj hflash
      exact ⟨rfl, .erased habsent (askedSlots_of_value? hp hvalue), List.length_replicate⟩
    · cases (Prod.mk.inj h).1
  · obtain ⟨content, s₁, hread, h⟩ := exists_of_perform_bind_eq_ok h
    obtain ⟨hcontent, rfl⟩ : s.files.read dump = .ok content ∧ s = s₁ := Prod.mk.inj hread
    obtain ⟨hflash, rfl⟩ := Prod.mk.inj h
    obtain rfl := Except.ok.inj hflash
    exact ⟨rfl, base_ofDump hcontent⟩

/-- An image that is stored changes the slots of its sides only. -/
lemma exists_stores_of_store {flash : Flash} {dump name : String} {slot : Nat} {format : Format}
    {options : Options} {s s' : Session} (hlen : flash.bytes.length = flash.slots * slotSize)
    (h : (store flash dump (slot + 1) format name options).perform s = (.ok (), s')) :
    ∃ image s₁ new, (Image.ofFile format name options).perform s = (.ok image, s₁)
      ∧ Stores s.files dump flash.bytes slot name image.sides s'.files new := by
  obtain ⟨image, s₁, himage, h⟩ := exists_of_perform_bind_eq_ok h
  obtain ⟨⟨⟩, s₂, hlist, h⟩ := exists_of_perform_bind_eq_ok h
  have hbefore : s₂.files = s.files :=
    ((keeps_listSides image.sides).eq_of_perform hlist).trans
      ((Image.keeps_ofFile format name options).eq_of_perform himage)
  rw [Nat.add_sub_cancel] at h
  cases hstore : (Flash.writeSides slot name image.sides).perform flash with
  | mk result flash' =>
      rw [hstore] at h
      obtain ⟨⟨⟩, s₃, hresult, h⟩ := exists_of_perform_bind_eq_ok h
      obtain ⟨rfl, rfl⟩ : result = .ok () ∧ s₂ = s₃ := Prod.mk.inj hresult
      obtain ⟨⟨⟩, s₄, hwrite, hlast⟩ := exists_of_perform_bind_eq_ok h
      have hafter : s'.files = s₄.files := (Session.keeps_print _).eq_of_perform hlast
      rcases Session.writeFile_cases dump flash'.bytes s₂ with ⟨l, hleads, hok⟩ | ⟨-, cause, herror⟩
      · obtain ⟨-, rfl⟩ := Prod.mk.inj (hwrite.symm.trans hok)
        rw [hbefore] at hleads hafter
        rw [hafter]
        exact ⟨image, s₁, flash'.bytes, himage, stores_of_writeSides hlen hstore hleads⟩
      · cases hwrite.symm.trans herror

/-- What words do that ask for a store. -/
lemma perform_run {dump slotText fileText name : String} {options : Options} {format : Format}
    {flash : Flash} {s : Session} (haction : p.argument? 0 = some "write")
    (hdump : p.argument? 1 = some dump) (hslot : p.argument? 2 = some slotText)
    (hfile : p.argument? 3 = some fileText) (hname : Options.splitName fileText = (name, options))
    (hformat : Format.ofFileName name = .ok format)
    (hopen : (openDump p "write" dump).perform s = (.ok flash, s)) :
    (run p).perform s = (store flash dump (positive slotText) format name options).perform s := by
  have hfirst : p.argument 1 .missingOperand = .ok dump := by
    rw [Parsed.argument, hdump]
    rfl
  have hpresent : (liftM (p.argument 1 .missingOperand) : Action Session String).perform s
      = (.ok dump, s) := by
    rw [hfirst]
    rfl
  have hnamed : (liftM (Format.ofFileName name) : Action Session Format).perform s
      = (.ok format, s) := by
    rw [hformat]
    rfl
  rw [run, haction, Option.getD_some, perform_bind_ok hpresent, perform_bind_ok hopen,
    if_neg (by decide), hslot, hfile]
  simp only [hname, if_true]
  rw [perform_bind_ok hnamed]

/-- A store does not fail if the image can be read, its sides can be stored, and the dump can be
written. -/
lemma exists_perform_store {flash flash' : Flash} {dump name : String} {slot : Nat}
    {format : Format} {options : Options} {s s₁ : Session} {image : Image}
    (himage : (Image.ofFile format name options).perform s = (.ok image, s₁))
    (hstore : (Flash.writeSides slot name image.sides).perform flash = (.ok (), flash'))
    (hopen : Image.Opens s.files dump false) :
    ∃ s', (store flash dump (slot + 1) format name options).perform s = (.ok (), s') := by
  obtain ⟨⟨⟩, s₂, hlist⟩ := neverFails_listSides image.sides s₁
  have hbefore : s₂.files = s.files :=
    ((keeps_listSides image.sides).eq_of_perform hlist).trans
      ((Image.keeps_ofFile format name options).eq_of_perform himage)
  rw [store, perform_bind_ok himage, perform_bind_ok hlist, Nat.add_sub_cancel, hstore]
  dsimp only
  rw [perform_bind_ok (perform_ofExcept (.ok ()) s₂)]
  rcases Session.writeFile_cases dump flash'.bytes s₂ with ⟨l, -, hwrite⟩ | ⟨hclosed, -⟩
  · rw [perform_bind_ok hwrite]
    exact ⟨_, rfl⟩
  · exact absurd (hbefore ▸ hopen) hclosed

/-- A store that does not fail changes the dump only, and in it the slots of the sides only. -/
lemma exists_stores_of_run (hp : p.Passes grammar) (haction : p.argument? 0 = some "write")
    {fs : Files} {s' : Session} (h : (run p).perform { files := fs } = (.ok (), s')) :
    ∃ dump slot name image old new, Asked fs p dump slot name image ∧ Base fs p dump old
      ∧ Stores fs dump old slot name image.sides s'.files new := by
  rw [run, haction, Option.getD_some] at h
  obtain ⟨dump, s₁, hfirst, h⟩ := exists_of_perform_bind_eq_ok h
  obtain ⟨hdump, rfl⟩ : p.argument 1 .missingOperand = .ok dump ∧ { files := fs } = s₁ :=
    Prod.mk.inj hfirst
  obtain ⟨flash, s₂, hopen, h⟩ := exists_of_perform_bind_eq_ok h
  obtain ⟨rfl, hbase, hlen⟩ := base_of_openDump hp hopen
  rw [if_neg (by decide)] at h
  split at h
  · next slotText fileText hslot hfile =>
    cases hname : Options.splitName fileText with | mk name options => ?_
    rw [hname] at h
    obtain ⟨format, s₃, hnamed, h⟩ := exists_of_perform_bind_eq_ok h
    obtain ⟨hformat, rfl⟩ : Format.ofFileName name = .ok format ∧ { files := fs } = s₃ :=
      Prod.mk.inj hnamed
    obtain ⟨slot, hread, hpositive⟩ :=
      exists_of_isPositive (hp.isValid_of_argument? (i := 2) rfl hslot)
    rw [if_pos rfl, hpositive] at h
    obtain ⟨image, s₄, new, himage, hstores⟩ := exists_stores_of_store hlen h
    exact ⟨dump, slot, name, image, _, new, ⟨argument_eq_ok hdump,
      ⟨slotText, hslot, hread⟩, fileText, options, format, s₄, hfile, hname, hformat, himage⟩,
      hbase, hstores⟩
  · cases (Prod.mk.inj h).1

end Command.Dump

/-! ### Command lines -/

namespace Command

lemma files_outcome (common : Common) (result : Except Fault Unit) (s : Session) :
    (outcome common result s).files = s.files := by
  simp only [outcome]
  split <;> rfl

lemma ending_outcome_ok (common : Common) (s : Session) :
    (outcome common (.ok ()) s).ending = .returned 0 := by
  simp only [outcome]
  split <;> rfl

lemma ending_outcome_error (common : Common) (cause : Fault) (s : Session) :
    (outcome common (.error cause) s).ending ≠ .returned 0 := by
  simp only [outcome]
  by_cases huncaught : common.backtrace ∨ isUncaught cause
  · simp only [if_pos huncaught]
    split <;> simp
  · simp only [if_neg huncaught]
    split <;> simp

/-- A command line whose words are those of an action. -/
lemma run_action (program : String) (action : ActionName) {words rest : List String}
    {common : Common} {p : Parsed} {fs : Files} {result : Except Fault Unit} {s : Session}
    (hwords : Common.parse {} words = some (common, action.name :: rest))
    (hparse : action.grammar.parse rest = .ok p)
    (hrun : (action.run p).perform { files := fs } = (result, s)) :
    Command.run program words fs = outcome common result s := by
  have hname : ActionName.ofName? action.name = some action := by cases action <;> decide
  simp only [Command.run, hwords, hname, hparse, hrun]

/-- A command line that works on a dump. -/
lemma run_flash (program : String) {words rest : List String} {common : Common} {p : Parsed}
    {fs : Files} {result : Except Fault Unit} {s : Session}
    (hflash : Common.parse {} words = some (common, "flash" :: rest))
    (hparse : Dump.grammar.parse rest = .ok p)
    (hrun : (Dump.run p).perform { files := fs } = (result, s)) :
    Command.run program words fs = outcome common result s :=
  run_action program .flash hflash hparse hrun

/-- A command line that works on a dump and is refused. -/
lemma run_flash_refused (program : String) {words rest : List String} {common : Common}
    {refusal : Refusal} {fs : Files}
    (hflash : Common.parse {} words = some (common, "flash" :: rest))
    (hparse : Dump.grammar.parse rest = .error refusal) :
    (Command.run program words fs).ending ≠ .returned 0
      ∧ (Command.run program words fs).files = fs := by
  have hname : ActionName.ofName? "flash" = some .flash := by decide
  simp only [Command.run, hflash, hname, ActionName.grammar, hparse]
  cases refusal <;> simp

/-- **A command line that stores an image changes no file, or it ends well and has changed the dump
only**: the dump has whole slots, and no byte of it but those of the slots of the sides is another
one than in the old dump, filled up to whole slots, or in a new one, which is erased. -/
theorem run_write_cases (program : String) {words rest : List String} {common : Common} (fs : Files)
    (hflash : Common.parse {} words = some (common, "flash" :: rest))
    (hwrite : ∀ p, Dump.grammar.parse rest = .ok p → p.argument? 0 = some "write") :
    let o := Command.run program words fs
    (o.ending ≠ .returned 0 ∧ o.files = fs)
      ∨ (o.ending = .returned 0 ∧ ∃ p dump slot name image old new,
          Dump.grammar.parse rest = .ok p ∧ Dump.Asked fs p dump slot name image
          ∧ Dump.Base fs p dump old
          ∧ Dump.Stores fs dump old slot name image.sides o.files new) := by
  intro o
  cases hparse : Dump.grammar.parse rest with
  | error refusal => exact .inl (run_flash_refused program hflash hparse)
  | ok p =>
      have haction := hwrite p hparse
      cases hrun : (Dump.run p).perform { files := fs } with
      | mk result s =>
          simp only [o, run_flash program hflash hparse hrun, files_outcome]
          cases result with
          | error cause =>
              exact .inl ⟨ending_outcome_error common cause s, Dump.failsSafe_run haction hrun⟩
          | ok _ =>
              obtain ⟨dump, slot, name, image, old, new, hasked, hbase, hstores⟩ :=
                Dump.exists_stores_of_run (Grammar.passes_of_parse hparse) haction hrun
              exact .inr ⟨ending_outcome_ok common s, p, dump, slot, name, image, old, new, rfl,
                hasked, hbase, hstores⟩

/-- What the words say that store a bare side in a new dump of one slot. -/
def storeBareSide : Parsed where
  values := [("--slots", some "1")]
  arguments := [some "write", some "d.bin", some "1", some "a.bin"]

/-- A file that holds a bare side. -/
def bareSide : Files := { files := [(["a.bin"], [0x80])] }

/-- A bare side can be stored. -/
lemma exists_perform_run_bareSide :
    ∃ s', (Dump.run storeBareSide).perform { files := bareSide } = (.ok (), s') := by
  obtain ⟨image, s₁, himage, hroom⟩ : ∃ image s₁,
      (Image.ofFile .layout "a.bin" []).perform { files := bareSide } = (.ok image, s₁)
        ∧ (Flash.erased 1).refusal? 0 "a.bin" image.sides = none := by
    have hroom : (((Image.ofFile .layout "a.bin" []).perform { files := bareSide }).1.toOption.map
        fun image => ((Flash.erased 1).refusal? 0 "a.bin" image.sides).isNone) = some true := by
      decide +kernel
    generalize (Image.ofFile .layout "a.bin" []).perform { files := bareSide } = loaded at hroom ⊢
    obtain ⟨_ | image, s₁⟩ := loaded
    · cases hroom
    · exact ⟨image, s₁, rfl, Option.isNone_iff_eq_none.mp (Option.some.inj hroom)⟩
  obtain ⟨images, hstore, -⟩ := Flash.exists_perform_writeSides (Flash.isWhole_erased 1) hroom
  have hcreate : Image.Opens bareSide "d.bin" false :=
    Image.opens_of_vacant rfl rfl (by decide)
  have hopen : (Dump.openDump storeBareSide "write" "d.bin").perform { files := bareSide }
      = (.ok (Flash.erased 1), { files := bareSide }) := rfl
  have hname : Options.splitName "a.bin" = ("a.bin", []) := rfl
  have hformat : Format.ofFileName "a.bin" = .ok .layout := rfl
  obtain ⟨s', hs'⟩ := Dump.exists_perform_store himage hstore hcreate
  refine ⟨s', ?_⟩
  rw [Dump.perform_run rfl rfl rfl rfl hname hformat hopen]
  exact hs'

/-- A bare side is stored in a new dump, and its own file stays. -/
theorem run_write_cases_bareSide :
    ∃ new,
      let o := Command.run "fds" ["flash", "--slots=1", "write", "d.bin", "1", "a.bin"] bareSide
      o.ending = .returned 0 ∧ o.files.read "d.bin" = .ok new ∧ new.length = slotSize
        ∧ o.files.content? ["a.bin"] = some [0x80] := by
  have hflash : Common.parse {} ["flash", "--slots=1", "write", "d.bin", "1", "a.bin"]
      = some ({}, "flash" :: ["--slots=1", "write", "d.bin", "1", "a.bin"]) := by
    have hname : "flash".startsWith "--" = false := by decide +kernel
    simp [Common.parse, hname]
  have hparse : Dump.grammar.parse ["--slots=1", "write", "d.bin", "1", "a.bin"]
      = .ok storeBareSide := rfl
  have hwrite : ∀ p, Dump.grammar.parse ["--slots=1", "write", "d.bin", "1", "a.bin"] = .ok p →
      p.argument? 0 = some "write" := by
    intro p hp
    rw [← Except.ok.inj (hparse.symm.trans hp)]
    rfl
  obtain ⟨s', hrun⟩ := exists_perform_run_bareSide
  rcases run_write_cases "fds" bareSide hflash hwrite with
    ⟨hfailed, -⟩ | ⟨hending, p, dump, slot, name, image, old, new, hp, hasked, hbase, hstores⟩
  · rw [run_flash "fds" hflash hparse hrun] at hfailed
    exact absurd (ending_outcome_ok _ _) hfailed
  · obtain rfl := Except.ok.inj (hparse.symm.trans hp)
    obtain rfl : "d.bin" = dump := Option.some.inj hasked.dump_eq
    refine ⟨new, hending, hstores.read_eq, ?_, ?_⟩
    · rw [hstores.length_eq]
      cases hbase with
      | kept hread => cases hread
      | erased _ hslots =>
          rcases hslots with ⟨hnone, -⟩ | ⟨text, htext, hslots⟩
          · cases hnone
          · obtain rfl : "1" = text := Option.some.inj (Option.some.inj htext)
            have hone : Text.readInt? "1" = some 1 := by decide
            obtain rfl : 1 = _ := by exact_mod_cast Option.some.inj (hone.symm.trans hslots)
            rw [List.length_replicate, Nat.one_mul]
    · obtain ⟨l, hleads, hsame⟩ := hstores.other
      have hvacant : bareSide.locate "d.bin" = .ok (.vacant ["d.bin"]) := rfl
      have hplace := hvacant.symm.trans hleads.locate_eq
      refine hsame.content ["a.bin"] ?_
      rintro rfl
      cases Except.ok.inj hplace

end Command

end FamicomDisk
