import FamicomDisk.Proofs.Dumps
import FamicomDisk.Proofs.Refusals

/-!
Images that are read again.

An image may have been read before, it may have been given sides, and its options may have been set,
refused or not. What is read then should not depend on that. But the sides of a dump are added to
those that the image has, and a capture that is read as a standard disk keeps the layout that was
recovered from another one. Everything else is replaced.

* `Image.Event`, `Image.history`: what may have been done with an image.
* `Image.exists_loadDump_eq`, `Image.exists_loadRecovered_eq`: what is found depends on the bytes
  alone.
* `Image.load_cases`: what reading comes to, told by what it comes to for a new image.
* `Image.isSame_after`, `Image.isSame_history`: what no event changes, and no sequence of events.
* `Image.load_history`: **what of an image is not replaced**, after any events, and
  `Image.not_forall_load_history`.
-/

namespace FamicomDisk

open FamicomDisk.Action

namespace Image

/-! ### What may have been done with an image -/

/-- What may be done with an image. -/
inductive Event where
  /-- An option is set, or it is refused. -/
  | request (r : Request)
  /-- The thresholds of a capture are set. -/
  | thresholds (th : Thresholds)
  /-- A side is added. -/
  | emit (side : Side)
  /-- Bytes are read, or they cannot be. -/
  | read (dat : List UInt8)

/-- An image after an event. Bytes that cannot be read leave it as it was. -/
def after (i : Image) : Event → Image
  | .request r => (r.action.perform i).2
  | .thresholds th => i.setThresholds th
  | .emit side => i.addSide side
  | .read dat => (i.load dat).2.toOption.getD i

/-- An image after events, each of which begins with what the one before it has left. -/
def history (events : List Event) (i : Image) : Image := events.foldl after i

/-- A new image with the file and the options of another one. -/
def fresh (i : Image) : Image := { file := i.file, settings := i.settings }

/-- The sides of an image that are left before those that are read: all of them if the bytes are a
dump of slots, and none otherwise. -/
def keptSides (i : Image) (dat : List UInt8) : List Side :=
  if i.format = .layout ∧ Flash.isDump dat = true then i.sides else []

variable {i j k : Image} {dat : List UInt8}

/-- An image has the file and the format of another one. If that is not a capture, it has the layout
that was recovered from it, too. -/
structure IsSame (i j : Image) : Prop where
  file_eq : j.file = i.file
  format_eq : j.format = i.format
  recovered_eq : i.format = .capture ∨ j.recovered = i.recovered

lemma IsSame.refl (i : Image) : IsSame i i := ⟨rfl, rfl, .inr rfl⟩

lemma IsSame.trans (hij : IsSame i j) (hjk : IsSame j k) : IsSame i k where
  file_eq := hjk.file_eq.trans hij.file_eq
  format_eq := hjk.format_eq.trans hij.format_eq
  recovered_eq := by
    rcases hij.recovered_eq with hcapture | hij'
    · exact .inl hcapture
    · rcases hjk.recovered_eq with hcapture | hjk'
      · exact .inl (hij.format_eq ▸ hcapture)
      · exact .inr (hjk'.trans hij')

/-! ### What is found in bytes -/

/-- The slots of a dump can always be read, so what is found in it depends on its bytes only. -/
lemma exists_loadDump_eq (dat : List UInt8) : ∃ found : List Side, ∀ i : Image,
    i.loadDump dat = if i.sides ++ found = [] then .error (.image (.noSidesFound i.file))
      else .ok { i with sides := i.sides ++ found } := by
  have hslot : ∀ k < (Flash.ofDump dat).slots, ∃ header side,
      (Flash.ofDump dat).header k = .ok header ∧ (Flash.ofDump dat).side k = .ok (header, side) :=
    fun k hk => Flash.exists_side ((Nat.mul_le_mul_right _ hk).trans (Flash.isWhole_ofDump dat))
  obtain ⟨headers, hheaders, hlen, -⟩ : ∃ headers, (Flash.ofDump dat).headers = .ok headers ∧ _ :=
    exists_mapM_eq_ok fun k hk => by
      obtain ⟨header, -, hheader, -⟩ := hslot k (List.mem_range.mp hk)
      exact ⟨header, hheader⟩
  rw [List.length_range] at hlen
  obtain ⟨found, hfound, -⟩ : ∃ found, ((headers.zipIdx.filter fun q => !q.1.isEmpty).mapM
      fun q => do pure (← (Flash.ofDump dat).side q.2).2 : Except Fault _) = .ok found ∧ _ :=
    exists_mapM_eq_ok fun q hq => by
      have hget := List.mk_mem_zipIdx_iff_getElem?.mp (List.mem_filter.mp hq).1
      obtain ⟨hlt, -⟩ := List.getElem?_eq_some_iff.mp hget
      obtain ⟨header, side, -, hside⟩ := hslot q.2 (hlen ▸ hlt)
      exact ⟨side, by simp only [hside]; rfl⟩
  refine ⟨found, fun i => ?_⟩
  rw [loadDump]
  dsimp only
  rw [hheaders, ok_bind, hfound, ok_bind]
  by_cases hnone : i.sides ++ found = []
  · rw [if_pos hnone, if_pos (by rw [hnone]; rfl)]
    rfl
  · rw [if_neg hnone, if_neg (by rwa [List.isEmpty_iff])]
    rfl

/-- The layout that is recovered from a capture depends on its bytes and the thresholds only. -/
lemma exists_loadRecovered_eq (dat : List UInt8) (th : Thresholds) :
    ∃ found : Except Fault (Side × Option Recovered), ∀ i : Image,
      i.loadRecovered dat th
        = found.map fun x => { i with sides := [x.1], recovered := x.2.or i.recovered } := by
  refine ⟨do
    let r ← Recovery.ofRaw dat th
    let side ← Layout.walk r.layout
    pure ({ side with diagnostics := r.diagnostics }, some r), fun i => ?_⟩
  rw [loadRecovered]
  cases Recovery.ofRaw dat th with
  | error cause => rfl
  | ok r =>
      rw [ok_bind, ok_bind]
      cases Layout.walk r.layout <;> rfl

/-- What reading comes to for an image, when it comes to `first` for a new one: what the new image
has, behind the sides that are kept, and the layout that was recovered before, if none is now. Bytes
that a new image does not read are read if sides are kept, and then nothing changes. -/
def Rereads (i : Image) (dat : List UInt8) (first second : Except Fault Image) : Prop :=
  (∃ read, first = .ok read
      ∧ second = .ok { read with
          sides := i.keptSides dat ++ read.sides
          recovered := read.recovered.or i.recovered }
      ∧ IsSame i.fresh read)
    ∨ ∃ cause, first = .error cause
      ∧ second = if i.keptSides dat = [] then .error cause else .ok i

/-- Where no sides are kept, those that are found stand alone, and a layout that was recovered
before is kept if none is now. -/
lemma rereads_map {α : Type} {recovered : α → Option Recovered} (hkept : i.keptSides dat = [])
    (hnone : i.format = .capture ∨ ∀ x, recovered x = none) (found : Except Fault α)
    (sides : α → List Side) :
    Rereads i dat
      (found.map fun x =>
        { i.fresh with sides := sides x, recovered := (recovered x).or i.fresh.recovered })
      (found.map fun x =>
        { i with sides := sides x, recovered := (recovered x).or i.recovered }) := by
  cases found with
  | error cause => exact .inr ⟨cause, rfl, (if_pos hkept).symm⟩
  | ok x =>
      refine .inl ⟨{ i.fresh with sides := sides x, recovered := recovered x }, ?_,
        by rw [hkept]; rfl, ⟨rfl, rfl, hnone.imp id fun h => h x⟩⟩
      have hfresh : (recovered x).or i.fresh.recovered = recovered x := Option.or_none
      exact congrArg (fun r => Except.ok { i.fresh with sides := sides x, recovered := r }) hfresh

lemma rereads_loadDump (hkept : i.keptSides dat = i.sides) :
    Rereads i dat (i.fresh.loadDump dat) (i.loadDump dat) := by
  obtain ⟨found, hfound⟩ := exists_loadDump_eq dat
  rw [hfound, hfound]
  change Rereads i dat (if found = [] then _ else _) _
  cases found with
  | nil =>
      refine .inr ⟨_, if_pos rfl, ?_⟩
      rw [hkept, List.append_nil]
      rfl
  | cons side sides =>
      rw [if_neg (List.cons_ne_nil side sides), if_neg (by simp)]
      exact .inl ⟨_, rfl, by rw [hkept]; rfl, ⟨rfl, rfl, .inr rfl⟩⟩

lemma load_of_diskImage {header : Bool} (h : i.settings = .diskImage header) (dat : List UInt8) :
    i.load dat = ([], (DiskImage.read dat).map fun sides => { i with sides }) := by
  rw [load, h]
  cases DiskImage.read dat <;> rfl

lemma load_of_gameDoctor (h : i.settings = .gameDoctor) (dat : List UInt8) :
    i.load dat = ([], (GameDoctor.read dat).map fun side => { i with sides := [side] }) := by
  rw [load, h]
  cases GameDoctor.read dat <;> rfl

/-- A capture is read as a standard disk, or its layout is recovered: what is found depends on its
bytes and the options only, and no layout is found in a standard disk. -/
lemma load_of_capture {mode : Mode} {th : Thresholds} {leadIn : Option Int}
    (h : i.settings = .capture mode th leadIn) (dat : List UInt8) :
    ∃ (lines : List String) (found : Except Fault (Side × Option Recovered)), ∀ j : Image,
      j.settings = i.settings → j.load dat = (lines, found.map fun x =>
        { j with sides := [x.1], recovered := x.2.or j.recovered }) := by
  obtain ⟨found, hfound⟩ := exists_loadRecovered_eq dat th
  by_cases hmode : mode = .heuristic
  · obtain rfl := hmode
    have hload : ∀ j : Image, j.settings = i.settings →
        j.load dat = ([], j.loadRecovered dat th) := fun j hj => by rw [load, hj, h]
    exact ⟨[], found, fun j hj => (hload j hj).trans (congrArg _ (hfound j))⟩
  have hload : ∀ j : Image, j.settings = i.settings →
      (∀ cause, Capture.sideOfRaw dat = .error cause → j.load dat = ([], .error cause))
        ∧ ∀ side, Capture.sideOfRaw dat = .ok side → j.load dat =
          if mode = .known ∨ (side.blocks ≠ [] ∧ side.diagnostics = []) then
            ([], .ok { j with sides := [side] })
          else
            ([s!"RAW: {side.summary}: Reconstructing disk layout"], j.loadRecovered dat th) := by
    intro j hj
    rw [load, hj, h]
    cases mode with
    | heuristic => exact absurd rfl hmode
    | auto | known => exact ⟨fun _ hside => by rw [hside]; rfl, fun _ hside => by rw [hside]; rfl⟩
  cases hside : Capture.sideOfRaw dat with
  | error cause => exact ⟨[], .error cause, fun j hj => (hload j hj).1 cause hside⟩
  | ok side =>
      by_cases hread : mode = .known ∨ (side.blocks ≠ [] ∧ side.diagnostics = [])
      · refine ⟨[], .ok (side, none), fun j hj => ?_⟩
        rw [(hload j hj).2 side hside, if_pos hread]
        rfl
      · exact ⟨_, found, fun j hj => by rw [(hload j hj).2 side hside, if_neg hread, hfound]⟩

/-- **What reading comes to**, told by what it comes to for a new image. -/
lemma load_cases (i : Image) (dat : List UInt8) :
    (i.load dat).1 = (i.fresh.load dat).1
      ∧ Rereads i dat (i.fresh.load dat).2 (i.load dat).2 := by
  have hsame : i.fresh.settings = i.settings := rfl
  by_cases hlayout : i.format = .layout
  · rw [load_eq hlayout, load_eq (show i.fresh.format = .layout from hlayout)]
    refine ⟨rfl, ?_⟩
    by_cases hdump : Flash.isDump dat = true
    · simp only [if_pos hdump]
      exact rereads_loadDump (if_pos ⟨hlayout, hdump⟩)
    · simp only [if_neg hdump]
      exact rereads_map (if_neg fun h => hdump h.2) (.inr fun _ => rfl) (Layout.walk dat)
        fun side => [side]
  have hkept : i.keptSides dat = [] := if_neg fun hdump => hlayout hdump.1
  cases hsettings : i.settings with
  | layout header title => exact absurd (congrArg Settings.format hsettings) hlayout
  | diskImage header =>
      rw [load_of_diskImage hsettings, load_of_diskImage (hsame.trans hsettings)]
      exact ⟨rfl, rereads_map hkept (.inr fun _ => rfl) (DiskImage.read dat) fun sides => sides⟩
  | gameDoctor =>
      rw [load_of_gameDoctor hsettings, load_of_gameDoctor (hsame.trans hsettings)]
      exact ⟨rfl, rereads_map hkept (.inr fun _ => rfl) (GameDoctor.read dat) fun side => [side]⟩
  | capture mode th leadIn =>
      obtain ⟨lines, found, hload⟩ := load_of_capture hsettings dat
      rw [hload i rfl, hload i.fresh hsame]
      exact ⟨rfl, rereads_map hkept (.inl (congrArg Settings.format hsettings)) found
        fun x => [x.1]⟩

/-! ### What events leave alone -/

/-- What a request leaves alone. -/
lemma isSame_request (i : Image) (r : Request) : IsSame i (r.action.perform i).2 := by
  have hkeeps : ∀ {γ : Type} (part : Image → γ),
      (∀ (i : Image) (settings : Settings), part { i with settings } = part i) →
      r.action.Keeps part := by
    intro γ part hpart
    rw [Request.action]
    split
    · exact keeps_get.bind fun i => keeps_setOption hpart i.format.readOptions r.option r.value
    · exact keeps_get.bind fun i => keeps_setOption hpart i.format.writeOptions r.option r.value
  exact ⟨hkeeps file (fun _ _ => rfl) i, (isAnswer_request i r).format_eq,
    .inr (hkeeps recovered (fun _ _ => rfl) i)⟩

/-- What reading leaves alone. -/
lemma isSame_load (h : (i.load dat).2 = .ok j) : IsSame i j := by
  obtain ⟨read, -, hload, hread⟩ | ⟨cause, -, hload⟩ := (load_cases i dat).2
  · obtain rfl := Except.ok.inj (h.symm.trans hload)
    exact ⟨hread.file_eq, hread.format_eq, hread.recovered_eq.imp id fun hnone => by
      rw [show read.recovered = none from hnone, Option.none_or]⟩
  · rw [h] at hload
    split at hload
    · cases hload
    · obtain rfl := Except.ok.inj hload
      exact .refl _

/-- **What an event leaves alone.** -/
lemma isSame_after (i : Image) (e : Event) : IsSame i (i.after e) := by
  cases e with
  | request r => exact isSame_request i r
  | thresholds th =>
      rw [after, setThresholds]
      split
      · next hsettings => exact ⟨rfl, by rw [format, format, hsettings]; rfl, .inr rfl⟩
      · exact .refl i
  | emit side => exact ⟨rfl, rfl, .inr rfl⟩
  | read dat =>
      rw [after]
      cases hload : (i.load dat).2 with
      | error cause => exact .refl i
      | ok j => exact isSame_load hload

/-- **What no sequence of events changes.** -/
lemma isSame_history (events : List Event) (i : Image) : IsSame i (history events i) := by
  induction events generalizing i with
  | nil => exact .refl _
  | cons e events ih => exact (isSame_after i e).trans (ih (i.after e))

/-! ### What reading does not replace -/

lemma keptSides_eq_nil_iff (i : Image) (dat : List UInt8) :
    i.keptSides dat = []
      ↔ ¬ (i.format = .layout ∧ Flash.isDump dat = true ∧ i.sides ≠ []) := by
  rw [keptSides]
  split
  · next hdump => simp [hdump]
  · next hdump => simpa using fun hlayout hbytes => absurd ⟨hlayout, hbytes⟩ hdump

/-- Nothing of an image is left exactly if it has no sides that are kept, and no layout that was
recovered before where none is now. -/
lemma Rereads.eq_iff {first second : Except Fault Image} (h : Rereads i dat first second) :
    second = first ↔ i.keptSides dat = []
      ∧ ¬ (i.recovered ≠ none ∧ ∃ read, first = .ok read ∧ read.recovered = none) := by
  obtain ⟨read, rfl, rfl, -⟩ | ⟨cause, rfl, rfl⟩ := h
  · obtain ⟨file, settings, sides, recovered⟩ := read
    cases recovered <;> simp
  · by_cases hkept : i.keptSides dat = [] <;> simp [hkept]

/-- **What of an image is not replaced** when it is read again, after any events and for any bytes.
It is what a new image with its options comes to, with the same lines, but for the sides that are
kept before those of a dump, and the layout that was recovered before. It is the same, whether bytes
are read or refused, exactly if there is nothing of this kind. -/
theorem load_history (format : Format) (file : String) (events : List Event) (dat : List UInt8) :
    let i := history events (new format file)
    i.fresh = { new format file with settings := i.settings }
      ∧ (i.load dat).1 = (i.fresh.load dat).1
      ∧ Rereads i dat (i.fresh.load dat).2 (i.load dat).2
      ∧ ((i.load dat).2 = (i.fresh.load dat).2
        ↔ ¬ (format = .layout ∧ Flash.isDump dat = true ∧ i.sides ≠ [])
          ∧ ¬ (format = .capture ∧ i.recovered ≠ none
            ∧ ∃ read, (i.fresh.load dat).2 = .ok read ∧ read.recovered = none)) := by
  intro i
  obtain ⟨hfile, hformat, hrecovered⟩ : IsSame (new format file) i := isSame_history events _
  obtain ⟨hlines, hload⟩ := load_cases i dat
  have hcapture : i.recovered ≠ none → format = .capture := fun hsome =>
    (Settings.format_usual format).symm.trans (hrecovered.resolve_right hsome)
  refine ⟨by rw [fresh, hfile]; rfl, hlines, hload, hload.eq_iff.trans ?_⟩
  rw [keptSides_eq_nil_iff, hformat.trans (Settings.format_usual format)]
  exact and_congr_right' (not_congr
    ⟨fun ⟨hsome, hread⟩ => ⟨hcapture hsome, hsome, hread⟩, fun ⟨_, hleft⟩ => hleft⟩)

/-- Reading does not always replace what an image had. -/
theorem not_forall_load_history : ¬ ∀ (format : Format) (file : String) (events : List Event)
    (dat : List UInt8), let i := history events (new format file)
    ((∃ read, (i.load dat).2 = .ok read) ↔ ∃ first, (i.fresh.load dat).2 = .ok first)
      ∧ ∀ read first, (i.load dat).2 = .ok read → (i.fresh.load dat).2 = .ok first →
        read.sides = first.sides ∧ read.recovered = first.recovered := by
  intro hall
  set erased : List UInt8 := List.replicate slotSize 0xff with herased
  obtain ⟨hreads, hsame⟩ := hall .layout "a.bin" [.emit {}] erased
  set i := history [.emit {}] (new .layout "a.bin")
  have hdump : Flash.isDump erased = true := by
    have hlen : erased.length = slotSize := List.length_replicate
    have hmin : min slotHeaderSize slotSize = slotHeaderSize := by decide
    rw [Flash.isDump, hlen, if_neg (by decide), herased, List.take_replicate, hmin,
      beq_self_eq_true, Bool.true_or]
  have hkept : i.keptSides erased = [{}] := if_pos ⟨rfl, hdump⟩
  obtain ⟨read, hfirst, hload, -⟩ | ⟨cause, hfirst, hload⟩ := (load_cases i erased).2
  · -- The side that the image had is before all of those in the dump.
    have hsides := (hsame _ read hload hfirst).1
    rw [hkept] at hsides
    exact absurd (congrArg List.length hsides) (by simp)
  · rw [hkept] at hload
    obtain ⟨first, hok⟩ := hreads.mp ⟨i, hload⟩
    rw [hfirst] at hok
    cases hok

end Image

end FamicomDisk
