import FamicomDisk.Proofs.Writing

/-!
Options that are refused.

An option is refused if the format does not have it, or if its value has no meaning. Then the image
is as it was before, but for one option: the lead-in of a capture is set before it is found to be
below zero, and stays so. So of all lead-ins that were given the last one holds, whether it was
accepted or not.

* `Image.Request`, `Image.settle`: options that are set one after the other, whatever becomes of
  them.
* `Image.IsAnswer`: what setting an option comes to. `Image.isAnswer_assign`,
  `Image.isAnswer_request`: **every request has such an answer**, with one case for each option of a
  format.
* `Image.leadIn?_settle`: the lead-in of a capture, by induction over the requests.
* `Image.exists_settle_setOptions`: options that are set together are requests up to the first one
  that is refused.
* `Image.perform_request_settle`: **what a refusal leaves**, in every state, and
  `Image.not_forall_refused`.
-/

namespace FamicomDisk

open FamicomDisk.Action

namespace Image

/-! ### Requests -/

/-- What an option is set for. -/
inductive Use where
  | reading
  | writing

/-- The options of a format for a use. -/
def Use.options : Use → Format → List String
  | .reading => Format.readOptions
  | .writing => Format.writeOptions

/-- A request to set an option. -/
structure Request where
  use : Use
  option : String
  value : String

/-- Set an option for its use. -/
def Request.action (r : Request) : Action Image Unit :=
  match r.use with
  | .reading => setReadOption r.option r.value
  | .writing => setWriteOption r.option r.value

/-- Set options together, in order, up to the first that is refused. -/
def setOptions : Use → Options → Action Image Unit
  | .reading => setReadOptions
  | .writing => setWriteOptions

/-- An image after requests, each of which begins with what the one before it has left. -/
def settle (requests : List Request) (i : Image) : Image :=
  requests.foldl (fun i r => (r.action.perform i).2) i

/-- The lead-in that a request gives, if it is one for a lead-in with a number as its value. -/
def Request.leadIn? (r : Request) : Option Int :=
  match r.use, r.option with
  | .writing, "lead_in" => Text.readInt? r.value
  | _, _ => none

/-- The lead-in among the options of a capture. -/
def leadIn? (i : Image) : Option Int :=
  match i.settings with
  | .capture _ _ leadIn => leadIn
  | _ => none

/-- What a refused request leaves of an image: all of it, but a lead-in below zero is in place of
the one before. -/
def refused (i : Image) (r : Request) : Image :=
  match i.settings, r.leadIn? with
  | .capture mode thresholds _, some n =>
      if n < 0 then { i with settings := .capture mode thresholds (some n) } else i
  | _, _ => i

/-- What setting an option comes to. -/
structure IsAnswer (i : Image) (r : Request) (answer : Except Fault Unit × Image) : Prop where
  /-- A refused request leaves the image as it was, but for a lead-in below zero. -/
  refused_eq : ∀ fault, answer.1 = .error fault → answer.2 = i.refused r
  format_eq : answer.2.format = i.format
  /-- A lead-in that is given to a capture holds, whether it is refused or not. -/
  leadIn_eq : i.format = .capture → answer.2.leadIn? = r.leadIn?.or i.leadIn?

section

variable {i : Image} {r : Request}

lemma refused_of_leadIn? (h : r.leadIn? = none) (i : Image) : i.refused r = i := by
  rw [refused, h]
  split
  · next hn => cases hn
  · rfl

lemma refused_of_format (h : i.format ≠ .capture) (r : Request) : i.refused r = i := by
  rw [refused]
  split
  · next hsettings _ =>
    refine absurd ?_ h
    rw [format, hsettings]
    rfl
  · rfl

/-- A request that gives no lead-in may leave the image alone. -/
lemma isAnswer_self (h : r.leadIn? = none ∨ i.format ≠ .capture) (result : Except Fault Unit) :
    IsAnswer i r (result, i) where
  refused_eq _ _ := by
    rcases h with h | h
    · rw [refused_of_leadIn? h]
    · rw [refused_of_format h]
  format_eq := rfl
  leadIn_eq hformat := by
    rcases h with h | h
    · rw [h, Option.none_or]
    · exact absurd hformat h

/-- A request that gives no lead-in may change the other options. -/
lemma isAnswer_settings {settings : Settings} (hformat : settings.format = i.format)
    (h : r.leadIn? = none ∧ leadIn? { i with settings } = i.leadIn? ∨ i.format ≠ .capture) :
    IsAnswer i r (.ok (), { i with settings }) where
  refused_eq _ herror := by cases herror
  format_eq := hformat
  leadIn_eq hcapture := by
    rcases h with ⟨hnone, hsame⟩ | h
    · rw [hnone, Option.none_or, ← hsame]
    · exact absurd hcapture h

/-- A yes-or-no option is set if its value is read, and else refused. -/
lemma isAnswer_setSwitch {put : Bool → Settings} (option value : String)
    (hother : i.format ≠ .capture) (hput : ∀ on, (put on).format = i.format) :
    IsAnswer i r ((setSwitch option value put).perform i) := by
  rw [setSwitch, perform_bind_ok (perform_get i)]
  cases hread : Switch.read i.format.name option (.written value) with
  | error fault =>
      rw [perform_bind_error (perform_liftM _ i)]
      exact isAnswer_self (.inr hother) _
  | ok on =>
      rw [perform_bind_ok (perform_liftM _ i)]
      exact isAnswer_settings (hput on) (.inr hother)

/-- A request for an option that the format does not have is refused; any other one assigns its
value. -/
lemma perform_request (i : Image) (r : Request) :
    r.action.perform i
      = if r.option ∈ r.use.options i.format then (assign r.option r.value).perform i
        else (.error (.image (.unknownOption i.file r.option (r.use.options i.format))), i) := by
  obtain ⟨use, option, value⟩ := r
  have hset : ∀ known, (setOption known option value).perform i
      = if option ∈ known then (assign option value).perform i
        else (.error (.image (.unknownOption i.file option known)), i) := by
    intro known
    rw [setOption]
    split <;> rfl
  cases use with
  | reading => exact hset i.format.readOptions
  | writing => exact hset i.format.writeOptions

/-- The lead-in of a capture is set before it is looked at. -/
lemma perform_assign_leadIn {mode : Mode} {thresholds : Thresholds} {leadIn : Option Int}
    (hsettings : i.settings = .capture mode thresholds leadIn) {value : String} {n : Int}
    (hn : Text.readInt? value = some n) :
    (assign "lead_in" value).perform i
      = (if n < 0 then .error (.image (.invalidLeadIn value)) else .ok (),
          { i with settings := .capture mode thresholds (some n) }) := by
  rw [assign, perform_bind_ok (perform_get i), hsettings]
  dsimp only
  rw [hn]
  dsimp only
  by_cases hneg : n < 0
  · rw [if_pos hneg, if_pos hneg]
    rfl
  · rw [if_neg hneg, if_neg hneg]
    rfl

/-- The options of a capture: a mode and thresholds are read before they are set, but a lead-in is
set before it is found to be below zero. -/
lemma isAnswer_assign_capture {mode : Mode} {thresholds : Thresholds} {leadIn : Option Int}
    (hsettings : i.settings = .capture mode thresholds leadIn)
    (hknown : r.option ∈ r.use.options .capture) :
    IsAnswer i r ((assign r.option r.value).perform i) := by
  obtain ⟨use, option, value⟩ := r
  have hformat : Format.capture = i.format := (congrArg Settings.format hsettings).symm
  have hleadIn : i.leadIn? = leadIn := by rw [leadIn?, hsettings]
  cases use with
  | reading =>
      rcases List.mem_pair.mp hknown with rfl | rfl
      · rw [assign, perform_bind_ok (perform_get i), hsettings]
        dsimp only
        cases Mode.ofName? value with
        | none => exact isAnswer_self (.inl rfl) _
        | some mode' => exact isAnswer_settings hformat (.inl ⟨rfl, hleadIn.symm⟩)
      · rw [assign, perform_bind_ok (perform_get i), hsettings]
        dsimp only
        cases Thresholds.parse?
          (String.ofList (value.toList.map fun c => if c = ',' then ':' else c)) with
        | none => exact isAnswer_self (.inl rfl) _
        | some thresholds' => exact isAnswer_settings hformat (.inl ⟨rfl, hleadIn.symm⟩)
  | writing =>
      obtain rfl := List.mem_singleton.mp hknown
      cases hn : Text.readInt? value with
      | none =>
          have hgiven : Request.leadIn? ⟨.writing, "lead_in", value⟩ = none := hn
          rw [assign, perform_bind_ok (perform_get i), hsettings]
          dsimp only
          rw [hn]
          exact isAnswer_self (.inl hgiven) _
      | some n =>
          have hgiven : Request.leadIn? ⟨.writing, "lead_in", value⟩ = some n := hn
          rw [perform_assign_leadIn hsettings hn]
          refine ⟨fun fault hfault => ?_, hformat, fun _ => by rw [hgiven]; rfl⟩
          rw [refused, hsettings, hgiven]
          dsimp only at hfault ⊢
          split at hfault
          · next hneg => rw [if_pos hneg]
          · cases hfault

/-- The options of all formats. -/
lemma isAnswer_assign (hknown : r.option ∈ r.use.options i.format) :
    IsAnswer i r ((assign r.option r.value).perform i) := by
  cases hsettings : i.settings with
  | capture mode thresholds leadIn =>
      rw [show i.format = .capture from congrArg Settings.format hsettings] at hknown
      exact isAnswer_assign_capture hsettings hknown
  | diskImage header =>
      obtain ⟨use, option, value⟩ := r
      have hformat : i.format = .diskImage := congrArg Settings.format hsettings
      rw [hformat] at hknown
      cases use with
      | reading => cases hknown
      | writing =>
          obtain rfl := List.mem_singleton.mp hknown
          rw [assign, perform_bind_ok (perform_get i), hsettings]
          exact isAnswer_setSwitch _ _ (by rw [hformat]; decide) fun _ => hformat.symm
  | layout header title =>
      obtain ⟨use, option, value⟩ := r
      have hformat : i.format = .layout := congrArg Settings.format hsettings
      have hother : i.format ≠ .capture := by rw [hformat]; decide
      rw [hformat] at hknown
      cases use with
      | reading => cases hknown
      | writing =>
          rcases List.mem_pair.mp hknown with rfl | rfl
          · rw [assign, perform_bind_ok (perform_get i), hsettings]
            exact isAnswer_setSwitch _ _ hother fun _ => hformat.symm
          · rw [assign, perform_bind_ok (perform_get i), hsettings]
            exact isAnswer_settings hformat.symm (.inr hother)
  | gameDoctor =>
      rw [show i.format = .gameDoctor from congrArg Settings.format hsettings] at hknown
      cases huse : r.use <;> rw [huse] at hknown <;> cases hknown

/-- A request that gives a lead-in to a capture is for an option that it has. -/
lemma leadIn?_of_unknown (hunknown : r.option ∉ r.use.options .capture) : r.leadIn? = none := by
  rw [Request.leadIn?]
  split
  · next huse hoption =>
    refine absurd ?_ hunknown
    rw [huse, hoption]
    exact List.mem_singleton.mpr rfl
  · rfl

/-- **Every request has such an answer.** -/
lemma isAnswer_request (i : Image) (r : Request) : IsAnswer i r (r.action.perform i) := by
  rw [perform_request]
  split
  · next hknown => exact isAnswer_assign hknown
  · next hunknown =>
    refine isAnswer_self ?_ _
    by_cases hformat : i.format = .capture
    · exact .inl (leadIn?_of_unknown (hformat ▸ hunknown))
    · exact .inr hformat

end

/-! ### Requests one after the other -/

lemma format_settle (requests : List Request) (i : Image) :
    (settle requests i).format = i.format := by
  induction requests generalizing i with
  | nil => rfl
  | cons r requests ih => exact (ih _).trans (isAnswer_request i r).format_eq

/-- The last lead-in that was given to a capture holds. -/
lemma leadIn?_settle {i : Image} (hformat : i.format = .capture) (requests : List Request) :
    (settle requests i).leadIn? = (requests.filterMap Request.leadIn?).getLast?.or i.leadIn? := by
  induction requests generalizing i with
  | nil => rfl
  | cons r requests ih =>
      have hr := isAnswer_request i r
      calc (settle (r :: requests) i).leadIn?
          = (requests.filterMap Request.leadIn?).getLast?.or (r.action.perform i).2.leadIn? :=
            ih (hr.format_eq.trans hformat)
        _ = (requests.filterMap Request.leadIn?).getLast?.or (r.leadIn?.or i.leadIn?) := by
            rw [hr.leadIn_eq hformat]
        _ = ((r :: requests).filterMap Request.leadIn?).getLast?.or i.leadIn? := by
            cases hgiven : r.leadIn? with
            | none => rw [List.filterMap_cons_none hgiven, Option.none_or]
            | some n =>
                rw [List.filterMap_cons_some hgiven, List.getLast?_cons, Option.some_or,
                  Option.some_or]
                cases (requests.filterMap Request.leadIn?).getLast? <;> rfl

/-- Options that are set together are requests, up to the first one that is refused. -/
lemma exists_settle_setOptions (use : Use) (options : Options) (i : Image) :
    ∃ done, done <+: options.map (fun o => ⟨use, o.1, o.2⟩)
      ∧ ((setOptions use options).perform i).2 = settle done i := by
  have hforM : setOptions use options
      = options.forM fun o => Request.action ⟨use, o.1, o.2⟩ := by
    cases use <;> rfl
  rw [hforM]
  clear hforM
  induction options generalizing i with
  | nil => exact ⟨[], List.nil_prefix, rfl⟩
  | cons o options ih =>
      rw [List.forM, perform_bind, List.map_cons]
      cases hperform : (Request.action ⟨use, o.1, o.2⟩).perform i with
      | mk result i' =>
          have hfirst : settle [⟨use, o.1, o.2⟩] i = i' := congrArg Prod.snd hperform
          cases result with
          | error fault => exact ⟨_, List.cons_prefix_cons.mpr ⟨rfl, List.nil_prefix⟩, hfirst.symm⟩
          | ok _ =>
              obtain ⟨done, hdone, hrest⟩ := ih i'
              refine ⟨_ :: done, List.cons_prefix_cons.mpr ⟨rfl, hdone⟩, ?_⟩
              rw [hrest, ← hfirst]
              rfl

/-- A refusal leaves an image as it was, unless another lead-in below zero was given to a
capture. -/
lemma refused_eq_self_iff (i : Image) (r : Request) :
    i.refused r = i
      ↔ ¬ ∃ n, i.format = .capture ∧ r.leadIn? = some n ∧ n < 0 ∧ i.leadIn? ≠ some n := by
  by_cases hformat : i.format = .capture
  · cases hgiven : r.leadIn? with
    | none => simp [refused_of_leadIn? hgiven]
    | some n =>
        obtain ⟨file, settings, sides, recovered⟩ := i
        cases settings with
        | capture mode thresholds leadIn =>
            have hold : leadIn? ⟨file, .capture mode thresholds leadIn, sides, recovered⟩ = leadIn :=
              rfl
            rw [refused, hgiven, hold]
            by_cases hneg : n < 0
            · simp [hneg, hformat, eq_comm]
            · simp [hneg]
        | diskImage | layout | gameDoctor => cases hformat
  · simp [refused_of_format hformat, hformat]

/-- **What a refusal leaves**, whatever was set before, and whatever of it was refused: all options
as they were, but for a lead-in below zero, which a capture keeps. So the mode of a capture is
always one that there is, but its lead-in is the last one that was given, whether it is below zero
or not. And no more than this can be set by setting options together. -/
theorem perform_request_settle (format : Format) (file : String) (requests : List Request)
    (r : Request) :
    let i := settle requests (new format file)
    (∀ fault i', r.action.perform i = (.error fault, i') →
        i' = i.refused r
          ∧ (i' = i ↔ ¬ ∃ n, format = .capture ∧ r.leadIn? = some n ∧ n < 0 ∧ i.leadIn? ≠ some n))
      ∧ (format = .capture → ∃ mode thresholds leadIn,
        i.settings = .capture mode thresholds leadIn
          ∧ mode.name ∈ ["auto", "known", "heuristic"]
          ∧ leadIn = (requests.filterMap Request.leadIn?).getLast?)
      ∧ ∀ use options, ∃ done, done <+: options.map (fun o => ⟨use, o.1, o.2⟩)
          ∧ ((setOptions use options).perform i).2
            = settle (requests ++ done) (new format file) := by
  intro i
  have hformat : i.format = format :=
    (format_settle requests _).trans (Settings.format_usual format)
  refine ⟨fun fault i' hperform => ?_, fun hcapture => ?_, fun use options => ?_⟩
  · have hanswer := isAnswer_request i r
    rw [hperform] at hanswer
    obtain rfl : i' = i.refused r := hanswer.refused_eq fault rfl
    refine ⟨rfl, ?_⟩
    rw [refused_eq_self_iff, hformat]
  · subst hcapture
    have hgiven : i.leadIn? = (requests.filterMap Request.leadIn?).getLast?.or none :=
      leadIn?_settle rfl requests
    rw [Option.or_none] at hgiven
    rw [Image.format] at hformat
    cases hsettings : i.settings with
    | capture mode thresholds leadIn =>
        rw [leadIn?, hsettings] at hgiven
        exact ⟨mode, thresholds, leadIn, rfl, by cases mode <;> decide, hgiven⟩
    | diskImage | layout | gameDoctor =>
        rw [hsettings] at hformat
        cases hformat
  · obtain ⟨done, hdone, hleft⟩ := exists_settle_setOptions use options i
    exact ⟨done, hdone, hleft.trans List.foldl_append.symm⟩

/-- A lead-in of a capture that is followed by one below zero is lost, though that one is
refused. -/
theorem perform_request_settle_leadIn :
    ∃ i fault, i = settle [⟨.writing, "lead_in", "800"⟩] (new .capture "a.raw")
      ∧ i.leadIn? = some 800
      ∧ (Request.action ⟨.writing, "lead_in", "-1"⟩).perform i
        = (.error fault, { i with settings := .capture .auto {} (some (-1)) }) := by
  have hperform : (Request.action ⟨.writing, "lead_in", "-1"⟩).perform
      (settle [⟨.writing, "lead_in", "800"⟩] (new .capture "a.raw"))
        = (.error (.image (.invalidLeadIn "-1")), _) := rfl
  obtain ⟨hrefused, hcapture, -⟩ := perform_request_settle .capture "a.raw"
    [⟨.writing, "lead_in", "800"⟩] ⟨.writing, "lead_in", "-1"⟩
  obtain ⟨mode, thresholds, leadIn, hsettings, -, hleadIn⟩ := hcapture rfl
  refine ⟨_, _, rfl, ?_, hperform.trans (congrArg _ (hrefused _ _ hperform).1)⟩
  rw [Image.leadIn?, hsettings, hleadIn]
  rfl

/-- Not every refused request leaves the options as they were. -/
theorem not_forall_refused : ¬ ∀ (format : Format) (file : String) (requests : List Request)
    (r : Request) (fault : Fault) (i' : Image),
    r.action.perform (settle requests (new format file)) = (.error fault, i') →
    i'.settings = (settle requests (new format file)).settings := by
  intro hall
  have hleft : Settings.capture .auto {} (some (-1)) = .capture .auto {} none :=
    hall .capture "a.raw" [] ⟨.writing, "lead_in", "-1"⟩ _
      { file := "a.raw", settings := .capture .auto {} (some (-1)) } rfl
  cases hleft

end Image

end FamicomDisk
