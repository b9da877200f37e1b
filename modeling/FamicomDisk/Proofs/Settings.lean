import FamicomDisk.Proofs.Numerals
import FamicomDisk.Proofs.Sequencing
import FamicomDisk.Recovery.Thresholds
import Mathlib.Data.List.Basic

/-!
Texts of settings.

Thresholds are read from settings, in any order. A threshold may be set twice or not at all, and
settings may be empty. They are set from left to right, so of the values that are given to a
threshold the last one stays, and one that is given none keeps its value. All five thresholds are
written, so what is written of them is read as the same ones.

* `Writes`: a setting as it is written, and `withSetting?_eq_some_iff`: what one setting does.
* `foldlM_withSetting?_eq_some_iff`: **settings are read** when each of them is written as one, by
  induction over them.
* `get_withAll`: **of the values that are given to a threshold, the last one stays**.
* `sets_iff`: the thresholds whose names a text sets are those that its settings give a value.
* `parse?_of_text?`: what is written of thresholds is read as the same ones.
* `parse?_text?_append`: **texts of settings are read back, and they can be put together**.
-/

namespace FamicomDisk

/-! ### Names -/

namespace Setting

/-- There are no separators in a name. -/
lemma notMem_name (s : Setting) : ':' ∉ s.name.toList ∧ '=' ∉ s.name.toList := by
  cases s <;> decide

/-- A name is that of one setting. -/
lemma ofName?_eq_some_iff {s : Setting} {name : String} :
    ofName? name = some s ↔ s.name = name := by
  constructor
  · intro h
    have hname := List.find?_some h
    exact of_decide_eq_true hname
  · rintro rfl
    cases s <;> rfl

end Setting

namespace Thresholds

variable {s : Setting} {x : Setting × Int} {t t' : Thresholds} {piece : List Char}
  {pieces : List (List Char)} {given : List (Setting × Int)} {spec : String}

/-! ### One setting -/

/-- A value of a threshold as it is written. -/
inductive Writes : Setting × Int → List Char → Prop where
  /-- The name, an equals sign, and the value, in which there is no other equals sign. -/
  | setting {s : Setting} {n : Int} {value : List Char} (single : '=' ∉ value)
      (reads : Text.readAnyInt? (String.ofList value) = some n) :
      Writes (s, n) (s.name.toList ++ '=' :: value)

/-- **One setting sets one threshold.** -/
lemma withSetting?_eq_some_iff :
    t.withSetting? piece = some t' ↔ ∃ x, Writes x piece ∧ t' = t.set x.1 x.2 := by
  constructor
  · intro h
    rw [withSetting?] at h
    split at h
    · next name value hsplit =>
      -- there is one equals sign only, so the two pieces are all that is written
      obtain ⟨s, hs, h⟩ := Option.bind_eq_some_iff.mp h
      obtain ⟨n, hn, h⟩ := Option.bind_eq_some_iff.mp h
      have hname : s.name.toList = name := by
        rw [Setting.ofName?_eq_some_iff.mp hs, String.toList_ofList]
      have hpiece : piece = s.name.toList ++ '=' :: value := by
        rw [hname, ← Text.intercalate_split '=' piece, hsplit]
        simp [List.intercalate, List.intersperse]
      have hlast : value ∈ Text.split '=' piece := by
        rw [hsplit]
        exact List.mem_cons_of_mem _ List.mem_cons_self
      have hvalue := Text.not_mem_of_mem_split hlast
      rw [hpiece]
      exact ⟨(s, n), .setting hvalue hn, (Option.some.inj h).symm⟩
    · cases h
  · rintro ⟨_, @⟨s, n, value, hvalue, hn⟩, rfl⟩
    have hsplit : Text.split '=' (s.name.toList ++ '=' :: value) = [s.name.toList, value] := by
      rw [Text.split_append s.notMem_name.2, Text.split_of_not_mem hvalue]
    have hname : Setting.ofName? (String.ofList s.name.toList) = some s := by
      rw [Setting.ofName?_eq_some_iff, String.ofList_toList]
    rw [withSetting?, hsplit]
    simp only [hname, hn]
    rfl

/-- What is written tells which threshold is set. -/
lemma Writes.prefix_iff (h : Writes x piece) : s.name.toList ++ ['='] <+: piece ↔ x.1 = s := by
  obtain @⟨s', n, value, hvalue, -⟩ := h
  constructor
  · rintro ⟨rest, hrest⟩
    rw [List.append_assoc, List.singleton_append] at hrest
    have hname : s'.name.toList = s.name.toList :=
      ((List.append_cons_inj_of_notMem s'.notMem_name.2 hvalue).mp hrest.symm).1
    have hfound := Setting.ofName?_eq_some_iff.mpr (String.toList_inj.mp hname)
    exact Option.some.inj (hfound.symm.trans (Setting.ofName?_eq_some_iff.mpr rfl))
  · rintro rfl
    exact ⟨value, by rw [List.append_assoc, List.singleton_append]⟩

/-! ### Settings from left to right -/

/-- Thresholds that are given values, one after the other. -/
def withAll (t : Thresholds) (given : List (Setting × Int)) : Thresholds :=
  given.foldl (fun t x => t.set x.1 x.2) t

/-- Thresholds are told by their five values. -/
lemma eq_of_get (h : ∀ s, t.get s = t'.get s) : t = t' := by
  obtain ⟨_, _, _, _, _⟩ := t
  obtain ⟨_, _, _, _, _⟩ := t'
  rw [mk.injEq]
  exact ⟨h .glitchWindow, h .shortGap, h .longGap, h .minGap, h .window⟩

/-- The last of the values that a threshold is given. -/
def lastValue? (given : List (Setting × Int)) (s : Setting) : Option Int :=
  given.reverse.findSome? fun x => if x.1 = s then some x.2 else none

lemma lastValue?_append (given given' : List (Setting × Int)) (s : Setting) :
    lastValue? (given ++ given') s = (lastValue? given' s).or (lastValue? given s) := by
  rw [lastValue?, List.reverse_append, List.findSome?_append, lastValue?, lastValue?]

/-- **Of the values that are given to a threshold, the last one stays.** -/
lemma get_withAll (given : List (Setting × Int)) (t : Thresholds) (s : Setting) :
    (t.withAll given).get s = (lastValue? given s).getD (t.get s) := by
  induction given generalizing t with
  | nil => rfl
  | cons x given ih =>
      have hlast : lastValue? (x :: given) s
          = (lastValue? given s).or (if x.1 = s then some x.2 else none) := by
        rw [lastValue?, List.reverse_cons, List.findSome?_append, List.findSome?_singleton,
          lastValue?]
      -- the value that is given first stays only if none is given behind it
      calc (t.withAll (x :: given)).get s
          = (lastValue? given s).getD ((t.set x.1 x.2).get s) := ih _
        _ = (lastValue? given s).getD ((if x.1 = s then some x.2 else none).getD (t.get s)) := by
            rw [get_set]
            by_cases hx : x.1 = s
            · rw [if_pos hx.symm, if_pos hx, Option.getD_some]
            · rw [if_neg (Ne.symm hx), if_neg hx, Option.getD_none]
        _ = (lastValue? (x :: given) s).getD (t.get s) := by
            rw [hlast, Option.getD_or]

/-- A threshold is given a value by one of the settings, or by none. -/
lemma isSome_lastValue?_iff : (lastValue? given s).isSome ↔ ∃ x ∈ given, x.1 = s := by
  rw [lastValue?, List.findSome?_isSome_iff]
  simp

/-- **Settings are read** when each of them is written as one, and they are set one after the
other. -/
lemma foldlM_withSetting?_eq_some_iff :
    pieces.foldlM withSetting? t = some t'
      ↔ ∃ given, List.Forall₂ Writes given pieces ∧ t' = t.withAll given := by
  induction pieces generalizing t with
  | nil =>
      simp only [List.forall₂_nil_right_iff, exists_eq_left]
      exact ⟨fun h => (Option.some.inj h).symm, fun h => congrArg some h.symm⟩
  | cons piece pieces ih =>
      rw [List.foldlM_cons]
      constructor
      · intro h
        obtain ⟨t₁, hfirst, hrest⟩ := Option.bind_eq_some_iff.mp h
        obtain ⟨x, hx, rfl⟩ := withSetting?_eq_some_iff.mp hfirst
        obtain ⟨given, hgiven, rfl⟩ := ih.mp hrest
        exact ⟨x :: given, .cons hx hgiven, rfl⟩
      · rintro ⟨_, hgiven, rfl⟩
        obtain ⟨x, given, hx, hrest, rfl⟩ := List.forall₂_cons_right_iff.mp hgiven
        rw [withSetting?_eq_some_iff.mpr ⟨x, hx, rfl⟩]
        exact ih.mpr ⟨given, hrest, rfl⟩

/-- The settings in a text, without the empty ones. -/
def settingsIn (spec : String) : List (List Char) :=
  (Text.split ':' spec.toList).filter (!·.isEmpty)

lemma settingsIn_append (spec spec' : String) :
    settingsIn (spec ++ ":" ++ spec') = settingsIn spec ++ settingsIn spec' := by
  have hchars : (spec ++ ":" ++ spec').toList = spec.toList ++ ':' :: spec'.toList := by
    rw [String.toList_append, String.toList_append, List.append_assoc]
    rfl
  rw [settingsIn, hchars, Text.split_append_cons, List.filter_append, settingsIn, settingsIn]

lemma parse?_eq_some_iff :
    parse? spec = some t
      ↔ ∃ given, List.Forall₂ Writes given (settingsIn spec) ∧ t = withAll {} given :=
  foldlM_withSetting?_eq_some_iff

/-! ### Names that are set -/

/-- A text sets a threshold when one of its settings begins with the name. -/
def Sets (spec : String) (s : Setting) : Prop :=
  ∃ piece ∈ settingsIn spec, s.name.toList ++ ['='] <+: piece

instance : Decidable (Sets spec s) :=
  inferInstanceAs (Decidable (∃ piece ∈ settingsIn spec, s.name.toList ++ ['='] <+: piece))

/-- **A text sets the thresholds to which its settings give a value.** -/
lemma sets_iff (h : List.Forall₂ Writes given (settingsIn spec)) :
    Sets spec s ↔ (lastValue? given s).isSome := by
  rw [Sets, isSome_lastValue?_iff]
  generalize settingsIn spec = pieces at h ⊢
  induction h with
  | nil => simp only [List.not_mem_nil, false_and, exists_false]
  | cons hx _ ih => rw [List.exists_mem_cons_iff, List.exists_mem_cons_iff, hx.prefix_iff, ih]

/-! ### Thresholds that are written -/

/-- A setting of thresholds, as it is written. -/
def written (t : Thresholds) (s : Setting) : String := s.name ++ "=" ++ toString (t.get s)

lemma toList_written (t : Thresholds) (s : Setting) :
    (t.written s).toList = s.name.toList ++ '=' :: (toString (t.get s)).toList := by
  rw [written, String.toList_append, String.toList_append, List.append_assoc]
  rfl

/-- There are no separators in an integer. -/
lemma notMem_toString (n : Int) : ':' ∉ (toString n).toList ∧ '=' ∉ (toString n).toList :=
  ⟨fun h => absurd (Text.mem_toString h) (by decide),
    fun h => absurd (Text.mem_toString h) (by decide)⟩

/-- Settings are written unless one of the values has too many digits. -/
lemma mapM_written_eq_some_iff {settings : List Setting} {texts : List String} :
    settings.mapM (fun s => (Text.decimal? (t.get s)).map fun n => s!"{s.name}={n}") = some texts
      ↔ (∀ s ∈ settings, (Nat.toDigits 10 (t.get s).natAbs).length ≤ Text.maxDigits)
        ∧ settings.map t.written = texts := by
  have hone : ∀ s text, (Text.decimal? (t.get s)).map (fun n => s!"{s.name}={n}") = some text
      ↔ (Nat.toDigits 10 (t.get s).natAbs).length ≤ Text.maxDigits ∧ t.written s = text := by
    intro s text
    simp only [Option.map_eq_some_iff, Text.decimal?_eq_some_iff]
    constructor
    · rintro ⟨_, ⟨hfew, rfl⟩, htext⟩
      exact ⟨hfew, htext⟩
    · rintro ⟨hfew, htext⟩
      exact ⟨_, ⟨hfew, rfl⟩, htext⟩
  simp only [mapM_eq_some_iff, hone, List.forall₂_and_left]
  rw [← List.forall₂_eq_eq_eq, List.forall₂_map_left_iff]

/-- Thresholds are written as all their settings. -/
lemma text?_eq_some_iff {text : String} :
    t.text? = some text
      ↔ (∀ s, (Nat.toDigits 10 (t.get s).natAbs).length ≤ Text.maxDigits)
        ∧ ":".intercalate (Setting.all.map t.written) = text := by
  rw [text?, Option.bind_eq_bind, Option.bind_eq_some_iff]
  simp only [mapM_written_eq_some_iff, and_assoc, exists_and_left, exists_eq_left', Setting.mem_all,
    true_imp_iff]
  exact and_congr_right fun _ => Option.some_inj

/-- The settings in what is written are all five. -/
lemma settingsIn_written (t : Thresholds) :
    settingsIn (":".intercalate (Setting.all.map t.written))
      = Setting.all.map fun s => (t.written s).toList := by
  have hpieces : (":".intercalate (Setting.all.map t.written)).toList
      = [':'].intercalate (Setting.all.map fun s => (t.written s).toList) := by
    rw [String.toList_intercalate, List.map_map]
    rfl
  have hcolon : ∀ piece ∈ Setting.all.map fun s => (t.written s).toList, ':' ∉ piece := by
    refine List.forall_mem_map.mpr fun s _ => ?_
    rw [toList_written, List.mem_append, List.mem_cons, not_or, not_or]
    exact ⟨s.notMem_name.1, by decide, (notMem_toString _).1⟩
  have hfull : ∀ piece ∈ Setting.all.map fun s => (t.written s).toList,
      (!piece.isEmpty) = true := by
    refine List.forall_mem_map.mpr fun s _ => ?_
    have hne : (t.written s).toList ≠ [] := by
      rw [toList_written]
      exact List.append_ne_nil_of_right_ne_nil _ (List.cons_ne_nil _ _)
    rw [List.isEmpty_eq_false_iff.mpr hne]
    rfl
  have hne : (Setting.all.map fun s => (t.written s).toList) ≠ [] := List.cons_ne_nil _ _
  rw [settingsIn, hpieces, Text.split_intercalate hne hcolon, List.filter_eq_self.mpr hfull]

/-- What is written is read, if it is written at all. -/
lemma parse?_of_text? {text : String} (h : t.text? = some text) : parse? text = some t := by
  obtain ⟨hfew, rfl⟩ := text?_eq_some_iff.mp h
  let given := Setting.all.map fun s => (s, t.get s)
  have hgiven : List.Forall₂ Writes given
      (settingsIn (":".intercalate (Setting.all.map t.written))) := by
    rw [settingsIn_written, List.forall₂_map_left_iff, List.forall₂_map_right_iff,
      List.forall₂_same]
    intro s _
    rw [toList_written]
    have hread := Text.readAnyInt?_of_decimal? (Text.decimal?_eq_some_iff.mpr ⟨hfew s, rfl⟩)
    exact .setting (notMem_toString _).2 (by rwa [String.ofList_toList])
  -- every threshold is written once, so no usual value is left
  have hlast : ∀ s, lastValue? given s = some (t.get s) := by
    intro s
    cases s <;> rfl
  refine parse?_eq_some_iff.mpr ⟨given, hgiven, eq_of_get fun s => ?_⟩
  rw [get_withAll, hlast, Option.getD_some]

/-- **Texts of settings are read back, and they can be put together.** Whatever the values of
thresholds are, read from a text or not, what is written of them is read as the same ones, unless a
value has more digits than can be written. Two texts that are accepted are also accepted with a
colon between them; then the second one tells the thresholds whose names it sets, and the first one
all others. -/
theorem parse?_text?_append :
    (∀ t : Thresholds, (∃ text, t.text? = some text ∧ parse? text = some t)
        ↔ ∀ s, (Nat.toDigits 10 (t.get s).natAbs).length ≤ Text.maxDigits)
      ∧ ∀ {spec spec' : String} {t t' : Thresholds},
        parse? spec = some t → parse? spec' = some t' →
        ∃ t'', parse? (spec ++ ":" ++ spec') = some t''
          ∧ ∀ s, t''.get s = if Sets spec' s then t'.get s else t.get s := by
  refine ⟨fun t => ⟨?_, fun hfew => ?_⟩, fun {spec spec' t t'} h h' => ?_⟩
  · rintro ⟨text, htext, -⟩
    exact (text?_eq_some_iff.mp htext).1
  · have htext := text?_eq_some_iff.mpr ⟨hfew, rfl⟩
    exact ⟨_, htext, parse?_of_text? htext⟩
  · obtain ⟨given, hgiven, rfl⟩ := parse?_eq_some_iff.mp h
    obtain ⟨given', hgiven', rfl⟩ := parse?_eq_some_iff.mp h'
    have hboth : List.Forall₂ Writes (given ++ given') (settingsIn (spec ++ ":" ++ spec')) := by
      rw [settingsIn_append]
      exact List.rel_append hgiven hgiven'
    refine ⟨_, parse?_eq_some_iff.mpr ⟨_, hboth, rfl⟩, fun s => ?_⟩
    rw [get_withAll, get_withAll, get_withAll, lastValue?_append]
    by_cases hset : Sets spec' s
    · obtain ⟨n, hn⟩ := Option.isSome_iff_exists.mp ((sets_iff hgiven').mp hset)
      rw [if_pos hset, hn, Option.some_or, Option.getD_some]
    · have hnone := Option.not_isSome_iff_eq_none.mp (mt (sets_iff hgiven').mpr hset)
      rw [if_neg hset, hnone, Option.none_or]

/-- A threshold is set below zero, and then twice again, in binary and behind an empty setting. -/
theorem parse?_text?_append_again :
    (∃ text, ({ shortGap := -16, longGap := 1000 } : Thresholds).text? = some text
        ∧ parse? text = some { shortGap := -16, longGap := 1000 })
      ∧ ∃ t, parse? ("long_gap=1000:short_gap=-0x10" ++ ":"
          ++ "short_gap=9:window=7::short_gap=0b11") = some t
        ∧ t.get .shortGap = 3 ∧ t.get .longGap = 1000 ∧ t.get .window = 7 := by
  obtain ⟨hwritten, happend⟩ := parse?_text?_append
  have hfirst : parse? "long_gap=1000:short_gap=-0x10"
      = some { shortGap := -16, longGap := 1000 } := by decide +kernel
  have hsecond : parse? "short_gap=9:window=7::short_gap=0b11"
      = some { shortGap := 3, window := 7 } := by decide +kernel
  obtain ⟨t, ht, hget⟩ := happend hfirst hsecond
  refine ⟨(hwritten _).mpr fun s => ?_, t, ht, ?_, ?_, ?_⟩
  · cases s <;> decide
  · rw [hget, if_pos (by decide)]
    rfl
  · rw [hget, if_neg (by decide)]
    rfl
  · rw [hget, if_pos (by decide)]
    rfl

end Thresholds

end FamicomDisk
