import FamicomDisk.Command.Run
import FamicomDisk.Proofs.Listing
import FamicomDisk.Proofs.Numerals
import FamicomDisk.Proofs.Updating
import Mathlib.Data.List.Sort

/-!
Sides that are selected.

A set of sides is written as ranges, in any order and over each other, and some of them may lie
beyond the last side. Whatever they are, each side whose number is in one of them is converted once,
in the order of the image. Only the digits of a number are limited. A command may also list the sides
that it converts; of a listing that fails nothing is said here.

* `SideSet.Writes`: a range as it is written, and `SideSet.parse?_eq`: **a text of ranges is read**.
* `Command.Convert.Selects`, `Command.Convert.selects_selected`: the sides of an image whose numbers
  are in ranges.
* `Command.Convert.perform_addSides_fst`: the sides that are selected are all added.
* `Command.Convert.Between`, `Command.Convert.Between.exists_ending`: a whole conversion.
* `Command.convert_selects`: **a command line converts the sides whose numbers are in its ranges**.
-/

namespace FamicomDisk

open FamicomDisk.Action

/-! ### Ranges as they are written -/

namespace SideSet

/-- A range of sides as it is written: one number, or two with a dash between them, each of at most
`most` digits. -/
inductive Writes (most : Nat) : Nat × Nat → List Char → Prop where
  /-- One side. -/
  | number {n : Nat} {cs : List Char} (first : 1 ≤ n) (spells : Text.Spells most n cs) :
      Writes most (n, n) cs
  /-- The sides from one to another. -/
  | range {first last : Nat} {cs cs' : List Char} (least : 1 ≤ first) (le : first ≤ last)
      (spells : Text.Spells most first cs) (spells' : Text.Spells most last cs') :
      Writes most (first, last) (cs ++ '-' :: cs')

variable {n : Nat} {cs rest : List Char}

lemma number?_of_spells (h : Text.Spells Text.maxDigits n cs) : number? cs = some n := by
  have hne : cs.isEmpty = false := List.isEmpty_eq_false_iff.mpr h.ne_nil
  rw [number?, hne, if_neg Bool.false_ne_true, h.readInt?_eq]

/-- The digits at the start of a text are those before another character. -/
lemma takeDigits_append (h : ∀ c ∈ cs, c.isDigit)
    (hrest : ∀ c ∈ rest.head?, Text.isDigit c = false) : takeDigits (cs ++ rest) = (cs, rest) := by
  have hcs : ∀ c ∈ cs, Text.isDigit c = true := fun c hc => Text.isDigit_of_core (h c hc)
  rw [takeDigits, List.takeWhile_append_of_pos hcs, List.dropWhile_append_of_pos hcs]
  cases rest with
  | nil => rw [List.takeWhile_nil, List.dropWhile_nil, List.append_nil]
  | cons c rest =>
      have hc : ¬ Text.isDigit c = true := by
        rw [hrest c rfl]
        exact Bool.false_ne_true
      rw [List.takeWhile_cons_of_neg hc, List.dropWhile_cons_of_neg hc, List.append_nil]

lemma takeDigits_of_spells {most : Nat} (h : Text.Spells most n cs) : takeDigits cs = (cs, []) := by
  have htake : takeDigits (cs ++ []) = (cs, []) := takeDigits_append h.isDigit nofun
  rwa [List.append_nil] at htake

/-- A range that is written is read. -/
lemma range?_of_writes {r : Nat × Nat} (h : Writes Text.maxDigits r cs) : range? cs = some r := by
  cases h with
  | @number n _ first spells =>
      have hle : ¬ (n < 1 ∨ n < n) := by omega
      simp only [range?, takeDigits_of_spells spells, number?_of_spells spells, isEnd,
        Option.bind_eq_bind, Option.bind_some, if_true, if_neg hle]
  | @range first last cs cs' least le spells spells' =>
      have hle : ¬ (first < 1 ∨ last < first) := by omega
      have hdash : ∀ c ∈ ('-' :: cs').head?, Text.isDigit c = false := by
        rintro c ⟨⟩
        decide
      simp only [range?, takeDigits_append spells.isDigit hdash, takeDigits_of_spells spells',
        number?_of_spells spells, number?_of_spells spells', isEnd, Option.bind_eq_bind,
        Option.bind_some, if_true, if_neg hle]

/-- There is no comma within a range. -/
lemma not_mem_of_writes {most : Nat} {r : Nat × Nat} (h : Writes most r cs) : ',' ∉ cs := by
  have hdigits : ∀ {n : Nat} {cs : List Char}, Text.Spells most n cs → ',' ∉ cs :=
    fun spells hmem => absurd (spells.isDigit _ hmem) (by decide)
  cases h with
  | number _ spells => exact hdigits spells
  | range _ _ spells spells' =>
      rw [List.mem_append, List.mem_cons, not_or, not_or]
      exact ⟨hdigits spells, by decide, hdigits spells'⟩

/-- The text of ranges, with commas between them. -/
def joined (pieces : List (List Char)) : String := String.ofList ([','].intercalate pieces)

variable {ranges : List (Nat × Nat)} {pieces : List (List Char)}

lemma not_mem_of_forall₂ {most : Nat} (h : List.Forall₂ (Writes most) ranges pieces) :
    ∀ piece ∈ pieces, ',' ∉ piece := by
  induction h with
  | nil => exact nofun
  | cons hr _ ih => exact List.forall_mem_cons.mpr ⟨not_mem_of_writes hr, ih⟩

/-- A text of ranges begins with a digit, so it does not look like an option. -/
lemma head?_joined {most : Nat} (hne : ranges ≠ []) (h : List.Forall₂ (Writes most) ranges pieces) :
    (joined pieces).toList.head? ≠ some '-' := by
  have hdigit : ∀ {r : Nat × Nat} {piece : List Char}, Writes most r piece →
      ∃ c cs, c.isDigit ∧ piece = c :: cs := by
    intro r piece hr
    cases hr with
    | number _ spells | range _ _ spells _ =>
        obtain ⟨c, cs, rfl⟩ := List.exists_cons_of_ne_nil spells.ne_nil
        exact ⟨c, _, spells.isDigit c List.mem_cons_self, rfl⟩
  rw [joined, String.toList_ofList]
  cases h with
  | nil => exact absurd rfl hne
  | @cons r piece _ rest hr _ =>
      obtain ⟨c, cs, hc, rfl⟩ := hdigit hr
      have hhead : ([','].intercalate ((c :: cs) :: rest)).head? = some c := by
        cases rest <;> simp [List.intercalate, List.intersperse]
      rw [hhead]
      rintro ⟨⟩
      exact absurd hc (by decide)

lemma mapM_range?_eq (h : List.Forall₂ (Writes Text.maxDigits) ranges pieces) :
    pieces.mapM range? = some ranges :=
  mapM_eq_some_iff.mpr (h.imp fun _ _ hr => range?_of_writes hr).flip

/-- **A text of ranges is read.** -/
lemma parse?_eq (hne : ranges ≠ []) (h : List.Forall₂ (Writes Text.maxDigits) ranges pieces) :
    parse? (joined pieces) = some ⟨joined pieces, ranges⟩ := by
  have hpieces : pieces ≠ [] := by
    rintro rfl
    exact hne (List.forall₂_nil_right_iff.mp h)
  rw [parse?, joined, String.toList_ofList, Text.split_intercalate hpieces (not_mem_of_forall₂ h),
    mapM_range?_eq h]
  rfl

/-- A number of too many digits is no range. -/
lemma range?_eq_none (h : ∀ c ∈ cs, c.isDigit) (hmany : Text.maxDigits < cs.length) :
    range? cs = none := by
  have htake : takeDigits (cs ++ []) = (cs, []) := takeDigits_append h nofun
  rw [List.append_nil] at htake
  have hnumber : number? cs = none := by
    rw [number?, Text.readInt?_eq_none h hmany, ite_self]
  simp only [range?, htake, hnumber, Option.bind_eq_bind, Option.bind_none]

/-- **Numbers are not read that have more digits than can be read**: the least of them is one. -/
theorem not_forall_exists_parse :
    ¬ ∀ (most : Nat) (ranges : List (Nat × Nat)) (pieces : List (List Char)), ranges ≠ [] →
      List.Forall₂ (Writes most) ranges pieces → ∃ set, parse? (joined pieces) = some set
        ∧ ∀ n : Int, set.contains n = true ↔ ∃ r ∈ ranges, (r.1 : Int) ≤ n ∧ n ≤ r.2 := by
  intro hall
  let least := 10 ^ Text.maxDigits
  have hspells : Text.Spells (Text.maxDigits + 1) least (Nat.toDigits 10 least) :=
    Text.spells_toDigits (Nat.succ_pos _) (Nat.pow_lt_pow_right (by decide) (Nat.lt_succ_self _))
  have hmany : Text.maxDigits < (Nat.toDigits 10 least).length := by
    by_contra hfew
    have hlt := (Nat.length_toDigits_le_iff (by decide) (by decide)).mp (Nat.not_lt.mp hfew)
    exact Nat.lt_irrefl _ hlt
  have hwritten : List.Forall₂ (Writes (Text.maxDigits + 1)) [(least, least)]
      [Nat.toDigits 10 least] :=
    .cons (.number (Nat.pow_pos (by decide)) hspells) .nil
  obtain ⟨set, hset, -⟩ := hall _ _ _ (List.cons_ne_nil _ _) hwritten
  rw [parse?, joined, String.toList_ofList, Text.split_intercalate (List.cons_ne_nil _ _)
    (not_mem_of_forall₂ hwritten), List.mapM_cons, range?_eq_none hspells.isDigit hmany] at hset
  cases hset

/-- A side is in a set when it is in one of its ranges. -/
lemma contains_iff (set : SideSet) (n : Int) :
    set.contains n = true ↔ ∃ r ∈ set.ranges, (r.1 : Int) ≤ n ∧ n ≤ r.2 := by
  simp [contains]

end SideSet

/-! ### The sides that are converted -/

/-- A listing without the blocks ends without a fault, and so does one with the blocks of a side
that is listed. -/
lemma Side.perform_print_eq_ok {side : Side} {withBlocks : Bool}
    (h : withBlocks = true → side.IsListed) (title : String) (s : Session) :
    ((side.print title withBlocks).perform s).1 = .ok () := by
  cases withBlocks with
  | false => exact side.perform_print_fst title false s
  | true => exact (h rfl).printed title true s

namespace Command.Convert

/-- The sides that are chosen of an image are those whose numbers, counted from one, are in some of
the ranges: each of them once, in the order of the image. -/
def Selects (ranges : List (Nat × Nat)) (sides chosen : List Side) : Prop :=
  ∃ numbers : List Nat, numbers.Pairwise (· < ·)
    ∧ (∀ n, n ∈ numbers ↔ 1 ≤ n ∧ n ≤ sides.length ∧ ∃ r ∈ ranges, r.1 ≤ n ∧ n ≤ r.2)
    ∧ chosen.map some = numbers.map fun n => sides[n - 1]?

/-- **The sides of a set** are those whose numbers are in its ranges. -/
lemma selects_selected (set : SideSet) (sides : List Side) :
    Selects set.ranges sides ((selected (some set) sides).map Prod.fst) := by
  have hfound : ∀ side i, (side, i) ∈ selected (some set) sides
      ↔ sides[i]? = some side ∧ set.contains ((i : Int) + 1) = true := by
    intro side i
    rw [selected, List.mem_filter, List.mk_mem_zipIdx_iff_getElem?]
  refine ⟨(selected (some set) sides).map fun x => x.2 + 1, ?_, ?_, ?_⟩
  · have hplaces : (sides.zipIdx.map Prod.snd).Pairwise (· < ·) := by
      rw [List.zipIdx_map_snd]
      exact List.pairwise_lt_range'
    rw [List.pairwise_map] at hplaces ⊢
    exact (hplaces.filter _).imp fun h => Nat.succ_lt_succ h
  · intro n
    rw [List.mem_map]
    constructor
    · rintro ⟨⟨side, i⟩, hmem, rfl⟩
      obtain ⟨hside, hset⟩ := (hfound side i).mp hmem
      obtain ⟨hlt, -⟩ := List.getElem?_eq_some_iff.mp hside
      obtain ⟨r, hr, hfirst, hlast⟩ := (set.contains_iff _).mp hset
      exact ⟨by omega, hlt, r, hr, by omega, by omega⟩
    · rintro ⟨hpos, hle, r, hr, hfirst, hlast⟩
      have hlt : n - 1 < sides.length := by omega
      refine ⟨(sides[n - 1], n - 1), (hfound _ _).mpr ⟨List.getElem?_eq_getElem hlt, ?_⟩, by omega⟩
      exact (set.contains_iff _).mpr ⟨r, hr, by omega, by omega⟩
  · rw [List.map_map, List.map_map]
    refine List.map_congr_left fun ⟨side, i⟩ hmem => ?_
    exact ((hfound side i).mp hmem).1.symm

/-- The ranges tell which sides are chosen. -/
lemma Selects.eq {ranges : List (Nat × Nat)} {sides chosen chosen' : List Side}
    (h : Selects ranges sides chosen) (h' : Selects ranges sides chosen') : chosen = chosen' := by
  obtain ⟨numbers, hordered, hnumbers, hchosen⟩ := h
  obtain ⟨numbers', hordered', hnumbers', hchosen'⟩ := h'
  obtain rfl : numbers = numbers' :=
    hordered.eq_of_mem_iff hordered' fun n => (hnumbers n).trans (hnumbers' n).symm
  exact List.map_injective_iff.mpr (Option.some_injective _) (hchosen.trans hchosen'.symm)

/-- **All sides are added**, if they are listed without their blocks or can all be listed. -/
lemma perform_addSides_fst {sides : List (Side × Nat)} {withBlocks : Bool}
    (hlisted : withBlocks = true → ∀ side ∈ sides.map Prod.fst, side.IsListed) (image : Image)
    (s : Session) : ((addSides sides withBlocks image).perform s).1
      = .ok { image with sides := image.sides ++ sides.map Prod.fst } := by
  induction sides generalizing image s with
  | nil =>
      rw [List.map_nil, List.append_nil]
      rfl
  | cons x sides ih =>
      obtain ⟨side, i⟩ := x
      have hprint : (side.print (Side.title i) withBlocks).perform s
          = (.ok (), ((side.print (Side.title i) withBlocks).perform s).2) :=
        Prod.ext (side.perform_print_eq_ok (fun hv => hlisted hv side (by simp)) _ s) rfl
      have hadd := perform_bind_ok hprint fun _ => pure (image.addSide side)
      have hrest := ih (fun hv z hz => hlisted hv z (by simp [hz])) (image.addSide side)
        ((side.print (Side.title i) withBlocks).perform s).2
      rw [Image.addSide, List.append_assoc, List.singleton_append] at hrest
      rw [addSides, List.foldlM_cons, perform_bind_ok hadd]
      exact hrest

/-! ### A whole conversion -/

/-- The words ask to convert an image that can be read to one that can be written. -/
structure Between (fs : Files) (p : Parsed) (image target : Image) : Prop where
  source_eq : ∃ text file options format s, p.argument? 0 = some text
    ∧ Options.splitName text = (file, options) ∧ Format.ofFileName file = .ok format
    ∧ (Image.ofFile format file options).perform { files := fs } = (.ok image, s)
  target_eq : ∃ text file options format, p.argument? 1 = some text
    ∧ Options.splitName text = (file, options) ∧ Format.ofFileName file = .ok format
    ∧ Image.forFile format file options = .ok target

variable {fs : Files} {p : Parsed} {image target : Image}

/-- A conversion writes the file of the target, and fills it with the sides that are selected. -/
lemma Between.exists_perform_run (h : Between fs p image target) :
    ∃ s, s.files = fs ∧ (run p).perform { files := fs }
      = (target.writeFile (p.flag "-n")
          (addSides (selected (askedSides p) image.sides) (p.flag "-v"))).perform s := by
  obtain ⟨text, file, options, format, s, htext, hname, hformat, himage⟩ := h.source_eq
  obtain ⟨goalText, goal, goalOptions, goalFormat, hgoalText, hgoal, hgoalFormat, htarget⟩ :=
    h.target_eq
  have hgiven : ∀ {i : Nat} {text : String}, p.argument? i = some text →
      p.argument i .missingName = .ok text := by
    intro i text h
    rw [Parsed.argument, h]
    rfl
  have hfiles : s.files = fs := (Image.keeps_ofFile format file options).eq_of_perform himage
  let s₁ : Session := { s with lines := s!"Converting {file} -> {goal}" :: s.lines }
  have hprint : (Session.print s!"Converting {file} -> {goal}").perform s = (.ok (), s₁) := rfl
  refine ⟨s₁, hfiles, ?_⟩
  have hlift : ∀ {α : Type} {e : Except Fault α} {a : α} (s : Session), e = .ok a →
      (liftM e : Action Session α).perform s = (.ok a, s) := by
    rintro α _ a s rfl
    rfl
  rw [run, perform_bind_ok (hlift _ (hgiven htext))]
  simp only [hname]
  rw [perform_bind_ok (hlift _ (hgiven hgoalText))]
  simp only [hgoal]
  rw [perform_bind_ok (hlift _ hformat), perform_bind_ok (hlift _ hgoalFormat),
    perform_bind_ok himage, perform_bind_ok hprint, perform_bind_ok (hlift _ htarget)]

/-- **How a conversion of sides in a set ends**: if the sides that are selected are not listed or can
all be listed, the target is filled with them, and its file is written in one of the ways. -/
lemma Between.exists_ending (h : Between fs p image target) {set : SideSet}
    (hset : askedSides p = some set) :
    ∃ emitted result s', (run p).perform { files := fs } = (result, s')
      ∧ Selects set.ranges image.sides emitted
      ∧ ((p.flag "-v" = true → ∀ side ∈ emitted, side.IsListed) →
        Image.Ending fs target.file (p.flag "-n") (.ok { target with sides := emitted }) result
          s'.files)
      ∧ Image.OnlyChanges fs target.file s'.files := by
  obtain ⟨s, rfl, hrun⟩ := h.exists_perform_run
  obtain ⟨_, _, _, _, _, _, _, htarget⟩ := h.target_eq
  obtain ⟨result, s', hperform, hending, honly, -⟩ := exists_ending_of_addSides target
    (p.flag "-n") (selected (askedSides p) image.sides) (p.flag "-v") s
  rw [hset] at hperform hrun hending
  refine ⟨_, result, s', hrun.trans hperform, selects_selected set image.sides, ?_, honly⟩
  intro hlisted
  rwa [perform_addSides_fst hlisted, (Image.contents_of_forFile htarget).2, List.nil_append]
    at hending

end Command.Convert

/-- An image that has bytes is written where its file can be opened and may be overwritten. -/
lemma Image.Ending.of_bytes {fs fs' : Files} {file : String} {image : Image}
    {result : Except Fault Unit} {content : List UInt8}
    (h : Ending fs file false (.ok image) result fs') (hopen : Opens fs file false)
    (hbytes : image.bytes = .ok content) : result = .ok () ∧ fs'.read file = .ok content := by
  cases h with
  | refused _ hkept => cases hkept
  | unopened cause hcreate =>
      rw [Opens, hcreate] at hopen
      cases hopen
  | abandoned cause _ _ hfilled => cases hfilled
  | written image content' _ _ hfilled hbytes' hread =>
      obtain rfl := Except.ok.inj hfilled
      obtain rfl := Except.ok.inj (hbytes.symm.trans hbytes')
      exact ⟨rfl, hread⟩
  | leftEmpty image cause _ _ hfilled hbytes' =>
      obtain rfl := Except.ok.inj hfilled
      cases hbytes.symm.trans hbytes'

namespace Command

/-! ### Command lines -/

/-- A word that does not begin with a dash is an argument. -/
lemma Grammar.words_cons (g : Grammar) {text : String} (h : text.toList.head? ≠ some '-')
    (rest : List String) : g.words (text :: rest) = .argument text :: g.words rest := by
  have hne : text ≠ "--" := by
    rintro rfl
    exact h rfl
  have hclass : g.classify text = .argument text := by
    simp only [classify]
    split
    · next hcs =>
      rw [hcs] at h
      exact absurd rfl h
    · rfl
  rw [words, hclass]
  exact hne

/-- An option is taken, and reading goes on behind it. -/
lemma Grammar.readWords_option (g : Grammar) (fuel : Nat) (r : Reading) (spec : OptionSpec)
    (attached : Attached) (rest : List Word) :
    g.readWords (fuel + 1) r (.option spec attached :: rest)
      = takeOption g r spec attached rest >>= fun next => g.readWords fuel next.1 next.2 := rfl

/-- Two words that are not the double dash are given to two arguments that may be any texts. -/
lemma Grammar.takeArguments_pair (r : Reading) {a b : String} (ha : a ≠ "--") (hb : b ≠ "--") :
    takeArguments r [.argument a, .argument b] [{}, {}]
      = .ok ({ r with
          missing := []
          parsed := { r.parsed with
            arguments := r.parsed.arguments ++ [some a] ++ [some b] } }, []) := by
  have htake : ∀ {text : String}, text ≠ "--" → ∀ rest : List Word,
      takeArgument? {} (.argument text :: rest) = some (some text, (skipSeparators rest).2) := by
    intro text h rest
    simp only [takeArgument?, skipSeparators, h, false_and, if_false]
  rw [takeArguments, htake ha]
  change takeArguments _ [.argument b] [{}] = _
  rw [takeArguments, htake hb]
  rfl

/-- The words of a conversion with a set of sides, when none of the names begins with a dash. -/
lemma Convert.parse_sides {text a b : String} (htext : text.toList.head? ≠ some '-')
    (hvalid : (SideSet.parse? text).isSome) (ha : a.toList.head? ≠ some '-')
    (hb : b.toList.head? ≠ some '-') :
    grammar.parse ["--sides", text, a, b]
      = .ok { values := [("--sides", some text)], arguments := [some a, some b] } := by
  have hne : ∀ {text : String}, text.toList.head? ≠ some '-' → text ≠ "--" := by
    rintro _ h rfl
    exact h rfl
  let spec : OptionSpec := ⟨["--sides"], .value fun text => (SideSet.parse? text).isSome⟩
  have hwords : grammar.words ["--sides", text, a, b]
      = [.option spec .nothing, .argument text, .argument a, .argument b] := by
    have hsides : grammar.classify "--sides" = .option spec .nothing := rfl
    rw [Grammar.words, hsides, Grammar.words_cons _ htext, Grammar.words_cons _ ha,
      Grammar.words_cons _ hb, Grammar.words]
    decide
  have hvalue : Grammar.takeOption grammar { missing := [{}, {}] } spec .nothing
      [.argument text, .argument a, .argument b]
        = .ok ({ parsed := { values := [("--sides", some text)] }, missing := [{}, {}] },
          [.argument a, .argument b]) := by
    have hset : Grammar.setValue { missing := [{}, {}] } spec
        (fun text => (SideSet.parse? text).isSome) text
          = .ok { parsed := { values := [("--sides", some text)] }, missing := [{}, {}] } := by
      rw [Grammar.setValue, if_neg (hne htext)]
      exact if_pos hvalid
    simp only [Grammar.takeOption, spec]
    rw [hset]
    rfl
  have hread : grammar.readWords 5 { missing := [{}, {}] }
      [.option spec .nothing, .argument text, .argument a, .argument b]
        = .ok { parsed := ⟨[], [("--sides", some text)], [some a, some b]⟩, missing := [] } := by
    rw [Grammar.readWords_option, hvalue, ok_bind]
    change (Grammar.takeArguments
      { parsed := { values := [("--sides", some text)] }, missing := [{}, {}] }
      [.argument a, .argument b] [{}, {}] >>= fun next =>
        pure { next.1 with hasExtra := next.1.hasExtra || !next.2.isEmpty }) = _
    rw [Grammar.takeArguments_pair _ (hne ha) (hne hb)]
    rfl
  rw [Grammar.parse, hwords]
  change grammar.readWords 5 { missing := [{}, {}] } _ >>= _ = _
  rw [hread]
  rfl

lemma ending_outcome_iff (common : Common) (result : Except Fault Unit) (s : Session) :
    (outcome common result s).ending = .returned 0 ↔ result = .ok () := by
  cases result with
  | ok _ => exact iff_of_true (ending_outcome_ok common s) rfl
  | error cause => exact iff_of_false (ending_outcome_error common cause s) nofun

open SideSet (Writes joined)

/-- **A command line converts the sides whose numbers are in its ranges.** Ranges of numbers that
are written with as many digits as can be read are a set, whatever their order is and however they
lie over each other, and the set has the numbers that are in one of them. They can be asked for on a
command line. The target is filled with the sides of the source whose numbers, from one on, are in
one of the ranges, each of them once and in the order of the source; no other number makes a
difference. If the command lists these sides with their blocks as well, this is said of sides that
can all be listed. -/
theorem convert_selects {ranges : List (Nat × Nat)} {pieces : List (List Char)} (hne : ranges ≠ [])
    (hwritten : List.Forall₂ (Writes Text.maxDigits) ranges pieces) :
    (∃ set, SideSet.parse? (joined pieces) = some set
        ∧ ∀ n : Int, set.contains n = true ↔ ∃ r ∈ ranges, (r.1 : Int) ≤ n ∧ n ≤ r.2)
      ∧ (∀ a b : String, a.toList.head? ≠ some '-' → b.toList.head? ≠ some '-' →
        ∃ p, Convert.grammar.parse ["--sides", joined pieces, a, b] = .ok p
          ∧ p.value? "--sides" = some (some (joined pieces))
          ∧ p.argument? 0 = some a ∧ p.argument? 1 = some b)
      ∧ ∀ (program : String) (words rest : List String) (common : Common) (p : Parsed) (fs : Files)
          (image target : Image), Common.parse {} words = some (common, "convert" :: rest) →
          Convert.grammar.parse rest = .ok p →
          p.value? "--sides" = some (some (joined pieces)) → Convert.Between fs p image target →
        let o := Command.run program words fs
        ∃ emitted, Convert.Selects ranges image.sides emitted
          ∧ ((p.flag "-v" = true → ∀ side ∈ emitted, side.IsListed) →
            ∃ result, Image.Ending fs target.file (p.flag "-n")
                (.ok { target with sides := emitted }) result o.files
              ∧ Image.OnlyChanges fs target.file o.files
              ∧ (o.ending = .returned 0 ↔ result = .ok ())) := by
  have hset := SideSet.parse?_eq hne hwritten
  refine ⟨⟨_, hset, SideSet.contains_iff _⟩, ?_, ?_⟩
  · intro a b ha hb
    have hvalid : (SideSet.parse? (joined pieces)).isSome := by
      rw [hset]
      rfl
    exact ⟨_, Convert.parse_sides (SideSet.head?_joined hne hwritten) hvalid ha hb, rfl, rfl, rfl⟩
  · intro program words rest common p fs image target hconvert hparse hvalue hbetween o
    have hasked : Convert.askedSides p = some ⟨joined pieces, ranges⟩ := by
      rw [Convert.askedSides, hvalue, Option.map_some, Option.bind_some, hset, Option.getD_some]
    obtain ⟨emitted, result, s', hrun, hselects, hending, honly⟩ := hbetween.exists_ending hasked
    have houtcome : o = outcome common result s' := run_action program .convert hconvert hparse hrun
    rw [houtcome, files_outcome, ending_outcome_iff]
    exact ⟨emitted, hselects, fun hlisted => ⟨result, hending hlisted, honly, Iff.rfl⟩⟩

/-- The words ask to convert the second of two sides, and to list it. -/
def secondSide : Parsed where
  flags := ["-v"]
  values := [("--sides", some "3-9,2,2")]
  arguments := [some "a.fds", some "b.fds"]

/-- An image of a disk is read from its file and can be converted to another one. -/
lemma exists_between_secondSide {dat : List UInt8} {sides : List Side}
    (hread : DiskImage.read dat = .ok sides) :
    Convert.Between { files := [(["a.fds"], dat)] } secondSide
      { Image.new .diskImage "a.fds" with sides } (.new .diskImage "b.fds") := by
  have hload : (Image.ofFile .diskImage "a.fds" []).perform
      { files := { files := [(["a.fds"], dat)] } }
        = (Action.ofExcept (DiskImage.read dat >>= fun sides =>
          pure { Image.new .diskImage "a.fds" with sides })).perform
          { files := { files := [(["a.fds"], dat)] } } := rfl
  rw [hread] at hload
  exact ⟨⟨"a.fds", "a.fds", [], .diskImage, _, rfl, rfl, rfl, hload⟩,
    ⟨"b.fds", "b.fds", [], .diskImage, rfl, rfl, rfl, rfl⟩⟩

/-- The second one of two sides is converted, the first one is left out, and there are no others. The
side that was written is read again. -/
theorem convert_selects_secondSide : ∃ dat dat',
    DiskImage.read dat = .ok [{ blocks := emptySide }, { blocks := oneFile }]
      ∧ DiskImage.read dat' = .ok [{ blocks := oneFile }]
      ∧ let o := Command.run "fds" ["convert", "-v", "--sides", "3-9,2,2", "a.fds", "b.fds"]
          { files := [(["a.fds"], dat)] }
        o.ending = .returned 0 ∧ o.files.read "b.fds" = .ok dat' := by
  obtain ⟨dat, -, hread⟩ := DiskImage.exists_read_write false (List.cons_ne_nil _ _)
    (show ∀ s ∈ [({ blocks := emptySide } : Side), { blocks := oneFile }], s.IsStorable by
      simpa using ⟨isStorable_emptySide, isStorable_oneFile⟩) nofun
  obtain ⟨dat', hwrite, hread'⟩ := DiskImage.exists_read_write false (List.cons_ne_nil _ _)
    (show ∀ s ∈ [({ blocks := oneFile } : Side)], s.IsStorable by simpa using isStorable_oneFile)
    nofun
  refine ⟨dat, dat', hread, hread', ?_⟩
  have hspells : ∀ n < 10, Text.Spells Text.maxDigits n (Nat.toDigits 10 n) := fun n hn =>
    Text.spells_toDigits (by decide) (Nat.lt_of_lt_of_le hn (Nat.le_self_pow (by decide) 10))
  have htwo := hspells 2 (by decide)
  have hwritten : List.Forall₂ (Writes Text.maxDigits) [(3, 9), (2, 2), (2, 2)]
      [['3', '-', '9'], ['2'], ['2']] :=
    .cons (.range (by decide) (by decide) (hspells 3 (by decide)) (hspells 9 (by decide)))
      (.cons (.number (by decide) htwo) (.cons (.number (by decide) htwo) .nil))
  obtain ⟨-, hwords, hconvert⟩ := convert_selects (List.cons_ne_nil _ _) hwritten
  have hcommon : Common.parse {} ["convert", "-v", "--sides", "3-9,2,2", "a.fds", "b.fds"]
      = some ({}, "convert" :: ["-v", "--sides", "3-9,2,2", "a.fds", "b.fds"]) := by
    have hname : "convert".startsWith "--" = false := by decide +kernel
    simp [Common.parse, hname]
  obtain ⟨emitted, hselects, hends⟩ := hconvert "fds" _ _ _ secondSide _ _ _ hcommon rfl rfl
    (exists_between_secondSide hread)
  obtain rfl : emitted = [{ blocks := oneFile }] := by
    refine hselects.eq ⟨[2], List.pairwise_singleton _ _, fun n => ?_, rfl⟩
    simp
    omega
  have hlisted : ({ blocks := oneFile } : Side).IsListed :=
    Side.isListed_iff.mpr isStandard_oneFile.inOrder.listingFault?_eq_none
  obtain ⟨result, hending, -, hended⟩ := hends fun _ => List.forall_mem_singleton.mpr hlisted
  intro o
  rw [hended]
  exact hending.of_bytes (Image.opens_of_vacant rfl rfl (by decide)) hwrite

end Command

end FamicomDisk
