import FamicomDisk.Command.Arguments
import FamicomDisk.Proofs.Sequencing

/-!
What words say passes the checks of their grammar.

A text is checked when it is given to an argument or to an option, and nothing that was read is
taken back. What is still to come are always the arguments behind those that were read, and a word
is an option only if the grammar has that option. So the reading of words keeps what was read within
the grammar (`Reading.Passes`), whatever the words are.

* `Parsed.Passes`: each argument passes the check of its place, and each value that of its option.
* `skipSeparators_suffix`, `takeArguments_passes`, `takeOption_passes`: one round of reading.
* `readWords_passes`: all rounds, by induction over them.
* `passes_of_parse`: **whatever the words are, what they say passes all checks**.
-/

namespace FamicomDisk

namespace Command

/-- What words say passes the checks of a grammar. -/
structure Parsed.Passes (p : Parsed) (g : Grammar) : Prop where
  argument {i : Nat} {spec : ArgumentSpec} {text : String} (hspec : g.arguments[i]? = some spec)
    (htext : p.arguments[i]? = some (some text)) : spec.isValid text = true
  value {name text : String} (hvalue : (name, some text) ∈ p.values) :
    ∃ spec ∈ g.options, spec.names.headD "" = name
      ∧ ∃ isValid, spec.kind = .value isValid ∧ isValid text = true

namespace Parsed.Passes

variable {p : Parsed} {g : Grammar} (h : p.Passes g)
include h

lemma isValid_of_argument? {i : Nat} {spec : ArgumentSpec} {text : String}
    (hspec : g.arguments[i]? = some spec) (htext : p.argument? i = some text) :
    spec.isValid text = true :=
  h.argument hspec (Option.join_eq_some_iff.mp htext)

lemma exists_of_value? {name text : String} (hvalue : p.value? name = some (some text)) :
    ∃ spec ∈ g.options, spec.names.headD "" = name
      ∧ ∃ isValid, spec.kind = .value isValid ∧ isValid text = true := by
  obtain ⟨⟨name', value⟩, hfound, rfl⟩ := Option.map_eq_some_iff.mp hvalue
  obtain rfl : name' = name := by simpa using List.find?_some hfound
  exact h.value (List.mem_of_find?_eq_some hfound)

end Parsed.Passes

namespace Grammar

variable {g : Grammar} {r r' : Reading} {ws rest : List Word}

/-- Each word that is an option is one that the grammar has. -/
def Knows (g : Grammar) (ws : List Word) : Prop :=
  ∀ spec attached, Word.option spec attached ∈ ws → spec ∈ g.options

/-- What was read passes the checks, and what is to come are the arguments behind it. -/
structure Reading.Passes (r : Reading) (g : Grammar) : Prop where
  parsed : r.parsed.Passes g
  missing_eq : r.missing = g.arguments.drop r.parsed.arguments.length

lemma Knows.suffix (h : g.Knows ws) (hrest : rest <:+ ws) : g.Knows rest :=
  fun spec attached hmem => h spec attached (hrest.subset hmem)

/-! ### Words that are options -/

lemma mem_of_find? {name : String} {spec : OptionSpec} (h : g.find? name = some spec) :
    spec ∈ g.options :=
  List.mem_of_find?_eq_some h

lemma mem_of_joinedOption? {word : List Char} {spec : OptionSpec} {attached : Attached}
    (h : g.joinedOption? word = some (.option spec attached)) : spec ∈ g.options := by
  rw [joinedOption?] at h
  split at h
  · cases h
  · obtain ⟨found, hfound, heq⟩ := Option.map_eq_some_iff.mp h
    cases heq
    exact mem_of_find? hfound

lemma mem_of_shortOption? {word : List Char} {spec : OptionSpec} {attached : Attached}
    (h : g.shortOption? word = some (.option spec attached)) : spec ∈ g.options := by
  simp only [shortOption?] at h
  split at h
  · split at h
    · cases h
    · obtain ⟨found, hfound, heq⟩ := Option.map_eq_some_iff.mp h
      cases heq
      exact mem_of_find? hfound
  · cases h

lemma mem_of_classify {text : String} {spec : OptionSpec} {attached : Attached}
    (h : g.classify text = .option spec attached) : spec ∈ g.options := by
  simp only [classify] at h
  split at h
  · split at h
    · next hfound =>
      cases h
      exact mem_of_find? hfound
    · split at h
      · cases h
      · split at h
        · next hword =>
          subst h
          rcases Option.or_eq_some_iff.mp hword with hjoined | ⟨-, hshort⟩
          · exact mem_of_joinedOption? hjoined
          · exact mem_of_shortOption? hshort
        · split at h <;> cases h
  · cases h

lemma knows_words (g : Grammar) (texts : List String) : g.Knows (g.words texts) := by
  intro spec attached hmem
  induction texts using words.induct with
  | case1 => cases hmem
  | case2 rest =>
      rcases List.mem_cons.mp hmem with heq | hmem
      · cases heq
      · obtain ⟨text, -, heq⟩ := List.mem_map.mp hmem
        cases heq
  | case3 text rest hne ih =>
      rw [words] at hmem
      · rcases List.mem_cons.mp hmem with heq | hmem
        · exact mem_of_classify heq.symm
        · exact ih hmem
      · exact hne

/-! ### Arguments -/

lemma skipSeparators_suffix (ws : List Word) : (skipSeparators ws).2 <:+ ws := by
  induction ws with
  | nil => exact List.suffix_refl []
  | cons w ws ih =>
      cases w with
      | separator => exact ih.trans (List.suffix_cons _ ws)
      | argument text => exact List.suffix_refl _
      | option spec attached => exact List.suffix_refl _
      | unknown => exact List.suffix_refl _

lemma takeArgument?_suffix {spec : ArgumentSpec} {text : Option String}
    (h : takeArgument? spec ws = some (text, rest)) : rest <:+ ws := by
  rw [takeArgument?] at h
  have hskip := skipSeparators_suffix ws
  generalize skipSeparators ws = skipped at h hskip
  obtain ⟨before, behind⟩ := skipped
  simp only at h hskip
  split at h
  · next first left =>
    obtain ⟨-, rfl⟩ := Prod.mk.inj (Option.some.inj h)
    exact ((skipSeparators_suffix left).trans (List.suffix_cons _ left)).trans hskip
  · split at h
    · obtain ⟨-, rfl⟩ := Prod.mk.inj (Option.some.inj h)
      exact hskip
    · cases h

lemma addArgument_passes {spec : ArgumentSpec} {missing : List ArgumentSpec} {text : Option String}
    (hr : r.Passes g) (hmissing : r.missing = spec :: missing)
    (h : addArgument r spec missing text = .ok r') : r'.Passes g ∧ r'.missing = missing := by
  have hdrop := hr.missing_eq.symm.trans hmissing
  have hspec : g.arguments[r.parsed.arguments.length]? = some spec := by
    rw [← List.head?_drop, hdrop, List.head?_cons]
  rw [addArgument] at h
  split at h
  · next hvalid =>
    obtain rfl := Except.ok.inj h
    refine ⟨⟨⟨fun {i spec' text'} hspec' htext' => ?_, hr.parsed.value⟩, ?_⟩, rfl⟩
    · rcases Nat.lt_trichotomy i r.parsed.arguments.length with hi | rfl | hi
      · rw [List.getElem?_append_left hi] at htext'
        exact hr.parsed.argument hspec' htext'
      · -- the argument that was added
        rw [List.getElem?_concat_length] at htext'
        obtain rfl := Option.some.inj htext'
        obtain rfl := Option.some.inj (hspec.symm.trans hspec')
        exact hvalid
      · rw [List.getElem?_eq_none (by rw [List.length_append, List.length_singleton]; omega)]
          at htext'
        cases htext'
    · rw [List.length_append, List.length_singleton, ← List.tail_drop, hdrop, List.tail_cons]
  · cases h

/-- Giving words to arguments keeps what was read within the grammar. -/
lemma takeArguments_passes {specs : List ArgumentSpec} (hr : r.Passes g)
    (hmissing : r.missing = specs) (h : takeArguments r ws specs = .ok (r', rest)) :
    r'.Passes g ∧ rest <:+ ws := by
  induction specs generalizing r ws with
  | nil =>
      obtain ⟨rfl, rfl⟩ := Prod.mk.inj (Except.ok.inj h)
      exact ⟨hr, List.suffix_refl ws⟩
  | cons spec specs ih =>
      rw [takeArguments] at h
      split at h
      · obtain ⟨rfl, rfl⟩ := Prod.mk.inj (Except.ok.inj h)
        exact ⟨hr, List.suffix_refl ws⟩
      · next text left htake =>
        obtain ⟨next, hadd, h⟩ := exists_of_bind_eq_ok h
        obtain ⟨hnext, hleft⟩ := addArgument_passes hr hmissing hadd
        obtain ⟨hr', hrest⟩ := ih hnext hleft h
        exact ⟨hr', hrest.trans (takeArgument?_suffix htake)⟩

/-! ### Options -/

lemma setFlag_passes {spec : OptionSpec} (hr : r.Passes g) (h : setFlag r spec = .ok r') :
    r'.Passes g := by
  rw [setFlag] at h
  split at h
  · cases h
  · obtain rfl := Except.ok.inj h
    exact ⟨⟨hr.parsed.argument, hr.parsed.value⟩, hr.missing_eq⟩

lemma foldlM_setFlag_passes {specs : List OptionSpec} (hr : r.Passes g)
    (h : specs.foldlM setFlag r = .ok r') : r'.Passes g := by
  induction specs generalizing r with
  | nil =>
      obtain rfl := Except.ok.inj h
      exact hr
  | cons spec specs ih =>
      rw [List.foldlM_cons] at h
      obtain ⟨next, hset, h⟩ := exists_of_bind_eq_ok h
      exact ih (setFlag_passes hr hset) h

lemma setValue_passes {spec : OptionSpec} {isValid : String → Bool} {text : String}
    (hr : r.Passes g) (hspec : spec ∈ g.options) (hkind : spec.kind = .value isValid)
    (h : setValue r spec isValid text = .ok r') : r'.Passes g := by
  rw [setValue] at h
  generalize (if text = "--" then none else some text) = value at h
  dsimp only at h
  split at h
  · next hvalid =>
    obtain rfl := Except.ok.inj h
    refine ⟨⟨hr.parsed.argument, fun {name text'} hmem => ?_⟩, hr.missing_eq⟩
    rcases List.mem_cons.mp hmem with heq | hmem
    · obtain ⟨rfl, hvalue⟩ := Prod.mk.inj heq
      rw [← hvalue] at hvalid
      exact ⟨spec, hspec, rfl, isValid, hkind, hvalid⟩
    · exact hr.parsed.value hmem
  · cases h

/-- A reading that is handed on with the words behind it. -/
lemma of_bind_pair {x : Except Refusal Reading}
    (h : (do pure (← x, ws)) = (.ok (r', rest) : Except Refusal (Reading × List Word))) :
    x = .ok r' ∧ rest = ws := by
  obtain ⟨next, hx, h⟩ := exists_of_bind_eq_ok h
  obtain ⟨rfl, rfl⟩ := Prod.mk.inj (Except.ok.inj h)
  exact ⟨hx, rfl⟩

/-- Reading an option keeps what was read within the grammar. -/
lemma takeOption_passes {spec : OptionSpec} {attached : Attached} (hr : r.Passes g)
    (hspec : spec ∈ g.options) (h : g.takeOption r spec attached ws = .ok (r', rest)) :
    r'.Passes g ∧ rest <:+ ws := by
  rw [takeOption.eq_def] at h
  split at h
  -- a value that is joined to the option, or is the next word
  · next hkind =>
    obtain ⟨hset, rfl⟩ := of_bind_pair h
    exact ⟨setValue_passes hr hspec hkind hset, List.suffix_refl _⟩
  · next hkind =>
    obtain ⟨hset, rfl⟩ := of_bind_pair h
    exact ⟨setValue_passes hr hspec hkind hset, List.suffix_refl _⟩
  · next hkind =>
    split at h
    · obtain ⟨hset, rfl⟩ := of_bind_pair h
      exact ⟨setValue_passes hr hspec hkind hset, List.suffix_cons _ _⟩
    · cases h
  -- a flag, one that has a value after all, or joined flags
  · obtain ⟨hset, rfl⟩ := of_bind_pair h
    exact ⟨setFlag_passes hr hset, List.suffix_refl _⟩
  · cases h
  · cases h
  · split at h
    · obtain ⟨hset, rfl⟩ := of_bind_pair h
      exact ⟨foldlM_setFlag_passes hr hset, List.suffix_refl _⟩
    · cases h

/-! ### All words -/

lemma Reading.Passes.extra (hr : r.Passes g) (hasExtra : Bool) :
    { r with hasExtra }.Passes g :=
  ⟨hr.parsed, hr.missing_eq⟩

/-- Reading words keeps what was read within the grammar. -/
lemma readWords_passes {fuel : Nat} (hr : r.Passes g) (hws : g.Knows ws)
    (h : g.readWords fuel r ws = .ok r') : r'.Passes g := by
  induction fuel generalizing r ws with
  | zero =>
      obtain rfl := Except.ok.inj h
      exact hr
  | succ fuel ih =>
      rw [readWords.eq_def] at h
      dsimp only at h
      split at h
      · -- no option is left
        obtain ⟨⟨next, rest⟩, htake, h⟩ := exists_of_bind_eq_ok h
        obtain rfl := Except.ok.inj h
        exact (takeArguments_passes hr rfl htake).1.extra _
      · split at h
        · next spec attached rest _ =>
          obtain ⟨⟨next, left⟩, htake, h⟩ := exists_of_bind_eq_ok h
          obtain ⟨hnext, hleft⟩ := takeOption_passes hr (hws spec attached (by simp)) htake
          exact ih hnext (hws.suffix (hleft.trans (List.suffix_cons _ rest))) h
        · next rest _ => exact ih (hr.extra true) (hws.suffix (List.suffix_cons _ rest)) h
        · obtain ⟨⟨next, left⟩, htake, h⟩ := exists_of_bind_eq_ok h
          obtain ⟨hnext, hleft⟩ := takeArguments_passes hr rfl htake
          dsimp only at h
          split at h
          · exact ih hnext (hws.suffix hleft) h
          · exact ih (hnext.extra true) (hws.suffix (List.dropWhile_suffix _)) h

/-- **Whatever the words are, what they say passes all checks** of the grammar. -/
theorem passes_of_parse {texts : List String} {p : Parsed} (h : g.parse texts = .ok p) :
    p.Passes g := by
  obtain ⟨r, hread, h⟩ := exists_of_bind_eq_ok h
  split at h
  · cases h
  · obtain rfl := Except.ok.inj h
    have hstart : Reading.Passes { missing := g.arguments } g :=
      ⟨⟨fun _ htext => (by cases htext), fun hmem => (by cases hmem)⟩, rfl⟩
    exact (readWords_passes hstart (knows_words g texts) hread).parsed

end Grammar

end Command

end FamicomDisk
