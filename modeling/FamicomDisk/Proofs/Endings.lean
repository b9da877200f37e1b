import FamicomDisk.Proofs.AnyCapture
import FamicomDisk.Proofs.Filling
import Mathlib.Logic.Relation

/-!
How the reading of a capture ends.

Reading goes from block to block. One step takes the next whole block behind the cursor, or passes
over it when it has another type, and is a step only while the block that is expected has room. So
reading can stop at two places: where the block that is expected does not fit, of whatever size it
is declared to be, and where no whole block comes behind the cursor. Room is asked for first, so at
the first place it makes no difference whether anything comes behind the cursor.

* `Progress`, `Progress.next?`, `Progress.Reaches`: how far reading has come, one step, and a run.
* `Progress.next?_cases`: **what one step does**, or why there is none.
* `Progress.IsValid`, `Progress.IsValid.next`, `Progress.IsValid.reaches`: what a step and a run
  preserve; `Progress.exists_last`: every run comes to an end.
* `decodeKnown_ending`: **how reading ends** for any capture, and when it is told that there is no
  room.
* `not_forall_gap_behind`: it is told of a capture that holds nothing more.
-/

namespace FamicomDisk

open Recovery

/-- The fault is that of a size or of a place. -/
def BlockFault.IsBadSpacing : BlockFault → Prop
  | .badSpacing .. => True
  | _ => False

namespace Capture

/-- How far the reading of a capture has come. -/
structure Progress where
  /-- The blocks and faults up to here. -/
  found : Findings
  /-- The type of the next block. -/
  expected : BlockType
  /-- The block before it. -/
  previous : Option Block
  /-- The bytes of the blocks up to here. -/
  output : Nat
  /-- The offset from which the next gap is looked for. -/
  input : Nat

namespace Progress

/-- Reading begins a gap before the disk header, or at the start when there is none. -/
def first (pulses : List Pulse) : Progress where
  found := {}
  expected := .diskHeader
  previous := none
  output := 0
  input := (findUsualHeader? pulses).getD 0 - minGap

/-- The size of the block that is expected. -/
def size? (p : Progress) : Option Nat := Block.sizeOf p.expected.code p.previous

/-- The block that is expected is taken, and reading goes on behind it. -/
def take (p : Progress) (size : Nat) (data : List UInt8) (fault : Option BlockFault)
    (after : Head) : Progress where
  found := (p.found.addFault? fault).addBlock ⟨data⟩
  expected := p.expected.next
  previous := some ⟨data⟩
  output := p.output + size
  input := after.offset

/-- A block of another type is passed over. -/
def skip (p : Progress) (fault : BlockFault) (after : Head) : Progress :=
  { p with found := p.found.addFault fault, input := after.offset }

/-- One step, while there is one: the next block is taken, or passed over if it has another type. -/
def next? (pulses : List Pulse) (p : Progress) : Option Progress :=
  match p.size? with
  | none => none
  | some size =>
      if sideSize < p.output + size then none
      else
        match readNext (.ofOffset pulses p.input) p.output size p.expected.code with
        | .noGap _ | .impossible _ => none
        | .otherType fault after => some (p.skip fault after)
        | .read data fault after => some (p.take size data fault after)

/-- Reading comes from one place to another in some steps. -/
def Reaches (pulses : List Pulse) : Progress → Progress → Prop :=
  Relation.ReflTransGen fun p q => p.next? pulses = some q

/-- What is found from a place on. -/
def rest (pulses : List Pulse) (p : Progress) : Except Fault Findings :=
  decodeFrom p.found p.expected p.previous p.output (.ofOffset pulses p.input)

/-- The fault of a block for which there is no room. -/
def noRoom (p : Progress) (size : Nat) : BlockFault :=
  .badSpacing p.output (.noRoom ((p.output + size : Nat) - sideSize))

variable {pulses : List Pulse} {p q : Progress} {size : Nat}

/-! ### One step -/

/-- Without a whole block nothing is read. -/
lemma exists_readNext_noGap (hnone : ∀ pos, ¬ IsWhole pulses p.input size pos) (code : Int) :
    ∃ offset, readNext (.ofOffset pulses p.input) p.output size code = .noGap offset := by
  rcases seekMark?_cases pulses p.input with ⟨hmark, -⟩ | ⟨pos, hgap, -⟩
  · exact ⟨_, by rw [readNext, hmark]⟩
  · refine ⟨_, readNext_of_lt hgap ?_ p.output code⟩
    by_contra hge
    exact hnone pos ⟨hgap, by omega⟩

/-- What a step takes along: the expectation, what is found from there on, and the faults that have
nothing to do with sizes. -/
structure IsStep (pulses : List Pulse) (p q : Progress) : Prop where
  forward : p.input < q.input
  inside : p.input < pulses.length
  expects : Expects q.previous q.expected
  rest_eq : q.rest pulses = p.rest pulses
  faults : ∃ fs, q.found.faults = fs ++ p.found.faults ∧ ∀ f ∈ fs, ¬ f.IsBadSpacing

section

variable (hsize : p.size? = some size) (hroom : p.output + size ≤ sideSize)
include hsize hroom

/-- A block is taken in one step. -/
lemma next?_take {data : List UInt8} {fault : Option BlockFault} {after : Head}
    (hread : readNext (.ofOffset pulses p.input) p.output size p.expected.code
      = .read data fault after) : p.next? pulses = some (p.take size data fault after) := by
  simp only [next?, hsize, hread]
  rw [if_neg (by omega)]

/-- A block of another type is passed over in one step. -/
lemma next?_skip {fault : BlockFault} {after : Head}
    (hread : readNext (.ofOffset pulses p.input) p.output size p.expected.code
      = .otherType fault after) : p.next? pulses = some (p.skip fault after) := by
  simp only [next?, hsize, hread]
  rw [if_neg (by omega)]

variable {inp : Nat} (he : Expects p.previous p.expected) (hinp : p.input < inp)
  (hinside : p.input < pulses.length)
include he hinp hinside

lemma isStep_take {data : List UInt8} {fault : Option BlockFault}
    (hread : readNext (.ofOffset pulses p.input) p.output size p.expected.code
      = .read data fault (.ofOffset pulses inp)) :
    IsStep pulses p (p.take size data fault (.ofOffset pulses inp)) := by
  obtain ⟨r, hblock, rfl, hcode, rfl⟩ := exists_recorded_of_readNext (he.pos_of_sizeOf hsize) hread
  obtain rfl : r.block.data = data := congrArg Block.data hblock
  have htype : r.block.type? = some p.expected := by
    rw [Block.type?, hcode, BlockType.ofCode?_code]
  refine ⟨hinp, hinside, .behind htype (sixteen_le_of_sizeOf hsize), ?_, ?_⟩
  · exact (decodeFrom_read hsize hroom hread).symm
  · refine ⟨(r.fault? p.output).toList, ?_, ?_⟩
    · simp only [take, Findings.addBlock]
      cases r.fault? p.output <;> rfl
    · intro f hf
      rw [Recorded.fault?] at hf
      split at hf
      · cases hf
      · obtain rfl := List.mem_singleton.mp hf
        exact id

lemma isStep_skip {fault : BlockFault}
    (hread : readNext (.ofOffset pulses p.input) p.output size p.expected.code
      = .otherType fault (.ofOffset pulses inp)) :
    IsStep pulses p (p.skip fault (.ofOffset pulses inp)) := by
  obtain ⟨_, _, _, rfl⟩ := exists_of_readNext_otherType (he.pos_of_sizeOf hsize) hread
  refine ⟨hinp, hinside, he, (decodeFrom_otherType hsize hroom hread).symm, [_], rfl, ?_⟩
  intro f hf
  obtain rfl := List.mem_singleton.mp hf
  exact id

end

/-- **What one step does**, or why there is none: the block that is expected does not fit, or no
whole block of its size comes behind the cursor. -/
lemma next?_cases (he : Expects p.previous p.expected) :
    ∃ size, p.size? = some size
      ∧ ((sideSize < p.output + size ∧ p.next? pulses = none
          ∧ p.rest pulses = .ok (p.found.addFault (p.noRoom size)))
        ∨ (p.output + size ≤ sideSize ∧ p.next? pulses = none ∧ p.rest pulses = .ok p.found
          ∧ ∀ pos, ¬ IsWhole pulses p.input size pos)
        ∨ (p.output + size ≤ sideSize ∧ ∃ q, p.next? pulses = some q ∧ IsStep pulses p q)) := by
  obtain ⟨size, hsize, -⟩ := he.exists_sizeOf
  have hsize' : p.size? = some size := hsize
  refine ⟨size, hsize, ?_⟩
  by_cases hroom : sideSize < p.output + size
  · refine .inl ⟨hroom, ?_, ?_⟩
    · simp only [next?, hsize']
      rw [if_pos hroom]
    · rw [rest, decodeFrom, hsize]
      simp only
      rw [if_pos hroom]
      rfl
  have hfits : p.output + size ≤ sideSize := by omega
  by_cases hwhole : ∃ pos, IsWhole pulses p.input size pos
  · obtain ⟨pos, hwhole⟩ := hwhole
    obtain ⟨inp, hinp, hread⟩ := hwhole.exists_readNext p.output p.expected.code
    have hle := hwhole.gap.le
    have hinside : p.input < pulses.length := by
      have hlen := hwhole.gap.gap.length_le
      simp only [gapEnd, List.length_append, List.length_singleton, List.length_drop] at hlen
      omega
    refine .inr (.inr ⟨hfits, ?_⟩)
    split at hread
    · exact ⟨_, next?_take hsize hfits hread, isStep_take hsize hfits he (by omega) hinside hread⟩
    · exact ⟨_, next?_skip hsize hfits hread, isStep_skip hsize hfits he (by omega) hinside hread⟩
  · have hnone := not_exists.mp hwhole
    obtain ⟨offset, hread⟩ := exists_readNext_noGap hnone p.expected.code
    refine .inr (.inl ⟨hfits, ?_, ?_, hnone⟩)
    · simp only [next?, hsize', hread]
      rw [if_neg hroom]
    · exact decodeFrom_noGap hsize hfits hread

/-! ### Runs -/

/-- What holds wherever reading has come: what is expected is known, all that is found is found from
there on, and up to there nothing was told of sizes and places. -/
structure IsValid (pulses : List Pulse) (p : Progress) : Prop where
  expects : Expects p.previous p.expected
  rest_eq : p.rest pulses = (first pulses).rest pulses
  spacing : ∀ f ∈ p.found.faults, ¬ f.IsBadSpacing

lemma isValid_first (pulses : List Pulse) : IsValid pulses (first pulses) where
  expects := .first
  rest_eq := rfl
  spacing := by
    intro f hf
    cases hf

/-- A step goes forward. -/
lemma isStep_of_next? (he : Expects p.previous p.expected) (h : p.next? pulses = some q) :
    IsStep pulses p q := by
  obtain ⟨size, -, ⟨-, hnone, -⟩ | ⟨-, hnone, -⟩ | ⟨-, q', hq', hstep⟩⟩ := next?_cases he
  · cases hnone.symm.trans h
  · cases hnone.symm.trans h
  · obtain rfl := Option.some.inj (hq'.symm.trans h)
    exact hstep

lemma IsValid.next (hp : IsValid pulses p) (h : p.next? pulses = some q) : IsValid pulses q := by
  have hstep := isStep_of_next? hp.expects h
  obtain ⟨fs, hfaults, hfs⟩ := hstep.faults
  refine ⟨hstep.expects, hstep.rest_eq.trans hp.rest_eq, ?_⟩
  rw [hfaults]
  exact List.forall_mem_append.mpr ⟨hfs, hp.spacing⟩

/-- **What a run preserves**, step by step. -/
lemma IsValid.reaches (hp : IsValid pulses p) (h : Reaches pulses p q) : IsValid pulses q := by
  induction h with
  | refl => exact hp
  | tail _ hstep ih => exact ih.next hstep

/-- Every run comes to an end, as each step leaves less of the capture. -/
lemma exists_last (hp : IsValid pulses p) :
    ∃ last, Reaches pulses p last ∧ last.next? pulses = none := by
  generalize hleft : pulses.length - p.input = left
  induction left using Nat.strong_induction_on generalizing p with
  | _ left ih =>
    cases hnext : p.next? pulses with
    | none => exact ⟨p, .refl, hnext⟩
    | some q =>
        have hstep := isStep_of_next? hp.expects hnext
        have hforward := hstep.forward
        have hinside := hstep.inside
        obtain ⟨last, hreach, hlast⟩ := ih _ (by omega) (hp.next hnext) rfl
        exact ⟨last, .head hnext hreach, hlast⟩

/-- There is one run: it comes to its end from wherever it has come. -/
lemma reaches_last {last : Progress} (hlast : last.next? pulses = none)
    (h : Reaches pulses p last) (hq : Reaches pulses p q) : Reaches pulses q last := by
  have hunique : Relator.RightUnique fun p q : Progress => p.next? pulses = some q :=
    fun _ _ _ h h' => Option.some.inj (h.symm.trans h')
  rcases Relation.ReflTransGen.total_of_right_unique hunique h hq with hback | hon
  · rcases Relation.ReflTransGen.cases_head hback with rfl | ⟨r, hstep, -⟩
    · exact .refl
    · cases hlast.symm.trans hstep
  · exact hon

/-- What is found by a run that is over. -/
lemma exists_decodeKnown_last {last : Progress} (hreach : Reaches pulses (first pulses) last)
    (hlast : last.next? pulses = none) :
    ∃ side size, decodeKnown pulses = .ok side ∧ last.size? = some size
      ∧ side.blocks = last.found.toSide.blocks
      ∧ ((sideSize < last.output + size
          ∧ side.diagnostics = last.found.toSide.diagnostics ++ [last.noRoom size])
        ∨ (last.output + size ≤ sideSize ∧ side.diagnostics = last.found.toSide.diagnostics
          ∧ ∀ pos, ¬ IsWhole pulses last.input size pos)) := by
  have hvalid := (isValid_first pulses).reaches hreach
  have hdecode : ∀ found, last.rest pulses = .ok found →
      decodeKnown pulses = .ok found.toSide := by
    intro found hrest
    rw [hvalid.rest_eq] at hrest
    exact congrArg (· >>= fun found => Except.ok (ε := Fault) found.toSide) hrest
  obtain ⟨size, hsize, ⟨hfull, -, hrest⟩ | ⟨hfits, -, hrest, hnone⟩ | ⟨-, q, hnext, -⟩⟩ :=
    next?_cases hvalid.expects
  · refine ⟨_, size, hdecode _ hrest, hsize, rfl, .inl ⟨hfull, ?_⟩⟩
    simp [Findings.toSide, Findings.addFault]
  · exact ⟨_, size, hdecode _ hrest, hsize, rfl, .inr ⟨hfits, rfl, hnone⟩⟩
  · cases hlast.symm.trans hnext

/-! ### Runs over a surface -/

/-- A run over blocks in order goes behind the last one, and no gap ends there. -/
lemma exists_reaches_readable {h : Head} {rs : List Recorded} (hread : Readable h rs)
    (hh : h = .ofOffset pulses p.input)
    (horder : InOrder p.expected p.previous (rs.map Recorded.block))
    (hroom : p.output + dataSize rs ≤ sideSize) :
    ∃ last, Reaches pulses p last ∧ last.output = p.output + dataSize rs
      ∧ last.expected = BlockType.next^[rs.length] p.expected
      ∧ last.previous = (rs.map Recorded.block).getLast?.or p.previous
      ∧ ∀ pos, last.input ≤ pos → ¬ gapEnd <+: pulses.drop pos := by
  induction hread generalizing p with
  | done no_mark =>
      subst hh
      rcases seekMark?_cases pulses p.input with ⟨-, hnone⟩ | ⟨pos, -, hmark⟩
      · exact ⟨p, .refl, rfl, rfl, rfl, hnone⟩
      · cases no_mark.symm.trans hmark
  | @block h offset ps r rs mark bits rest ih =>
      subst hh
      obtain ⟨htype, hsize, horder'⟩ := horder
      have hsum : dataSize (r :: rs) = r.block.data.length + dataSize rs := rfl
      obtain ⟨m, hm, hread⟩ := readNext_recorded p.output mark bits htype
      have hafter : (⟨offset + m, ps.drop m⟩ : Head) = .ofOffset pulses (offset + m) := by
        rcases seekMark?_cases pulses p.input with ⟨hnone, -⟩ | ⟨pos, -, hmark⟩
        · cases mark.symm.trans hnone
        · cases mark.symm.trans hmark
          rw [Head.ofOffset, List.drop_drop]
      obtain ⟨last, hreach, houtput, hexpected, hprevious, hnone⟩ :=
        @ih m hm (p.take r.block.data.length r.block.data (r.fault? p.output)
          ⟨offset + m, ps.drop m⟩) hafter horder' (by simp only [take]; omega)
      refine ⟨last, .head (next?_take hsize (by omega) hread) hreach, ?_, hexpected, ?_, hnone⟩
      · rw [houtput, hsum, take]
        exact Nat.add_assoc ..
      · rw [hprevious, take, List.map_cons, List.getLast?_cons]
        cases (rs.map Recorded.block).getLast? <;> rfl

/-- A run over the capture of blocks in order goes behind the last one, and no gap ends there. -/
lemma exists_reaches_layoutOf {rs : List Recorded} {leadIn : Nat}
    (htitle : HasTitle (rs.map Recorded.block))
    (horder : InOrder .diskHeader none (rs.map Recorded.block)) (hroom : dataSize rs ≤ sideSize)
    (hlead : 761 ≤ leadIn)
    (hpulses : Mfm.modulate (List.replicate leadIn false ++ Bits.ofBytes (layoutOf rs)) = pulses) :
    ∃ last, Reaches pulses (first pulses) last ∧ last.output = dataSize rs
      ∧ last.expected = BlockType.next^[rs.length] .diskHeader
      ∧ last.previous = (rs.map Recorded.block).getLast?
      ∧ ∀ pos, last.input ≤ pos → ¬ gapEnd <+: pulses.drop pos := by
  obtain ⟨r, rs', rfl, -⟩ := htitle.exists_cons
  have hlast : ∀ s ∈ (r :: rs').getLast?, NoMarkBehind [] s :=
    @noMarkBehind_of_gapEnd leadIn _ _ fun i hi => not_gapEnd_behind (by simp) hi
  have hcapture : pulses
      = List.replicate (leadIn + 7) .short ++ .medium :: (surface (r :: rs') ++ []) := by
    rw [← hpulses, modulate_layoutOf, List.append_nil]
  have hgap : minGap ≤ leadIn + 7 := by
    rw [minGap]
    omega
  have hread : Readable (.ofOffset pulses (first pulses).input) (r :: rs') := by
    have hsignature := headerSignature_prefix_surface htitle
    rw [← List.append_nil (surface _)] at hsignature
    have hmark := seekMark?_start hsignature hgap
    rw [← hcapture] at hmark
    exact readable_surface (by simp) hmark hlast
  obtain ⟨last, hreach, houtput, hexpected, hprevious, hnone⟩ :=
    exists_reaches_readable hread rfl horder (by rw [first, Nat.zero_add]; exact hroom)
  refine ⟨last, hreach, ?_, hexpected, ?_, hnone⟩
  · rw [houtput, first, Nat.zero_add]
  · rw [hprevious, first, Option.or_none]

end Progress

open Progress

/-- **How the reading of any capture ends.** There is one run, step by step from the first place to a
last one. If the block that is expected there does not fit, then there is no room for it: that is
told, with nothing else of its kind, whether or not anything comes behind the cursor. If it fits, no
whole block comes behind the cursor, and nothing is told. -/
theorem decodeKnown_ending (pulses : List Pulse) :
    ∃ (side : Side) (last : Progress) (size : Nat), decodeKnown pulses = .ok side
      ∧ (Reaches pulses (first pulses) last ∧ last.next? pulses = none
        ∧ ∀ p, Reaches pulses (first pulses) p → Reaches pulses p last)
      ∧ last.size? = some size
      ∧ side.blocks = last.found.toSide.blocks
      ∧ ((∃ f ∈ side.diagnostics, f.IsBadSpacing) ↔ sideSize < last.output + size)
      ∧ (sideSize < last.output + size →
        side.diagnostics = last.found.toSide.diagnostics ++ [last.noRoom size])
      ∧ (last.output + size ≤ sideSize → side.diagnostics = last.found.toSide.diagnostics
        ∧ ∀ pos, ¬ IsWhole pulses last.input size pos) := by
  obtain ⟨last, hreach, hlast⟩ := exists_last (isValid_first pulses)
  obtain ⟨side, size, hdecode, hsize, hblocks, hend⟩ := exists_decodeKnown_last hreach hlast
  have hspacing : ∀ f ∈ last.found.toSide.diagnostics, ¬ f.IsBadSpacing := fun f hf =>
    ((isValid_first pulses).reaches hreach).spacing f (List.mem_reverse.mp hf)
  refine ⟨side, last, size, hdecode, ⟨hreach, hlast, fun p => reaches_last hlast hreach⟩, hsize,
    hblocks, ?_⟩
  rcases hend with ⟨hfull, hfaults⟩ | ⟨hfits, hfaults, hnone⟩
  · refine ⟨⟨fun _ => hfull, fun _ => ?_⟩, fun _ => hfaults, fun hfits => by omega⟩
    rw [hfaults]
    exact ⟨_, List.mem_append_right _ (List.mem_singleton_self _), trivial⟩
  · refine ⟨⟨?_, fun hfull => by omega⟩, fun hfull => by omega, fun _ => ⟨hfaults, hnone⟩⟩
    rintro ⟨f, hf, hbad⟩
    rw [hfaults] at hf
    exact absurd hbad (hspacing f hf)

/-- A file header without a name. It declares the longest file of all. -/
def longestHeader : Block := ⟨3 :: List.replicate 12 0 ++ [0xff, 0xff, 0]⟩

/-- No room is told of though nothing comes: a capture ends behind the header of a file that would
not fit. -/
theorem not_forall_gap_behind : ¬ ∀ (pulses : List Pulse) (side : Side) (last : Progress),
    decodeKnown pulses = .ok side → Reaches pulses (first pulses) last →
    last.next? pulses = none → (∃ f ∈ side.diagnostics, f.IsBadSpacing) →
    ∃ pos, last.input ≤ pos ∧ gapEnd <+: pulses.drop pos := by
  intro h
  obtain ⟨last, hreach, houtput, hexpected, hprevious, hnone⟩ :=
    @exists_reaches_layoutOf _ ([emptyHeader, ⟨[2, 1]⟩, longestHeader].map .ofBlock) 761
      ⟨emptyHeader, rfl, List.prefix_append _ _⟩ ⟨rfl, rfl, rfl, rfl, rfl, rfl, trivial⟩
      (by decide) (Nat.le_refl _) rfl
  have hsize : last.size? = some 65536 := by
    rw [size?, hexpected, hprevious]
    rfl
  have hfull : sideSize < last.output + 65536 := by
    rw [houtput]
    decide
  have hlast : ∀ pulses, last.next? pulses = none := by
    intro pulses
    rw [next?, hsize]
    exact if_pos hfull
  obtain ⟨side, size, hdecode, hsize', -, ⟨-, hfaults⟩ | ⟨hfits, -⟩⟩ :=
    exists_decodeKnown_last hreach (hlast _)
  · obtain ⟨pos, hle, hgap⟩ := h _ side last hdecode hreach (hlast _) ⟨last.noRoom size, by
      rw [hfaults]
      exact List.mem_append_right _ (List.mem_singleton_self _), trivial⟩
    exact hnone pos hle hgap
  · obtain rfl : 65536 = size := Option.some.inj (hsize.symm.trans hsize')
    omega

end Capture

end FamicomDisk
