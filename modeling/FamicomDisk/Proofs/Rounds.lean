import FamicomDisk.Proofs.Sequencing
import FamicomDisk.Proofs.Stops
import FamicomDisk.Recovery.Assembly

/-!
The rounds of the search for ends.

Each round scans one block. It ends the search, or leads to the next mark: the scan has come to it,
or it is looked for behind the end of the block. Whatever the thresholds are, as long as the
smallest gap is a length, a scan that finds an end finds it behind its own mark, and no mark that a
round leads to lies before that end. So every round begins behind the one before it, the search
comes to an end by itself, and the ends that it adds are in order.

* `ScanResult.IsWithin`, `isWithin_scanFrom`: where a scan may find an end and the next mark.
* `Rounds`: the offsets at which the rounds of a search begin, and the ends that they find.
* `exists_rounds`, `blockEndsFrom_of_rounds`: a search has rounds, and it finds their ends if it is
  granted as many.
* `Rounds.isOrdered`: **every round moves on**, by induction over the rounds.
* `exists_rounds_addBlockEnds`: **the ends that are added to marks**.
-/

namespace FamicomDisk

namespace Recovery

/-! ### Where a scan finds an end -/

/-- The latest zeros of a scan begin between two offsets. -/
def Scan.IsBetween (first last : Int) (s : Scan) : Prop :=
  first ≤ s.zerosStart ∧ s.zerosStart ≤ last

/-- An end that was found lies between two offsets, and the next mark not before it. -/
def ScanResult.IsWithin (first last : Int) (r : ScanResult) : Prop :=
  ∀ stop, r.stop = some stop →
    first ≤ stop ∧ stop ≤ last ∧ ∀ next, r.resume = some next → stop ≤ next

/-- The scan of a pulse ends behind it at the latest, or it goes on, and its latest zeros begin with
the pulse at the latest. -/
def IsScanned (first offset : Int) : Except ScanResult Scan → Prop
  | .error r => r.IsWithin first (offset + 1)
  | .ok s => s.IsBetween first offset

section

variable {first offset : Int} {s : Scan}

lemma ScanResult.IsWithin.mono {stop stop' : Int} {r : ScanResult} (h : r.IsWithin first stop)
    (hle : stop ≤ stop') : r.IsWithin first stop' := by
  intro n hn
  obtain ⟨hfirst, hlast, hnext⟩ := h n hn
  exact ⟨hfirst, Int.le_trans hlast hle, hnext⟩

lemma Scan.IsBetween.countZeros (h : s.IsBetween first offset) (b : Bool) :
    (s.countZeros offset b).IsBetween first offset := by
  obtain ⟨hfirst, hlast⟩ := h
  cases b with
  | true => exact ⟨hfirst, hlast⟩
  | false =>
      rw [Scan.countZeros, if_neg Bool.false_ne_true, IsBetween]
      dsimp only
      split <;> omega

/-- A block ends where its latest zeros begin, and the bit that is read is the next mark; or it ends
behind the pulse of the bit. -/
lemma isScanned_scanBit (th : Thresholds) (previous : Option Block) (last : Bool)
    (ahead : List Pulse) (b : Bool) (pending : List Bool) (h : s.IsBetween first offset) :
    IsScanned first offset (scanBit th previous offset last ahead b pending s) := by
  have hcount := h.countZeros b
  obtain ⟨hfirst, hlast⟩ := h
  simp only [scanBit]
  split
  · intro stop hstop
    obtain rfl := Option.some.inj hstop
    refine ⟨hfirst, by omega, fun next hnext => ?_⟩
    obtain rfl := Option.some.inj hnext
    exact hlast
  · split
    · exact hcount
    · split
      · intro stop hstop
        obtain rfl := Option.some.inj hstop
        exact ⟨by omega, Int.le_refl _, fun next hnext => by cases hnext⟩
      · exact hcount

lemma isScanned_scanPulse (th : Thresholds) (previous : Option Block) (last : Bool)
    (ahead : List Pulse) (bits : List Bool) (h : s.IsBetween first offset) :
    IsScanned first offset (scanPulse th previous offset last ahead bits s) := by
  induction bits generalizing s with
  | nil => exact h
  | cons b pending ih =>
      have hbit := isScanned_scanBit th previous last ahead b pending h
      rw [scanPulse]
      cases hb : scanBit th previous offset last ahead b pending s with
      | error r =>
          rw [hb] at hbit
          exact hbit
      | ok s' =>
          rw [hb] at hbit
          exact ih hbit

/-- **Where a scan finds an end**: not before the place where it began, and not behind the
capture. -/
lemma isWithin_scanFrom (th : Thresholds) (previous : Option Block) (last : Bool)
    (pulses : List Pulse) (h : s.IsBetween first offset) :
    (scanFrom th previous offset last s pulses).IsWithin first (offset + pulses.length) := by
  induction pulses generalizing offset last s with
  | nil =>
      intro stop hstop
      cases hstop
  | cons p ahead ih =>
      have hlen : offset + 1 + (ahead.length : Int) = offset + (p :: ahead).length := by
        rw [List.length_cons]
        omega
      have hpulse := isScanned_scanPulse th previous (Mfm.decode last p).2 ahead
        (Mfm.decode last p).1 h
      rw [scanFrom_cons]
      cases hp : scanPulse th previous offset (Mfm.decode last p).2 ahead
        (Mfm.decode last p).1 s with
      | error r =>
          rw [hp] at hpulse
          exact hpulse.mono (by omega)
      | ok s' =>
          rw [hp] at hpulse
          obtain ⟨hfirst, hlast⟩ := hpulse
          rw [← hlen]
          exact ih _ ⟨hfirst, by omega⟩

/-- The scan of a block finds an end behind its mark and within the capture, if it finds one. -/
lemma exists_scanBlock (pulses : List Pulse) (th : Thresholds) (previous : Option Block)
    (hoffset : 0 ≤ offset) :
    ∃ r, scanBlock pulses offset th previous = .ok r
      ∧ r.IsWithin (offset + 1) pulses.length := by
  have hread : readFrom pulses (offset + 1) = .ok (pulses.drop (offset + 1).toNat) := by
    rw [readFrom, if_pos (by omega)]
    rfl
  have hbegin : Scan.IsBetween (offset + 1) (offset + 1) { zerosStart := offset + 1 } :=
    ⟨Int.le_refl _, Int.le_refl _⟩
  have hwithin := isWithin_scanFrom th previous true (pulses.drop (offset + 1).toNat) hbegin
  refine ⟨_, by rw [scanBlock, hread]; rfl, ?_⟩
  cases hrest : pulses.drop (offset + 1).toNat with
  | nil =>
      intro stop hstop
      cases hstop
  | cons p ahead =>
      have hlen := congrArg List.length hrest
      rw [List.length_drop, List.length_cons] at hlen
      rw [hrest] at hwithin
      refine hwithin.mono ?_
      rw [List.length_cons]
      omega

lemma isWithin_scanBlock {pulses : List Pulse} {th : Thresholds} {previous : Option Block}
    {r : ScanResult} (hoffset : 0 ≤ offset) (hscan : scanBlock pulses offset th previous = .ok r) :
    r.IsWithin (offset + 1) pulses.length := by
  obtain ⟨r', hscan', hwithin⟩ := exists_scanBlock pulses th previous hoffset
  rwa [Except.ok.inj (hscan.symm.trans hscan')]

end

/-! ### Rounds -/

/-- The offset of the mark that a round leads to, when it has found an end: the one that the scan
has come to, or else the next one behind the end. -/
def ScanResult.next? (pulses : List Pulse) (th : Thresholds) (r : ScanResult) (stop : Int) :
    Except Fault (Option Int) :=
  match r.resume with
  | some next => pure (some next)
  | none => nextGapEnd? th (placeAt pulses stop)

/-- The rounds of a search from the mark at an offset on: the offsets at which they begin, and the
ends that they find. -/
inductive Rounds (pulses : List Pulse) (th : Thresholds) :
    Int → Option Block → List Int → List Int → Prop where
  /-- A block without an end is the last one. -/
  | open_end {offset : Int} {previous : Option Block} {r : ScanResult}
      (scanned : scanBlock pulses offset th previous = .ok r) (ended : r.stop = none) :
      Rounds pulses th offset previous [offset] []
  /-- A block is the last one if no mark follows its end. -/
  | last {offset stop : Int} {previous : Option Block} {r : ScanResult}
      (scanned : scanBlock pulses offset th previous = .ok r) (ended : r.stop = some stop)
      (follows : r.next? pulses th stop = .ok none) :
      Rounds pulses th offset previous [offset] [stop]
  /-- A block that has an end is followed by that at the next mark. -/
  | next {offset stop next : Int} {previous : Option Block} {r : ScanResult}
      {offsets stops : List Int}
      (scanned : scanBlock pulses offset th previous = .ok r) (ended : r.stop = some stop)
      (follows : r.next? pulses th stop = .ok (some next))
      (rest : Rounds pulses th next (r.block? previous) offsets stops) :
      Rounds pulses th offset previous (offset :: offsets) (stop :: stops)

/-- One round of the search. -/
lemma blockEndsFrom_succ (pulses : List Pulse) (th : Thresholds) (rounds : Nat) (found : List Int)
    (offset : Int) (previous : Option Block) :
    blockEndsFrom pulses th (rounds + 1) found offset previous = (do
      let r ← scanBlock pulses offset th previous
      match r.stop with
      | none => pure found
      | some stop =>
          match ← r.next? pulses th stop with
          | some next =>
              blockEndsFrom pulses th rounds (stop :: found) next (r.block? previous)
          | none => pure (stop :: found)) := by
  rw [blockEndsFrom]
  cases scanBlock pulses offset th previous with
  | error e => rfl
  | ok r =>
      rw [ok_bind, ok_bind]
      cases hstop : r.stop with
      | none => rfl
      | some stop =>
          cases hresume : r.resume with
          | some next => simp only [ScanResult.next?, hresume, pure_bind]; rfl
          | none => simp only [ScanResult.next?, hresume]; rfl

/-- **A search finds the ends of its rounds** if it is granted as many. -/
lemma blockEndsFrom_of_rounds {pulses : List Pulse} {th : Thresholds} {offset : Int}
    {previous : Option Block} {offsets stops : List Int} {rounds : Nat}
    (h : Rounds pulses th offset previous offsets stops) (hrounds : offsets.length ≤ rounds)
    (found : List Int) :
    blockEndsFrom pulses th rounds found offset previous = .ok (stops.reverse ++ found) := by
  induction h generalizing rounds found with
  | open_end hscan hstop =>
      obtain ⟨rounds, rfl⟩ := Nat.exists_eq_add_of_lt hrounds
      rw [blockEndsFrom_succ, hscan, ok_bind, hstop]
      rfl
  | last hscan hstop hnext =>
      obtain ⟨rounds, rfl⟩ := Nat.exists_eq_add_of_lt hrounds
      rw [blockEndsFrom_succ, hscan, ok_bind, hstop]
      dsimp only
      rw [hnext]
      rfl
  | next hscan hstop hnext _ ih =>
      obtain ⟨rounds, rfl⟩ := Nat.exists_eq_add_of_lt hrounds
      rw [blockEndsFrom_succ, hscan, ok_bind, hstop]
      dsimp only
      rw [hnext, ok_bind]
      dsimp only
      rw [ih (by omega), List.reverse_cons, List.append_assoc]
      rfl

section

variable {pulses : List Pulse} {th : Thresholds} {offset : Int} {previous : Option Block}
  {offsets stops : List Int}

/-- A round that has found an end leads to no mark, or to one that is not before the end. -/
lemma exists_next? (hgap : 0 ≤ th.minGap) (hsmall : th.minGap < 0x80000000) {r : ScanResult}
    {first stop : Int} (hfirst : 0 ≤ first) (hr : r.IsWithin first pulses.length)
    (hstop : r.stop = some stop) :
    ∃ next?, r.next? pulses th stop = .ok next? ∧ ∀ next ∈ next?, stop ≤ next := by
  obtain ⟨hle, -, hresume⟩ := hr stop hstop
  rw [ScanResult.next?]
  cases hr : r.resume with
  | some next => exact ⟨some next, rfl, fun n hn => hresume n (hr.trans hn)⟩
  | none =>
      have hrange : inRange th.minGap = true := by
        rw [inRange, decide_eq_true_eq, Mfm.maxLength]
        omega
      refine ⟨_, by rw [nextGapEnd?, hrange]; rfl, ?_⟩
      intro next hnext
      obtain ⟨mark, hmark, rfl⟩ := Option.map_eq_some_iff.mp hnext
      have hlt := Capture.Head.lt_offset_of_seek hmark
      have hplace : (placeAt pulses stop).offset = stop.toNat := by
        rw [placeAt, if_pos (by omega)]
        rfl
      omega

/-- A search has rounds, because every round begins behind the one before it. -/
lemma exists_rounds (hgap : 0 ≤ th.minGap) (hsmall : th.minGap < 0x80000000) (hoffset : 0 ≤ offset)
    (previous : Option Block) :
    ∃ offsets stops, Rounds pulses th offset previous offsets stops := by
  -- on the pulses behind the mark: a round leads to no mark before its end, which is behind its own
  induction hleft : (pulses.length - offset).toNat using Nat.strongRecOn
    generalizing offset previous with
  | ind left ih =>
      obtain ⟨r, hscan, hwithin⟩ := exists_scanBlock pulses th previous hoffset
      cases hstop : r.stop with
      | none => exact ⟨[offset], [], .open_end hscan hstop⟩
      | some stop =>
          obtain ⟨hlt, hle, -⟩ := hwithin stop hstop
          obtain ⟨next?, hnext, hbehind⟩ := exists_next? hgap hsmall (by omega) hwithin hstop
          cases next? with
          | none => exact ⟨[offset], [stop], .last hscan hstop hnext⟩
          | some next =>
              have hmoved := hbehind next rfl
              obtain ⟨offsets, stops, hrest⟩ := ih (pulses.length - next).toNat (by omega)
                (show 0 ≤ next by omega) (r.block? previous) rfl
              exact ⟨offset :: offsets, stop :: stops, .next hscan hstop hnext hrest⟩

/-- Rounds begin one behind the other, each but the last one finds an end behind the place where it
begins, and all ends are in order and within the capture. -/
structure IsOrdered (length : Nat) (offset : Int) (offsets stops : List Int) : Prop where
  begins : ∃ rest, offsets = offset :: rest ∧ ∀ n ∈ rest, offset < n
  offsets_increase : offsets.Pairwise (· < ·)
  stops_increase : stops.Pairwise (· < ·)
  within : ∀ stop ∈ stops, offset < stop ∧ stop ≤ length
  rounds_le : offsets.length ≤ stops.length + 1
  stops_le : stops.length ≤ (length - offset).toNat

/-- One round before others, the first of which begins at the end that it finds or behind it. -/
lemma IsOrdered.cons {length : Nat} {stop next : Int} (h : IsOrdered length next offsets stops)
    (hstop : offset < stop) (hlength : stop ≤ length) (hnext : stop ≤ next) :
    IsOrdered length offset (offset :: offsets) (stop :: stops) := by
  obtain ⟨⟨rest, rfl, hrest⟩, hoffsets, hstops, hwithin, hrounds, hfew⟩ := h
  have hlater : ∀ n ∈ next :: rest, offset < n := by
    intro n hn
    rcases List.mem_cons.mp hn with rfl | hn
    · omega
    · have := hrest n hn
      omega
  have hends : ∀ n ∈ stops, stop < n := by
    intro n hn
    have := (hwithin n hn).1
    omega
  refine ⟨⟨_, rfl, hlater⟩, List.pairwise_cons.mpr ⟨hlater, hoffsets⟩,
    List.pairwise_cons.mpr ⟨hends, hstops⟩, ?_, by simpa using hrounds, ?_⟩
  · intro n hn
    rcases List.mem_cons.mp hn with rfl | hn
    · exact ⟨hstop, hlength⟩
    · exact ⟨by have := hends n hn; omega, (hwithin n hn).2⟩
  · rw [List.length_cons]
    omega

/-- **Every round moves on.** -/
lemma Rounds.isOrdered (hgap : 0 ≤ th.minGap) (hsmall : th.minGap < 0x80000000)
    (hoffset : 0 ≤ offset) (h : Rounds pulses th offset previous offsets stops) :
    IsOrdered pulses.length offset offsets stops := by
  induction h with
  | open_end => exact ⟨⟨[], rfl, by simp⟩, by simp, by simp, by simp, by simp, by simp⟩
  | @last offset stop _ r hscan hstop =>
      obtain ⟨hlt, hle, -⟩ := isWithin_scanBlock hoffset hscan stop hstop
      exact ⟨⟨[], rfl, by simp⟩, by simp, by simp, by simpa using ⟨by omega, hle⟩, by simp, by
        rw [List.length_singleton]
        omega⟩
  | @next offset stop next _ r offsets stops hscan hstop hnext _ ih =>
      have hwithin := isWithin_scanBlock hoffset hscan
      obtain ⟨hlt, hle, -⟩ := hwithin stop hstop
      obtain ⟨next?, hnext?, hbehind⟩ := exists_next? hgap hsmall (by omega) hwithin hstop
      have hmoved : stop ≤ next := hbehind next (Except.ok.inj (hnext?.symm.trans hnext))
      exact (ih (by omega)).cons (by omega) hle hmoved

end

/-! ### Marks -/

/-- The recovery begins without marks. It adds the gaps behind glitches, and then the ends of
blocks. -/
lemma reconstruct_eq (pulses : List Pulse) (th : Thresholds) :
    reconstruct pulses th = (do
      let marks ← addGlitchGaps pulses ∅ th
      let start ← findStart pulses th
      let marks ← addBlockEnds pulses start marks th
      let marks ← consolidate pulses marks th
      assemble pulses start marks th) := by
  rw [reconstruct, addGlitchGaps]
  cases glitchGaps pulses th with
  | error e => rfl
  | ok glitches =>
      simp only [ok_bind, pure_bind]
      refine congrArg _ (funext fun start => ?_)
      rw [addBlockEnds]
      cases blockEnds pulses start th with
      | error e => rfl
      | ok ends =>
          simp only [ok_bind, pure_bind, Std.TreeSet.ofList_eq_insertMany_empty,
            Std.TreeSet.insertMany_append]

/-- **The ends that are added to marks** are those of the rounds of a search that ends by itself:
every round begins behind the one before it, the first one at the start, so there is at most one
more than the capture has pulses, and granting the search more than that changes nothing. The marks
are kept, and the ends that are added to them are found in order, behind the start and within the
capture. -/
theorem exists_rounds_addBlockEnds {th : Thresholds} (hgap : 0 ≤ th.minGap)
    (hsmall : th.minGap < 0x80000000) {start : Int} (hstart : 0 ≤ start) (pulses : List Pulse)
    (marks : Marks) :
    ∃ offsets stops : List Int, Rounds pulses th start none offsets stops
      ∧ offsets.head? = some start ∧ offsets.Pairwise (· < ·)
      ∧ offsets.length ≤ pulses.length + 1
      ∧ (∀ rounds, offsets.length ≤ rounds →
          blockEndsFrom pulses th rounds [] start none = .ok stops.reverse)
      ∧ stops.Pairwise (· < ·) ∧ (∀ stop ∈ stops, start < stop ∧ stop ≤ pulses.length)
      ∧ ∃ marked, addBlockEnds pulses start marks th = .ok marked
        ∧ ∀ m, m ∈ marked ↔ m ∈ marks ∨ m ∈ stops := by
  obtain ⟨offsets, stops, hrounds⟩ : ∃ offsets stops, Rounds pulses th start none offsets stops :=
    exists_rounds hgap hsmall hstart none
  obtain ⟨⟨rest, hbegins, -⟩, hoffsets, hstops, hwithin, hfew, hall⟩ :=
    hrounds.isOrdered hgap hsmall hstart
  have hlen : offsets.length ≤ pulses.length + 1 := by omega
  have hfound : ∀ rounds, offsets.length ≤ rounds →
      blockEndsFrom pulses th rounds [] start none = .ok stops.reverse := by
    intro rounds hle
    rw [blockEndsFrom_of_rounds hrounds hle, List.append_nil]
  have hmax : maxRounds pulses th = pulses.length + 1 := if_pos hgap
  have hends : blockEnds pulses start th = .ok stops := by
    rw [blockEnds, hfound _ (by omega), ok_bind, List.reverse_reverse]
    rfl
  refine ⟨offsets, stops, hrounds, by rw [hbegins]; rfl, hoffsets, hlen, hfound, hstops, hwithin,
    marks.insertMany stops, by rw [addBlockEnds, hends]; rfl, fun m => ?_⟩
  rw [Std.TreeSet.mem_insertMany_list, List.contains_iff_mem]

/-- Two blocks of one byte each, the second of which ends with the capture. -/
def twoShortBlocks : List Pulse :=
  let short := List.replicate 8 Pulse.short
  .medium :: short ++ [.medium, .medium] ++ short ++ [.medium, .medium]

/-- With one zero for a gap, two ends are found in this capture, and added to a mark at its
start. -/
theorem exists_rounds_addBlockEnds_twoShortBlocks :
    (0 : Int) ≤ ({ minGap := 1 } : Thresholds).minGap
      ∧ ({ minGap := 1 } : Thresholds).minGap < 0x80000000
      ∧ ∃ marked, addBlockEnds twoShortBlocks 0 (.ofList [(0 : Int)]) { minGap := 1 } = .ok marked
        ∧ ∀ m, m ∈ marked ↔ m = 0 ∨ m = 9 ∨ m = 19 := by
  have hgap : (0 : Int) ≤ ({ minGap := 1 } : Thresholds).minGap := by decide
  have hsmall : ({ minGap := 1 } : Thresholds).minGap < 0x80000000 := by decide
  refine ⟨hgap, hsmall, ?_⟩
  obtain ⟨offsets, stops, -, -, -, hlen, hfound, -, -, marked, hmarked, hall⟩ :=
    exists_rounds_addBlockEnds hgap hsmall (Int.le_refl 0) twoShortBlocks (.ofList [(0 : Int)])
  have hstops : stops.reverse = [19, 9] := Except.ok.inj ((hfound _ hlen).symm.trans rfl)
  refine ⟨marked, hmarked, fun m => ?_⟩
  rw [hall, List.reverse_eq_iff.mp hstops, Std.TreeSet.mem_ofList, List.contains_iff_mem]
  simp

end Recovery

end FamicomDisk
