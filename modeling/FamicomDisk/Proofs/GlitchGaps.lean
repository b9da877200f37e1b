import FamicomDisk.Proofs.Marking
import Mathlib.Order.Bounds.Defs
import Mathlib.Tactic.Tauto

/-!
The gaps behind glitches, told by the pulses.

The search behind a glitch goes through the pulses once and counts short ones. What it finds is the
first place within the window from which on there are enough of them, however far the window and the
capture go, and whatever other glitches there are. The pulse before that place is not a short one,
or the run would begin earlier.

* `runStarts`, `firstRun?_eq_some_iff`: where runs of short pulses begin, and that the search finds
  the first of them, by induction over the pulses.
* `gapPlaces`, `gapBehind?_eq_some_iff`: where the gap behind a glitch may begin.
* `glitchGapsFrom_cases`: the gaps behind all glitches, by induction over the pulses.
* `addGlitchGaps_cases`: **the marks that are added are the first places behind glitches.**
-/

namespace FamicomDisk

namespace Recovery

/-! ### Runs of short pulses -/

/-- The places at which a run of `least` short pulses begins, not later than at `limit`. -/
def runStarts (least : Nat) (limit : Int) (pulses : List Pulse) : Set Nat :=
  {j | (j : Int) ≤ limit ∧ ∀ k < least, pulses[j + k]? = some .short}

/-- The least of places that are counted from further back. -/
lemma isLeast_moved {places moved : Set Nat} {c z : Nat}
    (h : ∀ z, z ∈ moved ↔ ∃ j, z = c + j ∧ j ∈ places) :
    IsLeast moved z ↔ ∃ j, z = c + j ∧ IsLeast places j := by
  constructor
  · rintro ⟨hz, hleast⟩
    obtain ⟨j, rfl, hj⟩ := (h z).mp hz
    refine ⟨j, rfl, hj, fun i hi => ?_⟩
    have hle := hleast ((h _).mpr ⟨i, rfl, hi⟩)
    omega
  · rintro ⟨j, rfl, hj, hleast⟩
    refine ⟨(h _).mpr ⟨j, rfl, hj⟩, fun y hy => ?_⟩
    obtain ⟨i, rfl, hi⟩ := (h y).mp hy
    have hle := hleast hi
    omega

section

variable {least run : Nat} {limit : Int} {p : Pulse} {ps : List Pulse}

/-- A run that is too short does not begin before a pulse that is not short. -/
lemma lt_of_mem_runStarts (hrun : run < least) (hp : ps.head? ≠ some .short) {j : Nat}
    (hj : j ∈ runStarts least limit (List.replicate run .short ++ ps)) : run < j := by
  by_contra hle
  have hshort := hj.2 (run - j) (by omega)
  rw [show j + (run - j) = run by omega, List.getElem?_append_right (by simp),
    List.length_replicate, Nat.sub_self, ← List.head?_eq_getElem?] at hshort
  exact hp hshort

/-- Behind a pulse that is not short, runs begin anew. -/
lemma mem_runStarts_behind (hrun : run < least) (hp : p ≠ .short) (j : Nat) :
    j ∈ runStarts least limit (List.replicate run .short ++ p :: ps)
      ↔ ∃ i, j = run + 1 + i ∧ i ∈ runStarts least (limit - run - 1) ps := by
  have hget : ∀ i k,
      (List.replicate run Pulse.short ++ p :: ps)[run + 1 + i + k]? = ps[i + k]? := by
    intro i k
    rw [List.getElem?_append_right (by rw [List.length_replicate]; omega), List.length_replicate,
      show run + 1 + i + k - run = i + k + 1 by omega, List.getElem?_cons_succ]
  constructor
  · intro hj
    have hlt := lt_of_mem_runStarts hrun (by simpa using hp) hj
    refine ⟨j - (run + 1), by omega, ?_, fun k hk => ?_⟩
    · have hle := hj.1
      omega
    · rw [← hget, show run + 1 + (j - (run + 1)) + k = j + k by omega]
      exact hj.2 k hk
  · rintro ⟨i, rfl, hle, hshort⟩
    refine ⟨by omega, fun k hk => ?_⟩
    rw [hget]
    exact hshort k hk

/-- **The search finds the first run.** The last `run` pulses before `offset` were short. -/
lemma firstRun?_eq_some_iff {least run offset z : Nat} {limit : Int} {ps : List Pulse}
    (hoffset : run ≤ offset) (hrun : run ≤ least) :
    firstRun? least run offset limit ps = some z
      ↔ ∃ j, z = offset - run + j
        ∧ IsLeast (runStarts least limit (List.replicate run .short ++ ps)) j := by
  fun_induction firstRun? least run offset limit ps with
  | case1 run offset limit ps hlimit =>
      -- the window is at its end
      refine iff_of_false nofun ?_
      rintro ⟨j, -, ⟨hle, -⟩, -⟩
      omega
  | case2 ps offset limit hlimit =>
      have hzero : IsLeast (runStarts least limit (List.replicate least .short ++ ps)) 0 := by
        refine ⟨⟨by omega, fun k hk => ?_⟩, fun j _ => Nat.zero_le j⟩
        rw [Nat.zero_add, List.getElem?_append_left (by simpa using hk),
          List.getElem?_replicate_of_lt hk]
      rw [Option.some.injEq]
      constructor
      · rintro rfl
        exact ⟨0, rfl, hzero⟩
      · rintro ⟨j, rfl, hj⟩
        obtain rfl := Nat.le_zero.mp (hj.2 hzero.1)
        rfl
  | case3 run offset limit hlimit hne =>
      refine iff_of_false nofun ?_
      rintro ⟨j, -, hj, -⟩
      have hlt := lt_of_mem_runStarts (by omega) (by simp) hj
      have hshort := hj.2 0 (by omega)
      rw [List.append_nil, List.getElem?_eq_none (by rw [List.length_replicate]; omega)] at hshort
      cases hshort
  | case4 run offset limit hlimit hne ps ih =>
      rw [ih (by omega) (by omega), List.replicate_succ', List.append_assoc,
        show offset + 1 - (run + 1) = offset - run by omega]
      rfl
  | case5 run offset limit hlimit hne p ps hp ih =>
      rw [ih (by omega) (by omega), List.replicate_zero, List.nil_append]
      have hbehind : ∀ j, j ∈ runStarts least limit (List.replicate run .short ++ p :: ps)
          ↔ ∃ i, j = run + 1 + i ∧ i ∈ runStarts least (limit - run - 1) ps :=
        mem_runStarts_behind (by omega) hp
      simp only [isLeast_moved hbehind]
      constructor
      · rintro ⟨i, rfl, hi⟩
        exact ⟨run + 1 + i, by omega, i, rfl, hi⟩
      · rintro ⟨j, rfl, i, rfl, hi⟩
        exact ⟨i, by omega, hi⟩

end

/-! ### The gap behind a glitch -/

variable {pulses : List Pulse} {th : Thresholds}

/-- The places at which the gap behind a glitch at `g` may begin: at most a window behind it, with
more than `shortGap` short pulses from there on. -/
def gapPlaces (th : Thresholds) (pulses : List Pulse) (g : Nat) : Set Nat :=
  {z | g < z ∧ (z : Int) ≤ g + th.glitchWindow
    ∧ ∀ k : Nat, (k : Int) ≤ th.shortGap → pulses[z + k]? = some .short}

/-- **The gap behind a glitch** begins at the first of its places. -/
lemma gapBehind?_eq_some_iff (hgap : 0 ≤ th.shortGap) {g z : Nat} :
    gapBehind? th (g + 1) (pulses.drop (g + 1)) = some z ↔ IsLeast (gapPlaces th pulses g) z := by
  have hplaces : ∀ z, z ∈ gapPlaces th pulses g ↔ ∃ j, z = g + 1 + j
      ∧ j ∈ runStarts (th.shortGap + 1).toNat (th.glitchWindow - 1) (pulses.drop (g + 1)) := by
    intro z
    constructor
    · rintro ⟨hlt, hle, hshort⟩
      refine ⟨z - (g + 1), by omega, by omega, fun k hk => ?_⟩
      rw [List.getElem?_drop, show g + 1 + (z - (g + 1) + k) = z + k by omega]
      exact hshort k (by omega)
    · rintro ⟨j, rfl, hle, hshort⟩
      refine ⟨by omega, by omega, fun k hk => ?_⟩
      rw [Nat.add_assoc, ← List.getElem?_drop]
      exact hshort k (by omega)
  rw [gapBehind?, if_neg (by omega),
    firstRun?_eq_some_iff (Nat.zero_le _) (Nat.zero_le _), isLeast_moved hplaces]
  rfl

/-- The gap behind a glitch is not a part of a run of short pulses that begins earlier. -/
lemma getElem?_ne_short_of_isLeast {g z : Nat} (hglitch : pulses[g]? = some .glitch)
    (h : IsLeast (gapPlaces th pulses g) z) : pulses[z - 1]? ≠ some .short := by
  obtain ⟨⟨hlt, hle, hshort⟩, hleast⟩ := h
  intro hbefore
  by_cases hnext : z - 1 = g
  · rw [hnext, hglitch] at hbefore
    cases hbefore
  · -- the run would begin one pulse earlier
    have hplace : z - 1 ∈ gapPlaces th pulses g := by
      refine ⟨by omega, by omega, fun k hk => ?_⟩
      cases k with
      | zero => exact hbefore
      | succ k =>
          rw [show z - 1 + (k + 1) = z + k by omega]
          exact hshort k (by omega)
    have hle := hleast hplace
    omega

/-! ### The gaps behind all glitches -/

/-- A gap is looked for behind a glitch only. -/
lemma glitchGapsFrom_cons (th : Thresholds) (found : List Nat) (offset : Nat) (p : Pulse)
    (ps : List Pulse) :
    glitchGapsFrom th found offset (p :: ps)
      = if p = .glitch then
          if inRange (offset + th.glitchWindow + th.shortGap + 2) then
            glitchGapsFrom th ((gapBehind? th (offset + 1) ps).toList ++ found) (offset + 1) ps
          else .error (.range .offset)
        else glitchGapsFrom th found (offset + 1) ps := by
  cases p <;> rfl

lemma exists_le_iff {P : Nat → Prop} {n : Nat} :
    (∃ g, n ≤ g ∧ P g) ↔ P n ∨ ∃ g, n + 1 ≤ g ∧ P g := by
  constructor
  · rintro ⟨g, hle, hg⟩
    rcases Nat.eq_or_lt_of_le hle with rfl | hlt
    · exact .inl hg
    · exact .inr ⟨g, hlt, hg⟩
  · rintro (hn | ⟨g, hle, hg⟩)
    · exact ⟨n, Nat.le_refl n, hn⟩
    · exact ⟨g, by omega, hg⟩

/-- **The gaps behind all glitches** from an offset on, or a glitch that stands too far out for the
search behind it. -/
lemma glitchGapsFrom_cases (th : Thresholds) {offset : Nat} {ps : List Pulse}
    (hps : pulses.drop offset = ps) (found : List Nat) :
    (∃ gaps, glitchGapsFrom th found offset ps = .ok gaps ∧ ∀ z, z ∈ gaps ↔ z ∈ found
        ∨ ∃ g, offset ≤ g ∧ pulses[g]? = some .glitch
          ∧ gapBehind? th (g + 1) (pulses.drop (g + 1)) = some z)
      ∨ glitchGapsFrom th found offset ps = .error (.range .offset)
        ∧ ∃ g, offset ≤ g ∧ pulses[g]? = some .glitch
          ∧ inRange (g + th.glitchWindow + th.shortGap + 2) = false := by
  induction ps generalizing offset found with
  | nil =>
      refine .inl ⟨found, rfl, fun z => ?_⟩
      have hnone : ∀ g, offset ≤ g → pulses[g]? = none := fun g hle =>
        List.getElem?_eq_none (Nat.le_trans (List.drop_eq_nil_iff.mp hps) hle)
      refine (or_iff_left ?_).symm
      rintro ⟨g, hle, hg, -⟩
      rw [hnone g hle] at hg
      cases hg
  | cons p ps ih =>
      have hp : pulses[offset]? = some p := by
        rw [← List.head?_drop, hps, List.head?_cons]
      have hrest : pulses.drop (offset + 1) = ps := by
        rw [← List.tail_drop, hps, List.tail_cons]
      rw [glitchGapsFrom_cons]
      simp only [exists_le_iff (n := offset), hp, Option.some.injEq, hrest]
      by_cases hglitch : p = .glitch
      · cases hrange : inRange (offset + th.glitchWindow + th.shortGap + 2) with
        | false =>
            rw [if_pos hglitch, if_neg Bool.false_ne_true]
            exact .inr ⟨rfl, .inl ⟨hglitch, rfl⟩⟩
        | true =>
            rw [if_pos hglitch, if_pos rfl]
            refine (ih hrest _).imp ?_ fun ⟨herror, hout⟩ => ⟨herror, .inr hout⟩
            rintro ⟨gaps, hgaps, hmem⟩
            refine ⟨gaps, hgaps, fun z => ?_⟩
            rw [hmem, List.mem_append, Option.mem_toList]
            tauto
      · rw [if_neg hglitch]
        simp only [hglitch, false_and, false_or]
        exact ih hrest found

/-- **The marks that are added are the first places behind glitches**, and the marks that were there
are kept; no glitch is passed over, and nothing else is added. Each place that is added begins a run
of short pulses that does not begin earlier. The search fails for one reason only, which does not
arise for a capture in memory: a glitch is so far out that the end of its window is no offset. -/
theorem addGlitchGaps_cases (pulses : List Pulse) (marks : Marks) {th : Thresholds}
    (hwindow : 0 ≤ th.glitchWindow) (hgap : 0 ≤ th.shortGap)
    (hmost : th.shortGap + 1 < maxRepetition) :
    ((∃ marked, addGlitchGaps pulses marks th = .ok marked
        ∧ ∀ m : Int, m ∈ marked ↔ m ∈ marks ∨ ∃ g z : Nat, m = z ∧ pulses[g]? = some .glitch
          ∧ IsLeast (gapPlaces th pulses g) z)
      ∨ addGlitchGaps pulses marks th = .error (.range .offset)
        ∧ ∃ g : Nat, pulses[g]? = some .glitch
          ∧ Mfm.maxLength < g + th.glitchWindow + th.shortGap + 2)
    ∧ ∀ g z : Nat, pulses[g]? = some .glitch → IsLeast (gapPlaces th pulses g) z →
        pulses[z]? = some .short ∧ pulses[z - 1]? ≠ some .short := by
  refine ⟨?_, fun g z hglitch hz =>
    ⟨hz.1.2.2 0 hgap, getElem?_ne_short_of_isLeast hglitch hz⟩⟩
  rw [addGlitchGaps, glitchGaps_eq hgap hmost]
  rcases glitchGapsFrom_cases th (List.drop_zero (l := pulses)) [] with
    ⟨gaps, hgaps, hmem⟩ | ⟨herror, g, -, hglitch, hrange⟩
  · refine .inl ⟨_, by rw [hgaps]; rfl, fun m => ?_⟩
    rw [Std.TreeSet.mem_insertMany_list, List.contains_iff_mem, List.map_reverse, List.mem_reverse,
      List.mem_map]
    simp only [hmem, gapBehind?_eq_some_iff hgap, List.not_mem_nil, false_or, Nat.zero_le, true_and]
    refine or_congr_right ⟨?_, ?_⟩
    · rintro ⟨z, ⟨g, hglitch, hz⟩, rfl⟩
      exact ⟨g, z, rfl, hglitch, hz⟩
    · rintro ⟨g, z, rfl, hglitch, hz⟩
      exact ⟨z, ⟨g, hglitch, hz⟩, rfl⟩
  · refine .inr ⟨by rw [herror]; rfl, g, hglitch, ?_⟩
    have hmax : Mfm.maxLength = 0x7fffffffffffffff := rfl
    rw [inRange, decide_eq_false_iff_not] at hrange
    omega

/-- Two glitches before one gap of seventeen zeros, at the end of a capture. -/
def twoGlitches : List Pulse :=
  [.glitch, .medium, .short, .glitch] ++ List.replicate 17 .short

/-- Both glitches mark the gap, and a mark at the start of the capture is kept. -/
theorem addGlitchGaps_cases_twoGlitches :
    (0 : Int) ≤ ({} : Thresholds).glitchWindow ∧ (0 : Int) ≤ ({} : Thresholds).shortGap
      ∧ ({} : Thresholds).shortGap + 1 < maxRepetition
      ∧ ∃ marked, addGlitchGaps twoGlitches (.ofList [(0 : Int)]) {} = .ok marked
        ∧ ∀ m, m ∈ marked ↔ m = 0 ∨ m = 4 := by
  have hwindow : (0 : Int) ≤ ({} : Thresholds).glitchWindow := by decide
  have hshort : (0 : Int) ≤ ({} : Thresholds).shortGap := by decide
  have hmost : ({} : Thresholds).shortGap + 1 < maxRepetition := by decide
  refine ⟨hwindow, hshort, hmost, ?_⟩
  have hgap : ∀ k < 17, twoGlitches[4 + k]? = some .short := by decide
  have hleast : ∀ g, g < 4 → IsLeast (gapPlaces {} twoGlitches g) 4 := by
    intro g hg
    refine ⟨⟨hg, ?_, fun k hk => hgap k ?_⟩, ?_⟩
    · change ((4 : Nat) : Int) ≤ g + 16
      omega
    · change (k : Int) ≤ 16 at hk
      omega
    · -- a run from an earlier place would go over the second glitch
      rintro z ⟨-, -, hrun⟩
      by_contra hlt
      have hthird := hrun (3 - z) (show ((3 - z : Nat) : Int) ≤ 16 by omega)
      rw [show z + (3 - z) = 3 by omega] at hthird
      cases hthird
  have hglitches : ∀ g, twoGlitches[g]? = some .glitch ↔ g = 0 ∨ g = 3 := by
    intro g
    by_cases hg : g < 21
    · revert hg
      revert g
      decide
    · rw [List.getElem?_eq_none (show twoGlitches.length ≤ g from Nat.le_of_not_lt hg)]
      simp only [reduceCtorEq, false_iff]
      omega
  obtain ⟨⟨marked, hmarked, hall⟩ | ⟨-, g, hglitch, hfar⟩, -⟩ :=
    addGlitchGaps_cases twoGlitches (.ofList [(0 : Int)]) hwindow hshort hmost
  · refine ⟨marked, hmarked, fun m => ?_⟩
    rw [hall, Std.TreeSet.mem_ofList, List.contains_iff_mem, List.mem_singleton]
    refine or_congr_right ⟨?_, ?_⟩
    · rintro ⟨g, z, rfl, hglitch, hz⟩
      have hg : g < 4 := by
        rcases (hglitches g).mp hglitch with rfl | rfl <;> decide
      exact congrArg _ (Nat.le_antisymm (hz.2 (hleast g hg).1) ((hleast g hg).2 hz.1))
    · rintro rfl
      exact ⟨0, 4, rfl, rfl, hleast 0 (by decide)⟩
  · have hmax : Mfm.maxLength = 0x7fffffffffffffff := rfl
    change Mfm.maxLength < (g : Int) + 16 + 16 + 2 at hfar
    rcases (hglitches g).mp hglitch with rfl | rfl <;> omega

end Recovery

end FamicomDisk
