import FamicomDisk.Proofs.GlitchGaps

/-!
Splices, with a disk behind them.

A mark that a glitch gives rise to stands at the gap behind it, and a mark is pulled back over
glitches and short pulses before it. Both look over a few pulses only, except that a run of short
pulses may be long. A disk header begins with a medium pulse, has no glitch, and soon has other
pulses than short ones, so a gap does not begin within it, and what is pulled back behind it stays
behind it.

* `gapStarts`, `glitchGapsFrom_eq`: the gaps behind the glitches of a capture.
* `gapStarts_append`: **gaps before a disk header and behind it**.
* `exists_glitchGaps_append`: the gaps behind glitches, with other pulses before a disk.
* `pulled`, `pullBack_eq`: where a mark is pulled back to.
* `pulled_moved`: **a mark behind a disk header** is pulled back as if nothing were before it.
-/

namespace FamicomDisk

namespace Recovery

/-! ### Gaps behind glitches -/

/-- The starts of the gaps behind the glitches of a capture whose first pulse is at `offset`. -/
def gapStarts (offset : Nat) : List Pulse → List Nat
  | [] => []
  | p :: ps =>
      (if p = .glitch then (gapBehind? {} (offset + 1) ps).toList else [])
        ++ gapStarts (offset + 1) ps

lemma firstRun?_moved (k : Nat) {least run offset : Nat} {limit : Int} {rest : List Pulse}
    (hrun : run ≤ offset) :
    firstRun? least run (k + offset) limit rest
      = (firstRun? least run offset limit rest).map (k + ·) := by
  fun_induction firstRun? least run offset limit rest with
  | case1 run offset limit rest hlimit =>
      rw [firstRun?.eq_def, if_pos hlimit]
      rfl
  | case2 offset limit rest hlimit =>
      rw [firstRun?.eq_def, if_neg hlimit, if_pos rfl, Nat.add_sub_assoc hrun]
      rfl
  | case3 run offset limit hlimit hne => rw [firstRun?, if_neg hlimit, if_neg hne]; rfl
  | case4 run offset limit hlimit hne ps ih =>
      rw [firstRun?, if_neg hlimit, if_neg hne, Nat.add_assoc, ih (by omega)]
  | case5 run offset limit hlimit hne p ps hp ih =>
      rw [← ih (Nat.zero_le _), ← Nat.add_assoc, firstRun?.eq_def, if_neg hlimit, if_neg hne]
      cases p with
      | short => exact absurd rfl hp
      | medium | long | glitch | unknown => rfl

/-- The gap behind a glitch is a run of short pulses that begins at most a window behind it. -/
lemma exists_of_gapBehind? {offset z : Nat} {ps : List Pulse}
    (h : gapBehind? {} offset ps = some z) :
    ∃ j, z = offset + j ∧ j ≤ 15 ∧ List.replicate 17 Pulse.short <+: ps.drop j := by
  obtain ⟨j, rfl, ⟨hj, hshort⟩, -⟩ := (firstRun?_eq_some_iff (Nat.zero_le offset)
    (Nat.zero_le 17)).mp (show firstRun? 17 0 offset 15 ps = some z from h)
  refine ⟨j, rfl, by omega, ?_⟩
  rw [List.prefix_iff_getElem?]
  intro k hk
  rw [List.length_replicate] at hk
  rw [List.getElem_replicate, List.getElem?_drop]
  exact hshort k hk

/-- The gaps that are found, if the capture is not too long for the offsets behind it. -/
lemma glitchGapsFrom_eq {offset : Nat} {ps : List Pulse} (found : List Nat)
    (h : ((offset + ps.length : Nat) : Int) + 33 ≤ Mfm.maxLength) :
    glitchGapsFrom {} found offset ps = .ok ((gapStarts offset ps).reverse ++ found) := by
  induction ps generalizing offset found with
  | nil => rfl
  | cons p ps ih =>
      rw [List.length_cons] at h
      have hmax : Mfm.maxLength = 0x7fffffffffffffff := rfl
      have hrest : ((offset + 1 + ps.length : Nat) : Int) + 33 ≤ Mfm.maxLength := by omega
      have hrange : inRange ((offset : Int) + ({} : Thresholds).glitchWindow
          + ({} : Thresholds).shortGap + 2) = true := by
        change decide (_ ∧ (offset : Int) + 16 + 16 + 2 ≤ Mfm.maxLength) = true
        rw [decide_eq_true_eq]
        change -Mfm.maxLength - 1 ≤ (offset : Int) + 16 + 16 + 2 ∧ _
        omega
      cases p with
      | glitch =>
          rw [glitchGapsFrom, if_pos hrange, ih _ hrest, gapStarts, if_pos rfl]
          cases gapBehind? {} (offset + 1) ps <;> simp
      | short | medium | long | unknown => exact ih found hrest

/-- A gap begins behind its glitch, and ends within the capture. -/
lemma le_of_mem_gapStarts {offset z : Nat} {ps : List Pulse} (h : z ∈ gapStarts offset ps) :
    offset < z ∧ z < offset + ps.length := by
  induction ps generalizing offset with
  | nil => simp [gapStarts] at h
  | cons p ps ih =>
      rw [gapStarts, List.mem_append] at h
      rw [List.length_cons]
      rcases h with h | h
      · split at h
        · obtain ⟨j, rfl, -, hprefix⟩ := exists_of_gapBehind? (Option.mem_toList.mp h)
          have hlen := hprefix.length_le
          rw [List.length_replicate, List.length_drop] at hlen
          omega
        · simp at h
      · have hle := ih h
        omega

lemma gapStarts_moved (k offset : Nat) (ps : List Pulse) :
    gapStarts (k + offset) ps = (gapStarts offset ps).map (k + ·) := by
  have hgap : ∀ (offset : Nat) (ps : List Pulse),
      gapBehind? {} (k + offset) ps = (gapBehind? {} offset ps).map (k + ·) :=
    fun offset ps => firstRun?_moved k (Nat.zero_le offset)
  induction ps generalizing offset with
  | nil => rfl
  | cons p ps ih =>
      rw [gapStarts, gapStarts, Nat.add_assoc, hgap, ih, List.map_append]
      split
      · cases gapBehind? {} (offset + 1) ps <;> rfl
      · rfl

/-- A disk header has no run of short pulses as long as a gap. -/
lemma not_shorts_of_signature {pulses : List Pulse} (h : Capture.headerSignature <+: pulses)
    {j : Nat} (hj : j ≤ 15) : ¬ List.replicate 17 Pulse.short <+: pulses.drop j := by
  intro hshorts
  have hget : ∀ i, i < 17 → pulses[j + i]? = some .short := by
    intro i hi
    rw [← List.getElem?_drop, List.prefix_iff_getElem?.mp hshorts i (by simpa using hi),
      List.getElem_replicate]
  by_cases hlast : j = 15
  · have h17 : pulses[17]? = some .medium :=
      List.prefix_iff_getElem?.mp h 17 (by decide)
    have hshort := hget 2 (by omega)
    rw [hlast, h17] at hshort
    cases hshort
  · have h14 : pulses[14]? = some .medium :=
      List.prefix_iff_getElem?.mp h 14 (by decide)
    have hshort := hget (14 - j) (by omega)
    rw [show j + (14 - j) = 14 by omega, h14] at hshort
    cases hshort

/-- **Gaps before a disk header and behind it**: a gap behind a glitch that stands before the header
begins before it, too. -/
lemma gapStarts_append {pulses : List Pulse} (h : Capture.headerSignature <+: pulses)
    (offset : Nat) (before : List Pulse) :
    ∃ near, gapStarts offset (before ++ pulses)
        = near ++ gapStarts (offset + before.length) pulses
      ∧ ∀ z ∈ near, z < offset + before.length := by
  induction before generalizing offset with
  | nil => exact ⟨[], rfl, by simp⟩
  | cons p before ih =>
      obtain ⟨near, hnear, hlt⟩ := ih (offset + 1)
      have hcount : offset + (p :: before).length = offset + 1 + before.length := by
        rw [List.length_cons]
        omega
      rw [List.cons_append, gapStarts, hnear, hcount]
      refine ⟨_, (List.append_assoc _ _ _).symm, ?_⟩
      intro z hz
      rcases List.mem_append.mp hz with hz | hz
      · split at hz
        · obtain ⟨j, rfl, hj, hshorts⟩ := exists_of_gapBehind? (Option.mem_toList.mp hz)
          by_contra hge
          rw [List.drop_append, List.drop_eq_nil_of_le (by omega), List.nil_append] at hshorts
          exact not_shorts_of_signature h (by omega) hshorts
        · simp at hz
      · exact hlt z hz

/-- The gaps on a disk begin behind its header. -/
lemma le_of_mem_gapStarts_signature {pulses : List Pulse} {z : Nat}
    (h : Capture.headerSignature <+: pulses) (hz : z ∈ gapStarts 0 pulses) : 32 ≤ z := by
  obtain ⟨rest, rfl⟩ := h
  have hnone : ∀ (offset : Nat) (ps : List Pulse), Pulse.glitch ∉ ps →
      gapStarts offset (ps ++ rest) = gapStarts (offset + ps.length) rest := by
    intro offset ps hps
    induction ps generalizing offset with
    | nil => rfl
    | cons p ps ih =>
        rw [List.mem_cons, not_or] at hps
        rw [List.cons_append, gapStarts, if_neg (Ne.symm hps.1), ih _ hps.2, List.length_cons,
          List.nil_append]
        congr 1
        omega
  rw [hnone 0 _ (by decide), Capture.length_headerSignature] at hz
  have hle := le_of_mem_gapStarts hz
  omega

/-- **The gaps behind glitches on a disk** are those that it has alone; others begin before it. -/
lemma exists_glitchGaps_append {before pulses : List Pulse}
    (h : Capture.headerSignature <+: pulses)
    (hlen : ((before ++ pulses).length : Int) + 33 ≤ Mfm.maxLength) :
    ∃ near gaps, glitchGaps pulses {} = .ok gaps
      ∧ glitchGaps (before ++ pulses) {} = .ok (near ++ gaps.map (before.length + ·))
      ∧ (∀ z ∈ near, z < before.length) ∧ ∀ z ∈ gaps, 16 ≤ z ∧ z ≤ pulses.length := by
  obtain ⟨near, hnear, hlt⟩ := gapStarts_append h 0 before
  rw [Nat.zero_add] at hnear hlt
  have hmoved := gapStarts_moved before.length 0 pulses
  rw [Nat.add_zero] at hmoved
  have hall : ∀ ps : List Pulse, (ps.length : Int) + 33 ≤ Mfm.maxLength →
      glitchGaps ps {} = .ok (gapStarts 0 ps) := by
    intro ps hps
    rw [glitchGaps_eq (by decide) (by decide), glitchGapsFrom_eq [] (by omega), List.append_nil]
    exact congrArg Except.ok (List.reverse_reverse _)
  refine ⟨near, gapStarts 0 pulses, hall _ ?_, ?_, hlt, ?_⟩
  · rw [List.length_append] at hlen
    omega
  · rw [hall _ hlen, hnear, hmoved]
  · intro z hz
    have hge := le_of_mem_gapStarts_signature h hz
    have hle := le_of_mem_gapStarts hz
    omega

/-! ### Pulling back -/

/-- The start of the splice just before a mark, or the mark itself. -/
def spliceBefore (pulses : Array Pulse) (mark : Nat) : Nat :=
  match lastGlitch? pulses (mark - 16) mark with
  | some g => spliceStart pulses 16 g
  | none => mark

/-- Where a mark is pulled back to: over a splice, and then over a long run of short pulses. -/
def pulled (pulses : Array Pulse) (mark : Nat) : Nat :=
  let stop := spliceBefore pulses mark
  if 900 < stop - runStart pulses stop then runStart pulses stop else mark

section

variable {pulses : Array Pulse}

lemma getElem?_of_lastGlitch? {first stop g : Nat} (h : lastGlitch? pulses first stop = some g) :
    pulses[g]? = some .glitch := by
  induction stop with
  | zero => cases h
  | succ i ih =>
      rw [lastGlitch?] at h
      split at h
      · cases h
      · split at h
        · next hglitch =>
          obtain rfl := Option.some.inj h
          exact hglitch
        · exact ih h

lemma spliceStart_le (pulses : Array Pulse) (window : Int) (stop : Nat) :
    spliceStart pulses window stop ≤ stop := by
  fun_induction spliceStart pulses window stop with
  | case1 stop g hg ih => exact Nat.le_trans ih (Nat.le_of_lt (lt_of_lastGlitch? hg))
  | case2 stop hnone => exact Nat.le_refl stop

lemma spliceBefore_le (pulses : Array Pulse) (mark : Nat) : spliceBefore pulses mark ≤ mark := by
  rw [spliceBefore]
  split
  · next g hg => exact Nat.le_trans (spliceStart_le _ _ _) (Nat.le_of_lt (lt_of_lastGlitch? hg))
  · exact Nat.le_refl mark

lemma pulled_le (pulses : Array Pulse) (mark : Nat) : pulled pulses mark ≤ mark := by
  have hrun := runStart_le pulses (spliceBefore pulses mark)
  have hsplice := spliceBefore_le pulses mark
  simp only [pulled]
  split <;> omega

/-- **Where a mark in the capture is pulled back to.** -/
lemma pullBack_eq {mark : Nat} (h : mark ≤ pulses.size) :
    pullBack pulses {} mark = .ok (pulled pulses mark) := by
  have hlast : lastGlitch? pulses ((mark : Int) - ({} : Thresholds).glitchWindow).toNat
        (if (mark : Int) < 0 then (pulses.size : Int) + mark
          else min (mark : Int) pulses.size).toNat
      = lastGlitch? pulses (mark - 16) mark := by
    rw [if_neg (by omega), show (min (mark : Int) pulses.size).toNat = mark by omega]
    congr 1
    change ((mark : Int) - 16).toNat = mark - 16
    omega
  have hrun : ∀ stop : Nat, stop ≤ mark →
      (if (pulses.size : Int) < stop then throw .noSuchPlace
        else pure (if (900 : Int) < ((stop : Int).toNat : Int) - runStart pulses (stop : Int).toNat
          then (stop : Int) - (((stop : Int).toNat : Int) - runStart pulses (stop : Int).toNat)
          else mark) : Except Fault Int)
        = .ok ((if 900 < stop - runStart pulses stop then runStart pulses stop
          else mark : Nat)) := by
    intro stop hstop
    have hle := runStart_le pulses stop
    rw [if_neg (by omega), Int.toNat_natCast]
    refine congrArg Except.ok ?_
    split <;> split <;> omega
  rw [pulled, spliceBefore]
  simp only [pullBack, hlast]
  cases hg : lastGlitch? pulses (mark - 16) mark with
  | some g =>
      exact hrun _ (Nat.le_trans (spliceStart_le _ _ _) (Nat.le_of_lt (lt_of_lastGlitch? hg)))
  | none => exact hrun mark (Nat.le_refl mark)

end

/-! ### Behind a disk header -/

section

variable {pulses : List Pulse} (before : List Pulse)

lemma getElem?_moved (i : Nat) :
    (before ++ pulses).toArray[before.length + i]? = pulses.toArray[i]? := by
  rw [List.getElem?_toArray, List.getElem?_toArray,
    List.getElem?_append_right (Nat.le_add_right _ _), Nat.add_sub_cancel_left]

lemma lastGlitch?_moved (first stop : Nat) :
    lastGlitch? (before ++ pulses).toArray (before.length + first) (before.length + stop)
      = (lastGlitch? pulses.toArray first stop).map (before.length + ·) := by
  induction stop with
  | zero =>
      cases hlen : before.length with
      | zero => rfl
      | succ n =>
          change lastGlitch? _ (n + 1 + first) (n + 1) = none
          rw [lastGlitch?, if_pos (by omega)]
  | succ i ih =>
      rw [← Nat.add_assoc, lastGlitch?, lastGlitch?, getElem?_moved, ih]
      by_cases hi : i < first
      · rw [if_pos hi, if_pos (by omega)]
        rfl
      · rw [if_neg hi, if_neg (by omega)]
        split <;> rfl

/-- A run of short pulses behind a pulse that is not short. -/
lemma runStart_moved {stop : Nat} (h : pulses[0]? ≠ some .short) (hstop : 1 ≤ stop) :
    runStart (before ++ pulses).toArray (before.length + stop)
      = before.length + runStart pulses.toArray stop := by
  induction stop with
  | zero => omega
  | succ i ih =>
      rw [← Nat.add_assoc, runStart, runStart, getElem?_moved]
      split
      · next hshort =>
        refine ih (Nat.one_le_iff_ne_zero.mpr ?_)
        rintro rfl
        rw [List.getElem?_toArray] at hshort
        exact h hshort
      · rfl

/-- A splice begins with a glitch, or where it ends. -/
lemma le_spliceStart {pulses : Array Pulse} {least stop : Nat} {window : Int}
    (h : ∀ i : Nat, pulses[i]? = some .glitch → least ≤ i) (hstop : least ≤ stop) :
    least ≤ spliceStart pulses window stop := by
  fun_induction spliceStart pulses window stop with
  | case1 stop g hg ih => exact ih (h g (getElem?_of_lastGlitch? hg))
  | case2 stop hnone => exact hstop

/-- A splice that ends behind the first 32 pulses, none of which is a glitch. -/
lemma spliceStart_moved {stop : Nat}
    (h : ∀ i : Nat, pulses.toArray[i]? = some .glitch → 32 ≤ i) (hstop : 32 ≤ stop) :
    spliceStart (before ++ pulses).toArray 16 (before.length + stop)
      = before.length + spliceStart pulses.toArray 16 stop := by
  induction stop using Nat.strongRecOn with
  | ind stop ih =>
      have hfirst : (((before.length + stop : Nat) : Int) - 16).toNat
          = before.length + ((stop : Int) - 16).toNat := by omega
      rw [spliceStart.eq_def, spliceStart.eq_def pulses.toArray, hfirst, lastGlitch?_moved]
      cases hg : lastGlitch? pulses.toArray ((stop : Int) - 16).toNat stop with
      | some g => exact ih g (lt_of_lastGlitch? hg) (h g (getElem?_of_lastGlitch? hg))
      | none => rfl

/-- **A mark behind a disk header** is pulled back as if nothing were before it. -/
lemma pulled_moved {mark : Nat} (h : Capture.headerSignature <+: pulses) (hmark : 16 ≤ mark) :
    pulled (before ++ pulses).toArray (before.length + mark)
      = before.length + pulled pulses.toArray mark := by
  have hfirst : pulses[0]? ≠ some .short := by
    have hmedium : pulses[0]? = some .medium := List.prefix_iff_getElem?.mp h 0 (by decide)
    rw [hmedium]
    simp
  have hglitch : ∀ i : Nat, pulses.toArray[i]? = some .glitch → 32 ≤ i := by
    intro i hi
    by_contra hlt
    have hlen : i < Capture.headerSignature.length := by
      rw [Capture.length_headerSignature]
      omega
    rw [List.getElem?_toArray, List.prefix_iff_getElem?.mp h i hlen, Option.some.injEq] at hi
    exact absurd (hi ▸ List.getElem_mem hlen) (by decide)
  have hsplice : spliceBefore (before ++ pulses).toArray (before.length + mark)
        = before.length + spliceBefore pulses.toArray mark
      ∧ 1 ≤ spliceBefore pulses.toArray mark := by
    rw [spliceBefore, spliceBefore, Nat.add_sub_assoc hmark, lastGlitch?_moved]
    cases hg : lastGlitch? pulses.toArray (mark - 16) mark with
    | none =>
        refine ⟨rfl, ?_⟩
        dsimp only
        omega
    | some g =>
        have hg32 := hglitch g (getElem?_of_lastGlitch? hg)
        exact ⟨spliceStart_moved before hglitch hg32,
          Nat.le_trans (by decide) (le_spliceStart hglitch hg32)⟩
  obtain ⟨hsplice, hpos⟩ := hsplice
  simp only [pulled, hsplice, runStart_moved before hfirst hpos]
  split <;> split <;> omega

end

end Recovery

end FamicomDisk
