import FamicomDisk.Proofs.Sequencing
import FamicomDisk.Proofs.Stops
import FamicomDisk.Recovery.Marks

/-!
Marks of a clean capture.

A capture of a layout has no glitch, so it has no mark but the ends of its blocks, and these are
pulled back only over long runs of short pulses. Behind a zero such a run is a run of zeros, and
nothing is lost; behind a one it is a run of ones at the end of the block, and these are lost.

* `pulledBack`, `consolidate_clean`: the marks, told by the ends of the blocks; `exists_consolidate`
  tells them of any capture whose marks can be pulled back.
* `findStart_leadIn`: the first block begins at the mark behind the lead-in.
* `Marked`: the first mark in each block, and what the block has behind it (`marked_of_stops`).
-/

namespace FamicomDisk

open Mfm

namespace Recovery

/-! ### Captures without glitches -/

section

variable {pulses : List Pulse}

lemma lastGlitch?_clean (h : Pulse.glitch ∉ pulses) (first stop : Nat) :
    lastGlitch? pulses.toArray first stop = none := by
  induction stop with
  | zero => rfl
  | succ i ih =>
      rw [lastGlitch?, ih]
      have hi : pulses.toArray[i]? ≠ some .glitch := by
        rw [List.getElem?_toArray]
        exact fun hg => h (List.mem_of_getElem? hg)
      rw [if_neg hi]
      exact ite_self _

lemma glitchGapsFrom_clean (h : Pulse.glitch ∉ pulses) (th : Thresholds) (found : List Nat)
    (offset : Nat) : glitchGapsFrom th found offset pulses = .ok found := by
  induction pulses generalizing offset with
  | nil => rfl
  | cons p ps ih =>
      rw [List.mem_cons, not_or] at h
      cases p with
      | glitch => exact absurd rfl h.1
      | short | medium | long | unknown => exact ih h.2 (offset + 1)

/-- Gaps of a length that can be asked for are looked for behind all glitches. -/
lemma glitchGaps_eq {th : Thresholds} (hgap : 0 ≤ th.shortGap)
    (hmost : th.shortGap + 1 < maxRepetition) (pulses : List Pulse) :
    glitchGaps pulses th = (glitchGapsFrom th [] 0 pulses).map List.reverse := by
  have hdigits : (Text.decimal? (th.shortGap + 1)).isNone = false := by
    have hfew : (th.shortGap + 1).natAbs < 10 ^ Text.maxDigits := calc
      _ < 10 ^ 10 := by
        have hmax : maxRepetition = 0xffffffff := rfl
        omega
      _ ≤ 10 ^ Text.maxDigits := Nat.pow_le_pow_right (by decide) (by decide)
    rw [Text.decimal?, Nat.pow_eq, if_pos hfew]
    rfl
  rw [glitchGaps, hdigits, if_neg Bool.false_ne_true, if_neg (by omega)]
  cases glitchGapsFrom th [] 0 pulses <;> rfl

/-- Without glitches no gap is found behind one. -/
lemma glitchGaps_clean (h : Pulse.glitch ∉ pulses) : glitchGaps pulses {} = .ok [] := by
  rw [glitchGaps_eq (by decide) (by decide), glitchGapsFrom_clean h]
  rfl

end

/-! ### Pulling back -/

section

variable {pulses : Array Pulse} {start stop : Nat}

lemma runStart_le (pulses : Array Pulse) (stop : Nat) : runStart pulses stop ≤ stop := by
  induction stop with
  | zero => exact Nat.le_refl 0
  | succ i ih =>
      rw [runStart]
      split
      · omega
      · exact Nat.le_refl _

/-- A run of short pulses does not go beyond a pulse that is not short. -/
lemma le_runStart (hle : start ≤ stop) (h : pulses[start - 1]? ≠ some .short) :
    start ≤ runStart pulses stop := by
  induction stop with
  | zero => exact hle
  | succ i ih =>
      rw [runStart]
      by_cases hs : pulses[i]? = some .short
      · rw [if_pos hs]
        refine ih (Nat.lt_of_le_of_ne hle ?_ |> Nat.le_of_lt_succ)
        rintro rfl
        exact h hs
      · rw [if_neg hs]
        exact hle

/-- From its start on a run has only short pulses. -/
lemma getElem?_of_runStart_le {i : Nat} (h : runStart pulses stop ≤ i) (hi : i < stop) :
    pulses[i]? = some .short := by
  induction stop with
  | zero => omega
  | succ n ih =>
      rw [runStart] at h
      by_cases hs : pulses[n]? = some .short
      · rw [if_pos hs] at h
        by_cases hn : i = n
        · rw [hn]
          exact hs
        · exact ih h (by omega)
      · rw [if_neg hs] at h
        omega

/-- Before its start there is none. -/
lemma getElem?_runStart_pred (h : 0 < runStart pulses stop) :
    pulses[runStart pulses stop - 1]? ≠ some .short := by
  induction stop with
  | zero => exact absurd h (Nat.lt_irrefl 0)
  | succ i ih =>
      rw [runStart] at h ⊢
      by_cases hs : pulses[i]? = some .short
      · rw [if_pos hs] at h ⊢
        exact ih h
      · rw [if_neg hs]
        exact hs

end

/-- A mark that was pulled back over a run of short pulses, if that is long. -/
def pulledBack (pulses : List Pulse) (stop : Nat) : Nat :=
  if 900 < stop - runStart pulses.toArray stop then runStart pulses.toArray stop else stop

section

variable {pulses : List Pulse} {stop : Nat}

/-- Without glitches a mark is pulled back over a run of short pulses only. -/
lemma pullBack_clean (h : Pulse.glitch ∉ pulses) (hs : stop ≤ pulses.length) :
    pullBack pulses.toArray {} stop = .ok (pulledBack pulses stop) := by
  have hle := runStart_le pulses.toArray stop
  have hsize : ¬ ((pulses.length : Nat) : Int) < stop := by omega
  simp only [pullBack, lastGlitch?_clean h, List.size_toArray, Int.toNat_natCast]
  rw [if_neg hsize, pulledBack]
  change Except.ok (if (900 : Int) < _ then _ else _) = _
  by_cases hrun : 900 < stop - runStart pulses.toArray stop
  · rw [if_pos hrun, if_pos (by omega)]
    exact congrArg Except.ok (by omega)
  · rw [if_neg hrun, if_neg (by omega)]

lemma mapM_ok {f : Int → Except Fault Int} {g : Nat → Nat} {xs : List Int}
    (h : ∀ x ∈ xs, ∃ n : Nat, x = n ∧ f x = .ok (g n)) :
    xs.mapM f = .ok (xs.map fun x => ((g x.toNat : Nat) : Int)) := by
  rw [mapM_eq_ok_iff, List.forall₂_map_right_iff, List.forall₂_same]
  intro x hx
  obtain ⟨n, rfl, hn⟩ := h x hx
  exact hn

/-- **The marks** of a capture are those that were set, pulled back. -/
lemma exists_consolidate {g : Nat → Nat} {xs : List Nat}
    (h : ∀ n ∈ xs, pullBack pulses.toArray {} n = .ok (g n)) :
    ∃ marks, consolidate pulses (.ofList (xs.map Nat.cast : List Int)) {} = .ok marks
      ∧ ∀ n : Nat, marks.contains (n : Int) = true ↔ ∃ x ∈ xs, g x = n := by
  have hmem : ∀ x : Int, x ∈ (.ofList (xs.map Nat.cast : List Int) : Marks).toList
      ↔ ∃ n ∈ xs, (n : Int) = x := by
    intro x
    rw [Std.TreeSet.mem_toList, Std.TreeSet.mem_ofList, List.contains_iff_mem,
      List.mem_map]
  have hpull : (.ofList (xs.map Nat.cast : List Int) : Marks).toList.mapM
      (pullBack pulses.toArray {}) = .ok _ := mapM_ok fun x hx => by
    obtain ⟨n, hn, rfl⟩ := (hmem x).mp hx
    exact ⟨n, rfl, h n hn⟩
  refine ⟨_, by rw [consolidate, hpull]; rfl, ?_⟩
  intro n
  rw [Std.TreeSet.contains_ofList, List.contains_iff_mem, List.mem_map]
  constructor
  · rintro ⟨x, hx, hn⟩
    obtain ⟨x, hmem, rfl⟩ := (hmem x).mp hx
    exact ⟨x, hmem, Int.ofNat.inj hn⟩
  · rintro ⟨x, hx, rfl⟩
    exact ⟨x, (hmem _).mpr ⟨x, hx, rfl⟩, rfl⟩

/-- **The marks** of a capture without glitches are the ends of its blocks, pulled back. -/
lemma consolidate_clean {stops : List Nat} (h : Pulse.glitch ∉ pulses)
    (hs : ∀ s ∈ stops, s ≤ pulses.length) :
    ∃ marks, consolidate pulses (.ofList (stops.map Nat.cast : List Int)) {} = .ok marks
      ∧ ∀ n : Nat, marks.contains (n : Int) = true ↔ ∃ s ∈ stops, pulledBack pulses s = n :=
  exists_consolidate fun s hmem => pullBack_clean h (hs s hmem)

end

/-! ### The first block -/

/-- With the usual thresholds the header is looked for in the usual window. -/
lemma headerBound_usual (length : Nat) : headerBound {} length = min 65568 length := by
  change (min (65568 : Int) length).toNat = _
  omega

/-- **The first block** begins at the mark behind the lead-in, however long that is. -/
lemma findStart_leadIn {n : Nat} {rest : List Pulse}
    (h : Capture.headerSignature <+: .medium :: rest) :
    findStart (List.replicate n .short ++ .medium :: rest) {} = .ok n := by
  have hlen := h.length_le
  rw [Capture.length_headerSignature, List.length_cons] at hlen
  have hbound : headerBound {} (List.replicate n Pulse.short ++ .medium :: rest).length
      = min 65568 (n + (rest.length + 1)) := by
    rw [headerBound_usual, List.length_append, List.length_replicate, List.length_cons]
  have hmin : minGap = 768 := rfl
  rw [findStart, hbound, Capture.findHeader?_leadIn h, Capture.length_headerSignature]
  by_cases hle : n + 32 ≤ min 65568 (n + (rest.length + 1))
  · rw [if_pos hle]
    rfl
  · -- the lead-in is longer than the window, so it ends with a gap
    have hseek := nextGapEnd?_eq 0 (List.replicate n .short ++ .medium :: rest)
    rw [List.drop_zero, Capture.Head.seek_shorts, Capture.Head.seek, if_pos (by omega)] at hseek
    rw [if_neg hle]
    change (nextGapEnd? {} (placeAt _ ((0 : Nat) : Int)) >>= _) = _
    rw [hseek]
    simp [bind, Except.bind, pure, Except.pure]

/-! ### Marks on a surface -/

/-- A cut of the pulses `ps` of a block behind which there are ones and then zeros, as many as in a
gap. The ones are those of a long run, but for its first. -/
structure CutAt (ps : List Pulse) (m ones zeros : Nat) : Prop where
  le : m ≤ ps.length
  bits_eq : demodulate true ps
    = demodulate true (ps.take m) ++ (List.replicate ones true ++ List.replicate zeros false)
  gap : minGap ≤ zeros
  long : ones = 0
    ∨ (900 < ones ∧ (m = 0 ∨ [false, true] <:+ demodulate true (ps.take m)))

/-- A run of ones begins behind a zero, or with the first bit. -/
lemma suffix_of_final {ps : List Pulse} {p : Pulse} (hp : p ≠ .short)
    (h : demodulator.final true (ps ++ [p]) = true) :
    [false, true] <:+ demodulate true (ps ++ [p]) := by
  rw [Machine.final_append, Machine.final_cons, Machine.final_nil] at h
  change (decode (demodulator.final true ps) p).2 = true at h
  rw [demodulate_append, demodulate_cons, demodulate_nil, List.append_nil]
  cases hlast : demodulator.final true ps with
  | true =>
      rw [hlast] at h
      cases p with
      | long => exact List.suffix_append _ _
      | short => exact absurd rfl hp
      | medium | glitch | unknown => simp [decode, resync] at h
  | false =>
      rw [hlast] at h
      cases p with
      | medium =>
          -- a zero was read last, so there is one
          rw [final_eq_getLastD] at hlast
          obtain ⟨bits, b, hbits⟩ : ∃ bits b, demodulate true ps = bits ++ [b] := by
            rcases List.eq_nil_or_concat (demodulate true ps) with hnil | ⟨bits, b, hbits⟩
            · rw [hnil] at hlast
              simp at hlast
            · exact ⟨bits, b, by rw [hbits]; simp⟩
          rw [hbits, List.getLastD_concat] at hlast
          rw [hbits, hlast, List.append_assoc]
          exact List.suffix_append _ _
      | short => exact absurd rfl hp
      | long | glitch | unknown => simp [decode, resync] at h

section

variable {pulses ps more : List Pulse} {start m : Nat}

/-- A mark is not pulled back into the block before. -/
lemma le_pulledBack {stop : Nat} (hle : start ≤ stop) (h : pulses[start - 1]? = some .medium) :
    start ≤ pulledBack pulses stop := by
  have hrun : start ≤ runStart pulses.toArray stop := le_runStart hle (by
    rw [List.getElem?_toArray, h]
    simp)
  rw [pulledBack]
  split <;> omega

/-- The run of short pulses before a mark in a block begins in the block. -/
lemma exists_shorts (hdrop : pulses.drop start = ps ++ more)
    (hbefore : pulses[start - 1]? = some .medium) (hm : m ≤ ps.length) :
    ∃ i ≤ m, runStart pulses.toArray (start + m) = start + i
      ∧ ps.take m = ps.take i ++ List.replicate (m - i) .short := by
  have hget : ∀ i, i < ps.length → pulses[start + i]? = ps[i]? := by
    intro i hi
    rw [← List.getElem?_drop, hdrop, List.getElem?_append_left hi]
  have hrun : start ≤ runStart pulses.toArray (start + m) := le_runStart (by omega) (by
    rw [List.getElem?_toArray, hbefore]
    simp)
  have hrun' := runStart_le pulses.toArray (start + m)
  obtain ⟨i, hi⟩ := Nat.exists_eq_add_of_le hrun
  refine ⟨i, by omega, hi, ?_⟩
  obtain ⟨qs, hqs⟩ : ps.take i <+: ps.take m := List.take_prefix_take_left (by omega)
  have hlen := congrArg List.length hqs
  rw [List.length_append, List.length_take, List.length_take] at hlen
  have hshort : qs = List.replicate qs.length .short := by
    refine @eq_replicate_of_getElem? _ _ (ps.take i) _ ?_
    intro j hj hj'
    rw [hqs, List.length_take] at hj'
    rw [List.length_take] at hj
    rw [hqs, List.getElem?_take, if_pos (by omega), ← hget _ (by omega), ← List.getElem?_toArray]
    exact getElem?_of_runStart_le
      (show runStart pulses.toArray (start + m) ≤ start + j by omega) (by omega)
  rw [← hqs, hshort, show qs.length = m - i by omega]

/-- **Where a mark is pulled back to**, if only zeros stand behind it: over zeros, of which there
are more behind it then, or over ones. -/
lemma exists_cutAt {n : Nat} (hstart : 1 ≤ start) (hdrop : pulses.drop start = ps ++ more)
    (hbefore : pulses[start - 1]? = some .medium) (hm : m ≤ ps.length)
    (hbits : demodulate true ps = demodulate true (ps.take m) ++ List.replicate n false)
    (hgap : minGap ≤ n) :
    ∃ m' ones zeros, pulledBack pulses (start + m) = start + m' ∧ m' ≤ m
      ∧ CutAt ps m' ones zeros := by
  obtain ⟨i, hile, hi, hshorts⟩ := exists_shorts hdrop hbefore hm
  rw [pulledBack]
  by_cases hlong : 900 < start + m - runStart pulses.toArray (start + m)
  · have hread : demodulate true (ps.take m) = demodulate true (ps.take i)
        ++ List.replicate (m - i) (demodulator.final true (ps.take i)) := by
      rw [hshorts, demodulate_append, demodulate_shorts]
    rw [if_pos hlong]
    cases hlast : demodulator.final true (ps.take i) with
    | false =>
        refine ⟨i, 0, m - i + n, hi, by omega, by omega, ?_, by omega, .inl rfl⟩
        rw [hbits, hread, hlast, List.append_assoc, List.replicate_append_replicate]
        rfl
    | true =>
        refine ⟨i, m - i, n, hi, by omega, by omega, ?_, hgap, .inr ⟨by omega, ?_⟩⟩
        · rw [hbits, hread, hlast, List.append_assoc]
        · by_cases hzero : i = 0
          · exact .inl hzero
          · obtain ⟨k, rfl⟩ := Nat.exists_eq_succ_of_ne_zero hzero
            have hk : k < ps.length := by omega
            have htake : ps.take (k + 1) = ps.take k ++ [ps[k]] :=
              List.take_succ_eq_append_getElem hk
            have hget : pulses[start + k]? = ps[k]? := by
              rw [← List.getElem?_drop, hdrop, List.getElem?_append_left hk]
            have hpred := getElem?_runStart_pred
              (show 0 < runStart pulses.toArray (start + m) by omega)
            rw [hi, List.getElem?_toArray, show start + k.succ - 1 = start + k by omega, hget,
              List.getElem?_eq_getElem hk] at hpred
            rw [Nat.succ_eq_add_one, htake] at hlast ⊢
            exact .inr (suffix_of_final (fun h => hpred (congrArg some h)) hlast)
  · rw [if_neg hlong]
    exact ⟨m, 0, n, rfl, Nat.le_refl m, hm, by rw [hbits]; rfl, hgap, .inl rfl⟩

end

/-- The first mark from `start` on is at the cut `m`. -/
def FirstMark (marks : Marks) (start m : Nat) : Prop :=
  marks.contains ((start + m : Nat) : Int) = true
    ∧ ∀ i < m, marks.contains ((start + i : Nat) : Int) = false

/-- The first mark in each block, the pulses of the first of which begin at `start`. -/
inductive Marked (astray : Prop) (marks : Marks) : Nat → List Recorded → Prop where
  /-- The last block has a mark. -/
  | last {start m ones zeros : Nat} {r : Recorded} (first : FirstMark marks start m)
      (cut : CutAt (r.pulses lastZeros) m ones zeros) : Marked astray marks start [r]
  /-- The last block has none. -/
  | open_end {start : Nat} {r : Recorded}
      (unmarked : ∀ i < (r.pulses lastZeros).length,
        marks.contains ((start + i : Nat) : Int) = false) : Marked astray marks start [r]
  /-- A block has a mark, and another one follows. -/
  | next {start m ones zeros : Nat} {r r' : Recorded} {rs : List Recorded}
      (first : FirstMark marks start m) (cut : CutAt (r.pulses innerZeros) m ones zeros)
      (rest : Marked astray marks (start + (r.pulses innerZeros).length + 1) (r' :: rs)) :
      Marked astray marks start (r :: r' :: rs)
  /-- The gap behind a mark ends within the block. -/
  | astray {start m k q ones zeros : Nat} {r : Recorded} {rs : List Recorded} (allowed : astray)
      (first : FirstMark marks start m) (torn : r.TornAt (zerosBefore rs) k q)
      (cut : CutAt ((r.pulses (zerosBefore rs)).take q) m ones zeros) :
      Marked astray marks start (r :: rs)

section

variable {pulses : List Pulse} {marks : Marks} {start : Nat} {astray : Prop} {rs : List Recorded}
  {stops : List Nat}

lemma Stops.le (h : Stops astray start rs stops) : ∀ s ∈ stops, start ≤ s := by
  induction h with
  | last => simp
  | open_end => simp
  | next behind rest ih =>
      intro s hs
      rcases List.mem_cons.mp hs with rfl | hs
      · omega
      · have hle := ih s hs
        omega
  | astray allowed torn rest =>
      intro s hs
      rcases List.mem_cons.mp hs with rfl | hs
      · omega
      · have hlt := rest s hs
        omega

/-- The end of a block that was found first gives the first mark, if those found later are not
pulled back beyond it. -/
lemma firstMark_of_pulledBack {s m : Nat}
    (hmarks : ∀ n, start ≤ n →
      (marks.contains (n : Int) = true ↔ ∃ s' ∈ s :: stops, pulledBack pulses s' = n))
    (hs : pulledBack pulses s = start + m)
    (hrest : ∀ s' ∈ stops, start + m ≤ pulledBack pulses s') : FirstMark marks start m := by
  refine ⟨(hmarks _ (by omega)).mpr ⟨s, by simp, hs⟩, ?_⟩
  intro i hi
  by_contra hne
  obtain ⟨s', hs', hpulled⟩ := (hmarks (start + i) (by omega)).mp
    ((Bool.not_eq_false _).mp hne)
  rcases List.mem_cons.mp hs' with rfl | hs'
  · omega
  · have hle := hrest s' hs'
    omega

/-- **The marks on a surface**, by induction over the blocks: a mark is pulled back within its block
only. -/
lemma marked_of_stops (h : Stops astray start rs stops) (hstart : 1 ≤ start)
    (hdrop : pulses.drop start = surface rs) (hbefore : pulses[start - 1]? = some .medium)
    (hmarks : ∀ n, start ≤ n →
      (marks.contains (n : Int) = true ↔ ∃ s ∈ stops, pulledBack pulses s = n)) :
    Marked astray marks start rs := by
  have hmin : minGap = 768 := rfl
  have hlast : lastZeros = 968 := rfl
  have hinner : innerZeros = 975 := rfl
  induction h with
  | @last start m r behind =>
      obtain ⟨hm, n, hn, hbits⟩ := behind
      rw [← r.demodulate_pulses (by omega)] at hbits
      obtain ⟨m', ones, zeros, hpulled, -, hcut⟩ := exists_cutAt hstart
        (show pulses.drop start = r.pulses lastZeros ++ [] by rw [hdrop, List.append_nil]; rfl)
        hbefore hm hbits (by omega)
      exact .last (firstMark_of_pulledBack hmarks hpulled (by simp)) hcut
  | @open_end start r bad =>
      refine .open_end ?_
      intro i _
      by_contra hne
      obtain ⟨s, hs, -⟩ := (hmarks (start + i) (by omega)).mp
        ((Bool.not_eq_false _).mp hne)
      simp at hs
  | @next start m r r' rs stops behind rest ih =>
      obtain ⟨hm, n, hn, hbits⟩ := behind
      rw [← r.demodulate_pulses (by omega)] at hbits
      obtain ⟨hmedium, hdrop'⟩ := surface_next hdrop
      rw [surface_cons] at hdrop
      obtain ⟨m', ones, zeros, hpulled, hle, hcut⟩ := exists_cutAt hstart hdrop hbefore hm hbits
        (by omega)
      have hlater : ∀ s ∈ stops,
          start + (r.pulses innerZeros).length + 1 ≤ pulledBack pulses s := by
        intro s hs
        exact le_pulledBack (rest.le s hs) hmedium
      refine .next (firstMark_of_pulledBack hmarks hpulled ?_) hcut
        (ih (by omega) hdrop' hmedium ?_)
      · intro s hs
        have hk := hlater s hs
        omega
      · intro k hk
        rw [hmarks k (by omega), List.exists_mem_cons_iff]
        refine or_iff_right ?_
        omega
  | @astray start m q r rs stops allowed torn rest =>
      obtain ⟨hmq, hlt, hmark, n, hn, hbits⟩ := torn
      have hq := (List.getElem?_eq_some_iff.mp hmark).1
      obtain ⟨more, hmore⟩ := exists_surface_eq r rs
      have hsplit : pulses.drop start = (r.pulses (zerosBefore rs)).take q
          ++ ((r.pulses (zerosBefore rs)).drop q ++ more) := by
        rw [← List.append_assoc, List.take_append_drop, hdrop, hmore]
      have htake : ((r.pulses (zerosBefore rs)).take q).take m
          = (r.pulses (zerosBefore rs)).take m := by
        rw [List.take_take, Nat.min_eq_left hmq]
      obtain ⟨m', ones, zeros, hpulled, hle, hcut⟩ := exists_cutAt (m := m) hstart hsplit hbefore
        (by rw [List.length_take]; omega) (by rw [htake]; exact hbits) hn
      have hmedium : pulses[start + q]? = some .medium := by
        rw [← List.getElem?_drop, hdrop, hmore, List.getElem?_append_left hq, hmark]
      refine .astray allowed (firstMark_of_pulledBack hmarks hpulled fun s hs => ?_)
        ⟨hmq, hlt, hmark, n, hn, hbits⟩ hcut
      have hk := le_pulledBack (show start + q + 1 ≤ s from rest s hs) hmedium
      omega

end

end Recovery

end FamicomDisk
