import FamicomDisk.Proofs.Stops

/-!
The ends of blocks, with other pulses before them.

A scan knows where it is only by the offsets it gives out, so a scan of a capture with other pulses
before it finds the same, moved by their number. The rounds that the search for ends is granted
depend on the whole capture, so the ends are told by a trace without them (`Ends`), which every
capture has, which is what the search finds, and which is moved along.

* `scanned_moved`: **a scan of a moved block** finds the same, moved.
* `Ends`, `exists_ends`, `blockEndsFrom_of_ends`: the ends that the search finds.
* `Ends.moved`: the ends of moved blocks.
* `exists_blockEnds_append`: **the ends on a disk** do not depend on what precedes it.
-/

namespace FamicomDisk

open Mfm

namespace Capture.Head

lemma seek_moved (k least run offset : Nat) (ps : List Pulse) :
    seek least run (k + offset) ps
      = (seek least run offset ps).map fun h => ⟨k + h.offset, h.rest⟩ := by
  fun_induction seek least run offset ps with
  | case1 => rfl
  | case2 run offset ps ih => rw [seek, Nat.add_assoc, ih]
  | case3 run offset ps hle => rw [seek, if_pos hle]; rfl
  | case4 run offset ps hlt ih => rw [seek, if_neg hlt, Nat.add_assoc, ih]
  | case5 run offset p ps hs hm ih =>
      rw [← ih, ← Nat.add_assoc]
      cases p with
      | short => exact absurd rfl hs
      | medium => exact absurd rfl hm
      | long | glitch | unknown => rfl

end Capture.Head

namespace Recovery

/-! ### Scans -/

/-- A scan that stands `k` pulses further on. -/
def Scan.moved (k : Nat) (s : Scan) : Scan := { s with zerosStart := k + s.zerosStart }

/-- What was found, `k` pulses further on. -/
def ScanResult.moved (k : Nat) (r : ScanResult) : ScanResult :=
  { r with stop := r.stop.map (k + ·), resume := r.resume.map (k + ·) }

section

variable {th : Thresholds} {previous : Option Block} {base : Int}

lemma Scan.countZeros_moved (k : Nat) (s : Scan) (offset : Int) (b : Bool) :
    (s.moved k).countZeros (k + offset) b = (s.countZeros offset b).moved k := by
  cases b with
  | true => rfl
  | false =>
      by_cases hz : s.zeros = 0 <;> simp [countZeros, moved, hz]

lemma Scan.read_moved (k : Nat) (s : Scan) (offset : Int) (b : Bool) :
    (s.moved k).read previous (k + offset) b = (s.read previous offset b).moved k := by
  rw [Scan.read, Scan.read, countZeros_moved]
  by_cases hlt : (b :: (s.countZeros offset b).bits).length < 8
  · rw [if_pos hlt]
    exact if_pos hlt
  · rw [if_neg hlt]
    exact if_neg hlt

/-- A scan of bits that were read further on finds the same, further on. -/
lemma scanBits_moved (k : Nat) (s : Scan) (bits : List (Bool × Nat)) :
    scanBits th previous (k + base) (s.moved k) bits
      = (scanBits th previous base s bits).moved k := by
  induction bits generalizing s with
  | nil => rfl
  | cons x bits ih =>
      obtain ⟨b, i⟩ := x
      have hbefore : (s.moved k).endsBefore th b = s.endsBefore th b := rfl
      have hbehind : ∀ s : Scan, (s.moved k).endsBehind th (bits.map Prod.fst)
          = s.endsBehind th (bits.map Prod.fst) := fun _ => rfl
      rw [scanBits, scanBits, hbefore, Int.add_assoc, Scan.read_moved]
      by_cases hb : s.endsBefore th b = true
      · rw [if_pos hb, if_pos hb]
        rfl
      · rw [if_neg hb, if_neg hb]
        dsimp only
        rw [hbehind]
        split
        · rw [Int.add_assoc]
          rfl
        · exact ih _

end

/-- **A scan of a moved block** finds the same, moved. -/
lemma scanned_moved (before pulses : List Pulse) (start : Nat) (previous : Option Block) :
    scanned (before ++ pulses) (before.length + start) previous
      = (scanned pulses start previous).moved before.length := by
  have hshort : 1 ≤ ({} : Thresholds).shortGap := by decide
  have hdrop : (before ++ pulses).drop (before.length + start) = pulses.drop start := by
    rw [← List.drop_drop, List.drop_left]
  have hscan : scanned pulses start previous
      = scanBits {} previous 0 { zerosStart := start }
          (demodulateAt true start (pulses.drop start)) := by
    rw [scanned, ← scanFrom_eq_scanBits hshort, Int.zero_add]
  rw [scanned, hdrop, Int.natCast_add, scanFrom_eq_scanBits hshort, hscan, ← scanBits_moved,
    Int.add_zero]
  rfl

/-! ### The search for ends -/

/-- The ends of the blocks that are found from the block on whose pulses begin at `start`. -/
inductive Ends (pulses : List Pulse) : Nat → Option Block → List Nat → Prop where
  /-- A block has no end. -/
  | open_end {start : Nat} {previous : Option Block}
      (stop : (scanned pulses start previous).stop = none) : Ends pulses start previous []
  /-- A block has an end, and no mark follows it. -/
  | last {start n : Nat} {previous : Option Block}
      (stop : (scanned pulses start previous).stop = some (n : Int))
      (resume : (scanned pulses start previous).resume = none)
      (seek : Capture.Head.seek minGap 0 n (pulses.drop n) = none) : Ends pulses start previous [n]
  /-- The scan of a block has found its end and the next mark. -/
  | resume {start n next : Nat} {previous : Option Block} {stops : List Nat}
      (stop : (scanned pulses start previous).stop = some (n : Int))
      (resume : (scanned pulses start previous).resume = some (next : Int))
      (rest : Ends pulses (next + 1) ((scanned pulses start previous).block? previous) stops) :
      Ends pulses start previous (n :: stops)
  /-- The next mark was found behind the end of a block. -/
  | seek {start n : Nat} {mark : Capture.Head} {previous : Option Block} {stops : List Nat}
      (stop : (scanned pulses start previous).stop = some (n : Int))
      (resume : (scanned pulses start previous).resume = none)
      (seek : Capture.Head.seek minGap 0 n (pulses.drop n) = some mark)
      (rest : Ends pulses mark.offset ((scanned pulses start previous).block? previous) stops) :
      Ends pulses start previous (n :: stops)

section

variable {pulses : List Pulse} {start rounds : Nat} {previous : Option Block} {stops : List Nat}

/-- Every capture has its ends, since the search moves on from one to the next. -/
lemma exists_ends (pulses : List Pulse) (start : Nat) (previous : Option Block) :
    ∃ stops, Ends pulses start previous stops := by
  induction hleft : pulses.length + 1 - start using Nat.strongRecOn
    generalizing start previous with
  | ind left ih =>
      obtain ⟨hstop, hresume⟩ := le_stop_scanned pulses start previous
      cases hs : (scanned pulses start previous).stop with
      | none => exact ⟨[], .open_end hs⟩
      | some stop =>
          obtain ⟨n, rfl, hn, hle⟩ := hstop stop hs
          cases hr : (scanned pulses start previous).resume with
          | some next =>
              obtain ⟨next, rfl, hlt⟩ := hresume next hr
              obtain ⟨stops, hrest⟩ := ih (pulses.length + 1 - (next + 1)) (by omega) (next + 1)
                ((scanned pulses start previous).block? previous) rfl
              exact ⟨n :: stops, .resume hs hr hrest⟩
          | none =>
              cases hm : Capture.Head.seek minGap 0 n (pulses.drop n) with
              | none => exact ⟨[n], .last hs hr hm⟩
              | some mark =>
                  have hlt := Capture.Head.lt_offset_of_seek hm
                  obtain ⟨stops, hrest⟩ := ih (pulses.length + 1 - mark.offset) (by omega)
                    mark.offset ((scanned pulses start previous).block? previous) rfl
                  exact ⟨n :: stops, .seek hs hr hm hrest⟩

/-- Ends lie behind one another, within the capture. -/
lemma Ends.le (h : Ends pulses start previous stops) :
    stops.length ≤ pulses.length + 1 - start ∧ ∀ s ∈ stops, start ≤ s ∧ s ≤ pulses.length := by
  have hplace : ∀ {start n : Nat} {previous : Option Block},
      (scanned pulses start previous).stop = some (n : Int) → start ≤ n ∧ n ≤ pulses.length := by
    intro start n previous hs
    obtain ⟨n', hn', hle⟩ := (le_stop_scanned pulses start previous).1 n hs
    rwa [Int.ofNat.inj hn']
  -- one more end, before those of the rest
  have hnext : ∀ {start n next : Nat} {stops : List Nat}, start ≤ n → n ≤ pulses.length →
      start < next → (stops.length ≤ pulses.length + 1 - next
        ∧ ∀ s ∈ stops, next ≤ s ∧ s ≤ pulses.length) →
      (n :: stops).length ≤ pulses.length + 1 - start
        ∧ ∀ s ∈ n :: stops, start ≤ s ∧ s ≤ pulses.length := by
    rintro start n next stops hn hle hlt ⟨hlen, hall⟩
    rw [List.length_cons]
    refine ⟨by omega, ?_⟩
    intro s hs
    rcases List.mem_cons.mp hs with rfl | hs
    · exact ⟨hn, hle⟩
    · have hs' := hall s hs
      omega
  induction h with
  | open_end => simp
  | last hs =>
      obtain ⟨hn, hle⟩ := hplace hs
      exact hnext hn hle (Nat.lt_succ_self _) (by simp)
  | @resume start _ next previous _ hs hr _ ih =>
      obtain ⟨hn, hle⟩ := hplace hs
      obtain ⟨next', hnext', hlt⟩ := (le_stop_scanned pulses start previous).2 next hr
      obtain rfl := Int.ofNat.inj hnext'
      exact hnext hn hle (Nat.lt_succ_of_le hlt) ih
  | seek hs _ hm _ ih =>
      obtain ⟨hn, hle⟩ := hplace hs
      exact hnext hn hle (Nat.lt_of_le_of_lt hn (Capture.Head.lt_offset_of_seek hm)) ih

/-- **The search finds the ends**, if it is granted more rounds than there are ends. -/
lemma blockEndsFrom_of_ends (h : Ends pulses start previous stops) (hstart : 1 ≤ start)
    (hrounds : stops.length < rounds) (found : List Int) :
    blockEndsFrom pulses {} rounds found ((start : Int) - 1) previous
      = .ok ((stops.map Nat.cast).reverse ++ found) := by
  obtain ⟨rounds, rfl⟩ := Nat.exists_eq_add_of_lt hrounds
  clear hrounds
  induction h generalizing found with
  | open_end hs => exact blockEndsFrom_open hstart hs
  | last hs hr hm =>
      rw [blockEndsFrom_seek hstart hs hr, hm]
      simp
  | @resume start n next previous stops hs hr _ ih =>
      have hplace : (next : Int) = ((next + 1 : Nat) : Int) - 1 := by omega
      have hcount : (n :: stops).length + rounds = stops.length + rounds + 1 := by
        rw [List.length_cons]
        omega
      rw [blockEndsFrom_resume hstart hs hr, hplace, hcount, ih (by omega)]
      simp
  | @seek start n mark previous stops hs hr hm _ ih =>
      have hlt := Capture.Head.lt_offset_of_seek hm
      have hcount : (n :: stops).length + rounds = stops.length + rounds + 1 := by
        rw [List.length_cons]
        omega
      rw [blockEndsFrom_seek hstart hs hr, hm, hcount]
      dsimp only
      rw [ih (by omega)]
      simp

/-- The ends of the blocks of a capture, the first of which begins at the mark. -/
lemma blockEnds_of_ends {mark : Nat} (h : Ends pulses (mark + 1) none stops) :
    blockEnds pulses mark {} = .ok (stops.map Nat.cast) := by
  have hrounds : stops.length < maxRounds pulses {} := by
    have hlen := h.le.1
    have hmax : maxRounds pulses {} = pulses.length + 1 := rfl
    omega
  have hmark : ((mark : Nat) : Int) = ((mark + 1 : Nat) : Int) - 1 := by omega
  rw [blockEnds, hmark, blockEndsFrom_of_ends h (by omega) hrounds]
  simp [bind, Except.bind, pure, Except.pure]

/-- **The ends of moved blocks** are the ends, moved. -/
lemma Ends.moved (before : List Pulse) (h : Ends pulses start previous stops) :
    Ends (before ++ pulses) (before.length + start) previous
      (stops.map (before.length + ·)) := by
  have hdrop : ∀ n, (before ++ pulses).drop (before.length + n) = pulses.drop n := by
    intro n
    rw [← List.drop_drop, List.drop_left]
  have hseek : ∀ n, Capture.Head.seek minGap 0 (before.length + n)
      ((before ++ pulses).drop (before.length + n))
        = (Capture.Head.seek minGap 0 n (pulses.drop n)).map
            fun h => ⟨before.length + h.offset, h.rest⟩ := by
    intro n
    rw [hdrop, Capture.Head.seek_moved]
  have hstop : ∀ {start n : Nat} {previous : Option Block},
      (scanned pulses start previous).stop = some (n : Int) →
      (scanned (before ++ pulses) (before.length + start) previous).stop
        = some ((before.length + n : Nat) : Int) := by
    intro start n previous hs
    rw [scanned_moved, ScanResult.moved, hs]
    rfl
  have hresume : ∀ {start next : Nat} {previous : Option Block},
      (scanned pulses start previous).resume = some (next : Int) →
      (scanned (before ++ pulses) (before.length + start) previous).resume
        = some ((before.length + next : Nat) : Int) := by
    intro start next previous hr
    rw [scanned_moved, ScanResult.moved, hr]
    rfl
  have hnone : ∀ {start : Nat} {previous : Option Block},
      (scanned pulses start previous).resume = none →
      (scanned (before ++ pulses) (before.length + start) previous).resume = none := by
    intro start previous hr
    rw [scanned_moved, ScanResult.moved, hr]
    rfl
  have hblock : ∀ {start : Nat} {previous : Option Block},
      (scanned (before ++ pulses) (before.length + start) previous).block? previous
        = (scanned pulses start previous).block? previous := by
    intro start previous
    rw [scanned_moved]
    rfl
  induction h with
  | open_end hs =>
      refine .open_end ?_
      rw [scanned_moved, ScanResult.moved, hs]
      rfl
  | last hs hr hm => exact .last (hstop hs) (hnone hr) (by rw [hseek, hm]; rfl)
  | resume hs hr _ ih => exact .resume (hstop hs) (hresume hr) (by rw [hblock]; exact ih)
  | seek hs hr hm _ ih =>
      exact .seek (hstop hs) (hnone hr) (by rw [hseek, hm]; rfl) (by rw [hblock]; exact ih)

end

/-! ### The first block of a disk -/

/-- Zeros at the end of bits do not reach beyond a one. -/
lemma zeroTail_append_one_le (u w : List Bool) : zeroTail (u ++ true :: w) ≤ w.length := by
  induction w using List.reverseRecOn with
  | nil => simp
  | append_singleton w b ih =>
      rw [← List.cons_append, ← List.append_assoc, zeroTail_concat, List.length_append,
        List.length_singleton]
      split <;> omega

section

variable {pulses : List Pulse}

/-- Behind the mark of a disk header the first 18 pulses carry 22 bits and a one. -/
lemma exists_demodulate_signature (h : Capture.headerSignature <+: pulses) :
    ∃ u v, demodulate true ((pulses.drop 1).take 18) = u ++ [true] ∧ u.length = 22
      ∧ demodulate true (pulses.drop 1) = u ++ true :: v := by
  obtain ⟨rest, rfl⟩ := h
  have htake : ((Capture.headerSignature ++ rest).drop 1).take 18
      = (Capture.headerSignature.drop 1).take 18 := rfl
  obtain ⟨u, hu, hread⟩ : ∃ u : List Bool, u.length = 22
      ∧ demodulate true ((Capture.headerSignature.drop 1).take 18) = u ++ [true] :=
    ⟨(demodulate true ((Capture.headerSignature.drop 1).take 18)).take 22, by decide, by decide⟩
  obtain ⟨behind, hbehind⟩ : ∃ behind, (Capture.headerSignature ++ rest).drop 1
      = (Capture.headerSignature.drop 1).take 18 ++ behind :=
    ⟨_, (List.take_append_drop 18 ((Capture.headerSignature ++ rest).drop 1)).symm⟩
  have hbits := demodulate_append true ((Capture.headerSignature.drop 1).take 18) behind
  rw [← hbehind, hread, List.append_assoc] at hbits
  exact ⟨u, _, by rw [htake, hread], hu, hbits⟩

/-- The bits behind these were read from later pulses. -/
lemma le_of_getElem?_signature {j : Nat} {x : Bool × Nat} (h : Capture.headerSignature <+: pulses)
    (hx : (demodulateAt true 1 (pulses.drop 1))[j]? = some x) (hj : 23 ≤ j) : 19 ≤ x.2 := by
  obtain ⟨u, v, hread, hu, -⟩ := exists_demodulate_signature h
  obtain ⟨i, hi, -, -, hlt, -⟩ := getElem?_demodulateAt (b := x.1) hx
  by_contra hlow
  have hmono := length_demodulate_take_mono true (pulses.drop 1) (show i + 1 ≤ 18 by omega)
  rw [hread, List.length_append, hu, List.length_singleton] at hmono
  omega

/-- **The first end on a disk** lies well behind the mark of its header. -/
lemma le_scanned_of_signature (h : Capture.headerSignature <+: pulses) :
    (∀ n : Nat, (scanned pulses 1 none).stop = some (n : Int) → 19 ≤ n)
      ∧ ∀ n : Nat, (scanned pulses 1 none).resume = some (n : Int) → 19 ≤ n := by
  have hmin : ({} : Thresholds).minGap = 768 := rfl
  obtain ⟨u, v, -, hu, hbits⟩ := exists_demodulate_signature h
  have houtcome := scanFrom_usual none 1 (pulses.drop 1)
  rw [← scanned] at houtcome
  generalize scanned pulses 1 none = res at houtcome
  cases houtcome with
  | @mark j x y marks _ _ stop resume =>
      rw [map_fst_demodulateAt, hbits] at marks stop
      have hgap := marks.2.1
      have hle := zeroTail_le ((u ++ true :: v).take j)
      rw [List.length_take] at hle
      -- the zeros of the gap stand behind the one
      have htail : zeroTail ((u ++ true :: v).take j) ≤ j - 23 := by
        have hone := zeroTail_append_one_le u (v.take (j - 23))
        rw [List.length_take] at hone
        rw [List.take_append, List.take_of_length_le (by omega), hu,
          show j - 22 = j - 23 + 1 by omega, List.take_succ_cons]
        omega
      have hx := le_of_getElem?_signature h stop (by omega)
      have hy := le_of_getElem?_signature h resume (by omega)
      constructor
      · intro n hn
        have hn' := Option.some.inj hn
        omega
      · intro n hn
        have hn' := Option.some.inj hn
        omega
  | @check k x checks _ _ stop =>
      have hk := checks.1
      have hx := le_of_getElem?_signature h stop (by omega)
      constructor
      · intro n hn
        have hn' := Option.some.inj hn
        omega
      · intro n hn
        cases hn
  | none =>
      constructor
      · intro n hn
        cases hn
      · intro n hn
        cases hn

/-- So all ends on a disk do. -/
lemma Ends.le_of_signature {stops : List Nat} (h : Capture.headerSignature <+: pulses)
    (hends : Ends pulses 1 none stops) : ∀ s ∈ stops, 19 ≤ s := by
  obtain ⟨hstop, hresume⟩ := le_scanned_of_signature h
  have hnext : ∀ {n next : Nat} {block : Option Block} {stops : List Nat}, 19 ≤ n → 19 ≤ next →
      Ends pulses next block stops → ∀ s ∈ n :: stops, 19 ≤ s := by
    intro n next block stops hn hnext hrest s hs
    rcases List.mem_cons.mp hs with rfl | hs
    · exact hn
    · exact Nat.le_trans hnext (hrest.le.2 s hs).1
  cases hends with
  | open_end => simp
  | last hs => simpa using hstop _ hs
  | resume hs hr hrest => exact hnext (hstop _ hs) (Nat.le_succ_of_le (hresume _ hr)) hrest
  | seek hs _ hm hrest =>
      have hlt := Capture.Head.lt_offset_of_seek hm
      exact hnext (hstop _ hs) (Nat.le_trans (hstop _ hs) (Nat.le_of_lt hlt)) hrest

/-- **The ends on a disk** are those that it has alone. -/
lemma exists_blockEnds_append (before : List Pulse) (h : Capture.headerSignature <+: pulses) :
    ∃ stops : List Nat, blockEnds pulses 0 {} = .ok (stops.map Nat.cast)
      ∧ blockEnds (before ++ pulses) before.length {}
        = .ok ((stops.map (before.length + ·)).map Nat.cast)
      ∧ ∀ s ∈ stops, 16 ≤ s ∧ s ≤ pulses.length := by
  obtain ⟨stops, hends⟩ := exists_ends pulses 1 none
  refine ⟨stops, blockEnds_of_ends hends, blockEnds_of_ends (hends.moved before), ?_⟩
  intro s hs
  have hge := hends.le_of_signature h s hs
  exact ⟨by omega, (hends.le.2 s hs).2⟩

end

end Recovery

end FamicomDisk
