import FamicomDisk.Proofs.Ends
import Mathlib.Data.List.Basic

/-!
Where the scans of a surface stop.

The scan of a block is followed by that of the next one, which begins behind the mark that was seen,
or else behind the next gap. On a surface these are the marks of its blocks, so the ends of all
blocks are found, one behind the other, unless a scan goes astray within a block.

* `Scannable`: blocks whose scans stop at their ends.
* `Stops`: where the scans of blocks stop.
* `blockEndsFrom_surface`: **the ends of the blocks of a surface**, by induction over the blocks.
-/

namespace FamicomDisk

open Mfm

namespace Recovery

/-! ### Blocks that are scanned -/

/-- Blocks whose scans stop at their ends: an early end leaves nothing behind, the declared size is
not too large where the check is not right, and, unless scans may go `astray`, no mark seems to
stand within a block. What a scan takes for a block is the block before the next one. -/
def Scannable (astray : Prop) (previous : Option Block) : List Recorded → Prop
  | [] => True
  | r :: rs =>
      3 ≤ r.bytes.length
        ∧ (r.IsIntact ∨ declaredExtent previous (r.bytes.take 1) ≤ r.bytes.length)
        ∧ (∀ k, r.EndsEarly k → ∀ b ∈ r.bytes.drop k, b = 0)
        ∧ (astray ∨ ∀ j < 8 * r.bytes.length, ¬ MarksAt {} previous (Bits.ofBytes r.bytes) j)
        ∧ ∀ data, Taken r data → Scannable astray (some ⟨data⟩) rs

/-- Where the scans of blocks stop, the pulses of the first of which begin at `start`. -/
inductive Stops (astray : Prop) : Nat → List Recorded → List Nat → Prop where
  /-- The last block has its end. -/
  | last {start m : Nat} {r : Recorded} (behind : r.ZerosBehind lastZeros m) :
      Stops astray start [r] [start + m]
  /-- The last block has no end: its check is not right. -/
  | open_end {start : Nat} {r : Recorded} (bad : ¬ r.IsIntact) : Stops astray start [r] []
  /-- A block has its end, and another one follows. -/
  | next {start m : Nat} {r r' : Recorded} {rs : List Recorded} {stops : List Nat}
      (behind : r.ZerosBehind innerZeros m)
      (rest : Stops astray (start + (r.pulses innerZeros).length + 1) (r' :: rs) stops) :
      Stops astray start (r :: r' :: rs) ((start + m) :: stops)
  /-- The scan of a block goes astray, and the next one begins within it. -/
  | astray {start m q : Nat} {r : Recorded} {rs : List Recorded} {stops : List Nat}
      (allowed : astray) (torn : r.TornAt (zerosBefore rs) m q)
      (rest : ∀ s ∈ stops, start + q < s) : Stops astray start (r :: rs) ((start + m) :: stops)

section

variable {pulses : List Pulse} {start : Nat} {previous : Option Block} {found : List Int}
  {rounds : Nat}

/-- The scan of the block whose pulses begin at `start`. -/
def scanned (pulses : List Pulse) (start : Nat) (previous : Option Block) : ScanResult :=
  scanFrom {} previous start true { zerosStart := start } (pulses.drop start)

/-- The block before the next one, as a scan has found it. -/
def ScanResult.block? (res : ScanResult) (previous : Option Block) : Option Block :=
  if res.data.isEmpty then previous else some ⟨res.data⟩

lemma scanBlock_eq (hstart : 1 ≤ start) (pulses : List Pulse) (previous : Option Block) :
    scanBlock pulses ((start : Int) - 1) {} previous = .ok (scanned pulses start previous) := by
  rw [scanBlock, readFrom, Int.sub_add_cancel, if_pos (by omega)]
  rfl

/-- A scan stops, and sees the next mark, behind the place where it began. -/
lemma le_stop_scanned (pulses : List Pulse) (start : Nat) (previous : Option Block) :
    (∀ stop, (scanned pulses start previous).stop = some stop →
        ∃ n : Nat, stop = n ∧ start ≤ n ∧ n ≤ pulses.length)
      ∧ ∀ next, (scanned pulses start previous).resume = some next →
          ∃ n : Nat, next = n ∧ start ≤ n := by
  have houtcome := scanFrom_usual previous start (pulses.drop start)
  rw [← scanned] at houtcome
  have hplace : ∀ {j : Nat} {x : Bool × Nat},
      (demodulateAt true start (pulses.drop start))[j]? = some x →
      start ≤ x.2 ∧ x.2 < pulses.length := by
    intro j x hx
    obtain ⟨i, hi, hlt, -⟩ := getElem?_demodulateAt (b := x.1) hx
    rw [List.length_drop] at hlt
    omega
  generalize scanned pulses start previous = res at houtcome
  cases houtcome with
  | mark _ _ _ stop resume =>
      constructor
      · intro stop' e
        obtain rfl := Option.some.inj e
        exact ⟨_, Int.zero_add _, (hplace stop).1, Nat.le_of_lt (hplace stop).2⟩
      · intro next e
        obtain rfl := Option.some.inj e
        exact ⟨_, Int.zero_add _, (hplace resume).1⟩
  | check _ _ _ stop =>
      constructor
      · intro stop' e
        obtain rfl := Option.some.inj e
        obtain ⟨hle, hlt⟩ := hplace stop
        exact ⟨_, by rw [Int.zero_add]; exact (Int.natCast_succ _).symm, by omega, hlt⟩
      · intro next e
        cases e
  | none =>
      constructor
      · intro stop e
        cases e
      · intro next e
        cases e

/-- With the usual thresholds the next gap end is the next mark. -/
lemma nextGapEnd?_eq (n : Nat) (pulses : List Pulse) :
    nextGapEnd? {} (placeAt pulses n)
      = .ok ((Capture.Head.seek minGap 0 n (pulses.drop n)).map
          fun mark => (mark.offset : Int) - 1) := by
  have hrange : inRange ({} : Thresholds).minGap = true := by decide
  have hplace : placeAt pulses n = ⟨n, pulses.drop n⟩ := by
    rw [placeAt, if_pos (by omega)]
    rfl
  have hmin : min 0 ({} : Thresholds).minGap = 0 := by decide
  rw [nextGapEnd?, hplace, hrange, hmin]
  simp only [Int.add_zero]
  rfl

/-- Without an end of the block nothing more is scanned. -/
lemma blockEndsFrom_open (hstart : 1 ≤ start) (h : (scanned pulses start previous).stop = none) :
    blockEndsFrom pulses {} (rounds + 1) found ((start : Int) - 1) previous = .ok found := by
  rw [blockEndsFrom, scanBlock_eq hstart]
  simp only [bind, Except.bind, h]
  rfl

/-- Behind a mark that was seen the next block is scanned. -/
lemma blockEndsFrom_resume {stop next : Int} (hstart : 1 ≤ start)
    (hs : (scanned pulses start previous).stop = some stop)
    (hr : (scanned pulses start previous).resume = some next) :
    blockEndsFrom pulses {} (rounds + 1) found ((start : Int) - 1) previous
      = blockEndsFrom pulses {} rounds (stop :: found) next
          ((scanned pulses start previous).block? previous) := by
  rw [blockEndsFrom, scanBlock_eq hstart]
  simp only [bind, Except.bind, hs, hr]
  rfl

/-- If no mark was seen, the next block is the one behind the next mark. -/
lemma blockEndsFrom_seek {stop : Nat} (hstart : 1 ≤ start)
    (hs : (scanned pulses start previous).stop = some (stop : Int))
    (hr : (scanned pulses start previous).resume = none) :
    blockEndsFrom pulses {} (rounds + 1) found ((start : Int) - 1) previous
      = match Capture.Head.seek minGap 0 stop (pulses.drop stop) with
        | some mark => blockEndsFrom pulses {} rounds (stop :: found) ((mark.offset : Int) - 1)
            ((scanned pulses start previous).block? previous)
        | none => .ok (stop :: found) := by
  rw [blockEndsFrom, scanBlock_eq hstart]
  simp only [bind, Except.bind, hs, hr, nextGapEnd?_eq]
  cases Capture.Head.seek minGap 0 stop (pulses.drop stop) <;> rfl

/-- The ends of blocks are found one behind the other, whatever the capture. -/
lemma blockEndsFrom_forward (pulses : List Pulse) (rounds : Nat) (found : List Int)
    (previous : Option Block) (hstart : 1 ≤ start) :
    ∃ stops : List Nat, blockEndsFrom pulses {} rounds found ((start : Int) - 1) previous
        = .ok ((stops.map Nat.cast).reverse ++ found)
      ∧ ∀ s ∈ stops, start ≤ s ∧ s ≤ pulses.length := by
  induction rounds generalizing start found previous with
  | zero => exact ⟨[], rfl, by simp⟩
  | succ rounds ih =>
      obtain ⟨hstop, hresume⟩ := le_stop_scanned pulses start previous
      -- one more end, and those behind it
      have hnext : ∀ {n next : Nat} {block : Option Block}, start ≤ n → n ≤ pulses.length →
          start ≤ next → ∃ stops : List Nat,
            blockEndsFrom pulses {} rounds ((n : Int) :: found) ((next : Int) - 1) block
              = .ok ((stops.map Nat.cast).reverse ++ found)
            ∧ ∀ s ∈ stops, start ≤ s ∧ s ≤ pulses.length := by
        intro n next block hn hle hlt
        obtain ⟨stops, heq, hall⟩ := ih ((n : Int) :: found) block (show 1 ≤ next by omega)
        refine ⟨n :: stops, by rw [heq]; simp, ?_⟩
        intro s hs
        rcases List.mem_cons.mp hs with rfl | hs
        · exact ⟨hn, hle⟩
        · have hs' := hall s hs
          omega
      cases hs : (scanned pulses start previous).stop with
      | none => exact ⟨[], blockEndsFrom_open hstart hs, by simp⟩
      | some stop =>
          obtain ⟨n, rfl, hn, hle⟩ := hstop stop hs
          cases hr : (scanned pulses start previous).resume with
          | some next =>
              obtain ⟨n', rfl, hn'⟩ := hresume next hr
              have hplace : ((n' : Nat) : Int) = ((n' + 1 : Nat) : Int) - 1 := by omega
              rw [blockEndsFrom_resume hstart hs hr, hplace]
              exact hnext hn hle (by omega)
          | none =>
              rw [blockEndsFrom_seek hstart hs hr]
              cases hm : Capture.Head.seek minGap 0 n (pulses.drop n) with
              | none => exact ⟨[n], rfl, by simpa using ⟨hn, hle⟩⟩
              | some mark =>
                  have hlt := Capture.Head.lt_offset_of_seek hm
                  exact hnext hn hle (by omega)

/-- Where the scan of a block goes astray, the next one begins within the block. -/
lemma blockEndsFrom_astray {astray : Prop} {r : Recorded} {rs : List Recorded} {m q : Nat}
    (hstart : 1 ≤ start) (allowed : astray)
    (h : StopsWithin r (zerosBefore rs) start m q (scanned pulses start previous)) :
    ∃ stops : List Nat, blockEndsFrom pulses {} (rounds + 1) found ((start : Int) - 1) previous
        = .ok ((stops.map Nat.cast).reverse ++ found) ∧ Stops astray start (r :: rs) stops := by
  have hplace : ((start + q : Nat) : Int) = ((start + q + 1 : Nat) : Int) - 1 := by omega
  obtain ⟨stops, heq, hle⟩ := blockEndsFrom_forward pulses rounds
    (((start + m : Nat) : Int) :: found) ((scanned pulses start previous).block? previous)
    (show 1 ≤ start + q + 1 by omega)
  refine ⟨(start + m) :: stops, ?_, .astray allowed h.torn fun s hs => (hle s hs).1⟩
  rw [blockEndsFrom_resume hstart h.stop_eq h.resume_eq, hplace, heq]
  simp

/-- Where the scan of a block has found its end, the next block is scanned from behind the next
mark, however that was found. -/
lemma blockEndsFrom_next {r r' : Recorded} {rs : List Recorded} {m : Nat} (hstart : 1 ≤ start)
    (hdrop : pulses.drop start = surface (r :: r' :: rs))
    (h : EndsAt r innerZeros start m (scanned pulses start previous)) :
    blockEndsFrom pulses {} (rounds + 1) found ((start : Int) - 1) previous
      = blockEndsFrom pulses {} rounds (((start + m : Nat) : Int) :: found)
          (((start + (r.pulses innerZeros).length + 1 : Nat) : Int) - 1)
          (some ⟨(scanned pulses start previous).data⟩) := by
  have hinner : innerZeros = 975 := rfl
  have hmin : minGap = 768 := rfl
  have hm := h.zerosBehind.1
  have hblock : (scanned pulses start previous).block? previous
      = some ⟨(scanned pulses start previous).data⟩ := by
    obtain ⟨k, hk, hdata, -⟩ := h.taken
    rw [ScanResult.block?, if_neg]
    rw [hdata, List.isEmpty_iff, ← List.length_eq_zero_iff, List.length_take, List.length_append,
      List.length_replicate, r.length_bytes]
    omega
  rcases h.resume_eq with hresume | hresume
  · obtain ⟨n, phase, hn, hphase, -, -, hzeros⟩ := h.zerosBehind.exists_drop
    have hseek : Capture.Head.seek minGap 0 (start + m) (pulses.drop (start + m))
        = some ⟨start + (r.pulses innerZeros).length + 1, surface (r' :: rs)⟩ := by
      have hlen := congrArg List.length hzeros
      rw [List.length_drop] at hlen
      rw [← List.drop_drop, hdrop, surface_cons, List.drop_append_of_le_length hm, hzeros,
        Capture.Head.seek_gap phase (by decide) (by omega), ← hlen]
      congr 2
      omega
    rw [blockEndsFrom_seek hstart h.stop_eq hresume, hseek, hblock]
  · have hmark : ((start + (r.pulses innerZeros).length : Nat) : Int)
        = ((start + (r.pulses innerZeros).length + 1 : Nat) : Int) - 1 := by omega
    rw [blockEndsFrom_resume hstart h.stop_eq hresume, hmark, hblock]

/-- **The ends of the blocks of a surface**, by induction over the blocks. -/
lemma blockEndsFrom_surface {astray : Prop} {r : Recorded} {rs : List Recorded}
    (found : List Int) (hstart : 1 ≤ start) (hdrop : pulses.drop start = surface (r :: rs))
    (hrounds : rs.length < rounds) (h : Scannable astray previous (r :: rs)) :
    ∃ stops : List Nat, blockEndsFrom pulses {} rounds found ((start : Int) - 1) previous
        = .ok ((stops.map Nat.cast).reverse ++ found) ∧ Stops astray start (r :: rs) stops := by
  obtain ⟨rounds, rfl⟩ := Nat.exists_eq_add_of_lt hrounds
  induction rs generalizing r start found previous with
  | nil =>
      obtain ⟨h3, -, hearly, hmarks, -⟩ := h
      have hscan := scanFrom_last previous start h3 hearly
      have hsurface : surface [r] = r.pulses lastZeros := rfl
      rw [← hsurface, ← hdrop, ← scanned] at hscan
      rcases hscan with ⟨m, hends, hresume⟩ | ⟨hbad, hnone⟩ | ⟨⟨j, hj, hmark⟩, m, q, hwithin⟩
      · obtain ⟨n, phase, hn, hphase, -, -, hzeros⟩ := hends.zerosBehind.exists_drop
        have hlast : lastZeros = 968 := rfl
        obtain ⟨k, rfl⟩ := Nat.exists_eq_add_of_le' (show 2 ≤ n by omega)
        have hseek : Capture.Head.seek minGap 0 (start + m) (pulses.drop (start + m)) = none := by
          rw [← List.drop_drop, hdrop, hsurface, hzeros]
          exact Capture.Head.seek_zeros phase (u := []) (by decide)
        rw [blockEndsFrom_seek hstart hends.stop_eq hresume, hseek]
        exact ⟨[start + m], rfl, .last hends.zerosBehind⟩
      · exact ⟨[], blockEndsFrom_open hstart hnone, .open_end hbad⟩
      · rcases hmarks with hallowed | hno
        · exact blockEndsFrom_astray hstart hallowed hwithin
        · exact absurd hmark (hno j hj)
  | cons r' rs ih =>
      obtain ⟨h3, hextent, hearly, hmarks, hrest⟩ := h
      have hscan := scanFrom_inner start (surface (r' :: rs)) h3 hextent hearly
      rw [← surface_cons, ← hdrop, ← scanned] at hscan
      rcases hscan with ⟨m, hends⟩ | ⟨⟨j, hj, hmark⟩, m, q, hwithin⟩
      · obtain ⟨-, hdrop'⟩ := surface_next hdrop
        obtain ⟨stops, heq, hstops⟩ := ih (((start + m : Nat) : Int) :: found) (by omega) hdrop'
          (hrest _ hends.taken) (by omega)
        refine ⟨(start + m) :: stops, ?_, .next hends.zerosBehind hstops⟩
        have hrounds : (r' :: rs).length + rounds = rs.length + rounds + 1 := by
          rw [List.length_cons]
          omega
        calc blockEndsFrom pulses {} ((r' :: rs).length + rounds + 1) found ((start : Int) - 1)
              previous
            = .ok ((stops.map Nat.cast).reverse ++ ((start + m : Nat) : Int) :: found) := by
              rw [blockEndsFrom_next hstart hdrop hends, hrounds, heq]
          _ = .ok ((((start + m) :: stops).map Nat.cast).reverse ++ found) := by simp
      · rcases hmarks with hallowed | hno
        · exact blockEndsFrom_astray hstart hallowed hwithin
        · exact absurd hmark (hno j hj)

lemma length_le_length_track (us : List (List Bool)) : us.length ≤ (track us).length + 1 := by
  induction us using track.induct with
  | case1 => simp
  | case2 u => simp
  | case3 u v us ih =>
      rw [track, List.length_append]
      simp only [List.length_cons] at ih ⊢
      omega

/-- The ends that are found one behind the other are the ends of the blocks. -/
lemma blockEnds_eq {mark : Nat} {stops : List Nat}
    (h : blockEndsFrom pulses {} (maxRounds pulses {}) [] (((mark + 1 : Nat) : Int) - 1) none
      = .ok ((stops.map Nat.cast).reverse ++ [])) :
    blockEnds pulses mark {} = .ok (stops.map Nat.cast) ∧ ∀ s ∈ stops, s ≤ pulses.length := by
  have hmark : ((mark : Nat) : Int) = ((mark + 1 : Nat) : Int) - 1 := by omega
  obtain ⟨stops', heq, hle⟩ := blockEndsFrom_forward pulses (maxRounds pulses {}) [] none
    (show 1 ≤ mark + 1 by omega)
  have hsame : stops' = stops := by
    rw [h, Except.ok.injEq, List.append_nil, List.append_nil, List.reverse_inj] at heq
    exact (List.map_injective_iff.mpr (fun _ _ => Int.ofNat.inj) heq).symm
  subst hsame
  refine ⟨?_, fun s hs => (hle s hs).2⟩
  rw [blockEnds, hmark, h]
  simp [bind, Except.bind, pure, Except.pure]

/-- The ends of the blocks of a surface, in the order of the blocks. -/
theorem blockEnds_surface {astray : Prop} {mark : Nat} {r : Recorded} {rs : List Recorded}
    (hdrop : pulses.drop (mark + 1) = surface (r :: rs)) (h : Scannable astray none (r :: rs)) :
    ∃ stops : List Nat, blockEnds pulses mark {} = .ok (stops.map Nat.cast)
      ∧ (∀ s ∈ stops, s ≤ pulses.length) ∧ Stops astray (mark + 1) (r :: rs) stops := by
  have hrounds : rs.length < maxRounds pulses {} := by
    have hlen := length_le_length_track ((r :: rs).map (·.bits lastZeros))
    rw [← surface_eq_track, ← hdrop, List.length_drop, List.length_map, List.length_cons] at hlen
    have hmax : maxRounds pulses {} = pulses.length + 1 := rfl
    omega
  obtain ⟨stops, heq, hstops⟩ := blockEndsFrom_surface [] (by omega) hdrop hrounds h
  obtain ⟨hends, hle⟩ := blockEnds_eq heq
  exact ⟨stops, hends, hle, hstops⟩

end

end Recovery

end FamicomDisk
