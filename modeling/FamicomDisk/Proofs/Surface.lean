import FamicomDisk.Capture.Search
import FamicomDisk.Proofs.Modulation
import FamicomDisk.Proofs.Recorded

/-!
The surface of a recorded side.

Every mark is a one behind zeros, so it is a medium pulse, and the modulation of what follows does
not depend on what came before. The capture of bit strings behind marks is thus a lead-in of short
pulses, a medium one, and the pulses of the bit strings one after the other, with a medium pulse
between them (`modulate_track`), and so is the capture of a layout (`modulate_layoutOf`).

* `Recorded.IsReadAt.length_eq`: how many bits a reader has taken when it has a block and its check.
* `track`, `surface`: the pulses of bit strings, and those of blocks and their gaps.
* `seek_behind`, `seek_eq_none`: looking for the next mark stops at the end of a gap, also behind a
  few other bits, and finds nothing where no gap ends.
* `findHeader?_leadIn`: the disk header is found behind the lead-in, unless that is as long as the
  window.
-/

namespace FamicomDisk

open Mfm

/-! ### The pulses of a block -/

namespace Recorded

/-- The bits from behind the mark of a block on: the block, its check, and zeros. -/
def bits (r : Recorded) (zeros : Nat) : List Bool :=
  Bits.ofBytes r.bytes ++ List.replicate zeros false

/-- The pulses of these bits. -/
def pulses (r : Recorded) (zeros : Nat) : List Pulse := modulator.run .one (r.bits zeros)

variable (r : Recorded)

@[simp] lemma length_bits (zeros : Nat) : (r.bits zeros).length = 8 * r.bytes.length + zeros := by
  simp [bits]

lemma demodulate_pulses {zeros : Nat} (h : 2 ≤ zeros) :
    demodulate true (r.pulses zeros) = r.bits zeros :=
  demodulate_run_append_zeros (show Phase.one ≠ .zeroAfterOne by decide) (Bits.ofBytes r.bytes) h

lemma final_pulses {zeros : Nat} (h : 2 ≤ zeros) :
    demodulator.final true (r.pulses zeros) = false := by
  have hf := final_run .one (r.bits zeros)
  rwa [bits, final_append_zeros _ _ h] at hf

/-- **A cut behind the check**: the pulses before it carry the block and some zeros, those behind
it the other zeros. -/
lemma exists_cut_behind {zeros m : Nat} (hm : m ≤ (r.pulses zeros).length)
    (h : 8 * r.bytes.length ≤ (demodulate true ((r.pulses zeros).take m)).length) :
    ∃ before behind phase, before + behind = zeros ∧ phase ≠ .zeroAfterOne
      ∧ demodulate true ((r.pulses zeros).take m) = r.bits before
      ∧ demodulator.final true ((r.pulses zeros).take m) = phase.last
      ∧ (r.pulses zeros).drop m = modulator.run phase (List.replicate behind false) := by
  obtain ⟨u, v, phase, huv, hne, hread, hfinal, hrest⟩ := exists_cut .one (r.bits zeros) m hm
  have hu : (Bits.ofBytes r.bytes).length ≤ u.length := by
    rw [← hread, Bits.length_ofBytes]
    exact h
  -- the cut lies in the zeros, so both sides of it are known
  rw [Phase.pending, List.nil_append, bits] at huv
  obtain ⟨u', rfl⟩ : Bits.ofBytes r.bytes <+: u :=
    List.prefix_of_prefix_length_le ⟨_, rfl⟩ ⟨_, huv⟩ hu
  rw [List.append_assoc] at huv
  have hzeros := List.append_cancel_left huv
  obtain ⟨hlen, hu', hv⟩ := List.append_eq_replicate_iff.mp hzeros
  refine ⟨u'.length, v.length, phase, hlen, hne, ?_, hfinal, ?_⟩
  · rw [bits, ← hu']
    exact hread
  · rw [← hv]
    exact hrest

/-- The first `m` pulses carry the block and its check, and at most one more bit. One pulse less
does not. -/
structure IsReadAt (r : Recorded) (ps : List Pulse) (m : Nat) : Prop where
  le : m ≤ ps.length
  le_length : 8 * r.bytes.length ≤ (demodulate true (ps.take m)).length
  length_le : (demodulate true (ps.take m)).length ≤ 8 * r.bytes.length + 1
  least : (demodulate true (ps.take (m - 1))).length < 8 * r.bytes.length

/-- The bits of the gap that a reader of the block and its check takes along. There is one if the
check leaves a zero pending, as the pulse that carries it carries the first zero of the gap, too. -/
def overhang (r : Recorded) : Nat := (modulator.final .one (Bits.ofBytes r.bytes)).pending.length

variable {r}

/-- Pulses that carry more bits are not left. -/
lemma IsReadAt.of_append {ps tail : List Pulse} {m : Nat} (h : r.IsReadAt (ps ++ tail) m)
    (hps : 8 * r.bytes.length + 2 ≤ (demodulate true ps).length) : r.IsReadAt ps m := by
  obtain ⟨-, hge, hle, hleast⟩ := h
  have hm : m ≤ ps.length := by
    by_contra hgt
    rw [List.take_append, List.take_of_length_le (by omega), demodulate_append,
      List.length_append] at hle
    omega
  rw [List.take_append_of_le_length hm] at hge hle
  rw [List.take_append_of_le_length (by omega)] at hleast
  exact ⟨hm, hge, hle, hleast⟩

variable (r) in
lemma overhang_le : r.overhang ≤ 1 := by
  rw [overhang]
  cases modulator.final .one (Bits.ofBytes r.bytes) <;> simp [Phase.pending]

/-- **What a reader has taken** when it has the block and its check: these, and the bits that hang
over. -/
lemma IsReadAt.length_eq {rest : List Bool} {m : Nat}
    (h : r.IsReadAt (modulator.run .one (Bits.ofBytes r.bytes ++ false :: rest)) m) :
    (demodulate true ((modulator.run .one (Bits.ofBytes r.bytes ++ false :: rest)).take m)).length
      = 8 * r.bytes.length + r.overhang := by
  obtain ⟨-, hge, hle, hleast⟩ := h
  have hread := congrArg List.length (demodulate_run .one (Bits.ofBytes r.bytes))
  have hlast := final_run .one (Bits.ofBytes r.bytes)
  rw [List.length_append, Phase.pending, List.nil_append, Bits.length_ofBytes] at hread
  rw [overhang]
  rw [Machine.run_append] at hge hle hleast ⊢
  generalize modulator.run .one (Bits.ofBytes r.bytes) = block at *
  generalize modulator.final .one (Bits.ofBytes r.bytes) = phase at *
  generalize htail : modulator.run phase (false :: rest) = tail at *
  change (demodulate true block).length + _ = _ at hread
  have hmono := fun {i j : Nat} => @length_demodulate_take_mono true (block ++ tail) i j
  have hblock : (demodulate true ((block ++ tail).take block.length)).length
      = (demodulate true block).length := by rw [List.take_left]
  by_cases hphase : phase = .zeroAfterOne
  · -- the pulse behind those of the block carries its last bit and the first one of the gap
    subst hphase
    have hmedium : (block ++ tail).take (block.length + 1) = block ++ [.medium] := by
      rw [← htail, Machine.run_cons]
      exact List.take_length_add_append 1
    have hmore : (demodulate true ((block ++ tail).take (block.length + 1))).length
        = (demodulate true block).length + 2 := by
      rw [hmedium, demodulate_append, List.length_append,
        show demodulator.final true block = true from hlast]
      rfl
    rw [Phase.pending, List.length_singleton] at hread ⊢
    have hupper : m ≤ block.length + 1 := by
      by_contra hgt
      have htaken := @hmono (block.length + 1) (m - 1) (by omega)
      omega
    have hlower : block.length < m := by
      by_contra hge
      have htaken := @hmono m block.length (by omega)
      omega
    obtain rfl : m = block.length + 1 := by omega
    omega
  · rw [Phase.pending_of_ne hphase, List.length_nil, Nat.add_zero] at hread ⊢
    have hupper : m ≤ block.length := by
      by_contra hgt
      have htaken := @hmono block.length (m - 1) (by omega)
      omega
    have htaken := hmono hupper
    omega

end Recorded

/-! ### Tracks -/

/-- Behind the zeros of a gap a mark is a medium pulse. -/
lemma run_mark {bits : List Bool} {phase : Phase} (h : modulator.final phase bits = .zero)
    (rest : List Bool) :
    modulator.run phase (bits ++ true :: rest)
      = modulator.run phase bits ++ .medium :: modulator.run .one rest := by
  rw [Machine.run_append, h, Machine.run_cons]
  rfl

/-- The pulses of bit strings from behind the first mark on, with a mark before each of the others. -/
def track : List (List Bool) → List Pulse
  | [] => []
  | [u] => modulator.run .one u
  | u :: v :: us => modulator.run .one (u ++ List.replicate 7 false) ++ .medium :: track (v :: us)

/-- A bit string behind the byte of its mark. -/
def afterMark (u : List Bool) : List Bool := List.replicate 7 false ++ true :: u

/-- Behind a mark, the modulation of marked bit strings is their track. -/
lemma run_track (u : List Bool) (us : List (List Bool)) :
    modulator.run .one (u ++ us.flatMap afterMark) = track (u :: us) := by
  induction us generalizing u with
  | nil => exact congrArg (modulator.run .one) (List.append_nil u)
  | cons v us ih =>
      have hf : modulator.final .one (u ++ List.replicate 7 false) = .zero :=
        final_append_zeros _ _ (by decide)
      calc modulator.run .one (u ++ (v :: us).flatMap afterMark)
          = modulator.run .one
              ((u ++ List.replicate 7 false) ++ true :: (v ++ us.flatMap afterMark)) := by
            rw [List.flatMap_cons, afterMark, List.append_assoc, List.append_assoc,
              List.cons_append]
        _ = track (u :: v :: us) := by rw [run_mark hf, ih, track]

/-- **The capture of marked bit strings**: a lead-in of short pulses, the first mark, and the track,
whatever the bits. -/
lemma modulate_track (leadIn : Nat) (u : List Bool) (us : List (List Bool)) :
    modulate (List.replicate leadIn false ++ (u :: us).flatMap afterMark)
      = List.replicate (leadIn + 7) .short ++ .medium :: track (u :: us) := by
  have hlead : List.replicate leadIn false ++ (u :: us).flatMap afterMark
      = List.replicate (leadIn + 7) false ++ true :: (u ++ us.flatMap afterMark) := by
    rw [List.flatMap_cons, afterMark, List.append_assoc, ← List.append_assoc,
      List.replicate_append_replicate, List.cons_append]
  rw [modulate, hlead, run_mark (final_zero_zeros _), run_zero_zeros, run_track]

/-! ### The pulses of a side -/

/-- The zeros behind a block that is the last one. -/
def lastZeros : Nat := 8 * Layout.gap

/-- The zeros behind a block that is not the last one: the gap and those of the next mark. -/
def innerZeros : Nat := 8 * Layout.gap + 7

/-- The pulses of recorded blocks from behind the first mark on. -/
def surface : List Recorded → List Pulse
  | [] => []
  | [r] => r.pulses lastZeros
  | r :: r' :: rs => r.pulses innerZeros ++ .medium :: surface (r' :: rs)

lemma surface_cons (r r' : Recorded) (rs : List Recorded) :
    surface (r :: r' :: rs) = r.pulses innerZeros ++ .medium :: surface (r' :: rs) := rfl

/-- A mark that stands behind some pulses, and what stands behind it. -/
lemma mark_of_drop {pulses ps rest : List Pulse} {start : Nat}
    (h : pulses.drop start = ps ++ .medium :: rest) :
    pulses[start + ps.length]? = some .medium ∧ pulses.drop (start + ps.length + 1) = rest := by
  constructor
  · rw [← List.getElem?_drop, h, List.getElem?_append_right (Nat.le_refl _), Nat.sub_self]
    rfl
  · rw [Nat.add_assoc, ← List.drop_drop, h, ← List.drop_drop, List.drop_left]
    rfl

/-- Behind the pulses of a block stand the mark of the next one and the surface from there on. -/
lemma surface_next {pulses : List Pulse} {start : Nat} {r r' : Recorded} {rs : List Recorded}
    (h : pulses.drop start = surface (r :: r' :: rs)) :
    pulses[start + (r.pulses innerZeros).length]? = some .medium
      ∧ pulses.drop (start + (r.pulses innerZeros).length + 1) = surface (r' :: rs) :=
  mark_of_drop h

/-- The zeros behind a block, told by the blocks that follow it. -/
def zerosBefore : List Recorded → Nat
  | [] => lastZeros
  | _ :: _ => innerZeros

/-- A surface begins with the pulses of its first block. -/
lemma exists_surface_eq (r : Recorded) (rs : List Recorded) :
    ∃ more, surface (r :: rs) = r.pulses (zerosBefore rs) ++ more := by
  cases rs with
  | nil => exact ⟨[], (List.append_nil _).symm⟩
  | cons r' rs => exact ⟨_, rfl⟩

lemma ofBytes_framed (r : Recorded) :
    Bits.ofBytes r.framed = List.replicate 7 false ++ true :: r.bits lastZeros := by
  rw [Recorded.framed, gapEndMark, List.cons_append, Bits.ofBytes_cons, Bits.ofByte_mark,
    Bits.ofBytes_append, Bits.ofBytes_replicate_zero, List.append_assoc, Recorded.bits]
  rfl

/-- A surface is the track of the bits of its blocks and gaps. -/
lemma surface_eq_track (rs : List Recorded) : surface rs = track (rs.map (·.bits lastZeros)) := by
  induction rs using surface.induct with
  | case1 => rfl
  | case2 r => rfl
  | case3 r r' rs ih =>
      have hz : r.bits lastZeros ++ List.replicate 7 false = r.bits innerZeros := by
        rw [Recorded.bits, List.append_assoc, List.replicate_append_replicate]
        rfl
      rw [surface_cons, ih, Recorded.pulses, ← hz]
      rfl

/-- **The capture of a layout**: a lead-in of short pulses, the first mark, and the surface of its
blocks. -/
theorem modulate_layoutOf (leadIn : Nat) (r : Recorded) (rs : List Recorded) :
    modulate (List.replicate leadIn false ++ Bits.ofBytes (layoutOf (r :: rs)))
      = List.replicate (leadIn + 7) .short ++ .medium :: surface (r :: rs) := by
  have hbits : Bits.ofBytes (layoutOf (r :: rs))
      = ((r :: rs).map (·.bits lastZeros)).flatMap afterMark := by
    have hframed : (fun r : Recorded => Bits.ofBytes r.framed)
        = fun r => afterMark (r.bits lastZeros) := funext ofBytes_framed
    rw [List.flatMap_map, ← hframed]
    exact List.flatMap_assoc
  rw [hbits, surface_eq_track, List.map_cons, modulate_track]

/-- A capture of any length that can be asked for is the modulation of its bits. -/
lemma modulateBytes_eq {leadIn : Nat} (h : (leadIn : Int) ≤ maxLength) (dat : List UInt8) :
    modulateBytes dat leadIn
      = .ok (modulate (List.replicate leadIn false ++ Bits.ofBytes dat)) := by
  have hmax : maxLength = 0x7fffffffffffffff := rfl
  rw [modulateBytes, if_neg (by omega), if_neg (by omega)]
  rfl

lemma modulate_eq_of_modulateBytes {leadIn : Nat} {dat : List UInt8} {pulses : List Pulse}
    (h : modulateBytes dat leadIn = .ok pulses) :
    modulate (List.replicate leadIn false ++ Bits.ofBytes dat) = pulses := by
  have hmax : (leadIn : Int) ≤ maxLength := by
    by_contra hgt
    rw [modulateBytes, if_pos (.inr (by omega))] at h
    simp [throw, throwThe, MonadExceptOf.throw] at h
  exact Except.ok.inj ((modulateBytes_eq hmax dat).symm.trans h)

/-! ### The next mark -/

namespace Capture

/-- The pulses at the end of a gap: short ones, and the medium one of the mark. -/
def gapEnd : List Pulse := List.replicate minGap .short ++ [.medium]

namespace Head

lemma seek_shorts (least run offset n : Nat) (ps : List Pulse) :
    seek least run offset (List.replicate n .short ++ ps)
      = seek least (run + n) (offset + n) ps := by
  induction n generalizing run offset with
  | zero => rfl
  | succ n ih =>
      rw [List.replicate_succ, List.cons_append, seek, ih]
      congr 1 <;> omega

/-- Looking for a mark goes forward. -/
lemma lt_offset_of_seek {least run offset : Nat} {ps : List Pulse} {h : Head}
    (e : seek least run offset ps = some h) : offset < h.offset := by
  fun_induction seek least run offset ps with
  | case1 => simp at e
  | case2 _ _ _ ih =>
      have hlt := ih e
      omega
  | case3 =>
      obtain rfl := Option.some.inj e
      exact Nat.lt_succ_self _
  | case4 _ _ _ _ ih =>
      have hlt := ih e
      omega
  | case5 _ _ _ _ _ _ ih =>
      have hlt := ih e
      omega

/-- Fewer pulses than the short ones of a gap do not end one. -/
lemma exists_seek_few {least run offset : Nat} {xs : List Pulse} (h : run + xs.length < least)
    (ys : List Pulse) :
    ∃ run' ≤ run + xs.length,
      seek least run offset (xs ++ ys) = seek least run' (offset + xs.length) ys := by
  induction xs generalizing run offset with
  | nil => exact ⟨run, Nat.le_refl _, rfl⟩
  | cons x xs ih =>
      rw [List.length_cons] at h
      have hlen : offset + (x :: xs).length = offset + 1 + xs.length := by
        rw [List.length_cons]
        omega
      rw [List.cons_append, hlen, List.length_cons]
      cases x with
      | short =>
          obtain ⟨run', hle, hseek⟩ := @ih (run + 1) (offset + 1) (by omega)
          exact ⟨run', by omega, hseek⟩
      | medium =>
          obtain ⟨run', hle, hseek⟩ := @ih 0 (offset + 1) (by omega)
          refine ⟨run', by omega, ?_⟩
          rw [seek, if_neg (by omega), hseek]
      | long | glitch | unknown =>
          obtain ⟨run', hle, hseek⟩ := @ih 0 (offset + 1) (by omega)
          exact ⟨run', by omega, hseek⟩

/-- Behind a few bits, whatever they are, and the zeros of a gap the mark at its end is found. -/
lemma seek_behind {least n offset : Nat} {u : List Bool} (phase : Phase) (hu : u.length < least)
    (hn : least + 2 ≤ n) (rest : List Pulse) :
    seek least 0 offset (modulator.run phase (u ++ List.replicate n false) ++ .medium :: rest)
      = some ⟨offset + (modulator.run phase (u ++ List.replicate n false)).length + 1, rest⟩ := by
  obtain ⟨k, rfl⟩ := Nat.exists_eq_add_of_le' (show 2 ≤ n by omega)
  have hlen := length_run_le phase u
  obtain ⟨p, shorts, hzeros, hle, hp⟩ := exists_run_zeros (modulator.final phase u) k
  obtain ⟨run, hrun, hseek⟩ := @exists_seek_few least 0 offset (modulator.run phase u) (by omega)
    (p :: List.replicate shorts .short ++ .medium :: rest)
  rw [Machine.run_append, hzeros, List.append_assoc, hseek, List.cons_append]
  have hend : ∀ m offset, least ≤ m + shorts →
      seek least m offset (List.replicate shorts .short ++ .medium :: rest)
        = some ⟨offset + shorts + 1, rest⟩ := by
    intro m offset hm
    rw [seek_shorts, seek, if_pos hm]
  rw [List.length_append, List.length_cons, List.length_replicate]
  rcases hp with rfl | rfl
  · rw [seek, hend _ _ (by omega)]
    congr 2
    omega
  · rw [seek, if_neg (by omega), hend _ _ (by omega)]
    congr 2
    omega

/-- In the zeros of a gap the mark at its end is found. -/
lemma seek_gap {least n offset : Nat} (phase : Phase) (hl : 0 < least) (hn : least + 2 ≤ n)
    (rest : List Pulse) :
    seek least 0 offset (modulator.run phase (List.replicate n false) ++ .medium :: rest)
      = some ⟨offset + (modulator.run phase (List.replicate n false)).length + 1, rest⟩ :=
  seek_behind phase (u := []) hl hn rest

/-- Behind a few bits, and in zeros without an end, no mark is found. -/
lemma seek_zeros {least n offset : Nat} {u : List Bool} (phase : Phase) (hu : u.length < least) :
    seek least 0 offset (modulator.run phase (u ++ List.replicate (n + 2) false)) = none := by
  have hlen := length_run_le phase u
  obtain ⟨p, shorts, hzeros, -, hp⟩ := exists_run_zeros (modulator.final phase u) n
  obtain ⟨run, hrun, hseek⟩ := @exists_seek_few least 0 offset (modulator.run phase u) (by omega)
    (p :: List.replicate shorts .short)
  have hs : ∀ run offset k, seek least run offset (List.replicate k .short) = none := by
    intro run offset k
    rw [← List.append_nil (List.replicate k _), seek_shorts, seek]
  rw [Machine.run_append, hzeros, hseek]
  rcases hp with rfl | rfl
  · exact hs _ _ _
  · rw [seek, if_neg (by omega), hs]

/-- Where no gap ends, no mark is found. -/
lemma seek_eq_none {least run offset : Nat} {ps : List Pulse}
    (h : ∀ i, ¬ (List.replicate least Pulse.short ++ [Pulse.medium])
      <+: (List.replicate run Pulse.short ++ ps).drop i) :
    seek least run offset ps = none := by
  -- what stands behind a pulse that is not short is free of gap ends, too
  have hbehind : ∀ {run p ps},
      (∀ i, ¬ (List.replicate least Pulse.short ++ [Pulse.medium])
        <+: (List.replicate run Pulse.short ++ p :: ps).drop i) →
      ∀ i, ¬ (List.replicate least Pulse.short ++ [Pulse.medium])
        <+: (List.replicate 0 Pulse.short ++ ps).drop i := by
    intro run p ps h i hp
    refine h (run + 1 + i) ?_
    rwa [Nat.add_assoc, ← List.drop_drop, List.drop_left' List.length_replicate, Nat.add_comm 1 i,
      List.drop_succ_cons]
  induction ps generalizing run offset with
  | nil => rfl
  | cons p ps ih =>
      cases p with
      | short =>
          rw [seek]
          refine ih ?_
          intro i
          rw [List.replicate_succ', List.append_assoc]
          exact h i
      | medium =>
          rw [seek, if_neg]
          · exact ih (hbehind h)
          · intro hle
            refine h (run - least) ?_
            rw [List.drop_append_of_le_length (by simp), List.drop_replicate,
              show run - (run - least) = least by omega]
            exact ⟨ps, by simp⟩
      | long | glitch | unknown => exact ih (hbehind h)

end Head

/-! ### The first block -/

lemma headerSignature_eq : ∃ ps, headerSignature = .medium :: ps := ⟨_, rfl⟩

lemma length_headerSignature : headerSignature.length = 32 := rfl

lemma firstOccurrence?_shorts (offset n : Nat) (ps : List Pulse) :
    firstOccurrence? headerSignature offset (List.replicate n .short ++ ps)
      = firstOccurrence? headerSignature (offset + n) ps := by
  obtain ⟨sig, hsig⟩ := headerSignature_eq
  induction n generalizing offset with
  | zero => rfl
  | succ n ih =>
      rw [List.replicate_succ, List.cons_append, firstOccurrence?, if_neg, ih]
      · congr 1
        omega
      · rw [hsig]
        simp [List.isPrefixOf]

lemma firstOccurrence?_eq_none {offset : Nat} {ps : List Pulse}
    (h : ps.length < headerSignature.length) :
    firstOccurrence? headerSignature offset ps = none := by
  induction ps generalizing offset with
  | nil => rfl
  | cons p ps ih =>
      rw [firstOccurrence?, if_neg, ih (by rw [List.length_cons] at h; omega)]
      intro hp
      have hle := (List.isPrefixOf_iff_prefix.mp hp).length_le
      omega

/-- **The disk header** is found behind the lead-in, unless that is as long as the window. -/
lemma findHeader?_leadIn {bound n : Nat} {rest : List Pulse}
    (h : headerSignature <+: .medium :: rest) :
    findHeader? bound (List.replicate n .short ++ .medium :: rest)
      = if n + headerSignature.length ≤ bound then some n else none := by
  rw [findHeader?, List.take_append, List.length_replicate, List.take_replicate,
    firstOccurrence?_shorts]
  split
  · next hle =>
    rw [Nat.zero_add, Nat.min_eq_right (by omega)]
    have hpre : headerSignature <+: (Pulse.medium :: rest).take (bound - n) :=
      (List.prefix_take_iff).mpr ⟨h, by omega⟩
    rw [length_headerSignature] at hle
    obtain ⟨k, hk⟩ := Nat.exists_eq_add_of_lt (show 0 < bound - n by omega)
    rw [Nat.zero_add] at hk
    rw [hk, List.take_succ_cons] at hpre ⊢
    rw [firstOccurrence?, if_pos (List.isPrefixOf_iff_prefix.mpr hpre)]
  · next hlt =>
    refine firstOccurrence?_eq_none ?_
    rw [List.length_take, length_headerSignature]
    rw [length_headerSignature] at hlt
    omega

/-- A disk header shows its signature on a track. -/
lemma headerSignature_prefix_track {u : List Bool} (us : List (List Bool))
    (h : Bits.ofBytes diskTitle <+: u) : headerSignature <+: .medium :: track (u :: us) := by
  have htitle : headerSignature <+: .medium :: modulator.run .one (Bits.ofBytes diskTitle) := by
    decide
  obtain ⟨more, rfl⟩ := h
  refine htitle.trans (List.prefix_cons_inj _ |>.mpr ?_)
  cases us with
  | nil =>
      rw [track, Machine.run_append]
      exact List.prefix_append _ _
  | cons v us =>
      rw [track, List.append_assoc, Machine.run_append, List.append_assoc]
      exact List.prefix_append _ _

/-- A disk header shows its signature on the surface. -/
lemma headerSignature_prefix_surface {rs : List Recorded} (h : HasTitle (rs.map Recorded.block)) :
    headerSignature <+: .medium :: surface rs := by
  obtain ⟨r, rs, rfl, more, hdata⟩ := h.exists_cons
  have hbits : Bits.ofBytes diskTitle <+: r.bits lastZeros := by
    rw [Recorded.bits, Recorded.bytes, ← hdata, List.append_assoc, Bits.ofBytes_append,
      List.append_assoc]
    exact List.prefix_append _ _
  rw [surface_eq_track, List.map_cons]
  exact headerSignature_prefix_track _ hbits

end Capture

end FamicomDisk
