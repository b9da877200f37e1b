import FamicomDisk.Proofs.Assembling
import FamicomDisk.Proofs.Marking

/-!
What is assembled from a marked surface.

On a surface the assembly reads each block up to its first mark, and takes what follows for the gap:
zeros, the pulse of the next mark, and, if the mark was pulled back over ones, these ones, for which
it writes zeros. So the layout has a piece for each block, which is the block unless such ones are
lost or the gap ends within the block.

* `Assembly.InBlock.run`, `Assembly.InGap.run`: runs that stay in a block or in a gap.
* `Assembly.InBlock.run_cut`: a run over a block with a mark, up to the next one.
* `Restores`: what pieces have to do with the blocks that they were made of.
* `reconstruct_layoutOf`: **the recovery of a recorded side** succeeds, and its layout is made of
  such pieces.
-/

namespace FamicomDisk

open Mfm

namespace Recovery

namespace Assembly

variable {th : Thresholds} {marks : Marks} {a : Assembly} {lead n debt start : Nat}
  {ps : List Piece} {kept : List UInt8} {rest : List Bool} {zeros : Int}

/-! ### Longer runs -/

lemma run_append (th : Thresholds) (marks : Marks) (a : Assembly) (offset : Int)
    (xs ys : List Pulse) :
    run th marks a offset (xs ++ ys)
      = run th marks (run th marks a offset xs) (offset + xs.length) ys := by
  induction xs generalizing a offset with
  | nil => rw [List.nil_append, List.length_nil, Int.natCast_zero, Int.add_zero, run]
  | cons x xs ih =>
      rw [List.cons_append, run, ih, run, List.length_cons]
      congr 1
      omega

lemma last_run (th : Thresholds) (marks : Marks) (a : Assembly) (offset : Int)
    (xs : List Pulse) : (run th marks a offset xs).last = demodulator.final a.last xs := by
  induction xs generalizing a offset with
  | nil => rfl
  | cons x xs ih =>
      rw [run, ih, last_step, Machine.final_cons]
      rfl

/-- Without a mark all bits belong to the block. -/
lemma InBlock.run (h : a.InBlock th lead ps rest) (xs : List Pulse)
    (hm : ∀ i < xs.length, marks.contains ((start + i : Nat) : Int) = false) :
    (Assembly.run th marks a start xs).InBlock th lead ps (rest ++ demodulate a.last xs) := by
  induction xs generalizing a rest start with
  | nil =>
      rw [demodulate_nil, List.append_nil]
      exact h
  | cons x xs ih =>
      have hfirst := hm 0 (by simp)
      rw [Nat.add_zero] at hfirst
      have hstep : (a.step th marks start x).InBlock th lead ps _ := h.step hfirst
      have hlater : ∀ i < xs.length, marks.contains ((start + 1 + i : Nat) : Int) = false := by
        intro i hi
        rw [Nat.add_right_comm]
        exact hm (i + 1) (by simpa using hi)
      have hrest := ih hstep hlater
      rw [last_step, List.append_assoc, ← demodulate_cons] at hrest
      exact hrest

lemma zerosAfter_append (zeros : Int) (xs ys : List Bool) :
    zerosAfter zeros (xs ++ ys) = zerosAfter (zerosAfter zeros xs) ys := List.foldl_append

lemma zerosAfter_zeros (zeros : Int) (n : Nat) :
    zerosAfter zeros (List.replicate n false) = zeros + n := by
  induction n generalizing zeros with
  | zero => simp [zerosAfter]
  | succ n ih =>
      rw [List.replicate_succ, ← List.singleton_append, zerosAfter_append, ih]
      change zeros + 1 + (n : Int) = zeros + (n + 1 : Nat)
      omega

lemma zerosAfter_ones (n : Nat) : zerosAfter 0 (List.replicate n true) = 0 := by
  induction n with
  | zero => rfl
  | succ n ih => exact ih

/-- Bits in which no one stands behind a whole gap belong to the gap. -/
lemma InGap.run {bits : List Bool} (h : a.InGap th lead ps kept n zeros debt) (marks : Marks)
    (offset : Int) (xs : List Pulse) (hbits : demodulate a.last xs = bits)
    (hshort : ∀ u, u ++ [true] <+: bits → zerosAfter zeros u < th.minGap) :
    (Assembly.run th marks a offset xs).InGap th lead ps kept (n + (bits.length - debt))
      (zerosAfter zeros bits) (debt - bits.length) := by
  induction xs generalizing a n zeros debt bits offset with
  | nil =>
      obtain rfl : [] = bits := hbits
      simpa [zerosAfter, Assembly.run] using h
  | cons x xs ih =>
      rw [demodulate_cons] at hbits
      subst hbits
      have hzeros : ¬ ((decode a.last x).1 = [true] ∧ th.minGap ≤ zeros) := by
        rintro ⟨hone, hle⟩
        have hlt := hshort [] (by rw [hone]; exact List.prefix_append _ _)
        have hsame : zerosAfter zeros [] = zeros := rfl
        omega
      have hstep : (a.step th marks offset x).InGap th lead ps kept _ _ _ := h.step_zeros hzeros
      have hrest := ih hstep (offset + 1) (by rw [last_step]) fun u hu => by
        rw [← zerosAfter_append]
        refine hshort _ ?_
        rw [List.append_assoc]
        exact (List.prefix_append_right_inj _).mpr hu
      rw [← zerosAfter_append] at hrest
      rw [List.length_append]
      have hn : n + ((decode a.last x).1.length - debt)
            + ((demodulate (decode a.last x).2 xs).length - (debt - (decode a.last x).1.length))
          = n + ((decode a.last x).1.length + (demodulate (decode a.last x).2 xs).length
            - debt) := by omega
      rw [hn, Nat.sub_sub] at hrest
      exact hrest

/-! ### A block with a mark -/

/-- Before a one bit of ones and zeros there are only ones. -/
lemma eq_replicate_of_concat_le {u : List Bool} {ones zeros : Nat}
    (h : u ++ [true] <+: List.replicate ones true ++ List.replicate zeros false) :
    u = List.replicate u.length true := by
  obtain ⟨v, hv⟩ := h
  have hlt : u.length < ones := by
    by_contra hge
    have hget : (List.replicate ones true ++ List.replicate zeros false)[u.length]?
        = some true := by
      rw [← hv]
      simp
    rw [List.getElem?_append_right (by simpa using hge), List.getElem?_replicate] at hget
    split at hget <;> simp at hget
  have htake := congrArg (List.take u.length) hv
  rw [List.append_assoc, List.take_left, List.take_append_of_le_length (by simp; omega),
    List.take_replicate, Nat.min_eq_left (by omega)] at htake
  exact htake

lemma length_take_lt_of_cutAt {qs : List Pulse} {m ones zeros : Nat} (cut : CutAt qs m ones zeros) :
    m < qs.length := by
  by_contra hge
  have hgap := cut.gap
  have hmin : minGap = 768 := rfl
  have hlen := congrArg List.length cut.bits_eq
  rw [List.take_of_length_le (by omega)] at hlen
  simp only [List.length_append, List.length_replicate] at hlen
  omega

/-- **The first mark of a block**: the pulses before it belong to the block, and it ends there. -/
lemma InBlock.run_mark {qs : List Pulse} {m : Nat} (h : a.InBlock th lead ps rest)
    (hm : m < qs.length) (first : FirstMark marks start m) :
    (Assembly.run th marks a start (qs.take m)).InBlock th lead ps
        (rest ++ demodulate a.last (qs.take m))
      ∧ Assembly.run th marks a start qs
        = Assembly.run th marks
            ((Assembly.run th marks a start (qs.take m)).endBlock ((start + m : Nat) : Int)
              (joined lead ps).length) ((start + m : Nat) : Int) (qs.drop m) := by
  have hunmarked : ∀ i < (qs.take m).length,
      marks.contains ((start + i : Nat) : Int) = false := by
    intro i hi
    rw [List.length_take] at hi
    exact first.2 i (by omega)
  have hblock := h.run (qs.take m) hunmarked
  have hmark : marks.contains ((start + m : Nat) : Int) = true := first.1
  have hplace : (start : Int) + ((qs.take m).length : Nat) = ((start + m : Nat) : Int) := by
    rw [List.length_take]
    omega
  refine ⟨hblock, ?_⟩
  rw [← List.take_append_drop m qs, run_append, List.take_append_drop, hplace,
    List.drop_eq_getElem_cons hm, Assembly.run, Assembly.run, step_marked hmark hblock.place_eq]

/-- **A run over a block with a mark**: what stands before the mark is kept, and the rest of the
block is gap, if no one stands behind a whole gap in it. -/
lemma InBlock.run_gap {qs : List Pulse} {m : Nat} {bits : List Bool} (h : a.InBlock {} lead ps [])
    (hlast : a.last = true) (first : FirstMark marks start m) (hm : m < qs.length)
    (hbits : demodulate true qs = demodulate true (qs.take m) ++ bits) (hlong : 7 ≤ bits.length)
    (hshort : ∀ u, u ++ [true] <+: bits → zerosAfter 0 u < ({} : Thresholds).minGap) :
    (Assembly.run {} marks a start qs).InGap {} lead ps
      (Bits.pack (demodulate true (qs.take m)
        ++ List.replicate (padding (demodulate true (qs.take m)).length) false))
      (bits.length - padding (demodulate true (qs.take m)).length) (zerosAfter 0 bits) 0 := by
  have hpad : padding (demodulate true (qs.take m)).length ≤ 7 := by
    rw [padding]
    omega
  have hread : demodulate (demodulator.final true (qs.take m)) (qs.drop m) = bits := by
    rw [← List.take_append_drop m qs, demodulate_append, List.take_append_drop] at hbits
    exact List.append_cancel_left hbits
  -- the block ends at the mark, and the rest is read in its gap
  obtain ⟨hblock, hsplit⟩ := h.run_mark hm first
  rw [List.nil_append, hlast] at hblock
  have hlast' := last_run {} marks a start (qs.take m)
  rw [hlast] at hlast'
  have hend := hblock.endBlock ((start + m : Nat) : Int)
  have hgapBits : demodulate ((Assembly.run {} marks a start (qs.take m)).endBlock
      ((start + m : Nat) : Int) (joined lead ps).length).last (qs.drop m) = bits := by
    rw [← hread, ← hlast']
    exact congrArg (demodulate · _) (extends_foldl_emit _ _ _).2.2
  have hrun := hend.run marks ((start + m : Nat) : Int) (qs.drop m) hgapBits hshort
  rw [← hsplit, Nat.zero_add, show padding (demodulate true (qs.take m)).length - bits.length = 0
    by omega] at hrun
  exact hrun

/-- A run over a block with a mark behind which there are ones and then zeros. -/
lemma InBlock.run_cut {qs : List Pulse} {m ones zeros : Nat} (h : a.InBlock {} lead ps [])
    (hlast : a.last = true) (first : FirstMark marks start m) (cut : CutAt qs m ones zeros) :
    (Assembly.run {} marks a start qs).last = false
      ∧ (Assembly.run {} marks a start qs).InGap {} lead ps
        (Bits.pack (demodulate true (qs.take m)
          ++ List.replicate (padding (demodulate true (qs.take m)).length) false))
        (ones + zeros - padding (demodulate true (qs.take m)).length) zeros 0 := by
  have hgap := cut.gap
  have hmin : minGap = 768 := rfl
  constructor
  · obtain ⟨k, rfl⟩ := Nat.exists_eq_add_of_le' (show 1 ≤ zeros by omega)
    rw [last_run, hlast, final_eq_getLastD, cut.bits_eq, List.replicate_succ', ← List.append_assoc,
      ← List.append_assoc, List.getLastD_concat]
  · have hrun := h.run_gap hlast first (length_take_lt_of_cutAt cut) cut.bits_eq
      (by rw [List.length_append, List.length_replicate, List.length_replicate]; omega) fun u hu => by
      -- ones stand at the front only, so no zeros stand before them
      rw [eq_replicate_of_concat_le hu, zerosAfter_ones]
      decide
    rwa [List.length_append, List.length_replicate, List.length_replicate, zerosAfter_append,
      zerosAfter_ones, zerosAfter_zeros, Int.zero_add] at hrun

/-- The piece that is left of a block whose bits before its mark are `bits`: these, filled up, and
`n` bytes of zeros. -/
def pieceOf (bits : List Bool) (n : Nat) (gap : Option Int) : Piece :=
  ⟨Bits.pack (bits ++ List.replicate (padding bits.length) false), n, gap⟩

lemma ofBytes_pieceOf (bits : List Bool) (n : Nat) (gap : Option Int) :
    Bits.ofBytes (pieceOf bits n gap).payload
      = bits ++ List.replicate (padding bits.length + 8 * n) false := by
  have hdvd : 8 ∣ (bits ++ List.replicate (padding bits.length) false).length := by
    rw [List.length_append, List.length_replicate, padding]
    omega
  rw [Piece.payload, pieceOf, Bits.ofBytes_append, Bits.ofBytes_pack hdvd,
    Bits.ofBytes_replicate_zero, List.append_assoc, List.replicate_append_replicate]

end Assembly

/-! ### Pieces and blocks -/

/-- A block ends in a long run of ones, and perhaps zeros. When all of these ones but the first
become zeros, the bytes are left. -/
def Wipes (r : Recorded) (bytes : List UInt8) : Prop :=
  ∃ front ones zeros, 900 < ones
    ∧ Bits.ofBytes r.bytes = front ++ (List.replicate ones true ++ List.replicate zeros false)
    ∧ (front = [] ∨ [false, true] <:+ front)
    ∧ Bits.ofBytes bytes = front ++ List.replicate (ones + zeros) false

/-- What pieces have to do with the blocks that they were made of. Behind a piece that lost
something there may be others than those of the blocks. -/
inductive Restores (astray : Prop) : List Recorded → List Piece → Prop where
  | nil : Restores astray [] []
  /-- The block and the zeros behind it, before a whole gap. -/
  | exact {r : Recorded} {rs : List Recorded} {p : Piece} {ps : List Piece}
      (payload_eq : p.payload = r.bytes ++ List.replicate Layout.gap 0)
      (gap_le : ∀ n, p.gap = some n → (minGap : Int) ≤ n) (rest : Restores astray rs ps) :
      Restores astray (r :: rs) (p :: ps)
  /-- A run of ones at the end of the block was lost. -/
  | wiped {r : Recorded} {rs : List Recorded} {p : Piece} {ps : List Piece} {bytes : List UInt8}
      (wipes : Wipes r bytes) (payload_eq : p.payload = bytes ++ List.replicate Layout.gap 0) :
      Restores astray (r :: rs) (p :: ps)
  /-- The gap ended within the block. -/
  | torn {r : Recorded} {rs : List Recorded} {p : Piece} {ps : List Piece} (allowed : astray)
      (short : p.payload.length < r.bytes.length) : Restores astray (r :: rs) (p :: ps)

lemma take_bits {r : Recorded} {behind : Nat} (hb : 8 * Layout.gap ≤ behind) :
    (r.bits behind).take (8 * (r.bytes.length + Layout.gap))
      = Bits.ofBytes (r.bytes ++ List.replicate Layout.gap 0) := by
  rw [Recorded.bits, List.take_append, Bits.ofBytes_append, Bits.ofBytes_replicate_zero,
    List.take_of_length_le (by rw [Bits.length_ofBytes]; omega), Bits.length_ofBytes,
    List.take_replicate]
  congr 2
  omega

lemma CutAt.length_eq {r : Recorded} {behind m ones zeros : Nat} (h : 2 ≤ behind)
    (cut : CutAt (r.pulses behind) m ones zeros) :
    (demodulate true ((r.pulses behind).take m)).length + (ones + zeros)
      = 8 * r.bytes.length + behind := by
  have hlen := congrArg List.length cut.bits_eq
  rw [r.demodulate_pulses h, r.length_bits] at hlen
  simpa using hlen.symm

/-- **The piece of a block with a mark**, told by what the mark leaves of the block: as many bytes
are there as in the block and its gap. -/
lemma Restores.of_cut {astray : Prop} {r : Recorded} {rs : List Recorded} {ps : List Piece}
    {gap : Option Int} {behind m ones zeros n : Nat} (hb : 8 * Layout.gap ≤ behind)
    (cut : CutAt (r.pulses behind) m ones zeros)
    (hn : (demodulate true ((r.pulses behind).take m)).length
      + Assembly.padding (demodulate true ((r.pulses behind).take m)).length + 8 * n
        = 8 * (r.bytes.length + Layout.gap))
    (hgap : ∀ n, gap = some n → (minGap : Int) ≤ n) (rest : Restores astray rs ps) :
    Restores astray (r :: rs)
      (Assembly.pieceOf (demodulate true ((r.pulses behind).take m)) n gap :: ps) := by
  have hgap121 : Layout.gap = 121 := rfl
  have hmin : minGap = 768 := rfl
  have hlen := cut.length_eq (by omega)
  obtain ⟨-, hbits, hle, hlong⟩ := cut
  have hfront : m = 0 → demodulate true ((r.pulses behind).take m) = [] := by
    rintro rfl
    rfl
  rw [r.demodulate_pulses (by omega)] at hbits
  generalize demodulate true ((r.pulses behind).take m) = front at hbits hlen hn hlong hfront ⊢
  have hp := Assembly.ofBytes_pieceOf front n gap
  rw [show Assembly.padding front.length + 8 * n
    = 8 * (r.bytes.length + Layout.gap) - front.length by omega] at hp
  rcases hlong with rfl | ⟨hlong, hbegin⟩
  · -- nothing but zeros stands behind the mark
    refine .exact (Bits.ofBytes_injective ?_) hgap rest
    rw [hp, ← take_bits hb, hbits, List.replicate_zero, List.nil_append, List.take_append,
      List.take_replicate, List.take_of_length_le (by omega), Nat.min_eq_left (by omega)]
  · have hones : front.length + ones ≤ 8 * r.bytes.length := by
      by_contra hlt
      have hzero : (r.bits behind)[front.length + ones - 1]? = some false :=
        getElem?_bits_gap (by omega) (by rw [r.length_bits]; omega)
      rw [hbits, List.getElem?_append_right (by omega), List.getElem?_append_left
        (by rw [List.length_replicate]; omega), List.getElem?_replicate, if_pos (by omega)] at hzero
      simp at hzero
    obtain ⟨z, hz⟩ := Nat.exists_eq_add_of_le hones
    have hpacked : Bits.ofBytes (Bits.pack (front ++ List.replicate (ones + z) false))
        = front ++ List.replicate (ones + z) false :=
      Bits.ofBytes_pack
        ⟨r.bytes.length, by rw [List.length_append, List.length_replicate]; omega⟩
    refine .wiped ⟨front, ones, z, hlong, ?_, hbegin.imp_left hfront, hpacked⟩
      (Bits.ofBytes_injective ?_)
    · -- the bits of the block are those before the gap
      have htake := congrArg (List.take (8 * r.bytes.length)) hbits
      rw [Recorded.bits, List.take_left' (Bits.length_ofBytes _), List.take_append,
        List.take_append, List.take_replicate, List.take_replicate, List.length_replicate,
        List.take_of_length_le (by omega), Nat.min_eq_right (by omega)] at htake
      rw [htake]
      congr 3
      omega
    · rw [hp, Bits.ofBytes_append, hpacked, Bits.ofBytes_replicate_zero, List.append_assoc,
        List.replicate_append_replicate]
      congr 2
      omega

/-- **The piece of a block whose gap ends within it** has the bits up to there at most. -/
lemma Restores.of_torn {astray : Prop} {r : Recorded} {rs : List Recorded} {ps : List Piece}
    {behind m k q ones zeros : Nat} (allowed : astray) (torn : r.TornAt behind k q)
    (cut : CutAt ((r.pulses behind).take q) m ones zeros) (gap : Option Int) :
    Restores astray (r :: rs)
      (Assembly.pieceOf (demodulate true (((r.pulses behind).take q).take m))
        ((ones + zeros - Assembly.padding
          (demodulate true (((r.pulses behind).take q).take m)).length) / 8) gap :: ps) := by
  have hlt := torn.lt
  have hlong := cut.gap
  have hmin : minGap = 768 := rfl
  have hbits := congrArg List.length cut.bits_eq
  simp only [List.length_append, List.length_replicate] at hbits
  generalize demodulate true (((r.pulses behind).take q).take m) = front at hbits ⊢
  have hpad : Assembly.padding front.length ≤ 7 := by
    rw [Assembly.padding]
    omega
  have hpayload := congrArg List.length (Assembly.ofBytes_pieceOf front
    ((ones + zeros - Assembly.padding front.length) / 8) gap)
  rw [Bits.length_ofBytes, List.length_append, List.length_replicate] at hpayload
  exact .torn allowed (by omega)

section

variable {astray : Prop} {marks : Marks} {a : Assembly} {start lead : Nat} {rs : List Recorded}
  {ps : List Piece}

/-- Behind a gap the pulse of a mark begins the next block. -/
lemma exists_inBlock_of_inGap {kept : List UInt8} {n debt : Nat} {zeros : Int} {xs : List Pulse}
    (h : (Assembly.run {} marks a start xs).InGap {} lead ps kept n zeros debt)
    (hlast : (Assembly.run {} marks a start xs).last = false) (hzeros : (minGap : Int) ≤ zeros)
    (ys : List Pulse) :
    ∃ a' : Assembly, a'.InBlock {} lead (ps ++ [⟨kept, n / 8, some zeros⟩]) [] ∧ a'.last = true
      ∧ Assembly.run {} marks a start (xs ++ .medium :: ys)
        = Assembly.run {} marks a' ((start + xs.length + 1 : Nat) : Int) ys := by
  have hread : decode (Assembly.run {} marks a start xs).last .medium = ([true], true) := by
    rw [hlast]
    rfl
  refine ⟨(Assembly.run {} marks a start xs).step {} marks (start + (xs.length : Nat)) .medium,
    h.step_mark (by rw [hread]) hzeros, by rw [Assembly.last_step, hread], ?_⟩
  rw [Assembly.run_append, Assembly.run]
  congr 1

/-- **The pieces of a marked surface**, by induction over the blocks. -/
lemma restores_of_marked (h : Marked astray marks start rs) (ha : a.InBlock {} lead ps [])
    (hlast : a.last = true) (offset : Int) :
    ∃ more, IsMadeOf ((Assembly.run {} marks a start (surface rs)).finish {} offset) {} lead
        (ps ++ more) ∧ Restores astray rs more := by
  have hgap : Layout.gap = 121 := rfl
  have hmin : minGap = 768 := rfl
  have hlast' : lastZeros = 968 := rfl
  have hinner : innerZeros = 975 := rfl
  induction h generalizing a ps with
  | @last start m ones zeros r first cut =>
      obtain ⟨-, hrun⟩ := ha.run_cut hlast first cut
      have hlen := cut.length_eq (by omega)
      have hlong := cut.gap
      refine ⟨_, hrun.finish offset, Restores.of_cut (by omega) cut ?_ ?_ .nil⟩
      · rw [Assembly.padding]
        omega
      · rintro n ⟨⟩
  | @open_end start r unmarked =>
      have hrun := ha.run (r.pulses lastZeros) unmarked
      rw [hlast, List.nil_append, r.demodulate_pulses (by omega)] at hrun
      refine ⟨_, hrun.finish offset, .exact (Bits.ofBytes_injective ?_) (by simp) .nil⟩
      have hlen := r.length_bits lastZeros
      have hpad : Assembly.padding (r.bits lastZeros).length + 8 * 0 = 0 := by
        rw [Assembly.padding]
        omega
      rw [← Assembly.pieceOf, Assembly.ofBytes_pieceOf, hpad,
        ← take_bits (show 8 * Layout.gap ≤ lastZeros by omega), List.take_of_length_le (by omega)]
      exact List.append_nil _
  | @next start m ones zeros r r' rs first cut rest ih =>
      obtain ⟨hzero, hrun⟩ := ha.run_cut hlast first cut
      have hlen := cut.length_eq (by omega)
      have hlong := cut.gap
      obtain ⟨a', ha', hlast', heq⟩ := exists_inBlock_of_inGap hrun hzero (by omega)
        (surface (r' :: rs))
      obtain ⟨more, hmade, hrestores⟩ := ih ha' hlast'
      rw [← heq, ← surface_cons, List.append_assoc] at hmade
      refine ⟨_, hmade, Restores.of_cut (by omega) cut ?_ ?_ hrestores⟩
      · rw [Assembly.padding]
        omega
      · intro n hn
        obtain rfl := Option.some.inj hn
        omega
  | @astray start m k q ones zeros r rs allowed first torn cut =>
      obtain ⟨hzero, hrun⟩ := ha.run_cut hlast first cut
      have hlong := cut.gap
      have hq := (List.getElem?_eq_some_iff.mp torn.mark).1
      obtain ⟨more, hmore⟩ := exists_surface_eq r rs
      obtain ⟨a', ha', -, heq⟩ := exists_inBlock_of_inGap hrun hzero (by omega)
        ((r.pulses (zerosBefore rs)).drop (q + 1) ++ more)
      have hsurface : surface (r :: rs) = (r.pulses (zerosBefore rs)).take q
          ++ .medium :: ((r.pulses (zerosBefore rs)).drop (q + 1) ++ more) := by
        have hmedium : (r.pulses (zerosBefore rs))[q] = .medium :=
          (List.getElem?_eq_some_iff.mp torn.mark).2
        rw [hmore, ← List.cons_append, ← hmedium, ← List.drop_eq_getElem_cons hq,
          ← List.append_assoc, List.take_append_drop]
      obtain ⟨others, -, hmade⟩ := (ha'.reached.run marks _ _).finish offset
      rw [← heq, ← hsurface, List.append_assoc] at hmade
      exact ⟨_, hmade, Restores.of_torn allowed torn cut _⟩

end

/-- Behind a lead-in of short pulses and the pulse of a mark stands the first block. -/
lemma drop_leadIn (n : Nat) (rest : List Pulse) :
    (List.replicate n Pulse.short ++ .medium :: rest).drop (n + 1) = rest
      ∧ (List.replicate n Pulse.short ++ .medium :: rest)[n + 1 - 1]? = some .medium := by
  constructor
  · rw [← List.drop_drop, List.drop_left' List.length_replicate]
    rfl
  · rw [Nat.add_sub_cancel, List.getElem?_append_right (Nat.le_of_eq List.length_replicate),
      List.length_replicate, Nat.sub_self]
    rfl

/-- **The recovery of a capture** whose blocks have the ends `stops`, behind a lead-in and the mark of
the first block: the marks are the ends, pulled back, and what is left is the assembly. -/
lemma exists_reconstruct {n : Nat} {rest : List Pulse} {stops : List Nat}
    (hclean : Pulse.glitch ∉ List.replicate n Pulse.short ++ .medium :: rest)
    (hsignature : Capture.headerSignature <+: .medium :: rest)
    (hends : blockEnds (List.replicate n .short ++ .medium :: rest) n {}
      = .ok (stops.map Nat.cast))
    (hle : ∀ s ∈ stops, s ≤ (List.replicate n Pulse.short ++ .medium :: rest).length) :
    ∃ marks a, ∃ offset : Int,
      (∀ k : Nat, marks.contains (k : Int) = true ↔ ∃ s ∈ stops,
        pulledBack (List.replicate n .short ++ .medium :: rest) s = k)
      ∧ Assembly.InBlock {} a 0 [] [] ∧ a.last = true
      ∧ reconstruct (List.replicate n .short ++ .medium :: rest) {}
        = .ok ((Assembly.run {} marks a ((n + 1 : Nat) : Int) rest).finish {} offset) := by
  -- the four searches
  have hglitches := glitchGaps_clean hclean
  have hstart := findStart_leadIn (n := n) hsignature
  obtain ⟨marks, hmarks, hcontains⟩ := consolidate_clean hclean hle
  have hbegin : Assembly.InLead {} { place := .gap none ({} : Thresholds).minGap 0 } 0
      ({} : Thresholds).minGap := ⟨⟨rfl, rfl, rfl, rfl⟩, rfl, rfl⟩
  have hblock : Assembly.InBlock {} (Assembly.step {} marks
      { place := .gap none ({} : Thresholds).minGap 0 } (n : Int) .medium) 0 [] [] :=
    hbegin.step_mark rfl (Int.le_refl _)
  refine ⟨marks, _, max (n : Int) ((List.replicate n Pulse.short ++ .medium :: rest).length - 1),
    hcontains, hblock, by rw [Assembly.last_step]; rfl, ?_⟩
  rw [reconstruct, hglitches]
  simp only [bind, Except.bind, hstart, hends, List.map_nil, List.nil_append, hmarks]
  rw [assemble, readFrom, if_pos (by omega), Int.toNat_natCast,
    List.drop_left' List.length_replicate]
  rfl

/-- **The recovery of a recorded side**: its layout is made of a piece for each block, as far as
nothing was lost. -/
theorem reconstruct_layoutOf {astray : Prop} {r : Recorded} {rs : List Recorded} (leadIn : Nat)
    (hsignature : Capture.headerSignature <+: .medium :: surface (r :: rs))
    (h : Scannable astray none (r :: rs)) :
    ∃ rec ps, reconstruct (modulate (List.replicate leadIn false
        ++ Bits.ofBytes (layoutOf (r :: rs)))) {} = .ok rec
      ∧ IsMadeOf rec {} 0 ps ∧ Restores astray (r :: rs) ps := by
  have hclean := glitch_not_mem_modulate
    (List.replicate leadIn false ++ Bits.ofBytes (layoutOf (r :: rs)))
  rw [modulate_layoutOf] at hclean ⊢
  obtain ⟨hdrop, hmedium⟩ := drop_leadIn (leadIn + 7) (surface (r :: rs))
  obtain ⟨stops, hends, hle, hstops⟩ := blockEnds_surface hdrop h
  obtain ⟨marks, a, offset, hcontains, hblock, hlast, hrec⟩ :=
    exists_reconstruct hclean hsignature hends hle
  have hmarked := marked_of_stops hstops (by omega) hdrop hmedium fun n _ => hcontains n
  obtain ⟨ps, hmade, hrestores⟩ := restores_of_marked hmarked hblock hlast offset
  exact ⟨_, ps, hrec, hmade, hrestores⟩

end Recovery

end FamicomDisk
