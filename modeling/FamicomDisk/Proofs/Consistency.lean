import FamicomDisk.Proofs.Assembling

/-!
The structure of every assembled layout.

Whatever the capture, the marks and the thresholds are, the assembly gives a layout, and what it
tells of the layout fits together. The offsets that the bytes come from are followed through every
step (`Traced.step`), for a byte gets its offset with its first bit and the pulses are read in
order. The blocks are those of the pieces that the layout is made of, so they stand apart from each
other and all else is zero. And a block is verified when the next one begins, which takes a whole
gap, so no gap is ever found to be short.

* `mem_verifyBlock_none`: the faults of a block have its offset, and when a gap is short.
* `Traced`: what holds of the offsets while a layout is assembled; it is kept by a step
  (`Traced.step`) and by a run (`Traced.run`).
* `verifyAll`: the faults of the blocks of a layout, each verified once.
* `exists_isConsistent_assemble`: **every assembled layout is consistent**.
-/

namespace FamicomDisk

/-- The fault of a gap that has too few zeros. -/
def BlockFault.IsShortGap (f : BlockFault) : Prop :=
  ∃ offset bits, f = .badSpacing offset (.shortGap bits)

namespace Recovery

/-! ### The faults of a block -/

section

variable {th : Thresholds} {data : List UInt8} {previous : Option Block} {gap : Option Int}
  {offset : Int} {f : BlockFault}

lemma mem_checkFault? {block : List UInt8} (h : f ∈ checkFault? offset block) :
    f.offset = offset ∧ ¬ f.IsShortGap := by
  rw [checkFault?] at h
  split at h
  · cases h
  · dsimp only at h
    split at h
    · obtain rfl := Option.some.inj h
      exact ⟨rfl, by rintro ⟨_, _, h⟩; cases h⟩
    · cases h

lemma mem_delimit {payload : List UInt8} {size : Option Nat}
    (h : f ∈ (delimit offset payload size).2) : f.offset = offset ∧ ¬ f.IsShortGap := by
  have hspacing : ∀ cause, (∀ n, cause ≠ .shortGap n) → .badSpacing offset cause = f →
      f.offset = offset ∧ ¬ f.IsShortGap := by
    rintro cause hcause rfl
    refine ⟨rfl, ?_⟩
    rintro ⟨_, n, h⟩
    exact hcause n (BlockFault.badSpacing.inj h).2
  cases size with
  | none => cases h
  | some size =>
      simp only [delimit] at h
      split at h
      · exact hspacing _ (by simp) (Option.some.inj h)
      · dsimp only at h
        split at h
        · cases h
        · exact hspacing _ (by simp) (Option.some.inj h)

/-- The faults that a block has by itself, and that of the gap behind it, if it is short. -/
lemma verifyBlock_cases (data : List UInt8) (previous : Option Block) (gap : Option Int)
    (th : Thresholds) (offset : Int) :
    verifyBlock data previous gap th offset = verifyBlock data previous none th offset
      ∨ ∃ n, gap = some n ∧ n < th.minGap
        ∧ verifyBlock data previous gap th offset
          = verifyBlock data previous none th offset ++ [.badSpacing offset (.shortGap n)] := by
  cases gap with
  | none => exact .inl rfl
  | some n =>
      simp only [verifyBlock]
      cases data.drop 1 with
      | nil => exact .inl rfl
      | cons code rest =>
          by_cases hlt : n < th.minGap
          · exact .inr ⟨n, rfl, hlt, by simp [hlt]⟩
          · exact .inl (by simp [hlt])

/-- The faults of a block have its offset. -/
lemma mem_verifyBlock_none (h : f ∈ verifyBlock data previous none th offset) :
    f.offset = offset ∧ ¬ f.IsShortGap := by
  simp only [verifyBlock] at h
  cases hdata : data.drop 1 with
  | nil =>
      rw [hdata] at h
      obtain rfl := List.mem_singleton.mp h
      exact ⟨rfl, by rintro ⟨_, _, h⟩; cases h⟩
  | cons code rest =>
      rw [hdata] at h
      simp only [List.append_nil, List.mem_append, Option.mem_toList] at h
      obtain (htype | hspacing) | hcheck := h
      · split at htype
        · cases htype
        · obtain rfl := List.mem_singleton.mp htype
          exact ⟨rfl, by rintro ⟨_, _, h⟩; cases h⟩
      · exact mem_delimit hspacing
      · exact mem_checkFault? hcheck

/-- A gap that is long enough adds no fault. -/
lemma verifyBlock_of_le (h : ∀ n ∈ gap, th.minGap ≤ n) :
    verifyBlock data previous gap th offset = verifyBlock data previous none th offset := by
  obtain heq | ⟨n, rfl, hlt, -⟩ := verifyBlock_cases data previous gap th offset
  · exact heq
  · have hle := h n rfl
    omega

/-- If no gap is found to be short, the gap adds no fault. -/
lemma verifyBlock_of_not_isShortGap
    (h : ∀ f ∈ verifyBlock data previous gap th offset, ¬ f.IsShortGap) :
    verifyBlock data previous gap th offset = verifyBlock data previous none th offset := by
  obtain heq | ⟨n, -, -, heq⟩ := verifyBlock_cases data previous gap th offset
  · exact heq
  · rw [heq] at h
    exact absurd ⟨offset, n, rfl⟩ (h _ (List.mem_append_right _ (List.mem_singleton_self _)))

end

/-! ### Where the bytes come from -/

namespace Assembly

lemma count_verify (a : Assembly) (th : Thresholds) (start : Option Nat) (stop : Nat)
    (gap : Option Int) : (a.verify th start stop gap).count = a.count := by
  cases start <;> rfl

/-- The last byte is filled, and the last block is verified, if there is one. -/
lemma exists_finish_eq (a : Assembly) (th : Thresholds) (offset : Int) :
    ∃ a' start blocks, a' = (a.emitZeros offset a.toFullByte).verify th start
        ((a.emitZeros offset a.toFullByte).count / 8) none
      ∧ a.finish th offset
        = ⟨Bits.pack a'.bits.reverse, a'.origins.reverse, blocks, a'.faults.reverse⟩ :=
  ⟨_, _, _, rfl, rfl⟩

/-- What holds of the offsets that the bytes come from, newest first, while pulses from `first` to
`now` are read: every byte that has begun has one, they never go back, and no gap was found to be
short so far. -/
structure Traced (first now : Int) (a : Assembly) : Prop where
  count_eq : a.count = a.bits.length
  length_eq : a.origins.length = (a.count + 7) / 8
  sorted : a.origins.Pairwise fun late early => early ≤ late
  mem : ∀ o ∈ a.origins, first ≤ o ∧ o ≤ now
  gaps : ∀ f ∈ a.faults, ¬ f.IsShortGap

namespace Traced

variable {first now offset : Int} {a : Assembly} {th : Thresholds}

lemma mono (h : a.Traced first now) (hnow : now ≤ offset) : a.Traced first offset :=
  { h with mem := fun o ho => ⟨(h.mem o ho).1, Int.le_trans (h.mem o ho).2 hnow⟩ }

/-- The blocks, the block before, the last bit read and the place do not matter. -/
lemma elsewhere (h : a.Traced first now) (blocks : List (Nat × Nat)) (previous : Option Block)
    (last : Bool) (place : Place) :
    ({ a with blocks, previous, last, place } : Assembly).Traced first now :=
  ⟨h.count_eq, h.length_eq, h.sorted, h.mem, h.gaps⟩

variable (hfirst : first ≤ offset)
include hfirst

/-- A bit that begins a byte brings the offset of the byte. -/
lemma emit (h : a.Traced first offset) (b : Bool) : (a.emit offset b).Traced first offset := by
  have hlen := h.length_eq
  by_cases hbegin : a.count % 8 = 0
  · have horigins : (a.emit offset b).origins = offset :: a.origins := if_pos hbegin
    refine ⟨by simp [Assembly.emit, h.count_eq], ?_, ?_, ?_, h.gaps⟩
    · rw [horigins, List.length_cons, Assembly.emit]
      dsimp only
      omega
    · rw [horigins, List.pairwise_cons]
      exact ⟨fun o ho => (h.mem o ho).2, h.sorted⟩
    · rw [horigins, List.forall_mem_cons]
      exact ⟨⟨hfirst, Int.le_refl offset⟩, h.mem⟩
  · have horigins : (a.emit offset b).origins = a.origins := if_neg hbegin
    refine ⟨by simp [Assembly.emit, h.count_eq], ?_, horigins ▸ h.sorted, horigins ▸ h.mem, h.gaps⟩
    rw [horigins, Assembly.emit]
    dsimp only
    omega

lemma foldl_emit (h : a.Traced first offset) (bits : List Bool) :
    (bits.foldl (·.emit offset) a).Traced first offset := by
  induction bits generalizing a with
  | nil => exact h
  | cons b bits ih => exact ih (h.emit hfirst b)

lemma emitZeros (h : a.Traced first offset) (n : Nat) :
    (a.emitZeros offset n).Traced first offset := h.foldl_emit hfirst _

omit hfirst in
/-- Verifying a block adds no fault of a gap that is long enough. -/
lemma verify (h : a.Traced first now) (start : Option Nat) (stop : Nat) {gap : Option Int}
    (hgap : ∀ n ∈ gap, th.minGap ≤ n) : (a.verify th start stop gap).Traced first now := by
  cases start with
  | none => exact h
  | some start =>
      refine ⟨h.count_eq, h.length_eq, h.sorted, h.mem, fun f hf => ?_⟩
      simp only [Assembly.verify, List.reverseAux_eq, List.mem_append, List.mem_reverse] at hf
      rcases hf with hf | hf
      · rw [verifyBlock_of_le hgap] at hf
        exact (mem_verifyBlock_none hf).2
      · exact h.gaps f hf

lemma endBlock (h : a.Traced first offset) (start : Nat) :
    (a.endBlock offset start).Traced first offset :=
  (h.emitZeros hfirst _).elsewhere _ _ _ _

/-- A block begins behind a whole gap. -/
lemma beginBlock (h : a.Traced first offset) (before : Option Nat) {zeros : Int}
    (hgap : th.minGap ≤ zeros) : (a.beginBlock th offset before zeros).Traced first offset := by
  have hverified : ((a.emitZeros offset ((15 - a.count % 8) % 8)).verify th before
      ((a.emitZeros offset ((15 - a.count % 8) % 8)).count / 8) (some zeros)).Traced first offset :=
    (h.emitZeros hfirst _).verify before _ (by simpa using hgap)
  exact (hverified.emit hfirst true).elsewhere _ _ _ _

lemma gapBits (h : a.Traced first offset) (before : Option Nat) (zeros : Int) (debt : Nat)
    (bits : List Bool) :
    (bits.foldl (gapBit offset before) (a, zeros, debt)).1.Traced first offset := by
  induction bits generalizing a zeros debt with
  | nil => exact h
  | cons b bits ih =>
      rw [List.foldl_cons, gapBit]
      dsimp only
      split
      · exact ih ((h.emit hfirst false).elsewhere _ _ _ _) _ _
      · exact ih (h.elsewhere _ _ _ _) _ _

lemma applyMark (h : a.Traced first offset) (marked : Bool) :
    (a.applyMark marked offset).Traced first offset := by
  unfold Assembly.applyMark
  split
  · exact h.endBlock hfirst _
  · exact h

/-- **A step** reads a pulse that is no earlier than those before it. -/
lemma step (h : a.Traced first offset) (marks : Marks) (p : Pulse) :
    (a.step th marks offset p).Traced first offset := by
  have hmarked := (h.applyMark hfirst (marks.contains offset)).elsewhere
  rw [Assembly.step]
  dsimp only
  split
  · exact (hmarked _ _ _ _).foldl_emit hfirst _
  · split
    · next hmark => exact (hmarked _ _ _ _).beginBlock hfirst _ hmark.2
    · exact (hmarked _ _ _ _).gapBits hfirst _ _ _ _

/-- **Every run** leaves the offsets between the first pulse and the last one. -/
lemma run (h : a.Traced first now) (hnow : now ≤ offset) (marks : Marks) (pulses : List Pulse) :
    (Assembly.run th marks a offset pulses).Traced first
      (max now (offset + pulses.length - 1)) := by
  induction pulses generalizing a now offset with
  | nil => exact h.mono (Int.le_max_left ..)
  | cons p pulses ih =>
      have hstep : (a.step th marks offset p).Traced first offset :=
        (h.mono hnow).step hfirst marks p
      refine (ih (by omega) hstep (by omega)).mono ?_
      rw [List.length_cons]
      omega

/-- At the end of the work every byte of the layout has its offset. -/
lemma finish (th : Thresholds) (h : a.Traced first offset) :
    (a.finish th offset).origins.length = (a.finish th offset).layout.length
      ∧ (a.finish th offset).origins.Pairwise (· ≤ ·)
      ∧ (∀ o ∈ (a.finish th offset).origins, first ≤ o ∧ o ≤ offset)
      ∧ ∀ f ∈ (a.finish th offset).diagnostics, ¬ f.IsShortGap := by
  obtain ⟨a', start, blocks, ha', hfinish⟩ := exists_finish_eq a th offset
  have hverified : a'.Traced first offset :=
    ha' ▸ (h.emitZeros hfirst a.toFullByte).verify start _ (by simp)
  obtain ⟨n, hn⟩ : 8 ∣ a'.count := by
    have hfull := (extends_emitZeros a offset a.toFullByte).count_eq
    rw [List.length_replicate, toFullByte] at hfull
    rw [ha', count_verify, toFullByte, hfull]
    omega
  rw [hfinish]
  refine ⟨?_, List.pairwise_reverse.mpr hverified.sorted,
    fun o ho => hverified.mem o (List.mem_reverse.mp ho),
    fun f hf => hverified.gaps f (List.mem_reverse.mp hf)⟩
  have hbits : a'.bits.reverse.length = 8 * n := by
    rw [List.length_reverse, ← hverified.count_eq, hn]
  rw [List.length_reverse, Bits.length_pack hbits, hverified.length_eq, hn]
  omega

end Traced

end Assembly

/-! ### The blocks of pieces -/

section

variable {front : List UInt8} {ps : List Piece} {b : Nat × Nat}

/-- The blocks of pieces stand within them. -/
lemma le_of_mem_extents {offset : Nat} (h : b ∈ extents offset ps) :
    offset ≤ b.1 ∧ 1 ≤ b.2 ∧ b.1 + b.2 ≤ offset + (ps.flatMap Piece.bytes).length := by
  induction ps generalizing offset with
  | nil => cases h
  | cons p ps ih =>
      have hpiece : p.kept.length + 1 ≤ p.bytes.length := by
        simp [Piece.bytes, Piece.payload]
      rw [List.flatMap_cons, List.length_append]
      rcases List.mem_cons.mp h with rfl | h
      · dsimp only
        omega
      · have hrest := ih h
        omega

/-- The blocks of pieces stand one behind the other. -/
lemma pairwise_extents (offset : Nat) (ps : List Piece) :
    (extents offset ps).Pairwise fun b b' => b.1 + b.2 ≤ b'.1 := by
  induction ps generalizing offset with
  | nil => exact .nil
  | cons p ps ih =>
      have hpiece : p.kept.length + 1 ≤ p.bytes.length := by
        simp [Piece.bytes, Piece.payload]
      refine List.pairwise_cons.mpr ⟨fun b hb => ?_, ih _⟩
      have hle := (le_of_mem_extents hb).1
      dsimp only
      omega

/-- Every block of pieces begins with its mark. -/
lemma getElem?_of_mem_extents (h : b ∈ extents front.length ps) :
    (front ++ ps.flatMap Piece.bytes)[b.1]? = some gapEndMark := by
  induction ps generalizing front with
  | nil => cases h
  | cons p ps ih =>
      rcases List.mem_cons.mp h with rfl | h
      · simp [Piece.bytes]
      · rw [← List.length_append] at h
        have hrest := ih h
        rwa [List.append_assoc] at hrest

/-- Between the blocks of pieces there are zeros only. -/
lemma getElem?_of_notMem_extents {i : Nat} (hfront : front.length ≤ i)
    (hi : i < (front ++ ps.flatMap Piece.bytes).length)
    (h : ∀ b ∈ extents front.length ps, i < b.1 ∨ b.1 + b.2 ≤ i) :
    (front ++ ps.flatMap Piece.bytes)[i]? = some 0 := by
  induction ps generalizing front with
  | nil =>
      rw [List.flatMap_nil, List.append_nil] at hi
      omega
  | cons p ps ih =>
      rw [extents, List.forall_mem_cons] at h
      obtain ⟨hp, hrest⟩ := h
      dsimp only at hp
      rw [List.flatMap_cons, ← List.append_assoc] at hi ⊢
      by_cases hin : i < front.length + p.bytes.length
      · have hpiece : p.bytes = (gapEndMark :: p.kept) ++ List.replicate p.zeros 0 := rfl
        have hkept : (gapEndMark :: p.kept).length = p.kept.length + 1 := List.length_cons
        rw [List.getElem?_append_left (by rwa [List.length_append]),
          List.getElem?_append_right hfront, hpiece, List.getElem?_append_right (by omega),
          List.getElem?_replicate, if_pos]
        rw [hpiece, List.length_append, List.length_replicate] at hin
        omega
      · rw [← List.length_append] at hrest
        exact ih (by rw [List.length_append]; omega) hi hrest

end

/-! ### Every block verified once -/

/-- Where the next block begins, or the end of the layout. -/
def nextStart (layout : List UInt8) : List (Nat × Nat) → Nat
  | [] => layout.length
  | b :: _ => b.1

/-- The faults of blocks of a layout, each verified once: its bytes go from its mark to the next
one, and it stands behind the block before it. The gaps are long enough, so there is nothing to be
said of them. -/
def verifyAll (th : Thresholds) (layout : List UInt8) (previous : Option Block) :
    List (Nat × Nat) → List BlockFault
  | [] => []
  | b :: bs =>
      let data := (layout.take (nextStart layout bs)).drop b.1
      verifyBlock data previous none th b.1 ++ verifyAll th layout (some ⟨data.drop 1⟩) bs

section

variable {th : Thresholds} {layout : List UInt8} {previous : Option Block}
  {blocks : List (Nat × Nat)}

/-- Every fault has the offset of a block. -/
lemma mem_verifyAll {f : BlockFault} (h : f ∈ verifyAll th layout previous blocks) :
    ∃ b ∈ blocks, f.offset = (b.1 : Int) := by
  induction blocks generalizing previous with
  | nil => cases h
  | cons b blocks ih =>
      rcases List.mem_append.mp h with h | h
      · exact ⟨b, List.mem_cons_self, (mem_verifyBlock_none h).1⟩
      · obtain ⟨b', hb', hoffset⟩ := ih h
        exact ⟨b', List.mem_cons_of_mem b hb', hoffset⟩

/-- The faults come in the order of the blocks. -/
lemma pairwise_verifyAll (h : blocks.Pairwise fun b b' => b.1 ≤ b'.1) :
    (verifyAll th layout previous blocks).Pairwise fun f f' => f.offset ≤ f'.offset := by
  induction blocks generalizing previous with
  | nil => exact .nil
  | cons b blocks ih =>
      obtain ⟨hb, hrest⟩ := List.pairwise_cons.mp h
      have hown : ∀ f ∈ verifyBlock ((layout.take (nextStart layout blocks)).drop b.1) previous none
          th b.1, f.offset = (b.1 : Int) := fun f hf => (mem_verifyBlock_none hf).1
      refine List.pairwise_append.mpr ⟨?_, ih hrest, fun f hf f' hf' => ?_⟩
      · refine List.pairwise_of_forall_mem_list fun f hf f' hf' => ?_
        exact Int.le_of_eq ((hown f hf).trans (hown f' hf').symm)
      · obtain ⟨b', hb', hoffset⟩ := mem_verifyAll hf'
        rw [hown f hf, hoffset]
        exact Int.ofNat_le.mpr (hb b' hb')

/-- Verifying pieces one behind the other is verifying the blocks of the layout. -/
lemma verifyPieces_eq_verifyAll {front : List UInt8} {ps : List Piece}
    (h : ∀ f ∈ verifyPieces th previous front.length ps, ¬ f.IsShortGap) :
    verifyPieces th previous front.length ps
      = verifyAll th (front ++ ps.flatMap Piece.bytes) previous (extents front.length ps) := by
  induction ps generalizing front previous with
  | nil => rfl
  | cons p ps ih =>
      rw [verifyPieces, List.forall_mem_append] at h
      obtain ⟨hp, hrest⟩ := h
      have hstart : nextStart (front ++ (p :: ps).flatMap Piece.bytes)
          (extents (front ++ p.bytes).length ps) = (front ++ p.bytes).length := by
        cases ps with
        | nil => simp [nextStart, extents]
        | cons q ps => rfl
      have hdata : ((front ++ (p :: ps).flatMap Piece.bytes).take (front ++ p.bytes).length).drop
          front.length = p.bytes := by
        rw [List.flatMap_cons, ← List.append_assoc, List.take_left, List.drop_left]
      rw [← List.length_append] at hrest
      rw [verifyPieces, extents, verifyAll, verifyBlock_of_not_isShortGap hp,
        ← List.length_append, hstart, hdata, ih hrest, List.append_assoc]
      rfl

end

end Recovery

/-! ### Consistent layouts -/

open Recovery

/-- What a recovered layout tells of itself fits together: every byte has the offset that it comes
from, between `first` and `last` and in order; the blocks begin with their marks, do not overlap and
stand within the layout, and all around them is zero; and the faults are those of the blocks, each
of which was verified once, in the order and at the offsets of the blocks. -/
structure Recovered.IsConsistent (rec : Recovered) (th : Thresholds) (first last : Int) : Prop where
  length_origins : rec.origins.length = rec.layout.length
  origins_sorted : rec.origins.Pairwise (· ≤ ·)
  origins_mem : ∀ o ∈ rec.origins, first ≤ o ∧ o ≤ last
  blocks_apart : rec.blocks.Pairwise fun b b' => b.1 < b'.1 ∧ b.1 + b.2 ≤ b'.1
  blocks_mem : ∀ b ∈ rec.blocks, 1 ≤ b.2 ∧ b.1 + b.2 ≤ rec.layout.length
    ∧ rec.layout[b.1]? = some gapEndMark
  zeros_around : ∀ i, i < rec.layout.length → (∀ b ∈ rec.blocks, i < b.1 ∨ b.1 + b.2 ≤ i) →
    rec.layout[i]? = some 0
  diagnostics_eq : rec.diagnostics = verifyAll th rec.layout none rec.blocks
  diagnostics_sorted : rec.diagnostics.Pairwise fun f f' => f.offset ≤ f'.offset
  diagnostics_mem : ∀ f ∈ rec.diagnostics, ∃ b ∈ rec.blocks, f.offset = (b.1 : Int)

namespace Recovery

/-- What is made of pieces is consistent, as far as its blocks go. -/
lemma IsMadeOf.isConsistent {rec : Recovered} {th : Thresholds} {lead : Nat} {ps : List Piece}
    {first last : Int} (hmade : IsMadeOf rec th lead ps)
    (hlength : rec.origins.length = rec.layout.length) (hsorted : rec.origins.Pairwise (· ≤ ·))
    (hmem : ∀ o ∈ rec.origins, first ≤ o ∧ o ≤ last)
    (hgaps : ∀ f ∈ rec.diagnostics, ¬ f.IsShortGap) : rec.IsConsistent th first last := by
  have hlead : (List.replicate lead (0 : UInt8)).length = lead := List.length_replicate
  have hlayout : rec.layout = List.replicate lead 0 ++ ps.flatMap Piece.bytes := hmade.layout_eq
  have hblocks : rec.blocks = extents (List.replicate lead (0 : UInt8)).length ps := by
    rw [hlead, hmade.blocks_eq]
  have hverified : rec.diagnostics = verifyAll th rec.layout none rec.blocks := by
    have hpieces := hmade.diagnostics_eq
    rw [hpieces] at hgaps
    rw [← hlead] at hpieces hgaps
    rw [hpieces, hlayout, hblocks, verifyPieces_eq_verifyAll hgaps]
  have hwithin : ∀ b ∈ rec.blocks, 1 ≤ b.2 ∧ b.1 + b.2 ≤ rec.layout.length := by
    intro b hb
    rw [hblocks] at hb
    rw [hlayout, List.length_append]
    exact (le_of_mem_extents hb).2
  have hapart : rec.blocks.Pairwise fun b b' => b.1 < b'.1 ∧ b.1 + b.2 ≤ b'.1 := by
    have hall : rec.blocks.Pairwise fun b b' => b.1 + b.2 ≤ b'.1 := hblocks ▸ pairwise_extents _ ps
    refine hall.imp_of_mem fun {b b'} hb _ hle => ⟨?_, hle⟩
    have hpos := (hwithin b hb).1
    omega
  refine ⟨hlength, hsorted, hmem, hapart, fun b hb => ?_, fun i hi hout => ?_, hverified, ?_, ?_⟩
  · refine ⟨(hwithin b hb).1, (hwithin b hb).2, ?_⟩
    rw [hblocks] at hb
    rw [hlayout, getElem?_of_mem_extents hb]
  · by_cases hbefore : i < (List.replicate lead (0 : UInt8)).length
    · rw [hlayout, List.getElem?_append_left hbefore, List.getElem?_replicate,
        if_pos (hlead ▸ hbefore)]
    · rw [hlayout] at hi ⊢
      rw [hblocks] at hout
      exact getElem?_of_notMem_extents (Nat.le_of_not_lt hbefore) hi hout
  · rw [hverified]
    exact pairwise_verifyAll (hapart.imp fun h => Nat.le_of_lt h.1)
  · rw [hverified]
    exact fun f hf => mem_verifyAll hf

/-- **Every assembled layout is consistent**: from any offset on, and with any marks and thresholds,
a layout is assembled, and what it tells of itself fits together. -/
theorem exists_isConsistent_assemble (pulses : List Pulse) (start : Nat) (marks : Marks)
    (th : Thresholds) :
    ∃ rec, assemble pulses start marks th = .ok rec
      ∧ rec.IsConsistent th start (max start (pulses.length - 1)) := by
  have hread : readFrom pulses start = .ok (pulses.drop start) := by
    rw [readFrom, if_pos (Int.natCast_nonneg start), Int.toNat_natCast]
    rfl
  have hassemble : assemble pulses start marks th = .ok ((Assembly.run th marks
      { place := .gap none th.minGap 0 } start (pulses.drop start)).finish th
        (max start (pulses.length - 1))) := by
    rw [assemble, hread]
    rfl
  obtain ⟨lead, ps, hmade⟩ := assemble_pieces hassemble
  have hbegin : Assembly.Traced start start { place := .gap none th.minGap 0 } :=
    ⟨rfl, by simp, .nil, by simp, by simp⟩
  have hlast : (Assembly.run th marks { place := .gap none th.minGap 0 } start
      (pulses.drop start)).Traced start (max start (pulses.length - 1)) := by
    refine (hbegin.run (Int.le_refl _) (Int.le_refl _) marks (pulses.drop start)).mono ?_
    rw [List.length_drop]
    omega
  obtain ⟨hlength, hsorted, hmem, hgaps⟩ := hlast.finish (Int.le_max_left ..) th
  exact ⟨_, hassemble, hmade.isConsistent hlength hsorted hmem hgaps⟩

end Recovery

end FamicomDisk
