import FamicomDisk.Proofs.Modulation
import FamicomDisk.Proofs.Packing
import FamicomDisk.Recovery.Assembly

/-!
What an assembled layout is made of.

At every pulse the assembly is in one of three places, and in each of them the bits written so far
have a known shape: zeros before the first block, or finished pieces and the bits of the block, or
finished pieces, the bytes of the block and zeros. A piece is what stands between two marks. The
three places are kept by a step in a block (`InBlock.emit`), the end of one (`InBlock.endBlock`), a
step in a gap (`InLead.gapBits`, `InGap.gapBits`), and the begin of a block (`InLead.beginBlock`,
`InGap.beginBlock`), and there is no other way to go on (`Reached.step`, `InLead.run`).

* `Extends`: bits were added, and what else the assembly knows of the layout is as it was.
* `Piece`, `joined`, `extents`, `verifyPieces`: finished pieces, and what the assembly tells of
  them.
* `origins_run`, `origins_finish`: the bytes that were written keep the offsets they come from.
* `assemble_pieces`: **every assembled layout** is made of pieces, each of which was verified behind
  the one before it.
-/

namespace FamicomDisk

namespace Recovery

open Mfm

namespace Assembly

/-! ### Bits that are added -/

/-- The bits were added, in this order, and blocks, faults and the block before are as they were.
Origins may have been added, but none was taken away. -/
structure Extends (a a' : Assembly) (bits : List Bool) : Prop where
  bits_eq : a'.bits.reverse = a.bits.reverse ++ bits
  count_eq : a'.count = a.count + bits.length
  origins_suffix : a.origins <:+ a'.origins
  blocks_eq : a'.blocks = a.blocks
  faults_eq : a'.faults = a.faults
  previous_eq : a'.previous = a.previous

namespace Extends

variable {a a' a'' : Assembly} {xs ys : List Bool}

lemma refl (a : Assembly) : a.Extends a [] := ⟨by simp, rfl, List.suffix_rfl, rfl, rfl, rfl⟩

lemma trans (h : a.Extends a' xs) (h' : a'.Extends a'' ys) : a.Extends a'' (xs ++ ys) where
  bits_eq := by rw [h'.bits_eq, h.bits_eq, List.append_assoc]
  count_eq := by rw [h'.count_eq, h.count_eq, List.length_append, Nat.add_assoc]
  origins_suffix := h.origins_suffix.trans h'.origins_suffix
  blocks_eq := h'.blocks_eq.trans h.blocks_eq
  faults_eq := h'.faults_eq.trans h.faults_eq
  previous_eq := h'.previous_eq.trans h.previous_eq

/-- The place and the last bit read do not matter. -/
lemma elsewhere (h : a.Extends a' xs) (last : Bool) (place : Place) :
    a.Extends { a' with last, place } xs :=
  ⟨h.bits_eq, h.count_eq, h.origins_suffix, h.blocks_eq, h.faults_eq, h.previous_eq⟩

end Extends

lemma extends_emit (a : Assembly) (offset : Int) (b : Bool) :
    a.Extends (a.emit offset b) [b] := by
  refine ⟨List.reverse_cons, rfl, ?_, rfl, rfl, rfl⟩
  rw [emit]
  split
  · exact List.suffix_cons _ _
  · exact List.suffix_rfl

/-- Adding bits leaves the place and the last bit read alone, too. -/
lemma extends_foldl_emit (a : Assembly) (offset : Int) (bits : List Bool) :
    a.Extends (bits.foldl (·.emit offset) a) bits
      ∧ (bits.foldl (·.emit offset) a).place = a.place
      ∧ (bits.foldl (·.emit offset) a).last = a.last := by
  induction bits generalizing a with
  | nil => exact ⟨.refl a, rfl, rfl⟩
  | cons b bits ih =>
      obtain ⟨he, hp, hl⟩ := ih (a.emit offset b)
      exact ⟨(extends_emit a offset b).trans he, hp, hl⟩

lemma extends_emitZeros (a : Assembly) (offset : Int) (n : Nat) :
    a.Extends (a.emitZeros offset n) (List.replicate n false) :=
  (extends_foldl_emit a offset _).1

/-- The zeros counted in a gap after more of its bits. -/
def zerosAfter (zeros : Int) (bits : List Bool) : Int :=
  bits.foldl (fun n b => if b then 0 else n + 1) zeros

/-- The bits of a gap are written as zeros, but for those that pay off the debt. -/
lemma extends_gapBits (a : Assembly) (offset : Int) (before : Option Nat) (zeros : Int) (debt : Nat)
    {bits : List Bool} (hne : bits ≠ []) :
    let a' := (bits.foldl (gapBit offset before) (a, zeros, debt)).1
    a.Extends a' (List.replicate (bits.length - debt) false)
      ∧ a'.place = .gap before (zerosAfter zeros bits) (debt - bits.length)
      ∧ a'.last = a.last := by
  -- one bit, and what it leaves to the others
  have hstep : ∀ (a : Assembly) (zeros : Int) (debt : Nat) (b : Bool), ∃ a',
      gapBit offset before (a, zeros, debt) b = (a', if b then 0 else zeros + 1, debt - 1)
        ∧ a.Extends a' (List.replicate (1 - debt) false)
        ∧ a'.place = .gap before (if b then 0 else zeros + 1) (debt - 1) ∧ a'.last = a.last := by
    intro a zeros debt b
    rw [gapBit]
    by_cases hd : debt = 0
    · subst hd
      simp only [if_true]
      exact ⟨_, rfl, (extends_emit a offset false).elsewhere _ _, rfl, rfl⟩
    · simp only [if_neg hd]
      refine ⟨_, rfl, ?_, rfl, rfl⟩
      rw [show 1 - debt = 0 by omega]
      exact (Extends.refl a).elsewhere _ _
  induction bits generalizing a zeros debt with
  | nil => exact absurd rfl hne
  | cons b bits ih =>
      obtain ⟨a₁, hb, he, hp, hl⟩ := hstep a zeros debt b
      rw [List.foldl_cons, hb]
      cases bits with
      | nil => exact ⟨he, hp, hl⟩
      | cons c bits =>
          obtain ⟨he', hp', hl'⟩ := ih a₁ (if b then 0 else zeros + 1) (debt - 1) (by simp)
          refine ⟨?_, ?_, hl'.trans hl⟩
          · have ht := he.trans he'
            rwa [List.replicate_append_replicate,
              show 1 - debt + ((c :: bits).length - (debt - 1)) = (b :: c :: bits).length - debt by
                simp only [List.length_cons]; omega] at ht
          · rw [hp', Nat.sub_sub, List.length_cons (a := b), Nat.add_comm 1]
            rfl

end Assembly

/-! ### Pieces -/

/-- A finished piece of a layout: a block, and the gap up to the next mark. -/
structure Piece where
  /-- The bytes behind the mark that were taken for the block. -/
  kept : List UInt8
  /-- The bytes of zeros behind them. -/
  zeros : Nat
  /-- The zeros counted in the gap, if another block follows. -/
  gap : Option Int

namespace Piece

/-- The bytes behind the mark. -/
def payload (p : Piece) : List UInt8 := p.kept ++ List.replicate p.zeros 0

/-- The bytes of a piece. -/
def bytes (p : Piece) : List UInt8 := gapEndMark :: p.payload

end Piece

/-- The layout of pieces behind `lead` bytes of zeros. -/
def joined (lead : Nat) (ps : List Piece) : List UInt8 :=
  List.replicate lead 0 ++ ps.flatMap Piece.bytes

/-- Offset and length of the blocks of pieces, the first of which is at `offset`. -/
def extents (offset : Nat) : List Piece → List (Nat × Nat)
  | [] => []
  | p :: ps => (offset, p.kept.length + 1) :: extents (offset + p.bytes.length) ps

/-- The block of the last piece, or the one before the pieces. -/
def lastBlock (previous : Option Block) (ps : List Piece) : Option Block :=
  ps.foldl (fun _ p => some ⟨p.payload⟩) previous

/-- The faults of pieces, the first of which is at `offset` and behind the block `previous`. -/
def verifyPieces (th : Thresholds) (previous : Option Block) (offset : Nat) :
    List Piece → List BlockFault
  | [] => []
  | p :: ps =>
      verifyBlock p.bytes previous p.gap th offset
        ++ verifyPieces th (some ⟨p.payload⟩) (offset + p.bytes.length) ps

/-- A recovered layout is made of pieces that were verified one behind the other. -/
structure IsMadeOf (r : Recovered) (th : Thresholds) (lead : Nat) (ps : List Piece) : Prop where
  layout_eq : r.layout = joined lead ps
  blocks_eq : r.blocks = extents lead ps
  diagnostics_eq : r.diagnostics = verifyPieces th none lead ps

lemma joined_concat (lead : Nat) (ps : List Piece) (p : Piece) :
    joined lead (ps ++ [p]) = joined lead ps ++ p.bytes := by
  simp [joined]

lemma extents_concat (offset : Nat) (ps : List Piece) (p : Piece) :
    extents offset (ps ++ [p])
      = extents offset ps ++ [(offset + (ps.flatMap Piece.bytes).length, p.kept.length + 1)] := by
  induction ps generalizing offset with
  | nil => rfl
  | cons q ps ih =>
      rw [List.cons_append, extents, ih, extents, List.flatMap_cons, List.length_append,
        Nat.add_assoc, List.cons_append]

lemma verifyPieces_concat (th : Thresholds) (previous : Option Block) (offset : Nat)
    (ps : List Piece) (p : Piece) :
    verifyPieces th previous offset (ps ++ [p])
      = verifyPieces th previous offset ps
        ++ verifyBlock p.bytes (lastBlock previous ps) p.gap th
            (offset + (ps.flatMap Piece.bytes).length : Nat) := by
  induction ps generalizing previous offset with
  | nil => exact List.append_nil _
  | cons q ps ih =>
      rw [List.cons_append, verifyPieces, ih, verifyPieces, List.flatMap_cons, List.length_append,
        ← Nat.add_assoc, List.append_assoc]
      rfl

namespace Assembly

/-- The layout up to the last mark is made of pieces, which were all verified, and the bits `rest`
stand behind them. -/
structure Draft (th : Thresholds) (a : Assembly) (lead : Nat) (ps : List Piece) (rest : List Bool) :
    Prop where
  bits_eq : a.bits.reverse = Bits.ofBytes (joined lead ps) ++ rest
  count_eq : a.count = 8 * (joined lead ps).length + rest.length
  faults_eq : a.faults.reverse = verifyPieces th none lead ps
  previous_eq : a.previous = lastBlock none ps

variable {th : Thresholds} {a a' : Assembly} {lead : Nat} {ps : List Piece} {rest bits : List Bool}

lemma Draft.extends (h : a.Draft th lead ps rest) (he : a.Extends a' bits) :
    a'.Draft th lead ps (rest ++ bits) where
  bits_eq := by rw [he.bits_eq, h.bits_eq, List.append_assoc]
  count_eq := by rw [he.count_eq, h.count_eq, List.length_append, Nat.add_assoc]
  faults_eq := by rw [he.faults_eq, h.faults_eq]
  previous_eq := by rw [he.previous_eq, h.previous_eq]

/-- The bytes behind the pieces, taken out of the bits. -/
lemma Draft.bytesBetween {bytes : List UInt8} {more : List Bool}
    (h : a.Draft th lead ps (Bits.ofBytes bytes ++ more)) :
    a.bytesBetween (joined lead ps).length ((joined lead ps).length + bytes.length) = bytes := by
  have hbits : a.bits = more.reverse
      ++ ((Bits.ofBytes bytes).reverse ++ (Bits.ofBytes (joined lead ps)).reverse) := by
    rw [← List.reverse_reverse a.bits, h.bits_eq]
    simp
  have hdrop : a.count - ((joined lead ps).length + bytes.length) * 8 = more.reverse.length := by
    rw [h.count_eq, List.length_append, Bits.length_ofBytes, List.length_reverse]
    omega
  have htake : ((joined lead ps).length + bytes.length - (joined lead ps).length) * 8
      = (Bits.ofBytes bytes).reverse.length := by
    rw [List.length_reverse, Bits.length_ofBytes]
    omega
  rw [Assembly.bytesBetween, hdrop, hbits, List.drop_left, htake, List.take_left,
    List.reverse_reverse, Bits.pack_ofBytes]

/-- Verifying what stands behind the pieces makes another piece of it. -/
lemma Draft.verify {p : Piece} {more : List Bool}
    (h : a.Draft th lead ps (Bits.ofBytes p.bytes ++ more)) :
    (a.verify th (some (joined lead ps).length) ((joined lead ps).length + p.bytes.length)
      p.gap).Draft th lead (ps ++ [p]) more := by
  rw [Assembly.verify, h.bytesBetween]
  constructor
  · rw [joined_concat, Bits.ofBytes_append, List.append_assoc]
    exact h.bits_eq
  · have hcount := h.count_eq
    rw [List.length_append, Bits.length_ofBytes] at hcount
    rw [joined_concat, List.length_append]
    simp only
    omega
  · have hoffset : lead + (ps.flatMap Piece.bytes).length = (joined lead ps).length := by
      simp [joined]
    rw [verifyPieces_concat, hoffset, ← h.faults_eq, ← h.previous_eq]
    simp [List.reverseAux_eq]
  · rw [lastBlock, List.foldl_append]
    rfl

/-! ### The three places -/

/-- Before the first block: `n` zeros have been written. -/
structure InLead (th : Thresholds) (a : Assembly) (n : Nat) (zeros : Int) : Prop where
  draft : a.Draft th 0 [] (List.replicate n false)
  blocks_eq : a.blocks = []
  place_eq : a.place = .gap none zeros 0

/-- In the block behind the pieces: its bits so far are `rest`. -/
structure InBlock (th : Thresholds) (a : Assembly) (lead : Nat) (ps : List Piece)
    (rest : List Bool) : Prop where
  draft : a.Draft th lead ps (Bits.ofByte gapEndMark ++ rest)
  blocks_eq : a.blocks.reverse = extents lead ps
  place_eq : a.place = .block (joined lead ps).length

/-- In the gap of the block behind the pieces: its bytes are `kept`, and `n` zeros follow. -/
structure InGap (th : Thresholds) (a : Assembly) (lead : Nat) (ps : List Piece)
    (kept : List UInt8) (n : Nat) (zeros : Int) (debt : Nat) : Prop where
  draft : a.Draft th lead ps (Bits.ofBytes (gapEndMark :: kept) ++ List.replicate n false)
  blocks_eq : a.blocks.reverse = extents lead ps ++ [((joined lead ps).length, kept.length + 1)]
  place_eq : a.place = .gap (some (joined lead ps).length) zeros debt

variable {kept : List UInt8} {n debt : Nat} {zeros : Int}

/-- The bits of a block are written as they are. -/
lemma InBlock.emit (h : a.InBlock th lead ps rest) (offset : Int) (bits : List Bool) :
    (bits.foldl (·.emit offset) a).InBlock th lead ps (rest ++ bits) := by
  obtain ⟨he, hp, -⟩ := extends_foldl_emit a offset bits
  refine ⟨?_, by rw [he.blocks_eq, h.blocks_eq], hp.trans h.place_eq⟩
  rw [← List.append_assoc]
  exact h.draft.extends he

lemma InLead.gapBits (h : a.InLead th n zeros) (offset : Int) (hne : bits ≠ []) :
    ((bits.foldl (gapBit offset none) (a, zeros, 0)).1).InLead th (n + bits.length)
      (zerosAfter zeros bits) := by
  obtain ⟨he, hp, -⟩ := extends_gapBits a offset none zeros 0 hne
  refine ⟨?_, by rw [he.blocks_eq, h.blocks_eq], by rw [hp, Nat.zero_sub]⟩
  have hd := h.draft.extends he
  rwa [List.replicate_append_replicate] at hd

lemma InGap.gapBits (h : a.InGap th lead ps kept n zeros debt) (offset : Int) (hne : bits ≠ []) :
    ((bits.foldl (gapBit offset (some (joined lead ps).length)) (a, zeros, debt)).1).InGap th lead
      ps kept (n + (bits.length - debt)) (zerosAfter zeros bits) (debt - bits.length) := by
  obtain ⟨he, hp, -⟩ := extends_gapBits a offset (some (joined lead ps).length) zeros debt hne
  refine ⟨?_, by rw [he.blocks_eq, h.blocks_eq], hp⟩
  have hd := h.draft.extends he
  rwa [List.append_assoc, List.replicate_append_replicate] at hd

/-- The bits that fill up a byte. -/
def padding (n : Nat) : Nat := (8 - n % 8) % 8

/-- A block ends with a full byte. What was filled up is left out of the gap. -/
lemma InBlock.endBlock (h : a.InBlock th lead ps rest) (offset : Int) :
    (a.endBlock offset (joined lead ps).length).InGap th lead ps
      (Bits.pack (rest ++ List.replicate (padding rest.length) false)) 0 0
      (padding rest.length) := by
  have hcount := h.draft.count_eq
  rw [List.length_append, Bits.length_ofByte] at hcount
  have hpad : a.toFullByte = padding rest.length := by
    rw [toFullByte, padding]
    omega
  have hdvd : 8 ∣ (rest ++ List.replicate (padding rest.length) false).length := by
    rw [List.length_append, List.length_replicate, padding]
    omega
  have he := extends_emitZeros a offset (padding rest.length)
  obtain ⟨k, hk⟩ := hdvd
  have hlen := Bits.length_pack hk
  rw [List.length_append, List.length_replicate] at hk
  rw [Assembly.endBlock, hpad]
  constructor
  · rw [List.replicate_zero, List.append_nil, Bits.ofBytes_cons,
      Bits.ofBytes_pack ⟨k, by simpa using hk⟩, ← List.append_assoc]
    have hd := h.draft.extends he
    exact ⟨hd.bits_eq, hd.count_eq, hd.faults_eq, hd.previous_eq⟩
  · simp only [List.reverse_cons, he.blocks_eq, h.blocks_eq, he.count_eq, hcount, hlen,
      List.length_replicate]
    congr 3
    omega
  · rfl

/-- The zeros up to a mark: whole bytes, and those of the byte of the mark. -/
lemma replicate_toMark (n : Nat) :
    List.replicate (n + (15 - n % 8) % 8) false
      = Bits.ofBytes (List.replicate (n / 8) 0) ++ List.replicate 7 false := by
  have hmod := Nat.div_add_mod n 8
  have hlt := Nat.mod_lt n (show 0 < 8 by decide)
  rw [Bits.ofBytes_replicate_zero, List.replicate_append_replicate]
  congr 1
  omega

@[simp] lemma blocks_verify (a : Assembly) (th : Thresholds) (start : Option Nat) (stop : Nat)
    (gap : Option Int) : (a.verify th start stop gap).blocks = a.blocks := by
  cases start <;> rfl

/-- The mark completes a byte, at which the block begins. -/
lemma Draft.beginBlock (h : a.Draft th lead ps (List.replicate 7 false)) (offset : Int) :
    Draft th { a.emit offset true with place := .block ((a.emit offset true).count / 8 - 1) } lead
        ps (Bits.ofByte gapEndMark ++ [])
      ∧ (a.emit offset true).count / 8 - 1 = (joined lead ps).length := by
  have hd := h.extends (extends_emit a offset true)
  rw [gapEndMark, Bits.ofByte_mark, List.append_nil]
  refine ⟨⟨hd.bits_eq, hd.count_eq, hd.faults_eq, hd.previous_eq⟩, ?_⟩
  have hcount := hd.count_eq
  rw [List.length_append, List.length_replicate] at hcount
  simp only [List.length_singleton] at hcount
  omega

lemma InGap.beginBlock (h : a.InGap th lead ps kept n zeros debt) (offset : Int) :
    (a.beginBlock th offset (some (joined lead ps).length) zeros).InBlock th lead
      (ps ++ [⟨kept, n / 8, some zeros⟩]) [] := by
  have hcount := h.draft.count_eq
  simp only [List.length_append, Bits.length_ofBytes, List.length_cons, List.length_replicate]
    at hcount
  have hmod : a.count % 8 = n % 8 := by omega
  have he := extends_emitZeros a offset ((15 - n % 8) % 8)
  have hfull := h.draft.extends he
  rw [List.append_assoc, List.replicate_append_replicate, replicate_toMark, ← List.append_assoc,
    ← Bits.ofBytes_append] at hfull
  have hstop : (a.emitZeros offset ((15 - n % 8) % 8)).count / 8
      = (joined lead ps).length + (Piece.bytes ⟨kept, n / 8, some zeros⟩).length := by
    have hc := hfull.count_eq
    simp only [List.length_append, Bits.length_ofBytes, List.length_cons, List.length_replicate]
      at hc
    simp only [Piece.bytes, Piece.payload, List.length_cons, List.length_append,
      List.length_replicate]
    omega
  rw [Assembly.beginBlock, hmod, hstop]
  obtain ⟨hd, hp⟩ :=
    (Draft.verify (p := ⟨kept, n / 8, some zeros⟩) hfull).beginBlock offset
  refine ⟨hd, ?_, congrArg Place.block hp⟩
  rw [extents_concat]
  have hoffset : (joined lead ps).length = lead + (ps.flatMap Piece.bytes).length := by
    simp [joined]
  simp only [emit, blocks_verify, he.blocks_eq, h.blocks_eq, hoffset]

lemma InLead.beginBlock (h : a.InLead th n zeros) (offset : Int) :
    (a.beginBlock th offset none zeros).InBlock th (n / 8) [] [] := by
  have hmod : a.count % 8 = n % 8 := by
    have hcount := h.draft.count_eq
    simp only [joined, List.length_append, List.length_replicate, List.flatMap_nil] at hcount
    simp only [List.length_nil] at hcount
    omega
  have he := extends_emitZeros a offset ((15 - n % 8) % 8)
  have hfull := h.draft.extends he
  rw [List.replicate_append_replicate, replicate_toMark] at hfull
  -- the bytes of zeros are those before the first block
  have hlead : (a.emitZeros offset ((15 - n % 8) % 8)).Draft th (n / 8) []
      (List.replicate 7 false) := by
    refine ⟨?_, ?_, hfull.faults_eq, hfull.previous_eq⟩
    · simpa [joined] using hfull.bits_eq
    · simpa [joined] using hfull.count_eq
  rw [Assembly.beginBlock, hmod]
  obtain ⟨hd, hp⟩ := hlead.beginBlock offset
  refine ⟨hd, ?_, congrArg Place.block hp⟩
  change (a.emitZeros offset ((15 - n % 8) % 8)).blocks.reverse = _
  rw [he.blocks_eq, h.blocks_eq]
  rfl

/-! ### Steps -/

variable {marks : Marks} {offset : Int} {p : Pulse}

lemma applyMark_gap {before : Option Nat} (h : a.place = .gap before zeros debt) (marked : Bool) :
    a.applyMark marked offset = a := by
  cases marked <;> simp [applyMark, h]

/-- A mark ends the block before the pulse is read. -/
lemma step_marked {start : Nat} (hm : marks.contains offset = true) (hp : a.place = .block start) :
    a.step th marks offset p = (a.endBlock offset start).step th marks offset p := by
  rw [step, hm, step]
  have he : (a.endBlock offset start).place = .gap (some start) 0 a.toFullByte := rfl
  rw [applyMark_gap he]
  simp only [applyMark, hp]

lemma step_block {start : Nat} (hm : marks.contains offset = false) (hp : a.place = .block start) :
    a.step th marks offset p
      = (decode a.last p).1.foldl (·.emit offset) { a with last := (decode a.last p).2 } := by
  simp only [step, hm, applyMark, hp]

lemma InBlock.step (h : a.InBlock th lead ps rest) (hm : marks.contains offset = false) :
    (a.step th marks offset p).InBlock th lead ps (rest ++ (decode a.last p).1) := by
  have hb : ({ a with last := (decode a.last p).2 } : Assembly).InBlock th lead ps rest :=
    ⟨⟨h.draft.bits_eq, h.draft.count_eq, h.draft.faults_eq, h.draft.previous_eq⟩, h.blocks_eq,
      h.place_eq⟩
  rw [step_block hm h.place_eq]
  exact hb.emit offset _

section

variable {before : Option Nat}

lemma step_gap_mark (hp : a.place = .gap before zeros debt) (hb : (decode a.last p).1 = [true])
    (hz : th.minGap ≤ zeros) :
    a.step th marks offset p
      = { a with last := (decode a.last p).2 }.beginBlock th offset before zeros := by
  rw [Assembly.step, applyMark_gap hp]
  simp only [hp]
  rw [if_pos ⟨hb, hz⟩]

lemma step_gap_zeros (hp : a.place = .gap before zeros debt)
    (hn : ¬ ((decode a.last p).1 = [true] ∧ th.minGap ≤ zeros)) :
    a.step th marks offset p
      = ((decode a.last p).1.foldl (gapBit offset before)
          ({ a with last := (decode a.last p).2 }, zeros, debt)).1 := by
  rw [Assembly.step, applyMark_gap hp]
  simp only [hp]
  rw [if_neg hn]

end

lemma decode_ne_nil (last : Bool) (p : Pulse) : (decode last p).1 ≠ [] :=
  List.ne_nil_of_length_pos (decode_length_pos last p)

lemma InLead.withLast (h : a.InLead th n zeros) (last : Bool) :
    ({ a with last } : Assembly).InLead th n zeros :=
  ⟨⟨h.draft.bits_eq, h.draft.count_eq, h.draft.faults_eq, h.draft.previous_eq⟩, h.blocks_eq,
    h.place_eq⟩

lemma InGap.withLast (h : a.InGap th lead ps kept n zeros debt) (last : Bool) :
    ({ a with last } : Assembly).InGap th lead ps kept n zeros debt :=
  ⟨⟨h.draft.bits_eq, h.draft.count_eq, h.draft.faults_eq, h.draft.previous_eq⟩, h.blocks_eq,
    h.place_eq⟩

/-- Behind a gap a one bit alone in its pulse is a mark. -/
lemma InGap.step_mark (h : a.InGap th lead ps kept n zeros debt)
    (hb : (decode a.last p).1 = [true]) (hz : th.minGap ≤ zeros) :
    (a.step th marks offset p).InBlock th lead (ps ++ [⟨kept, n / 8, some zeros⟩]) [] := by
  rw [step_gap_mark h.place_eq hb hz]
  exact (h.withLast _).beginBlock offset

/-- All else in a gap is taken for zeros. -/
lemma InGap.step_zeros (h : a.InGap th lead ps kept n zeros debt)
    (hn : ¬ ((decode a.last p).1 = [true] ∧ th.minGap ≤ zeros)) :
    (a.step th marks offset p).InGap th lead ps kept (n + ((decode a.last p).1.length - debt))
      (zerosAfter zeros (decode a.last p).1) (debt - (decode a.last p).1.length) := by
  rw [step_gap_zeros h.place_eq hn]
  exact (h.withLast _).gapBits offset (decode_ne_nil _ _)

/-- Behind the lead-in a one bit alone in its pulse is a mark. -/
lemma InLead.step_mark (h : a.InLead th n zeros) (hb : (decode a.last p).1 = [true])
    (hz : th.minGap ≤ zeros) : (a.step th marks offset p).InBlock th (n / 8) [] [] := by
  rw [step_gap_mark h.place_eq hb hz]
  exact (h.withLast _).beginBlock offset

/-- All else in the lead-in is taken for zeros. -/
lemma InLead.step_zeros (h : a.InLead th n zeros)
    (hn : ¬ ((decode a.last p).1 = [true] ∧ th.minGap ≤ zeros)) :
    (a.step th marks offset p).InLead th (n + (decode a.last p).1.length)
      (zerosAfter zeros (decode a.last p).1) := by
  rw [step_gap_zeros h.place_eq hn]
  exact (h.withLast _).gapBits offset (decode_ne_nil _ _)

lemma last_verify (a : Assembly) (th : Thresholds) (start : Option Nat) (stop : Nat)
    (gap : Option Int) : (a.verify th start stop gap).last = a.last := by
  cases start <;> rfl

/-- Every step reads one pulse. -/
lemma last_step (a : Assembly) (th : Thresholds) (marks : Marks) (offset : Int) (p : Pulse) :
    (a.step th marks offset p).last = (decode a.last p).2 := by
  have hgap : ∀ {a : Assembly} {before : Option Nat} {zeros : Int} {debt : Nat},
      a.place = .gap before zeros debt →
      (a.step th marks offset p).last = (decode a.last p).2 := by
    intro a before zeros debt hp
    by_cases hb : (decode a.last p).1 = [true] ∧ th.minGap ≤ zeros
    · rw [step_gap_mark hp hb.1 hb.2, beginBlock]
      simp only [emit, last_verify]
      exact (extends_foldl_emit _ offset _).2.2
    · rw [step_gap_zeros hp hb]
      exact (extends_gapBits _ offset before zeros debt (decode_ne_nil _ _)).2.2
  cases hp : a.place with
  | gap before zeros debt => exact hgap hp
  | block start =>
      cases hm : marks.contains offset with
      | true =>
          have he : (a.endBlock offset start).place = .gap (some start) 0 a.toFullByte := rfl
          rw [step_marked hm hp, hgap he]
          exact congrArg (fun last => (decode last p).2) (extends_foldl_emit a offset _).2.2
      | false =>
          rw [step_block hm hp]
          exact (extends_foldl_emit _ offset _).2.2

/-! ### Origins -/

lemma origins_verify (a : Assembly) (th : Thresholds) (start : Option Nat) (stop : Nat)
    (gap : Option Int) : (a.verify th start stop gap).origins = a.origins := by
  cases start <;> rfl

/-- **No step** takes an origin away. -/
lemma origins_step (a : Assembly) (th : Thresholds) (marks : Marks) (offset : Int) (p : Pulse) :
    a.origins <:+ (a.step th marks offset p).origins := by
  have hgap : ∀ {a : Assembly} {before : Option Nat} {zeros : Int} {debt : Nat},
      a.place = .gap before zeros debt → a.origins <:+ (a.step th marks offset p).origins := by
    intro a before zeros debt hp
    by_cases hb : (decode a.last p).1 = [true] ∧ th.minGap ≤ zeros
    · rw [step_gap_mark hp hb.1 hb.2, beginBlock]
      refine List.IsSuffix.trans ?_ (extends_emit _ offset true).origins_suffix
      rw [origins_verify]
      exact (extends_emitZeros { a with last := (decode a.last p).2 } offset _).origins_suffix
    · rw [step_gap_zeros hp hb]
      exact (extends_gapBits { a with last := (decode a.last p).2 } offset before zeros debt
        (decode_ne_nil _ _)).1.origins_suffix
  cases hp : a.place with
  | gap before zeros debt => exact hgap hp
  | block start =>
      cases hm : marks.contains offset with
      | true =>
          have he : (a.endBlock offset start).place = .gap (some start) 0 a.toFullByte := rfl
          rw [step_marked hm hp]
          exact (extends_emitZeros a offset _).origins_suffix.trans (hgap he)
      | false =>
          rw [step_block hm hp]
          exact (extends_foldl_emit { a with last := (decode a.last p).2 } offset _).1.origins_suffix

/-- **No run** takes an origin away. -/
lemma origins_run (a : Assembly) (th : Thresholds) (marks : Marks) (offset : Int)
    (pulses : List Pulse) : a.origins <:+ (Assembly.run th marks a offset pulses).origins := by
  induction pulses generalizing a offset with
  | nil => exact List.suffix_rfl
  | cons p pulses ih => exact (origins_step a th marks offset p).trans (ih _ _)

/-- The bytes of a finished layout have the origins that they had, in order. -/
lemma origins_finish (a : Assembly) (th : Thresholds) (offset : Int) :
    a.origins.reverse <+: (a.finish th offset).origins := by
  have he := (extends_emitZeros a offset a.toFullByte).origins_suffix
  rw [Assembly.finish]
  simp only [origins_verify]
  exact List.reverse_prefix.mpr he

/-! ### Every run -/

/-- The places that an assembly can reach behind finished pieces. -/
inductive Reached (th : Thresholds) (lead : Nat) (ps : List Piece) (a : Assembly) : Prop where
  | block {more : List Piece} {rest : List Bool} (h : a.InBlock th lead (ps ++ more) rest)
  | gap {more : List Piece} {kept : List UInt8} {n : Nat} {zeros : Int} {debt : Nat}
      (h : a.InGap th lead (ps ++ more) kept n zeros debt)

lemma InBlock.reached (h : a.InBlock th lead ps rest) : a.Reached th lead ps := by
  rw [← List.append_nil ps] at h
  exact .block h

/-- **A step** goes from a block or a gap to one, whatever is read. -/
lemma Reached.step (h : a.Reached th lead ps) (marks : Marks) (offset : Int) (p : Pulse) :
    (a.step th marks offset p).Reached th lead ps := by
  have hgap : ∀ {a : Assembly} {more : List Piece} {kept : List UInt8} {n : Nat} {zeros : Int}
      {debt : Nat}, a.InGap th lead (ps ++ more) kept n zeros debt →
      (a.step th marks offset p).Reached th lead ps := by
    intro a more kept n zeros debt h
    by_cases hb : (decode a.last p).1 = [true] ∧ th.minGap ≤ zeros
    · have hblock : (a.step th marks offset p).InBlock th lead _ [] := h.step_mark hb.1 hb.2
      rw [List.append_assoc] at hblock
      exact .block hblock
    · exact .gap (h.step_zeros hb)
  cases h with
  | block h =>
      cases hm : marks.contains offset with
      | true =>
          rw [step_marked hm h.place_eq]
          exact hgap (h.endBlock offset)
      | false => exact .block (h.step hm)
  | gap h => exact hgap h

/-- Every run stays in blocks and gaps. -/
lemma Reached.run (h : a.Reached th lead ps) (marks : Marks) (offset : Int) (pulses : List Pulse) :
    (Assembly.run th marks a offset pulses).Reached th lead ps := by
  induction pulses generalizing a offset with
  | nil => exact h
  | cons p pulses ih => exact ih (h.step marks offset p) (offset + 1)

/-! ### The end of a run -/

lemma Draft.pack_bits (h : a.Draft th lead ps []) : Bits.pack a.bits.reverse = joined lead ps := by
  rw [h.bits_eq, List.append_nil, Bits.pack_ofBytes]

lemma InLead.finish (h : a.InLead th n zeros) (offset : Int) :
    IsMadeOf (a.finish th offset) th ((n + 7) / 8) [] := by
  have hcount := h.draft.count_eq
  simp only [joined, List.length_append, List.length_replicate, List.flatMap_nil] at hcount
  simp only [List.length_nil] at hcount
  have hpad : n + a.toFullByte = 8 * ((n + 7) / 8) := by
    rw [toFullByte]
    omega
  have he := extends_emitZeros a offset a.toFullByte
  have hfull := h.draft.extends he
  rw [List.replicate_append_replicate, hpad, ← Bits.ofBytes_replicate_zero] at hfull
  have hplace : (a.emitZeros offset a.toFullByte).place = .gap none zeros 0 :=
    (extends_foldl_emit a offset _).2.1.trans h.place_eq
  rw [Assembly.finish]
  simp only [hplace, verify]
  constructor
  · rw [hfull.bits_eq]
    simp [joined]
  · rw [he.blocks_eq, h.blocks_eq]
    rfl
  · exact hfull.faults_eq

/-- The block or the gap at the end of a capture makes the last piece. -/
lemma Draft.finish {p : Piece} (h : a.Draft th lead ps (Bits.ofBytes p.bytes))
    (hgap : p.gap = none) (blocks : List (Nat × Nat))
    (hblocks : blocks.reverse = extents lead (ps ++ [p])) (origins : List Int) :
    IsMadeOf
      { layout := Bits.pack
          (a.verify th (some (joined lead ps).length) (a.count / 8) none).bits.reverse
        origins
        blocks := blocks.reverse
        diagnostics := (a.verify th (some (joined lead ps).length) (a.count / 8)
          none).faults.reverse } th lead (ps ++ [p]) := by
  have hstop : a.count / 8 = (joined lead ps).length + p.bytes.length := by
    rw [h.count_eq, Bits.length_ofBytes]
    omega
  rw [← List.append_nil (Bits.ofBytes _)] at h
  have hd := h.verify
  rw [hstop, ← hgap]
  exact ⟨hd.pack_bits, hblocks, hd.faults_eq⟩

lemma InGap.finish (h : a.InGap th lead ps kept n zeros debt) (offset : Int) :
    IsMadeOf (a.finish th offset) th lead (ps ++ [⟨kept, (n + 7) / 8, none⟩]) := by
  have hcount := h.draft.count_eq
  simp only [List.length_append, Bits.length_ofBytes, List.length_cons, List.length_replicate]
    at hcount
  have hpad : n + a.toFullByte = 8 * ((n + 7) / 8) := by
    rw [toFullByte]
    omega
  have he := extends_emitZeros a offset a.toFullByte
  have hfull := h.draft.extends he
  rw [List.append_assoc, List.replicate_append_replicate, hpad, ← Bits.ofBytes_replicate_zero,
    ← Bits.ofBytes_append] at hfull
  have hplace : (a.emitZeros offset a.toFullByte).place
      = .gap (some (joined lead ps).length) zeros debt :=
    (extends_foldl_emit a offset _).2.1.trans h.place_eq
  rw [Assembly.finish]
  simp only [hplace]
  refine Draft.finish (p := ⟨kept, (n + 7) / 8, none⟩) hfull rfl _ ?_ _
  rw [he.blocks_eq, h.blocks_eq, extents_concat]
  simp [joined]

lemma InBlock.finish (h : a.InBlock th lead ps rest) (offset : Int) :
    IsMadeOf (a.finish th offset) th lead
      (ps ++ [⟨Bits.pack (rest ++ List.replicate (padding rest.length) false), 0, none⟩]) := by
  have hcount := h.draft.count_eq
  rw [List.length_append, Bits.length_ofByte] at hcount
  have hpad : a.toFullByte = padding rest.length := by
    rw [toFullByte, padding]
    omega
  have hdvd : 8 ∣ (rest ++ List.replicate (padding rest.length) false).length := by
    rw [List.length_append, List.length_replicate, padding]
    omega
  have he := extends_emitZeros a offset (padding rest.length)
  have hfull := h.draft.extends he
  rw [List.append_assoc] at hfull
  obtain ⟨k, hk⟩ := hdvd
  have hlen := Bits.length_pack hk
  have hplace : (a.emitZeros offset (padding rest.length)).place = .block (joined lead ps).length :=
    (extends_foldl_emit a offset _).2.1.trans h.place_eq
  have hbytes : Bits.ofBytes (Piece.bytes
        ⟨Bits.pack (rest ++ List.replicate (padding rest.length) false), 0, none⟩)
      = Bits.ofByte gapEndMark ++ (rest ++ List.replicate (padding rest.length) false) := by
    rw [Piece.bytes, Piece.payload, List.replicate_zero, List.append_nil, Bits.ofBytes_cons,
      Bits.ofBytes_pack ⟨k, hk⟩]
  rw [← hbytes] at hfull
  rw [Assembly.finish, hpad]
  simp only [hplace]
  refine hfull.finish rfl _ ?_ _
  rw [List.length_append, List.length_replicate] at hk
  rw [List.reverse_cons, he.blocks_eq, h.blocks_eq, extents_concat, he.count_eq, hcount, hlen,
    List.length_replicate]
  congr 3
  · simp [joined]
  · omega

/-- What every run leaves behind is made of the finished pieces and at least one more. -/
lemma Reached.finish (h : a.Reached th lead ps) (offset : Int) :
    ∃ more, more ≠ [] ∧ IsMadeOf (a.finish th offset) th lead (ps ++ more) := by
  cases h with
  | block h =>
      have hf := h.finish offset
      rw [List.append_assoc] at hf
      exact ⟨_, by simp, hf⟩
  | gap h =>
      have hf := h.finish offset
      rw [List.append_assoc] at hf
      exact ⟨_, by simp, hf⟩

/-- From before the first block on every run leaves pieces behind. -/
lemma InLead.run (h : a.InLead th n zeros) (marks : Marks) (offset last : Int)
    (pulses : List Pulse) :
    ∃ lead ps, IsMadeOf ((Assembly.run th marks a offset pulses).finish th last) th lead ps := by
  induction pulses generalizing a n zeros offset with
  | nil => exact ⟨_, _, h.finish last⟩
  | cons p pulses ih =>
      by_cases hb : (decode a.last p).1 = [true] ∧ th.minGap ≤ zeros
      · have hblock : (a.step th marks offset p).InBlock th (n / 8) [] [] :=
          h.step_mark hb.1 hb.2
        obtain ⟨more, -, hmade⟩ := (hblock.reached.run marks (offset + 1) pulses).finish last
        exact ⟨_, _, hmade⟩
      · exact ih (h.step_zeros hb) (offset + 1)

end Assembly

/-- A recovery succeeds if anything can be computed of its layout. -/
lemma exists_recovered_of_map {β : Type} {x : Except Fault Recovered} {f : Recovered → β} {b : β}
    (h : x.toOption.map f = some b) : ∃ rec, x = .ok rec ∧ f rec = b := by
  cases x with
  | error e => cases h
  | ok rec => exact ⟨rec, rfl, Option.some.inj h⟩

/-- **Every assembled layout** is made of pieces, each of which was verified behind the one before
it. -/
theorem assemble_pieces {pulses : List Pulse} {start : Int} {marks : Marks} {th : Thresholds}
    {rec : Recovered} (h : assemble pulses start marks th = .ok rec) :
    ∃ lead ps, IsMadeOf rec th lead ps := by
  rw [assemble] at h
  cases hrest : readFrom pulses start with
  | error e =>
      rw [hrest] at h
      cases h
  | ok rest =>
      rw [hrest] at h
      obtain rfl := Except.ok.inj h
      have hstart : Assembly.InLead th { place := .gap none th.minGap 0 } 0 th.minGap :=
        ⟨⟨rfl, rfl, rfl, rfl⟩, rfl, rfl⟩
      exact hstart.run marks start _ rest

end Recovery

end FamicomDisk
