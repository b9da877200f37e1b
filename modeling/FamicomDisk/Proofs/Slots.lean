import FamicomDisk.Flash.Store
import FamicomDisk.Proofs.AnyLayout
import FamicomDisk.Proofs.Sequencing
import FamicomDisk.Proofs.SlotHeaders

/-!
The memory as slots.

A memory that is whole is known by the bytes of its slots, as far as reading goes: the header of a
slot and the side it holds depend on its bytes only, and they can always be read. So what a write
leaves alone is read as before.

* `slotBytes`, `IsWhole`: the bytes of a slot, and a memory that has all of its slots.
* `side_eq`, `exists_side`: **reading a slot** is reading its bytes, and it never fails.
* `continuations_congr`, `exists_continuations`: the same for the slots that continue a disk.
* `overwrite`: a memory in which bytes are replaced, with what it changes and what it does not.
-/

namespace FamicomDisk

namespace Flash

lemma slotSize_eq : slotSize = slotHeaderSize + Layout.capacity := by
  rw [slotSize, slotHeaderSize, Layout.capacity]

lemma slotHeaderSize_le : slotHeaderSize ≤ slotSize :=
  slotSize_eq ▸ Nat.le_add_right slotHeaderSize Layout.capacity

/-- The bytes of a slot. -/
def slotBytes (f : Flash) (slot : Nat) : List UInt8 :=
  (f.bytes.drop (slot * slotSize)).take slotSize

/-- The memory has all of its slots. -/
def IsWhole (f : Flash) : Prop := f.slots * slotSize ≤ f.bytes.length

lemma isWhole_erased (slots : Nat) : (erased slots).IsWhole := by
  rw [IsWhole, erased, List.length_replicate]

/-- The memory of a dump has its slots and no more. -/
lemma length_bytes_ofDump (dat : List UInt8) :
    (ofDump dat).bytes.length = (ofDump dat).slots * slotSize := by
  have hpos : 0 < slotSize := by decide
  have hupper : dat.length ≤ (dat.length + slotSize - 1) / slotSize * slotSize := by
    have := Nat.lt_div_mul_add (a := dat.length + slotSize - 1) hpos
    omega
  rw [ofDump, List.length_append, List.length_replicate, Nat.add_sub_cancel' hupper]

lemma isWhole_ofDump (dat : List UInt8) : (ofDump dat).IsWhole :=
  Nat.le_of_eq (length_bytes_ofDump dat).symm

/-- The header and the side in the bytes of a slot. -/
def ofSlotBytes (dat : List UInt8) : Except Fault (SlotHeader × Side) := do
  let h ← SlotHeader.unpack dat
  pure (h, ← Layout.walk (dat.drop slotHeaderSize) h.leadIn)

section

variable {f g : Flash} {slot count : Nat}

lemma length_slotBytes (h : (slot + 1) * slotSize ≤ f.bytes.length) :
    (f.slotBytes slot).length = slotSize := by
  rw [slotBytes, List.length_take, List.length_drop]
  rw [Nat.add_one_mul] at h
  omega

/-- Two memories with the same bytes at the offsets of a slot agree in that slot. -/
lemma slotBytes_congr (h : ∀ i, slot * slotSize ≤ i → i < (slot + 1) * slotSize →
    f.bytes[i]? = g.bytes[i]?) : f.slotBytes slot = g.slotBytes slot := by
  refine List.ext_getElem? ?_
  intro i
  rw [slotBytes, slotBytes, List.getElem?_take, List.getElem?_take]
  split
  · next hi =>
    rw [List.getElem?_drop, List.getElem?_drop]
    exact h _ (by omega) (by rw [Nat.add_one_mul]; omega)
  · rfl

/-! ### Reading -/

lemma read_eq {offset n : Nat} (h : offset + n ≤ f.bytes.length) :
    f.read offset n = .ok ((f.bytes.drop offset).take n) := by
  rw [read]
  dsimp only
  rw [if_neg (by omega), if_neg (by omega), show ((offset : Int) + n).toNat = offset + n by omega,
    List.drop_take, Nat.add_sub_cancel_left]
  rfl

/-- The header of a slot is that of its bytes. -/
lemma header_eq (h : (slot + 1) * slotSize ≤ f.bytes.length) :
    f.header slot = SlotHeader.unpack (f.slotBytes slot) := by
  have hfits := slotHeaderSize_le
  have hread : f.read (slot * slotSize) slotHeaderSize
      = .ok ((f.slotBytes slot).take slotHeaderSize) := by
    rw [Nat.add_one_mul] at h
    rw [read_eq (by omega), slotBytes, List.take_take, Nat.min_eq_left hfits]
  rw [header, hread, ok_bind, SlotHeader.unpack_take]

/-- **Reading a slot** is reading its bytes. -/
lemma side_eq (h : (slot + 1) * slotSize ≤ f.bytes.length) :
    f.side slot = ofSlotBytes (f.slotBytes slot) := by
  have hread : f.read (slot * slotSize + slotHeaderSize) Layout.capacity
      = .ok ((f.slotBytes slot).drop slotHeaderSize) := by
    have hsize := slotSize_eq
    rw [Nat.add_one_mul] at h
    rw [read_eq (by omega), slotBytes, List.drop_take, List.drop_drop,
      show slotSize - slotHeaderSize = Layout.capacity by omega]
  rw [side, header_eq h, hread, ofSlotBytes]
  cases SlotHeader.unpack (f.slotBytes slot) with
  | error e => rw [error_bind, error_bind]
  | ok header => rw [ok_bind, ok_bind, ok_bind]

/-- A slot can always be read. -/
lemma exists_side (h : (slot + 1) * slotSize ≤ f.bytes.length) :
    ∃ header side, f.header slot = .ok header ∧ f.side slot = .ok (header, side) := by
  obtain ⟨header, hheader⟩ : ∃ header, SlotHeader.unpack (f.slotBytes slot) = .ok header :=
    SlotHeader.exists_unpack (slotHeaderSize_le.trans_eq (length_slotBytes h).symm)
  obtain ⟨side, hside, -⟩ := Layout.exists_walk ((f.slotBytes slot).drop slotHeaderSize)
    header.leadIn
  refine ⟨header, side, (header_eq h).trans hheader, ?_⟩
  rw [side_eq h, ofSlotBytes, hheader, ok_bind, hside, ok_bind]
  rfl

/-- What continues a disk is told by the bytes of the slots behind it. -/
lemma continuations_congr (hf : (slot + count) * slotSize ≤ f.bytes.length)
    (hg : (slot + count) * slotSize ≤ g.bytes.length)
    (h : ∀ k, slot ≤ k → k < slot + count → f.slotBytes k = g.slotBytes k) :
    f.continuations count slot = g.continuations count slot := by
  induction count generalizing slot with
  | zero => rfl
  | succ count ih =>
      have hslot : (slot + 1) * slotSize ≤ (slot + (count + 1)) * slotSize :=
        Nat.mul_le_mul_right _ (by omega)
      have hrest : slot + 1 + count = slot + (count + 1) := by omega
      have hsame := h slot (Nat.le_refl slot) (by omega)
      rw [continuations, continuations, header_eq (hslot.trans hf), header_eq (hslot.trans hg),
        side_eq (hslot.trans hf), side_eq (hslot.trans hg), hsame,
        ih (by simpa only [hrest] using hf) (by simpa only [hrest] using hg)
          fun k hk hk' => h k (by omega) (by omega)]

/-- What continues a disk can always be read, and nothing does exactly if the next slot begins
another one. -/
lemma exists_continuations (h : (slot + count) * slotSize ≤ f.bytes.length) :
    ∃ left, f.continuations count slot = .ok left
      ∧ (left = [] ↔ ∀ header, 0 < count → f.header slot = .ok header →
        header.continuation = false) := by
  induction count generalizing slot with
  | zero => exact ⟨[], rfl, by simp⟩
  | succ count ih =>
      have hrest : slot + 1 + count = slot + (count + 1) := by omega
      have hslot : (slot + 1) * slotSize ≤ f.bytes.length :=
        (Nat.mul_le_mul_right _ (by omega)).trans h
      obtain ⟨header, side, hheader, hside⟩ := exists_side hslot
      have hbehind : (slot + 1 + count) * slotSize ≤ f.bytes.length := by
        simpa only [hrest] using h
      obtain ⟨left, hleft, -⟩ := ih hbehind
      rw [continuations, hheader, hside, hleft]
      cases hc : header.continuation with
      | false => exact ⟨[], by simp [bind, Except.bind, hc, pure, Except.pure], by simp [hc]⟩
      | true =>
          exact ⟨side :: left, by simp [bind, Except.bind, hc, pure, Except.pure], by simp [hc]⟩

end

/-! ### Replacing bytes -/

/-- The memory with other bytes from an offset on. -/
def overwrite (f : Flash) (offset : Nat) (dat : List UInt8) : Flash :=
  { f with bytes := f.bytes.take offset ++ dat ++ f.bytes.drop (offset + dat.length) }

@[simp] lemma slots_overwrite (f : Flash) (offset : Nat) (dat : List UInt8) :
    (f.overwrite offset dat).slots = f.slots := rfl

section

variable {f : Flash} {offset : Nat} {dat : List UInt8}

lemma length_overwrite (h : offset + dat.length ≤ f.bytes.length) :
    (f.overwrite offset dat).bytes.length = f.bytes.length :=
  length_replaced h

lemma overwrite_nil (f : Flash) (offset : Nat) : f.overwrite offset [] = f := by
  simp [overwrite]

/-- Bytes that follow each other may be replaced at once. -/
lemma overwrite_overwrite (h : offset + dat.length ≤ f.bytes.length) (dat' : List UInt8) :
    (f.overwrite offset dat).overwrite (offset + dat.length) dat'
      = f.overwrite offset (dat ++ dat') := by
  have hlen : (f.bytes.take offset ++ dat).length = offset + dat.length := by
    rw [List.length_append, List.length_take]
    omega
  simp only [overwrite]
  rw [List.take_left' hlen, ← List.drop_drop, List.drop_left' hlen, List.drop_drop,
    List.length_append, Nat.add_assoc, List.append_assoc (List.take offset f.bytes)]

/-- Bytes that are not replaced are as before. -/
lemma getElem?_overwrite {i : Nat} (h : offset + dat.length ≤ f.bytes.length)
    (hi : i < offset ∨ offset + dat.length ≤ i) :
    (f.overwrite offset dat).bytes[i]? = f.bytes[i]? :=
  getElem?_replaced h hi

/-- Bytes that are replaced are the new ones. -/
lemma take_drop_overwrite {i n : Nat} (h : offset + dat.length ≤ f.bytes.length)
    (hi : i + n ≤ dat.length) :
    ((f.overwrite offset dat).bytes.drop (offset + i)).take n = (dat.drop i).take n :=
  take_drop_replaced h hi

end

end Flash

end FamicomDisk
