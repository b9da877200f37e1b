/-!
# Bits and bytes

On the disk surface a byte is eight bits with the least significant one first, and a 16-bit word is
its low byte followed by its high byte.

* `Bits.ofByte`, `Bits.ofBytes`: the bits of a byte and of a byte string, in disk order.
* `Bits.pack`: bits gathered into bytes; a last byte that is not full is filled with zero bits.
* `Bits.pack_append` and `Bits.pack_ofBytes`: packing takes eight bits at a time, and undoes
  `Bits.ofBytes`.
-/

namespace FamicomDisk

namespace Bits

/-- The eight bits of a byte, least significant first. -/
def ofByte (b : UInt8) : List Bool :=
  [b &&& 1 != 0, b &&& 2 != 0, b &&& 4 != 0, b &&& 8 != 0,
   b &&& 16 != 0, b &&& 32 != 0, b &&& 64 != 0, b &&& 128 != 0]

/-- The bits of a byte string, in disk order. -/
def ofBytes (bytes : List UInt8) : List Bool := bytes.flatMap ofByte

/-- The number whose bits, least significant first, are given. -/
def value (bits : List Bool) : Nat := bits.foldr (fun b n => b.toNat + 2 * n) 0

/-- The byte with the given bits; bits that are not given are zero. -/
def toByte (bits : List Bool) : UInt8 := UInt8.ofNat (value bits)

/-- The bytes of a bit string, newest first, on top of those packed before. -/
def packOnto (packed : List UInt8) : List Bool → List UInt8
  | b₀ :: b₁ :: b₂ :: b₃ :: b₄ :: b₅ :: b₆ :: b₇ :: rest =>
      packOnto (toByte [b₀, b₁, b₂, b₃, b₄, b₅, b₆, b₇] :: packed) rest
  | [] => packed
  | rest => toByte rest :: packed

/-- The bit string gathered into bytes, the last one filled with zero bits. -/
def pack (bits : List Bool) : List UInt8 := (packOnto [] bits).reverse

/-- The word with the given low and high bytes. -/
def word (low high : UInt8) : Nat := low.toNat + 256 * high.toNat

/-- The low and the high byte of a word. -/
def ofWord (w : Nat) : List UInt8 := [UInt8.ofNat w, UInt8.ofNat (w / 256)]

/-! ### Packing undoes unpacking -/

@[simp] theorem length_ofByte (b : UInt8) : (ofByte b).length = 8 := rfl

theorem packOnto_eq (packed : List UInt8) (bits : List Bool) :
    packOnto packed bits = (pack bits).reverse ++ packed := by
  induction h : bits.length using Nat.strongRecOn generalizing packed bits with
  | _ n ih =>
    rw [pack, List.reverse_reverse]
    match bits, h with
    | [], _ | [_], _ | [_, _], _ | [_, _, _], _ | [_, _, _, _], _ | [_, _, _, _, _], _
    | [_, _, _, _, _, _], _ | [_, _, _, _, _, _, _], _ => simp [packOnto]
    | _ :: _ :: _ :: _ :: _ :: _ :: _ :: _ :: rest, h =>
      rw [packOnto, packOnto, ih rest.length (by simp at h; omega) _ _ rfl,
        ih rest.length (by simp at h; omega) [_] _ rfl]
      simp

/-- Packing takes eight bits at a time. -/
theorem pack_append (byte rest : List Bool) (h : byte.length = 8) :
    pack (byte ++ rest) = toByte byte :: pack rest := by
  match byte, h with
  | [_, _, _, _, _, _, _, _], _ =>
    rw [pack]
    simp only [List.cons_append, List.nil_append, packOnto]
    rw [packOnto_eq]
    simp

theorem toByte_ofByte (b : UInt8) : toByte (ofByte b) = b := by
  have h : ∀ n : Fin 256, toByte (ofByte (UInt8.ofNat n)) = UInt8.ofNat n := by decide +kernel
  have := h ⟨b.toNat, b.toNat_lt⟩
  simpa using this

@[simp] theorem pack_nil : pack [] = [] := rfl

/-- Packing the bits of a byte string gives the byte string back. -/
@[simp] theorem pack_ofBytes (bytes : List UInt8) : pack (ofBytes bytes) = bytes := by
  induction bytes with
  | nil => rfl
  | cons b bytes ih =>
    rw [ofBytes, List.flatMap_cons, pack_append _ _ (length_ofByte b), toByte_ofByte]
    exact congrArg _ ih

end Bits

end FamicomDisk
