import FamicomDisk.Proofs.Surface
import Mathlib.Data.List.Induction

/-!
Flux transitions.

The pulses of a bit string are the times between its flux transitions. Counted in half cells, every
such time is two, three or four, since after any bits the last transition lies one, two or three half
cells before the next cell; `Phase.elapsed` tells which. So the phases of the modulator are what is
left of the positions of the transitions, and a reader that starts behind a zero bit undoes it.

* `transition?`, `timed?`: where the transition of a bit lies, and the pulses of a bit string by the
  positions of its transitions.
* `timed?_eq`: **every time between two transitions has a pulse**, and these are the pulses that the
  modulator writes.
* `IsLegal`: the pulses that a reader never takes for a glitch; `isLegal_run`: the modulator writes no
  others.
* `run_demodulate`: **modulation undoes reading** on legal pulses.
* `modulate_demodulate`: both are inverse to each other, but for a last zero behind a one.
-/

namespace FamicomDisk

namespace Mfm

/-! ### Positions of transitions -/

/-- Where the transition of a bit lies, in half cells from the start of its cell, if it has one. A one
has it in the middle; a zero has it at the start, and none behind a one. -/
def transition? (before b : Bool) : Option Nat :=
  match before, b with
  | false, false => some 0
  | true, false => none
  | _, true => some 1

/-- The pulse of a time between two transitions, in half cells. -/
def pulseOf? (time : Int) : Option Pulse :=
  match time with
  | 2 => some .short
  | 3 => some .medium
  | 4 => some .long
  | _ => none

/-- The pulses of bits from a cell on, when the bit `before` is in the cell before and the last
transition was at the position `flux`, in half cells. There are none if some time has no pulse. -/
def timedFrom? (before : Bool) (cell : Nat) (flux : Int) : List Bool → Option (List Pulse)
  | [] => some []
  | b :: bits =>
      match transition? before b with
      | none => timedFrom? b (cell + 1) flux bits
      | some t =>
          match pulseOf? (2 * cell + t - flux) with
          | none => none
          | some p => (timedFrom? b (cell + 1) (2 * cell + t) bits).map (p :: ·)

/-- The pulses of a bit string by the positions of its transitions. A zero bit goes before it. -/
def timed? (bits : List Bool) : Option (List Pulse) := timedFrom? false 0 (-2) bits

namespace Phase

/-- The bit before the next cell. -/
def bit : Phase → Bool
  | one => true
  | zero | zeroAfterOne => false

/-- The half cells from the last transition to the next cell. -/
def elapsed : Phase → Nat
  | zero => 2
  | one => 1
  | zeroAfterOne => 3

/-- The phase behind a bit that was read. -/
def ofLast : Bool → Phase
  | false => zero
  | true => one

end Phase

/-- **One bit**: it is the next one before a cell, and either it has no transition and three half
cells have passed behind it, or the time that its transition ends is that of the pulse written. -/
lemma encode_timed (phase : Phase) (b : Bool) :
    (encode phase b).2.bit = b
      ∧ ((transition? phase.bit b = none ∧ (encode phase b).1 = []
          ∧ (encode phase b).2.elapsed = phase.elapsed + 2)
        ∨ ∃ t p, transition? phase.bit b = some t ∧ pulseOf? (phase.elapsed + t) = some p
          ∧ (encode phase b).1 = [p] ∧ (encode phase b).2.elapsed + t = 2) := by
  cases phase with
  | zero =>
      cases b with
      | false => exact ⟨rfl, .inr ⟨0, .short, rfl, rfl, rfl, rfl⟩⟩
      | true => exact ⟨rfl, .inr ⟨1, .medium, rfl, rfl, rfl, rfl⟩⟩
  | one =>
      cases b with
      | false => exact ⟨rfl, .inl ⟨rfl, rfl, rfl⟩⟩
      | true => exact ⟨rfl, .inr ⟨1, .short, rfl, rfl, rfl, rfl⟩⟩
  | zeroAfterOne =>
      cases b with
      | false => exact ⟨rfl, .inr ⟨0, .medium, rfl, rfl, rfl, rfl⟩⟩
      | true => exact ⟨rfl, .inr ⟨1, .long, rfl, rfl, rfl, rfl⟩⟩

/-- **A run by its transitions**: from any cell on the times have the pulses of the run. -/
lemma timedFrom?_eq (phase : Phase) (cell : Nat) (bits : List Bool) :
    timedFrom? phase.bit cell (2 * cell - phase.elapsed) bits
      = some (modulator.run phase bits) := by
  induction bits generalizing phase cell with
  | nil => rfl
  | cons b bits ih =>
      have hrun : modulator.run phase (b :: bits)
          = (encode phase b).1 ++ modulator.run (encode phase b).2 bits := modulator.run_cons ..
      have hrest := ih (encode phase b).2 (cell + 1)
      rw [timedFrom?, hrun]
      obtain ⟨hbit, ⟨ht, hnone, helapsed⟩ | ⟨t, p, ht, hp, hsome, helapsed⟩⟩ := encode_timed phase b
      · have hflux : 2 * ((cell + 1 : Nat) : Int) - ((encode phase b).2.elapsed : Int)
            = 2 * cell - phase.elapsed := by omega
        rw [hbit, hflux] at hrest
        rw [ht, hnone, List.nil_append]
        exact hrest
      · have htime : 2 * (cell : Int) + t - (2 * cell - phase.elapsed) = phase.elapsed + t := by
          omega
        have hflux : 2 * ((cell + 1 : Nat) : Int) - ((encode phase b).2.elapsed : Int)
            = 2 * cell + t := by omega
        rw [hbit, hflux] at hrest
        simp only [ht, htime, hp, hrest, hsome]
        rfl

/-- **Every time between two transitions has a pulse**, and these are what the modulator writes. -/
lemma timed?_eq (bits : List Bool) : timed? bits = some (modulate bits) :=
  timedFrom?_eq .zero 0 bits

/-! ### Legal pulses -/

/-- Behind the bit `last` no pulse is out of range, and none is a long one behind a zero. -/
def IsLegal (last : Bool) : List Pulse → Prop
  | [] => True
  | p :: ps => (IsClean p ∧ (p = .long → last = true)) ∧ IsLegal (decode last p).2 ps

/-- The modulator writes legal pulses. -/
lemma isLegal_run (phase : Phase) (bits : List Bool) :
    IsLegal phase.last (modulator.run phase bits) := by
  induction bits generalizing phase with
  | nil => trivial
  | cons b bits ih =>
      have hrun : modulator.run phase (b :: bits)
          = (encode phase b).1 ++ modulator.run (encode phase b).2 bits := modulator.run_cons ..
      rw [hrun]
      rcases encode_cases phase b with ⟨rfl, rfl, h⟩ | ⟨p, phase', h, -, hclean, hd⟩
      · exact ih .zeroAfterOne
      · rw [h, List.singleton_append]
        refine ⟨⟨hclean, ?_⟩, ?_⟩
        · rintro rfl
          -- behind a zero a long pulse would be read as a single bit
          cases phase <;> cases b <;> simp [encode] at h
          rfl
        · rw [hd]
          exact ih phase'

/-- One legal pulse is written again for the bits that were read from it. -/
lemma run_decode {last : Bool} {p : Pulse} (hclean : IsClean p) (hlong : p = .long → last = true) :
    modulator.run (.ofLast last) (decode last p).1 = [p]
      ∧ modulator.final (.ofLast last) (decode last p).1 = .ofLast (decode last p).2 := by
  rcases hclean with rfl | rfl | rfl
  · cases last <;> exact ⟨rfl, rfl⟩
  · cases last <;> exact ⟨rfl, rfl⟩
  · obtain rfl := hlong rfl
    exact ⟨rfl, rfl⟩

/-- **Modulation undoes reading**: legal pulses are written again for the bits that were read. -/
lemma run_demodulate {last : Bool} {pulses : List Pulse} (h : IsLegal last pulses) :
    modulator.run (.ofLast last) (demodulate last pulses) = pulses := by
  induction pulses generalizing last with
  | nil => rfl
  | cons p ps ih =>
      obtain ⟨⟨hclean, hlong⟩, hps⟩ := h
      obtain ⟨hrun, hfinal⟩ := run_decode hclean hlong
      rw [demodulate_cons, Machine.run_append, hrun, hfinal, ih hps]
      rfl

/-! ### The bit that is owed -/

lemma final_concat (phase : Phase) (bits : List Bool) (b : Bool) :
    modulator.final phase (bits ++ [b]) = (encode (modulator.final phase bits) b).2 := by
  rw [Machine.final_append]
  rfl

/-- The ends of two bit strings, compared from the last bit on. -/
lemma concat_suffix_concat (xs ys : List Bool) (a b : Bool) :
    xs ++ [a] <:+ ys ++ [b] ↔ a = b ∧ xs <:+ ys := by
  rw [← List.reverse_prefix, List.reverse_concat, List.reverse_concat, List.cons_prefix_cons,
    List.reverse_prefix]

/-- Behind a one the phase is that of a one. -/
lemma final_eq_one_iff (bits : List Bool) :
    modulator.final .zero bits = .one ↔ [true] <:+ bits := by
  cases bits using List.reverseRecOn with
  | nil => simp
  | append_singleton bits b =>
      have hlast : [true] <:+ bits ++ [b] ↔ true = b ∧ [] <:+ bits :=
        concat_suffix_concat [] bits true b
      rw [final_concat, hlast]
      cases b <;> cases modulator.final .zero bits <;> simp [encode]

/-- A bit is owed behind a zero that stands behind a one. -/
lemma final_eq_zeroAfterOne_iff (bits : List Bool) :
    modulator.final .zero bits = .zeroAfterOne ↔ [true, false] <:+ bits := by
  cases bits using List.reverseRecOn with
  | nil => simp
  | append_singleton bits b =>
      have hlast : [true, false] <:+ bits ++ [b] ↔ false = b ∧ [true] <:+ bits :=
        concat_suffix_concat [true] bits false b
      rw [final_concat, hlast, ← final_eq_one_iff]
      cases b <;> cases modulator.final .zero bits <;> simp [encode]

/-- **Reading undoes modulation**, but for a last zero behind a one. -/
lemma demodulate_modulate (bits : List Bool) :
    demodulate false (modulate bits)
      = if [true, false] <:+ bits then bits.dropLast else bits := by
  have hread : demodulate false (modulate bits) ++ (modulator.final .zero bits).pending = bits :=
    demodulate_run .zero bits
  split
  · next hlast =>
    rw [(final_eq_zeroAfterOne_iff bits).mpr hlast, Phase.pending] at hread
    conv_rhs => rw [← hread]
    exact List.dropLast_concat.symm
  · next hlast =>
    rwa [Phase.pending_of_ne (mt (final_eq_zeroAfterOne_iff bits).mp hlast), List.append_nil]
      at hread

/-! ### Both directions -/

/-- Byte strings are read back in full: the zero that may be owed fills up the last byte. -/
lemma pack_demodulate_modulate (dat : List UInt8) :
    Bits.pack (demodulate false (modulate (Bits.ofBytes dat))) = dat := by
  rw [demodulate_modulate]
  split
  · next hlast =>
    obtain ⟨before, hbefore⟩ := hlast
    have hbits : Bits.ofBytes dat = (before ++ [true]) ++ [false] := by
      rw [← hbefore, List.append_assoc]
      rfl
    have hlen := congrArg List.length hbits
    rw [Bits.length_ofBytes, List.length_append, List.length_singleton] at hlen
    calc Bits.pack (Bits.ofBytes dat).dropLast
        = Bits.pack (before ++ [true]) := by rw [hbits, List.dropLast_concat]
      _ = Bits.pack ((before ++ [true]) ++ [false]) :=
          (Bits.pack_concat_false (n := dat.length - 1) (by omega)).symm
      _ = dat := by rw [← hbits, Bits.pack_ofBytes]
  · exact Bits.pack_ofBytes dat

/-- **Modulation and reading are inverse to each other.** The times between the transitions of a bit
string all have a pulse, these are legal, and they are read back as the bits, but for a last zero
behind a one. Legal pulses are written again for the bits read from them. So a byte string behind a
lead-in of whole bytes is read back as that many zero bytes and itself. -/
theorem modulate_demodulate (bits : List Bool) (pulses : List Pulse) (dat : List UInt8) (k : Nat) :
    (timed? bits = some (modulate bits) ∧ IsLegal false (modulate bits)
        ∧ demodulate false (modulate bits)
          = if [true, false] <:+ bits then bits.dropLast else bits)
      ∧ (IsLegal false pulses → modulate (demodulate false pulses) = pulses)
      ∧ Bits.pack (demodulate false (modulate (List.replicate (8 * k) false ++ Bits.ofBytes dat)))
          = List.replicate k 0 ++ dat
      ∧ (((8 * k : Nat) : Int) ≤ maxLength → modulateBytes dat (8 * k : Nat)
          = .ok (modulate (List.replicate (8 * k) false ++ Bits.ofBytes dat))) := by
  refine ⟨⟨timed?_eq bits, isLegal_run .zero bits, demodulate_modulate bits⟩, run_demodulate, ?_,
    fun hmax => modulateBytes_eq hmax dat⟩
  rw [← Bits.ofBytes_replicate_zero, ← Bits.ofBytes_append, pack_demodulate_modulate]

/-- A one and a zero, a long pulse, and bytes that end in a one and a zero. -/
theorem modulate_demodulate_owed :
    timed? [true, false] = some [.medium] ∧ demodulate false [.medium] = [true]
      ∧ modulate (demodulate false [.medium, .long, .medium]) = [.medium, .long, .medium]
      ∧ ∃ pulses, modulateBytes [0x80, 0x41] (8 * 1 : Nat) = .ok pulses
        ∧ Bits.pack (demodulate false pulses) = [0, 0x80, 0x41] := by
  obtain ⟨⟨htimed, -, hread⟩, hwrite, hbytes, hmodulate⟩ :=
    modulate_demodulate [true, false] [.medium, .long, .medium] [0x80, 0x41] 1
  refine ⟨htimed, hread, hwrite ?_, _, hmodulate (by decide), hbytes⟩
  simp [IsLegal, IsClean, decode]

end Mfm

end FamicomDisk
