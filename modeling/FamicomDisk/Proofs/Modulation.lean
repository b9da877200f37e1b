import FamicomDisk.Mfm
import Mathlib.Tactic.Lemma

/-!
Modulated bit strings, read back.

The modulator owes a bit only in one of its phases: a zero behind a one has no transition of its
own, so it is carried by the next pulse. `Phase.last` is what a reader knows in a phase and
`Phase.pending` what is still owed; `encode_cases` says once what the modulator can do with a bit,
and everything below is an induction over it.

* `demodulate_run`, `final_run`: reading the pulses of a bit string gives its bits, up to the
  pending one.
* `exists_cut`: wherever a modulated capture is cut, the pulses before the cut carry a first part
  of the bits, and those behind it are the modulation of the rest.
* `run_zeros`: zeros are short pulses.
* `getElem?_demodulateAt`: the pulse that a bit was read from, told by the numbers of bits read
  before and behind it.
-/

namespace FamicomDisk

namespace Mfm

/-! ### Phases -/

namespace Phase

/-- The bit that a reader has read last. -/
def last : Phase → Bool
  | zero => false
  | one | zeroAfterOne => true

/-- The bits that no pulse has carried yet. -/
def pending : Phase → List Bool
  | zeroAfterOne => [false]
  | zero | one => []

/-- The phase before the pending bit. -/
def settled : Phase → Phase
  | zeroAfterOne => one
  | phase => phase

lemma settled_ne (phase : Phase) : phase.settled ≠ zeroAfterOne := by
  cases phase <;> simp [settled]

@[simp] lemma last_settled (phase : Phase) : phase.settled.last = phase.last := by
  cases phase <;> rfl

lemma pending_of_ne {phase : Phase} (h : phase ≠ zeroAfterOne) : phase.pending = [] := by
  cases phase <;> first | rfl | exact absurd rfl h

end Phase

/-- A pulse that the drive can deliver from a clean disk. -/
def IsClean (p : Pulse) : Prop := p = .short ∨ p = .medium ∨ p = .long

/-- **What the modulator does with a bit**: a zero behind a one becomes pending, and every other
bit ends a pulse that carries it together with the pending one. -/
lemma encode_cases (phase : Phase) (b : Bool) :
    (phase = .one ∧ b = false ∧ encode phase b = ([], .zeroAfterOne))
      ∨ ∃ p phase', encode phase b = ([p], phase') ∧ phase' ≠ .zeroAfterOne ∧ IsClean p
          ∧ decode phase.last p = (phase.pending ++ [b], phase'.last) := by
  cases phase with
  | zero =>
      cases b with
      | false => exact .inr ⟨.short, .zero, rfl, nofun, .inl rfl, rfl⟩
      | true => exact .inr ⟨.medium, .one, rfl, nofun, .inr (.inl rfl), rfl⟩
  | one =>
      cases b with
      | false => exact .inl ⟨rfl, rfl, rfl⟩
      | true => exact .inr ⟨.short, .one, rfl, nofun, .inl rfl, rfl⟩
  | zeroAfterOne =>
      cases b with
      | false => exact .inr ⟨.medium, .zero, rfl, nofun, .inr (.inl rfl), rfl⟩
      | true => exact .inr ⟨.long, .one, rfl, nofun, .inr (.inr rfl), rfl⟩

/-- Pending bits may be taken back. -/
lemma run_settled (phase : Phase) (bits : List Bool) :
    modulator.run phase.settled (phase.pending ++ bits) = modulator.run phase bits := by
  cases phase with
  | zero | one => rfl
  | zeroAfterOne =>
      rw [Phase.settled, Phase.pending, List.singleton_append, Machine.run_cons]
      rfl

/-! ### Reading a capture -/

lemma demodulate_append (last : Bool) (xs ys : List Pulse) :
    demodulate last (xs ++ ys)
      = demodulate last xs ++ demodulate (demodulator.final last xs) ys :=
  demodulator.run_append last xs ys

@[simp] lemma demodulate_nil (last : Bool) : demodulate last [] = [] := rfl

lemma demodulate_cons (last : Bool) (p : Pulse) (ps : List Pulse) :
    demodulate last (p :: ps) = (decode last p).1 ++ demodulate (decode last p).2 ps :=
  demodulator.run_cons last p ps

/-- A pulse carries one bit, or two of which the first is a zero. -/
lemma decode_cases (last : Bool) (p : Pulse) :
    (∃ b, decode last p = ([b], b)) ∨ ∃ b, decode last p = ([false, b], b) := by
  cases last <;> cases p <;> simp [decode, resync]

lemma decode_length_pos (last : Bool) (p : Pulse) : 0 < (decode last p).1.length := by
  rcases decode_cases last p with ⟨b, h⟩ | ⟨b, h⟩ <;> simp [h]

lemma decode_length_le (last : Bool) (p : Pulse) : (decode last p).1.length ≤ 2 := by
  rcases decode_cases last p with ⟨b, h⟩ | ⟨b, h⟩ <;> simp [h]

lemma length_le_length_demodulate (last : Bool) (ps : List Pulse) :
    ps.length ≤ (demodulate last ps).length := by
  induction ps generalizing last with
  | nil => simp
  | cons p ps ih =>
      have hp := decode_length_pos last p
      have hps := ih (decode last p).2
      rw [demodulate_cons, List.length_append, List.length_cons]
      omega

/-- One more pulse carries at most two more bits. -/
lemma length_demodulate_take_succ_le (last : Bool) (ps : List Pulse) (i : Nat) :
    (demodulate last (ps.take (i + 1))).length ≤ (demodulate last (ps.take i)).length + 2 := by
  rw [List.take_add_one, demodulate_append, List.length_append]
  cases ps[i]? with
  | none => simp
  | some p =>
      have hp := decode_length_le (demodulator.final last (ps.take i)) p
      rw [Option.toList_some, demodulate_cons, demodulate_nil, List.append_nil]
      omega

/-- More pulses carry no fewer bits. -/
lemma length_demodulate_take_mono (last : Bool) (ps : List Pulse) {i j : Nat} (h : i ≤ j) :
    (demodulate last (ps.take i)).length ≤ (demodulate last (ps.take j)).length := by
  obtain ⟨qs, hqs⟩ : ps.take i <+: ps.take j := List.take_prefix_take_left h
  rw [← hqs, demodulate_append, List.length_append]
  omega

/-- What a reader has read last is the last bit. -/
lemma final_eq_getLastD (last : Bool) (ps : List Pulse) :
    demodulator.final last ps = (demodulate last ps).getLastD last := by
  induction ps generalizing last with
  | nil => rfl
  | cons p ps ih =>
      rw [Machine.final_cons, demodulate_cons]
      change demodulator.final (decode last p).2 ps = _
      rw [ih]
      rcases decode_cases last p with ⟨b, h⟩ | ⟨b, h⟩ <;> rw [h] <;>
        simp only [List.cons_append, List.nil_append, List.getLastD_cons]

/-- Short pulses repeat the last bit. -/
lemma demodulate_shorts (last : Bool) (n : Nat) :
    demodulate last (List.replicate n .short) = List.replicate n last := by
  induction n with
  | zero => rfl
  | succ n ih =>
      rw [List.replicate_succ, demodulate_cons, List.replicate_succ]
      cases last <;> simpa [decode] using ih

/-! ### Modulated bits, read back -/

/-- **Modulation, read back**: the pulses of a bit string carry its bits, but for the pending
one. -/
theorem demodulate_run (phase : Phase) (bits : List Bool) :
    demodulate phase.last (modulator.run phase bits) ++ (modulator.final phase bits).pending
      = phase.pending ++ bits := by
  induction bits generalizing phase with
  | nil => simp
  | cons b bits ih =>
      rw [Machine.run_cons, Machine.final_cons]
      change demodulate _ ((encode phase b).1 ++ _) ++ _ = _
      rcases encode_cases phase b with ⟨rfl, rfl, h⟩ | ⟨p, phase', h, hne, -, hd⟩
      · exact ih .zeroAfterOne
      · have hr := ih phase'
        rw [Phase.pending_of_ne hne, List.nil_append] at hr
        have hs : modulator.step phase b = ([p], phase') := h
        rw [hs, h, List.singleton_append, demodulate_cons, hd, List.append_assoc, hr,
          List.append_assoc, List.singleton_append]

/-- The reader of a modulated bit string ends with the last bit that it has read. -/
lemma final_run (phase : Phase) (bits : List Bool) :
    demodulator.final phase.last (modulator.run phase bits)
      = (modulator.final phase bits).last := by
  induction bits generalizing phase with
  | nil => rfl
  | cons b bits ih =>
      rw [Machine.run_cons, Machine.final_cons]
      rcases encode_cases phase b with ⟨rfl, rfl, h⟩ | ⟨p, phase', h, -, -, hd⟩
      · exact ih .zeroAfterOne
      · have hs : modulator.step phase b = ([p], phase') := h
        rw [hs, List.singleton_append, Machine.final_cons]
        have hd' : (demodulator.step phase.last p).2 = phase'.last := congrArg Prod.snd hd
        rw [hd']
        exact ih phase'

/-- No pulse of a modulated bit string is a glitch. -/
lemma isClean_of_mem_run {phase : Phase} {bits : List Bool} {p : Pulse}
    (h : p ∈ modulator.run phase bits) : IsClean p := by
  induction bits generalizing phase with
  | nil => simp at h
  | cons b bits ih =>
      rw [Machine.run_cons, List.mem_append] at h
      rcases h with h | h
      · change p ∈ (encode phase b).1 at h
        rcases encode_cases phase b with ⟨-, -, e⟩ | ⟨q, phase', e, -, hq, -⟩
        · simp [e] at h
        · rw [e, List.mem_singleton] at h
          exact h ▸ hq
      · exact ih h

lemma glitch_not_mem_modulate (bits : List Bool) : Pulse.glitch ∉ modulate bits := by
  intro h
  rcases isClean_of_mem_run h with h | h | h <;> cases h

/-- A bit ends at most one pulse. -/
lemma length_run_le (phase : Phase) (bits : List Bool) :
    (modulator.run phase bits).length ≤ bits.length := by
  induction bits generalizing phase with
  | nil => exact Nat.le_refl 0
  | cons b bits ih =>
      have hrest := ih (encode phase b).2
      have hlen : (encode phase b).1.length ≤ 1 := by
        rcases encode_cases phase b with ⟨-, -, e⟩ | ⟨p, phase', e, -, -, -⟩ <;> rw [e] <;> simp
      have hs : modulator.step phase b = encode phase b := rfl
      rw [Machine.run_cons, hs, List.length_append, List.length_cons]
      omega

/-- **Where a modulated capture is cut**, the pulses before the cut carry a first part of the
bits, and those behind it are the modulation of the rest, with no bit pending. -/
lemma exists_cut (phase : Phase) (bits : List Bool) (m : Nat)
    (h : m ≤ (modulator.run phase bits).length) :
    ∃ before after phase', before ++ after = phase.pending ++ bits
      ∧ phase' ≠ .zeroAfterOne
      ∧ demodulate phase.last ((modulator.run phase bits).take m) = before
      ∧ demodulator.final phase.last ((modulator.run phase bits).take m) = phase'.last
      ∧ (modulator.run phase bits).drop m = modulator.run phase' after := by
  induction bits generalizing phase m with
  | nil =>
      obtain rfl : m = 0 := by simpa using h
      exact ⟨[], phase.pending ++ [], phase.settled, rfl, phase.settled_ne, rfl, by simp,
        (run_settled phase []).symm⟩
  | cons b bits ih =>
      cases m with
      | zero =>
          exact ⟨[], phase.pending ++ b :: bits, phase.settled, rfl, phase.settled_ne, rfl,
            by simp, (run_settled phase (b :: bits)).symm⟩
      | succ m =>
          rw [Machine.run_cons] at h ⊢
          rcases encode_cases phase b with ⟨rfl, rfl, e⟩ | ⟨p, phase', e, hne, -, hd⟩
          · exact ih .zeroAfterOne (m + 1) h
          · have hs : modulator.step phase b = ([p], phase') := e
            rw [hs, List.singleton_append, List.length_cons] at h
            obtain ⟨before, after, phase'', hb, hne', hread, hfin, hrest⟩ :=
              ih phase' m (Nat.le_of_succ_le_succ h)
            rw [Phase.pending_of_ne hne, List.nil_append] at hb
            rw [hs, List.singleton_append, List.take_succ_cons, List.drop_succ_cons]
            refine ⟨phase.pending ++ [b] ++ before, after, phase'', ?_, hne', ?_, ?_, hrest⟩
            · rw [List.append_assoc, hb, List.append_assoc, List.singleton_append]
            · rw [demodulate_cons, hd, hread]
            · have hd' : (demodulator.step phase.last p).2 = phase'.last := congrArg Prod.snd hd
              rw [Machine.final_cons, hd', hfin]

/-! ### Zeros -/

/-- Zeros are short pulses. -/
lemma run_zero_zeros (n : Nat) :
    modulator.run .zero (List.replicate n false) = List.replicate n .short := by
  induction n with
  | zero => rfl
  | succ n ih =>
      rw [List.replicate_succ, Machine.run_cons, List.replicate_succ]
      exact congrArg _ ih

/-- Zeros are short pulses, but for a medium one that carries the first two of them behind a
one. -/
lemma run_zeros {phase : Phase} (h : phase ≠ .zeroAfterOne) (n : Nat) :
    modulator.run phase (List.replicate (n + 2) false)
      = if phase = .one then .medium :: List.replicate n .short
        else List.replicate (n + 2) .short := by
  cases phase with
  | zero => exact run_zero_zeros (n + 2)
  | one =>
      rw [List.replicate_succ, List.replicate_succ, Machine.run_cons, Machine.run_cons]
      exact congrArg (Pulse.medium :: ·) (run_zero_zeros n)
  | zeroAfterOne => exact absurd rfl h

/-- In any phase, zeros are short pulses behind the first one. -/
lemma exists_run_zeros (phase : Phase) (n : Nat) :
    ∃ p k, modulator.run phase (List.replicate (n + 2) false) = p :: List.replicate k .short
      ∧ n ≤ k ∧ (p = .short ∨ p = .medium) := by
  cases phase with
  | zero => exact ⟨.short, n + 1, run_zero_zeros (n + 2), by omega, .inl rfl⟩
  | one =>
      have hone : Phase.one ≠ .zeroAfterOne := by decide
      exact ⟨.medium, n, (run_zeros hone n).trans (if_pos rfl), Nat.le_refl n, .inr rfl⟩
  | zeroAfterOne =>
      refine ⟨.medium, n + 1, ?_, by omega, .inr rfl⟩
      rw [List.replicate_succ, Machine.run_cons]
      exact congrArg _ (run_zero_zeros (n + 1))

lemma final_zero_zeros (n : Nat) : modulator.final .zero (List.replicate n false) = .zero := by
  induction n with
  | zero => rfl
  | succ n ih => exact ih

lemma final_zeros (phase : Phase) (n : Nat) :
    modulator.final phase (List.replicate (n + 2) false) = .zero := by
  cases phase <;> exact final_zero_zeros _

/-- Bits that end in two zeros leave nothing pending. -/
lemma final_append_zeros (phase : Phase) (bits : List Bool) {n : Nat} (h : 2 ≤ n) :
    modulator.final phase (bits ++ List.replicate n false) = .zero := by
  obtain ⟨k, rfl⟩ := Nat.exists_eq_add_of_le' h
  rw [Machine.final_append, final_zeros]

/-- Bits that end in two zeros are read back in full. -/
lemma demodulate_run_append_zeros {phase : Phase} (hp : phase ≠ .zeroAfterOne) (bits : List Bool)
    {n : Nat} (h : 2 ≤ n) :
    demodulate phase.last (modulator.run phase (bits ++ List.replicate n false))
      = bits ++ List.replicate n false := by
  have hr := demodulate_run phase (bits ++ List.replicate n false)
  rwa [final_append_zeros phase bits h, Phase.pending_of_ne hp, Phase.pending, List.append_nil,
    List.nil_append] at hr

/-! ### The pulse of a bit -/

lemma demodulateAt_cons (last : Bool) (offset : Nat) (p : Pulse) (ps : List Pulse) :
    demodulateAt last offset (p :: ps)
      = (decode last p).1.map (fun b => (b, offset))
        ++ demodulateAt (decode last p).2 (offset + 1) ps :=
  tracker.run_cons (last, offset) p ps

/-- **The pulse of a bit**: bit `j` was read from pulse `i` exactly when the pulses before `i` carry
at most `j` bits and those up to `i` more than `j`. What the pulse carries before the bit is a
zero. -/
lemma getElem?_demodulateAt {last : Bool} {offset j k : Nat} {b : Bool} {ps : List Pulse}
    (h : (demodulateAt last offset ps)[j]? = some (b, k)) :
    ∃ i, k = offset + i ∧ i < ps.length ∧ (demodulate last (ps.take i)).length ≤ j
      ∧ j < (demodulate last (ps.take (i + 1))).length
      ∧ ∀ j', (demodulate last (ps.take i)).length ≤ j' → j' < j →
          (demodulate last ps)[j']? = some false := by
  induction ps generalizing last offset j with
  | nil => simp [demodulateAt] at h
  | cons p ps ih =>
      rw [demodulateAt_cons] at h
      by_cases hj : j < (decode last p).1.length
      · rw [List.getElem?_append_left (by simpa using hj)] at h
        have hk : k = offset := by
          obtain ⟨c, -, hc⟩ := List.mem_map.mp (List.mem_of_getElem? h)
          simpa using (congrArg Prod.snd hc).symm
        refine ⟨0, hk, by simp, by simp, ?_, ?_⟩
        · rw [List.take_succ_cons, List.take_zero, demodulate_cons, demodulate_nil,
            List.append_nil]
          exact hj
        · intro j' _ hlt
          rw [demodulate_cons, List.getElem?_append_left (by omega)]
          rcases decode_cases last p with ⟨c, hc⟩ | ⟨c, hc⟩ <;> rw [hc] at hj ⊢ <;>
            simp only [List.length_cons, List.length_nil] at hj
          · omega
          · obtain rfl : j' = 0 := by omega
            rfl
      · rw [List.getElem?_append_right (by simpa using hj), List.length_map] at h
        obtain ⟨i, hk, hi, hle, hlt, hz⟩ := ih h
        refine ⟨i + 1, by omega, by simpa using hi, ?_, ?_, ?_⟩
        · rw [List.take_succ_cons, demodulate_cons, List.length_append]
          omega
        · rw [List.take_succ_cons, demodulate_cons, List.length_append]
          omega
        · intro j' hle' hlt'
          rw [List.take_succ_cons, demodulate_cons, List.length_append] at hle'
          rw [demodulate_cons, List.getElem?_append_right (by omega)]
          exact hz _ (by omega) (by omega)

end Mfm

end FamicomDisk
