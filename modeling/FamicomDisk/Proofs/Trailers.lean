import FamicomDisk.GameDoctor
import FamicomDisk.Proofs.Containers

/-!
Game Doctor dumps and the bytes in them that carry no information.

A dump is three bytes and then the blocks of a side, each with two bytes in the place of its check.
They are recorded blocks, then, and a reader that passes over what was recorded finds the blocks
alone. Where the bytes are no such dump, the reader says so: the sizes of the blocks are all known
before they are taken, so there is nothing else that can go wrong.

* `Parses`, `Side.parses_parse`: the blocks of a side are enumerated, or the data is found
  malformed.
* `GameDoctor.IsDumped`: the blocks that a dump holds.
* `GameDoctor.read_recorded`: **what is read from any dump**, and what comes of all other bytes.
-/

namespace FamicomDisk

/-! ### Malformed data -/

/-- A computation gives a result, or finds its data malformed. -/
def Parses {α : Type} (x : Except Fault α) : Prop :=
  (∃ a, x = .ok a) ∨ ∃ cause, x = .error (.format cause)

namespace Parses

variable {α β : Type} {x : Except Fault α} {f : α → Except Fault β}

lemma ok (a : α) : Parses (.ok a) := .inl ⟨a, rfl⟩

/-- What stands behind a computation is asked about its results only. -/
lemma bind (hx : Parses x) (hf : ∀ a, x = .ok a → Parses (f a)) : Parses (x >>= f) := by
  obtain ⟨a, rfl⟩ | ⟨cause, rfl⟩ := hx
  · exact hf a rfl
  · exact .inr ⟨cause, rfl⟩

end Parses

namespace Side

lemma parses_takeBlock (offset size : Nat) (rest : List UInt8) :
    Parses (takeBlock offset size rest) := by
  rw [takeBlock]
  split
  · exact .inr ⟨_, rfl⟩
  · exact .ok _

/-- A file header that was taken as a whole declares a size. -/
lemma parses_declaredSize {offset : Nat} {rest : List UInt8} {header : Block}
    (h : takeBlock offset 16 rest = .ok header) : Parses header.declaredSize := by
  have hlength := (takeBlock_eq_ok_iff.mp h).2
  have hdrop : (header.data.drop 13).length = 3 := by rw [List.length_drop, hlength]
  obtain ⟨low, high, last, hwords⟩ := List.length_eq_three.mp hdrop
  have hdeclared : header.declaredSize? = some (Bits.word low high) := by
    rw [Block.declaredSize?, hwords]
  exact .inl ⟨_, Block.declaredSize_eq_ok_iff.mpr hdeclared⟩

lemma parses_parseFiles (trailer : Nat) (before : List Block) (offset : Nat) (rest : List UInt8) :
    Parses (parseFiles trailer before offset rest) := by
  fun_induction parseFiles trailer before offset rest with
  | case1 before offset tail ih =>
      refine (parses_takeBlock ..).bind fun header hheader => ?_
      refine (parses_declaredSize hheader).bind fun size _ => ?_
      exact (parses_takeBlock ..).bind fun data _ => ih header size data
  | case2 before offset rest => exact .ok _

/-- The blocks of a side are enumerated, or the data is found malformed. -/
lemma parses_parse (dat : List UInt8) (offset trailer : Nat) : Parses (parse dat offset trailer) :=
  (parses_takeBlock ..).bind fun _ _ => (parses_takeBlock ..).bind fun _ _ =>
    (parses_parseFiles ..).bind fun _ _ => .ok _

end Side

/-! ### Dumps -/

namespace GameDoctor

/-- The blocks of a side that a dump holds: they have their sizes, and the second one is a file
count. -/
structure IsDumped (blocks : List Block) : Prop where
  sized : IsSized blocks
  counted : ∃ b ∈ blocks[1]?, b.type? = some .fileCount

variable {front tail : List UInt8} {rs : List Recorded}

/-- A dump has its disk header and its file count where they belong. -/
lemma isDump_recorded (hfront : front.length = lead) (hdumped : IsDumped (rs.map Recorded.block)) :
    isDump (front ++ (rs.flatMap Recorded.bytes ++ tail)) = true := by
  obtain ⟨hsized, hcounted⟩ := hdumped
  generalize hblocks : rs.map Recorded.block = blocks at hsized hcounted
  obtain @⟨header, count, files, hsignature, hheader, -, -⟩ := hsized
  obtain ⟨r, rs, rfl, rfl, hrs⟩ := List.map_eq_cons_iff.mp hblocks
  obtain ⟨s, rs, rfl, rfl, -⟩ := List.map_eq_cons_iff.mp hrs
  obtain ⟨_, hsecond, htype⟩ := hcounted
  obtain rfl := Option.some.inj hsecond
  obtain ⟨c, cs, hc, hcode⟩ := Block.exists_cons_of_type? htype
  have htwo : c = 2 := UInt8.toNat_inj.mp (Int.ofNat_inj.mp hcode)
  have hlength : (front ++ r.bytes).length = lead + 56 + trailer := by
    rw [List.length_append, hfront, Recorded.length_bytes, hheader]
    rfl
  have hwhole : front ++ ((r :: s :: rs).flatMap Recorded.bytes ++ tail)
      = front ++ r.bytes ++ (s.bytes ++ (rs.flatMap Recorded.bytes ++ tail)) := by
    simp only [List.flatMap_cons, List.append_assoc]
  rw [isDump, Bool.and_eq_true, List.isPrefixOf_iff_prefix, List.drop_left' hfront, hwhole,
    List.drop_left' hlength, Recorded.bytes, hc, htwo]
  refine ⟨?_, rfl⟩
  rw [List.flatMap_cons, Recorded.bytes, List.append_assoc, List.append_assoc]
  exact hsignature.trans (List.prefix_append ..)

/-- The blocks of a dump are read from it. -/
lemma read_eq (hfront : front.length = lead) (hdumped : IsDumped (rs.map Recorded.block))
    (htail : tail.head? ≠ some 3) :
    read (front ++ (rs.flatMap Recorded.bytes ++ tail))
      = .ok { blocks := rs.map Recorded.block } := by
  rw [read, if_pos (isDump_recorded hfront hdumped), ← hfront]
  exact @Side.parse_spaced _ Recorded.block (fun r => [r.low, r.high]) trailer tail rs hdumped.sized
    (fun _ _ => rfl) htail front

lemma parses_read (dat : List UInt8) : Parses (read dat) := by
  rw [read]
  split
  · exact Side.parses_parse ..
  · exact .inr ⟨_, rfl⟩

/-- **The bytes before the blocks of a dump and those behind each of them carry no information.**
Whatever they are, the blocks are read from the dump and nothing else, and its layout is that of the
blocks, if there is room for it. Any bytes are read as one side or found malformed. -/
theorem read_recorded :
    (∀ (front tail : List UInt8) (rs : List Recorded), front.length = lead →
        IsDumped (rs.map Recorded.block) → tail.head? ≠ some 3 →
        read (front ++ (rs.flatMap Recorded.bytes ++ tail))
            = .ok { blocks := rs.map Recorded.block }
          ∧ toLayout (front ++ (rs.flatMap Recorded.bytes ++ tail))
            = Layout.frame { blocks := rs.map Recorded.block })
      ∧ ∀ dat : List UInt8,
        (∃ side, read dat = .ok side) ∨ ∃ cause, read dat = .error (.format cause) := by
  refine ⟨fun front tail rs hfront hdumped htail => ?_, parses_read⟩
  have hread := read_eq hfront hdumped htail
  refine ⟨hread, ?_⟩
  rw [toLayout, hread, ok_bind]

/-- A file whose data does not begin with the code of its type, with the bytes of a file header in
front of the blocks and behind each of them. -/
theorem read_recorded_unmarkedSide :
    read ([3, 3, 3] ++ ((unmarkedSide.map fun b => (⟨b, 3, 3⟩ : Recorded)).flatMap Recorded.bytes
        ++ [0]))
      = .ok { blocks := unmarkedSide } :=
  (read_recorded.1 [3, 3, 3] [0] (unmarkedSide.map fun b => ⟨b, 3, 3⟩) rfl
    ⟨isSized_unmarkedSide, _, rfl, rfl⟩ (by decide)).1

end GameDoctor

end FamicomDisk
