import FamicomDisk.Proofs.Trailers

/-!
Which bytes are a disk image.

Bytes are accepted as a disk image or found malformed, and the two are told apart side by side: each
part must begin as a disk header does, and its blocks must stand in it one after the other, up to a
place where no further file header begins. Only one byte string is neither: the magic number alone,
behind which the number of sides is looked for.

* `Side.exists_parseFiles_nil`, `Side.exists_parse_nil`: what stands behind the blocks that are
  enumerated when nothing is passed over.
* `DiskImage.Holds`, `DiskImage.readSide_eq_ok_iff`: what is read as a side.
* `DiskImage.splitHeader_cases`: the header is taken off, unless there is nothing but its magic
  number.
* `DiskImage.read_cases`: **what comes of any bytes**, and which of those without a header are
  accepted.
-/

namespace FamicomDisk

/-- Computations one after the other give their results, or the first of them that does not finds
its data malformed. -/
lemma Parses.mapM {α β : Type} {g : α → Except Fault β} {xs : List α}
    (h : ∀ x ∈ xs, Parses (g x)) : Parses (xs.mapM g) := by
  induction xs with
  | nil => exact .ok []
  | cons x xs ih =>
      rw [List.mapM_cons]
      refine (h x (by simp)).bind fun y _ => ?_
      exact (ih fun z hz => h z (by simp [hz])).bind fun ys _ => .ok (y :: ys)

namespace Side

/-- With nothing passed over, the data is the files that are enumerated and something behind them,
where no further one begins. -/
lemma exists_parseFiles_nil {offset : Nat} {before blocks : List Block} {rest : List UInt8}
    (h : parseFiles 0 before offset rest = .ok blocks) :
    ∃ files behind, blocks = files.reverse ++ before ∧ IsSizedFiles files
      ∧ rest = content { blocks := files } ++ behind ∧ behind.head? ≠ some 3 := by
  generalize htrailer : 0 = trailer at h
  fun_induction parseFiles trailer before offset rest with
  | case1 before offset tail ih =>
      subst htrailer
      obtain ⟨header, hheader, h⟩ := exists_of_bind_eq_ok h
      obtain ⟨size, hsize, h⟩ := exists_of_bind_eq_ok h
      obtain ⟨data, hdata, h⟩ := exists_of_bind_eq_ok h
      obtain ⟨files, behind, rfl, hfiles, hrest, hbehind⟩ := ih header size data h
      obtain ⟨htake, hlength⟩ := takeBlock_eq_ok_iff.mp hheader
      obtain ⟨htake', hlength'⟩ := takeBlock_eq_ok_iff.mp hdata
      have htype : header.type? = some .fileHeader := by
        rw [Block.type?, Block.code, htake]
        rfl
      have hdeclared := Block.declaredSize_eq_ok_iff.mp hsize
      refine ⟨header :: data :: files, behind, by simp,
        .file htype hlength hdeclared hlength' hfiles, ?_, hbehind⟩
      rw [content_cons, content_cons, List.append_assoc, List.append_assoc, ← hrest, htake, htake',
        Nat.add_zero, Nat.add_zero, List.take_append_drop, List.take_append_drop]
  | case2 before offset rest hend =>
      obtain rfl := Except.ok.inj h
      refine ⟨[], rest, rfl, .nil, rfl, ?_⟩
      intro hhead
      obtain ⟨tail, rfl⟩ := List.head?_eq_some_iff.mp hhead
      exact hend tail rfl

/-- With nothing passed over, the data is the blocks that are enumerated and something behind them,
where no further file begins. -/
lemma exists_parse_nil {dat : List UInt8} {side : Side} (h : parse dat 0 0 = .ok side) :
    ∃ behind, dat = side.content ++ behind ∧ behind.head? ≠ some 3 := by
  obtain ⟨header, hheader, h⟩ := exists_of_bind_eq_ok h
  obtain ⟨count, hcount, h⟩ := exists_of_bind_eq_ok h
  obtain ⟨blocks, hblocks, h⟩ := exists_of_bind_eq_ok h
  obtain rfl := Except.ok.inj h
  obtain ⟨files, behind, rfl, -, hrest, hbehind⟩ := exists_parseFiles_nil hblocks
  refine ⟨behind, ?_, hbehind⟩
  have hwhole : (files.reverse ++ [count, header]).reverse = header :: count :: files := by simp
  have htake := (takeBlock_eq_ok_iff.mp hheader).1
  have htake' := (takeBlock_eq_ok_iff.mp hcount).1
  rw [hwhole, content_cons, content_cons, List.append_assoc, List.append_assoc, ← hrest, htake,
    htake', List.drop_zero, Nat.add_zero, Nat.add_zero, List.take_append_drop,
    List.take_append_drop]

end Side

namespace DiskImage

variable {dat : List UInt8} {i : Nat}

/-! ### One side -/

/-- The bytes of a side hold blocks: these stand in them one after the other, each with its size,
and behind the last one no further file header begins. -/
structure Holds (part : List UInt8) (blocks : List Block) : Prop where
  sized : IsSized blocks
  stands : ∃ behind, part = Side.content { blocks } ++ behind ∧ behind.head? ≠ some 3

lemma Holds.signature_prefix {part : List UInt8} {blocks : List Block} (h : Holds part blocks) :
    diskSignature <+: part := by
  obtain ⟨⟨hsignature, -, -, -⟩, behind, rfl, -⟩ := h
  rw [Side.content_cons, List.append_assoc]
  exact hsignature.trans (List.prefix_append ..)

/-- The bytes of a side in a disk image hold its blocks. -/
lemma holds_filled {s : Side} (h : s.IsStorable) : Holds s.filled s.blocks := by
  refine ⟨h.sized, _, rfl, ?_⟩
  rw [List.head?_replicate]
  split <;> simp

/-- The zeros behind a side need not be there when it is the last one. -/
lemma sideBytes_content {s : Side} (h : s.content.length ≤ sideSize) :
    sideBytes s.content 0 = s.filled := by
  rw [sideBytes, Nat.zero_mul, List.drop_zero, List.take_of_length_le h]
  rfl

/-- **What is read as a side**: the blocks that its bytes hold. -/
lemma readSide_eq_ok_iff {s : Side} :
    readSide dat i = .ok s ↔ s = { blocks := s.blocks } ∧ Holds (sideBytes dat i) s.blocks := by
  constructor
  · intro h
    obtain ⟨hs, hstorable⟩ := isStorable_of_readSide h
    refine ⟨hs, hstorable.sized, ?_⟩
    rw [readSide] at h
    split at h
    · split at h
      · cases h
      · rw [← hs]
        exact Side.exists_parse_nil h
    · cases h
  · rintro ⟨hs, hholds⟩
    obtain ⟨behind, hpart, hbehind⟩ := hholds.stands
    have hparse : Side.parse (sideBytes dat i) 0 0 = .ok { blocks := s.blocks } := by
      have h := @Side.parse_spaced _ id (fun _ => []) 0 behind s.blocks
        ((List.map_id s.blocks).symm ▸ hholds.sized) (fun _ _ => rfl) hbehind []
      rwa [Side.spaced_nil, List.map_id, List.nil_append, ← hpart] at h
    rw [readSide, if_pos (List.isPrefixOf_iff_prefix.mpr hholds.signature_prefix), hparse]
    exact congrArg Except.ok hs.symm

lemma parses_readSide (dat : List UInt8) (i : Nat) : Parses (readSide dat i) := by
  rw [readSide]
  split
  · obtain ⟨s, hs⟩ | ⟨cause, hcause⟩ := Side.parses_parse (sideBytes dat i) 0 0
    · rw [hs]
      exact .ok s
    · rw [hcause]
      exact .inr ⟨_, rfl⟩
  · exact .inr ⟨_, rfl⟩

/-! ### The header -/

/-- The header is taken off, unless there is nothing but its magic number. -/
lemma splitHeader_cases (dat : List UInt8) :
    dat = magic ∧ splitHeader dat = .error .noSuchPlace
      ∨ dat ≠ magic ∧ ∃ told behind, splitHeader dat = .ok (told, behind)
        ∧ (¬ magic <+: dat → told = 0 ∧ behind = dat) := by
  by_cases hmagic : magic <+: dat
  · obtain ⟨rest, rfl⟩ := hmagic
    cases rest with
    | nil => exact .inl ⟨by simp, rfl⟩
    | cons count rest => exact .inr ⟨by simp, _, _, rfl, fun h => absurd ⟨_, rfl⟩ h⟩
  · refine .inr ⟨fun h => hmagic (h ▸ List.prefix_refl _), 0, dat, ?_, fun _ => ⟨rfl, rfl⟩⟩
    rw [splitHeader, if_neg (mt List.isPrefixOf_iff_prefix.mp hmagic)]
    rfl

/-! ### Any bytes -/

/-- Behind a header that is taken off, sides are read or the data is found malformed. -/
lemma parses_read {told : Nat} {behind : List UInt8}
    (h : splitHeader dat = .ok (told, behind)) : Parses (read dat) := by
  rw [read_of_splitHeader h]
  split
  · exact .inr ⟨_, rfl⟩
  · exact .mapM fun i _ => parses_readSide behind i

/-- A side that is read from the bytes begins in them. -/
lemma lt_sideCount_iff : i < sideCount 0 dat ↔ i * sideSize < dat.length := by
  have hsize : sideSize = 65500 := rfl
  rw [sideCount, if_pos rfl, hsize]
  omega

/-- Bytes without a header are read exactly if there is one and each side holds its blocks. -/
lemma exists_read_iff (hmagic : ¬ magic <+: dat) :
    (∃ sides, read dat = .ok sides) ↔ dat ≠ []
      ∧ ∀ i, i * sideSize < dat.length → ∃ blocks, Holds (sideBytes dat i) blocks := by
  have hsplit : splitHeader dat = .ok (0, dat) := by
    obtain ⟨rfl, -⟩ | ⟨-, told, behind, hsplit, hnone⟩ := splitHeader_cases dat
    · exact absurd (List.prefix_refl _) hmagic
    · obtain ⟨rfl, rfl⟩ := hnone hmagic
      exact hsplit
  constructor
  · rintro ⟨sides, hread⟩
    obtain ⟨told, behind, hsplit', hne, hlength, hget⟩ := read_eq_ok_iff.mp hread
    obtain ⟨rfl, rfl⟩ : 0 = told ∧ dat = behind := by
      simpa using hsplit.symm.trans hsplit'
    refine ⟨?_, fun i hi => ?_⟩
    · rintro rfl
      exact hne (List.length_eq_zero_iff.mp hlength)
    · have hlt : i < sides.length := by
        rw [hlength]
        exact lt_sideCount_iff.mpr hi
      have hside := readSide_eq_ok_iff.mp (hget i _ (List.getElem?_eq_getElem hlt))
      exact ⟨_, hside.2⟩
  · rintro ⟨hne, hholds⟩
    have heach : ∀ i ∈ List.range (sideCount 0 dat), ∃ s, readSide dat i = .ok s := by
      intro i hi
      obtain ⟨blocks, hblocks⟩ := hholds i (lt_sideCount_iff.mp (List.mem_range.mp hi))
      exact ⟨{ blocks }, readSide_eq_ok_iff.mpr ⟨rfl, hblocks⟩⟩
    obtain ⟨sides, hsides, -⟩ := exists_mapM_eq_ok heach
    have hpos : 0 < sideCount 0 dat := by
      rw [lt_sideCount_iff, Nat.zero_mul]
      exact List.length_pos_of_ne_nil hne
    exact ⟨sides, by rw [read_of_splitHeader hsplit, if_neg (by omega), hsides]⟩

/-- **What comes of any bytes.** They are read as one side or more, or found malformed, unless they
are the magic number of a header and nothing else: then there is no such place as that of the number
of sides. Bytes without a header are read exactly if there are any and each side of them, filled up
with zeros, begins as a disk header does and holds blocks. -/
theorem read_cases (dat : List UInt8) :
    (if dat = magic then read dat = .error .noSuchPlace
      else (∃ sides, sides ≠ [] ∧ read dat = .ok sides)
        ∨ ∃ cause, read dat = .error (.format cause))
    ∧ (¬ magic <+: dat → ((∃ sides, read dat = .ok sides) ↔ dat ≠ []
      ∧ ∀ i, i * sideSize < dat.length →
        diskSignature <+: sideBytes dat i ∧ ∃ blocks, Holds (sideBytes dat i) blocks)) := by
  refine ⟨?_, fun hmagic => ?_⟩
  · obtain ⟨rfl, hsplit⟩ | ⟨hne, told, behind, hsplit, -⟩ := splitHeader_cases dat
    · rw [if_pos rfl, read, hsplit, error_bind]
    · rw [if_neg hne]
      obtain ⟨sides, hread⟩ | hmalformed := parses_read hsplit
      · exact .inl ⟨sides, (isStorable_of_read hread).1, hread⟩
      · exact .inr hmalformed
  · rw [exists_read_iff hmagic]
    refine and_congr_right fun _ => forall₂_congr fun i _ => ?_
    constructor
    · rintro ⟨blocks, hholds⟩
      exact ⟨hholds.signature_prefix, blocks, hholds⟩
    · exact And.right

/-- A side whose file data has a code of its own, with no zeros behind it. -/
theorem read_cases_unmarkedSide :
    ¬ magic <+: Side.content { blocks := unmarkedSide }
      ∧ ∃ sides, read (Side.content { blocks := unmarkedSide }) = .ok sides := by
  have hmagic : ¬ magic <+: Side.content { blocks := unmarkedSide } := by decide
  refine ⟨hmagic, ((read_cases _).2 hmagic).mpr ⟨by decide, fun i hi => ?_⟩⟩
  obtain rfl : i = 0 := by
    have hlength : (Side.content { blocks := unmarkedSide }).length = 76 := rfl
    rw [hlength, sideSize] at hi
    omega
  have hholds := holds_filled isStorable_unmarkedSide
  rw [sideBytes_content isStorable_unmarkedSide.fits]
  exact ⟨hholds.signature_prefix, _, hholds⟩

/-- The magic number of a header alone is neither read nor found malformed. -/
theorem not_forall_read_cases : ¬ ∀ dat : List UInt8,
    (∃ sides, sides ≠ [] ∧ read dat = .ok sides) ∨ ∃ cause, read dat = .error (.format cause) := by
  intro h
  have hread : read magic = .error .noSuchPlace := rfl
  obtain ⟨sides, -, hok⟩ | ⟨cause, hcause⟩ := h magic
  · rw [hread] at hok
    cases hok
  · rw [hread] at hcause
    cases hcause

end DiskImage

end FamicomDisk
