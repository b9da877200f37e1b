import FamicomDisk.Adapter
import Mathlib.Tactic.Lemma

/-!
A disk side in numbered reports.

The adapter gives a side piece by piece, in full reports that are numbered one behind the other. The
first report that is not such a one ends the session: it is a piece that is not full, the end report,
or a fault. A lost report makes every piece behind it a fault, since the next piece has another
number. But the end report has no number that counts, so the loss of the last piece before it is not
seen.

* `IsPiece`, `Closes`: a piece with its number, and what comes of the report that ends a session.
* `readChunk_cases`: one report of a session, as a case analysis.
* `Transfers`, `Underway.exists_transfers`: **a whole session**, by induction over the reports.
* `reportsOf`, `Transfers.of_reportsOf`: the reports of some data, and that a session gives it back.
* `readDisk_transfers`: what is read, whatever the reports, and that it is all of some data.
* `readDisk_lost`: what is read if a piece is lost.
-/

namespace FamicomDisk

namespace Adapter

open FamicomDisk.Action

/-- A report of data that has the number `n`. -/
structure IsPiece (n : Nat) (report : List UInt8) : Prop where
  lt_length : 2 < report.length
  number_eq : report[1]? = some (UInt8.ofNat n)

/-- There is no report, or it is too short. -/
def badRead : Fault := .report codeRead.toNat "Timed out or bad read"

/-- A report of data has another number than the expected one. -/
def outOfSequence (number expected : UInt8) : Fault :=
  .report codeRead.toNat s!"Out of sequence ({number}, expected {expected}): Data lost"

/-- What comes of the report that ends a session, behind `n` full pieces with the data `before`. -/
inductive Closes (n : Nat) (before report : List UInt8) : Except Fault (List UInt8) → Prop where
  /-- The end report. -/
  | finished (length_eq : report.length = 2) : Closes n before report (.ok before)
  /-- A piece that is not full, or behind which there is no room for another one. -/
  | last (piece : IsPiece (n + 1) report)
      (stops : report.length ≠ readMax + 2 ∨ readRoom - readMax ≤ readMax * (n + 1)) :
      Closes n before report (.ok (before ++ report.drop 2))
  /-- A report without a number, or none at all. -/
  | short (length_lt : report.length < 2) : Closes n before report (.error badRead)
  /-- A report of data out of sequence. -/
  | lost {number : UInt8} (lt_length : 2 < report.length) (number_eq : report[1]? = some number)
      (ne : number ≠ UInt8.ofNat (n + 1)) :
      Closes n before report (.error (outOfSequence number (UInt8.ofNat (n + 1))))

namespace Closes

variable {n : Nat} {before report : List UInt8} {result : Except Fault (List UInt8)}

lemma of_end (h : Closes n before report result) (hend : report.length = 2) :
    result = .ok before := by
  cases h with
  | finished => rfl
  | last piece stops => exact absurd hend (Nat.ne_of_gt piece.lt_length)
  | short length_lt => exact absurd hend (Nat.ne_of_lt length_lt)
  | lost lt_length => exact absurd hend (Nat.ne_of_gt lt_length)

lemma of_piece (h : Closes n before report result) (piece : IsPiece (n + 1) report) :
    result = .ok (before ++ report.drop 2) := by
  have hlong := piece.lt_length
  cases h with
  | finished length_eq => omega
  | last => rfl
  | short length_lt => omega
  | lost _ number_eq ne =>
      exact absurd (Option.some.inj (number_eq.symm.trans piece.number_eq)) ne

/-- A report that is neither the next piece nor an end report is a fault. -/
lemma of_fault (h : Closes n before report result) (hpiece : ¬ IsPiece (n + 1) report)
    (hend : report.length ≠ 2) :
    ∃ reason, result = .error (.report codeRead.toNat reason) := by
  cases h with
  | finished length_eq => exact absurd length_eq hend
  | last piece => exact absurd piece hpiece
  | short => exact ⟨_, rfl⟩
  | lost => exact ⟨_, rfl⟩

end Closes

/-! ### One report -/

section

variable {a : Adapter} {report : List UInt8} {before : List (List UInt8)} {rounds k : Nat}

/-- The adapter when it has given a report from the disk. -/
def asked (a : Adapter) : Adapter :=
  { a with device := { a.device with
      replies := a.device.replies.tail, log := .request codeRead (readMax + 2) :: a.device.log } }

/-- What a report gives, told by its bytes. -/
lemma perform_readChunk (a : Adapter) :
    readChunk.perform a =
      match a.device.replies.headD [] with
      | _ :: number :: dat =>
          if dat.isEmpty then (.ok [], a.asked)
          else if number ≠ a.sequence then (.error (outOfSequence number a.sequence), a.asked)
          else (.ok dat, { a.asked with sequence := a.sequence + 1 })
      | _ => (.error badRead, a.asked) := by
  have hrequest : (request codeRead (readMax + 2)).perform a
      = (.ok (a.device.replies.headD []), a.asked) := rfl
  rw [readChunk, perform_bind_ok hrequest]
  match a.device.replies.headD [] with
  | [] => rfl
  | [_] => rfl
  | _ :: number :: dat =>
      simp only
      by_cases hempty : dat.isEmpty
      · rw [if_pos hempty, if_pos hempty]
        rfl
      · rw [if_neg hempty, if_neg hempty, perform_bind_ok (perform_get a.asked)]
        by_cases hnumber : number ≠ a.sequence
        · have hnumber' : number ≠ a.asked.sequence := hnumber
          rw [if_pos hnumber]
          simp only [if_pos hnumber']
          rfl
        · have hnumber' : ¬ number ≠ a.asked.sequence := hnumber
          rw [if_neg hnumber]
          simp only [if_neg hnumber']
          rfl

/-- **One report of a session** that expects the number `k + 1`. -/
lemma readChunk_cases (hseq : a.sequence = UInt8.ofNat (k + 1))
    (hreport : a.device.replies.headD [] = report) :
    (IsPiece (k + 1) report
        ∧ readChunk.perform a = (.ok (report.drop 2), { a.asked with sequence := a.sequence + 1 }))
      ∨ (report.length = 2 ∧ readChunk.perform a = (.ok [], a.asked))
      ∨ (report.length < 2 ∧ readChunk.perform a = (.error badRead, a.asked))
      ∨ ∃ number, 2 < report.length ∧ report[1]? = some number ∧ number ≠ UInt8.ofNat (k + 1)
        ∧ readChunk.perform a
          = (.error (outOfSequence number (UInt8.ofNat (k + 1))), a.asked) := by
  rw [perform_readChunk, hreport, hseq]
  match report with
  | [] => exact .inr (.inr (.inl ⟨by simp, rfl⟩))
  | [_] => exact .inr (.inr (.inl ⟨by simp, rfl⟩))
  | [_, _] => exact .inr (.inl ⟨rfl, rfl⟩)
  | code :: number :: b :: dat =>
      have hlong : 2 < (code :: number :: b :: dat).length := by simp
      by_cases hnumber : number = UInt8.ofNat (k + 1)
      · refine .inl ⟨⟨hlong, by rw [hnumber]; rfl⟩, ?_⟩
        simp only [List.isEmpty_cons, Bool.false_eq_true, if_false, ne_eq, hnumber,
          not_true_eq_false, List.drop_succ_cons, List.drop_zero]
      · refine .inr (.inr (.inr ⟨number, hlong, rfl, hnumber, ?_⟩))
        simp only [List.isEmpty_cons, Bool.false_eq_true, if_false, ne_eq, if_pos hnumber]

end

/-! ### Sessions -/

section

variable {a : Adapter} {replies : List (List UInt8)} {before : List (List UInt8)}
  {rounds k n : Nat}

/-- The first `n` reports are full pieces, numbered from one on. -/
def AllFull (n : Nat) (replies : List (List UInt8)) : Prop :=
  ∀ i < n, IsPiece (i + 1) (replies.getD i []) ∧ (replies.getD i []).length = readMax + 2

/-- The data of the first `n` reports. -/
def dataOf (n : Nat) (replies : List (List UInt8)) : List UInt8 :=
  (replies.take n).flatMap (List.drop 2)

/-- A session: `n` full pieces behind each of which there is room for another one, and the report
that ends it, which is empty if there is no other one. The reports behind are `left`. -/
structure Transfers (replies : List (List UInt8)) (n : Nat) (result : Except Fault (List UInt8))
    (left : List (List UInt8)) : Prop where
  full : AllFull n replies
  room : readMax * n < readRoom - readMax
  closes : Closes n (dataOf n replies) (replies.getD n []) result
  left_eq : left = replies.drop (n + 1)

/-- A session that has come as far as its first `k` reports, all of which are full pieces. -/
structure Underway (replies : List (List UInt8)) (k : Nat) (a : Adapter)
    (before : List (List UInt8)) : Prop where
  full : AllFull k replies
  replies_eq : a.device.replies = replies.drop k
  sequence_eq : a.sequence = UInt8.ofNat (k + 1)
  before_eq : before.reverse.flatten = dataOf k replies

lemma dataOf_succ (n : Nat) (replies : List (List UInt8)) :
    dataOf (n + 1) replies = dataOf n replies ++ (replies.getD n []).drop 2 := by
  rw [dataOf, List.take_add_one, List.flatMap_append, ← dataOf, List.getD_eq_getElem?_getD]
  cases replies[n]? <;> simp

lemma AllFull.length_dataOf (h : AllFull n replies) : (dataOf n replies).length = readMax * n := by
  induction n with
  | zero => rfl
  | succ n ih =>
      have hlast := (h n (Nat.lt_succ_self n)).2
      rw [dataOf_succ, List.length_append, ih fun i hi => h i (Nat.lt_succ_of_lt hi),
        List.length_drop, hlast, Nat.add_sub_cancel, Nat.mul_succ]

namespace Underway

lemma headD_replies (h : Underway replies k a before) :
    a.device.replies.headD [] = replies.getD k [] := by
  rw [h.replies_eq, List.headD_eq_head?_getD, List.head?_drop, List.getD_eq_getElem?_getD]

lemma replies_asked (h : Underway replies k a before) :
    a.asked.device.replies = replies.drop (k + 1) := by
  change a.device.replies.tail = _
  rw [h.replies_eq, List.tail_drop]

/-- A full piece takes a session one report further. -/
lemma next (h : Underway replies k a before) (piece : IsPiece (k + 1) (replies.getD k []))
    (hfull : (replies.getD k []).length = readMax + 2) :
    Underway replies (k + 1) { a.asked with sequence := a.sequence + 1 }
      ((replies.getD k []).drop 2 :: before) := by
  refine ⟨?_, h.replies_asked, ?_, ?_⟩
  · intro i hi
    rcases Nat.lt_succ_iff_lt_or_eq.mp hi with hi | rfl
    · exact h.full i hi
    · exact ⟨piece, hfull⟩
  · change a.sequence + 1 = _
    rw [h.sequence_eq, UInt8.ofNat_add (k + 1) 1]
    rfl
  · rw [List.reverse_cons, List.flatten_append, h.before_eq, List.flatten_singleton, dataOf_succ]

/-- **A whole session**, by induction over the reports for which there is room. -/
lemma exists_transfers (h : Underway replies k a before) (hrounds : rounds + k = readRounds)
    (hpos : 0 < rounds) :
    ∃ n, Transfers replies n ((readChunks rounds before).perform a).1
      ((readChunks rounds before).perform a).2.device.replies := by
  have hmax : readMax = 254 := rfl
  have hroom : readRoom = 589824 := rfl
  have hall : readRounds = 2322 := rfl
  induction rounds generalizing a k before with
  | zero => omega
  | succ rounds ih =>
      have hk : readMax * k < readRoom - readMax := by
        rw [hmax, hroom]
        omega
      have hdata := h.before_eq
      rcases readChunk_cases h.sequence_eq h.headD_replies with
        ⟨hpiece, hread⟩ | ⟨hend, hread⟩ | ⟨hshort, hread⟩ | ⟨number, hlong, hnumber, hne, hread⟩
      · rw [readChunks, perform_bind_ok hread]
        have hlong := hpiece.lt_length
        by_cases hfull : (replies.getD k []).length = readMax + 2
        · have hchunk : ((replies.getD k []).drop 2).length = readMax := by
            rw [List.length_drop, hfull, Nat.add_sub_cancel]
          have hnext := h.next hpiece hfull
          rw [if_pos hchunk]
          rcases Nat.eq_zero_or_pos rounds with rfl | hpos
          · -- there is no room for another piece
            have hresult : (dataOf k replies ++ (replies.getD k []).drop 2)
                = ((replies.getD k []).drop 2 :: before).reverse.flatten := by
              rw [hnext.before_eq, dataOf_succ]
            refine ⟨k, h.full, hk, ?_, hnext.replies_eq⟩
            rw [readChunks, perform_pure, ← hresult]
            exact .last hpiece (.inr (by rw [hmax, hroom]; omega))
          · exact ih hnext (by omega) hpos
        · have hchunk : ¬ ((replies.getD k []).drop 2).length = readMax := by
            rw [List.length_drop]
            omega
          rw [if_neg hchunk, perform_pure]
          refine ⟨k, h.full, hk, ?_, h.replies_asked⟩
          rw [List.reverse_cons, List.flatten_append, hdata, List.flatten_singleton]
          exact .last hpiece (.inl hfull)
      · have hempty : ¬ ([] : List UInt8).length = readMax := by decide
        rw [readChunks, perform_bind_ok hread, if_neg hempty, perform_pure]
        refine ⟨k, h.full, hk, ?_, h.replies_asked⟩
        rw [List.reverse_cons, List.flatten_append, hdata, List.flatten_singleton, List.append_nil]
        exact .finished hend
      · rw [readChunks, perform_bind_error hread]
        exact ⟨k, h.full, hk, .short hshort, h.replies_asked⟩
      · rw [readChunks, perform_bind_error hread]
        exact ⟨k, h.full, hk, .lost hlong hnumber hne, h.replies_asked⟩

end Underway

/-- Reading a disk is a session, if the disk starts. -/
lemma exists_transfers_readDisk (hstart : a.device.featuresLeft ≠ some 0) :
    ∃ n, Transfers a.device.replies n (readDisk.perform a).1
      (readDisk.perform a).2.device.replies := by
  obtain ⟨left, hleft⟩ : ∃ left, spend a.device.featuresLeft = (true, left) := by
    match a.device.featuresLeft, hstart with
    | none, _ => exact ⟨none, rfl⟩
    | some (n + 1), _ => exact ⟨some n, rfl⟩
  have hready : readStart.perform a = (.ok (), { a with
      sequence := 1
      device := { a.device with
        featuresLeft := left, log := .feature [codeReadStart, 0] :: a.device.log } }) := by
    have hsent : (sendFeature [codeReadStart, 0]).perform { a with sequence := 1 }
        = (.ok true, { a with
          sequence := 1
          device := { a.device with
            featuresLeft := left, log := .feature [codeReadStart, 0] :: a.device.log } }) := by
      have htaken : (spend a.device.featuresLeft).1 = true := by rw [hleft]
      have hspent : (spend a.device.featuresLeft).2 = left := by rw [hleft]
      rw [← htaken, ← hspent]
      rfl
    have hreset : (modify fun a => { a with sequence := 1 } : Action Adapter Unit).perform a
        = (.ok (), { a with sequence := 1 }) := rfl
    rw [readStart, perform_bind_ok hreset, start, perform_bind_ok hsent]
    rfl
  rw [readDisk, perform_bind_ok hready]
  exact Underway.exists_transfers (k := 0) ⟨by rintro i ⟨⟩, rfl, rfl, rfl⟩ rfl (by decide)

/-- A session ends with the first report that is no full piece. -/
lemma Transfers.eq_of_not_allFull {result : Except Fault (List UInt8)} {left : List (List UInt8)}
    (h : Transfers replies n result left) (hfull : AllFull k replies)
    (hroom : readMax * k < readRoom - readMax) (hend : ¬ AllFull (k + 1) replies) : n = k := by
  rcases Nat.lt_trichotomy n k with hlt | rfl | hgt
  · -- the report that ends the session would be a full piece
    obtain ⟨hpiece, hlen⟩ := hfull n hlt
    have hmore : readMax * (n + 1) ≤ readMax * k := Nat.mul_le_mul_left _ hlt
    have hmax : readMax = 254 := rfl
    cases h.closes with
    | finished length_eq => omega
    | last piece stops =>
        rcases stops with hne | hle
        · exact absurd hlen hne
        · omega
    | short length_lt => omega
    | lost _ number_eq ne =>
        exact absurd (Option.some.inj (number_eq.symm.trans hpiece.number_eq)) ne
  · rfl
  · exact absurd (fun i hi => h.full i (Nat.lt_of_lt_of_le hi hgt)) hend

end

/-! ### The reports of some data -/

/-- Data cut into pieces, numbered from one on. -/
def piecesOf (raw : List UInt8) : List (List UInt8) :=
  (List.range ((raw.length + (readMax - 1)) / readMax)).map fun i =>
    codeRead :: UInt8.ofNat (i + 1) :: (raw.drop (readMax * i)).take readMax

/-- The reports of a session: the pieces of the data, and an end report if the last one is full, or
if there is none. -/
def reportsOf (raw closing : List UInt8) : List (List UInt8) :=
  piecesOf raw ++ if readMax ∣ raw.length then [closing] else []

section

variable {raw : List UInt8} (closing : List UInt8) {i k : Nat}

lemma length_piecesOf (raw : List UInt8) :
    (piecesOf raw).length = (raw.length + (readMax - 1)) / readMax := by
  rw [piecesOf, List.length_map, List.length_range]

/-- The reports at whose numbers there is some data are its pieces. -/
lemma getD_reportsOf (h : readMax * i < raw.length) :
    (reportsOf raw closing).getD i []
      = codeRead :: UInt8.ofNat (i + 1) :: (raw.drop (readMax * i)).take readMax := by
  have hmax : readMax = 254 := rfl
  have hlt : i < (raw.length + (readMax - 1)) / readMax := by
    rw [hmax] at h ⊢
    omega
  rw [reportsOf, List.getD_eq_getElem?_getD,
    List.getElem?_append_left (by rw [length_piecesOf]; exact hlt), piecesOf, List.getElem?_map,
    List.getElem?_range hlt]
  rfl

lemma isPiece_reportsOf (h : readMax * i < raw.length) :
    IsPiece (i + 1) ((reportsOf raw closing).getD i []) := by
  have hmax : readMax = 254 := rfl
  rw [getD_reportsOf closing h]
  refine ⟨?_, rfl⟩
  rw [List.length_cons, List.length_cons, List.length_take, List.length_drop]
  omega

lemma allFull_reportsOf (h : readMax * k ≤ raw.length) : AllFull k (reportsOf raw closing) := by
  intro i hi
  have hle : readMax * (i + 1) ≤ readMax * k := Nat.mul_le_mul_left _ hi
  have hmax : readMax = 254 := rfl
  rw [Nat.mul_succ] at hle
  refine ⟨isPiece_reportsOf closing (by omega), ?_⟩
  rw [getD_reportsOf closing (by omega), List.length_cons, List.length_cons, List.length_take,
    List.length_drop]
  omega

/-- The data of the pieces is the data that was cut. -/
lemma dataOf_reportsOf (h : readMax * k < raw.length + readMax) :
    dataOf k (reportsOf raw closing) = raw.take (readMax * k) := by
  induction k with
  | zero => rfl
  | succ k ih =>
      rw [Nat.mul_succ] at h ⊢
      rw [dataOf_succ, ih (by omega), getD_reportsOf closing (by omega), List.take_add]
      rfl

/-- Behind the last full piece there is the end report, if there is no more data. -/
lemma getD_reportsOf_closing (h : readMax * k = raw.length) :
    (reportsOf raw closing).getD k [] = closing := by
  have hmax : readMax = 254 := rfl
  have hlen : (piecesOf raw).length = k := by
    rw [length_piecesOf, ← h, hmax]
    omega
  rw [reportsOf, if_pos ⟨k, h.symm⟩, List.getD_eq_getElem?_getD,
    List.getElem?_append_right (by omega), hlen, Nat.sub_self]
  rfl

/-- Behind the piece with the last data there is no report. -/
lemma length_reportsOf (hle : readMax * k ≤ raw.length) (hlt : raw.length < readMax * (k + 1)) :
    (reportsOf raw closing).length = k + 1 := by
  have hmax : readMax = 254 := rfl
  rw [reportsOf, List.length_append, length_piecesOf]
  rw [hmax] at hle hlt ⊢
  split
  · next hdvd =>
    obtain ⟨m, hm⟩ := hdvd
    rw [hm, List.length_singleton]
    omega
  · next hdvd =>
    have hne : raw.length ≠ 254 * k := fun h => hdvd ⟨k, h⟩
    rw [List.length_nil]
    omega

lemma getD_reportsOf_behind (hle : readMax * k ≤ raw.length)
    (hlt : raw.length < readMax * (k + 1)) : (reportsOf raw closing).getD (k + 1) [] = [] := by
  rw [List.getD_eq_getElem?_getD,
    List.getElem?_eq_none (Nat.le_of_eq (length_reportsOf closing hle hlt))]
  rfl

/-- Without one of its pieces the reports of a session are the same before, and later ones behind. -/
lemma getD_eraseIdx (replies : List (List UInt8)) (i k : Nat) :
    (replies.eraseIdx k).getD i [] = replies.getD (if i < k then i else i + 1) [] := by
  rw [List.getD_eq_getElem?_getD, List.getElem?_eraseIdx, List.getD_eq_getElem?_getD]
  split <;> rfl

lemma allFull_eraseIdx (h : readMax * k ≤ raw.length) :
    AllFull k ((reportsOf raw closing).eraseIdx k) := by
  intro i hi
  rw [getD_eraseIdx, if_pos hi]
  exact allFull_reportsOf closing h i hi

lemma dataOf_eraseIdx (replies : List (List UInt8)) (h : i ≤ k) :
    dataOf i (replies.eraseIdx k) = dataOf i replies := by
  induction i with
  | zero => rfl
  | succ i ih => rw [dataOf_succ, dataOf_succ, ih (by omega), getD_eraseIdx, if_pos (by omega)]

/-- The next number is another one. -/
lemma ofNat_succ_ne (n : Nat) : UInt8.ofNat (n + 1) ≠ UInt8.ofNat n := by
  intro h
  have hmod := congrArg UInt8.toNat h
  rw [UInt8.toNat_ofNat', UInt8.toNat_ofNat'] at hmod
  omega

end

/-! ### Reading a disk -/

/-- What is read fits into the room, if every report fits into one request. -/
lemma Transfers.length_lt {n : Nat} {dat : List UInt8} {replies left : List (List UInt8)}
    (h : Transfers replies n (.ok dat) left)
    (hlong : ∀ report ∈ replies, report.length ≤ readMax + 2) : dat.length < readRoom := by
  have hmax : readMax = 254 := rfl
  have hspace : readRoom = 589824 := rfl
  have hlen := h.full.length_dataOf
  have hroom := h.room
  have hclose := h.closes
  generalize hres : (Except.ok dat : Except Fault (List UInt8)) = res at hclose
  cases hclose with
  | finished length_eq =>
      obtain rfl := Except.ok.inj hres
      omega
  | last piece stops =>
      obtain rfl := Except.ok.inj hres
      have hreport : (replies.getD n []).length ≤ readMax + 2 := by
        rw [List.getD_eq_getElem?_getD]
        cases hget : replies[n]? with
        | none => simp
        | some report => exact hlong report (List.mem_of_getElem? hget)
      rw [List.length_append, List.length_drop]
      omega
  | short => cases hres
  | lost => cases hres

/-- **The reports of some data give it back**, and all of them are taken. -/
lemma Transfers.of_reportsOf {n : Nat} {raw closing : List UInt8}
    {result : Except Fault (List UInt8)} {left : List (List UInt8)}
    (h : Transfers (reportsOf raw closing) n result left) (hraw : raw.length < readRoom - readMax)
    (hclosing : closing.length = 2) : result = .ok raw ∧ left = [] := by
  have hmax : readMax = 254 := rfl
  have hspace : readRoom = 589824 := rfl
  have hle : readMax * (raw.length / readMax) ≤ raw.length := Nat.mul_div_le _ _
  have hlt : raw.length < readMax * (raw.length / readMax + 1) :=
    Nat.lt_mul_div_succ _ (by decide)
  generalize raw.length / readMax = k at hle hlt
  have hlen := length_reportsOf closing hle hlt
  have hfull := allFull_reportsOf closing hle
  rcases Nat.eq_or_lt_of_le hle with heq | hmore
  · -- the end report is behind the last full piece
    have hend := getD_reportsOf_closing closing heq
    obtain rfl := h.eq_of_not_allFull hfull (by omega) fun hnext => by
      have hnext' := (hnext k (Nat.lt_succ_self k)).2
      rw [hend] at hnext'
      omega
    have hresult := h.closes.of_end (by rw [hend]; exact hclosing)
    rw [dataOf_reportsOf closing (by omega), heq, List.take_length] at hresult
    exact ⟨hresult, by rw [h.left_eq, List.drop_of_length_le (by omega)]⟩
  · -- the last piece is not full
    have hpiece := isPiece_reportsOf closing hmore
    rw [Nat.mul_succ] at hlt
    obtain rfl := h.eq_of_not_allFull hfull (by omega) fun hnext => by
      have hnext' := (hnext k (Nat.lt_succ_self k)).2
      rw [getD_reportsOf closing hmore, List.length_cons, List.length_cons, List.length_take,
        List.length_drop] at hnext'
      omega
    have hresult := h.closes.of_piece hpiece
    rw [← dataOf_succ, dataOf_reportsOf closing (by rw [Nat.mul_succ]; omega),
      List.take_of_length_le (by rw [Nat.mul_succ]; omega)] at hresult
    exact ⟨hresult, by rw [h.left_eq, List.drop_of_length_le (by omega)]⟩

/-- **Reading a disk gives the numbered data, and nothing else**, whatever the device gives: there
are full pieces with their numbers up to the report that ends the session, which is a piece that is
not full, one that leaves no room, the end report, or a fault. So what is read fits into the room,
and of any data that leaves room for a piece the reports give back all, with no report left. -/
theorem readDisk_transfers {a : Adapter} (hstart : a.device.featuresLeft ≠ some 0) :
    (∃ n, Transfers a.device.replies n (readDisk.perform a).1
        (readDisk.perform a).2.device.replies)
      ∧ ((∀ report ∈ a.device.replies, report.length ≤ readMax + 2) →
        ∀ dat, (readDisk.perform a).1 = .ok dat → dat.length < readRoom)
      ∧ ∀ raw closing, raw.length < readRoom - readMax → closing.length = 2 →
        a.device.replies = reportsOf raw closing →
        (readDisk.perform a).1 = .ok raw ∧ (readDisk.perform a).2.device.replies = [] := by
  obtain ⟨n, hsession⟩ := exists_transfers_readDisk hstart
  refine ⟨⟨n, hsession⟩, ?_, ?_⟩
  · intro hlong dat hdat
    rw [hdat] at hsession
    exact hsession.length_lt hlong
  · intro raw closing hraw hclosing hreplies
    rw [hreplies] at hsession
    exact hsession.of_reportsOf hraw hclosing

set_option maxRecDepth 20000 in
/-- Two full pieces and an end report, with no report left. -/
theorem readDisk_transfers_two_pieces :
    let adapter : Adapter :=
      { device := { replies := reportsOf (List.replicate 508 0x40) [codeRead, 3] } }
    adapter.device.featuresLeft ≠ some 0 ∧ adapter.device.replies.length = 3
      ∧ (readDisk.perform adapter).1 = .ok (List.replicate 508 0x40)
      ∧ (readDisk.perform adapter).2.device.replies = [] := by
  have hread := (@readDisk_transfers
    { device := { replies := reportsOf (List.replicate 508 0x40) [codeRead, 3] } } nofun).2.2
    (List.replicate 508 0x40) [codeRead, 3] (by decide) rfl rfl
  exact ⟨nofun, length_reportsOf (k := 2) [codeRead, 3] (by decide) (by decide), hread⟩

/-- **A lost report is a fault**, unless it is the last piece before the end report. -/
theorem readDisk_lost {a : Adapter} {raw closing : List UInt8} {k : Nat}
    (hstart : a.device.featuresLeft ≠ some 0) (hraw : raw.length < readRoom - readMax)
    (hclosing : closing.length = 2) (hk : readMax * k < raw.length)
    (hreplies : a.device.replies = (reportsOf raw closing).eraseIdx k) :
    (readMax * (k + 1) ≠ raw.length →
        ∃ reason, (readDisk.perform a).1 = .error (.report codeRead.toNat reason))
      ∧ (readMax * (k + 1) = raw.length →
        (readDisk.perform a).1 = .ok (raw.take (readMax * k))) := by
  obtain ⟨n, hsession⟩ := exists_transfers_readDisk hstart
  rw [hreplies] at hsession
  have hnext : ((reportsOf raw closing).eraseIdx k).getD k []
      = (reportsOf raw closing).getD (k + 1) [] := by
    rw [getD_eraseIdx, if_neg (Nat.lt_irrefl k)]
  -- the report in the place of the lost one has another number, or none
  have hother : ¬ IsPiece (k + 1) (((reportsOf raw closing).eraseIdx k).getD k []) := by
    rw [hnext]
    intro hpiece
    rcases Nat.lt_trichotomy (readMax * (k + 1)) raw.length with hlt | heq | hgt
    · have hnumber := (isPiece_reportsOf closing hlt).number_eq
      exact ofNat_succ_ne (k + 1) (Option.some.inj (hnumber.symm.trans hpiece.number_eq))
    · have hlong := hpiece.lt_length
      rw [getD_reportsOf_closing closing heq] at hlong
      omega
    · have hlong := hpiece.lt_length
      rw [getD_reportsOf_behind closing (by omega) hgt] at hlong
      simp at hlong
  obtain rfl : k = n := (hsession.eq_of_not_allFull (allFull_eraseIdx closing (by omega)) (by omega)
    fun hfull => hother (hfull k (Nat.lt_succ_self k)).1).symm
  constructor
  · intro hne
    refine hsession.closes.of_fault hother ?_
    rw [hnext]
    rcases Nat.lt_or_gt_of_ne hne with hlt | hgt
    · exact Nat.ne_of_gt (isPiece_reportsOf closing hlt).lt_length
    · rw [getD_reportsOf_behind closing (by omega) hgt]
      simp
  · intro heq
    have hresult := hsession.closes.of_end (by
      rw [hnext, getD_reportsOf_closing closing heq]
      exact hclosing)
    rwa [dataOf_eraseIdx _ (Nat.le_refl k), dataOf_reportsOf closing (by omega)] at hresult

set_option maxRecDepth 20000 in
/-- Of three pieces the second one is lost. -/
theorem readDisk_lost_second :
    ∃ reason, (readDisk.perform { device := { replies :=
        (reportsOf (List.replicate 600 0x40) [codeRead, 4]).eraseIdx 1 } }).1
      = .error (.report codeRead.toNat reason) :=
  (@readDisk_lost { device := { replies :=
      (reportsOf (List.replicate 600 0x40) [codeRead, 4]).eraseIdx 1 } }
    (List.replicate 600 0x40) [codeRead, 4] 1 nofun (by decide) rfl (by decide) rfl).1 (by decide)

set_option maxRecDepth 20000 in
/-- **The loss of the last piece before the end report is not seen**: of two full pieces the first
one is read, without a fault. -/
theorem not_forall_lost_fault :
    ¬ ∀ (raw : List UInt8) (k : Nat), raw.length < readRoom - readMax → readMax * k < raw.length →
      ∃ reason, (readDisk.perform { device := { replies :=
          (reportsOf raw [codeRead, UInt8.ofNat (raw.length / readMax + 1)]).eraseIdx k } }).1
        = .error (.report codeRead.toNat reason) := by
  intro hall
  obtain ⟨reason, hfault⟩ := hall (List.replicate 508 0x40) 1 (by decide) (by decide)
  have hread : (readDisk.perform { device := { replies :=
      (reportsOf (List.replicate 508 0x40) [codeRead, 3]).eraseIdx 1 } }).1
        = .ok (List.replicate 254 0x40) := rfl
  cases hread.symm.trans hfault

end Adapter

end FamicomDisk
