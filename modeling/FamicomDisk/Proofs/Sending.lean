import FamicomDisk.Adapter
import Mathlib.Algebra.Order.Floor.Div
import Mathlib.Order.Bounds.Defs
import Mathlib.Tactic.Lemma

/-!
A disk side sent in whole reports.

The stream of a side is cut into reports of one size, and reports of nothing but fill come behind
it. A device takes some number of reports, or all, and the first one that it refuses is the last one
it is sent. Whether the side was written is then a matter of where in the sequence of reports that
number lies: among those of the stream the disk is too full, and behind them the side was written
and the rest is fill.

* `length_chunks`, `flatten_chunks`: the reports of a stream, and what they carry.
* `taken`, `tried`: the reports that a device takes out of a sequence, and those it is sent.
* `perform_writeChunk`: one report.
* `perform_sendAll`, `perform_fillDisk`: **reports one after the other**, by induction over them.
* `writeDisk_delivers`: what comes of writing a disk, and what the device has taken.
-/

namespace FamicomDisk

/-- The first pieces of one length carry a first part of what all of them carry. -/
lemma flatten_take {α : Type} {pieces : List (List α)} {n : Nat}
    (hlen : ∀ p ∈ pieces, p.length = n) (k : Nat) :
    (pieces.take k).flatten = pieces.flatten.take (n * k) := by
  induction pieces generalizing k with
  | nil => simp
  | cons piece pieces ih =>
      have hpiece := hlen piece (by simp)
      cases k with
      | zero => simp
      | succ k =>
          rw [List.take_succ_cons, List.flatten_cons, List.flatten_cons,
            ih (fun p hp => hlen p (by simp [hp])), Nat.mul_succ, Nat.add_comm, ← hpiece,
            List.take_length_add_append]

namespace Adapter

open FamicomDisk.Action

/-! ### The reports of a stream -/

/-- The reports of a stream are whole. -/
lemma length_of_mem_chunks (stream : List UInt8) : ∀ c ∈ chunks stream, c.length = writeMax := by
  fun_induction chunks stream with
  | case1 => simp
  | case2 b bs chunk ih =>
      intro c hc
      rcases List.mem_cons.mp hc with rfl | hc
      · have hle : chunk.length ≤ writeMax := List.length_take_le ..
        rw [List.length_append, List.length_replicate]
        omega
      · exact ih c hc

/-- There are as many reports as are needed for the stream. -/
lemma length_chunks (stream : List UInt8) :
    (chunks stream).length = stream.length ⌈/⌉ writeMax := by
  have hmax : writeMax = 255 := rfl
  fun_induction chunks stream with
  | case1 => rfl
  | case2 b bs chunk ih =>
      rw [List.length_cons, ih, Nat.ceilDiv_eq_add_pred_div, Nat.ceilDiv_eq_add_pred_div,
        List.length_drop, List.length_cons, hmax]
      omega

/-- **The reports of a stream carry it**, and fill behind it. -/
lemma flatten_chunks (stream : List UInt8) :
    (chunks stream).flatten
      = stream ++ List.replicate (writeMax * (chunks stream).length - stream.length) fill := by
  fun_induction chunks stream with
  | case1 => rfl
  | case2 b bs chunk ih =>
      have hchunk : chunk = (b :: bs).take writeMax := rfl
      clear_value chunk
      generalize b :: bs = stream at hchunk ih
      have hlength : chunk.length = min writeMax stream.length := by rw [hchunk, List.length_take]
      have hdrop := List.length_drop (i := writeMax) (l := stream)
      rw [List.flatten_cons, ih, List.length_cons, List.append_assoc]
      by_cases hlong : writeMax ≤ stream.length
      · have hpad : writeMax * (chunks (stream.drop writeMax)).length - (stream.length - writeMax)
            = writeMax * ((chunks (stream.drop writeMax)).length + 1) - stream.length := by
          rw [Nat.mul_succ]
          omega
        rw [Nat.sub_eq_zero_of_le (by omega), List.replicate_zero, List.nil_append,
          ← List.append_assoc, hchunk, List.take_append_drop, hdrop, hpad]
      · -- the last report is filled
        have hnone : stream.drop writeMax = [] := List.drop_eq_nil_of_le (by omega)
        have hall : chunk = stream := hchunk.trans (List.take_of_length_le (by omega))
        have hempty : chunks ([] : List UInt8) = [] := by rw [chunks]
        rw [hnone, hall, hempty]
        simp

/-- The payloads of all the reports of a session: those of the stream, and as many of nothing but
fill as are sent at most. -/
def payloadsOf (stream : List UInt8) : List (List UInt8) :=
  chunks stream ++ List.replicate fillRounds (List.replicate writeMax fill)

lemma length_payloadsOf (stream : List UInt8) :
    (payloadsOf stream).length = stream.length ⌈/⌉ writeMax + fillRounds := by
  rw [payloadsOf, List.length_append, length_chunks, List.length_replicate]

lemma length_of_mem_payloadsOf {stream payload : List UInt8} (h : payload ∈ payloadsOf stream) :
    payload.length = writeMax := by
  rcases List.mem_append.mp h with h | h
  · exact length_of_mem_chunks stream payload h
  · rw [List.eq_of_mem_replicate h, List.length_replicate]

/-- All reports of a session carry the stream, and fill behind it. -/
lemma exists_flatten_payloadsOf (stream : List UInt8) :
    ∃ n, (payloadsOf stream).flatten = stream ++ List.replicate n fill := by
  have hfill : (List.replicate fillRounds (List.replicate writeMax fill)).flatten
      = List.replicate (fillRounds * writeMax) fill := List.flatten_replicate_replicate
  refine ⟨writeMax * (chunks stream).length - stream.length + fillRounds * writeMax, ?_⟩
  rw [payloadsOf, List.flatten_append, flatten_chunks, hfill, List.append_assoc,
    List.replicate_append_replicate]

/-! ### What a device takes -/

section

variable {left : Option Nat} {xs ys : List (List UInt8)} {x : List UInt8}

/-- Of reports the first ones, as many as a device takes. -/
def taken (left : Option Nat) (xs : List (List UInt8)) : List (List UInt8) :=
  match left with
  | none => xs
  | some k => xs.take k

/-- Of reports those that are tried: the ones that a device takes, and the first that it refuses. -/
def tried (left : Option Nat) (xs : List (List UInt8)) : List (List UInt8) :=
  match left with
  | none => xs
  | some k => xs.take (k + 1)

/-- A device takes all of the reports. -/
def TakesAll (left : Option Nat) (xs : List (List UInt8)) : Prop := ∀ k ∈ left, xs.length ≤ k

lemma taken_tried (left : Option Nat) (xs : List (List UInt8)) :
    taken left (tried left xs) = taken left xs := by
  cases left with
  | none => rfl
  | some k => rw [taken, tried, taken, List.take_take, Nat.min_eq_left (Nat.le_succ k)]

lemma length_tried_le (left : Option Nat) (xs : List (List UInt8)) :
    (tried left xs).length ≤ (taken left xs).length + 1 := by
  cases left with
  | none => exact Nat.le_succ _
  | some k =>
      rw [tried, taken, List.length_take, List.length_take]
      omega

lemma tried_nil (left : Option Nat) : tried left [] = [] := by
  cases left with
  | none => rfl
  | some k => exact List.take_nil

lemma taken_nil (left : Option Nat) : taken left [] = [] := by
  cases left with
  | none => rfl
  | some k => exact List.take_nil

lemma tried_cons (h : left ≠ some 0) :
    tried left (x :: xs) = x :: tried (left.map (· - 1)) xs := by
  match left, h with
  | none, _ => rfl
  | some (k + 1), _ => rfl

lemma taken_cons (h : left ≠ some 0) :
    taken left (x :: xs) = x :: taken (left.map (· - 1)) xs := by
  match left, h with
  | none, _ => rfl
  | some (k + 1), _ => rfl

lemma takesAll_cons (h : left ≠ some 0) :
    TakesAll left (x :: xs) ↔ TakesAll (left.map (· - 1)) xs := by
  match left, h with
  | none, _ => simp [TakesAll]
  | some (k + 1), _ => simp [TakesAll]

/-- Behind reports that are all taken, others are tried. -/
lemma tried_append (h : TakesAll left xs) (ys : List (List UInt8)) :
    tried left (xs ++ ys) = xs ++ tried (left.map (· - xs.length)) ys := by
  cases left with
  | none => rfl
  | some k =>
      have hle : xs.length ≤ k := h k rfl
      rw [tried, Option.map_some, tried, List.take_append, List.take_of_length_le (by omega)]
      congr 2
      omega

/-- Behind reports that are not all taken, nothing is tried. -/
lemma tried_append_of_not (h : ¬ TakesAll left xs) (ys : List (List UInt8)) :
    tried left (xs ++ ys) = tried left xs := by
  cases left with
  | none => exact absurd (by simp [TakesAll]) h
  | some k =>
      have hlt : k < xs.length := by simpa [TakesAll] using h
      exact List.take_append_of_le_length hlt

end

/-! ### One report -/

section

variable {a : Adapter} {payload : List UInt8} {xs : List (List UInt8)}

/-- The adapter when reports with the given payloads were tried. -/
def sent (a : Adapter) (xs : List (List UInt8)) : Adapter :=
  { a with device := { a.device with
      writesLeft := a.device.writesLeft.map (· - xs.length)
      log := (xs.map fun x => .write (codeWrite :: x)).reverse ++ a.device.log } }

lemma sent_sent (a : Adapter) (xs ys : List (List UInt8)) :
    (a.sent xs).sent ys = a.sent (xs ++ ys) := by
  have hleft : (a.device.writesLeft.map (· - xs.length)).map (· - ys.length)
      = a.device.writesLeft.map (· - (xs ++ ys).length) := by
    rw [Option.map_map, List.length_append]
    congr 1
    funext k
    exact Nat.sub_sub ..
  rw [sent, sent, sent]
  simp only [hleft, List.map_append, List.reverse_append, List.append_assoc]

lemma sent_nil (a : Adapter) : a.sent [] = a := by
  have hleft : a.device.writesLeft.map (· - ([] : List (List UInt8)).length)
      = a.device.writesLeft := Option.map_id'
  rw [sent, hleft]
  rfl

/-- **One report** of data, which is whole: the device takes it, unless it takes no more. -/
lemma perform_writeChunk (h : payload.length = writeMax) :
    (writeChunk payload).perform a
      = (.ok (decide (a.device.writesLeft ≠ some 0)), a.sent [payload]) := by
  have hdata : (sendData (codeWrite :: payload)).perform a
      = (.ok (decide (a.device.writesLeft ≠ some 0)), a.sent [payload]) := by
    obtain ⟨⟨replies, features, left, log⟩, sequence⟩ := a
    match left with
    | none => rfl
    | some 0 => rfl
    | some (k + 1) => rfl
  rw [writeChunk, if_pos h]
  exact hdata

/-- Write a report that is needed. -/
def send (payload : List UInt8) : Action Adapter Unit := do
  unless ← writeChunk payload do throw .diskFull

/-- **One report** that is needed: it is taken, or the disk is full. -/
lemma perform_send (h : payload.length = writeMax) :
    (send payload).perform a
      = (if a.device.writesLeft = some 0 then .error .diskFull else .ok (), a.sent [payload]) := by
  rw [send, perform_bind_ok (perform_writeChunk h)]
  by_cases hfull : a.device.writesLeft = some 0
  · rw [if_pos hfull, decide_eq_false (not_not_intro hfull)]
    rfl
  · rw [if_neg hfull, decide_eq_true hfull]
    rfl

/-! ### Reports one after the other -/

lemma takesAll_nil (left : Option Nat) : TakesAll left [] := fun _ _ => Nat.zero_le _

/-- **Reports that are all needed**: the first one that the device refuses is the last one, and says
that the disk is full. -/
lemma perform_forM_send (h : ∀ x ∈ xs, x.length = writeMax) :
    (TakesAll a.device.writesLeft xs →
        (xs.forM send).perform a = (.ok (), a.sent xs))
      ∧ (¬ TakesAll a.device.writesLeft xs →
        (xs.forM send).perform a
          = (.error .diskFull, a.sent (tried a.device.writesLeft xs))) := by
  induction xs generalizing a with
  | nil => exact ⟨fun _ => by rw [sent_nil]; rfl, fun hnot => absurd (takesAll_nil _) hnot⟩
  | cons x xs ih =>
      have hone := perform_send (a := a) (h x (by simp))
      have hmore := ih (a := a.sent [x]) fun y hy => h y (by simp [hy])
      rw [List.forM_eq_forM] at hmore ⊢
      rw [List.forM_cons]
      by_cases hfull : a.device.writesLeft = some 0
      · rw [if_pos hfull] at hone
        refine ⟨fun htakes => absurd (htakes 0 hfull) (by simp), fun _ => ?_⟩
        rw [perform_bind_error hone, hfull]
        rfl
      · rw [if_neg hfull] at hone
        rw [perform_bind_ok hone, takesAll_cons hfull, tried_cons hfull]
        rw [sent_sent, sent_sent] at hmore
        exact hmore

/-- **Reports of fill**: they end with the first one that the device refuses, and those that it has
taken are counted. -/
lemma perform_fillDisk (rounds n : Nat) (a : Adapter) :
    (fillDisk rounds n).perform a
      = (.ok (n + (taken a.device.writesLeft
            (List.replicate rounds (List.replicate writeMax fill))).length),
          a.sent (tried a.device.writesLeft
            (List.replicate rounds (List.replicate writeMax fill)))) := by
  induction rounds generalizing n a with
  | zero =>
      rw [List.replicate_zero, taken_nil, tried_nil, sent_nil]
      rfl
  | succ rounds ih =>
      have hwhole : (List.replicate writeMax fill).length = writeMax := List.length_replicate
      have hone := perform_writeChunk (a := a) hwhole
      rw [fillDisk, perform_bind_ok hone, List.replicate_succ]
      by_cases hfull : a.device.writesLeft = some 0
      · rw [decide_eq_false (not_not_intro hfull), hfull]
        rfl
      · rw [decide_eq_true hfull, if_pos rfl, ih, sent_sent, taken_cons hfull, tried_cons hfull,
          List.length_cons, Nat.add_assoc, Nat.add_comm 1]
        rfl

/-! ### Writing a disk -/

/-- The adapter when the disk was started. -/
def started (a : Adapter) : Adapter :=
  { a with device := { a.device with
      featuresLeft := a.device.featuresLeft.map (· - 1)
      log := .feature [codeWriteStart, 0] :: a.device.log } }

lemma perform_writeStart (h : a.device.featuresLeft ≠ some 0) :
    writeStart.perform a = (.ok (), a.started) := by
  obtain ⟨⟨replies, features, left, log⟩, sequence⟩ := a
  match features, h with
  | none, _ => rfl
  | some (k + 1), _ => rfl

/-- **A whole session**: the reports of the stream are needed, and those of fill are counted. -/
lemma perform_writeDisk (h : a.device.featuresLeft ≠ some 0) (stream : List UInt8) :
    (TakesAll a.device.writesLeft (chunks stream) →
        (writeDisk stream).perform a
          = (.ok (taken (a.device.writesLeft.map (· - (chunks stream).length))
                (List.replicate fillRounds (List.replicate writeMax fill))).length,
              a.started.sent (tried a.device.writesLeft (payloadsOf stream))))
      ∧ (¬ TakesAll a.device.writesLeft (chunks stream) →
        (writeDisk stream).perform a
          = (.error .diskFull,
            a.started.sent (tried a.device.writesLeft (payloadsOf stream)))) := by
  have hneeded := perform_forM_send (a := a.started) (length_of_mem_chunks stream)
  have hwhole : writeDisk stream
      = writeStart >>= fun _ => (chunks stream).forM send >>= fun _ => fillDisk fillRounds 0 := rfl
  rw [hwhole, perform_bind_ok (perform_writeStart h), payloadsOf]
  refine ⟨fun htakes => ?_, fun hnot => ?_⟩
  · rw [perform_bind_ok (hneeded.1 htakes), perform_fillDisk, sent_sent, tried_append htakes,
      Nat.zero_add]
    rfl
  · rw [perform_bind_error (hneeded.2 hnot), tried_append_of_not hnot]
    rfl

/-- The number of reports that fill a disk is the least one that is enough. -/
lemma isLeast_fillRounds : IsLeast {n | fillMax ≤ writeMax * n} fillRounds := by
  have hall : fillMax = 131072 := rfl
  have hmax : writeMax = 255 := rfl
  have hrounds : fillRounds = 515 := rfl
  constructor
  · change fillMax ≤ writeMax * fillRounds
    rw [hmax, hrounds]
    omega
  · intro n hn
    change fillMax ≤ writeMax * n at hn
    rw [hmax] at hn
    omega

/-- What a session delivers to a device that takes `left` reports of data, or all. The reports that
it tries carry the given payloads. -/
structure Delivers (stream : List UInt8) (left : Option Nat) (payloads : List (List UInt8))
    (result : Except Fault Nat) : Prop where
  /-- Every report is whole. -/
  whole : ∀ p ∈ payloads, p.length = writeMax
  /-- No report comes behind one that is refused. -/
  stops : payloads.length ≤ (taken left payloads).length + 1
  /-- When the disk is full before the stream is written, it has a first part of the stream. -/
  full : ∀ k ∈ left, k < stream.length ⌈/⌉ writeMax →
    result = .error .diskFull ∧ (taken left payloads).flatten = stream.take (writeMax * k)
  /-- Otherwise it has the stream and fill behind it, and the reports of nothing but fill that were
  taken are told. -/
  written : (∀ k ∈ left, stream.length ⌈/⌉ writeMax ≤ k) →
    ∃ filled n, result = .ok filled
      ∧ (taken left payloads).length = stream.length ⌈/⌉ writeMax + filled
      ∧ (taken left payloads).flatten = stream ++ List.replicate n fill
      ∧ (left = none → filled = fillRounds)
      ∧ ∀ k ∈ left, filled = min (k - stream.length ⌈/⌉ writeMax) fillRounds

section

variable {stream : List UInt8} {left : Option Nat} {k : Nat}

lemma takesAll_chunks_iff :
    TakesAll left (chunks stream) ↔ ∀ k ∈ left, stream.length ⌈/⌉ writeMax ≤ k := by
  rw [TakesAll, length_chunks]

lemma lt_ceilDiv_iff : k < stream.length ⌈/⌉ writeMax ↔ writeMax * k < stream.length := by
  rw [← not_le, ceilDiv_le_iff_le_mul (show 0 < writeMax by decide), not_le]

/-- A device that is full before the stream is written has a first part of it. -/
lemma flatten_taken_of_lt (h : k < stream.length ⌈/⌉ writeMax) :
    (taken (some k) (payloadsOf stream)).flatten = stream.take (writeMax * k) := by
  obtain ⟨n, hall⟩ := exists_flatten_payloadsOf stream
  have hlt := lt_ceilDiv_iff.mp h
  rw [taken, flatten_take fun _ => length_of_mem_payloadsOf, hall,
    List.take_append_of_le_length (by omega)]

/-- A device that takes the reports of the stream has the stream and fill behind it. -/
lemma exists_flatten_taken (h : ∀ k ∈ left, stream.length ⌈/⌉ writeMax ≤ k) :
    ∃ n, (taken left (payloadsOf stream)).flatten = stream ++ List.replicate n fill := by
  obtain ⟨n, hall⟩ := exists_flatten_payloadsOf stream
  cases left with
  | none => exact ⟨n, hall⟩
  | some k =>
      have hle : stream.length ≤ writeMax * k := by
        rw [← not_lt, ← lt_ceilDiv_iff, not_lt]
        exact h k rfl
      refine ⟨min (writeMax * k - stream.length) n, ?_⟩
      rw [taken, flatten_take fun _ => length_of_mem_payloadsOf, hall, List.take_append,
        List.take_of_length_le hle, List.take_replicate]

/-- The reports that a device takes of a session are those of the stream, and those of fill. -/
lemma length_taken (h : ∀ k ∈ left, stream.length ⌈/⌉ writeMax ≤ k) :
    (taken left (payloadsOf stream)).length = stream.length ⌈/⌉ writeMax
      + (taken (left.map (· - (chunks stream).length))
          (List.replicate fillRounds (List.replicate writeMax fill))).length := by
  cases left with
  | none => rw [taken, length_payloadsOf, Option.map_none, taken, List.length_replicate]
  | some k =>
      have hle := h k rfl
      rw [Option.map_some, taken, taken, List.length_take, List.length_take, length_payloadsOf,
        List.length_replicate, length_chunks]
      omega

lemma mem_of_mem_tried {x : List UInt8} {xs : List (List UInt8)} (h : x ∈ tried left xs) :
    x ∈ xs := by
  cases left with
  | none => exact h
  | some k => exact List.mem_of_mem_take h

end

/-- **Writing a disk delivers the stream, and only fill behind it**, whatever the stream is and
however many reports of data the device takes, if it starts. Every report is whole. If the device
refuses one of the stream, the disk is said to be full; otherwise the device has the stream and fill
behind it, and it is told how many reports of nothing but fill were taken: as many as the device
takes behind the stream, but no more than the least number that fills the disk. -/
theorem writeDisk_delivers {a : Adapter} (hstart : a.device.featuresLeft ≠ some 0)
    (stream : List UInt8) :
    ∃ payloads : List (List UInt8),
      ((writeDisk stream).perform a).2.device.log
          = (payloads.map fun p => .write (codeWrite :: p)).reverse
            ++ .feature [codeWriteStart, 0] :: a.device.log
        ∧ Delivers stream a.device.writesLeft payloads ((writeDisk stream).perform a).1
        ∧ IsLeast {n | fillMax ≤ writeMax * n} fillRounds := by
  obtain ⟨hwritten, hfull⟩ := perform_writeDisk hstart stream
  rw [takesAll_chunks_iff] at hwritten hfull
  refine ⟨tried a.device.writesLeft (payloadsOf stream), ?_, ⟨?_, ?_, ?_, ?_⟩, isLeast_fillRounds⟩
  · by_cases htakes : ∀ k ∈ a.device.writesLeft, stream.length ⌈/⌉ writeMax ≤ k
    · rw [hwritten htakes]
      rfl
    · rw [hfull htakes]
      rfl
  · exact fun p hp => length_of_mem_payloadsOf (mem_of_mem_tried hp)
  · rw [taken_tried]
    exact length_tried_le ..
  · intro k hk hlt
    rw [taken_tried, hfull fun htakes => absurd (htakes k hk) (Nat.not_le.mpr hlt), hk]
    exact ⟨rfl, flatten_taken_of_lt hlt⟩
  · intro htakes
    obtain ⟨n, hflatten⟩ := exists_flatten_taken htakes
    rw [taken_tried, hwritten htakes]
    refine ⟨_, n, rfl, length_taken htakes, hflatten, fun hleft => ?_, fun k hk => ?_⟩
    · rw [hleft, Option.map_none, taken, List.length_replicate]
    · rw [Option.mem_def.mp hk, Option.map_some, taken, List.length_take, List.length_replicate,
        length_chunks]

/-- A device that takes three reports of a stream of three hundred zeros: two of them are of the
stream, and one is of nothing but fill. -/
theorem writeDisk_delivers_three :
    ∃ (payloads : List (List UInt8)) (n : Nat),
      ((writeDisk (List.replicate 300 0)).perform
          { device := { writesLeft := some 3 } }).2.device.log
          = (payloads.map fun p => .write (codeWrite :: p)).reverse
            ++ [.feature [codeWriteStart, 0]]
        ∧ (payloads.take 3).flatten = List.replicate 300 0 ++ List.replicate n fill
        ∧ ((writeDisk (List.replicate 300 0)).perform { device := { writesLeft := some 3 } }).1
          = .ok 1 := by
  obtain ⟨payloads, hlog, hdelivers, -⟩ := writeDisk_delivers
    (a := { device := { writesLeft := some 3 } }) nofun (List.replicate 300 0)
  have hcount : (List.replicate 300 (0 : UInt8)).length ⌈/⌉ writeMax = 2 := by
    rw [List.length_replicate]
    rfl
  obtain ⟨filled, n, hresult, -, hflatten, -, hfilled⟩ := hdelivers.written (by
    rintro k ⟨⟩
    rw [hcount]
    decide)
  have hone := hfilled 3 rfl
  rw [hcount] at hone
  obtain rfl : filled = 1 := hone
  exact ⟨payloads, n, hlog, hflatten, hresult⟩

end

end Adapter

end FamicomDisk
