import Mathlib.Data.List.Forall2

/-!
Computations one after the other, each of which may fail, and pieces put one after the other.

* `ok_bind`, `exists_of_bind_eq_ok`: what stands behind a computation that gives a result.
* `mapM_eq_ok_iff`, `exists_mapM_eq_ok`, `mapM_eq_error`: a computation for every element of a list
  gives a list of results if none fails, and else the fault of the first one that does;
  `mapM_eq_some_iff`: the same of values that there may be.
* `take_drop_flatten`: pieces of one length are found again in what they are put together to.
* `getElem?_replaced`, `take_drop_replaced`: elements that are replaced are the new ones, and the
  others are as before.
-/

namespace FamicomDisk

variable {ε α β : Type}

lemma ok_bind (a : α) (f : α → Except ε β) : (.ok a : Except ε α) >>= f = f a := rfl

lemma error_bind (e : ε) (f : α → Except ε β) : (.error e : Except ε α) >>= f = .error e := rfl

/-- A result is that of what stands behind, on a result of what stands before. -/
lemma exists_of_bind_eq_ok {x : Except ε α} {f : α → Except ε β} {b : β} (h : x >>= f = .ok b) :
    ∃ a, x = .ok a ∧ f a = .ok b := by
  cases x with
  | error e => cases h
  | ok a => exact ⟨a, rfl, h⟩

section

variable {g : α → Except ε β} {xs : List α}

/-- The results for all elements are those of the elements, in order. -/
lemma mapM_eq_ok_iff {ys : List β} :
    xs.mapM g = .ok ys ↔ List.Forall₂ (fun x y => g x = .ok y) xs ys := by
  induction xs generalizing ys with
  | nil =>
      rw [List.mapM_nil, List.forall₂_nil_left_iff]
      exact ⟨fun h => (Except.ok.inj h).symm, fun h => h ▸ rfl⟩
  | cons x xs ih =>
      rw [List.mapM_cons, List.forall₂_cons_left_iff]
      constructor
      · intro h
        obtain ⟨y, hy, h⟩ := exists_of_bind_eq_ok h
        obtain ⟨ys', hys, h⟩ := exists_of_bind_eq_ok h
        exact ⟨y, ys', hy, ih.mp hys, (Except.ok.inj h).symm⟩
      · rintro ⟨y, ys', hy, hys, rfl⟩
        rw [hy, ok_bind, ih.mpr hys]
        rfl

/-- The values for all elements are those of the elements, in order. -/
lemma mapM_eq_some_iff {f : α → Option β} {ys : List β} :
    xs.mapM f = some ys ↔ List.Forall₂ (fun x y => f x = some y) xs ys := by
  induction xs generalizing ys with
  | nil =>
      rw [List.mapM_nil, List.forall₂_nil_left_iff]
      exact ⟨fun h => (Option.some.inj h).symm, fun h => h ▸ rfl⟩
  | cons x xs ih =>
      rw [List.mapM_cons, List.forall₂_cons_left_iff]
      constructor
      · intro h
        obtain ⟨y, hy, h⟩ := Option.bind_eq_some_iff.mp h
        obtain ⟨ys', hys, h⟩ := Option.bind_eq_some_iff.mp h
        exact ⟨y, ys', hy, ih.mp hys, (Option.some.inj h).symm⟩
      · rintro ⟨y, ys', hy, hys, rfl⟩
        rw [hy, ih.mpr hys]
        rfl

/-- The results for the first numbers are those of the numbers, in order. -/
lemma mapM_range_eq_ok_iff {n : Nat} {g : Nat → Except ε β} {ys : List β} :
    (List.range n).mapM g = .ok ys
      ↔ ys.length = n ∧ ∀ (i : Nat) (y : β), ys[i]? = some y → g i = .ok y := by
  rw [mapM_eq_ok_iff, List.forall₂_iff_get]
  constructor
  · rintro ⟨hlen, hget⟩
    refine ⟨by simpa using hlen.symm, fun i y hy => ?_⟩
    obtain ⟨hi, rfl⟩ := List.getElem?_eq_some_iff.mp hy
    simpa using hget i (hlen ▸ hi) hi
  · rintro ⟨hlen, hget⟩
    refine ⟨by simpa using hlen.symm, fun i _ hi => ?_⟩
    simpa using hget i _ (List.getElem?_eq_getElem hi)

/-- If no computation fails, all have a result, in order. -/
lemma exists_mapM_eq_ok (h : ∀ x ∈ xs, ∃ y, g x = .ok y) :
    ∃ ys, xs.mapM g = .ok ys ∧ ys.length = xs.length
      ∧ ∀ (i : Nat) (x : α), xs[i]? = some x → ∃ y, ys[i]? = some y ∧ g x = .ok y := by
  induction xs with
  | nil => exact ⟨[], rfl, rfl, by simp⟩
  | cons x xs ih =>
      obtain ⟨y, hy⟩ := h x (by simp)
      obtain ⟨ys, hys, hlen, hget⟩ := ih fun z hz => h z (by simp [hz])
      refine ⟨y :: ys, by rw [List.mapM_cons, hy, ok_bind, hys]; rfl, by simp [hlen], ?_⟩
      intro i z hz
      cases i with
      | zero =>
          obtain rfl : x = z := by simpa using hz
          exact ⟨y, rfl, hy⟩
      | succ i => simpa using hget i z (by simpa using hz)

/-- The first computation that fails is the one whose fault is given. -/
lemma mapM_eq_error {x : α} {e : ε} (h : ∀ z ∈ xs, ∃ y, g z = .ok y) (hx : g x = .error e)
    (rest : List α) : (xs ++ x :: rest).mapM g = .error e := by
  induction xs with
  | nil => rw [List.nil_append, List.mapM_cons, hx, error_bind]
  | cons z xs ih =>
      obtain ⟨y, hy⟩ := h z (by simp)
      rw [List.cons_append, List.mapM_cons, hy, ok_bind, ih fun w hw => h w (by simp [hw]),
        error_bind]

end

section

variable {pieces : List (List α)} {piece : List α} {n : Nat}

lemma length_flatten_of_forall (hlen : ∀ p ∈ pieces, p.length = n) :
    pieces.flatten.length = pieces.length * n := by
  rw [List.length_flatten, List.map_eq_replicate_iff.mpr hlen, List.sum_replicate_nat]

/-- Pieces of one length are found again in what they are put together to. -/
lemma take_drop_flatten {i : Nat} (hlen : ∀ p ∈ pieces, p.length = n)
    (hi : pieces[i]? = some piece) : (pieces.flatten.drop (i * n)).take n = piece := by
  induction pieces generalizing i with
  | nil => simp at hi
  | cons first pieces ih =>
      have hfirst := hlen first (by simp)
      cases i with
      | zero =>
          obtain rfl : first = piece := by simpa using hi
          rw [Nat.zero_mul, List.drop_zero, List.flatten_cons, List.take_left' hfirst]
      | succ i =>
          rw [List.flatten_cons, Nat.add_one_mul, Nat.add_comm, ← List.drop_drop,
            List.drop_left' hfirst]
          exact ih (fun z hz => hlen z (by simp [hz])) (by simpa using hi)

end

section

variable {xs ys : List α} {offset : Nat} (h : offset + ys.length ≤ xs.length)
include h

lemma length_replaced :
    (xs.take offset ++ ys ++ xs.drop (offset + ys.length)).length = xs.length := by
  simp only [List.length_append, List.length_take, List.length_drop]
  omega

/-- Elements that are not replaced are as before. -/
lemma getElem?_replaced {i : Nat} (hi : i < offset ∨ offset + ys.length ≤ i) :
    (xs.take offset ++ ys ++ xs.drop (offset + ys.length))[i]? = xs[i]? := by
  have hlen : (xs.take offset).length = offset := by
    rw [List.length_take]
    omega
  rw [List.append_assoc]
  rcases hi with hi | hi
  · rw [List.getElem?_append_left (by omega), List.getElem?_take, if_pos hi]
  · rw [List.getElem?_append_right (by omega), List.getElem?_append_right (by omega),
      List.getElem?_drop, hlen]
    congr 1
    omega

/-- Elements that are replaced are the new ones. -/
lemma take_drop_replaced {i n : Nat} (hi : i + n ≤ ys.length) :
    ((xs.take offset ++ ys ++ xs.drop (offset + ys.length)).drop (offset + i)).take n
      = (ys.drop i).take n := by
  have hlen : (xs.take offset).length = offset := by
    rw [List.length_take]
    omega
  rw [List.append_assoc, ← List.drop_drop, List.drop_left' hlen,
    List.drop_append_of_le_length (by omega), List.take_append_of_le_length (by
      rw [List.length_drop]
      omega)]

end

end FamicomDisk
