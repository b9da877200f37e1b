/-!
# Letter machines

A letter machine reads its input from left to right and writes any number of letters for each letter
it reads. Pulses become bits, and bits become pulses, in this way.

* `Machine.run` is the word written from a given state, and `Machine.final` the state reached.
* `Machine.run_cons` and `Machine.run_append` are the recursion of a run. The run itself collects
  its output backwards, so that it needs no stack on inputs of any length.
-/

namespace FamicomDisk

/-- A machine with states `σ` that reads letters of `α` and writes letters of `β`. -/
structure Machine (σ α β : Type) where
  /-- The letters written, and the next state, when a letter is read in a state. -/
  step : σ → α → List β × σ

namespace Machine

variable {σ α β : Type} (m : Machine σ α β)

/-- The state reached from `s` after the input. -/
def final (s : σ) (xs : List α) : σ := xs.foldl (fun s x => (m.step s x).2) s

/-- The output of a run, newest letter first, on top of what was written before. -/
def runOnto (s : σ) (written : List β) : List α → List β
  | [] => written
  | x :: xs => runOnto (m.step s x).2 ((m.step s x).1.reverseAux written) xs

/-- The word written from the state `s` on the input. -/
def run (s : σ) (xs : List α) : List β := (m.runOnto s [] xs).reverse

@[simp] theorem final_nil (s : σ) : m.final s [] = s := rfl

@[simp] theorem final_cons (s : σ) (x : α) (xs : List α) :
    m.final s (x :: xs) = m.final (m.step s x).2 xs := rfl

theorem final_append (s : σ) (xs ys : List α) :
    m.final s (xs ++ ys) = m.final (m.final s xs) ys := List.foldl_append

theorem runOnto_eq (s : σ) (written : List β) (xs : List α) :
    m.runOnto s written xs = (m.run s xs).reverse ++ written := by
  induction xs generalizing s written with
  | nil => simp [run, runOnto]
  | cons x xs ih =>
    rw [run, runOnto, runOnto, ih, ih]
    simp [List.reverseAux_eq]

@[simp] theorem run_nil (s : σ) : m.run s [] = [] := rfl

@[simp] theorem run_cons (s : σ) (x : α) (xs : List α) :
    m.run s (x :: xs) = (m.step s x).1 ++ m.run (m.step s x).2 xs := by
  rw [run, runOnto, runOnto_eq]
  simp [List.reverseAux_eq]

theorem run_append (s : σ) (xs ys : List α) :
    m.run s (xs ++ ys) = m.run s xs ++ m.run (m.final s xs) ys := by
  induction xs generalizing s with
  | nil => rfl
  | cons x xs ih => simp [ih]

end Machine

end FamicomDisk
