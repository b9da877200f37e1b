import FamicomDisk.Pulse

/-!
# Finding one's way in a capture

The lead-in before the first block varies a lot between drives, so reading begins with a search: for
the pulses that every disk header begins with, or for the end of a gap, which is a run of short pulses
and a medium one.

* `Capture.Head`: a place in a capture together with the pulses from there on.
* `Capture.Head.seekMark?`: the place behind the next gap end.
* `Capture.firstOccurrence?` and `Capture.findHeader?`: the first place where a pattern, or the start
  of a disk header, stands.
-/

namespace FamicomDisk

/-- The zero bits before a gap-end mark. -/
def minGap : Nat := 768

/-- The pulses in which the start of a disk header is looked for. -/
def signatureWindow : Nat := 65536

namespace Capture

/-- The pulses of the gap end and of the start of every disk header. -/
def headerSignature : List Pulse :=
  [1, 0, 1, 0, 0, 0, 0, 0, 0, 1, 2, 2, 1, 0, 1, 0,
   0, 1, 1, 2, 1, 1, 1, 1, 1, 1, 0, 0, 1, 1, 1, 0].map Pulse.ofCode

/-- The offset at which a pattern first stands in a capture whose first pulse is at `offset`. -/
def firstOccurrence? (pattern : List Pulse) (offset : Nat) : List Pulse → Option Nat
  | [] => if pattern.isEmpty then some offset else none
  | p :: ps =>
      if pattern.isPrefixOf (p :: ps) then some offset
      else firstOccurrence? pattern (offset + 1) ps

/-- The offset of the disk header, if its signature stands among the first `bound` pulses. -/
def findHeader? (bound : Nat) (pulses : List Pulse) : Option Nat :=
  firstOccurrence? headerSignature 0 (pulses.take bound)

/-- The offset of the disk header, which begins in the usual window. -/
def findUsualHeader? (pulses : List Pulse) : Option Nat :=
  findHeader? (signatureWindow + headerSignature.length) pulses

/-- A place in a capture. -/
structure Head where
  /-- The offset of the next pulse. -/
  offset : Nat
  /-- The pulses from there on. -/
  rest : List Pulse

namespace Head

/-- The place with the given offset. -/
def ofOffset (pulses : List Pulse) (offset : Nat) : Head := ⟨offset, pulses.drop offset⟩

/-- Look for a medium pulse after at least `least` short ones, `run` of which have just passed. The
first pulse is at `offset`. -/
def seek (least run offset : Nat) : List Pulse → Option Head
  | [] => none
  | .short :: ps => seek least (run + 1) (offset + 1) ps
  | .medium :: ps => if least ≤ run then some ⟨offset + 1, ps⟩ else seek least 0 (offset + 1) ps
  | _ :: ps => seek least 0 (offset + 1) ps

/-- The place behind the first medium pulse that comes after at least `least` short ones. -/
def seekMark? (least : Nat) (h : Head) : Option Head := seek least 0 h.offset h.rest

theorem length_rest_lt_of_seek {least run offset : Nat} {ps : List Pulse} {h : Head}
    (e : seek least run offset ps = some h) : h.rest.length < ps.length := by
  fun_induction seek least run offset ps with
  | case1 => simp at e
  | case2 _ _ _ ih => have := ih e; simp only [List.length_cons]; omega
  | case3 => simp only [Option.some.injEq] at e; subst e; simp
  | case4 _ _ _ _ ih => have := ih e; simp only [List.length_cons]; omega
  | case5 _ _ _ _ _ _ ih => have := ih e; simp only [List.length_cons]; omega

/-- Behind a gap end there is less left than before it. -/
theorem length_rest_lt_of_seekMark? {least : Nat} {h h' : Head}
    (e : h.seekMark? least = some h') : h'.rest.length < h.rest.length :=
  length_rest_lt_of_seek e

end Head

end Capture

end FamicomDisk
